import PartnerEdge.Awg.ConfMerge

/-!
# The installer's render of the conf

`configure_amneziawg` writes `awg0.conf` from the register response. It has its own validators, in
shell, and a Python base64 decoder. A required value that fails leaves the conf untouched, an
optional one loses its line. The release of the lock and the start of the interface that follow are
left out.
-/

namespace PartnerEdge.Awg

open Text

/-! ## Validators -/

def awgConfSafe (value : Str) : Bool :=
  !value.any fun c => c == '\n' || c == '\r' || c == '[' || c == ']'

/-- `^[0-9]+$`. -/
def isDigits (s : Str) : Bool := !s.isEmpty && s.all Char.isDigit

/-- `^[0-9]{1,n}$`. -/
def isDigitsUpTo (n : Nat) (s : Str) : Bool := isDigits s && s.length ≤ n

/-- `10#s`, which wraps. -/
def base10 (s : Str) : Int64 := Int64.ofNat (Nat.ofDigitChars 10 s 0)

def awgU16 (s : Str) : Bool := isDigitsUpTo 5 s && base10 s ≤ 65535

def awgU32 (s : Str) : Bool := isDigitsUpTo 10 s && base10 s ≤ 4294967295

def awgOnoff (s : Str) : Bool := s = "on".toList || s = "off".toList

/-- `N` or `N-M`, of at most `n` digits each. -/
def rangeBounds (n : Nat) (s : Str) : Option (Str × Str) :=
  match splitOnce '-' s with
  | some (lo, hi) => if isDigitsUpTo n lo && isDigitsUpTo n hi then some (lo, hi) else none
  | none => if isDigitsUpTo n s then some (s, s) else none

def awgHParse (s : Str) : Option (Str × Str) :=
  (rangeBounds 10 s).filter fun (lo, hi) =>
    5 ≤ base10 lo && base10 lo ≤ base10 hi && base10 hi ≤ 4294967295

def awgRange (s : Str) : Bool := (rangeBounds 18 s).any fun (lo, hi) => base10 lo ≤ base10 hi

/-- `${s#lead}` for a fixed `lead`. -/
def withoutLead (lead s : Str) : Str := if lead.isPrefixOf s then s.drop lead.length else s

/-- What stands between `<` and `>`. -/
def awgITagToken (tok : Str) : Bool :=
  let (key, arg) := (splitOnce ' ' tok).getD (tok, [])
  if key = "b".toList then
    let hex := withoutLead "0x".toList arg
    !hex.isEmpty && hex.length % 2 == 0 && hex.all isHexdigit
  else if (["t", "d", "ds"].map String.toList).contains key then true
  else if (["r", "rc", "rd", "dz"].map String.toList).contains key then
    let n := withoutLead ['+'] arg
    isDigitsUpTo 5 n && base10 n ≤ 65535
  else false

/-- The loop over the tags. -/
def awgITagTokens : Nat → Str → Bool
  | 0, _ => true
  | fuel + 1, rest =>
    match splitOnce '<' rest with
    | none => true
    | some (_, inner) =>
      match splitOnce '>' inner with
      | none => false
      | some (tok, rest) => awgITagToken tok && awgITagTokens fuel rest

def awgItag (s : Str) : Bool := s.contains '<' && awgITagTokens s.length s

section Python

variable {base64 : Base64} (python : base64.Lenient)

/-- `len(b64decode(value, validate=True)) == 32`. -/
def awgHpk32 (value : Str) : Bool := (python.decode value).any (·.length == 32)

def awgHpkIsZero (value : Str) : Bool :=
  (python.decode value).any fun b => b.length == 32 && b.all (· == 0)

end Python

/-! ## The register response -/

/-- The `AWG_*` variables; an unset one is empty. -/
inductive AwgVar where
  | allocatedIp | motherlyPubkey | motherlyEndpoint | motherlyAwgIp
  | listenPort
  | param (f : Field)
deriving DecidableEq, Repr

abbrev RegisterVars := AwgVar → Str

/-- What else a pass of the installer depends on. -/
structure Host where
  lockFileOpens : Bool
  lockAcquired : Bool
  /-- The conf is there and not empty. -/
  confPresent : Bool
  /-- The private key file, if it can be read. -/
  privKey : Option Str
  random : Nat

section Required

variable (vars : RegisterVars) (host : Host)

/-- The variables that are empty, unsafe or outside their grammar. -/
def failing (grammar : Str → Bool) (names : List (Str × AwgVar)) : List Str :=
  (names.filter fun (_, v) =>
    !(!(vars v).isEmpty && awgConfSafe (vars v) && grammar (vars v))).map Prod.fst

def identityVars : List (Str × AwgVar) := [
  ("AWG_ALLOCATED_IP".toList, .allocatedIp), ("AWG_MOTHERLY_PUBKEY".toList, .motherlyPubkey),
  ("AWG_MOTHERLY_ENDPOINT".toList, .motherlyEndpoint),
  ("AWG_MOTHERLY_AWG_IP".toList, .motherlyAwgIp)]

def junkVars : List (Str × AwgVar) := [
  ("AWG_JC".toList, .param .jc), ("AWG_JMIN".toList, .param .jmin),
  ("AWG_JMAX".toList, .param .jmax)]

def sVars : List (Str × AwgVar) := [
  ("AWG_S1".toList, .param .s1), ("AWG_S2".toList, .param .s2), ("AWG_S4".toList, .param .s4)]

def hVars : List (Str × AwgVar) := [
  ("AWG_H1".toList, .param .h1), ("AWG_H2".toList, .param .h2), ("AWG_H3".toList, .param .h3),
  ("AWG_H4".toList, .param .h4)]

/-- The H variables that parse, with their bounds. -/
def hBounds : List (Str × Str × Str) :=
  hVars.filterMap fun (name, v) =>
    if !(vars v).isEmpty && awgConfSafe (vars v) then (awgHParse (vars v)).map (name, ·) else none

def hOverlaps : List Str :=
  (pairs (hBounds vars)).filterMap fun ((name, lo, hi), (name', lo', hi')) =>
    if base10 lo ≤ base10 hi' && base10 lo' ≤ base10 hi then some (name ++ 'x' :: name') else none

def reservedPair : List Str :=
  let s1 := vars (.param .s1)
  let s2 := vars (.param .s2)
  if isDigits s1 && isDigits s2 && base10 s1 + 56 = base10 s2 then ["AWG_S1+56==AWG_S2".toList]
  else []

def junkInverted : List Str :=
  let jmin := vars (.param .jmin)
  let jmax := vars (.param .jmax)
  if isDigits jmin && isDigits jmax && base10 jmin > base10 jmax then
    ["AWG_JMIN-gt-AWG_JMAX".toList]
  else []

/-- `$(cat …)` drops the newlines at the end. -/
def privkey : Str := ((host.privKey.getD []).reverse.dropWhile (· == '\n')).reverse

def listenPort : Str :=
  if (vars .listenPort).isEmpty then Nat.toDigits 10 (43800 + host.random % 200)
  else vars .listenPort

def dropIdent : List Str :=
  failing vars (fun _ => true) identityVars ++ failing vars awgU32 junkVars ++
    failing vars awgU16 sVars ++ failing vars (fun h => (awgHParse h).isSome) hVars ++
    hOverlaps vars ++ reservedPair vars ++ junkInverted vars ++
    (if !(privkey host).isEmpty && awgConfSafe (privkey host) then []
      else ["AWG_PRIV_PATH".toList]) ++
    if awgConfSafe (listenPort vars host) then [] else ["AWG_LISTEN_PORT".toList]

end Required

/-! ## Optional lines -/

/-- The accumulators of the optional lines: the rows to render and what was dropped, for the
must-match and for the client-side fields. -/
structure OptLines where
  rows : List (Str × Str)
  dropMm : List Str
  dropCl : List Str

namespace OptLines

def empty : OptLines := ⟨[], [], []⟩

variable (acc : OptLines)

def addRow (key value : Str) : OptLines := { acc with rows := acc.rows ++ [(key, value)] }

def addDropMm (why : Str) : OptLines := { acc with dropMm := acc.dropMm ++ [why] }

def addDropCl (why : Str) : OptLines := { acc with dropCl := acc.dropCl ++ [why] }

end OptLines

def awgOpt (drop : OptLines → Str → OptLines) (label key value : Str) (validator : Str → Bool)
    (acc : OptLines) : OptLines :=
  if value.isEmpty then acc
  else if !awgConfSafe value then drop acc (label ++ "(charset)".toList)
  else if !validator value then drop acc (label ++ "(grammar)".toList)
  else acc.addRow key value

def awgOptMm := awgOpt OptLines.addDropMm

/-- The grammar is an expression. -/
def awgOptCl := awgOpt OptLines.addDropCl

def awgOptClf := awgOpt OptLines.addDropCl

section Optional

variable {base64 : Base64} (python : base64.Lenient) (vars : RegisterVars)

/-- An empty size counts as 0. -/
def hpkSizeOk (size : Str) : Bool :=
  let sv := if size.isEmpty then "0".toList else size
  isDigits sv && 12 ≤ base10 sv

/-- The precondition of an active key. -/
def hpkSizesOk : Bool := [Field.s1, .s2, .s3, .s4].all fun f => hpkSizeOk (vars (.param f))

def hpkLine (acc : OptLines) : OptLines :=
  let hpk := vars (.param .headerProtectionKey)
  if hpk.isEmpty then acc
  else if !awgConfSafe hpk then acc.addDropMm "header_protection_key(charset)".toList
  else if !awgHpk32 python hpk then acc.addDropMm "header_protection_key(grammar)".toList
  else if awgHpkIsZero python hpk then acc.addRow "HeaderProtectionKey".toList hpk
  else if hpkSizesOk vars then acc.addRow "HeaderProtectionKey".toList hpk
  else acc.addDropMm "header_protection_key(requires-S1-S4>=12)".toList

def optLines : OptLines :=
  .empty
    |> awgOptMm "s3".toList "S3".toList (vars (.param .s3)) awgU16
    |> awgOptClf "i1".toList "I1".toList (vars (.param .i1)) awgItag
    |> awgOptClf "i2".toList "I2".toList (vars (.param .i2)) awgItag
    |> awgOptClf "i3".toList "I3".toList (vars (.param .i3)) awgItag
    |> awgOptClf "i4".toList "I4".toList (vars (.param .i4)) awgItag
    |> awgOptClf "i5".toList "I5".toList (vars (.param .i5)) awgItag
    |> hpkLine python vars
    |> awgOptClf "content_padding_addition".toList "ContentPaddingAddition".toList
      (vars (.param .contentPaddingAddition)) awgRange
    |> awgOptClf "rekey_after_time".toList "RekeyAfterTime".toList
      (vars (.param .rekeyAfterTime)) awgRange
    |> awgOptClf "rekey_timeout".toList "RekeyTimeout".toList (vars (.param .rekeyTimeout)) awgRange
    |> awgOptClf "reject_after_time".toList "RejectAfterTime".toList
      (vars (.param .rejectAfterTime)) awgRange
    |> awgOptClf "keepalive_timeout".toList "KeepaliveTimeout".toList
      (vars (.param .keepaliveTimeout)) awgRange
    |> awgOptClf "max_handshake_attempts".toList "MaxHandshakeAttempts".toList
      (vars (.param .maxHandshakeAttempts)) awgRange
    |> awgOptMm "random_trailers".toList "RandomTrailers".toList
      (vars (.param .randomTrailers)) awgOnoff
    |> awgOptCl "disable_cookies".toList "DisableCookies".toList
      (vars (.param .disableCookies)) awgOnoff

end Optional

/-! ## The conf -/

section Render

variable {base64 : Base64} (python : base64.Lenient) (vars : RegisterVars) (host : Host)

def assign (row : Str × Str) : Str := row.1 ++ " = ".toList ++ row.2

def requiredRows : List (Str × Str) := [
  ("PrivateKey".toList, privkey host),
  ("Address".toList, vars .allocatedIp),
  ("ListenPort".toList, listenPort vars host),
  ("Jc".toList, vars (.param .jc)),
  ("Jmin".toList, vars (.param .jmin)),
  ("Jmax".toList, vars (.param .jmax)),
  ("S1".toList, vars (.param .s1)),
  ("S2".toList, vars (.param .s2)),
  ("S4".toList, vars (.param .s4)),
  ("H1".toList, vars (.param .h1)),
  ("H2".toList, vars (.param .h2)),
  ("H3".toList, vars (.param .h3)),
  ("H4".toList, vars (.param .h4))]

def fixedRows : List (Str × Str) := [
  ("Table".toList, "off".toList),
  ("MTU".toList, "1300".toList)]

def peerRows : List (Str × Str) := [
  ("PublicKey".toList, vars .motherlyPubkey),
  ("Endpoint".toList, vars .motherlyEndpoint),
  ("AllowedIPs".toList, vars .motherlyAwgIp ++ "/32".toList),
  ("PersistentKeepalive".toList, "25".toList)]

def interfaceRows : List (Str × Str) :=
  requiredRows vars host ++ (optLines python vars).rows ++ fixedRows

def confLines (interface peer : List (Str × Str)) : List Str :=
  "[Interface]".toList :: interface.map assign ++ [[], "[Peer]".toList] ++ peer.map assign ++ [[]]

def renderConf : Str := joinLines (confLines (interfaceRows python vars host) (peerRows vars))

inductive InstallOutcome where
  | lockFileNotWritable (degraded : Bool)
  | lockHeld (degraded : Bool)
  /-- The conf is left untouched; degraded. -/
  | renderSkipped (dropIdent : List Str)
  /-- Degraded if a must-match field was dropped. -/
  | written (conf : Str) (dropMm dropCl : List Str)
deriving DecidableEq, Repr

def configureAmneziawg : InstallOutcome :=
  if !host.lockFileOpens then .lockFileNotWritable (!host.confPresent)
  else if !host.lockAcquired then .lockHeld (!host.confPresent)
  else if !(dropIdent vars host).isEmpty then .renderSkipped (dropIdent vars host)
  else .written (renderConf python vars host) (optLines python vars).dropMm
    (optLines python vars).dropCl

end Render

end PartnerEdge.Awg
