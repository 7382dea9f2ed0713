import PartnerEdge.Net.Ipv6
import PartnerEdge.Text.Glob
import PartnerEdge.Text.Regex

/-!
# The guard before a peer is dialled

A peer's host is dialled only if it is an address outside the internal nets, or a name of which
every address is. Addresses are mostly judged by their text: the arms of a `case` match what an
internal address starts with. An IPv6 literal is first parsed, and if it embeds an IPv4 address this
address is judged in its place.
-/

namespace PartnerEdge.Health

open Text Net

/-! ## Literals -/

/-- `ip="${ip#[}"; ip="${ip%]}"` -/
def stripBrackets (s : Str) : Str :=
  let s := if s.head? = some '[' then s.tail else s
  if s.getLast? = some ']' then s.dropLast else s

/-- The first twelve bytes of the addresses that embed an IPv4 address, as numbers: `MAPPED`,
`NAT64` and `ZERO`. -/
def embeddingPrefixes : List (BitVec 96) := [0xffff, 0x64ff9b <<< 64, 0]

/-- The exit codes of `_ipv6_embedded_v4`, with what it prints. -/
inductive Embedding
  | embeds (quad : Str)
  | pure
  | unparseable
deriving DecidableEq, Repr

def quadOf (bits : BitVec 32) : Ipv4Addr :=
  ⟨bits.extractLsb' 24 8, bits.extractLsb' 16 8, bits.extractLsb' 8 8, bits.extractLsb' 0 8⟩

def ipv6EmbeddedV4 (lit : Str) : Embedding :=
  match parseIpv6 lit with
  | none => .unparseable
  | some v =>
    if embeddingPrefixes.contains (v.extractLsb' 32 96) then
      .embeds (showIpv4 (quadOf (v.extractLsb' 0 32)))
    else .pure

/-- What an internal IPv4 address starts with. In the arms a star follows. -/
def quadArms : List Glob :=
  [Glob.literal "127.",
    Glob.literal "0.",
    Glob.literal "10.",
    Glob.literal "192.168.",
    Glob.literal "169.254.",
    Glob.literal "172.1" ++ [Glob.range '6' '9', Glob.char '.'],
    Glob.literal "172.2" ++ [Glob.range '0' '9', Glob.char '.'],
    Glob.literal "172.3" ++ [Glob.range '0' '1', Glob.char '.'],
    Glob.literal "100.6" ++ [Glob.range '4' '9', Glob.char '.'],
    Glob.literal "100.7" ++ [Glob.range '0' '9', Glob.char '.'],
    Glob.literal "100.8" ++ [Glob.range '0' '9', Glob.char '.'],
    Glob.literal "100.9" ++ [Glob.range '0' '9', Glob.char '.'],
    Glob.literal "100.1" ++ [Glob.range '0' '1', Glob.range '0' '9', Glob.char '.'],
    Glob.literal "100.12" ++ [Glob.range '0' '7', Glob.char '.']]

/-- `[Ff][Ee][89AaBb]*:*` -/
def linkLocalArm : Glob :=
  [Glob.oneOf ['F', 'f'], Glob.oneOf ['E', 'e'], Glob.oneOf ['8', '9', 'A', 'a', 'B', 'b'],
    .star, Glob.char ':', .star]

/-- `[Ff][CcDd]*:*` -/
def uniqueLocalArm : Glob :=
  [Glob.oneOf ['F', 'f'], Glob.oneOf ['C', 'c', 'D', 'd'], .star, Glob.char ':', .star]

/-- The patterns of the internal ranges. -/
def internalArms : List Glob :=
  quadArms.map (· ++ [.star]) ++
    [Glob.literal "::1", Glob.literal "::", linkLocalArm, uniqueLocalArm]

def matchesInternalArm (ip : Str) : Bool := internalArms.any (·.accepts ip)

/-- `_ip_is_internal`. The call for an embedded address has no colon in its argument, so it goes
straight to the arms. -/
def ipIsInternal (ip : Str) : Bool :=
  let ip := stripBrackets ip
  if ip.contains ':' then
    match ipv6EmbeddedV4 ip with
    | .embeds quad => matchesInternalArm (stripBrackets quad)
    | .pure => matchesInternalArm ip
    | .unparseable => true
  else matchesInternalArm ip

/-! ## Numeric hosts -/

def between (lo hi : Char) : Regex := .one fun c => lo ≤ c && c ≤ hi

/-- `(0|[1-9][0-9]?|1[0-9][0-9]|2[0-4][0-9]|25[0-5])` -/
def octetRegex : Regex :=
  .alt (between '0' '0') <|
  .alt (.seq (between '1' '9') (.opt (between '0' '9'))) <|
  .alt (.seq (between '1' '1') (.seq (between '0' '9') (between '0' '9'))) <|
  .alt (.seq (between '2' '2') (.seq (between '0' '4') (between '0' '9')))
    (.seq (between '2' '2') (.seq (between '5' '5') (between '0' '5')))

def dotRegex : Regex := between '.' '.'

/-- `_ipv4_literal_is_suspect`: not four octets without leading zeros. -/
def ipv4LiteralIsSuspect (h : Str) : Bool :=
  !(Regex.seq octetRegex (.seq dotRegex (.seq octetRegex (.seq dotRegex
    (.seq octetRegex (.seq dotRegex octetRegex)))))).accepts h

def isNumericChar (c : Char) : Bool := isHex c || c == 'x' || c == 'X'

/-- The three shapes of a host that is taken for a number: `^0[xX][0-9a-fA-F]+$`, `^[0-9]+$` and
`^[0-9]+(\.[0-9xXa-fA-F]+)+$`. -/
def looksNumeric (s : Str) : Bool :=
  (match s with
    | '0' :: x :: rest => (x == 'x' || x == 'X') && !rest.isEmpty && rest.all isHex
    | _ => false) ||
  (parseDigits s).isSome ||
  match s.splitOn '.' with
  | first :: second :: rest =>
    (parseDigits first).isSome &&
      (second :: rest).all fun part => !part.isEmpty && part.all isNumericChar
  | _ => false

/-! ## Hosts -/

/-- `sort -u` -/
def sortUnique (answers : List Str) : List Str := (answers.mergeSort fun a b => a ≤ b).eraseDups

/-- `_host_is_internal`: the address that it prints if it allows the host. The answers are the first
column of what `getent ahosts` prints for the host. -/
def hostIsInternal (host : Str) (answers : List Str) : Option Str :=
  let bare := stripBrackets host
  if host.isEmpty then none
  else if bare.contains ':' then
    if ipIsInternal bare then none else some bare
  else if looksNumeric bare then
    if ipv4LiteralIsSuspect bare then none
    else if ipIsInternal bare then none
    else some bare
  else
    let resolved := (sortUnique answers).filter (!·.isEmpty)
    if resolved.any ipIsInternal then none else resolved.head?

end PartnerEdge.Health
