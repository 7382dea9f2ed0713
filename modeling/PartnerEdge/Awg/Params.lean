import PartnerEdge.Text.Base64
import PartnerEdge.Text.Scan

/-!
# AmneziaWG parameters

The epoch payload, the generated client defaults and the validators that every value passes before
it is written to `awg0.conf`. A rejection carries the data of the source's error text; all but the
last name the field they are about.
-/

namespace PartnerEdge.Awg

open Text

/-- The `AwgParams` fields that the merge writes, by the name used in `field=` markers. -/
inductive Field where
  | jc | jmin | jmax
  | s1 | s2 | s3 | s4
  | h1 | h2 | h3 | h4
  | i1 | i2 | i3 | i4 | i5
  | headerProtectionKey
  | contentPaddingAddition
  | rekeyAfterTime | rekeyTimeout | rejectAfterTime | keepaliveTimeout | maxHandshakeAttempts
  | randomTrailers | disableCookies
deriving DecidableEq, Repr

inductive IntOrRange where
  | single (n : Int64)
  | range (lo hi : Int64)
deriving DecidableEq, Repr

/-- `123` or `123-456`; the bounds are not looked at. -/
def IntOrRange.parse (s : Str) : Option IntOrRange :=
  match splitOnce '-' s with
  | some (lo, hi) => do return .range (← parseI64 lo) (← parseI64 hi)
  | none => do return .single (← parseI64 s)

structure AwgParams where
  jc : Option Int64
  jmin : Option Int64
  jmax : Option Int64
  s1 : Int64
  s2 : Int64
  s3 : Option Int64
  s4 : Int64
  h1 : IntOrRange
  h2 : IntOrRange
  h3 : IntOrRange
  h4 : IntOrRange
  i1 : Option Str
  i2 : Option Str
  i3 : Option Str
  i4 : Option Str
  i5 : Option Str
  headerProtectionKey : Option Str
  contentPaddingAddition : Option Str
  rekeyAfterTime : Option Str
  rekeyTimeout : Option Str
  rejectAfterTime : Option Str
  keepaliveTimeout : Option Str
  maxHandshakeAttempts : Option Str
  randomTrailers : Option Bool
  disableCookies : Option Bool
deriving DecidableEq, Repr

structure ClientDefaults where
  i1 : Str
  contentPaddingAddition : Str
  jc : Int64
  jmin : Int64
  jmax : Int64
deriving DecidableEq, Repr

inductive SpecKind where
  | sInt
  | hRange
  | rangeString
  | tagLiteral
  | headerProtectionKey
  | onOff
  | junkCount
deriving DecidableEq, Repr

inductive FieldValue where
  | int (n : Int64)
  | range (lo hi : Int64)
  | str (s : Str)
  | bool (b : Bool)
deriving DecidableEq, Repr

def FieldValue.ofIntOrRange : IntOrRange → FieldValue
  | .single n => .int n
  | .range lo hi => .range lo hi

inductive Section where
  | interface
deriving DecidableEq, Repr

/-! ## Rejections -/

inductive TagFault where
  | unterminated
  | emptyTag
  | hexMissing
  | hexMalformed
  | lengthMissing (key : Str)
  | lengthMalformed (key : Str)
  | unknownTag (key : Str)
  | noTag
deriving DecidableEq, Repr

inductive Rejection where
  | forbiddenCharacter (field : Field) (bad : Char)
  | junkValue (field : Field) (n : Int64)
  | iTag (field : Field) (value : Str) (reason : TagFault)
  | sValue (field : Field) (n : Int64)
  | hValue (field : Field) (lo hi : Int64)
  | rangeString (field : Field) (value : Str)
  | notBase64 (field : Field) (error : Str)
  | keyLength (field : Field) (length : Nat)
  | typeMismatch (field : Field) (kind : SpecKind) (v : FieldValue)
  | reservedPair (s2 s1 : Int64)
  | overlap (field : Field) (lo hi : Int64) (other : Field) (otherLo otherHi : Int64)
  | junkTooSmall (s1 s2 s3 s4 : Int64)
  | junkInverted (lo hi : Int64)
  | noSection (target : Section) (lines : List Str)
deriving DecidableEq, Repr

/-- The `field=` marker of the error. -/
def Rejection.field : Rejection → Option Field
  | .forbiddenCharacter field _ | .junkValue field _ | .iTag field _ _ | .sValue field _
  | .hValue field _ _ | .rangeString field _ | .notBase64 field _ | .keyLength field _
  | .typeMismatch field _ _ | .overlap field _ _ _ _ _ => some field
  | .reservedPair _ _ => some .s2
  | .junkTooSmall _ _ _ _ => some .headerProtectionKey
  | .junkInverted _ _ => some .jmax
  | .noSection _ _ => none

/-! ## Validators -/

def forbiddenConfChars : List Char := ['\n', '\r', '[', ']']

def validateConfString (field : Field) (value : Str) : Except Rejection Unit :=
  match value.find? (· ∈ forbiddenConfChars) with
  | some bad => .error (.forbiddenCharacter field bad)
  | none => .ok ()

def validateJunkValue (field : Field) (n : Int64) : Except Rejection Unit :=
  if 0 ≤ n ∧ n ≤ 4294967295 then .ok () else .error (.junkValue field n)

def isHexdigit (c : Char) : Bool :=
  c.isDigit || ('a' ≤ c && c ≤ 'f') || ('A' ≤ c && c ≤ 'F')

/-- The argument of `<b …>`: an even number of hex digits, at least two, after an optional `0x`. -/
def validateHex (arg : Option Str) : Except TagFault Unit :=
  match arg with
  | none => .error .hexMissing
  | some arg =>
    let digits := match arg with
      | '0' :: 'x' :: digits => digits
      | digits => digits
    if digits.isEmpty || digits.length % 2 != 0 || !digits.all isHexdigit then .error .hexMalformed
    else .ok ()

def validateLength (key : Str) (arg : Option Str) : Except TagFault Unit :=
  match arg with
  | none => .error (.lengthMissing key)
  | some arg =>
    match parseU64 arg with
    | some n => if n ≤ 65535 then .ok () else .error (.lengthMalformed key)
    | none => .error (.lengthMalformed key)

/-- What stands between `<` and `>`. -/
def validateTag (tag : Str) : Except TagFault Unit :=
  let (key, arg) := match splitOnce ' ' tag with
    | some (key, arg) => (key, some arg)
    | none => (tag, none)
  if key.isEmpty then .error .emptyTag
  else if key = ['b'] then validateHex arg
  else if key ∈ [['r'], ['r', 'c'], ['r', 'd'], ['d', 'z']] then validateLength key arg
  else if key ∈ [['t'], ['d'], ['d', 's']] then .ok ()
  else .error (.unknownTag key)

/-- The loop over the tags; it returns whether there was one. -/
def validateTags : Nat → Str → Bool → Except TagFault Bool
  | 0, _, sawTag => .ok sawTag
  | fuel + 1, rest, sawTag =>
    match splitOnce '<' rest with
    | none => .ok sawTag
    | some (_, inner) =>
      match splitOnce '>' inner with
      | none => .error .unterminated
      | some (tag, rest) => do
        validateTag tag
        validateTags fuel rest true

def validateITagGrammar (value : Str) : Except TagFault Unit := do
  let sawTag ← validateTags value.length value false
  if sawTag then .ok () else .error .noTag

def validateITag (field : Field) (value : Str) : Except Rejection Unit := do
  validateConfString field value
  if value.isEmpty then .ok ()
  else (validateITagGrammar value).mapError (.iTag field value)

def validateSValue (field : Field) (n : Int64) : Except Rejection Unit :=
  if 0 ≤ n ∧ n ≤ 65535 then .ok () else .error (.sValue field n)

def validateHValue (field : Field) (v : IntOrRange) : Except Rejection Unit :=
  let (lo, hi) := match v with
    | .single n => (n, n)
    | .range lo hi => (lo, hi)
  if lo < 5 ∨ hi > 4294967295 ∨ lo > hi then .error (.hValue field lo hi) else .ok ()

def isRangeString (value : Str) : Bool :=
  let (lo, hi) := (splitOnce '-' value).getD (value, value)
  let digits (s : Str) := !s.isEmpty && s.all Char.isDigit
  digits lo && digits hi &&
    match parseU64 lo, parseU64 hi with
    | some lo, some hi => lo ≤ hi
    | _, _ => false

def validateRangeString (field : Field) (value : Str) : Except Rejection Unit := do
  validateConfString field value
  if isRangeString value then .ok () else .error (.rangeString field value)

def decodeHpk (base64 : Base64) (field : Field) (value : Str) : Except Rejection (List UInt8) := do
  validateConfString field value
  let bytes ← (base64.decode value).mapError (.notBase64 field)
  if bytes.length = 32 then .ok bytes else .error (.keyLength field bytes.length)

/-- On unless the key is 32 zero bytes; what does not decode counts as a key. -/
def hpkIsActive (base64 : Base64) (value : Str) : Bool :=
  match base64.decode value with
  | .ok bytes => !(bytes.length == 32 && bytes.all (· == 0))
  | .error _ => true

/-! ## What validated strings look like -/

/-- The loop consumes at least two characters a round, so its fuel never runs out. -/
theorem validateTags_fuel {fuel : Nat} {rest : Str} (h : rest.length ≤ fuel) (sawTag : Bool) :
    validateTags (fuel + 1) rest sawTag = validateTags fuel rest sawTag := by
  induction fuel generalizing rest sawTag with
  | zero =>
    obtain rfl : rest = [] := List.length_eq_zero_iff.mp (by omega)
    rfl
  | succ fuel ih =>
    rw [validateTags]
    conv_rhs => rw [validateTags]
    cases hopen : splitOnce '<' rest with
    | none => rfl
    | some parts =>
      obtain ⟨before, inner⟩ := parts
      cases hclose : splitOnce '>' inner with
      | none => simp only [hclose]
      | some parts =>
        obtain ⟨tag, after⟩ := parts
        have hshort : after.length ≤ fuel := by
          rw [splitOnce_eq_some hopen, splitOnce_eq_some hclose] at h
          simp at h
          omega
        simp only [hclose, ih hshort]

theorem validateConfString_ok {field : Field} {value : Str}
    (h : validateConfString field value = .ok ()) : ∀ c ∈ value, c ∉ forbiddenConfChars := by
  unfold validateConfString at h
  split at h
  · cases h
  · next hnone => simpa using hnone

end PartnerEdge.Awg
