import PartnerEdge.Awg.Params
import PartnerEdge.Text.Pattern

/-!
# The sourcing table

One row for each mergeable key of `awg0.conf`: its spelling, its class, its validator and where its
value may come from.
-/

namespace PartnerEdge.Awg

open Text

inductive MergeClass where
  | mustMatch
  | clientSide
deriving DecidableEq, Repr

structure FieldSpec where
  key : Str
  field : Field
  target : Section
  mergeClass : MergeClass
  kind : SpecKind
  epoch : AwgParams → Option FieldValue
  default : ClientDefaults → Option FieldValue
  key_ne_nil : key ≠ [] := by decide
  key_alphanum : key.all Char.isAlphanum = true := by decide

/-- An empty string counts as absent. -/
def epochStr (get : AwgParams → Option Str) (p : AwgParams) : Option FieldValue :=
  ((get p).filter (!·.isEmpty)).map .str

def fieldSpecs : List FieldSpec := [
  .mk "Jc".toList .jc .interface .clientSide .junkCount
    (fun p => p.jc.map .int) (fun d => some (.int d.jc)),
  .mk "Jmin".toList .jmin .interface .clientSide .junkCount
    (fun p => p.jmin.map .int) (fun d => some (.int d.jmin)),
  .mk "Jmax".toList .jmax .interface .clientSide .junkCount
    (fun p => p.jmax.map .int) (fun d => some (.int d.jmax)),
  .mk "S1".toList .s1 .interface .mustMatch .sInt (fun p => some (.int p.s1)) (fun _ => none),
  .mk "S2".toList .s2 .interface .mustMatch .sInt (fun p => some (.int p.s2)) (fun _ => none),
  .mk "S3".toList .s3 .interface .mustMatch .sInt (fun p => p.s3.map .int) (fun _ => none),
  .mk "S4".toList .s4 .interface .mustMatch .sInt (fun p => some (.int p.s4)) (fun _ => none),
  .mk "H1".toList .h1 .interface .mustMatch .hRange
    (fun p => some (.ofIntOrRange p.h1)) (fun _ => none),
  .mk "H2".toList .h2 .interface .mustMatch .hRange
    (fun p => some (.ofIntOrRange p.h2)) (fun _ => none),
  .mk "H3".toList .h3 .interface .mustMatch .hRange
    (fun p => some (.ofIntOrRange p.h3)) (fun _ => none),
  .mk "H4".toList .h4 .interface .mustMatch .hRange
    (fun p => some (.ofIntOrRange p.h4)) (fun _ => none),
  .mk "I1".toList .i1 .interface .clientSide .tagLiteral
    (epochStr (·.i1)) (fun d => some (.str d.i1)),
  .mk "I2".toList .i2 .interface .clientSide .tagLiteral (epochStr (·.i2)) (fun _ => none),
  .mk "I3".toList .i3 .interface .clientSide .tagLiteral (epochStr (·.i3)) (fun _ => none),
  .mk "I4".toList .i4 .interface .clientSide .tagLiteral (epochStr (·.i4)) (fun _ => none),
  .mk "I5".toList .i5 .interface .clientSide .tagLiteral (epochStr (·.i5)) (fun _ => none),
  .mk "HeaderProtectionKey".toList .headerProtectionKey .interface .mustMatch .headerProtectionKey
    (epochStr (·.headerProtectionKey)) (fun _ => none),
  .mk "ContentPaddingAddition".toList .contentPaddingAddition .interface .clientSide .rangeString
    (epochStr (·.contentPaddingAddition)) (fun d => some (.str d.contentPaddingAddition)),
  .mk "RekeyAfterTime".toList .rekeyAfterTime .interface .clientSide .rangeString
    (epochStr (·.rekeyAfterTime)) (fun _ => none),
  .mk "RekeyTimeout".toList .rekeyTimeout .interface .clientSide .rangeString
    (epochStr (·.rekeyTimeout)) (fun _ => none),
  .mk "RejectAfterTime".toList .rejectAfterTime .interface .clientSide .rangeString
    (epochStr (·.rejectAfterTime)) (fun _ => none),
  .mk "KeepaliveTimeout".toList .keepaliveTimeout .interface .clientSide .rangeString
    (epochStr (·.keepaliveTimeout)) (fun _ => none),
  .mk "MaxHandshakeAttempts".toList .maxHandshakeAttempts .interface .clientSide .rangeString
    (epochStr (·.maxHandshakeAttempts)) (fun _ => none),
  .mk "RandomTrailers".toList .randomTrailers .interface .mustMatch .onOff
    (fun p => p.randomTrailers.map .bool) (fun _ => none),
  .mk "DisableCookies".toList .disableCookies .interface .clientSide .onOff
    (fun p => p.disableCookies.map .bool) (fun _ => none)]

def isBlank (c : Char) : Bool := c == ' ' || c == '\t'

/-- `^Key[ \t]*=[ \t]*([^\n]*)$`, multi-line. -/
def fieldLineRe (key : Str) : Pattern :=
  restOfLine (.lineStart :: (key.map .char ++ [.star isBlank, .char '=', .star isBlank]))

def interfaceHeader : Str := "[Interface]".toList

/-- `^\[Interface\][^\n]*$`, multi-line. -/
def awgInterfaceRe : Pattern := restOfLine (.lineStart :: interfaceHeader.map .char)

def Section.headerRe : Section → Pattern
  | .interface => awgInterfaceRe

def FieldValue.text : FieldValue → Str
  | .int n => showI64 n
  | .range lo hi => if lo = hi then showI64 lo else showI64 lo ++ '-' :: showI64 hi
  | .str s => s
  | .bool b => if b then "on".toList else "off".toList

namespace FieldSpec

variable (spec : FieldSpec)

def lineRe : Pattern := fieldLineRe spec.key

def parseConfValue (raw : Str) : Option FieldValue :=
  let raw := trim raw
  if raw.isEmpty then none
  else match spec.kind with
    | .sInt | .junkCount => (parseI64 raw).map .int
    | .hRange => (IntOrRange.parse raw).map .ofIntOrRange
    | .onOff =>
      if raw = "on".toList then some (.bool true)
      else if raw = "off".toList then some (.bool false)
      else none
    | .tagLiteral | .headerProtectionKey | .rangeString => some (.str raw)

def validate (base64 : Base64) (v : FieldValue) : Except Rejection Unit :=
  match spec.kind, v with
  | .sInt, .int n => validateSValue spec.field n
  | .hRange, .int n => validateHValue spec.field (.single n)
  | .hRange, .range lo hi => validateHValue spec.field (.range lo hi)
  | .rangeString, .str s => validateRangeString spec.field s
  | .tagLiteral, .str s => validateITag spec.field s
  | .headerProtectionKey, .str s => (decodeHpk base64 spec.field s).map fun _ => ()
  | .onOff, .bool _ => .ok ()
  | .junkCount, .int n => validateJunkValue spec.field n
  | kind, v => .error (.typeMismatch spec.field kind v)

def render (v : FieldValue) : Str := spec.key ++ " = ".toList ++ v.text

/-- The value text of the first line of the key. -/
def confRaw (conf : Str) : Option Str := (spec.lineRe.find conf).map Match.group

def confValue (conf : Str) : Option FieldValue := (spec.confRaw conf).bind spec.parseConfValue

end FieldSpec

end PartnerEdge.Awg
