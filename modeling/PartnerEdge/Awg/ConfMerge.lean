import PartnerEdge.Awg.FieldSpecs

/-!
# Merging obfuscation parameters into a conf

The merge resolves each key of the table (epoch value, else existing line, else generated default),
checks the resolved values against each other, and splices the lines to write into the text: lines
of a key that has one are replaced, the others are inserted below the first `[Interface]` header.
-/

namespace PartnerEdge.Awg

open Text

structure Resolution where
  effective : Field → Option FieldValue
  replaces : List (FieldSpec × Str)
  inserts : List (FieldSpec × Str)
  dropped : List Field

namespace Resolution

def empty : Resolution := ⟨fun _ => none, [], [], []⟩

def setEffective (r : Resolution) (f : Field) (v : FieldValue) : Resolution :=
  { r with effective := Function.update r.effective f (some v) }

/-- The existing line stays; its value, if it parses, is the effective one. -/
def keepConf (r : Resolution) (f : Field) (confVal : Option FieldValue) : Resolution :=
  match confVal with
  | some v => r.setEffective f v
  | none => r

end Resolution

section Merge

variable (base64 : Base64) (conf : Str) (params : Option AwgParams) (defaults : ClientDefaults)

/-- The value of an epoch field. -/
def FieldSpec.epochValue (spec : FieldSpec) : Option FieldValue := params.bind spec.epoch

/-- One round of the first pass. -/
def resolve (r : Resolution) (spec : FieldSpec) : Except Rejection Resolution :=
  match spec.epochValue params with
  | some v =>
    match spec.validate base64 v with
    | .ok () =>
      let line := spec.render v
      let r := if (spec.confRaw conf).isSome then
        { r with replaces := r.replaces ++ [(spec, line)] }
        else { r with inserts := r.inserts ++ [(spec, line)] }
      .ok (r.setEffective spec.field v)
    | .error e =>
      match spec.mergeClass with
      | .mustMatch => .error e
      | .clientSide =>
        .ok ({ r with dropped := r.dropped ++ [spec.field] }.keepConf spec.field
          (spec.confValue conf))
  | none =>
    if (spec.confRaw conf).isSome then .ok (r.keepConf spec.field (spec.confValue conf))
    else match spec.default defaults with
      | some v =>
        match spec.validate base64 v with
        | .ok () =>
          .ok ({ r with inserts := r.inserts ++ [(spec, spec.render v)] }.setEffective spec.field v)
        | .error _ => .ok r
      | none => .ok r

/-! ## Cross-field checks -/

def sVal (effective : Field → Option FieldValue) (f : Field) : Int64 :=
  match effective f with
  | some (.int n) => n
  | _ => 0

def hRange (effective : Field → Option FieldValue) (f : Field) : Option (Int64 × Int64) :=
  match effective f with
  | some (.int n) => some (n, n)
  | some (.range lo hi) => some (lo, hi)
  | _ => none

def hFields : List Field := [.h1, .h2, .h3, .h4]

/-- The pairs of two elements, the first one earlier. -/
def pairs {α : Type} : List α → List (α × α)
  | [] => []
  | a :: as => as.map (a, ·) ++ pairs as

def checkReservedPair (effective : Field → Option FieldValue) : Except Rejection Unit :=
  let s1 := sVal effective .s1
  let s2 := sVal effective .s2
  if s1 + 56 = s2 then .error (.reservedPair s2 s1) else .ok ()

def checkDisjoint (effective : Field → Option FieldValue) (f g : Field) : Except Rejection Unit :=
  match hRange effective f, hRange effective g with
  | some (alo, ahi), some (blo, bhi) =>
    if alo ≤ bhi ∧ blo ≤ ahi then .error (.overlap g blo bhi f alo ahi) else .ok ()
  | _, _ => .ok ()

def checkHeaderProtection (effective : Field → Option FieldValue) : Except Rejection Unit :=
  match effective .headerProtectionKey with
  | some (.str hpk) =>
    let s1 := sVal effective .s1
    let s2 := sVal effective .s2
    let s3 := sVal effective .s3
    let s4 := sVal effective .s4
    if hpkIsActive base64 hpk = true ∧ (s1 < 12 ∨ s2 < 12 ∨ s3 < 12 ∨ s4 < 12) then
      .error (.junkTooSmall s1 s2 s3 s4)
    else .ok ()
  | _ => .ok ()

def checkPreconditions (effective : Field → Option FieldValue) : Except Rejection Unit := do
  checkReservedPair effective
  (pairs hFields).forM fun (f, g) => checkDisjoint effective f g
  checkHeaderProtection base64 effective

def junkPair (effective : Field → Option FieldValue) : Option (Int64 × Int64) :=
  match effective .jmin, effective .jmax with
  | some (.int lo), some (.int hi) => some (lo, hi)
  | _, _ => none

/-- Gives up the epoch value of a junk bound and falls back to the conf line. -/
def dropEpochMember (r : Resolution) (f : Field) : Resolution :=
  match fieldSpecs.find? (·.field = f) with
  | some spec =>
    if (spec.epochValue params).isSome then
      { effective := Function.update r.effective f (spec.confValue conf)
        replaces := r.replaces.filter (·.1.field ≠ f)
        inserts := r.inserts.filter (·.1.field ≠ f)
        dropped := r.dropped ++ [f] }
    else r
  | none => r

def softenJunk (r : Resolution) : Except Rejection Resolution :=
  match junkPair r.effective with
  | some (lo, hi) =>
    if lo > hi then
      let r := [Field.jmin, .jmax].foldl (dropEpochMember conf params) r
      match junkPair r.effective with
      | some (lo, hi) => if lo > hi then .error (.junkInverted lo hi) else .ok r
      | none => .ok r
    else .ok r
  | none => .ok r

/-! ## Splicing -/

def replaceLines (replaces : List (FieldSpec × Str)) : Str :=
  replaces.foldl (fun result (spec, line) => spec.lineRe.replaceAll line result) conf

/-- Adds a line to the group of its section. -/
def addToSection (target : Section) (line : Str) : List (Section × List Str) →
    List (Section × List Str)
  | [] => [(target, [line])]
  | (s, lines) :: groups =>
    if s = target then (s, lines ++ [line]) :: groups
    else (s, lines) :: addToSection target line groups

def groupBySection (inserts : List (FieldSpec × Str)) : List (Section × List Str) :=
  inserts.foldl (fun groups (spec, line) => addToSection spec.target line groups) []

/-- The block goes between the end of the header line and what follows it. -/
def insertBlock (result : Str) (target : Section) (lines : List Str) : Except Rejection Str :=
  match target.headerRe.find result with
  | none => .error (.noSection target lines)
  | some m =>
    let headerEnd := result.length - m.rest.length
    .ok (result.take headerEnd ++ '\n' :: joinLines lines ++ result.drop headerEnd)

def splice (r : Resolution) : Except Rejection Str :=
  (groupBySection r.inserts).foldlM (fun result (target, lines) => insertBlock result target lines)
    (replaceLines conf r.replaces)

def mergeObfuscationParamsReporting : Except Rejection (Str × List Field) := do
  let r ← fieldSpecs.foldlM (resolve base64 conf params defaults) Resolution.empty
  checkPreconditions base64 r.effective
  let r ← softenJunk conf params r
  let out ← splice conf r
  return (out, r.dropped)

end Merge

/-! ## A payload -/

/-- A header protection key, junk sizes for it, and an injection attempt in `I1`. -/
def samplePayload : AwgParams where
  jc := none
  jmin := none
  jmax := some 60
  s1 := 20
  s2 := 30
  s3 := some 12
  s4 := 16
  h1 := .single 5
  h2 := .range 6 8
  h3 := .range 9 9
  h4 := .single 10
  i1 := some "<r 5>\n[Peer]".toList
  i2 := none
  i3 := none
  i4 := none
  i5 := none
  headerProtectionKey := some "AAAAAAAAAAAAAAAAAAAAAAAAAAAAAAAAAAAAAAAAAAE=".toList
  contentPaddingAddition := none
  rekeyAfterTime := none
  rekeyTimeout := none
  rejectAfterTime := none
  keepaliveTimeout := none
  maxHandshakeAttempts := none
  randomTrailers := none
  disableCookies := none

def sampleDefaults : ClientDefaults := ⟨"<r 40>".toList, "8-20".toList, 4, 50, 100⟩

def sampleConf : Str := "[Interface]\nS1  = 17\n[Peer]".toList

def sampleOutput : Str := joinLines (["[Interface]", "Jc = 4", "Jmin = 50", "Jmax = 60", "S2 = 30",
  "S3 = 12", "S4 = 16", "H1 = 5", "H2 = 6-8", "H3 = 9", "H4 = 10",
  "HeaderProtectionKey = AAAAAAAAAAAAAAAAAAAAAAAAAAAAAAAAAAAAAAAAAAE=",
  "ContentPaddingAddition = 8-20", "S1 = 20", "[Peer]"].map String.toList)

theorem merge_samplePayload :
    mergeObfuscationParamsReporting .standard sampleConf (some samplePayload) sampleDefaults =
      .ok (sampleOutput, [.i1]) := by
  decide +kernel

end PartnerEdge.Awg
