import PartnerEdge.Awg.Defaults
import PartnerEdge.Awg.Sourcing

/-!
# Additions of the merge

The merge adds once: the reserved pair of junk sizes is `S1 + 56 = S2`. A size of the payload has
passed its validator, but a size that stays in the conf was only parsed. In a build with overflow
checks the merge has a third outcome then. It agrees with the wrapping merge everywhere else.
-/

namespace PartnerEdge.Awg

open Text

/-- How a merge ends in a build with overflow checks. -/
inductive Fault where
  | rejected (e : Rejection)
  | overflow
deriving DecidableEq, Repr

/-- Addition that stops where the sum leaves the 64 bits. -/
def addChecked (a b : Int64) : Except Fault Int64 :=
  if -2 ^ 63 ≤ a.toInt + b.toInt ∧ a.toInt + b.toInt < 2 ^ 63 then .ok (a + b) else .error .overflow

section Merge

variable (base64 : Base64) (conf : Str) (params : Option AwgParams) (defaults : ClientDefaults)

def checkReservedPairChecked (effective : Field → Option FieldValue) : Except Fault Unit := do
  let s1 := sVal effective .s1
  let s2 := sVal effective .s2
  let sum ← addChecked s1 56
  if sum = s2 then .error (.rejected (.reservedPair s2 s1)) else .ok ()

def checkPreconditionsChecked (effective : Field → Option FieldValue) : Except Fault Unit := do
  checkReservedPairChecked effective
  ((pairs hFields).forM fun (f, g) => checkDisjoint effective f g).mapError .rejected
  (checkHeaderProtection base64 effective).mapError .rejected

/-- The merge in a build with overflow checks. -/
def mergeObfuscationParamsChecked : Except Fault (Str × List Field) := do
  let r ← (fieldSpecs.foldlM (resolve base64 conf params defaults) Resolution.empty).mapError
    .rejected
  checkPreconditionsChecked base64 r.effective
  let r ← (softenJunk conf params r).mapError .rejected
  let out ← (splice conf r).mapError .rejected
  return (out, r.dropped)

end Merge

/-- The largest size that can be added to. -/
def maxAddable : Int64 := 9223372036854775751

section Overflow

variable {base64 : Base64} {conf : Str} {params : Option AwgParams} {defaults : ClientDefaults}
  {effective : Field → Option FieldValue}

theorem mapError_bind {ε ε' α β : Type} (g : ε → ε') (x : Except ε α) (k : α → Except ε β) :
    (x >>= k).mapError g = x.mapError g >>= fun a => (k a).mapError g := by
  cases x <;> rfl

theorem mapError_ok_bind {ε ε' α β : Type} (g : ε → ε') (a : α) (k : α → Except ε' β) :
    ((Except.ok a : Except ε α).mapError g >>= k) = k a :=
  rfl

theorem addChecked_reserved (n : Int64) :
    addChecked n 56 = if n ≤ maxAddable then .ok (n + 56) else .error .overflow := by
  have hlo := n.le_toInt
  have h56 : (56 : Int64).toInt = 56 := rfl
  have hmax : maxAddable.toInt = 9223372036854775751 := rfl
  unfold addChecked
  refine if_congr ?_ rfl rfl
  rw [Int64.le_iff_toInt_le, h56, hmax]
  omega

/-- Where the sum fits, both merges compare the same value. -/
theorem checkPreconditionsChecked_eq (h : sVal effective .s1 ≤ maxAddable) :
    checkPreconditionsChecked base64 effective =
      (checkPreconditions base64 effective).mapError .rejected := by
  have hpair : checkReservedPairChecked effective =
      (checkReservedPair effective).mapError .rejected := by
    simp only [checkReservedPairChecked, checkReservedPair, addChecked_reserved, if_pos h]
    by_cases hsum : sVal effective .s1 + 56 = sVal effective .s2 <;>
      simp [bind, Except.bind, hsum, Except.mapError]
  unfold checkPreconditionsChecked checkPreconditions
  rw [mapError_bind, hpair]
  simp only [mapError_bind]

theorem checkPreconditionsChecked_overflow (h : ¬sVal effective .s1 ≤ maxAddable) :
    checkPreconditionsChecked base64 effective = .error .overflow := by
  unfold checkPreconditionsChecked checkReservedPairChecked
  simp only [addChecked_reserved, if_neg h]
  rfl

/-- The checked merge overflows on the size that the first pass resolves. -/
theorem mergeChecked_eq (base64 : Base64) (conf : Str) (params : Option AwgParams)
    (defaults : ClientDefaults) :
    (mergeObfuscationParamsChecked base64 conf params defaults = .error .overflow ∧
      (∀ spec ∈ fieldSpecs, spec.source base64 conf params defaults =
        .ok (spec.sourced base64 conf params defaults)) ∧
      ¬sVal (effectiveOf (·.sourced base64 conf params defaults) conf) .s1 ≤ maxAddable) ∨
    (mergeObfuscationParamsChecked base64 conf params defaults =
        (mergeObfuscationParamsReporting base64 conf params defaults).mapError .rejected ∧
      ((∀ spec ∈ fieldSpecs, spec.source base64 conf params defaults =
        .ok (spec.sourced base64 conf params defaults)) →
        sVal (effectiveOf (·.sourced base64 conf params defaults) conf) .s1 ≤ maxAddable)) := by
  unfold mergeObfuscationParamsChecked mergeObfuscationParamsReporting
  cases hpass : fieldSpecs.foldlM (resolve base64 conf params defaults) Resolution.empty with
  | error e =>
    refine .inr ⟨rfl, fun hsource => ?_⟩
    rw [firstPass_ok_iff.mpr ⟨hsource, rfl⟩] at hpass
    cases hpass
  | ok r =>
    obtain ⟨hsource, rfl⟩ := firstPass_ok_iff.mp hpass
    by_cases hfits :
        sVal (effectiveOf (·.sourced base64 conf params defaults) conf) .s1 ≤ maxAddable
    · refine .inr ⟨?_, fun _ => hfits⟩
      simp only [mapError_bind, mapError_ok_bind, Resolution.ofSources_effective,
        checkPreconditionsChecked_eq hfits]
      rfl
    · refine .inl ⟨?_, hsource, hfits⟩
      simp only [Except.mapError, bind, Except.bind, Resolution.ofSources_effective,
        checkPreconditionsChecked_overflow hfits]

theorem s1_row : ∀ spec ∈ fieldSpecs, spec.field = .s1 → spec.mergeClass = .mustMatch ∧
    spec.kind = .sInt ∧ (∀ p, spec.epoch p = some (.int p.s1)) ∧
      ∀ defaults, spec.default defaults = none := by
  simp [fieldSpecs]

theorem effectiveOf_s1_of_no_payload :
    effectiveOf (·.sourced base64 conf none defaults) conf .s1 = readBack conf .s1 := by
  obtain ⟨spec, hspec, hfield⟩ := exists_spec .s1
  obtain ⟨-, -, -, hdefault⟩ := s1_row spec hspec hfield
  have hkept : spec.sourced base64 conf none defaults = .kept := by
    rw [sourced_of_epoch_none rfl, hdefault]
    simp
  rw [← hfield, effectiveOf_field hspec, readBack_eq hspec, hkept]
  rfl

/-- The payload's size has passed its validator. -/
theorem sVal_s1_of_payload {p : AwgParams}
    (hsource : ∀ spec ∈ fieldSpecs, spec.source base64 conf (some p) defaults =
      .ok (spec.sourced base64 conf (some p) defaults)) :
    sVal (effectiveOf (·.sourced base64 conf (some p) defaults) conf) .s1 ≤ maxAddable := by
  obtain ⟨spec, hspec, hfield⟩ := exists_spec .s1
  obtain ⟨hclass, hkind, hepoch, -⟩ := s1_row spec hspec hfield
  have hvalue : spec.epochValue (some p) = some (.int p.s1) := hepoch p
  have hvalid : spec.validate base64 (.int p.s1) = .ok () := by
    have hrow := hsource spec hspec
    cases hvalid : spec.validate base64 (.int p.s1) with
    | ok u => rfl
    | error e => simp [FieldSpec.source, hvalue, hvalid, hclass] at hrow
  have hrange : p.s1 ≤ 65535 := by
    simp only [FieldSpec.validate, hkind, validateSValue] at hvalid
    split at hvalid
    · next h => exact h.2
    · cases hvalid
  unfold sVal
  rw [← hfield, effectiveOf_field hspec, sourced_of_valid hvalue hvalid]
  exact Int64.le_trans hrange (by decide)

theorem sVal_le_iff {f : Field} : sVal effective f ≤ maxAddable ↔
    ∀ n, effective f = some (.int n) → n ≤ maxAddable := by
  unfold sVal
  cases effective f with
  | none => simp [maxAddable]
  | some v => cases v <;> simp [maxAddable]

end Overflow

/-- No addition of a merge leaves the 64 bits, and it ends as it would in wrapping arithmetic, if
there is a payload or the conf's own `S1` can be added to. -/
theorem mergeChecked_no_overflow_iff (base64 : Base64) (conf : Str) (params : Option AwgParams)
    (defaults : ClientDefaults) :
    (mergeObfuscationParamsChecked base64 conf params defaults ≠ .error .overflow ∧
      mergeObfuscationParamsChecked base64 conf params defaults =
        (mergeObfuscationParamsReporting base64 conf params defaults).mapError .rejected) ↔
      (params.isSome = true ∨ ∀ n, readBack conf .s1 = some (.int n) → n ≤ maxAddable) := by
  have hrejected : (mergeObfuscationParamsReporting base64 conf params defaults).mapError
      Fault.rejected ≠ .error .overflow := by
    cases mergeObfuscationParamsReporting base64 conf params defaults <;> simp [Except.mapError]
  rcases mergeChecked_eq base64 conf params defaults with
    ⟨hoverflow, hsource, hlarge⟩ | ⟨hsame, hfits⟩
  · simp only [hoverflow, ne_eq, not_true, false_and, false_iff, not_or]
    cases params with
    | none =>
      rw [sVal_le_iff, effectiveOf_s1_of_no_payload] at hlarge
      exact ⟨by simp, hlarge⟩
    | some p => exact absurd (sVal_s1_of_payload hsource) hlarge
  · simp only [hsame, ne_eq, hrejected, not_false_iff, true_and, true_iff]
    cases params with
    | none =>
      have hfits := hfits fun spec _ => source_of_epoch_none rfl
      rw [sVal_le_iff, effectiveOf_s1_of_no_payload] at hfits
      exact .inr hfits
    | some p => exact .inl rfl

def hugeConf : Str :=
  "[Interface]\nS1 = 9223372036854775800\nS2 = -9223372036854775760".toList

/-- A hand-edited `S1` stops a checked build. The wrapping one takes the pair for the reserved
one. -/
theorem hugeConf_overflows : sampleDefaults.InBands ∧
    mergeObfuscationParamsChecked .standard hugeConf none sampleDefaults = .error .overflow ∧
    mergeObfuscationParamsReporting .standard hugeConf none sampleDefaults =
      .error (.reservedPair (-9223372036854775760) 9223372036854775800) :=
  ⟨sampleDefaults_inBands, by decide +kernel, by decide +kernel⟩

end PartnerEdge.Awg
