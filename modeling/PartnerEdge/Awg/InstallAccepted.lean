import PartnerEdge.Awg.InstallRows

/-!
# The agent accepts what the installer writes

Every cross-field check of the agent holds of a written conf, except the one of the header
protection key: the installer judges its sizes by the register response and not by the rows, and a
key that only Python decodes to zeros is off for the installer and on for the agent.
-/

namespace PartnerEdge.Awg

open Text

section Checks

variable {base64 : Base64} {vars : RegisterVars} {host : Host} (h : Guarded vars host)
  (python : base64.Lenient)
include h

theorem Guarded.sVal_size : ∀ f ∈ [Field.s1, .s2, .s4],
    sVal (readBack (renderConf python vars host)) f = base10 (vars (.param f)) := by
  have hread := h.readBack_int python
  simp only [List.forall_mem_cons] at hread ⊢
  simp [sVal, hread]

/-- The rows have the sizes of an active key exactly if the response has them and `S3` a row. -/
theorem Guarded.sizes_iff :
    (∀ f ∈ [Field.s1, .s2, .s3, .s4], 12 ≤ sVal (readBack (renderConf python vars host)) f) ↔
      hpkSizesOk vars = true ∧ awgU16 (vars (.param .s3)) = true := by
  have hread := h.sVal_size python
  have hs3 : sVal (readBack (renderConf python vars host)) .s3 =
      if awgU16 (vars (.param .s3)) = true then base10 (vars (.param .s3)) else 0 := by
    rw [sVal, h.readBack_s3 python]
    split <;> simp_all
  have hown := fun f hf => hpkSizeOk_iff (h.sizes f hf).2
  simp only [List.forall_mem_cons] at hread hown
  obtain ⟨hs1, hs2, hs4, -⟩ := hread
  obtain ⟨hown1, hown2, hown4, -⟩ := hown
  simp only [List.forall_mem_cons, hs1, hs2, hs3, hs4, hpkSizesOk, List.all_cons, List.all_nil,
    Bool.and_eq_true, hown1, hown2, hown4]
  by_cases hu16 : awgU16 (vars (.param .s3)) = true
  · simp [hu16, hpkSizeOk_iff hu16]
  · have hsmall : ¬(12 : Int64) ≤ 0 := by decide
    simp [hu16, hsmall]

theorem Guarded.checkReservedPair :
    checkReservedPair (readBack (renderConf python vars host)) = .ok () := by
  have hread := h.sVal_size python
  rw [Awg.checkReservedPair, hread .s1 (by simp), hread .s2 (by simp), if_neg h.reserved]

theorem Guarded.checkDisjoint : ∀ p ∈ pairs hFields,
    checkDisjoint (readBack (renderConf python vars host)) p.1 p.2 = .ok () := by
  have hmem : ∀ p ∈ pairs hFields, p.1 ∈ hFields ∧ p.2 ∈ hFields := by decide
  intro p hp
  obtain ⟨hfirst, hsecond⟩ := hmem p hp
  obtain ⟨-, lo, hi, hparse⟩ := h.headers p.1 hfirst
  obtain ⟨-, lo', hi', hparse'⟩ := h.headers p.2 hsecond
  simp only [Awg.checkDisjoint, h.hRange_eq python hfirst hparse,
    h.hRange_eq python hsecond hparse', if_neg (h.disjoint p hp lo hi lo' hi' hparse hparse')]

theorem Guarded.junk_ordered (lo hi : Int64)
    (hpair : junkPair (readBack (renderConf python vars host)) = some (lo, hi)) : lo ≤ hi := by
  have hread := h.readBack_int python
  simp only [junkPair, hread .jmin (by simp), hread .jmax (by simp), Option.some.injEq,
    Prod.mk.injEq] at hpair
  obtain ⟨rfl, rfl⟩ := hpair
  exact h.ordered

end Checks

/-! ## The contract -/

/-- The cross-field invariants of a conf, as the agent reads it. -/
structure CrossField (base64 : Base64) (conf : Str) : Prop where
  reserved : (sVal (readBack conf) .s1).toInt + 56 ≠ (sVal (readBack conf) .s2).toInt
  disjoint : ∀ f ∈ hFields, ∀ g ∈ hFields, f ≠ g → ∀ alo ahi blo bhi,
    hRange (readBack conf) f = some (alo, ahi) → hRange (readBack conf) g = some (blo, bhi) →
      ahi < blo ∨ bhi < alo
  protection : ∀ key, readBack conf .headerProtectionKey = some (.str key) →
    hpkIsActive base64 key = true → ∀ f ∈ [Field.s1, .s2, .s3, .s4], 12 ≤ sVal (readBack conf) f
  junk : ∀ lo hi, readBack conf .jmin = some (.int lo) → readBack conf .jmax = some (.int hi) →
    lo ≤ hi

/-- A key that Python does not decode to zeros, and whose sizes are there, needs an `S3` that gets
its row. One that Python decodes to zeros and the agent does not needs the sizes as well. -/
def KeyFits {base64 : Base64} (python : base64.Lenient) (vars : RegisterVars) : Prop :=
  awgHpk32 python (vars (.param .headerProtectionKey)) = true →
    (awgHpkIsZero python (vars (.param .headerProtectionKey)) = false → hpkSizesOk vars = true →
      awgU16 (vars (.param .s3)) = true) ∧
    (awgHpkIsZero python (vars (.param .headerProtectionKey)) = true →
      hpkIsActive base64 (vars (.param .headerProtectionKey)) = true →
        hpkSizesOk vars = true ∧ awgU16 (vars (.param .s3)) = true)

section Contract

variable {base64 : Base64} {python : base64.Lenient} {vars : RegisterVars} {host : Host}

/-- The agent takes every key for active that Python does not decode to zeros. -/
theorem hpkIsActive_of_not_zero {hpk : Str} (hkey : awgHpk32 python hpk = true)
    (hzero : awgHpkIsZero python hpk = false) : hpkIsActive base64 hpk = true := by
  obtain ⟨bytes, hdecode, hlength⟩ := awgHpk32_iff.mp hkey
  unfold hpkIsActive
  split
  · next bytes' hok =>
    obtain rfl : bytes' = bytes := by simpa [python.decode_of_ok hok] using hdecode
    simpa [awgHpkIsZero, hdecode, hlength] using hzero
  · rfl

theorem Guarded.protection_iff (h : Guarded vars host) (python : base64.Lenient) :
    checkHeaderProtection base64 (readBack (renderConf python vars host)) = .ok () ↔
      KeyFits python vars := by
  rw [checkHeaderProtection_ok_iff, h.readBack_key python, h.sizes_iff python, KeyFits]
  generalize vars (.param .headerProtectionKey) = hpk
  have hactive := @hpkIsActive_of_not_zero base64 python hpk
  simp only [Option.ite_none_right_eq_some, Option.some.injEq, FieldValue.str.injEq, rendersKey,
    Bool.and_eq_true, Bool.or_eq_true]
  grind

theorem Guarded.checkPreconditions_iff (h : Guarded vars host) (python : base64.Lenient) :
    checkPreconditions base64 (readBack (renderConf python vars host)) = .ok () ↔
      KeyFits python vars := by
  rw [checkPreconditions_ok_iff, h.protection_iff python]
  simp only [h.checkReservedPair python, true_and]
  exact and_iff_right (h.checkDisjoint python)

theorem Guarded.crossField (h : Guarded vars host)
    (hprotection : checkHeaderProtection base64 (readBack (renderConf python vars host)) = .ok ()) :
    CrossField base64 (renderConf python vars host) where
  reserved := checkReservedPair_ok (h.checkReservedPair python)
  disjoint := by
    intro f hf g hg hne alo ahi blo bhi hrf hrg
    rcases mem_pairs_hFields f hf g hg hne with hp | hp
    · exact checkDisjoint_ok (h.checkDisjoint python _ hp) hrf hrg
    · exact (checkDisjoint_ok (h.checkDisjoint python _ hp) hrg hrf).symm
  protection := checkHeaderProtection_ok_iff.mp hprotection
  junk := by
    intro lo hi hlo hhi
    exact h.junk_ordered python lo hi (by simp [junkPair, hlo, hhi])

theorem guarded_of_written {conf : Str} {dropMm dropCl : List Str}
    (h : configureAmneziawg python vars host = .written conf dropMm dropCl) :
    Guarded vars host ∧ conf = renderConf python vars host := by
  unfold configureAmneziawg at h
  split at h
  · cases h
  split at h
  · cases h
  split at h
  · cases h
  next hdrop =>
    obtain ⟨rfl, -⟩ := by simpa using h
    exact ⟨guarded_of_dropIdent (by simpa using hdrop), rfl⟩

end Contract

/-- A conf that the installer writes satisfies the agent's cross-field invariants and passes its
startup merge, whatever defaults it generated, if and only if the key fits the sizes. -/
theorem written_accepted_iff (base64 : Base64) (python : base64.Lenient) (vars : RegisterVars)
    (host : Host) (conf : Str) (dropMm dropCl : List Str)
    (h : configureAmneziawg python vars host = .written conf dropMm dropCl) :
    (CrossField base64 conf ∧ ∀ defaults, ∃ out dropped,
      mergeObfuscationParamsReporting base64 conf none defaults = .ok (out, dropped)) ↔
        KeyFits python vars := by
  obtain ⟨hguarded, rfl⟩ := guarded_of_written h
  have hrows := hguarded.hasRows python
  have hjunk : ∀ spec ∈ fieldSpecs, spec.field ∈ [Field.jmin, .jmax] →
      (spec.confRaw (renderConf python vars host)).isSome = true := by
    intro spec hspec hf
    have hrequired : [Field.jmin, .jmax] ⊆ requiredFields := by decide
    simp [hrows.confRaw, lookup_required python vars host spec hspec (hrequired hf)]
  constructor
  · rintro ⟨hcross, -⟩
    exact (hguarded.protection_iff python).mp (checkHeaderProtection_ok_iff.mpr hcross.protection)
  · intro hfits
    refine ⟨hguarded.crossField ((hguarded.protection_iff python).mpr hfits), fun defaults => ?_⟩
    rw [merge_none_ok_iff defaults hrows.header hjunk]
    exact ⟨(hguarded.checkPreconditions_iff python).mpr hfits, hguarded.junk_ordered python⟩

def sampleHost : Host := ⟨true, true, false, some "priv\n".toList, 7⟩

/-- A register response with the given sizes and key. -/
def sampleVars (s1 s3 hpk : String) : RegisterVars
  | .allocatedIp => "10.9.0.7".toList
  | .motherlyPubkey => "pub".toList
  | .motherlyEndpoint => "edge:51820".toList
  | .motherlyAwgIp => "10.9.0.1".toList
  | .listenPort => []
  | .param .jc => "4".toList
  | .param .jmin => "50".toList
  | .param .jmax => "100".toList
  | .param .s1 => s1.toList
  | .param .s2 => "30".toList
  | .param .s3 => s3.toList
  | .param .s4 => "16".toList
  | .param .h1 => "5".toList
  | .param .h2 => "6-8".toList
  | .param .h3 => "9".toList
  | .param .h4 => "10".toList
  | .param .headerProtectionKey => hpk.toList
  | .param _ => []

def sampleKey : String := "AAAAAAAAAAAAAAAAAAAAAAAAAAAAAAAAAAAAAAAAAAE="

/-- Zeros, but for the bits that do not fill a byte. -/
def sampleZeroKey : String := "AAAAAAAAAAAAAAAAAAAAAAAAAAAAAAAAAAAAAAAAAAB="

theorem written_accepted_iff_sampleVars :
    CrossField .standard
      (renderConf Base64.trailing (sampleVars "20" "12" sampleKey) sampleHost) := by
  refine ((written_accepted_iff .standard Base64.trailing (sampleVars "20" "12" sampleKey)
    sampleHost _ [] [] (by decide +kernel)).mpr fun _ => ⟨fun _ _ => ?_, fun _ _ => ?_⟩).1
  · decide
  · decide

/-- An `S3` beyond 16 bits loses its row, but still counts as a size for the key. A key of zeros
that only Python decodes is written without any demand on the sizes. -/
theorem written_rejected :
    (configureAmneziawg Base64.trailing (sampleVars "20" "70000" sampleKey) sampleHost = .written
        (renderConf Base64.trailing (sampleVars "20" "70000" sampleKey) sampleHost)
        ["s3(grammar)".toList] [] ∧
      mergeObfuscationParamsReporting .standard
        (renderConf Base64.trailing (sampleVars "20" "70000" sampleKey) sampleHost) none
        sampleDefaults = .error (.junkTooSmall 20 30 0 16)) ∧
    configureAmneziawg Base64.trailing (sampleVars "8" "12" sampleZeroKey) sampleHost = .written
        (renderConf Base64.trailing (sampleVars "8" "12" sampleZeroKey) sampleHost) [] [] ∧
      mergeObfuscationParamsReporting .standard
        (renderConf Base64.trailing (sampleVars "8" "12" sampleZeroKey) sampleHost) none
        sampleDefaults = .error (.junkTooSmall 8 30 12 16) := by
  decide +kernel

end PartnerEdge.Awg
