import PartnerEdge.Awg.Defaults
import PartnerEdge.Awg.DropReport

/-!
# The error of inverted junk bounds

A merge that fails on inverted junk bounds gives the conf as the reason. The bounds are compared
after their epoch values were given up, and a bound that neither the payload nor the conf has is
then a generated default. So the merge also fails where the conf has only one bound and the default
of the other one lies on its wrong side.
-/

namespace PartnerEdge.Awg

open Text

/-- Both bounds are there, the lower one above the upper one. -/
def Inverted (bounds : Field → Option FieldValue) : Prop :=
  ∃ lo hi, bounds .jmin = some (.int lo) ∧ bounds .jmax = some (.int hi) ∧ hi < lo

/-- The value text of the first line of a field. -/
def confLine (conf : Str) (f : Field) : Option Str :=
  (fieldSpecs.find? (·.field = f)).bind (·.confRaw conf)

/-- The payload's value for a junk bound. -/
def epochBound (params : Option AwgParams) (f : Field) : Option Int64 := params.bind (·.junk f)

/-- The merge gets as far as the junk bounds. -/
def PassesChecks (base64 : Base64) (conf : Str) (params : Option AwgParams)
    (defaults : ClientDefaults) : Prop :=
  (∀ spec ∈ fieldSpecs, spec.source base64 conf params defaults =
    .ok (spec.sourced base64 conf params defaults)) ∧
  checkPreconditions base64 (effectiveOf (·.sourced base64 conf params defaults) conf) = .ok ()

/-- A bound that neither the payload nor the conf has. -/
def Defaulted (conf : Str) (params : Option AwgParams) (f : Field) : Prop :=
  epochBound params f = none ∧ confLine conf f = none

/-- The conf's bound lies on the wrong side of the other one, and the payload's bound does not
help. -/
def Opposes (conf : Str) (params : Option AwgParams) (f : Field) (wrong : Int64 → Prop) : Prop :=
  (∃ n, readBack conf f = some (.int n) ∧ wrong n) ∧
    ∀ n, epochBound params f = some n → InJunkRange n → wrong n

/-- One bound is a default, and the conf has a line for the other one that goes past it. -/
def DefaultClash (conf : Str) (params : Option AwgParams) (defaults : ClientDefaults) : Prop :=
  Defaulted conf params .jmax ∧ Opposes conf params .jmin (defaults.jmax < ·) ∨
    Defaulted conf params .jmin ∧ Opposes conf params .jmax (· < defaults.jmin)

/-- The field whose own value is refused, if it is not about several fields. -/
def Rejection.subject : Rejection → Option Field
  | .forbiddenCharacter field _ | .junkValue field _ | .iTag field _ _ | .sValue field _
  | .hValue field _ _ | .rangeString field _ | .notBase64 field _ | .keyLength field _
  | .typeMismatch field _ _ => some field
  | .reservedPair _ _ | .overlap _ _ _ _ _ _ | .junkTooSmall _ _ _ _ | .junkInverted _ _
  | .noSection _ _ => none

section Blame

variable {base64 : Base64} {conf : Str} {params : Option AwgParams} {defaults : ClientDefaults}
  {spec : FieldSpec} {f : Field} {lo hi : Int64}

theorem validateConfString_subject {value : Str} {e : Rejection}
    (h : validateConfString f value = .error e) : e.subject = some f := by
  unfold validateConfString at h
  split at h
  · obtain rfl := Except.error.inj h
    rfl
  · cases h

theorem validateRangeString_subject {value : Str} {e : Rejection}
    (h : validateRangeString f value = .error e) : e.subject = some f := by
  rcases error_of_bind h with h | ⟨_, -, h⟩
  · exact validateConfString_subject h
  · split at h
    · cases h
    · obtain rfl := Except.error.inj h
      rfl

theorem validateITag_subject {value : Str} {e : Rejection}
    (h : validateITag f value = .error e) : e.subject = some f := by
  rcases error_of_bind h with h | ⟨_, -, h⟩
  · exact validateConfString_subject h
  · split at h
    · cases h
    · cases hgrammar : validateITagGrammar value with
      | ok u => simp [hgrammar, Except.mapError] at h
      | error reason =>
        simp only [hgrammar, Except.mapError, Except.error.injEq] at h
        rw [← h]
        rfl

theorem decodeHpk_subject {value : Str} {e : Rejection}
    (h : decodeHpk base64 f value = .error e) : e.subject = some f := by
  rcases error_of_bind h with h | ⟨_, -, h⟩
  · exact validateConfString_subject h
  · rcases error_of_bind h with h | ⟨_, -, h⟩
    · cases hbytes : base64.decode value with
      | ok bytes => simp [hbytes, Except.mapError] at h
      | error error =>
        simp only [hbytes, Except.mapError, Except.error.injEq] at h
        rw [← h]
        rfl
    · split at h
      · cases h
      · obtain rfl := Except.error.inj h
        rfl

/-- The validator of a row refuses the value of its own field. -/
theorem validate_subject {v : FieldValue} {e : Rejection} (h : spec.validate base64 v = .error e) :
    e.subject = some spec.field := by
  unfold FieldSpec.validate at h
  split at h
  · grind [validateSValue, Rejection.subject]
  · grind [validateHValue, Rejection.subject]
  · grind [validateHValue, Rejection.subject]
  · exact validateRangeString_subject h
  · exact validateITag_subject h
  · next value _ =>
    cases hdecode : decodeHpk base64 spec.field value with
    | ok bytes => simp [hdecode, Except.map] at h
    | error e' =>
      simp only [hdecode, Except.map, Except.error.injEq] at h
      exact h ▸ decodeHpk_subject hdecode
  · cases h
  · grind [validateJunkValue, Rejection.subject]
  · rw [← Except.error.inj h]
    rfl

/-- A row that stops the merge refuses its own value. -/
theorem source_error_subject {e : Rejection}
    (h : spec.source base64 conf params defaults = .error e) : e.subject = some spec.field := by
  unfold FieldSpec.source at h
  cases hepoch : spec.epochValue params with
  | some v =>
    cases hvalid : spec.validate base64 v with
    | ok u => simp [hepoch, hvalid] at h
    | error e' =>
      cases hclass : spec.mergeClass with
      | mustMatch =>
        simp only [hepoch, hvalid, hclass, Except.error.injEq] at h
        exact h ▸ validate_subject hvalid
      | clientSide => simp [hepoch, hvalid, hclass] at h
  | none =>
    by_cases hraw : (spec.confRaw conf).isSome = true
    · simp [hepoch, hraw] at h
    · cases hdefault : spec.default defaults with
      | none => simp [hepoch, hraw, hdefault] at h
      | some v =>
        cases hvalid : spec.validate base64 v <;> simp [hepoch, hraw, hdefault, hvalid] at h

theorem resolve_error_subject {r : Resolution} {e : Rejection}
    (h : resolve base64 conf params defaults r spec = .error e) : e.subject = some spec.field := by
  rw [resolve_eq_take] at h
  cases hsource : spec.source base64 conf params defaults with
  | ok s => simp [hsource, Except.map] at h
  | error e' =>
    simp only [hsource, Except.map, Except.error.injEq] at h
    exact h ▸ source_error_subject hsource

/-- The errors of the cross-field checks. -/
theorem checkPreconditions_error {effective : Field → Option FieldValue} {e : Rejection}
    (h : checkPreconditions base64 effective = .error e) :
    (∃ s2 s1, e = .reservedPair s2 s1) ∨
      (∃ f lo hi g otherLo otherHi, e = .overlap f lo hi g otherLo otherHi) ∨
      ∃ s1 s2 s3 s4, e = .junkTooSmall s1 s2 s3 s4 := by
  rcases error_of_bind h with h | ⟨_, -, h⟩
  · simp only [checkReservedPair] at h
    split at h
    · exact .inl ⟨_, _, (Except.error.inj h).symm⟩
    · cases h
  rcases error_of_bind h with h | ⟨_, -, h⟩
  · obtain ⟨⟨f, g⟩, -, h⟩ := exists_of_forM_error h
    have hdisjoint : checkDisjoint effective f g = .error e := h
    unfold checkDisjoint at hdisjoint
    split at hdisjoint
    · split at hdisjoint
      · exact .inr (.inl ⟨_, _, _, _, _, _, (Except.error.inj hdisjoint).symm⟩)
      · cases hdisjoint
    · cases hdisjoint
  · simp only [checkHeaderProtection] at h
    split at h
    · split at h
      · exact .inr (.inr ⟨_, _, _, _, (Except.error.inj h).symm⟩)
      · cases h
    · cases h

theorem splice_ne_junkInverted (r : Resolution) : splice conf r ≠ .error (.junkInverted lo hi) := by
  intro h
  obtain ⟨text, group, -, hinsert⟩ := exists_of_foldlM_error h
  simp only [insertBlock] at hinsert
  split at hinsert <;> simp at hinsert

theorem merge_junkInverted_iff : mergeObfuscationParamsReporting base64 conf params defaults =
    .error (.junkInverted lo hi) ↔ PassesChecks base64 conf params defaults ∧
      junkInversion (effectiveOf (·.settled base64 conf params defaults) conf) = some (lo, hi) := by
  unfold mergeObfuscationParamsReporting PassesChecks
  constructor
  · intro h
    rcases error_of_bind h with hpass | ⟨r₀, hpass, h⟩
    · obtain ⟨r, spec, -, hstep⟩ := exists_of_foldlM_error hpass
      cases resolve_error_subject hstep
    obtain ⟨hsource, rfl⟩ := firstPass_ok_iff.mp hpass
    rcases error_of_bind h with hcheck | ⟨_, hcheck, h⟩
    · rcases checkPreconditions_error hcheck with ⟨_, _, h⟩ | ⟨_, _, _, _, _, _, h⟩ |
        ⟨_, _, _, _, h⟩ <;> cases h
    refine ⟨⟨hsource, hcheck⟩, ?_⟩
    rcases error_of_bind h with hsoften | ⟨r, -, h⟩
    · rw [softenJunk_ofSources] at hsoften
      cases hinversion :
        junkInversion (effectiveOf (·.settled base64 conf params defaults) conf) with
      | none => simp [hinversion] at hsoften
      | some bounds =>
        rw [hinversion] at hsoften
        simp only [Option.elim, Except.error.injEq, Rejection.junkInverted.injEq] at hsoften
        rw [← hsoften.1, ← hsoften.2]
    · rcases error_of_bind h with hsplice | ⟨_, -, h⟩
      · exact absurd hsplice (splice_ne_junkInverted r)
      · cases h
  · rintro ⟨⟨hsource, hcheck⟩, hinversion⟩
    rw [firstPass_ok_iff.mpr ⟨hsource, rfl⟩]
    simp only [bind, Except.bind, Resolution.ofSources_effective, hcheck, softenJunk_ofSources,
      hinversion, Option.elim]

/-! ## The values of the bounds -/

/-- The bound after the first pass. -/
def firstBound (conf : Str) (params : Option AwgParams) (defaults : ClientDefaults) (f : Field) :
    Option FieldValue :=
  match epochBound params f with
  | some n => if InJunkRange n then some (.int n) else readBack conf f
  | none => if (confLine conf f).isSome then readBack conf f else some (.int (defaults.junk f))

/-- The bound after its epoch value was given up. -/
def lastBound (conf : Str) (params : Option AwgParams) (defaults : ClientDefaults) (f : Field) :
    Option FieldValue :=
  if epochBound params f = none ∧ confLine conf f = none then some (.int (defaults.junk f))
  else readBack conf f

theorem confLine_eq (hspec : spec ∈ fieldSpecs) (conf : Str) :
    confLine conf spec.field = spec.confRaw conf := by
  rw [confLine, find?_field hspec]
  rfl

theorem epochValue_eq (hspec : spec ∈ fieldSpecs) (hjunk : spec.field ∈ [Field.jmin, .jmax])
    (params : Option AwgParams) :
    spec.epochValue params = (epochBound params spec.field).map .int := by
  cases params with
  | none => rfl
  | some p => exact (isJunkBound hspec hjunk).epoch p

theorem effectiveOf_sourced (hbands : defaults.InBands) (hjunk : f ∈ [Field.jmin, .jmax])
    (base64 : Base64) (conf : Str) (params : Option AwgParams) :
    effectiveOf (·.sourced base64 conf params defaults) conf f =
      firstBound conf params defaults f := by
  obtain ⟨spec, hspec, rfl⟩ := exists_spec f
  have hrow := isJunkBound hspec hjunk
  have hepoch := epochValue_eq hspec hjunk params
  rw [effectiveOf_field hspec]
  unfold firstBound
  cases hbound : epochBound params spec.field with
  | some n =>
    rw [hbound] at hepoch
    by_cases hrange : InJunkRange n
    · rw [sourced_of_valid hepoch ((hrow.validate_ok_iff base64 n).mpr hrange)]
      simp [Sourced.value, hrange]
    · have homitted : spec.sourced base64 conf params defaults = .omitted := by
        refine sourced_eq_omitted_iff.mpr ⟨hrow.mergeClass, .int n, ?_⟩
        cases hvalid : spec.validate base64 (.int n) with
        | ok u => exact absurd ((hrow.validate_ok_iff base64 n).mp hvalid) hrange
        | error e => exact ⟨e, hepoch, rfl⟩
      rw [homitted]
      simp [Sourced.value, hrange, readBack_eq hspec]
  | none =>
    rw [hbound] at hepoch
    have hvalid : spec.validate base64 (.int (defaults.junk spec.field)) = .ok () :=
      hbands.validate base64 spec hspec _ (hrow.default defaults)
    rw [sourced_of_epoch_none hepoch, hrow.default defaults]
    cases hraw : spec.confRaw conf <;>
      simp [Sourced.value, confLine_eq hspec, hraw, readBack_eq hspec, hvalid, Option.filter]

theorem effectiveOf_giveUp (hbands : defaults.InBands) (hjunk : f ∈ [Field.jmin, .jmax])
    (base64 : Base64) (conf : Str) (params : Option AwgParams) :
    effectiveOf (giveUp params (giveUp params (·.sourced base64 conf params defaults) .jmin) .jmax)
      conf f = lastBound conf params defaults f := by
  have hfirst := effectiveOf_sourced hbands hjunk base64 conf params
  obtain ⟨spec, hspec, rfl⟩ := exists_spec f
  have hepoch := epochValue_eq hspec hjunk params
  rw [effectiveOf_field hspec] at hfirst ⊢
  unfold lastBound
  cases hbound : epochBound params spec.field with
  | some n =>
    have hsome : (spec.epochValue params).isSome = true := by simp [hepoch, hbound]
    have hkept : giveUp params (giveUp params (·.sourced base64 conf params defaults) .jmin) .jmax
        spec = .kept := by
      simp only [List.mem_cons, List.not_mem_nil, or_false] at hjunk
      rcases hjunk with hmin | hmax
      · simp [giveUp, hmin, hsome]
      · simp [giveUp, hmax, hsome]
    simp [hkept, Sourced.value, readBack_eq hspec]
  | none =>
    have hnone : spec.epochValue params = none := by simp [hepoch, hbound]
    have hsame : giveUp params (giveUp params (·.sourced base64 conf params defaults) .jmin) .jmax
        spec = spec.sourced base64 conf params defaults := by
      simp [giveUp, hnone]
    rw [hsame, hfirst, firstBound, hbound]
    cases hline : confLine conf spec.field <;> simp

theorem junkInversion_eq_some_iff {effective : Field → Option FieldValue} :
    junkInversion effective = some (lo, hi) ↔
      effective .jmin = some (.int lo) ∧ effective .jmax = some (.int hi) ∧ hi < lo := by
  unfold junkInversion junkPair
  rcases effective .jmin with _ | (n | _ | _ | _) <;>
    rcases effective .jmax with _ | (m | _ | _ | _)
  all_goals grind [Option.filter]

theorem junkInversion_isSome_iff {effective : Field → Option FieldValue} :
    (junkInversion effective).isSome = true ↔ Inverted effective := by
  simp only [Option.isSome_iff_exists, Prod.exists, junkInversion_eq_some_iff, Inverted]

theorem inverted_congr {bounds bounds' : Field → Option FieldValue}
    (h : ∀ f ∈ [Field.jmin, .jmax], bounds f = bounds' f) : Inverted bounds ↔ Inverted bounds' := by
  simp only [Inverted, h .jmin (by simp), h .jmax (by simp)]

/-- The error needs inverted bounds before and after the epoch values were given up. -/
theorem exists_junkInverted_iff (hbands : defaults.InBands) (base64 : Base64) (conf : Str)
    (params : Option AwgParams) :
    (∃ lo hi, mergeObfuscationParamsReporting base64 conf params defaults =
      .error (.junkInverted lo hi)) ↔ PassesChecks base64 conf params defaults ∧
        Inverted (firstBound conf params defaults) ∧ Inverted (lastBound conf params defaults) := by
  have hfirst : Inverted (effectiveOf (·.sourced base64 conf params defaults) conf) ↔
      Inverted (firstBound conf params defaults) :=
    inverted_congr fun f hf => effectiveOf_sourced hbands hf base64 conf params
  have hlast : Inverted (effectiveOf (giveUp params (giveUp params
      (·.sourced base64 conf params defaults) .jmin) .jmax) conf) ↔
      Inverted (lastBound conf params defaults) :=
    inverted_congr fun f hf => effectiveOf_giveUp hbands hf base64 conf params
  have hsettled : Inverted (effectiveOf (·.settled base64 conf params defaults) conf) ↔
      Inverted (firstBound conf params defaults) ∧ Inverted (lastBound conf params defaults) := by
    have hresolves : resolvesInverted base64 conf params defaults = true ↔
        Inverted (firstBound conf params defaults) := by
      rw [resolvesInverted, junkInversion_isSome_iff, hfirst]
    by_cases hinverted : resolvesInverted base64 conf params defaults = true
    · simp only [FieldSpec.settled, hinverted, if_true, hlast, ← hresolves, true_and]
    · simp only [FieldSpec.settled, hinverted, Bool.false_eq_true, if_false, hfirst, ← hresolves,
        false_and]
  rw [← hsettled, ← junkInversion_isSome_iff, Option.isSome_iff_exists, Prod.exists]
  simp only [merge_junkInverted_iff, exists_and_left]

theorem readBack_of_confLine (h : confLine conf f = none) : readBack conf f = none := by
  obtain ⟨spec, hspec, rfl⟩ := exists_spec f
  rw [confLine_eq hspec] at h
  rw [readBack_eq hspec, FieldSpec.confValue, h]
  rfl

theorem Defaulted.bounds (h : Defaulted conf params f) (defaults : ClientDefaults) :
    firstBound conf params defaults f = some (.int (defaults.junk f)) ∧
      lastBound conf params defaults f = some (.int (defaults.junk f)) ∧
      readBack conf f = none := by
  obtain ⟨hepoch, hline⟩ := h
  exact ⟨by simp [firstBound, hepoch, hline], by simp [lastBound, hepoch, hline],
    readBack_of_confLine hline⟩

theorem lastBound_of_not_defaulted (hnot : ¬Defaulted conf params f) (defaults : ClientDefaults) :
    lastBound conf params defaults f = readBack conf f := if_neg hnot

theorem opposes_iff (hnot : ¬Defaulted conf params f) (defaults : ClientDefaults)
    (wrong : Int64 → Prop) : Opposes conf params f wrong ↔
      (∃ n, firstBound conf params defaults f = some (.int n) ∧ wrong n) ∧
        ∃ n, lastBound conf params defaults f = some (.int n) ∧ wrong n := by
  rw [lastBound_of_not_defaulted hnot, Opposes, and_comm]
  refine and_congr_left fun hconf => ?_
  unfold firstBound
  cases hepoch : epochBound params f with
  | none =>
    have hline : (confLine conf f).isSome = true := by
      rw [Option.isSome_iff_ne_none]
      exact fun hline => hnot ⟨hepoch, hline⟩
    simp [hline, hconf]
  | some n =>
    by_cases hrange : InJunkRange n
    · simp [hrange]
    · simp [hrange, hconf]

/-- Bounds that stay inverted without an inverted pair in the conf. -/
theorem defaultClash_iff (hbands : defaults.InBands) : DefaultClash conf params defaults ↔
    Inverted (firstBound conf params defaults) ∧ Inverted (lastBound conf params defaults) ∧
      ¬Inverted (readBack conf) := by
  unfold DefaultClash
  by_cases hmin : Defaulted conf params .jmin
  · obtain ⟨hfirst, hlast, hconf⟩ := hmin.bounds defaults
    by_cases hmax : Defaulted conf params .jmax
    · obtain ⟨hfirst', -, hconf'⟩ := hmax.bounds defaults
      have hordered : ¬defaults.jmax < defaults.jmin := by
        have := hbands.junk
        grind
      simp [Opposes, Inverted, hconf, hconf', hfirst, hfirst', ClientDefaults.junk, hordered]
    · simp only [hmin, hmax, false_and, false_or, true_and, opposes_iff hmax defaults]
      simp [Inverted, hfirst, hlast, hconf, ClientDefaults.junk]
  · by_cases hmax : Defaulted conf params .jmax
    · obtain ⟨hfirst, hlast, hconf⟩ := hmax.bounds defaults
      simp only [hmin, hmax, false_and, or_false, true_and, opposes_iff hmin defaults]
      simp [Inverted, hfirst, hlast, hconf, ClientDefaults.junk]
    · have hlast : Inverted (lastBound conf params defaults) ↔ Inverted (readBack conf) := by
        simp only [Inverted, lastBound_of_not_defaulted hmin, lastBound_of_not_defaulted hmax]
      simp only [hmin, hmax, false_and, or_false, hlast, and_not_self, and_false]

end Blame

/-- With defaults from the generator, a merge that refuses inverted junk bounds has found them in
the conf, unless one bound is a default and the other one's line goes past it. -/
theorem junkInverted_blames_conf_iff (base64 : Base64) (conf : Str) (params : Option AwgParams)
    (defaults : ClientDefaults) (hbands : defaults.InBands) :
    (∀ lo hi, mergeObfuscationParamsReporting base64 conf params defaults =
      .error (.junkInverted lo hi) → Inverted (readBack conf)) ↔
      ¬(PassesChecks base64 conf params defaults ∧ DefaultClash conf params defaults) := by
  rw [defaultClash_iff hbands]
  have hexists := exists_junkInverted_iff hbands base64 conf params
  constructor
  · rintro hblame ⟨hpasses, hfirst, hlast, hconf⟩
    obtain ⟨lo, hi, herror⟩ := hexists.mpr ⟨hpasses, hfirst, hlast⟩
    exact hconf (hblame lo hi herror)
  · intro hnot lo hi herror
    obtain ⟨hpasses, hfirst, hlast⟩ := hexists.mp ⟨lo, hi, herror⟩
    by_contra hconf
    exact hnot ⟨hpasses, hfirst, hlast, hconf⟩

def invertedConf : Str := "[Interface]\nJmin = 500\nJmax = 100".toList

/-- A conf with both lines, and the error that is due to them. -/
theorem invertedConf_blamed : mergeObfuscationParamsReporting .standard invertedConf none
    sampleDefaults = .error (.junkInverted 500 100) ∧ Inverted (readBack invertedConf) := by
  have herror : mergeObfuscationParamsReporting .standard invertedConf none sampleDefaults =
      .error (.junkInverted 500 100) := by
    decide +kernel
  refine ⟨herror, (junkInverted_blames_conf_iff .standard invertedConf none sampleDefaults
    sampleDefaults_inBands).mpr ?_ 500 100 herror⟩
  have hmin : confLine invertedConf .jmin ≠ none := by decide +kernel
  have hmax : confLine invertedConf .jmax ≠ none := by decide +kernel
  rintro ⟨-, ⟨hdefaulted, -⟩ | ⟨hdefaulted, -⟩⟩
  · exact hmax hdefaulted.2
  · exact hmin hdefaulted.2

def oneSidedConf : Str := "[Interface]\nJmin = 500".toList

/-- A conf without an upper bound is refused for the generated one. -/
theorem default_jmax_inverts : sampleDefaults.InBands ∧
    mergeObfuscationParamsReporting .standard oneSidedConf none sampleDefaults =
      .error (.junkInverted 500 100) ∧ ¬Inverted (readBack oneSidedConf) := by
  refine ⟨sampleDefaults_inBands, by decide +kernel, ?_⟩
  rintro ⟨lo, hi, -, hmax, -⟩
  have hnone : readBack oneSidedConf .jmax = none := by decide +kernel
  simp [hnone] at hmax

end PartnerEdge.Awg
