import PartnerEdge.Awg.DropReport

/-!
# Merging twice

A second merge of the same payload finds the lines of the first one. An epoch value is written
again, over lines that have its text already, and a default has become a line of the conf, with the
value that the checks read. So the second merge changes nothing.
-/

namespace PartnerEdge.Awg

open Text

/-- The source of a row in the second merge: a default that was written is a line of the conf
now. -/
def Sourced.again (params : Option AwgParams) (spec : FieldSpec) : Sourced → Sourced
  | .written v => if (spec.epochValue params).isSome then .written v else .kept
  | s => s

section Rows

variable {base64 : Base64} {conf out : Str} {params : Option AwgParams} {defaults : ClientDefaults}
  {dropped : List Field} {spec : FieldSpec} {v : FieldValue} {s : Sourced}

theorem settled_of_epoch_none (hepoch : spec.epochValue params = none) :
    spec.settled base64 conf params defaults = spec.sourced base64 conf params defaults := by
  simp [FieldSpec.settled, giveUp, hepoch]

theorem settled_cases (base64 : Base64) (conf : Str) (params : Option AwgParams)
    (defaults : ClientDefaults) (spec : FieldSpec) :
    spec.settled base64 conf params defaults = spec.sourced base64 conf params defaults ∨
      spec.settled base64 conf params defaults = .kept := by
  unfold FieldSpec.settled giveUp
  grind

/-- A source that is written without an epoch value is a valid default of a row without a line. -/
theorem default_of_written (hepoch : spec.epochValue params = none)
    (h : spec.sourced base64 conf params defaults = .written v) :
    spec.default defaults = some v ∧ spec.confRaw conf = none := by
  rw [sourced_of_epoch_none hepoch] at h
  split at h
  · cases h
  · next hraw =>
    cases hdefault : spec.default defaults with
    | none => simp [hdefault] at h
    | some w =>
      refine ⟨?_, by simpa using hraw⟩
      by_cases hvalid : spec.validate base64 w = .ok () <;>
        simp_all [Option.filter]

/-- The fields whose values the second merge compares. -/
def comparedFields : List Field := .jmin :: .jmax :: checkedFields

/-- Of the compared fields only the junk bounds have a default. -/
theorem isJunkBound_of_default (hspec : spec ∈ fieldSpecs) (hf : spec.field ∈ comparedFields)
    (hdefault : spec.default defaults = some v) : spec.field ∈ [Field.jmin, .jmax] := by
  by_contra hother
  have hchecked : spec.field ∈ checkedFields := by
    simp only [comparedFields, List.mem_cons, List.not_mem_nil, or_false, not_or] at hf hother
    tauto
  simp [default_of_checkedFields defaults spec hspec hchecked] at hdefault

theorem effectiveOf_again {src src' : FieldSpec → Sourced} {f : Field} (hf : f ∈ comparedFields)
    (hsrc : ∀ spec ∈ fieldSpecs, src' spec = (src spec).again params spec)
    (hvalue : ∀ spec ∈ fieldSpecs, spec.field ∈ comparedFields →
      ((src spec).again params spec).value out spec = (src spec).value conf spec) :
    effectiveOf src' out f = effectiveOf src conf f := by
  obtain ⟨spec, hspec, rfl⟩ := exists_spec f
  rw [effectiveOf_field hspec, effectiveOf_field hspec, hsrc spec hspec, hvalue spec hspec hf]

theorem junkInversion_congr {effective effective' : Field → Option FieldValue}
    (h : ∀ f ∈ comparedFields, effective f = effective' f) :
    junkInversion effective = junkInversion effective' := by
  simp only [junkInversion, junkPair, h .jmin (by decide), h .jmax (by decide)]

theorem again_eq_omitted_iff : s.again params spec = .omitted ↔ s = .omitted := by
  cases s <;> simp [Sourced.again]
  split <;> simp

theorem again_eq_written (h : s.again params spec = .written v) : s = .written v := by
  cases s with
  | written w =>
    simp only [Sourced.again] at h
    split at h
    · exact h
    · cases h
  | omitted => cases h
  | kept => cases h

/-- Lines are not changed by entries that they agree with. -/
theorem replaceLines_eq_self {entries : List (FieldSpec × Str)}
    (hentry : ∀ e ∈ entries,
      '\n' ∉ e.2 ∧ e.1.IsLine e.2 ∧ ∀ l ∈ lines out, e.1.IsLine l → l = e.2) :
    replaceLines out entries = out := by
  obtain ⟨hjoin, -⟩ := replaceLines_joinLines (fun e he => (hentry e he).1) (areLines_lines out)
  rw [joinLines_lines] at hjoin
  have hsame : (lines out).map (replaceLine entries) = lines out := by
    refine List.map_congr_left (fun l hl => ?_) |>.trans (List.map_id _)
    obtain ⟨hkept, -⟩ | ⟨e, he, hisLine, heq⟩ :=
      replaceLine_cases (fun e he => (hentry e he).2.1) l
    · exact hkept
    · exact heq.trans ((hentry e he).2.2 l hl hisLine).symm
  rw [hjoin, hsame, joinLines_lines]

variable (h : mergeObfuscationParamsReporting base64 conf params defaults = .ok (out, dropped))
include h

/-- What the first merge leaves of a row that it writes. -/
theorem row_of_written (hspec : spec ∈ fieldSpecs)
    (hwritten : spec.settled base64 conf params defaults = .written v) :
    spec.confRaw out = some (v.text.dropWhile isBlank) ∧
      ∀ l ∈ lines out, spec.IsLine l → l = spec.render v := by
  obtain ⟨hsound, hsplice⟩ := merge_settled h
  have hentry : (spec, spec.render v) ∈
      (Resolution.ofSources (·.settled base64 conf params defaults) conf dropped).replaces ++
        (Resolution.ofSources (·.settled base64 conf params defaults) conf dropped).inserts :=
    mem_ofSources.mpr ⟨hspec, v, hwritten, rfl⟩
  refine ⟨hsound.confRaw_splice_written hsplice hentry ?_, (hsound.lines_written hsplice hentry).2⟩
  rw [Resolution.ofSources_effective, effectiveOf_field hspec, hwritten]
  rfl

theorem confRaw_of_not_written (hspec : spec ∈ fieldSpecs)
    (hkept : ∀ v, spec.settled base64 conf params defaults ≠ .written v) :
    spec.confRaw out = spec.confRaw conf := by
  obtain ⟨hsound, hsplice⟩ := merge_settled h
  refine hsound.confRaw_splice_kept hsplice hspec fun e he hfield => ?_
  obtain ⟨hmem, v, hwritten, -⟩ := mem_ofSources.mp he
  rw [fieldSpecs_eq_of_field hmem hspec hfield] at hwritten
  exact hkept v hwritten

/-- The sources of the second merge. -/
theorem source_again (hspec : spec ∈ fieldSpecs) : spec.source base64 out params defaults =
      .ok ((spec.sourced base64 conf params defaults).again params spec) := by
  cases hepoch : spec.epochValue params with
  | some v =>
    -- The conf is not looked at.
    have hsame : spec.source base64 out params defaults =
        spec.source base64 conf params defaults := by
      simp only [FieldSpec.source, hepoch]
    rw [hsame, (merge_ok_iff.mp h).1 spec hspec]
    cases hsourced : spec.sourced base64 conf params defaults <;> simp [Sourced.again, hepoch]
  | none =>
    rw [source_of_epoch_none hepoch, sourced_of_epoch_none hepoch]
    cases hsourced : spec.sourced base64 conf params defaults with
    | written v =>
      have hwritten := (settled_of_epoch_none hepoch).trans hsourced
      simp [(row_of_written h hspec hwritten).1, Sourced.again, hepoch]
    | omitted =>
      obtain ⟨-, v, e, hsome, -⟩ := sourced_eq_omitted_iff.mp hsourced
      simp [hepoch] at hsome
    | kept =>
      have hraw : spec.confRaw out = spec.confRaw conf := by
        refine confRaw_of_not_written h hspec fun v => ?_
        simp [settled_of_epoch_none hepoch, hsourced]
      rw [hraw, ← sourced_of_epoch_none hepoch, hsourced]
      rfl

theorem sourced_again (hspec : spec ∈ fieldSpecs) : spec.sourced base64 out params defaults =
      (spec.sourced base64 conf params defaults).again params spec := by
  rw [FieldSpec.sourced, source_again h hspec]
  rfl

/-- A default is read back from its line. -/
theorem confValue_of_default (hspec : spec ∈ fieldSpecs) (hf : spec.field ∈ comparedFields)
    (hepoch : spec.epochValue params = none)
    (hsourced : spec.sourced base64 conf params defaults = .written v) :
    spec.confValue out = some v := by
  obtain ⟨hdefault, -⟩ := default_of_written hepoch hsourced
  have hrow := isJunkBound hspec (isJunkBound_of_default hspec hf hdefault)
  obtain rfl : v = .int (defaults.junk spec.field) := by
    rw [hrow.default, Option.some.injEq] at hdefault
    exact hdefault.symm
  have hraw := (row_of_written h hspec ((settled_of_epoch_none hepoch).trans hsourced)).1
  rw [FieldSpec.confValue, hraw, Option.bind_some, parseConfValue_dropWhile]
  exact parseConfValue_int (.inr hrow.kind) _

/-- A row keeps its value if it keeps its line or is written. -/
theorem value_again (hspec : spec ∈ fieldSpecs) (hf : spec.field ∈ comparedFields)
    (hs : s = spec.sourced base64 conf params defaults ∨
      s = spec.settled base64 conf params defaults) :
    (s.again params spec).value out spec = s.value conf spec := by
  have hvalue : (∀ v, s ≠ .written v) → spec.confValue out = spec.confValue conf := by
    intro hkept
    have hraw : spec.confRaw out = spec.confRaw conf := by
      refine confRaw_of_not_written h hspec fun v hv => ?_
      rcases hs with rfl | rfl
      · rcases settled_cases base64 conf params defaults spec with heq | heq
        · exact hkept v (heq ▸ hv)
        · simp [heq] at hv
      · exact hkept v hv
    rw [FieldSpec.confValue, hraw, FieldSpec.confValue]
  cases s with
  | omitted => exact hvalue (by simp)
  | kept => exact hvalue (by simp)
  | written v =>
    cases hepoch : spec.epochValue params with
    | some w => simp [Sourced.again, hepoch, Sourced.value]
    | none =>
      have hsourced : spec.sourced base64 conf params defaults = .written v := by
        rcases hs with hs | hs
        · exact hs.symm
        · rw [← settled_of_epoch_none hepoch, ← hs]
      simp only [Sourced.again, hepoch, Option.isSome_none, Bool.false_eq_true, if_false]
      exact confValue_of_default h hspec hf hepoch hsourced

theorem resolvesInverted_again :
    resolvesInverted base64 out params defaults = resolvesInverted base64 conf params defaults := by
  unfold resolvesInverted
  rw [junkInversion_congr fun f hf => effectiveOf_again hf (fun spec hspec => sourced_again h hspec)
    fun spec hspec hf => value_again h hspec hf (.inl rfl)]

theorem settled_again (hspec : spec ∈ fieldSpecs) : spec.settled base64 out params defaults =
      (spec.settled base64 conf params defaults).again params spec := by
  simp only [FieldSpec.settled, resolvesInverted_again h, giveUp, sourced_again h hspec]
  split
  · split
    · rfl
    · split <;> rfl
  · rfl

theorem droppedFields_again :
    droppedFields base64 out params defaults = droppedFields base64 conf params defaults := by
  have homitted : fieldSpecs.filter (·.sourced base64 out params defaults = .omitted) =
      fieldSpecs.filter (·.sourced base64 conf params defaults = .omitted) := by
    refine List.filter_congr fun spec hspec => ?_
    rw [sourced_again h hspec, decide_eq_decide, again_eq_omitted_iff]
  rw [droppedFields, homitted, resolvesInverted_again h, droppedFields]

/-- In the second merge a written row has its lines already. -/
theorem splice_again :
    splice out (.ofSources (·.settled base64 out params defaults) out dropped) = .ok out := by
  obtain ⟨hsound, -⟩ := merge_settled h
  have hwritten : ∀ spec ∈ fieldSpecs, ∀ v, spec.settled base64 out params defaults = .written v →
      spec.settled base64 conf params defaults = .written v := by
    intro spec hspec v hv
    rw [settled_again h hspec] at hv
    exact again_eq_written hv
  have hinserts :
      (Resolution.ofSources (·.settled base64 out params defaults) out dropped).inserts = [] := by
    refine List.filterMap_eq_nil_iff.mpr fun spec hspec => ?_
    obtain ⟨hspec, hraw⟩ := List.mem_filter.mp hspec
    cases hsettled : spec.settled base64 out params defaults with
    | written v => simp [(row_of_written h hspec (hwritten spec hspec v hsettled)).1] at hraw
    | omitted => simp [hsettled, Sourced.entry]
    | kept => simp [hsettled, Sourced.entry]
  have hentry : ∀ e ∈ (Resolution.ofSources (·.settled base64 out params defaults) out
      dropped).replaces, '\n' ∉ e.2 ∧ e.1.IsLine e.2 ∧ ∀ l ∈ lines out, e.1.IsLine l → l = e.2 := by
    intro e he
    obtain ⟨hspec, v, hsettled, hline⟩ := mem_ofSources.mp (List.mem_append_left _ he)
    have hsettled := hwritten e.1 hspec v hsettled
    obtain ⟨-, hwrites⟩ := hsound.writes (mem_ofSources.mpr ⟨hspec, v, hsettled, hline⟩)
    exact ⟨hwrites.newline_notMem, hwrites.isLine,
      fun l hl hisLine => (row_of_written h hspec hsettled).2 l hl hisLine |>.trans hline.symm⟩
  have hreplace := replaceLines_eq_self hentry
  unfold splice
  rw [hinserts, hreplace]
  rfl

end Rows

/-! ## The top-up -/

/-- The fields that have a default. -/
def topUpFields : List Field := [.jc, .jmin, .jmax, .i1, .contentPaddingAddition]

/-- The line that a merge without a payload adds for a row. -/
def FieldSpec.topUpLine (base64 : Base64) (conf : Str) (defaults : ClientDefaults)
    (spec : FieldSpec) : Option Str :=
  if (spec.confRaw conf).isSome then none
  else ((spec.default defaults).filter fun v => spec.validate base64 v = .ok ()).map spec.render

section TopUp

variable {base64 : Base64} {conf out : Str} {defaults : ClientDefaults} {dropped : List Field}

theorem default_of_notMem_topUpFields (defaults : ClientDefaults) : ∀ spec ∈ fieldSpecs,
    spec.field ∉ topUpFields → spec.default defaults = none := by
  simp [fieldSpecs, topUpFields]

/-- The lines of a merge without a payload. -/
theorem merge_none_lines
    (h : mergeObfuscationParamsReporting base64 conf none defaults = .ok (out, dropped)) :
    ∃ before after, lines conf = before ++ after ∧
      lines out = before ++ (fieldSpecs.filter (·.field ∈ topUpFields)).filterMap
        (·.topUpLine base64 conf defaults) ++ after := by
  obtain ⟨hsound, hsplice⟩ := merge_settled h
  have hentry : ∀ spec : FieldSpec, (spec.settled base64 conf none defaults).entry spec =
      (spec.topUpLine base64 conf defaults).map (spec, ·) := by
    intro spec
    rw [settled_of_epoch_none rfl, sourced_of_epoch_none rfl, FieldSpec.topUpLine]
    split
    · rfl
    · cases (spec.default defaults).filter fun v => spec.validate base64 v = .ok () <;> rfl
  have hreplaces : (Resolution.ofSources (·.settled base64 conf none defaults) conf
      dropped).replaces = [] := by
    refine List.filterMap_eq_nil_iff.mpr fun spec hspec => ?_
    simp [hentry, FieldSpec.topUpLine, (List.mem_filter.mp hspec).2]
  have hinserts : (Resolution.ofSources (·.settled base64 conf none defaults) conf
      dropped).inserts.map Prod.snd = (fieldSpecs.filter (·.field ∈ topUpFields)).filterMap
        (·.topUpLine base64 conf defaults) := by
    simp only [Resolution.ofSources, hentry, List.map_filterMap, List.filterMap_filter]
    refine List.filterMap_congr fun spec hspec => ?_
    have hdefault := default_of_notMem_topUpFields defaults spec hspec
    by_cases hraw : (spec.confRaw conf).isSome = true
    · simp [FieldSpec.topUpLine, hraw]
    · by_cases hfield : spec.field ∈ topUpFields
      · simp_all
      · simp [FieldSpec.topUpLine, hfield, hdefault hfield]
  obtain ⟨before, after, hconf, hout, -⟩ :=
    splice_lines (fun e he => (hsound.writes he).2.newline_notMem) hsplice
  rw [hreplaces] at hconf
  rw [hinserts] at hout
  exact ⟨before, after, (List.map_id _).symm.trans hconf, hout⟩

end TopUp

/-- Merging a payload into the result of its merge gives the same text and the same drop list.
Without a payload the text differs from the conf by lines for keys with a default that had none. -/
theorem merge_idempotent (base64 : Base64) (conf : Str) (params : Option AwgParams)
    (defaults : ClientDefaults) (out : Str) (dropped : List Field)
    (h : mergeObfuscationParamsReporting base64 conf params defaults = .ok (out, dropped)) :
    mergeObfuscationParamsReporting base64 out params defaults = .ok (out, dropped) ∧
    (params = none → ∃ before after, lines conf = before ++ after ∧
      lines out = before ++ (fieldSpecs.filter (·.field ∈ topUpFields)).filterMap
        (·.topUpLine base64 conf defaults) ++ after) := by
  obtain ⟨-, hcheck, hinversion, -, hdropped⟩ := merge_ok_iff.mp h
  refine ⟨merge_ok_iff.mpr ⟨?_, ?_, ?_, splice_again h, ?_⟩, ?_⟩
  · intro spec hspec
    rw [source_again h hspec, sourced_again h hspec]
  · refine (checkPreconditions_congr fun f hf => ?_).mp hcheck
    refine (effectiveOf_again ?_ (fun spec hspec => sourced_again h hspec)
      fun spec hspec hf => value_again h hspec hf (.inl rfl)).symm
    simp [comparedFields, hf]
  · rw [junkInversion_congr fun f hf => effectiveOf_again hf
      (fun spec hspec => settled_again h hspec)
      fun spec hspec hf => value_again h hspec hf (.inr rfl)]
    exact hinversion
  · rw [hdropped, droppedFields_again h]
  · rintro rfl
    exact merge_none_lines h

theorem merge_sampleOutput :
    mergeObfuscationParamsReporting .standard sampleOutput (some samplePayload) sampleDefaults =
      .ok (sampleOutput, [.i1]) :=
  (merge_idempotent .standard sampleConf (some samplePayload) sampleDefaults sampleOutput [.i1]
    merge_samplePayload).1

end PartnerEdge.Awg
