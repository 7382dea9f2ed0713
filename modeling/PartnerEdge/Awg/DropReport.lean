import PartnerEdge.Awg.Sourcing

/-!
# The drop list

A merge that succeeds returns the fields whose epoch value it gave up. Two passes put fields on that
list, the validators and the fallback of inverted junk bounds. The second asks only whether the
payload has a value for a bound, so a bound that its validator has rejected is put there again.
-/

namespace PartnerEdge.Awg

open Text

/-- What the list of dropped fields is to say about a payload and the output. -/
structure ReportsDrops (p : AwgParams) (out : Str) (dropped : List Field) : Prop where
  carried : ∀ f ∈ dropped, ∃ spec ∈ fieldSpecs, spec.field = f ∧ spec.mergeClass = .clientSide ∧
    (spec.epoch p).isSome = true
  nodup : dropped.Nodup
  written : ∀ spec ∈ fieldSpecs, spec.mergeClass = .clientSide → spec.field ∉ dropped →
    ∀ v ∈ spec.epoch p, (∃ l ∈ lines out, spec.IsLine l) ∧
      ∀ l ∈ lines out, spec.IsLine l → l = spec.render v

/-! ## The rows of the junk bounds -/

def AwgParams.junk (p : AwgParams) : Field → Option Int64
  | .jmin => p.jmin
  | .jmax => p.jmax
  | _ => none

def ClientDefaults.junk (defaults : ClientDefaults) : Field → Int64
  | .jmin => defaults.jmin
  | .jmax => defaults.jmax
  | _ => 0

/-- What fits the 32 bits that the daemon parses. -/
def InJunkRange (n : Int64) : Prop := 0 ≤ n ∧ n ≤ 4294967295

instance (n : Int64) : Decidable (InJunkRange n) := inferInstanceAs (Decidable (_ ∧ _))

/-- A junk bound of the payload that does not fit. -/
def AwgParams.JunkOutOfRange (p : AwgParams) : Prop :=
  ∃ f ∈ [Field.jmin, .jmax], ∃ n ∈ p.junk f, ¬InJunkRange n

structure FieldSpec.IsJunkBound (spec : FieldSpec) : Prop where
  mergeClass : spec.mergeClass = .clientSide
  kind : spec.kind = .junkCount
  epoch : ∀ p, spec.epoch p = (p.junk spec.field).map .int
  default : ∀ defaults, spec.default defaults = some (.int (defaults.junk spec.field))

theorem isJunkBound {spec : FieldSpec} (hspec : spec ∈ fieldSpecs)
    (hjunk : spec.field ∈ [Field.jmin, .jmax]) : spec.IsJunkBound := by
  revert spec
  simp only [fieldSpecs, List.forall_mem_cons]
  refine ⟨by simp, fun _ => ⟨rfl, rfl, fun _ => rfl, fun _ => rfl⟩,
    fun _ => ⟨rfl, rfl, fun _ => rfl, fun _ => rfl⟩, ?_⟩
  simp

theorem FieldSpec.IsJunkBound.validate_ok_iff {spec : FieldSpec} (h : spec.IsJunkBound)
    (base64 : Base64) (n : Int64) : spec.validate base64 (.int n) = .ok () ↔ InJunkRange n := by
  unfold FieldSpec.validate validateJunkValue InJunkRange
  rw [h.kind]
  simp only []
  split <;> simp_all

section Drops

variable {base64 : Base64} {conf out : Str} {p : AwgParams} {defaults : ClientDefaults}
  {dropped : List Field} {spec : FieldSpec}

theorem droppedFields_carried {f : Field} (hf : f ∈ droppedFields base64 conf (some p) defaults) :
    ∃ spec ∈ fieldSpecs, spec.field = f ∧ spec.mergeClass = .clientSide ∧
      (spec.epoch p).isSome = true := by
  rcases List.mem_append.mp hf with hf | hf
  · obtain ⟨spec, hspec, rfl⟩ := List.mem_map.mp hf
    obtain ⟨hspec, homitted⟩ := List.mem_filter.mp hspec
    obtain ⟨hclass, v, e, hepoch, -⟩ := sourced_eq_omitted_iff.mp (of_decide_eq_true homitted)
    have hvalue : spec.epoch p = some v := hepoch
    exact ⟨spec, hspec, rfl, hclass, by simp [hvalue]⟩
  · split at hf
    · obtain ⟨hjunk, hcarries⟩ := List.mem_filter.mp hf
      obtain ⟨spec, hspec, rfl⟩ := exists_spec f
      rw [carries_eq hspec] at hcarries
      exact ⟨spec, hspec, rfl, (isJunkBound hspec hjunk).mergeClass, hcarries⟩
    · cases hf

/-- A value that is not dropped is written. -/
theorem settled_of_notMem (hspec : spec ∈ fieldSpecs) (hclass : spec.mergeClass = .clientSide)
    {v : FieldValue} (hv : spec.epoch p = some v)
    (hnot : spec.field ∉ droppedFields base64 conf (some p) defaults) :
    spec.settled base64 conf (some p) defaults = .written v := by
  have hepoch : spec.epochValue (some p) = some v := hv
  have hsourced : spec.sourced base64 conf (some p) defaults = .written v := by
    cases hvalid : spec.validate base64 v with
    | ok u => exact sourced_of_valid hepoch hvalid
    | error e =>
      have homitted : spec.sourced base64 conf (some p) defaults = .omitted :=
        sourced_eq_omitted_iff.mpr ⟨hclass, v, e, hepoch, hvalid⟩
      refine absurd (List.mem_append_left _ ?_) hnot
      exact List.mem_map.mpr ⟨spec, List.mem_filter.mpr ⟨hspec, decide_eq_true homitted⟩, rfl⟩
  unfold FieldSpec.settled
  split
  · next hinverted =>
    have hkeep : spec.field ∉ [Field.jmin, .jmax] := by
      intro hjunk
      refine hnot (List.mem_append_right _ ?_)
      rw [if_pos hinverted]
      exact List.mem_filter.mpr ⟨hjunk, by simp [carries_eq hspec, hepoch]⟩
    simp only [List.mem_cons, List.not_mem_nil, or_false, not_or] at hkeep
    rw [giveUp, if_neg fun hgiven => hkeep.2 hgiven.1, giveUp,
      if_neg fun hgiven => hkeep.1 hgiven.1, hsourced]
  · exact hsourced

theorem omitted_iff_of_junk (hspec : spec ∈ fieldSpecs) (hjunk : spec.field ∈ [Field.jmin, .jmax]) :
    spec.sourced base64 conf (some p) defaults = .omitted ↔
      ∃ n ∈ p.junk spec.field, ¬InJunkRange n := by
  have hrow := isJunkBound hspec hjunk
  have hepoch : spec.epochValue (some p) = (p.junk spec.field).map .int := hrow.epoch p
  rw [sourced_eq_omitted_iff, hepoch, and_iff_right hrow.mergeClass]
  simp only [Option.map_eq_some_iff, ← hrow.validate_ok_iff base64, Option.mem_def]
  constructor
  · rintro ⟨v, e, ⟨n, hn, rfl⟩, herror⟩
    exact ⟨n, hn, by simp [herror]⟩
  · rintro ⟨n, hn, hinvalid⟩
    cases hvalid : spec.validate base64 (.int n) with
    | ok u => exact absurd hvalid hinvalid
    | error e => exact ⟨.int n, e, ⟨n, hn, rfl⟩, hvalid⟩

/-- The two halves of the list overlap in the junk bounds that their validator rejected. -/
theorem nodup_droppedFields_iff : (droppedFields base64 conf (some p) defaults).Nodup ↔
    ¬(resolvesInverted base64 conf (some p) defaults = true ∧ p.JunkOutOfRange) := by
  have homitted : ((fieldSpecs.filter (·.sourced base64 conf (some p) defaults = .omitted)).map
      FieldSpec.field).Nodup :=
    fieldSpecs_field_nodup.sublist (List.filter_sublist.map _)
  unfold droppedFields
  split
  · next hinverted =>
    have hgiven : ([Field.jmin, .jmax].filter (carries (some p))).Nodup :=
      List.Nodup.filter _ (by decide)
    rw [List.nodup_append, and_iff_right homitted, and_iff_right hgiven, and_iff_right hinverted,
      AwgParams.JunkOutOfRange]
    constructor
    · rintro hdisjoint ⟨f, hjunk, n, hn, hrange⟩
      obtain ⟨spec, hspec, rfl⟩ := exists_spec f
      have hsourced : spec.sourced base64 conf (some p) defaults = .omitted :=
        (omitted_iff_of_junk hspec hjunk).mpr ⟨n, hn, hrange⟩
      have hepoch : spec.epochValue (some p) = (p.junk spec.field).map .int :=
        (isJunkBound hspec hjunk).epoch p
      have hcarries : carries (some p) spec.field = true := by
        rw [carries_eq hspec, hepoch, hn]
        rfl
      refine hdisjoint _ (List.mem_map_of_mem (List.mem_filter.mpr ⟨hspec, ?_⟩)) _
        (List.mem_filter.mpr ⟨hjunk, hcarries⟩) rfl
      exact decide_eq_true hsourced
    · rintro hranges f hf _ hjunk rfl
      obtain ⟨spec, hspec, rfl⟩ := List.mem_map.mp hf
      obtain ⟨hspec, hsourced⟩ := List.mem_filter.mp hspec
      have hmem := (List.mem_filter.mp hjunk).1
      exact hranges ⟨_, hmem, (omitted_iff_of_junk hspec hmem).mp (of_decide_eq_true hsourced)⟩
  · next hordered => simp [hordered, homitted]

end Drops

/-- The drop list of a merge names carried client-side values only, and the lines of a value that it
does not name are written. It names no field twice unless the first pass leaves the junk bounds
inverted and a bound of the payload does not fit 32 bits. -/
theorem reportsDrops_iff (base64 : Base64) (conf : Str) (p : AwgParams) (defaults : ClientDefaults)
    (out : Str) (dropped : List Field)
    (h : mergeObfuscationParamsReporting base64 conf (some p) defaults = .ok (out, dropped)) :
    ReportsDrops p out dropped ↔
      ¬(resolvesInverted base64 conf (some p) defaults = true ∧ p.JunkOutOfRange) := by
  obtain ⟨hsound, hsplice⟩ := merge_settled h
  have hdropped : dropped = droppedFields base64 conf (some p) defaults :=
    (merge_ok_iff.mp h).2.2.2.2
  rw [← nodup_droppedFields_iff, ← hdropped]
  refine ⟨fun hreport => hreport.nodup, fun hnodup => ⟨?_, hnodup, ?_⟩⟩
  · intro f hf
    exact droppedFields_carried (hdropped ▸ hf)
  · intro spec hspec hclass hnot v hv
    have hsettled := settled_of_notMem hspec hclass hv (hdropped ▸ hnot)
    obtain ⟨hmem, hall⟩ := hsound.lines_written hsplice
      (mem_ofSources.mpr ⟨hspec, v, hsettled, rfl⟩ : (spec, spec.render v) ∈ _)
    exact ⟨⟨_, hmem, by simp [FieldSpec.IsLine, captureField_render]⟩, hall⟩

/-- The drop list of the sample names `I1` alone. -/
theorem reportsDrops_samplePayload : ReportsDrops samplePayload sampleOutput [.i1] :=
  (reportsDrops_iff .standard sampleConf samplePayload sampleDefaults sampleOutput [.i1]
    merge_samplePayload).mpr fun h => absurd h.1 (by decide +kernel)

/-- A lower bound that does not fit 32 bits, and an upper one below the lower bound of the conf. -/
def outOfRangePayload : AwgParams := { samplePayload with jmin := some (-1), jmax := some 100 }

def junkConf : Str := "[Interface]\nJmin = 500\nJmax = 1000".toList

/-- The lower bound is reported by its validator and by the fallback. -/
theorem jmin_reported_twice : ∃ out dropped,
    mergeObfuscationParamsReporting .standard junkConf (some outOfRangePayload) sampleDefaults =
      .ok (out, dropped) ∧ ¬ReportsDrops outOfRangePayload out dropped := by
  have hdropped : (mergeObfuscationParamsReporting .standard junkConf (some outOfRangePayload)
      sampleDefaults).toOption.map Prod.snd = some [.jmin, .i1, .jmin, .jmax] := by
    decide +kernel
  cases hmerge : mergeObfuscationParamsReporting .standard junkConf (some outOfRangePayload)
      sampleDefaults with
  | error e => simp [hmerge, Except.toOption] at hdropped
  | ok result =>
    obtain ⟨out, dropped⟩ := result
    obtain rfl : dropped = [.jmin, .i1, .jmin, .jmax] := by
      simpa [hmerge, Except.toOption] using hdropped
    exact ⟨out, _, rfl, fun h => absurd h.nodup (by decide)⟩

end PartnerEdge.Awg
