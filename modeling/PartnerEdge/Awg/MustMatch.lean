import PartnerEdge.Awg.CrossField

/-!
# Must-match keys agree on every edge

A must-match value of the payload is written or the merge fails. So two edges that merge the same
payload have the same lines for such a key, whatever their confs and defaults were, and reading one
of these lines gives the payload's value.
-/

namespace PartnerEdge.Awg

open Text

/-- The must-match fields that a payload carries, with their values. -/
def AwgParams.mustMatch (p : AwgParams) : List (Field × FieldValue) :=
  [(Field.s1, FieldValue.int p.s1), (.s2, .int p.s2), (.s4, .int p.s4),
    (.h1, .ofIntOrRange p.h1), (.h2, .ofIntOrRange p.h2), (.h3, .ofIntOrRange p.h3),
    (.h4, .ofIntOrRange p.h4)] ++
  p.s3.toList.map (fun n => (Field.s3, FieldValue.int n)) ++
  p.randomTrailers.toList.map (fun b => (Field.randomTrailers, FieldValue.bool b)) ++
  (p.headerProtectionKey.toList.filter (!·.isEmpty)).map fun key =>
    (Field.headerProtectionKey, FieldValue.str key)

/-- Reading the text gives the value, for an H field as an interval. -/
def FieldSpec.ReadsAs (spec : FieldSpec) (raw : Str) (v : FieldValue) : Prop :=
  if spec.kind = .hRange then
    (spec.parseConfValue raw).bind FieldValue.interval = v.interval ∧ v.interval.isSome = true
  else spec.parseConfValue raw = some v

/-- Each of them is the epoch value of a must-match row. -/
theorem exists_row_of_mem_mustMatch {p : AwgParams} {c : Field × FieldValue} (h : c ∈ p.mustMatch) :
    ∃ spec ∈ fieldSpecs, spec.field = c.1 ∧ spec.mergeClass = .mustMatch ∧
      spec.epoch p = some c.2 := by
  simp only [AwgParams.mustMatch, List.mem_append, List.mem_cons, List.not_mem_nil, or_false,
    List.mem_map, Option.mem_toList, List.mem_filter] at h
  rcases h with ((((rfl | rfl | rfl | rfl | rfl | rfl | rfl) | ⟨n, hn, rfl⟩) | ⟨b, hb, rfl⟩) |
    ⟨key, ⟨hkey, hne⟩, rfl⟩)
  · exact ⟨fieldSpecs[3], List.getElem_mem _, rfl, rfl, rfl⟩
  · exact ⟨fieldSpecs[4], List.getElem_mem _, rfl, rfl, rfl⟩
  · exact ⟨fieldSpecs[6], List.getElem_mem _, rfl, rfl, rfl⟩
  · exact ⟨fieldSpecs[7], List.getElem_mem _, rfl, rfl, rfl⟩
  · exact ⟨fieldSpecs[8], List.getElem_mem _, rfl, rfl, rfl⟩
  · exact ⟨fieldSpecs[9], List.getElem_mem _, rfl, rfl, rfl⟩
  · exact ⟨fieldSpecs[10], List.getElem_mem _, rfl, rfl, rfl⟩
  · refine ⟨fieldSpecs[5], List.getElem_mem _, rfl, rfl, ?_⟩
    show p.s3.map FieldValue.int = _
    rw [hn]
    rfl
  · refine ⟨fieldSpecs[23], List.getElem_mem _, rfl, rfl, ?_⟩
    show p.randomTrailers.map FieldValue.bool = _
    rw [hb]
    rfl
  · refine ⟨fieldSpecs[16], List.getElem_mem _, rfl, rfl, ?_⟩
    show (p.headerProtectionKey.filter (!·.isEmpty)).map FieldValue.str = _
    simp [hkey, Option.filter, hne]

/-! ## The rows that are written -/

section Rows

variable {base64 : Base64} {conf : Str} {params : Option AwgParams} {defaults : ClientDefaults}
  {r r' : Resolution} {spec : FieldSpec} {v : FieldValue}

/-- The row has an entry and its effective value is `v`. -/
def Resolution.Has (r : Resolution) (spec : FieldSpec) (v : FieldValue) : Prop :=
  r.effective spec.field = some v ∧ ∃ e ∈ r.replaces ++ r.inserts, e.1 = spec

/-- A must-match epoch value is written or the merge fails. -/
theorem resolve_has (hclass : spec.mergeClass = .mustMatch) (hv : spec.epochValue params = some v)
    (h : resolve base64 conf params defaults r spec = .ok r') : r'.Has spec v := by
  unfold resolve at h
  cases hvalid : spec.validate base64 v with
  | error e => simp [hv, hvalid, hclass] at h
  | ok u =>
    simp only [hv, hvalid, Except.ok.injEq] at h
    subst h
    refine ⟨Function.update_self .., (spec, spec.render v), ?_, rfl⟩
    simp only [Resolution.setEffective]
    split <;> simp

/-- Entries of other rows stay, with their values. -/
theorem Resolution.Has.resolve {other : FieldSpec} (h : r.Has spec v)
    (hne : spec.field ≠ other.field)
    (hstep : Awg.resolve base64 conf params defaults r other = .ok r') : r'.Has spec v := by
  obtain ⟨heff, e, he, rfl⟩ := h
  have hother : ∀ w, Function.update r.effective other.field (some w) e.1.field = some v :=
    fun w => (Function.update_of_ne hne _ _).trans heff
  have hmem := List.mem_append.mp he
  obtain ⟨w, _, _, rfl⟩ | ⟨w, _, _, rfl⟩ | ⟨dropped, rfl⟩ := resolve_cases hstep
  · refine ⟨hother w, e, ?_, rfl⟩
    simp only [Resolution.setEffective, List.mem_append]
    tauto
  · refine ⟨hother w, e, ?_, rfl⟩
    simp only [Resolution.setEffective, List.mem_append]
    tauto
  · cases hconf : other.confValue conf with
    | none => exact ⟨heff, e, he, rfl⟩
    | some w => exact ⟨hother w, e, he, rfl⟩

theorem Resolution.Has.foldlM_resolve {specs : List FieldSpec} (h : r.Has spec v)
    (hne : ∀ s ∈ specs, spec.field ≠ s.field)
    (hpass : specs.foldlM (Awg.resolve base64 conf params defaults) r = .ok r') :
    r'.Has spec v := by
  induction specs generalizing r with
  | nil =>
    obtain rfl : r = r' := by simpa [pure, Except.pure] using hpass
    exact h
  | cons s specs ih =>
    rw [List.foldlM_cons] at hpass
    obtain ⟨r₁, hstep, hrest⟩ := exists_of_bind_ok hpass
    exact ih (h.resolve (hne s (by simp)) hstep) (fun s hs => hne s (by simp [hs])) hrest

/-- After the first pass every must-match row with an epoch value has its entry. -/
theorem foldlM_resolve_has {specs : List FieldSpec} (hnodup : (specs.map FieldSpec.field).Nodup)
    (hspec : spec ∈ specs) (hclass : spec.mergeClass = .mustMatch)
    (hv : spec.epochValue params = some v)
    (hpass : specs.foldlM (Awg.resolve base64 conf params defaults) r = .ok r') :
    r'.Has spec v := by
  induction specs generalizing r with
  | nil => cases hspec
  | cons s specs ih =>
    rw [List.foldlM_cons] at hpass
    obtain ⟨r₁, hstep, hrest⟩ := exists_of_bind_ok hpass
    rw [List.map_cons, List.nodup_cons] at hnodup
    rcases List.mem_cons.mp hspec with rfl | hspec
    · refine (resolve_has hclass hv hstep).foldlM_resolve (fun s hs heq => ?_) hrest
      exact hnodup.1 (heq ▸ List.mem_map_of_mem hs)
    · exact ih hnodup.2 hspec hrest

theorem Resolution.Has.dropEpochMember {f : Field} (h : r.Has spec v) (hne : spec.field ≠ f) :
    (dropEpochMember conf params r f).Has spec v := by
  obtain ⟨heff, e, he, rfl⟩ := h
  refine ⟨(dropEpochMember_effective_of_ne hne).trans heff, e, ?_, rfl⟩
  have hmem := List.mem_append.mp he
  unfold Awg.dropEpochMember
  split
  · split
    · simp only [List.mem_append, List.mem_filter]
      simp [hne, hmem]
    · exact he
  · exact he

theorem ne_junk_of_mustMatch : ∀ spec ∈ fieldSpecs, spec.mergeClass = .mustMatch →
    spec.field ≠ .jmin ∧ spec.field ≠ .jmax := by
  decide

theorem Resolution.Has.softenJunk (h : r.Has spec v) (hspec : spec ∈ fieldSpecs)
    (hclass : spec.mergeClass = .mustMatch) (hsoften : softenJunk conf params r = .ok r') :
    r'.Has spec v := by
  obtain ⟨hmin, hmax⟩ := ne_junk_of_mustMatch spec hspec hclass
  obtain ⟨rfl | rfl, _⟩ := softenJunk_cases hsoften
  · exact h
  · exact (h.dropEpochMember hmin).dropEpochMember hmax

end Rows

/-! ## Reading a must-match line -/

section Read

variable {base64 : Base64} {spec : FieldSpec} {v : FieldValue}

theorem kind_of_mustMatch : ∀ spec ∈ fieldSpecs, spec.mergeClass = .mustMatch →
    spec.kind ∈ [.sInt, .hRange, .headerProtectionKey, .onOff] := by
  decide

theorem interval_isSome_of_validate (hkind : spec.kind = .hRange)
    (hvalid : spec.validate base64 v = .ok ()) : v.interval.isSome = true := by
  cases v with
  | int n => rfl
  | range lo hi => rfl
  | str s => simp [FieldSpec.validate, hkind] at hvalid
  | bool b => simp [FieldSpec.validate, hkind] at hvalid

theorem parseConfValue_onOff (hkind : spec.kind = .onOff)
    (hvalid : spec.validate base64 v = .ok ()) : spec.parseConfValue v.text = some v := by
  cases v with
  | int n => simp [FieldSpec.validate, hkind] at hvalid
  | range lo hi => simp [FieldSpec.validate, hkind] at hvalid
  | str s => simp [FieldSpec.validate, hkind] at hvalid
  | bool b =>
    unfold FieldSpec.parseConfValue
    rw [hkind]
    cases b <;> rfl

theorem readsAs_text (hspec : spec ∈ fieldSpecs) (hclass : spec.mergeClass = .mustMatch)
    (hvalid : spec.validate base64 v = .ok ()) : spec.ReadsAs v.text v := by
  have hkinds := kind_of_mustMatch spec hspec hclass
  simp only [List.mem_cons, List.not_mem_nil, or_false] at hkinds
  unfold FieldSpec.ReadsAs
  rcases hkinds with hkind | hkind | hkind | hkind
  · obtain ⟨n, rfl⟩ := exists_int_of_validate (.inl hkind) hvalid
    rw [if_neg (by simp [hkind])]
    exact parseConfValue_int (.inl hkind) n
  · rw [if_pos hkind]
    exact ⟨parseConfValue_hRange hkind hvalid, interval_isSome_of_validate hkind hvalid⟩
  · rw [if_neg (by simp [hkind])]
    exact parseConfValue_headerProtectionKey hkind hvalid
  · rw [if_neg (by simp [hkind])]
    exact parseConfValue_onOff hkind hvalid

end Read

/-! ## One edge, two edges -/

/-- The lines of a carried must-match row in the output of a merge. -/
theorem merge_mustMatch_lines {base64 : Base64} {conf out : Str} {p : AwgParams}
    {defaults : ClientDefaults} {dropped : List Field} {spec : FieldSpec} {v : FieldValue}
    (hspec : spec ∈ fieldSpecs) (hclass : spec.mergeClass = .mustMatch) (hv : spec.epoch p = some v)
    (h : mergeObfuscationParamsReporting base64 conf (some p) defaults = .ok (out, dropped)) :
    spec.render v ∈ lines out ∧ (∀ l ∈ lines out, spec.IsLine l → l = spec.render v) ∧
      spec.validate base64 v = .ok () := by
  obtain ⟨r₀, r, hpass, _, hsoften, hsound, hsplice, -⟩ := merge_ok h
  have hepoch : spec.epochValue (some p) = some v := hv
  have hhas := foldlM_resolve_has fieldSpecs_field_nodup hspec hclass hepoch hpass
  obtain ⟨heff, e, he, rfl⟩ := hhas.softenJunk hspec hclass hsoften
  obtain ⟨_, w, hvalid, hline, hw⟩ := hsound.written e he
  obtain rfl : v = w := by simpa [heff] using hw
  obtain ⟨hmem, hall⟩ := hsound.lines_written hsplice he
  rw [hline] at hmem hall
  exact ⟨hmem, hall, hvalid⟩

/-- If two edges both merge a payload, both outputs have lines for every must-match field that it
carries, all these lines are the same one, and reading it gives the payload's value. -/
theorem merge_mustMatch_agrees (base64 : Base64) (p : AwgParams) (conf₁ conf₂ : Str)
    (defaults₁ defaults₂ : ClientDefaults) (out₁ out₂ : Str) (dropped₁ dropped₂ : List Field)
    (h₁ : mergeObfuscationParamsReporting base64 conf₁ (some p) defaults₁ = .ok (out₁, dropped₁))
    (h₂ : mergeObfuscationParamsReporting base64 conf₂ (some p) defaults₂ = .ok (out₂, dropped₂)) :
    ∀ c ∈ p.mustMatch, ∃ spec ∈ fieldSpecs, spec.field = c.1 ∧ spec.mergeClass = .mustMatch ∧
      ∃ line raw, line ∈ lines out₁ ∧ line ∈ lines out₂ ∧
        (∀ l ∈ lines out₁ ++ lines out₂, spec.IsLine l → l = line) ∧
        captureField spec.key line = some raw ∧ spec.ReadsAs raw c.2 := by
  intro c hc
  obtain ⟨spec, hspec, hfield, hclass, hv⟩ := exists_row_of_mem_mustMatch hc
  obtain ⟨hmem₁, hall₁, hvalid⟩ := merge_mustMatch_lines hspec hclass hv h₁
  obtain ⟨hmem₂, hall₂, _⟩ := merge_mustMatch_lines hspec hclass hv h₂
  refine ⟨spec, hspec, hfield, hclass, spec.render c.2, c.2.text.dropWhile isBlank, hmem₁, hmem₂,
    ?_, captureField_render spec c.2, ?_⟩
  · intro l hl hline
    rcases List.mem_append.mp hl with hl | hl
    · exact hall₁ l hl hline
    · exact hall₂ l hl hline
  · have hreads := readsAs_text hspec hclass hvalid
    unfold FieldSpec.ReadsAs at hreads ⊢
    rwa [parseConfValue_dropWhile]

/-- An edge with duplicate lines, a carriage return and a tab. -/
def otherEdgeConf : Str := "[Interface]\nS1 = 17\r\nH2\t=7\nS1 =\n[Peer]".toList

def otherEdgeOutput : Str := joinLines (["[Interface]", "Jc = 4", "Jmin = 50", "Jmax = 60",
  "S2 = 30", "S3 = 12", "S4 = 16", "H1 = 5", "H3 = 9", "H4 = 10",
  "HeaderProtectionKey = AAAAAAAAAAAAAAAAAAAAAAAAAAAAAAAAAAAAAAAAAAE=",
  "ContentPaddingAddition = 8-20", "S1 = 20", "H2 = 6-8", "S1 = 20", "[Peer]"].map String.toList)

theorem merge_otherEdge :
    mergeObfuscationParamsReporting .standard otherEdgeConf (some samplePayload) sampleDefaults =
      .ok (otherEdgeOutput, [.i1]) := by
  decide +kernel

theorem merge_mustMatch_agrees_otherEdge :
    ∃ spec ∈ fieldSpecs, spec.field = .h2 ∧ spec.mergeClass = .mustMatch ∧
      ∃ line raw, line ∈ lines sampleOutput ∧ line ∈ lines otherEdgeOutput ∧
        (∀ l ∈ lines sampleOutput ++ lines otherEdgeOutput, spec.IsLine l → l = line) ∧
        captureField spec.key line = some raw ∧ spec.ReadsAs raw (.range 6 8) := by
  have hagrees := merge_mustMatch_agrees .standard samplePayload sampleConf otherEdgeConf
    sampleDefaults sampleDefaults sampleOutput otherEdgeOutput [.i1] [.i1] merge_samplePayload
    merge_otherEdge
  exact hagrees (.h2, .range 6 8) (by decide)

end PartnerEdge.Awg
