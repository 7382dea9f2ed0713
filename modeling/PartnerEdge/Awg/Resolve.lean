import PartnerEdge.Awg.ConfLines
import PartnerEdge.Parsing.Fallible

/-!
# Resolving keeps text and values together

The merge keeps two records: the lines to write and the effective values that the cross-field checks
read. The invariant ties them to each other and to the conf. It is kept by each round of the first
pass and by the fallback of the junk bounds.
-/

namespace PartnerEdge.Awg

open Text

/-- After the rows `done`: each line to write renders the validated effective value of its key,
lines replace exactly where the conf has one, and an unwritten key has the value of its conf
line. -/
structure Sound (base64 : Base64) (conf : Str) (done : List FieldSpec) (r : Resolution) : Prop where
  written : ∀ e ∈ r.replaces ++ r.inserts, e.1 ∈ done ∧ ∃ v,
    e.1.validate base64 v = .ok () ∧ e.2 = e.1.render v ∧ r.effective e.1.field = some v
  replaced : ∀ e ∈ r.replaces, (e.1.confRaw conf).isSome = true
  inserted : ∀ e ∈ r.inserts, e.1.confRaw conf = none
  kept : ∀ spec ∈ done, (∀ e ∈ r.replaces ++ r.inserts, e.1.field ≠ spec.field) →
    r.effective spec.field = spec.confValue conf
  unset : ∀ f, (∀ spec ∈ done, spec.field ≠ f) → r.effective f = none

section Resolve

variable {base64 : Base64} {conf : Str} {params : Option AwgParams} {defaults : ClientDefaults}
  {done : List FieldSpec} {r r' : Resolution} {spec : FieldSpec}

/-- A row writes a validated value, over its line or as a new one, or leaves the text alone. -/
theorem resolve_cases (h : resolve base64 conf params defaults r spec = .ok r') :
    (∃ v, spec.validate base64 v = .ok () ∧ (spec.confRaw conf).isSome = true ∧
      r' = { r with replaces := r.replaces ++ [(spec, spec.render v)] }.setEffective spec.field v) ∨
    (∃ v, spec.validate base64 v = .ok () ∧ spec.confRaw conf = none ∧
      r' = { r with inserts := r.inserts ++ [(spec, spec.render v)] }.setEffective spec.field v) ∨
    ∃ dropped, r' = { r with dropped := dropped }.keepConf spec.field (spec.confValue conf) := by
  have habsent : spec.confRaw conf = none → spec.confValue conf = none := by
    intro hraw
    simp [FieldSpec.confValue, hraw]
  unfold resolve at h
  cases hepoch : spec.epochValue params with
  | some v =>
    cases hvalid : spec.validate base64 v with
    | ok u =>
      simp only [hepoch, hvalid, Except.ok.injEq] at h
      by_cases hraw : (spec.confRaw conf).isSome = true
      · rw [if_pos hraw] at h
        exact .inl ⟨v, hvalid, hraw, h.symm⟩
      · rw [if_neg hraw] at h
        exact .inr (.inl ⟨v, hvalid, by simpa using hraw, h.symm⟩)
    | error e =>
      simp only [hepoch, hvalid] at h
      cases hclass : spec.mergeClass with
      | mustMatch => simp [hclass] at h
      | clientSide =>
        simp only [hclass, Except.ok.injEq] at h
        exact .inr (.inr ⟨_, h.symm⟩)
  | none =>
    simp only [hepoch] at h
    by_cases hraw : (spec.confRaw conf).isSome = true
    · rw [if_pos hraw, Except.ok.injEq] at h
      exact .inr (.inr ⟨_, h.symm⟩)
    · rw [if_neg hraw] at h
      have hraw : spec.confRaw conf = none := by simpa using hraw
      have hsame :
          r = { r with dropped := r.dropped }.keepConf spec.field (spec.confValue conf) := by
        rw [habsent hraw]
        rfl
      cases hdefault : spec.default defaults with
      | none =>
        simp only [hdefault, Except.ok.injEq] at h
        exact .inr (.inr ⟨r.dropped, h.symm.trans hsame⟩)
      | some v =>
        cases hvalid : spec.validate base64 v with
        | ok u =>
          simp only [hdefault, hvalid, Except.ok.injEq] at h
          exact .inr (.inl ⟨v, hvalid, hraw, h.symm⟩)
        | error e =>
          simp only [hdefault, hvalid, Except.ok.injEq] at h
          exact .inr (.inr ⟨r.dropped, h.symm.trans hsame⟩)

theorem Sound.empty : Sound base64 conf [] Resolution.empty := by
  refine ⟨?_, ?_, ?_, ?_, ?_⟩ <;> simp [Resolution.empty]

/-- Writing the value of a new row. -/
theorem Sound.write (h : Sound base64 conf done r) (hnew : ∀ s ∈ done, s.field ≠ spec.field)
    {v : FieldValue} (hvalid : spec.validate base64 v = .ok ())
    (hentries : ∀ e, e ∈ r'.replaces ++ r'.inserts ↔
      e ∈ r.replaces ++ r.inserts ∨ e = (spec, spec.render v))
    (heffective : r'.effective = Function.update r.effective spec.field (some v))
    (hreplaced : ∀ e ∈ r'.replaces, (e.1.confRaw conf).isSome = true)
    (hinserted : ∀ e ∈ r'.inserts, e.1.confRaw conf = none) :
    Sound base64 conf (done ++ [spec]) r' where
  written := by
    intro e he
    rcases (hentries e).mp he with he | rfl
    · obtain ⟨hdone, w, hw, hline, heff⟩ := h.written e he
      refine ⟨by simp [hdone], w, hw, hline, ?_⟩
      rw [heffective, Function.update_of_ne (hnew _ hdone), heff]
    · exact ⟨by simp, v, hvalid, rfl, by simp [heffective]⟩
  replaced := hreplaced
  inserted := hinserted
  kept := by
    intro s hs hother
    rcases List.mem_append.mp hs with hs | hs
    · rw [heffective, Function.update_of_ne (hnew s hs)]
      exact h.kept s hs fun e he => hother e ((hentries e).mpr (.inl he))
    · obtain rfl := List.mem_singleton.mp hs
      exact absurd rfl (hother _ ((hentries _).mpr (.inr rfl)))
  unset := by
    intro f hf
    rw [heffective, Function.update_of_ne (hf spec (by simp)).symm]
    exact h.unset f fun s hs => hf s (by simp [hs])

/-- Leaving the text of a new row alone. -/
theorem Sound.keep (h : Sound base64 conf done r) (hnew : ∀ s ∈ done, s.field ≠ spec.field)
    (dropped : List Field) :
    Sound base64 conf (done ++ [spec])
      ({ r with dropped := dropped }.keepConf spec.field (spec.confValue conf)) := by
  have hself : ({ r with dropped := dropped }.keepConf spec.field (spec.confValue conf)).effective
      spec.field = spec.confValue conf := by
    cases hvalue : spec.confValue conf with
    | none => exact h.unset _ hnew
    | some v => simp [Resolution.keepConf, Resolution.setEffective]
  have hother : ∀ f, f ≠ spec.field →
      ({ r with dropped := dropped }.keepConf spec.field (spec.confValue conf)).effective f =
        r.effective f := by
    intro f hf
    cases hvalue : spec.confValue conf with
    | none => rfl
    | some v => simp [Resolution.keepConf, Resolution.setEffective, Function.update_of_ne hf]
  have hreplaces : ({ r with dropped := dropped }.keepConf spec.field
      (spec.confValue conf)).replaces = r.replaces := by
    cases hvalue : spec.confValue conf <;> rfl
  have hinserts : ({ r with dropped := dropped }.keepConf spec.field
      (spec.confValue conf)).inserts = r.inserts := by
    cases hvalue : spec.confValue conf <;> rfl
  generalize ({ r with dropped := dropped }.keepConf spec.field (spec.confValue conf)) = r' at *
  refine ⟨?_, ?_, ?_, ?_, ?_⟩
  · intro e he
    rw [hreplaces, hinserts] at he
    obtain ⟨hdone, w, hw, hline, heff⟩ := h.written e he
    exact ⟨by simp [hdone], w, hw, hline, by rw [hother _ (hnew _ hdone), heff]⟩
  · rw [hreplaces]
    exact h.replaced
  · rw [hinserts]
    exact h.inserted
  · intro s hs hentries
    rw [hreplaces, hinserts] at hentries
    rcases List.mem_append.mp hs with hs | hs
    · rw [hother _ (hnew s hs)]
      exact h.kept s hs hentries
    · obtain rfl := List.mem_singleton.mp hs
      exact hself
  · intro f hf
    rw [hother f (hf spec (by simp)).symm]
    exact h.unset f fun s hs => hf s (by simp [hs])

theorem Sound.resolve (h : Sound base64 conf done r) (hnew : ∀ s ∈ done, s.field ≠ spec.field)
    (hstep : resolve base64 conf params defaults r spec = .ok r') :
    Sound base64 conf (done ++ [spec]) r' := by
  obtain ⟨v, hvalid, hraw, rfl⟩ | ⟨v, hvalid, hraw, rfl⟩ | ⟨dropped, rfl⟩ := resolve_cases hstep
  · refine h.write hnew hvalid ?_ rfl ?_ h.inserted
    · intro e
      simp only [Resolution.setEffective, List.mem_append, List.mem_singleton]
      tauto
    · intro e he
      rcases List.mem_append.mp he with he | he
      · exact h.replaced e he
      · obtain rfl := List.mem_singleton.mp he
        exact hraw
  · refine h.write hnew hvalid ?_ rfl h.replaced ?_
    · intro e
      simp only [Resolution.setEffective, List.mem_append, List.mem_singleton]
      tauto
    · intro e he
      rcases List.mem_append.mp he with he | he
      · exact h.inserted e he
      · obtain rfl := List.mem_singleton.mp he
        exact hraw
  · exact h.keep hnew dropped

/-- The next row of the table is for a field of its own. -/
theorem field_ne_of_nodup {spec : FieldSpec} {specs : List FieldSpec}
    (hnodup : ((done ++ spec :: specs).map FieldSpec.field).Nodup) :
    ∀ s ∈ done, s.field ≠ spec.field := by
  intro s hs heq
  simp only [List.map_append, List.map_cons, List.nodup_append] at hnodup
  exact hnodup.2.2 s.field (List.mem_map_of_mem hs) spec.field (by simp) heq

/-- The whole first pass, over rows with different fields. -/
theorem Sound.foldlM_resolve {specs : List FieldSpec} (h : Sound base64 conf done r)
    (hnodup : ((done ++ specs).map FieldSpec.field).Nodup)
    (hpass : specs.foldlM (Awg.resolve base64 conf params defaults) r = .ok r') :
    Sound base64 conf (done ++ specs) r' := by
  induction specs generalizing done r with
  | nil =>
    obtain rfl : r = r' := by simpa [pure, Except.pure] using hpass
    simpa using h
  | cons spec specs ih =>
    rw [List.foldlM_cons] at hpass
    obtain ⟨r₁, hstep, hpass⟩ := exists_of_bind_ok hpass
    have hrest := ih (h.resolve (field_ne_of_nodup hnodup) hstep) (by simpa using hnodup) hpass
    simpa using hrest

end Resolve

/-! ## The table -/

theorem fieldSpecs_field_nodup : (fieldSpecs.map FieldSpec.field).Nodup := by decide

theorem fieldSpecs_key_nodup : (fieldSpecs.map FieldSpec.key).Nodup := by decide

theorem fieldSpecs_eq_of_field {spec spec' : FieldSpec} (h : spec ∈ fieldSpecs)
    (h' : spec' ∈ fieldSpecs) (heq : spec.field = spec'.field) : spec = spec' :=
  List.inj_on_of_nodup_map fieldSpecs_field_nodup h h' heq

theorem find?_field {spec : FieldSpec} (h : spec ∈ fieldSpecs) :
    fieldSpecs.find? (·.field = spec.field) = some spec := by
  cases hfind : fieldSpecs.find? (·.field = spec.field) with
  | none => simpa using List.find?_eq_none.mp hfind spec h
  | some spec' =>
    have hfield : spec'.field = spec.field := by simpa using List.find?_some hfind
    rw [fieldSpecs_eq_of_field (List.mem_of_find?_eq_some hfind) h hfield]

theorem fieldSpecs_eq_of_key {spec spec' : FieldSpec} (h : spec ∈ fieldSpecs)
    (h' : spec' ∈ fieldSpecs) (heq : spec.key = spec'.key) : spec = spec' :=
  List.inj_on_of_nodup_map fieldSpecs_key_nodup h h' heq

/-! ## Junk bounds -/

section Junk

variable {base64 : Base64} {conf : Str} {params : Option AwgParams} {r r' : Resolution}

theorem dropEpochMember_effective_of_ne {f g : Field} (hne : g ≠ f) :
    (dropEpochMember conf params r f).effective g = r.effective g := by
  unfold dropEpochMember
  split
  · split
    · exact Function.update_of_ne hne _ _
    · rfl
  · rfl

theorem Sound.dropEpochMember (h : Sound base64 conf fieldSpecs r) (f : Field) :
    Sound base64 conf fieldSpecs (dropEpochMember conf params r f) := by
  unfold Awg.dropEpochMember
  split
  · next spec hfind =>
    have hspec := List.mem_of_find?_eq_some hfind
    have hfield : spec.field = f := by simpa using List.find?_some hfind
    split
    · have hmem : ∀ e, e ∈ r.replaces.filter (·.1.field ≠ f) ++ r.inserts.filter (·.1.field ≠ f) ↔
          e ∈ r.replaces ++ r.inserts ∧ e.1.field ≠ f := by
        intro e
        rw [← List.filter_append, List.mem_filter, decide_eq_true_eq]
      refine ⟨?_, ?_, ?_, ?_, ?_⟩
      · intro e he
        obtain ⟨he, hne⟩ := (hmem e).mp he
        obtain ⟨hdone, v, hvalid, hline, heff⟩ := h.written e he
        exact ⟨hdone, v, hvalid, hline, (Function.update_of_ne hne _ _).trans heff⟩
      · exact fun e he => h.replaced e (List.mem_filter.mp he).1
      · exact fun e he => h.inserted e (List.mem_filter.mp he).1
      · intro s hs hentries
        by_cases heq : s.field = f
        · obtain rfl := fieldSpecs_eq_of_field hs hspec (heq.trans hfield.symm)
          rw [heq]
          exact Function.update_self ..
        · refine (Function.update_of_ne heq _ _).trans (h.kept s hs fun e he hsame => ?_)
          exact hentries e ((hmem e).mpr ⟨he, hsame ▸ heq⟩) hsame
      · intro g hg
        have hne : g ≠ f := hfield ▸ (hg spec hspec).symm
        exact (Function.update_of_ne hne _ _).trans (h.unset g hg)
    · exact h
  · exact h

theorem softenJunk_cases (h : softenJunk conf params r = .ok r') :
    (r' = r ∨ r' = [Field.jmin, .jmax].foldl (dropEpochMember conf params) r) ∧
      ∀ lo hi, junkPair r'.effective = some (lo, hi) → lo ≤ hi := by
  unfold softenJunk at h
  generalize [Field.jmin, .jmax].foldl (dropEpochMember conf params) r = r₁ at h ⊢
  cases hpair : junkPair r.effective with
  | none =>
    simp only [hpair, Except.ok.injEq] at h
    subst h
    exact ⟨.inl rfl, by simp [hpair]⟩
  | some bounds =>
    by_cases hinverted : bounds.1 > bounds.2
    · cases hpair' : junkPair r₁.effective with
      | none =>
        simp only [hpair, hpair', if_pos hinverted, Except.ok.injEq] at h
        subst h
        exact ⟨.inr rfl, by simp [hpair']⟩
      | some bounds' =>
        simp only [hpair, hpair', if_pos hinverted] at h
        split at h
        · cases h
        · next hordered =>
          obtain rfl := Except.ok.inj h
          refine ⟨.inr rfl, fun lo hi heq => ?_⟩
          obtain rfl : bounds' = (lo, hi) := by simpa [hpair'] using heq
          exact Int64.not_lt.mp hordered
    · simp only [hpair, if_neg hinverted, Except.ok.injEq] at h
      subst h
      refine ⟨.inl rfl, fun lo hi heq => ?_⟩
      obtain rfl : bounds = (lo, hi) := by simpa [hpair] using heq
      exact Int64.not_lt.mp hinverted

theorem Sound.softenJunk (h : Sound base64 conf fieldSpecs r)
    (hsoften : softenJunk conf params r = .ok r') : Sound base64 conf fieldSpecs r' := by
  obtain ⟨rfl | rfl, _⟩ := softenJunk_cases hsoften
  · exact h
  · exact (h.dropEpochMember .jmin).dropEpochMember .jmax

/-- Only the junk bounds can change. -/
theorem softenJunk_effective (hsoften : softenJunk conf params r = .ok r') {g : Field}
    (hmin : g ≠ .jmin) (hmax : g ≠ .jmax) : r'.effective g = r.effective g := by
  obtain ⟨rfl | rfl, _⟩ := softenJunk_cases hsoften
  · rfl
  · exact (dropEpochMember_effective_of_ne hmax).trans (dropEpochMember_effective_of_ne hmin)

end Junk

section Merge

variable {base64 : Base64} {conf out : Str} {params : Option AwgParams} {defaults : ClientDefaults}
  {dropped : List Field}

theorem sound_of_passes {r₀ r : Resolution}
    (hpass : fieldSpecs.foldlM (resolve base64 conf params defaults) Resolution.empty = .ok r₀)
    (hsoften : softenJunk conf params r₀ = .ok r) : Sound base64 conf fieldSpecs r := by
  have hsound := Sound.empty.foldlM_resolve (by simpa using fieldSpecs_field_nodup) hpass
  rw [List.nil_append] at hsound
  exact hsound.softenJunk hsoften

/-- The stages of a merge that succeeds. -/
theorem merge_ok
    (h : mergeObfuscationParamsReporting base64 conf params defaults = .ok (out, dropped)) :
    ∃ r₀ r, fieldSpecs.foldlM (resolve base64 conf params defaults) Resolution.empty = .ok r₀ ∧
      checkPreconditions base64 r₀.effective = .ok () ∧ softenJunk conf params r₀ = .ok r ∧
      Sound base64 conf fieldSpecs r ∧ splice conf r = .ok out ∧ dropped = r.dropped := by
  unfold mergeObfuscationParamsReporting at h
  obtain ⟨r₀, hpass, h⟩ := exists_of_bind_ok h
  obtain ⟨_, hcheck, h⟩ := exists_of_bind_ok h
  obtain ⟨r, hsoften, h⟩ := exists_of_bind_ok h
  obtain ⟨out', hsplice, h⟩ := exists_of_bind_ok h
  obtain ⟨rfl, rfl⟩ := by simpa [pure, Except.pure] using h
  exact ⟨r₀, r, hpass, hcheck, hsoften, sound_of_passes hpass hsoften, hsplice, rfl⟩

end Merge

end PartnerEdge.Awg
