import PartnerEdge.Awg.CrossField

/-!
# Merging no payload

At startup the agent merges no epoch at all, only its generated defaults. Nothing is replaced then,
and a key is inserted only where the conf has no line of it, so the cross-field checks judge the
conf as it stands. A conf with a header and both junk bounds is accepted exactly if it passes them.
-/

namespace PartnerEdge.Awg

open Text

section TopUp

variable {base64 : Base64} {conf : Str} {defaults : ClientDefaults} {r : Resolution}
  {spec : FieldSpec}

/-- No line is rewritten, and the new ones are defaults of keys without a line. -/
structure TopsUp (conf : Str) (defaults : ClientDefaults) (r : Resolution) : Prop where
  replaces : r.replaces = []
  inserts : ∀ e ∈ r.inserts, e.1.confRaw conf = none ∧ (e.1.default defaults).isSome = true

theorem TopsUp.resolve (h : TopsUp conf defaults r) (base64 : Base64) (spec : FieldSpec) :
    ∃ r', resolve base64 conf none defaults r spec = .ok r' ∧ TopsUp conf defaults r' := by
  have hepoch : spec.epochValue none = none := rfl
  have hkeep : TopsUp conf defaults (r.keepConf spec.field (spec.confValue conf)) := by
    unfold Resolution.keepConf
    split
    · exact ⟨h.replaces, h.inserts⟩
    · exact h
  unfold Awg.resolve
  by_cases hraw : (spec.confRaw conf).isSome = true
  · simp only [hepoch, if_pos hraw]
    exact ⟨_, rfl, hkeep⟩
  · cases hdefault : spec.default defaults with
    | none =>
      simp only [hepoch, if_neg hraw]
      exact ⟨r, rfl, h⟩
    | some v =>
      cases hvalid : spec.validate base64 v with
      | error e =>
        simp only [hepoch, if_neg hraw, hvalid]
        exact ⟨r, rfl, h⟩
      | ok u =>
        simp only [hepoch, if_neg hraw, hvalid]
        refine ⟨_, rfl, h.replaces, fun e he => ?_⟩
        rcases List.mem_append.mp he with he | he
        · exact h.inserts e he
        · obtain rfl := List.mem_singleton.mp he
          exact ⟨by simpa using hraw, by simp [hdefault]⟩

theorem TopsUp.foldlM_resolve (h : TopsUp conf defaults r) (base64 : Base64)
    (specs : List FieldSpec) :
    ∃ r', specs.foldlM (Awg.resolve base64 conf none defaults) r = .ok r' ∧
      TopsUp conf defaults r' := by
  induction specs generalizing r with
  | nil => exact ⟨r, rfl, h⟩
  | cons spec specs ih =>
    obtain ⟨r₁, hstep, h₁⟩ := h.resolve base64 spec
    obtain ⟨r', hrest, h'⟩ := ih h₁
    exact ⟨r', by rw [List.foldlM_cons, hstep]; exact hrest, h'⟩

/-- A row without a default, or with a line, counts as the conf has it. -/
theorem TopsUp.effective (h : TopsUp conf defaults r) (hsound : Sound base64 conf fieldSpecs r)
    (hspec : spec ∈ fieldSpecs)
    (hkept : spec.default defaults = none ∨ (spec.confRaw conf).isSome = true) :
    r.effective spec.field = readBack conf spec.field := by
  rw [readBack_eq hspec]
  refine hsound.kept spec hspec fun e he hfield => ?_
  rw [h.replaces, List.nil_append] at he
  obtain rfl := fieldSpecs_eq_of_field (hsound.written e (List.mem_append_right _ he)).1 hspec
    hfield
  obtain ⟨hraw, hdefault⟩ := h.inserts e he
  rcases hkept with hnone | hsome
  · simp [hnone] at hdefault
  · simp [hraw] at hsome

/-- The header is all that the splicing of new lines needs. -/
theorem TopsUp.splice (h : TopsUp conf defaults r)
    (hheader : ∃ l ∈ lines conf, (captureHeader l).isSome = true) :
    ∃ out, splice conf r = .ok out := by
  have hfind : (awgInterfaceRe.find conf).isSome = true := by
    have hgroup := awgInterfaceRe_matchesLines.find_group conf
    have hfirst := List.findSome?_isSome_iff.mpr hheader
    rw [← hgroup, Option.isSome_map] at hfirst
    exact hfirst
  unfold Awg.splice
  rw [h.replaces]
  by_cases hinserts : r.inserts = []
  · rw [hinserts]
    exact ⟨_, rfl⟩
  · rw [groupBySection_eq hinserts]
    obtain ⟨m, hm⟩ := Option.isSome_iff_exists.mp hfind
    have hhead : Section.interface.headerRe.find (replaceLines conf []) = some m := hm
    simp only [List.foldlM_cons, List.foldlM_nil, insertBlock, hhead]
    exact ⟨_, rfl⟩

end TopUp

/-- The fields that the preconditions read. -/
def checkedFields : List Field :=
  [.s1, .s2, .s3, .s4, .h1, .h2, .h3, .h4, .headerProtectionKey]

theorem default_of_checkedFields (defaults : ClientDefaults) :
    ∀ spec ∈ fieldSpecs, spec.field ∈ checkedFields → spec.default defaults = none := by
  simp [fieldSpecs, checkedFields]

theorem checkPreconditions_congr {base64 : Base64}
    {effective effective' : Field → Option FieldValue}
    (h : ∀ f ∈ checkedFields, effective f = effective' f) :
    checkPreconditions base64 effective = .ok () ↔
      checkPreconditions base64 effective' = .ok () := by
  have hs : ∀ f ∈ [Field.s1, .s2, .s3, .s4], sVal effective f = sVal effective' f := by
    intro f hf
    have hchecked : f ∈ checkedFields := by revert f; decide
    simp only [sVal, h f hchecked]
  have hh : ∀ f ∈ hFields, hRange effective f = hRange effective' f := by
    intro f hf
    have hchecked : f ∈ checkedFields := by revert f; decide
    rw [hRange_eq, hRange_eq, h f hchecked]
  have hpairs : ∀ p ∈ pairs hFields, p.1 ∈ hFields ∧ p.2 ∈ hFields := by decide
  rw [checkPreconditions_ok_iff, checkPreconditions_ok_iff]
  refine and_congr ?_ (and_congr (forall₂_congr fun p hp => ?_) ?_)
  · simp only [checkReservedPair, hs .s1 (by simp), hs .s2 (by simp)]
  · simp only [checkDisjoint, hh _ (hpairs p hp).1, hh _ (hpairs p hp).2]
  · simp only [checkHeaderProtection, h .headerProtectionKey (by decide), hs .s1 (by simp),
      hs .s2 (by simp), hs .s3 (by simp), hs .s4 (by simp)]

/-- Without a payload there is no epoch value to give up. -/
theorem softenJunk_none_ok_iff {conf : Str} {r r' : Resolution} :
    softenJunk conf none r = .ok r' ↔
      r' = r ∧ ∀ lo hi, junkPair r.effective = some (lo, hi) → lo ≤ hi := by
  have hdrop : ∀ f, dropEpochMember conf none r f = r := by
    intro f
    unfold dropEpochMember
    split <;> rfl
  have hfold : [Field.jmin, .jmax].foldl (dropEpochMember conf none) r = r := by
    rw [List.foldl_cons, hdrop, List.foldl_cons, hdrop, List.foldl_nil]
  constructor
  · intro h
    obtain ⟨hr, hordered⟩ := softenJunk_cases h
    rw [hfold, or_self] at hr
    exact ⟨hr, hr ▸ hordered⟩
  · rintro ⟨rfl, hordered⟩
    unfold softenJunk
    split
    · next lo hi hpair => rw [if_neg (Int64.not_lt.mpr (hordered lo hi hpair))]
    · rfl

/-- The startup merge accepts a conf with a header and both junk bounds exactly if the conf passes
the cross-field checks. -/
theorem merge_none_ok_iff {base64 : Base64} {conf : Str} (defaults : ClientDefaults)
    (hheader : ∃ l ∈ lines conf, (captureHeader l).isSome = true)
    (hjunk : ∀ spec ∈ fieldSpecs, spec.field ∈ [Field.jmin, .jmax] →
      (spec.confRaw conf).isSome = true) :
    (∃ out dropped, mergeObfuscationParamsReporting base64 conf none defaults =
      .ok (out, dropped)) ↔
      checkPreconditions base64 (readBack conf) = .ok () ∧
        ∀ lo hi, junkPair (readBack conf) = some (lo, hi) → lo ≤ hi := by
  have hempty : TopsUp conf defaults .empty := ⟨rfl, by simp [Resolution.empty]⟩
  obtain ⟨r, hpass, htops⟩ := hempty.foldlM_resolve base64 fieldSpecs
  have hsound := Sound.empty.foldlM_resolve (by simpa using fieldSpecs_field_nodup) hpass
  rw [List.nil_append] at hsound
  have hchecked : ∀ f ∈ checkedFields, r.effective f = readBack conf f := by
    intro f hf
    obtain ⟨spec, hspec, rfl⟩ := exists_spec f
    exact htops.effective hsound hspec (.inl (default_of_checkedFields defaults spec hspec hf))
  have hbounds : ∀ f ∈ [Field.jmin, .jmax], r.effective f = readBack conf f := by
    intro f hf
    obtain ⟨spec, hspec, rfl⟩ := exists_spec f
    exact htops.effective hsound hspec (.inr (hjunk spec hspec hf))
  have hpair : junkPair r.effective = junkPair (readBack conf) := by
    simp only [junkPair, hbounds .jmin (by simp), hbounds .jmax (by simp)]
  rw [← checkPreconditions_congr hchecked, ← hpair]
  constructor
  · rintro ⟨out, dropped, h⟩
    obtain ⟨r₀, r', hpass', hcheck, hsoften, -⟩ := merge_ok h
    obtain rfl : r = r₀ := Except.ok.inj (hpass.symm.trans hpass')
    exact ⟨hcheck, (softenJunk_none_ok_iff.mp hsoften).2⟩
  · rintro ⟨hcheck, hordered⟩
    have hsoften : softenJunk conf none r = .ok r := softenJunk_none_ok_iff.mpr ⟨rfl, hordered⟩
    obtain ⟨out, hsplice⟩ := htops.splice hheader
    refine ⟨out, r.dropped, ?_⟩
    unfold mergeObfuscationParamsReporting
    rw [hpass]
    simp only [bind, Except.bind, hcheck, hsoften, hsplice]
    rfl

end PartnerEdge.Awg
