import PartnerEdge.Awg.ConfMerge

/-!
# The conf as lines

The two patterns of the merge match whole lines. A line belongs to at most one key, and a line
written for a key belongs to it. So replacing and inserting are operations on the list of lines:
each replacement acts on the lines of its own key, and the block lands below the first header.
-/

namespace PartnerEdge.Awg

open Text

/-- The value text of a line `Key = value`. -/
def captureField (key l : Str) : Option Str :=
  if key <+: l then
    match (l.drop key.length).dropWhile isBlank with
    | '=' :: v => some (v.dropWhile isBlank)
    | _ => none
  else none

def captureHeader (l : Str) : Option Str :=
  if interfaceHeader <+: l then some (l.drop interfaceHeader.length) else none

/-! ## The patterns -/

theorem runAtoms_assignment {α : Type} {k : Option Char → Str → Option α}
    (hprev : ∀ prev prev' s, k prev s = k prev' s) (hsome : ∀ prev s, (k prev s).isSome = true)
    (prev : Option Char) (s : Str) :
    runAtoms [.star isBlank, .char '=', .star isBlank] k prev s =
      match s.dropWhile isBlank with
      | '=' :: v => k none (v.dropWhile isBlank)
      | _ => none := by
  have hequals : ∀ (prev : Option Char) (s : List Char),
      Atom.run (Atom.run k (.star isBlank)) (.char '=') prev s =
        match s with
        | '=' :: v => k none (v.dropWhile isBlank)
        | _ => none := by
    intro prev s
    cases s with
    | nil => rfl
    | cons c s =>
      by_cases hc : c = '='
      · subst hc
        simp [Atom.run, greedy_eq_of_some hprev hsome]
      · simp [Atom.run, hc]
  rw [runAtoms, Atom.run.eq_5, runAtoms, runAtoms, runAtoms, greedy_eq_of_none, hequals]
  · intro prev prev' s
    rw [hequals, hequals]
  · intro prev c s hc
    rw [hequals]
    split
    · next heq =>
      obtain ⟨rfl, _⟩ := by simpa using heq
      exact absurd hc (by decide)
    · rfl

theorem newline_notMem_of_all_isAlphanum {key : Str} (h : key.all Char.isAlphanum = true) :
    '\n' ∉ key := by
  intro hmem
  exact absurd (List.all_eq_true.mp h '\n' hmem) (by decide)

theorem fieldLineRe_matchesLines (spec : FieldSpec) :
    spec.lineRe.MatchesLines (captureField spec.key) where
  line := by
    intro prev l s hl hprev hs
    have hkey := newline_notMem_of_all_isAlphanum spec.key_alphanum
    rw [FieldSpec.lineRe, fieldLineRe, matchAt_restOfLine, runAtoms, Atom.run, if_pos hprev,
      runAtoms_literal]
    · simp only [prefix_append_of_atLineEnd hkey hs, captureField]
      split
      · next hpre =>
        have hdrop : (l ++ s).drop spec.key.length = l.drop spec.key.length ++ s :=
          List.drop_append_of_le_length hpre.length_le
        rw [runAtoms_assignment (fun _ _ _ => rfl) (fun _ _ => rfl), hdrop,
          dropWhile_append_of_atLineEnd rfl _ hs]
        have hrest : '\n' ∉ (l.drop spec.key.length).dropWhile isBlank := fun hmem =>
          hl (List.mem_of_mem_drop (List.dropWhile_subset _ hmem))
        cases hvalue : (l.drop spec.key.length).dropWhile isBlank with
        | nil =>
          cases s with
          | nil => rfl
          | cons c s =>
            have hc : c = '\n' := by simpa [atLineEnd] using hs
            simp [hc]
        | cons c v =>
          rw [hvalue] at hrest
          by_cases hc : c = '='
          · subst hc
            have hv : '\n' ∉ v.dropWhile isBlank := fun hmem =>
              hrest (List.mem_cons_of_mem _ (List.dropWhile_subset _ hmem))
            obtain ⟨htake, hdrop⟩ := takeWhile_append_of_atLineEnd hv hs
            simp [dropWhile_append_of_atLineEnd (show isBlank '\n' = false from rfl) v hs, htake,
              hdrop]
          · simp [hc]
      · rfl
    · intro prev prev' s
      rw [runAtoms_assignment (fun _ _ _ => rfl) (fun _ _ => rfl),
        runAtoms_assignment (fun _ _ _ => rfl) (fun _ _ => rfl)]
  inner := by
    intro prev s hprev
    rw [FieldSpec.lineRe, fieldLineRe, matchAt_restOfLine, runAtoms, Atom.run, hprev]
    rfl
  nil := by simp [captureField, spec.key_ne_nil]

theorem awgInterfaceRe_matchesLines : awgInterfaceRe.MatchesLines captureHeader :=
  restOfLine_literal_matchesLines (by decide) (by decide)

/-! ## Keys and lines -/

section Keys

variable {spec spec' : FieldSpec} {l : Str}

/-- The key of a line is its leading run of letters and digits. -/
theorem key_eq_takeWhile (h : (captureField spec.key l).isSome = true) :
    spec.key = l.takeWhile Char.isAlphanum := by
  unfold captureField at h
  split at h
  · next hpre =>
    obtain ⟨rest, rfl⟩ := hpre
    rw [List.drop_left] at h
    rw [List.takeWhile_append_of_pos (List.all_eq_true.mp spec.key_alphanum)]
    cases rest with
    | nil => simp at h
    | cons c rest =>
      have hc : c.isAlphanum = false := by
        by_cases hblank : isBlank c = true
        · simp only [isBlank, Bool.or_eq_true, beq_iff_eq] at hblank
          rcases hblank with rfl | rfl <;> rfl
        · split at h
          · next heq =>
            simp only [List.dropWhile_cons, hblank, Bool.false_eq_true, if_false,
              List.cons.injEq] at heq
            rw [heq.1]
            rfl
          · cases h
      simp [hc]
  · cases h

theorem key_unique (h : (captureField spec.key l).isSome = true)
    (h' : (captureField spec'.key l).isSome = true) : spec.key = spec'.key :=
  (key_eq_takeWhile h).trans (key_eq_takeWhile h').symm

theorem captureField_eq_none_of_ne (h : (captureField spec.key l).isSome = true)
    (hne : spec.key ≠ spec'.key) : captureField spec'.key l = none := by
  cases hcapture : captureField spec'.key l with
  | none => rfl
  | some v => exact absurd (key_unique h (by simp [hcapture])) hne

/-- A header line belongs to no key. -/
theorem captureField_of_header (h : (captureHeader l).isSome = true) :
    captureField spec.key l = none := by
  cases hcapture : captureField spec.key l with
  | none => rfl
  | some v =>
    have hkey := @key_eq_takeWhile spec l (by simp [hcapture])
    unfold captureHeader at h
    split at h
    · next hpre =>
      obtain ⟨rest, rfl⟩ := hpre
      exact absurd hkey spec.key_ne_nil
    · cases h

theorem captureField_render (spec : FieldSpec) (v : FieldValue) :
    captureField spec.key (spec.render v) = some (v.text.dropWhile isBlank) := by
  have hpre : spec.key <+: spec.key ++ (" = ".toList ++ v.text) := List.prefix_append _ _
  rw [FieldSpec.render, List.append_assoc, captureField, if_pos hpre, List.drop_left]
  rfl

end Keys

/-! ## Replacing -/

/-- What the replacements make of one line. -/
def replaceLine (replaces : List (FieldSpec × Str)) (l : Str) : Str :=
  replaces.foldl (fun l e => if (captureField e.1.key l).isSome then e.2 else l) l

section Replace

variable {replaces : List (FieldSpec × Str)}

theorem replaceLines_joinLines (hnl : ∀ e ∈ replaces, '\n' ∉ e.2) {ls : List Str}
    (hls : AreLines ls) : replaceLines (joinLines ls) replaces =
        joinLines (ls.map (replaceLine replaces)) ∧ AreLines (ls.map (replaceLine replaces)) := by
  induction replaces generalizing ls with
  | nil =>
    have hid : ls.map (replaceLine []) = ls := List.map_id ls
    rw [hid]
    exact ⟨rfl, hls⟩
  | cons e replaces ih =>
    have hstep : AreLines (ls.map fun l => if (captureField e.1.key l).isSome then e.2 else l) := by
      refine hls.map fun l hl => ?_
      split
      · exact hnl e (by simp)
      · exact hl
    have hrest := ih (fun e he => hnl e (List.mem_cons_of_mem _ he)) hstep
    rw [List.map_map] at hrest
    have hfirst : replaceLines (joinLines ls) (e :: replaces) =
      replaceLines (e.1.lineRe.replaceAll e.2 (joinLines ls)) replaces := rfl
    rw [hfirst, (fieldLineRe_matchesLines e.1).replaceAll_joinLines _ hls]
    exact hrest

/-- A line stays as it is or becomes the line written for its own key. -/
theorem replaceLine_cases (hown : ∀ e ∈ replaces, (captureField e.1.key e.2).isSome = true)
    (l : Str) :
    (replaceLine replaces l = l ∧ ∀ e ∈ replaces, captureField e.1.key l = none) ∨
      ∃ e ∈ replaces, (captureField e.1.key l).isSome = true ∧ replaceLine replaces l = e.2 := by
  induction replaces generalizing l with
  | nil => exact .inl ⟨rfl, by simp⟩
  | cons e replaces ih =>
    have hown' : ∀ e ∈ replaces, (captureField e.1.key e.2).isSome = true :=
      fun e he => hown e (List.mem_cons_of_mem _ he)
    have hcons : replaceLine (e :: replaces) l =
      replaceLine replaces (if (captureField e.1.key l).isSome then e.2 else l) := rfl
    by_cases he : (captureField e.1.key l).isSome = true
    · rw [hcons, if_pos he]
      obtain ⟨hsame, _⟩ | ⟨e', he', hcapture, heq⟩ := ih hown' e.2
      · exact .inr ⟨e, by simp, he, hsame⟩
      · -- A later entry that takes the new line has the same key.
        have hkey := key_unique hcapture (hown e (by simp))
        exact .inr ⟨e', by simp [he'], by rw [hkey]; exact he, heq⟩
    · rw [hcons, if_neg he]
      obtain ⟨hsame, hnone⟩ | ⟨e', he', hcapture, heq⟩ := ih hown' l
      · refine .inl ⟨hsame, ?_⟩
        intro e' he'
        rcases List.mem_cons.mp he' with rfl | he'
        · simpa using he
        · exact hnone e' he'
      · exact .inr ⟨e', by simp [he'], hcapture, heq⟩

theorem captureHeader_replaceLine (hown : ∀ e ∈ replaces, (captureField e.1.key e.2).isSome = true)
    (l : Str) : captureHeader (replaceLine replaces l) = captureHeader l := by
  have hnone : ∀ {spec : FieldSpec} {l : Str}, (captureField spec.key l).isSome = true →
      captureHeader l = none := by
    intro spec l hfield
    cases hheader : captureHeader l with
    | none => rfl
    | some v => simp [@captureField_of_header spec l (by simp [hheader])] at hfield
  obtain ⟨hsame, _⟩ | ⟨e, he, hcapture, heq⟩ := replaceLine_cases hown l
  · rw [hsame]
  · rw [heq, hnone hcapture, hnone (hown e he)]

/-- Replacements for other keys do not show. -/
theorem captureField_replaceLine_of_ne {spec : FieldSpec}
    (hown : ∀ e ∈ replaces, (captureField e.1.key e.2).isSome = true)
    (hne : ∀ e ∈ replaces, e.1.key ≠ spec.key) (l : Str) :
    captureField spec.key (replaceLine replaces l) = captureField spec.key l := by
  obtain ⟨hsame, _⟩ | ⟨e, he, hcapture, heq⟩ := replaceLine_cases hown l
  · rw [hsame]
  · rw [heq, captureField_eq_none_of_ne (hown e he) (hne e he),
      captureField_eq_none_of_ne hcapture (hne e he)]

end Replace

/-! ## Inserting -/

theorem groupBySection_eq {inserts : List (FieldSpec × Str)} (hne : inserts ≠ []) :
    groupBySection inserts = [(.interface, inserts.map Prod.snd)] := by
  have hfold : ∀ (inserts : List (FieldSpec × Str)) (lines : List Str),
      inserts.foldl (fun groups e => addToSection e.1.target e.2 groups)
        [(.interface, lines)] = [(.interface, lines ++ inserts.map Prod.snd)] := by
    intro inserts
    induction inserts with
    | nil => simp
    | cons e inserts ih =>
      intro lines
      have hadd : addToSection e.1.target e.2 [(.interface, lines)] =
          [(.interface, lines ++ [e.2])] := by
        cases e.1.target
        rfl
      simp [hadd, ih]
  cases inserts with
  | nil => exact absurd rfl hne
  | cons e inserts =>
    have htarget : e.1.target = .interface := by cases e.1.target; rfl
    simp only [groupBySection, List.foldl_cons, addToSection, htarget]
    simpa using hfold inserts [e.2]

/-- The block lands below the first header line. -/
theorem insertBlock_joinLines {ls block : List Str} {out : Str} (hls : AreLines ls)
    (hblock : block ≠ []) (h : insertBlock (joinLines ls) .interface block = .ok out) :
    ∃ before header after, ls = before ++ header :: after ∧
      (∀ b ∈ before, captureHeader b = none) ∧ (captureHeader header).isSome = true ∧
      out = joinLines (before ++ header :: (block ++ after)) := by
  unfold insertBlock at h
  cases hfirst : ls.findSome? captureHeader with
  | none =>
    have hfind : Section.interface.headerRe.find (joinLines ls) = none :=
      awgInterfaceRe_matchesLines.find_eq_none hls (List.findSome?_eq_none_iff.mp hfirst)
    rw [hfind] at h
    cases h
  | some g =>
    obtain ⟨before, header, after, rfl, hheader, hbefore⟩ := List.findSome?_eq_some_iff.mp hfirst
    refine ⟨before, header, after, rfl, hbefore, by simp [hheader], ?_⟩
    have hfind : Section.interface.headerRe.find (joinLines (before ++ header :: after)) =
        some ⟨g, followedBy after⟩ := awgInterfaceRe_matchesLines.find_eq_some hls hbefore hheader
    rw [hfind, joinLines_append_cons] at h
    simp only [List.length_append, Nat.add_sub_cancel, List.take_left, List.drop_left,
      Except.ok.injEq] at h
    obtain ⟨b, block, rfl⟩ := List.exists_cons_of_ne_nil hblock
    rw [← h, joinLines_append_cons before header (b :: block ++ after), ← followedBy_cons]
    simp [followedBy]

/-- The output's lines: the replaced lines of the conf, with the inserted ones as a block below the
first header. -/
theorem splice_lines {conf out : Str} {r : Resolution}
    (hnl : ∀ e ∈ r.replaces ++ r.inserts, '\n' ∉ e.2) (h : splice conf r = .ok out) :
    ∃ before after, (lines conf).map (replaceLine r.replaces) = before ++ after ∧
      lines out = before ++ r.inserts.map Prod.snd ++ after ∧
      (r.inserts ≠ [] → ∃ above header, before = above ++ [header] ∧
        (∀ l ∈ above, captureHeader l = none) ∧ (captureHeader header).isSome = true) := by
  have hnlReplaces : ∀ e ∈ r.replaces, '\n' ∉ e.2 := fun e he => hnl e (List.mem_append_left _ he)
  obtain ⟨hreplaced, hls⟩ := replaceLines_joinLines hnlReplaces (areLines_lines conf)
  rw [joinLines_lines] at hreplaced
  unfold splice at h
  rw [hreplaced] at h
  by_cases hinserts : r.inserts = []
  · rw [hinserts] at h ⊢
    obtain rfl : joinLines _ = out := by simpa [groupBySection, pure, Except.pure] using h
    refine ⟨_, [], (List.append_nil _).symm, ?_, fun hne => absurd rfl hne⟩
    simp [lines_joinLines hls]
  · have hgroups := groupBySection_eq hinserts
    rw [hgroups] at h
    have hinsert : insertBlock (joinLines ((lines conf).map (replaceLine r.replaces))) .interface
        (r.inserts.map Prod.snd) = .ok out := by
      simpa using h
    obtain ⟨above, header, after, hsplit, habove, hheader, rfl⟩ :=
      insertBlock_joinLines hls (by simpa using hinserts) hinsert
    rw [hsplit] at hls
    have hout : AreLines (above ++ [header] ++ r.inserts.map Prod.snd ++ after) := by
      refine AreLines.insert (by simpa using hls) fun l hl => ?_
      obtain ⟨e, he, rfl⟩ := List.mem_map.mp hl
      exact hnl e (List.mem_append_right _ he)
    refine ⟨above ++ [header], after, by simpa using hsplit, ?_,
      fun _ => ⟨above, header, rfl, habove, hheader⟩⟩
    rw [← lines_joinLines hout]
    simp

end PartnerEdge.Awg
