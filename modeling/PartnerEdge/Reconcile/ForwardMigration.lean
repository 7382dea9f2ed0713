import PartnerEdge.Reconcile.MigrateState

/-!
# Which migrations are forward

A migration keeps every assignment, adds its own on lines of their own and can be repeated, if the
file ends with a newline or nothing has to be appended. Behind a last line without a newline the
first new assignment is lost. A version above one is set back.
-/

namespace PartnerEdge.Reconcile

open Text

/-! ## Setting the version -/

section SetVersion

variable {key t : Str}

theorem equals_notMem_schemaVersionKey : '=' ∉ schemaVersionKey := by decide

theorem lines_setVersion (t : Str) : lines (setVersion t) = (lines t).map versionLine := by
  refine lines_joinLines ((areLines_lines t).map fun l hl => ?_)
  unfold versionLine
  split
  · decide
  · exact hl

theorem valueOf?_versionLine_ne (hne : key ≠ schemaVersionKey) (hkey : '=' ∉ key) (l : Str) :
    valueOf? key (versionLine l) = valueOf? key l := by
  unfold versionLine
  split
  next hsome =>
    obtain ⟨v, hv⟩ := Option.isSome_iff_exists.1 hsome
    rw [valueOf?_eq_some_iff.1 hv, valueOf?_assignment_ne hkey equals_notMem_schemaVersionKey hne,
      valueOf?_assignment_ne hkey equals_notMem_schemaVersionKey hne]
  next => rfl

theorem valueOf?_versionLine_self (l : Str) :
    valueOf? schemaVersionKey (versionLine l) =
      (valueOf? schemaVersionKey l).map fun _ => ['1'] := by
  unfold versionLine
  cases h : valueOf? schemaVersionKey l with
  | none => simpa using h
  | some v => simp

theorem valuesOf_setVersion_ne (hne : key ≠ schemaVersionKey) (hkey : '=' ∉ key) (t : Str) :
    valuesOf key (setVersion t) = valuesOf key t := by
  rw [valuesOf, lines_setVersion, List.filterMap_map]
  exact List.filterMap_congr fun l _ => valueOf?_versionLine_ne hne hkey l

theorem valuesOf_setVersion_self (t : Str) :
    valuesOf schemaVersionKey (setVersion t) =
      (valuesOf schemaVersionKey t).map fun _ => ['1'] := by
  rw [valuesOf, lines_setVersion, List.filterMap_map, valuesOf, List.map_filterMap]
  exact List.filterMap_congr fun l _ => valueOf?_versionLine_self l

theorem assigns_setVersion_iff (hkey : '=' ∉ key) (t : Str) :
    assigns key (setVersion t) = true ↔ assigns key t = true := by
  by_cases hne : key = schemaVersionKey
  · rw [assigns_iff, assigns_iff, hne, valuesOf_setVersion_self, ne_eq, List.map_eq_nil_iff]
  · rw [assigns_iff, assigns_iff, valuesOf_setVersion_ne hne hkey]

theorem setVersion_eq_self (h : ∀ v ∈ valuesOf schemaVersionKey t, v = ['1']) :
    setVersion t = t := by
  have hsame : (lines t).map versionLine = lines t := by
    refine (List.map_congr_left fun l hl => ?_).trans (List.map_id _)
    rw [id]
    unfold versionLine
    split
    next hsome =>
      obtain ⟨v, hv⟩ := Option.isSome_iff_exists.1 hsome
      rw [← h v (List.mem_filterMap.2 ⟨l, hl, hv⟩), ← valueOf?_eq_some_iff.1 hv]
    next => rfl
  rw [setVersion, hsame, joinLines_lines]

/-- Once set, the version is one if there is a line for it. -/
theorem schemaVersion_setVersion (t : Str) :
    schemaVersion (setVersion t) = if assigns schemaVersionKey t then 1 else 0 := by
  rw [schemaVersion, valuesOf_setVersion_self, List.getLast?_map]
  by_cases hassigns : assigns schemaVersionKey t = true
  · rw [if_pos hassigns, List.getLast?_eq_some_getLast (assigns_iff.1 hassigns)]
    rfl
  · have hnil : valuesOf schemaVersionKey t = [] := not_not.1 (mt assigns_iff.2 hassigns)
    rw [if_neg hassigns, hnil]
    rfl

end SetVersion

/-! ## Appending -/

section Append

variable {key value t : Str} {ls : List Str} {l : Str}

theorem appendAssignment_eq :
    appendAssignment (terminate ls ++ l) key value =
      terminate (ls ++ [l ++ assignment key value]) := by
  simp [appendAssignment, terminate]

/-- An assignment that is appended is found only behind a newline. -/
theorem valuesOf_appendAssignment (heq : '=' ∉ key) (hkey : '\n' ∉ key) (hvalue : '\n' ∉ value)
    (habsent : valuesOf key t = []) :
    valuesOf key (appendAssignment t key value) = if Terminated t then [value] else [] := by
  obtain ⟨ls, l, rfl, hls, hl⟩ := exists_terminate_append t
  rw [valuesOf_terminate_append hls hl, List.append_eq_nil_iff, Option.toList_eq_nil_iff] at habsent
  have hlast : '\n' ∉ l ++ assignment key value := by
    rw [List.mem_append, not_or]
    exact ⟨hl, newline_notMem_assignment hkey hvalue⟩
  rw [appendAssignment_eq,
    valuesOf_terminate (List.forall_mem_append.2 ⟨hls, by simpa using hlast⟩),
    List.filterMap_append, habsent.1]
  split
  next hterminated =>
    obtain rfl := (terminated_append_iff hl).1 hterminated
    simp
  next hterminated =>
    have hne : l ≠ [] := mt (terminated_append_iff hl).2 hterminated
    simp [valueOf?_append_assignment heq hne habsent.2]

end Append

/-! ## The phases -/

/-- The phases with the last one, which sets the version where there is none. -/
def Answers.allPhases (a : Answers) : List (Str × Option Str) :=
  a.phases ++ [(schemaVersionKey, some ['1'])]

theorem keys_allPhases (a : Answers) : a.allPhases.map Prod.fst =
    [caddyfileShaKey, turnsSubdomainKey, backendApiKey, naiveSocksPortKey, schemaVersionKey] := rfl

/-- The key stands before the first equals sign of its line, and there is one line. -/
structure Printable (phase : Str × Option Str) : Prop where
  equals_notMem : '=' ∉ phase.1
  key_oneLine : '\n' ∉ phase.1
  value_oneLine : ∀ value ∈ phase.2, '\n' ∉ value

theorem oneLine_allPhases (a : Answers) :
    ∀ phase ∈ a.allPhases, ∀ value ∈ phase.2, '\n' ∉ value := by
  have hbackend : '\n' ∉ backendApi := by decide
  have hport : '\n' ∉ if a.naiveSocksPort = [] then defaultSocksPort else a.naiveSocksPort := by
    split
    · decide
    · exact a.port_oneLine
  simp only [Answers.allPhases, Answers.phases, List.cons_append, List.nil_append,
    List.forall_mem_cons]
  refine ⟨a.sha_oneLine, ?_, by simpa using hbackend, by simpa using hport, by simp, by simp⟩
  split <;> simp [a.subdomain_oneLine]

theorem printable_allPhases (a : Answers) : ∀ phase ∈ a.allPhases, Printable phase := by
  intro phase hphase
  have hkeys : ∀ key ∈ a.allPhases.map Prod.fst, '=' ∉ key ∧ '\n' ∉ key := by
    rw [keys_allPhases]
    decide
  obtain ⟨hequals, hkey⟩ := hkeys phase.1 (List.mem_map_of_mem hphase)
  exact ⟨hequals, hkey, oneLine_allPhases a phase hphase⟩

theorem nodup_allPhases (a : Answers) : (a.allPhases.map Prod.fst).Nodup := by
  rw [keys_allPhases]
  decide

theorem derive_of_assigns {state : Str × List (Str × Str)} {phase : Str × Option Str}
    (h : phase.2.isSome → assigns phase.1 state.1) : derive state phase = state := by
  unfold derive
  split
  · rfl
  · next hnot =>
    cases hvalue : phase.2 with
    | none => rfl
    | some value => exact absurd (h (by rw [hvalue]; rfl)) hnot

theorem derive_of_missing {state : Str × List (Str × Str)} {key value : Str}
    (h : ¬ assigns key state.1 = true) :
    derive state (key, some value) =
      (appendAssignment state.1 key value, state.2 ++ [(key, value)]) := if_neg h

/-- Phases that find their key, or have no value for it, leave everything as it is. -/
theorem foldl_derive_eq_self {phases : List (Str × Option Str)} {state : Str × List (Str × Str)}
    (h : ∀ phase ∈ phases, phase.2.isSome → assigns phase.1 state.1) :
    phases.foldl derive state = state := by
  induction phases with
  | nil => rfl
  | cons phase phases ih =>
    obtain ⟨hphase, hphases⟩ := List.forall_mem_cons.1 h
    rw [List.foldl_cons, derive_of_assigns hphase, ih hphases]

def entryLine (entry : Str × Str) : Str := assignment entry.1 entry.2

/-- By induction on the phases: on a file of terminated lines each of them adds a line or nothing,
and afterwards no key is missing. -/
theorem exists_foldl_derive {phases : List (Str × Option Str)}
    (hprintable : ∀ phase ∈ phases, Printable phase) {ls : List Str} (hls : ∀ l ∈ ls, '\n' ∉ l)
    (appended : List (Str × Str)) :
    ∃ new : List (Str × Str),
      phases.foldl derive (terminate ls, appended) =
        (terminate (ls ++ new.map entryLine), appended ++ new) ∧
      (∀ l ∈ ls ++ new.map entryLine, '\n' ∉ l) ∧
      (∀ entry ∈ new, (entry.1, some entry.2) ∈ phases ∧ valuesOf entry.1 (terminate ls) = []) ∧
      ∀ phase ∈ phases, phase.2.isSome → assigns phase.1 (terminate (ls ++ new.map entryLine)) := by
  induction phases generalizing ls appended with
  | nil => exact ⟨[], by simp, by simpa using hls, by simp, by simp⟩
  | cons phase phases ih =>
    obtain ⟨hphase, hphases⟩ := List.forall_mem_cons.1 hprintable
    rw [List.foldl_cons]
    by_cases hkept : phase.2.isSome → assigns phase.1 (terminate ls)
    · rw [derive_of_assigns hkept]
      obtain ⟨new, hfold, hlines, hnew, hall⟩ := ih hphases hls appended
      refine ⟨new, hfold, hlines, fun entry hentry => ?_, List.forall_mem_cons.2 ⟨?_, hall⟩⟩
      · exact ⟨List.mem_cons_of_mem _ (hnew entry hentry).1, (hnew entry hentry).2⟩
      · intro hsome
        have hassigns := assigns_iff.1 (hkept hsome)
        rw [valuesOf_terminate hls] at hassigns
        rw [assigns_iff, valuesOf_terminate hlines, List.filterMap_append]
        exact fun hnil => hassigns (List.append_eq_nil_iff.1 hnil).1
    · obtain ⟨key, value⟩ := phase
      obtain ⟨hsome, hmissing⟩ := Classical.not_imp.1 hkept
      obtain ⟨value, rfl⟩ := Option.isSome_iff_exists.1 hsome
      have habsent : valuesOf key (terminate ls) = [] := not_not.1 (mt assigns_iff.2 hmissing)
      have hline : '\n' ∉ entryLine (key, value) :=
        newline_notMem_assignment hphase.key_oneLine (hphase.value_oneLine value rfl)
      have hls' : ∀ l ∈ ls ++ [entryLine (key, value)], '\n' ∉ l :=
        List.forall_mem_append.2 ⟨hls, by simpa using hline⟩
      have happend : appendAssignment (terminate ls) key value =
          terminate (ls ++ [entryLine (key, value)]) := by
        simp [appendAssignment, terminate, entryLine]
      rw [derive_of_missing hmissing, happend]
      obtain ⟨new, hfold, hlines, hnew, hall⟩ := ih hphases hls' (appended ++ [(key, value)])
      have hlines' : ∀ l ∈ ls ++ ((key, value) :: new).map entryLine, '\n' ∉ l := by
        simpa using hlines
      refine ⟨(key, value) :: new, by simpa using hfold, hlines', ?_, ?_⟩
      · refine List.forall_mem_cons.2 ⟨⟨List.mem_cons_self, habsent⟩, fun entry hentry => ?_⟩
        obtain ⟨hmem, hvalues⟩ := hnew entry hentry
        rw [valuesOf_terminate hls', List.filterMap_append] at hvalues
        rw [valuesOf_terminate hls]
        exact ⟨List.mem_cons_of_mem _ hmem, (List.append_eq_nil_iff.1 hvalues).1⟩
      · refine List.forall_mem_cons.2 ⟨fun _ => ?_, fun phase hphase' hsome' => ?_⟩
        · have hmem : value ∈ valuesOf key
              (terminate (ls ++ ((key, value) :: new).map entryLine)) := by
            rw [mem_valuesOf_iff, lines_terminate hlines']
            simp [entryLine]
          exact assigns_iff.2 (List.ne_nil_of_mem hmem)
        · simpa using hall phase hphase' hsome'

/-- Behind a last line without a newline, the first assignment that is appended is lost. -/
theorem exists_lost_of_foldl_derive {phases : List (Str × Option Str)}
    (hprintable : ∀ phase ∈ phases, Printable phase) (hnodup : (phases.map Prod.fst).Nodup)
    {t : Str} (ht : ¬ Terminated t) (appended : List (Str × Str))
    (hmissing : ∃ phase ∈ phases, phase.2.isSome ∧ ¬ assigns phase.1 t = true) :
    ∃ entry ∈ (phases.foldl derive (t, appended)).2, (entry.1, some entry.2) ∈ phases ∧
      ¬ assigns entry.1 (phases.foldl derive (t, appended)).1 = true := by
  induction phases with
  | nil => simp at hmissing
  | cons phase phases ih =>
    obtain ⟨hphase, hphases⟩ := List.forall_mem_cons.1 hprintable
    obtain ⟨hfresh, hnodup⟩ := List.nodup_cons.1 hnodup
    rw [List.foldl_cons]
    by_cases hkept : phase.2.isSome → assigns phase.1 t
    · rw [derive_of_assigns hkept]
      obtain ⟨missing, hmem, hsome, habsent⟩ := hmissing
      obtain rfl | hmem := List.mem_cons.1 hmem
      · exact absurd (hkept hsome) habsent
      · obtain ⟨entry, hentry, hmem', hlost⟩ := ih hphases hnodup ⟨missing, hmem, hsome, habsent⟩
        exact ⟨entry, hentry, List.mem_cons_of_mem _ hmem', hlost⟩
    · obtain ⟨key, value⟩ := phase
      obtain ⟨hsome, hmissing⟩ := Classical.not_imp.1 hkept
      obtain ⟨value, rfl⟩ := Option.isSome_iff_exists.1 hsome
      have habsent : valuesOf key t = [] := not_not.1 (mt assigns_iff.2 hmissing)
      have hvalue : '\n' ∉ value := hphase.value_oneLine value rfl
      -- The file ends with a newline now, but its last line starts with what stood there before.
      have hlost := valuesOf_appendAssignment hphase.equals_notMem hphase.key_oneLine hvalue habsent
      rw [if_neg ht] at hlost
      obtain ⟨ls, l, rfl, hls, hl⟩ := exists_terminate_append t
      have hls' : ∀ x ∈ ls ++ [l ++ assignment key value], '\n' ∉ x :=
        List.forall_mem_append.2 ⟨hls, by
          simpa [hl] using newline_notMem_assignment hphase.key_oneLine hvalue⟩
      rw [derive_of_missing hmissing]
      rw [appendAssignment_eq] at hlost ⊢
      obtain ⟨new, hfold, hlines, hnew, -⟩ :=
        exists_foldl_derive hphases hls' (appended ++ [(key, value)])
      rw [hfold]
      refine ⟨(key, value), by simp, List.mem_cons_self, ?_⟩
      rw [assigns_iff, not_not, valuesOf_terminate hlines, List.filterMap_append,
        ← valuesOf_terminate hls', hlost, List.nil_append, List.filterMap_eq_nil_iff]
      intro line hline
      obtain ⟨entry, hentry, rfl⟩ := List.mem_map.1 hline
      have hmem := (hnew entry hentry).1
      refine valueOf?_assignment_ne hphase.equals_notMem (hphases _ hmem).equals_notMem ?_
      exact fun heq => hfresh (heq ▸ List.mem_map_of_mem hmem)

/-! ## The whole migration -/

/-- Unless it returns at once, the function goes through all phases and sets the version. -/
theorem migrateState_eq (a : Answers) {t : Str} (h : currentVersion t ≠ ['1']) :
    migrateState a t =
      (setVersion (a.allPhases.foldl derive (t, [])).1, (a.allPhases.foldl derive (t, [])).2) := by
  rw [migrateState, if_neg h, Answers.allPhases, List.foldl_append, List.foldl_cons, List.foldl_nil]
  obtain ⟨text, appended⟩ := a.phases.foldl derive (t, [])
  dsimp only
  split
  next hassigns => rw [derive_of_assigns fun _ => hassigns]
  next hmissing =>
    rw [derive_of_missing hmissing, setVersion_eq_self]
    have habsent : valuesOf schemaVersionKey text = [] := not_not.1 (mt assigns_iff.2 hmissing)
    intro v hv
    rw [valuesOf_appendAssignment (by decide) (by decide) (by decide) habsent] at hv
    split at hv
    · exact List.mem_singleton.1 hv
    · exact absurd hv List.not_mem_nil

theorem flatten_eq_singleton_iff {α : Type} {a : α} {ls : List (List α)} (h : ∀ l ∈ ls, l ≠ []) :
    ls.flatten = [a] ↔ ls = [[a]] := by
  cases ls with
  | nil => simp
  | cons l ls =>
    obtain ⟨hl, hls⟩ := List.forall_mem_cons.1 h
    have hnil : ls.flatten = [] ↔ ls = [] := by
      rw [List.flatten_eq_nil_iff, List.eq_nil_iff_forall_not_mem]
      exact ⟨fun hall l' hmem => hls l' hmem (hall l' hmem),
        fun hnone l' hmem => absurd hmem (hnone l')⟩
    rw [List.flatten_cons, List.append_eq_singleton_iff, hnil, List.cons.injEq]
    simp [hl]

/-- A number has neither an equals sign nor white space. -/
theorem cut_of_parseDigits {v : Str} (h : (parseDigits v).isSome) :
    v ≠ [] ∧ (v.takeWhile (· != '=')).filter (!isSpace ·) = v := by
  obtain ⟨n, hn⟩ := Option.isSome_iff_exists.1 h
  obtain ⟨hne, hdigits, -⟩ := parseDigits_eq_some_iff.1 hn
  have hdigit : ∀ c ∈ v, (c != '=') = true ∧ (!isSpace c) = true := by
    intro c hc
    have hne : ∀ d : Char, d.isDigit = false → c ≠ d := by
      rintro d hd rfl
      rw [hdigits c hc] at hd
      cases hd
    simp [isSpace, hne '=' (by decide), hne ' ' (by decide), hne '\t' (by decide),
      hne '\n' (by decide), hne '\x0b' (by decide), hne '\x0c' (by decide), hne '\r' (by decide)]
  rw [List.takeWhile_eq_self_iff.2 fun c hc => (hdigit c hc).1]
  exact ⟨hne, List.filter_eq_self.2 fun c hc => (hdigit c hc).2⟩

/-- With numbers only, the function returns at once exactly if the one version is `1`. -/
theorem currentVersion_eq_iff {t : Str} (h : Versioned t) :
    currentVersion t = ['1'] ↔ valuesOf schemaVersionKey t = [['1']] := by
  have hcut : (valuesOf schemaVersionKey t).map
      (fun v => (v.takeWhile (· != '=')).filter (!isSpace ·)) = valuesOf schemaVersionKey t :=
    (List.map_congr_left fun v hv => (cut_of_parseDigits (h v hv)).2).trans (List.map_id _)
  rw [currentVersion, hcut]
  exact flatten_eq_singleton_iff fun v hv => (cut_of_parseDigits (h v hv)).1

/-- The file and the appended assignments after the phases, if no line was lost. -/
structure Derived (a : Answers) (t : Str) (state : Str × List (Str × Str)) : Prop where
  keeps : ∀ key, '=' ∉ key → valuesOf key t ≠ [] → valuesOf key state.1 = valuesOf key t
  adds : ∀ entry ∈ state.2, (entry.1, some entry.2) ∈ a.allPhases ∧
    entry.2 ∈ valuesOf entry.1 state.1
  complete : ∀ phase ∈ a.allPhases, phase.2.isSome → assigns phase.1 state.1

theorem nothingMissing_iff {a : Answers} {t : Str} :
    NothingMissing a t ↔ ∀ phase ∈ a.allPhases, phase.2.isSome → assigns phase.1 t := by
  rw [NothingMissing, Answers.allPhases, List.forall_mem_append]
  simp

theorem derived_of_nothingMissing {a : Answers} {t : Str} (h : NothingMissing a t) :
    Derived a t (a.allPhases.foldl derive (t, [])) := by
  have hall := nothingMissing_iff.1 h
  rw [foldl_derive_eq_self hall]
  exact ⟨fun _ _ _ => rfl, fun entry hentry => absurd hentry List.not_mem_nil, hall⟩

theorem derived_of_terminated (a : Answers) {t : Str} (h : Terminated t) :
    Derived a t (a.allPhases.foldl derive (t, [])) := by
  obtain ⟨ls, l, rfl, hls, hl⟩ := exists_terminate_append t
  obtain rfl := (terminated_append_iff hl).1 h
  obtain ⟨new, hfold, hlines, hnew, hall⟩ := exists_foldl_derive (printable_allPhases a) hls []
  rw [List.append_nil, hfold, List.nil_append]
  refine ⟨fun key hkey hassigned => ?_, fun entry hentry => ⟨(hnew entry hentry).1, ?_⟩, hall⟩
  · -- The keys that were added were not there before.
    have hother : (new.map entryLine).filterMap (valueOf? key) = [] := by
      rw [List.filterMap_eq_nil_iff]
      intro line hline
      obtain ⟨entry, hentry, rfl⟩ := List.mem_map.1 hline
      obtain ⟨hmem, habsent⟩ := hnew entry hentry
      refine valueOf?_assignment_ne hkey (printable_allPhases a _ hmem).equals_notMem ?_
      exact fun heq => hassigned (heq ▸ habsent)
    rw [valuesOf_terminate hlines, List.filterMap_append, hother, List.append_nil,
      valuesOf_terminate hls]
  · rw [mem_valuesOf_iff, lines_terminate hlines]
    simp only [List.mem_append, List.mem_map]
    exact .inl (.inr ⟨entry, hentry, rfl⟩)

theorem mem_allPhases_schemaVersion {a : Answers} {value : Str}
    (h : (schemaVersionKey, some value) ∈ a.allPhases) : value = ['1'] := by
  simp only [Answers.allPhases, Answers.phases, List.cons_append, List.nil_append, List.mem_cons,
    Prod.mk.injEq] at h
  have hkeys : schemaVersionKey ∉ [caddyfileShaKey, turnsSubdomainKey, backendApiKey,
      naiveSocksPortKey] := by decide
  simp only [List.mem_cons, not_or] at hkeys
  simpa [hkeys] using h

theorem migratesForward_of_derived {a : Answers} {t : Str} (hversion : schemaVersion t ≤ 1)
    (hcurrent : currentVersion t ≠ ['1'])
    (h : Derived a t (a.allPhases.foldl derive (t, []))) : MigratesForward a t := by
  have hmigrate := migrateState_eq a hcurrent
  generalize a.allPhases.foldl derive (t, []) = state at h hmigrate
  have hassigns : assigns schemaVersionKey state.1 = true :=
    h.complete (schemaVersionKey, some ['1']) (by simp [Answers.allPhases]) rfl
  have hone : schemaVersion (setVersion state.1) = 1 := by
    rw [schemaVersion_setVersion, if_pos hassigns]
  refine ⟨fun key hne hkey hassigned => ?_, fun entry hentry => ?_, ?_, ?_⟩
  · rw [hmigrate, valuesOf_setVersion_ne hne hkey, h.keeps key hkey hassigned]
  · rw [hmigrate] at hentry ⊢
    obtain ⟨hmem, hvalue⟩ := h.adds entry hentry
    rw [← mem_valuesOf_iff]
    by_cases hne : entry.1 = schemaVersionKey
    · rw [hne] at hmem hvalue ⊢
      rw [valuesOf_setVersion_self, mem_allPhases_schemaVersion hmem]
      exact List.mem_map.2 ⟨_, hvalue, rfl⟩
    · rwa [valuesOf_setVersion_ne hne (printable_allPhases a _ hmem).equals_notMem]
  · rw [hmigrate, hone]
    exact ⟨hversion, le_rfl⟩
  · rw [hmigrate]
    by_cases hagain : currentVersion (setVersion state.1) = ['1']
    · rw [migrateState, if_pos hagain]
    · have hall : ∀ phase ∈ a.allPhases, phase.2.isSome → assigns phase.1 (setVersion state.1) :=
        fun phase hphase hsome => (assigns_setVersion_iff
          (printable_allPhases a phase hphase).equals_notMem state.1).2
            (h.complete phase hphase hsome)
      rw [migrateState_eq a hagain, foldl_derive_eq_self hall]
      refine setVersion_eq_self fun v hv => ?_
      rw [valuesOf_setVersion_self] at hv
      obtain ⟨-, -, rfl⟩ := List.mem_map.1 hv
      rfl

/-- What is missing is lost behind a last line without a newline. -/
theorem not_migratesForward_of_missing {a : Answers} {t : Str} (hcurrent : currentVersion t ≠ ['1'])
    (hterminated : ¬ Terminated t) (hmissing : ¬ NothingMissing a t) : ¬ MigratesForward a t := by
  rw [nothingMissing_iff] at hmissing
  push Not at hmissing
  obtain ⟨entry, hentry, hmem, hlost⟩ := exists_lost_of_foldl_derive (printable_allPhases a)
    (nodup_allPhases a) hterminated [] (by simpa using hmissing)
  have hequals := (printable_allPhases a _ hmem).equals_notMem
  have hmigrate := migrateState_eq a hcurrent
  generalize a.allPhases.foldl derive (t, []) = state at hmigrate hentry hlost
  intro hforward
  have hadded := hforward.adds entry (by rw [hmigrate]; exact hentry)
  rw [hmigrate, ← mem_valuesOf_iff] at hadded
  exact hlost ((assigns_setVersion_iff hequals _).1 (assigns_iff.2 (List.ne_nil_of_mem hadded)))

/-- A migration that does not return at once leaves at most version one. -/
theorem schemaVersion_migrateState_le (a : Answers) {t : Str}
    (hcurrent : currentVersion t ≠ ['1']) : schemaVersion (migrateState a t).1 ≤ 1 := by
  rw [migrateState_eq a hcurrent, schemaVersion_setVersion]
  split <;> simp

/-- For every file whose versions are numbers, and all answers: the migration is forward exactly if
the version is at most one, and the file says so already, ends with a newline or misses nothing. -/
theorem migratesForward_iff (a : Answers) (t : Str) (h : Versioned t) :
    MigratesForward a t ↔ schemaVersion t ≤ 1 ∧
      (valuesOf schemaVersionKey t = [['1']] ∨ Terminated t ∨ NothingMissing a t) := by
  by_cases hcurrent : currentVersion t = ['1']
  · have hvalues := (currentVersion_eq_iff h).1 hcurrent
    have hsame : migrateState a t = (t, []) := if_pos hcurrent
    have hone : schemaVersion t = 1 := by
      rw [schemaVersion, hvalues]
      rfl
    refine iff_of_true ⟨?_, ?_, ?_, ?_⟩ ⟨hone.le, .inl hvalues⟩
    · exact fun _ _ _ _ => by rw [hsame]
    · simp [hsame]
    · rw [hsame]
      exact ⟨le_rfl, hone.ge⟩
    · rw [hsame, hsame]
  · constructor
    · intro hforward
      refine ⟨hforward.version.1.trans (schemaVersion_migrateState_le a hcurrent), .inr ?_⟩
      by_contra hcondition
      obtain ⟨hterminated, hmissing⟩ := not_or.1 hcondition
      exact not_migratesForward_of_missing hcurrent hterminated hmissing hforward
    · rintro ⟨hversion, hvalues | hterminated | hmissing⟩
      · exact absurd ((currentVersion_eq_iff h).2 hvalues) hcurrent
      · exact migratesForward_of_derived hversion hcurrent (derived_of_terminated a hterminated)
      · exact migratesForward_of_derived hversion hcurrent (derived_of_nothingMissing hmissing)

/-! ## A node without a Caddyfile -/

/-- No lookup has an answer. -/
def noAnswers : Answers := ⟨none, [], [], by simp, by simp, by simp⟩

theorem migratesForward_iff_legacy : Versioned "NODE_ID=n1\n".toList ∧
    MigratesForward noAnswers "NODE_ID=n1\n".toList := by
  have hversioned : Versioned "NODE_ID=n1\n".toList := by
    unfold Versioned
    decide
  exact ⟨hversioned, (migratesForward_iff noAnswers _ hversioned).2
    ⟨by decide, .inr (.inl (by decide))⟩⟩

/-- Without a newline at its end the file loses the value of its last key, and a file of a newer
release is taken for an old one. -/
theorem truncated_and_newer_not_forward :
    (migrateState noAnswers "NODE_ID=n1".toList).1 =
      ("NODE_ID=n1BACKEND_API=https://api.oxpulse.chat\nNAIVE_SOCKS_PORT=1080\n" ++
        "SCHEMA_VERSION=1\n").toList ∧
    ¬ MigratesForward noAnswers "NODE_ID=n1".toList ∧
    ¬ MigratesForward noAnswers "SCHEMA_VERSION=2\n".toList := by
  refine ⟨by decide, fun h => ?_, fun h => absurd h.version.1 (by decide)⟩
  exact absurd (h.keeps "NODE_ID".toList (by decide) (by decide) (by decide)) (by decide)

end PartnerEdge.Reconcile
