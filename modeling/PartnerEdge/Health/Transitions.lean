import PartnerEdge.Health.UpstreamState

/-!
# Alerts over a sequence of runs

The state file holds what the last run that wrote it saw, and nothing about upstreams that this run
did not see. A transition is therefore alerted if the upstream was there at the last write. One that
was missing from a scrape, or any upstream after a scrape that failed, is forgotten: whatever it
comes back with, there is no alert.
-/

namespace PartnerEdge.Health

open Text Collections

def observed (run : Run) (up : Str) : Option UpstreamHealth := run.scrape.samples.lookup up

/-- The value most recently observed. -/
def lastObserved (before : List Run) (up : Str) : Option UpstreamHealth :=
  before.reverse.findSome? (observed · up)

/-- The last run that wrote the state file. Only a metrics file that cannot be read stops a run
before it does. -/
def lastWriter (before : List Run) : Option Run := before.reverse.find? (·.scrape.raw.isSome)

/-- The alerts of a run after the runs before it. -/
def alertsAfter (before : List Run) (run : Run) : List Alert :=
  (checkUpstreamTransitions (upstreamCheck.run none before) run).2

/-- In every run there is an alert for an upstream exactly if the run observes another value for it
than was observed last. -/
def AlertsMatch (runs : List Run) : Prop :=
  ∀ before run after, runs = before ++ run :: after → ∀ up,
    (∃ alert ∈ alertsAfter before run, alert.up = up) ↔
      ∃ cur prev, observed run up = some cur ∧ lastObserved before up = some prev ∧ cur ≠ prev

/-- An upstream that changes was observed by the last run before that wrote the state file. -/
def SeenAtLastWrite (runs : List Run) : Prop :=
  ∀ before run after, runs = before ++ run :: after → ∀ up cur prev,
    observed run up = some cur → lastObserved before up = some prev → cur ≠ prev →
      ∃ writer, lastWriter before = some writer ∧ (observed writer up).isSome

/-- No upstream's name has an equals sign or starts as a comment. -/
def ProperNames (runs : List Run) : Prop :=
  ∀ run ∈ runs, ∀ entry ∈ run.scrape.samples, '=' ∉ entry.1 ∧ entry.1.head? ≠ some '#'

/-! ## What the state file says -/

/-- What the last writer saw. -/
def remembered (before : List Run) (up : Str) : Option UpstreamHealth :=
  (lastWriter before).bind (observed · up)

theorem lastObserved_concat (before : List Run) (run : Run) (up : Str) :
    lastObserved (before ++ [run]) up = (observed run up).or (lastObserved before up) := by
  simp only [lastObserved, List.reverse_append, List.reverse_singleton, List.singleton_append,
    List.findSome?_cons]
  cases observed run up <;> rfl

theorem remembered_concat (before : List Run) (run : Run) (up : Str) :
    remembered (before ++ [run]) up =
      if run.scrape.raw.isSome then observed run up else remembered before up := by
  simp only [remembered, lastWriter, List.reverse_append, List.reverse_singleton,
    List.singleton_append, List.find?_cons]
  cases run.scrape.raw.isSome <;> rfl

theorem lookup_map_text (entries : List (Str × UpstreamHealth)) (up : Str) :
    (entries.map fun e => (e.1, e.2.text)).lookup up =
      (entries.lookup up).map UpstreamHealth.text := by
  induction entries with
  | nil => rfl
  | cons e entries ih =>
    rw [List.map_cons, List.lookup_cons, List.lookup_cons, ih]
    split <;> rfl

/-- The order of the array does not matter for a table of distinct keys. -/
theorem lookup_perm {entries entries' : List (Str × UpstreamHealth)} (h : entries.Perm entries')
    (hnodup : (entries'.map Prod.fst).Nodup) (up : Str) :
    entries.lookup up = entries'.lookup up := by
  have hnodup' : (entries.map Prod.fst).Nodup := (h.map Prod.fst).nodup_iff.2 hnodup
  refine Option.ext fun health => ?_
  rw [lookup_eq_some_iff_mem hnodup', lookup_eq_some_iff_mem hnodup, h.mem_iff]

theorem checkUpstreamTransitions_eq (file : Option Str) (run : Run) :
    checkUpstreamTransitions file run =
      if run.scrape.raw.isSome then
        (some (stateText run.epoch (run.order run.scrape.samples)),
          (run.order run.scrape.samples).filterMap (alertFor (previousHealth file)))
      else (file, []) := by
  unfold checkUpstreamTransitions
  cases hraw : run.scrape.raw with
  | none => rfl
  | some raw =>
    dsimp only
    rw [currentHealth_raw hraw]
    rfl

/-- The names in a scrape are not empty and fit on a line. -/
theorem proper_of_mem_samples {s : Scrape} {entry : Str × UpstreamHealth} (hmem : entry ∈ s.samples)
    (h : '=' ∉ entry.1 ∧ entry.1.head? ≠ some '#') : Proper entry.1 := by
  cases s with
  | failed => exact absurd hmem List.not_mem_nil
  | unreadable => exact absurd hmem List.not_mem_nil
  | returned metrics =>
    obtain ⟨l, -, hl⟩ := List.mem_filterMap.1 hmem
    cases l with
    | sample up health =>
      cases hl
      exact ⟨up.ne_nil, up.newline_notMem, h⟩
    | other text notSample oneLine => cases hl

theorem lookup_previousHealth {before : List Run} (h : ProperNames before) (up : Str) :
    (previousHealth (upstreamCheck.run none before)).lookup up =
      (remembered before up).map UpstreamHealth.text := by
  induction before using List.reverseRecOn with
  | nil => rfl
  | append_singleton before run ih =>
    have hstep : upstreamCheck.run none (before ++ [run]) =
        (checkUpstreamTransitions (upstreamCheck.run none before) run).1 := by
      rw [Machine.run_append]
      rfl
    have hrun : ∀ entry ∈ run.order run.scrape.samples, Proper entry.1 := by
      intro entry hentry
      have hmem := (run.perm _).mem_iff.1 hentry
      exact proper_of_mem_samples hmem (h run (by simp) entry hmem)
    rw [hstep, checkUpstreamTransitions_eq, remembered_concat]
    split
    · have hnodup := ((run.perm run.scrape.samples).map Prod.fst).nodup_iff.2
        run.scrape.nodup_samples
      rw [previousHealth_stateText run.epoch hnodup hrun, lookup_map_text,
        lookup_perm (run.perm _) run.scrape.nodup_samples]
      rfl
    · exact ih fun run' hrun' => h run' (by simp [hrun'])

/-! ## Alerts -/

theorem text_injective : Function.Injective UpstreamHealth.text := by
  intro a b h
  cases a <;> cases b <;> first | rfl | exact absurd h (by decide)

theorem text_ne_nil (health : UpstreamHealth) : health.text ≠ [] := by
  cases health <;> decide

theorem alertFor_eq_some_iff {previous : List (Str × Str)} {entry : Str × UpstreamHealth}
    {prev : Option UpstreamHealth} (h : previous.lookup entry.1 = prev.map UpstreamHealth.text)
    {alert : Alert} :
    alertFor previous entry = some alert ↔
      ∃ health, prev = some health ∧ entry.2 ≠ health ∧
        alert = ⟨entry.1, health.text, entry.2⟩ := by
  rw [alertFor, h]
  cases prev with
  | none => simp
  | some health =>
    rw [Option.map_some, Option.getD_some]
    by_cases hsame : entry.2 = health
    · rw [if_neg fun hne => hne.2 (congrArg UpstreamHealth.text hsame)]
      simp [hsame]
    · rw [if_pos ⟨text_ne_nil health, text_injective.ne hsame⟩]
      simp [hsame, eq_comm (a := alert)]

theorem observed_eq_none_of_not_writes {run : Run} (h : run.scrape.raw.isSome = false) (up : Str) :
    observed run up = none := by
  cases hscrape : run.scrape <;> simp_all [Scrape.raw, observed, Scrape.samples]

theorem exists_alert_iff {before : List Run} (h : ProperNames before) (run : Run) (up : Str) :
    (∃ alert ∈ alertsAfter before run, alert.up = up) ↔
      ∃ cur prev, observed run up = some cur ∧ remembered before up = some prev ∧ cur ≠ prev := by
  rw [alertsAfter, checkUpstreamTransitions_eq]
  cases hraw : run.scrape.raw.isSome with
  | false =>
    simp [observed_eq_none_of_not_writes hraw]
  | true =>
    simp only [if_true, List.mem_filterMap, (run.perm _).mem_iff]
    constructor
    · rintro ⟨alert, ⟨entry, hentry, halert⟩, rfl⟩
      obtain ⟨health, hprev, hne, rfl⟩ :=
        (alertFor_eq_some_iff (lookup_previousHealth h entry.1)).1 halert
      exact ⟨entry.2, health, (lookup_eq_some_iff_mem run.scrape.nodup_samples).2 hentry, hprev,
        hne⟩
    · rintro ⟨cur, prev, hcur, hprev, hne⟩
      refine ⟨⟨up, prev.text, cur⟩, ⟨(up, cur), ?_, ?_⟩, rfl⟩
      · exact (lookup_eq_some_iff_mem run.scrape.nodup_samples).1 hcur
      · exact (alertFor_eq_some_iff (lookup_previousHealth h up)).2 ⟨prev, hprev, hne, rfl⟩

/-! ## What is remembered and what was observed -/

/-- What is remembered is what was observed last: the runs after the last writer observe nothing. -/
theorem lastObserved_of_remembered {before : List Run} {up : Str} {health : UpstreamHealth}
    (h : remembered before up = some health) : lastObserved before up = some health := by
  induction before using List.reverseRecOn with
  | nil => cases h
  | append_singleton before run ih =>
    rw [remembered_concat] at h
    rw [lastObserved_concat]
    cases hraw : run.scrape.raw.isSome with
    | true =>
      rw [if_pos hraw] at h
      rw [h]
      rfl
    | false =>
      rw [if_neg (by simp [hraw])] at h
      rw [observed_eq_none_of_not_writes hraw]
      exact ih h

/-- With proper names, the alerts are right exactly if every upstream that changes was there at the
last write. -/
theorem alertsMatch_iff_seenAtLastWrite (runs : List Run) (hproper : ProperNames runs) :
    AlertsMatch runs ↔ SeenAtLastWrite runs := by
  have halert : ∀ before run after, runs = before ++ run :: after → ∀ up,
      (∃ alert ∈ alertsAfter before run, alert.up = up) ↔ ∃ cur prev,
        observed run up = some cur ∧ remembered before up = some prev ∧ cur ≠ prev := by
    intro before run after hruns up
    exact exists_alert_iff (fun run' hrun' => hproper run' (by simp [hruns, hrun'])) run up
  constructor
  · intro hmatch before run after hruns up cur prev hcur hprev hne
    obtain ⟨_, prev', -, hremembered, -⟩ := (halert before run after hruns up).1
      ((hmatch before run after hruns up).2 ⟨cur, prev, hcur, hprev, hne⟩)
    obtain ⟨writer, hwriter, hseen⟩ := Option.bind_eq_some_iff.1 hremembered
    exact ⟨writer, hwriter, by rw [hseen]; rfl⟩
  · intro hseen before run after hruns up
    rw [halert before run after hruns up]
    constructor
    · rintro ⟨cur, prev, hcur, hprev, hne⟩
      exact ⟨cur, prev, hcur, lastObserved_of_remembered hprev, hne⟩
    · rintro ⟨cur, prev, hcur, hprev, hne⟩
      obtain ⟨writer, hwriter, hsome⟩ := hseen before run after hruns up cur prev hcur hprev hne
      obtain ⟨health, hhealth⟩ := Option.isSome_iff_exists.1 hsome
      have hremembered : remembered before up = some health := by
        rw [remembered, hwriter]
        exact hhealth
      -- The two agree, so the value that is remembered differs from the current one as well.
      have hsame := (lastObserved_of_remembered hremembered).symm.trans hprev
      exact ⟨cur, prev, hcur, hremembered.trans hsame, hne⟩

/-! ## One upstream -/

/-- A run that observes one upstream `a:1`. -/
def runWith (health : UpstreamHealth) : Run where
  scrape := .returned ⟨[.sample ⟨"a:1".toList, by decide, by decide, by decide⟩ health], by
    cases health <;> decide⟩
  order entries := entries
  perm _ := .refl _
  epoch _ := 0

/-- A run whose scrape fails. -/
def failedRun : Run := { runWith .healthy with scrape := .failed }

theorem alertsMatch_iff_seenAtLastWrite_two :
    ProperNames [runWith .healthy, runWith .unhealthy] ∧
    (AlertsMatch [runWith .healthy, runWith .unhealthy] ↔
      SeenAtLastWrite [runWith .healthy, runWith .unhealthy]) := by
  have hproper : ProperNames [runWith .healthy, runWith .unhealthy] := by
    unfold ProperNames
    decide
  exact ⟨hproper, alertsMatch_iff_seenAtLastWrite _ hproper⟩

/-- A scrape that fails between two that observe different values hides the transition. -/
theorem failedRun_hides_transition :
    alertsAfter [runWith .healthy, failedRun] (runWith .unhealthy) = [] ∧
    ¬ AlertsMatch [runWith .healthy, failedRun, runWith .unhealthy] := by
  have hnone : alertsAfter [runWith .healthy, failedRun] (runWith .unhealthy) = [] := by decide
  refine ⟨hnone, fun h => ?_⟩
  obtain ⟨alert, halert, -⟩ := (h [runWith .healthy, failedRun] (runWith .unhealthy) [] rfl
    "a:1".toList).2 ⟨.unhealthy, .healthy, by decide, by decide, by decide⟩
  rw [hnone] at halert
  exact absurd halert List.not_mem_nil

end PartnerEdge.Health
