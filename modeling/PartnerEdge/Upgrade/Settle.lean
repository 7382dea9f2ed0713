import PartnerEdge.Upgrade.Watch
import PartnerEdge.Text.Assignment

/-!
# The gate after an upgrade

After the containers are recreated, the healthcheck is run until it shows no check that was green
before and is red now, or until the time for it is over. If only the checks of the channels are left
red, the gate asks which channels serve, and the upgrade stays if one of them does. Everything else
is rolled back.
-/

namespace PartnerEdge.Upgrade

open Text Machine

/-! ## Snapshots -/

/-- The lines of a file that the healthcheck, or the channel reporter, has written. -/
abbrev Snapshot := List Str

def green : Str := "GREEN".toList

def red : Str := "RED".toList

/-- `[A-Za-z0-9_]+` -/
def isCheckId (id : Str) : Bool := !id.isEmpty && id.all fun c => c.isAlphanum || c == '_'

/-- `^[A-Za-z0-9_]+=GREEN$|^[A-Za-z0-9_]+=RED$` -/
def isCheckLine (l : Str) : Bool :=
  match splitOnce '=' l with
  | some (id, status) => isCheckId id && (status == green || status == red)
  | none => false

/-- The file can be used. -/
def parses (snap : Snapshot) : Bool := snap.any isCheckLine

/-- What `read` leaves for the last variable: a separator at the end is dropped if it is the only
one. -/
def lastVar (rest : Str) : Str :=
  if rest.getLast? = some '=' ∧ '=' ∉ rest.dropLast then rest.dropLast else rest

/-- `IFS='=' read -r _id _bst` -/
def readPair (l : Str) : Str × Str :=
  match splitOnce '=' l with
  | some (id, rest) => (id, lastVar rest)
  | none => (l, [])

/-- `grep "^${_id}=" | head -1 | cut -d= -f2`, for an id that is no pattern. -/
def statusOf (id : Str) (snap : Snapshot) : Str :=
  ((snap.findSome? (valueOf? id)).getD []).takeWhile (· != '=')

/-- The check was green and is red. -/
def turnedRed (baseline post : Snapshot) (id : Str) : Prop :=
  (∃ l ∈ baseline, readPair l = (id, green)) ∧ statusOf id post = red

/-- `_settle_hc_regressions` finds one. Without a baseline there is none. -/
def hcRegressions (baseline post : Snapshot) : Bool :=
  baseline.any fun l =>
    !(readPair l).1.isEmpty && (readPair l).2 == green && statusOf (readPair l).1 post == red

def channelChecks : List Str :=
  ["check_07_xray_tunnel".toList, "check_13_canary_tunnel".toList,
    "check_14_canary_upstream".toList]

/-- `_settle_nonchannel_regression` -/
def nonchannelRegression (baseline post : Snapshot) : Bool :=
  baseline.any fun l => (readPair l).2 == green && !channelChecks.contains (readPair l).1 &&
    statusOf (readPair l).1 post == red

/-! ## Channels -/

def ok : Str := "OK".toList

def down : Str := "DOWN".toList

/-- `^ch[0-9]+$` -/
def isChannel (id : Str) : Bool :=
  match id with
  | 'c' :: 'h' :: digits => !digits.isEmpty && digits.all Char.isDigit
  | _ => false

/-- The channels that serve. -/
def serving (snap : Snapshot) : List Str :=
  (snap.filter fun l => isChannel (readPair l).1 && (readPair l).2 == ok).map fun l =>
    (readPair l).1

inductive Verdict where
  | full
  | degraded (regressed : List Str)
  | lost (regressed : List Str)
  | indeterminate
deriving DecidableEq, Repr

/-- `_settle_serveability_adjudicate` -/
def serveabilityAdjudicate (baseline post : Snapshot) : Verdict :=
  let regressed := (serving baseline).filter (statusOf · post == down)
  if serving baseline = [] then .indeterminate
  else if serving post ≠ [] then
    if regressed ≠ [] then .degraded regressed else .full
  else .lost regressed

/-- `^ch[0-9]+=(OK|DOWN)$`, which is all that a snapshot of the channels keeps. -/
def isChannelLine (l : Str) : Bool :=
  match splitOnce '=' l with
  | some (id, status) => isChannel id && (status == ok || status == down)
  | none => false

/-! ## The gate -/

/-- What the gate finds on the host. -/
structure Host where
  /-- `OXPULSE_ABSOLUTE_HEALTH_GATE` -/
  absolute : Bool
  /-- The number that the shell reads in `OXPULSE_UPGRADE_HEALTH_TIMEOUT`; there is no attempt with
  a negative one, as with zero. -/
  budget : Nat
  /-- Whether each run of the healthcheck with `--local` succeeds. -/
  localOk : Nat → Bool
  /-- What the first run with `--snapshot` prints, which is a try, and what the later ones do. -/
  probe : Snapshot
  snapshots : Nat → Snapshot
  /-- Before the upgrade; empty if there is none. -/
  baseline : Snapshot
  serveBaseline : Snapshot
  /-- What the channel reporter prints when it is asked. -/
  servePost : Snapshot
  watching : Watching

/-- The reasons that are recorded. -/
inductive Reason where
  | localGate
  | snapshotFail
  | real
  | serveabilityIntact
  | transientCleared
  | none
  | lateUnhealthy
deriving DecidableEq, Repr

structure Settled where
  passed : Bool
  reason : Reason
deriving DecidableEq, Repr

/-- What the gate has seen so far. -/
structure Polled where
  /-- The file of the last run, even if it could not be used. -/
  post : Snapshot := []
  stable : Bool := false
  sawTransient : Bool := false
deriving DecidableEq, Repr

namespace Host

variable (h : Host)

/-- The budget in attempts, three seconds each. -/
def maxAttempts : Nat := (h.budget + 2) / 3

/-- The names of the checks are no patterns, and the numbers are within the shell's integers. -/
structure Regular : Prop where
  checks : ∀ l ∈ h.baseline, (readPair l).2 = green → isCheckId (readPair l).1 = true
  budget : h.budget + 2 < 2 ^ 63
  watching : h.watching.Regular

def localAttempt (i : Nat) (_ : Unit) : Unit ⊕ Unit := if h.localOk i then .inr () else .inl ()

/-- The gate that wants everything green. -/
def absoluteGate : Settled :=
  match poll h.localAttempt h.maxAttempts 0 () with
  | .inr () => ⟨true, .localGate⟩
  | .inl () => ⟨false, .localGate⟩

/-- One run of the healthcheck. It ends the loop if nothing has regressed. -/
def snapshotAttempt (i : Nat) (s : Polled) : Polled ⊕ Polled :=
  let out := h.snapshots i
  if parses out then
    if hcRegressions h.baseline out then .inl ⟨out, true, true⟩
    else .inr ⟨out, true, s.sawTransient⟩
  else .inl { s with post := out }

/-- `_settle_serveability_snapshot` and what is made of it. -/
def serveVerdict : Verdict :=
  let post := h.servePost.filter isChannelLine
  if h.serveBaseline = [] ∨ post = [] then .indeterminate
  else serveabilityAdjudicate h.serveBaseline post

/-- A regression is left. -/
def adjudicate (post : Snapshot) : Settled :=
  if nonchannelRegression h.baseline post then ⟨false, .real⟩
  else match h.serveVerdict with
    | .full | .degraded _ => ⟨true, .serveabilityIntact⟩
    | .lost _ | .indeterminate => ⟨false, .real⟩

def finalWatch (sawTransient : Bool) : Settled :=
  match settleDockerHealthWatch h.watching with
  | .wedged _ => ⟨false, .lateUnhealthy⟩
  | _ => ⟨true, if sawTransient then .transientCleared else .none⟩

end Host

/-- `settle_healthcheck_with_retry`, with an executable healthcheck. -/
def settleHealthcheckWithRetry (h : Host) : Settled :=
  if h.absolute || !parses h.probe then h.absoluteGate
  else match poll h.snapshotAttempt h.maxAttempts 0 {} with
    | .inr s => h.finalWatch s.sawTransient
    | .inl s => if s.stable then h.adjudicate s.post else ⟨false, .snapshotFail⟩

/-! ## What the gate lets through -/

variable {h : Host} {i : Nat} {s : Polled}

/-- The run can be used and shows no regression. -/
def Clean (h : Host) (i : Nat) : Prop :=
  parses (h.snapshots i) = true ∧ ∀ id ≠ [], ¬ turnedRed h.baseline (h.snapshots i) id

theorem forall_turnedRed (baseline post : Snapshot) (q : Str → Prop) :
    (∀ id, turnedRed baseline post id → q id) ↔ ∀ l ∈ baseline,
      (readPair l).2 = green → statusOf (readPair l).1 post = red → q (readPair l).1 := by
  constructor
  · intro h l hl hgreen hred
    exact h _ ⟨⟨l, hl, Prod.ext rfl hgreen⟩, hred⟩
  · rintro h id ⟨⟨l, hl, hpair⟩, hred⟩
    simpa [hpair, hred] using h l hl

theorem hcRegressions_eq_false_iff {baseline post : Snapshot} :
    hcRegressions baseline post = false ↔ ∀ id ≠ [], ¬ turnedRed baseline post id := by
  have hred := forall_turnedRed baseline post (· = [])
  grind [hcRegressions]

theorem nonchannelRegression_eq_false_iff {baseline post : Snapshot} :
    nonchannelRegression baseline post = false ↔
      ∀ id, turnedRed baseline post id → id ∈ channelChecks := by
  have hred := forall_turnedRed baseline post (· ∈ channelChecks)
  grind [nonchannelRegression]

/-- What is known after some attempts that did not end the loop. -/
structure Unsettled (h : Host) (i : Nat) (s : Polled) : Prop where
  not_clean : ∀ k < i, ¬ Clean h k
  stable_iff : s.stable = true ↔ ∃ k < i, parses (h.snapshots k) = true
  post : ∀ k, i = k + 1 → s.post = h.snapshots k

theorem unsettled_start (h : Host) : Unsettled h 0 {} where
  not_clean k hk := absurd hk (Nat.not_lt_zero k)
  stable_iff := by simp
  post k hk := by cases hk

theorem snapshotAttempt_cases (h : Host) (i : Nat) (s : Polled) :
    (Clean h i ∧ ∃ s', h.snapshotAttempt i s = .inr s') ∨
      (¬ Clean h i ∧ ∃ s', h.snapshotAttempt i s = .inl s' ∧ s'.post = h.snapshots i ∧
        (s'.stable = true ↔ s.stable = true ∨ parses (h.snapshots i) = true)) := by
  unfold Host.snapshotAttempt
  dsimp only
  split
  · next hparses =>
    split
    · next hregressed =>
      refine .inr ⟨fun hclean => ?_, _, rfl, rfl, by simp [hparses]⟩
      rw [hcRegressions_eq_false_iff.2 hclean.2] at hregressed
      cases hregressed
    · next hregressed =>
      exact .inl ⟨⟨hparses, hcRegressions_eq_false_iff.1 (by simpa using hregressed)⟩, _, rfl⟩
  · next hparses =>
    exact .inr ⟨fun hclean => hparses hclean.1, _, rfl, rfl, by simp [hparses]⟩

theorem unsettled_succ {s' : Polled} (hinv : Unsettled h i s)
    (hattempt : h.snapshotAttempt i s = .inl s') : Unsettled h (i + 1) s' := by
  obtain ⟨-, s₁, hclears⟩ | ⟨hclean, s₁, hgoes, hpost, hstable⟩ := snapshotAttempt_cases h i s
  · rw [hclears] at hattempt
    cases hattempt
  obtain rfl : s₁ = s' := Sum.inl.inj (hgoes.symm.trans hattempt)
  refine ⟨fun k hk => ?_, ?_, fun k hk => ?_⟩
  · rcases Nat.lt_succ_iff_lt_or_eq.1 hk with hk | rfl
    · exact hinv.not_clean k hk
    · exact hclean
  · rw [hstable, hinv.stable_iff]
    simp only [Nat.lt_succ_iff_lt_or_eq, or_and_right, exists_or, exists_eq_left]
  · obtain rfl : i = k := Nat.succ.inj hk
    exact hpost

theorem clean_of_snapshotAttempt {s' : Polled} (hattempt : h.snapshotAttempt i s = .inr s') :
    Clean h i := by
  obtain ⟨hclean, -⟩ | ⟨-, _, hgoes, -⟩ := snapshotAttempt_cases h i s
  · exact hclean
  · rw [hgoes] at hattempt
    cases hattempt

theorem finalWatch_passed (hinterval : 0 < h.watching.interval) {sawTransient : Bool} :
    (h.finalWatch sawTransient).passed = true ↔ ∀ i, ¬ h.watching.FirstWedge i := by
  have hwedged := settleDockerHealthWatch_eq_wedged_iff hinterval
  have hpassed : (h.finalWatch sawTransient).passed = true ↔
      ∀ names, settleDockerHealthWatch h.watching ≠ .wedged names := by
    rw [Host.finalWatch]
    cases settleDockerHealthWatch h.watching <;> simp
  rw [hpassed]
  constructor
  · exact fun hnone i hfirst => hnone _ ((hwedged _).2 ⟨i, hfirst, rfl⟩)
  · intro hnone names hnames
    obtain ⟨i, hfirst, -⟩ := (hwedged names).1 hnames
    exact hnone i hfirst

/-- The channels decide if one of them served before and one does now. -/
theorem serveVerdict_spec (h : Host) :
    (serving h.serveBaseline ≠ [] ∧ serving (h.servePost.filter isChannelLine) ≠ [] ∧
        (h.serveVerdict = .full ∨ ∃ regressed, h.serveVerdict = .degraded regressed)) ∨
      ((serving h.serveBaseline = [] ∨ serving (h.servePost.filter isChannelLine) = []) ∧
        (h.serveVerdict = .indeterminate ∨ ∃ regressed, h.serveVerdict = .lost regressed)) := by
  rw [Host.serveVerdict, serveabilityAdjudicate]
  split_ifs with hempty hbaseline hpost hregressed
  · refine .inr ⟨hempty.imp (fun hnil => ?_) (fun hnil => ?_), .inl rfl⟩
    · rw [hnil]
      rfl
    · rw [hnil]
      rfl
  · exact .inr ⟨.inl hbaseline, .inl rfl⟩
  · exact .inl ⟨hbaseline, hpost, .inr ⟨_, rfl⟩⟩
  · exact .inl ⟨hbaseline, hpost, .inl rfl⟩
  · exact .inr ⟨.inr (not_not.1 hpost), .inr ⟨_, rfl⟩⟩

theorem adjudicate_passed {post : Snapshot} : (h.adjudicate post).passed = true ↔
    nonchannelRegression h.baseline post = false ∧ serving h.serveBaseline ≠ [] ∧
      serving (h.servePost.filter isChannelLine) ≠ [] := by
  rw [Host.adjudicate]
  cases nonchannelRegression h.baseline post with
  | true => simp
  | false =>
    rcases serveVerdict_spec h with ⟨hbefore, hafter, hverdict | ⟨_, hverdict⟩⟩ |
      ⟨hnone, hverdict | ⟨_, hverdict⟩⟩
    · simp [hverdict, hbefore, hafter]
    · simp [hverdict, hbefore, hafter]
    · simp only [hverdict, Bool.false_eq_true, if_false, true_and, false_iff, not_and_or, not_not,
        ne_eq, hnone]
    · simp only [hverdict, Bool.false_eq_true, if_false, true_and, false_iff, not_and_or, not_not,
        ne_eq, hnone]

theorem localAttempt_eq_inl {u v : Unit} (hattempt : h.localAttempt i u = .inl v) :
    h.localOk i = false := by
  unfold Host.localAttempt at hattempt
  split at hattempt
  · cases hattempt
  · next hnot => simpa using hnot

theorem absoluteGate_passed : h.absoluteGate.passed = true ↔
    ∃ i < h.maxAttempts, h.localOk i = true := by
  have hstart : ∀ k < 0, h.localOk k = false := fun k hk => absurd hk (Nat.not_lt_zero k)
  rw [Host.absoluteGate]
  rcases poll_spec (s := ()) h.localAttempt (fun i _ => ∀ k < i, h.localOk k = false)
    h.maxAttempts hstart (fun i _ _ hinv hattempt k hk =>
      (Nat.lt_succ_iff_lt_or_eq.1 hk).elim (hinv k)
      fun hki => hki ▸ localAttempt_eq_inl hattempt) with ⟨⟨⟩, hpoll, hinv⟩ |
    ⟨⟨⟩, i, ⟨⟩, hpoll, -, hi, -, hattempt⟩
  · rw [Nat.zero_add] at hinv
    rw [hpoll]
    refine ⟨fun hpassed => absurd hpassed (by decide), fun ⟨k, hk, hok⟩ => ?_⟩
    rw [hinv k hk] at hok
    cases hok
  · have hok : h.localOk i = true := by
      unfold Host.localAttempt at hattempt
      split at hattempt
      · assumption
      · cases hattempt
    rw [hpoll]
    exact ⟨fun _ => ⟨i, by simpa using hi, hok⟩, fun _ => rfl⟩

/-- Under the absolute gate the healthcheck has to succeed once. Otherwise the upgrade passes in two
ways: some run of the healthcheck shows nothing that was green as red, and no container is found
wedged afterwards; or every run that can be used shows a regression, but the last one of a channel
check only, and a channel serves as one did before. In the second case the containers are not
watched, and a last run that cannot be used hides what the runs before it have shown. -/
theorem settleHealthcheckWithRetry_passed_iff (h : Host) (hregular : h.Regular) :
    (settleHealthcheckWithRetry h).passed = true ↔
      if h.absolute = true ∨ parses h.probe = false then ∃ i < h.maxAttempts, h.localOk i = true
      else
        ((∃ i < h.maxAttempts, Clean h i) ∧ ∀ i, ¬ h.watching.FirstWedge i) ∨
          ((∀ i < h.maxAttempts, ¬ Clean h i) ∧
            (∃ i < h.maxAttempts, parses (h.snapshots i) = true) ∧
            (∀ id, turnedRed h.baseline (h.snapshots (h.maxAttempts - 1)) id →
              id ∈ channelChecks) ∧
            serving h.serveBaseline ≠ [] ∧ serving (h.servePost.filter isChannelLine) ≠ []) := by
  rw [settleHealthcheckWithRetry]
  by_cases habsolute : h.absolute = true ∨ parses h.probe = false
  · rw [if_pos habsolute, if_pos (by simpa using habsolute), absoluteGate_passed]
  rw [if_neg habsolute, if_neg (by simpa using habsolute)]
  rcases poll_spec h.snapshotAttempt (Unsettled h) h.maxAttempts (unsettled_start h)
    (fun i s s' hinv hattempt => unsettled_succ hinv hattempt) with ⟨s, hpoll, hinv⟩ |
    ⟨s, i, _, hpoll, -, hi, -, hattempt⟩
  · rw [Nat.zero_add] at hinv
    rw [hpoll]
    dsimp only
    have hclean : ¬ ∃ i < h.maxAttempts, Clean h i := fun ⟨i, hi, hclean⟩ =>
      hinv.not_clean i hi hclean
    by_cases hstable : s.stable = true
    · obtain ⟨k, hk, hparses⟩ := hinv.stable_iff.1 hstable
      have hpost : s.post = h.snapshots (h.maxAttempts - 1) := hinv.post _ (by omega)
      rw [if_pos hstable, adjudicate_passed, hpost, nonchannelRegression_eq_false_iff]
      refine ⟨fun hpassed => .inr ⟨hinv.not_clean, ⟨k, hk, hparses⟩, hpassed⟩, ?_⟩
      rintro (⟨hclean', -⟩ | ⟨-, -, hpassed⟩)
      · exact absurd hclean' hclean
      · exact hpassed
    · rw [if_neg hstable]
      refine ⟨fun hpassed => absurd hpassed (by decide), ?_⟩
      rintro (⟨hclean', -⟩ | ⟨-, hparses, -⟩)
      · exact absurd hclean' hclean
      · exact absurd (hinv.stable_iff.2 hparses) hstable
  · rw [Nat.zero_add] at hi
    have hclean := clean_of_snapshotAttempt hattempt
    rw [hpoll]
    dsimp only
    rw [finalWatch_passed hregular.watching.interval_pos]
    refine ⟨fun hwatch => .inl ⟨⟨i, hi, hclean⟩, hwatch⟩, ?_⟩
    rintro (⟨-, hwatch⟩ | ⟨hnone, -⟩)
    · exact hwatch
    · exact absurd hclean (hnone i hi)

/-- A check is red in the first run and green in the second, and the containers stay healthy. -/
def clearedHost : Host where
  absolute := false
  budget := 6
  localOk _ := false
  probe := ["check_01=GREEN".toList]
  snapshots i := if i = 0 then ["check_01=RED".toList] else ["check_01=GREEN".toList]
  baseline := ["check_01=GREEN".toList]
  serveBaseline := []
  servePost := []
  watching := { wedgedXray with status := fun _ _ => "healthy".toList }

theorem settleHealthcheckWithRetry_passed_iff_clearedHost :
    ¬ Clean clearedHost 0 ∧ (settleHealthcheckWithRetry clearedHost).passed = true := by
  have hregular : clearedHost.Regular :=
    ⟨by decide +kernel, by decide, ⟨by decide, by decide +kernel, regular_wedgedXray.needs⟩⟩
  have hclean : Clean clearedHost 1 :=
    ⟨by decide +kernel, hcRegressions_eq_false_iff.1 (by decide +kernel)⟩
  have hquiet : ∀ i, ¬ clearedHost.watching.FirstWedge i := by
    intro i hfirst
    obtain ⟨name, hname⟩ := List.exists_mem_of_ne_nil _ hfirst.wedged
    have hstatus : "healthy".toList = "unhealthy".toList := (mem_unhealthy.1 hname).2.2
    exact absurd hstatus (by decide)
  refine ⟨fun hzero => ?_, (settleHealthcheckWithRetry_passed_iff clearedHost hregular).2 ?_⟩
  · exact absurd (hcRegressions_eq_false_iff.2 hzero.2) (by decide +kernel)
  · rw [if_neg (by decide +kernel)]
    exact .inl ⟨⟨1, by decide, hclean⟩, hquiet⟩

end PartnerEdge.Upgrade
