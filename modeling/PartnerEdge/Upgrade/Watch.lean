import PartnerEdge.Machine.Poll
import PartnerEdge.Text.Fields

/-!
# The watch after an upgrade

When the checks have passed, the upgrade keeps looking at the containers for a while, since docker
calls a container unhealthy only after several failed probes. How long is computed from what the
containers declare. Containers that were broken before the upgrade are not looked at.
-/

namespace PartnerEdge.Upgrade

open Text Machine

/-! ## Containers that were broken before -/

/-- `_SETTLE_BASELINE_FLAP_RESTARTS` -/
def flapRestarts : Nat := 3

/-- `_SETTLE_BASELINE_FLAP_RECENT_SECS` -/
def flapRecentSecs : Nat := 300

/-- The field of a line of the baseline, from `$1` on. -/
def baselineField (i : Nat) (line : Str) : Str := (fieldsBy isGap line).getD i []

def wasFine (line : Str) : Bool :=
  let restarts := awkNumber (baselineField 3 line)
  let fresh := (baselineField 4 line).isEmpty || awkNumber (baselineField 4 line) < flapRecentSecs
  baselineField 1 line == "running".toList &&
    (baselineField 2 line == "healthy".toList ||
      baselineField 2 line == "starting".toList && (restarts < flapRestarts || !fresh))

/-- `_settle_baseline_prebroken`. The last line of a container counts. -/
def baselinePrebroken (baseline : List Str) (name : Str) : Bool :=
  ((baseline.filter (baselineField 0 · == name)).getLast?).any (!wasFine ·)

/-- A capture that failed leaves a file without this first line. -/
def isBaseline (baseline : List Str) : Bool :=
  baseline.head?.any fun l => l == "#baseline-v1".toList || l == "#baseline-v2".toList

/-! ## How long to watch -/

/-- What a container declares, in whole seconds. A zero is docker's own default. -/
structure HealthConfig where
  startPeriod : Nat
  interval : Nat
  timeout : Nat
  retries : Nat
deriving DecidableEq, Repr

def HealthConfig.failingBy (c : HealthConfig) : Nat :=
  c.startPeriod + (if c.retries = 0 then 3 else c.retries) *
    (if c.interval = 0 then 30 else c.interval)

def HealthConfig.need (c : HealthConfig) : Nat := c.failingBy + c.timeout

/-- `_settle_derive_recheck_window` -/
def deriveRecheckWindow (floor cap : Nat) (configs : List HealthConfig) : Nat :=
  min (max ((configs.map HealthConfig.need).foldl max 0) floor) cap

/-! ## The watch -/

structure Watching where
  /-- The lines of the baseline, if there is one to be read. -/
  baseline : Option (List Str)
  /-- The number that the shell reads in `OXPULSE_UPGRADE_SETTLE_RECHECK_SECS`, if that is set. A
  negative one, or a text that it cannot read, ends the watch like a zero. -/
  window : Option Nat
  /-- `OXPULSE_UPGRADE_SETTLE_RECHECK_INTERVAL` -/
  interval : Nat
  /-- `OXPULSE_UPGRADE_SETTLE_RECHECK_MIN_SECS` -/
  floor : Nat
  /-- `OXPULSE_UPGRADE_SETTLE_RECHECK_MAX_SECS` -/
  cap : Nat
  /-- The containers that run when the watch begins. -/
  names : List Str
  config : Str → Option HealthConfig
  /-- What docker says about a container at each look. -/
  status : Nat → Str → Str

inductive Watched where
  | disabled
  | nothing
  | wedged (names : List Str)
  | clean
deriving DecidableEq, Repr

namespace Watching

variable (w : Watching)

/-- A baseline that is not usable does not excuse a container. -/
def prebroken (name : Str) : Bool :=
  w.baseline.any fun baseline => isBaseline baseline && baselinePrebroken baseline name

/-- The container declares a healthcheck. -/
def hasStatus (look : Nat) (name : Str) : Bool :=
  !(w.status look name).isEmpty && w.status look name != "<no value>".toList

/-- The containers that are looked at. -/
def watched (look : Nat) : List Str :=
  w.names.filter fun name => w.hasStatus look name && !w.prebroken name

def unhealthy (look : Nat) : List Str :=
  (w.watched look).filter (w.status look · == "unhealthy".toList)

/-- One look at all containers, at a time when the window may be over. -/
def look (window i : Nat) (_ : Unit) : Unit ⊕ Watched :=
  if i * w.interval < window then
    if w.unhealthy i ≠ [] then .inr (.wedged (w.unhealthy i))
    else if w.watched i = [] then .inr .nothing
    else .inl ()
  else .inr .clean

def windowOf : Nat :=
  w.window.getD (deriveRecheckWindow w.floor w.cap (w.names.filterMap w.config))

/-- The loop goes on in time, and its sums are within the shell's integers. -/
structure Regular : Prop where
  interval_pos : 0 < w.interval
  fits : w.windowOf + w.interval < 2 ^ 63
  needs : ∀ name ∈ w.names, ∀ c ∈ w.config name, c.need < 2 ^ 63

end Watching

/-- `_settle_docker_health_watch`. With a positive interval the window is over after as many looks
as it has seconds, so that the looks do not run out. -/
def settleDockerHealthWatch (w : Watching) : Watched :=
  if w.window = some 0 then .disabled
  else if w.names = [] then .nothing
  else if w.windowOf = 0 then .disabled
  else match poll (w.look w.windowOf) (w.windowOf + 1) 0 () with
    | .inr result => result
    | .inl () => .clean

/-! ## What the watch finds -/

section Watch

variable {w : Watching}

/-- The looks so far found nothing and something was looked at. -/
def Quiet (w : Watching) (i : Nat) : Prop :=
  ∀ k < i, k * w.interval < w.windowOf ∧ w.unhealthy k = [] ∧ w.watched k ≠ []

theorem quiet_look {i : Nat} {u : Unit} (hquiet : Quiet w i)
    (h : w.look w.windowOf i () = .inl u) : Quiet w (i + 1) := by
  intro k hk
  rcases Nat.lt_succ_iff_lt_or_eq.1 hk with hk | rfl
  · exact hquiet k hk
  · unfold Watching.look at h
    split at h
    · next hwindow =>
      split at h
      · cases h
      · next hunhealthy =>
        split at h
        · cases h
        · next hwatched => exact ⟨hwindow, not_not.1 hunhealthy, hwatched⟩
    · cases h

/-- The watch is over before the looks are. -/
theorem exists_look (hinterval : 0 < w.interval) : ∃ answer i,
    poll (w.look w.windowOf) (w.windowOf + 1) 0 () = .inr answer ∧ Quiet w i ∧
      w.look w.windowOf i () = .inr answer := by
  have hquiet : Quiet w 0 := fun k hk => absurd hk (Nat.not_lt_zero k)
  rcases poll_spec (w.look w.windowOf) (fun i _ => Quiet w i) (w.windowOf + 1) hquiet
    (fun i s s' hinv hlook => quiet_look hinv hlook) with ⟨s, -, hinv⟩ |
    ⟨answer, i, s, hpoll, -, -, hinv, hlook⟩
  · have := (hinv w.windowOf (by omega)).1
    have := Nat.le_mul_of_pos_right w.windowOf hinterval
    omega
  · exact ⟨answer, i, hpoll, hinv, hlook⟩

theorem look_eq_wedged {i : Nat} {names : List Str}
    (h : w.look w.windowOf i () = .inr (.wedged names)) :
    i * w.interval < w.windowOf ∧ w.unhealthy i ≠ [] ∧ names = w.unhealthy i := by
  unfold Watching.look at h
  split at h
  · next hwindow =>
    split at h
    · next hunhealthy =>
      cases h
      exact ⟨hwindow, hunhealthy, rfl⟩
    · split at h <;> cases h
  · cases h

/-- The first look at which a container is unhealthy, within the window. At every look before it
there is a container to be watched. -/
structure Watching.FirstWedge (w : Watching) (i : Nat) : Prop where
  inWindow : i * w.interval < w.windowOf
  quiet : ∀ k < i, w.unhealthy k = [] ∧ w.watched k ≠ []
  wedged : w.unhealthy i ≠ []

theorem settleDockerHealthWatch_eq_wedged_iff (hinterval : 0 < w.interval) (names : List Str) :
    settleDockerHealthWatch w = .wedged names ↔
      ∃ i, w.FirstWedge i ∧ names = w.unhealthy i := by
  obtain ⟨answer, j, hpoll, hquiet, hlook⟩ := exists_look hinterval
  rw [settleDockerHealthWatch, hpoll]
  constructor
  · intro h
    have hanswer : answer = .wedged names := by
      split_ifs at h
      exact h
    obtain ⟨hwindow, hunhealthy, rfl⟩ := look_eq_wedged (hanswer ▸ hlook)
    exact ⟨j, ⟨hwindow, fun k hk => (hquiet k hk).2, hunhealthy⟩, rfl⟩
  · rintro ⟨i, hfirst, rfl⟩
    have hzero : w.windowOf ≠ 0 := Nat.ne_zero_of_lt hfirst.inWindow
    have hnames : w.names ≠ [] := by
      intro hnil
      refine hfirst.wedged ?_
      rw [Watching.unhealthy, Watching.watched, hnil]
      rfl
    have hset : w.window ≠ some 0 := fun hset => hzero (by rw [Watching.windowOf, hset]; rfl)
    rw [if_neg hset, if_neg hnames, if_neg hzero]
    -- The loop stops neither before that look nor after it.
    rcases lt_trichotomy i j with hij | rfl | hji
    · exact absurd (hquiet i hij).2.1 hfirst.wedged
    · rw [Watching.look, if_pos hfirst.inWindow, if_pos hfirst.wedged] at hlook
      exact (Sum.inr.inj hlook).symm
    · have hin : j * w.interval < w.windowOf :=
        lt_of_le_of_lt (Nat.mul_le_mul_right _ hji.le) hfirst.inWindow
      obtain ⟨hnone, hsome⟩ := hfirst.quiet j hji
      rw [Watching.look, if_pos hin, if_neg (not_not.2 hnone), if_neg hsome] at hlook
      cases hlook

theorem mem_watched {look : Nat} {name : Str} : name ∈ w.watched look ↔
    name ∈ w.names ∧ w.hasStatus look name = true ∧ w.prebroken name = false := by
  simp [Watching.watched, List.mem_filter]

theorem mem_unhealthy {look : Nat} {name : Str} : name ∈ w.unhealthy look ↔
    name ∈ w.names ∧ w.prebroken name = false ∧ w.status look name = "unhealthy".toList := by
  simp only [Watching.unhealthy, List.mem_filter, mem_watched, beq_iff_eq, and_assoc]
  refine and_congr_right fun _ => ⟨fun h => h.2, fun h => ⟨?_, h⟩⟩
  rw [Watching.hasStatus, h.2]
  decide

end Watch

/-! ## How long is long enough -/

variable {w : Watching}

theorem le_foldl_max {l : List Nat} {n m : Nat} (h : n ∈ l ∨ n ≤ m) : n ≤ l.foldl max m := by
  induction l generalizing m with
  | nil => simpa using h
  | cons k l ih =>
    refine ih ?_
    rcases h with h | h
    · rcases List.mem_cons.1 h with rfl | h
      · exact .inr (le_max_right _ _)
      · exact .inl h
    · exact .inr (le_max_of_le_left h)

/-- The window is long enough for every container that does not need more than the cap. -/
theorem need_le_deriveRecheckWindow {floor cap : Nat} {configs : List HealthConfig}
    {c : HealthConfig} (hc : c ∈ configs) (hcap : c.need ≤ cap) :
    c.need ≤ deriveRecheckWindow floor cap configs := by
  have hmem : c.need ∈ configs.map HealthConfig.need := List.mem_map_of_mem hc
  exact le_min (le_max_of_le_left (le_foldl_max (.inl hmem))) hcap

/-- The window is open when docker has given up on a container, if it waits for a probe at least as
long as the watch does between two looks. -/
theorem exists_late_look {c : HealthConfig} (hinterval : 0 < w.interval)
    (hneed : c.need ≤ w.windowOf) (htimeout : w.interval ≤ c.timeout) :
    ∃ look, c.failingBy ≤ look * w.interval ∧ look * w.interval < w.windowOf := by
  refine ⟨(c.failingBy + w.interval - 1) / w.interval, ?_, ?_⟩
  · have := Nat.div_add_mod (c.failingBy + w.interval - 1) w.interval
    have := Nat.mod_lt (c.failingBy + w.interval - 1) hinterval
    rw [Nat.mul_comm]
    omega
  · have := Nat.div_mul_le_self (c.failingBy + w.interval - 1) w.interval
    have : c.need = c.failingBy + c.timeout := rfl
    omega

/-- The watch reports the containers that are unhealthy at the first look in the window at which one
is. With the derived window, it reports a container that docker calls unhealthy from the end of its
retries on, unless another one is unhealthy before that. -/
theorem settleDockerHealthWatch_spec (w : Watching) (hregular : w.Regular) :
    (∀ names, settleDockerHealthWatch w = .wedged names ↔
        ∃ i, w.FirstWedge i ∧ names = w.unhealthy i) ∧
      (∀ look name, name ∈ w.unhealthy look ↔ name ∈ w.names ∧ w.prebroken name = false ∧
        w.status look name = "unhealthy".toList) ∧
      (w.window = none → ∀ name ∈ w.names, ∀ c, w.config name = some c → w.prebroken name = false →
        c.need ≤ w.cap → w.interval ≤ c.timeout → (∀ look, w.hasStatus look name = true) →
        (∀ look, c.failingBy ≤ look * w.interval → w.status look name = "unhealthy".toList) →
        ∃ i, settleDockerHealthWatch w = .wedged (w.unhealthy i) ∧
          (c.failingBy ≤ i * w.interval → name ∈ w.unhealthy i)) := by
  have hiff := settleDockerHealthWatch_eq_wedged_iff hregular.interval_pos
  refine ⟨hiff, fun look name => mem_unhealthy, ?_⟩
  intro hderive name hname c hconfig hfine hcap htimeout hhas hwedged
  have hneed : c.need ≤ w.windowOf := by
    rw [Watching.windowOf, hderive]
    exact need_le_deriveRecheckWindow (List.mem_filterMap.2 ⟨name, hname, hconfig⟩) hcap
  have hmem : ∀ k, c.failingBy ≤ k * w.interval → name ∈ w.unhealthy k :=
    fun k hk => mem_unhealthy.2 ⟨hname, hfine, hwedged k hk⟩
  obtain ⟨late, hfailing, hin⟩ := exists_late_look hregular.interval_pos hneed htimeout
  have hsome : ∃ k, w.unhealthy k ≠ [] := ⟨late, List.ne_nil_of_mem (hmem late hfailing)⟩
  have hle : Nat.find hsome ≤ late := Nat.find_min' hsome (List.ne_nil_of_mem (hmem late hfailing))
  refine ⟨Nat.find hsome, (hiff _).2 ⟨Nat.find hsome, ⟨?_, fun k hk => ?_, Nat.find_spec hsome⟩,
    rfl⟩, hmem _⟩
  · exact lt_of_le_of_lt (Nat.mul_le_mul_right _ hle) hin
  · refine ⟨not_not.1 (Nat.find_min hsome hk), List.ne_nil_of_mem (a := name) ?_⟩
    exact mem_watched.2 ⟨hname, hhas k, hfine⟩

/-! ## A container that is wedged by the upgrade -/

def xray : Str := "oxpulse-partner-xray".toList

/-- The xray container, which docker calls unhealthy after two minutes. -/
def wedgedXray : Watching where
  baseline := some ["#baseline-v2".toList, "oxpulse-partner-xray running healthy 0 90000".toList]
  window := none
  interval := 5
  floor := 60
  cap := 300
  names := [xray]
  config _ := some ⟨30, 30, 10, 3⟩
  status look _ := if look * 5 < 120 then "starting".toList else "unhealthy".toList

theorem regular_wedgedXray : wedgedXray.Regular where
  interval_pos := by decide
  fits := by decide
  needs := by
    intro name _ c hc
    rw [← Option.some.inj hc]
    decide

theorem settleDockerHealthWatch_spec_wedgedXray :
    settleDockerHealthWatch wedgedXray = .wedged [xray] := by
  refine ((settleDockerHealthWatch_spec wedgedXray regular_wedgedXray).1 _).2
    ⟨24, ⟨by decide, by decide +kernel, by decide +kernel⟩, by decide +kernel⟩

/-- Three probes that each run into their time limit take half a minute longer than the window. -/
example : settleDockerHealthWatch { wedgedXray with
    status := fun look _ => if look * 5 < 150 then "starting".toList else "unhealthy".toList } =
      .clean := by
  decide +kernel

end PartnerEdge.Upgrade
