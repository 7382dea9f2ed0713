import PartnerEdge.RelayNode.Outcome
import PartnerEdge.Machine.Run

/-!
# A relay node over many attempts

The timer tries again and again, and the operator may forget a failure. The version of a node only
goes up, and as long as the same release is asked for, coturn is restarted for it twice at most:
once to try the release, and once to roll it back.
-/

namespace PartnerEdge.RelayNode

open Text

/-! ## One attempt -/

variable {dirs : Dirs} {a : Attempt} {node : Node}

theorem installedVersion_applyUpgrade (dirs : Dirs) (a : Attempt) (node : Node) :
    installedVersion (applyUpgrade dirs a node).node = installedVersion node ∨
      verGt (installedVersion (applyUpgrade dirs a node).node) (installedVersion node) = true := by
  rcases applyUpgrade_cases dirs a node with ⟨-, -, hversion, -⟩ |
    ⟨hsemver, -, hgt, -, hversion, r, hends, heq⟩
  · rw [installedVersion, hversion]
    exact .inl rfl
  · simp only [← heq, installedVersion, onExit_result, ← hversion] at hgt ⊢
    cases hends with
    | refused | unfinished | stopped | rolledBack => exact .inl rfl
    | upgraded =>
      refine .inr ?_
      rwa [(pruneReleases_version dirs _).1, activated, Option.getD_some, firstField_semver hsemver]

/-- Another attempt for this version does nothing. -/
def Settled (ver : Str) (node : Node) : Prop :=
  installedVersion node = ver ∨ failedBefore node = ver

theorem substituted_semver {v : Str} (h : isSemver v = true) : substituted (v ++ ['\n']) = v := by
  refine substituted_line fun hmem => ?_
  rcases (isSemver_chars h).2 _ hmem with hdigit | hdot
  · exact absurd hdigit (by decide)
  · exact absurd hdot (by decide)

theorem settled_stays (dirs : Dirs) (h : Settled a.ver node) :
    (applyUpgrade dirs a node).restarts = 0 ∧ Settled a.ver (applyUpgrade dirs a node).node := by
  rcases applyUpgrade_cases dirs a node with ⟨hrestarts, -, hversion, hfailed, -⟩ |
    ⟨-, -, hgt, hnot, -⟩
  · refine ⟨hrestarts, ?_⟩
    rwa [Settled, installedVersion, failedBefore, hversion, hfailed]
  · rcases h with hinst | hfailed
    · rw [hinst, verGt_irrefl] at hgt
      cases hgt
    · exact absurd hfailed hnot

/-- An attempt restarts coturn twice at most, and then the version is settled unless the script was
cut short. -/
theorem restarts_le (dirs : Dirs) (a : Attempt) (node : Node)
    (hcode : (applyUpgrade dirs a node).code ≠ 1) :
    (applyUpgrade dirs a node).restarts = 0 ∨
      (applyUpgrade dirs a node).restarts ≤ 2 ∧ Settled a.ver (applyUpgrade dirs a node).node := by
  rcases applyUpgrade_cases dirs a node with ⟨hrestarts, -⟩ | ⟨hsemver, -, -, -, -, r, hends, heq⟩
  · exact .inl hrestarts
  · simp only [← heq, Settled, installedVersion, failedBefore, onExit_result] at hcode ⊢
    cases hends with
    | refused | unfinished => exact .inl rfl
    | stopped => exact absurd rfl hcode
    | upgraded =>
      refine .inr ⟨Nat.le_succ 1, .inl ?_⟩
      rw [(pruneReleases_version dirs _).1]
      exact firstField_semver hsemver
    | rolledBack hprepare hmade hrestored hcode' hall hrestarts =>
      exact .inr ⟨hrestarts, .inr (substituted_semver hsemver)⟩

/-! ## Many attempts -/

inductive Event
  | apply (a : Attempt)
  /-- `rm failed-version` -/
  | forgetFailure

/-- The node, with how each run ends. -/
def upgrader (dirs : Dirs) : Machine Node Event Result where
  step node
    | .apply a => ((applyUpgrade dirs a node).node, applyUpgrade dirs a node)
    | .forgetFailure =>
      let node := { node with failedVersion := none }
      (node, ⟨0, node, 0⟩)

/-- The installed version never goes down. -/
theorem installedVersion_run (dirs : Dirs) (node : Node) (events : List Event) :
    installedVersion ((upgrader dirs).run node events) = installedVersion node ∨
      verGt (installedVersion ((upgrader dirs).run node events))
        (installedVersion node) = true := by
  refine Machine.run_of_step (M := upgrader dirs)
    (I := fun now => installedVersion now = installedVersion node ∨
      verGt (installedVersion now) (installedVersion node) = true) ?_ (.inl rfl) events
  intro now event hnow
  cases event with
  | forgetFailure => exact hnow
  | apply a =>
    rcases installedVersion_applyUpgrade dirs a now with hsame | hgt
    · exact hsame ▸ hnow
    · rcases hnow with heq | hgt'
      · exact .inr (heq ▸ hgt)
      · exact .inr (verGt_trans hgt hgt')

/-- How often coturn was restarted in a run. -/
def totalRestarts (dirs : Dirs) (node : Node) (events : List Event) : Nat :=
  (((upgrader dirs).outputs node events).map fun x => x.2.restarts).sum

/-- The event is an attempt for this version, whose release has plain rows. -/
def AttemptFor (ver : Str) (event : Event) : Prop :=
  ∃ a, event = .apply a ∧ a.ver = ver ∧ plainRelease a.world a.ver = true

theorem totalRestarts_settled {ver : Str} {events : List Event}
    (hevents : ∀ event ∈ events, AttemptFor ver event) (h : Settled ver node) :
    totalRestarts dirs node events = 0 := by
  induction events generalizing node with
  | nil => rfl
  | cons event events ih =>
    obtain ⟨⟨a, rfl, rfl, -⟩, hrest⟩ := List.forall_mem_cons.1 hevents
    obtain ⟨hrestarts, hsettled⟩ := settled_stays dirs h
    have hnone := ih hrest hsettled
    simp only [totalRestarts, Machine.outputs, List.map_cons, List.sum_cons, upgrader] at hnone ⊢
    rw [hrestarts, hnone]

/-- As long as the same release is asked for, coturn is restarted for it twice at most, unless a run
is cut short. -/
theorem totalRestarts_le {ver : Str} {events : List Event}
    (hevents : ∀ event ∈ events, AttemptFor ver event)
    (hcodes : ∀ x ∈ (upgrader dirs).outputs node events, x.2.code ≠ 1) :
    totalRestarts dirs node events ≤ 2 := by
  induction events generalizing node with
  | nil => exact Nat.zero_le 2
  | cons event events ih =>
    obtain ⟨⟨a, rfl, rfl, -⟩, hrest⟩ := List.forall_mem_cons.1 hevents
    obtain ⟨hcode, hcodes⟩ := List.forall_mem_cons.1 hcodes
    have hsum : totalRestarts dirs node (.apply a :: events) =
        (applyUpgrade dirs a node).restarts +
          totalRestarts dirs (applyUpgrade dirs a node).node events := rfl
    rw [hsum]
    rcases restarts_le dirs a node hcode with hnone | ⟨hle, hsettled⟩
    · rw [hnone, zero_add]
      exact ih hrest hcodes
    · rw [totalRestarts_settled hrest hsettled]
      omega

theorem totalRestarts_le_rolledBack :
    totalRestarts defaultDirs olderNode (List.replicate 3 (.apply (failingUpgrade "1.1.0"))) ≤ 2 :=
  totalRestarts_le
    (fun event hevent => ⟨_, List.eq_of_mem_replicate hevent, rfl, by decide +kernel⟩)
    (by decide +kernel)

end PartnerEdge.RelayNode
