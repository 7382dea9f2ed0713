import PartnerEdge.Sfu.Pacer

/-!
# Suspend notices

The pacer's answers signal a tier, or nothing. The tier goes through `pending_tier_emit`, which the
same turn fills and empties, and is announced to the other clients unless it was the last one
announced; before the first announcement the peers assume full video. So the notices of a subscriber
are the changes among the signalled tiers, which start from full video.
-/

namespace PartnerEdge.Sfu

open Svc PartnerEdge.Client Text

/-- The tier that an answer of the pacer signals. -/
def signalledTier : Option PacerAction → Option SuspendTier
  | some (.changeLayer _) | some .restoreVideo => some .videoMax
  | some .suspendVideo => some .audioNormal
  | some .goAudioOnly => some .audioLow
  | some .noChange | some .restoreAudio | none => none

/-- The tiers of a client's suspend notices, in the order of the queue. -/
def suspendTiers (id : ClientId) (ps : List Propagated) : List SuspendTier :=
  ps.filterMap fun
    | .peerSuspended peerId tier => if peerId = id then some tier else none
    | _ => none

@[simp] theorem suspendTiers_append (id : ClientId) (ps ps' : List Propagated) :
    suspendTiers id (ps ++ ps') = suspendTiers id ps ++ suspendTiers id ps' :=
  List.filterMap_append

namespace Client

/-! ## One turn -/

/-- The tier that waits, and the last announced one. -/
def tiers (c : Client) : Option SuspendTier × Option SuspendTier :=
  (c.pendingTierEmit, c.lastEmittedTier)

section Turn

variable (cfg : Config) (world : World) (n now : Nat) (available : List Rid) (c : Client)

/-- The answer's tier replaces what waits. -/
theorem chooseLayer_tiers (action : Nat → PacerAction) (ready : Bool) (budget : Option Nat) :
    (c.chooseLayer cfg action ready budget available).1.tiers =
      ((signalledTier (if cfg.pacerFloorEnabled && !ready then none else budget.map action)).or
        c.pendingTierEmit, c.lastEmittedTier) := by
  unfold chooseLayer
  split
  · simp [signalledTier, tiers]
  · unfold pacerSelectLayer
    cases budget with
    | none => rfl
    | some bps =>
      simp only [Option.map_some]
      cases action bps with
      | changeLayer target =>
        refine Prod.ext rfl ?_
        simp only [tiers, setDesiredLayer]
        split <;> rfl
      | _ => rfl

theorem suspendTiers_switchKeyframe (prev : Rid) (chosen : Option Rid) (id : ClientId) :
    suspendTiers id (c.switchKeyframe now prev chosen).2 = [] := by
  unfold switchKeyframe emitKeyframeOnLayerSwitch
  refine List.filterMap_eq_nil_iff.mpr fun p hp => ?_
  grind

/-- What is announced when a tier is signalled after the last announced one. -/
def announced (last : Option SuspendTier) : Option SuspendTier → List SuspendTier
  | some tier => if tierChanged last tier then [tier] else []
  | none => []

/-- A tier is news if the peers assume another one. -/
theorem tierChanged_iff (last : Option SuspendTier) (tier : SuspendTier) :
    tierChanged last tier = true ↔ last.getD .videoMax ≠ tier := by
  cases last <;> cases tier <;> simp [tierChanged]

theorem emitTier_eq : suspendTiers c.id c.emitTier.2 =
      announced c.lastEmittedTier c.pendingTierEmit ∧
    c.emitTier.1.tiers =
      (none, (announced c.lastEmittedTier c.pendingTierEmit).getLast?.or c.lastEmittedTier) := by
  unfold emitTier announced tiers
  cases hpending : c.pendingTierEmit with
  | none => simp [hpending, suspendTiers]
  | some tier =>
    dsimp only
    split <;> simp [suspendTiers]

/-- Everything a turn does to the tiers of a client for which nothing waits. -/
theorem updatePacerLayer_tiers (hpending : c.pendingTierEmit = none) :
    let news := announced c.lastEmittedTier (signalledTier (c.pacerAnswer cfg world n now))
    suspendTiers c.id (c.updatePacerLayer cfg world n now available).2 = news ∧
      (c.updatePacerLayer cfg world n now available).1.tiers =
        (none, news.getLast?.or c.lastEmittedTier) := by
  obtain ⟨_, htick⟩ := c.pacerTick_changes cfg now
  simp only [updatePacerLayer, suspendTiers_append, suspendTiers_switchKeyframe, List.nil_append,
    htick]
  generalize hchoice : chooseLayer _ _ _ _ _ available = choice
  obtain ⟨_, _, hchanges⟩ := hchoice ▸ chooseLayer_changes ..
  obtain ⟨hwaits, hlast⟩ := Prod.mk.inj (hchoice ▸ chooseLayer_tiers ..)
  rw [hpending, Option.or_none] at hwaits
  generalize hturn : choice.1.switchKeyframe now c.filter.desiredLayer choice.2 = turn
  obtain ⟨_, hswitch⟩ := hturn ▸ choice.1.switchKeyframe_changes now _ choice.2
  obtain ⟨_, hcap⟩ := turn.1.emitTier.1.selectTemporalCap_changes cfg _ _
  rw [hcap, show c.id = turn.1.id by rw [hswitch, hchanges],
    show c.lastEmittedTier = turn.1.lastEmittedTier by rw [hswitch]; exact hlast.symm]
  exact hwaits ▸ hswitch ▸ emitTier_eq turn.1

end Turn

/-- Only the pacer touches the tiers. -/
theorem handleMediaDataOut_tiers (world : World) (n : Nat) (c : Client) (origin : ClientId)
    (data : MediaData) : (c.handleMediaDataOut world n origin data).1.tiers = c.tiers := by
  obtain ⟨_, h | h⟩ := c.handleMediaDataOut_changes world n origin data <;> rw [h] <;> rfl

theorem handleEvent_tiers (jwt : Jwt) (now : Nat) (auth : RelayAuth) (c : Client)
    (event : RtcEvent) : (c.handleEvent jwt now auth event).1.tiers = c.tiers := by
  cases event with
  | mediaAdded mid kind direction => cases direction <;> rfl
  | _ => rfl

/-- What a turn queues. -/
def turnNotices (cfg : Config) (world : World) (c : Client) : Turn → List Propagated
  | .pacer n now available => (c.updatePacerLayer cfg world n now available).2
  | _ => []

theorem turn_tiers (cfg : Config) (world : World) {c : Client} (hpending : c.pendingTierEmit = none)
    (t : Turn) :
    let news := announced c.lastEmittedTier (signalledTier (c.turnAnswer cfg world t))
    suspendTiers c.id (c.turnNotices cfg world t) = news ∧
      (c.turn cfg world t).1.tiers = (none, news.getLast?.or c.lastEmittedTier) := by
  have hkept : (none, c.lastEmittedTier) = c.tiers := by rw [tiers, hpending]
  cases t with
  | pacer n now available => exact c.updatePacerLayer_tiers cfg world n now available hpending
  | packet n origin data =>
    exact ⟨rfl, (c.handleMediaDataOut_tiers world n origin data).trans hkept.symm⟩
  | rtc now event =>
    exact ⟨rfl, (c.handleEvent_tiers world.jwt now cfg.relayAuth event).trans hkept.symm⟩
  | _ => exact ⟨rfl, hkept.symm⟩

theorem turn_id (cfg : Config) (world : World) (c : Client) (t : Turn) :
    (c.turn cfg world t).1.id = c.id := by
  cases t with
  | pacer n now available => exact (Follows.updatePacerLayer cfg world n now available c).id
  | packet n origin data => exact (Follows.handleMediaDataOut world n c origin data).id
  | rtc now event => exact (Follows.handleEvent world.jwt now cfg.relayAuth c event).id
  | _ => rfl

end Client

/-! ## Runs of one subscriber -/

/-- A subscriber, what its turns have queued, and the last signalled tier. -/
structure Noticed where
  client : Client
  queued : List Propagated
  lastSignal : Option SuspendTier

namespace Noticed

def start (c : Client) : Noticed := ⟨c, [], none⟩

def step (cfg : Config) (world : World) (s : Noticed) (t : Turn) : Noticed where
  client := (s.client.turn cfg world t).1
  queued := s.queued ++ s.client.turnNotices cfg world t
  lastSignal := (signalledTier (s.client.turnAnswer cfg world t)).or s.lastSignal

def tiers (s : Noticed) : List SuspendTier := suspendTiers s.client.id s.queued

/-- The notices are the changes of the signalled tier from full video on. -/
structure Faithful (s : Noticed) : Prop where
  pending : s.client.pendingTierEmit = none
  last : s.tiers.getLast? = s.client.lastEmittedTier
  changes : (.videoMax :: s.tiers).IsChain (· ≠ ·)
  signal : s.client.lastEmittedTier.getD .videoMax = s.lastSignal.getD .videoMax

theorem Faithful.step {s : Noticed} (h : s.Faithful) (cfg : Config) (world : World) (t : Turn) :
    (s.step cfg world t).Faithful := by
  obtain ⟨hnews, htiers⟩ := Client.turn_tiers cfg world h.pending t
  obtain ⟨hpending, hlast⟩ := Prod.mk.inj htiers
  have hqueued : (s.step cfg world t).tiers = s.tiers ++
      Client.announced s.client.lastEmittedTier
        (signalledTier (s.client.turnAnswer cfg world t)) := by
    simp only [tiers, Noticed.step, Client.turn_id, suspendTiers_append, hnews]
  have hsignal : (s.step cfg world t).lastSignal =
      (signalledTier (s.client.turnAnswer cfg world t)).or s.lastSignal := rfl
  have hemitted : (s.step cfg world t).client.lastEmittedTier = _ := hlast
  have hbefore := h.signal
  generalize signalledTier (s.client.turnAnswer cfg world t) = signal at hqueued hsignal hemitted
  refine ⟨hpending, ?_, ?_, ?_⟩
  · rw [hqueued, List.getLast?_append, h.last, hemitted]
  · rw [hqueued, ← List.cons_append]
    refine List.isChain_append.mpr ⟨h.changes, ?_, fun tier htier news hnews => ?_⟩
    · fun_cases Client.announced s.client.lastEmittedTier signal
      · exact .singleton _
      · exact .nil
      · exact .nil
    · rw [List.getLast?_cons, h.last] at htier
      obtain rfl := Option.some.inj htier
      revert hnews
      fun_cases Client.announced s.client.lastEmittedTier signal <;> grind [Client.tierChanged_iff]
  · rw [hemitted, hsignal]
    fun_cases Client.announced s.client.lastEmittedTier signal <;> grind [Client.tierChanged_iff]

end Noticed

def notices (cfg : Config) (world : World) : Machine Noticed Turn Unit :=
  ⟨fun s t => (s.step cfg world t, ())⟩

/-- In every run of a new client, whatever the pacer answers, no two consecutive notices have the
same tier, the first is not full video, and the last notice is the last signalled tier. -/
theorem notices_faithful (cfg : Config) (world : World) (c : Client)
    (hnew : c.pendingTierEmit = none ∧ c.lastEmittedTier = none) (turns : List Turn) :
    let s := (notices cfg world).run (.start c) turns
    s.tiers.IsChain (· ≠ ·) ∧ s.tiers.head? ≠ some .videoMax ∧
      s.tiers.getLast?.getD .videoMax = s.lastSignal.getD .videoMax := by
  have hstart : (Noticed.start c).Faithful :=
    ⟨hnew.1, hnew.2.symm, .singleton _, by simp [Noticed.start, hnew.2]⟩
  have hrun : ((notices cfg world).run (.start c) turns).Faithful :=
    Machine.run_of_step (M := notices cfg world) (fun _ t h => h.step cfg world t) hstart turns
  refine ⟨hrun.changes.tail, fun hhead => ?_, hrun.last ▸ hrun.signal⟩
  obtain ⟨rest, htiers⟩ := List.head?_eq_some_iff.mp hhead
  have hchanges := hrun.changes
  rw [htiers] at hchanges
  exact (List.isChain_cons_cons.mp hchanges).1 rfl

/-- A browser whose pacer suspends video, keeps it so, and goes down to low audio. -/
theorem notices_faithful_browser :
    let world := { pacedWorld (some 90000) .noChange with
      pacerAction := fun n _ _ => if n < 2 then .suspendVideo else .goAudioOnly }
    let c := Client.newBrowser pacedConfig 1 1
    (c.pendingTierEmit = none ∧ c.lastEmittedTier = none) ∧
      ((notices pacedConfig world).run (.start c) [.pacer 0 0 ["q"], .pacer 1 10 ["q"],
        .pacer 2 20 ["q"]]).tiers = [.audioNormal, .audioLow] ∧
      ((notices pacedConfig world).run (.start c) [.pacer 0 0 ["q"], .pacer 1 10 ["q"],
        .pacer 2 20 ["q"]]).tiers.head? ≠ some .videoMax :=
  ⟨⟨rfl, rfl⟩, by decide, (notices_faithful pacedConfig _ _ ⟨rfl, rfl⟩ _).2.1⟩

end PartnerEdge.Sfu
