import PartnerEdge.Client.Subscriptions
import PartnerEdge.Client.TemporalDrop
import PartnerEdge.Sfu.Follows
import PartnerEdge.Sfu.Registry

/-!
# The pacer's word and the layer filter

The pacer of the kit decides about a subscriber's video, and `handleMediaDataOut` forwards it. The
two meet in the desired layer only: a suspension is announced to the other clients and reaches no
filter, and of all answers only a change of layer is clamped to what the publisher sends. This
module says once what an answer does to the layer and to the suspension of a client, and what
follows for whole runs of a subscriber and for the layers of all subscribers.
-/

namespace PartnerEdge.Sfu

open Svc PartnerEdge.Client Text

/-- Whether video is suspended after an answer of the pacer, or after a pass without one. -/
def suspendedAfter (before : Bool) : Option PacerAction → Bool
  | some .suspendVideo | some .goAudioOnly => true
  | some .restoreVideo | some (.changeLayer _) => false
  | some .noChange | some .restoreAudio | none => before

def layerAfter (before : Rid) (available : List Rid) : Option PacerAction → Rid
  | some (.changeLayer target) => Client.clampToAvailable target available
  | some .restoreVideo => Client.layerLow
  | some .noChange | some .restoreAudio | some .suspendVideo | some .goAudioOnly | none => before

namespace Client

/-- What the pacer answers in a client's turn. It is not asked without an estimate, nor in a pass
that the floor holds back. -/
def pacerAnswer (cfg : Config) (world : World) (n now : Nat) (c : Client) : Option PacerAction :=
  if cfg.pacerFloorEnabled && !(c.pacerTick cfg now).2 then none
  else (world.estimate n c.id).map (world.pacerAction n c.id)

/-- The tier that waits to be announced, else the last announced one, has no video. -/
def videoSuspended (c : Client) : Bool :=
  (c.pendingTierEmit.or c.lastEmittedTier).any (· ≠ .videoMax)

/-- What the pacer's answers act on. -/
def pacerView (c : Client) : Rid × Bool := (c.filter.desiredLayer, c.videoSuspended)

/-! ## One turn of `update_pacer_layers` -/

section Turn

variable (cfg : Config) (world : World) (n now : Nat) (available : List Rid) (c : Client)

theorem pacerSelectLayer_view (action : Nat → PacerAction) (budget : Option Nat) :
    (c.pacerSelectLayer action budget available).1.pacerView =
      (layerAfter c.filter.desiredLayer available (budget.map action),
        suspendedAfter c.videoSuspended (budget.map action)) := by
  unfold pacerSelectLayer
  cases budget with
  | none => rfl
  | some bps =>
    simp only [Option.map_some]
    cases action bps with
    | changeLayer target =>
      refine Prod.ext ?_ rfl
      simp only [pacerView, layerAfter, setDesiredLayer, Subscriber.setDesiredLayer]
      split <;> simp_all
    | _ => rfl

theorem chooseLayer_view (action : Nat → PacerAction) (ready : Bool) (budget : Option Nat) :
    let answer := if cfg.pacerFloorEnabled && !ready then none else budget.map action
    (c.chooseLayer cfg action ready budget available).1.pacerView =
      (layerAfter c.filter.desiredLayer available answer,
        suspendedAfter c.videoSuspended answer) := by
  unfold chooseLayer
  split
  · rfl
  · exact c.pacerSelectLayer_view available action budget

theorem switchKeyframe_view (prev : Rid) (chosen : Option Rid) :
    (c.switchKeyframe now prev chosen).1.pacerView = c.pacerView := by
  obtain ⟨_, h⟩ := c.switchKeyframe_changes now prev chosen
  rw [h]
  rfl

/-- Announcing a tier, or finding that it is no news, does not change what it says. -/
theorem emitTier_view : c.emitTier.1.pacerView = c.pacerView := by
  unfold emitTier pacerView videoSuspended tierChanged
  cases htier : c.pendingTierEmit with
  | none => simp [htier]
  | some tier => grind

theorem selectTemporalCap_view (ready : Bool) (budget : Option Nat) :
    (c.selectTemporalCap cfg ready budget).pacerView = c.pacerView := by
  unfold selectTemporalCap Subscriber.bweSelectTemporalCap Subscriber.invalidateDdCacheOnCapEngage
  split
  · split <;> rfl
  · rfl

/-- Everything a turn does to the layer and the suspension of a client. -/
theorem updatePacerLayer_view :
    (c.updatePacerLayer cfg world n now available).1.pacerView =
      (layerAfter c.filter.desiredLayer available (c.pacerAnswer cfg world n now),
        suspendedAfter c.videoSuspended (c.pacerAnswer cfg world n now)) := by
  obtain ⟨_, htick⟩ := c.pacerTick_changes cfg now
  rw [updatePacerLayer, selectTemporalCap_view, emitTier_view, switchKeyframe_view,
    chooseLayer_view, htick]
  rfl

end Turn

end Client

/-! ## The layers after `update_pacer_layers` -/

namespace Client

theorem clampToAvailable_mem (target : Rid) {available : List Rid} (h : available ≠ []) :
    clampToAvailable target available ∈ available := by
  unfold clampToAvailable
  split
  · next candidate hfind =>
    have hcandidate := List.find?_some hfind
    simp only [Bool.and_eq_true, List.contains_iff_mem] at hcandidate
    exact hcandidate.2
  · obtain ⟨rid, rids, rfl⟩ := List.exists_cons_of_ne_nil h
    simp

/-- A turn with this answer ends on a layer of `sent`, or without video. Only a change of layer is
clamped: a restore goes to the low layer, and any other answer keeps the layer. -/
def EndsOn (sent : List Rid) (c : Client) : Option PacerAction → Prop
  | some (.changeLayer _) | some .suspendVideo | some .goAudioOnly => True
  | some .restoreVideo => layerLow ∈ sent
  | some .noChange | some .restoreAudio | none =>
    c.videoSuspended = false → c.filter.desiredLayer ∈ sent

theorem endsOn_iff {sent : List Rid} (hsent : sent ≠ []) (c : Client)
    (answer : Option PacerAction) :
    c.EndsOn sent answer ↔ (suspendedAfter c.videoSuspended answer = false →
      layerAfter c.filter.desiredLayer sent answer ∈ sent) := by
  unfold EndsOn suspendedAfter layerAfter
  have hclamp := fun target => clampToAvailable_mem target hsent
  grind

end Client

namespace Registry

theorem availableRids_eq {r : Registry} {origin : ClientId} {publisher : Client}
    (hpublisher : r.clients.find? (·.id == origin) = some publisher)
    (hsent : publisher.activeRids ≠ []) : r.availableRids origin = publisher.activeRids := by
  unfold availableRids
  rw [hpublisher, Option.map_some]
  cases hrids : publisher.activeRids with
  | nil => exact absurd hrids hsent
  | cons rid rids => rfl

/-- After the pass for a publisher's packet, every other client with video wants a layer that the
publisher sends, exactly if the answer it got ends on one. -/
theorem updatePacerLayers_desiredLayer_iff (cfg : Config) (world : World) (now : Nat)
    (r : Registry) {origin : ClientId} {publisher : Client}
    (hpublisher : r.clients.find? (·.id == origin) = some publisher)
    (hsent : publisher.activeRids ≠ []) :
    (∀ c ∈ (r.updatePacerLayers cfg world now origin).clients, c.id ≠ origin →
      c.videoSuspended = false → c.filter.desiredLayer ∈ publisher.activeRids) ↔
    ∀ c ∈ r.clients, c.id ≠ origin →
      c.EndsOn publisher.activeRids (c.pacerAnswer cfg world r.drained now) := by
  rw [updatePacerLayers, availableRids_eq hpublisher hsent]
  simp only [List.forall_mem_map]
  refine forall₂_congr fun c _ => ?_
  obtain ⟨hlayer, hsuspended⟩ := Prod.mk.inj
    (c.updatePacerLayer_view cfg world r.drained now publisher.activeRids)
  have hid := (Client.Follows.updatePacerLayer cfg world r.drained now publisher.activeRids c).id
  rw [Client.endsOn_iff hsent, ← hsuspended, ← hlayer, hid]

end Registry

def pacedConfig : Config where
  auth := ⟨[1], none, true, ⟨[], [], false⟩⟩
  relayAuth := ⟨none, none, true, ⟨[], [], false⟩⟩
  soloKickTimeout := none
  pacerFloorEnabled := false
  bweTemporalCapEnabled := false
  audioOnlyBps := 100000
  lowMinBps := 150000

/-- A world with one answer for every client, and none without an estimate. -/
def pacedWorld (estimate : Option Nat) (action : PacerAction) : World where
  jwt := ⟨fun _ => false, fun _ _ _ _ => .error .invalidSignature⟩
  negotiation _ := sampleEnv fun _ => false
  channelWrites _ _ _ := true
  mediaWrites _ _ _ := .written
  estimate _ _ := estimate
  pacerAction _ _ _ := action
  tracksMapSent _ := true

def seenSending (rids : List Rid) : Client :=
  { Client.newBrowser pacedConfig 0 1 with activeRids := rids }

/-- A publisher and a subscriber that has just joined. -/
def publisherAndNewcomer (rids : List Rid) : Registry :=
  { Registry.empty with clients := [seenSending rids, .newBrowser pacedConfig 1 2] }

theorem updatePacerLayers_desiredLayer_iff_newcomer :
    (publisherAndNewcomer ["f", "q"]).clients.find? (·.id == 0) = some (seenSending ["f", "q"]) ∧
      ∀ c ∈ ((publisherAndNewcomer ["f", "q"]).updatePacerLayers pacedConfig
        (pacedWorld none .noChange) 0 0).clients, c.id ≠ 0 → c.videoSuspended = false →
          c.filter.desiredLayer ∈ ["f", "q"] := by
  have hpublisher : (publisherAndNewcomer ["f", "q"]).clients.find? (·.id == 0) =
      some (seenSending ["f", "q"]) := rfl
  refine ⟨hpublisher, (Registry.updatePacerLayers_desiredLayer_iff pacedConfig
    (pacedWorld none .noChange) 0 (publisherAndNewcomer ["f", "q"]) hpublisher (by decide)).2 ?_⟩
  intro c hc _ _
  rcases List.mem_pair.1 hc with rfl | rfl <;> decide

/-- A publisher that sends the medium layer only. A newcomer without an estimate stays on the low
layer, and so does a client whose video is restored. -/
theorem newcomer_on_unsent_layer :
    (publisherAndNewcomer ["h"]).clients.find? (·.id == 0) = some (seenSending ["h"]) ∧
      ∀ answer ∈ [(none, .noChange), (some 500000, .restoreVideo)],
        ¬ ∀ c ∈ ((publisherAndNewcomer ["h"]).updatePacerLayers pacedConfig
          (pacedWorld answer.1 answer.2) 0 0).clients, c.id ≠ 0 → c.videoSuspended = false →
            c.filter.desiredLayer ∈ ["h"] :=
  ⟨rfl, by decide +kernel⟩

/-! ## Runs of one subscriber -/

/-- What a subscriber is put through between its admission and its removal. -/
inductive Turn where
  | pacer (n now : Nat) (available : List Rid)
  | packet (n : Nat) (origin : ClientId) (data : MediaData)
  | trackOpen (now : Nat) (trackIn : TrackIn)
  | wsCtrl (now : Nat) (messages : List Answer) (channelClosed : Bool)
  | rtc (now : Nat) (event : RtcEvent)
  | vfmLayerCap (max : UInt8)
  | departure (ids : List ClientId)
  | markRelaySource (upstreamUrl : Str)
  | disconnect

namespace Client

section Turn

variable (cfg : Config) (world : World) (c : Client)

def turn : Turn → Client × List Item
  | .pacer n now available => ((c.updatePacerLayer cfg world n now available).1, [])
  | .packet n origin data => c.handleMediaDataOut world n origin data
  | .trackOpen now trackIn => c.handleTrackOpen world now trackIn
  | .wsCtrl now messages channelClosed => (c.drainWsCtrl world now messages channelClosed, [])
  | .rtc now event => ((c.handleEvent world.jwt now cfg.relayAuth event).1, [])
  | .vfmLayerCap max => ({ c with filter := c.filter.setMaxVfmTemporalLayer max }, [])
  | .departure ids => (c.noteDeparted ids, [])
  | .markRelaySource upstreamUrl => ({ c with relayFrom := some upstreamUrl }, [])
  | .disconnect => (c.disconnect, [])

/-- The pacer's answer in a turn. -/
def turnAnswer : Turn → Option PacerAction
  | .pacer n now _ => c.pacerAnswer cfg world n now
  | _ => none

/-- The track of a packet is a video track. -/
def isVideo (origin : ClientId) (data : MediaData) : Bool :=
  (c.subscriber.findTrackOut origin data.mid).any (·.trackIn.kind == .video)

/-- A packet that the temporal cap and the layer filter let through, that has an open outbound track
and that str0m's writer takes. -/
structure Passes (n : Nat) (origin : ClientId) (data : MediaData) : Prop where
  temporal : (c.subscriber.temporalFilter origin data).2 = none
  layer : c.subscriber.layerMatches data = true
  track : ∃ mid, (c.subscriber.findTrackOut origin data.mid).bind (·.mid) = some mid ∧
    world.mediaWrites n c.id mid = .written

end Turn

theorem handleMediaDataOut_videoSuspended (world : World) (n : Nat) (c : Client)
    (origin : ClientId) (data : MediaData) :
    (c.handleMediaDataOut world n origin data).1.videoSuspended = c.videoSuspended := by
  obtain ⟨_, h | h⟩ := c.handleMediaDataOut_changes world n origin data <;> rw [h] <;> rfl

theorem handleEvent_videoSuspended (jwt : Jwt) (now : Nat) (auth : RelayAuth) (c : Client)
    (event : RtcEvent) :
    (c.handleEvent jwt now auth event).1.videoSuspended = c.videoSuspended := by
  cases event with
  | mediaAdded mid kind direction => cases direction <;> rfl
  | _ => rfl

theorem turn_videoSuspended (cfg : Config) (world : World) (c : Client) (t : Turn) :
    (c.turn cfg world t).1.videoSuspended =
      suspendedAfter c.videoSuspended (c.turnAnswer cfg world t) := by
  cases t with
  | pacer n now available =>
    exact (Prod.mk.inj (c.updatePacerLayer_view cfg world n now available)).2
  | packet n origin data => exact c.handleMediaDataOut_videoSuspended world n origin data
  | rtc now event => exact c.handleEvent_videoSuspended world.jwt now cfg.relayAuth event
  | _ => rfl

theorem passes_iff {world : World} {n : Nat} {c : Client} {origin : ClientId} {data : MediaData} :
    c.Passes world n origin data ↔
      ∃ mid, (c.subscriber.handleMediaDataOut origin data).2 = .write mid ∧
        world.mediaWrites n c.id mid = .written := by
  constructor
  · rintro ⟨htemporal, hlayer, mid, hmid, hwritten⟩
    exact ⟨mid, Subscriber.handleMediaDataOut_eq_write_iff.2 ⟨htemporal, hlayer, hmid⟩, hwritten⟩
  · rintro ⟨mid, hwrite, hwritten⟩
    obtain ⟨htemporal, hlayer, hmid⟩ := Subscriber.handleMediaDataOut_eq_write_iff.1 hwrite
    exact ⟨htemporal, hlayer, mid, hmid, hwritten⟩

/-- No filter asks whether video is suspended. -/
theorem handleMediaDataOut_eq_nil_iff (world : World) (n : Nat) (c : Client) (origin : ClientId)
    (data : MediaData) :
    (c.handleMediaDataOut world n origin data).2 = [] ↔ ¬ c.Passes world n origin data := by
  rw [passes_iff]
  unfold handleMediaDataOut
  simp only
  split
  · next mid hwrite =>
    split <;> simp_all
  · next hdecision => simp_all

end Client

/-- A subscriber, and whether the pacer's last word on its video was a suspension. -/
structure Watched where
  client : Client
  suspended : Bool

namespace Watched

def start (c : Client) : Watched := ⟨c, c.videoSuspended⟩

def step (cfg : Config) (world : World) (s : Watched) (t : Turn) : Watched × List Item :=
  let next := s.client.turn cfg world t
  (⟨next.1, suspendedAfter s.suspended (s.client.turnAnswer cfg world t)⟩, next.2)

/-- No video packet is written between a suspension and the next restore or change of layer. -/
def Quiet (world : World) (s : Watched) : Turn → Prop
  | .packet n origin data => s.suspended = true → s.client.isVideo origin data = true →
      (s.client.handleMediaDataOut world n origin data).2 = []
  | _ => True

instance (world : World) (s : Watched) : DecidablePred (Quiet world s)
  | .packet _ _ _ => inferInstanceAs (Decidable (_ → _ → _))
  | .pacer _ _ _ | .trackOpen _ _ | .wsCtrl _ _ _ | .rtc _ _ | .vfmLayerCap _ | .departure _
  | .markRelaySource _ | .disconnect => inferInstanceAs (Decidable True)

/-- A video packet for a client without video is stopped for a reason of its own. -/
def Stopped (world : World) (s : Watched) : Turn → Prop
  | .packet n origin data => s.client.videoSuspended = true →
      s.client.isVideo origin data = true → ¬ s.client.Passes world n origin data
  | _ => True

end Watched

def subscription (cfg : Config) (world : World) : Machine Watched Turn (List Item) :=
  ⟨Watched.step cfg world⟩

/-- A run of a subscriber writes no suspended video exactly if every video packet that finds video
suspended is stopped for another reason. -/
theorem subscription_quiet_iff (cfg : Config) (world : World) (c : Client) (turns : List Turn) :
    (subscription cfg world).Allowed (Watched.Quiet world) (.start c) turns ↔
      (subscription cfg world).Allowed (Watched.Stopped world) (.start c) turns := by
  have hstep : ∀ (s : Watched) (t : Turn), s.suspended = s.client.videoSuspended →
      ((subscription cfg world).step s t).1.suspended =
        ((subscription cfg world).step s t).1.client.videoSuspended := by
    intro s t hs
    exact (congrArg (suspendedAfter · _) hs).trans (s.client.turn_videoSuspended cfg world t).symm
  refine Machine.allowed_congr hstep ?_ rfl turns
  intro s t hs
  cases t with
  | packet n origin data =>
    simp only [Watched.Quiet, Watched.Stopped, hs, Client.handleMediaDataOut_eq_nil_iff]
  | _ => exact Iff.rfl

/-- A browser subscribes to a video track, its pacer suspends video, and a packet arrives. -/
def packetAfterSuspension (rid : Option Rid) : List Turn :=
  [.trackOpen 0 ⟨2, "v", .video, none⟩, .wsCtrl 0 [.accepted] false, .pacer 0 0 ["q"],
    .packet 0 2 ⟨"v", rid, none⟩]

/-- The packet is written, with a rid and without. -/
theorem suspended_video_written :
    ¬ (∃ rid ∈ [none, some "q"],
      (subscription pacedConfig (pacedWorld (some 90000) .suspendVideo)).Allowed
        (Watched.Quiet (pacedWorld (some 90000) .suspendVideo))
        (.start (.newBrowser pacedConfig 1 1)) (packetAfterSuspension rid)) := by
  decide +kernel

end PartnerEdge.Sfu
