import PartnerEdge.Sfu.Client

/-!
# The registry

The clients of the process and the queue of events between them, as `registry/` and `fanout.rs` have
them. A client knows its peer id and nothing of its room; neither does any function here. The fields
`calls`, `deliveries` and `steals` record which handlers fan-out calls, what is written to clients
and who replaced whom, and are never read.
-/

namespace PartnerEdge.Sfu

open Svc PartnerEdge.Client Text

structure Delivery where
  source : ClientId
  target : ClientId
  item : Item
deriving DecidableEq, Repr

structure Steal where
  newcomer : ClientId
  evicted : ClientId
deriving DecidableEq, Repr

/-- The handlers of a client that fan-out calls. -/
inductive Handler where
  | trackOpen
  | mediaDataOut
  | keyframeRequest
  | chatDataOut
  | chatCtrlOut
  | voiceDataOut
  | keysDataOut
  | sfuEventOut
  | activeSpeakerChanged
  | topSpeakers
deriving DecidableEq, Repr

/-- The handler for an event at a client that is not its originator. -/
def Propagated.handler (id : ClientId) : Propagated → Option Handler
  | .trackOpen _ _ => some .trackOpen
  | .mediaData _ _ => some .mediaDataOut
  | .keyframeRequest _ _ source _ => if source = id then some .keyframeRequest else none
  | .chatData _ _ => some .chatDataOut
  | .chatCtrl _ _ => some .chatCtrlOut
  | .voiceData _ _ => some .voiceDataOut
  | .keysData _ _ => some .keysDataOut
  | .peerSuspended _ _ => some .sfuEventOut
  | _ => none

/-- The call that the fan-out of an event makes to a client. -/
def Propagated.call (p : Propagated) (id : ClientId) : Option Handler :=
  match p with
  | .activeSpeakerChanged peerId => if id = peerId then none else some .activeSpeakerChanged
  | .topSpeakers _ => some .topSpeakers
  | .audioCodecHint _ => none
  | p => p.clientId.bind fun origin => if id = origin then none else p.handler id

theorem Propagated.ne_of_call {p : Propagated} {id origin : ClientId} {handler : Handler}
    (horigin : p.clientId = some origin) (h : p.call id = some handler) : id ≠ origin := by
  rintro rfl
  cases p <;> simp_all [call, clientId]

structure Registry where
  clients : List Client
  toPropagate : List Propagated
  soloSince : Option Nat
  /-- Clients that were removed: their tracks are gone. -/
  departed : List ClientId
  /-- The number of events drained from the queue so far. -/
  drained : Nat
  calls : List (ClientId × Handler)
  deliveries : List Delivery
  steals : List Steal

/-- `Vec::swap_remove`: the last element takes the place of the removed one. -/
def swapRemove {α : Type} (xs : List α) (i : Nat) : List α :=
  match xs.getLast? with
  | none => []
  | some last => (xs.set i last).dropLast

/-- The items one client sent, as deliveries to another. -/
def delivered (source : ClientId) (target : ClientId) (items : List Item) : List Delivery :=
  items.map fun item => ⟨source, target, item⟩

namespace Registry

def empty : Registry := ⟨[], [], none, [], 0, [], [], []⟩

variable (r : Registry)

/-! ## Membership -/

def removeDeparted (ids : List ClientId) : Registry :=
  { r with
    clients := r.clients.map (·.noteDeparted ids)
    departed := ids ++ r.departed }

def reapDead (now : Nat) : Registry :=
  let dead := (r.clients.filter (!·.alive)).map (·.id)
  let r := { r with clients := r.clients.filter (·.alive) }.removeDeparted dead
  { r with soloSince := match r.clients.length with
      | 0 => none
      | 1 => r.soloSince.or (some now)
      | _ => none }

def checkSoloTimeout (timeout now : Nat) : Registry :=
  match r.clients, r.soloSince with
  | [c], some since =>
    if now - since < timeout then r
    else { r with clients := [c.disconnect], soloSince := none }
  | _, _ => r

/-- Removes the client at an index because a newcomer has its peer id. -/
def evictForSteal (newcomer : ClientId) (idx : Nat) : Registry :=
  match r.clients[idx]? with
  | none => r
  | some old =>
    let r := { r with
      clients := swapRemove r.clients idx
      steals := r.steals ++ [Steal.mk newcomer old.id] }
    r.removeDeparted [old.id]

/-- The session steal: the older session with the newcomer's peer id goes. -/
def stealSession (client : Client) : Registry :=
  match client.externalPeerId with
  | none => r
  | some newPid =>
    match r.clients.findIdx? (·.externalPeerId == some newPid) with
    | none => r
    | some idx => r.evictForSteal client.id idx

/-- Announces one track to the newcomer; the second part collects what was announced. -/
def advertise (world : World) (now : Nat) (newcomer : Client × List Delivery) (trackIn : TrackIn) :
    Client × List Delivery :=
  let (client, items) := newcomer.1.handleTrackOpen world now trackIn
  (client, newcomer.2 ++ delivered trackIn.origin client.id items)

/-- Announces the tracks of every registered client to the newcomer. -/
def crossAdvertise (world : World) (now : Nat) (client : Client) : Client × List Delivery :=
  (r.clients.flatMap (·.tracksIn)).foldl (advertise world now) (client, [])

def insert (world : World) (now : Nat) (client : Client) : Registry :=
  let r := r.stealSession client
  let (client, announced) := r.crossAdvertise world now (client.noteDeparted r.departed)
  let clients := r.clients ++ [client]
  { r with
    clients
    deliveries := r.deliveries ++ announced
    soloSince := if clients.length = 1 then some now else none
    toPropagate := r.toPropagate ++ [.audioCodecHint client.id] }

/-! ## Fan-out -/

section Fanout

variable (cfg : Config) (world : World) (now : Nat)

/-- What one client does with an event of another. Speaker and suspension notices and keyframe
requests carry nothing of the originator's content and leave the client as it is. -/
def deliver (p : Propagated) (origin : ClientId) (client : Client) : Client × List Item :=
  match p with
  | .trackOpen _ trackIn => client.handleTrackOpen world now trackIn
  | .mediaData _ data => client.handleMediaDataOut world r.drained origin data
  | .chatData _ payload =>
    (client, client.writeFrame world r.drained .chatData chatFrameMaxBytes payload .chatData)
  | .chatCtrl _ payload =>
    (client, client.writeFrame world r.drained .chatCtrl chatFrameMaxBytes payload .chatCtrl)
  | .voiceData _ payload =>
    (client, client.writeFrame world r.drained .voice voiceFrameMaxBytes payload .voiceData)
  | .keysData _ payload =>
    (client, client.writeFrame world r.drained .keys sframeKeysFrameMaxBytes payload .keysData)
  | _ => (client, [])

/-- One client's part of the fan-out: its handler is called, or it is skipped. -/
def fanoutTurn (p : Propagated) (origin : ClientId) (client : Client) : Client × List Item :=
  match p.call client.id with
  | none => (client, [])
  | some _ => r.deliver world now p origin client

def fanout (p : Propagated) : Registry :=
  let calls := r.calls ++ r.clients.filterMap fun client =>
    (p.call client.id).map (client.id, ·)
  match p.clientId with
  | none => { r with calls }
  | some origin =>
    { r with
      calls
      clients := r.clients.map fun client => (r.fanoutTurn world now p origin client).1
      deliveries := r.deliveries ++ r.clients.flatMap fun client =>
        delivered origin client.id (r.fanoutTurn world now p origin client).2 }

def updateClient (id : ClientId) (f : Client → Client) : Registry :=
  { r with clients := r.clients.map fun c => if c.id = id then f c else c }

/-- The layers a publisher was seen sending, or the full ladder before the first packet. -/
def availableRids (origin : ClientId) : List Rid :=
  match (r.clients.find? (·.id == origin)).map (·.activeRids) with
  | some (rid :: rids) => rid :: rids
  | _ => [Client.layerLow, Client.layerMedium, Client.layerHigh]

def updatePacerLayers (origin : ClientId) : Registry :=
  let available := r.availableRids origin
  let turn := fun client : Client => client.updatePacerLayer cfg world r.drained now available
  { r with
    clients := r.clients.map fun client => (turn client).1
    toPropagate := r.toPropagate ++ r.clients.flatMap fun client => (turn client).2 }

/-- What the drain loop does with an event before it is fanned out. Estimates and hints go to the
estimator, which is part of the world. -/
def consult (p : Propagated) : Registry :=
  match p with
  | .vfmLayerCap client max =>
    r.updateClient client fun c => { c with filter := c.filter.setMaxVfmTemporalLayer max }
  | .markRelaySource client upstreamUrl =>
    r.updateClient client fun c => { c with relayFrom := some upstreamUrl }
  | .mediaData origin _ => r.updatePacerLayers cfg world now origin
  | _ => r

/-- Events that end in the registry and are not fanned out. -/
def isConsumed : Propagated → Bool
  | .bandwidthEstimate _ _ | .clientBudgetHint _ _ | .vfmLayerCap _ _ | .markRelaySource _ _
  | .publisherLayerHint _ _ | .upstreamKeyframeRequest _ _ _
  | .publisherLayerHintForUpstream _ _ => true
  | _ => false

/-- One round of the drain loop. -/
def handlePending (p : Propagated) : Registry :=
  let r := r.consult cfg world now p
  let r := if isConsumed p then r else r.fanout world now p
  { r with drained := r.drained + 1 }

def drainPass : Registry :=
  r.toPropagate.foldl (fun r p => r.handlePending cfg world now p) { r with toPropagate := [] }

/-- What is queued during the drain goes behind what was queued before, so the loop is a pass over
the queue and a pass over what that pass queued; nothing is queued in the second
(`fanoutPending_toPropagate`). -/
def fanoutPending : Registry := (r.drainPass cfg world now).drainPass cfg world now

end Fanout

/-! ## Polling -/

def pumpWsCtrl (world : World) (now : Nat) (answers : ClientId → List Answer × Bool)
    (keyframeRequests : ClientId → List (Option Rid × ClientId × Mid)) : Registry :=
  { r with
    clients := r.clients.map fun c => c.drainWsCtrl world now (answers c.id).1 (answers c.id).2
    toPropagate := r.toPropagate ++ r.clients.flatMap fun c =>
      (keyframeRequests c.id).map fun (rid, source, mid) => .keyframeRequest c.id rid source mid }

def pollAll (cfg : Config) (world : World) (now : Nat) (outputs : ClientId → List RtcEvent) :
    Registry :=
  let turn := fun c : Client => c.poll world.jwt now cfg.relayAuth (outputs c.id)
  { r with
    clients := r.clients.map fun c => (turn c).1
    toPropagate := r.toPropagate ++ r.clients.flatMap fun c => (turn c).2 }

/-- Clients whose str0m instance fails on an input. -/
def failInputs (failed : List ClientId) : Registry :=
  { r with clients := r.clients.map fun c => if c.id ∈ failed then c.disconnect else c }

/-- The speaker tick queues the new dominant speaker and the three loudest ones. -/
def tickSpeakers (dominant : Option ClientId) (top : List ClientId) : Registry :=
  { r with toPropagate := r.toPropagate ++ dominant.toList.map .activeSpeakerChanged ++
      if top.isEmpty then [] else [.topSpeakers top] }

end Registry

end PartnerEdge.Sfu
