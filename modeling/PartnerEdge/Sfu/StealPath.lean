import PartnerEdge.Sfu.PeerSeries
import PartnerEdge.Sfu.SwitchKeyframe

/-!
# A session steal and a reaped client

`evict_for_steal` repeats the clean-up of `reap_dead` by hand, in another order and with another way
to remove the client from the vector. Each of the two is written down here as the list of its
effects in the order of the source. The effects commute, and but for the close signal and the
counter of replaced sessions the two lists are rearrangements of each other. So a steal leaves what
a disconnect and a reap would leave, with the other clients in another order. The newcomer is told
of their tracks in that order, which decides what it is offered first.
-/

namespace PartnerEdge.Sfu

open Svc PartnerEdge.Client Text

/-- The counters of `start_renegotiation`. -/
inductive NegotiationTick where
  /-- `sfu_track_out_state_transitions_total` from `to_open` to `negotiating`. -/
  | negotiating
  | offerSent (kind : MediaKind)
  | offerDropped (kind : MediaKind)
  | mapUpdateDropped
deriving DecidableEq, Repr

/-- The registry with the pools that both paths clean up. `bandwidth` has the subscribers of the
estimator, `values` the labelled series that are there, and `negotiation` a tick for each count of
the newcomers' renegotiations. -/
structure Hub where
  registry : Registry
  detector : Finset ClientId
  bandwidth : Finset ClientId
  reactionsDcOpened : Finset ClientId
  metrics : Metrics
  sessionReplacedTotal : Nat
  values : Series → Option Nat
  negotiation : List NegotiationTick
  closeSignals : Finset ClientId

/-! ## The effects of a removal -/

inductive Effect where
  | closeSignal (id : ClientId)
  | removePeer (id : ClientId)
  | reapBandwidth (id : ClientId)
  | removeLabelValues (x : Series)
  | decActiveChannels (channel : Channel)
  | incClientDisconnect
  | decActiveParticipants
  | incSessionReplaced
deriving DecidableEq, Repr

def Hub.perform (s : Hub) : Effect → Hub
  | .closeSignal id => { s with closeSignals := Insert.insert id s.closeSignals }
  | .removePeer id => { s with detector := s.detector.erase id }
  | .reapBandwidth id => { s with bandwidth := s.bandwidth.erase id }
  | .removeLabelValues x => { s with values := Function.update s.values x none }
  | .decActiveChannels channel =>
    { s with metrics := { s.metrics with
        activeChannels := fun ch =>
          s.metrics.activeChannels ch - if ch = channel then 1 else 0 } }
  | .incClientDisconnect =>
    { s with metrics := { s.metrics with
        clientDisconnectTotal := s.metrics.clientDisconnectTotal + 1 } }
  | .decActiveParticipants =>
    { s with metrics := { s.metrics with
        activeParticipants := s.metrics.activeParticipants - 1 } }
  | .incSessionReplaced => { s with sessionReplacedTotal := s.sessionReplacedTotal + 1 }

def effectIf (condition : Bool) (e : Effect) : List Effect := if condition then [e] else []

/-- `remove_label_values` for a peer. -/
def Effect.removeLabel (vector : MetricVec) (id : ClientId) (labels : List String) : Effect :=
  .removeLabelValues ⟨vector, [id], labels⟩

/-- `evict_for_steal`. -/
def evictEffects (opened : Finset ClientId) (old : Client) : List Effect :=
  List.flatten [
    [.closeSignal old.id, .removePeer old.id, .reapBandwidth old.id],
    [.removeLabel .bandwidthEstimateBps old.id [],
      .removeLabel .clientDeliveredMediaCount old.id [],
      .removeLabel .pacerTickThrottledTotal old.id []],
    pacerRidLabels.flatMap fun rid =>
      .removeLabel .pacerLayerTotal old.id [rid] ::
        pacerRidLabels.map fun next => .removeLabel .layerTransitionsTotal old.id [rid, next],
    ["data", "ctrl"].flatMap fun dc =>
      [.removeLabel .chatRelayTxBytesTotal old.id [dc],
        .removeLabel .chatRelayRxBytesTotal old.id [dc]],
    [.removeLabel .voiceRelayTxBytesTotal old.id [], .removeLabel .voiceRelayRxBytesTotal old.id [],
      .removeLabel .sfuBweHintReceivedTotal old.id [],
      .removeLabel .sfuBweHintThrottledTotal old.id []],
    effectIf (old.channels.contains .voice) (.decActiveChannels .voice),
    effectIf (old.channels.contains .chatData) (.decActiveChannels .chatData),
    effectIf (old.channels.contains .chatCtrl) (.decActiveChannels .chatCtrl),
    effectIf (old.id ∈ opened) (.decActiveChannels .reactions),
    [.incClientDisconnect, .decActiveParticipants, .incSessionReplaced]]

/-- What `reap_dead` does for a dead client. -/
def reapEffects (opened : Finset ClientId) (c : Client) : List Effect :=
  List.flatten [
    [.removePeer c.id, .reapBandwidth c.id, .incClientDisconnect, .decActiveParticipants],
    [.removeLabel .bandwidthEstimateBps c.id [], .removeLabel .clientDeliveredMediaCount c.id [],
      .removeLabel .pacerTickThrottledTotal c.id []],
    pacerRidLabels.flatMap fun rid =>
      .removeLabel .pacerLayerTotal c.id [rid] ::
        pacerRidLabels.map fun next => .removeLabel .layerTransitionsTotal c.id [rid, next],
    ["data", "ctrl"].flatMap fun dc =>
      [.removeLabel .chatRelayTxBytesTotal c.id [dc],
        .removeLabel .chatRelayRxBytesTotal c.id [dc]],
    [.removeLabel .voiceRelayTxBytesTotal c.id [], .removeLabel .voiceRelayRxBytesTotal c.id [],
      .removeLabel .sfuBweHintReceivedTotal c.id [],
      .removeLabel .sfuBweHintThrottledTotal c.id []],
    effectIf (c.channels.contains .voice) (.decActiveChannels .voice),
    effectIf (c.channels.contains .chatData) (.decActiveChannels .chatData),
    effectIf (c.channels.contains .chatCtrl) (.decActiveChannels .chatCtrl),
    effectIf (c.id ∈ opened) (.decActiveChannels .reactions)]

/-! ## The operations -/

/-- What one announced track counts. -/
def negotiationTicks (env : Env) (c : Negotiator) (t : TrackIn) : List NegotiationTick :=
  if !c.wsMsgTx || c.pendingOffer.isSome || !t.upgrades c.departed ||
      !env.applies c.attempts then []
  else [.negotiating, .offerSent t.kind] ++
    if env.offerDropped c.attempts then [.offerDropped t.kind]
    else if t.externalPeerId.isSome && env.mapUpdateDropped c.attempts then [.mapUpdateDropped]
    else []

/-- The newcomer after the announcements, and what they counted. -/
def announceAll (world : World) (now : Nat) (client : Client) (ts : List TrackIn) :
    Client × List NegotiationTick :=
  ts.foldl (fun s t => ((s.1.handleTrackOpen world now t).1,
    s.2 ++ negotiationTicks (world.negotiation s.1.id) s.1.negotiator t)) (client, [])

namespace Hub

variable (world : World) (s : Hub) (now : Nat)

/-- `active_rooms` is 0 when nobody is left. -/
def closeRoom : Hub :=
  if s.registry.clients.isEmpty then { s with metrics := { s.metrics with activeRooms := 0 } }
  else s

def evictForSteal (newcomer : ClientId) (idx : Nat) : Hub :=
  match s.registry.clients[idx]? with
  | none => s
  | some old =>
    ((evictEffects s.reactionsDcOpened old).foldl perform
      { s with registry := s.registry.evictForSteal newcomer idx }).closeRoom

def stealSession (client : Client) : Hub :=
  match client.externalPeerId with
  | none => s
  | some newPid =>
    match s.registry.clients.findIdx? (·.externalPeerId == some newPid) with
    | none => s
    | some idx => s.evictForSteal client.id idx

def reapDead : Hub :=
  (((s.registry.clients.filter (!·.alive)).flatMap (reapEffects s.reactionsDcOpened)).foldl perform
    { s with registry := s.registry.reapDead now }).closeRoom

/-- str0m's `disconnect` on the client at an index. -/
def disconnect (idx : Nat) : Hub :=
  { s with registry := { s.registry with
      clients := s.registry.clients.modify idx Client.disconnect } }

def incLabelValues (values : Series → Option Nat) (x : Series) : Series → Option Nat :=
  Function.update values x (some ((values x).getD 0 + 1))

def insert (client : Client) : Hub :=
  let stolen := s.stealSession client
  let tracks := stolen.registry.clients.flatMap (·.tracksIn)
  { stolen with
    registry := s.registry.insert world now client
    detector := Insert.insert client.id stolen.detector
    bandwidth := Insert.insert client.id stolen.bandwidth
    metrics := stolen.metrics.joined
    values := (subscriptionSeries stolen.registry client.id).foldl incLabelValues stolen.values
    negotiation := stolen.negotiation ++
      (announceAll world now (client.noteDeparted stolen.registry.departed) tracks).2 }

end Hub

/-! ## Effects commute -/

theorem update_none_comm (values : Series → Option Nat) (x y : Series) :
    Function.update (Function.update values x none) y none =
      Function.update (Function.update values y none) x none := by
  by_cases h : x = y
  · rw [h]
  · exact Function.update_comm h _ _ _

theorem Hub.perform_comm (s : Hub) (e e' : Effect) :
    (s.perform e).perform e' = (s.perform e').perform e := by
  cases e with
  | closeSignal id =>
    cases e' with
    | closeSignal id' =>
      exact congrArg (fun ids => { s with closeSignals := ids }) (Finset.insert_comm id' id _)
    | _ => rfl
  | removePeer id =>
    cases e' with
    | removePeer id' =>
      exact congrArg (fun ids => { s with detector := ids }) Finset.erase_right_comm
    | _ => rfl
  | reapBandwidth id =>
    cases e' with
    | reapBandwidth id' =>
      exact congrArg (fun ids => { s with bandwidth := ids }) Finset.erase_right_comm
    | _ => rfl
  | removeLabelValues x =>
    cases e' with
    | removeLabelValues y =>
      exact congrArg (fun values => { s with values }) (update_none_comm s.values x y)
    | _ => rfl
  | decActiveChannels channel =>
    cases e' with
    | decActiveChannels channel' =>
      exact congrArg (fun activeChannels => { s with metrics := { s.metrics with activeChannels } })
        (funext fun ch => sub_right_comm _ _ _)
    | _ => rfl
  | _ => cases e' <;> rfl

/-- The order of effects makes no difference. -/
theorem Hub.foldl_perform_perm {es es' : List Effect} (h : es.Perm es') (s : Hub) :
    es.foldl perform s = es'.foldl perform s :=
  h.foldl_eq' (fun e _ e' _ s => s.perform_comm e e') s

/-- The effects of a steal are those of a reap and two of its own. -/
theorem evictEffects_perm (opened : Finset ClientId) (c : Client) :
    (evictEffects opened c).Perm
      (reapEffects opened c ++ [.closeSignal c.id, .incSessionReplaced]) := by
  refine List.perm_iff_count.mpr fun e => ?_
  simp only [evictEffects, reapEffects, List.flatten_cons, List.flatten_nil, List.count_append,
    List.count_cons, List.count_nil]
  omega

/-- No effect looks at the registry. -/
theorem Hub.foldl_perform_registry (es : List Effect) (s : Hub) (registry : Registry) :
    es.foldl perform { s with registry } = { es.foldl perform s with registry } := by
  induction es generalizing s with
  | nil => rfl
  | cons e es ih =>
    have hfirst : perform { s with registry } e = { s.perform e with registry } := by
      cases e <;> rfl
    rw [List.foldl_cons, hfirst, ih]
    rfl

theorem incLabelValues_comm (values : Series → Option Nat) (x y : Series) :
    Hub.incLabelValues (Hub.incLabelValues values x) y =
      Hub.incLabelValues (Hub.incLabelValues values y) x := by
  by_cases h : x = y
  · rw [h]
  · simp only [Hub.incLabelValues, Function.update_of_ne h, Function.update_of_ne (Ne.symm h)]
    exact Function.update_comm h _ _ _

/-- The newcomer is the one of `crossAdvertise`. -/
theorem announceAll_fst (world : World) (now : Nat) (client : Client) (ts : List TrackIn) :
    (announceAll world now client ts).1 =
      (ts.foldl (Registry.advertise world now) (client, [])).1 := by
  have hfold : ∀ (ts : List TrackIn) (c : Client) (ticks : List NegotiationTick)
      (out : List Delivery), (ts.foldl (fun s t => ((s.1.handleTrackOpen world now t).1,
        s.2 ++ negotiationTicks (world.negotiation s.1.id) s.1.negotiator t)) (c, ticks)).1 =
      (ts.foldl (Registry.advertise world now) (c, out)).1 := by
    intro ts
    induction ts with
    | nil => exact fun _ _ _ => rfl
    | cons t ts ih => exact fun c ticks out => ih _ _ _
  exact hfold ts client [] []

/-! ## One session for each peer id -/

namespace Registry

variable {r r' : Registry}

theorem peerIds_of_map {f : Client → Client} (hclients : r'.clients = r.clients.map f)
    (hf : ∀ c, (f c).externalPeerId = c.externalPeerId) : r'.peerIds = r.peerIds := by
  rw [peerIds, hclients, List.filterMap_map]
  exact List.filterMap_congr fun c _ => hf c

theorem nodup_peerIds_of_map {f : Client → Client} (h : r.peerIds.Nodup)
    (hclients : r'.clients = r.clients.map f)
    (hf : ∀ c, (f c).externalPeerId = c.externalPeerId) : r'.peerIds.Nodup :=
  peerIds_of_map hclients hf ▸ h

theorem peerIds_reapDead (h : r.peerIds.Nodup) (now : Nat) : (r.reapDead now).peerIds.Nodup := by
  rw [peerIds_eq_members] at h ⊢
  rw [members_reapDead]
  exact h.sublist (List.filter_sublist.filterMap _)

theorem peerIds_checkSoloTimeout (timeout now : Nat) :
    (r.checkSoloTimeout timeout now).peerIds = r.peerIds := by
  rw [peerIds_eq_members, peerIds_eq_members]
  obtain heq | heq := r.members_checkSoloTimeout timeout now
  · rw [heq]
  · rw [heq, List.filterMap_map]
    rfl

theorem SamePublishers.peerIds (h : r.SamePublishers r') : r'.peerIds = r.peerIds := by
  obtain ⟨f, hclients, hf⟩ := h
  exact peerIds_of_map hclients fun c => (hf c).externalPeerId

end Registry

theorem Loop.peerIds_step {s : Loop} (h : s.registry.peerIds.Nodup) (cfg : Config) (world : World)
    (i : LoopInput) : (s.step cfg world i).registry.peerIds.Nodup := by
  unfold Loop.step
  cases i.call with
  | insertBrowser peerId => exact Registry.peerIds_insert h _ _ _
  | insertOutboundRelay upstreamUrl => exact Registry.peerIds_insert h _ _ _
  | reapDead => exact Registry.peerIds_reapDead h _
  | checkSoloTimeout timeout => exact (Registry.peerIds_checkSoloTimeout timeout _).symm ▸ h
  | pumpWsCtrl answers keyframeRequests =>
    exact (Registry.samePublishers_pumpWsCtrl ..).peerIds.symm ▸ h
  | poll client event contiguous =>
    exact Registry.nodup_peerIds_of_map h rfl fun c =>
      (Client.Follows.poll _ _ _ _ c).externalPeerId
  | failInputs failed =>
    exact (Registry.samePublishers_failInputs _ _).peerIds.symm ▸ h
  | tickSpeakers dominant top => exact h
  | fanoutPending =>
    exact Registry.samePublishers_fanoutPending.peerIds.symm ▸ h

/-- In every run no two registered clients have the same peer id. -/
theorem loop_peerIds (cfg : Config) (world : World) (inputs : List LoopInput) :
    ((loop cfg world).run .init inputs).registry.peerIds.Nodup :=
  Machine.run_of_step (M := loop cfg world) (I := fun s => s.registry.peerIds.Nodup)
    (fun _ i h => Loop.peerIds_step h cfg world i) (s := .init) .nil inputs

/-! ## The two ways to replace a client -/

/-- What two hubs have in common after a newcomer has joined: all but the order of the other
clients, the order in which their tracks were announced to the newcomer, the times, the counter of
replaced sessions and the close signals. -/
structure Alike (world : World) (newcomer : Client) (ticks : List NegotiationTick) (s t : Hub) :
    Prop where
  clients : ∃ cs cs' ts ts' now now', cs.Perm cs' ∧ ts.Perm ts' ∧
    s.registry.clients = cs ++ [(announceAll world now newcomer ts).1] ∧
    s.negotiation = ticks ++ (announceAll world now newcomer ts).2 ∧
    t.registry.clients = cs' ++ [(announceAll world now' newcomer ts').1] ∧
    t.negotiation = ticks ++ (announceAll world now' newcomer ts').2
  toPropagate : s.registry.toPropagate = t.registry.toPropagate
  solo : s.registry.soloSince.isSome = t.registry.soloSince.isSome
  detector : s.detector = t.detector
  bandwidth : s.bandwidth = t.bandwidth
  reactionsDcOpened : s.reactionsDcOpened = t.reactionsDcOpened
  metrics : s.metrics = t.metrics
  values : s.values = t.values

section Paths

variable {front back : List Client} {old : Client}

/-- The client between the two parts is swapped out. -/
theorem swapRemove_perm_append (front back : List Client) (old : Client) :
    (swapRemove (front ++ old :: back) front.length).Perm (front ++ back) := by
  have hget : (front ++ old :: back)[front.length]? = some old := by simp
  exact ((swapRemove_perm hget).symm.trans List.perm_middle).cons_inv

theorem modify_disconnect (front back : List Client) (old : Client) :
    (front ++ old :: back).modify front.length Client.disconnect =
      front ++ old.disconnect :: back := by
  induction front with
  | nil => rfl
  | cons c front ih => simpa using ih

theorem filter_alive_disconnect (halive : ∀ c ∈ front ++ back, c.alive = true) :
    (front ++ old.disconnect :: back).filter (·.alive) = front ++ back := by
  rw [List.filter_append, List.filter_cons_of_neg (by simp [Client.disconnect]),
    ← List.filter_append, List.filter_eq_self.mpr halive]

theorem filter_dead_disconnect (halive : ∀ c ∈ front ++ back, c.alive = true) :
    (front ++ old.disconnect :: back).filter (!·.alive) = [old.disconnect] := by
  have hnone : (front ++ back).filter (!·.alive) = [] :=
    List.filter_eq_nil_iff.mpr fun c hc => by simp [halive c hc]
  obtain ⟨hfront, hback⟩ := List.append_eq_nil_iff.mp (List.filter_append .. ▸ hnone)
  rw [List.filter_append, List.filter_cons_of_pos (by simp [Client.disconnect]), hfront, hback,
    List.nil_append]

end Paths

namespace Hub

variable {s : Hub} {front back : List Client} {old client : Client}

theorem foldl_perform_frame (es : List Effect) (s : Hub) :
    (es.foldl perform s).reactionsDcOpened = s.reactionsDcOpened ∧
      (es.foldl perform s).negotiation = s.negotiation := by
  induction es generalizing s with
  | nil => exact ⟨rfl, rfl⟩
  | cons e es ih =>
    have hfirst : (s.perform e).reactionsDcOpened = s.reactionsDcOpened ∧
        (s.perform e).negotiation = s.negotiation := by
      cases e <;> exact ⟨rfl, rfl⟩
    exact ⟨(ih _).1.trans hfirst.1, (ih _).2.trans hfirst.2⟩

/-- Without the client: the pools after the effects that both paths have. -/
def without (s : Hub) (c : Client) (registry : Registry) : Hub :=
  { (reapEffects s.reactionsDcOpened c).foldl perform s with registry }

theorem evictForSteal_eq (newcomer : ClientId) {idx : Nat}
    (hold : s.registry.clients[idx]? = some old) : s.evictForSteal newcomer idx =
      (((s.without old (s.registry.evictForSteal newcomer idx)).perform
        (.closeSignal old.id)).perform .incSessionReplaced).closeRoom := by
  rw [evictForSteal, hold]
  dsimp only
  rw [foldl_perform_perm (evictEffects_perm s.reactionsDcOpened old), List.foldl_append,
    foldl_perform_registry (reapEffects s.reactionsDcOpened old) s]
  rfl

theorem reapDead_disconnect_eq (hclients : s.registry.clients = front ++ old :: back)
    (halive : ∀ c ∈ front ++ back, c.alive = true) (now : Nat) :
    (s.disconnect front.length).reapDead now =
      (s.without old ((s.disconnect front.length).registry.reapDead now)).closeRoom := by
  have hdead : (s.disconnect front.length).registry.clients.filter (!·.alive) =
      [old.disconnect] := by
    simp only [disconnect, hclients, modify_disconnect]
    exact filter_dead_disconnect halive
  rw [reapDead, hdead]
  have heffects : [old.disconnect].flatMap
      (reapEffects (s.disconnect front.length).reactionsDcOpened) =
        reapEffects s.reactionsDcOpened old := by
    rw [List.flatMap_singleton]
    rfl
  rw [heffects]
  exact congrArg closeRoom (foldl_perform_registry _ s _)

/-- The gauge of rooms is set again by the next insert. -/
theorem closeRoom_joined (s : Hub) : s.closeRoom.metrics.joined = s.metrics.joined := by
  unfold closeRoom
  split <;> rfl

theorem closeRoom_frame (s : Hub) :
    s.closeRoom = { s with metrics := s.closeRoom.metrics } := by
  unfold closeRoom
  split <;> rfl

theorem stealSession_registry (s : Hub) (client : Client) :
    (s.stealSession client).registry = s.registry.stealSession client := by
  unfold stealSession Registry.stealSession
  cases client.externalPeerId with
  | none => rfl
  | some pid =>
    dsimp only
    cases s.registry.clients.findIdx? (·.externalPeerId == some pid) with
    | none => rfl
    | some idx =>
      cases hold : s.registry.clients[idx]? with
      | none => simp [evictForSteal, Registry.evictForSteal, hold]
      | some old =>
        dsimp only
        rw [evictForSteal_eq client.id hold, closeRoom_frame]
        rfl

/-- A newcomer joins a hub from which its older session is gone. -/
structure Admits (world : World) (now : Nat) (client : Client) (s t : Hub) : Prop where
  clients : t.registry.clients = s.registry.clients ++
    [(announceAll world now (client.noteDeparted s.registry.departed)
      (s.registry.clients.flatMap (·.tracksIn))).1]
  negotiation : t.negotiation = s.negotiation ++
    (announceAll world now (client.noteDeparted s.registry.departed)
      (s.registry.clients.flatMap (·.tracksIn))).2
  toPropagate : t.registry.toPropagate = s.registry.toPropagate ++ [.audioCodecHint client.id]
  solo : t.registry.soloSince.isSome = s.registry.clients.isEmpty
  detector : t.detector = Insert.insert client.id s.detector
  bandwidth : t.bandwidth = Insert.insert client.id s.bandwidth
  reactionsDcOpened : t.reactionsDcOpened = s.reactionsDcOpened
  metrics : t.metrics = s.metrics.joined
  values : t.values = (subscriptionSeries s.registry client.id).foldl incLabelValues s.values

theorem insert_admits (world : World) (now : Nat) (s : Hub) (client : Client) :
    (s.stealSession client).Admits world now client (s.insert world now client) := by
  have hregistry := s.stealSession_registry client
  refine ⟨?_, rfl, ?_, ?_, rfl, rfl, rfl, rfl, rfl⟩
  · rw [hregistry, announceAll_fst]
    rfl
  · rw [hregistry]
    have hid := (Registry.follows_crossAdvertise (s.registry.stealSession client) world now
      client).id
    simp only [insert, Registry.insert, hid]
  · rw [hregistry]
    simp only [insert, Registry.insert, List.length_append, List.length_singleton]
    cases (s.registry.stealSession client).clients <;> simp

/-- Two hubs that differ in the order of their clients before the newcomer joins. -/
theorem Admits.alike {world : World} {now now' : Nat} {s t s' t' : Hub}
    (h : s.Admits world now client s') (h' : t.Admits world now' client t')
    (hclients : s.registry.clients.Perm t.registry.clients)
    (hdeparted : s.registry.departed = t.registry.departed)
    (hqueue : s.registry.toPropagate = t.registry.toPropagate)
    (hdetector : s.detector = t.detector) (hbandwidth : s.bandwidth = t.bandwidth)
    (hopened : s.reactionsDcOpened = t.reactionsDcOpened)
    (hmetrics : s.metrics.joined = t.metrics.joined) (hvalues : s.values = t.values)
    (hticks : s.negotiation = t.negotiation) :
    Alike world (client.noteDeparted s.registry.departed) s.negotiation s' t' where
  clients := ⟨_, _, _, _, _, _, hclients, hclients.flatMap_right _, h.clients, h.negotiation,
    hdeparted ▸ h'.clients, hticks ▸ hdeparted ▸ h'.negotiation⟩
  toPropagate := by rw [h.toPropagate, h'.toPropagate, hqueue]
  solo := by rw [h.solo, h'.solo, hclients.isEmpty_eq]
  detector := by rw [h.detector, h'.detector, hdetector]
  bandwidth := by rw [h.bandwidth, h'.bandwidth, hbandwidth]
  reactionsDcOpened := by rw [h.reactionsDcOpened, h'.reactionsDcOpened, hopened]
  metrics := by rw [h.metrics, h'.metrics, hmetrics]
  values := by
    rw [h.values, h'.values, hvalues]
    exact (hclients.flatMap_right _).foldl_eq'
      (fun x _ y _ values => incLabelValues_comm values x y) t.values

end Hub

theorem exists_split_of_getElem? {α : Type} {xs : List α} {i : Nat} {x : α} (h : xs[i]? = some x) :
    ∃ front back, xs = front ++ x :: back ∧ front.length = i := by
  obtain ⟨hi, rfl⟩ := List.getElem?_eq_some_iff.mp h
  refine ⟨xs.take i, xs.drop (i + 1), ?_, List.length_take_of_le hi.le⟩
  rw [← List.drop_eq_getElem_cons hi, List.take_append_drop]

theorem forall_mem_of_getElem?_ne {α : Type} {P : α → Prop} {front back : List α} {x : α}
    (h : ∀ i y, (front ++ x :: back)[i]? = some y → i ≠ front.length → P y) :
    ∀ y ∈ front ++ back, P y := by
  intro y hy
  rcases List.mem_append.mp hy with hy | hy
  · obtain ⟨i, hi, rfl⟩ := List.mem_iff_getElem.mp hy
    exact h i _ (by rw [List.getElem?_append_left hi, List.getElem?_eq_getElem hi]) hi.ne
  · obtain ⟨i, hi, rfl⟩ := List.mem_iff_getElem.mp hy
    refine h (front.length + (i + 1)) _ ?_ (by omega)
    rw [List.getElem?_append_right (by omega), Nat.add_sub_cancel_left, List.getElem?_cons_succ,
      List.getElem?_eq_getElem hi]

/-- Nobody else has the peer id of a client. -/
theorem Registry.externalPeerId_ne {r : Registry} (hnodup : r.peerIds.Nodup)
    {front back : List Client} {old : Client} (hclients : r.clients = front ++ old :: back)
    (hsome : old.externalPeerId.isSome = true) :
    ∀ c ∈ front ++ back, c.externalPeerId ≠ old.externalPeerId := by
  obtain ⟨pid, hold⟩ := Option.isSome_iff_exists.mp hsome
  rw [peerIds, hclients, List.filterMap_append, List.filterMap_cons_some hold] at hnodup
  have hfree := (List.nodup_cons.mp (List.perm_middle.nodup_iff.mp hnodup)).1
  intro c hc heq
  refine hfree ?_
  rw [← List.filterMap_append]
  exact List.mem_filterMap.mpr ⟨c, hc, heq.trans hold⟩

/-- The session that goes is the only one with the newcomer's peer id. -/
theorem Hub.stealSession_eq_evict {s : Hub} {front back : List Client} {old client : Client}
    (hclients : s.registry.clients = front ++ old :: back)
    (hsome : client.externalPeerId.isSome = true)
    (hpid : old.externalPeerId = client.externalPeerId)
    (hothers : ∀ c ∈ front ++ back, c.externalPeerId ≠ client.externalPeerId) :
    s.stealSession client = s.evictForSteal client.id front.length := by
  obtain ⟨pid, hclient⟩ := Option.isSome_iff_exists.mp hsome
  have hfront : front.findIdx? (·.externalPeerId == some pid) = none := by
    refine List.findIdx?_eq_none_iff.mpr fun c hc => ?_
    simpa [hclient] using hothers c (List.mem_append_left _ hc)
  have hfind : (front ++ old :: back).findIdx? (·.externalPeerId == some pid) =
      some front.length := by
    rw [List.findIdx?_append, hfront, List.findIdx?_cons]
    simp [hpid, hclient]
  simp only [stealSession, hclient, hclients, hfind]

theorem Hub.stealSession_of_free {s : Hub} {client : Client}
    (h : ∀ c ∈ s.registry.clients, c.externalPeerId ≠ client.externalPeerId) :
    s.stealSession client = s := by
  unfold stealSession
  cases hclient : client.externalPeerId with
  | none => rfl
  | some pid =>
    have hnone : s.registry.clients.findIdx? (·.externalPeerId == some pid) = none :=
      List.findIdx?_eq_none_iff.mpr fun c hc => by simpa [hclient] using h c hc
    simp only [hnone]

theorem Registry.evictForSteal_parts {r : Registry} (newcomer : ClientId) {idx : Nat} {old : Client}
    (hold : r.clients[idx]? = some old) :
    (r.evictForSteal newcomer idx).clients =
        (swapRemove r.clients idx).map (·.noteDeparted [old.id]) ∧
      (r.evictForSteal newcomer idx).departed = old.id :: r.departed ∧
      (r.evictForSteal newcomer idx).toPropagate = r.toPropagate := by
  simp [evictForSteal, hold, removeDeparted]

theorem Registry.reapDead_parts {r : Registry} {front back : List Client} {old : Client}
    (hclients : r.clients = front ++ old :: back)
    (halive : ∀ c ∈ front ++ back, c.alive = true) (now : Nat) :
    let reaped := { r with clients := r.clients.modify front.length Client.disconnect }.reapDead now
    reaped.clients = (front ++ back).map (·.noteDeparted [old.id]) ∧
      reaped.departed = old.id :: r.departed ∧ reaped.toPropagate = r.toPropagate := by
  simp only [reapDead, removeDeparted, hclients, modify_disconnect,
    filter_alive_disconnect halive, filter_dead_disconnect halive]
  exact ⟨rfl, rfl, trivial⟩

/-- For every registry that a run of the loop can have, and whatever is in the pools: replacing the
client at an index by a newcomer with its peer id leaves what a disconnect, a reap that finds no
other dead client, and the insert leave. -/
theorem steal_alike_reap (cfg : Config) (world : World) (inputs : List LoopInput) (s : Hub)
    (hs : s.registry = ((loop cfg world).run .init inputs).registry) (client old : Client)
    (idx : Nat) (hold : s.registry.clients[idx]? = some old)
    (hsome : client.externalPeerId.isSome = true)
    (hpid : old.externalPeerId = client.externalPeerId)
    (halive : ∀ i c, s.registry.clients[i]? = some c → i ≠ idx → c.alive = true)
    (now reapedAt insertedAt : Nat) :
    Alike world (client.noteDeparted (old.id :: s.registry.departed)) s.negotiation
      (s.insert world now client)
      (((s.disconnect idx).reapDead reapedAt).insert world insertedAt client) := by
  obtain ⟨front, back, hclients, rfl⟩ := exists_split_of_getElem? hold
  rw [hclients] at halive
  have halive := forall_mem_of_getElem?_ne halive
  have hothers : ∀ c ∈ front ++ back, c.externalPeerId ≠ client.externalPeerId :=
    hpid ▸ Registry.externalPeerId_ne (hs ▸ loop_peerIds cfg world inputs) hclients (hpid ▸ hsome)
  have hsteal := Hub.stealSession_eq_evict hclients hsome hpid hothers
  rw [Hub.evictForSteal_eq client.id hold, Hub.closeRoom_frame] at hsteal
  have hreap := Hub.reapDead_disconnect_eq hclients halive reapedAt
  rw [Hub.closeRoom_frame] at hreap
  have hevicted := Registry.evictForSteal_parts client.id hold
  have hreaped := Registry.reapDead_parts (r := s.registry) hclients halive reapedAt
  -- Nobody is left with the newcomer's peer id, so that its insert replaces nobody.
  have hfree : ((s.disconnect front.length).reapDead reapedAt).stealSession client =
      (s.disconnect front.length).reapDead reapedAt := by
    refine Hub.stealSession_of_free fun c hc => ?_
    rw [hreap] at hc
    obtain ⟨c', hc', rfl⟩ := List.mem_map.mp (hreaped.1 ▸ hc)
    exact hothers c' hc'
  have hjoin := Hub.insert_admits world now s client
  have hjoin' := Hub.insert_admits world insertedAt
    ((s.disconnect front.length).reapDead reapedAt) client
  generalize s.insert world now client = stolen at hjoin ⊢
  generalize Hub.insert world _ insertedAt client = reaped at hjoin' ⊢
  rw [hsteal] at hjoin
  rw [hfree, hreap] at hjoin'
  obtain ⟨-, hticks⟩ := Hub.foldl_perform_frame (reapEffects s.reactionsDcOpened old) s
  simp only [Hub.without] at hjoin hjoin'
  generalize (reapEffects s.reactionsDcOpened old).foldl Hub.perform s = base at *
  rw [← hticks, ← hevicted.2.1]
  refine hjoin.alike hjoin' ?_ (hevicted.2.1.trans hreaped.2.1.symm)
    (hevicted.2.2.trans hreaped.2.2.symm) rfl rfl rfl ?_ rfl rfl
  · have hperm := swapRemove_perm_append front back old
    rw [← hclients] at hperm
    exact (hevicted.1 ▸ hperm.map _).trans (hreaped.1 ▸ .refl _)
  · dsimp only
    rw [Hub.closeRoom_joined, Hub.closeRoom_joined]
    rfl

/-- Three browsers: one without tracks, one with audio and one with video. -/
def threeBrowsers : List LoopInput :=
  [withWriters 0 (.insertBrowser 7), withWriters 0 (.insertBrowser 8),
    withWriters 0 (.insertBrowser 9),
    withWriters 0 (.poll 1 (.mediaAdded "a" .audio .sendRecv) true),
    withWriters 0 (.poll 2 (.mediaAdded "v" .video .sendRecv) true)]

def threeBrowsersHub : Hub where
  registry := ((loop pacedConfig (pacedWorld none .noChange)).run .init threeBrowsers).registry
  detector := {0, 1, 2}
  bandwidth := {0, 1, 2}
  reactionsDcOpened := ∅
  metrics := .zero
  sessionReplacedTotal := 0
  values := fun _ => none
  negotiation := []
  closeSignals := ∅

/-- The first browser comes back. -/
def returning : Client := .newBrowser pacedConfig 3 7

theorem steal_alike_reap_returning :
    (∃ old, threeBrowsersHub.registry.clients[0]? = some old ∧
      old.externalPeerId = returning.externalPeerId) ∧
    (threeBrowsersHub.insert (pacedWorld none .noChange) 5 returning).detector =
      (((threeBrowsersHub.disconnect 0).reapDead 6).insert (pacedWorld none .noChange) 7
        returning).detector := by
  obtain ⟨old, hold⟩ : ∃ old, threeBrowsersHub.registry.clients[0]? = some old :=
    ⟨_, List.getElem?_eq_getElem (by decide +kernel)⟩
  have hpid : threeBrowsersHub.registry.clients[0]?.map (·.externalPeerId) =
      some returning.externalPeerId := by decide +kernel
  have hlive : ∀ c ∈ threeBrowsersHub.registry.clients, c.alive = true := by decide +kernel
  rw [hold] at hpid
  refine ⟨⟨old, hold, Option.some.inj hpid⟩, ?_⟩
  exact (steal_alike_reap pacedConfig (pacedWorld none .noChange) threeBrowsers threeBrowsersHub rfl
    returning old 0 hold rfl (Option.some.inj hpid)
    (fun i c hc _ => hlive c (List.mem_of_getElem? hc)) 5 6 7).detector

/-- The newcomer is offered video first after a steal and audio first after a reap, and the offers
are counted under the kind. -/
theorem steal_offers_other_kind :
    let world := pacedWorld none .noChange
    let stolen := threeBrowsersHub.insert world 5 returning
    let reaped := ((threeBrowsersHub.disconnect 0).reapDead 6).insert world 7 returning
    threeBrowsersHub.registry =
        ((loop pacedConfig world).run .init threeBrowsers).registry ∧
      threeBrowsersHub.registry.clients.map (·.externalPeerId) = [some 7, some 8, some 9] ∧
      (∀ c ∈ threeBrowsersHub.registry.clients, c.alive = true) ∧
      stolen.negotiation.count (.offerSent .video) = 1 ∧
      reaped.negotiation.count (.offerSent .video) = 0 :=
  ⟨rfl, by decide +kernel, by decide +kernel, by decide +kernel, by decide +kernel⟩

end PartnerEdge.Sfu
