import PartnerEdge.Sfu.Ledger
import PartnerEdge.Sfu.Pacer

/-!
# Metric series of peers

Many metric vectors of the process have a label for the peer that a value is about. A series comes
into being with its first write. `reap_dead` and `evict_for_steal` scrub the series of the clients
that they remove, from the same list of vectors, under the internal id of the client.

The vectors of that list keep to the registered clients. Speaker scores are left to age out, as are
the other vectors outside the list. The bandwidth hints are on the list, but they are counted by the
WebSocket session, which knows the client by the subject of its token.
-/

namespace PartnerEdge.Sfu

open Svc PartnerEdge.Client Text

/-- The vectors with a peer label. -/
inductive MetricVec where
  | bandwidthEstimateBps
  | clientDeliveredMediaCount
  | pacerTickThrottledTotal
  | pacerLayerTotal
  | layerTransitionsTotal
  | chatRelayTxBytesTotal
  | chatRelayRxBytesTotal
  | voiceRelayTxBytesTotal
  | voiceRelayRxBytesTotal
  | sfuBweHintReceivedTotal
  | sfuBweHintThrottledTotal
  | speakerImmediate
  | speakerMedium
  | speakerLong
  | sfuStr0mOutputTotal
  | peerRttSeconds
  | peerLossFraction
  | peerBandwidthEstimateBps
  | mediaEgressJitterTicks
  | mediaEgressNacksReceivedTotal
  | mediaEgressFirsReceivedTotal
  | mediaEgressPlisReceivedTotal
  | mediaIngressJitterTicks
  | sfuForwardDecisionsTotal
  | sfuSubscriptionSetupTotal
deriving DecidableEq, Repr

/-- A series: a vector and its label values. A peer label is an id in decimal, here the id
itself. -/
structure Series where
  vector : MetricVec
  peers : List Nat
  labels : List String
deriving DecidableEq, Repr

/-! ## What is scrubbed -/

def pacerRidLabels : List String := ["q", "h", "f", "other"]

/-- The series that the removal of a client scrubs. -/
def scrubPeer (id : ClientId) : List Series :=
  [⟨.bandwidthEstimateBps, [id], []⟩, ⟨.clientDeliveredMediaCount, [id], []⟩,
    ⟨.pacerTickThrottledTotal, [id], []⟩] ++
  pacerRidLabels.flatMap (fun rid =>
    ⟨.pacerLayerTotal, [id], [rid]⟩ ::
      pacerRidLabels.map fun next => ⟨.layerTransitionsTotal, [id], [rid, next]⟩) ++
  ["data", "ctrl"].flatMap (fun dc =>
    [⟨.chatRelayTxBytesTotal, [id], [dc]⟩, ⟨.chatRelayRxBytesTotal, [id], [dc]⟩]) ++
  [⟨.voiceRelayTxBytesTotal, [id], []⟩, ⟨.voiceRelayRxBytesTotal, [id], []⟩,
    ⟨.sfuBweHintReceivedTotal, [id], []⟩, ⟨.sfuBweHintThrottledTotal, [id], []⟩]

/-! ## What is written -/

inductive OutputKind where
  | transmit
  | timeout
  | eventIce
  | eventMediaAdded
  | eventMediaData
  | eventKeyframeReq
  | eventBwe
  | eventChannel
  | eventChannelOpen
  | eventConnected
  | eventPeerStats
  | eventMediaEgressStats
  | eventMediaIngressStats
  | eventOther
  | error
deriving DecidableEq, Repr

def OutputKind.label : OutputKind → String
  | .transmit => "transmit"
  | .timeout => "timeout"
  | .eventIce => "event_ice"
  | .eventMediaAdded => "event_media_added"
  | .eventMediaData => "event_media_data"
  | .eventKeyframeReq => "event_keyframe_req"
  | .eventBwe => "event_bwe"
  | .eventChannel => "event_channel"
  | .eventChannelOpen => "event_channel_open"
  | .eventConnected => "event_connected"
  | .eventPeerStats => "event_peer_stats"
  | .eventMediaEgressStats => "event_media_egress_stats"
  | .eventMediaIngressStats => "event_media_ingress_stats"
  | .eventOther => "event_other"
  | .error => "error"

inductive ChatDc where
  | data
  | ctrl
deriving DecidableEq, Repr

def ChatDc.label : ChatDc → String
  | .data => "data"
  | .ctrl => "ctrl"

inductive ForwardAction where
  | forwarded
  | skippedNoTrack
  | writeErr
deriving DecidableEq, Repr

def ForwardAction.label : ForwardAction → String
  | .forwarded => "forwarded"
  | .skippedNoTrack => "skipped_no_track"
  | .writeErr => "write_err"

/-- The kind of the outbound track, if there is one. -/
def kindLabel : Option MediaKind → String
  | some .audio => "audio"
  | some .video => "video"
  | none => "other"

def ridLabelFor (rid : Rid) : String :=
  if rid = Client.layerLow then "q"
  else if rid = Client.layerMedium then "h"
  else if rid = Client.layerHigh then "f"
  else "other"

/-- What the process reports about one registered client. Of a measured value only matters whether
it is there. -/
inductive Report where
  /-- An output of str0m. -/
  | handleOutput (kind : OutputKind)
  | peerStats (rtt egressLoss ingressLoss bweTx : Bool)
  | mediaEgressStats (mid : Mid) (remote : Bool) (nacks firs plis : Nat)
  | mediaIngressStats (mid : Mid)
  /-- The client's part of `update_pacer_layers`. -/
  | pacer (throttled budget : Bool) (prevLayer : Rid) (chosen : Option Rid)
  /-- A packet of another client. -/
  | forward (origin : ClientId) (kind : Option MediaKind) (action : ForwardAction)
  | chatFrame (dc : ChatDc)
  | voiceOut
  | voiceIn
  /-- A `bwe-hint` frame on the client's WebSocket. -/
  | bweHint (throttled : Bool)
deriving DecidableEq, Repr

/-- One series, or none. -/
def seriesIf (written : Bool) (series : Series) : List Series := if written then [series] else []

def pacerSeries (id : ClientId) (throttled budget : Bool) (prevLayer : Rid) (chosen : Option Rid) :
    List Series :=
  seriesIf throttled ⟨.pacerTickThrottledTotal, [id], []⟩ ++
  seriesIf budget ⟨.bandwidthEstimateBps, [id], []⟩ ++
  [⟨.clientDeliveredMediaCount, [id], []⟩] ++
  match chosen with
  | some rid =>
    ⟨.pacerLayerTotal, [id], [ridLabelFor rid]⟩ ::
      seriesIf (rid ≠ prevLayer)
        ⟨.layerTransitionsTotal, [id], [ridLabelFor prevLayer, ridLabelFor rid]⟩
  | none => []

def Report.series (m : Member) : Report → List Series
  | .handleOutput kind => [⟨.sfuStr0mOutputTotal, [m.id], [kind.label]⟩]
  | .peerStats rtt egressLoss ingressLoss bweTx =>
    seriesIf rtt ⟨.peerRttSeconds, [m.id], []⟩ ++
    seriesIf egressLoss ⟨.peerLossFraction, [m.id], ["egress"]⟩ ++
    seriesIf ingressLoss ⟨.peerLossFraction, [m.id], ["ingress"]⟩ ++
    seriesIf bweTx ⟨.peerBandwidthEstimateBps, [m.id], []⟩
  | .mediaEgressStats mid remote nacks firs plis =>
    seriesIf remote ⟨.mediaEgressJitterTicks, [m.id], [mid]⟩ ++
    seriesIf (nacks > 0) ⟨.mediaEgressNacksReceivedTotal, [m.id], [mid]⟩ ++
    seriesIf (firs > 0) ⟨.mediaEgressFirsReceivedTotal, [m.id], [mid]⟩ ++
    seriesIf (plis > 0) ⟨.mediaEgressPlisReceivedTotal, [m.id], [mid]⟩
  | .mediaIngressStats mid => [⟨.mediaIngressJitterTicks, [m.id], [mid]⟩]
  | .pacer throttled budget prevLayer chosen => pacerSeries m.id throttled budget prevLayer chosen
  | .forward origin kind action =>
    [⟨.sfuForwardDecisionsTotal, [origin, m.id], [kindLabel kind, action.label]⟩]
  | .chatFrame dc => [⟨.chatRelayTxBytesTotal, [m.id], [dc.label]⟩]
  | .voiceOut => [⟨.voiceRelayTxBytesTotal, [m.id], []⟩]
  | .voiceIn => [⟨.voiceRelayRxBytesTotal, [m.id], []⟩]
  | .bweHint throttled =>
    let vector := if throttled then .sfuBweHintThrottledTotal else .sfuBweHintReceivedTotal
    m.externalPeerId.toList.map fun sub => ⟨vector, [sub], []⟩

def speakerSeries (id : ClientId) : List Series :=
  [⟨.speakerImmediate, [id], []⟩, ⟨.speakerMedium, [id], []⟩, ⟨.speakerLong, [id], []⟩]

/-- One for every track that is announced to the newcomer. -/
def subscriptionSeries (r : Registry) (newcomer : ClientId) : List Series :=
  r.clients.flatMap fun c => c.tracksIn.map fun _ =>
    ⟨.sfuSubscriptionSetupTotal, [c.id, newcomer], ["wired"]⟩

/-! ## Runs -/

/-- The value of a client's peer label: hints are counted under the subject of the token. -/
def Member.label (m : Member) : MetricVec → Option Nat
  | .sfuBweHintReceivedTotal | .sfuBweHintThrottledTotal => m.externalPeerId
  | _ => some m.id

def Member.isLabelOf (m : Member) (x : Series) : Bool :=
  x.peers.any fun peer => m.label x.vector == some peer

/-- The books of the registry and the series that are there. `lost` records the series that a
removal took although they carry the label of a client that stays; it is never read. -/
structure Exporter where
  ledger : Ledger
  series : Finset Series
  lost : Finset Series

inductive ExportStep where
  | operation (t : Timed)
  | trackInAdded (id : ClientId) (mid : Mid) (kind : MediaKind)
  /-- An event of a registered client is processed. -/
  | report (id : ClientId) (r : Report)
  | tickSpeakerScores

/-- The registered clients that a report is about, besides the one that makes it. -/
def Report.about : Report → List ClientId
  | .forward origin _ _ => [origin]
  | _ => []

namespace Exporter

def init : Exporter := ⟨.init, ∅, ∅⟩

variable (world : World) (s : Exporter)

def members : List Member := s.ledger.registry.members

/-- The clients that an operation removes. -/
def removes : Operation → List Member
  | .reapDead => s.members.filter (!·.alive)
  | .insert client => (s.ledger.registry.replaced client).toList
  | _ => []

def scrub (gone : List Member) : Exporter :=
  let scrubbed := (gone.flatMap fun m => scrubPeer m.id).toFinset
  let left := s.members.filter (· ∉ gone)
  { s with
    series := s.series \ scrubbed
    lost := s.lost ∪ (s.series ∩ scrubbed).filter fun x => left.any (·.isLabelOf x) }

def write (written : List Series) : Exporter := { s with series := s.series ∪ written.toFinset }

/-- A newcomer first replaces an older session and then is told of the tracks that are left. -/
def writes : Operation → List Series
  | .insert client =>
    subscriptionSeries (s.ledger.registry.stealSession client) s.ledger.nextClientId
  | _ => []

def operation (t : Timed) : Exporter :=
  { (s.scrub (s.removes t.operation)).write (s.writes t.operation) with
    ledger := s.ledger.step world t }

def trackInAdded (id : ClientId) (mid : Mid) (kind : MediaKind) : Exporter :=
  { s with ledger := { s.ledger with
      registry := s.ledger.registry.updateClient id fun c => (c.trackInAdded mid kind).1 } }

def isRegistered (id : ClientId) : Bool := s.members.any (·.id == id)

def report (id : ClientId) (r : Report) : Exporter :=
  match s.members.find? (·.id == id) with
  | some m => if r.about.all s.isRegistered then s.write (r.series m) else s
  | none => s

def tickSpeakerScores : Exporter :=
  { s with series := s.series ∪ s.ledger.detector.biUnion fun id => (speakerSeries id).toFinset }

def step : ExportStep → Exporter
  | .operation t => s.operation world t
  | .trackInAdded id mid kind => s.trackInAdded id mid kind
  | .report id r => s.report id r
  | .tickSpeakerScores => s.tickSpeakerScores

end Exporter

def exporter (world : World) : Machine Exporter ExportStep Unit :=
  ⟨fun s e => (s.step world e, ())⟩

/-- The vectors that the removal paths scrub under the label they are written with. -/
def MetricVec.isScrubbed : MetricVec → Bool
  | .bandwidthEstimateBps | .clientDeliveredMediaCount | .pacerTickThrottledTotal
  | .pacerLayerTotal | .layerTransitionsTotal | .chatRelayTxBytesTotal | .chatRelayRxBytesTotal
  | .voiceRelayTxBytesTotal | .voiceRelayRxBytesTotal => true
  | _ => false

def MetricVec.isSpeaker : MetricVec → Bool
  | .speakerImmediate | .speakerMedium | .speakerLong => true
  | _ => false

def MetricVec.isBweHint : MetricVec → Bool
  | .sfuBweHintReceivedTotal | .sfuBweHintThrottledTotal => true
  | _ => false

theorem ridLabelFor_mem (rid : Rid) : ridLabelFor rid ∈ pacerRidLabels := by
  unfold ridLabelFor
  split_ifs <;> decide

theorem peers_of_mem_scrubPeer {id : ClientId} {x : Series} (h : x ∈ scrubPeer id) :
    x.peers = [id] := by
  simp only [scrubPeer, pacerRidLabels, List.mem_append, List.mem_flatMap, List.mem_cons,
    List.mem_map] at h
  grind

theorem isSpeaker_of_mem_scrubPeer {id : ClientId} {x : Series} (h : x ∈ scrubPeer id) :
    x.vector.isSpeaker = false := by
  simp only [scrubPeer, pacerRidLabels, List.mem_append, List.mem_flatMap, List.mem_cons,
    List.mem_map] at h
  grind [MetricVec.isSpeaker]

theorem mem_seriesIf {written : Bool} {x y : Series} (h : x ∈ seriesIf written y) : x = y := by
  unfold seriesIf at h
  split at h
  · exact List.mem_singleton.1 h
  · cases h

theorem pacerLayerTotal_mem_scrubPeer (id : ClientId) (rid : Rid) :
    ⟨.pacerLayerTotal, [id], [ridLabelFor rid]⟩ ∈ scrubPeer id := by
  have hrid := ridLabelFor_mem rid
  simp only [scrubPeer, List.mem_append, List.mem_flatMap]
  exact .inl (.inl (.inr ⟨_, hrid, List.mem_cons_self⟩))

theorem layerTransitionsTotal_mem_scrubPeer (id : ClientId) (prev next : Rid) :
    ⟨.layerTransitionsTotal, [id], [ridLabelFor prev, ridLabelFor next]⟩ ∈ scrubPeer id := by
  have hprev := ridLabelFor_mem prev
  have hnext := ridLabelFor_mem next
  simp only [scrubPeer, List.mem_append, List.mem_flatMap]
  exact .inl (.inl (.inr ⟨_, hprev, List.mem_cons_of_mem _ (List.mem_map.2 ⟨_, hnext, rfl⟩)⟩))

theorem pacerSeries_subset_scrubPeer {id : ClientId} {throttled budget : Bool} {prevLayer : Rid}
    {chosen : Option Rid} {x : Series} (h : x ∈ pacerSeries id throttled budget prevLayer chosen) :
    x ∈ scrubPeer id := by
  simp only [pacerSeries, List.mem_append, List.mem_singleton] at h
  rcases h with ((h | h) | rfl) | h
  · rw [mem_seriesIf h]
    simp [scrubPeer]
  · rw [mem_seriesIf h]
    simp [scrubPeer]
  · simp [scrubPeer]
  · cases chosen with
    | none => cases h
    | some rid =>
      rcases List.mem_cons.1 h with rfl | h
      · exact pacerLayerTotal_mem_scrubPeer id rid
      · rw [mem_seriesIf h]
        exact layerTransitionsTotal_mem_scrubPeer id prevLayer rid

/-- The reports that write a scrubbed vector write what the removal of the client scrubs. -/
theorem Report.mem_scrubPeer {r : Report} {m : Member} {x : Series} (h : x ∈ r.series m)
    (hx : x.vector.isScrubbed = true) : x ∈ scrubPeer m.id := by
  cases r with
  | pacer throttled budget prevLayer chosen => exact pacerSeries_subset_scrubPeer h
  | chatFrame dc =>
    obtain rfl := List.mem_singleton.1 h
    cases dc <;> simp [scrubPeer, ChatDc.label]
  | voiceOut =>
    obtain rfl := List.mem_singleton.1 h
    simp [scrubPeer]
  | voiceIn =>
    obtain rfl := List.mem_singleton.1 h
    simp [scrubPeer]
  | bweHint throttled =>
    obtain ⟨sub, -, rfl⟩ := List.mem_map.1 h
    cases throttled <;> cases hx
  | handleOutput kind =>
    obtain rfl := List.mem_singleton.1 h
    cases hx
  | mediaIngressStats mid =>
    obtain rfl := List.mem_singleton.1 h
    cases hx
  | forward origin kind action =>
    obtain rfl := List.mem_singleton.1 h
    cases hx
  | peerStats rtt egressLoss ingressLoss bweTx =>
    simp only [Report.series, List.mem_append] at h
    rcases h with ((h | h) | h) | h <;> rw [mem_seriesIf h] at hx <;> cases hx
  | mediaEgressStats mid remote nacks firs plis =>
    simp only [Report.series, List.mem_append] at h
    rcases h with ((h | h) | h) | h <;> rw [mem_seriesIf h] at hx <;> cases hx

namespace Exporter

variable {world : World} {s : Exporter}

/-- The scrubbed vectors keep to the registered clients, and only hint counters were taken from a
client that stays. -/
structure Scrubbed (s : Exporter) : Prop where
  balanced : s.ledger.Balanced
  owned : ∀ x ∈ s.series, x.vector.isScrubbed = true → ∃ m ∈ s.members, x ∈ scrubPeer m.id
  kept : ∀ x ∈ s.lost, x.vector.isBweHint = true

theorem Scrubbed.init : init.Scrubbed :=
  ⟨Ledger.balanced_init, by simp [Exporter.init], by simp [Exporter.init]⟩

theorem Scrubbed.write (h : s.Scrubbed) {written : List Series}
    (hwritten : ∀ x ∈ written, x.vector.isScrubbed = true → ∃ m ∈ s.members, x ∈ scrubPeer m.id) :
    (s.write written).Scrubbed where
  balanced := h.balanced
  owned x hx := by
    rcases Finset.mem_union.1 hx with hx | hx
    · exact h.owned x hx
    · exact hwritten x (List.mem_toFinset.1 hx)
  kept := h.kept

theorem mem_scrub_series {gone : List Member} {x : Series} :
    x ∈ (s.scrub gone).series ↔ x ∈ s.series ∧ ∀ m ∈ gone, x ∉ scrubPeer m.id := by
  simp [scrub]

theorem mem_scrub_lost {gone : List Member} {x : Series} (hx : x ∈ (s.scrub gone).lost) :
    x ∈ s.lost ∨ x ∈ s.series ∧ (∃ m ∈ gone, x ∈ scrubPeer m.id) ∧
      ∃ m ∈ s.members, m ∉ gone ∧ m.isLabelOf x = true := by
  simp only [scrub, Finset.mem_union, Finset.mem_filter, Finset.mem_inter, List.mem_toFinset,
    List.mem_flatMap, List.any_eq_true, List.mem_filter, decide_eq_true_eq] at hx
  grind

/-- Outside the hint counters a client's label is its id. -/
theorem id_mem_of_isLabelOf {m : Member} {x : Series} (h : m.isLabelOf x = true)
    (hx : x.vector.isBweHint = false) : m.id ∈ x.peers := by
  obtain ⟨peer, hpeer, heq⟩ := List.any_eq_true.1 h
  have hlabel : m.label x.vector = some m.id := by
    cases hv : x.vector <;> simp [hv, MetricVec.isBweHint, Member.label] at hx ⊢
  rw [hlabel] at heq
  obtain rfl : m.id = peer := by simpa using heq
  exact hpeer

theorem eq_of_id_eq_id (h : s.ledger.Balanced) {m m' : Member} (hm : m ∈ s.members)
    (hm' : m' ∈ s.members) (hid : m.id = m'.id) : m = m' :=
  List.inj_on_of_nodup_map h.ids hm hm' hid

/-- What a removal takes from a client that stays are hint counters: ids are unique. -/
theorem Scrubbed.kept_scrub (h : s.Scrubbed) {gone : List Member}
    (hgone : ∀ m ∈ gone, m ∈ s.members) :
    ∀ x ∈ (s.scrub gone).lost, x.vector.isBweHint = true := by
  intro x hx
  rcases mem_scrub_lost hx with hx | ⟨-, ⟨m, hm, hscrubbed⟩, m', hm', hleft, hlabel⟩
  · exact h.kept x hx
  · by_contra hvector
    have hid := id_mem_of_isLabelOf hlabel (by simpa using hvector)
    rw [peers_of_mem_scrubPeer hscrubbed, List.mem_singleton] at hid
    rw [eq_of_id_eq_id h.balanced hm' (hgone m hm) hid] at hleft
    exact hleft hm

theorem mem_members_of_mem_removes {operation : Operation} {m : Member}
    (hm : m ∈ s.removes operation) : m ∈ s.members := by
  cases operation with
  | reapDead => exact List.mem_of_mem_filter hm
  | insert client =>
    rw [removes, Option.mem_toList] at hm
    obtain ⟨hnone, -⟩ | ⟨old, hold, -, -, hperm⟩ := s.ledger.registry.members_stealSession client
    · simp [hnone] at hm
    · obtain rfl : old = m := by simpa [hold] using hm
      exact hperm.mem_iff.2 List.mem_cons_self
  | channelOpen | disconnect | checkSoloTimeout | markRelaySource => cases hm

/-- Operations that remove no one change no id. -/
theorem id_mem_map {registry : Registry} {f : Member → Member} {m : Member} (hm : m ∈ s.members)
    (hmembers : registry.members = s.members.map f) (hf : ∀ m, (f m).id = m.id) :
    m.id ∈ registry.members.map (·.id) := by
  rw [hmembers, List.map_map]
  exact List.mem_map.2 ⟨m, hm, hf m⟩

/-- Who is not removed stays registered. -/
theorem id_mem_apply (world : World) (now : Nat) {operation : Operation} {m : Member}
    (hm : m ∈ s.members) (hstays : m ∉ s.removes operation) :
    m.id ∈ (s.ledger.apply world now operation).registry.members.map (·.id) := by
  cases operation with
  | insert client =>
    rw [Ledger.apply, Ledger.insert_members, Ledger.stealSession_members, List.map_append]
    refine List.mem_append_left _ (List.mem_map_of_mem ?_)
    obtain ⟨-, heq, -⟩ | ⟨old, hold, -, -, hperm⟩ :=
      s.ledger.registry.members_stealSession { client with id := s.ledger.nextClientId }
    · rw [heq]
      exact hm
    · rcases List.mem_cons.1 (hperm.mem_iff.1 hm) with rfl | hm
      · exact absurd (Option.mem_toList.2 hold) hstays
      · exact hm
  | channelOpen id channel =>
    have hregistry : (s.ledger.channelOpen id channel).registry = s.ledger.registry := by
      unfold Ledger.channelOpen
      grind
    rw [Ledger.apply, hregistry]
    exact List.mem_map_of_mem hm
  | disconnect id =>
    refine id_mem_map hm (s.ledger.registry.members_failInputs [id]) fun m => ?_
    split <;> rfl
  | reapDead =>
    refine List.mem_map_of_mem ?_
    rw [Ledger.apply, Ledger.reapDead, Ledger.remove, Registry.members_reapDead]
    refine List.mem_filter.2 ⟨hm, ?_⟩
    by_contra hdead
    exact hstays (List.mem_filter.2 ⟨hm, by simpa using hdead⟩)
  | checkSoloTimeout timeout =>
    obtain heq | heq := s.ledger.registry.members_checkSoloTimeout timeout now
    · exact id_mem_map hm (heq.trans (List.map_id _).symm) fun _ => rfl
    · exact id_mem_map hm heq fun _ => rfl
  | markRelaySource id upstreamUrl =>
    rw [Ledger.apply, Ledger.markRelaySource]
    split
    · refine id_mem_map hm (s.ledger.registry.members_markRelaySource id upstreamUrl) fun m => ?_
      split <;> rfl
    · exact List.mem_map_of_mem hm

theorem isScrubbed_of_mem_writes {operation : Operation} {x : Series}
    (hx : x ∈ s.writes operation) : x.vector.isScrubbed = false := by
  cases operation with
  | insert client =>
    obtain ⟨c, -, hx⟩ := List.mem_flatMap.1 hx
    obtain ⟨t, -, rfl⟩ := List.mem_map.1 hx
    rfl
  | channelOpen | disconnect | reapDead | checkSoloTimeout | markRelaySource => cases hx

/-- A series that is not scrubbed keeps its owner. -/
theorem Scrubbed.operation (h : s.Scrubbed) (world : World) (t : Timed) :
    (s.operation world t).Scrubbed where
  balanced := h.balanced.step world t
  owned x hx hvector := by
    have hseries : x ∈ (s.scrub (s.removes t.operation)).series := by
      rcases Finset.mem_union.1 hx with hx | hx
      · exact hx
      · rw [isScrubbed_of_mem_writes (List.mem_toFinset.1 hx)] at hvector
        cases hvector
    obtain ⟨hx, hscrubbed⟩ := mem_scrub_series.1 hseries
    obtain ⟨m, hm, hmem⟩ := h.owned x hx hvector
    have hid := id_mem_apply world (s.ledger.clock + t.after) hm
      fun hgone => hscrubbed m hgone hmem
    obtain ⟨m', hm', hid⟩ := List.mem_map.1 hid
    exact ⟨m', hm', hid ▸ hmem⟩
  kept := h.kept_scrub fun m hm => mem_members_of_mem_removes hm

theorem Scrubbed.trackInAdded (h : s.Scrubbed) (id : ClientId) (mid : Mid) (kind : MediaKind) :
    (s.trackInAdded id mid kind).Scrubbed := by
  have hmembers : (s.trackInAdded id mid kind).members = s.members := by
    simp only [members, Exporter.trackInAdded, Registry.members, Registry.updateClient,
      List.map_map]
    refine List.map_congr_left fun c _ => ?_
    simp only [Function.comp_apply]
    split <;> rfl
  refine ⟨?_, fun x hx hvector => hmembers ▸ h.owned x hx hvector, h.kept⟩
  exact h.balanced.map (hmembers.trans (List.map_id _).symm) fun _ => ⟨rfl, rfl, rfl⟩

theorem Scrubbed.report (h : s.Scrubbed) (id : ClientId) (r : Report) :
    (s.report id r).Scrubbed := by
  unfold Exporter.report
  split
  next m hm =>
    split
    · exact h.write fun x hx hvector =>
        ⟨m, List.mem_of_find?_eq_some hm, Report.mem_scrubPeer hx hvector⟩
    · exact h
  next => exact h

theorem vector_of_mem_speakerSeries {id : ClientId} {x : Series} (hx : x ∈ speakerSeries id) :
    x.vector.isScrubbed = false := by
  simp only [speakerSeries, List.mem_cons, List.not_mem_nil, or_false] at hx
  rcases hx with rfl | rfl | rfl <;> rfl

theorem Scrubbed.tickSpeakerScores (h : s.Scrubbed) : s.tickSpeakerScores.Scrubbed where
  balanced := h.balanced
  owned x hx hvector := by
    rcases Finset.mem_union.1 hx with hx | hx
    · exact h.owned x hx hvector
    · obtain ⟨id, -, hx⟩ := Finset.mem_biUnion.1 hx
      rw [vector_of_mem_speakerSeries (List.mem_toFinset.1 hx)] at hvector
      cases hvector
  kept := h.kept

theorem Scrubbed.step (h : s.Scrubbed) (world : World) (e : ExportStep) :
    (s.step world e).Scrubbed := by
  cases e with
  | operation t => exact h.operation world t
  | trackInAdded id mid kind => exact h.trackInAdded id mid kind
  | report id r => exact h.report id r
  | tickSpeakerScores => exact h.tickSpeakerScores

/-- No step takes a speaker score away. -/
theorem mem_series_step {x : Series} (hx : x.vector.isSpeaker = true) (h : x ∈ s.series)
    (e : ExportStep) : x ∈ (s.step world e).series := by
  cases e with
  | operation t =>
    refine Finset.mem_union_left _ (mem_scrub_series.2 ⟨h, fun m _ hscrubbed => ?_⟩)
    rw [isSpeaker_of_mem_scrubPeer hscrubbed] at hx
    cases hx
  | trackInAdded id mid kind => exact h
  | report id r =>
    simp only [Exporter.step, Exporter.report]
    split
    · split
      · exact Finset.mem_union_left _ h
      · exact h
    · exact h
  | tickSpeakerScores => exact Finset.mem_union_left _ h

/-- After every run the series of the scrubbed vectors carry labels of registered clients only, and
no removal took a series other than a hint counter from a client that stays. Speaker scores, which
are left to age out, are never removed. -/
theorem scrubbed_run (world : World) (steps : List ExportStep) :
    (∀ x ∈ ((exporter world).run .init steps).series, x.vector.isScrubbed = true →
      ∀ peer ∈ x.peers, ∃ c ∈ ((exporter world).run .init steps).ledger.registry.clients,
        c.id = peer) ∧
    (∀ x ∈ ((exporter world).run .init steps).lost, x.vector.isBweHint = true) ∧
    ∀ (later : List ExportStep) (x : Series), x.vector.isSpeaker = true →
      x ∈ ((exporter world).run .init steps).series →
      x ∈ ((exporter world).run .init (steps ++ later)).series := by
  have hrun : ((exporter world).run .init steps).Scrubbed :=
    Machine.run_of_step (fun _ e h => h.step world e) Scrubbed.init steps
  refine ⟨fun x hx hvector peer hpeer => ?_, hrun.kept, fun later x hspeaker hx => ?_⟩
  · obtain ⟨m, hm, hmem⟩ := hrun.owned x hx hvector
    rw [peers_of_mem_scrubPeer hmem, List.mem_singleton] at hpeer
    obtain ⟨c, hc, rfl⟩ := List.mem_map.1 hm
    exact ⟨c, hc, hpeer.symm⟩
  · rw [Machine.run_append]
    exact Machine.run_of_step (I := fun s : Exporter => x ∈ s.series)
      (fun _ e h => mem_series_step hspeaker h e) hx later

end Exporter

/-! ### What stays behind -/

/-- Client 0, with the subject 7. -/
def departing : Client := .newBrowser pacedConfig 0 7

/-- Client 0 publishes a track. Client 1 joins with the subject 0. Everything is reported about
client 0, and a hint of client 1. Then client 0 leaves. -/
def departure : List ExportStep :=
  [.operation ⟨0, .insert departing⟩, .trackInAdded 0 "v" .video,
    .operation ⟨0, .insert (.newBrowser pacedConfig 0 0)⟩,
    .report 0 (.handleOutput .transmit), .report 0 (.peerStats true true true true),
    .report 0 (.mediaEgressStats "v" true 1 1 1), .report 0 (.mediaIngressStats "v"),
    .report 1 (.forward 0 (some .video) .forwarded), .report 0 (.bweHint false),
    .report 0 (.bweHint true), .report 1 (.bweHint false), .tickSpeakerScores,
    .operation ⟨0, .disconnect 0⟩, .operation ⟨0, .reapDead⟩]

def unscrubbedVectors : List MetricVec :=
  [.sfuBweHintReceivedTotal, .sfuBweHintThrottledTotal, .speakerImmediate, .speakerMedium,
    .speakerLong, .sfuStr0mOutputTotal, .peerRttSeconds, .peerLossFraction,
    .peerBandwidthEstimateBps, .mediaEgressJitterTicks, .mediaEgressNacksReceivedTotal,
    .mediaEgressFirsReceivedTotal, .mediaEgressPlisReceivedTotal, .mediaIngressJitterTicks,
    .sfuForwardDecisionsTotal, .sfuSubscriptionSetupTotal]

/-- Client 0 is gone and its label is left in every one of these vectors, while the hint counter of
client 1 is gone. -/
theorem departure_leaves_series :
    let s := (exporter (pacedWorld none .noChange)).run .init departure
    s.members.map (·.id) = [1] ∧
      (∀ v ∈ unscrubbedVectors, ∃ x ∈ s.series, x.vector = v ∧
        departing.member.isLabelOf x = true) ∧
      ⟨.sfuBweHintReceivedTotal, [0], []⟩ ∉ s.series ∧
      ⟨.sfuBweHintReceivedTotal, [0], []⟩ ∈ s.lost := by
  decide +kernel

end PartnerEdge.Sfu
