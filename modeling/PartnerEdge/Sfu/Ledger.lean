import PartnerEdge.Sfu.Membership

/-!
# The registry's books

The registry keeps gauges of its participants and of their data channels, and it tells the speaker
detector who may speak. The gauges go up when a client is built, inserted or opens a channel, and
down in two removal paths, the reaping of dead clients and the session steal. A `Ledger` is the
registry with these books; a run is any sequence of the operations on it, each at its own time.
-/

namespace PartnerEdge.Sfu

open Svc PartnerEdge.Client Text

structure Metrics where
  clientConnectTotal : Nat
  clientDisconnectTotal : Nat
  activeParticipants : Int
  activeRooms : Int
  /-- `chat_relay_active_channels` and `voice_relay_active_channels`. -/
  activeChannels : Channel → Int

/-- The channels of a client that the gauges count: chat and voice from the moment they are created,
reactions once the channel has opened. -/
def Member.counted (opened : Finset ClientId) (m : Member) : Channel → Bool
  | .chatData => Channel.chatData ∈ m.channels
  | .chatCtrl => Channel.chatCtrl ∈ m.channels
  | .voice => Channel.voice ∈ m.channels
  | .reactions => m.id ∈ opened
  | .keys | .activeSpeaker | .sfuEvents => false

namespace Metrics

def zero : Metrics := ⟨0, 0, 0, 0, fun _ => 0⟩

variable (metrics : Metrics)

/-- `with_chat_dcs` and `with_voice_dc`. -/
def created (m : Member) : Metrics :=
  { metrics with activeChannels := fun ch => metrics.activeChannels ch + (m.counted ∅ ch).toNat }

def joined : Metrics :=
  { metrics with
    clientConnectTotal := metrics.clientConnectTotal + 1
    activeParticipants := metrics.activeParticipants + 1
    activeRooms := 1 }

/-- The part that `reap_dead` and `evict_for_steal` share. -/
def removed (opened : Finset ClientId) (m : Member) : Metrics :=
  { metrics with
    clientDisconnectTotal := metrics.clientDisconnectTotal + 1
    activeParticipants := metrics.activeParticipants - 1
    activeChannels := fun ch => metrics.activeChannels ch - (m.counted opened ch).toNat }

/-- An empty registry is no active room. -/
def closeRoom (left : List Member) : Metrics :=
  if left.isEmpty then { metrics with activeRooms := 0 } else metrics

def reactionsOpened : Metrics :=
  { metrics with activeChannels := fun ch =>
      metrics.activeChannels ch + if ch = .reactions then 1 else 0 }

end Metrics

/-- Who was registered after an operation. -/
structure Snapshot where
  time : Nat
  members : List ClientId
deriving DecidableEq, Repr

/-- The registry with its metrics, the peers of the detector and the clients whose reactions channel
has opened. `history` records the snapshots, the latest first, and is never read. -/
structure Ledger where
  registry : Registry
  metrics : Metrics
  detector : Finset ClientId
  reactionsDcOpened : Finset ClientId
  nextClientId : ClientId
  clock : Nat
  history : List Snapshot

inductive Operation where
  /-- A client is built, under the next id, and inserted. -/
  | insert (client : Client)
  | channelOpen (id : ClientId) (channel : Channel)
  | disconnect (id : ClientId)
  | reapDead
  | checkSoloTimeout (timeout : Nat)
  | markRelaySource (id : ClientId) (upstreamUrl : Str)

/-- An operation and the time since the one before. -/
structure Timed where
  after : Nat
  operation : Operation

namespace Ledger

def init : Ledger := ⟨.empty, .zero, ∅, ∅, 0, 0, []⟩

variable (world : World) (s : Ledger) (now : Nat)

/-- The removal of clients from everything but the registry. -/
def remove (gone : List Member) (registry : Registry) : Ledger :=
  { s with
    registry
    metrics := (gone.foldl (·.removed s.reactionsDcOpened ·) s.metrics).closeRoom registry.members
    detector := gone.foldl (·.erase ·.id) s.detector }

def reapDead : Ledger :=
  s.remove (s.registry.members.filter (!·.alive)) (s.registry.reapDead now)

def stealSession (client : Client) : Ledger :=
  match s.registry.replaced client with
  | none => s
  | some old => s.remove [old] (s.registry.stealSession client)

def insert (client : Client) : Ledger :=
  let s := { s with metrics := s.metrics.created client.member }
  let stolen := s.stealSession client
  { stolen with
    registry := s.registry.insert world now client
    metrics := stolen.metrics.joined
    detector := Insert.insert client.id stolen.detector
    nextClientId := s.nextClientId + 1 }

/-- The gauge follows the first opening of the client's own reactions channel. -/
def channelOpen (id : ClientId) (channel : Channel) : Ledger :=
  match s.registry.members.find? (·.id == id) with
  | none => s
  | some m =>
    if channel = .reactions ∧ Channel.reactions ∈ m.channels ∧ id ∉ s.reactionsDcOpened then
      { s with
        metrics := s.metrics.reactionsOpened
        reactionsDcOpened := Insert.insert id s.reactionsDcOpened }
    else s

def disconnect (id : ClientId) : Ledger := { s with registry := s.registry.failInputs [id] }

def checkSoloTimeout (timeout : Nat) : Ledger :=
  { s with registry := s.registry.checkSoloTimeout timeout now }

def markRelaySource (id : ClientId) (upstreamUrl : Str) : Ledger :=
  if s.registry.members.any (·.id == id) then
    { s with
      registry := s.registry.updateClient id fun c => { c with relayFrom := some upstreamUrl }
      detector := s.detector.erase id }
  else s

def apply : Operation → Ledger
  | .insert client => s.insert world now { client with id := s.nextClientId }
  | .channelOpen id channel => s.channelOpen id channel
  | .disconnect id => s.disconnect id
  | .reapDead => s.reapDead now
  | .checkSoloTimeout timeout => s.checkSoloTimeout now timeout
  | .markRelaySource id upstreamUrl => s.markRelaySource id upstreamUrl

def step (t : Timed) : Ledger :=
  let next := s.apply world (s.clock + t.after) t.operation
  { next with
    clock := s.clock + t.after
    history := ⟨s.clock + t.after, next.registry.members.map (·.id)⟩ :: s.history }

end Ledger

def ledger (world : World) : Machine Ledger Timed Unit := ⟨fun s t => (s.step world t, ())⟩

/-! ## Exact books -/

/-- What a removal takes from the gauges. -/
theorem foldl_removed (opened : Finset ClientId) (gone : List Member) (metrics : Metrics) :
    gone.foldl (·.removed opened ·) metrics =
      { metrics with
        clientDisconnectTotal := metrics.clientDisconnectTotal + gone.length
        activeParticipants := metrics.activeParticipants - gone.length
        activeChannels := fun ch =>
          metrics.activeChannels ch - gone.countP (·.counted opened ch) } := by
  induction gone generalizing metrics with
  | nil => simp
  | cons m gone ih =>
    rw [List.foldl_cons, ih]
    simp only [Metrics.removed, List.length_cons, List.countP_cons, Metrics.mk.injEq, true_and]
    refine ⟨by omega, by omega, funext fun ch => ?_⟩
    cases m.counted opened ch <;> grind

namespace Ledger

/-- The invariant of the books. -/
structure Balanced (s : Ledger) : Prop where
  participants : s.metrics.activeParticipants = s.registry.members.length
  connections : s.metrics.activeParticipants =
    s.metrics.clientConnectTotal - s.metrics.clientDisconnectTotal
  rooms : s.metrics.activeRooms = if s.registry.members.isEmpty then 0 else 1
  channels : ∀ ch, s.metrics.activeChannels ch =
    s.registry.members.countP (·.counted s.reactionsDcOpened ch)
  peerIds : (s.registry.members.filterMap (·.externalPeerId)).Nodup
  ids : (s.registry.members.map (·.id)).Nodup
  fresh : ∀ m ∈ s.registry.members, m.id < s.nextClientId
  opened : ∀ id ∈ s.reactionsDcOpened, id < s.nextClientId

variable {world : World} {s : Ledger} {now : Nat}

theorem remove_metrics (s : Ledger) (gone : List Member) (registry : Registry) :
    (s.remove gone registry).metrics =
      { s.metrics with
        clientDisconnectTotal := s.metrics.clientDisconnectTotal + gone.length
        activeParticipants := s.metrics.activeParticipants - gone.length
        activeRooms := if registry.members.isEmpty then 0 else s.metrics.activeRooms
        activeChannels := fun ch =>
          s.metrics.activeChannels ch - gone.countP (·.counted s.reactionsDcOpened ch) } := by
  rw [remove, foldl_removed]
  unfold Metrics.closeRoom
  split <;> rfl

theorem Balanced.remove (h : s.Balanced) {gone : List Member} {registry : Registry}
    (hperm : s.registry.members.Perm (gone ++ registry.members)) :
    (s.remove gone registry).Balanced := by
  have hlength := hperm.length_eq
  rw [List.length_append] at hlength
  refine ⟨?_, ?_, ?_, fun ch => ?_, ?_, ?_, fun m hm => ?_, h.opened⟩
  · rw [remove_metrics]
    have := h.participants
    simp only [Ledger.remove]
    omega
  · rw [remove_metrics]
    have := h.connections
    simp only
    omega
  · rw [remove_metrics]
    cases hleft : registry.members with
    | nil => simp [Ledger.remove, hleft]
    | cons m left =>
      -- Who is left was there before.
      have hbefore : s.registry.members.isEmpty = false := by
        rw [List.isEmpty_eq_false_iff, ← List.length_pos_iff, hlength, hleft, List.length_cons]
        omega
      simp [Ledger.remove, hleft, h.rooms, hbefore]
  · rw [remove_metrics]
    have hcount := hperm.countP_eq (·.counted s.reactionsDcOpened ch)
    have := h.channels ch
    rw [List.countP_append] at hcount
    simp only [Ledger.remove]
    omega
  · have hnodup := (hperm.filterMap (·.externalPeerId)).nodup_iff.1 h.peerIds
    rw [List.filterMap_append] at hnodup
    exact hnodup.of_append_right
  · have hnodup := (hperm.map (·.id)).nodup_iff.1 h.ids
    rw [List.map_append] at hnodup
    exact hnodup.of_append_right
  · exact h.fresh m (hperm.mem_iff.2 (List.mem_append_right _ hm))

theorem Balanced.reapDead (h : s.Balanced) (now : Nat) : (s.reapDead now).Balanced :=
  h.remove (s.registry.members_perm_reapDead now)

theorem stealSession_members (s : Ledger) (client : Client) :
    (s.stealSession client).registry.members = (s.registry.stealSession client).members := by
  obtain ⟨hnone, heq, -⟩ | ⟨old, hold, -⟩ := s.registry.members_stealSession client
  · rw [stealSession, hnone, heq]
  · rw [stealSession, hold]
    rfl

theorem Balanced.stealSession (h : s.Balanced) (client : Client) :
    (s.stealSession client).Balanced := by
  obtain ⟨hnone, -⟩ | ⟨old, hold, -, -, hperm⟩ := s.registry.members_stealSession client
  · rwa [Ledger.stealSession, hnone]
  · rw [Ledger.stealSession, hold]
    exact h.remove hperm

/-- The channels of the newcomer are counted before the steal, to the same effect as after it. -/
theorem stealSession_created (s : Ledger) (client : Client) (m : Member) :
    ({ s with metrics := s.metrics.created m }.stealSession client).metrics =
      (s.stealSession client).metrics.created m := by
  unfold stealSession
  cases s.registry.replaced client with
  | none => rfl
  | some old =>
    simp only [remove_metrics, Metrics.created, Metrics.mk.injEq, true_and]
    funext ch
    omega

theorem stealSession_opened (s : Ledger) (client : Client) :
    (s.stealSession client).reactionsDcOpened = s.reactionsDcOpened ∧
      (s.stealSession client).nextClientId = s.nextClientId := by
  unfold stealSession
  split <;> exact ⟨rfl, rfl⟩

theorem counted_of_notMem {opened : Finset ClientId} {m : Member} (h : m.id ∉ opened)
    (ch : Channel) : m.counted ∅ ch = m.counted opened ch := by
  cases ch <;> simp [Member.counted, h]

theorem insert_members (s : Ledger) (client : Client) :
    (s.insert world now client).registry.members =
      (s.stealSession client).registry.members ++ [client.member] := by
  rw [stealSession_members]
  exact Registry.members_insert _ _ _ _

theorem insert_metrics (s : Ledger) (client : Client) :
    (s.insert world now client).metrics =
      ((s.stealSession client).metrics.created client.member).joined :=
  congrArg Metrics.joined (s.stealSession_created client client.member)

/-- After the steal no member has the id that the newcomer gets. -/
theorem Balanced.id_unused (h : s.Balanced) {client : Client} (hid : client.id = s.nextClientId) :
    ∀ m ∈ (s.stealSession client).registry.members, m.id ≠ client.id := by
  intro m hm
  have hlt := (h.stealSession client).fresh m hm
  rw [(s.stealSession_opened client).2, ← hid] at hlt
  exact Nat.ne_of_lt hlt

theorem Balanced.insert (h : s.Balanced) (client : Client) (hid : client.id = s.nextClientId) :
    (s.insert world now client).Balanced := by
  have hsteal := h.stealSession client
  obtain ⟨hopened, hnext⟩ := s.stealSession_opened client
  have hinsert : (s.insert world now client).reactionsDcOpened = s.reactionsDcOpened :=
    (stealSession_opened _ client).1
  have hunopened : client.member.id ∉ s.reactionsDcOpened := by
    intro hmem
    have := h.opened _ hmem
    exact absurd hid (Nat.ne_of_lt this)
  have hpeerIds : (s.insert world now client).registry.peerIds.Nodup :=
    Registry.peerIds_insert (s.registry.peerIds_eq_members ▸ h.peerIds) world now client
  rw [Registry.peerIds_eq_members] at hpeerIds
  refine ⟨?_, ?_, ?_, fun ch => ?_, hpeerIds, ?_, ?_, ?_⟩
  · rw [insert_metrics, insert_members, List.length_append]
    have := hsteal.participants
    simp only [Metrics.joined, Metrics.created, List.length_singleton]
    omega
  · rw [insert_metrics]
    have := hsteal.connections
    simp only [Metrics.joined, Metrics.created]
    omega
  · rw [insert_metrics, insert_members]
    simp [Metrics.joined]
  · rw [insert_metrics, insert_members, List.countP_append, List.countP_singleton]
    have := hsteal.channels ch
    simp only [Metrics.joined, Metrics.created, counted_of_notMem hunopened]
    rw [this, hopened, hinsert]
    cases client.member.counted s.reactionsDcOpened ch <;> rfl
  · rw [insert_members, List.map_append]
    refine hsteal.ids.append (List.nodup_singleton _) ?_
    simpa [Client.member] using h.id_unused hid
  · rw [insert_members]
    intro m hm
    rcases List.mem_append.1 hm with hm | hm
    · exact Nat.lt_succ_of_lt (hnext ▸ hsteal.fresh m hm)
    · obtain rfl := List.mem_singleton.1 hm
      exact Nat.lt_succ_of_le (Nat.le_of_eq hid)
  · rw [hinsert]
    exact fun id hid' => Nat.lt_succ_of_lt (h.opened id hid')

/-- Operations that touch neither the ids nor the channels of a client. -/
theorem Balanced.map (h : s.Balanced) {registry : Registry} {detector : Finset ClientId}
    {f : Member → Member} (hmembers : registry.members = s.registry.members.map f)
    (hf : ∀ m, (f m).id = m.id ∧ (f m).externalPeerId = m.externalPeerId ∧
      (f m).channels = m.channels) : { s with registry, detector }.Balanced := by
  have hcounted : ∀ m ch,
      (f m).counted s.reactionsDcOpened ch = m.counted s.reactionsDcOpened ch := by
    intro m ch
    cases ch <;> simp [Member.counted, hf]
  refine ⟨?_, h.connections, ?_, fun ch => ?_, ?_, ?_, ?_, h.opened⟩
  · simpa [hmembers] using h.participants
  · simpa [hmembers] using h.rooms
  · simpa [hmembers, List.countP_map, Function.comp_def, hcounted] using h.channels ch
  · simpa [hmembers, List.filterMap_map, Function.comp_def, hf] using h.peerIds
  · simpa [hmembers, Function.comp_def, hf] using h.ids
  · simpa [hmembers, hf] using h.fresh

/-- The only member with its id starts to count. -/
theorem Balanced.channelOpen (h : s.Balanced) (id : ClientId) (channel : Channel) :
    (s.channelOpen id channel).Balanced := by
  unfold Ledger.channelOpen
  split
  · exact h
  · next m hm =>
    split
    · next hopen =>
      obtain rfl : m.id = id := by simpa using List.find?_some hm
      have hperm := List.perm_cons_erase (List.mem_of_find?_eq_some hm)
      have hothers : ∀ m' ∈ s.registry.members.erase m, m'.id ≠ m.id := by
        have hnodup := (hperm.map (·.id)).nodup_iff.1 h.ids
        intro m' hm' heq
        exact (List.nodup_cons.1 hnodup).1 (List.mem_map.2 ⟨m', hm', heq⟩)
      refine ⟨h.participants, h.connections, h.rooms, fun ch => ?_, h.peerIds, h.ids, h.fresh, ?_⟩
      · have hrest : (s.registry.members.erase m).countP
            (·.counted (Insert.insert m.id s.reactionsDcOpened) ch) =
              (s.registry.members.erase m).countP (·.counted s.reactionsDcOpened ch) := by
          refine List.countP_congr fun m' hm' => ?_
          cases ch <;> simp [Member.counted, hothers m' hm']
        have hchannels := h.channels ch
        rw [hperm.countP_eq, List.countP_cons] at hchannels ⊢
        rw [hrest, Metrics.reactionsOpened]
        cases ch <;> simp_all [Member.counted]
      · intro id hid
        rcases Finset.mem_insert.1 hid with rfl | hid
        · exact h.fresh m (List.mem_of_find?_eq_some hm)
        · exact h.opened id hid
    · exact h

theorem Balanced.apply (h : s.Balanced) (world : World) (now : Nat) (operation : Operation) :
    (s.apply world now operation).Balanced := by
  cases operation with
  | insert client => exact h.insert _ rfl
  | channelOpen id channel => exact h.channelOpen id channel
  | disconnect id =>
    refine h.map (s.registry.members_failInputs [id]) fun m => ?_
    split <;> exact ⟨rfl, rfl, rfl⟩
  | reapDead => exact h.reapDead now
  | checkSoloTimeout timeout =>
    obtain heq | heq := s.registry.members_checkSoloTimeout timeout now
    · exact h.map (heq.trans (List.map_id _).symm) fun m => ⟨rfl, rfl, rfl⟩
    · exact h.map heq fun m => ⟨rfl, rfl, rfl⟩
  | markRelaySource id upstreamUrl =>
    simp only [Ledger.apply, Ledger.markRelaySource]
    split
    · refine h.map (s.registry.members_markRelaySource id upstreamUrl) fun m => ?_
      split <;> exact ⟨rfl, rfl, rfl⟩
    · exact h

theorem balanced_init : init.Balanced := by
  constructor <;> simp [init, Registry.members, Registry.empty, Metrics.zero]

theorem Balanced.step (h : s.Balanced) (world : World) (t : Timed) :
    (s.step world t).Balanced := by
  obtain ⟨hparticipants, hconnections, hrooms, hchannels, hpeerIds, hids, hfresh, hopened⟩ :=
    h.apply world (s.clock + t.after) t.operation
  exact ⟨hparticipants, hconnections, hrooms, hchannels, hpeerIds, hids, hfresh, hopened⟩

/-- What the metrics say about the registered clients. -/
structure Exact (s : Ledger) : Prop where
  participants : s.metrics.activeParticipants = s.registry.clients.length
  connections : s.metrics.activeParticipants =
    s.metrics.clientConnectTotal - s.metrics.clientDisconnectTotal
  rooms : s.metrics.activeRooms = 1 ↔ s.registry.clients ≠ []
  chatData : s.metrics.activeChannels .chatData =
    s.registry.clients.countP (Channel.chatData ∈ ·.channels)
  chatCtrl : s.metrics.activeChannels .chatCtrl =
    s.registry.clients.countP (Channel.chatCtrl ∈ ·.channels)
  voice : s.metrics.activeChannels .voice =
    s.registry.clients.countP (Channel.voice ∈ ·.channels)
  reactions : s.metrics.activeChannels .reactions =
    s.registry.clients.countP (·.id ∈ s.reactionsDcOpened)
  peerIds : s.registry.clients.Pairwise fun c d =>
    c.externalPeerId.isSome = true → c.externalPeerId ≠ d.externalPeerId

theorem Balanced.exact (h : s.Balanced) : s.Exact where
  participants := by simpa [Registry.members] using h.participants
  connections := h.connections
  rooms := by
    rw [h.rooms]
    cases hclients : s.registry.clients <;> simp [Registry.members, hclients]
  chatData := by
    rw [h.channels, Registry.members, List.countP_map]
    rfl
  chatCtrl := by
    rw [h.channels, Registry.members, List.countP_map]
    rfl
  voice := by
    rw [h.channels, Registry.members, List.countP_map]
    rfl
  reactions := by
    rw [h.channels, Registry.members, List.countP_map]
    rfl
  peerIds := by
    have hpairs := List.pairwise_filterMap.1 h.peerIds
    refine (List.pairwise_map.1 hpairs).imp fun {c d} hne hsome heq => ?_
    obtain ⟨pid, hpid⟩ := Option.isSome_iff_exists.1 hsome
    exact hne pid hpid pid (heq.symm.trans hpid) rfl

/-- The books are exact after every operation of every run. -/
theorem exact_run (world : World) (ops : List Timed) :
    ((ledger world).run .init ops).Exact := by
  have hbalanced := Machine.run_of_step (I := Balanced) (M := ledger world)
    (fun _ t h => h.step world t) balanced_init ops
  exact hbalanced.exact

end Ledger

end PartnerEdge.Sfu
