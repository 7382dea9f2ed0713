import PartnerEdge.Sfu.Client

/-!
# The announcement of an outbound relay

An outbound relay tells its upstream what it is with one `relay_source` message, on a data channel
made for it. The message is kept as `relaySourcePending` from construction to the first `Connected`,
and that event takes it whatever becomes of it: when str0m has not opened the channel yet, or does
not take the write, no later event sends the message again.
-/

namespace PartnerEdge.Relay

open Svc Text Sfu

abbrev ChannelId := Nat

/-- A relay connection after its SDP exchange. What its `Rtc` answers comes with the events. -/
structure PendingRelay where
  roomId : Str
  upstreamUrl : Str
  upstreamRoomToken : Str
  dcId : ChannelId
deriving DecidableEq, Repr

/-- A JSON object with text fields. -/
abbrev Message := List (String × Str)

def relaySourceMessage (upstreamUrl roomToken : Str) : Message :=
  [("type", "relay_source".toList), ("upstreamUrl", upstreamUrl), ("roomToken", roomToken)]

/-- The events of str0m; `other` has those that are the same for every client. -/
inductive Event where
  | connected
  | channelOpen (id : ChannelId)
  | other (e : RtcEvent)
deriving DecidableEq, Repr

/-- An event, and what str0m answers while it is handled. -/
structure Moment where
  now : Nat
  event : Event
  /-- Whether the lookup of a channel finds it. -/
  isOpen : ChannelId → Bool
  /-- Whether an open channel takes a write. -/
  takes : ChannelId → Bool

structure OutboundRelay where
  client : Client
  relaySourcePending : Option (ChannelId × Str × Str)
  /-- The messages that channels have taken, in order. -/
  written : List (ChannelId × Message)

def newOutboundRelay (cfg : Config) (id : ClientId) (pending : PendingRelay) : OutboundRelay where
  client := .newOutboundRelay cfg id pending.upstreamUrl
  relaySourcePending := some (pending.dcId, pending.upstreamUrl, pending.upstreamRoomToken)
  written := []

namespace OutboundRelay

/-- What a pending announcement puts on its channel when it is taken. -/
def announcement (m : Moment) (dcId : ChannelId) (upstreamUrl roomToken : Str) :
    List (ChannelId × Message) :=
  if m.isOpen dcId then
    if m.takes dcId then [(dcId, relaySourceMessage upstreamUrl roomToken)] else []
  else []

def connected (m : Moment) (s : OutboundRelay) : OutboundRelay :=
  match s.relaySourcePending with
  | some (dcId, upstreamUrl, roomToken) =>
    { s with
      relaySourcePending := none
      written := s.written ++ announcement m dcId upstreamUrl roomToken }
  | none => s

variable (jwt : Jwt) (auth : RelayAuth)

/-- `ChannelOpen` only counts reactions channels, and a relay has none. -/
def handleEvent (s : OutboundRelay) (m : Moment) : OutboundRelay × Propagated :=
  match m.event with
  | .connected => (s.connected m, .noop)
  | .channelOpen _ => (s, .noop)
  | .other e =>
    let (client, p) := s.client.handleEvent jwt m.now auth e
    ({ s with client }, p)

def machine : Machine OutboundRelay Moment Propagated := ⟨handleEvent jwt auth⟩

variable {jwt auth} {s : OutboundRelay} {m : Moment} {moments : List Moment}

/-- Only `Connected` touches the announcement. -/
theorem handleEvent_of_ne (h : m.event ≠ .connected) :
    ((machine jwt auth).step s m).1.relaySourcePending = s.relaySourcePending ∧
      ((machine jwt auth).step s m).1.written = s.written := by
  simp only [machine, handleEvent]
  split
  · contradiction
  · exact ⟨rfl, rfl⟩
  · exact ⟨rfl, rfl⟩

theorem handleEvent_of_connected (h : m.event = .connected) :
    ((machine jwt auth).step s m).1 = s.connected m := by
  simp [machine, handleEvent, h]

/-- Once the announcement is taken, nothing is written any more. -/
theorem written_run_of_none (h : s.relaySourcePending = none) :
    ((machine jwt auth).run s moments).written = s.written := by
  induction moments generalizing s with
  | nil => rfl
  | cons m moments ih =>
    by_cases hm : m.event = .connected
    · have hstep : ((machine jwt auth).step s m).1 = s :=
        (handleEvent_of_connected hm).trans (by simp [connected, h])
      rw [Machine.run_cons, hstep]
      exact ih h
    · obtain ⟨hpending, hwritten⟩ := handleEvent_of_ne hm
      exact (ih (hpending.trans h)).trans hwritten

/-- A pending announcement is tried once, at the first `Connected`. -/
theorem written_run_of_pending {dcId : ChannelId} {upstreamUrl roomToken : Str}
    (h : s.relaySourcePending = some (dcId, upstreamUrl, roomToken)) :
    ((machine jwt auth).run s moments).written = s.written ++
      (moments.find? (·.event = .connected)).toList.flatMap fun m =>
        announcement m dcId upstreamUrl roomToken := by
  induction moments generalizing s with
  | nil => simp
  | cons m moments ih =>
    by_cases hm : m.event = .connected
    · have hstep : ((machine jwt auth).step s m).1 = s.connected m := handleEvent_of_connected hm
      have hnone : (s.connected m).relaySourcePending = none := by simp [connected, h]
      rw [Machine.run_cons, hstep, written_run_of_none hnone]
      simp [connected, h, hm]
    · obtain ⟨hpending, hwritten⟩ := handleEvent_of_ne hm
      refine (ih (hpending.trans h)).trans ?_
      rw [List.find?_cons_of_neg (by simpa using hm)]
      exact congrArg (· ++ _) hwritten

/-- The announcement is written exactly once if at the first `Connected` the channel is open and
takes the write, and never otherwise. -/
theorem announced_once_iff (cfg : Config) (jwt : Jwt) (auth : RelayAuth) (id : ClientId)
    (pending : PendingRelay) (moments : List Moment) :
    ((machine jwt auth).run (newOutboundRelay cfg id pending) moments).written.count
        (pending.dcId, relaySourceMessage pending.upstreamUrl pending.upstreamRoomToken) = 1 ↔
      ∃ m, moments.find? (·.event = .connected) = some m ∧
        m.isOpen pending.dcId = true ∧ m.takes pending.dcId = true := by
  rw [written_run_of_pending rfl]
  cases hm : moments.find? (·.event = .connected) with
  | none => simp [newOutboundRelay]
  | some m =>
    simp only [newOutboundRelay, announcement]
    grind

end OutboundRelay

/-! ### A channel that opens late -/

def sampleRelay : PendingRelay := ⟨"r".toList, "wss://u/r".toList, "t".toList, 5⟩

/-- `Connected` and the opening of the channel, in this order. -/
def opensLate : List Moment :=
  [⟨0, .connected, fun _ => false, fun _ => true⟩,
    ⟨1, .channelOpen 5, fun _ => true, fun _ => true⟩]

/-- The channel is open right after `Connected`, and the relay never announces itself. -/
theorem opensLate_never_announced :
    (∃ m ∈ opensLate, m.event = .connected) ∧ (∃ m ∈ opensLate, m.isOpen sampleRelay.dcId = true) ∧
      ∀ cfg jwt auth id, ((OutboundRelay.machine jwt auth).run (newOutboundRelay cfg id sampleRelay)
        opensLate).written = [] :=
  ⟨by decide, by decide, fun _ _ _ _ => rfl⟩

end PartnerEdge.Relay
