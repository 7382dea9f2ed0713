import PartnerEdge.Client.Tracks
import PartnerEdge.Machine.Run

/-!
# SDP renegotiation of one browser client

Tracks opened by other peers are offered to the browser one at a time. A track waits in
`renegotiationQueue` while an offer is in flight, is `negotiating` in `tracksOut` while its own
offer is, and becomes `opened` when the answer is accepted.

An offer is named by the number of the attempt that made it. What str0m and the outbound WebSocket
queue answer at each attempt comes from an `Env`; what an SDP answer leads to comes with the answer.
The fields `removed`, `opened` and `frames` record what the source logs or sends, and are never read
by the client.
-/

namespace PartnerEdge.Client

open Svc

/-- The answers of str0m and of the outbound channel, by attempt. -/
structure Env where
  addMedia : Nat → Mid
  addMedia_injective : Function.Injective addMedia
  /-- Whether `apply` returns an offer. -/
  applies : Nat → Bool
  /-- Whether `try_send` of the offer fails, the queue being full. -/
  offerDropped : Nat → Bool
  /-- Whether `try_send` of the `tracks_map_update` frame fails. -/
  mapUpdateDropped : Nat → Bool

inductive Answer where
  | unparseable
  | rejected
  | accepted
deriving DecidableEq, Repr

inductive RemovalCause where
  | rejectedAnswer
  | timeout
  | wsClosed
deriving DecidableEq, Repr

inductive WsFrame where
  | offerRenegotiate (mid : Mid)
  | tracksMapUpdate (mid : Mid) (peerId : Nat) (kind : MediaKind)
deriving DecidableEq, Repr

structure Negotiator where
  wsMsgTx : Bool
  wsCtrlRx : Bool
  tracksOut : List TrackOut
  renegotiationQueue : List TrackIn
  pendingOffer : Option Nat
  pendingOfferAt : Option Nat
  departed : List ClientId
  attempts : Nat
  /-- Entries removed from `tracksOut` while negotiating, in order. -/
  removed : List (TrackIn × RemovalCause)
  /-- Media ids that went from negotiating to open, each with the offer whose answer was
  accepted. -/
  opened : List (Mid × Nat)
  frames : List WsFrame
deriving DecidableEq, Repr

def TrackOut.isNegotiating (o : TrackOut) : Bool :=
  match o.state with
  | .negotiating _ => true
  | _ => false

def TrackOut.negotiatingMid (o : TrackOut) : Option Mid :=
  match o.state with
  | .negotiating mid => some mid
  | _ => none

/-- Flips `negotiating mid` to `opened mid`. -/
def TrackOut.flip (o : TrackOut) : TrackOut :=
  match o.state with
  | .negotiating mid => { o with state := .opened mid }
  | _ => o

@[simp] theorem TrackOut.flip_trackIn (o : TrackOut) : o.flip.trackIn = o.trackIn := by
  unfold TrackOut.flip
  split <;> rfl

namespace Negotiator

/-- A fresh browser client, with both halves of its WebSocket. -/
def newBrowser : Negotiator where
  wsMsgTx := true
  wsCtrlRx := true
  tracksOut := []
  renegotiationQueue := []
  pendingOffer := none
  pendingOfferAt := none
  departed := []
  attempts := 0
  removed := []
  opened := []
  frames := []

variable (env : Env) (now : Nat)

/-- The frames that follow an accepted offer frame. -/
def announce (n : Nat) (t : TrackIn) (mid : Mid) : List WsFrame :=
  match t.externalPeerId with
  | some peerId =>
    if env.mapUpdateDropped n then [.offerRenegotiate mid]
    else [.offerRenegotiate mid, .tracksMapUpdate mid peerId t.kind]
  | none => [.offerRenegotiate mid]

def clearOffer (c : Negotiator) : Negotiator :=
  { c with pendingOffer := none, pendingOfferAt := none }

def startRenegotiation (t : TrackIn) (c : Negotiator) : Negotiator :=
  if t.upgrades c.departed then
    let n := c.attempts
    let mid := env.addMedia n
    let c := { c with attempts := n + 1 }
    if env.applies n then
      let c := { c with
        tracksOut := c.tracksOut ++ [TrackOut.mk t (.negotiating mid)]
        pendingOffer := some n
        pendingOfferAt := some now }
      if c.wsMsgTx then
        if env.offerDropped n then
          -- The browser never saw the offer: undo it and keep the track for later.
          { c.clearOffer with
            tracksOut := c.tracksOut.dropLast
            renegotiationQueue := t :: c.renegotiationQueue }
        else { c with frames := c.frames ++ announce env n t mid }
      else c
    else c
  else c

def handleTrackOpen (t : TrackIn) (c : Negotiator) : Negotiator :=
  if !c.wsMsgTx then
    { c with tracksOut := c.tracksOut ++ [⟨t, .toOpen⟩] }
  else if c.pendingOffer.isSome then
    { c with renegotiationQueue := c.renegotiationQueue ++ [t] }
  else
    c.startRenegotiation env now t

/-- `retain` of the entries that are not negotiating; each removed one is logged. -/
def removeNegotiating (cause : RemovalCause) (c : Negotiator) : Negotiator :=
  { c with
    tracksOut := c.tracksOut.filter (!·.isNegotiating)
    removed := c.removed ++ (c.tracksOut.filter (·.isNegotiating)).map fun o => (o.trackIn, cause) }

def flipNegotiatingToOpenAll (offer : Nat) (c : Negotiator) : Negotiator × Bool :=
  ({ c with
      tracksOut := c.tracksOut.map TrackOut.flip
      opened := c.opened ++ (c.tracksOut.filterMap TrackOut.negotiatingMid).map (·, offer) },
    c.tracksOut.any (·.isNegotiating))

def handleZeroTransitionAfterAccept (c : Negotiator) : Negotiator := c.clearOffer

/-- Starts the offer of the next queued track, if there is one. -/
def drainOne (c : Negotiator) : Negotiator :=
  match c.renegotiationQueue with
  | [] => c
  | next :: rest => { c with renegotiationQueue := rest }.startRenegotiation env now next

def acceptRenegotiationAnswer (answer : Answer) (c : Negotiator) : Negotiator :=
  let c := { c with pendingOfferAt := none }
  match c.pendingOffer with
  | none => c
  | some offer =>
    let c := { c with pendingOffer := none }
    match answer with
    | .unparseable => c
    | .rejected => (c.removeNegotiating .rejectedAnswer).drainOne env now
    | .accepted =>
      let (c, transitioned) := c.flipNegotiatingToOpenAll offer
      if transitioned then c.drainOne env now else c.handleZeroTransitionAfterAccept

/-- No answer within ten seconds, in milliseconds. -/
def offerTimedOut (c : Negotiator) : Bool :=
  match c.pendingOfferAt with
  | some sentAt => now - sentAt > 10000
  | none => false

/-- The client without the offer that timed out and with its queue taken. -/
def expired (c : Negotiator) : Negotiator :=
  { c.clearOffer.removeNegotiating .timeout with renegotiationQueue := [] }

/-- The timeout branch of `drain_ws_ctrl`: every queued track is offered again. -/
def expireOffer (c : Negotiator) : Negotiator :=
  c.renegotiationQueue.foldl (fun c t => c.startRenegotiation env now t) c.expired

/-- The browser's control channel turned out to be closed. -/
def closeWsCtrl (c : Negotiator) : Negotiator :=
  let c := { c with wsCtrlRx := false }
  if c.pendingOfferAt.isSome then
    let c := c.clearOffer.removeNegotiating .wsClosed
    { c with renegotiationQueue := [] }
  else c

def drainWsCtrl (messages : List Answer) (channelClosed : Bool) (c : Negotiator) : Negotiator :=
  if c.offerTimedOut now then c.expireOffer env now
  else if !c.wsCtrlRx then c
  else
    let c := if channelClosed then c.closeWsCtrl else c
    messages.foldl (fun c a => c.acceptRenegotiationAnswer env now a) c

/-! ## What a step can do -/

/-- The outcomes of an offer attempt: the publisher has left, str0m makes no offer, the outbound
queue is full, or the offer is in flight. -/
theorem startRenegotiation_cases (c : Negotiator) (t : TrackIn) :
    (t.upgrades c.departed = false ∧ c.startRenegotiation env now t = c) ∨
    (t.upgrades c.departed = true ∧
      ((env.applies c.attempts = false ∧
          c.startRenegotiation env now t = { c with attempts := c.attempts + 1 }) ∨
        ((env.applies c.attempts = true ∧ env.offerDropped c.attempts = true) ∧
          c.startRenegotiation env now t = { c.clearOffer with
            attempts := c.attempts + 1
            renegotiationQueue := t :: c.renegotiationQueue }) ∨
        ((c.wsMsgTx = true → env.offerDropped c.attempts = false) ∧ ∃ frames,
          c.startRenegotiation env now t = { c with
            attempts := c.attempts + 1
            tracksOut := c.tracksOut ++ [⟨t, .negotiating (env.addMedia c.attempts)⟩]
            pendingOffer := some c.attempts
            pendingOfferAt := some now
            frames := frames }))) := by
  unfold startRenegotiation
  cases ht : t.upgrades c.departed with
  | false => exact .inl ⟨rfl, by simp⟩
  | true =>
    refine .inr ⟨rfl, ?_⟩
    cases happly : env.applies c.attempts with
    | false => exact .inl ⟨rfl, by simp [happly]⟩
    | true =>
      refine .inr ?_
      by_cases hdrop : c.wsMsgTx = true ∧ env.offerDropped c.attempts = true
      · exact .inl ⟨⟨rfl, hdrop.2⟩, by simp [happly, hdrop, clearOffer]⟩
      · refine .inr ⟨by simpa using hdrop, ?_⟩
        cases hws : c.wsMsgTx with
        | false => exact ⟨c.frames, by simp [happly]⟩
        | true =>
          refine ⟨c.frames ++ announce env c.attempts t (env.addMedia c.attempts), ?_⟩
          simp_all

/-- The outcomes of an answer: none was awaited, it does not parse, str0m rejects it, or str0m
accepts it and the negotiating entries open. -/
theorem acceptRenegotiationAnswer_cases (c : Negotiator) (a : Answer) :
    (c.pendingOffer = none ∧
      c.acceptRenegotiationAnswer env now a = { c with pendingOfferAt := none }) ∨
    ∃ offer, c.pendingOffer = some offer ∧
      ((a = .unparseable ∧ c.acceptRenegotiationAnswer env now a = c.clearOffer) ∨
        (a = .rejected ∧ c.acceptRenegotiationAnswer env now a =
          (c.clearOffer.removeNegotiating .rejectedAnswer).drainOne env now) ∨
        (a = .accepted ∧ c.tracksOut.any (·.isNegotiating) = true ∧
          c.acceptRenegotiationAnswer env now a =
            (c.clearOffer.flipNegotiatingToOpenAll offer).1.drainOne env now) ∨
        (a = .accepted ∧ c.tracksOut.any (·.isNegotiating) = false ∧
          c.acceptRenegotiationAnswer env now a =
            (c.clearOffer.flipNegotiatingToOpenAll offer).1)) := by
  unfold acceptRenegotiationAnswer
  cases hp : c.pendingOffer with
  | none => exact .inl ⟨rfl, rfl⟩
  | some offer =>
    refine .inr ⟨offer, rfl, ?_⟩
    cases a with
    | unparseable => exact .inl ⟨rfl, rfl⟩
    | rejected => exact .inr (.inl ⟨rfl, rfl⟩)
    | accepted =>
      refine .inr (.inr ?_)
      cases hany : c.tracksOut.any (·.isNegotiating) with
      | true => exact .inl ⟨rfl, rfl, by simp [flipNegotiatingToOpenAll, hany, clearOffer]⟩
      | false =>
        exact .inr ⟨rfl, rfl, by
          simp [flipNegotiatingToOpenAll, hany, clearOffer, handleZeroTransitionAfterAccept]⟩

end Negotiator

/-! ## Calls and the actions they consist of -/

inductive Call where
  | handleTrackOpen (now : Nat) (t : TrackIn)
  | drainWsCtrl (now : Nat) (messages : List Answer) (channelClosed : Bool)
  | departure (origin : ClientId)
deriving DecidableEq, Repr

def Negotiator.call (env : Env) (c : Negotiator) : Call → Negotiator
  | .handleTrackOpen now t => c.handleTrackOpen env now t
  | .drainWsCtrl now messages channelClosed => c.drainWsCtrl env now messages channelClosed
  | .departure origin => { c with departed := origin :: c.departed }

/-- One `drain_ws_ctrl` handles several answers; an action is one of its parts. -/
inductive Action where
  | trackOpen (now : Nat) (t : TrackIn)
  | answer (now : Nat) (a : Answer)
  | timeout (now : Nat)
  | wsClosed
  | departure (origin : ClientId)
deriving DecidableEq, Repr

def Negotiator.act (env : Env) (c : Negotiator) : Action → Negotiator
  | .trackOpen now t => c.handleTrackOpen env now t
  | .answer now a => c.acceptRenegotiationAnswer env now a
  | .timeout now => c.expireOffer env now
  | .wsClosed => c.closeWsCtrl
  | .departure origin => { c with departed := origin :: c.departed }

def calls (env : Env) : Machine Negotiator Call Unit := ⟨fun c k => (c.call env k, ())⟩

def actions (env : Env) : Machine Negotiator Action Unit := ⟨fun c a => (c.act env a, ())⟩

/-- The actions a call takes in a given state. -/
def Call.actions (c : Negotiator) : Call → List Action
  | .handleTrackOpen now t => [.trackOpen now t]
  | .drainWsCtrl now messages channelClosed =>
    if c.offerTimedOut now then [.timeout now]
    else if !c.wsCtrlRx then []
    else (if channelClosed then [.wsClosed] else []) ++ messages.map (.answer now)
  | .departure origin => [.departure origin]

def callsActions (env : Env) : Negotiator → List Call → List Action
  | _, [] => []
  | c, k :: ks => k.actions c ++ callsActions env (c.call env k) ks

theorem Negotiator.call_eq_run (env : Env) (c : Negotiator) (k : Call) :
    c.call env k = (actions env).run c (k.actions c) := by
  cases k with
  | handleTrackOpen now t => rfl
  | departure origin => rfl
  | drainWsCtrl now messages channelClosed =>
    have hfold : ∀ c : Negotiator,
        messages.foldl (fun c a => c.acceptRenegotiationAnswer env now a) c =
          (actions env).run c (messages.map (.answer now)) := by
      intro c
      induction messages generalizing c with
      | nil => rfl
      | cons a messages ih => exact ih _
    simp only [Negotiator.call, Negotiator.drainWsCtrl, Call.actions]
    split
    · rfl
    · split
      · rfl
      · cases channelClosed <;> exact hfold _

/-- A run of calls is the run of the actions they consist of. -/
theorem calls_run (env : Env) (c : Negotiator) (ks : List Call) :
    (calls env).run c ks = (actions env).run c (callsActions env c ks) := by
  induction ks generalizing c with
  | nil => rfl
  | cons k ks ih =>
    rw [callsActions, Machine.run_append, ← c.call_eq_run]
    exact ih _

end PartnerEdge.Client
