import PartnerEdge.Client.KeyframeThrottle
import PartnerEdge.Sfu.Pacer

/-!
# Keyframe requests on subscription

When a renegotiation answer opens a track, the subscriber asks its publisher for a keyframe and
repeats the request until a keyframe passes, the publisher leaves or the attempts are used up. A
pending series of requests is a `KeyframeWait`.

An answer that opens any entry scans all open video entries, also those opened by an earlier answer.
A track whose wait has ended thus gets a second wait, and five more requests, without turning open
again. The requests stay within five for each opening in runs in which no answer finds such a track.
-/

namespace PartnerEdge.Sfu

open Svc PartnerEdge.Client

structure KeyframeWait where
  origin : ClientId
  midIn : Mid
  startedAt : Nat
  lastRequestAt : Nat
  /-- The requests sent so far, the initial one included. -/
  attempts : Nat
deriving DecidableEq, Repr

inductive WaitOutcome where
  | observed
  | budgetExhausted
  | codecUnobservable
  | publisherGone
deriving DecidableEq, Repr

/-- Under SFrame the keyframes of AV1 and VP9 are not visible. -/
inductive Codec where
  | av1
  | vp9
  | other
deriving DecidableEq, Repr

def keyframeSubscribeMaxAttempts : Nat := 5

/-- In milliseconds. -/
def keyframeSubscribeDeadline : Nat := 10000

def KeyframeWait.track (w : KeyframeWait) : StreamKey := (w.origin, w.midIn)

/-- A client with its keyframe waits. `pushed` is all that the waits ever put on
`pending_propagated`, `ended` the waits that ended, and `opens` the track of every entry of
`tracks_out` that turned open; the client reads none of the three. -/
structure Waiter where
  client : Client
  keyframeWaits : List KeyframeWait
  pushed : List Propagated
  ended : List (KeyframeWait × WaitOutcome)
  opens : List StreamKey

namespace Waiter

def init (client : Client) : Waiter := ⟨client, [], [], [], []⟩

variable (s : Waiter)

def waitsFor (track : StreamKey) : Bool := s.keyframeWaits.any (·.track == track)

def request (track : StreamKey) : Propagated :=
  .keyframeRequest s.client.id s.client.filter.chosenRid track.1 track.2

/-! ## Waits begin -/

def startKeyframeWait (now : Nat) (s : Waiter) (track : StreamKey) : Waiter :=
  if s.waitsFor track then s
  else
    { s with
      pushed := s.pushed ++ [s.request track]
      keyframeWaits := s.keyframeWaits ++ [⟨track.1, track.2, now, now, 1⟩] }

end Waiter

/-- An open video entry whose publisher is still there. -/
def Client.receivesVideo (c : Client) (o : TrackOut) : Bool :=
  o.mid.isSome && o.trackIn.upgrades c.negotiator.departed && o.trackIn.kind == .video

def Client.openVideoTracks (c : Client) : List StreamKey :=
  (c.negotiator.tracksOut.filter c.receivesVideo).map fun o => (o.trackIn.origin, o.trackIn.mid)

namespace Waiter

def startKeyframeWaitsForOpenVideoTracks (now : Nat) (s : Waiter) : Waiter :=
  s.client.openVideoTracks.foldl (startKeyframeWait now) s

def withNegotiator (negotiator : Negotiator) (s : Waiter) : Waiter :=
  { s with client := { s.client with negotiator } }

/-- The tracks whose entries an answer is going to open. -/
def negotiatingTracks (s : Waiter) : List StreamKey :=
  (s.client.negotiator.tracksOut.filter (·.isNegotiating)).map fun o =>
    (o.trackIn.origin, o.trackIn.mid)

def flipNegotiatingToOpenAll (offer : Nat) (s : Waiter) : Waiter :=
  { s with
    client := { s.client with
      negotiator := (s.client.negotiator.flipNegotiatingToOpenAll offer).1 }
    opens := s.opens ++ s.negotiatingTracks }

/-- The part of `accept_renegotiation_answer` between the answer and the next queued track: an
accepted answer that opens an entry starts the waits. -/
def answered (now : Nat) (answer : Answer) (s : Waiter) : Waiter :=
  match s.client.negotiator.pendingOffer, answer with
  | some offer, .accepted =>
    if s.client.negotiator.tracksOut.any (·.isNegotiating) then
      (s.flipNegotiatingToOpenAll offer).startKeyframeWaitsForOpenVideoTracks now
    else s
  | _, _ => s

def acceptRenegotiationAnswer (env : Env) (now : Nat) (answer : Answer) (s : Waiter) : Waiter :=
  (s.answered now answer).withNegotiator
    (s.client.negotiator.acceptRenegotiationAnswer env now answer)

/-! ## Waits go on and end -/

def publisherAlive (s : Waiter) (w : KeyframeWait) : Bool :=
  s.client.negotiator.tracksOut.any fun o =>
    o.trackIn.upgrades s.client.negotiator.departed && o.trackIn.origin == w.origin &&
      o.trackIn.mid == w.midIn

def keep (s : Waiter) (w : KeyframeWait) : Waiter :=
  { s with keyframeWaits := s.keyframeWaits ++ [w] }

def stop (s : Waiter) (w : KeyframeWait) (outcome : WaitOutcome) : Waiter :=
  { s with ended := s.ended ++ [(w, outcome)] }

/-- One wait's turn in `pump_keyframe_waits`. -/
def pumpOne (now : Nat) (s : Waiter) (w : KeyframeWait) : Waiter :=
  if now - w.startedAt ≥ keyframeSubscribeDeadline then s.stop w .budgetExhausted
  else if w.attempts ≥ keyframeSubscribeMaxAttempts then s.stop w .budgetExhausted
  else if now - w.lastRequestAt < keyframeRequestMinGap then s.keep w
  else if !s.publisherAlive w then s.stop w .publisherGone
  else
    { s with pushed := s.pushed ++ [s.request w.track] }.keep
      { w with lastRequestAt := now, attempts := w.attempts + 1 }

def pumpKeyframeWaits (now : Nat) (s : Waiter) : Waiter :=
  s.keyframeWaits.foldl (pumpOne now) { s with keyframeWaits := [] }

def terminateWaits (track : StreamKey) (outcome : WaitOutcome) (s : Waiter) : Waiter :=
  { s with
    keyframeWaits := s.keyframeWaits.filter (·.track != track)
    ended := s.ended ++ (s.keyframeWaits.filter (·.track == track)).reverse.map (·, outcome) }

def observeKeyframe (origin : ClientId) (mid : Mid) (isKeyframe : Bool) (codec : Codec)
    (s : Waiter) : Waiter :=
  if isKeyframe then s.terminateWaits (origin, mid) .observed
  else
    match codec with
    | .av1 | .vp9 => s.terminateWaits (origin, mid) .codecUnobservable
    | .other => s

/-- Only a packet that was written is observed. -/
def handleMediaDataOut (world : World) (n : Nat) (origin : ClientId) (data : MediaData)
    (isKeyframe : Bool) (codec : Codec) (s : Waiter) : Waiter :=
  let (client, items) := s.client.handleMediaDataOut world n origin data
  let s := { s with client }
  if items.isEmpty then s else s.observeKeyframe origin data.mid isKeyframe codec

end Waiter

/-! ## Runs of one subscriber -/

/-- What a subscriber goes through. One `drain_ws_ctrl` is a series of actions. -/
inductive WaitEvent where
  | negotiation (a : Action)
  /-- `MediaAdded` for a send-only m-line. -/
  | mediaAdded (mid : Mid)
  | mediaDataOut (n : Nat) (origin : ClientId) (data : MediaData) (isKeyframe : Bool)
      (codec : Codec)
  | desiredLayer (rid : Rid)
  | pump (now : Nat)
deriving DecidableEq, Repr

namespace Waiter

def negotiate (env : Env) (s : Waiter) : Action → Waiter
  | .answer now answer => s.acceptRenegotiationAnswer env now answer
  | a => s.withNegotiator (s.client.negotiator.act env a)

def mediaAdded (mid : Mid) (s : Waiter) : Waiter :=
  let tracksOut := s.client.negotiator.tracksOut
  { s.withNegotiator { s.client.negotiator with
      tracksOut := Client.openNegotiating mid tracksOut } with
    opens := s.opens ++ ((tracksOut.find? (·.state == .negotiating mid)).map fun o =>
      (o.trackIn.origin, o.trackIn.mid)).toList }

def step (world : World) (s : Waiter) : WaitEvent → Waiter
  | .negotiation a => s.negotiate (world.negotiation s.client.id) a
  | .mediaAdded mid => s.mediaAdded mid
  | .mediaDataOut n origin data isKeyframe codec =>
    s.handleMediaDataOut world n origin data isKeyframe codec
  | .desiredLayer rid => { s with client := s.client.setDesiredLayer rid }
  | .pump now => s.pumpKeyframeWaits now

end Waiter

def waiter (world : World) : Machine Waiter WaitEvent Unit := ⟨fun s e => (s.step world e, ())⟩

/-! ## The budget -/

/-- The track a keyframe request is for. -/
def Propagated.asksFor : Propagated → Option StreamKey
  | .keyframeRequest _ _ source mid => some (source, mid)
  | _ => none

namespace Waiter

/-- The subscribe-triggered requests for a track. -/
def requests (track : StreamKey) (s : Waiter) : Nat :=
  s.pushed.countP (·.asksFor == some track)

/-- The requests that pending waits may still send. -/
def reserve (track : StreamKey) (ws : List KeyframeWait) : Nat :=
  (ws.map fun w =>
    if w.track = track then keyframeSubscribeMaxAttempts - w.attempts else 0).sum

/-- The requests for a track, sent or still to be sent. -/
def charge (track : StreamKey) (s : Waiter) : Nat :=
  s.requests track + reserve track s.keyframeWaits

/-- What is charged to a track is covered by its openings. -/
def InBudget (s : Waiter) : Prop :=
  ∀ track, s.charge track ≤ keyframeSubscribeMaxAttempts * s.opens.count track

/-- An accepted answer finds no open video track whose wait has ended, unless it opens another entry
of the same track. -/
def RenewsNoWait (s : Waiter) : WaitEvent → Prop
  | .negotiation (.answer _ .accepted) =>
    s.client.negotiator.pendingOffer.isSome →
      s.client.negotiator.tracksOut.any (·.isNegotiating) →
      ∀ track ∈ s.client.openVideoTracks, s.waitsFor track ∨ track ∈ s.negotiatingTracks
  | _ => True

instance : ∀ (s : Waiter) (e : WaitEvent), Decidable (s.RenewsNoWait e) := by
  intro s e
  unfold RenewsNoWait
  split <;> infer_instance

section Charge

variable {s : Waiter} {track other : StreamKey} {now : Nat}

@[simp] theorem reserve_nil : reserve track [] = 0 := rfl

@[simp] theorem reserve_cons (w : KeyframeWait) (ws : List KeyframeWait) :
    reserve track (w :: ws) =
      (if w.track = track then keyframeSubscribeMaxAttempts - w.attempts else 0) +
        reserve track ws := by
  simp [reserve]

@[simp] theorem reserve_append (ws ws' : List KeyframeWait) :
    reserve track (ws ++ ws') = reserve track ws + reserve track ws' := by
  simp [reserve]

theorem reserve_le_of_sublist {ws ws' : List KeyframeWait} (h : ws.Sublist ws') :
    reserve track ws ≤ reserve track ws' :=
  (h.map _).sum_le_sum (by simp)

/-- A new wait charges its track with a full budget, and no other track. -/
theorem charge_startKeyframeWait : (s.startKeyframeWait now other).charge track =
    s.charge track +
      if other = track ∧ s.waitsFor track = false then keyframeSubscribeMaxAttempts else 0 := by
  unfold startKeyframeWait
  split
  next hw => grind
  next hw =>
    simp only [charge, requests, List.countP_append, List.countP_singleton, request,
      Propagated.asksFor, reserve_append, reserve_cons, reserve_nil, KeyframeWait.track,
      keyframeSubscribeMaxAttempts]
    grind

theorem waitsFor_startKeyframeWait : (s.startKeyframeWait now other).waitsFor track =
    (s.waitsFor track || other == track) := by
  unfold startKeyframeWait
  split
  next hw => grind
  next hw => simp [waitsFor, KeyframeWait.track]

/-- Starting waits for a list of tracks charges each track at most once. -/
theorem charge_foldl_startKeyframeWait (tracks : List StreamKey) :
    (tracks.foldl (startKeyframeWait now) s).charge track ≤ s.charge track +
      if track ∈ tracks ∧ s.waitsFor track = false then keyframeSubscribeMaxAttempts else 0 := by
  induction tracks generalizing s with
  | nil => simp
  | cons t tracks ih =>
    refine (ih (s := s.startKeyframeWait now t)).trans ?_
    rw [charge_startKeyframeWait, waitsFor_startKeyframeWait]
    grind

/-- A wait's turn never adds to the charge: a retry moves one request from its reserve to the sent
ones. -/
theorem charge_pumpOne (w : KeyframeWait) :
    (s.pumpOne now w).charge track ≤ s.charge track + reserve track [w] := by
  unfold pumpOne
  split
  · simp [charge, stop, requests]
  split
  · simp [charge, stop, requests]
  next hattempts =>
  split
  · simp [charge, keep, requests, Nat.add_assoc]
  split
  · simp [charge, stop, requests]
  · simp only [charge, keep, reserve_append, reserve_cons, reserve_nil, KeyframeWait.track, request,
      requests, List.countP_append, List.countP_singleton, Propagated.asksFor]
    grind

theorem charge_foldl_pumpOne (ws : List KeyframeWait) :
    (ws.foldl (pumpOne now) s).charge track ≤ s.charge track + reserve track ws := by
  induction ws generalizing s with
  | nil => simp
  | cons w ws ih =>
    have hhead : (s.pumpOne now w).charge track ≤ s.charge track + reserve track [w] :=
      charge_pumpOne w
    have htail := ih (s := s.pumpOne now w)
    simp only [reserve_cons, reserve_nil] at hhead ⊢
    exact htail.trans (by omega)

theorem charge_pumpKeyframeWaits : (s.pumpKeyframeWaits now).charge track ≤ s.charge track :=
  (charge_foldl_pumpOne _).trans (by simp [charge, requests])

theorem charge_observeKeyframe (origin : ClientId) (mid : Mid) (isKeyframe : Bool) (codec : Codec) :
    (s.observeKeyframe origin mid isKeyframe codec).charge track ≤ s.charge track := by
  have hterminate : ∀ ended outcome,
      (s.terminateWaits ended outcome).charge track ≤ s.charge track :=
    fun _ _ => Nat.add_le_add_left (reserve_le_of_sublist List.filter_sublist) _
  unfold observeKeyframe
  split
  · exact hterminate _ _
  · split
    · exact hterminate _ _
    · exact hterminate _ _
    · exact le_rfl

end Charge

section Opens

variable {s : Waiter} {now : Nat}

theorem opens_foldl_startKeyframeWait (tracks : List StreamKey) :
    (tracks.foldl (startKeyframeWait now) s).opens = s.opens := by
  induction tracks generalizing s with
  | nil => rfl
  | cons t tracks ih =>
    refine ih.trans ?_
    unfold startKeyframeWait
    split <;> rfl

theorem opens_pumpKeyframeWaits : (s.pumpKeyframeWaits now).opens = s.opens := by
  have hfold : ∀ (ws : List KeyframeWait) (s : Waiter),
      (ws.foldl (pumpOne now) s).opens = s.opens := by
    intro ws
    induction ws with
    | nil => exact fun _ => rfl
    | cons w ws ih =>
      intro s
      refine (ih _).trans ?_
      unfold pumpOne
      grind [stop, keep]
  exact hfold _ _

theorem opens_observeKeyframe (origin : ClientId) (mid : Mid) (isKeyframe : Bool) (codec : Codec) :
    (s.observeKeyframe origin mid isKeyframe codec).opens = s.opens := by
  unfold observeKeyframe
  grind [terminateWaits]

end Opens

theorem InBudget.of_charge_le {s t : Waiter} (h : s.InBudget)
    (hcharge : ∀ track, t.charge track ≤ s.charge track) (hopens : t.opens = s.opens) :
    t.InBudget :=
  fun track => hopens ▸ (hcharge track).trans (h track)

/-- More openings only widen the budget. -/
theorem InBudget.of_opens_append {s t : Waiter} (h : s.InBudget) {opened : List StreamKey}
    (hcharge : ∀ track, t.charge track = s.charge track) (hopens : t.opens = s.opens ++ opened) :
    t.InBudget := by
  intro track
  rw [hcharge, hopens, List.count_append, Nat.mul_add]
  exact (h track).trans (Nat.le_add_right _ _)

/-- A track that receives video after the flip did so before, or was being negotiated. -/
theorem mem_openVideoTracks_flip {s : Waiter} {offer : Nat} {track : StreamKey}
    (h : track ∈ (s.flipNegotiatingToOpenAll offer).client.openVideoTracks) :
    track ∈ s.client.openVideoTracks ∨ track ∈ s.negotiatingTracks := by
  simp only [Client.openVideoTracks, negotiatingTracks, flipNegotiatingToOpenAll, List.mem_map,
    List.mem_filter, Negotiator.flipNegotiatingToOpenAll] at h ⊢
  obtain ⟨o', ⟨⟨o, ho, rfl⟩, hvideo⟩, rfl⟩ := h
  cases hn : o.isNegotiating with
  | true => exact .inr ⟨o, ⟨ho, hn⟩, by simp⟩
  | false =>
    have hflip : o.flip = o := by
      unfold TrackOut.flip
      unfold TrackOut.isNegotiating at hn
      grind
    rw [hflip] at hvideo ⊢
    exact .inl ⟨o, ⟨ho, hvideo⟩, rfl⟩

theorem InBudget.answered {s : Waiter} (h : s.InBudget) {now : Nat} {answer : Answer}
    (hrenews : s.RenewsNoWait (.negotiation (.answer now answer))) :
    (s.answered now answer).InBudget := by
  unfold Waiter.answered
  split
  next offer hoffer =>
    split
    next hany =>
      intro track
      rw [startKeyframeWaitsForOpenVideoTracks, opens_foldl_startKeyframeWait]
      refine (charge_foldl_startKeyframeWait _).trans ?_
      rw [flipNegotiatingToOpenAll, List.count_append, Nat.mul_add]
      refine Nat.add_le_add (h track) ?_
      split
      next hstarts =>
        have hopen : track ∈ s.negotiatingTracks := by
          rcases mem_openVideoTracks_flip hstarts.1 with hopen | hopen
          · have hended : s.waitsFor track = false := hstarts.2
            have hwaits := hrenews (by simp [hoffer]) hany track hopen
            simpa [hended] using hwaits
          · exact hopen
        exact Nat.le_mul_of_pos_right _ (List.count_pos_iff.2 hopen)
      next => exact Nat.zero_le _
    next => exact h
  next => exact h

theorem InBudget.step {world : World} {s : Waiter} (h : s.InBudget) {e : WaitEvent}
    (hrenews : s.RenewsNoWait e) : (s.step world e).InBudget := by
  cases e with
  | negotiation a =>
    cases a with
    | answer now answer => exact (h.answered hrenews).of_charge_le (fun _ => le_rfl) rfl
    | trackOpen now t => exact h
    | timeout now => exact h
    | wsClosed => exact h
    | departure origin => exact h
  | mediaAdded mid => exact h.of_opens_append (fun _ => rfl) rfl
  | mediaDataOut n origin data isKeyframe codec =>
    simp only [Waiter.step, handleMediaDataOut]
    split
    · exact h
    · exact h.of_charge_le (fun _ => charge_observeKeyframe ..) (opens_observeKeyframe ..)
  | desiredLayer rid => exact h
  | pump now => exact h.of_charge_le (fun _ => charge_pumpKeyframeWaits) opens_pumpKeyframeWaits

/-- The subscribe-triggered requests for a track are at most five for each time an entry for it
turned open, in every run in which no accepted answer finds an open video track without a wait. -/
theorem requests_le_of_renewsNoWait (world : World) (c : Client) (events : List WaitEvent)
    (hrenews : (waiter world).Allowed RenewsNoWait (.init c) events) (track : StreamKey) :
    ((waiter world).run (.init c) events).requests track ≤
      5 * ((waiter world).run (.init c) events).opens.count track := by
  have hinit : (Waiter.init c).InBudget := fun _ => Nat.zero_le _
  have hrun : ((waiter world).run (.init c) events).InBudget :=
    Machine.run_of_allowed (fun _ _ hs he => hs.step he) hinit hrenews
  exact (Nat.le_add_right _ _).trans (hrun track)

end Waiter

/-! ### Two renegotiations -/

def subscribing : Waiter := .init (.newBrowser pacedConfig 0 1)

/-- The first answer opens the video of client 1, the second an audio track of client 2. Between
them the wait for the video is pumped. -/
def twoTracks (pumps : List Nat) : List WaitEvent :=
  [.negotiation (.trackOpen 0 (sampleTrack 1)), .negotiation (.answer 0 .accepted)] ++
  pumps.map WaitEvent.pump ++
  [.negotiation (.trackOpen 5000 ⟨2, "a", .audio, none⟩), .negotiation (.answer 5500 .accepted)]

/-- The second answer arrives while the video is still waited for. -/
theorem requests_le_of_renewsNoWait_pending :
    (waiter (pacedWorld none .noChange)).Allowed Waiter.RenewsNoWait subscribing
        (twoTracks [1000, 2000]) ∧
      ((waiter (pacedWorld none .noChange)).run subscribing (twoTracks [1000, 2000])).requests
          (1, "v") ≤
        5 * ((waiter (pacedWorld none .noChange)).run subscribing
          (twoTracks [1000, 2000])).opens.count (1, "v") :=
  have hrenews : (waiter (pacedWorld none .noChange)).Allowed Waiter.RenewsNoWait subscribing
      (twoTracks [1000, 2000]) := by decide +kernel
  ⟨hrenews, Waiter.requests_le_of_renewsNoWait _ _ _ hrenews _⟩

/-- The wait for the video is exhausted after five requests. The answer for the audio track begins
it anew, and the video has turned open only once. -/
theorem sixth_request_after_one_open :
    let s := (waiter (pacedWorld none .noChange)).run subscribing
      (twoTracks [1000, 2000, 3000, 4000, 5000])
    s.requests (1, "v") = 6 ∧ s.opens.count (1, "v") = 1 := by
  decide +kernel

end PartnerEdge.Sfu
