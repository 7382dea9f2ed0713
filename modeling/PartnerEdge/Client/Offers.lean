import PartnerEdge.Client.HandedTracks
import PartnerEdge.Client.Subscriptions
import PartnerEdge.Text.Scan

/-!
# The offers of a client

What a client signals when it offers a track: the stream id it gives str0m with the new m-line, and
the `tracks_map_update` frame that follows the offer. The first is made of the id the publisher has
in this process, the second of the peer id of its token. The offers of an action account for all
frames the action sends.
-/

namespace PartnerEdge.Client

open Svc Text

/-- `peer-N` -/
def streamId (n : Nat) : Str := "peer-".toList ++ Nat.toDigits 10 n

theorem streamId_injective : Function.Injective streamId := by
  intro m n h
  have hdigits := List.append_cancel_left h
  have hparse := congrArg parseDigits hdigits
  rwa [parseDigits_toDigits, parseDigits_toDigits, Option.some.injEq] at hparse

structure TracksMapUpdate where
  mid : Mid
  peerId : Nat
  kind : MediaKind
  streamId : Str
deriving DecidableEq, Repr

def buildTracksMapUpdateFrame (mid : Mid) (peerId : Nat) (kind : MediaKind) : TracksMapUpdate :=
  ⟨mid, peerId, kind, streamId peerId⟩

/-- An offer that reached the browser's queue. -/
structure Offer where
  trackIn : TrackIn
  mid : Mid
  /-- The stream id that `add_media` was called with. -/
  streamId : Str
  mapUpdate : Option TracksMapUpdate
deriving DecidableEq, Repr

def Offer.frames (o : Offer) : List WsFrame :=
  .offerRenegotiate o.mid :: o.mapUpdate.toList.map fun u => .tracksMapUpdate u.mid u.peerId u.kind

namespace Negotiator

variable (env : Env)

/-- The offer of `start_renegotiation`, unless the publisher has left, str0m makes none, or it is
dropped. -/
def startOffer (t : TrackIn) (c : Negotiator) : List Offer :=
  let n := c.attempts
  let mid := env.addMedia n
  if t.upgrades c.departed && env.applies n && c.wsMsgTx && !env.offerDropped n then
    [{ trackIn := t
       mid := mid
       streamId := streamId t.origin
       mapUpdate :=
        if env.mapUpdateDropped n then none
        else t.externalPeerId.map fun peerId => buildTracksMapUpdateFrame mid peerId t.kind }]
  else []

/-- The offers of one attempt after the other. -/
def startOffers (now : Nat) : List TrackIn → Negotiator → List Offer
  | [], _ => []
  | t :: ts, c => c.startOffer env t ++ startOffers now ts (c.startRenegotiation env now t)

/-- The offer of the next queued track. -/
def drainOffer (c : Negotiator) : List Offer :=
  match c.renegotiationQueue with
  | [] => []
  | next :: _ => c.startOffer env next

def offers (c : Negotiator) : Action → List Offer
  | .trackOpen _ t => if c.wsMsgTx && c.pendingOffer.isNone then c.startOffer env t else []
  | .answer _ a =>
    match c.pendingOffer, a with
    | some _, .rejected => c.drainOffer env
    | some _, .accepted => if c.tracksOut.any (·.isNegotiating) then c.drainOffer env else []
    | _, _ => []
  | .timeout now => startOffers env now c.renegotiationQueue c.expired
  | .wsClosed | .departure _ => []

/-- The offers of the actions of a call. -/
def offersOf : Negotiator → List Action → List Offer
  | _, [] => []
  | c, a :: as => c.offers env a ++ offersOf (c.act env a) as

/-! ## Offers and frames -/

section Frames

variable {env : Env} {now : Nat} {c : Negotiator} {t : TrackIn}

theorem frames_startRenegotiation : (c.startRenegotiation env now t).frames =
    c.frames ++ (c.startOffer env t).flatMap Offer.frames := by
  unfold startRenegotiation startOffer
  cases hup : t.upgrades c.departed with
  | false => simp
  | true =>
    cases happly : env.applies c.attempts with
    | false => simp [happly]
    | true =>
      cases hws : c.wsMsgTx with
      | false => simp [happly]
      | true =>
        cases hdrop : env.offerDropped c.attempts with
        | true => simp [happly, hdrop, clearOffer]
        | false =>
          cases hpeer : t.externalPeerId <;> cases hupdate : env.mapUpdateDropped c.attempts <;>
            simp [happly, hdrop, announce, hpeer, hupdate, Offer.frames, buildTracksMapUpdateFrame]

theorem frames_foldl_startRenegotiation (ts : List TrackIn) (c : Negotiator) :
    (ts.foldl (fun c t => c.startRenegotiation env now t) c).frames =
      c.frames ++ (startOffers env now ts c).flatMap Offer.frames := by
  induction ts generalizing c with
  | nil => simp [startOffers]
  | cons t ts ih =>
    rw [List.foldl_cons, ih, frames_startRenegotiation, startOffers]
    simp

theorem frames_drainOne : (c.drainOne env now).frames =
    c.frames ++ (c.drainOffer env).flatMap Offer.frames := by
  unfold drainOne drainOffer
  cases c.renegotiationQueue with
  | nil => simp
  | cons next rest => exact frames_startRenegotiation

/-- The frames an action sends are those of its offers. -/
theorem frames_act (a : Action) :
    (c.act env a).frames = c.frames ++ (c.offers env a).flatMap Offer.frames := by
  cases a with
  | trackOpen now t =>
    simp only [act, handleTrackOpen, offers]
    cases c.wsMsgTx with
    | false => simp
    | true =>
      cases c.pendingOffer with
      | some offer => simp
      | none => simpa using frames_startRenegotiation
  | answer now a =>
    obtain ⟨hp, h⟩ | ⟨offer, hp, ⟨rfl, h⟩ | ⟨rfl, h⟩ | ⟨rfl, hany, h⟩ | ⟨rfl, hany, h⟩⟩ :=
      c.acceptRenegotiationAnswer_cases env now a
    · simp [act, h, offers, hp]
    · simp [act, h, offers, clearOffer]
    · rw [act, h, frames_drainOne]
      simp only [offers, hp]
      rfl
    · rw [act, h, frames_drainOne]
      simp only [offers, hp, hany, if_true]
      rfl
    · simp [act, h, offers, hp, hany, clearOffer, flipNegotiatingToOpenAll]
  | timeout now => exact frames_foldl_startRenegotiation c.renegotiationQueue c.expired
  | wsClosed =>
    simp only [act, closeWsCtrl, offers]
    split <;> simp [clearOffer, removeNegotiating]
  | departure origin => simp [act, offers]

theorem frames_run (as : List Action) (c : Negotiator) :
    ((actions env).run c as).frames = c.frames ++ (offersOf env c as).flatMap Offer.frames := by
  induction as generalizing c with
  | nil => simp [offersOf]
  | cons a as ih =>
    rw [Machine.run_cons, ih, offersOf, List.flatMap_append, ← List.append_assoc]
    exact congrArg (· ++ _) (frames_act a)

theorem frames_call (c : Negotiator) (k : Call) : (c.call env k).frames =
    c.frames ++ (offersOf env c (k.actions c)).flatMap Offer.frames := by
  rw [call_eq_run, frames_run]

end Frames

/-! ## What is offered -/

/-- The strings of an offer are made of its track. -/
structure IsSignalled (o : Offer) : Prop where
  mline : o.streamId = streamId o.trackIn.origin
  update : ∀ u ∈ o.mapUpdate, ∃ peerId ∈ o.trackIn.externalPeerId, u.streamId = streamId peerId

section Offered

variable {env : Env} {now : Nat} {c : Negotiator} {t : TrackIn} {o : Offer}

theorem mem_startOffer (ho : o ∈ c.startOffer env t) : IsSignalled o ∧ o.trackIn = t := by
  simp only [startOffer] at ho
  split at ho
  · obtain rfl := List.mem_singleton.1 ho
    refine ⟨⟨rfl, fun u hu => ?_⟩, rfl⟩
    simp only [Option.mem_def] at hu
    split at hu
    · cases hu
    · obtain ⟨peerId, hpeer, rfl⟩ := Option.map_eq_some_iff.1 hu
      exact ⟨peerId, hpeer, rfl⟩
  · cases ho

theorem mem_startOffers {ts : List TrackIn} (ho : o ∈ startOffers env now ts c) :
    IsSignalled o ∧ o.trackIn ∈ ts := by
  induction ts generalizing c with
  | nil => cases ho
  | cons t ts ih =>
    rcases List.mem_append.1 ho with ho | ho
    · obtain ⟨hsignalled, rfl⟩ := mem_startOffer ho
      exact ⟨hsignalled, by simp⟩
    · obtain ⟨hsignalled, hmem⟩ := ih ho
      exact ⟨hsignalled, by simp [hmem]⟩

theorem mem_drainOffer (ho : o ∈ c.drainOffer env) :
    IsSignalled o ∧ o.trackIn ∈ c.renegotiationQueue := by
  unfold drainOffer at ho
  split at ho
  · cases ho
  · next next rest hqueue =>
    obtain ⟨hsignalled, rfl⟩ := mem_startOffer ho
    exact ⟨hsignalled, by simp [hqueue]⟩

/-- An action offers a track that the client was handed before or is handed now. -/
theorem mem_offers {a : Action} (ho : o ∈ c.offers env a) :
    IsSignalled o ∧ (o.trackIn ∈ c.tracks ∨ o.trackIn ∈ a.openedTrack) := by
  have hqueue : o.trackIn ∈ c.renegotiationQueue → o.trackIn ∈ c.tracks := by
    simp only [tracks]
    grind
  cases a with
  | trackOpen now t =>
    simp only [offers] at ho
    split at ho
    · obtain ⟨hsignalled, rfl⟩ := mem_startOffer ho
      exact ⟨hsignalled, .inr (by simp [Action.openedTrack])⟩
    · cases ho
  | answer now a =>
    have hdrain : o ∈ c.drainOffer env := by
      simp only [offers] at ho
      grind
    exact (mem_drainOffer hdrain).imp_right fun hmem => .inl (hqueue hmem)
  | timeout now => exact (mem_startOffers ho).imp_right fun hmem => .inl (hqueue hmem)
  | wsClosed => cases ho
  | departure origin => cases ho

theorem AllTracks.act {P : TrackIn → Prop} (h : c.AllTracks P) {a : Action}
    (ha : ∀ t ∈ a.openedTrack, P t) : (c.act env a).AllTracks P := by
  cases a with
  | trackOpen now t => exact h.handleTrackOpen (ha t (by simp [Action.openedTrack]))
  | answer now a => exact h.acceptRenegotiationAnswer a
  | timeout now => exact h.expireOffer
  | wsClosed => exact h.closeWsCtrl
  | departure origin => exact h

/-- A property of all tracks a client was handed is one of all it offers. -/
theorem AllTracks.mem_offersOf {P : TrackIn → Prop} (h : c.AllTracks P) {as : List Action}
    (has : ∀ t ∈ as.flatMap Action.openedTrack, P t) (ho : o ∈ offersOf env c as) :
    IsSignalled o ∧ P o.trackIn := by
  induction as generalizing c with
  | nil => cases ho
  | cons a as ih =>
    have ha : ∀ t ∈ a.openedTrack, P t := fun t ht => has t (by simp [ht])
    rcases List.mem_append.1 ho with ho | ho
    · exact (mem_offers ho).imp_right fun hmem => hmem.elim (h _) (ha _)
    · exact ih (h.act ha) (fun t ht => has t (List.mem_append_right _ ht)) ho

end Offered

end Negotiator

end PartnerEdge.Client
