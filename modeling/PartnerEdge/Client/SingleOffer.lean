import PartnerEdge.Client.Subscriptions

/-!
# One offer in flight

The client flips or removes all negotiating entries at once, on the belief that there is exactly
one whenever an offer is pending and none otherwise. Two paths break the belief: an answer that does
not parse forgets the offer but keeps its entry, and the timeout loop can start several offers in a
row. Away from these two the belief is an invariant, and an entry opens only on the answer to its
own offer.
-/

namespace PartnerEdge.Client

open Svc

/-- The single-offer property of a state. -/
structure SingleOffer (env : Env) (c : Negotiator) : Prop where
  offer_iff : c.pendingOffer.isSome = true ↔ c.pendingOfferAt.isSome = true
  at_iff : c.pendingOfferAt.isSome = true ↔ c.tracksOut.countP (·.isNegotiating) = 1
  /-- Every open entry went through a recorded flip. -/
  flipped : ∀ o ∈ c.tracksOut, ∀ mid, o.state = .opened mid → ∃ offer, (mid, offer) ∈ c.opened
  /-- A flip happens on the accepted answer to the one offer in which the media id was added. -/
  answered : ∀ mid offer, (mid, offer) ∈ c.opened → ∀ n, env.addMedia n = mid ↔ n = offer

/-- A step that cannot start a second offer or forget the first: no unparseable answer to a pending
offer, and at a timeout at most one queued track with a present publisher. -/
def Action.keepsSingleOffer (c : Negotiator) : Action → Prop
  | .answer _ .unparseable => c.pendingOffer = none
  | .timeout _ => (c.renegotiationQueue.filter (·.upgrades c.departed)).length ≤ 1
  | _ => True

instance (c : Negotiator) : DecidablePred (Action.keepsSingleOffer c)
  | .answer _ .unparseable => inferInstanceAs (Decidable (_ = _))
  | .timeout _ => inferInstanceAs (Decidable (_ ≤ _))
  | .answer _ .rejected | .answer _ .accepted | .trackOpen _ _ | .wsClosed | .departure _ =>
    inferInstanceAs (Decidable True)

namespace Negotiator

/-- The media ids of the negotiating entries, in order. -/
def negotiating (c : Negotiator) : List Mid := c.tracksOut.filterMap TrackOut.negotiatingMid

theorem isNegotiating_eq (o : TrackOut) : o.isNegotiating = o.negotiatingMid.isSome := by
  unfold TrackOut.isNegotiating TrackOut.negotiatingMid
  split <;> rfl

theorem countP_isNegotiating (c : Negotiator) :
    c.tracksOut.countP (·.isNegotiating) = c.negotiating.length := by
  rw [negotiating, List.length_filterMap_eq_countP]
  simp only [isNegotiating_eq]

/-- Flips are complete and matched to their offers. -/
structure Flips (env : Env) (c : Negotiator) : Prop where
  flipped : ∀ o ∈ c.tracksOut, ∀ mid, o.state = .opened mid → ∃ offer, (mid, offer) ∈ c.opened
  answered : ∀ mid offer, (mid, offer) ∈ c.opened → mid = env.addMedia offer

/-- No offer in flight and no entry waiting for one. -/
structure Idle (env : Env) (c : Negotiator) : Prop extends Flips env c where
  offer : c.pendingOffer = none
  sentAt : c.pendingOfferAt = none
  negotiating : c.negotiating = []

/-- Idle, or one offer in flight with its entry. -/
inductive Consistent (env : Env) (c : Negotiator) : Prop where
  | idle (h : Idle env c)
  | inFlight (n : Nat) (flips : Flips env c) (offer : c.pendingOffer = some n)
      (sentAt : c.pendingOfferAt.isSome = true) (negotiating : c.negotiating = [env.addMedia n])

variable {env : Env} {now : Nat} {c : Negotiator}

theorem Consistent.flips (h : Consistent env c) : Flips env c := by
  cases h with
  | idle h => exact h.toFlips
  | inFlight n flips => exact flips

/-- Consistency reads the entries, the flips and the offer, nothing else. -/
theorem Consistent.congr (h : Consistent env c) {d : Negotiator}
    (htracks : d.tracksOut = c.tracksOut)
    (hopened : d.opened = c.opened) (hoffer : d.pendingOffer = c.pendingOffer)
    (hat : d.pendingOfferAt = c.pendingOfferAt) : Consistent env d := by
  have hflips : Flips env d := ⟨by rw [htracks, hopened]; exact h.flips.flipped,
    by rw [hopened]; exact h.flips.answered⟩
  have hneg : d.negotiating = c.negotiating := by rw [negotiating, htracks, negotiating]
  cases h with
  | idle h =>
    exact .idle ⟨hflips, hoffer.trans h.offer, hat.trans h.sentAt, hneg.trans h.negotiating⟩
  | inFlight n _ offer sentAt negotiating =>
    exact .inFlight n hflips (hoffer.trans offer) (hat ▸ sentAt) (hneg.trans negotiating)

theorem Consistent.singleOffer (h : Consistent env c) : SingleOffer env c := by
  have hcount := c.countP_isNegotiating
  have hflips := h.flips
  refine ⟨?_, ?_, hflips.flipped, fun mid offer hmem n => ?_⟩
  · cases h with
    | idle h => simp [h.offer, h.sentAt]
    | inFlight n _ offer sentAt => simp [offer, sentAt]
  · cases h with
    | idle h => simp [h.sentAt, hcount, h.negotiating]
    | inFlight n _ _ sentAt negotiating => simp [sentAt, hcount, negotiating]
  · rw [hflips.answered mid offer hmem]
    exact env.addMedia_injective.eq_iff

theorem Idle.startRenegotiation (h : Idle env c) (t : TrackIn) :
    Consistent env (c.startRenegotiation env now t) := by
  obtain ⟨_, heq⟩ | ⟨_, ⟨_, heq⟩ | ⟨_, heq⟩ | ⟨_, frames, heq⟩⟩ :=
    c.startRenegotiation_cases env now t <;> rw [heq]
  · exact .idle h
  · exact .idle ⟨⟨h.flipped, h.answered⟩, h.offer, h.sentAt, h.negotiating⟩
  · exact .idle ⟨⟨h.flipped, h.answered⟩, rfl, rfl, h.negotiating⟩
  · refine .inFlight c.attempts ⟨?_, h.answered⟩ rfl rfl ?_
    · intro o ho mid hmid
      rcases List.mem_append.mp ho with ho | ho
      · exact h.flipped o ho mid hmid
      · rw [List.mem_singleton.mp ho] at hmid
        cases hmid
    · have hnone := h.negotiating
      simp only [Negotiator.negotiating, List.filterMap_append] at hnone ⊢
      rw [hnone]
      rfl

theorem Idle.drainOne (h : Idle env c) : Consistent env (c.drainOne env now) := by
  unfold Negotiator.drainOne
  split
  · exact .idle h
  · next next rest _ =>
    have h' : Idle env { c with renegotiationQueue := rest } :=
      ⟨⟨h.flipped, h.answered⟩, h.offer, h.sentAt, h.negotiating⟩
    exact h'.startRenegotiation next

/-- Forgetting the offer and removing every negotiating entry leaves the client idle. -/
theorem Flips.removeNegotiating (h : Flips env c) (cause : RemovalCause) :
    Idle env (c.clearOffer.removeNegotiating cause) where
  flipped o ho mid hmid := h.flipped o (List.mem_filter.mp ho).1 mid hmid
  answered := h.answered
  offer := rfl
  sentAt := rfl
  negotiating := by
    refine List.filterMap_eq_nil_iff.mpr fun o ho => ?_
    have hnot := (List.mem_filter.mp ho).2
    simpa [isNegotiating_eq] using hnot

/-- Accepting the answer to the pending offer opens its one entry. -/
theorem Flips.flipNegotiatingToOpenAll (h : Flips env c) {n : Nat}
    (hneg : c.negotiating = [env.addMedia n]) :
    Idle env (c.clearOffer.flipNegotiatingToOpenAll n).1 where
  flipped := by
    intro o ho mid hmid
    obtain ⟨o', ho', rfl⟩ := List.mem_map.mp ho
    cases hstate : o'.state with
    | toOpen => simp [TrackOut.flip, hstate] at hmid
    | opened mid' =>
      obtain ⟨offer, hoffer⟩ := h.flipped o' ho' mid (by simpa [TrackOut.flip, hstate] using hmid)
      exact ⟨offer, List.mem_append_left _ hoffer⟩
    | negotiating mid' =>
      obtain rfl : mid' = mid := by simpa [TrackOut.flip, hstate] using hmid
      refine ⟨n, List.mem_append_right _ (List.mem_map_of_mem ?_)⟩
      exact List.mem_filterMap.mpr ⟨o', ho', by simp [TrackOut.negotiatingMid, hstate]⟩
  answered := by
    intro mid offer hmem
    rcases List.mem_append.mp hmem with hmem | hmem
    · exact h.answered mid offer hmem
    · have hlog : c.clearOffer.tracksOut.filterMap TrackOut.negotiatingMid = [env.addMedia n] :=
        hneg
      rw [hlog] at hmem
      simp only [List.map_singleton, List.mem_singleton, Prod.mk.injEq] at hmem
      rw [hmem.1, hmem.2]
  offer := rfl
  sentAt := rfl
  negotiating := by
    refine List.filterMap_eq_nil_iff.mpr fun o ho => ?_
    obtain ⟨o', _, rfl⟩ := List.mem_map.mp ho
    cases hstate : o'.state <;> simp [TrackOut.flip, TrackOut.negotiatingMid, hstate]

/-! ## Steps -/

theorem Consistent.handleTrackOpen (h : Consistent env c) (t : TrackIn) :
    Consistent env (c.handleTrackOpen env now t) := by
  unfold Negotiator.handleTrackOpen
  split
  · have hflips : Flips env { c with tracksOut := c.tracksOut ++ [⟨t, .toOpen⟩] } := by
      refine ⟨?_, h.flips.answered⟩
      intro o ho mid hmid
      rcases List.mem_append.mp ho with ho | ho
      · exact h.flips.flipped o ho mid hmid
      · rw [List.mem_singleton.mp ho] at hmid
        cases hmid
    have hneg : Negotiator.negotiating { c with tracksOut := c.tracksOut ++ [⟨t, .toOpen⟩] } =
        c.negotiating := by
      simp [negotiating, TrackOut.negotiatingMid]
    cases h with
    | idle h => exact .idle ⟨hflips, h.offer, h.sentAt, hneg.trans h.negotiating⟩
    | inFlight n _ offer sentAt negotiating =>
      exact .inFlight n hflips offer sentAt (hneg.trans negotiating)
  · split
    · exact h.congr rfl rfl rfl rfl
    · next hnone =>
      cases h with
      | idle h => exact h.startRenegotiation t
      | inFlight n _ offer => simp [offer] at hnone

theorem Consistent.acceptRenegotiationAnswer (h : Consistent env c) {a : Answer}
    (ha : a = .unparseable → c.pendingOffer = none) :
    Consistent env (c.acceptRenegotiationAnswer env now a) := by
  obtain ⟨hnone, heq⟩ | ⟨offer, hoffer, hcases⟩ := c.acceptRenegotiationAnswer_cases env now a
  · rw [heq]
    cases h with
    | idle h => exact (Consistent.idle h).congr rfl rfl rfl h.sentAt.symm
    | inFlight n _ offer => simp [offer] at hnone
  · cases h with
    | idle h => simp [h.offer] at hoffer
    | inFlight n flips hpending _ hneg =>
      obtain rfl : n = offer := by simpa [hpending] using hoffer
      obtain ⟨hun, _⟩ | ⟨_, heq⟩ | ⟨_, _, heq⟩ | ⟨_, hany, heq⟩ := hcases
      · simp [ha hun] at hpending
      · rw [heq]
        exact (flips.removeNegotiating .rejectedAnswer).drainOne
      · rw [heq]
        exact (flips.flipNegotiatingToOpenAll hneg).drainOne
      · rw [heq]
        exact .idle (flips.flipNegotiatingToOpenAll hneg)

/-- A track whose publisher is gone starts nothing. -/
theorem startRenegotiation_of_dead {t : TrackIn} (ht : t.upgrades c.departed = false) :
    c.startRenegotiation env now t = c := by
  simp [Negotiator.startRenegotiation, ht]

theorem foldl_startRenegotiation_of_dead {ts : List TrackIn}
    (h : ∀ t ∈ ts, t.upgrades c.departed = false) :
    ts.foldl (fun c t => c.startRenegotiation env now t) c = c := by
  induction ts with
  | nil => rfl
  | cons t ts ih =>
    rw [List.foldl_cons, startRenegotiation_of_dead (h t (by simp))]
    exact ih fun u hu => h u (by simp [hu])

/-- The timeout loop is harmless when it reaches at most one track with a present publisher. -/
theorem Idle.foldl_startRenegotiation (h : Idle env c) {ts : List TrackIn}
    (hlive : (ts.filter (·.upgrades c.departed)).length ≤ 1) :
    Consistent env (ts.foldl (fun c t => c.startRenegotiation env now t) c) := by
  induction ts with
  | nil => exact .idle h
  | cons t ts ih =>
    rw [List.foldl_cons]
    cases ht : t.upgrades c.departed with
    | false =>
      rw [startRenegotiation_of_dead ht]
      exact ih (by simpa [List.filter_cons, ht] using hlive)
    | true =>
      have hdead : ∀ u ∈ ts, u.upgrades (c.startRenegotiation env now t).departed = false := by
        simpa [List.filter_cons, ht, List.filter_eq_nil_iff] using hlive
      rw [foldl_startRenegotiation_of_dead hdead]
      exact h.startRenegotiation t

theorem Consistent.act (h : Consistent env c) {a : Action} (ha : a.keepsSingleOffer c) :
    Consistent env (c.act env a) := by
  cases a with
  | trackOpen now t => exact h.handleTrackOpen t
  | answer now a =>
    refine h.acceptRenegotiationAnswer fun hun => ?_
    subst hun
    exact ha
  | timeout now =>
    have hidle := h.flips.removeNegotiating .timeout
    have hexpired : Idle env c.expired :=
      ⟨⟨hidle.flipped, hidle.answered⟩, rfl, rfl, hidle.negotiating⟩
    exact hexpired.foldl_startRenegotiation ha
  | wsClosed =>
    simp only [Negotiator.act, closeWsCtrl]
    split
    · exact (Consistent.idle (h.flips.removeNegotiating .wsClosed)).congr rfl rfl rfl rfl
    · exact h.congr rfl rfl rfl rfl
  | departure origin => exact h.congr rfl rfl rfl rfl

theorem Consistent.newBrowser : Consistent env .newBrowser :=
  .idle ⟨⟨by simp [Negotiator.newBrowser], by simp [Negotiator.newBrowser]⟩, rfl, rfl, rfl⟩

end Negotiator

/-- In every run from a fresh browser whose steps neither lose the pending offer to an unparseable
answer nor restart several live tracks at a timeout, the state reached has the single-offer
property. -/
theorem singleOffer_of_keepsSingleOffer (env : Env) (ks : List Call)
    (hok : (actions env).Allowed (fun c a => a.keepsSingleOffer c) .newBrowser
      (callsActions env .newBrowser ks)) :
    SingleOffer env ((calls env).run .newBrowser ks) := by
  rw [calls_run]
  exact (Machine.run_of_allowed (I := Negotiator.Consistent env) (fun _ _ h ha => h.act ha)
    Negotiator.Consistent.newBrowser hok).singleOffer

/-- Three tracks, a rejected answer, a timeout with one track queued and a departure. -/
theorem singleOffer_of_keepsSingleOffer_timeout :
    SingleOffer (sampleEnv fun _ => false) ((calls (sampleEnv fun _ => false)).run .newBrowser
      [.handleTrackOpen 0 (sampleTrack 1), .handleTrackOpen 0 (sampleTrack 2),
       .handleTrackOpen 0 (sampleTrack 3), .drainWsCtrl 1 [.rejected] false, .departure 2,
       .drainWsCtrl 10002 [] false, .drainWsCtrl 10003 [.accepted, .unparseable] false]) :=
  singleOffer_of_keepsSingleOffer _ _ (by decide)

/-- An unparseable answer leaves a negotiating entry without an offer. A timeout with two queued
tracks leaves two negotiating entries, and the answer to the second offer opens both. -/
theorem singleOffer_fails_on_unparseable_and_timeout :
    let env := sampleEnv fun _ => false
    let unparseable := (calls env).run .newBrowser
      [.handleTrackOpen 0 (sampleTrack 1), .drainWsCtrl 1 [.unparseable] false]
    let restarted := (calls env).run .newBrowser
      [.handleTrackOpen 0 (sampleTrack 1), .handleTrackOpen 0 (sampleTrack 2),
       .handleTrackOpen 0 (sampleTrack 3), .drainWsCtrl 10001 [] false]
    let answered := (calls env).run restarted [.drainWsCtrl 10002 [.accepted] false]
    (unparseable.pendingOffer = none ∧ unparseable.tracksOut.countP (·.isNegotiating) = 1) ∧
      (restarted.pendingOffer = some 2 ∧ restarted.tracksOut.countP (·.isNegotiating) = 2) ∧
      (env.addMedia 1, 2) ∈ answered.opened := by
  decide

end PartnerEdge.Client
