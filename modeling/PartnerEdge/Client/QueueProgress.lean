import PartnerEdge.Client.Subscriptions

/-!
# Progress of the renegotiation queue

The queue is only drained by an answer or a timeout, so a queued track whose publisher is present
needs an offer in flight. An offer that str0m does not make or that meets a full outbound queue, an
answer that does not parse and a queue head whose publisher has left each end a step without one.
In runs without these the queue never stalls.
-/

namespace PartnerEdge.Client

open Svc

namespace Negotiator

/-- Some queued track has a present publisher. -/
def liveQueued (c : Negotiator) : Bool := c.renegotiationQueue.any (·.upgrades c.departed)

/-- An offer awaits its answer for some negotiating entry. -/
def Awaited (c : Negotiator) : Prop :=
  c.pendingOffer.isSome = true → c.tracksOut.any (·.isNegotiating) = true

def Draining (c : Negotiator) : Prop :=
  c.wsCtrlRx = true → c.liveQueued = true → c.pendingOffer.isSome = true

end Negotiator

/-- str0m makes the offer of the attempt, but the outbound queue is full. -/
def Env.dropsOffer (env : Env) (n : Nat) : Bool := env.applies n && env.offerDropped n

/-- A step that does not end without an offer while a live track is queued. No offer it attempts is
dropped; and an answer to the pending offer finds no live track queued, or it parses, the queue head
is live and the head's offer is made and sent. -/
def Action.keepsDraining (env : Env) (c : Negotiator) : Action → Prop
  | .trackOpen _ t => c.pendingOffer = none → t.upgrades c.departed = true →
      env.dropsOffer c.attempts = false
  | .answer _ sdp => c.pendingOffer.isSome = true → c.liveQueued = true →
      sdp ≠ .unparseable ∧ c.renegotiationQueue.head?.any (·.upgrades c.departed) = true ∧
        env.applies c.attempts = true ∧ env.offerDropped c.attempts = false
  | .timeout _ => ∀ i < (c.renegotiationQueue.filter (·.upgrades c.departed)).length,
      env.dropsOffer (c.attempts + i) = false
  | .wsClosed | .departure _ => True

instance (env : Env) (c : Negotiator) : DecidablePred (Action.keepsDraining env c)
  | .trackOpen _ _ => inferInstanceAs (Decidable (_ → _ → _))
  | .answer _ _ => inferInstanceAs (Decidable (_ → _ → _ ∧ _ ∧ _ ∧ _))
  | .timeout _ => inferInstanceAs (Decidable (∀ i < _, env.dropsOffer (c.attempts + i) = false))
  | .wsClosed | .departure _ => inferInstanceAs (Decidable True)

namespace Negotiator

variable {env : Env} {now : Nat} {c : Negotiator}

/-! ## Every pending offer has its entry -/

theorem Awaited.startRenegotiation (h : c.Awaited) (t : TrackIn) :
    (c.startRenegotiation env now t).Awaited := by
  obtain ⟨_, heq⟩ | ⟨_, ⟨_, heq⟩ | ⟨_, heq⟩ | ⟨_, _, heq⟩⟩ :=
    c.startRenegotiation_cases env now t <;> rw [heq]
  · exact h
  · exact h
  · exact fun hpending => absurd hpending Bool.false_ne_true
  · intro _
    simp [TrackOut.isNegotiating]

theorem Awaited.drainOne (h : c.Awaited) : (c.drainOne env now).Awaited := by
  unfold Negotiator.drainOne
  split
  · exact h
  · next next rest _ =>
    have h' : Awaited { c with renegotiationQueue := rest } := h
    exact h'.startRenegotiation next

theorem Awaited.of_none (h : c.pendingOffer = none) : c.Awaited := by
  intro hpending
  simp [h] at hpending

theorem Awaited.act (h : c.Awaited) (a : Action) : (c.act env a).Awaited := by
  cases a with
  | trackOpen now t =>
    simp only [Negotiator.act, Negotiator.handleTrackOpen]
    split
    · intro hpending
      simp [h hpending]
    · split
      · exact h
      · exact h.startRenegotiation t
  | answer now a =>
    obtain ⟨hnone, heq⟩ | ⟨offer, _, ⟨_, heq⟩ | ⟨_, heq⟩ | ⟨_, _, heq⟩ | ⟨_, _, heq⟩⟩ :=
      c.acceptRenegotiationAnswer_cases env now a <;> rw [Negotiator.act, heq]
    · exact .of_none hnone
    · exact .of_none rfl
    · exact (Awaited.of_none rfl).drainOne
    · exact (Awaited.of_none rfl).drainOne
    · exact .of_none rfl
  | timeout now =>
    have hfold : ∀ (ts : List TrackIn) (c : Negotiator), c.Awaited →
        (ts.foldl (fun c t => c.startRenegotiation env now t) c).Awaited := by
      intro ts
      induction ts with
      | nil => exact fun _ h => h
      | cons t ts ih => exact fun c h => ih _ (h.startRenegotiation t)
    exact hfold _ _ (.of_none rfl)
  | wsClosed =>
    simp only [Negotiator.act, closeWsCtrl]
    split
    · exact .of_none rfl
    · exact h
  | departure origin => exact h

/-! ## Steps that keep draining -/

/-- An attempt whose offer is not dropped leaves the queue alone. It finds the publisher gone, or
str0m makes no offer, or the offer is in flight. -/
theorem startRenegotiation_of_not_dropped {t : TrackIn}
    (hsent : t.upgrades c.departed = true → env.dropsOffer c.attempts = false) :
    (c.startRenegotiation env now t).renegotiationQueue = c.renegotiationQueue ∧
      ((t.upgrades c.departed = false ∧ c.startRenegotiation env now t = c) ∨
        (env.applies c.attempts = false ∧
          c.startRenegotiation env now t = { c with attempts := c.attempts + 1 }) ∨
        (c.startRenegotiation env now t).pendingOffer.isSome = true) := by
  obtain ⟨hdead, heq⟩ | ⟨hlive, ⟨happly, heq⟩ | ⟨⟨happly, hdrop⟩, _⟩ | ⟨_, _, heq⟩⟩ :=
    c.startRenegotiation_cases env now t
  · exact ⟨by rw [heq], .inl ⟨hdead, heq⟩⟩
  · exact ⟨by rw [heq], .inr (.inl ⟨happly, heq⟩)⟩
  · simp [Env.dropsOffer, happly, hdrop, hlive] at hsent
  · exact ⟨by rw [heq], .inr (.inr (by simp [heq]))⟩

theorem startRenegotiation_attempts (t : TrackIn) :
    (c.startRenegotiation env now t).attempts =
      c.attempts + if t.upgrades c.departed then 1 else 0 := by
  obtain ⟨ht, heq⟩ | ⟨ht, ⟨_, heq⟩ | ⟨_, heq⟩ | ⟨_, _, heq⟩⟩ :=
    c.startRenegotiation_cases env now t <;> simp [heq, ht]

/-- The timeout loop makes one attempt for each live track. -/
theorem foldl_startRenegotiation_queue {ts : List TrackIn}
    (hsent : ∀ i < (ts.filter (·.upgrades c.departed)).length,
      env.dropsOffer (c.attempts + i) = false) :
    (ts.foldl (fun c t => c.startRenegotiation env now t) c).renegotiationQueue =
      c.renegotiationQueue := by
  induction ts generalizing c with
  | nil => rfl
  | cons t ts ih =>
    rw [List.foldl_cons, ih]
    · refine (startRenegotiation_of_not_dropped fun hlive => ?_).1
      exact hsent 0 (by simp [hlive])
    · intro i hi
      rw [startRenegotiation_attempts]
      rw [startRenegotiation_departed] at hi
      cases hlive : t.upgrades c.departed with
      | false => exact hsent i (by simpa [List.filter_cons, hlive] using hi)
      | true =>
        have := hsent (i + 1) (by simpa [List.filter_cons, hlive] using hi)
        simpa [Nat.add_assoc, Nat.add_comm 1] using this

theorem Draining.handleTrackOpen (h : c.Draining) {t : TrackIn}
    (hsent : c.pendingOffer = none → t.upgrades c.departed = true →
      env.dropsOffer c.attempts = false) :
    (c.handleTrackOpen env now t).Draining := by
  unfold Negotiator.handleTrackOpen
  split
  · exact h
  · split
    · next hpending => exact fun _ _ => hpending
    · next hpending =>
      obtain ⟨_, ⟨_, heq⟩ | ⟨_, heq⟩ | hsome⟩ :=
        @startRenegotiation_of_not_dropped env now c t (hsent (by simpa using hpending))
      · rw [heq]
        exact h
      · rw [heq]
        exact h
      · exact fun _ _ => hsome

/-- Once the answered offer is cleared, the head of the queue takes its place. -/
theorem Draining.drainOne (hhead : c.liveQueued = true →
      c.renegotiationQueue.head?.any (·.upgrades c.departed) = true ∧
        env.applies c.attempts = true ∧ env.offerDropped c.attempts = false) :
    (c.drainOne env now).Draining := by
  unfold Negotiator.drainOne
  cases hqueue : c.renegotiationQueue with
  | nil =>
    intro _ hlive
    simp [liveQueued, hqueue] at hlive
  | cons next rest =>
    have hsent : next.upgrades c.departed = true → env.dropsOffer c.attempts = false := by
      intro hlive
      have := hhead (by simp [liveQueued, hqueue, hlive])
      simp [Env.dropsOffer, this]
    obtain ⟨_, ⟨hdead, heq⟩ | ⟨happly, heq⟩ | hsome⟩ :=
      @startRenegotiation_of_not_dropped env now { c with renegotiationQueue := rest } next hsent
    · -- A dead head means that nothing live was queued at all.
      intro _ hlive
      simp only [heq] at hlive ⊢
      have := hhead (by simp_all [liveQueued])
      simp_all
    · intro _ hlive
      simp only [heq] at hlive ⊢
      have := hhead (by simp_all [liveQueued])
      simp_all
    · exact fun _ _ => hsome

theorem Draining.acceptRenegotiationAnswer (h : c.Draining) (hawaited : c.Awaited) {a : Answer}
    (ha : (Action.answer now a).keepsDraining env c) :
    (c.acceptRenegotiationAnswer env now a).Draining := by
  obtain ⟨hnone, heq⟩ | ⟨offer, hoffer, hcases⟩ := c.acceptRenegotiationAnswer_cases env now a
  · rw [heq]
    exact h
  · have hpending : c.pendingOffer.isSome = true := by simp [hoffer]
    have hhead := fun hlive => (ha hpending hlive).2
    obtain ⟨hun, heq⟩ | ⟨_, heq⟩ | ⟨_, _, heq⟩ | ⟨_, hany, _⟩ := hcases
    · rw [heq]
      exact fun _ hlive => absurd hun (ha hpending hlive).1
    · rw [heq]
      exact Draining.drainOne hhead
    · rw [heq]
      exact Draining.drainOne hhead
    · rw [hawaited hpending] at hany
      cases hany

theorem Draining.act (h : c.Draining) (hawaited : c.Awaited) {a : Action}
    (ha : a.keepsDraining env c) : (c.act env a).Draining := by
  cases a with
  | trackOpen now t => exact h.handleTrackOpen ha
  | answer now a => exact h.acceptRenegotiationAnswer hawaited ha
  | timeout now =>
    have hqueue : (c.expireOffer env now).renegotiationQueue = [] :=
      foldl_startRenegotiation_queue (c := c.expired) ha
    intro _ hlive
    simp [Negotiator.act, liveQueued, hqueue] at hlive
  | wsClosed =>
    have hclosed : c.closeWsCtrl.wsCtrlRx = false := by
      simp only [closeWsCtrl]
      split <;> rfl
    intro hopen
    simp [Negotiator.act, hclosed] at hopen
  | departure origin =>
    intro hopen hlive
    refine h hopen ?_
    simp only [Negotiator.act, liveQueued, List.any_eq_true, TrackIn.upgrades, List.mem_cons,
      not_or, decide_eq_true_eq] at hlive ⊢
    obtain ⟨t, ht, _, hpresent⟩ := hlive
    exact ⟨t, ht, hpresent⟩

end Negotiator

/-- In every run from a fresh browser whose steps all keep draining, the state reached has an offer
in flight whenever the WebSocket is connected and a queued track has a present publisher. -/
theorem pendingOffer_of_keepsDraining (env : Env) (ks : List Call)
    (hok : (actions env).Allowed (Action.keepsDraining env) .newBrowser
      (callsActions env .newBrowser ks)) :
    ((calls env).run .newBrowser ks).wsCtrlRx = true →
      (∃ t ∈ ((calls env).run .newBrowser ks).renegotiationQueue,
        t.upgrades ((calls env).run .newBrowser ks).departed = true) →
      ((calls env).run .newBrowser ks).pendingOffer.isSome = true := by
  have hinv : ((calls env).run .newBrowser ks).Awaited ∧
      ((calls env).run .newBrowser ks).Draining := by
    rw [calls_run]
    exact Machine.run_of_allowed (I := fun c => c.Awaited ∧ c.Draining)
      (fun _ a h ha => ⟨h.1.act a, h.2.act h.1 ha⟩)
      ⟨.of_none rfl, fun _ hlive => absurd hlive Bool.false_ne_true⟩ hok
  intro hopen hlive
  exact hinv.2 hopen (List.any_eq_true.mpr hlive)

/-- Three tracks with a departure behind the head; the last one waits for its turn. -/
theorem pendingOffer_of_keepsDraining_rejected :
    let ks := [.handleTrackOpen 0 (sampleTrack 1), .handleTrackOpen 0 (sampleTrack 2),
      .handleTrackOpen 0 (sampleTrack 3), .handleTrackOpen 0 (sampleTrack 4), .departure 3,
      .drainWsCtrl 1 [.rejected] false]
    ((calls (sampleEnv fun _ => false)).run .newBrowser ks).renegotiationQueue =
        [sampleTrack 3, sampleTrack 4] ∧
      ((calls (sampleEnv fun _ => false)).run .newBrowser ks).pendingOffer.isSome = true :=
  ⟨by decide, pendingOffer_of_keepsDraining (sampleEnv fun _ => false) _ (by decide) (by decide)
    ⟨sampleTrack 4, by decide, by decide⟩⟩

/-- A queued live track without an offer in flight: after an answer that does not parse, behind a
queue head that has left, and after an offer that met a full outbound queue. -/
theorem queue_stalls_without_offer :
    let stalled (c : Negotiator) : Prop :=
      c.wsCtrlRx = true ∧ c.renegotiationQueue = [sampleTrack 3] ∧
        (sampleTrack 3).upgrades c.departed = true ∧ c.pendingOffer = none
    stalled ((calls (sampleEnv fun _ => false)).run .newBrowser
        [.handleTrackOpen 0 (sampleTrack 1), .handleTrackOpen 0 (sampleTrack 3),
         .drainWsCtrl 1 [.unparseable] false]) ∧
      stalled ((calls (sampleEnv fun _ => false)).run .newBrowser
        [.handleTrackOpen 0 (sampleTrack 1), .handleTrackOpen 0 (sampleTrack 2),
         .handleTrackOpen 0 (sampleTrack 3), .departure 2, .drainWsCtrl 1 [.accepted] false]) ∧
      stalled ((calls (sampleEnv (· == 0))).run .newBrowser
        [.handleTrackOpen 0 (sampleTrack 3)]) := by
  decide

end PartnerEdge.Client
