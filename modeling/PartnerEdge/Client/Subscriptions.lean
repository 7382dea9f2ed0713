import PartnerEdge.Client.Renegotiation

/-!
# No subscription is lost in renegotiation

A conservation law: as long as its publisher is present, a track that was opened is in `tracksOut`,
in the renegotiation queue, or among the entries that a rejected answer or an offer timeout removed
while they were negotiating. Rollbacks, dropped offers and unparseable answers lose nothing.
-/

namespace PartnerEdge.Client

open Svc

namespace Negotiator

/-- How often the client has the track on record. -/
def recorded (c : Negotiator) (x : TrackIn) : Nat :=
  (c.tracksOut.map (·.trackIn)).count x + c.renegotiationQueue.count x

/-- On record, or removed while negotiating. -/
def accounted (c : Negotiator) (x : TrackIn) : Nat :=
  c.recorded x + (c.removed.map Prod.fst).count x

variable {env : Env} {now : Nat} {x : TrackIn} {c : Negotiator}

section Departed

variable (env) (now)

@[simp] theorem startRenegotiation_departed (t : TrackIn) (c : Negotiator) :
    (c.startRenegotiation env now t).departed = c.departed := by
  obtain ⟨_, h⟩ | ⟨_, ⟨_, h⟩ | ⟨_, h⟩ | ⟨_, _, h⟩⟩ := c.startRenegotiation_cases env now t <;>
    simp [h, clearOffer]

@[simp] theorem handleTrackOpen_departed (t : TrackIn) (c : Negotiator) :
    (c.handleTrackOpen env now t).departed = c.departed := by
  unfold handleTrackOpen
  split
  · rfl
  · split
    · rfl
    · simp

@[simp] theorem drainOne_departed (c : Negotiator) :
    (c.drainOne env now).departed = c.departed := by
  unfold drainOne
  split <;> simp

@[simp] theorem acceptRenegotiationAnswer_departed (a : Answer) (c : Negotiator) :
    (c.acceptRenegotiationAnswer env now a).departed = c.departed := by
  obtain ⟨_, h⟩ | ⟨offer, _, ⟨_, h⟩ | ⟨_, h⟩ | ⟨_, _, h⟩ | ⟨_, _, h⟩⟩ :=
    c.acceptRenegotiationAnswer_cases env now a <;> rw [h] <;>
    simp [clearOffer, removeNegotiating, flipNegotiatingToOpenAll]

theorem foldl_startRenegotiation_departed (ts : List TrackIn) (c : Negotiator) :
    (ts.foldl (fun c t => c.startRenegotiation env now t) c).departed = c.departed :=
  List.foldlRecOn (motive := fun c' : Negotiator => c'.departed = c.departed) _ _ rfl
    fun c' hc' t _ => (startRenegotiation_departed env now t c').trans hc'

@[simp] theorem expireOffer_departed (c : Negotiator) :
    (c.expireOffer env now).departed = c.departed :=
  foldl_startRenegotiation_departed env now _ _

end Departed

section Conservation

/-- What `retain` takes out of `tracksOut` it adds to the removed entries. -/
theorem accounted_removeNegotiating (cause : RemovalCause) (c : Negotiator) :
    (c.removeNegotiating cause).accounted x = c.accounted x := by
  have hsplit := List.countP_eq_countP_filter_add c.tracksOut (fun o => o.trackIn == x)
    (·.isNegotiating)
  simp only [accounted, recorded, removeNegotiating, List.map_append, List.map_map,
    List.count_eq_countP, List.countP_append, List.countP_map, Function.comp_def]
  omega

variable (happly : ∀ n, env.applies n = true) (hx : x.upgrades c.departed = true)
include happly hx

theorem accounted_startRenegotiation (t : TrackIn) :
    (c.startRenegotiation env now t).accounted x = c.accounted x + [t].count x := by
  obtain ⟨ht, h⟩ | ⟨_, ⟨hno, _⟩ | ⟨_, h⟩ | ⟨_, frames, h⟩⟩ := c.startRenegotiation_cases env now t
  · have hne : t ≠ x := by
      rintro rfl
      rw [hx] at ht
      cases ht
    simp [h, hne]
  · rw [happly] at hno
    cases hno
  · rw [h]
    simp only [accounted, recorded, clearOffer, List.count_cons, List.count_nil]
    omega
  · rw [h]
    simp only [accounted, recorded, List.map_append, List.count_append, List.map_singleton]
    omega

theorem accounted_foldl_startRenegotiation (ts : List TrackIn) :
    (ts.foldl (fun c t => c.startRenegotiation env now t) c).accounted x =
      c.accounted x + ts.count x := by
  induction ts generalizing c with
  | nil => rfl
  | cons t ts ih =>
    rw [List.foldl_cons, ih (by simpa using hx), accounted_startRenegotiation happly hx]
    simp only [List.count_cons, List.count_nil]
    omega

theorem accounted_handleTrackOpen (t : TrackIn) :
    (c.handleTrackOpen env now t).accounted x = c.accounted x + [t].count x := by
  unfold handleTrackOpen
  split
  · simp only [accounted, recorded, List.map_append, List.count_append, List.map_singleton]
    omega
  · split
    · simp only [accounted, recorded, List.count_append]
      omega
    · exact accounted_startRenegotiation happly hx t

theorem accounted_drainOne : (c.drainOne env now).accounted x = c.accounted x := by
  unfold drainOne
  split
  · rfl
  · next next rest hq =>
    have hx' : x.upgrades { c with renegotiationQueue := rest }.departed = true := hx
    rw [accounted_startRenegotiation happly hx']
    simp only [accounted, recorded, hq, List.count_cons, List.count_nil]
    omega

theorem accounted_acceptRenegotiationAnswer (a : Answer) :
    (c.acceptRenegotiationAnswer env now a).accounted x = c.accounted x := by
  have hclear : c.clearOffer.accounted x = c.accounted x := rfl
  have hflip : ∀ offer, (c.clearOffer.flipNegotiatingToOpenAll offer).1.accounted x =
      c.accounted x := by
    intro offer
    simp [flipNegotiatingToOpenAll, clearOffer, accounted, recorded, Function.comp_def]
  obtain ⟨_, h⟩ | ⟨offer, _, ⟨_, h⟩ | ⟨_, h⟩ | ⟨_, _, h⟩ | ⟨_, _, h⟩⟩ :=
    c.acceptRenegotiationAnswer_cases env now a
  · rw [h]
    rfl
  · rw [h, hclear]
  · rw [h]
    exact (accounted_drainOne happly (c := c.clearOffer.removeNegotiating .rejectedAnswer) hx).trans
      (accounted_removeNegotiating .rejectedAnswer c.clearOffer)
  · rw [h]
    exact (accounted_drainOne happly
      (c := (c.clearOffer.flipNegotiatingToOpenAll offer).1) hx).trans (hflip offer)
  · rw [h, hflip]

theorem accounted_expireOffer : (c.expireOffer env now).accounted x = c.accounted x := by
  have hremove : (c.clearOffer.removeNegotiating .timeout).accounted x = c.clearOffer.accounted x :=
    accounted_removeNegotiating .timeout c.clearOffer
  have hclear : c.clearOffer.accounted x = c.accounted x := rfl
  have hx' : x.upgrades c.expired.departed = true := hx
  rw [expireOffer, accounted_foldl_startRenegotiation happly hx']
  simp only [expired, accounted, recorded, List.count_nil] at hremove hclear ⊢
  have hqueue : (c.clearOffer.removeNegotiating .timeout).renegotiationQueue =
    c.renegotiationQueue := rfl
  rw [hqueue] at hremove
  omega

end Conservation

/-! ## Removal causes -/

/-- Without a closed WebSocket only rejected answers and timeouts remove entries. -/
def RemovedByOffer (c : Negotiator) : Prop :=
  ∀ r ∈ c.removed, r.2 = .rejectedAnswer ∨ r.2 = .timeout

theorem RemovedByOffer.startRenegotiation (h : c.RemovedByOffer) (t : TrackIn) :
    (c.startRenegotiation env now t).RemovedByOffer := by
  obtain ⟨_, heq⟩ | ⟨_, ⟨_, heq⟩ | ⟨_, heq⟩ | ⟨_, _, heq⟩⟩ :=
    c.startRenegotiation_cases env now t <;> rw [heq] <;> exact h

theorem RemovedByOffer.handleTrackOpen (h : c.RemovedByOffer) (t : TrackIn) :
    (c.handleTrackOpen env now t).RemovedByOffer := by
  unfold Negotiator.handleTrackOpen
  split
  · exact h
  · split
    · exact h
    · exact h.startRenegotiation t

theorem RemovedByOffer.drainOne (h : c.RemovedByOffer) : (c.drainOne env now).RemovedByOffer := by
  unfold Negotiator.drainOne
  split
  · exact h
  · next next rest _ =>
    have h' : RemovedByOffer { c with renegotiationQueue := rest } := h
    exact h'.startRenegotiation next

theorem RemovedByOffer.removeNegotiating (h : c.RemovedByOffer) {cause : RemovalCause}
    (hcause : cause = .rejectedAnswer ∨ cause = .timeout) :
    (c.removeNegotiating cause).RemovedByOffer := by
  intro r hr
  rcases List.mem_append.mp hr with hr | hr
  · exact h r hr
  · obtain ⟨o, _, rfl⟩ := List.mem_map.mp hr
    exact hcause

theorem RemovedByOffer.acceptRenegotiationAnswer (h : c.RemovedByOffer) (a : Answer) :
    (c.acceptRenegotiationAnswer env now a).RemovedByOffer := by
  have hclear : c.clearOffer.RemovedByOffer := h
  have hflip : ∀ offer, (c.clearOffer.flipNegotiatingToOpenAll offer).1.RemovedByOffer :=
    fun _ => h
  obtain ⟨_, heq⟩ | ⟨offer, _, ⟨_, heq⟩ | ⟨_, heq⟩ | ⟨_, _, heq⟩ | ⟨_, _, heq⟩⟩ :=
    c.acceptRenegotiationAnswer_cases env now a <;> rw [heq]
  · exact h
  · exact hclear
  · exact (hclear.removeNegotiating (.inl rfl)).drainOne
  · exact (hflip offer).drainOne
  · exact hflip offer

theorem RemovedByOffer.expireOffer (h : c.RemovedByOffer) :
    (c.expireOffer env now).RemovedByOffer := by
  have hfold : ∀ (ts : List TrackIn) (c : Negotiator), c.RemovedByOffer →
      (ts.foldl (fun c t => c.startRenegotiation env now t) c).RemovedByOffer := by
    intro ts
    induction ts with
    | nil => exact fun _ h => h
    | cons t ts ih => exact fun c h => ih _ (h.startRenegotiation t)
  have hclear : c.clearOffer.RemovedByOffer := h
  exact hfold _ _ (hclear.removeNegotiating (.inr rfl))

end Negotiator

/-! ## Runs of a connected client -/

/-- The call does not find the browser's WebSocket closed. -/
def Call.staysConnected : Call → Bool
  | .drainWsCtrl _ _ channelClosed => !channelClosed
  | _ => true

def Call.openedTrack : Call → List TrackIn
  | .handleTrackOpen _ t => [t]
  | _ => []

def Action.openedTrack : Action → List TrackIn
  | .trackOpen _ t => [t]
  | _ => []

theorem Call.flatMap_openedTrack_actions (c : Negotiator) (k : Call) :
    (k.actions c).flatMap Action.openedTrack = k.openedTrack := by
  cases k with
  | handleTrackOpen now t => rfl
  | departure origin => rfl
  | drainWsCtrl now messages channelClosed =>
    have hanswers : (messages.map (Action.answer now)).flatMap Action.openedTrack = [] := by
      simp [List.flatMap_map, Action.openedTrack]
    simp only [Call.actions, Call.openedTrack]
    split
    · rfl
    · split
      · rfl
      · cases channelClosed <;> simp [hanswers, Action.openedTrack]

theorem flatMap_openedTrack_callsActions (env : Env) (c : Negotiator) (ks : List Call) :
    (callsActions env c ks).flatMap Action.openedTrack = ks.flatMap Call.openedTrack := by
  induction ks generalizing c with
  | nil => rfl
  | cons k ks ih =>
    rw [callsActions, List.flatMap_append, k.flatMap_openedTrack_actions, ih, List.flatMap_cons]

theorem wsClosed_notMem_callsActions (env : Env) (c : Negotiator) {ks : List Call}
    (h : ∀ k ∈ ks, k.staysConnected = true) : ∀ a ∈ callsActions env c ks, a ≠ .wsClosed := by
  induction ks generalizing c with
  | nil => simp [callsActions]
  | cons k ks ih =>
    intro a ha
    rcases List.mem_append.mp ha with ha | ha
    · have hk := h k (by simp)
      cases k with
      | handleTrackOpen now t => simp_all [Call.actions]
      | departure origin => simp_all [Call.actions]
      | drainWsCtrl now messages channelClosed =>
        obtain rfl : channelClosed = false := by simpa [Call.staysConnected] using hk
        simp only [Call.actions] at ha
        grind
    · exact ih _ (fun k hk => h k (by simp [hk])) a ha

variable {env : Env}

/-- The account of every track with a present publisher is the number of times it was opened. -/
def AllAccounted (as : List Action) (c : Negotiator) : Prop :=
  c.RemovedByOffer ∧ ∀ x : TrackIn, x.upgrades c.departed = true →
    c.accounted x = (as.flatMap Action.openedTrack).count x

theorem AllAccounted.act (happly : ∀ n, env.applies n = true) {as : List Action} {c : Negotiator}
    (h : AllAccounted as c) {a : Action} (ha : a ≠ .wsClosed) :
    AllAccounted (as ++ [a]) (c.act env a) := by
  obtain ⟨hremoved, hcount⟩ := h
  simp only [AllAccounted, List.flatMap_append, List.count_append, List.flatMap_singleton]
  cases a with
  | trackOpen now t =>
    refine ⟨hremoved.handleTrackOpen t, fun x hx => ?_⟩
    have hx : x.upgrades c.departed = true := by simpa [Negotiator.act] using hx
    rw [← hcount x hx]
    exact Negotiator.accounted_handleTrackOpen happly hx t
  | answer now a =>
    refine ⟨hremoved.acceptRenegotiationAnswer a, fun x hx => ?_⟩
    have hx : x.upgrades c.departed = true := by simpa [Negotiator.act] using hx
    rw [← hcount x hx]
    exact Negotiator.accounted_acceptRenegotiationAnswer happly hx a
  | timeout now =>
    refine ⟨hremoved.expireOffer, fun x hx => ?_⟩
    have hx : x.upgrades c.departed = true := by simpa [Negotiator.act] using hx
    rw [← hcount x hx]
    exact Negotiator.accounted_expireOffer happly hx
  | wsClosed => exact absurd rfl ha
  | departure origin =>
    refine ⟨hremoved, fun x hx => ?_⟩
    have hx : x.upgrades c.departed = true := by
      simp only [Negotiator.act, TrackIn.upgrades, List.mem_cons, not_or, decide_eq_true_eq] at hx ⊢
      exact hx.2
    rw [← hcount x hx]
    rfl

/-- On a browser client whose WebSocket stays connected, a track that was opened once and whose
publisher is still present is on record exactly once, or it was removed exactly once, while
negotiating, by an answer that str0m rejected or by an offer timeout. -/
theorem openedTrack_recorded_or_removed (env : Env) (happly : ∀ n, env.applies n = true)
    (ks : List Call) (hconnected : ∀ k ∈ ks, k.staysConnected = true) (x : TrackIn)
    (honce : (ks.flatMap Call.openedTrack).count x = 1)
    (hlive : x.upgrades ((calls env).run .newBrowser ks).departed = true) :
    (((calls env).run .newBrowser ks).recorded x = 1 ∧
      ∀ r ∈ ((calls env).run .newBrowser ks).removed, r.1 ≠ x) ∨
    (((calls env).run .newBrowser ks).recorded x = 0 ∧
      ∃ cause, (cause = .rejectedAnswer ∨ cause = .timeout) ∧
        ((calls env).run .newBrowser ks).removed.filter (·.1 = x) = [(x, cause)]) := by
  have hall : AllAccounted (callsActions env .newBrowser ks) ((calls env).run .newBrowser ks) := by
    rw [calls_run]
    exact Machine.run_invariant (P := (· ≠ .wsClosed)) ⟨by simp [Negotiator.RemovedByOffer,
      Negotiator.newBrowser], fun x _ => rfl⟩ (fun as c a ha h => h.act happly ha)
      (wsClosed_notMem_callsActions env _ hconnected)
  generalize (calls env).run .newBrowser ks = c at hall hlive
  obtain ⟨hremoved, hcount⟩ := hall
  have hone := hcount x hlive
  rw [flatMap_openedTrack_callsActions, honce, Negotiator.accounted] at hone
  have hlength : (c.removed.filter (·.1 = x)).length = (c.removed.map Prod.fst).count x := by
    rw [List.count_eq_countP, List.countP_map, List.countP_eq_length_filter]
    congr 1
  rcases Nat.eq_zero_or_pos (c.recorded x) with hzero | hpos
  · refine .inr ⟨hzero, ?_⟩
    obtain ⟨r, hr⟩ := List.length_eq_one_iff.mp
      (show (c.removed.filter (·.1 = x)).length = 1 by omega)
    obtain ⟨hmem, hrx⟩ := List.mem_filter.mp (show r ∈ c.removed.filter (·.1 = x) by simp [hr])
    have hrx : r.1 = x := by simpa using hrx
    exact ⟨r.2, hremoved r hmem, by rw [hr, ← hrx]⟩
  · refine .inl ⟨by omega, fun r hr hrx => ?_⟩
    have hmem : x ∈ c.removed.map Prod.fst := hrx ▸ List.mem_map_of_mem hr
    have := List.count_pos_iff.mpr hmem
    omega

/-- Every attempt gets a longer media id; `dropped` says which offers meet a full queue. -/
def sampleEnv (dropped : Nat → Bool) : Env where
  addMedia n := String.ofList (List.replicate n 'm')
  addMedia_injective := by
    intro m n h
    simpa using congrArg List.length (String.ofList_injective h)
  applies _ := true
  offerDropped := dropped
  mapUpdateDropped _ := false

def sampleTrack (origin : ClientId) : TrackIn := ⟨origin, "v", .video, none⟩

/-- A dropped offer and an answer that does not parse lose nothing: the second track is still
queued. -/
theorem openedTrack_recorded_or_removed_dropped :
    let c := (calls (sampleEnv (· == 1))).run .newBrowser
      [.handleTrackOpen 0 (sampleTrack 1), .drainWsCtrl 1 [.accepted] false,
       .handleTrackOpen 2 (sampleTrack 2), .drainWsCtrl 3 [.unparseable] false]
    c.recorded (sampleTrack 2) = 1 ∧ ∀ r ∈ c.removed, r.1 ≠ sampleTrack 2 := by
  refine (openedTrack_recorded_or_removed (sampleEnv (· == 1)) (fun _ => rfl) _
    (by decide) (sampleTrack 2) (by decide) (by decide)).resolve_right ?_
  rintro ⟨h, _⟩
  revert h
  decide

/-- A rejected answer takes the only record of a track whose publisher is still present. -/
theorem openedTrack_lost_on_rejectedAnswer :
    let c := (calls (sampleEnv fun _ => false)).run .newBrowser
      [.handleTrackOpen 0 (sampleTrack 1), .drainWsCtrl 1 [.rejected] false]
    (sampleTrack 1).upgrades c.departed = true ∧ c.wsCtrlRx = true ∧
      c.recorded (sampleTrack 1) = 0 ∧
      c.removed = [(sampleTrack 1, .rejectedAnswer)] := by
  decide

end PartnerEdge.Client
