import PartnerEdge.Machine.InPlace
import PartnerEdge.Sfu.KeyframeWaits

/-!
# The keyframe waits as the client keeps them

`keyframe_waits` is a vector that is changed by index: the pump updates the waits in place, notes
which ones are over and removes them from the last to the first, and a keyframe removes those of its
track. Here the waits are kept this way, every access is checked, and each wait has a serial number
and the times of its requests, which nothing reads. So whole histories can be told apart: no access
fails, no wait is lost or ends twice, and its requests are a second apart. Forgetting the record
gives the waits of `Waiter`.
-/

namespace PartnerEdge.Sfu

open Svc PartnerEdge.Client InPlace

structure LoggedWait extends KeyframeWait where
  serial : Nat
  requestedAt : List Nat
deriving DecidableEq, Repr

/-- `outcomes` is the counter `sfu_keyframe_on_subscribe_outcome_total`, `started` the number of
waits so far, and `ended` has the removed waits. -/
structure WaitLog where
  client : Client
  keyframeWaits : List LoggedWait
  pushed : List Propagated
  ended : List (LoggedWait × WaitOutcome)
  started : Nat
  outcomes : WaitOutcome → Nat

namespace WaitLog

def init (client : Client) : WaitLog := ⟨client, [], [], [], 0, fun _ => 0⟩

def forget (e : LoggedWait × WaitOutcome) : KeyframeWait × WaitOutcome := (e.1.toKeyframeWait, e.2)

/-- The same client without the record. -/
def plain (s : WaitLog) : Waiter :=
  ⟨s.client, s.keyframeWaits.map (·.toKeyframeWait), s.pushed, s.ended.map forget, []⟩

def withNegotiator (negotiator : Negotiator) (s : WaitLog) : WaitLog :=
  { s with client := { s.client with negotiator } }

/-! ## Waits begin -/

def startKeyframeWait (now : Nat) (s : WaitLog) (track : StreamKey) : WaitLog :=
  if s.keyframeWaits.any (·.track == track) then s
  else
    { s with
      pushed := s.pushed ++ [s.plain.request track]
      keyframeWaits := s.keyframeWaits ++ [⟨⟨track.1, track.2, now, now, 1⟩, s.started, [now]⟩]
      started := s.started + 1 }

def startKeyframeWaitsForOpenVideoTracks (now : Nat) (s : WaitLog) : WaitLog :=
  s.client.openVideoTracks.foldl (startKeyframeWait now) s

def answered (now : Nat) (answer : Answer) (s : WaitLog) : WaitLog :=
  match s.client.negotiator.pendingOffer, answer with
  | some offer, .accepted =>
    if s.client.negotiator.tracksOut.any (·.isNegotiating) then
      (s.withNegotiator (s.client.negotiator.flipNegotiatingToOpenAll offer).1
        ).startKeyframeWaitsForOpenVideoTracks now
    else s
  | _, _ => s

def acceptRenegotiationAnswer (env : Env) (now : Nat) (answer : Answer) (s : WaitLog) : WaitLog :=
  (s.answered now answer).withNegotiator
    (s.client.negotiator.acceptRenegotiationAnswer env now answer)

/-! ## Waits go on and end -/

/-- The waits that a loop has removed, each with one tick of the counter. -/
def record (s : WaitLog) (gone : List (LoggedWait × WaitOutcome)) : WaitLog :=
  { s with
    ended := s.ended ++ gone
    outcomes := gone.foldl (fun n e => Function.update n e.2 (n e.2 + 1)) s.outcomes }

/-- One index of the first loop of `pump_keyframe_waits`. -/
def pumpOne (now : Nat) (s : WaitLog) (pushed : List Propagated) (w : LoggedWait) :
    List Propagated × LoggedWait × Option WaitOutcome :=
  if now - w.startedAt ≥ keyframeSubscribeDeadline then (pushed, w, some .budgetExhausted)
  else if w.attempts ≥ keyframeSubscribeMaxAttempts then (pushed, w, some .budgetExhausted)
  else if now - w.lastRequestAt < keyframeRequestMinGap then (pushed, w, none)
  else if !s.plain.publisherAlive w.toKeyframeWait then (pushed, w, some .publisherGone)
  else
    (pushed ++ [s.plain.request w.track],
      { w with
        lastRequestAt := now, attempts := w.attempts + 1, requestedAt := w.requestedAt ++ [now] },
      none)

def pumpKeyframeWaits (now : Nat) (s : WaitLog) : Option WaitLog := do
  let (pushed, keyframeWaits, gone) ← sweepInPlace (s.pumpOne now) s.pushed s.keyframeWaits
  some ({ s with pushed, keyframeWaits }.record gone)

def terminateWaits (track : StreamKey) (outcome : WaitOutcome) (s : WaitLog) : Option WaitLog :=
  let matching := (s.keyframeWaits.zipIdx.filter (·.1.track == track)).map (·.2)
  if matching.isEmpty then some s
  else do
    let (keyframeWaits, gone) ← removeLoop (matching.map (·, outcome)).reverse s.keyframeWaits []
    some ({ s with keyframeWaits }.record gone)

def observeKeyframe (origin : ClientId) (mid : Mid) (isKeyframe : Bool) (codec : Codec)
    (s : WaitLog) : Option WaitLog :=
  if isKeyframe then s.terminateWaits (origin, mid) .observed
  else
    match codec with
    | .av1 | .vp9 => s.terminateWaits (origin, mid) .codecUnobservable
    | .other => some s

def handleMediaDataOut (world : World) (n : Nat) (origin : ClientId) (data : MediaData)
    (isKeyframe : Bool) (codec : Codec) (s : WaitLog) : Option WaitLog :=
  let (client, items) := s.client.handleMediaDataOut world n origin data
  let s := { s with client }
  if items.isEmpty then some s else s.observeKeyframe origin data.mid isKeyframe codec

def negotiate (env : Env) (s : WaitLog) : Action → WaitLog
  | .answer now answer => s.acceptRenegotiationAnswer env now answer
  | a => s.withNegotiator (s.client.negotiator.act env a)

def step (world : World) (s : WaitLog) : WaitEvent → Option WaitLog
  | .negotiation a => some (s.negotiate (world.negotiation s.client.id) a)
  | .mediaAdded mid => some (s.withNegotiator { s.client.negotiator with
      tracksOut := Client.openNegotiating mid s.client.negotiator.tracksOut })
  | .mediaDataOut n origin data isKeyframe codec =>
    s.handleMediaDataOut world n origin data isKeyframe codec
  | .desiredLayer rid => some { s with client := s.client.setDesiredLayer rid }
  | .pump now => s.pumpKeyframeWaits now

end WaitLog

/-- A failed access ends the run. -/
def waitLog (world : World) : Machine (Option WaitLog) WaitEvent Unit :=
  ⟨fun s e => (s.bind (·.step world e), ())⟩

namespace WaitLog

variable {s s' : WaitLog} {now : Nat}

/-! ## What a loop does -/

/-- The waits after a loop that has visited them, some of which it removes. -/
def parted (s : WaitLog) (pushed : List Propagated)
    (visited : List (LoggedWait × Option WaitOutcome)) : WaitLog :=
  { s with pushed, keyframeWaits := kept visited }.record (removed visited).reverse

theorem pumpKeyframeWaits_eq (now : Nat) (s : WaitLog) : s.pumpKeyframeWaits now =
    some (s.parted (visitAll (s.pumpOne now) s.pushed s.keyframeWaits).1
      (visitAll (s.pumpOne now) s.pushed s.keyframeWaits).2) := by
  rw [pumpKeyframeWaits, sweepInPlace_eq]
  rfl

/-- The visit of a keyframe: the waits of its track go. -/
def observed (track : StreamKey) (outcome : WaitOutcome) (w : LoggedWait) :
    LoggedWait × Option WaitOutcome := (w, if w.track == track then some outcome else none)

theorem marksFrom_observed (track : StreamKey) (outcome : WaitOutcome) (ws : List LoggedWait)
    (k : Nat) : marksFrom k (ws.map (observed track outcome)) =
      ((ws.zipIdx k).filter (·.1.track == track)).map fun x => (x.2, outcome) := by
  induction ws generalizing k with
  | nil => rfl
  | cons w ws ih =>
    rw [List.map_cons, marksFrom_cons, ih, List.zipIdx_cons]
    by_cases hw : w.track == track <;> simp [observed, hw]

theorem terminateWaits_eq (track : StreamKey) (outcome : WaitOutcome) (s : WaitLog) :
    s.terminateWaits track outcome =
      some (s.parted s.pushed (s.keyframeWaits.map (observed track outcome))) := by
  have hremove := removeLoop_eq (s.keyframeWaits.map (observed track outcome)) [] []
  have hwaits : (s.keyframeWaits.map (observed track outcome)).map Prod.fst = s.keyframeWaits := by
    simp [observed, Function.comp_def]
  rw [marksFrom_observed, hwaits, List.append_nil, List.append_nil, List.nil_append] at hremove
  simp only [terminateWaits, List.map_map, Function.comp_def]
  split
  · next hempty =>
    simp only [List.isEmpty_iff, List.map_eq_nil_iff] at hempty
    rw [hempty] at hremove
    simp only [List.map_nil, List.reverse_nil, removeLoop, Option.some.injEq, Prod.mk.injEq,
      eq_comm (a := ([] : List (LoggedWait × WaitOutcome)))] at hremove
    rw [parted, ← hremove.1, hremove.2]
    simp [record]
  · rw [hremove]
    rfl

end WaitLog

/-! ## The books are sound -/

/-- The requests of a wait: one to five, and a second apart. -/
structure LoggedWait.Sound (w : LoggedWait) : Prop where
  attempts : 1 ≤ w.attempts ∧ w.attempts ≤ keyframeSubscribeMaxAttempts
  length : w.requestedAt.length = w.attempts
  last : w.requestedAt.getLast? = some w.lastRequestAt
  spaced : w.requestedAt.IsChain fun t t' => t + keyframeRequestMinGap ≤ t'

namespace WaitLog

variable {s s' : WaitLog} {now : Nat}

/-- All waits that were ever started. -/
def waits (s : WaitLog) : List LoggedWait := s.keyframeWaits ++ s.ended.map Prod.fst

/-- Each serial number is that of exactly one wait, which is pending or has ended. -/
structure Sound (s : WaitLog) : Prop where
  tracks : (s.keyframeWaits.map (·.track)).Nodup
  requests : ∀ w ∈ s.waits, w.Sound
  serials : (s.waits.map (·.serial)).Perm (List.range s.started)
  outcomes : ∀ outcome, s.outcomes outcome = s.ended.countP (·.2 == outcome)

theorem sound_init (client : Client) : (init client).Sound :=
  ⟨.nil, by simp [init, waits], .refl _, fun _ => rfl⟩

theorem record_outcomes (s : WaitLog) (gone : List (LoggedWait × WaitOutcome))
    (outcome : WaitOutcome) :
    (s.record gone).outcomes outcome = s.outcomes outcome + gone.countP (·.2 == outcome) := by
  simp only [record]
  induction gone generalizing s with
  | nil => rfl
  | cons e gone ih =>
    refine (ih { s with outcomes := Function.update s.outcomes e.2 (s.outcomes e.2 + 1) }).trans ?_
    by_cases he : e.2 = outcome
    · subst he
      simp only [Function.update_self, List.countP_cons, beq_self_eq_true, if_true]
      omega
    · simp [Function.update_of_ne (Ne.symm he), he]

/-- A retry comes a second after the request before it, and is not the sixth. -/
theorem pumpOne_sound (pushed : List Propagated) {w : LoggedWait} (h : w.Sound) :
    (s.pumpOne now pushed w).2.1.Sound := by
  fun_cases pumpOne
  · exact h
  · exact h
  · exact h
  · exact h
  · next hattempts hgap _ =>
    refine ⟨⟨by grind, by grind⟩, by simp [h.length], by simp, ?_⟩
    refine List.isChain_append.mpr ⟨h.spaced, .singleton now, ?_⟩
    rintro t ht _ ⟨⟩
    rw [h.last] at ht
    obtain rfl := Option.some.inj ht
    unfold keyframeRequestMinGap at hgap ⊢
    omega

theorem pumpOne_track (pushed : List Propagated) (w : LoggedWait) :
    (s.pumpOne now pushed w).2.1.track = w.track := by
  fun_cases pumpOne <;> rfl

theorem pumpOne_serial (pushed : List Propagated) (w : LoggedWait) :
    (s.pumpOne now pushed w).2.1.serial = w.serial := by
  fun_cases pumpOne <;> rfl

/-- What the pump keeps is younger than the deadline. -/
theorem pumpOne_kept (pushed : List Propagated) (w : LoggedWait)
    (hkept : (s.pumpOne now pushed w).2.2 = none) :
    now < (s.pumpOne now pushed w).2.1.startedAt + 10000 := by
  revert hkept
  fun_cases pumpOne <;> grind [keyframeSubscribeDeadline]

section Sound

variable (h : s.Sound)
include h

/-- The books do not depend on the client. -/
theorem Sound.withClient (client : Client) : { s with client }.Sound :=
  ⟨h.tracks, h.requests, h.serials, h.outcomes⟩

theorem Sound.startKeyframeWait (now : Nat) (track : StreamKey) :
    (s.startKeyframeWait now track).Sound := by
  unfold WaitLog.startKeyframeWait
  split
  · exact h
  · next hnew =>
    simp only [List.any_eq_true, beq_iff_eq, not_exists, not_and] at hnew
    refine ⟨?_, ?_, ?_, h.outcomes⟩
    · rw [List.map_append, List.nodup_append]
      refine ⟨h.tracks, List.nodup_singleton _, ?_⟩
      simp only [List.mem_map, List.map_cons, List.map_nil, List.mem_singleton]
      rintro _ ⟨w, hw, rfl⟩ _ rfl
      exact hnew w hw
    · intro w hw
      simp only [waits, List.append_assoc, List.mem_append, List.mem_singleton] at hw
      rcases hw with hw | rfl | hw
      · exact h.requests w (List.mem_append_left _ hw)
      · exact ⟨⟨le_rfl, Nat.le_of_ble_eq_true rfl⟩, rfl, rfl, .singleton _⟩
      · exact h.requests w (List.mem_append_right _ hw)
    · -- The new wait takes the next number.
      rw [List.range_succ]
      simp only [waits, List.append_assoc, List.map_append, List.singleton_append, List.map_cons]
      refine List.perm_middle.trans ((List.Perm.cons _ ?_).trans
        (List.perm_append_singleton s.started (List.range s.started)).symm)
      simpa only [waits, List.map_append] using h.serials

theorem Sound.startKeyframeWaits (now : Nat) (tracks : List StreamKey) :
    (tracks.foldl (WaitLog.startKeyframeWait now) s).Sound := by
  induction tracks generalizing s with
  | nil => exact h
  | cons track tracks ih => exact ih (h.startKeyframeWait now track)

/-- A loop that keeps the tracks and numbers of the waits, and their requests in order. -/
theorem Sound.parted (pushed : List Propagated) {visited : List (LoggedWait × Option WaitOutcome)}
    (htracks : (visited.map Prod.fst).map (·.track) = s.keyframeWaits.map (·.track))
    (hserials : (visited.map Prod.fst).map (·.serial) = s.keyframeWaits.map (·.serial))
    (hvisited : ∀ v ∈ visited, v.1.Sound) : (s.parted pushed visited).Sound := by
  have hall : (s.parted pushed visited).waits.Perm
      (visited.map Prod.fst ++ s.ended.map Prod.fst) := by
    have hgone : ((removed visited).reverse.map Prod.fst).Perm ((removed visited).map Prod.fst) :=
      (List.reverse_perm _).map _
    simp only [waits, WaitLog.parted, record, List.map_append]
    refine (List.perm_append_comm.append_left _).trans ?_
    rw [← List.append_assoc]
    exact ((hgone.append_left _).trans (kept_append_removed_perm visited)).append_right _
  refine ⟨?_, ?_, ?_, ?_⟩
  · exact List.Nodup.sublist ((kept_sublist visited).map _) (htracks ▸ h.tracks)
  · intro w hw
    rcases List.mem_append.mp (hall.mem_iff.mp hw) with hw | hw
    · obtain ⟨v, hv, rfl⟩ := List.mem_map.mp hw
      exact hvisited v hv
    · exact h.requests w (List.mem_append_right _ hw)
  · refine (hall.map _).trans ?_
    rw [List.map_append, hserials, ← List.map_append]
    exact h.serials
  · intro outcome
    rw [WaitLog.parted, record_outcomes, h.outcomes, ← List.countP_append]
    rfl

theorem Sound.pump (now : Nat) :
    ∃ s', s.pumpKeyframeWaits now = some s' ∧ s'.Sound ∧
      ∀ w ∈ s'.keyframeWaits, now < w.startedAt + 10000 := by
  refine ⟨_, pumpKeyframeWaits_eq now s, h.parted _ (map_visitAll pumpOne_track _ _)
    (map_visitAll pumpOne_serial _ _) ?_, fun w hw => ?_⟩
  · refine forall_mem_visitAll (P := LoggedWait.Sound) (fun pushed w hw => pumpOne_sound pushed hw)
      (fun w hw => h.requests w (List.mem_append_left _ hw)) _
  · have hyoung := forall_mem_visitAll (P := fun _ => True)
      (Q := fun v : LoggedWait × Option WaitOutcome => v.2 = none → now < v.1.startedAt + 10000)
      (fun pushed w _ => pumpOne_kept (s := s) pushed w)
      (fun w (_ : w ∈ s.keyframeWaits) => trivial) s.pushed
    exact hyoung (w, none) (mem_kept.mp hw) rfl

theorem Sound.terminateWaits (track : StreamKey) (outcome : WaitOutcome) :
    ∃ s', s.terminateWaits track outcome = some s' ∧ s'.Sound := by
  have hsame : (s.keyframeWaits.map (observed track outcome)).map Prod.fst = s.keyframeWaits := by
    simp [observed, Function.comp_def]
  refine ⟨_, terminateWaits_eq track outcome s, h.parted _ (by rw [hsame]) (by rw [hsame]) ?_⟩
  intro v hv
  obtain ⟨w, hw, rfl⟩ := List.mem_map.mp hv
  exact h.requests w (List.mem_append_left _ hw)

theorem Sound.handleMediaDataOut (world : World) (n : Nat) (origin : ClientId) (data : MediaData)
    (isKeyframe : Bool) (codec : Codec) :
    ∃ s', s.handleMediaDataOut world n origin data isKeyframe codec = some s' ∧ s'.Sound := by
  have hclient := h.withClient (s.client.handleMediaDataOut world n origin data).1
  simp only [WaitLog.handleMediaDataOut]
  split
  · exact ⟨_, rfl, hclient⟩
  · unfold observeKeyframe
    split
    · exact hclient.terminateWaits _ _
    · split
      · exact hclient.terminateWaits _ _
      · exact hclient.terminateWaits _ _
      · exact ⟨_, rfl, hclient⟩

theorem Sound.negotiate (env : Env) (a : Action) : (s.negotiate env a).Sound := by
  cases a with
  | answer now answer =>
    refine Sound.withClient (s := s.answered now answer) ?_ _
    unfold answered
    split
    · split
      · exact (h.withClient _).startKeyframeWaits now _
      · exact h
    · exact h
  | _ => exact h.withClient _

/-- No access of a step fails, and the books stay sound. -/
theorem Sound.step (world : World) (e : WaitEvent) : ∃ s', s.step world e = some s' ∧ s'.Sound := by
  cases e with
  | negotiation a => exact ⟨_, rfl, h.negotiate _ a⟩
  | mediaAdded mid => exact ⟨_, rfl, h.withClient _⟩
  | mediaDataOut n origin data isKeyframe codec =>
    exact h.handleMediaDataOut world n origin data isKeyframe codec
  | desiredLayer rid => exact ⟨_, rfl, h.withClient _⟩
  | pump now =>
    obtain ⟨s', hs', hsound, -⟩ := h.pump now
    exact ⟨s', hs', hsound⟩

end Sound

theorem sound_run (world : World) (client : Client) (events : List WaitEvent) :
    ∃ s, (waitLog world).run (some (init client)) events = some s ∧ s.Sound :=
  Machine.run_of_step (M := waitLog world) (I := fun o => ∃ s, o = some s ∧ s.Sound)
    (fun _ e ⟨_, hs, hsound⟩ => hs ▸ hsound.step world e) ⟨_, rfl, sound_init client⟩ events

end WaitLog

/-- In every run no access by index fails. At most one wait is pending for each track; every wait,
pending or ended, has sent one to five requests, a second apart; each wait that was started is
pending or has ended once, with one outcome that the counter has; and after a pump no wait is as old
as ten seconds. -/
theorem keyframeWaits_sound (world : World) (client : Client) (events : List WaitEvent) :
    ∃ s, (waitLog world).run (some (.init client)) events = some s ∧
      (s.keyframeWaits.map (·.track)).Nodup ∧
      (∀ w ∈ s.waits, 1 ≤ w.attempts ∧ w.attempts ≤ 5 ∧ w.requestedAt.length = w.attempts ∧
        w.requestedAt.IsChain fun t t' => t + 1000 ≤ t') ∧
      (s.waits.map (·.serial)).Perm (List.range s.started) ∧
      (∀ outcome, s.outcomes outcome = s.ended.countP (·.2 == outcome)) ∧
      ∀ before now, events = before ++ [.pump now] →
        ∀ w ∈ s.keyframeWaits, now < w.startedAt + 10000 := by
  obtain ⟨s, hs, hsound⟩ := WaitLog.sound_run world client events
  refine ⟨s, hs, hsound.tracks, fun w hw => ?_, hsound.serials, hsound.outcomes, ?_⟩
  · have hw := hsound.requests w hw
    exact ⟨hw.attempts.1, hw.attempts.2, hw.length, hw.spaced⟩
  · rintro before now rfl
    obtain ⟨t, ht, htsound⟩ := WaitLog.sound_run world client before
    obtain ⟨t', ht', -, hyoung⟩ := htsound.pump now
    have hlast : (waitLog world).run (some (.init client)) (before ++ [.pump now]) = some t' := by
      rw [Machine.run_append, ht]
      exact ht'
    obtain rfl := Option.some.inj (hs.symm.trans hlast)
    exact hyoung

/-! ## The waits without the record -/

namespace WaitLog

/-- The logged client and the one without a record agree; the ended waits come in another order,
since the loops remove from the last index. -/
structure Agrees (s : WaitLog) (t : Waiter) : Prop where
  client : s.client = t.client
  waits : s.keyframeWaits.map (·.toKeyframeWait) = t.keyframeWaits
  pushed : s.pushed = t.pushed
  ended : (s.ended.map forget).Perm t.ended

variable {s : WaitLog} {t : Waiter} {now : Nat}

/-- What a visit does to a client without a record. -/
def visit (u : Waiter) (pushed : List Propagated)
    (visited : List (LoggedWait × Option WaitOutcome)) : Waiter :=
  { u with
    keyframeWaits := u.keyframeWaits ++ (kept visited).map (·.toKeyframeWait)
    pushed
    ended := u.ended ++ (removed visited).map forget }

theorem pumpOne_plain (s : WaitLog) (now : Nat) (w : LoggedWait) {u : Waiter}
    (hclient : u.client = s.client) : u.pumpOne now w.toKeyframeWait =
      visit u (s.pumpOne now u.pushed w).1 [(s.pumpOne now u.pushed w).2] := by
  have halive : s.plain.publisherAlive w.toKeyframeWait = u.publisherAlive w.toKeyframeWait := by
    simp only [Waiter.publisherAlive, plain, hclient]
  have hrequest : s.plain.request w.track = u.request w.track := by
    simp only [Waiter.request, plain, hclient]
  unfold Waiter.pumpOne pumpOne
  rw [halive, hrequest]
  split
  · simp [visit, Waiter.stop, kept, removed, forget]
  split
  · simp [visit, Waiter.stop, kept, removed, forget]
  split
  · simp [visit, Waiter.keep, kept, removed]
  split
  · simp [visit, Waiter.stop, kept, removed, forget]
  · simp [visit, Waiter.keep, kept, removed]

/-- The pump of `Waiter` is the traversal. -/
theorem foldl_pumpOne (s : WaitLog) (now : Nat) (ws : List LoggedWait) (u : Waiter)
    (hclient : u.client = s.client) :
    (ws.map (·.toKeyframeWait)).foldl (Waiter.pumpOne now) u =
      visit u (visitAll (s.pumpOne now) u.pushed ws).1
        (visitAll (s.pumpOne now) u.pushed ws).2 := by
  induction ws generalizing u with
  | nil => simp [visitAll, visit, kept, removed]
  | cons w ws ih =>
    have hrest := ih (visit u (s.pumpOne now u.pushed w).1 [(s.pumpOne now u.pushed w).2]) hclient
    have hparts := kept_append [(s.pumpOne now u.pushed w).2]
      (visitAll (s.pumpOne now) (s.pumpOne now u.pushed w).1 ws).2
    have hparts' := removed_append [(s.pumpOne now u.pushed w).2]
      (visitAll (s.pumpOne now) (s.pumpOne now u.pushed w).1 ws).2
    rw [List.map_cons, List.foldl_cons, pumpOne_plain s now w hclient, hrest]
    simp only [visitAll, visit, List.singleton_append, List.append_assoc] at hparts hparts' ⊢
    rw [hparts, hparts', List.map_append, List.map_append]

section Agrees

variable (h : s.Agrees t)
include h

theorem Agrees.request (track : StreamKey) : s.plain.request track = t.request track := by
  simp only [Waiter.request, plain, h.client]

theorem Agrees.withClient (client : Client) : { s with client }.Agrees { t with client } :=
  ⟨rfl, h.waits, h.pushed, h.ended⟩

theorem Agrees.startKeyframeWait (now : Nat) (track : StreamKey) :
    (s.startKeyframeWait now track).Agrees (t.startKeyframeWait now track) := by
  have hwaits : s.keyframeWaits.any (·.track == track) = t.waitsFor track := by
    rw [Waiter.waitsFor, ← h.waits, List.any_map]
    rfl
  unfold WaitLog.startKeyframeWait Waiter.startKeyframeWait
  rw [hwaits]
  split
  · exact h
  · exact ⟨h.client, by simp [h.waits], by simp only [h.pushed, h.request], h.ended⟩

theorem Agrees.startKeyframeWaits (now : Nat) (tracks : List StreamKey) :
    (tracks.foldl (WaitLog.startKeyframeWait now) s).Agrees
      (tracks.foldl (Waiter.startKeyframeWait now) t) := by
  induction tracks generalizing s t with
  | nil => exact h
  | cons track tracks ih => exact ih (h.startKeyframeWait now track)

theorem Agrees.pump (now : Nat) :
    ∃ s', s.pumpKeyframeWaits now = some s' ∧ s'.Agrees (t.pumpKeyframeWaits now) := by
  refine ⟨_, pumpKeyframeWaits_eq now s, ?_⟩
  rw [Waiter.pumpKeyframeWaits, ← h.waits, foldl_pumpOne s now s.keyframeWaits
    { t with keyframeWaits := [] } h.client.symm]
  simp only [← h.pushed]
  refine ⟨h.client, (List.nil_append _).symm, rfl, ?_⟩
  simp only [parted, record, List.map_append]
  exact h.ended.append ((List.reverse_perm _).map _)

theorem Agrees.terminateWaits (track : StreamKey) (outcome : WaitOutcome) :
    ∃ s', s.terminateWaits track outcome = some s' ∧
      s'.Agrees (t.terminateWaits track outcome) := by
  have hkept : (kept (s.keyframeWaits.map (observed track outcome))).map (·.toKeyframeWait) =
      (s.keyframeWaits.map (·.toKeyframeWait)).filter (·.track != track) := by
    induction s.keyframeWaits with
    | nil => rfl
    | cons w ws ih => by_cases hw : w.track = track <;> simp_all [kept, observed]
  have hgone : (removed (s.keyframeWaits.map (observed track outcome))).map forget =
      ((s.keyframeWaits.map (·.toKeyframeWait)).filter (·.track == track)).map (·, outcome) := by
    induction s.keyframeWaits with
    | nil => rfl
    | cons w ws ih => by_cases hw : w.track = track <;> simp_all [removed, observed, forget]
  refine ⟨_, terminateWaits_eq track outcome s, h.client, ?_, h.pushed, ?_⟩
  · rw [Waiter.terminateWaits, ← h.waits, ← hkept]
    rfl
  · simp only [parted, record, Waiter.terminateWaits, ← h.waits, List.map_append, List.map_reverse,
      ← hgone]
    exact h.ended.append_right _

theorem Agrees.observeKeyframe (origin : ClientId) (mid : Mid) (isKeyframe : Bool) (codec : Codec) :
    ∃ s', s.observeKeyframe origin mid isKeyframe codec = some s' ∧
      s'.Agrees (t.observeKeyframe origin mid isKeyframe codec) := by
  unfold WaitLog.observeKeyframe Waiter.observeKeyframe
  split
  · exact h.terminateWaits _ _
  · cases codec with
    | av1 => exact h.terminateWaits _ _
    | vp9 => exact h.terminateWaits _ _
    | other => exact ⟨s, rfl, h⟩

theorem Agrees.answered (now : Nat) (answer : Answer) :
    (s.answered now answer).Agrees (t.answered now answer) := by
  have hopened (offer : Nat) :
      (s.withNegotiator (t.client.negotiator.flipNegotiatingToOpenAll offer).1).Agrees
        (t.flipNegotiatingToOpenAll offer) := by
    refine ⟨?_, h.waits, h.pushed, h.ended⟩
    simp only [WaitLog.withNegotiator, Waiter.flipNegotiatingToOpenAll, h.client]
  unfold WaitLog.answered Waiter.answered
  rw [h.client]
  cases t.client.negotiator.pendingOffer with
  | none => exact h
  | some offer =>
    cases answer with
    | accepted =>
      dsimp only
      split
      · unfold WaitLog.startKeyframeWaitsForOpenVideoTracks
          Waiter.startKeyframeWaitsForOpenVideoTracks
        rw [congrArg Client.openVideoTracks (hopened offer).client]
        exact (hopened offer).startKeyframeWaits now _
      · exact h
    | _ => exact h

theorem Agrees.negotiate (env : Env) (a : Action) :
    (s.negotiate env a).Agrees (t.negotiate env a) := by
  have hplain (negotiator : Negotiator) :
      (s.withNegotiator negotiator).Agrees (t.withNegotiator negotiator) := by
    refine ⟨?_, h.waits, h.pushed, h.ended⟩
    simp only [WaitLog.withNegotiator, Waiter.withNegotiator, h.client]
  cases a with
  | answer now answer =>
    have hanswered := h.answered now answer
    refine ⟨?_, hanswered.waits, hanswered.pushed, hanswered.ended⟩
    simp only [WaitLog.negotiate, Waiter.negotiate, WaitLog.acceptRenegotiationAnswer,
      Waiter.acceptRenegotiationAnswer, WaitLog.withNegotiator, Waiter.withNegotiator,
      hanswered.client, h.client]
  | _ =>
    simp only [WaitLog.negotiate, Waiter.negotiate, ← h.client]
    exact hplain _

theorem Agrees.step (world : World) (e : WaitEvent) :
    ∃ s', s.step world e = some s' ∧ s'.Agrees (t.step world e) := by
  cases e with
  | negotiation a =>
    refine ⟨_, rfl, ?_⟩
    simp only [Waiter.step, ← h.client]
    exact h.negotiate _ a
  | mediaAdded mid =>
    refine ⟨_, rfl, ?_, h.waits, h.pushed, h.ended⟩
    simp only [Waiter.step, Waiter.mediaAdded, WaitLog.withNegotiator, Waiter.withNegotiator,
      h.client]
  | mediaDataOut n origin data isKeyframe codec =>
    simp only [WaitLog.step, Waiter.step, WaitLog.handleMediaDataOut, Waiter.handleMediaDataOut,
      ← h.client]
    split
    · exact ⟨_, rfl, h.withClient _⟩
    · exact (h.withClient _).observeKeyframe _ _ _ _
  | desiredLayer rid =>
    refine ⟨_, rfl, ?_⟩
    simp only [Waiter.step, ← h.client]
    exact h.withClient _
  | pump now => exact h.pump now

end Agrees

/-- Forgetting the record, a run is one of `waiter`. -/
theorem agrees_run (world : World) (client : Client) (events : List WaitEvent) :
    ∃ s, (waitLog world).run (some (init client)) events = some s ∧
      s.Agrees ((waiter world).run (.init client) events) := by
  refine Machine.run_rel (M := waitLog world) (N := waiter world)
    (R := fun o t => ∃ s, o = some s ∧ s.Agrees t) (S := Eq) ?_
    ⟨_, rfl, rfl, rfl, rfl, .refl _⟩ (List.forall₂_eq_eq_eq ▸ rfl)
  rintro _ t e _ ⟨s, rfl, hs⟩ rfl
  exact hs.step world e

end WaitLog

end PartnerEdge.Sfu
