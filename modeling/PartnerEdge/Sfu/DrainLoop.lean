import PartnerEdge.Machine.Drain
import PartnerEdge.Sfu.Confinement
import PartnerEdge.Sfu.Pacer

/-!
# The drain loop

`fanout_pending` pops events from a queue that its own body pushes to. Only a packet makes it push,
through the pacer, and what it pushes are keyframe requests and suspend notices, which push nothing.
So the loop ends after one pass over the queue and one over what that pass has pushed. Each event is
handed to the handlers of all clients but its originator, and a keyframe request to its target only.
-/

namespace PartnerEdge.Sfu

open Svc PartnerEdge.Client Drain

namespace Registry

variable (cfg : Config) (world : World) (now : Nat)

/-- The calls that a round makes for its event, in the order of the clients. -/
def roundCalls (r : Registry) (p : Propagated) : List (ClientId × Handler) :=
  if isConsumed p then [] else r.ids.filterMap fun id => (p.call id).map (id, ·)

def withQueue (r : Registry) (q : List Propagated) : Registry := { r with toPropagate := q }

/-- The body of the loop, with the queue apart from the rest of the registry. -/
def drainBody (r : Registry) (p : Propagated) : Registry × List Propagated :=
  let next := (r.withQueue []).handlePending cfg world now p
  (next.withQueue [], next.toPropagate)

/-- `while let Some(p) = self.to_propagate.pop_front()`. -/
def drainLoop (fuel : Nat) (r : Registry) :
    Option (Registry × List (Round Registry Propagated)) :=
  drain (drainBody cfg world now) fuel (r.withQueue []) r.toPropagate

/-- What the pacer pushes for an event. -/
def pushes (r : Registry) : Propagated → List Propagated
  | .mediaData origin _ => r.clients.flatMap fun c =>
      (c.updatePacerLayer cfg world r.drained now (r.availableRids origin)).2
  | _ => []

variable {cfg : Config} {world : World} {now : Nat} {r : Registry} {p : Propagated}

/-- A round only appends to the queue, and does not look at it. -/
theorem handlePending_queue (q : List Propagated) :
    (r.withQueue q).handlePending cfg world now p =
      (r.handlePending cfg world now p).withQueue (q ++ r.pushes cfg world now p) := by
  cases p <;> simp [withQueue, handlePending, consult, pushes, isConsumed, fanout,
    Propagated.clientId, updateClient, updatePacerLayers, availableRids, fanoutTurn, deliver]

theorem drainBody_eq (cfg : Config) (world : World) (now : Nat) (r : Registry) (p : Propagated) :
    r.drainBody cfg world now p =
      ((r.handlePending cfg world now p).withQueue [], r.pushes cfg world now p) := by
  rw [drainBody, handlePending_queue]
  rfl

/-- Folding the rounds over a list is a sweep of the loop, with what is pushed left in the queue. -/
theorem foldl_handlePending (ps q : List Propagated) (r : Registry) :
    ps.foldl (fun r p => r.handlePending cfg world now p) (r.withQueue q) =
      (sweep (drainBody cfg world now) r ps).1.withQueue
        (q ++ queued (sweep (drainBody cfg world now) r ps).2) := by
  induction ps generalizing q r with
  | nil => simp [sweep, withQueue]
  | cons p ps ih =>
    rw [List.foldl_cons, handlePending_queue]
    have hrest := ih (q ++ r.pushes cfg world now p)
      ((r.handlePending cfg world now p).withQueue [])
    simp only [sweep, drainBody_eq, queued_cons, ← List.append_assoc]
    exact hrest

theorem drainPass_eq (cfg : Config) (world : World) (now : Nat) (r : Registry) :
    r.drainPass cfg world now =
      (sweep (drainBody cfg world now) (r.withQueue []) r.toPropagate).1.withQueue
        (queued (sweep (drainBody cfg world now) (r.withQueue []) r.toPropagate).2) :=
  foldl_handlePending r.toPropagate [] (r.withQueue [])

/-- The clients stay, and the queue is apart, in every round. -/
theorem drainBody_keeps (ids : List ClientId) (r : Registry) (p : Propagated)
    (h : r.ids = ids ∧ r.toPropagate = []) : (r.drainBody cfg world now p).1.ids = ids ∧
      (r.drainBody cfg world now p).1.toPropagate = [] := by
  rw [drainBody_eq]
  exact ⟨samePublishers_handlePending.ids.trans h.1, rfl⟩

end Registry

/-! ## What the pacer pushes -/

/-- The events that the loop pushes itself. -/
def Propagated.isPacerNotice : Propagated → Bool
  | .keyframeRequest _ _ _ _ | .peerSuspended _ _ => true
  | _ => false

namespace Client

/-- The video tracks that a client is subscribed to. -/
def videoSubscriptions (c : Client) : List TrackOut :=
  c.negotiator.tracksOut.filter fun o =>
    o.trackIn.upgrades c.negotiator.departed && o.trackIn.kind == .video

variable (cfg : Config) (now : Nat) (c : Client)

theorem switchKeyframe_pushes (prev : Rid) (chosen : Option Rid) :
    (∀ q ∈ (c.switchKeyframe now prev chosen).2, q.isPacerNotice = true) ∧
      (c.switchKeyframe now prev chosen).2.length ≤ c.videoSubscriptions.length := by
  unfold switchKeyframe emitKeyframeOnLayerSwitch videoSubscriptions
  grind [Propagated.isPacerNotice]

theorem emitTier_pushes :
    (∀ q ∈ c.emitTier.2, q.isPacerNotice = true) ∧ c.emitTier.2.length ≤ 1 := by
  unfold emitTier
  grind [Propagated.isPacerNotice]

/-- A turn pushes at most one request for each video subscription, and a notice. -/
theorem updatePacerLayer_pushes (world : World) (n : Nat) (available : List Rid) :
    (∀ q ∈ (c.updatePacerLayer cfg world n now available).2, q.isPacerNotice = true) ∧
      (c.updatePacerLayer cfg world n now available).2.length ≤
        c.videoSubscriptions.length + 1 := by
  obtain ⟨_, htick⟩ := c.pacerTick_changes cfg now
  simp only [updatePacerLayer, htick]
  generalize hchoice : chooseLayer _ _ _ _ _ available = choice
  have hsame : choice.1.videoSubscriptions = c.videoSubscriptions := by
    obtain ⟨_, _, hchanges⟩ := hchoice ▸ chooseLayer_changes ..
    rw [hchanges]
    rfl
  obtain ⟨hswitch, hrequests⟩ := switchKeyframe_pushes now choice.1 c.filter.desiredLayer choice.2
  obtain ⟨hnotice, hone⟩ :=
    emitTier_pushes (choice.1.switchKeyframe now c.filter.desiredLayer choice.2).1
  rw [hsame] at hrequests
  refine ⟨fun q hq => ?_, ?_⟩
  · rcases List.mem_append.mp hq with hq | hq
    · exact hswitch q hq
    · exact hnotice q hq
  · rw [List.length_append]
    omega

end Client

namespace Registry

variable {cfg : Config} {world : World} {now : Nat} {r : Registry} {p : Propagated}

/-- The video subscriptions of all clients. -/
def videoSubscriptions (r : Registry) : Nat :=
  (r.clients.map fun c => c.videoSubscriptions.length).sum

/-- How many events the loop may push for one. -/
def pushLimit (r : Registry) : Propagated → Nat
  | .mediaData _ _ => r.videoSubscriptions + r.clients.length
  | _ => 0

theorem isPacerNotice_of_mem_pushes {q : Propagated} (hq : q ∈ r.pushes cfg world now p) :
    q.isPacerNotice = true := by
  cases p with
  | mediaData origin data =>
    obtain ⟨c, -, hq⟩ := List.mem_flatMap.mp hq
    exact (c.updatePacerLayer_pushes cfg now world r.drained _).1 q hq
  | _ => cases hq

theorem length_pushes_le (cfg : Config) (world : World) (now : Nat) (r : Registry)
    (p : Propagated) : (r.pushes cfg world now p).length ≤ r.pushLimit p := by
  cases p with
  | mediaData origin data =>
    simp only [pushes, pushLimit, videoSubscriptions, List.length_flatMap]
    induction r.clients with
    | nil => simp
    | cons c cs ih =>
      have hturn := (c.updatePacerLayer_pushes cfg now world r.drained (r.availableRids origin)).2
      simp only [List.map_cons, List.sum_cons, List.length_cons]
      omega
  | _ => exact Nat.le_refl 0

end Registry

/-! ## Who is handed what -/

/-- Events for all clients but their originator. -/
def Propagated.isBroadcast : Propagated → Bool
  | .trackOpen _ _ | .mediaData _ _ | .chatData _ _ | .chatCtrl _ _ | .voiceData _ _
  | .keysData _ _ | .peerSuspended _ _ => true
  | _ => false

namespace Registry

variable (cfg : Config) (world : World) (now : Nat)

/-- A client that is called handles the event, and any other stays as it is. -/
def calledTurn (r : Registry) (calls : List (ClientId × Handler)) (p : Propagated)
    (origin : ClientId) (c : Client) : Client × List Item :=
  if c.id ∈ calls.map Prod.fst then r.deliver world now p origin c else (c, [])

/-- What one round does: it pushes notices, within the limit for its event, and makes the calls,
which it records. They go to each client other than the originator once, or to the target of a
request only, and every client that is called takes its turn. -/
structure Delivers (round : Round Registry Propagated) (calls : List (ClientId × Handler)) :
    Prop where
  notices : ∀ q ∈ round.queued, q.isPacerNotice = true
  limit : round.queued.length ≤ round.state.pushLimit round.item
  recorded : (round.state.drainBody cfg world now round.item).1.calls = round.state.calls ++ calls
  others : round.item.isBroadcast = true → ∀ origin, round.item.clientId = some origin →
    ∀ id, (calls.map Prod.fst).count id = if id ∈ round.state.ids ∧ id ≠ origin then 1 else 0
  target : ∀ origin rid source mid, round.item = .keyframeRequest origin rid source mid →
    ∀ call ∈ calls, call.1 = source
  turns : isConsumed round.item = false → ∀ origin, round.item.clientId = some origin →
    let r := round.state.consult cfg world now round.item
    let turn := r.calledTurn world now calls round.item origin
    (round.state.drainBody cfg world now round.item).1.clients =
        r.clients.map (fun c => (turn c).1) ∧
      (round.state.drainBody cfg world now round.item).1.deliveries =
        r.deliveries ++ r.clients.flatMap fun c => delivered origin c.id (turn c).2

variable {cfg : Config} {world : World} {now : Nat} {r : Registry} {p : Propagated}

theorem mem_roundCalls {call : ClientId × Handler} : call ∈ r.roundCalls p ↔
    isConsumed p = false ∧ call.1 ∈ r.ids ∧ p.call call.1 = some call.2 := by
  unfold roundCalls
  split
  · next hconsumed => simp [hconsumed]
  · next hconsumed =>
    simp only [List.mem_filterMap, Option.map_eq_some_iff, Bool.eq_false_of_not_eq_true hconsumed,
      true_and]
    constructor
    · rintro ⟨id, hid, handler, hcall, rfl⟩
      exact ⟨hid, hcall⟩
    · rintro ⟨hid, hcall⟩
      exact ⟨call.1, hid, call.2, hcall, rfl⟩

theorem calls_handlePending :
    (r.handlePending cfg world now p).calls = r.calls ++ r.roundCalls p := by
  have hconsult : (r.consult cfg world now p).calls = r.calls := by
    cases p <;> rfl
  have hfanout : ∀ r : Registry, (r.fanout world now p).calls =
      r.calls ++ r.ids.filterMap fun id => (p.call id).map (id, ·) := by
    intro r
    rw [ids, List.filterMap_map]
    unfold fanout
    split <;> rfl
  simp only [handlePending, roundCalls]
  split
  · rw [hconsult, List.append_nil]
  · rw [hfanout, hconsult, samePublishers_consult.ids]

theorem map_fst_roundCalls (hp : p.isBroadcast = true) {origin : ClientId}
    (horigin : p.clientId = some origin) :
    (r.roundCalls p).map Prod.fst = r.ids.filter (· ≠ origin) := by
  have hconsumed : isConsumed p = false := by
    cases p <;> first | rfl | cases hp
  have hcall : ∀ id, (p.call id).isSome = decide (id ≠ origin) := by
    intro id
    cases p <;> simp_all [Propagated.isBroadcast, Propagated.call, Propagated.clientId,
      Propagated.handler] <;> split <;> simp_all
  simp only [roundCalls, hconsumed, Bool.false_eq_true, if_false]
  induction r.ids with
  | nil => rfl
  | cons id ids ih =>
    have hid := hcall id
    cases hfirst : p.call id with
    | none =>
      obtain rfl : id = origin := by simpa [hfirst] using hid
      simpa [List.filterMap_cons, hfirst, List.filter_cons] using ih
    | some handler =>
      have hother : id ≠ origin := by simpa [hfirst] using hid
      simpa [List.filterMap_cons, hfirst, List.filter_cons, hother] using ih

theorem target_of_mem_roundCalls {origin source : ClientId} {rid : Option Rid} {mid : Mid}
    {call : ClientId × Handler} (h : call ∈ r.roundCalls (.keyframeRequest origin rid source mid)) :
    call.1 = source := by
  obtain ⟨-, -, hcall⟩ := mem_roundCalls.mp h
  by_contra hne
  have hhandler : Propagated.handler call.1 (.keyframeRequest origin rid source mid) = none :=
    if_neg fun heq => hne heq.symm
  simp [Propagated.call, Propagated.clientId, hhandler] at hcall

/-- The calls of the round say who takes a turn. -/
theorem fanoutTurn_eq_calledTurn (hp : isConsumed p = false) (origin : ClientId) (r' : Registry)
    {c : Client} (hc : c.id ∈ r.ids) : r'.fanoutTurn world now p origin c =
      r'.calledTurn world now (r.roundCalls p) p origin c := by
  unfold fanoutTurn calledTurn
  cases hcall : p.call c.id with
  | none =>
    refine (if_neg fun hmem => ?_).symm
    obtain ⟨call, hmem, hid⟩ := List.mem_map.mp hmem
    rw [← hid, (mem_roundCalls.mp hmem).2.2] at hcall
    cases hcall
  | some handler =>
    have hmem : (c.id, handler) ∈ r.roundCalls p := mem_roundCalls.mpr ⟨hp, hc, hcall⟩
    exact (if_pos (List.mem_map.mpr ⟨_, hmem, rfl⟩)).symm

theorem turns_handlePending (hp : isConsumed p = false) {origin : ClientId}
    (horigin : p.clientId = some origin) :
    let r' := r.consult cfg world now p
    let turn := r'.calledTurn world now (r.roundCalls p) p origin
    (r.handlePending cfg world now p).clients = r'.clients.map (fun c => (turn c).1) ∧
      (r.handlePending cfg world now p).deliveries =
        r'.deliveries ++ r'.clients.flatMap fun c => delivered origin c.id (turn c).2 := by
  intro r' turn
  have hturn : ∀ c ∈ r'.clients, r'.fanoutTurn world now p origin c = turn c := by
    intro c hc
    have hids : r'.ids = r.ids := samePublishers_consult.ids
    exact fanoutTurn_eq_calledTurn hp origin r' (hids ▸ List.mem_map_of_mem hc)
  simp only [handlePending, hp, Bool.false_eq_true, if_false, fanout, horigin]
  refine ⟨List.map_congr_left fun c hc => congrArg Prod.fst (hturn c hc), ?_⟩
  refine congrArg _ (List.flatMap_congr fun c hc => ?_)
  exact congrArg (delivered origin c.id ·.2) (hturn c hc)

/-- One round of the loop. -/
theorem delivers_drainBody {round : Round Registry Propagated} (hids : round.state.ids.Nodup)
    (hqueued : round.queued = (round.state.drainBody cfg world now round.item).2) :
    Delivers cfg world now round (round.state.roundCalls round.item) := by
  have hpushes : round.queued = round.state.pushes cfg world now round.item := by
    rw [hqueued, drainBody_eq]
  refine ⟨?_, ?_, ?_, ?_, ?_, ?_⟩
  · intro q hq
    exact isPacerNotice_of_mem_pushes (hpushes ▸ hq)
  · rw [hpushes]
    exact length_pushes_le cfg world now round.state round.item
  · rw [drainBody_eq]
    exact calls_handlePending
  · intro hbroadcast origin horigin id
    rw [map_fst_roundCalls hbroadcast horigin, List.Nodup.count (hids.filter _)]
    simp only [List.mem_filter, decide_eq_true_eq]
  · intro origin rid source mid hitem call hcall
    rw [hitem] at hcall
    exact target_of_mem_roundCalls hcall
  · intro hconsumed origin horigin
    rw [drainBody_eq]
    exact turns_handlePending hconsumed horigin

/-! ## The loop ends -/

section Sweeps

variable (cfg : Config) (world : World) (now : Nat) (r : Registry)

/-- The events of the queue. -/
def firstSweep : Registry × List (Round Registry Propagated) :=
  sweep (drainBody cfg world now) (r.withQueue []) r.toPropagate

/-- The events that were pushed in the first sweep. -/
def secondSweep : Registry × List (Round Registry Propagated) :=
  sweep (drainBody cfg world now) (r.firstSweep cfg world now).1
    (queued (r.firstSweep cfg world now).2)

theorem firstSweep_keeps :
    ((r.firstSweep cfg world now).1.ids = r.ids ∧ (r.firstSweep cfg world now).1.toPropagate = []) ∧
    ∀ round ∈ (r.firstSweep cfg world now).2,
      (round.state.ids = r.ids ∧ round.state.toPropagate = []) ∧ round.item ∈ r.toPropagate ∧
        round.queued = (round.state.drainBody cfg world now round.item).2 :=
  sweep_invariant (s := r.withQueue []) (drainBody_keeps r.ids) ⟨rfl, rfl⟩ r.toPropagate

theorem secondSweep_keeps :
    ((r.secondSweep cfg world now).1.ids = r.ids ∧
      (r.secondSweep cfg world now).1.toPropagate = []) ∧
    ∀ round ∈ (r.secondSweep cfg world now).2,
      (round.state.ids = r.ids ∧ round.state.toPropagate = []) ∧
        round.item ∈ queued (r.firstSweep cfg world now).2 ∧
        round.queued = (round.state.drainBody cfg world now round.item).2 :=
  sweep_invariant (drainBody_keeps r.ids) (r.firstSweep_keeps cfg world now).1 _

theorem isPacerNotice_of_mem_queued {q : Propagated}
    (hq : q ∈ queued (r.firstSweep cfg world now).2) : q.isPacerNotice = true := by
  obtain ⟨round, hround, hq⟩ := List.mem_flatMap.mp hq
  obtain ⟨-, -, hqueued⟩ := (r.firstSweep_keeps cfg world now).2 round hround
  rw [hqueued, drainBody_eq] at hq
  exact isPacerNotice_of_mem_pushes hq

/-- Requests and notices push nothing. -/
theorem queued_secondSweep : queued (r.secondSweep cfg world now).2 = [] := by
  refine List.flatMap_eq_nil_iff.mpr fun round hround => ?_
  obtain ⟨-, hitem, hqueued⟩ := (r.secondSweep_keeps cfg world now).2 round hround
  have hnotice := r.isPacerNotice_of_mem_queued cfg world now hitem
  rw [hqueued, drainBody_eq]
  cases hevent : round.item with
  | mediaData origin data => simp [hevent, Propagated.isPacerNotice] at hnotice
  | _ => rfl

theorem fanoutPending_eq : r.fanoutPending cfg world now = (r.secondSweep cfg world now).1 := by
  have hqueue : ∀ s : Registry, s.toPropagate = [] → s.withQueue [] = s := by
    intro s hs
    cases s
    exact congrArg (Registry.mk _ · _ _ _ _ _ _) hs.symm
  have hfirst : r.drainPass cfg world now =
      (r.firstSweep cfg world now).1.withQueue (queued (r.firstSweep cfg world now).2) :=
    drainPass_eq cfg world now r
  have hsecond : ((r.firstSweep cfg world now).1.withQueue
      (queued (r.firstSweep cfg world now).2)).drainPass cfg world now =
      (r.secondSweep cfg world now).1.withQueue (queued (r.secondSweep cfg world now).2) := by
    have hstart : ((r.firstSweep cfg world now).1.withQueue
        (queued (r.firstSweep cfg world now).2)).withQueue [] = (r.firstSweep cfg world now).1 :=
      hqueue _ (r.firstSweep_keeps cfg world now).1.2
    rw [drainPass_eq, hstart]
    rfl
  rw [fanoutPending, hfirst, hsecond, queued_secondSweep,
    hqueue _ (r.secondSweep_keeps cfg world now).1.2]

end Sweeps

/-- The loop ends, in the registry of `fanoutPending`. It handles the events of the queue in order
and then those that were pushed on the way, and each of its rounds delivers. -/
theorem drainLoop_delivers (cfg : Config) (world : World) (now : Nat) (r : Registry)
    (hids : r.ids.Nodup) :
    ∃ rounds, (∀ fuel, rounds.length ≤ fuel →
        r.drainLoop cfg world now fuel = some (r.fanoutPending cfg world now, rounds)) ∧
      rounds.map Round.item = r.toPropagate ++ queued rounds ∧
      ∀ round ∈ rounds, round.state.ids = r.ids ∧ ∃ calls, Delivers cfg world now round calls := by
  have hquiet := r.queued_secondSweep cfg world now
  have hitems : (r.firstSweep cfg world now).2.map Round.item = r.toPropagate := map_item_sweep ..
  have hitems' : (r.secondSweep cfg world now).2.map Round.item =
      queued (r.firstSweep cfg world now).2 := map_item_sweep ..
  refine ⟨(r.firstSweep cfg world now).2 ++ (r.secondSweep cfg world now).2, ?_, ?_, ?_⟩
  · intro fuel hfuel
    rw [fanoutPending_eq]
    refine drain_two_sweeps hquiet ?_
    have hlength := congrArg List.length hitems
    have hlength' := congrArg List.length hitems'
    rw [List.length_map] at hlength hlength'
    rw [List.length_append, hlength, hlength'] at hfuel
    exact hfuel
  · rw [List.map_append, hitems, hitems', queued_append, hquiet, List.append_nil]
  · intro round hround
    have hround : (round.state.ids = r.ids ∧ round.state.toPropagate = []) ∧
        round.queued = (round.state.drainBody cfg world now round.item).2 := by
      rcases List.mem_append.mp hround with hround | hround
      · obtain ⟨hstate, -, hqueued⟩ := (r.firstSweep_keeps cfg world now).2 round hround
        exact ⟨hstate, hqueued⟩
      · obtain ⟨hstate, -, hqueued⟩ := (r.secondSweep_keeps cfg world now).2 round hround
        exact ⟨hstate, hqueued⟩
    obtain ⟨⟨hsame, -⟩, hqueued⟩ := hround
    exact ⟨hsame, _, delivers_drainBody (hsame ▸ hids) hqueued⟩

/-- Two browsers, of which the second has its chat channel open, a chat frame of the first and a
keyframe request of the second. -/
def chatting : Registry :=
  { empty with
    clients := [Client.newBrowser pacedConfig 1 11,
      { Client.newBrowser pacedConfig 2 12 with channels := [.chatData] }]
    toPropagate := [.chatData 1 [7], .keyframeRequest 2 none 1 "0"] }

theorem drainLoop_delivers_chatting :
    let world := pacedWorld none .noChange
    let next := chatting.fanoutPending pacedConfig world 0
    chatting.ids.Nodup ∧ next.calls = [(2, .chatDataOut), (1, .keyframeRequest)] ∧
      next.deliveries = [⟨1, 2, .chatData [7]⟩] ∧
      ∃ rounds, chatting.drainLoop pacedConfig world 0 rounds.length = some (next, rounds) ∧
        rounds.map Round.item = chatting.toPropagate ++ queued rounds ∧
        ∀ round ∈ rounds, ∃ calls, Delivers pacedConfig world 0 round calls := by
  refine ⟨by decide, by decide, by decide, ?_⟩
  obtain ⟨rounds, hends, hitems, hdelivers⟩ :=
    drainLoop_delivers pacedConfig (pacedWorld none .noChange) 0 chatting (by decide)
  exact ⟨rounds, hends _ le_rfl, hitems, fun round hround => (hdelivers round hround).2⟩

end Registry

end PartnerEdge.Sfu
