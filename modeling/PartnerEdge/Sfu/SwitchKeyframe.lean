import PartnerEdge.Client.KeyframeThrottle
import PartnerEdge.Sfu.DrainLoop

/-!
# Keyframes for a new layer

When the pacer moves a subscriber to another layer, the subscriber asks the publishers of its video
for a keyframe on that layer. The request passes two throttles. The subscriber's own has one time
stamp for each target layer; the publisher's has one for each track, which all requests share
whatever layer they are for. Here the registry runs together with the publishers' entries, and the
clock only moves between the calls of the loop. A request has no kind in the registry's queue, and
it makes no difference to a throttle: it is a PLI throughout.
-/

namespace PartnerEdge.Sfu

open Svc PartnerEdge.Client Drain Text

/-- The calls that the loop makes on the registry. A poll is taken event by event. -/
inductive LoopCall where
  | insertBrowser (peerId : Nat)
  | insertOutboundRelay (upstreamUrl : Str)
  | reapDead
  | checkSoloTimeout (timeout : Nat)
  | pumpWsCtrl (answers : ClientId → List Answer × Bool)
      (keyframeRequests : ClientId → List (Option Rid × ClientId × Mid))
  | poll (client : ClientId) (event : RtcEvent) (contiguous : Bool)
  | failInputs (failed : List ClientId)
  | tickSpeakers (dominant : Option ClientId) (top : List ClientId)
  | fanoutPending

/-- A call, the time since the one before, and the tracks that str0m has a writer for. -/
structure LoopInput where
  elapsed : Nat
  writer : ClientId → Mid → Bool
  call : LoopCall

/-- The registry, and the entries of the same clients with the time stamps of their tracks. -/
structure Loop where
  registry : Registry
  publishers : Publishers
  nextClientId : ClientId

/-! ## The publishers' side -/

section Publishers

variable (writer : ClientId → Mid → Bool)

/-- The fan-out of an event: a request reaches its target if that is registered and does not ask
itself. -/
def fanoutRequest (ids : List ClientId) (s : Publishers) : Propagated → Publishers
  | .keyframeRequest origin rid source midIn =>
    if source ∈ ids ∧ source ≠ origin then
      s.put source
        (handleKeyframeRequest source (writer source) s.clock (s.tracksIn source) rid .pli midIn)
    else s
  | _ => s

/-- The publishers after the fan-out of some events. -/
def fanoutRequests (ids : List ClientId) (s : Publishers) (ps : List Propagated) : Publishers :=
  ps.foldl (fanoutRequest writer ids) s

/-- What an event of a live client does to its own entries. -/
def pollPublisher (r : Registry) (s : Publishers) (client : ClientId) (event : RtcEvent)
    (contiguous : Bool) : Publishers :=
  match r.clients.find? fun c => c.id == client && c.alive with
  | none => s
  | some c =>
    match event with
    | .mediaAdded mid kind direction =>
      if direction = .sendOnly then s
      else s.handle (writer c.id) (.mediaAdded c.id mid kind c.externalPeerId)
    | .mediaData data => s.handle (writer c.id) (.media c.id data.mid data.rid contiguous)
    | _ => s

end Publishers

/-! ## The loop -/

namespace Registry

/-- The events that a drain pass handles, in order. -/
def passEvents (cfg : Config) (world : World) (now : Nat) (r : Registry) : List Propagated :=
  r.toPropagate ++ queued (r.firstSweep cfg world now).2

end Registry

namespace Loop

def init : Loop := ⟨.empty, .init, 0⟩

section Step

variable (cfg : Config) (world : World) (s : Loop)

def insert (client : Client) : Loop :=
  { s with
    registry := s.registry.insert world s.publishers.clock client
    nextClientId := s.nextClientId + 1 }

def apply (writer : ClientId → Mid → Bool) : LoopCall → Loop
  | .insertBrowser peerId => s.insert world (.newBrowser cfg s.nextClientId peerId)
  | .insertOutboundRelay upstreamUrl =>
    s.insert world (.newOutboundRelay cfg s.nextClientId upstreamUrl)
  | .reapDead => { s with registry := s.registry.reapDead s.publishers.clock }
  | .checkSoloTimeout timeout =>
    { s with registry := s.registry.checkSoloTimeout timeout s.publishers.clock }
  | .pumpWsCtrl answers keyframeRequests =>
    { s with
      registry := s.registry.pumpWsCtrl world s.publishers.clock answers keyframeRequests }
  | .poll client event contiguous =>
    { s with
      registry := s.registry.pollAll cfg world s.publishers.clock fun id =>
        if id = client then [event] else []
      publishers := pollPublisher writer s.registry s.publishers client event contiguous }
  | .failInputs failed => { s with registry := s.registry.failInputs failed }
  | .tickSpeakers dominant top => { s with registry := s.registry.tickSpeakers dominant top }
  | .fanoutPending =>
    { s with
      registry := s.registry.fanoutPending cfg world s.publishers.clock
      publishers := fanoutRequests writer s.registry.ids s.publishers
        (s.registry.passEvents cfg world s.publishers.clock) }

def advance (elapsed : Nat) : Loop :=
  { s with publishers := { s.publishers with clock := s.publishers.clock + elapsed } }

def step (i : LoopInput) : Loop := (s.advance i.elapsed).apply cfg world i.writer i.call

end Step

end Loop

def loop (cfg : Config) (world : World) : Machine Loop LoopInput Unit :=
  ⟨fun s i => (s.step cfg world i, ())⟩

/-! ## Every stamp is a request -/

section Stamps

variable {client : ClientId} {writer : Mid → Bool} {now : Nat} {tracksIn : List TrackInEntry}

/-- A handler keeps the tracks, and it sets a stamp only with a call on that track. -/
structure Answers (client : ClientId) (now : Nat) (before : List TrackInEntry)
    (result : List TrackInEntry × Option WriterCall) : Prop where
  mids : ∀ entry ∈ before, ∃ entry' ∈ result.1, entry'.id.mid = entry.id.mid
  stamps : ∀ mid, stampOf result.1 mid = stampOf before mid ∨ stampOf result.1 mid = some now ∧
    ∃ call ∈ result.2, call.client = client ∧ call.mid = mid ∧ call.time = now

theorem Answers.silent : Answers client now tracksIn (tracksIn, none) :=
  ⟨fun entry hentry => ⟨entry, hentry, rfl⟩, fun _ => .inl rfl⟩

theorem exists_mem_stamp (now : Nat) (mid : Mid) {entry : TrackInEntry} (h : entry ∈ tracksIn) :
    ∃ entry' ∈ TrackInEntry.stamp now mid tracksIn, entry'.id.mid = entry.id.mid := by
  induction tracksIn with
  | nil => cases h
  | cons first rest ih =>
    unfold TrackInEntry.stamp
    rcases List.mem_cons.mp h with rfl | h
    · split <;> exact ⟨_, List.mem_cons_self, rfl⟩
    · obtain ⟨entry', hentry', hmid⟩ := ih h
      split
      · exact ⟨entry, List.mem_cons_of_mem _ h, rfl⟩
      · exact ⟨entry', List.mem_cons_of_mem _ hentry', hmid⟩

theorem Answers.stamp {mid : Mid} {call : WriterCall} (hclient : call.client = client)
    (hmid : call.mid = mid) (htime : call.time = now) :
    Answers client now tracksIn (TrackInEntry.stamp now mid tracksIn, some call) := by
  refine ⟨fun entry hentry => exists_mem_stamp now mid hentry, fun mid' => ?_⟩
  rw [stampOf_stamp]
  split
  · next h => exact .inr ⟨rfl, call, rfl, hclient, hmid.trans h.1.symm, htime⟩
  · exact .inl rfl

variable (client writer now tracksIn)

theorem answers_requestKeyframeThrottled (mid : Mid) (rid : Option Rid)
    (kind : KeyframeRequestKind) : Answers client now tracksIn
      (requestKeyframeThrottled client writer now tracksIn mid rid kind) := by
  fun_cases requestKeyframeThrottled
  · exact .silent
  · exact .silent
  · exact .stamp rfl rfl rfl
  · exact .silent

/-- Here a writer is needed: without one the stamp is set and nothing is asked. -/
theorem answers_handleKeyframeRequest (hwriter : ∀ mid, writer mid = true) (rid : Option Rid)
    (kind : KeyframeRequestKind) (midIn : Mid) : Answers client now tracksIn
      (handleKeyframeRequest client writer now tracksIn rid kind midIn) := by
  fun_cases handleKeyframeRequest
  · exact .silent
  · exact .silent
  · rw [if_pos (hwriter midIn)]
    exact .stamp rfl rfl rfl

theorem answers_trackInAdded (mid : Mid) (kind : MediaKind) (externalPeerId : Option Nat) :
    Answers client now tracksIn (trackInAdded client tracksIn mid kind externalPeerId) := by
  refine ⟨fun entry hentry => ⟨entry, List.mem_append_left _ hentry, rfl⟩, fun mid' => ?_⟩
  have hasks := (asks_trackInAdded client (now + 1) tracksIn mid kind externalPeerId).stamps mid'
  have hasks' := (asks_trackInAdded client now tracksIn mid kind externalPeerId).stamps mid'
  grind

theorem answers_trackInMedia (mid : Mid) (rid : Option Rid) (contiguous : Bool) :
    Answers client now tracksIn (trackInMedia client writer now tracksIn mid rid contiguous) := by
  unfold trackInMedia
  split
  · exact .silent
  · exact answers_requestKeyframeThrottled client writer now tracksIn mid rid .fir

end Stamps

/-- Every stamp is the time of a request on its track. -/
def Explained (s : Publishers) : Prop :=
  ∀ client mid last, stampOf (s.tracksIn client) mid = some last →
    ∃ call ∈ s.calls, call.client = client ∧ call.mid = mid ∧ call.time = last

/-- The publishers later on at the same time. -/
structure Grows (s s' : Publishers) : Prop where
  clock : s'.clock = s.clock
  calls : s.calls ⊆ s'.calls
  mids : ∀ client, ∀ entry ∈ s.tracksIn client, ∃ entry' ∈ s'.tracksIn client,
    entry'.id.mid = entry.id.mid
  explained : Explained s → Explained s'

namespace Grows

variable {s s' s'' : Publishers}

theorem refl (s : Publishers) : Grows s s :=
  ⟨rfl, List.Subset.refl _, fun _ entry hentry => ⟨entry, hentry, rfl⟩, id⟩

theorem trans (h : Grows s s') (h' : Grows s' s'') : Grows s s'' where
  clock := h'.clock.trans h.clock
  calls := List.Subset.trans h.calls h'.calls
  mids client entry hentry := by
    obtain ⟨entry', hentry', hmid⟩ := h.mids client entry hentry
    obtain ⟨entry'', hentry'', hmid'⟩ := h'.mids client entry' hentry'
    exact ⟨entry'', hentry'', hmid'.trans hmid⟩
  explained hs := h'.explained (h.explained hs)

theorem put {client : ClientId} {result : List TrackInEntry × Option WriterCall}
    (h : Answers client s.clock (s.tracksIn client) result) : Grows s (s.put client result) where
  clock := rfl
  calls := List.subset_append_left _ _
  mids client' entry hentry := by
    by_cases hclient : client' = client
    · subst hclient
      simpa only [Publishers.put, Function.update_self] using h.mids entry hentry
    · simp only [Publishers.put, Function.update_of_ne hclient]
      exact ⟨entry, hentry, rfl⟩
  explained hs client' mid last hlast := by
    have hold (hlast : stampOf (s.tracksIn client') mid = some last) :
        ∃ call ∈ (s.put client result).calls,
          call.client = client' ∧ call.mid = mid ∧ call.time = last := by
      obtain ⟨call, hcall, hof⟩ := hs client' mid last hlast
      exact ⟨call, List.mem_append_left _ hcall, hof⟩
    by_cases hclient : client' = client
    · subst hclient
      simp only [Publishers.put, Function.update_self] at hlast
      rcases h.stamps mid with hsame | ⟨hnow, call, hcall, hof, hmid, htime⟩
      · exact hold (hsame ▸ hlast)
      · refine ⟨call, List.mem_append_right _ (by simpa using hcall), hof, hmid, htime.trans ?_⟩
        exact Option.some.inj (hnow.symm.trans hlast)
    · simp only [Publishers.put, Function.update_of_ne hclient] at hlast
      exact hold hlast

variable {writer : ClientId → Mid → Bool}

theorem fanoutRequest (hwriter : ∀ client mid, writer client mid = true) (ids : List ClientId)
    (s : Publishers) (p : Propagated) : Grows s (fanoutRequest writer ids s p) := by
  fun_cases Sfu.fanoutRequest
  · next source midIn _ => exact put (answers_handleKeyframeRequest _ _ _ _ (hwriter source) ..)
  · exact refl s
  · exact refl s

theorem fanoutRequests (hwriter : ∀ client mid, writer client mid = true) (ids : List ClientId)
    (s : Publishers) (ps : List Propagated) : Grows s (fanoutRequests writer ids s ps) := by
  induction ps generalizing s with
  | nil => exact refl s
  | cons p ps ih => exact (fanoutRequest hwriter ids s p).trans (ih _)

theorem pollPublisher (writer : ClientId → Mid → Bool) (r : Registry) (s : Publishers)
    (client : ClientId) (event : RtcEvent) (contiguous : Bool) :
    Grows s (pollPublisher writer r s client event contiguous) := by
  fun_cases Sfu.pollPublisher
  · exact refl s
  · exact refl s
  · exact put (answers_trackInAdded ..)
  · exact put (answers_trackInMedia ..)
  · exact refl s

end Grows

/-! ## Who publishes what -/

namespace Client

/-- One event of str0m adds at most the track of a new media line. -/
theorem tracksIn_poll_singleton (jwt : Jwt) (now : Nat) (auth : RelayAuth) (c : Client)
    (event : RtcEvent) {t : TrackIn} (ht : t ∈ (c.poll jwt now auth [event]).1.tracksIn) :
    t ∈ c.tracksIn ∨ c.alive = true ∧ ∃ kind direction,
      event = .mediaAdded t.mid kind direction ∧ direction ≠ .sendOnly := by
  simp only [poll] at ht
  split at ht
  · next halive =>
    cases event with
    | mediaAdded mid kind direction =>
      cases direction <;> simp_all [handleEvent, trackInAdded] <;> grind
    | _ => exact .inl ht
  · exact .inl ht

end Client

namespace Registry

variable {r r' : Registry} {id : ClientId} {t : TrackIn}

/-- A registered client with this id has the track. -/
def Publishes (r : Registry) (id : ClientId) (t : TrackIn) : Prop :=
  ∃ c ∈ r.clients, c.id = id ∧ t ∈ c.tracksIn

/-- No track is new. -/
def NothingPublished (r r' : Registry) : Prop := ∀ id t, r'.Publishes id t → r.Publishes id t

theorem NothingPublished.trans {r'' : Registry} (h : NothingPublished r r')
    (h' : NothingPublished r' r'') : NothingPublished r r'' :=
  fun id t ht => h id t (h' id t ht)

theorem SamePublishers.nothingPublished (h : r.SamePublishers r') : NothingPublished r r' := by
  obtain ⟨f, hclients, hf⟩ := h
  rintro _ t ⟨c', hc', rfl, ht⟩
  obtain ⟨c, hc, rfl⟩ := List.mem_map.mp (hclients ▸ hc')
  exact ⟨c, hc, (hf c).id.symm, (hf c).tracksIn ▸ ht⟩

theorem NothingPublished.of_subset (hclients : r'.clients ⊆ r.clients) :
    NothingPublished r r' := by
  rintro id t ⟨c, hc, hof⟩
  exact ⟨c, hclients hc, hof⟩

theorem samePublishers_removeDeparted (r : Registry) (ids : List ClientId) :
    r.SamePublishers (r.removeDeparted ids) :=
  ⟨_, rfl, fun _ => ⟨rfl, rfl, rfl⟩⟩

theorem samePublishers_pumpWsCtrl (r : Registry) (world : World) (now : Nat)
    (answers : ClientId → List Answer × Bool)
    (keyframeRequests : ClientId → List (Option Rid × ClientId × Mid)) :
    r.SamePublishers (r.pumpWsCtrl world now answers keyframeRequests) :=
  ⟨_, rfl, fun _ => ⟨rfl, rfl, rfl⟩⟩

theorem samePublishers_failInputs (r : Registry) (failed : List ClientId) :
    r.SamePublishers (r.failInputs failed) :=
  ⟨_, rfl, fun _ => by split <;> exact ⟨rfl, rfl, rfl⟩⟩

theorem nothingPublished_reapDead (r : Registry) (now : Nat) :
    NothingPublished r (r.reapDead now) := by
  have hfilter : NothingPublished r { r with clients := r.clients.filter (·.alive) } :=
    .of_subset List.filter_sublist.subset
  exact hfilter.trans (samePublishers_removeDeparted _ _).nothingPublished

theorem nothingPublished_stealSession (r : Registry) (client : Client) :
    NothingPublished r (r.stealSession client) := by
  fun_cases stealSession
  · exact .of_subset (List.Subset.refl _)
  · exact .of_subset (List.Subset.refl _)
  · fun_cases evictForSteal
    · exact .of_subset (List.Subset.refl _)
    · exact .trans (.of_subset (swapRemove_subset r.clients _))
        (samePublishers_removeDeparted _ _).nothingPublished

theorem nothingPublished_checkSoloTimeout (r : Registry) (timeout now : Nat) :
    NothingPublished r (r.checkSoloTimeout timeout now) := by
  unfold checkSoloTimeout
  split
  · next c _ hclients _ =>
    split
    · exact .of_subset (List.Subset.refl _)
    · have hkick : r.SamePublishers { r with clients := [c.disconnect], soloSince := none } :=
        ⟨Client.disconnect, by rw [hclients]; rfl, fun _ => ⟨rfl, rfl, rfl⟩⟩
      exact hkick.nothingPublished
  · exact .of_subset (List.Subset.refl _)

theorem nothingPublished_insert (r : Registry) (world : World) (now : Nat) {client : Client}
    (hclient : client.tracksIn = []) : NothingPublished r (r.insert world now client) := by
  refine .trans (r.nothingPublished_stealSession client) ?_
  rintro id t ⟨c, hc, hof⟩
  rcases List.mem_append.mp hc with hc | hc
  · exact ⟨c, hc, hof⟩
  · obtain rfl := List.mem_singleton.mp hc
    have hnone : ∀ (ts : List TrackIn) (newcomer : Client × List Delivery),
        (ts.foldl (advertise world now) newcomer).1.tracksIn = newcomer.1.tracksIn := by
      intro ts
      induction ts with
      | nil => exact fun _ => rfl
      | cons t ts ih => exact fun newcomer => ih _
    have ht : t ∈ (r.stealSession client |>.crossAdvertise world now
      (client.noteDeparted (r.stealSession client).departed)).1.tracksIn := hof.2
    rw [crossAdvertise, hnone] at ht
    exact absurd (hclient ▸ ht) List.not_mem_nil

/-- What is published at a round of the pass was published before it. -/
theorem nothingPublished_round {cfg : Config} {world : World} {now : Nat}
    {round : Round Registry Propagated} (hround : round ∈ (r.firstSweep cfg world now).2) :
    NothingPublished r round.state := by
  have hstep (s : Registry) (p : Propagated) (hs : r.SamePublishers s) :
      r.SamePublishers (drainBody cfg world now s p).1 := by
    rw [drainBody_eq]
    exact hs.trans (samePublishers_handlePending.trans (.of_clients rfl))
  have hstart : r.SamePublishers (r.withQueue []) := .of_clients rfl
  have hsweep := sweep_invariant hstep hstart r.toPropagate
  exact (hsweep.2 round hround).1.nothingPublished

end Registry

/-! ## Every run -/

namespace Loop

/-- Every track of a registered client has an entry, and every stamp is a request. -/
structure Sound (s : Loop) : Prop where
  entries : ∀ id t, s.registry.Publishes id t →
    ∃ entry ∈ s.publishers.tracksIn id, entry.id.mid = t.mid
  explained : Explained s.publishers

variable {cfg : Config} {world : World} {s s' : Loop}

theorem sound_init : init.Sound := by
  refine ⟨?_, ?_⟩
  · rintro id t ⟨c, hc, -⟩
    cases hc
  · intro client mid last hlast
    cases hlast

theorem Sound.grow (h : s.Sound) (hregistry : s.registry.NothingPublished s'.registry)
    (hpublishers : Grows s.publishers s'.publishers) : s'.Sound := by
  refine ⟨fun id t ht => ?_, hpublishers.explained h.explained⟩
  obtain ⟨entry, hentry, hmid⟩ := h.entries id t (hregistry id t ht)
  obtain ⟨entry', hentry', hmid'⟩ := hpublishers.mids id entry hentry
  exact ⟨entry', hentry', hmid'.trans hmid⟩

theorem Sound.poll (h : s.Sound) (writer : ClientId → Mid → Bool) (client : ClientId)
    (event : RtcEvent) (contiguous : Bool) :
    (s.apply cfg world writer (.poll client event contiguous)).Sound := by
  have hgrows := Grows.pollPublisher writer s.registry s.publishers client event contiguous
  refine ⟨?_, hgrows.explained h.explained⟩
  have hold : ∀ id t, s.registry.Publishes id t → ∃ entry ∈ (pollPublisher writer s.registry
      s.publishers client event contiguous).tracksIn id, entry.id.mid = t.mid := by
    intro id t ht
    obtain ⟨entry, hentry, hmid⟩ := h.entries id t ht
    obtain ⟨entry', hentry', hmid'⟩ := hgrows.mids id entry hentry
    exact ⟨entry', hentry', hmid'.trans hmid⟩
  rintro _ t ⟨c', hc', rfl, ht⟩
  obtain ⟨c, hc, rfl⟩ := List.mem_map.mp hc'
  rw [(Client.Follows.poll _ _ _ _ c).id]
  dsimp only at ht
  by_cases hclient : c.id = client
  · rw [if_pos hclient] at ht
    rcases Client.tracksIn_poll_singleton _ _ _ c event ht with ht | ⟨halive, kind, direction, rfl,
      hdirection⟩
    · exact hold c.id t ⟨c, hc, rfl, ht⟩
    · -- The client is found, or another one with its id, and gets the entry.
      obtain ⟨found, hfound⟩ := Option.isSome_iff_exists.mp
        (List.find?_isSome (p := fun c => c.id == client && c.alive).mpr ⟨c, hc, by
          simp [halive, hclient]⟩)
      have hid : found.id = client := by
        have := List.find?_some hfound
        grind
      refine ⟨⟨⟨client, t.mid, kind, found.externalPeerId⟩, none⟩, ?_, rfl⟩
      simp only [apply, pollPublisher, hfound, if_neg hdirection, Publishers.handle, Publishers.put,
        hid, hclient, Function.update_self]
      exact List.mem_append_right _ (List.mem_singleton.mpr rfl)
  · rw [if_neg hclient] at ht
    exact hold c.id t ⟨c, hc, rfl, ht⟩

theorem Sound.step (h : s.Sound) {i : LoopInput}
    (hwriter : ∀ client mid, i.writer client mid = true) : (s.step cfg world i).Sound := by
  have hnow : (s.advance i.elapsed).Sound := ⟨h.entries, h.explained⟩
  unfold Loop.step
  cases i.call with
  | insertBrowser peerId => exact hnow.grow (Registry.nothingPublished_insert _ _ _ rfl) (.refl _)
  | insertOutboundRelay upstreamUrl =>
    exact hnow.grow (Registry.nothingPublished_insert _ _ _ rfl) (.refl _)
  | reapDead => exact hnow.grow (Registry.nothingPublished_reapDead _ _) (.refl _)
  | checkSoloTimeout timeout =>
    exact hnow.grow (Registry.nothingPublished_checkSoloTimeout _ _ _) (.refl _)
  | pumpWsCtrl answers keyframeRequests =>
    exact hnow.grow (Registry.samePublishers_pumpWsCtrl ..).nothingPublished (.refl _)
  | poll client event contiguous => exact hnow.poll i.writer client event contiguous
  | failInputs failed =>
    exact hnow.grow (Registry.samePublishers_failInputs _ _).nothingPublished (.refl _)
  | tickSpeakers dominant top => exact hnow.grow (.of_subset (List.Subset.refl _)) (.refl _)
  | fanoutPending =>
    exact hnow.grow Registry.samePublishers_fanoutPending.nothingPublished
      (Grows.fanoutRequests hwriter _ _ _)

theorem sound_run {inputs : List LoopInput}
    (hwriters : ∀ i ∈ inputs, ∀ client mid, i.writer client mid = true) :
    ((loop cfg world).run .init inputs).Sound :=
  Machine.run_invariant (I := fun _ => Loop.Sound) sound_init
    (fun _ _ _ hwriter h => h.step hwriter) hwriters

end Loop

/-! ## A switch in the pass -/

namespace Client

variable (cfg : Config) (world : World) (n now : Nat) (available : List Rid) (c : Client)

/-- An answer that moves the client also chooses the layer. -/
theorem chooseLayer_chosen (action : Nat → PacerAction) (ready : Bool) (budget : Option Nat)
    (hmoved : (c.chooseLayer cfg action ready budget available).1.filter.desiredLayer ≠
      c.filter.desiredLayer) : (c.chooseLayer cfg action ready budget available).2 =
        some (c.chooseLayer cfg action ready budget available).1.filter.desiredLayer := by
  unfold chooseLayer pacerSelectLayer setDesiredLayer Subscriber.setDesiredLayer at hmoved ⊢
  grind

/-- What follows the choice in a turn leaves the layer alone. -/
theorem switchEmitCap_desiredLayer (previous : Rid) (chosen : Option Rid) (ready : Bool)
    (estimate : Option Nat) :
    ((c.switchKeyframe now previous chosen).1.emitTier.1.selectTemporalCap cfg ready estimate
      ).filter.desiredLayer = c.filter.desiredLayer := by
  have hcap := congrArg Prod.fst ((c.switchKeyframe now previous chosen).1.emitTier.1
    |>.selectTemporalCap_view cfg ready estimate)
  have hnotice := congrArg Prod.fst (c.switchKeyframe now previous chosen).1.emitTier_view
  have hswitch := congrArg Prod.fst (c.switchKeyframe_view now previous chosen)
  exact hcap.trans (hnotice.trans hswitch)

variable {cfg world n now available c}

/-- A turn that moves the client asks for all its video, unless it has asked for that layer in the
last second. -/
theorem mem_updatePacerLayer_of_moved {rid : Rid}
    (hmoved : (c.updatePacerLayer cfg world n now available).1.filter.desiredLayer = rid)
    (hnew : rid ≠ c.filter.desiredLayer)
    (hown : ∀ last ∈ c.lastSwitchKeyframeRequest.lookup rid, last + 1000 ≤ now) {o : TrackOut}
    (ho : o ∈ c.videoSubscriptions) : .keyframeRequest c.id (some rid) o.trackIn.origin
      o.trackIn.mid ∈ (c.updatePacerLayer cfg world n now available).2 := by
  obtain ⟨_, htick⟩ := c.pacerTick_changes cfg now
  simp only [updatePacerLayer, htick] at hmoved ⊢
  generalize hchoice : chooseLayer _ _ _ _ _ available = choice at hmoved ⊢
  obtain ⟨_, _, hchanges⟩ := hchoice ▸ chooseLayer_changes ..
  have hdesired : choice.1.filter.desiredLayer = rid :=
    (choice.1.switchEmitCap_desiredLayer ..).symm.trans hmoved
  have hchosen : choice.2 = some rid := by
    rw [← hdesired, ← hchoice]
    refine chooseLayer_chosen cfg available _ _ _ _ ?_
    rw [hchoice, hdesired]
    exact hnew
  have hopen : ¬(choice.1.lastSwitchKeyframeRequest.lookup rid).any
      (fun last => decide (now - last < 1000)) = true := by
    rw [hchanges, Option.any_eq_true]
    rintro ⟨last, hlookup, hrecent⟩
    have := hown last hlookup
    have := of_decide_eq_true hrecent
    omega
  refine List.mem_append_left _ ?_
  simp only [switchKeyframe, hchosen, if_pos hnew, emitKeyframeOnLayerSwitch, if_neg hopen]
  rw [hchanges]
  exact List.mem_map_of_mem ho

end Client

/-- In a round of the pass, the pacer moves a client to another layer. -/
def MovedTo (cfg : Config) (world : World) (now : Nat) (round : Round Registry Propagated)
    (c : Client) (rid : Rid) : Prop :=
  c ∈ round.state.clients ∧ rid ≠ c.filter.desiredLayer ∧
    ∃ origin data, round.item = .mediaData origin data ∧
      (c.updatePacerLayer cfg world round.state.drained now
        (round.state.availableRids origin)).1.filter.desiredLayer = rid

/-- A client is subscribed to a video track of another client, which is present. -/
def Receives (r : Registry) (c publisher : Client) (mid : Mid) : Prop :=
  publisher ∈ r.clients ∧ publisher.id ≠ c.id ∧ ∃ o ∈ c.videoSubscriptions,
    o.trackIn ∈ publisher.tracksIn ∧ o.trackIn.origin = publisher.id ∧ o.trackIn.mid = mid

section Pass

variable {cfg : Config} {world : World} {now : Nat} {r : Registry} {c : Client} {rid : Rid}
  {round : Round Registry Propagated}

/-- Only the first sweep has packets. -/
theorem mem_firstSweep_of_moved
    (hround : round ∈ (r.firstSweep cfg world now).2 ++ (r.secondSweep cfg world now).2)
    (hswitch : MovedTo cfg world now round c rid) : round ∈ (r.firstSweep cfg world now).2 := by
  obtain ⟨-, -, origin, data, hitem, -⟩ := hswitch
  rcases List.mem_append.mp hround with hround | hround
  · exact hround
  · obtain ⟨-, hqueued, -⟩ := (r.secondSweep_keeps cfg world now).2 round hround
    have hnotice := r.isPacerNotice_of_mem_queued cfg world now hqueued
    rw [hitem] at hnotice
    cases hnotice

/-- The request of a client that was moved is an event of the pass. -/
theorem mem_passEvents_of_moved (hround : round ∈ (r.firstSweep cfg world now).2)
    (hswitch : MovedTo cfg world now round c rid)
    (hown : ∀ last ∈ c.lastSwitchKeyframeRequest.lookup rid, last + 1000 ≤ now) {o : TrackOut}
    (ho : o ∈ c.videoSubscriptions) :
    .keyframeRequest c.id (some rid) o.trackIn.origin o.trackIn.mid ∈
      r.passEvents cfg world now := by
  obtain ⟨hc, hnew, origin, data, hitem, hmoved⟩ := hswitch
  obtain ⟨-, -, hqueued⟩ := (r.firstSweep_keeps cfg world now).2 round hround
  refine List.mem_append_right _ (List.mem_flatMap.mpr ⟨round, hround, ?_⟩)
  rw [hqueued, Registry.drainBody_eq, hitem]
  exact List.mem_flatMap.mpr ⟨c, hc, Client.mem_updatePacerLayer_of_moved hmoved hnew hown ho⟩

end Pass

/-- A request that reaches its publisher is passed on to str0m, or the track had one in the last
second. -/
theorem fanoutRequest_calls {writer : ClientId → Mid → Bool}
    (hwriter : ∀ client mid, writer client mid = true) {ids : List ClientId} {s : Publishers}
    (hs : Explained s) {origin source : ClientId} {mid : Mid} (rid : Option Rid)
    (hsource : source ∈ ids ∧ source ≠ origin)
    (hentry : ∃ entry ∈ s.tracksIn source, entry.id.mid = mid) :
    ∃ call ∈ (fanoutRequest writer ids s (.keyframeRequest origin rid source mid)).calls,
      call.client = source ∧ call.mid = mid ∧ s.clock < call.time + 1000 ∧
        (call ∈ s.calls ∨ call.time = s.clock ∧ call.rid = rid) := by
  obtain ⟨entry, hfind⟩ : ∃ entry, (s.tracksIn source).find? (·.id.mid = mid) = some entry := by
    obtain ⟨entry, hentry, hmid⟩ := hentry
    exact Option.isSome_iff_exists.mp (List.find?_isSome.mpr ⟨entry, hentry, by simpa using hmid⟩)
  simp only [fanoutRequest, if_pos hsource, handleKeyframeRequest, hfind]
  split
  · next hthrottled =>
    obtain ⟨last, hlast, hrecent⟩ := (Option.any_eq_true _ _).mp hthrottled
    obtain ⟨call, hcall, hof, hmid, htime⟩ := hs source mid last (by simp [stampOf, hfind, hlast])
    refine ⟨call, List.mem_append_left _ hcall, hof, hmid, ?_, .inl hcall⟩
    have := of_decide_eq_true hrecent
    unfold keyframeRequestMinGap at this
    omega
  · refine ⟨⟨source, mid, rid, .pli, s.clock⟩, ?_, rfl, rfl, Nat.lt_add_of_pos_right (by decide),
      .inr ⟨rfl, rfl⟩⟩
    simp [Publishers.put, hwriter]

/-- In every run, when the pacer moves a client to another layer that the client has not asked for
in the last second, its requests for that layer are handled in the same pass. So the writer of each
track has then been asked for a keyframe within the last second: for that layer now, or earlier by a
request that kept this one out. -/
theorem switch_asks (cfg : Config) (world : World) (inputs : List LoopInput)
    (hwriters : ∀ i ∈ inputs, ∀ client mid, i.writer client mid = true) (elapsed : Nat)
    (writer : ClientId → Mid → Bool) (hwriter : ∀ client mid, writer client mid = true) :
    let s := ((loop cfg world).run .init inputs).advance elapsed
    let now := s.publishers.clock
    let next := s.apply cfg world writer .fanoutPending
    ∀ round ∈ (s.registry.firstSweep cfg world now).2 ++ (s.registry.secondSweep cfg world now).2,
      ∀ c rid, MovedTo cfg world now round c rid →
        (∀ last ∈ c.lastSwitchKeyframeRequest.lookup rid, last + 1000 ≤ now) →
        ∀ publisher mid, Receives round.state c publisher mid →
          ∃ before, before ++ [.keyframeRequest c.id (some rid) publisher.id mid] <+:
              s.registry.passEvents cfg world now ∧
            ∃ call ∈ next.publishers.calls, call.client = publisher.id ∧ call.mid = mid ∧
              now < call.time + 1000 ∧ (call.time = now ∧ call.rid = some rid ∨
                call ∈ (fanoutRequests writer s.registry.ids s.publishers before).calls) := by
  intro s now next round hround c rid hswitch hown publisher mid
    ⟨hpublisher, hother, o, ho, hpublished, horigin, hmid⟩
  have hrun : ((loop cfg world).run .init inputs).Sound := Loop.sound_run hwriters
  have hsound : s.Sound := ⟨hrun.entries, hrun.explained⟩
  have hround := mem_firstSweep_of_moved hround hswitch
  have hids := ((s.registry.firstSweep_keeps cfg world now).2 round hround).1.1
  have hrequest := mem_passEvents_of_moved hround hswitch hown ho
  rw [horigin, hmid] at hrequest
  obtain ⟨before, after, hevents⟩ := List.append_of_mem hrequest
  refine ⟨before, ⟨after, by rw [hevents]; simp⟩, ?_⟩
  have hbefore := Grows.fanoutRequests hwriter s.registry.ids s.publishers before
  have hentry : ∃ entry ∈ (fanoutRequests writer s.registry.ids s.publishers before).tracksIn
      publisher.id, entry.id.mid = mid := by
    obtain ⟨entry, hentry, hentryMid⟩ := hsound.entries publisher.id o.trackIn
      (Registry.nothingPublished_round hround publisher.id o.trackIn
        ⟨publisher, hpublisher, rfl, hpublished⟩)
    obtain ⟨entry', hentry', hmid'⟩ := hbefore.mids publisher.id entry hentry
    exact ⟨entry', hentry', hmid'.trans (hentryMid.trans hmid)⟩
  have hsource : publisher.id ∈ s.registry.ids ∧ publisher.id ≠ c.id :=
    ⟨hids ▸ List.mem_map_of_mem hpublisher, hother⟩
  obtain ⟨call, hcall, hof, hcallMid, hrecent, hwhich⟩ := fanoutRequest_calls hwriter
    (hbefore.explained hsound.explained) (some rid) hsource hentry
  rw [hbefore.clock] at hrecent hwhich
  refine ⟨call, ?_, hof, hcallMid, hrecent, hwhich.symm⟩
  have hlater := (Grows.fanoutRequests hwriter s.registry.ids (fanoutRequest writer s.registry.ids
    (fanoutRequests writer s.registry.ids s.publishers before)
      (.keyframeRequest c.id (some rid) publisher.id mid)) after).calls hcall
  have hsplit : next.publishers = fanoutRequests writer s.registry.ids (fanoutRequest writer
      s.registry.ids (fanoutRequests writer s.registry.ids s.publishers before)
        (.keyframeRequest c.id (some rid) publisher.id mid)) after := by
    simp only [next, Loop.apply, fanoutRequests]
    rw [hevents, List.foldl_append, List.foldl_cons]
  rw [hsplit]
  exact hlater

/-- A world in which every client has an estimate and the pacer's answer depends on the moment. -/
def movingWorld (action : Nat → PacerAction) : World :=
  { pacedWorld (some 1000000) .noChange with pacerAction := fun n _ _ => action n }

def withWriters (elapsed : Nat) (call : LoopCall) : LoopInput := ⟨elapsed, fun _ _ => true, call⟩

def packet (elapsed : Nat) (rid : Rid) : LoopInput :=
  withWriters elapsed (.poll 0 (.mediaData ⟨"v", some rid, none⟩) true)

/-- A publisher of video, and a subscriber. -/
def subscribed : List LoopInput :=
  [withWriters 0 (.insertBrowser 11),
    withWriters 0 (.poll 0 (.mediaAdded "v" .video .recvOnly) true),
    withWriters 0 .fanoutPending, withWriters 0 (.insertBrowser 12)]

theorem switch_asks_subscribed :
    let world := movingWorld fun _ => .changeLayer "f"
    let s := ((loop pacedConfig world).run .init (subscribed ++ [packet 900 "f"])).advance 0
    let now := s.publishers.clock
    (∀ i ∈ subscribed ++ [packet 900 "f"], ∀ client mid, i.writer client mid = true) ∧
      ∃ round ∈ (s.registry.firstSweep pacedConfig world now).2, ∃ c publisher,
        MovedTo pacedConfig world now round c "f" ∧
        c.lastSwitchKeyframeRequest.lookup "f" = none ∧ Receives round.state c publisher "v" ∧
        ∃ call ∈ (s.apply pacedConfig world (fun _ _ => true) .fanoutPending).publishers.calls,
          call.client = publisher.id ∧ call.mid = "v" ∧ now < call.time + 1000 := by
  have hwriters : ∀ i ∈ subscribed ++ [packet 900 "f"], ∀ client mid,
      i.writer client mid = true := by
    simp [subscribed, packet, withWriters]
  have hasks := switch_asks pacedConfig (movingWorld fun _ => .changeLayer "f")
    (subscribed ++ [packet 900 "f"]) hwriters 0 (fun _ _ => true) (fun _ _ => rfl)
  intro world s now
  obtain ⟨round, hround, c, publisher, hmoved, hown, hreceives⟩ :
      ∃ round ∈ (s.registry.firstSweep pacedConfig world now).2, ∃ c publisher,
        MovedTo pacedConfig world now round c "f" ∧
        c.lastSwitchKeyframeRequest.lookup "f" = none ∧ Receives round.state c publisher "v" :=
    ⟨_, List.get_mem _ ⟨1, by decide +kernel⟩, _, _,
      ⟨List.get_mem _ ⟨1, by decide +kernel⟩, by decide +kernel, 0, ⟨"v", some "f", none⟩,
        by decide +kernel, by decide +kernel⟩, by decide +kernel,
      ⟨List.get_mem _ ⟨0, by decide +kernel⟩, by decide +kernel, by decide +kernel⟩⟩
  refine ⟨hwriters, round, hround, c, publisher, hmoved, hown, hreceives, ?_⟩
  obtain ⟨-, -, call, hcall, hclient, hmid, hrecent, -⟩ := hasks round
    (List.mem_append_left _ hround) c "f" hmoved (by simp [hown]) publisher "v" hreceives
  exact ⟨call, hcall, hclient, hmid, hrecent⟩

/-- The subscriber asks for a first keyframe at time 0, and there is a packet at 900. -/
def firstSwitch : List LoopInput :=
  subscribed ++ [withWriters 0 (.pumpWsCtrl (fun _ => ([], false)) fun id =>
      if id = 1 then [(none, 0, "v")] else []),
    withWriters 0 .fanoutPending, packet 900 "f"]

/-- The subscriber has switched at 900 and back at 950; another packet at 1800. -/
def secondSwitch : List LoopInput :=
  firstSwitch ++ [withWriters 0 .fanoutPending, packet 50 "q", withWriters 0 .fanoutPending,
    packet 850 "f"]

/-- In the next drain a client is moved to the high layer, and after it no writer has been asked for
that layer in the last second. -/
def SwitchesUnasked (inputs : List LoopInput) : Prop :=
  let world := movingWorld fun n => if n = 6 then .changeLayer "q" else .changeLayer "f"
  let s := (loop pacedConfig world).run .init inputs
  let now := s.publishers.clock
  let next := s.apply pacedConfig world (fun _ _ => true) .fanoutPending
  ∃ round ∈ (s.registry.firstSweep pacedConfig world now).2, ∃ c publisher,
    MovedTo pacedConfig world now round c "f" ∧ Receives round.state c publisher "v" ∧
      ∀ call ∈ next.publishers.calls, ¬(call.rid = some "f" ∧ now < call.time + 1000)

/-- At 900 because of the first request for the track, and at 1800 because the client itself has
switched to the layer at 900. -/
theorem switch_unasked : SwitchesUnasked firstSwitch ∧ SwitchesUnasked secondSwitch := by
  constructor <;>
  exact ⟨_, List.get_mem _ ⟨0, by decide +kernel⟩, _, _,
    ⟨List.get_mem _ ⟨1, by decide +kernel⟩, by decide +kernel, 0, ⟨"v", some "f", none⟩,
      by decide +kernel, by decide +kernel⟩,
    ⟨List.get_mem _ ⟨0, by decide +kernel⟩, by decide +kernel, by decide +kernel⟩,
    by decide +kernel⟩

end PartnerEdge.Sfu
