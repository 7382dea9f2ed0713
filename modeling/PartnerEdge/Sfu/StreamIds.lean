import PartnerEdge.Sfu.StepOffers
import PartnerEdge.Sfu.SwitchKeyframe

/-!
# Stream ids

A publisher is named to its subscribers three times by a stream id: to str0m with the m-line of each
of its tracks, in the `tracks_map_update` frame after the offer, and in the `tracks_map` frame of
every newcomer. The first names it by the id it got in this process, the others by its peer id. This
module follows the tracks through the process, from the m-line of the publisher to the offers, and
says when the names agree.
-/

namespace PartnerEdge.Sfu

open Svc PartnerEdge.Client Text

/-! ## The maps of a run -/

structure TracksMapEntry where
  streamId : Str
  peerId : Nat
deriving DecidableEq, Repr

/-- The entry of a registered browser in the `tracks_map` frame. -/
def tracksMapEntry (peerId : Nat) : TracksMapEntry := ⟨streamId peerId, peerId⟩

namespace Process

variable (cfg : Config) (world : World) (s : Process)

/-- The `tracks_map` frame that a step sends a newcomer, each entry with the client it names. -/
def newcomerMap : Step → List (ClientId × TracksMapEntry)
  | .pass p =>
    let s := s.drive cfg world p
    match p.arm, s.clientInjectRx with
    | .clientInjected, _ :: _ =>
      if world.tracksMapSent s.nextClientId then
        s.registry.clients.flatMap fun c =>
          c.externalPeerId.toList.map fun peerId => (c.id, tracksMapEntry peerId)
      else []
    | _, _ => []
  | _ => []

/-- The entries of all `tracks_map` frames of a run. -/
def tracksMaps : Process → List Step → List (ClientId × TracksMapEntry)
  | _, [] => []
  | s, i :: is => s.newcomerMap cfg world i ++ tracksMaps (s.step cfg world i) is

/-- The stream ids that the browsers are told for the publisher of an offer: to the subscriber with
the offer, and to every newcomer from that step on. -/
def announcedIds (is : List Step) (o : Offer) : List Str :=
  o.mapUpdate.toList.map (·.streamId) ++
    ((s.tracksMaps cfg world is).filter (·.1 = o.trackIn.origin)).map (·.2.streamId)

end Process

/-! ## Where tracks come from -/

namespace Client

variable (jwt : Jwt) (now : Nat) (auth : RelayAuth)

/-- The track is one of the client's, under the client's peer id. -/
def Owns (c : Client) (t : TrackIn) : Prop :=
  t.origin = c.id ∧ t.externalPeerId = c.externalPeerId

theorem newTracks_handleChannelData (id : ClientId) (label : String) (data : List UInt8) :
    Registry.newTracks (handleChannelData jwt now auth id label data) = [] := by
  have hnone {p : Propagated} (h : p.isContent = false) : Registry.newTracks p = [] := by
    cases p <;> first | rfl | cases h
  have hframe (maxBytes : Nat) {event : List UInt8 → Propagated}
      (h : Registry.newTracks (event data) = []) :
      Registry.newTracks (opaqueFrame maxBytes data event) = [] := by
    unfold opaqueFrame
    split
    · rfl
    · exact h
  simp only [handleChannelData]
  repeat' split
  all_goals first
    | exact hframe _ rfl
    | rfl
    | exact hnone (relaySource_isContent jwt now auth id _)
    | exact hnone (budgetMessage_isContent id _)

/-- Only a new m-line makes a track. -/
theorem owns_handleEvent (c : Client) (e : RtcEvent) {t : TrackIn} :
    (t ∈ (c.handleEvent jwt now auth e).1.tracksIn → t ∈ c.tracksIn ∨ c.Owns t) ∧
      (t ∈ Registry.newTracks (c.handleEvent jwt now auth e).2 → c.Owns t) := by
  cases e with
  | mediaAdded mid kind direction =>
    cases direction <;> simp [handleEvent, trackInAdded, Registry.newTracks, Owns] <;> grind
  | keyframeRequest mid =>
    refine ⟨.inl, fun ht => ?_⟩
    simp only [handleEvent, incomingKeyframeReq] at ht
    split at ht
    · cases ht
    · split at ht <;> cases ht
  | channelData label data =>
    refine ⟨.inl, fun ht => ?_⟩
    rw [handleEvent, newTracks_handleChannelData] at ht
    cases ht
  | _ => exact ⟨.inl, fun ht => by cases ht⟩

theorem owns_poll (es : List RtcEvent) (c : Client) {t : TrackIn} :
    (t ∈ (c.poll jwt now auth es).1.tracksIn → t ∈ c.tracksIn ∨ c.Owns t) ∧
      ∀ q ∈ (c.poll jwt now auth es).2, t ∈ Registry.newTracks q → c.Owns t := by
  induction es generalizing c with
  | nil => exact ⟨.inl, by simp [poll]⟩
  | cons e es ih =>
    have hfollows := Follows.handleEvent jwt now auth c e
    have hsame : (c.handleEvent jwt now auth e).1.Owns t → c.Owns t :=
      fun h => ⟨h.1.trans hfollows.id, h.2.trans hfollows.externalPeerId⟩
    obtain ⟨hadded, hqueued⟩ := owns_handleEvent jwt now auth c e (t := t)
    obtain ⟨hlater, hlaterQueued⟩ := ih (c.handleEvent jwt now auth e).1
    simp only [poll]
    split
    · refine ⟨fun ht => ?_, fun q hq ht => ?_⟩
      · exact (hlater ht).elim hadded fun h => .inr (hsame h)
      · have hcases : q = (c.handleEvent jwt now auth e).2 ∨
            q ∈ ((c.handleEvent jwt now auth e).1.poll jwt now auth es).2 := by grind
        rcases hcases with rfl | hq
        · exact hqueued ht
        · exact hsame (hlaterQueued q hq ht)
    · exact ⟨.inl, by simp⟩

end Client

namespace Registry

/-- Every track that is published, queued or held by a client has a property. -/
structure AllTracks (P : TrackIn → Prop) (r : Registry) : Prop where
  published : ∀ c ∈ r.clients, ∀ t ∈ c.tracksIn, P t
  queued : ∀ q ∈ r.toPropagate, ∀ t ∈ newTracks q, P t
  heard : ∀ c ∈ r.clients, c.negotiator.AllTracks P

/-- A call to a client whose tracks all have the property, with a track that has it. -/
def CallHas (P : TrackIn → Prop) (x : Client × Call) : Prop :=
  x.1.negotiator.AllTracks P ∧ ∀ t ∈ x.2.openedTrack, P t

section AllTracks

variable {P : TrackIn → Prop} {cfg : Config} {world : World} {now : Nat} {r r' : Registry}

theorem heard_fanout {p : Propagated} (h : ∀ c ∈ r.clients, c.negotiator.AllTracks P)
    (hp : ∀ t ∈ newTracks p, P t) :
    ∀ c ∈ (r.fanout world now p).clients, c.negotiator.AllTracks P := by
  unfold fanout
  split
  · exact h
  · intro c' hc'
    obtain ⟨c, hc, rfl⟩ := List.mem_map.1 hc'
    unfold fanoutTurn
    split
    · exact h c hc
    · exact (follows_deliver _ c).heard P hp (h c hc)

theorem callHas_fanoutCalls {p : Propagated} (h : ∀ c ∈ r.clients, c.negotiator.AllTracks P)
    (hp : ∀ t ∈ newTracks p, P t) : ∀ x ∈ r.fanoutCalls now p, CallHas P x := by
  cases p with
  | trackOpen origin t =>
    intro x hx
    obtain ⟨c, hc, rfl⟩ := List.mem_map.1 hx
    exact ⟨h c (List.mem_of_mem_filter hc), hp⟩
  | _ => simp [fanoutCalls]

theorem callHas_advertiseCalls (ts : List TrackIn) {c : Client} (hc : c.negotiator.AllTracks P)
    (hts : ∀ t ∈ ts, P t) : ∀ x ∈ advertiseCalls world now c ts, CallHas P x := by
  induction ts generalizing c with
  | nil => simp [advertiseCalls]
  | cons t ts ih =>
    intro x hx
    have ht := hts t (by simp)
    rcases List.mem_cons.1 hx with rfl | hx
    · exact ⟨hc, by simpa [Call.openedTrack] using ht⟩
    · exact ih (hc.handleTrackOpen ht) (fun t' ht' => hts t' (by simp [ht'])) x hx

variable (h : r.AllTracks P)
include h

theorem AllTracks.mono {Q : TrackIn → Prop} (hPQ : ∀ t, P t → Q t) : r.AllTracks Q where
  published c hc t ht := hPQ t (h.published c hc t ht)
  queued q hq t ht := hPQ t (h.queued q hq t ht)
  heard c hc t ht := hPQ t (h.heard c hc t ht)

theorem AllTracks.of_publishes (hpublished : NothingPublished r r') :
    ∀ c ∈ r'.clients, ∀ t ∈ c.tracksIn, P t := by
  intro c hc t ht
  obtain ⟨c₀, hc₀, -, ht₀⟩ := hpublished c.id t ⟨c, hc, rfl, ht⟩
  exact h.published c₀ hc₀ t ht₀

theorem AllTracks.keepsTo (hpublished : NothingPublished r r')
    (hclients : KeepsTo r.clients r'.clients)
    (hqueue : ∀ q ∈ r'.toPropagate, q ∈ r.toPropagate ∨ q.isContent = false) : r'.AllTracks P where
  published := h.of_publishes hpublished
  queued q hq t ht := by
    rcases hqueue q hq with hq | hq
    · exact h.queued q hq t ht
    · cases q <;> simp_all [newTracks, Propagated.isContent]
  heard c hc := by
    obtain ⟨c₀, hc₀, hfollows⟩ := hclients c hc
    exact hfollows.heard P (by simp) (h.heard c₀ hc₀)

theorem AllTracks.reapDead (now : Nat) : (r.reapDead now).AllTracks P := by
  refine h.keepsTo (nothingPublished_reapDead r now) (fun c' hc' => ?_) fun _ hq => .inl hq
  obtain ⟨c, hc, -, hfollows⟩ := exists_alive_of_mem_reapDead hc'
  exact ⟨c, hc, hfollows⟩

theorem AllTracks.stealSession (client : Client) : (r.stealSession client).AllTracks P := by
  refine h.keepsTo (nothingPublished_stealSession r client) (keepsTo_stealSession client) ?_
  obtain heq | ⟨_, _, _, _, _, _, _, heq⟩ := r.stealSession_cases client <;> rw [heq] <;>
    exact fun _ hq => .inl hq

theorem AllTracks.pumpWsCtrl (world : World) (now : Nat) (answers : ClientId → List Answer × Bool)
    (keyframeRequests : ClientId → List (Option Rid × ClientId × Mid)) :
    (r.pumpWsCtrl world now answers keyframeRequests).AllTracks P := by
  refine h.keepsTo (samePublishers_pumpWsCtrl ..).nothingPublished
    (keepsTo_pumpWsCtrl _ _ _ _) fun q hq => ?_
  rcases List.mem_append.1 hq with hq | hq
  · exact .inl hq
  · obtain ⟨c, -, hq⟩ := List.mem_flatMap.1 hq
    obtain ⟨_, -, rfl⟩ := List.mem_map.1 hq
    exact .inr rfl

/-- A poll publishes tracks of the clients' own. -/
theorem AllTracks.pollAll (hown : ∀ c ∈ r.clients, ∀ t, c.Owns t → P t)
    (outputs : ClientId → List RtcEvent) : (r.pollAll cfg world now outputs).AllTracks P where
  published c' hc' t ht := by
    obtain ⟨c, hc, rfl⟩ := List.mem_map.1 hc'
    rcases (c.owns_poll world.jwt now cfg.relayAuth (outputs c.id)).1 ht with ht | ht
    · exact h.published c hc t ht
    · exact hown c hc t ht
  queued q hq t ht := by
    rcases List.mem_append.1 hq with hq | hq
    · exact h.queued q hq t ht
    · obtain ⟨c, hc, hq⟩ := List.mem_flatMap.1 hq
      exact hown c hc t ((c.owns_poll world.jwt now cfg.relayAuth (outputs c.id)).2 q hq ht)
  heard c' hc' := by
    obtain ⟨c, hc, hfollows⟩ := keepsTo_pollAll cfg world now outputs c' hc'
    exact hfollows.heard P (by simp) (h.heard c hc)

theorem AllTracks.heard_consult {p : Propagated} :
    ∀ c ∈ (r.consult cfg world now p).clients, c.negotiator.AllTracks P := by
  intro c hc
  obtain ⟨c₀, hc₀, hfollows⟩ := keepsTo_consult c hc
  exact hfollows.heard P (by simp) (h.heard c₀ hc₀)

theorem AllTracks.handlePending {p : Propagated} (hp : ∀ t ∈ newTracks p, P t) :
    (r.handlePending cfg world now p).AllTracks P where
  published := h.of_publishes (samePublishers_handlePending.nothingPublished)
  queued q hq t ht := by
    rcases mem_toPropagate_handlePending hq with hq | ⟨-, hq⟩
    · exact h.queued q hq t ht
    · cases q <;> simp_all [newTracks, Propagated.isContent]
  heard := by
    simp only [Registry.handlePending]
    split
    · exact h.heard_consult
    · exact heard_fanout h.heard_consult hp

/-- The calls of a drain, and what it leaves. -/
theorem AllTracks.drain {ps : List Propagated} (hps : ∀ p ∈ ps, ∀ t ∈ newTracks p, P t) :
    (ps.foldl (fun r p => r.handlePending cfg world now p) r).AllTracks P ∧
      ∀ x ∈ drainCalls cfg world now ps r, CallHas P x := by
  induction ps generalizing r with
  | nil => exact ⟨h, by simp [drainCalls]⟩
  | cons p ps ih =>
    have hp := hps p (by simp)
    obtain ⟨hlast, hcalls⟩ := ih (h.handlePending hp) fun q hq => hps q (by simp [hq])
    refine ⟨hlast, fun x hx => ?_⟩
    rcases List.mem_append.1 hx with hx | hx
    · exact callHas_fanoutCalls h.heard_consult hp x hx
    · exact hcalls x hx

theorem AllTracks.drainPass (cfg : Config) (world : World) (now : Nat) :
    (r.drainPass cfg world now).AllTracks P ∧
      ∀ x ∈ drainCalls cfg world now r.toPropagate (r.withQueue []), CallHas P x :=
  AllTracks.drain (r := r.withQueue []) ⟨h.published, by simp [withQueue], h.heard⟩ h.queued

theorem AllTracks.fanoutPending (cfg : Config) (world : World) (now : Nat) :
    (r.fanoutPending cfg world now).AllTracks P ∧
      ∀ x ∈ r.fanoutPendingCalls cfg world now, CallHas P x := by
  obtain ⟨hfirst, hcalls⟩ := h.drainPass cfg world now
  obtain ⟨hlast, hcalls'⟩ := hfirst.drainPass cfg world now
  exact ⟨hlast, fun x hx => (List.mem_append.1 hx).elim (hcalls x) (hcalls' x)⟩

theorem AllTracks.insert (world : World) (now : Nat) {client : Client}
    (htracksIn : client.tracksIn = []) (htracks : client.negotiator.tracks = []) :
    (r.insert world now client).AllTracks P ∧
      ∀ x ∈ r.insertCalls world now client, CallHas P x := by
  have hsteal := h.stealSession client
  have hannounced : ∀ t ∈ (r.stealSession client).clients.flatMap (·.tracksIn), P t := by
    intro t ht
    obtain ⟨c, hc, ht⟩ := List.mem_flatMap.1 ht
    exact hsteal.published c hc t ht
  have hnone : client.negotiator.AllTracks P := by simp [Negotiator.AllTracks, htracks]
  have hfollows := follows_crossAdvertise (r.stealSession client) world now client
  refine ⟨⟨?_, fun q hq => ?_, fun c hc => ?_⟩, callHas_advertiseCalls _ hnone hannounced⟩
  · exact h.of_publishes (nothingPublished_insert r world now htracksIn)
  · rcases List.mem_append.1 hq with hq | hq
    · exact hsteal.queued q hq
    · obtain rfl := List.mem_singleton.1 hq
      simp [newTracks]
  · rcases List.mem_append.1 hc with hc | hc
    · exact hsteal.heard c hc
    · obtain rfl := List.mem_singleton.1 hc
      exact hfollows.heard P hannounced hnone

end AllTracks

end Registry

/-! ## Who is named -/

namespace Process

/-- The publisher of the track was admitted with the peer id of the track. -/
def Names (s : Process) (t : TrackIn) : Prop :=
  ∀ peerId ∈ t.externalPeerId, ∃ a ∈ s.admissions, a.id = t.origin ∧ a.peerId = peerId

/-- Tracks carry the names of their publishers, and no id is given twice. -/
structure Traced (s : Process) : Prop where
  consistent : s.Consistent
  tracks : s.registry.AllTracks s.Names
  unique : s.admissions.Pairwise (·.id ≠ ·.id)

section Traced

variable {cfg : Config} {world : World} {s : Process}

theorem allTracks_soloKick {P : TrackIn → Prop} {r : Registry} (h : r.AllTracks P) (cfg : Config)
    (now : Nat) :
    (soloKick cfg r now).AllTracks P := by
  obtain ⟨hkeeps, hqueue, -⟩ := soloKick_spec cfg r now
  refine h.keepsTo ?_ hkeeps fun q hq => .inl (hqueue ▸ hq)
  unfold soloKick
  split
  · exact r.nothingPublished_checkSoloTimeout _ now
  · exact .of_subset (List.Subset.refl _)

theorem Traced.names_of_owns (h : s.Traced) {c : Client} (hc : c ∈ s.registry.clients)
    {t : TrackIn} (ht : c.Owns t) : s.Names t := by
  intro peerId hpeer
  obtain ⟨a, ha, hid, hpeerId⟩ := h.consistent.admitted c hc peerId (ht.2 ▸ hpeer)
  exact ⟨a, ha, hid.trans ht.1.symm, hpeerId⟩

/-- The pass up to its `select`, and the calls it makes. -/
theorem Traced.drive (h : s.Traced) (cfg : Config) (world : World) (p : Pass) :
    (s.drive cfg world p).registry.AllTracks s.Names ∧
      (∀ x ∈ (soloKick cfg (s.registry.reapDead p.now) p.now).pumpCalls p.now p.answers,
        Registry.CallHas s.Names x) ∧
      ∀ x ∈ (s.polled cfg world p).fanoutPendingCalls cfg world p.now,
        Registry.CallHas s.Names x := by
  have hkicked := allTracks_soloKick (h.tracks.reapDead p.now) cfg p.now
  have hpumped := hkicked.pumpWsCtrl world p.now p.answers p.keyframeRequests
  have hpolled : (s.polled cfg world p).AllTracks s.Names := by
    refine hpumped.pollAll (fun c' hc' t ht => ?_) p.outputs
    obtain ⟨c₁, hc₁, hfollows'⟩ := (soloKick_spec cfg _ _).1.trans
      (Registry.keepsTo_pumpWsCtrl world p.now p.answers p.keyframeRequests) c' hc'
    obtain ⟨c, hc, -, hfollows⟩ := Registry.exists_alive_of_mem_reapDead hc₁
    have hsame := hfollows.trans hfollows'
    exact h.names_of_owns hc ⟨ht.1.trans hsame.id, ht.2.trans hsame.externalPeerId⟩
  obtain ⟨hdriven, hcalls⟩ := hpolled.fanoutPending cfg world p.now
  refine ⟨hdriven, fun x hx => ?_, hcalls⟩
  obtain ⟨c, hc, rfl⟩ := List.mem_map.1 hx
  exact ⟨hkicked.heard c hc, by simp [Call.openedTrack]⟩

theorem Traced.init : init.Traced := by
  refine ⟨.init, ⟨?_, ?_, ?_⟩, ?_⟩ <;> simp [Process.init, Registry.empty]

/-- A newcomer, and the calls that announce the registered tracks to it. -/
theorem Traced.join (h : s.Traced) {client : Client} {admission : Option Admission} {now : Nat}
    (hjoin : (s.join world now client admission).Consistent) (htracksIn : client.tracksIn = [])
    (htracks : client.negotiator.tracks = []) (hnew : ∀ a ∈ admission, a.id = s.nextClientId) :
    (s.join world now client admission).Traced ∧
      ∀ x ∈ s.registry.insertCalls world now client, Registry.CallHas s.Names x := by
  obtain ⟨hinserted, hcalls⟩ := h.tracks.insert world now htracksIn htracks
  refine ⟨⟨hjoin, hinserted.mono fun t ht peerId hpeer => ?_, ?_⟩, hcalls⟩
  · obtain ⟨a, ha, hnamed⟩ := ht peerId hpeer
    exact ⟨a, List.mem_append_left _ ha, hnamed⟩
  · refine List.pairwise_append.2 ⟨h.unique, ?_, fun a ha b hb => ?_⟩
    · cases admission <;> simp
    · rw [hnew b (Option.mem_toList.1 hb)]
      exact Nat.ne_of_lt (h.consistent.admissionIds a ha)

theorem Traced.select (h : s.Traced) (now : Nat) (arm : Arm) :
    (s.select cfg world now arm).Traced ∧
      ∀ x ∈ s.selectCalls cfg world now arm, Registry.CallHas s.Names x := by
  have hconsistent : (s.select cfg world now arm).Consistent := h.consistent.select now arm
  have hquiet {q : Propagated} (hq : q ∈ (s.select cfg world now arm).registry.toPropagate) :
      q.isContent = false := hconsistent.quiet q hq
  cases arm with
  | input failed =>
    have hsame := s.registry.samePublishers_failInputs failed
    exact ⟨⟨hconsistent, h.tracks.keepsTo hsame.nothingPublished
      (Registry.keepsTo_failInputs failed) fun q hq => .inr (hquiet hq), h.unique⟩, by
      simp [selectCalls]⟩
  | speakerTick dominant top =>
    exact ⟨⟨hconsistent, h.tracks.keepsTo (.of_subset (List.Subset.refl _))
      (.of_subset (List.Subset.refl _)) fun q hq => .inr (hquiet hq), h.unique⟩, by
      simp [selectCalls]⟩
  | relayInjected upstreamUrl => exact h.join hconsistent rfl rfl (by simp)
  | clientInjected =>
    simp only [Process.select, injectClient, selectCalls] at hconsistent ⊢
    cases hrx : s.clientInjectRx with
    | nil => exact ⟨h, by simp⟩
    | cons pending rest =>
      rw [hrx] at hconsistent
      have hannounced : (s.announce world rest).Traced :=
        ⟨h.consistent.announce rest, ⟨h.tracks.published, h.tracks.queued, h.tracks.heard⟩,
          h.unique⟩
      exact hannounced.join hconsistent rfl rfl (by simp [announce])

/-- What a step keeps, and what the calls of the step are about. -/
theorem Traced.step (h : s.Traced) (i : Step) :
    (s.step cfg world i).Traced ∧
      ∀ x ∈ s.negotiatorCalls cfg world i, Registry.CallHas s.Names x := by
  have hsame : ∀ sessions rx, Traced { s with sessions, clientInjectRx := rx } := fun _ _ =>
    ⟨⟨h.consistent.own, h.consistent.quiet, h.consistent.clientIds, h.consistent.admissionIds,
      h.consistent.admitted, h.consistent.steals⟩, h.tracks, h.unique⟩
  cases i with
  | upgrade req =>
    refine ⟨?_, by simp [negotiatorCalls]⟩
    simp only [Process.step, Process.upgrade]
    split
    · exact hsame _ _
    · exact h
  | sessionReady i =>
    refine ⟨?_, by simp [negotiatorCalls]⟩
    simp only [Process.step, Process.sessionReady]
    split
    · exact hsame _ _
    · exact h
  | sessionEnded i => exact ⟨hsame _ _, by simp [negotiatorCalls]⟩
  | pass p =>
    obtain ⟨htracks, hpump, hfanout⟩ := h.drive cfg world p
    have hdriven : (s.drive cfg world p).Traced := ⟨h.consistent.drive p, htracks, h.unique⟩
    obtain ⟨hstep, hselect⟩ := hdriven.select p.now p.arm
    refine ⟨hstep, fun x hx => ?_⟩
    rcases List.mem_append.1 hx with hx | hx
    · exact (List.mem_append.1 hx).elim (hpump x) (hfanout x)
    · exact hselect x hx

theorem Traced.mem_offers (h : s.Traced) {i : Step} {x : ClientId} {o : Offer}
    (ho : (x, o) ∈ s.offers cfg world i) : Negotiator.IsSignalled o ∧ s.Names o.trackIn := by
  have hstep : (s.step cfg world i).Traced ∧ _ := h.step i
  obtain ⟨⟨c, k⟩, hcall, ho⟩ := List.mem_flatMap.1 ho
  obtain ⟨o, ho, heq⟩ := List.mem_map.1 ho
  cases heq
  obtain ⟨hheld, hopened⟩ := hstep.2 _ hcall
  exact hheld.mem_offersOf (by rwa [k.flatMap_openedTrack_actions]) ho

/-- The entry of a client in a `tracks_map` is made of the peer id it was admitted with. -/
theorem Traced.mem_newcomerMap (h : s.Traced) {i : Step} {x : ClientId} {e : TracksMapEntry}
    (he : (x, e) ∈ s.newcomerMap cfg world i) :
    ∃ a ∈ s.admissions, a.id = x ∧ e.streamId = streamId a.peerId := by
  cases i with
  | pass p =>
    simp only [newcomerMap] at he
    split at he
    · split at he
      · obtain ⟨c, hc, he⟩ := List.mem_flatMap.1 he
        obtain ⟨peerId, hpeer, heq⟩ := List.mem_map.1 he
        cases heq
        obtain ⟨a, ha, hid, rfl⟩ := (h.consistent.drive p).admitted c hc peerId
          (Option.mem_toList.1 hpeer)
        exact ⟨a, ha, hid, rfl⟩
      · cases he
    · cases he
  | _ => cases he

theorem admissions_step (i : Step) : ∀ a ∈ s.admissions, a ∈ (s.step cfg world i).admissions := by
  intro a ha
  cases i with
  | upgrade req => simp only [Process.step, Process.upgrade]; split <;> exact ha
  | sessionReady i => simp only [Process.step, Process.sessionReady]; split <;> exact ha
  | sessionEnded i => exact ha
  | pass p =>
    simp only [Process.step, Process.select]
    split
    · exact ha
    · exact ha
    · exact List.mem_append_left _ ha
    · unfold injectClient
      split
      · exact ha
      · exact List.mem_append_left _ ha

theorem Traced.mem_tracksMaps (h : s.Traced) {is : List Step} {e : TracksMapEntry}
    {a : Admission} (ha : a ∈ s.admissions) (he : (a.id, e) ∈ s.tracksMaps cfg world is) :
    e.streamId = streamId a.peerId := by
  induction is generalizing s with
  | nil => cases he
  | cons i is ih =>
    rcases List.mem_append.1 he with he | he
    · obtain ⟨b, hb, hid, hstream⟩ := h.mem_newcomerMap he
      obtain rfl := List.inj_on_of_nodup_map (List.pairwise_map.2 h.unique) hb ha hid
      exact hstream
    · exact ih (h.step i).1 (admissions_step i a ha) he

end Traced

end Process

/-- In every run, the stream ids signalled for a publisher with a peer id agree exactly when the id
it has in this process is its peer id, unless str0m alone is told one. -/
theorem streamIds_agree_iff (cfg : Config) (world : World) (before later : List Step) (i : Step)
    {x : ClientId} {o : Offer} {peerId : Nat}
    (ho : (x, o) ∈ ((process cfg world).run .init before).offers cfg world i)
    (hpeer : o.trackIn.externalPeerId = some peerId) :
    (∀ id ∈ ((process cfg world).run .init before).announcedIds cfg world (i :: later) o,
        id = o.streamId) ↔
      o.trackIn.origin = peerId ∨
        ((process cfg world).run .init before).announcedIds cfg world (i :: later) o = [] := by
  have htraced : ((process cfg world).run .init before).Traced :=
    Machine.run_of_step (I := Process.Traced) (fun _ i h => (h.step i).1) .init before
  obtain ⟨⟨hmline, hupdate⟩, hnames⟩ := htraced.mem_offers ho
  obtain ⟨a, ha, horigin, rfl⟩ := hnames peerId hpeer
  have hannounced : ∀ id ∈ ((process cfg world).run .init before).announcedIds cfg world
      (i :: later) o, id = streamId a.peerId := by
    intro id hid
    rcases List.mem_append.1 hid with hid | hid
    · obtain ⟨u, hu, rfl⟩ := List.mem_map.1 hid
      obtain ⟨peerId', hpeer', hstream⟩ := hupdate u (Option.mem_toList.1 hu)
      rwa [Option.some.inj (hpeer'.symm.trans hpeer)] at hstream
    · obtain ⟨⟨y, e⟩, he, rfl⟩ := List.mem_map.1 hid
      obtain ⟨he, hy⟩ := List.mem_filter.1 he
      obtain rfl := of_decide_eq_true hy
      exact htraced.mem_tracksMaps ha (horigin ▸ he)
  rw [hmline]
  constructor
  · intro hall
    by_contra hne
    obtain ⟨hid, hsome⟩ := not_or.1 hne
    obtain ⟨id, hmem⟩ := List.exists_mem_of_ne_nil _ hsome
    exact hid (streamId_injective ((hall id hmem).symm.trans (hannounced id hmem)))
  · rintro (heq | hnone) id hid
    · rw [hannounced id hid, heq]
    · rw [hnone] at hid
      cases hid

/-- Two browsers join; the second has the id 1 and the peer id 1. -/
def secondPublishes : List Step := sampleJoin "red" "red-2" ++ sampleJoin "red" "red-1"

/-- Two browsers join; the first has the id 0 and the peer id 1. -/
def firstPublishes : List Step := sampleJoin "red" "red-1" ++ sampleJoin "red" "red-2"

def publishes (id : ClientId) : Step :=
  samplePass (fun _ => ([], false))
    (fun c => if c = id then [.mediaAdded "0" .video .recvOnly] else []) (.input [])

theorem streamIds_agree_secondPublishes :
    ∃ o, (0, o) ∈ ((process sampleConfig sampleWorld).run .init secondPublishes).offers
        sampleConfig sampleWorld (publishes 1) ∧
      o.trackIn.externalPeerId = some 1 ∧
      ((process sampleConfig sampleWorld).run .init secondPublishes).announcedIds sampleConfig
        sampleWorld (publishes 1 :: sampleJoin "red" "red-2") o ≠ [] ∧
      ∀ id ∈ ((process sampleConfig sampleWorld).run .init secondPublishes).announcedIds
        sampleConfig sampleWorld (publishes 1 :: sampleJoin "red" "red-2") o, id = o.streamId := by
  refine ⟨⟨⟨1, "0", .video, some 1⟩, "", "peer-1".toList, some ⟨"", 1, .video, "peer-1".toList⟩⟩,
    by decide +kernel, rfl, by decide +kernel, ?_⟩
  exact (streamIds_agree_iff sampleConfig sampleWorld secondPublishes (sampleJoin "red" "red-2")
    (publishes 1) (x := 0) (by decide +kernel) rfl).2 (.inl rfl)

/-- The browser that has the id 0 and the peer id 1 is `peer-0` to str0m and `peer-1` in both
frames. -/
theorem streamIds_differ_firstPublishes :
    ∃ o, (1, o) ∈ ((process sampleConfig sampleWorld).run .init firstPublishes).offers
        sampleConfig sampleWorld (publishes 0) ∧
      o.trackIn.externalPeerId = some 1 ∧ o.streamId = "peer-0".toList ∧
      ((process sampleConfig sampleWorld).run .init firstPublishes).announcedIds sampleConfig
        sampleWorld (publishes 0 :: sampleJoin "red" "red-2") o =
          ["peer-1".toList, "peer-1".toList] :=
  ⟨⟨⟨0, "0", .video, some 1⟩, "", "peer-0".toList, some ⟨"", 1, .video, "peer-1".toList⟩⟩,
    by decide +kernel, rfl, rfl, by decide +kernel⟩

end PartnerEdge.Sfu
