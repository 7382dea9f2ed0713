import PartnerEdge.Client.HandedTracks
import PartnerEdge.Sfu.Client

/-!
# What a step of one client can change

`Follows` says what every operation of a client leaves as it is: its identity, whose tracks it
publishes, and that it gains no track of another client unless it is handed one. The events a client
emits are its own (`FromOneOf`).
-/

namespace PartnerEdge.Sfu

open Svc PartnerEdge.Client Text

/-! ## Steps of one client -/

/-- The same client with the same tracks. -/
structure Client.SamePublisher (c c' : Client) : Prop where
  id : c'.id = c.id
  externalPeerId : c'.externalPeerId = c.externalPeerId
  tracksIn : c'.tracksIn = c.tracksIn

/-- A step that changes only the filter and the pacer's fields. -/
structure Client.Stays (c c' : Client) : Prop extends c.SamePublisher c' where
  alive : c'.alive = c.alive
  negotiator : c'.negotiator = c.negotiator

/-- The same client later on, after it was handed the tracks `new`. -/
structure Client.Follows (new : List TrackIn) (c c' : Client) : Prop where
  id : c'.id = c.id
  externalPeerId : c'.externalPeerId = c.externalPeerId
  alive : c'.alive = true → c.alive = true
  tracksIn : ∀ t ∈ c'.tracksIn, t ∈ c.tracksIn ∨ t.origin = c.id
  heard : ∀ P, (∀ t ∈ new, P t) → c.negotiator.AllTracks P → c'.negotiator.AllTracks P

namespace Client

variable {new : List TrackIn} {c c' c'' : Client}

theorem Follows.refl (c : Client) : c.Follows [] c :=
  ⟨rfl, rfl, fun h => h, fun _ h => .inl h, fun _ _ h => h⟩

theorem Follows.append {new' : List TrackIn} (h : c.Follows new c') (h' : c'.Follows new' c'') :
    c.Follows (new ++ new') c'' where
  id := h'.id.trans h.id
  externalPeerId := h'.externalPeerId.trans h.externalPeerId
  alive ha := h.alive (h'.alive ha)
  tracksIn t ht := by
    rcases h'.tracksIn t ht with ht | ht
    · exact h.tracksIn t ht
    · exact .inr (ht.trans h.id)
  heard P hnew hP :=
    h'.heard P (fun t ht => hnew t (by simp [ht]))
      (h.heard P (fun t ht => hnew t (by simp [ht])) hP)

theorem Follows.trans (h : c.Follows [] c') (h' : c'.Follows [] c'') : c.Follows [] c'' :=
  h.append h'

theorem Follows.of_stays (h : c.Stays c') : c.Follows [] c' where
  id := h.id
  externalPeerId := h.externalPeerId
  alive ha := h.alive ▸ ha
  tracksIn _ ht := .inl (h.tracksIn ▸ ht)
  heard _ _ hP := h.negotiator ▸ hP

theorem Follows.disconnect (c : Client) : c.Follows [] c.disconnect :=
  ⟨rfl, rfl, fun h => (by cases h), fun _ h => .inl h, fun _ _ h => h⟩

theorem Follows.noteDeparted (c : Client) (ids : List ClientId) :
    c.Follows [] (c.noteDeparted ids) :=
  ⟨rfl, rfl, fun h => h, fun _ h => .inl h, fun _ _ h => h⟩

theorem Follows.drainWsCtrl (world : World) (now : Nat) (c : Client) (messages : List Answer)
    (channelClosed : Bool) : c.Follows [] (c.drainWsCtrl world now messages channelClosed) :=
  ⟨rfl, rfl, fun h => h, fun _ h => .inl h, fun _ _ h => h.drainWsCtrl messages channelClosed⟩

theorem Follows.handleTrackOpen (world : World) (now : Nat) (c : Client) (t : TrackIn) :
    c.Follows [t] (c.handleTrackOpen world now t).1 :=
  ⟨rfl, rfl, fun h => h, fun _ h => .inl h, fun _ ht h => h.handleTrackOpen (ht t (by simp))⟩

theorem handleMediaDataOut_changes (world : World) (n : Nat) (c : Client) (origin : ClientId)
    (data : MediaData) : ∃ filter, (c.handleMediaDataOut world n origin data).1 =
      { c with filter } ∨
      (c.handleMediaDataOut world n origin data).1 = { c with filter, alive := false } := by
  simp only [handleMediaDataOut]
  split
  · split
    · exact ⟨_, .inl rfl⟩
    · exact ⟨_, .inl rfl⟩
    · exact ⟨_, .inr rfl⟩
  · exact ⟨_, .inl rfl⟩

theorem samePublisher_handleMediaDataOut (world : World) (n : Nat) (c : Client) (origin : ClientId)
    (data : MediaData) : c.SamePublisher (c.handleMediaDataOut world n origin data).1 := by
  obtain ⟨_, h | h⟩ := c.handleMediaDataOut_changes world n origin data <;>
  exact h ▸ ⟨rfl, rfl, rfl⟩

theorem Follows.handleMediaDataOut (world : World) (n : Nat) (c : Client) (origin : ClientId)
    (data : MediaData) : c.Follows [] (c.handleMediaDataOut world n origin data).1 := by
  obtain ⟨_, h | h⟩ := c.handleMediaDataOut_changes world n origin data
  · exact h ▸ .of_stays ⟨⟨rfl, rfl, rfl⟩, rfl, rfl⟩
  · exact h ▸ ⟨rfl, rfl, fun h => (by cases h), fun _ h => .inl h, fun _ _ h => h⟩

section Events

theorem mem_openNegotiating {mid : Mid} {os : List TrackOut} {o : TrackOut}
    (h : o ∈ openNegotiating mid os) : ∃ o' ∈ os, o'.trackIn = o.trackIn := by
  fun_induction openNegotiating mid os <;> grind

variable (jwt : Jwt) (now : Nat) (auth : RelayAuth)

theorem Follows.handleEvent (c : Client) (e : RtcEvent) :
    c.Follows [] (c.handleEvent jwt now auth e).1 := by
  cases e with
  | disconnected => exact .disconnect c
  | mediaAdded mid kind direction =>
    have hadded : c.Follows [] (c.trackInAdded mid kind).1 :=
      ⟨rfl, rfl, fun h => h, by simp only [trackInAdded]; grind, fun _ _ h => h⟩
    cases direction with
    | sendOnly =>
      refine ⟨rfl, rfl, fun h => h, fun _ h => .inl h, fun P _ h => ?_⟩
      rw [Negotiator.allTracks_iff] at h ⊢
      refine ⟨fun o ho => ?_, h.2⟩
      obtain ⟨o', ho', heq⟩ := mem_openNegotiating ho
      exact heq ▸ h.1 o' ho'
    | recvOnly => exact hadded
    | sendRecv => exact hadded
    | inactive => exact hadded
  | mediaData data => exact .of_stays ⟨⟨rfl, rfl, rfl⟩, rfl, rfl⟩
  | keyframeRequest mid => exact .refl c
  | egressBitrateEstimate bps => exact .refl c
  | channelData label data => exact .refl c

theorem Follows.poll (es : List RtcEvent) (c : Client) :
    c.Follows [] (c.poll jwt now auth es).1 := by
  induction es generalizing c with
  | nil => exact .refl c
  | cons e es ih =>
    unfold Client.poll
    split
    · exact (Follows.handleEvent jwt now auth c e).trans (ih _)
    · exact .refl c

end Events

section Pacer

variable (cfg : Config) (world : World) (n now : Nat) (available : List Rid) (c : Client)

theorem pacerTick_changes :
    ∃ lastPacerTick, (c.pacerTick cfg now).1 = { c with lastPacerTick } := by
  unfold pacerTick pacerTickReady
  split
  · split
    · split <;> exact ⟨_, rfl⟩
    · exact ⟨_, rfl⟩
  · exact ⟨_, rfl⟩

theorem chooseLayer_changes (action : Nat → PacerAction) (ready : Bool) (budget : Option Nat) :
    ∃ filter pendingTierEmit, (c.chooseLayer cfg action ready budget available).1 =
      { c with filter, pendingTierEmit } := by
  unfold chooseLayer pacerSelectLayer setDesiredLayer
  split
  · exact ⟨_, _, rfl⟩
  · split
    · exact ⟨_, _, rfl⟩
    · split
      · exact ⟨_, _, rfl⟩
      · exact ⟨_, _, rfl⟩
      · dsimp only
        split <;> exact ⟨_, _, rfl⟩
      all_goals exact ⟨_, _, rfl⟩

theorem switchKeyframe_changes (prev : Rid) (chosen : Option Rid) :
    ∃ lastSwitchKeyframeRequest,
      (c.switchKeyframe now prev chosen).1 = { c with lastSwitchKeyframeRequest } := by
  unfold switchKeyframe emitKeyframeOnLayerSwitch
  split
  · split
    · split <;> exact ⟨_, rfl⟩
    · exact ⟨_, rfl⟩
  · exact ⟨_, rfl⟩

theorem emitTier_changes : ∃ pendingTierEmit lastEmittedTier,
    c.emitTier.1 = { c with pendingTierEmit, lastEmittedTier } := by
  unfold emitTier
  split
  · exact ⟨_, _, rfl⟩
  · dsimp only
    split <;> exact ⟨_, _, rfl⟩

theorem selectTemporalCap_changes (ready : Bool) (budget : Option Nat) :
    ∃ filter, c.selectTemporalCap cfg ready budget = { c with filter } := by
  unfold selectTemporalCap
  split <;> exact ⟨_, rfl⟩

theorem stays_updatePacerLayer : c.Stays (c.updatePacerLayer cfg world n now available).1 := by
  obtain ⟨_, htick⟩ := c.pacerTick_changes cfg now
  simp only [updatePacerLayer, htick]
  generalize hchoice : chooseLayer _ _ _ _ _ _ = choice
  obtain ⟨_, _, hchanges⟩ := hchoice ▸ chooseLayer_changes ..
  obtain ⟨_, hswitch⟩ := choice.1.switchKeyframe_changes now c.filter.desiredLayer choice.2
  obtain ⟨_, _, hnotice⟩ := emitTier_changes (choice.1.switchKeyframe now _ choice.2).1
  obtain ⟨_, hcap⟩ := selectTemporalCap_changes cfg _ (c.pacerTick cfg now).2
    (world.estimate n c.id)
  rw [hcap, hnotice, hswitch, hchanges]
  exact ⟨⟨rfl, rfl, rfl⟩, rfl, rfl⟩

theorem Follows.updatePacerLayer :
    c.Follows [] (c.updatePacerLayer cfg world n now available).1 :=
  .of_stays (c.stays_updatePacerLayer cfg world n now available)

end Pacer

end Client

/-! ## Events of registered clients -/

/-- Events that carry a peer's media, tracks or frames. -/
def Propagated.isContent : Propagated → Bool
  | .trackOpen _ _ | .mediaData _ _ | .chatData _ _ | .chatCtrl _ _ | .voiceData _ _
  | .keysData _ _ => true
  | _ => false

/-- Content comes from one of these clients, and a new track is its own. -/
def Propagated.FromOneOf (ids : List ClientId) : Propagated → Prop
  | .trackOpen origin trackIn => trackIn.origin = origin ∧ origin ∈ ids
  | .mediaData origin _ | .chatData origin _ | .chatCtrl origin _ | .voiceData origin _
  | .keysData origin _ => origin ∈ ids
  | _ => True

namespace Propagated

variable {p : Propagated} {ids ids' : List ClientId}

theorem FromOneOf.of_not_isContent (h : p.isContent = false) : p.FromOneOf ids := by
  cases p <;> trivial

theorem FromOneOf.mono (h : p.FromOneOf ids) (hids : ids ⊆ ids') : p.FromOneOf ids' := by
  cases p with
  | trackOpen origin t => exact ⟨h.1, hids h.2⟩
  | _ => first | exact hids h | trivial

end Propagated

namespace Client

section Poll

variable (jwt : Jwt) (now : Nat) (auth : RelayAuth)

theorem relaySource_isContent (id : ClientId) (text : Str) :
    (relaySource jwt now auth id text).isContent = false := by
  unfold relaySource
  split
  · rfl
  · split
    · split
      · rfl
      · simp only
        split
        · rfl
        · split <;> rfl
    · rfl

theorem budgetMessage_isContent (id : ClientId) (text : Str) :
    (budgetMessage id text).isContent = false := by
  unfold budgetMessage
  split <;> split <;> rfl

theorem handleChannelData_fromOneOf (id : ClientId) (label : String) (data : List UInt8) :
    (handleChannelData jwt now auth id label data).FromOneOf [id] := by
  have hframe : ∀ maxBytes (event : List UInt8 → Propagated), (event data).FromOneOf [id] →
      (opaqueFrame maxBytes data event).FromOneOf [id] := by
    intro maxBytes event h
    unfold opaqueFrame
    split
    · trivial
    · exact h
  simp only [handleChannelData]
  split
  · exact .of_not_isContent (relaySource_isContent jwt now auth id _)
  · split
    · exact hframe _ _ (by simp [Propagated.FromOneOf])
    · split
      · exact hframe _ _ (by simp [Propagated.FromOneOf])
      · split
        · exact hframe _ _ (by simp [Propagated.FromOneOf])
        · split
          · exact hframe _ _ (by simp [Propagated.FromOneOf])
          · split
            · trivial
            · split
              · trivial
              · split
                · trivial
                · exact .of_not_isContent (budgetMessage_isContent id _)

theorem handleEvent_fromOneOf (c : Client) (e : RtcEvent) :
    (c.handleEvent jwt now auth e).2.FromOneOf [c.id] := by
  cases e with
  | mediaAdded mid kind direction =>
    cases direction <;> simp [handleEvent, trackInAdded, Propagated.FromOneOf]
  | keyframeRequest mid =>
    apply Propagated.FromOneOf.of_not_isContent
    simp only [handleEvent, incomingKeyframeReq]
    split
    · rfl
    · split <;> rfl
  | channelData label data => exact handleChannelData_fromOneOf jwt now auth c.id label data
  | _ => simp [handleEvent, trackInMedia, Propagated.FromOneOf]

theorem poll_fromOneOf (es : List RtcEvent) (c : Client) :
    ∀ p ∈ (c.poll jwt now auth es).2, p.FromOneOf [c.id] := by
  induction es generalizing c with
  | nil => simp [poll]
  | cons e es ih =>
    have hid := (Follows.handleEvent jwt now auth c e).id
    have hrest := hid ▸ ih (c.handleEvent jwt now auth e).1
    have hfirst := handleEvent_fromOneOf jwt now auth c e
    unfold poll
    split
    · simp only
      split <;> grind
    · simp

end Poll

theorem updatePacerLayer_isContent (cfg : Config) (world : World) (n now : Nat)
    (available : List Rid) (c : Client) :
    ∀ p ∈ (c.updatePacerLayer cfg world n now available).2, p.isContent = false := by
  have hswitch : ∀ (c : Client) prev chosen, ∀ p ∈ (c.switchKeyframe now prev chosen).2,
      p.isContent = false := by
    intro c prev chosen
    unfold switchKeyframe emitKeyframeOnLayerSwitch
    grind [Propagated.isContent]
  have htier : ∀ c : Client, ∀ p ∈ c.emitTier.2, p.isContent = false := by
    intro c
    unfold emitTier
    grind [Propagated.isContent]
  intro p hp
  rcases List.mem_append.mp hp with hp | hp
  · exact hswitch _ _ _ p hp
  · exact htier _ p hp

end Client

end PartnerEdge.Sfu
