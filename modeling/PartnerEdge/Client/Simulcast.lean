import PartnerEdge.Client.TemporalDrop

/-!
# Simulcast encodings and temporal drops

The encodings of one simulcast track share a cache entry, because the key has no rid. A packet of
another encoding is harmless as long as it does not bring a structure of its own: the decisions on
the packets of one encoding are then the same whatever the others send.
-/

namespace PartnerEdge.Client

open Svc

/-- A packet of the given encoding of a track. -/
def Event.isOfRid (origin : ClientId) (mid : Mid) (rid : Rid) : Event → Bool
  | .packet o data => o == origin && data.mid == mid && data.rid == some rid
  | _ => false

/-- A packet of a different encoding of the same track. -/
def Event.isOfOtherRid (origin : ClientId) (mid : Mid) (rid : Rid) : Event → Bool
  | .packet o data => o == origin && data.mid == mid && data.rid.isSome && data.rid != some rid
  | _ => false

/-- The decisions a run makes on the packets of one encoding, in order. -/
def decisionsOn (origin : ClientId) (mid : Mid) (rid : Rid) (c : Subscriber) (run : List Event) :
    List (Event × Option FanoutDecision) :=
  (subscriber.outputs c run).filter fun x => x.1.isOfRid origin mid rid

/-- The event brings no structure that the parser accepts. -/
def Event.sendsNoStructure : Event → Bool
  | .packet _ data => data.sentStructure.isNone
  | _ => true

namespace Subscriber

/-- The last forwarded rid plays no part in any decision. -/
theorem temporalFilter_chosenRid (c : Subscriber) (rid : Option Rid) (origin : ClientId)
    (data : MediaData) :
    { c with chosenRid := rid }.temporalFilter origin data =
      ({ (c.temporalFilter origin data).1 with chosenRid := rid },
        (c.temporalFilter origin data).2) := by
  have hcap : { c with chosenRid := rid }.effectiveTemporalCap = c.effectiveTemporalCap := rfl
  unfold temporalFilter
  rw [hcap]
  split
  · rfl
  · split
    · dsimp only
      split
      · rfl
      · next d _ =>
        unfold remember
        cases d.attached <;> rfl
    · rfl

theorem forward_chosenRid (c : Subscriber) (rid : Option Rid) (origin : ClientId)
    (data : MediaData) :
    ({ c with chosenRid := rid }.forward origin data).2 = (c.forward origin data).2 := by
  have hlayer : { c with chosenRid := rid }.layerMatches data = c.layerMatches data := rfl
  have hfind : { c with chosenRid := rid }.findTrackOut origin data.mid =
      c.findTrackOut origin data.mid := rfl
  unfold forward
  rw [hlayer, hfind]
  split
  · split <;> rfl
  · rfl

theorem handleMediaDataOut_chosenRid (c : Subscriber) (rid : Option Rid) (origin : ClientId)
    (data : MediaData) :
    ({ c with chosenRid := rid }.handleMediaDataOut origin data).2 =
      (c.handleMediaDataOut origin data).2 := by
  unfold handleMediaDataOut
  rw [temporalFilter_chosenRid]
  obtain ⟨c', tid⟩ := c.temporalFilter origin data
  cases tid with
  | some tid => rfl
  | none => exact c'.forward_chosenRid rid origin data

theorem invalidate_chosenRid (c : Subscriber) (rid : Option Rid) (before : UInt8) :
    { c with chosenRid := rid }.invalidateDdCacheOnCapEngage before =
      { c.invalidateDdCacheOnCapEngage before with chosenRid := rid } := by
  have hcap : { c with chosenRid := rid }.effectiveTemporalCap = c.effectiveTemporalCap := rfl
  unfold invalidateDdCacheOnCapEngage
  rw [hcap]
  split <;> rfl

/-- Equality up to the last forwarded rid. -/
def Agrees (c c' : Subscriber) : Prop := ∃ rid, c' = { c with chosenRid := rid }

theorem Agrees.refl (c : Subscriber) : c.Agrees c := ⟨c.chosenRid, rfl⟩

theorem Agrees.step {c c' : Subscriber} (h : c.Agrees c') (e : Event) :
    (c.step e).1.Agrees (c'.step e).1 ∧ (c.step e).2 = (c'.step e).2 := by
  obtain ⟨rid, rfl⟩ := h
  cases e with
  | packet origin data =>
    obtain ⟨r₁, h₁⟩ := c.handleMediaDataOut_state origin data
    obtain ⟨r₂, h₂⟩ := { c with chosenRid := rid }.handleMediaDataOut_state origin data
    rw [temporalFilter_chosenRid] at h₂
    refine ⟨⟨r₂, ?_⟩, ?_⟩
    · simp only [Subscriber.step, h₁, h₂]
    · simp only [Subscriber.step, handleMediaDataOut_chosenRid]
  | clientCap max =>
    have h := invalidate_chosenRid { c with maxVfmTemporalLayer := max } rid c.effectiveTemporalCap
    exact ⟨⟨rid, h⟩, rfl⟩
  | bweTick budgetBps =>
    have h := invalidate_chosenRid { c with bweVfmTemporalCap := c.nextBweCap budgetBps } rid
      c.effectiveTemporalCap
    exact ⟨⟨rid, h⟩, rfl⟩
  | desiredLayer r => exact ⟨⟨none, rfl⟩, rfl⟩
  | tracksOut tracks => exact ⟨⟨rid, rfl⟩, rfl⟩
  | departure origin => exact ⟨⟨rid, rfl⟩, rfl⟩

theorem temporalFilter_of_noStructure (c : Subscriber) (origin : ClientId) {data : MediaData}
    (h : data.sentStructure = none) : (c.temporalFilter origin data).1 = c := by
  rcases c.temporalFilter_cases origin data with ⟨heq, _⟩ | ⟨bytes, d, hdd, _, hparse, heq⟩
  · rw [heq]
  · have hnone : d.attached = none := by rw [← sentStructure_of_ok hdd hparse, h]
    rw [heq]
    simp [remember, hnone]

/-- A packet that brings no structure leaves the subscriber as it was, up to the forwarded rid. -/
theorem Agrees.skip {c c' : Subscriber} (h : c.Agrees c') {origin : ClientId} {data : MediaData}
    (hnone : data.sentStructure = none) : (c.step (.packet origin data)).1.Agrees c' := by
  obtain ⟨rid, rfl⟩ := h
  obtain ⟨r, hr⟩ := c.handleMediaDataOut_state origin data
  rw [temporalFilter_of_noStructure c origin hnone] at hr
  exact ⟨rid, by simp only [Subscriber.step, hr]⟩

end Subscriber

theorem filter_isOfRid {origin : ClientId} {mid : Mid} {rid : Rid}
    (xs : List (Event × Option FanoutDecision)) :
    (xs.filter fun x => !x.1.isOfOtherRid origin mid rid).filter
      (fun x => x.1.isOfRid origin mid rid) = xs.filter fun x => x.1.isOfRid origin mid rid := by
  rw [List.filter_filter]
  refine List.filter_congr fun x _ => ?_
  cases hx : x.1 with
  | packet o data =>
    by_cases hrid : data.rid = some rid <;> simp [Event.isOfRid, Event.isOfOtherRid, hrid]
  | _ => rfl

/-- Two runs that differ only in packets of the other encodings of a track, none of which brings a
structure, decide alike on every packet of this encoding. -/
theorem decisionsOn_eq_of_noStructure (c : Subscriber) (origin : ClientId) (mid : Mid) (rid : Rid)
    (run run' : List Event)
    (hrun : ∀ e ∈ run, e.isOfOtherRid origin mid rid = true → e.sendsNoStructure = true)
    (hrun' : ∀ e ∈ run', e.isOfOtherRid origin mid rid = true → e.sendsNoStructure = true)
    (hsame : run.filter (fun e => !e.isOfOtherRid origin mid rid) =
      run'.filter (fun e => !e.isOfOtherRid origin mid rid)) :
    decisionsOn origin mid rid c run = decisionsOn origin mid rid c run' := by
  have hidden : ∀ (s t : Subscriber) (e : Event),
      (e.isOfOtherRid origin mid rid = true → e.sendsNoStructure = true) →
      (!e.isOfOtherRid origin mid rid) = false → s.Agrees t → (subscriber.step s e).1.Agrees t := by
    intro s t e hno hother hst
    have hother : e.isOfOtherRid origin mid rid = true := by simpa using hother
    cases e with
    | packet o data => exact hst.skip (by simpa [Event.sendsNoStructure] using hno hother)
    | _ => simp [Event.isOfOtherRid] at hother
  have heq := Machine.outputs_eq_of_filter_eq (M := subscriber) hidden
    (fun s t e _ hst => hst.step e) (.refl c) hrun hrun' hsame
  unfold decisionsOn
  rw [← filter_isOfRid, heq, filter_isOfRid]

/-- A full-resolution key frame with two base-layer templates, and a frame of its second one. -/
def fullRidPackets : List Event :=
  [.packet 7 ⟨"v", some "f", some [192, 0, 1, 128, 0, 48, 0]⟩,
   .packet 7 ⟨"v", some "f", some [193, 0, 2]⟩]

/-- The same with a low-resolution key frame in between, whose second template is an upper layer. -/
def mixedRidPackets : List Event :=
  [.packet 7 ⟨"v", some "f", some [192, 0, 1, 128, 0, 48, 0]⟩,
   .packet 7 ⟨"v", some "q", some [192, 0, 1, 128, 0, 112, 0]⟩,
   .packet 7 ⟨"v", some "f", some [193, 0, 2]⟩]

/-- A subscriber of the full-resolution layer, capped to the base temporal layer. -/
def cappedSubscriber : Subscriber :=
  subscriber.run (.new 100000 150000) [.desiredLayer "f", .clientCap 0,
    .tracksOut [⟨⟨7, "v", .video, none⟩, .opened "m"⟩]]

/-- The low-resolution key frame makes the subscriber drop a full-resolution base-layer frame. -/
theorem otherRid_structure_changes_decision :
    cappedSubscriber.desiredLayer = "f" ∧
    fullRidPackets.filter (fun e => !e.isOfOtherRid 7 "v" "f") =
      mixedRidPackets.filter (fun e => !e.isOfOtherRid 7 "v" "f") ∧
    (decisionsOn 7 "v" "f" cappedSubscriber fullRidPackets).map Prod.snd =
      [some (.write "m"), some (.write "m")] ∧
    (decisionsOn 7 "v" "f" cappedSubscriber mixedRidPackets).map Prod.snd =
      [some (.write "m"), some (.temporalDrop 1)] := by
  decide +kernel

/-- A low-resolution packet without a descriptor leaves the full-resolution decisions alone. -/
theorem decisionsOn_eq_of_noStructure_plain :
    decisionsOn 7 "v" "f" cappedSubscriber
        (.packet 7 ⟨"v", some "q", none⟩ :: fullRidPackets) =
      decisionsOn 7 "v" "f" cappedSubscriber fullRidPackets :=
  decisionsOn_eq_of_noStructure cappedSubscriber 7 "v" "f" _ _ (by decide +kernel)
    (by decide +kernel) (by decide +kernel)

end PartnerEdge.Client
