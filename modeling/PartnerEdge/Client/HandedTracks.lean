import PartnerEdge.Client.Renegotiation

/-!
# The tracks a client was handed

No operation of the renegotiation makes up a track: whatever a client has in `tracksOut` or in its
queue was once passed to `handleTrackOpen`. A property of all tracks handed to it is therefore one
of all tracks it will ever offer.
-/

namespace PartnerEdge.Client.Negotiator

/-- The tracks a client was handed and may still offer or write. -/
def tracks (c : Negotiator) : List TrackIn := c.tracksOut.map (·.trackIn) ++ c.renegotiationQueue

def AllTracks (P : TrackIn → Prop) (c : Negotiator) : Prop := ∀ t ∈ c.tracks, P t

variable {P : TrackIn → Prop} {env : Env} {now : Nat} {c : Negotiator} {t : TrackIn}

theorem allTracks_iff :
    c.AllTracks P ↔ (∀ o ∈ c.tracksOut, P o.trackIn) ∧ ∀ t ∈ c.renegotiationQueue, P t := by
  simp [AllTracks, tracks, or_imp, forall_and]

variable (h : c.AllTracks P)
include h

theorem AllTracks.startRenegotiation (ht : P t) : (c.startRenegotiation env now t).AllTracks P := by
  rw [allTracks_iff] at h ⊢
  obtain ⟨_, h'⟩ | ⟨_, ⟨_, h'⟩ | ⟨_, h'⟩ | ⟨_, _, h'⟩⟩ := c.startRenegotiation_cases env now t <;>
    simp only [h', clearOffer] <;> grind

theorem AllTracks.handleTrackOpen (ht : P t) : (c.handleTrackOpen env now t).AllTracks P := by
  unfold Negotiator.handleTrackOpen
  split
  · rw [allTracks_iff] at h ⊢
    grind
  · split
    · rw [allTracks_iff] at h ⊢
      grind
    · exact h.startRenegotiation ht

theorem AllTracks.removeNegotiating (cause : RemovalCause) :
    (c.removeNegotiating cause).AllTracks P := by
  rw [allTracks_iff] at h ⊢
  exact ⟨fun o ho => h.1 o (List.mem_of_mem_filter ho), h.2⟩

theorem AllTracks.flipNegotiatingToOpenAll (offer : Nat) :
    (c.flipNegotiatingToOpenAll offer).1.AllTracks P := by
  rw [allTracks_iff] at h ⊢
  refine ⟨fun o ho => ?_, h.2⟩
  obtain ⟨o', ho', rfl⟩ := List.mem_map.mp ho
  rw [TrackOut.flip_trackIn]
  exact h.1 o' ho'

theorem AllTracks.drainOne : (c.drainOne env now).AllTracks P := by
  unfold Negotiator.drainOne
  split
  · exact h
  · next next rest hq =>
    rw [allTracks_iff, hq] at h
    refine AllTracks.startRenegotiation ?_ (h.2 next (by simp))
    exact allTracks_iff.mpr ⟨h.1, fun t ht => h.2 t (by simp [ht])⟩

theorem AllTracks.acceptRenegotiationAnswer (a : Answer) :
    (c.acceptRenegotiationAnswer env now a).AllTracks P := by
  have hclear : c.clearOffer.AllTracks P := h
  obtain ⟨_, h'⟩ | ⟨offer, _, ⟨_, h'⟩ | ⟨_, h'⟩ | ⟨_, _, h'⟩ | ⟨_, _, h'⟩⟩ :=
    c.acceptRenegotiationAnswer_cases env now a <;> rw [h']
  · exact h
  · exact hclear
  · exact (hclear.removeNegotiating _).drainOne
  · exact (hclear.flipNegotiatingToOpenAll offer).drainOne
  · exact hclear.flipNegotiatingToOpenAll offer

theorem AllTracks.expireOffer : (c.expireOffer env now).AllTracks P := by
  have hremoved := AllTracks.removeNegotiating (c := c.clearOffer) h .timeout
  have hexpired : c.expired.AllTracks P :=
    allTracks_iff.mpr ⟨(allTracks_iff.mp hremoved).1, by simp [expired]⟩
  apply List.foldlRecOn _ _ hexpired
  intro c' hc' t ht
  exact hc'.startRenegotiation ((allTracks_iff.mp h).2 t ht)

theorem AllTracks.closeWsCtrl : c.closeWsCtrl.AllTracks P := by
  simp only [Negotiator.closeWsCtrl]
  split
  · have hremoved := AllTracks.removeNegotiating (c := clearOffer { c with wsCtrlRx := false }) h
      .wsClosed
    exact allTracks_iff.mpr ⟨(allTracks_iff.mp hremoved).1, by simp⟩
  · exact h

theorem AllTracks.drainWsCtrl (messages : List Answer) (channelClosed : Bool) :
    (c.drainWsCtrl env now messages channelClosed).AllTracks P := by
  have hanswers : ∀ c : Negotiator, c.AllTracks P →
      (messages.foldl (fun c a => c.acceptRenegotiationAnswer env now a) c).AllTracks P :=
    fun c hc => List.foldlRecOn _ _ hc fun _ hc a _ => hc.acceptRenegotiationAnswer a
  unfold Negotiator.drainWsCtrl
  split
  · exact h.expireOffer
  · split
    · exact h
    · cases channelClosed with
      | false => exact hanswers c h
      | true => exact hanswers _ h.closeWsCtrl

end PartnerEdge.Client.Negotiator
