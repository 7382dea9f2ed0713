import PartnerEdge.Client.Fanout
import PartnerEdge.Svc.DdStream

/-!
# Temporal drops follow the latest structure

While no cap is in force descriptors are not parsed, so the cache can fall behind the stream. It is
cleared when a cap engages, and from then on every structure of the stream passes through it: at
every capped instant a cached structure is the latest one its stream sent.
-/

namespace PartnerEdge.Client

open Svc Parsing

/-! ## Structures on the wire -/

/-- The structure the packet's descriptor carries, if any. -/
def MediaData.sentStructure (data : MediaData) : Option TemplateDependencyStructure :=
  data.dd.bind fun bytes => (parseDependencyDescriptor bytes none).toOption.bind (·.attached)

/-- A descriptor that announces a structure is one the parser accepts. -/
def MediaData.Accepted (data : MediaData) : Prop :=
  ∀ bytes ∈ data.dd, carriesStructure bytes = true →
    (parseDependencyDescriptor bytes none).isOk = true

instance : DecidablePred MediaData.Accepted := fun _ => inferInstanceAs (Decidable (∀ _ ∈ _, _))

def Event.Accepted : Event → Prop
  | .packet _ data => data.Accepted
  | _ => True

instance : DecidablePred Event.Accepted
  | .packet _ data => inferInstanceAs (Decidable data.Accepted)
  | .clientCap _ | .bweTick _ | .desiredLayer _ | .tracksOut _ | .departure _ =>
    inferInstanceAs (Decidable True)

/-- The structure the event sends on a stream. -/
def Event.structureOn (key : StreamKey) : Event → Option TemplateDependencyStructure
  | .packet origin data => if (origin, data.mid) = key then data.sentStructure else none
  | _ => none

/-- The most recent structure a run sent on a stream. -/
def latestStructure (key : StreamKey) (history : List Event) :
    Option TemplateDependencyStructure :=
  history.foldl (fun latest e => (e.structureOn key).or latest) none

theorem latestStructure_snoc (key : StreamKey) (history : List Event) (e : Event) :
    latestStructure key (history ++ [e]) =
      (e.structureOn key).or (latestStructure key history) := by
  simp [latestStructure]

/-- The parser's answer under any prior structure tells which structure the packet sends. -/
theorem sentStructure_of_ok {data : MediaData} {bytes : List UInt8}
    {prior : Option TemplateDependencyStructure} {d : DependencyDescriptor}
    (hdd : data.dd = some bytes) (h : parseDependencyDescriptor bytes prior = .ok d) :
    data.sentStructure = d.attached := by
  simp only [MediaData.sentStructure, hdd, Option.bind_some]
  obtain ⟨_, hsome⟩ := parseDependencyDescriptor_returns h
  cases hcarries : carriesStructure bytes with
  | true =>
    rw [parseDependencyDescriptor_of_carriesStructure hcarries none prior, h]
    rfl
  | false =>
    have hnone : d.attached = none := by simpa [hcarries] using hsome
    rw [hnone]
    cases hparse : parseDependencyDescriptor bytes none with
    | error e => rfl
    | ok d' =>
      obtain ⟨_, hsome'⟩ := parseDependencyDescriptor_returns hparse
      simpa [Except.toOption, hcarries] using hsome'

theorem sentStructure_of_error {data : MediaData} {bytes : List UInt8}
    {prior : Option TemplateDependencyStructure} {e : Stop} (hacc : data.Accepted)
    (hdd : data.dd = some bytes) (h : parseDependencyDescriptor bytes prior = .error e) :
    data.sentStructure = none := by
  cases hcarries : carriesStructure bytes with
  | true =>
    have hok := hacc bytes hdd hcarries
    rw [parseDependencyDescriptor_of_carriesStructure hcarries none prior, h] at hok
    cases hok
  | false =>
    simp only [MediaData.sentStructure, hdd, Option.bind_some]
    cases hparse : parseDependencyDescriptor bytes none with
    | error e => rfl
    | ok d =>
      obtain ⟨_, hsome⟩ := parseDependencyDescriptor_returns hparse
      simpa [Except.toOption, hcarries] using hsome

/-! ## One step -/

namespace Subscriber

variable {c : Subscriber}

@[simp] theorem effectiveTemporalCap_remember (key : StreamKey) (d : DependencyDescriptor) :
    (c.remember key d).effectiveTemporalCap = c.effectiveTemporalCap := by
  unfold remember
  split <;> rfl

/-- Everything the temporal filter can do: leave the subscriber alone and pass the packet, or
parse the descriptor under a cap. -/
theorem temporalFilter_cases (c : Subscriber) (origin : ClientId) (data : MediaData) :
    (c.temporalFilter origin data = (c, none) ∧
      (data.dd = none ∨ ¬ c.effectiveTemporalCap < 255 ∨ ∃ bytes e, data.dd = some bytes ∧
        parseDependencyDescriptor bytes (c.ddStructureCache.get (origin, data.mid)) = .error e)) ∨
    ∃ bytes d, data.dd = some bytes ∧ c.effectiveTemporalCap < 255 ∧
      parseDependencyDescriptor bytes (c.ddStructureCache.get (origin, data.mid)) = .ok d ∧
      c.temporalFilter origin data = (c.remember (origin, data.mid) d,
        d.temporalId.filter fun tid => tid > c.effectiveTemporalCap.toNat) := by
  unfold temporalFilter
  cases hdd : data.dd with
  | none => exact .inl ⟨rfl, .inl rfl⟩
  | some bytes =>
    by_cases hcap : c.effectiveTemporalCap < 255
    · cases hparse : parseDependencyDescriptor bytes
          (c.ddStructureCache.get (origin, data.mid)) with
      | error e => exact .inl ⟨by simp [hcap, hparse], .inr (.inr ⟨bytes, e, rfl, hparse⟩)⟩
      | ok d => exact .inr ⟨bytes, d, rfl, hcap, hparse, by simp [hcap, hparse]⟩
    · exact .inl ⟨by simp [hcap], .inr (.inl hcap)⟩

/-- The steps after the temporal filter touch at most the last forwarded rid. -/
theorem forward_state (c : Subscriber) (origin : ClientId) (data : MediaData) :
    ∃ rid, (c.forward origin data).1 = { c with chosenRid := rid } := by
  unfold forward
  split
  · split
    · exact ⟨c.chosenRid, rfl⟩
    · unfold noteChosenRid
      split
      · exact ⟨data.rid, rfl⟩
      · exact ⟨c.chosenRid, rfl⟩
  · exact ⟨c.chosenRid, rfl⟩

theorem handleMediaDataOut_state (c : Subscriber) (origin : ClientId) (data : MediaData) :
    ∃ rid, (c.handleMediaDataOut origin data).1 =
      { (c.temporalFilter origin data).1 with chosenRid := rid } := by
  unfold handleMediaDataOut
  split
  · next c' tid h => exact ⟨c'.chosenRid, by rw [h]⟩
  · next c' h =>
    obtain ⟨rid, hrid⟩ := c'.forward_state origin data
    exact ⟨rid, by rw [h, hrid]⟩

theorem handleMediaDataOut_temporalDrop {origin : ClientId} {data : MediaData} {tid : Nat}
    (h : (c.handleMediaDataOut origin data).2 = .temporalDrop tid) :
    (c.temporalFilter origin data).2 = some tid := by
  unfold handleMediaDataOut at h
  split at h
  · next c' tid' heq =>
    rw [heq]
    exact congrArg some (FanoutDecision.temporalDrop.inj h)
  · next c' heq =>
    unfold forward at h
    split at h
    · split at h <;> cases h
    · cases h

theorem temporalFilter_eq (c : Subscriber) (origin : ClientId) (data : MediaData) :
    ∃ cache, (c.temporalFilter origin data).1 = { c with ddStructureCache := cache } := by
  obtain ⟨heq, -⟩ | ⟨bytes, d, -, -, -, heq⟩ := c.temporalFilter_cases origin data <;> rw [heq]
  · exact ⟨c.ddStructureCache, rfl⟩
  · unfold remember
    split
    · exact ⟨_, rfl⟩
    · exact ⟨c.ddStructureCache, rfl⟩

theorem forward_eq_write_iff {origin : ClientId} {data : MediaData} {mid : Mid} :
    (c.forward origin data).2 = .write mid ↔
      c.layerMatches data = true ∧ (c.findTrackOut origin data.mid).bind (·.mid) = some mid := by
  unfold forward
  split
  · next hlayer =>
    cases htrack : (c.findTrackOut origin data.mid).bind (·.mid) with
    | none => simp
    | some mid' => simp [hlayer]
  · next hlayer => simp [hlayer]

/-- A packet is handed to the writer of an m-line exactly if both filters let it through and its
outbound track is open there. -/
theorem handleMediaDataOut_eq_write_iff {origin : ClientId} {data : MediaData} {mid : Mid} :
    (c.handleMediaDataOut origin data).2 = .write mid ↔
      (c.temporalFilter origin data).2 = none ∧ c.layerMatches data = true ∧
        (c.findTrackOut origin data.mid).bind (·.mid) = some mid := by
  obtain ⟨cache, hcache⟩ := c.temporalFilter_eq origin data
  unfold handleMediaDataOut
  split
  · next h => simp [h]
  · next c' h =>
    -- Neither the layer nor the tracks depend on the cache.
    obtain rfl : c' = { c with ddStructureCache := cache } := by rw [← hcache, h]
    simp only [h, true_and]
    exact forward_eq_write_iff

/-! ## The cache along a run -/

/-- At a capped instant every cached structure is the latest of its stream. -/
def CacheCurrent (history : List Event) (c : Subscriber) : Prop :=
  c.effectiveTemporalCap < 255 → ∀ key s, c.ddStructureCache.get key = some s →
    latestStructure key history = some s

theorem CacheCurrent.new (lo hi : Nat) : CacheCurrent [] (.new lo hi) := by
  intro _ key s hs
  cases hs

theorem CacheCurrent.invalidate {history : List Event} {before : UInt8} {e : Event}
    (hkeep : before < 255 → ∀ key s, c.ddStructureCache.get key = some s →
      latestStructure key history = some s)
    (he : ∀ key, e.structureOn key = none) :
    CacheCurrent (history ++ [e]) (c.invalidateDdCacheOnCapEngage before) := by
  intro hcap key s hs
  rw [latestStructure_snoc, he key, Option.none_or]
  unfold invalidateDdCacheOnCapEngage at hcap hs
  split at hs
  · simp at hs
  · next hne =>
    rw [if_neg hne] at hcap
    have hmax : before.toNat ≠ 255 := fun h => hne ⟨UInt8.toNat_inj.mp h, hcap⟩
    have hlt : before.toNat < 255 := by have := before.toNat_lt; omega
    exact hkeep (UInt8.lt_iff_toNat_lt.mpr hlt) key s hs

theorem CacheCurrent.of_eq {history : List Event} {c' : Subscriber} {e : Event}
    (h : CacheCurrent history c) (hcap : c'.effectiveTemporalCap = c.effectiveTemporalCap)
    (hcache : c'.ddStructureCache = c.ddStructureCache) (he : ∀ key, e.structureOn key = none) :
    CacheCurrent (history ++ [e]) c' := by
  intro hlt key s hs
  rw [latestStructure_snoc, he key, Option.none_or]
  exact h (hcap ▸ hlt) key s (hcache ▸ hs)

/-- Under a cap, the structure a descriptor carries is cached as the latest of its stream. -/
theorem CacheCurrent.remember {history : List Event} {origin : ClientId} {data : MediaData}
    {d : DependencyDescriptor} (h : CacheCurrent history c)
    (hsent : data.sentStructure = d.attached) :
    CacheCurrent (history ++ [.packet origin data]) (c.remember (origin, data.mid) d) := by
  intro hlt key s hs
  rw [effectiveTemporalCap_remember] at hlt
  rw [latestStructure_snoc]
  unfold Subscriber.remember at hs
  by_cases hkey : (origin, data.mid) = key
  · subst hkey
    simp only [Event.structureOn, if_true, hsent]
    cases hd : d.attached with
    | none =>
      rw [hd] at hs
      exact h hlt _ s hs
    | some t =>
      rw [hd] at hs
      simpa using hs
  · simp only [Event.structureOn, if_neg hkey, Option.none_or]
    cases hd : d.attached with
    | none =>
      rw [hd] at hs
      exact h hlt _ s hs
    | some t =>
      rw [hd] at hs
      exact h hlt _ s (DdStructureCache.get_of_insert_ne (Ne.symm hkey) hs)

theorem CacheCurrent.temporalFilter {history : List Event} {origin : ClientId} {data : MediaData}
    (h : CacheCurrent history c) (hacc : data.Accepted) :
    CacheCurrent (history ++ [.packet origin data]) (c.temporalFilter origin data).1 := by
  rcases c.temporalFilter_cases origin data with ⟨heq, hwhy⟩ | ⟨bytes, d, hdd, _, hparse, heq⟩
  · rw [heq]
    intro hcap key s hs
    have hnone : data.sentStructure = none := by
      rcases hwhy with hdd | hcap' | ⟨bytes, e, hdd, hparse⟩
      · simp [MediaData.sentStructure, hdd]
      · exact absurd hcap hcap'
      · exact sentStructure_of_error hacc hdd hparse
    rw [latestStructure_snoc]
    simpa [Event.structureOn, hnone] using h hcap key s hs
  · rw [heq]
    exact h.remember (sentStructure_of_ok hdd hparse)

theorem CacheCurrent.step {history : List Event} (h : CacheCurrent history c) {e : Event}
    (he : e.Accepted) : CacheCurrent (history ++ [e]) (c.step e).1 := by
  cases e with
  | packet origin data =>
    obtain ⟨rid, hstate⟩ := c.handleMediaDataOut_state origin data
    have hfilter : CacheCurrent _ (c.temporalFilter origin data).1 := h.temporalFilter he
    simp only [Subscriber.step, hstate]
    exact hfilter
  | clientCap max => exact CacheCurrent.invalidate h fun _ => rfl
  | bweTick budgetBps => exact CacheCurrent.invalidate h fun _ => rfl
  | desiredLayer rid => exact h.of_eq rfl rfl fun _ => rfl
  | tracksOut tracks => exact h.of_eq rfl rfl fun _ => rfl
  | departure origin => exact h.of_eq rfl rfl fun _ => rfl

end Subscriber

/-- A packet is temporally dropped only at the temporal id its template has in the most recent
structure of its own stream, and only when that id exceeds the effective cap of the moment. -/
theorem temporalDrop_of_latestStructure (lo hi : Nat) (history : List Event) (origin : ClientId)
    (data : MediaData) (tid : Nat)
    (haccepted : ∀ e ∈ history ++ [.packet origin data], e.Accepted)
    (hdrop : ((subscriber.run (.new lo hi) history).handleMediaDataOut origin data).2 =
      .temporalDrop tid) :
    ∃ bytes s, data.dd = some bytes ∧
      latestStructure (origin, data.mid) (history ++ [.packet origin data]) = some s ∧
      s.temporalIdOf (templateIdOf bytes) = some tid ∧
      tid > (subscriber.run (.new lo hi) history).effectiveTemporalCap.toNat := by
  have hcurrent : Subscriber.CacheCurrent history (subscriber.run (.new lo hi) history) :=
    Machine.run_invariant (P := Event.Accepted) (.new lo hi) (fun _ _ _ he h => h.step he)
      fun e he => haccepted e (by simp [he])
  generalize subscriber.run (.new lo hi) history = c at hdrop hcurrent
  have hfilter := Subscriber.handleMediaDataOut_temporalDrop hdrop
  rcases c.temporalFilter_cases origin data with ⟨heq, _⟩ | ⟨bytes, d, hdd, hcap, hparse, heq⟩
  · simp [heq] at hfilter
  · rw [heq] at hfilter
    obtain ⟨htid, hgt⟩ := Option.filter_eq_some_iff.mp hfilter
    obtain ⟨hresolved, _⟩ := parseDependencyDescriptor_returns hparse
    rw [htid] at hresolved
    obtain ⟨s, hs, hstid⟩ := Option.bind_eq_some_iff.mp hresolved.symm
    refine ⟨bytes, s, hdd, ?_, hstid, by simpa using hgt⟩
    rw [latestStructure_snoc]
    simp only [Event.structureOn, if_true, sentStructure_of_ok hdd hparse]
    cases hd : d.attached with
    | some t => simpa [hd] using hs
    | none =>
      rw [hd, Option.none_or] at hs
      simpa using hcurrent hcap _ s hs

/-- A client caps itself to the base layer, receives a key frame with two temporal layers, and then
a frame of the upper one. -/
theorem temporalDrop_of_latestStructure_upperLayer :
    let history := [.clientCap 0, .packet 7 ⟨"v", none, some [192, 0, 1, 128, 0, 112, 0]⟩]
    let data : MediaData := ⟨"v", none, some [193, 0, 2]⟩
    let c := subscriber.run (.new 100000 150000) history
    (c.handleMediaDataOut 7 data).2 = .temporalDrop 1 ∧
    ∃ bytes s, data.dd = some bytes ∧
      latestStructure (7, "v") (history ++ [.packet 7 data]) = some s ∧
      s.temporalIdOf (templateIdOf bytes) = some 1 ∧ 1 > c.effectiveTemporalCap.toNat :=
  ⟨by decide +kernel, temporalDrop_of_latestStructure 100000 150000 _ 7 _ 1 (by decide +kernel)
    (by decide +kernel)⟩

end PartnerEdge.Client
