import PartnerEdge.Sfu.Pacer
import PartnerEdge.Svc.DdSafety

/-!
# The temporal cap a client asks for

A client caps its temporal layers with a number in a message of its budget channel. The number is
read as a `u64` and then cut to a byte. This module follows it from the bytes of the message through
the registry to the packets the client is not sent, and says for which numbers the cap is the one
that was asked for. What decides is the largest temporal id a descriptor can name.
-/

namespace PartnerEdge.Svc

/-! ## Temporal ids of a structure -/

/-- A walk over the layers gains at most one temporal id a step. -/
theorem LayerStep.temporal_le {layers : List (Nat × Nat)} (h : layers.IsChain LayerStep)
    (hstart : ∀ a ∈ layers.head?, a.2 = 0) {i : Nat} {a : Nat × Nat} (ha : layers[i]? = some a) :
    a.2 ≤ i := by
  induction i generalizing a with
  | zero =>
    rw [← List.head?_eq_getElem?] at ha
    exact (hstart a ha).le
  | succ i ih =>
    obtain ⟨hi, rfl⟩ := List.getElem?_eq_some_iff.1 ha
    have hstep := List.isChain_iff_getElem.1 h i hi
    have hle := ih (List.getElem?_eq_getElem (by omega))
    unfold LayerStep at hstep
    grind

/-- No frame of a stream has a temporal id above 63. -/
theorem TemplateDependencyStructure.WellFormed.temporalIdOf_le {s : TemplateDependencyStructure}
    (h : s.WellFormed) {templateId tid : Nat} (htid : s.temporalIdOf templateId = some tid) :
    tid ≤ 63 := by
  obtain ⟨t, ht, rfl⟩ := Option.map_eq_some_iff.1 htid
  have hlayer : (s.templates.map (·.layer))[(templateId + 64 - s.templateIdOffset) % 64]? =
      some t.layer := by
    rw [List.getElem?_map, ht]
    rfl
  have hle := LayerStep.temporal_le h.walk.steps (by simp [h.walk.start]) hlayer
  have hlt := Nat.mod_lt (templateId + 64 - s.templateIdOffset) (show 64 > 0 by decide)
  exact hle.trans (by omega)

/-- One template for each of the temporal ids 0 to 63. -/
def ladderStructure : TemplateDependencyStructure where
  templateIdOffset := 0
  templateCount := 64
  dtCnt := 1
  chainCnt := 0
  maxTemporalId := 63
  maxSpatialId := 0
  templates := (List.range 64).map fun tid =>
    { temporalId := tid, spatialId := 0, dtis := [0], fdiffs := [], chainFdiffs := [] }

/-- The key frame that carries it. -/
def ladderKeyFrame : List UInt8 :=
  [192, 0, 1, 128, 0] ++ List.replicate 15 85 ++ [87] ++ List.replicate 25 0

/-- A frame of one of its templates. -/
def ladderFrame (tid : Nat) : List UInt8 := [UInt8.ofNat (192 + tid), 0, 2]

theorem parse_ladderKeyFrame (prior : Option TemplateDependencyStructure) :
    parseDependencyDescriptor ladderKeyFrame prior =
      .ok ⟨true, true, 0, 1, some 0, some 0, some ladderStructure⟩ := by
  rw [parseDependencyDescriptor_of_carriesStructure (by decide +kernel) prior none]
  decide +kernel

theorem parse_ladderFrame : ∀ tid < 64,
    parseDependencyDescriptor (ladderFrame tid) (some ladderStructure) =
      .ok ⟨true, true, tid, 2, some tid, some 0, none⟩ := by
  decide +kernel

end PartnerEdge.Svc

namespace PartnerEdge.Client

open Svc Parsing

/-- The events that change neither cap. -/
def Event.KeepsCaps : Event → Prop
  | .clientCap _ | .bweTick _ => False
  | _ => True

namespace Subscriber

variable {c : Subscriber}

/-! ## What packets leave alone -/

/-- Every cached structure came from the parser. -/
def CacheWellFormed (c : Subscriber) : Prop :=
  ∀ key s, c.ddStructureCache.get key = some s → s.WellFormed

theorem CacheWellFormed.invalidate (h : c.CacheWellFormed) (before : UInt8) :
    (c.invalidateDdCacheOnCapEngage before).CacheWellFormed := by
  unfold invalidateDdCacheOnCapEngage
  split
  · intro key s hs
    simp at hs
  · exact h

theorem CacheWellFormed.remember (h : c.CacheWellFormed) (key : StreamKey)
    {d : DependencyDescriptor} (hd : ∀ s ∈ d.attached, s.WellFormed) :
    (c.remember key d).CacheWellFormed := by
  unfold Subscriber.remember
  split
  · next s hs =>
    intro key' s' hs'
    by_cases hkey : key' = key
    · subst hkey
      rw [DdStructureCache.get_insert_self] at hs'
      exact hd s' (hs.trans hs')
    · exact h key' s' (DdStructureCache.get_of_insert_ne hkey hs')
  · exact h

theorem CacheWellFormed.temporalFilter (h : c.CacheWellFormed) (origin : ClientId)
    (data : MediaData) : (c.temporalFilter origin data).1.CacheWellFormed := by
  obtain ⟨heq, -⟩ | ⟨bytes, d, -, -, hparse, heq⟩ := c.temporalFilter_cases origin data <;> rw [heq]
  · exact h
  · apply h.remember
    obtain herror | ⟨d', hok, hd'⟩ := parseDependencyDescriptor_cases (h (origin, data.mid)) bytes
    · simp [herror] at hparse
    · obtain rfl : d' = d := by simpa [hok] using hparse
      exact hd'

theorem CacheWellFormed.step (h : c.CacheWellFormed) (e : Event) :
    (c.step e).1.CacheWellFormed := by
  cases e with
  | packet origin data =>
    obtain ⟨rid, hstate⟩ := c.handleMediaDataOut_state origin data
    have hfilter : CacheWellFormed _ := h.temporalFilter origin data
    simp only [Subscriber.step, hstate]
    exact hfilter
  | clientCap max =>
    exact CacheWellFormed.invalidate (c := { c with maxVfmTemporalLayer := max }) h _
  | bweTick budgetBps =>
    exact CacheWellFormed.invalidate
      (c := { c with bweVfmTemporalCap := c.nextBweCap budgetBps }) h _
  | desiredLayer rid => exact h
  | tracksOut tracks => exact h
  | departure origin => exact h

theorem cacheWellFormed_run (lo hi : Nat) (history : List Event) :
    (subscriber.run (.new lo hi) history).CacheWellFormed :=
  Machine.run_of_step (fun _ e h => h.step e) (by intro key s hs; cases hs) history

theorem effectiveTemporalCap_step {e : Event} (he : e.KeepsCaps) :
    (c.step e).1.effectiveTemporalCap = c.effectiveTemporalCap := by
  cases e with
  | packet origin data =>
    obtain ⟨rid, hstate⟩ := c.handleMediaDataOut_state origin data
    obtain ⟨cache, hcache⟩ := c.temporalFilter_eq origin data
    simp only [Subscriber.step, hstate, hcache]
    rfl
  | clientCap max => exact he.elim
  | bweTick budgetBps => exact he.elim
  | desiredLayer rid => rfl
  | tracksOut tracks => rfl
  | departure origin => rfl

/-! ## Frames up to a temporal id are kept -/

/-- As long as the caps stay as they are, no frame of a temporal id up to `n` is dropped for it. -/
def Honours (c : Subscriber) (n : Nat) : Prop :=
  ∀ later : List Event, (∀ e ∈ later, e.KeepsCaps) → ∀ origin data, ∀ tid ≤ n,
    ((subscriber.run c later).handleMediaDataOut origin data).2 ≠ .temporalDrop tid

/-- A dropped frame has a temporal id above the cap, and at most 63. -/
theorem CacheWellFormed.temporalDrop (h : c.CacheWellFormed) {origin : ClientId} {data : MediaData}
    {tid : Nat} (hdrop : (c.handleMediaDataOut origin data).2 = .temporalDrop tid) :
    c.effectiveTemporalCap.toNat < tid ∧ tid ≤ 63 := by
  have hfilter := handleMediaDataOut_temporalDrop hdrop
  obtain ⟨heq, -⟩ | ⟨bytes, d, hdd, hcap, hparse, heq⟩ := c.temporalFilter_cases origin data
  · simp [heq] at hfilter
  · rw [heq] at hfilter
    obtain ⟨htid, hgt⟩ := Option.filter_eq_some_iff.1 hfilter
    refine ⟨by simpa using hgt, ?_⟩
    obtain ⟨hresolved, -⟩ := parseDependencyDescriptor_returns hparse
    rw [htid] at hresolved
    obtain ⟨s, hs, hstid⟩ := Option.bind_eq_some_iff.1 hresolved.symm
    obtain herror | ⟨d', hok, hd'⟩ := parseDependencyDescriptor_cases (h (origin, data.mid)) bytes
    · simp [herror] at hparse
    · obtain rfl : d' = d := by simpa [hok] using hparse
      obtain hattached | ⟨-, hprior⟩ := Option.or_eq_some_iff.1 hs
      · exact (hd' s hattached).temporalIdOf_le hstid
      · exact (h _ s hprior).temporalIdOf_le hstid

theorem handleMediaDataOut_of_temporalFilter {origin : ClientId} {data : MediaData} {tid : Nat}
    (h : (c.temporalFilter origin data).2 = some tid) :
    (c.handleMediaDataOut origin data).2 = .temporalDrop tid := by
  unfold handleMediaDataOut
  split <;> simp_all

/-- The key frame puts its structure into the cache. -/
theorem get_step_ladderKeyFrame (hcap : c.effectiveTemporalCap < 255) :
    (c.step (.packet 0 ⟨"0", none, some ladderKeyFrame⟩)).1.ddStructureCache.get (0, "0") =
      some ladderStructure := by
  obtain ⟨rid, hstate⟩ := c.handleMediaDataOut_state 0 ⟨"0", none, some ladderKeyFrame⟩
  simp only [Subscriber.step, hstate]
  simp [Subscriber.temporalFilter, hcap, parse_ladderKeyFrame, Subscriber.remember]

theorem temporalDrop_ladderFrame (hcache : c.ddStructureCache.get (0, "0") = some ladderStructure)
    (hcap : c.effectiveTemporalCap.toNat < 63) :
    (c.handleMediaDataOut 0 ⟨"0", none, some (ladderFrame (c.effectiveTemporalCap.toNat + 1))⟩).2 =
      .temporalDrop (c.effectiveTemporalCap.toNat + 1) := by
  have hlt : c.effectiveTemporalCap < 255 := UInt8.lt_iff_toNat_lt.2 (by simp; omega)
  apply handleMediaDataOut_of_temporalFilter
  simp [Subscriber.temporalFilter, hlt, hcache,
    parse_ladderFrame (c.effectiveTemporalCap.toNat + 1) (by omega)]

/-- Frames up to `n` are kept exactly when the cap is at least `n`, or above every temporal id. -/
theorem CacheWellFormed.honours_iff (h : c.CacheWellFormed) (n : Nat) :
    c.Honours n ↔ n ≤ c.effectiveTemporalCap.toNat ∨ 63 ≤ c.effectiveTemporalCap.toNat := by
  constructor
  · intro hhonours
    by_contra hnone
    push Not at hnone
    obtain ⟨hn, hcap⟩ := hnone
    have hlt : c.effectiveTemporalCap < 255 := UInt8.lt_iff_toNat_lt.2 (by simp; omega)
    have hkept := effectiveTemporalCap_step (c := c)
      (e := .packet 0 ⟨"0", none, some ladderKeyFrame⟩) trivial
    have hdrop := temporalDrop_ladderFrame (get_step_ladderKeyFrame hlt) (by rwa [hkept])
    rw [hkept] at hdrop
    exact hhonours [.packet 0 ⟨"0", none, some ladderKeyFrame⟩] (by simp [Event.KeepsCaps]) _ _
      (c.effectiveTemporalCap.toNat + 1) (by omega) hdrop
  · intro hcap later hlater origin data tid htid hdrop
    have hkept : (subscriber.run c later).CacheWellFormed ∧
        (subscriber.run c later).effectiveTemporalCap = c.effectiveTemporalCap :=
      Machine.run_invariant (P := Event.KeepsCaps)
        (I := fun _ (c' : Subscriber) =>
          c'.CacheWellFormed ∧ c'.effectiveTemporalCap = c.effectiveTemporalCap)
        ⟨h, rfl⟩
        (fun _ _ _ he hkept => ⟨hkept.1.step _, (effectiveTemporalCap_step he).trans hkept.2⟩)
        hlater
    have hbounds := hkept.1.temporalDrop hdrop
    rw [hkept.2] at hbounds
    omega

end Subscriber

end PartnerEdge.Client

namespace PartnerEdge.Sfu

open Svc PartnerEdge.Client Text

/-! ## The message -/

/-- `{"type":"max_temporal_layer","vfm":N}` -/
def capMessage (n : Nat) : Str :=
  "\x7b\"type\":\"max_temporal_layer\",\"vfm\":".toList ++ (Nat.toDigits 10 n ++ ['\x7d'])

theorem extractStrValue_capMessage (n : Nat) :
    extractStrValue (capMessage n) "type".toList = some "max_temporal_layer".toList := by
  rfl

theorem afterColon_capMessage (n : Nat) :
    afterColon (capMessage n) "vfm".toList =
      some ((Nat.toDigits 10 n ++ ['\x7d']).dropWhile isWhitespace) := by
  rfl

theorem extractNumValue_capMessage {n : Nat} (hn : n < 2 ^ 64) :
    extractNumValue (capMessage n) "vfm".toList = some n := by
  have hdigits : ∀ c ∈ Nat.toDigits 10 n, c.isDigit = true := fun c => isDigit_of_mem_toDigits
  have htake : (Nat.toDigits 10 n ++ ['\x7d']).takeWhile Char.isDigit = Nat.toDigits 10 n := by
    rw [List.takeWhile_append_of_pos hdigits]
    simp
  have hdrop : (Nat.toDigits 10 n ++ ['\x7d']).dropWhile isWhitespace =
      Nat.toDigits 10 n ++ ['\x7d'] := by
    apply dropWhile_eq_self
    intro c hc
    rcases List.mem_append.1 hc with hc | hc
    · exact isWhitespace_of_isAlphanum (by simp [Char.isAlphanum, hdigits c hc])
    · obtain rfl := List.mem_singleton.1 hc
      decide
  simp only [extractNumValue, afterColon_capMessage, hdrop, Option.bind_eq_bind, Option.bind_some,
    htake, parseU64_toDigits hn]
  simp [Nat.toDigits_ne_nil]

/-- The message becomes a cap at the last byte of the number. -/
theorem handleEvent_capMessage (jwt : Jwt) (now : Nat) (auth : RelayAuth) (c : Client) {n : Nat}
    (hn : n < 2 ^ 64) :
    (c.handleEvent jwt now auth (.channelData "sfu-budget" (toUtf8 (capMessage n)))).2 =
      .vfmLayerCap c.id (UInt8.ofNat n) := by
  have htype : "max_temporal_layer".toList ≠ "relay_source".toList := by decide
  have hbudget : budgetMessage c.id (capMessage n) = .vfmLayerCap c.id (UInt8.ofNat n) := by
    rw [budgetMessage, if_pos (extractStrValue_capMessage n), extractNumValue_capMessage hn]
  have hrelay : ((some (capMessage n)).bind (extractStrValue · "type".toList) =
      some "relay_source".toList) = False := by
    rw [Option.bind_some, extractStrValue_capMessage, Option.some.injEq, eq_false htype]
  simp only [Client.handleEvent, handleChannelData, fromUtf8_toUtf8, hrelay, if_false, hbudget]
  simp only [String.reduceEq, ne_eq, not_true_eq_false, if_false]

/-- In the registry the event changes the cap of that client, and nothing else of it. -/
theorem handlePending_vfmLayerCap (cfg : Config) (world : World) (now : Nat) (r : Registry)
    {i : Nat} {c : Client} (hc : r.clients[i]? = some c) (max : UInt8) :
    (r.handlePending cfg world now (.vfmLayerCap c.id max)).clients[i]? =
      some { c with filter := c.filter.setMaxVfmTemporalLayer max } := by
  simp [Registry.handlePending, Registry.isConsumed, Registry.consult, Registry.updateClient, hc]

/-- A client of the registry whose filter has any history, without a bandwidth cap, sends the
message. Afterwards no frame of a temporal id up to `n` is dropped for its temporal id exactly when
`n` is a byte, or its last byte is at least 63. -/
theorem capMessage_honoured_iff (cfg : Config) (world : World) (jwt : Jwt) (auth : RelayAuth)
    (now : Nat) (r : Registry) (i : Nat) (c : Client) (hc : r.clients[i]? = some c)
    (lo hi : Nat) (history : List Event) (hfilter : c.filter = subscriber.run (.new lo hi) history)
    (hbwe : c.filter.bweVfmTemporalCap = 255) (n : Nat) (hn : n < 2 ^ 64) :
    (∃ c', (r.handlePending cfg world now
        (c.handleEvent jwt now auth (.channelData "sfu-budget"
          (toUtf8 (capMessage n)))).2).clients[i]?
          = some c' ∧ c'.filter.Honours n) ↔ n < 256 ∨ 63 ≤ n % 256 := by
  have hcache : (c.filter.setMaxVfmTemporalLayer (UInt8.ofNat n)).CacheWellFormed := by
    rw [hfilter]
    exact (Subscriber.cacheWellFormed_run lo hi history).step (.clientCap _)
  have hcap : (c.filter.setMaxVfmTemporalLayer (UInt8.ofNat n)).effectiveTemporalCap.toNat =
      n % 256 := by
    have hle : UInt8.ofNat n ≤ 255 :=
      UInt8.le_iff_toNat_le.2 (Nat.le_of_lt_succ (UInt8.toNat_lt _))
    have hmin : ({ c.filter with maxVfmTemporalLayer := UInt8.ofNat n }).effectiveTemporalCap =
        UInt8.ofNat n := by
      simp only [Subscriber.effectiveTemporalCap, hbwe]
      exact if_pos hle
    unfold Subscriber.setMaxVfmTemporalLayer Subscriber.invalidateDdCacheOnCapEngage
    split
    · exact (congrArg UInt8.toNat hmin).trans UInt8.toNat_ofNat
    · exact (congrArg UInt8.toNat hmin).trans UInt8.toNat_ofNat
  rw [handleEvent_capMessage jwt now auth c hn, handlePending_vfmLayerCap cfg world now r hc]
  simp only [Option.some.injEq, exists_eq_left', hcache.honours_iff, hcap]
  omega

/-- The event of a newcomer's message. -/
def newcomerCap (n : Nat) : Propagated :=
  ((Client.newBrowser pacedConfig 1 2).handleEvent (pacedWorld none .noChange).jwt 0
    pacedConfig.relayAuth (.channelData "sfu-budget" (toUtf8 (capMessage n)))).2

/-- A newcomer that asks for at most temporal id 1 gets it. -/
theorem capMessage_honoured_newcomer :
    ∃ c', ({ Registry.empty with clients := [Client.newBrowser pacedConfig 1 2] }.handlePending
      pacedConfig (pacedWorld none .noChange) 0 (newcomerCap 1)).clients[0]? = some c' ∧
        c'.filter.Honours 1 :=
  (capMessage_honoured_iff pacedConfig (pacedWorld none .noChange) (pacedWorld none .noChange).jwt
    pacedConfig.relayAuth 0 { Registry.empty with clients := [Client.newBrowser pacedConfig 1 2] } 0
    (Client.newBrowser pacedConfig 1 2) rfl 100000 150000 [] rfl rfl 1 (by decide)).2
    (.inl (by decide))

/-- One that asks for at most temporal id 256 is held to 0: a frame of temporal id 1 is dropped. -/
theorem capMessage_256_drops :
    ∃ c', ({ Registry.empty with clients := [Client.newBrowser pacedConfig 1 2] }.handlePending
      pacedConfig (pacedWorld none .noChange) 0 (newcomerCap 256)).clients[0]? = some c' ∧
        ((subscriber.run c'.filter [.packet 7 ⟨"v", none, some [192, 0, 1, 128, 0, 112, 0]⟩]
          ).handleMediaDataOut 7 ⟨"v", none, some [193, 0, 2]⟩).2 = .temporalDrop 1 := by
  rw [newcomerCap, handleEvent_capMessage _ _ _ _ (by decide)]
  refine ⟨_, rfl, ?_⟩
  decide +kernel

end PartnerEdge.Sfu
