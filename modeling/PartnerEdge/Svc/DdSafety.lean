import PartnerEdge.Svc.DdParse

/-!
# Safety of the Dependency Descriptor parser

No input makes the parser fault, and every structure it returns is `WellFormed`. The two facts need
each other: the fields of a cached structure drive shifts, indices and loop bounds of later calls,
so well-formedness is the invariant carried from packet to packet.
-/

namespace PartnerEdge.Svc

open Parsing BitReader

/-- `m` is the largest element of `xs`. -/
def IsMax (m : Nat) (xs : List Nat) : Prop := m ∈ xs ∧ ∀ x ∈ xs, x ≤ m

instance (m : Nat) (xs : List Nat) : Decidable (IsMax m xs) :=
  inferInstanceAs (Decidable (_ ∧ _))

/-- Consecutive `(spatial, temporal)` layers: the same, the next temporal id, or the next spatial
id with temporal id zero. -/
def LayerStep (a b : Nat × Nat) : Prop :=
  b = a ∨ b = (a.1, a.2 + 1) ∨ b = (a.1 + 1, 0)

instance : DecidableRel LayerStep := fun _ _ => inferInstanceAs (Decidable (_ ∨ _ ∨ _))

structure LayerWalk (layers : List (Nat × Nat)) (maxTemporalId maxSpatialId : Nat) : Prop where
  start : layers.head? = some (0, 0)
  steps : layers.IsChain LayerStep
  maxTemporal : IsMax maxTemporalId (layers.map Prod.snd)
  maxSpatial : IsMax maxSpatialId (layers.map Prod.fst)

def FrameDependencyTemplate.layer (t : FrameDependencyTemplate) : Nat × Nat :=
  (t.spatialId, t.temporalId)

structure FrameDependencyTemplate.WellFormed (dtCnt chainCnt : Nat)
    (t : FrameDependencyTemplate) : Prop where
  dtis : t.dtis.length = dtCnt ∧ ∀ d ∈ t.dtis, d < 4
  fdiffs : t.fdiffs.length ≤ 7 ∧ ∀ d ∈ t.fdiffs, 1 ≤ d ∧ d ≤ 16
  chainFdiffs : t.chainFdiffs.length = chainCnt ∧ ∀ d ∈ t.chainFdiffs, d < 16

structure TemplateDependencyStructure.WellFormed (s : TemplateDependencyStructure) : Prop where
  offset : s.templateIdOffset < 64
  count : s.templateCount = s.templates.length
  countRange : 1 ≤ s.templateCount ∧ s.templateCount ≤ 64
  dtCntRange : 1 ≤ s.dtCnt ∧ s.dtCnt ≤ 31
  chainCnt : s.chainCnt ≤ s.dtCnt
  templates : ∀ t ∈ s.templates, t.WellFormed s.dtCnt s.chainCnt
  walk : LayerWalk (s.templates.map (·.layer)) s.maxTemporalId s.maxSpatialId

/-! ## The layer walk -/

theorem IsMax.le {m : Nat} {xs : List Nat} (h : IsMax m xs) {x : Nat} (hx : x ∈ xs) : x ≤ m :=
  h.2 x hx

theorem IsMax.snoc {m : Nat} {xs : List Nat} (h : IsMax m xs) (x : Nat) :
    IsMax (max m x) (xs ++ [x]) := by
  refine ⟨?_, ?_⟩
  · rcases Nat.le_total x m with hx | hx
    · simp [Nat.max_eq_left hx, h.1]
    · simp [Nat.max_eq_right hx]
  · intro y hy
    rcases List.mem_append.mp hy with hy | hy
    · exact (h.le hy).trans (Nat.le_max_left m x)
    · rw [List.mem_singleton.mp hy]
      exact Nat.le_max_right m x

theorem LayerStep.spatial_le {a b : Nat × Nat} (h : LayerStep a b) : a.1 ≤ b.1 := by
  rcases h with rfl | rfl | rfl <;> simp

theorem LayerWalk.snoc {ts : List (Nat × Nat)} {a b : Nat × Nat} {m : Nat}
    (h : LayerWalk (ts ++ [a]) m a.1) (hs : LayerStep a b) :
    LayerWalk (ts ++ [a] ++ [b]) (max m b.2) b.1 where
  start := by
    have := h.start
    cases ts <;> simpa using this
  steps := by
    refine List.isChain_append.mpr ⟨h.steps, List.isChain_singleton b, ?_⟩
    simpa using hs
  maxTemporal := by
    rw [List.map_append]
    exact h.maxTemporal.snoc b.2
  maxSpatial := by
    rw [List.map_append]
    have := h.maxSpatial.snoc b.1
    rwa [Nat.max_eq_right hs.spatial_le] at this

theorem safe_nextLayer {idc : Nat} {ts : List (Nat × Nat)} {c : LayerCursor} (hidc : idc < 3)
    (h : LayerWalk (ts ++ [(c.spatialId, c.temporalId)]) c.maxTemporalId c.spatialId) :
    Safe (nextLayer idc c) (fun c' =>
      LayerWalk (ts ++ [(c.spatialId, c.temporalId)] ++ [(c'.spatialId, c'.temporalId)])
        c'.maxTemporalId c'.spatialId) := by
  have hle : c.temporalId ≤ c.maxTemporalId := h.maxTemporal.le (by simp)
  match idc, hidc with
  | 0, _ =>
    have hs := h.snoc (.inl rfl)
    rw [Nat.max_eq_left hle] at hs
    exact Safe.of_pure hs
  | 1, _ =>
    refine (Safe.addOrReject 8 c.temporalId 1).bind fun t ht => Safe.of_pure ?_
    have hs := h.snoc (b := (c.spatialId, t)) (.inr (.inl (by simp [ht.1])))
    convert hs using 1
    dsimp only
    split <;> omega
  | 2, _ =>
    refine (Safe.addOrReject 8 c.spatialId 1).bind fun s hsp => Safe.of_pure ?_
    have hs := h.snoc (b := (s, 0)) (.inr (.inr (by simp [hsp.1])))
    rwa [Nat.max_eq_left (Nat.zero_le _)] at hs

theorem safe_templateLayersLoop {fuel : Nat} {ts : List (Nat × Nat)} {c : LayerCursor}
    (hlen : ts.length < 64) (hfuel : 64 ≤ ts.length + fuel)
    (h : LayerWalk (ts ++ [(c.spatialId, c.temporalId)]) c.maxTemporalId c.spatialId) :
    Safe (templateLayersLoop fuel ts c)
      (fun out => LayerWalk out.1 out.2.1 out.2.2 ∧ out.1.length ≤ 64) := by
  induction fuel generalizing ts c with
  | zero => omega
  | succ fuel ih =>
    refine (safe_readBits (n := 2) (by omega)).bind fun idc hidc => ?_
    split
    · exact Safe.of_pure ⟨h, by simp; omega⟩
    · refine (safe_nextLayer (by omega) h).bind fun c' hc' => ?_
      split
      · exact Safe.of_reject
      · next hlt =>
        simp only [List.length_append, List.length_singleton] at hlt
        exact ih (by simp; omega) (by simp; omega) hc'

theorem safe_parseTemplateLayers :
    Safe parseTemplateLayers
      (fun out => LayerWalk out.1 out.2.1 out.2.2 ∧ out.1.length ≤ 64) :=
  safe_templateLayersLoop (by simp) (by simp)
    ⟨rfl, List.isChain_singleton _, by simp [IsMax], by simp [IsMax]⟩

/-! ## Template blocks -/

theorem safe_readU8 {n : Nat} (hn : n ≤ 8) : Safe (readU8 n) (· < 2 ^ n) := by
  refine (safe_readBits (n := n) (by omega)).bind fun v hv => Safe.of_pure ?_
  exact (Nat.mod_le v _).trans_lt hv

theorem safe_templateFdiffsLoop {fuel : Nat} {fdiffs : List Nat} {follows : Bool}
    (hlen : fdiffs.length < 8) (hfuel : 8 ≤ fdiffs.length + fuel)
    (h : ∀ d ∈ fdiffs, 1 ≤ d ∧ d ≤ 16) :
    Safe (templateFdiffsLoop fuel fdiffs follows)
      (fun fs => fs.length ≤ 7 ∧ ∀ d ∈ fs, 1 ≤ d ∧ d ≤ 16) := by
  induction fuel generalizing fdiffs follows with
  | zero => omega
  | succ fuel ih =>
    cases follows with
    | false => exact Safe.of_pure ⟨by omega, h⟩
    | true =>
      refine (safe_readBits (n := 4) (by omega)).bind fun v hv => ?_
      refine (Safe.addOrReject 8 (asU8 v) 1).bind fun d hd => ?_
      refine safe_readBool.bind fun follows _ => ?_
      have hv' : asU8 v = v := Nat.mod_eq_of_lt (by omega)
      split
      · exact Safe.of_reject
      · next hlt =>
        simp only [List.length_append, List.length_singleton] at hlt
        refine ih (by simp; omega) (by simp; omega) fun e he => ?_
        rcases List.mem_append.mp he with he | he
        · exact h e he
        · rw [List.mem_singleton.mp he]
          omega

theorem safe_parseTemplateFdiffs :
    Safe parseTemplateFdiffs (fun fs => fs.length ≤ 7 ∧ ∀ d ∈ fs, 1 ≤ d ∧ d ≤ 16) :=
  safe_readBool.bind fun _ _ => safe_templateFdiffsLoop (by simp) (by simp) (by simp)

/-- The three per-template blocks fill in a fresh list of templates without touching its layers. -/
theorem safe_parseTemplateDtis (dtCnt : Nat) {ts : List FrameDependencyTemplate}
    (h : ∀ t ∈ ts, t.dtis = [] ∧ t.chainFdiffs = []) :
    Safe (parseTemplateDtis dtCnt ts) (fun ts' => ts'.map (·.layer) = ts.map (·.layer) ∧
      ∀ t ∈ ts', (t.dtis.length = dtCnt ∧ ∀ d ∈ t.dtis, d < 4) ∧ t.chainFdiffs = []) := by
  refine Safe.forEach fun t ht => ?_
  refine ((safe_readU8 (n := 2) (by omega)).times dtCnt).bind fun ds hds => Safe.of_pure ?_
  obtain ⟨hdtis, hchain⟩ := h t ht
  exact ⟨rfl, by simpa [hdtis] using hds, hchain⟩

theorem safe_parseAllTemplateFdiffs {dtCnt : Nat} {ts : List FrameDependencyTemplate}
    (h : ∀ t ∈ ts, (t.dtis.length = dtCnt ∧ ∀ d ∈ t.dtis, d < 4) ∧ t.chainFdiffs = []) :
    Safe (parseAllTemplateFdiffs ts) (fun ts' => ts'.map (·.layer) = ts.map (·.layer) ∧
      ∀ t ∈ ts', t.WellFormed dtCnt 0) := by
  refine Safe.forEach fun t ht => ?_
  refine safe_parseTemplateFdiffs.bind fun fs hfs => Safe.of_pure ?_
  obtain ⟨hdtis, hchain⟩ := h t ht
  exact ⟨rfl, hdtis, hfs, by simp [hchain]⟩

theorem safe_parseTemplateChains {dtCnt chainCnt : Nat} (hc : chainCnt ≤ 31)
    {ts : List FrameDependencyTemplate} (h : ∀ t ∈ ts, t.WellFormed dtCnt 0) :
    Safe (parseTemplateChains dtCnt chainCnt ts) (fun ts' =>
      ts'.map (·.layer) = ts.map (·.layer) ∧ ∀ t ∈ ts', t.WellFormed dtCnt chainCnt) := by
  unfold parseTemplateChains
  split
  · refine ((safe_readNs (n := chainCnt) (by omega)).times dtCnt).bind fun _ _ => ?_
    refine Safe.forEach fun t ht => ?_
    refine ((safe_readU8 (n := 4) (by omega)).times chainCnt).bind fun cs hcs => Safe.of_pure ?_
    exact ⟨rfl, (h t ht).dtis, (h t ht).fdiffs, hcs⟩
  · next h0 =>
    have : chainCnt = 0 := by omega
    subst this
    exact Safe.of_pure ⟨rfl, h⟩

theorem safe_parseResolutions (maxSpatialId : Nat) :
    Safe (parseResolutions maxSpatialId) (fun _ => True) := by
  have hres : Safe parseRenderResolution (fun _ => True) :=
    (safe_readBits (by omega)).bind fun _ _ =>
      (safe_readBits (by omega)).bind fun _ _ => Safe.of_pure trivial
  refine safe_readBool.bind fun present _ => ?_
  exact ((hres.times _).optionally present).bind fun _ _ => Safe.of_pure trivial

theorem safe_parseTemplateDependencyStructure :
    Safe parseTemplateDependencyStructure (·.WellFormed) := by
  refine (safe_readU8 (n := 6) (by omega)).bind fun offset hoffset => ?_
  refine (safe_readU8 (n := 5) (by omega)).bind fun dtCntMinusOne hdt => ?_
  refine (Safe.addOrReject 8 dtCntMinusOne 1).bind fun dtCnt hdtCnt => ?_
  split
  · exact Safe.of_reject
  refine safe_parseTemplateLayers.bind fun out hout => ?_
  obtain ⟨layers, maxTemporalId, maxSpatialId⟩ := out
  obtain ⟨hwalk, hlen⟩ := hout
  simp only at hwalk hlen
  have hcount : asU8 layers.length = layers.length := Nat.mod_eq_of_lt (by omega)
  dsimp only
  split
  · exact Safe.of_reject
  have hfresh : ∀ t ∈ layers.map FrameDependencyTemplate.ofLayer,
      t.dtis = [] ∧ t.chainFdiffs = [] := by
    intro t ht
    obtain ⟨layer, _, rfl⟩ := List.mem_map.mp ht
    exact ⟨rfl, rfl⟩
  refine (safe_parseTemplateDtis dtCnt hfresh).bind fun ts₁ h₁ => ?_
  refine (safe_parseAllTemplateFdiffs h₁.2).bind fun ts₂ h₂ => ?_
  refine (safe_readNs (n := dtCnt + 1) (by omega)).bind fun chainBits hchain => ?_
  have hle : chainBits ≤ dtCnt := by
    rw [Nat.max_eq_left (by omega)] at hchain
    omega
  have hcast : asU8 chainBits = chainBits := Nat.mod_eq_of_lt (by omega)
  refine (safe_parseTemplateChains (by omega) h₂.2).bind fun ts₃ h₃ => ?_
  refine (safe_parseResolutions maxSpatialId).bind fun _ _ => Safe.of_pure ?_
  have hlayers : ts₃.map (·.layer) = layers := by
    rw [h₃.1, h₂.1, h₁.1, List.map_map]
    exact List.map_id layers
  have hts : layers.length = ts₃.length := by rw [← hlayers, List.length_map]
  exact {
    offset := hoffset
    count := by rw [hcount, hts]
    countRange := ⟨by simp only; omega, by simpa only [hcount] using hlen⟩
    dtCntRange := ⟨by simp only; omega, by simp only; omega⟩
    chainCnt := by simpa only [hcast] using hle
    templates := h₃.2
    walk := by simpa only [hlayers] using hwalk }

/-! ## The descriptor -/

theorem safe_resolveTemplate (templateId : Nat) {s : TemplateDependencyStructure}
    (hs : s.WellFormed) : Safe (resolveTemplate templateId s) (fun _ => True) := by
  have hoffset := hs.offset
  unfold resolveTemplate
  rw [checkedSub_of_le (by omega), pure_bind]
  dsimp only
  split
  · exact Safe.of_reject
  · next hidx =>
    rw [hs.count] at hidx
    rw [index_of_getElem? (List.getElem?_eq_getElem (by omega))]
    exact Safe.of_pure trivial

/-- A successful read of `n` bits leaves `n` fewer of them. -/
theorem triple_readBits {n k : Nat} (hn : n ≤ 32) :
    Triple (fun r => r.remaining < k) (readBits n)
      (fun v r => v < 2 ^ n ∧ r.remaining + n < k) := by
  intro r hr
  have hsafe := safe_readBits hn r trivial
  rw [readBits_spec hn] at hsafe ⊢
  by_cases h : r.unread.length < n
  · rw [if_pos h]
    trivial
  · rw [if_neg h] at hsafe ⊢
    refine ⟨hsafe, ?_⟩
    rw [← length_unread] at hr ⊢
    rw [unread_advance, List.length_drop]
    omega

/-- The `frame_fdiffs()` loop ends before its fuel does. -/
theorem triple_frameFdiffsLoop (fuel : Nat) :
    Triple (fun r => r.remaining < fuel) (frameFdiffsLoop fuel) (fun _ _ => True) := by
  induction fuel with
  | zero => exact fun r hr => absurd hr (Nat.not_lt_zero _)
  | succ fuel ih =>
    refine (triple_readBits (n := 2) (by omega)).bind fun size => ?_
    intro r hr
    by_cases h0 : size = 0
    · rw [if_pos h0]
      trivial
    · rw [if_neg h0]
      refine Triple.bind (P := fun r => r.remaining < fuel)
        (triple_readBits (n := 4 * size) (by omega)) (fun _ => ?_) r (by omega)
      exact ih.consequence (fun r hr => by omega) (fun _ _ h => h)

theorem safe_frameFdiffs : Safe frameFdiffs (fun _ => True) := by
  intro r _
  exact triple_frameFdiffsLoop (r.remaining + 1) r (by omega)

theorem safe_parseOverrides (ext : ExtendedFields) (s : TemplateDependencyStructure) :
    Safe (parseOverrides ext s) (fun _ => True) := by
  refine (((safe_readBits (by omega)).times _).optionally _).bind fun _ _ => ?_
  refine (safe_frameFdiffs.optionally _).bind fun _ _ => ?_
  exact (((safe_readBits (by omega)).times _).optionally _).bind fun _ _ => Safe.of_pure trivial

section Prior

variable {prior : Option TemplateDependencyStructure} (hprior : ∀ s ∈ prior, s.WellFormed)
include hprior

theorem safe_parseAttached (present activePresent : Bool) :
    Safe (parseAttached present activePresent prior) (fun out => ∀ s ∈ out, s.WellFormed) := by
  unfold parseAttached
  split
  · refine safe_parseTemplateDependencyStructure.bind fun s hs => ?_
    obtain ⟨hpos, hle⟩ := hs.dtCntRange
    have hpow : 2 ^ s.dtCnt ≤ 2 ^ 31 := Nat.pow_le_pow_right (by omega) hle
    rw [checkedShl_of_lt (by omega) (by omega), pure_bind,
      checkedSub_of_le (by rw [Nat.one_mul]; exact Nat.one_le_two_pow), pure_bind]
    refine ((safe_readBits (n := s.dtCnt) (by omega)).optionally _).bind fun _ _ => ?_
    exact Safe.of_pure (by simpa using hs)
  · split
    · match prior with
      | none => exact Safe.of_reject
      | some s =>
        have hle := (hprior s rfl).dtCntRange.2
        exact (safe_readBits (by omega)).bind fun _ _ => Safe.of_pure (by simp)
    · exact Safe.of_pure (by simp)

theorem safe_parseExtendedFields :
    Safe (parseExtendedFields prior) (fun ext => ∀ s ∈ ext.attached, s.WellFormed) := by
  refine safe_readBool.bind fun present _ => safe_readBool.bind fun active _ => ?_
  refine safe_readBool.bind fun _ _ => safe_readBool.bind fun _ _ => ?_
  refine safe_readBool.bind fun _ _ => ?_
  exact (safe_parseAttached hprior present active).bind fun _ h => Safe.of_pure h

theorem safe_parseFrame (ext : ExtendedFields) (templateId : Nat)
    (hext : ∀ s ∈ ext.attached, s.WellFormed) :
    Safe (parseFrame ext templateId prior) (fun _ => True) := by
  unfold parseFrame
  split
  · next s hs =>
    have hwf : s.WellFormed := by
      rcases Option.or_eq_some_iff.mp hs with h | ⟨_, h⟩
      · exact hext s h
      · exact hprior s h
    refine (safe_resolveTemplate templateId hwf).bind fun _ _ => ?_
    exact (safe_parseOverrides ext s).bind fun _ _ => Safe.of_pure trivial
  · split
    · exact Safe.of_reject
    · exact Safe.of_pure trivial

theorem safe_parseDescriptor (sz : Nat) :
    Safe (parseDescriptor sz prior) (fun d => ∀ s ∈ d.attached, s.WellFormed) := by
  have hext : Safe (parseExtension sz prior) (fun ext => ∀ s ∈ ext.attached, s.WellFormed) := by
    unfold parseExtension
    split
    · exact safe_parseExtendedFields hprior
    · exact Safe.of_pure (by simp)
  refine safe_readBool.bind fun _ _ => safe_readBool.bind fun _ _ => ?_
  refine (safe_readBits (by omega)).bind fun templateId _ => ?_
  refine (safe_readBits (by omega)).bind fun _ _ => hext.bind fun ext hwf => ?_
  exact (safe_parseFrame hprior ext _ hwf).bind fun _ _ => Safe.of_pure hwf

/-- One call of the parser: it rejects or returns, and what it returns can serve as a prior
structure for the next call. -/
theorem parseDependencyDescriptor_cases (bytes : List UInt8) :
    parseDependencyDescriptor bytes prior = .error .reject ∨
      ∃ d, parseDependencyDescriptor bytes prior = .ok d ∧ ∀ s ∈ d.attached, s.WellFormed := by
  unfold parseDependencyDescriptor
  split
  · exact .inl rfl
  · rcases (safe_parseDescriptor hprior bytes.length).cases (BitReader.new bytes) with
      h | ⟨d, r, h, hd⟩
    · exact .inl (by rw [h]; rfl)
    · exact .inr ⟨d, by rw [h]; rfl, hd⟩

end Prior

/-- The prior structures a caller that only stores what the parser returned can pass: none, or one
returned by an earlier call under such a prior. -/
inductive ParserPrior : Option TemplateDependencyStructure → Prop where
  | absent : ParserPrior none
  | returned {prior : Option TemplateDependencyStructure} {bytes : List UInt8}
      {d : DependencyDescriptor} {s : TemplateDependencyStructure} :
      ParserPrior prior → parseDependencyDescriptor bytes prior = .ok d → d.attached = some s →
      ParserPrior (some s)

theorem ParserPrior.wellFormed {prior : Option TemplateDependencyStructure}
    (h : ParserPrior prior) : ∀ s ∈ prior, s.WellFormed := by
  induction h with
  | absent => simp
  | @returned prior bytes d s _ hd hs ih =>
    rcases parseDependencyDescriptor_cases ih bytes with h | ⟨d', h, hd'⟩
    · rw [h] at hd
      cases hd
    · rw [h] at hd
      cases hd
      intro s' hs'
      exact hd' s' (hs.trans hs')

/-- On every byte string the parser returns without a fault, and a structure it returns is well
formed. Running out of loop fuel is one of the faults, so this includes termination. -/
theorem parseDependencyDescriptor_safe (bytes : List UInt8)
    {prior : Option TemplateDependencyStructure} (hprior : ParserPrior prior) :
    (∀ f, parseDependencyDescriptor bytes prior ≠ .error (.fault f)) ∧
      ∀ d s, parseDependencyDescriptor bytes prior = .ok d → d.attached = some s →
        s.WellFormed := by
  rcases parseDependencyDescriptor_cases hprior.wellFormed bytes with h | ⟨d, h, hd⟩
  · simp [h]
  · rw [h]
    refine ⟨by simp, ?_⟩
    intro d' s hd' hs
    cases hd'
    exact hd s hs

/-- The structure of a key frame with a single template. -/
def oneLayerStructure : TemplateDependencyStructure where
  templateIdOffset := 0
  templateCount := 1
  dtCnt := 1
  chainCnt := 0
  maxTemporalId := 0
  maxSpatialId := 0
  templates := [{ temporalId := 0, spatialId := 0, dtis := [0], fdiffs := [], chainFdiffs := [] }]

/-- A key frame is parsed first; then every optional flag is set on a descriptor that is cut
short. -/
theorem parseDependencyDescriptor_safe_truncated :
    ParserPrior (some oneLayerStructure) ∧
      (∀ f, parseDependencyDescriptor [192, 0, 2, 127] (some oneLayerStructure) ≠
        .error (.fault f)) ∧
      ∀ d s, parseDependencyDescriptor [192, 0, 2, 127] (some oneLayerStructure) = .ok d →
        d.attached = some s → s.WellFormed :=
  have hprior : ParserPrior (some oneLayerStructure) :=
    @ParserPrior.returned none [192, 0, 1, 128, 0, 192, 64]
      ⟨true, true, 0, 1, some 0, some 0, some oneLayerStructure⟩ oneLayerStructure
      .absent (by decide +kernel) rfl
  ⟨hprior, parseDependencyDescriptor_safe _ hprior⟩

end PartnerEdge.Svc
