import PartnerEdge.Svc.DdSafety

/-!
# Decoding a written Dependency Descriptor

The sender's side of the format: what a descriptor carries on the wire, including the fields the
parser drops, and the bits it is written as, in the order of the AV1 RTP specification. Parsing
those bits gives the descriptor back.
-/

namespace PartnerEdge.Svc

open Parsing BitReader

/-- A template dependency structure with the wire fields the parser does not keep. -/
structure AttachedStructure where
  layout : TemplateDependencyStructure
  protectedBy : List Nat
  resolutions : Option (List (Nat × Nat))
  wellFormed : layout.WellFormed
  protectedByFits : 0 < layout.chainCnt →
    protectedBy.length = layout.dtCnt ∧ ∀ c ∈ protectedBy, c < layout.chainCnt
  resolutionsFit : ∀ rs ∈ resolutions, rs.length = layout.maxSpatialId + 1 ∧
    ∀ wh ∈ rs, wh.1 < 2 ^ 16 ∧ wh.2 < 2 ^ 16

structure WireDescriptor where
  startOfFrame : Bool
  endOfFrame : Bool
  templateId : Nat
  frameNumber : Nat
  attached : Option AttachedStructure
  activeTargets : Option Nat
  customDtis : Option (List Nat)
  /-- Each frame difference with its size in nibbles. -/
  customFdiffs : Option (List (Nat × Nat))
  customChains : Option (List Nat)

namespace WireDescriptor

variable (d : WireDescriptor) (prior : Option TemplateDependencyStructure)

/-- The structure the descriptor is read against. -/
def inForce : Option TemplateDependencyStructure := (d.attached.map (·.layout)).or prior

def templateIndex (s : TemplateDependencyStructure) : Nat :=
  (d.templateId + 64 - s.templateIdOffset) % 64

/-- The fields whose width or count depends on the structure in force. -/
structure Fits (s : TemplateDependencyStructure) : Prop where
  structureWellFormed : s.WellFormed
  templateIndex : d.templateIndex s < s.templateCount
  activeTargets : ∀ m ∈ d.activeTargets, m < 2 ^ s.dtCnt
  customDtis : ∀ ds ∈ d.customDtis, ds.length = s.dtCnt ∧ ∀ x ∈ ds, x < 4
  customFdiffs : ∀ fs ∈ d.customFdiffs, ∀ f ∈ fs, (1 ≤ f.1 ∧ f.1 ≤ 3) ∧ f.2 < 2 ^ (4 * f.1)
  customChains : ∀ cs ∈ d.customChains, cs.length = s.chainCnt ∧ ∀ x ∈ cs, x < 256

/-- No extended field is present. -/
structure Short : Prop where
  attached : d.attached = none
  activeTargets : d.activeTargets = none
  customDtis : d.customDtis = none
  customFdiffs : d.customFdiffs = none
  customChains : d.customChains = none

structure WellFormed : Prop where
  templateId : d.templateId < 64
  frameNumber : d.frameNumber < 2 ^ 16
  fits : ∀ s ∈ d.inForce prior, d.Fits s
  /-- Without a structure the extended fields have no defined width. -/
  short : d.inForce prior = none → d.Short

/-- What the parser should make of the descriptor. -/
def parsed : DependencyDescriptor where
  startOfFrame := d.startOfFrame
  endOfFrame := d.endOfFrame
  frameDependencyTemplateId := d.templateId
  frameNumber := d.frameNumber
  temporalId := (d.inForce prior).bind fun s =>
    s.templates[d.templateIndex s]?.map (·.temporalId)
  spatialId := (d.inForce prior).bind fun s =>
    s.templates[d.templateIndex s]?.map (·.spatialId)
  attached := d.attached.map (·.layout)

end WireDescriptor

/-! ## Writing -/

def nextLayerIdc (a b : Nat × Nat) : Nat :=
  if b = a then 0 else if b.1 = a.1 then 1 else 2

/-- `template_layers()` from the layer `a` on. -/
def encodeLayersFrom (a : Nat × Nat) : List (Nat × Nat) → List Bool
  | [] => Bits.ofNat 2 3
  | b :: layers => Bits.ofNat 2 (nextLayerIdc a b) ++ encodeLayersFrom b layers

def encodeLayers (layers : List (Nat × Nat)) : List Bool :=
  encodeLayersFrom (0, 0) layers.tail

def encodeTemplateFdiffs : List Nat → List Bool
  | [] => [false]
  | fdiff :: fdiffs => [true] ++ (Bits.ofNat 4 (fdiff - 1) ++ encodeTemplateFdiffs fdiffs)

def encodeChains (a : AttachedStructure) : List Bool :=
  if a.layout.chainCnt > 0 then
    a.protectedBy.flatMap (Bits.encodeNs a.layout.chainCnt) ++
      a.layout.templates.flatMap fun t => t.chainFdiffs.flatMap (Bits.ofNat 4)
  else []

def encodeResolution (wh : Nat × Nat) : List Bool := Bits.ofNat 16 wh.1 ++ Bits.ofNat 16 wh.2

/-- `template_dependency_structure()`. -/
def encodeStructure (a : AttachedStructure) : List Bool :=
  let s := a.layout
  Bits.ofNat 6 s.templateIdOffset ++ (Bits.ofNat 5 (s.dtCnt - 1) ++
  (encodeLayers (s.templates.map (·.layer)) ++
  ((s.templates.flatMap fun t => t.dtis.flatMap (Bits.ofNat 2)) ++
  ((s.templates.flatMap fun t => encodeTemplateFdiffs t.fdiffs) ++
  (Bits.encodeNs (s.dtCnt + 1) s.chainCnt ++ (encodeChains a ++
  ([a.resolutions.isSome] ++ a.resolutions.elim [] fun rs => rs.flatMap encodeResolution)))))))

def encodeFrameFdiffs : List (Nat × Nat) → List Bool
  | [] => Bits.ofNat 2 0
  | f :: fs => Bits.ofNat 2 f.1 ++ (Bits.ofNat (4 * f.1) f.2 ++ encodeFrameFdiffs fs)

namespace WireDescriptor

variable (d : WireDescriptor) (prior : Option TemplateDependencyStructure)

/-- `mandatory_descriptor_fields()`. -/
def encodeMandatory : List Bool :=
  [d.startOfFrame] ++ ([d.endOfFrame] ++ (Bits.ofNat 6 d.templateId ++ Bits.ofNat 16 d.frameNumber))

def encodeActiveTargets : List Bool :=
  d.activeTargets.elim [] (Bits.ofNat ((d.inForce prior).elim 0 (·.dtCnt)))

/-- `frame_dependency_definition()`. -/
def encodeFrame : List Bool :=
  d.customDtis.elim [] (·.flatMap (Bits.ofNat 2)) ++ (d.customFdiffs.elim [] encodeFrameFdiffs ++
    d.customChains.elim [] (·.flatMap (Bits.ofNat 8)))

/-- `extended_descriptor_fields()`. -/
def encodeExtendedFields : List Bool :=
  [d.attached.isSome] ++ ([d.activeTargets.isSome] ++ ([d.customDtis.isSome] ++
  ([d.customFdiffs.isSome] ++ ([d.customChains.isSome] ++
  (d.attached.elim [] encodeStructure ++ d.encodeActiveTargets prior)))))

/-- `bytes` carry the descriptor: three bytes and no extended field, or the extended form followed
by arbitrary padding and further bytes. -/
def WrittenAs (bytes : List UInt8) : Prop :=
  (d.Short ∧ Bits.ofBytes bytes = d.encodeMandatory) ∨
    ∃ tail, Bits.ofBytes bytes =
      d.encodeMandatory ++ (d.encodeExtendedFields prior ++ (d.encodeFrame ++ tail))

end WireDescriptor

/-! ## Reading back the structure -/

theorem IsMax.unique {m m' : Nat} {xs : List Nat} (h : IsMax m xs) (h' : IsMax m' xs) : m = m' :=
  Nat.le_antisymm (h'.le h.1) (h.le h'.1)

theorem LayerWalk.unique {layers : List (Nat × Nat)} {m m' n n' : Nat} (h : LayerWalk layers m n)
    (h' : LayerWalk layers m' n') : m = m' ∧ n = n' :=
  ⟨h.maxTemporal.unique h'.maxTemporal, h.maxSpatial.unique h'.maxSpatial⟩

theorem nextLayer_nextLayerIdc {c : LayerCursor} {b : Nat × Nat}
    (h : LayerStep (c.spatialId, c.temporalId) b) (hmax : c.temporalId ≤ c.maxTemporalId)
    (hs : c.spatialId < 255) (ht : c.temporalId < 255) :
    nextLayerIdc (c.spatialId, c.temporalId) b < 3 ∧
    nextLayer (nextLayerIdc (c.spatialId, c.temporalId) b) c =
      pure ⟨b.1, b.2, max c.maxTemporalId b.2⟩ := by
  obtain ⟨spatialId, temporalId, maxTemporalId⟩ := c
  simp only at hmax hs ht
  rcases h with rfl | rfl | rfl
  · simp [nextLayerIdc, nextLayer, Nat.max_eq_left hmax]
  · simp only [nextLayerIdc, nextLayer, Prod.mk.injEq, Nat.add_eq_left, Nat.one_ne_zero, and_false,
      if_false, if_true, addOrReject_of_lt (show temporalId + 1 < 2 ^ 8 by omega), pure_bind]
    refine ⟨by omega, ?_⟩
    congr 2
    split <;> omega
  · simp [nextLayerIdc, nextLayer, addOrReject_of_lt (show spatialId + 1 < 2 ^ 8 by omega)]

theorem consumes_templateLayersLoop {fuel : Nat} {ts rest : List (Nat × Nat)} {c : LayerCursor}
    {m n : Nat} (hfuel : rest.length < fuel) (hlen : ts.length + rest.length < 64)
    (hs : c.spatialId ≤ ts.length) (ht : c.temporalId ≤ ts.length)
    (hc : LayerWalk (ts ++ [(c.spatialId, c.temporalId)]) c.maxTemporalId c.spatialId)
    (h : LayerWalk (ts ++ (c.spatialId, c.temporalId) :: rest) m n) :
    Consumes unread (templateLayersLoop fuel ts c)
      (encodeLayersFrom (c.spatialId, c.temporalId) rest)
      (ts ++ (c.spatialId, c.temporalId) :: rest, m, n) := by
  induction rest generalizing fuel ts c with
  | nil =>
    obtain ⟨rfl, rfl⟩ := h.unique hc
    obtain ⟨fuel, rfl⟩ := Nat.exists_eq_succ_of_ne_zero (Nat.ne_of_gt hfuel)
    exact (consumes_readBits (w := 2) (v := 3) (by omega) (by omega)).bind_pure rfl
  | cons b rest ih =>
    obtain ⟨fuel, rfl⟩ := Nat.exists_eq_succ_of_ne_zero (Nat.ne_of_gt (Nat.zero_lt_of_lt hfuel))
    simp only [List.length_cons] at hfuel hlen
    have hstep : LayerStep (c.spatialId, c.temporalId) b := by
      have := (List.isChain_append.mp h.steps).2.1
      exact (List.isChain_cons_cons.mp this).1
    have hmax : c.temporalId ≤ c.maxTemporalId := hc.maxTemporal.le (by simp)
    obtain ⟨hidc, hnext⟩ := nextLayer_nextLayerIdc hstep hmax (by omega) (by omega)
    have hb : b.1 ≤ c.spatialId + 1 ∧ b.2 ≤ c.temporalId + 1 := by
      rcases hstep with rfl | rfl | rfl <;> simp
    refine (consumes_readBits (w := 2) (by omega) (by omega)).bind ?_
    rw [if_neg (by omega), hnext, pure_bind, if_neg (by simp; omega)]
    have happ : ts ++ (c.spatialId, c.temporalId) :: b :: rest =
        ts ++ [(c.spatialId, c.temporalId)] ++ b :: rest := by simp
    rw [happ] at h ⊢
    exact ih (c := ⟨b.1, b.2, _⟩) (by omega) (by simp; omega) (by simp; omega) (by simp; omega)
      (hc.snoc hstep) h

theorem consumes_parseTemplateLayers {layers : List (Nat × Nat)} {m n : Nat}
    (h : LayerWalk layers m n) (hlen : layers.length ≤ 64) :
    Consumes unread parseTemplateLayers (encodeLayers layers) (layers, m, n) := by
  cases layers with
  | nil => cases h.start
  | cons a rest =>
    obtain rfl : a = (0, 0) := by simpa using h.start
    rw [List.length_cons] at hlen
    exact @consumes_templateLayersLoop 64 [] rest ⟨0, 0, 0⟩ m n (by omega) (by simp; omega)
      (by simp) (by simp) ⟨rfl, List.isChain_singleton _, by simp [IsMax], by simp [IsMax]⟩ h

theorem consumes_templateFdiffsLoop {fuel : Nat} {acc fdiffs : List Nat}
    (hfuel : fdiffs.length < fuel) (hlen : acc.length + fdiffs.length ≤ 7)
    (h : ∀ d ∈ fdiffs, 1 ≤ d ∧ d ≤ 16) :
    Consumes unread (do let follows ← readBool; templateFdiffsLoop fuel acc follows)
      (encodeTemplateFdiffs fdiffs) (acc ++ fdiffs) := by
  induction fdiffs generalizing fuel acc with
  | nil =>
    obtain ⟨fuel, rfl⟩ := Nat.exists_eq_succ_of_ne_zero (Nat.ne_of_gt hfuel)
    rw [List.append_nil]
    exact (consumes_readBool false).bind_pure rfl
  | cons fdiff fdiffs ih =>
    obtain ⟨fuel, rfl⟩ := Nat.exists_eq_succ_of_ne_zero (Nat.ne_of_gt (Nat.zero_lt_of_lt hfuel))
    simp only [List.length_cons] at hfuel hlen
    obtain ⟨hpos, hle⟩ := h fdiff (by simp)
    refine (consumes_readBool true).bind ?_
    refine (consumes_readBits (w := 4) (v := fdiff - 1) (by omega) (by omega)).bind ?_
    have hcast : asU8 (fdiff - 1) = fdiff - 1 := Nat.mod_eq_of_lt (by omega)
    rw [hcast, addOrReject_of_lt (by omega), pure_bind, Nat.sub_add_cancel hpos]
    have hroom : ¬ (acc ++ [fdiff]).length ≥ 8 := by simp; omega
    have happ : acc ++ fdiff :: fdiffs = acc ++ [fdiff] ++ fdiffs := by simp
    simp only [hroom, if_false]
    rw [happ]
    exact ih (by omega) (by simp; omega) fun d hd => h d (by simp [hd])

theorem consumes_parseTemplateFdiffs {fdiffs : List Nat} (hlen : fdiffs.length ≤ 7)
    (h : ∀ d ∈ fdiffs, 1 ≤ d ∧ d ≤ 16) :
    Consumes unread parseTemplateFdiffs (encodeTemplateFdiffs fdiffs) fdiffs :=
  @consumes_templateFdiffsLoop 8 [] fdiffs (by omega) (by simpa using hlen) h

theorem consumes_readU8 {w v : Nat} (hw : w ≤ 8) (hv : v < 2 ^ w) :
    Consumes unread (readU8 w) (Bits.ofNat w v) v := by
  have hpow : 2 ^ w ≤ 2 ^ 8 := Nat.pow_le_pow_right (by omega) hw
  have h := (consumes_readBits (w := w) (by omega) hv).map asU8
  rwa [asU8, Nat.mod_eq_of_lt (by omega)] at h

/-- Repeated fixed-width fields are read back as the list that was written. -/
theorem consumes_times {p : Nat → Parser BitReader Nat} {w n : Nat} {vs : List Nat}
    (hlen : vs.length = n) (h : ∀ v ∈ vs, Consumes unread (p w) (Bits.ofNat w v) v) :
    Consumes unread (times n (p w)) (vs.flatMap (Bits.ofNat w)) vs := by
  subst hlen
  exact Consumes.times h

theorem consumes_parseTemplateDtis {s : TemplateDependencyStructure} (hs : s.WellFormed) :
    Consumes unread (parseTemplateDtis s.dtCnt ((s.templates.map (·.layer)).map .ofLayer))
      (s.templates.flatMap fun t => t.dtis.flatMap (Bits.ofNat 2))
      (s.templates.map fun t => { t with fdiffs := [], chainFdiffs := [] }) := by
  rw [List.map_map]
  refine Consumes.forEach fun t ht => ?_
  obtain ⟨hlen, hlt⟩ := (hs.templates t ht).dtis
  exact (consumes_times hlen fun v hv => consumes_readU8 (by omega) (hlt v hv)).map _

theorem consumes_parseAllTemplateFdiffs {s : TemplateDependencyStructure} (hs : s.WellFormed) :
    Consumes unread
      (parseAllTemplateFdiffs (s.templates.map fun t => { t with fdiffs := [], chainFdiffs := [] }))
      (s.templates.flatMap fun t => encodeTemplateFdiffs t.fdiffs)
      (s.templates.map fun t => { t with chainFdiffs := [] }) := by
  refine Consumes.forEach fun t ht => ?_
  obtain ⟨hlen, hrange⟩ := (hs.templates t ht).fdiffs
  exact (consumes_parseTemplateFdiffs hlen hrange).map _

theorem consumes_parseTemplateChains (a : AttachedStructure) :
    Consumes unread
      (parseTemplateChains a.layout.dtCnt a.layout.chainCnt
        (a.layout.templates.map fun t => { t with chainFdiffs := [] }))
      (encodeChains a) a.layout.templates := by
  have hs := a.wellFormed
  have hle := hs.dtCntRange.2
  have hchain := hs.chainCnt
  unfold parseTemplateChains encodeChains
  split
  · next hpos =>
    obtain ⟨hlen, hlt⟩ := a.protectedByFits hpos
    have hprotected : Consumes unread (times a.protectedBy.length (readNs a.layout.chainCnt))
        (a.protectedBy.flatMap (Bits.encodeNs a.layout.chainCnt)) a.protectedBy :=
      Consumes.times fun v hv => consumes_readNs (by omega) (hlt v hv)
    rw [hlen] at hprotected
    refine hprotected.bind ?_
    suffices hblock : Consumes unread
        (forEach (a.layout.templates.map fun t => { t with chainFdiffs := [] }) fun tpl => do
          let chainFdiffs ← times a.layout.chainCnt (readU8 4)
          return { tpl with chainFdiffs := chainFdiffs })
        (a.layout.templates.flatMap fun t => t.chainFdiffs.flatMap (Bits.ofNat 4))
        (a.layout.templates.map id) by
      rwa [List.map_id] at hblock
    refine Consumes.forEach fun t ht => ?_
    obtain ⟨hlen, hlt⟩ := (hs.templates t ht).chainFdiffs
    exact (consumes_times hlen fun v hv => consumes_readU8 (by omega) (hlt v hv)).map _
  · next h0 =>
    -- Without chains the templates were complete after the previous block.
    have hid : ∀ t ∈ a.layout.templates,
        ({ t with chainFdiffs := [] } : FrameDependencyTemplate) = id t := by
      intro t ht
      have hnil : t.chainFdiffs = [] := by
        rw [← List.length_eq_zero_iff, (hs.templates t ht).chainFdiffs.1]
        omega
      rw [← hnil]
      rfl
    rw [List.map_congr_left hid, List.map_id]
    exact Consumes.of_pure _

theorem consumes_parseResolutions (a : AttachedStructure) :
    Consumes unread (parseResolutions a.layout.maxSpatialId)
      ([a.resolutions.isSome] ++
        a.resolutions.elim [] fun rs => rs.flatMap encodeResolution) () := by
  refine (consumes_readBool _).bind ?_
  refine (Consumes.optionally fun rs hrs => ?_).map fun _ => ()
  obtain ⟨hlen, hlt⟩ := a.resolutionsFit rs hrs
  rw [← hlen]
  refine Consumes.times fun wh hwh => ?_
  obtain ⟨hw, hh⟩ := hlt wh hwh
  refine (consumes_readBits (w := 16) (by omega) hw).bind ?_
  exact (consumes_readBits (w := 16) (by omega) hh).map (Prod.mk wh.1)

theorem consumes_parseTemplateDependencyStructure (a : AttachedStructure) :
    Consumes unread parseTemplateDependencyStructure (encodeStructure a) a.layout := by
  have hs := a.wellFormed
  obtain ⟨hpos, hle⟩ := hs.dtCntRange
  obtain ⟨hcpos, hcle⟩ := hs.countRange
  have hlen : (a.layout.templates.map (·.layer)).length = a.layout.templateCount := by
    rw [List.length_map, hs.count]
  refine (consumes_readU8 (w := 6) (by omega) hs.offset).bind ?_
  refine (consumes_readU8 (w := 5) (by omega) (by omega)).bind ?_
  rw [addOrReject_of_lt (by omega), pure_bind, Nat.sub_add_cancel hpos, if_neg (by omega)]
  refine (consumes_parseTemplateLayers hs.walk (by omega)).bind ?_
  have hcast : asU8 (a.layout.templates.map (·.layer)).length = a.layout.templateCount := by
    rw [hlen]
    exact Nat.mod_eq_of_lt (by omega)
  simp only [hcast]
  rw [if_neg (by omega)]
  refine (consumes_parseTemplateDtis hs).bind ?_
  refine (consumes_parseAllTemplateFdiffs hs).bind ?_
  have hchain := hs.chainCnt
  refine (consumes_readNs (n := a.layout.dtCnt + 1) (by omega) (by omega)).bind ?_
  have hccast : asU8 a.layout.chainCnt = a.layout.chainCnt := Nat.mod_eq_of_lt (by omega)
  rw [hccast]
  refine (consumes_parseTemplateChains a).bind ?_
  exact (consumes_parseResolutions a).map fun _ => a.layout

/-! ## Reading back the frame -/

theorem length_encodeFrameFdiffs (fs : List (Nat × Nat)) :
    fs.length < (encodeFrameFdiffs fs).length := by
  induction fs with
  | nil => simp [encodeFrameFdiffs]
  | cons f fs ih =>
    simp only [encodeFrameFdiffs, List.length_append, Bits.length_ofNat, List.length_cons]
    omega

theorem consumes_frameFdiffsLoop {fuel : Nat} {fs : List (Nat × Nat)} (hfuel : fs.length < fuel)
    (h : ∀ f ∈ fs, (1 ≤ f.1 ∧ f.1 ≤ 3) ∧ f.2 < 2 ^ (4 * f.1)) :
    Consumes unread (frameFdiffsLoop fuel) (encodeFrameFdiffs fs) () := by
  induction fs generalizing fuel with
  | nil =>
    obtain ⟨fuel, rfl⟩ := Nat.exists_eq_succ_of_ne_zero (Nat.ne_of_gt hfuel)
    exact (consumes_readBits (w := 2) (v := 0) (by omega) (by omega)).bind_pure rfl
  | cons f fs ih =>
    obtain ⟨fuel, rfl⟩ := Nat.exists_eq_succ_of_ne_zero (Nat.ne_of_gt (Nat.zero_lt_of_lt hfuel))
    obtain ⟨⟨hpos, hle⟩, hlt⟩ := h f (by simp)
    refine (consumes_readBits (w := 2) (by omega) (by omega)).bind ?_
    rw [if_neg (by omega)]
    refine (consumes_readBits (w := 4 * f.1) (by omega) hlt).bind ?_
    exact ih (by simpa using hfuel) fun g hg => h g (by simp [hg])

theorem consumes_frameFdiffs {fs : List (Nat × Nat)}
    (h : ∀ f ∈ fs, (1 ≤ f.1 ∧ f.1 ≤ 3) ∧ f.2 < 2 ^ (4 * f.1)) :
    Consumes unread frameFdiffs (encodeFrameFdiffs fs) () := by
  intro r rest hr
  have hfuel : fs.length < r.remaining + 1 := by
    have := length_encodeFrameFdiffs fs
    rw [← length_unread, hr, List.length_append]
    omega
  exact consumes_frameFdiffsLoop hfuel h r rest hr

namespace WireDescriptor

variable {d : WireDescriptor} {prior : Option TemplateDependencyStructure}

/-- The flags and the attached structure the extended fields leave behind. -/
def extendedFields (d : WireDescriptor) : ExtendedFields where
  attached := d.attached.map (·.layout)
  customDtisFlag := d.customDtis.isSome
  customFdiffsFlag := d.customFdiffs.isSome
  customChainsFlag := d.customChains.isSome

theorem consumes_parseOverrides {s : TemplateDependencyStructure} (h : d.Fits s) :
    Consumes unread (parseOverrides d.extendedFields s) d.encodeFrame () := by
  refine (Consumes.optionally fun ds hds => ?_).bind ?_
  · obtain ⟨hlen, hlt⟩ := h.customDtis ds hds
    exact consumes_times hlen fun v hv => consumes_readBits (by omega) (hlt v hv)
  have hfdiffs : Consumes unread (optionally d.customFdiffs.isSome frameFdiffs)
      (d.customFdiffs.elim [] encodeFrameFdiffs) (d.customFdiffs.map fun _ => ()) := by
    have hf := h.customFdiffs
    cases hcf : d.customFdiffs with
    | none => exact Consumes.of_pure none
    | some fs => exact (consumes_frameFdiffs (hf fs hcf)).map some
  refine hfdiffs.bind ?_
  refine (Consumes.optionally fun cs hcs => ?_).map fun _ => ()
  obtain ⟨hlen, hlt⟩ := h.customChains cs hcs
  exact consumes_times hlen fun v hv => consumes_readBits (by omega) (hlt v hv)

theorem resolveTemplate_eq {s : TemplateDependencyStructure} (h : d.Fits s) :
    ∃ t, s.templates[d.templateIndex s]? = some t ∧
      resolveTemplate d.templateId s = pure (t.temporalId, t.spatialId) := by
  have hidx := h.templateIndex
  have hoffset := h.structureWellFormed.offset
  have hlt := hidx
  rw [h.structureWellFormed.count] at hlt
  refine ⟨_, List.getElem?_eq_getElem hlt, ?_⟩
  unfold resolveTemplate
  rw [checkedSub_of_le (by omega), pure_bind]
  dsimp only
  rw [if_neg (by unfold templateIndex at hidx; omega)]
  have hget := List.getElem?_eq_getElem hlt
  unfold templateIndex at hget
  rw [index_of_getElem? hget, pure_bind]
  rfl

theorem consumes_activeTargets {s : TemplateDependencyStructure} (h : d.Fits s)
    (hs : d.inForce prior = some s) :
    Consumes unread (optionally d.activeTargets.isSome (readBits s.dtCnt))
      (d.encodeActiveTargets prior) d.activeTargets := by
  have hle := h.structureWellFormed.dtCntRange.2
  unfold encodeActiveTargets
  rw [hs]
  exact Consumes.optionally fun m hm => consumes_readBits (by omega) (h.activeTargets m hm)

theorem consumes_parseAttached (h : d.WellFormed prior) :
    Consumes unread (parseAttached d.attached.isSome d.activeTargets.isSome prior)
      (d.attached.elim [] encodeStructure ++ d.encodeActiveTargets prior)
      (d.attached.map (·.layout)) := by
  unfold parseAttached
  cases ha : d.attached with
  | some a =>
    have hforce : d.inForce prior = some a.layout := by simp [inForce, ha]
    have hfits := h.fits _ hforce
    obtain ⟨hpos, hle⟩ := hfits.structureWellFormed.dtCntRange
    have hpow : 2 ^ a.layout.dtCnt ≤ 2 ^ 31 := Nat.pow_le_pow_right (by omega) hle
    refine (consumes_parseTemplateDependencyStructure a).bind ?_
    rw [checkedShl_of_lt (by omega) (by omega), pure_bind,
      checkedSub_of_le (by rw [Nat.one_mul]; exact Nat.one_le_two_pow), pure_bind]
    exact (consumes_activeTargets hfits hforce).map fun _ => some a.layout
  | none =>
    have hforce : d.inForce prior = prior := by simp [inForce, ha]
    rw [if_neg (by simp)]
    cases hprior : prior with
    | none =>
      rw [hprior] at hforce h
      have hnone : Consumes unread (pure none) [] (none : Option TemplateDependencyStructure) :=
        Consumes.of_pure none
      simpa [encodeActiveTargets, (h.short hforce).activeTargets] using hnone
    | some s =>
      rw [hprior] at hforce h
      have hactive := (consumes_activeTargets (h.fits s hforce) hforce).map
        fun _ => (none : Option TemplateDependencyStructure)
      -- The match on the flag in the source is `optionally` with its result dropped.
      cases hm : d.activeTargets with
      | none => simpa [hm, optionally] using hactive
      | some m => simpa [hm, optionally] using hactive

theorem consumes_parseExtendedFields (h : d.WellFormed prior) :
    Consumes unread (parseExtendedFields prior) (d.encodeExtendedFields prior)
      d.extendedFields := by
  refine (consumes_readBool _).bind <| (consumes_readBool _).bind <| (consumes_readBool _).bind <|
    (consumes_readBool _).bind <| (consumes_readBool _).bind ?_
  exact (consumes_parseAttached h).map fun attached =>
    { d.extendedFields with attached := attached }

theorem encodeFrame_of_short (h : d.Short) : d.encodeFrame = [] := by
  simp [encodeFrame, h.customDtis, h.customFdiffs, h.customChains]

theorem extendedFields_of_short (h : d.Short) :
    d.extendedFields = ⟨none, false, false, false⟩ := by
  simp [extendedFields, h.attached, h.customDtis, h.customFdiffs, h.customChains]

/-- The layer ids of the frame's template in the structure in force. -/
def layerIds (d : WireDescriptor) (prior : Option TemplateDependencyStructure) :
    Option (Nat × Nat) :=
  (d.inForce prior).bind fun s =>
    s.templates[d.templateIndex s]?.map fun t => (t.temporalId, t.spatialId)

theorem consumes_parseFrame (h : d.WellFormed prior) :
    Consumes unread (parseFrame d.extendedFields d.templateId prior) d.encodeFrame
      (d.layerIds prior) := by
  have hforce : d.extendedFields.attached.or prior = d.inForce prior := rfl
  unfold parseFrame
  rw [hforce]
  cases hs : d.inForce prior with
  | none =>
    have hshort := h.short hs
    rw [encodeFrame_of_short hshort, extendedFields_of_short hshort]
    have hnone : Consumes unread (pure none) [] (none : Option (Nat × Nat)) := Consumes.of_pure none
    simpa [layerIds, hs] using hnone
  | some s =>
    have hfits := h.fits s hs
    obtain ⟨t, ht, hresolve⟩ := resolveTemplate_eq hfits
    have hids : d.layerIds prior = some (t.temporalId, t.spatialId) := by simp [layerIds, hs, ht]
    simp only [hresolve, pure_bind]
    rw [hids]
    exact (consumes_parseOverrides hfits).map fun _ => some (t.temporalId, t.spatialId)

/-- The parser on a reader that holds the mandatory fields, given how the extension is read. -/
theorem consumes_parseDescriptor {sz : Nat} {bits : List Bool} (h : d.WellFormed prior)
    (hext : Consumes unread (parseExtension sz prior) bits d.extendedFields) :
    Consumes unread (parseDescriptor sz prior) (d.encodeMandatory ++ (bits ++ d.encodeFrame))
      (d.parsed prior) := by
  have htid : asU8 d.templateId = d.templateId := Nat.mod_eq_of_lt (by have := h.templateId; omega)
  have hfn : asU16 d.frameNumber = d.frameNumber := Nat.mod_eq_of_lt h.frameNumber
  have hparsed : d.parsed prior = {
      startOfFrame := d.startOfFrame
      endOfFrame := d.endOfFrame
      frameDependencyTemplateId := d.templateId
      frameNumber := d.frameNumber
      temporalId := (d.layerIds prior).map Prod.fst
      spatialId := (d.layerIds prior).map Prod.snd
      attached := d.extendedFields.attached } := by
    cases hs : d.inForce prior <;>
      simp [parsed, layerIds, extendedFields, hs, Option.map_map, Function.comp_def]
  unfold encodeMandatory
  simp only [List.append_assoc]
  refine (consumes_readBool _).bind <| (consumes_readBool _).bind ?_
  refine (consumes_readBits (w := 6) (by omega) h.templateId).bind ?_
  refine (consumes_readBits (w := 16) (by omega) h.frameNumber).bind <| hext.bind ?_
  rw [htid, hfn, hparsed]
  exact (consumes_parseFrame h).map _

end WireDescriptor

/-- Decoding inverts encoding: the bits of a well-formed descriptor, with any padding and further
bytes, parse to that descriptor under the same prior structure. -/
theorem parseDependencyDescriptor_encode (d : WireDescriptor)
    (prior : Option TemplateDependencyStructure) (bytes : List UInt8) (h : d.WellFormed prior)
    (hbytes : d.WrittenAs prior bytes) :
    parseDependencyDescriptor bytes prior = .ok (d.parsed prior) := by
  have hlen := Bits.length_ofBytes bytes
  have hmandatory : d.encodeMandatory.length = 24 := by simp [WireDescriptor.encodeMandatory]
  unfold parseDependencyDescriptor
  rcases hbytes with ⟨hshort, hbits⟩ | ⟨tail, hbits⟩
  · have h3 : bytes.length = 3 := by
      rw [hbits, hmandatory] at hlen
      omega
    have hext : Consumes unread (parseExtension bytes.length prior) [] d.extendedFields := by
      rw [h3, WireDescriptor.extendedFields_of_short hshort]
      exact Consumes.of_pure _
    obtain ⟨r, hr, _⟩ := WireDescriptor.consumes_parseDescriptor h hext (BitReader.new bytes) []
      (by simp [hbits, WireDescriptor.encodeFrame_of_short hshort])
    rw [if_neg (by omega), hr]
    rfl
  · have h3 : bytes.length > 3 := by
      rw [hbits, List.length_append, hmandatory] at hlen
      simp only [WireDescriptor.encodeExtendedFields, List.length_append, List.length_singleton]
        at hlen
      omega
    have hext : Consumes unread (parseExtension bytes.length prior) (d.encodeExtendedFields prior)
        d.extendedFields := by
      rw [parseExtension, if_pos h3]
      exact WireDescriptor.consumes_parseExtendedFields h
    obtain ⟨r, hr, _⟩ := WireDescriptor.consumes_parseDescriptor h hext (BitReader.new bytes) tail
      (by simp [hbits])
    rw [if_neg (by omega), hr]
    rfl

/-- Two temporal layers over one chain. -/
def twoLayerStructure : AttachedStructure where
  layout := {
    templateIdOffset := 60
    templateCount := 2
    dtCnt := 2
    chainCnt := 1
    maxTemporalId := 1
    maxSpatialId := 0
    templates := [
      { temporalId := 0, spatialId := 0, dtis := [2, 3], fdiffs := [], chainFdiffs := [0] },
      { temporalId := 1, spatialId := 0, dtis := [0, 2], fdiffs := [1], chainFdiffs := [1] }] }
  protectedBy := [0, 0]
  resolutions := some [(640, 360)]
  wellFormed := {
    offset := by decide
    count := by decide
    countRange := by decide
    dtCntRange := by decide
    chainCnt := by decide
    templates := by
      intro t ht
      fin_cases ht <;> exact ⟨by decide, by decide, by decide⟩
    walk := ⟨by decide, by decide, by decide, by decide⟩ }
  protectedByFits := by decide
  resolutionsFit := by decide

/-- A key frame that uses every optional field. -/
def fullDescriptor : WireDescriptor where
  startOfFrame := true
  endOfFrame := true
  templateId := 61
  frameNumber := 7
  attached := some twoLayerStructure
  activeTargets := some 3
  customDtis := some [1, 2]
  customFdiffs := some [(1, 5)]
  customChains := some [9]

theorem fullDescriptor_wellFormed : fullDescriptor.WellFormed none where
  templateId := by decide
  frameNumber := by decide
  fits := by
    intro s hs
    cases hs
    exact ⟨twoLayerStructure.wellFormed, by decide, by decide, by decide, by decide, by decide⟩
  short := by simp [WireDescriptor.inForce, fullDescriptor]

/-- Four padding bits and one further byte follow the descriptor. -/
theorem fullDescriptor_decodes :
    parseDependencyDescriptor
      [253, 0, 7, 255, 129, 123, 36, 16, 12, 10, 0, 5, 163, 101, 64, 150, 255] none =
        .ok (fullDescriptor.parsed none) :=
  parseDependencyDescriptor_encode fullDescriptor none _ fullDescriptor_wellFormed
    (.inr ⟨[false, true, true, false] ++ List.replicate 8 true, by decide +kernel⟩)

end PartnerEdge.Svc
