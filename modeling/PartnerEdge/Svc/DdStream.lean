import PartnerEdge.Svc.DdParse

/-!
# What a descriptor says on its own

The mandatory fields and the structure flag sit at fixed bit positions. A descriptor that carries a
structure is parsed without looking at the prior one; a descriptor that does not is resolved
against it. These are the facts the structure cache relies on.
-/

namespace PartnerEdge.Svc

open Parsing BitReader

/-- The number in the `w` bits at offset `off`. -/
def field (bytes : List UInt8) (off w : Nat) : Nat :=
  Bits.toNat (((Bits.ofBytes bytes).drop off).take w)

def templateIdOf (bytes : List UInt8) : Nat := field bytes 2 6

/-- The `template_dependency_structure_present_flag`, the first bit after the mandatory fields. -/
def carriesStructure (bytes : List UInt8) : Bool :=
  decide (bytes.length > 3) && field bytes 24 1 != 0

/-- The temporal id of the template that `templateId` selects. -/
def TemplateDependencyStructure.temporalIdOf (s : TemplateDependencyStructure)
    (templateId : Nat) : Option Nat :=
  s.templates[(templateId + 64 - s.templateIdOffset) % 64]?.map (·.temporalId)

theorem readBits_field {bytes : List UInt8} {off w : Nat} (hw : w ≤ 32)
    (h : off + w ≤ 8 * bytes.length) :
    readBits w ((new bytes).advance off) =
      .ok (field bytes off w, (new bytes).advance (off + w)) := by
  rw [readBits_spec hw, unread_advance, unread_new, if_neg]
  · simp [field, advance, Nat.add_assoc]
  · simp
    omega

theorem readBool_field {bytes : List UInt8} {off : Nat} (h : off + 1 ≤ 8 * bytes.length) :
    readBool ((new bytes).advance off) =
      .ok (field bytes off 1 != 0, (new bytes).advance (off + 1)) := by
  rw [readBool, bind_apply, readBits_field (by omega) h]
  rfl

theorem field_lt (bytes : List UInt8) (off w : Nat) : field bytes off w < 2 ^ w := by
  have h := Bits.toNat_lt (((Bits.ofBytes bytes).drop off).take w)
  exact h.trans_le (Nat.pow_le_pow_right (by omega) (List.length_take_le _ _))

/-- The parse behind the mandatory fields, which start at bit 24. -/
def parseBody (bytes : List UInt8) (prior : Option TemplateDependencyStructure) :
    Parser BitReader DependencyDescriptor := do
  let ext ← parseExtension bytes.length prior
  let ids ← parseFrame ext (templateIdOf bytes) prior
  return {
    startOfFrame := field bytes 0 1 != 0
    endOfFrame := field bytes 1 1 != 0
    frameDependencyTemplateId := templateIdOf bytes
    frameNumber := field bytes 8 16
    temporalId := ids.map Prod.fst
    spatialId := ids.map Prod.snd
    attached := ext.attached }

theorem parseDependencyDescriptor_eq {bytes : List UInt8} (h : 3 ≤ bytes.length)
    (prior : Option TemplateDependencyStructure) :
    parseDependencyDescriptor bytes prior =
      (parseBody bytes prior ((new bytes).advance 24)).map Prod.fst := by
  have htid : asU8 (field bytes 2 6) = templateIdOf bytes :=
    Nat.mod_eq_of_lt ((field_lt bytes 2 6).trans (by omega))
  have hfn : asU16 (field bytes 8 16) = field bytes 8 16 := Nat.mod_eq_of_lt (field_lt bytes 8 16)
  have hstart : readBool (new bytes) = .ok (field bytes 0 1 != 0, (new bytes).advance 1) :=
    @readBool_field bytes 0 (by omega)
  rw [parseDependencyDescriptor, if_neg (by omega), parseDescriptor]
  rw [bind_of_ok hstart, bind_of_ok (readBool_field (by omega)),
    bind_of_ok (readBits_field (by omega) (by omega)),
    bind_of_ok (readBits_field (by omega) (by omega)), htid, hfn]
  rfl

theorem parseDependencyDescriptor_ok {bytes : List UInt8}
    {prior : Option TemplateDependencyStructure} {d : DependencyDescriptor}
    (h : parseDependencyDescriptor bytes prior = .ok d) :
    3 ≤ bytes.length ∧ ∃ r, parseBody bytes prior ((new bytes).advance 24) = .ok (d, r) := by
  by_cases hlen : 3 ≤ bytes.length
  · rw [parseDependencyDescriptor_eq hlen] at h
    refine ⟨hlen, ?_⟩
    cases hbody : parseBody bytes prior ((new bytes).advance 24) with
    | error e => simp [hbody, Except.map] at h
    | ok x =>
      obtain ⟨d', r⟩ := x
      simp only [hbody, Except.map, Except.ok.injEq] at h
      exact ⟨r, by rw [h]⟩
  · rw [parseDependencyDescriptor, if_pos (by omega)] at h
    cases h

/-! ## The attached structure -/

theorem yields_parseAttached (present activePresent : Bool)
    (prior : Option TemplateDependencyStructure) :
    Yields (parseAttached present activePresent prior) (fun s => s.isSome = present) := by
  unfold parseAttached
  cases present with
  | true =>
    refine Yields.bind_any fun s => Yields.bind_any fun _ => Yields.bind_any fun _ => ?_
    exact Yields.bind_any fun _ => Yields.of_pure rfl
  | false =>
    rw [if_neg (by simp)]
    cases activePresent with
    | true =>
      cases prior with
      | none => exact Yields.of_reject
      | some s => exact Yields.bind_any fun _ => Yields.of_pure rfl
    | false => exact Yields.of_pure rfl

theorem parseExtension_attached {bytes : List UInt8} {prior : Option TemplateDependencyStructure}
    {ext : ExtendedFields} {r : BitReader}
    (h : parseExtension bytes.length prior ((new bytes).advance 24) = .ok (ext, r)) :
    ext.attached.isSome = carriesStructure bytes := by
  unfold parseExtension at h
  unfold carriesStructure
  split at h
  · next hlen =>
    obtain ⟨present, r₁, hpresent, h⟩ := bind_eq_ok h
    rw [readBool_field (by omega)] at hpresent
    cases hpresent
    obtain ⟨active, r₂, _, h⟩ := bind_eq_ok h
    obtain ⟨_, r₃, _, h⟩ := bind_eq_ok h
    obtain ⟨_, r₄, _, h⟩ := bind_eq_ok h
    obtain ⟨_, r₅, _, h⟩ := bind_eq_ok h
    obtain ⟨attached, r₆, hattached, h⟩ := bind_eq_ok h
    cases h
    simpa [hlen] using yields_parseAttached _ active prior _ _ _ hattached
  · next hlen =>
    cases h
    simp [hlen]

/-- With the structure flag set, the extended fields do not depend on the prior structure. -/
theorem parseExtension_of_carriesStructure {bytes : List UInt8} (h : carriesStructure bytes = true)
    (p q : Option TemplateDependencyStructure) :
    parseExtension bytes.length p ((new bytes).advance 24) =
      parseExtension bytes.length q ((new bytes).advance 24) := by
  obtain ⟨hlen, hflag⟩ : bytes.length > 3 ∧ (field bytes 24 1 != 0) = true := by
    simpa [carriesStructure] using h
  have hread := @readBool_field bytes 24 (by omega)
  rw [parseExtension, parseExtension, if_pos hlen, if_pos hlen, parseExtendedFields,
    parseExtendedFields, bind_of_ok hread, hflag, bind_of_ok hread, hflag]
  rfl

/-! ## Resolving the template -/

theorem yields_resolveTemplate (templateId : Nat) (s : TemplateDependencyStructure) :
    Yields (resolveTemplate templateId s) (fun ids => s.temporalIdOf templateId = some ids.1) := by
  unfold resolveTemplate checkedSub
  split
  · rw [pure_bind]
    dsimp only
    split
    · exact Yields.of_reject
    · unfold index
      split
      · next tpl htpl =>
        rw [pure_bind]
        exact Yields.of_pure (by simp [TemplateDependencyStructure.temporalIdOf, htpl])
      · intro r a r' h
        cases h
  · intro r a r' h
    cases h

theorem yields_parseFrame (ext : ExtendedFields) (templateId : Nat)
    (prior : Option TemplateDependencyStructure) :
    Yields (parseFrame ext templateId prior) (fun ids =>
      ids.map Prod.fst = (ext.attached.or prior).bind (·.temporalIdOf templateId)) := by
  unfold parseFrame
  split
  · next s hs =>
    refine (yields_resolveTemplate templateId s).bind fun ids hids => ?_
    exact Yields.bind_any fun _ => Yields.of_pure (by simp [hs, hids])
  · next hnone =>
    split
    · exact Yields.of_reject
    · exact Yields.of_pure (by simp [hnone])

/-- What a returned descriptor says: the temporal id of its template in the attached structure, or
else in the prior one, and a structure exactly when the flag announces it. -/
theorem parseDependencyDescriptor_returns {bytes : List UInt8}
    {prior : Option TemplateDependencyStructure} {d : DependencyDescriptor}
    (h : parseDependencyDescriptor bytes prior = .ok d) :
    d.temporalId = (d.attached.or prior).bind (·.temporalIdOf (templateIdOf bytes)) ∧
      d.attached.isSome = carriesStructure bytes := by
  obtain ⟨hlen, r, hbody⟩ := parseDependencyDescriptor_ok h
  obtain ⟨ext, r₁, hext, hbody⟩ := bind_eq_ok hbody
  obtain ⟨ids, r₂, hids, hbody⟩ := bind_eq_ok hbody
  cases hbody
  exact ⟨yields_parseFrame ext _ prior _ _ _ hids, parseExtension_attached hext⟩

/-- A descriptor that carries a structure is read the same way under every prior structure. -/
theorem parseDependencyDescriptor_of_carriesStructure {bytes : List UInt8}
    (h : carriesStructure bytes = true) (p q : Option TemplateDependencyStructure) :
    parseDependencyDescriptor bytes p = parseDependencyDescriptor bytes q := by
  have hlen : 3 ≤ bytes.length := by
    simp only [carriesStructure, Bool.and_eq_true, decide_eq_true_eq] at h
    omega
  rw [parseDependencyDescriptor_eq hlen, parseDependencyDescriptor_eq hlen, parseBody, parseBody,
    bind_apply, bind_apply, parseExtension_of_carriesStructure h p q]
  cases hext : parseExtension bytes.length q ((new bytes).advance 24) with
  | error e => rfl
  | ok x =>
    obtain ⟨ext, r⟩ := x
    have hsome := parseExtension_attached hext
    rw [h] at hsome
    obtain ⟨s, hs⟩ := Option.isSome_iff_exists.mp hsome
    have hframe : parseFrame ext (templateIdOf bytes) p =
        parseFrame ext (templateIdOf bytes) q := by
      simp [parseFrame, hs]
    simp only [hframe]

end PartnerEdge.Svc
