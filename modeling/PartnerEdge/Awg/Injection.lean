import PartnerEdge.Awg.Resolve

/-!
# The merge writes its own lines only

Whatever the payload, the output is the conf with lines of table keys rewritten for the same key and
one block of new keys below the first `[Interface]` header.
-/

namespace PartnerEdge.Awg

open Text

/-! ## Written values -/

theorem notMem_forbidden_of_isDigit {c : Char} (h : c.isDigit = true ∨ c = '-') :
    c ∉ forbiddenConfChars := by
  intro hmem
  simp only [forbiddenConfChars, List.mem_cons, List.not_mem_nil, or_false] at hmem
  rcases hmem with rfl | rfl | rfl | rfl <;> simp at h

theorem notMem_forbidden_showI64 {n : Int64} {c : Char} (h : c ∈ showI64 n) :
    c ∉ forbiddenConfChars :=
  notMem_forbidden_of_isDigit (mem_showI64 h)

/-- Every validator of a string starts with the forbidden characters. -/
theorem notMem_forbidden_of_bind {α : Type} {field : Field} {value : Str}
    {next : Unit → Except Rejection α} {x : α}
    (h : (validateConfString field value >>= next) = .ok x) :
    ∀ c ∈ value, c ∉ forbiddenConfChars := by
  obtain ⟨_, hguard, _⟩ := exists_of_bind_ok h
  exact validateConfString_ok hguard

theorem FieldSpec.notMem_forbidden_text {base64 : Base64} {spec : FieldSpec} {v : FieldValue}
    (h : spec.validate base64 v = .ok ()) : ∀ c ∈ v.text, c ∉ forbiddenConfChars := by
  cases v with
  | int n => exact fun c hc => notMem_forbidden_showI64 hc
  | range lo hi =>
    intro c hc
    simp only [FieldValue.text] at hc
    split at hc
    · exact notMem_forbidden_showI64 hc
    · rcases List.mem_append.mp hc with hc | hc
      · exact notMem_forbidden_showI64 hc
      · rcases List.mem_cons.mp hc with rfl | hc
        · exact notMem_forbidden_of_isDigit (.inr rfl)
        · exact notMem_forbidden_showI64 hc
  | bool b => cases b <;> simp [FieldValue.text, forbiddenConfChars]
  | str s =>
    unfold FieldSpec.validate at h
    cases hkind : spec.kind with
    | rangeString =>
      simp only [hkind] at h
      exact notMem_forbidden_of_bind h
    | tagLiteral =>
      simp only [hkind] at h
      exact notMem_forbidden_of_bind h
    | headerProtectionKey =>
      simp only [hkind] at h
      cases hdecode : decodeHpk base64 spec.field s with
      | error e =>
        rw [hdecode] at h
        cases h
      | ok bytes => exact notMem_forbidden_of_bind hdecode
    | sInt => simp [hkind] at h
    | hRange => simp [hkind] at h
    | onOff => simp [hkind] at h
    | junkCount => simp [hkind] at h

/-! ## Lines -/

/-- The line is of the key: the key, blanks and an equals sign. -/
def FieldSpec.IsLine (spec : FieldSpec) (l : Str) : Prop := (captureField spec.key l).isSome = true

instance (spec : FieldSpec) (l : Str) : Decidable (spec.IsLine l) :=
  inferInstanceAs (Decidable (_ = _))

/-- The line is `Key = v` for a value that passed the validator of its field. -/
def FieldSpec.Writes (base64 : Base64) (spec : FieldSpec) (l : Str) : Prop :=
  ∃ v, spec.validate base64 v = .ok () ∧ l = spec.key ++ " = ".toList ++ v.text ∧
    ∀ c ∈ v.text, c ≠ '\n' ∧ c ≠ '\r' ∧ c ≠ '[' ∧ c ≠ ']'

/-- The line is the old one, or both are lines of one key and the new one is written for it. -/
def Kept (base64 : Base64) (l l' : Str) : Prop :=
  l' = l ∨ ∃ spec ∈ fieldSpecs, spec.IsLine l ∧ spec.Writes base64 l'

def isKeyLine (l : Str) : Bool := fieldSpecs.any fun spec => spec.IsLine l

/-- The output is the conf with kept lines, or also with a block of new keys right after the first
`[Interface]` line. -/
def Spliced (base64 : Base64) (conf out : Str) : Prop :=
  List.Forall₂ (Kept base64) (lines conf) (lines out) ∨
    ∃ above header below above' block below',
      lines conf = above ++ header :: below ∧ lines out = above' ++ header :: (block ++ below') ∧
      List.Forall₂ (Kept base64) above above' ∧ List.Forall₂ (Kept base64) below below' ∧
      interfaceHeader <+: header ∧ (∀ l ∈ above, ¬interfaceHeader <+: l) ∧
      ∀ l ∈ block, ∃ spec ∈ fieldSpecs, spec.Writes base64 l ∧ ∀ l' ∈ lines conf, ¬spec.IsLine l'

theorem FieldSpec.Writes.isLine {base64 : Base64} {spec : FieldSpec} {l : Str}
    (h : spec.Writes base64 l) : spec.IsLine l := by
  obtain ⟨v, _, rfl, _⟩ := h
  have hrender : captureField spec.key (spec.key ++ " = ".toList ++ v.text) = _ :=
    captureField_render spec v
  rw [FieldSpec.IsLine, hrender]
  rfl

theorem isKeyLine_of_isLine {spec : FieldSpec} (hspec : spec ∈ fieldSpecs) {l : Str}
    (h : spec.IsLine l) : isKeyLine l = true :=
  List.any_eq_true.mpr ⟨spec, hspec, decide_eq_true h⟩

theorem filter_not_isKeyLine_of_forall₂ {base64 : Base64} {ls ls' : List Str}
    (h : List.Forall₂ (Kept base64) ls ls') :
    ls'.filter (!isKeyLine ·) = ls.filter (!isKeyLine ·) := by
  induction h with
  | nil => rfl
  | cons hkept _ ih =>
    rcases hkept with rfl | ⟨spec, hspec, hold, hnew⟩
    · simp only [List.filter_cons, ih]
    · simp [ih, isKeyLine_of_isLine hspec hold, isKeyLine_of_isLine hspec hnew.isLine]

theorem FieldSpec.confRaw_eq (spec : FieldSpec) (conf : Str) :
    spec.confRaw conf = (lines conf).findSome? (captureField spec.key) :=
  (fieldLineRe_matchesLines spec).find_group conf

section Merge

variable {base64 : Base64} {conf out : Str} {r : Resolution}

theorem FieldSpec.Writes.newline_notMem {spec : FieldSpec} {l : Str} (h : spec.Writes base64 l) :
    '\n' ∉ l := by
  obtain ⟨v, _, rfl, hchars⟩ := h
  have hkey := newline_notMem_of_all_isAlphanum spec.key_alphanum
  have hvalue : '\n' ∉ v.text := fun hmem => (hchars '\n' hmem).1 rfl
  simp [hkey, hvalue]

theorem captureHeader_eq_none_iff {l : Str} : captureHeader l = none ↔ ¬interfaceHeader <+: l := by
  unfold captureHeader
  split <;> simp_all

section Sound

variable (h : Sound base64 conf fieldSpecs r)
include h

theorem Sound.writes {e : FieldSpec × Str} (he : e ∈ r.replaces ++ r.inserts) :
    e.1 ∈ fieldSpecs ∧ e.1.Writes base64 e.2 := by
  obtain ⟨hspec, v, hvalid, hline, _⟩ := h.written e he
  refine ⟨hspec, v, hvalid, hline, fun c hc => ?_⟩
  have := FieldSpec.notMem_forbidden_text hvalid c hc
  simpa [forbiddenConfChars] using this

theorem Sound.captures : ∀ e ∈ r.replaces, (captureField e.1.key e.2).isSome = true := fun _ he =>
  (h.writes (List.mem_append_left _ he)).2.isLine

theorem Sound.kept_replaceLine (l : Str) : Kept base64 l (replaceLine r.replaces l) := by
  obtain ⟨hsame, _⟩ | ⟨e, he, hcapture, heq⟩ := replaceLine_cases h.captures l
  · exact .inl hsame
  · obtain ⟨hspec, hwrites⟩ := h.writes (List.mem_append_left _ he)
    exact .inr ⟨e.1, hspec, hcapture, heq ▸ hwrites⟩

theorem Sound.forall₂_kept (ls : List Str) :
    List.Forall₂ (Kept base64) ls (ls.map (replaceLine r.replaces)) := by
  induction ls with
  | nil => exact .nil
  | cons l ls ih => exact .cons (h.kept_replaceLine l) ih

/-- A header line is neither made nor changed. -/
theorem Sound.header_replaceLine {l : Str}
    (hheader : (captureHeader (replaceLine r.replaces l)).isSome = true) :
    replaceLine r.replaces l = l := by
  rcases h.kept_replaceLine l with hsame | ⟨spec, hspec, _, hwrites⟩
  · exact hsame
  · have hline := hwrites.isLine
    simp [FieldSpec.IsLine, captureField_of_header hheader] at hline

/-- Splicing leaves the lines of no key alone. -/
theorem Sound.filter_splice (hsplice : splice conf r = .ok out) :
    (lines out).filter (!isKeyLine ·) = (lines conf).filter (!isKeyLine ·) := by
  obtain ⟨before, after, hmap, hout, -⟩ :=
    splice_lines (fun e he => (h.writes he).2.newline_notMem) hsplice
  have hblock : (r.inserts.map Prod.snd).filter (!isKeyLine ·) = [] := by
    refine List.filter_eq_nil_iff.mpr fun l hl => ?_
    obtain ⟨e, he, rfl⟩ := List.mem_map.mp hl
    obtain ⟨hspec, hwrites⟩ := h.writes (List.mem_append_right _ he)
    simp [isKeyLine_of_isLine hspec hwrites.isLine]
  rw [hout, List.filter_append, List.filter_append, hblock, List.append_nil, ← List.filter_append,
    ← hmap]
  exact filter_not_isKeyLine_of_forall₂ (h.forall₂_kept (lines conf))

end Sound

/-- A successful merge keeps every line but those of table keys, which it rewrites for the same key,
and adds at most one block of lines for keys that had none, right after the first `[Interface]`
line. Lines of no key are the same before and after. -/
theorem merge_lines (base64 : Base64) (conf : Str) (params : Option AwgParams)
    (defaults : ClientDefaults) (out : Str) (dropped : List Field)
    (h : mergeObfuscationParamsReporting base64 conf params defaults = .ok (out, dropped)) :
    Spliced base64 conf out ∧
    (lines out).filter (!isKeyLine ·) = (lines conf).filter (!isKeyLine ·) := by
  obtain ⟨_, r, _, _, _, hsound, hsplice, -⟩ := merge_ok h
  obtain ⟨before, after, hmap, hout, hheader⟩ :=
    splice_lines (fun e he => (hsound.writes he).2.newline_notMem) hsplice
  refine ⟨?_, hsound.filter_splice hsplice⟩
  by_cases hinserts : r.inserts = []
  · left
    rw [hout, hinserts, List.map_nil, List.append_nil, ← hmap]
    exact hsound.forall₂_kept (lines conf)
  · obtain ⟨above', header', rfl, habove, hfirst⟩ := hheader hinserts
    -- Cut the conf where its replaced lines are cut.
    obtain ⟨top, below, hconf, htop, rfl⟩ := List.map_eq_append_iff.mp hmap
    obtain ⟨above, last, rfl, rfl, hlast⟩ := List.map_eq_append_iff.mp htop
    obtain ⟨header, rfl, rfl⟩ := List.map_eq_singleton_iff.mp hlast
    have hsame := hsound.header_replaceLine hfirst
    rw [hsame] at hfirst hout
    refine .inr ⟨above, header, below, above.map (replaceLine r.replaces), r.inserts.map Prod.snd,
      below.map (replaceLine r.replaces), by simpa using hconf, by simpa using hout,
      hsound.forall₂_kept above, hsound.forall₂_kept below, ?_, ?_, ?_⟩
    · by_contra hno
      rw [captureHeader_eq_none_iff.mpr hno] at hfirst
      cases hfirst
    · intro l hl
      rw [← captureHeader_eq_none_iff, ← captureHeader_replaceLine hsound.captures l]
      exact habove _ (List.mem_map_of_mem hl)
    · intro l hl
      obtain ⟨e, he, rfl⟩ := List.mem_map.mp hl
      obtain ⟨hspec, hwrites⟩ := hsound.writes (List.mem_append_right _ he)
      refine ⟨e.1, hspec, hwrites, fun l' hl' => ?_⟩
      have hnone := hsound.inserted e he
      rw [FieldSpec.confRaw_eq, List.findSome?_eq_none_iff] at hnone
      simp [FieldSpec.IsLine, hnone l' hl']

end Merge

theorem merge_lines_samplePayload :
    Spliced .standard sampleConf sampleOutput ∧
      (lines sampleOutput).filter (!isKeyLine ·) = (lines sampleConf).filter (!isKeyLine ·) :=
  merge_lines .standard sampleConf (some samplePayload) sampleDefaults sampleOutput [.i1]
    merge_samplePayload

end PartnerEdge.Awg
