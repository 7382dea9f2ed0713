import PartnerEdge.Awg.Injection

/-!
# The merged conf passes the cross-field checks

The checks run on the effective values before anything is spliced. Reading the output back, with the
line patterns and the lenient parser of the merge, gives these values again, up to the spelling of a
one-element range. So the output itself satisfies what was checked.
-/

namespace PartnerEdge.Awg

open Text

/-- The value of a field in a conf: its first line, read leniently. -/
def readBack (conf : Str) (f : Field) : Option FieldValue :=
  (fieldSpecs.find? (·.field = f)).bind (·.confValue conf)

theorem readBack_eq {spec : FieldSpec} (h : spec ∈ fieldSpecs) (conf : Str) :
    readBack conf spec.field = spec.confValue conf := by
  rw [readBack, find?_field h]
  rfl

/-! ## Reading a rendered value -/

section Parse

variable {base64 : Base64} {spec : FieldSpec}

theorem isWhitespace_showI64 {n : Int64} : ∀ c ∈ showI64 n, isWhitespace c = false := by
  intro c hc
  rcases mem_showI64 hc with hdigit | rfl
  · exact isWhitespace_of_isAlphanum (by simp [Char.isAlphanum, hdigit])
  · rfl

theorem parseConfValue_dropWhile (spec : FieldSpec) (raw : Str) :
    spec.parseConfValue (raw.dropWhile isBlank) = spec.parseConfValue raw := by
  have hblank : ∀ c, isBlank c = true → isWhitespace c = true := by
    intro c hc
    simp only [isBlank, Bool.or_eq_true, beq_iff_eq] at hc
    rcases hc with rfl | rfl <;> rfl
  simp only [FieldSpec.parseConfValue, trim_dropWhile hblank]

theorem parseConfValue_int (hkind : spec.kind = .sInt ∨ spec.kind = .junkCount) (n : Int64) :
    spec.parseConfValue (showI64 n) = some (.int n) := by
  have htrim := trim_eq_self (isWhitespace_showI64 (n := n))
  rcases hkind with hkind | hkind <;>
    simp [FieldSpec.parseConfValue, htrim, hkind, parseI64_showI64, showI64_ne_nil]

theorem dash_notMem_showI64 {n : Int64} (hn : 0 ≤ n.toInt) : '-' ∉ showI64 n := by
  intro hmem
  exact absurd (isDigit_of_mem_showI64 hn hmem) (by decide)

theorem parse_single {n : Int64} (hn : 0 ≤ n.toInt) :
    IntOrRange.parse (showI64 n) = some (.single n) := by
  simp [IntOrRange.parse, splitOnce_of_notMem (dash_notMem_showI64 hn), parseI64_showI64]

theorem parse_range {lo hi : Int64} (hlo : 0 ≤ lo.toInt) :
    IntOrRange.parse (showI64 lo ++ '-' :: showI64 hi) = some (.range lo hi) := by
  simp [IntOrRange.parse, splitOnce_append (dash_notMem_showI64 hlo), parseI64_showI64]

/-- The interval of an H value. -/
def FieldValue.interval : FieldValue → Option (Int64 × Int64)
  | .int n => some (n, n)
  | .range lo hi => some (lo, hi)
  | _ => none

theorem hRange_eq (effective : Field → Option FieldValue) (f : Field) :
    hRange effective f = (effective f).bind FieldValue.interval := by
  unfold hRange
  cases hvalue : effective f with
  | none => rfl
  | some v => cases v <;> rfl

theorem nonneg_of_validateHValue {field : Field} {v : IntOrRange}
    (h : validateHValue field v = .ok ()) :
    match v with
    | .single n => 0 ≤ n.toInt
    | .range lo _ => 0 ≤ lo.toInt := by
  have hfive : ∀ n : Int64, ¬n < 5 → 0 ≤ n.toInt := by
    intro n hn
    have := Int64.le_iff_toInt_le.mp (Int64.not_lt.mp hn)
    simp at this
    omega
  unfold validateHValue at h
  cases v with
  | single n =>
    dsimp only at h ⊢
    split at h
    · cases h
    · next hok => exact hfive n fun hlt => hok (.inl hlt)
  | range lo hi =>
    dsimp only at h ⊢
    split at h
    · cases h
    · next hok => exact hfive lo fun hlt => hok (.inl hlt)

theorem parseConfValue_hRange (hkind : spec.kind = .hRange) {v : FieldValue}
    (hvalid : spec.validate base64 v = .ok ()) :
    (spec.parseConfValue v.text).bind FieldValue.interval = v.interval := by
  have hsingle : ∀ n : Int64, 0 ≤ n.toInt →
      (spec.parseConfValue (showI64 n)).bind FieldValue.interval = some (n, n) := by
    intro n hn
    simp [FieldSpec.parseConfValue, trim_eq_self isWhitespace_showI64, hkind, parse_single hn,
      showI64_ne_nil, FieldValue.ofIntOrRange, FieldValue.interval]
  unfold FieldSpec.validate at hvalid
  cases v with
  | int n =>
    simp only [hkind] at hvalid
    exact hsingle n (nonneg_of_validateHValue hvalid)
  | range lo hi =>
    simp only [hkind] at hvalid
    have hlo : 0 ≤ lo.toInt := nonneg_of_validateHValue hvalid
    by_cases heq : lo = hi
    · subst heq
      simpa [FieldValue.text, FieldValue.interval] using hsingle lo hlo
    · have hspace : ∀ c ∈ showI64 lo ++ '-' :: showI64 hi, isWhitespace c = false := by
        intro c hc
        rcases List.mem_append.mp hc with hc | hc
        · exact isWhitespace_showI64 c hc
        · rcases List.mem_cons.mp hc with rfl | hc
          · rfl
          · exact isWhitespace_showI64 c hc
      simp [FieldValue.text, heq, FieldSpec.parseConfValue, trim_eq_self hspace, hkind,
        parse_range hlo, FieldValue.ofIntOrRange, FieldValue.interval]
  | str s => simp [hkind] at hvalid
  | bool b => simp [hkind] at hvalid

theorem isWhitespace_of_isBase64Char {c : Char} (h : isBase64Char c = true) :
    isWhitespace c = false := by
  simp only [isBase64Char, Bool.or_eq_true, beq_iff_eq] at h
  rcases h with ((h | rfl) | rfl) | rfl
  · exact isWhitespace_of_isAlphanum h
  all_goals rfl

theorem parseConfValue_headerProtectionKey (hkind : spec.kind = .headerProtectionKey)
    {v : FieldValue} (hvalid : spec.validate base64 v = .ok ()) :
    spec.parseConfValue v.text = some v := by
  unfold FieldSpec.validate at hvalid
  cases v with
  | int n => simp [hkind] at hvalid
  | range lo hi => simp [hkind] at hvalid
  | bool b => simp [hkind] at hvalid
  | str s =>
    simp only [hkind, decodeHpk] at hvalid
    cases hguard : validateConfString spec.field s with
    | error e => simp [hguard, bind, Except.bind, Except.map] at hvalid
    | ok u =>
      cases hdecode : base64.decode s with
      | error e =>
        simp [hguard, hdecode, bind, Except.bind, Except.map, Except.mapError] at hvalid
      | ok bytes =>
        have hspace : ∀ c ∈ s, isWhitespace c = false := fun c hc =>
          isWhitespace_of_isBase64Char (base64.isBase64Char_of_decode hdecode c hc)
        have hne : s ≠ [] := by
          rintro rfl
          rw [base64.decode_nil, Except.ok.injEq] at hdecode
          subst hdecode
          simp [hguard, base64.decode_nil, bind, Except.bind, Except.map, Except.mapError] at hvalid
        simp [FieldValue.text, FieldSpec.parseConfValue, trim_eq_self hspace, hne, hkind]

end Parse

/-! ## Reading the output -/

theorem findSome?_eq_of_forall {α β : Type} {f : α → Option β} {l : List α} {x : β}
    (hall : ∀ a ∈ l, f a = none ∨ f a = some x) (hex : ∃ a ∈ l, f a = some x) :
    l.findSome? f = some x := by
  cases hfind : l.findSome? f with
  | none =>
    obtain ⟨a, ha, hx⟩ := hex
    simp [List.findSome?_eq_none_iff.mp hfind a ha] at hx
  | some y =>
    obtain ⟨before, a, after, rfl, hy, _⟩ := List.findSome?_eq_some_iff.mp hfind
    rcases hall a (by simp) with hnone | hx
    · simp [hnone] at hy
    · rw [← hy, hx]

section ReadBack

variable {base64 : Base64} {conf out : Str} {r : Resolution} {spec : FieldSpec}

theorem exists_spec (f : Field) : ∃ spec ∈ fieldSpecs, spec.field = f := by
  cases f <;> decide

theorem kind_of_int : ∀ spec ∈ fieldSpecs, spec.field ∈ [.s1, .s2, .s3, .s4, .jmin, .jmax] →
    spec.kind = .sInt ∨ spec.kind = .junkCount := by
  decide

theorem kind_of_hField : ∀ spec ∈ fieldSpecs, spec.field ∈ hFields → spec.kind = .hRange := by
  decide

theorem kind_of_headerProtectionKey : ∀ spec ∈ fieldSpecs, spec.field = .headerProtectionKey →
    spec.kind = .headerProtectionKey := by
  decide

theorem exists_int_of_validate (hkind : spec.kind = .sInt ∨ spec.kind = .junkCount) {v : FieldValue}
    (h : spec.validate base64 v = .ok ()) : ∃ n, v = .int n := by
  cases v with
  | int n => exact ⟨n, rfl⟩
  | range lo hi => rcases hkind with hkind | hkind <;> simp [FieldSpec.validate, hkind] at h
  | str s => rcases hkind with hkind | hkind <;> simp [FieldSpec.validate, hkind] at h
  | bool b => rcases hkind with hkind | hkind <;> simp [FieldSpec.validate, hkind] at h

variable (h : Sound base64 conf fieldSpecs r)
include h

/-- Two entries of one key write the same line. -/
theorem Sound.entry_unique {e e' : FieldSpec × Str} (he : e ∈ r.replaces ++ r.inserts)
    (he' : e' ∈ r.replaces ++ r.inserts) (hkey : e.1.key = e'.1.key) : e.2 = e'.2 := by
  obtain ⟨hspec, v, _, hline, heff⟩ := h.written e he
  obtain ⟨hspec', v', _, hline', heff'⟩ := h.written e' he'
  have hsame := fieldSpecs_eq_of_key hspec hspec' hkey
  rw [← hsame, heff, Option.some.injEq] at heff'
  rw [hline, hline', hsame, heff']

/-- A line of the conf that no replacement touched is of no written row. -/
theorem Sound.captureField_untouched {e : FieldSpec × Str} (he : e ∈ r.replaces ++ r.inserts)
    {l : Str} (hl : l ∈ lines conf) (hnone : ∀ e' ∈ r.replaces, captureField e'.1.key l = none) :
    captureField e.1.key l = none := by
  rcases List.mem_append.mp he with he | he
  · exact hnone e he
  · have hraw := h.inserted e he
    rw [FieldSpec.confRaw_eq] at hraw
    exact List.findSome?_eq_none_iff.mp hraw l hl

variable (hsplice : splice conf r = .ok out)
include hsplice

theorem Sound.mem_lines_splice (l : Str) :
    l ∈ lines out ↔ l ∈ (lines conf).map (replaceLine r.replaces) ∨ l ∈ r.inserts.map Prod.snd := by
  obtain ⟨before, after, hmap, hout, _⟩ :=
    splice_lines (fun e he => (h.writes he).2.newline_notMem) hsplice
  rw [hmap, hout]
  simp only [List.mem_append]
  tauto

/-- The output has lines of a written row, and each of them is the line that was written. -/
theorem Sound.lines_written {e : FieldSpec × Str} (he : e ∈ r.replaces ++ r.inserts) :
    e.2 ∈ lines out ∧ ∀ l ∈ lines out, e.1.IsLine l → l = e.2 := by
  have hmem := h.mem_lines_splice hsplice
  have hentry : ∀ e' ∈ r.replaces ++ r.inserts, e.1.IsLine e'.2 → e'.2 = e.2 := by
    intro e' he' hline
    exact h.entry_unique he' he (key_unique (h.writes he').2.isLine hline)
  constructor
  · rcases List.mem_append.mp he with hrep | hins
    · have hraw := h.replaced e hrep
      rw [FieldSpec.confRaw_eq, List.findSome?_isSome_iff] at hraw
      obtain ⟨l, hl, hcapture⟩ := hraw
      obtain ⟨_, hnone⟩ | ⟨e', he', hcapture', heq⟩ := replaceLine_cases h.captures l
      · simp [hnone e hrep] at hcapture
      · have hsame := h.entry_unique (List.mem_append_left _ he') he (key_unique hcapture' hcapture)
        exact (hmem _).mpr (.inl (List.mem_map.mpr ⟨l, hl, heq.trans hsame⟩))
    · exact (hmem _).mpr (.inr (List.mem_map_of_mem hins))
  · intro l hl hline
    rcases (hmem l).mp hl with hl | hl
    · obtain ⟨l₀, hl₀, rfl⟩ := List.mem_map.mp hl
      obtain ⟨hsame, hnone⟩ | ⟨e', he', _, heq⟩ := replaceLine_cases h.captures l₀
      · rw [hsame] at hline
        simp [FieldSpec.IsLine, h.captureField_untouched he hl₀ hnone] at hline
      · rw [heq] at hline ⊢
        exact hentry e' (List.mem_append_left _ he') hline
    · obtain ⟨e', he', rfl⟩ := List.mem_map.mp hl
      exact hentry e' (List.mem_append_right _ he') hline

/-- The line of a written row renders its value. -/
theorem Sound.confRaw_splice_written {e : FieldSpec × Str} (he : e ∈ r.replaces ++ r.inserts)
    {v : FieldValue} (heff : r.effective e.1.field = some v) :
    e.1.confRaw out = some (v.text.dropWhile isBlank) := by
  obtain ⟨hmem, hlines⟩ := h.lines_written hsplice he
  have hcapture : captureField e.1.key e.2 = some (v.text.dropWhile isBlank) := by
    obtain ⟨_, w, _, hline, hw⟩ := h.written e he
    obtain rfl : v = w := by simpa [heff] using hw
    rw [hline, captureField_render]
  rw [FieldSpec.confRaw_eq]
  refine findSome?_eq_of_forall ?_ ⟨e.2, hmem, hcapture⟩
  intro l hl
  cases hl' : captureField e.1.key l with
  | none => exact .inl rfl
  | some g =>
    right
    rw [← hl', hlines l hl (by simp [FieldSpec.IsLine, hl']), hcapture]

/-- The line of an unwritten row is the one of the conf. -/
theorem Sound.confRaw_splice_kept (hspec : spec ∈ fieldSpecs)
    (hno : ∀ e ∈ r.replaces ++ r.inserts, e.1.field ≠ spec.field) :
    spec.confRaw out = spec.confRaw conf := by
  obtain ⟨before, after, hmap, hout, _⟩ :=
    splice_lines (fun e he => (h.writes he).2.newline_notMem) hsplice
  have hkey : ∀ e ∈ r.replaces ++ r.inserts, e.1.key ≠ spec.key := by
    intro e he hkey
    refine hno e he ?_
    rw [fieldSpecs_eq_of_key (h.written e he).1 hspec hkey]
  have hblock : (r.inserts.map Prod.snd).findSome? (captureField spec.key) = none := by
    refine List.findSome?_eq_none_iff.mpr fun l hl => ?_
    obtain ⟨e, he, rfl⟩ := List.mem_map.mp hl
    have he := List.mem_append_right r.replaces he
    exact captureField_eq_none_of_ne (h.writes he).2.isLine (hkey e he)
  rw [FieldSpec.confRaw_eq, FieldSpec.confRaw_eq, hout, List.findSome?_append,
    List.findSome?_append, hblock, Option.or_none, ← List.findSome?_append, ← hmap,
    List.findSome?_map]
  congr 1
  funext l
  exact captureField_replaceLine_of_ne h.captures (fun e he => hkey e (List.mem_append_left _ he)) l

/-- Reading the output gives the effective value, as it is or through its rendering. -/
theorem Sound.confValue_splice (hspec : spec ∈ fieldSpecs) :
    spec.confValue out = r.effective spec.field ∨
    ∃ v, spec.validate base64 v = .ok () ∧ r.effective spec.field = some v ∧
      spec.confValue out = spec.parseConfValue v.text := by
  by_cases hwritten : ∃ e ∈ r.replaces ++ r.inserts, e.1.field = spec.field
  · right
    obtain ⟨e, he, hfield⟩ := hwritten
    obtain ⟨hmem, v, hvalid, _, heff⟩ := h.written e he
    obtain rfl := fieldSpecs_eq_of_field hmem hspec hfield
    refine ⟨v, hvalid, heff, ?_⟩
    rw [FieldSpec.confValue, h.confRaw_splice_written hsplice he heff]
    exact parseConfValue_dropWhile e.1 v.text
  · left
    have hno : ∀ e ∈ r.replaces ++ r.inserts, e.1.field ≠ spec.field := by simpa using hwritten
    rw [h.kept spec hspec hno, FieldSpec.confValue, h.confRaw_splice_kept hsplice hspec hno,
      FieldSpec.confValue]

/-! ## Fields that the checks read -/

theorem Sound.readBack_int {f : Field} (hf : f ∈ [Field.s1, .s2, .s3, .s4, .jmin, .jmax]) :
    readBack out f = r.effective f := by
  obtain ⟨spec, hspec, rfl⟩ := exists_spec f
  have hkind := kind_of_int spec hspec hf
  rw [readBack_eq hspec]
  obtain heq | ⟨v, hvalid, heff, heq⟩ := h.confValue_splice hsplice hspec
  · exact heq
  · obtain ⟨n, rfl⟩ := exists_int_of_validate hkind hvalid
    rw [heq, heff]
    exact parseConfValue_int hkind n

theorem Sound.readBack_hRange {f : Field} (hf : f ∈ hFields) :
    hRange (readBack out) f = hRange r.effective f := by
  obtain ⟨spec, hspec, rfl⟩ := exists_spec f
  rw [hRange_eq, hRange_eq, readBack_eq hspec]
  obtain heq | ⟨v, hvalid, heff, heq⟩ := h.confValue_splice hsplice hspec
  · rw [heq]
  · rw [heq, heff]
    exact parseConfValue_hRange (kind_of_hField spec hspec hf) hvalid

theorem Sound.readBack_headerProtectionKey :
    readBack out .headerProtectionKey = r.effective .headerProtectionKey := by
  obtain ⟨spec, hspec, hfield⟩ := exists_spec .headerProtectionKey
  rw [← hfield, readBack_eq hspec]
  obtain heq | ⟨v, hvalid, heff, heq⟩ := h.confValue_splice hsplice hspec
  · exact heq
  · rw [heq, heff]
    exact parseConfValue_headerProtectionKey (kind_of_headerProtectionKey spec hspec hfield) hvalid

end ReadBack

/-! ## The checks -/

section Checks

variable {base64 : Base64} {effective : Field → Option FieldValue}

theorem checkPreconditions_ok_iff : checkPreconditions base64 effective = .ok () ↔
    checkReservedPair effective = .ok () ∧
      (∀ p ∈ pairs hFields, checkDisjoint effective p.1 p.2 = .ok ()) ∧
      checkHeaderProtection base64 effective = .ok () := by
  rw [← forM_ok_iff]
  unfold checkPreconditions
  cases checkReservedPair effective with
  | error e => simp [bind, Except.bind]
  | ok u =>
    cases (pairs hFields).forM fun p => checkDisjoint effective p.1 p.2 <;> simp [bind, Except.bind]

/-- The addition of the check wraps, but then the sizes are far apart. -/
theorem checkReservedPair_ok (h : checkReservedPair effective = .ok ()) :
    (sVal effective .s1).toInt + 56 ≠ (sVal effective .s2).toInt := by
  unfold checkReservedPair at h
  intro heq
  have hsum : sVal effective .s1 + 56 = sVal effective .s2 := by
    rw [← Int64.toInt_inj, Int64.toInt_add]
    have hlo := (sVal effective .s2).le_toInt
    have hhi := (sVal effective .s2).toInt_lt
    have h56 : (56 : Int64).toInt = 56 := rfl
    rw [h56, heq]
    exact Int.bmod_eq_of_le (by omega) (by omega)
  simp [hsum] at h

theorem checkDisjoint_ok {f g : Field} (h : checkDisjoint effective f g = .ok ())
    {alo ahi blo bhi : Int64} (hf : hRange effective f = some (alo, ahi))
    (hg : hRange effective g = some (blo, bhi)) : ahi < blo ∨ bhi < alo := by
  unfold checkDisjoint at h
  simp only [hf, hg] at h
  split at h
  · cases h
  · next hapart =>
    by_cases hle : alo ≤ bhi
    · exact .inl (Int64.not_le.mp fun hle' => hapart ⟨hle, hle'⟩)
    · exact .inr (Int64.not_le.mp hle)

/-- Protection is off for exactly one decoded key. -/
theorem decode_of_not_hpkIsActive {key : Str} (h : hpkIsActive base64 key = false) :
    base64.decode key = .ok (List.replicate 32 0) := by
  unfold hpkIsActive at h
  split at h
  · next bytes hdecode =>
    simp only [Bool.not_eq_false', Bool.and_eq_true, beq_iff_eq, List.all_eq_true] at h
    rw [hdecode, List.eq_replicate_iff.mpr ⟨h.1, h.2⟩]
  · cases h

theorem checkHeaderProtection_ok_iff : checkHeaderProtection base64 effective = .ok () ↔
    ∀ key, effective .headerProtectionKey = some (.str key) → hpkIsActive base64 key = true →
      ∀ f ∈ [Field.s1, .s2, .s3, .s4], 12 ≤ sVal effective f := by
  unfold checkHeaderProtection
  simp only [List.forall_mem_cons, ← Int64.not_lt]
  split
  · next key hkey =>
    simp only [hkey, Option.some.injEq, FieldValue.str.injEq, forall_eq']
    by_cases hactive : hpkIsActive base64 key = true
    · simp [hactive]
    · simp [hactive]
  · next hnone => exact iff_of_true rfl fun key hkey => (hnone key hkey).elim

theorem mem_pairs_hFields : ∀ f ∈ hFields, ∀ g ∈ hFields, f ≠ g →
    (f, g) ∈ pairs hFields ∨ (g, f) ∈ pairs hFields := by
  decide

end Checks

/-- Read back, the output of a successful merge has no reserved pair of sizes, no two meeting H
intervals, junk sizes for an active header protection key, and ordered junk bounds. -/
theorem merge_crossField (base64 : Base64) (conf : Str) (params : Option AwgParams)
    (defaults : ClientDefaults) (out : Str) (dropped : List Field)
    (h : mergeObfuscationParamsReporting base64 conf params defaults = .ok (out, dropped)) :
    (sVal (readBack out) .s1).toInt + 56 ≠ (sVal (readBack out) .s2).toInt ∧
    (∀ f ∈ hFields, ∀ g ∈ hFields, f ≠ g → ∀ alo ahi blo bhi,
      hRange (readBack out) f = some (alo, ahi) → hRange (readBack out) g = some (blo, bhi) →
        ahi < blo ∨ bhi < alo) ∧
    (∀ key, readBack out .headerProtectionKey = some (.str key) →
      base64.decode key ≠ .ok (List.replicate 32 0) →
        ∀ f ∈ [Field.s1, .s2, .s3, .s4], 12 ≤ sVal (readBack out) f) ∧
    ∀ lo hi, readBack out .jmin = some (.int lo) → readBack out .jmax = some (.int hi) →
      lo ≤ hi := by
  obtain ⟨r₀, r, _, hcheck, hsoften, hsound, hsplice, -⟩ := merge_ok h
  obtain ⟨hpair, hdisjoint, hprotection⟩ := checkPreconditions_ok_iff.mp hcheck
  -- The fields of the checks keep their values when the junk bounds fall back.
  have hsame : ∀ f, f ≠ .jmin → f ≠ .jmax → r.effective f = r₀.effective f :=
    fun f hmin hmax => softenJunk_effective hsoften hmin hmax
  have hs : ∀ f ∈ [Field.s1, .s2, .s3, .s4], sVal (readBack out) f = sVal r₀.effective f := by
    intro f hf
    have hread := hsound.readBack_int hsplice (List.mem_append_left [.jmin, .jmax] hf)
    have hkeep := hsame f (by rintro rfl; simp at hf) (by rintro rfl; simp at hf)
    simp only [sVal, hread, hkeep]
  have hh : ∀ f ∈ hFields, hRange (readBack out) f = hRange r₀.effective f := by
    intro f hf
    have hkeep := hsame f (by rintro rfl; simp [hFields] at hf)
      (by rintro rfl; simp [hFields] at hf)
    rw [hsound.readBack_hRange hsplice hf, hRange_eq, hkeep, hRange_eq]
  refine ⟨?_, ?_, ?_, ?_⟩
  · rw [hs .s1 (by simp), hs .s2 (by simp)]
    exact checkReservedPair_ok hpair
  · intro f hf g hg hne alo ahi blo bhi hrf hrg
    rw [hh f hf] at hrf
    rw [hh g hg] at hrg
    rcases mem_pairs_hFields f hf g hg hne with hp | hp
    · exact checkDisjoint_ok (hdisjoint _ hp) hrf hrg
    · exact (checkDisjoint_ok (hdisjoint _ hp) hrg hrf).symm
  · intro key hkey hactive f hf
    rw [hsound.readBack_headerProtectionKey hsplice, hsame _ (by simp) (by simp)] at hkey
    rw [hs f hf]
    refine checkHeaderProtection_ok_iff.mp hprotection key hkey ?_ f hf
    by_contra hoff
    exact hactive (decode_of_not_hpkIsActive (by simpa using hoff))
  · intro lo hi hlo hhi
    rw [hsound.readBack_int hsplice (by simp)] at hlo hhi
    exact (softenJunk_cases hsoften).2 lo hi (by simp [junkPair, hlo, hhi])

/-- The sample has every hypothesis of the checks: two H intervals, an active header protection key
and both junk bounds. -/
theorem merge_crossField_samplePayload :
    (sVal (readBack sampleOutput) .s1).toInt + 56 ≠ (sVal (readBack sampleOutput) .s2).toInt ∧
      ((5 : Int64) < 6 ∨ (8 : Int64) < 5) ∧ 12 ≤ sVal (readBack sampleOutput) .s3 ∧
      (50 : Int64) ≤ 60 := by
  obtain ⟨hpair, hdisjoint, hprotection, hjunk⟩ :=
    merge_crossField .standard sampleConf (some samplePayload) sampleDefaults sampleOutput [.i1]
      merge_samplePayload
  refine ⟨hpair, ?_, ?_, ?_⟩
  · exact hdisjoint .h1 (by decide) .h2 (by decide) (by decide) 5 5 6 8 (by decide +kernel)
      (by decide +kernel)
  · exact hprotection "AAAAAAAAAAAAAAAAAAAAAAAAAAAAAAAAAAAAAAAAAAE=".toList (by decide +kernel)
      (by decide +kernel) .s3 (by decide)
  · exact hjunk 50 60 (by decide +kernel) (by decide +kernel)

end PartnerEdge.Awg
