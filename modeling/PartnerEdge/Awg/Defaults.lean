import PartnerEdge.Awg.CrossField

/-!
# Generated defaults

The agent draws a set of client-side defaults once, from the entropy of the OS. A draw is reduced
modulo the width of its band, so it stays in the band, and every default passes the validator of its
own field.
-/

namespace PartnerEdge.Awg

open Text

/-- The draws that the OS has still to give. -/
abbrev Entropy := StateT (List UInt64) Option

def fillRandom : Entropy UInt64 := fun
  | [] => none
  | draw :: draws => some (draw, draws)

def randInclusive (lo hi : Int64) : Entropy Int64 := do
  let span := (hi - lo + 1).toUInt64
  let draw ← fillRandom
  return lo + (draw % span).toInt64

def ClientDefaults.generate : Entropy ClientDefaults := do
  let jc ← randInclusive 3 6
  let jmin ← randInclusive 40 89
  let jmax := jmin + (← randInclusive 50 250)
  let cpaLo ← randInclusive 8 24
  let cpaHi := cpaLo + (← randInclusive 8 40)
  let i1 ← randInclusive 32 256
  return {
    i1 := "<r ".toList ++ showI64 i1 ++ ">".toList
    contentPaddingAddition := showI64 cpaLo ++ '-' :: showI64 cpaHi
    jc
    jmin
    jmax }

/-- What the generator may draw. -/
structure ClientDefaults.InBands (defaults : ClientDefaults) : Prop where
  jc : 3 ≤ defaults.jc ∧ defaults.jc ≤ 6
  jmin : 40 ≤ defaults.jmin ∧ defaults.jmin ≤ 89
  jmax : ∃ delta, 50 ≤ delta ∧ delta ≤ 250 ∧ defaults.jmax = defaults.jmin + delta
  i1 : ∃ n, 32 ≤ n ∧ n ≤ 256 ∧ defaults.i1 = "<r ".toList ++ showI64 n ++ ">".toList
  contentPaddingAddition : ∃ lo delta, (8 ≤ lo ∧ lo ≤ 24) ∧ (8 ≤ delta ∧ delta ≤ 40) ∧
    defaults.contentPaddingAddition = showI64 lo ++ '-' :: showI64 (lo + delta)

/-! ## The bands -/

theorem toInt64_bounds {u : UInt64} {k : Int64} (hk : 0 ≤ k) (h : u < k.toUInt64) :
    0 ≤ u.toInt64 ∧ u.toInt64 < k := by
  have hnat : u.toNat < k.toInt.toNat := by
    rw [Int64.toNat_toInt, ← Int64.toNat_toUInt64_of_le hk]
    exact UInt64.lt_iff_toNat_lt.mp h
  have hlt := k.toInt_lt
  have hvalue : u.toInt64.toInt = u.toNat := by
    refine BitVec.toInt_eq_toNat_of_lt ?_
    have : u.toInt64.toBitVec.toNat = u.toNat := rfl
    omega
  rw [Int64.le_iff_toInt_le, Int64.lt_iff_toInt_lt, hvalue, Int64.toInt_zero]
  omega

theorem randInclusive_bounds {lo hi n : Int64} {draws rest : List UInt64} (hlo : 0 ≤ lo)
    (hle : lo ≤ hi) (hhi : hi < 1000) (h : randInclusive lo hi draws = some (n, rest)) :
    lo ≤ n ∧ n ≤ hi := by
  cases draws with
  | nil => cases h
  | cons draw draws =>
    obtain ⟨rfl, -⟩ : lo + (draw % (hi - lo + 1).toUInt64).toInt64 = n ∧ draws = rest := by
      simpa [randInclusive, fillRandom, StateT.bind, bind, pure, StateT.pure] using h
    have hspan : 0 < hi - lo + 1 := by grind
    have hpos : 0 < (hi - lo + 1).toUInt64 := by
      rw [UInt64.lt_iff_toNat_lt, Int64.toNat_toUInt64_of_le (Int64.le_of_lt hspan),
        ← Int64.toNat_toInt, UInt64.toNat_zero]
      rw [Int64.lt_iff_toInt_lt, Int64.toInt_zero] at hspan
      omega
    obtain ⟨hnonneg, hlt⟩ := toInt64_bounds (Int64.le_of_lt hspan) (UInt64.mod_lt draw hpos)
    grind

theorem exists_of_draw {α β : Type} {x : Entropy α} {f : α → Entropy β} {draws rest : List UInt64}
    {b : β} (h : (x >>= f) draws = some (b, rest)) :
    ∃ a draws', x draws = some (a, draws') ∧ f a draws' = some (b, rest) := by
  have hbind : (x draws).bind (fun r => f r.1 r.2) = some (b, rest) := h
  obtain ⟨⟨a, draws'⟩, hx, hf⟩ := Option.bind_eq_some_iff.mp hbind
  exact ⟨a, draws', hx, hf⟩

theorem ClientDefaults.generate_inBands {draws rest : List UInt64} {defaults : ClientDefaults}
    (h : ClientDefaults.generate draws = some (defaults, rest)) : defaults.InBands := by
  obtain ⟨jc, d₁, hjc, h⟩ := exists_of_draw h
  obtain ⟨jmin, d₂, hjmin, h⟩ := exists_of_draw h
  obtain ⟨jmaxDelta, d₃, hjmax, h⟩ := exists_of_draw h
  obtain ⟨cpaLo, d₄, hcpaLo, h⟩ := exists_of_draw h
  obtain ⟨cpaDelta, d₅, hcpaHi, h⟩ := exists_of_draw h
  obtain ⟨i1, d₆, hi1, h⟩ := exists_of_draw h
  obtain ⟨rfl, -⟩ := Prod.mk.inj (Option.some.inj h)
  have hcpa := randInclusive_bounds (by decide) (by decide) (by decide) hcpaLo
  have hdelta := randInclusive_bounds (by decide) (by decide) (by decide) hcpaHi
  have hjunk := randInclusive_bounds (by decide) (by decide) (by decide) hjmax
  have htag := randInclusive_bounds (by decide) (by decide) (by decide) hi1
  exact ⟨randInclusive_bounds (by decide) (by decide) (by decide) hjc,
    randInclusive_bounds (by decide) (by decide) (by decide) hjmin,
    ⟨jmaxDelta, hjunk.1, hjunk.2, rfl⟩, ⟨i1, htag.1, htag.2, rfl⟩,
    ⟨cpaLo, cpaDelta, hcpa, hdelta, rfl⟩⟩

/-! ## The defaults pass their own validators -/

theorem parseU64_showI64 {n : Int64} (hn : 0 ≤ n.toInt) :
    parseU64 (showI64 n) = some n.toInt.toNat := by
  obtain ⟨m, hm⟩ := Int.eq_ofNat_of_zero_le hn
  have hlt := n.toInt_lt
  have hshow : showI64 n = Nat.toDigits 10 m := by
    rw [showI64, hm]
    rfl
  rw [hshow, hm]
  exact parseU64_toDigits (by omega)

theorem validateConfString_of_notMem {field : Field} {value : Str}
    (h : ∀ c ∈ value, c ∉ forbiddenConfChars) : validateConfString field value = .ok () := by
  have hnone : value.find? (· ∈ forbiddenConfChars) = none := by simpa using h
  rw [validateConfString, hnone]

theorem validateTags_nil (fuel : Nat) (sawTag : Bool) :
    validateTags fuel [] sawTag = .ok sawTag := by
  cases fuel <;> rfl

theorem validateITag_random {n : Int64} (hlo : 0 ≤ n.toInt) (hhi : n.toInt ≤ 65535)
    (field : Field) : validateITag field ('<' :: ('r' :: ' ' :: showI64 n ++ ['>'])) = .ok () := by
  have hdigits : ∀ c : Char, c.isDigit = false → c ∉ showI64 n := by
    intro c hc hmem
    rw [isDigit_of_mem_showI64 hlo hmem] at hc
    cases hc
  have hconf : validateConfString field ('<' :: ('r' :: ' ' :: showI64 n ++ ['>'])) = .ok () := by
    refine validateConfString_of_notMem fun c hc => ?_
    simp only [List.mem_cons, List.cons_append, List.mem_append, List.not_mem_nil, or_false] at hc
    rcases hc with rfl | rfl | rfl | hc | rfl
    · decide
    · decide
    · decide
    · exact notMem_forbidden_showI64 hc
    · decide
  have hclose : splitOnce '>' ('r' :: ' ' :: showI64 n ++ ['>']) =
      some ('r' :: ' ' :: showI64 n, []) :=
    splitOnce_append (by simp [hdigits '>' rfl]) []
  have hlength : validateTag ('r' :: ' ' :: showI64 n) = .ok () := by
    have hsmall : n.toInt.toNat ≤ 65535 := by omega
    simp [validateTag, splitOnce, validateLength, parseU64_showI64 hlo, hsmall, -Int64.toNat_toInt]
  have hgrammar : validateITagGrammar ('<' :: ('r' :: ' ' :: showI64 n ++ ['>'])) = .ok () := by
    rw [validateITagGrammar, List.length_cons, validateTags]
    simp only [splitOnce, if_true, hclose, hlength, bind, Except.bind, validateTags_nil]
  rw [validateITag, hconf]
  simp only [bind, Except.bind, hgrammar]
  rfl

theorem validateRangeString_range {lo hi : Int64} (hlo : 0 ≤ lo.toInt) (hle : lo.toInt ≤ hi.toInt)
    (field : Field) : validateRangeString field (showI64 lo ++ '-' :: showI64 hi) = .ok () := by
  have hconf : validateConfString field (showI64 lo ++ '-' :: showI64 hi) = .ok () := by
    refine validateConfString_of_notMem fun c hc => ?_
    rcases List.mem_append.mp hc with hc | hc
    · exact notMem_forbidden_showI64 hc
    · rcases List.mem_cons.mp hc with rfl | hc
      · decide
      · exact notMem_forbidden_showI64 hc
  have hdigits : ∀ n : Int64, 0 ≤ n.toInt →
      (!(showI64 n).isEmpty && (showI64 n).all Char.isDigit) = true := by
    intro n hn
    have hall : (showI64 n).all Char.isDigit = true :=
      List.all_eq_true.mpr fun c hc => isDigit_of_mem_showI64 hn hc
    simp [showI64_ne_nil, hall]
  have hrange : isRangeString (showI64 lo ++ '-' :: showI64 hi) = true := by
    unfold isRangeString
    rw [splitOnce_append (dash_notMem_showI64 hlo)]
    have hhi : 0 ≤ hi.toInt := hlo.trans hle
    have horder : lo.toInt.toNat ≤ hi.toInt.toNat := by omega
    simp [hdigits lo hlo, hdigits hi hhi, parseU64_showI64 hlo, parseU64_showI64 hhi, horder,
      -Int64.toNat_toInt]
  rw [validateRangeString, hconf]
  simp only [bind, Except.bind, hrange, if_true]

theorem ClientDefaults.InBands.junk {defaults : ClientDefaults} (h : defaults.InBands) :
    0 ≤ defaults.jmin ∧ defaults.jmin < defaults.jmax ∧ defaults.jmax ≤ 4294967295 := by
  obtain ⟨hlo, hhi⟩ := h.jmin
  obtain ⟨delta, hdeltaLo, hdeltaHi, hjmax⟩ := h.jmax
  grind

theorem ClientDefaults.InBands.validate {defaults : ClientDefaults} (h : defaults.InBands)
    (base64 : Base64) : ∀ spec ∈ fieldSpecs, ∀ v ∈ spec.default defaults,
      spec.validate base64 v = .ok () := by
  obtain ⟨hmin, hlt, hmax⟩ := h.junk
  have hjc : 0 ≤ defaults.jc ∧ defaults.jc ≤ 4294967295 := by
    obtain ⟨hlo, hhi⟩ := h.jc
    grind
  obtain ⟨n, hnlo, hnhi, hi1⟩ := h.i1
  obtain ⟨lo, delta, hlo, hdelta, hcpa⟩ := h.contentPaddingAddition
  have htag : validateITag .i1 defaults.i1 = .ok () := by
    rw [hi1]
    rw [Int64.le_iff_toInt_le] at hnlo hnhi
    exact validateITag_random (le_trans (by decide) hnlo) (le_trans hnhi (by decide)) _
  have hrange : validateRangeString .contentPaddingAddition defaults.contentPaddingAddition =
      .ok () := by
    have hpos : 0 ≤ lo := by grind
    have hle : lo ≤ lo + delta := by grind
    rw [Int64.le_iff_toInt_le] at hpos hle
    rw [hcpa]
    exact validateRangeString_range hpos hle _
  have hjunk : 0 ≤ defaults.jmax ∧ defaults.jmin ≤ 4294967295 := by grind
  simp only [fieldSpecs, List.forall_mem_cons]
  simp [FieldSpec.validate, validateJunkValue, htag, hrange, hjc, hmin, hmax, hjunk]

/-- Whatever the OS gives, six draws make defaults that are in their bands and that the validators
of their own fields accept. -/
theorem ClientDefaults.generate_accepted (base64 : Base64) (draws : List UInt64)
    (h : 6 ≤ draws.length) : ∃ defaults,
      ClientDefaults.generate draws = some (defaults, draws.drop 6) ∧ defaults.InBands ∧
      ∀ spec ∈ fieldSpecs, ∀ v ∈ spec.default defaults, spec.validate base64 v = .ok () := by
  obtain ⟨defaults, hgenerate⟩ :
      ∃ defaults, ClientDefaults.generate draws = some (defaults, draws.drop 6) := by
    rcases draws with _ | ⟨jc, _ | ⟨jmin, _ | ⟨jmax, _ | ⟨cpaLo, _ | ⟨cpaHi, _ | ⟨i1, rest⟩⟩⟩⟩⟩⟩
    case cons.cons.cons.cons.cons.cons => exact ⟨_, rfl⟩
    all_goals simp at h
  have hbands := ClientDefaults.generate_inBands hgenerate
  exact ⟨defaults, hgenerate, hbands, hbands.validate base64⟩

theorem ClientDefaults.generate_accepted_zeros : ∃ defaults,
    ClientDefaults.generate (List.replicate 6 0) = some (defaults, []) ∧ defaults.InBands := by
  obtain ⟨defaults, hgenerate, hbands, -⟩ :=
    ClientDefaults.generate_accepted .standard (List.replicate 6 0) (by decide)
  exact ⟨defaults, hgenerate, hbands⟩

theorem sampleDefaults_inBands : sampleDefaults.InBands :=
  ⟨by decide, by decide, ⟨50, by decide⟩, ⟨40, by decide⟩, ⟨8, 12, by decide⟩⟩

end PartnerEdge.Awg
