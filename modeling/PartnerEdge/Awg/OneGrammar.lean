import PartnerEdge.Awg.ITag
import PartnerEdge.Awg.InstallRows

/-!
# Two writers, one grammar

Installer and agent both write I-tags and ranges into the conf, each behind validators of its own.
The shell compares numbers in 64 bits that wrap, so it caps their digits before it looks at them.
Apart from these caps, which only longer spellings and larger numbers meet, the two accept the same
texts.
-/

namespace PartnerEdge.Awg

open Text

/-! ## Numbers of few digits -/

/-- Up to eighteen digits nothing wraps. -/
theorem toInt_base10 {s : Str} (h : ∀ c ∈ s, c.isDigit = true) (hlength : s.length ≤ 18) :
    (base10 s).toInt = Nat.ofDigitChars 10 s 0 := by
  have hlt : Nat.ofDigitChars 10 s 0 < 10 ^ 18 := by
    have hlt := ofDigitChars_lt (List.all_eq_true.2 h) 0
    rw [zero_add, one_mul] at hlt
    exact hlt.trans_le (Nat.pow_le_pow_right (Nat.succ_pos 9) hlength)
  rw [base10, ← Int64.ofInt_eq_ofNat, Int64.toInt_ofInt_of_le (by grind) (by grind)]

/-! ## Tags -/

/-- A lead that the wanted text cannot begin with is there or not; removing it settles which. -/
theorem withoutLead_iff (lead s : Str) {P : Str → Prop} (hP : ∀ rest, ¬ P (lead ++ rest)) :
    P (withoutLead lead s) ↔ ∃ rest, (s = rest ∨ s = lead ++ rest) ∧ P rest := by
  unfold withoutLead
  split
  · next hlead =>
    obtain ⟨rest, rfl⟩ := List.isPrefixOf_iff_prefix.1 hlead
    simp only [List.drop_left, List.append_cancel_left_eq]
    grind
  · next hlead =>
    have hne : ∀ rest, s ≠ lead ++ rest := by
      rintro rest rfl
      exact hlead (List.isPrefixOf_iff_prefix.2 (List.prefix_append lead rest))
    grind

theorem isHexArg_iff {arg : Str} : IsHexArg arg ↔ withoutLead "0x".toList arg ≠ [] ∧
    (withoutLead "0x".toList arg).length % 2 = 0 ∧
    ∀ c ∈ withoutLead "0x".toList arg, isHexdigit c = true := by
  have hx : isHexdigit 'x' = false := by decide
  exact (withoutLead_iff "0x".toList arg (P := fun digits => digits ≠ [] ∧
    digits.length % 2 = 0 ∧ ∀ c ∈ digits, isHexdigit c = true) (by simp [hx])).symm

theorem isLengthArg_iff {arg : Str} : IsLengthArg arg ↔ withoutLead ['+'] arg ≠ [] ∧
    (∀ c ∈ withoutLead ['+'] arg, c.isDigit = true) ∧
    Nat.ofDigitChars 10 (withoutLead ['+'] arg) 0 ≤ 65535 :=
  (withoutLead_iff ['+'] arg (P := fun digits => digits ≠ [] ∧
    (∀ c ∈ digits, c.isDigit = true) ∧ Nat.ofDigitChars 10 digits 0 ≤ 65535) (by simp)).symm

/-- What the installer asks of the number of a length argument. -/
theorem isDigitsUpTo_and_base10_iff {s : Str} :
    (isDigitsUpTo 5 s && base10 s ≤ 65535) = true ↔
      (s ≠ [] ∧ (∀ c ∈ s, c.isDigit = true) ∧ Nat.ofDigitChars 10 s 0 ≤ 65535) ∧ s.length ≤ 5 := by
  rw [Bool.and_eq_true, isDigitsUpTo_iff, List.all_eq_true, decide_eq_true_iff]
  have hvalue : (∀ c ∈ s, c.isDigit = true) → s.length ≤ 5 →
      (base10 s ≤ 65535 ↔ Nat.ofDigitChars 10 s 0 ≤ 65535) := by
    intro hdigits hlength
    rw [Int64.le_iff_toInt_le, toInt_base10 hdigits (by omega)]
    simp
  grind

/-- A length argument has at most five digits. -/
def ShortLength (body : Str) : Prop :=
  ∀ key arg, ' ' ∉ key → body = key ++ ' ' :: arg → key ∈ lengthKeys →
    (withoutLead ['+'] arg).length ≤ 5

theorem awgITagToken_joinArg {key : Str} (hkey : ' ' ∉ key) (arg : Option Str) :
    awgITagToken (joinArg key arg) = true ↔
      IsTag key arg ∧ (key ∈ lengthKeys → ∀ a ∈ arg, (withoutLead ['+'] a).length ≤ 5) := by
  have hsplit : (splitOnce ' ' (joinArg key arg)).getD (joinArg key arg, []) =
      (key, arg.getD []) := by
    cases arg with
    | none => simp [joinArg, splitOnce_of_notMem hkey]
    | some arg => simp [joinArg, splitOnce_append hkey]
  have hb : ['b'] ∉ lengthKeys ++ freeKeys := by decide
  have hdisjoint : ∀ k ∈ lengthKeys, k ∉ freeKeys := by decide
  have hlength : (["r", "rc", "rd", "dz"].map String.toList).contains key = true ↔
      key ∈ lengthKeys := by
    rw [List.contains_iff_mem]
    rfl
  have hfree : (["t", "d", "ds"].map String.toList).contains key = true ↔ key ∈ freeKeys := by
    rw [List.contains_iff_mem]
    rfl
  have hhexArg : (!(withoutLead "0x".toList (arg.getD [])).isEmpty &&
      (withoutLead "0x".toList (arg.getD [])).length % 2 == 0 &&
      (withoutLead "0x".toList (arg.getD [])).all isHexdigit) = true ↔ ∃ a ∈ arg, IsHexArg a := by
    cases arg with
    | none => simp [withoutLead]
    | some arg => simp [isHexArg_iff, and_assoc]
  have hlengthArg : (isDigitsUpTo 5 (withoutLead ['+'] (arg.getD [])) &&
      base10 (withoutLead ['+'] (arg.getD [])) ≤ 65535) = true ↔
        (∃ a ∈ arg, IsLengthArg a) ∧ ∀ a ∈ arg, (withoutLead ['+'] a).length ≤ 5 := by
    rw [isDigitsUpTo_and_base10_iff]
    cases arg with
    | none => simp [withoutLead]
    | some arg => simp [isLengthArg_iff]
  simp only [awgITagToken, hsplit, hlength, hfree, IsTag]
  split_ifs with hkeyb hkeyf hkeyl
  · rw [hhexArg]
    grind
  · grind
  · rw [hlengthArg]
    grind
  · grind

theorem awgITagToken_iff {body : Str} :
    awgITagToken body = true ↔ validateTag body = .ok () ∧ ShortLength body := by
  cases hsplit : splitOnce ' ' body with
  | none =>
    have hkey := splitOnce_eq_none_iff.1 hsplit
    have hshort : ShortLength body := by
      rintro key arg - rfl
      simp at hkey
    exact (awgITagToken_joinArg hkey none).trans
      (and_congr (validateTag_joinArg hkey none).symm (by simp [hshort]))
  | some parts =>
    obtain ⟨key, arg⟩ := parts
    obtain ⟨hkey, rfl⟩ := splitOnce_eq_some_iff.1 hsplit
    have hshort : ShortLength (key ++ ' ' :: arg) ↔
        (key ∈ lengthKeys → (withoutLead ['+'] arg).length ≤ 5) := by
      refine ⟨fun h => h key arg hkey rfl, fun h key' arg' hkey' heq => ?_⟩
      have hcut : some (key, arg) = some (key', arg') := by
        rw [← hsplit, heq, splitOnce_append hkey']
      simp only [Option.some.injEq, Prod.mk.injEq] at hcut
      obtain ⟨rfl, rfl⟩ := hcut
      exact h
    exact (awgITagToken_joinArg hkey (some arg)).trans
      (and_congr (validateTag_joinArg hkey (some arg)).symm (by simp [hshort]))

theorem awgITagTokens_iff {fuel : Nat} {s : Str} :
    awgITagTokens fuel s = true ↔ ∃ bodies, tagBodies fuel s = some bodies ∧
      ∀ body ∈ bodies, awgITagToken body = true := by
  induction fuel generalizing s with
  | zero => simp [awgITagTokens, tagBodies]
  | succ fuel ih =>
    rw [awgITagTokens, tagBodies]
    cases splitOnce '<' s with
    | none => simp
    | some parts =>
      obtain ⟨text, inner⟩ := parts
      cases hclose : splitOnce '>' inner with
      | none => simp [hclose]
      | some parts =>
        simp only [hclose, Bool.and_eq_true, ih, Option.map_eq_some_iff, exists_exists_and_eq_and]
        grind

/-- Every length argument of the literal has at most five digits. -/
def HasShortLengths (s : Str) : Prop := ∀ body ∈ (tagBodies s.length s).getD [], ShortLength body

theorem awgItag_iff {s : Str} :
    awgItag s = true ↔ validateITagGrammar s = .ok () ∧ HasShortLengths s := by
  rw [awgItag, Bool.and_eq_true, List.contains_iff_mem, awgITagTokens_iff,
    validateITagGrammar_iff_bodies, HasShortLengths]
  simp only [awgITagToken_iff]
  cases hbodies : tagBodies s.length s with
  | none => simp
  | some bodies =>
    have hopen : '<' ∈ s ↔ bodies ≠ [] := by
      obtain ⟨pieces, last, -, hlast, rfl, rfl⟩ := (tagBodies_iff le_rfl).1 hbodies
      cases pieces <;> simp [writePieces, hlast]
    rw [hopen]
    simp only [Option.some.injEq, exists_eq_left', Option.getD_some]
    grind

/-! ## Ranges -/

/-- The two ends of a range; a single number is both. -/
def rangeMembers (s : Str) : Str × Str := (splitOnce '-' s).getD (s, s)

/-- Both ends have at most eighteen digits. -/
def HasShortMembers (s : Str) : Prop :=
  (rangeMembers s).1.length ≤ 18 ∧ (rangeMembers s).2.length ≤ 18

theorem awgRange_iff_members {s : Str} : awgRange s = true ↔
    isDigitsUpTo 18 (rangeMembers s).1 = true ∧ isDigitsUpTo 18 (rangeMembers s).2 = true ∧
      base10 (rangeMembers s).1 ≤ base10 (rangeMembers s).2 := by
  unfold awgRange rangeBounds rangeMembers
  cases splitOnce '-' s with
  | none => grind
  | some parts => grind

theorem isRangeString_iff_members {s : Str} : isRangeString s = true ↔
    ∃ lo hi, parseDigits (rangeMembers s).1 = some lo ∧ parseDigits (rangeMembers s).2 = some hi ∧
      hi < 2 ^ 64 ∧ lo ≤ hi := by
  have hdigits : ∀ t : Str, (!t.isEmpty && t.all Char.isDigit) = (parseDigits t).isSome := by
    intro t
    unfold parseDigits
    split <;> simp_all
  unfold isRangeString rangeMembers
  generalize (splitOnce '-' s).getD (s, s) = members
  obtain ⟨lo, hi⟩ := members
  simp only [hdigits]
  cases hlo : parseDigits lo with
  | none => simp
  | some m =>
    cases hhi : parseDigits hi with
    | none => simp
    | some n =>
      simp only [parseU64_of_parseDigits hlo, parseU64_of_parseDigits hhi]
      grind

theorem awgRange_iff {s : Str} :
    awgRange s = true ↔ isRangeString s = true ∧ HasShortMembers s := by
  rw [awgRange_iff_members, isRangeString_iff_members, HasShortMembers]
  generalize rangeMembers s = members
  obtain ⟨lo, hi⟩ := members
  simp only [isDigitsUpTo_iff, List.all_eq_true, parseDigits_eq_some_iff]
  have hvalue : (∀ c ∈ lo, c.isDigit = true) → (∀ c ∈ hi, c.isDigit = true) → lo.length ≤ 18 →
      hi.length ≤ 18 →
        (base10 lo ≤ base10 hi ↔ Nat.ofDigitChars 10 lo 0 ≤ Nat.ofDigitChars 10 hi 0) ∧
          Nat.ofDigitChars 10 hi 0 < 2 ^ 64 := by
    intro hlo hhi hlolen hhilen
    have hlt := (base10 hi).toInt_lt
    rw [toInt_base10 hhi hhilen] at hlt
    rw [Int64.le_iff_toInt_le, toInt_base10 hlo hlolen, toInt_base10 hhi hhilen]
    omega
  constructor
  · rintro ⟨⟨⟨hlone, hlo⟩, hlolen⟩, ⟨⟨hhine, hhi⟩, hhilen⟩, hle⟩
    obtain ⟨hiff, hlt⟩ := hvalue hlo hhi hlolen hhilen
    exact ⟨⟨_, _, ⟨hlone, hlo, rfl⟩, ⟨hhine, hhi, rfl⟩, hlt, hiff.1 hle⟩, hlolen, hhilen⟩
  · rintro ⟨⟨_, _, ⟨hlone, hlo, rfl⟩, ⟨hhine, hhi, rfl⟩, -, hle⟩, hlolen, hhilen⟩
    exact ⟨⟨⟨hlone, hlo⟩, hlolen⟩, ⟨⟨hhine, hhi⟩, hhilen⟩, (hvalue hlo hhi hlolen hhilen).1.2 hle⟩

theorem awgConfSafe_iff {field : Field} {s : Str} :
    awgConfSafe s = true ↔ validateConfString field s = .ok () := by
  rw [validateConfString_ok_iff]
  simp [awgConfSafe]
  grind

/-- The installer accepts an I-tag literal exactly when the agent does and no length argument has
more than five digits, and a range exactly when the agent does and no member has more than
eighteen. -/
theorem installer_accepts_iff (field : Field) (s : Str) (hne : s ≠ []) :
    ((awgConfSafe s && awgItag s) = true ↔
      validateITag field s = .ok () ∧ HasShortLengths s) ∧
    ((awgConfSafe s && awgRange s) = true ↔
      validateRangeString field s = .ok () ∧ HasShortMembers s) := by
  have hconf : awgConfSafe s = true ↔ validateConfString field s = .ok () := awgConfSafe_iff
  rw [Bool.and_eq_true, Bool.and_eq_true, hconf, awgItag_iff, awgRange_iff, validateITag,
    validateRangeString]
  cases validateConfString field s with
  | error e => simp [bind, Except.bind]
  | ok =>
    constructor
    · cases validateITagGrammar s <;> simp [bind, Except.bind, hne, Except.mapError]
    · cases isRangeString s <;> simp [bind, Except.bind]

theorem installer_accepts_lengthTag :
    ((awgConfSafe "<r 5>".toList && awgItag "<r 5>".toList) = true ↔
      validateITag .i1 "<r 5>".toList = .ok () ∧ HasShortLengths "<r 5>".toList) ∧
    ((awgConfSafe "<r 5>".toList && awgRange "<r 5>".toList) = true ↔
      validateRangeString .i1 "<r 5>".toList = .ok () ∧ HasShortMembers "<r 5>".toList) :=
  installer_accepts_iff .i1 "<r 5>".toList (by decide)

/-- A length of six digits and a member of nineteen, both with leading zeros: the agent takes them
and the installer does not. -/
theorem installer_refuses_leading_zeros :
    validateITag .i1 "<r 000005>".toList = .ok () ∧ awgItag "<r 000005>".toList = false ∧
      validateRangeString .rekeyAfterTime "0000000000000000005".toList = .ok () ∧
      awgRange "0000000000000000005".toList = false := by
  decide

end PartnerEdge.Awg
