import PartnerEdge.Text.Lines

/-!
# Scanning short fields

Trimming, splitting at a separator and decimal integers, as Rust's `str` and `i64` have them.
-/

namespace PartnerEdge.Text

/-! ## White space -/

/-- The Unicode `White_Space` property. -/
def isWhitespace (c : Char) : Bool :=
  let n := c.toNat
  (9 ≤ n && n ≤ 13) || n == 0x20 || n == 0x85 || n == 0xA0 || n == 0x1680 ||
    (0x2000 ≤ n && n ≤ 0x200A) || n == 0x2028 || n == 0x2029 || n == 0x202F || n == 0x205F ||
    n == 0x3000

/-- `[[:space:]]` -/
def isSpace (c : Char) : Bool :=
  c == ' ' || c == '\t' || c == '\n' || c == '\x0b' || c == '\x0c' || c == '\r'

def trim (s : Str) : Str := ((s.dropWhile isWhitespace).reverse.dropWhile isWhitespace).reverse

theorem dropWhile_eq_self {p : Char → Bool} {s : Str} (h : ∀ c ∈ s, p c = false) :
    s.dropWhile p = s := by
  cases s with
  | nil => rfl
  | cons c s => simp [h c (by simp)]

theorem trim_eq_self {s : Str} (h : ∀ c ∈ s, isWhitespace c = false) : trim s = s := by
  rw [trim, dropWhile_eq_self h, dropWhile_eq_self (by simpa using h), List.reverse_reverse]

/-- Blanks already removed from the left make no difference. -/
theorem trim_dropWhile {p : Char → Bool} (hp : ∀ c, p c = true → isWhitespace c = true) (s : Str) :
    trim (s.dropWhile p) = trim s := by
  have hdrop : (s.dropWhile p).dropWhile isWhitespace = s.dropWhile isWhitespace := by
    induction s with
    | nil => rfl
    | cons c s ih =>
      cases hc : p c with
      | true => simp [hc, hp c hc, ih]
      | false => simp [hc]
  rw [trim, hdrop, trim]

/-! ## Separators -/

/-- The parts before and after the first separator. -/
def splitOnce (sep : Char) : Str → Option (Str × Str)
  | [] => none
  | c :: s => if c = sep then some ([], s) else (splitOnce sep s).map fun (a, b) => (c :: a, b)

theorem splitOnce_of_notMem {sep : Char} {s : Str} (h : sep ∉ s) : splitOnce sep s = none := by
  induction s with
  | nil => rfl
  | cons c s ih =>
    have hc : c ≠ sep := by grind
    simp [splitOnce, hc, ih (by grind)]

theorem splitOnce_append {sep : Char} {a : Str} (h : sep ∉ a) (b : Str) :
    splitOnce sep (a ++ sep :: b) = some (a, b) := by
  induction a with
  | nil => simp [splitOnce]
  | cons c a ih =>
    have hc : c ≠ sep := by grind
    simp [splitOnce, hc, ih (by grind)]

theorem splitOnce_eq_some_iff {sep : Char} {s a b : Str} :
    splitOnce sep s = some (a, b) ↔ sep ∉ a ∧ s = a ++ sep :: b := by
  refine ⟨fun h => ?_, by rintro ⟨hmem, rfl⟩; exact splitOnce_append hmem b⟩
  induction s generalizing a with
  | nil => simp [splitOnce] at h
  | cons c s ih =>
    rw [splitOnce] at h
    split at h
    · next hc =>
      obtain ⟨rfl, rfl⟩ := by simpa using h
      simp [hc]
    · simp only [Option.map_eq_some_iff, Prod.exists, Prod.mk.injEq] at h
      obtain ⟨a', b', hsplit, rfl, rfl⟩ := h
      grind

theorem splitOnce_eq_some {sep : Char} {s a b : Str} (h : splitOnce sep s = some (a, b)) :
    s = a ++ sep :: b :=
  (splitOnce_eq_some_iff.1 h).2

theorem splitOnce_eq_none_iff {sep : Char} {s : Str} : splitOnce sep s = none ↔ sep ∉ s := by
  refine ⟨fun h => ?_, splitOnce_of_notMem⟩
  fun_induction splitOnce sep s <;> grind [Option.map_eq_none_iff]

/-- What follows the first occurrence of a text. -/
def afterFirst (needle : Str) : Str → Option Str
  | [] => if needle.isEmpty then some [] else none
  | c :: s =>
    if needle.isPrefixOf (c :: s) then some ((c :: s).drop needle.length) else afterFirst needle s

theorem isPrefixOf_append_cons {needle : Str} {c : Char} (hc : c ∉ needle) (s t : Str) :
    needle.isPrefixOf (s ++ c :: t) = needle.isPrefixOf s := by
  induction needle generalizing s with
  | nil => simp
  | cons d needle ih =>
    cases s with
    | nil =>
      have hd : d ≠ c := by grind
      simp [List.isPrefixOf, hd]
    | cons e s => simp [List.isPrefixOf, ih (by grind)]

/-- A character that the searched text lacks divides the text. -/
theorem afterFirst_append_cons {needle : Str} (hne : needle ≠ []) {c : Char} (hc : c ∉ needle)
    (s t : Str) : afterFirst needle (s ++ c :: t) =
      ((afterFirst needle s).map (· ++ c :: t)).or (afterFirst needle t) := by
  induction s with
  | nil =>
    have hempty : needle.isPrefixOf (c :: t) = needle.isPrefixOf [] :=
      isPrefixOf_append_cons hc [] t
    cases needle with
    | nil => exact absurd rfl hne
    | cons d needle => simp [afterFirst, hempty]
  | cons d s ih =>
    have hstarts := isPrefixOf_append_cons hc (d :: s) t
    simp only [List.cons_append, afterFirst] at hstarts ⊢
    rw [hstarts]
    split
    · next hmatch =>
      have hlength := (List.isPrefixOf_iff_prefix.1 hmatch).length_le
      rw [← List.cons_append, List.drop_append_of_le_length hlength]
      rfl
    · exact ih

theorem append_dropLast_isPrefix (a needle t : Str) :
    a ++ needle.dropLast <+: a ++ needle ++ t :=
  ((List.prefix_append_right_inj a).2 (List.dropLast_prefix needle)).trans (List.prefix_append _ _)

theorem exists_of_afterFirst_eq_some {needle s t : Str} (hne : needle ≠ [])
    (h : afterFirst needle s = some t) :
    ∃ a, s = a ++ needle ++ t ∧ ¬ needle <:+: a ++ needle.dropLast := by
  fun_induction afterFirst needle s with
  | case1 hempty => simp_all
  | case2 => cases h
  | case3 c s hmatch =>
    obtain ⟨u, hu⟩ := List.isPrefixOf_iff_prefix.1 hmatch
    obtain rfl : u = t := by simpa [← hu] using h
    refine ⟨[], by simpa using hu.symm, fun hinner => ?_⟩
    have hlength := hinner.length_le
    have hpos := List.length_pos_iff.2 hne
    simp at hlength
    omega
  | case4 c s hmatch ih =>
    obtain ⟨a, rfl, hfirst⟩ := ih h
    refine ⟨c :: a, by simp, fun hinner => ?_⟩
    rcases List.infix_cons_iff.1 hinner with hstart | hinner
    · exact hmatch (List.isPrefixOf_iff_prefix.2
        (hstart.trans (append_dropLast_isPrefix (c :: a) needle t)))
    · exact hfirst hinner

theorem afterFirst_append {needle a : Str} (t : Str) (hne : needle ≠ [])
    (hfirst : ¬ needle <:+: a ++ needle.dropLast) :
    afterFirst needle (a ++ needle ++ t) = some t := by
  induction a with
  | nil =>
    obtain ⟨d, ds, rfl⟩ := List.exists_cons_of_ne_nil hne
    simp [afterFirst, List.isPrefixOf_iff_prefix]
  | cons c a ih =>
    have hmiss : ¬ needle.isPrefixOf (c :: (a ++ needle ++ t)) = true := by
      intro hstart
      have hshort : needle <+: c :: a ++ needle.dropLast :=
        List.prefix_of_prefix_length_le (List.isPrefixOf_iff_prefix.1 hstart)
          (append_dropLast_isPrefix (c :: a) needle t) (by simp; omega)
      exact hfirst hshort.isInfix
    rw [List.cons_append, List.cons_append, afterFirst, if_neg hmiss]
    exact ih fun hinner => hfirst (List.infix_cons_iff.2 (.inr hinner))

/-- The text after the first occurrence of a word: it stands once before it, at the end. -/
theorem afterFirst_eq_some_iff {needle s t : Str} (hne : needle ≠ []) :
    afterFirst needle s = some t ↔
      ∃ a, s = a ++ needle ++ t ∧ ¬ needle <:+: a ++ needle.dropLast := by
  refine ⟨exists_of_afterFirst_eq_some hne, ?_⟩
  rintro ⟨a, rfl, hfirst⟩
  exact afterFirst_append t hne hfirst

/-! ## Integers -/

def parseDigits (s : Str) : Option Nat :=
  if !s.isEmpty && s.all Char.isDigit then some (Nat.ofDigitChars 10 s 0) else none

def parseU64 (s : Str) : Option Nat := do
  let n ← match s with
    | '+' :: ds => parseDigits ds
    | ds => parseDigits ds
  if n < 2 ^ 64 then some n else none

def parseInt (s : Str) : Option Int :=
  match s with
  | '+' :: ds => (parseDigits ds).map Int.ofNat
  | '-' :: ds => (parseDigits ds).map fun n => -Int.ofNat n
  | ds => (parseDigits ds).map Int.ofNat

def parseI64 (s : Str) : Option Int64 := do
  let n ← parseInt s
  if -2 ^ 63 ≤ n ∧ n < 2 ^ 63 then some (Int64.ofInt n) else none

def showInt : Int → Str
  | .ofNat n => Nat.toDigits 10 n
  | .negSucc n => '-' :: Nat.toDigits 10 (n + 1)

def showI64 (n : Int64) : Str := showInt n.toInt

theorem isDigit_of_mem_toDigits {n : Nat} {c : Char} (h : c ∈ Nat.toDigits 10 n) :
    c.isDigit = true :=
  Nat.isDigit_of_mem_toDigits (by decide) (by decide) h

theorem parseDigits_toDigits (n : Nat) : parseDigits (Nat.toDigits 10 n) = some n := by
  have hall : (Nat.toDigits 10 n).all Char.isDigit = true :=
    List.all_eq_true.mpr fun c hc => isDigit_of_mem_toDigits hc
  have hne : (Nat.toDigits 10 n).isEmpty = false := by simp [Nat.toDigits_ne_nil]
  simp [parseDigits, hall, hne, Nat.ofDigitChars_ten_toDigits]

/-- Without a sign, what counts is whether the number fits. -/
theorem parseU64_of_parseDigits {s : Str} {n : Nat} (h : parseDigits s = some n) :
    parseU64 s = if n < 2 ^ 64 then some n else none := by
  unfold parseU64
  split
  · simp [parseDigits] at h
  · rw [h]
    rfl

theorem parseDigits_eq_some_iff {s : Str} {n : Nat} : parseDigits s = some n ↔
    s ≠ [] ∧ (∀ c ∈ s, c.isDigit = true) ∧ Nat.ofDigitChars 10 s 0 = n := by
  simp [parseDigits, and_assoc]

theorem parseU64_eq_some_iff {s : Str} {n : Nat} : parseU64 s = some n ↔
    n < 2 ^ 64 ∧ ∃ digits, (s = digits ∨ s = '+' :: digits) ∧ parseDigits digits = some n := by
  have hfits : ∀ o : Option Nat, (o.bind fun n => if n < 2 ^ 64 then some n else none) = some n ↔
      n < 2 ^ 64 ∧ o = some n := by
    intro o
    cases o <;> grind
  have hsign : ∀ digits, parseDigits ('+' :: digits) ≠ some n := by simp [parseDigits]
  unfold parseU64
  split
  · exact (hfits _).trans (and_congr_right fun _ => by grind)
  · exact (hfits _).trans (and_congr_right fun _ => by grind)

theorem parseU64_toDigits {n : Nat} (h : n < 2 ^ 64) : parseU64 (Nat.toDigits 10 n) = some n := by
  rw [parseU64_of_parseDigits (parseDigits_toDigits n), if_pos h]

theorem parseInt_showInt (n : Int) : parseInt (showInt n) = some n := by
  cases n with
  | negSucc n => simp [showInt, parseInt, parseDigits_toDigits, Int.negSucc_eq]
  | ofNat n =>
    have hsign : ∀ c ∈ Nat.toDigits 10 n, c ≠ '+' ∧ c ≠ '-' := by
      intro c hc
      have := isDigit_of_mem_toDigits hc
      constructor <;> rintro rfl <;> exact absurd this (by decide)
    rw [showInt]
    unfold parseInt
    split
    · next heq => exact absurd rfl (hsign '+' (by simp [heq])).1
    · next heq => exact absurd rfl (hsign '-' (by simp [heq])).2
    · simp [parseDigits_toDigits]

theorem parseI64_of_parseInt {s : Str} {n : Int} (h : parseInt s = some n) (hlo : -2 ^ 63 ≤ n)
    (hhi : n < 2 ^ 63) : parseI64 s = some (Int64.ofInt n) := by
  simp only [parseI64, h, Option.bind_eq_bind, Option.bind_some, if_pos (And.intro hlo hhi)]

theorem parseI64_showI64 (n : Int64) : parseI64 (showI64 n) = some n := by
  rw [showI64, parseI64_of_parseInt (parseInt_showInt _) n.le_toInt n.toInt_lt, Int64.ofInt_toInt]

theorem ofDigitChars_lt {s : Str} (h : s.all Char.isDigit = true) (init : Nat) :
    Nat.ofDigitChars 10 s init < (init + 1) * 10 ^ s.length := by
  induction s generalizing init with
  | nil => simp
  | cons c s ih =>
    obtain ⟨hc, hs⟩ : c.isDigit = true ∧ s.all Char.isDigit = true := by simpa using h
    have hdigit : c.toNat - '0'.toNat < 10 := by
      simp only [Char.isDigit, Bool.and_eq_true, decide_eq_true_eq, UInt32.le_iff_toNat_le] at hc
      simp only [Char.toNat]
      grind
    rw [Nat.ofDigitChars_cons, List.length_cons, Nat.pow_succ]
    calc Nat.ofDigitChars 10 s (10 * init + (c.toNat - '0'.toNat))
        < (10 * init + (c.toNat - '0'.toNat) + 1) * 10 ^ s.length := ih hs _
      _ ≤ (10 * (init + 1)) * 10 ^ s.length := by gcongr; omega
      _ = (init + 1) * (10 ^ s.length * 10) := by ring

/-- Up to eighteen digits the value does not depend on the width. -/
theorem parseI64_of_digits {s : Str} (hne : s ≠ []) (h : s.all Char.isDigit = true)
    (hlength : s.length ≤ 18) : parseI64 s = some (Int64.ofNat (Nat.ofDigitChars 10 s 0)) := by
  have hparse : parseInt s = some (Int.ofNat (Nat.ofDigitChars 10 s 0)) := by
    have hdigits : parseDigits s = some (Nat.ofDigitChars 10 s 0) := by simp [parseDigits, hne, h]
    unfold parseInt
    split
    · simp at h
    · simp at h
    · rw [hdigits]
      rfl
  have hbound : Nat.ofDigitChars 10 s 0 < 10 ^ 18 := by
    have hlt := ofDigitChars_lt h 0
    rw [zero_add, one_mul] at hlt
    exact hlt.trans_le (Nat.pow_le_pow_right (Nat.succ_pos 9) hlength)
  rw [← Int64.ofInt_eq_ofNat]
  exact parseI64_of_parseInt hparse (by grind) (by grind)

/-- The characters of an integer. -/
theorem mem_showInt {n : Int} {c : Char} (h : c ∈ showInt n) : c.isDigit = true ∨ c = '-' := by
  cases n with
  | ofNat n => exact .inl (isDigit_of_mem_toDigits h)
  | negSucc n =>
    rcases List.mem_cons.1 h with rfl | h
    · exact .inr rfl
    · exact .inl (isDigit_of_mem_toDigits h)

theorem mem_showI64 {n : Int64} {c : Char} (h : c ∈ showI64 n) : c.isDigit = true ∨ c = '-' :=
  mem_showInt h

theorem isDigit_of_mem_showI64 {n : Int64} (hn : 0 ≤ n.toInt) {c : Char} (h : c ∈ showI64 n) :
    c.isDigit = true := by
  rw [showI64] at h
  obtain ⟨m, hm⟩ := Int.eq_ofNat_of_zero_le hn
  rw [hm] at h
  exact isDigit_of_mem_toDigits h

theorem showInt_ne_nil (n : Int) : showInt n ≠ [] := by
  cases n with
  | ofNat n => exact Nat.toDigits_ne_nil
  | negSucc n => exact List.cons_ne_nil _ _

theorem showI64_ne_nil (n : Int64) : showI64 n ≠ [] := showInt_ne_nil _

theorem isWhitespace_of_isAlphanum {c : Char} (h : c.isAlphanum = true) :
    isWhitespace c = false := by
  have hrange : 48 ≤ c.toNat ∧ c.toNat ≤ 122 := by
    simp only [Char.isAlphanum, Char.isAlpha, Char.isUpper, Char.isLower, Char.isDigit,
      Bool.or_eq_true, Bool.and_eq_true, decide_eq_true_eq, UInt32.le_iff_toNat_le, ge_iff_le] at h
    simp only [Char.toNat]
    grind
  simp [isWhitespace]
  omega

/-! ## Numerals without leading zeros -/

theorem digitChar_of_isDigit {c : Char} (h : c.isDigit = true) :
    c.toNat - '0'.toNat < 10 ∧ Nat.digitChar (c.toNat - '0'.toNat) = c := by
  have hrange : 48 ≤ c.toNat ∧ c.toNat ≤ 57 := by
    simp only [Char.isDigit, Bool.and_eq_true, decide_eq_true_eq, UInt32.le_iff_toNat_le,
      ge_iff_le] at h
    simp only [Char.toNat]
    grind
  obtain ⟨hlo, hhi⟩ := hrange
  rw [← Char.ofNat_toNat c]
  generalize c.toNat = n at hlo hhi
  interval_cases n <;> decide

/-- A numeral without leading zeros is how its number is written. -/
theorem toDigits_ofDigitChars {s : Str} (hne : s ≠ []) (hdigits : ∀ c ∈ s, c.isDigit = true)
    (hlead : s.head? = some '0' → s.length = 1) :
    Nat.toDigits 10 (Nat.ofDigitChars 10 s 0) = s := by
  induction s using List.reverseRecOn with
  | nil => exact absurd rfl hne
  | append_singleton s c ih =>
    obtain ⟨hc, hchar⟩ := digitChar_of_isDigit (hdigits c (by simp))
    have hlast : Nat.toDigits 10 (c.toNat - '0'.toNat) = [c] := by
      rw [Nat.toDigits_of_lt_base hc, hchar]
    have hvalue : Nat.ofDigitChars 10 (s ++ [c]) 0 =
        10 * Nat.ofDigitChars 10 s 0 + (c.toNat - '0'.toNat) := by
      rw [Nat.ofDigitChars_append, Nat.ofDigitChars_cons]
      rfl
    cases s with
    | nil => simpa [hvalue, Nat.ofDigitChars] using hlast
    | cons d s =>
      have hd : (d :: s).head? ≠ some '0' := by
        intro hzero
        have hlength := hlead (by simpa using hzero)
        simp at hlength
      have hinit := ih (by simp) (fun x hx => hdigits x (List.mem_append_left _ hx))
        fun hzero => absurd hzero hd
      have hpos : 0 < Nat.ofDigitChars 10 (d :: s) 0 := by
        rw [Nat.pos_iff_ne_zero]
        intro hzero
        rw [hzero] at hinit
        exact hd (by rw [← hinit]; rfl)
      rw [hvalue, ← Nat.toDigits_append_toDigits (by decide) hpos hc, hinit, hlast]

/-! ## Numbers in shell arithmetic -/

/-- The number that digits stand for in an arithmetic expression: a leading zero makes them
octal. -/
def arithConstant (v : Str) : Option Nat :=
  if v.head? = some '0' then
    if v.all (· < '8') then some (Nat.ofDigitChars 8 v 0) else none
  else parseDigits v

/-- Only zero is written with a leading zero. -/
theorem eq_zero_of_head?_toDigits {n : Nat} (h : (Nat.toDigits 10 n).head? = some '0') : n = 0 := by
  obtain ⟨s, hs⟩ := List.head?_eq_some_iff.1 h
  have hn : Nat.ofDigitChars 10 s 0 = n := by
    rw [← Nat.ofDigitChars_ten_toDigits (n := n), hs, Nat.ofDigitChars_cons]
    rfl
  cases s with
  | nil => exact hn.symm
  | cons c s =>
    exfalso
    have hall : (c :: s).all Char.isDigit = true := List.all_eq_true.2 fun d hd =>
      isDigit_of_mem_toDigits (n := n) (hs ▸ List.mem_cons_of_mem _ hd)
    have hlt := ofDigitChars_lt hall 0
    rw [hn, zero_add, one_mul] at hlt
    have hlength := Nat.toDigits_length 10 n (c :: s).length (by simp) hlt
    rw [hs, List.length_cons] at hlength
    omega

theorem arithConstant_toDigits (n : Nat) : arithConstant (Nat.toDigits 10 n) = some n := by
  unfold arithConstant
  split
  · next hzero =>
    rw [eq_zero_of_head?_toDigits hzero]
    rfl
  · exact parseDigits_toDigits n

end PartnerEdge.Text
