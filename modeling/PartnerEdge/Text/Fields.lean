import PartnerEdge.Text.Scan

/-!
# Fields between separators

A line cut at runs of separator characters, as awk cuts it, and as the shell's `read` does for a
fixed number of variables. A run of separators ends one field, so for `read` an empty field between
two separators is lost and the later ones move up.
-/

namespace PartnerEdge.Text

variable (isSep : Char → Bool)

/-- All fields; separators at the ends make no empty ones. -/
def fieldsBy (s : Str) : List Str := (s.splitOnP isSep).filter (!·.isEmpty)

variable {isSep} in
theorem fieldsBy_eq_singleton {s : Str} (hne : s ≠ []) (hsep : ∀ c ∈ s, isSep c = false) :
    fieldsBy isSep s = [s] := by
  rw [fieldsBy, List.splitOnP_eq_singleton hsep]
  simp [hne]

/-- The fields for so many variables, of a line that does not begin with a separator. The last
variable takes all that is left, without the separators at the end. -/
def readFieldsFrom : Nat → Str → List Str
  | 0, _ => []
  | 1, s => [(s.reverse.dropWhile isSep).reverse]
  | n + 2, s =>
    s.takeWhile (!isSep ·) :: readFieldsFrom (n + 1) ((s.dropWhile (!isSep ·)).dropWhile isSep)

def readFields (n : Nat) (line : Str) : List Str := readFieldsFrom isSep n (line.dropWhile isSep)

/-- What awk reads as the number of a field: the digits that it begins with. -/
def awkNumber (s : Str) : Nat := Nat.ofDigitChars 10 (s.takeWhile Char.isDigit) 0

/-- Spaces and tabs. -/
def isGap (c : Char) : Bool := c == ' ' || c == '\t'

example : fieldsBy isGap " a\t b ".toList = ["a".toList, "b".toList] := by decide

example : readFields isGap 2 " a  b c ".toList = ["a".toList, "b c".toList] := by decide

/-! ## Joined words -/

variable {sep : Char}

theorem readFieldsFrom_nil (n : Nat) : readFieldsFrom (· == sep) n [] = List.replicate n [] := by
  induction n with
  | zero => rfl
  | succ n ih =>
    cases n with
    | zero => rfl
    | succ n =>
      rw [readFieldsFrom, List.dropWhile_nil, List.dropWhile_nil, ih]
      rfl

theorem readFieldsFrom_of_notMem {w : Str} (h : sep ∉ w) : readFieldsFrom (· == sep) 1 w = [w] := by
  have hlast : w.reverse.dropWhile (· == sep) = w.reverse := by
    rw [List.dropWhile_eq_self_iff]
    intro hlength
    simp only [beq_iff_eq]
    exact fun heq => h (List.mem_reverse.1 (heq ▸ List.getElem_mem _))
  rw [readFieldsFrom, hlast, List.reverse_reverse]

/-- The words that follow a first one, with the separator before them. -/
def moreWords (sep : Char) (ws : List Str) : Str := ws.flatMap (sep :: ·)

theorem dropWhile_moreWords (ws : List Str) : (moreWords sep ws).dropWhile (· == sep) =
    ([sep].intercalate ws).dropWhile (· == sep) := by
  cases ws with
  | nil => rfl
  | cons w ws =>
    rw [intercalate_cons, moreWords, List.flatMap_cons, List.cons_append,
      List.dropWhile_cons_of_pos (by simp)]

theorem takeWhile_append_moreWords {w : Str} (h : sep ∉ w) (ws : List Str) :
    (w ++ moreWords sep ws).takeWhile (!· == sep) = w ∧
      (w ++ moreWords sep ws).dropWhile (!· == sep) = moreWords sep ws := by
  have hall : ∀ c ∈ w, (!c == sep) = true := by
    intro c hc
    simp only [Bool.not_eq_true', beq_eq_false_iff_ne]
    exact fun heq => h (heq ▸ hc)
  rw [List.takeWhile_append_of_pos hall, List.dropWhile_append_of_pos hall]
  cases ws with
  | nil => simp [moreWords]
  | cons w' ws => simp [moreWords]

/-- The words that are not empty are read, and then there are only empty ones. -/
theorem readFields_intercalate {n : Nat} {ws : List Str} (hws : ∀ w ∈ ws, sep ∉ w)
    (hn : ws.length ≤ n) : readFields (· == sep) n ([sep].intercalate ws) =
      ws.filter (!·.isEmpty) ++ List.replicate (n - (ws.filter (!·.isEmpty)).length) [] := by
  induction ws generalizing n with
  | nil =>
    rw [readFields, List.intercalate_nil, List.dropWhile_nil, readFieldsFrom_nil]
    rfl
  | cons w ws ih =>
    obtain ⟨hw, hrest⟩ := List.forall_mem_cons.1 hws
    rw [List.length_cons] at hn
    rw [readFields, intercalate_cons, ← moreWords]
    cases w with
    | nil =>
      rw [List.nil_append, dropWhile_moreWords, ← readFields, ih hrest (by omega)]
      rfl
    | cons c w =>
      have hstart : ((c :: w) ++ moreWords sep ws).dropWhile (· == sep) =
          (c :: w) ++ moreWords sep ws := by
        refine List.dropWhile_cons_of_neg ?_
        simp only [beq_iff_eq]
        exact fun heq => hw (heq ▸ List.mem_cons_self)
      obtain ⟨htake, hdrop⟩ := takeWhile_append_moreWords hw ws
      rw [hstart, List.filter_cons_of_pos (by rfl), List.length_cons]
      cases n with
      | zero => omega
      | succ n =>
        cases n with
        | zero =>
          obtain rfl : ws = [] := List.length_eq_zero_iff.1 (by omega)
          exact (congrArg _ (List.append_nil _)).trans (readFieldsFrom_of_notMem hw)
        | succ n =>
          rw [readFieldsFrom, htake, hdrop, dropWhile_moreWords, ← readFields, ih hrest (by omega)]
          simp

end PartnerEdge.Text
