import PartnerEdge.Text.Scan

/-!
# Files of terminated lines

Rust's `str::lines` reads a file whose lines each end in a newline: the newline is not part of the
line, nor is a carriage return before it, and nothing follows the last one. The other functions here
take such a line apart from its end.
-/

namespace PartnerEdge.Text

/-- Each line with its newline. -/
def terminate (ls : List Str) : Str := ls.flatMap (· ++ ['\n'])

/-- A line without the carriage return before its newline. -/
def dropCr (l : Str) : Str := if l.getLast? = some '\r' then l.dropLast else l

/-- `str::lines`. What follows the last newline is a line unless it is empty. -/
def strLines (t : Str) : List Str :=
  (lines t).dropLast.map dropCr ++ (lines t).getLast?.toList.filter (!·.isEmpty)

theorem terminate_append (ls : List Str) (t : Str) :
    terminate ls ++ t = joinLines (ls ++ lines t) := by
  have hfollowed : ∀ ls, followedBy (ls ++ lines t) = '\n' :: (terminate ls ++ t) := by
    intro ls
    induction ls with
    | nil =>
      obtain ⟨l, ls, hlines⟩ := List.exists_cons_of_ne_nil (areLines_lines t).ne_nil
      rw [List.nil_append, hlines, followedBy_cons, ← hlines, joinLines_lines]
      rfl
    | cons l ls ih => simpa [followedBy, terminate] using ih
  cases ls with
  | nil => exact (joinLines_lines t).symm
  | cons l ls =>
    rw [List.cons_append, joinLines_cons, hfollowed]
    simp [terminate]

/-- What follows terminated lines is read on its own. -/
theorem lines_terminate_append {ls : List Str} (h : ∀ l ∈ ls, '\n' ∉ l) (t : Str) :
    lines (terminate ls ++ t) = ls ++ lines t := by
  rw [terminate_append]
  refine lines_joinLines ⟨by simp [(areLines_lines t).ne_nil], ?_⟩
  simpa [or_imp, forall_and] using ⟨h, (areLines_lines t).newline_notMem⟩

theorem joinLines_concat_nil (ls : List Str) : joinLines (ls ++ [[]]) = terminate ls := by
  simpa [lines] using (terminate_append ls []).symm

theorem lines_terminate {ls : List Str} (h : ∀ l ∈ ls, '\n' ∉ l) :
    lines (terminate ls) = ls ++ [[]] := by
  simpa [lines] using lines_terminate_append h []

theorem terminate_lines (t : Str) : terminate (lines t) = t ++ ['\n'] := by
  obtain ⟨before, l, hlines⟩ := List.eq_nil_or_concat (lines t) |>.resolve_left
    (areLines_lines t).ne_nil
  rw [List.concat_eq_append] at hlines
  rw [← joinLines_concat_nil, hlines, List.append_assoc, List.singleton_append,
    joinLines_append_cons, ← hlines, joinLines_lines]
  rfl

theorem lines_concat_newline (t : Str) : lines (t ++ ['\n']) = lines t ++ [[]] := by
  rw [← terminate_lines, lines_terminate (areLines_lines t).newline_notMem]

/-- The text ends where a line ends, so that what is appended to it begins a line. -/
def Terminated (t : Str) : Prop := t = [] ∨ t.getLast? = some '\n'

instance (t : Str) : Decidable (Terminated t) := inferInstanceAs (Decidable (_ ∨ _))

theorem lines_of_newline_notMem {l : Str} (h : '\n' ∉ l) : lines l = [l] := by
  have hjoin : joinLines [l] = l := by simp [joinLines]
  rw [← hjoin, lines_joinLines ⟨by simp, by simpa using h⟩, hjoin]

/-- A text is its terminated lines and what follows the last newline. -/
theorem exists_terminate_append (t : Str) :
    ∃ ls l, t = terminate ls ++ l ∧ (∀ x ∈ ls, '\n' ∉ x) ∧ '\n' ∉ l := by
  obtain ⟨ls, l, hlines⟩ := List.eq_nil_or_concat (lines t) |>.resolve_left
    (areLines_lines t).ne_nil
  rw [List.concat_eq_append] at hlines
  have hnewline := (areLines_lines t).newline_notMem
  rw [hlines, List.forall_mem_append] at hnewline
  have hl : '\n' ∉ l := hnewline.2 l (by simp)
  refine ⟨ls, l, ?_, hnewline.1, hl⟩
  rw [terminate_append, lines_of_newline_notMem hl, ← hlines, joinLines_lines]

theorem terminated_append_iff {ls : List Str} {l : Str} (hl : '\n' ∉ l) :
    Terminated (terminate ls ++ l) ↔ l = [] := by
  constructor
  · rintro (h | h)
    · exact (List.append_eq_nil_iff.1 h).2
    · by_contra hne
      rw [List.getLast?_append_of_ne_nil _ hne] at h
      exact hl (List.mem_of_getLast? h)
  · rintro rfl
    rcases List.eq_nil_or_concat ls with rfl | ⟨ls, x, rfl⟩
    · exact .inl rfl
    · exact .inr (by simp [terminate])

theorem lines_append_of_newline_notMem {ls : List Str} {l : Str} (hls : ∀ x ∈ ls, '\n' ∉ x)
    (hl : '\n' ∉ l) : lines (terminate ls ++ l) = ls ++ [l] := by
  rw [lines_terminate_append hls, lines_of_newline_notMem hl]

/-- Reading terminated lines gives them back, up to carriage returns. -/
theorem strLines_terminate {ls : List Str} (h : ∀ l ∈ ls, '\n' ∉ l) :
    strLines (terminate ls) = ls.map dropCr := by
  simp [strLines, lines_terminate h]

/-! ## Trimming -/

/-- A text that neither starts nor ends with white space. -/
theorem trim_eq_self_of_ends {c d : Char} {s : Str} (hc : isWhitespace c = false)
    (hd : isWhitespace d = false) : trim (c :: s ++ [d]) = c :: s ++ [d] := by
  simp [trim, hc, hd]

theorem head?_trim {c : Char} (hc : isWhitespace c = false) (s : Str) :
    (trim (c :: s)).head? = some c := by
  have hstart : (c :: s).dropWhile isWhitespace = c :: s := by simp [hc]
  rw [trim, hstart, List.reverse_cons, List.dropWhile_append]
  split <;> simp [hc]

theorem trim_ne_nil {s : Str} {c : Char} (hc : c ∈ s) (hw : isWhitespace c = false) :
    trim s ≠ [] := by
  intro hnil
  rw [trim, List.reverse_eq_nil_iff, List.dropWhile_eq_nil_iff] at hnil
  have hall : ∀ d ∈ s.dropWhile isWhitespace, isWhitespace d = true := fun d hd =>
    hnil d (List.mem_reverse.2 hd)
  rw [← List.takeWhile_append_dropWhile (p := isWhitespace) (l := s), List.mem_append] at hc
  rcases hc with hc | hc
  · rw [List.mem_takeWhile_imp hc] at hw
    cases hw
  · rw [hall c hc] at hw
    cases hw

theorem trim_concat (s : Str) {c : Char} (hc : isWhitespace c = true) :
    trim (s ++ [c]) = trim s := by
  rw [trim, trim, List.dropWhile_append]
  split
  next hempty => simp [List.isEmpty_iff.mp hempty, hc]
  next => simp [hc]

theorem trim_dropCr (l : Str) : trim (dropCr l) = trim l := by
  rcases List.eq_nil_or_concat l with rfl | ⟨l, c, rfl⟩
  · rfl
  · rw [List.concat_eq_append, dropCr]
    split
    next hlast =>
      obtain rfl : c = '\r' := by simpa using hlast
      rw [List.dropLast_concat, trim_concat l (by decide)]
    next => rfl

/-! ## The last separator -/

/-- The parts before and after the last separator. -/
def rsplitOnce (sep : Char) (s : Str) : Option (Str × Str) :=
  (splitOnce sep s.reverse).map fun (after, before) => (before.reverse, after.reverse)

theorem rsplitOnce_append (a : Str) {sep : Char} {b : Str} (h : sep ∉ b) :
    rsplitOnce sep (a ++ sep :: b) = some (a, b) := by
  have hreverse : (a ++ sep :: b).reverse = b.reverse ++ sep :: a.reverse := by simp
  rw [rsplitOnce, hreverse, splitOnce_append (by simpa using h)]
  simp

/-! ## What the shell takes from an output -/

/-- `$(…)` drops the newlines at the end of an output. -/
def substituted (output : Str) : Str := (output.reverse.dropWhile (· == '\n')).reverse

theorem substituted_concat {c : Char} (t : Str) :
    substituted (t ++ [c]) = if c = '\n' then substituted t else t ++ [c] := by
  by_cases hc : c = '\n' <;> simp [substituted, hc]

theorem substituted_line {t : Str} (h : '\n' ∉ t) : substituted (t ++ ['\n']) = t := by
  rw [substituted_concat, if_pos rfl]
  cases t using List.reverseRecOn with
  | nil => rfl
  | append_singleton t c =>
    rw [substituted_concat, if_neg]
    rintro rfl
    exact h (by simp)

/-- The newlines that are dropped end empty lines. -/
theorem filterMap_lines_substituted {α : Type} {f : Str → Option α} (hf : f [] = none) (t : Str) :
    (lines (substituted t)).filterMap f = (lines t).filterMap f := by
  induction t using List.reverseRecOn with
  | nil => rfl
  | append_singleton t c ih =>
    rw [substituted_concat]
    split
    next hc => simp [hc, lines_concat_newline, hf, ih]
    next => rfl

end PartnerEdge.Text
