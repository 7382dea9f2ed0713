import Mathlib

/-!
# Text as lines

A text is a list of characters. Its lines are what newlines separate, so there is always at least
one, and a final newline is followed by an empty line.
-/

namespace PartnerEdge.Text

abbrev Str := List Char

/-- A property of a literal. Its characters are found by `rfl`, where evaluating `toList` would
decode them one by one. -/
theorem of_literal {P : Str → Prop} {s : String} {t : Str} (h : s = String.ofList t) (ht : P t) :
    P s.toList := by
  rwa [h, String.toList_ofList]

def lines (t : Str) : List Str := t.splitOn '\n'

def joinLines (ls : List Str) : Str := ['\n'].intercalate ls

/-- The lines `ls` as they follow an earlier line. -/
def followedBy (ls : List Str) : Str := ls.flatMap ('\n' :: ·)

/-- Lists of lines that are the lines of some text. -/
structure AreLines (ls : List Str) : Prop where
  ne_nil : ls ≠ []
  newline_notMem : ∀ l ∈ ls, '\n' ∉ l

/-- What is joined by a separator is the first part, and the others each behind the separator. -/
theorem intercalate_cons (sep : Char) (w : Str) (ws : List Str) :
    [sep].intercalate (w :: ws) = w ++ ws.flatMap (sep :: ·) := by
  induction ws generalizing w with
  | nil => simp
  | cons w' ws ih =>
    rw [List.intercalate_cons_cons, ih, List.flatMap_cons]
    simp

theorem joinLines_cons (l : Str) (ls : List Str) : joinLines (l :: ls) = l ++ followedBy ls :=
  intercalate_cons '\n' l ls

@[simp] theorem followedBy_nil : followedBy [] = [] := rfl

theorem followedBy_cons (l : Str) (ls : List Str) :
    followedBy (l :: ls) = '\n' :: joinLines (l :: ls) := by
  rw [joinLines_cons]
  rfl

/-- The text up to the end of a line, and what follows the line. -/
theorem joinLines_append_cons (before : List Str) (l : Str) (after : List Str) :
    joinLines (before ++ l :: after) = joinLines (before ++ [l]) ++ followedBy after := by
  cases before <;> simp [joinLines_cons, followedBy]

@[simp] theorem joinLines_lines (t : Str) : joinLines (lines t) = t := List.intercalate_splitOn '\n'

theorem lines_joinLines {ls : List Str} (h : AreLines ls) : lines (joinLines ls) = ls :=
  List.splitOn_intercalate '\n' h.newline_notMem h.ne_nil

theorem areLines_lines (t : Str) : AreLines (lines t) := by
  refine ⟨List.splitOn_ne_nil '\n' t, ?_⟩
  induction t with
  | nil => simp [lines]
  | cons c t ih =>
    intro l hl
    rw [lines, List.splitOn_cons_eq_if_modifyHead] at hl
    split at hl
    · rcases List.mem_cons.mp hl with rfl | hl
      · simp
      · exact ih l hl
    · next hc =>
      cases hls : List.splitOn '\n' t with
      | nil => exact absurd hls (List.splitOn_ne_nil '\n' t)
      | cons first rest =>
        rw [hls, List.modifyHead_cons] at hl
        rcases List.mem_cons.mp hl with rfl | hl
        · have hfirst := ih first (by simp [lines, hls])
          have hc : c ≠ '\n' := by simpa using hc
          simp [hfirst, Ne.symm hc]
        · exact ih l (by simp [lines, hls, hl])

theorem AreLines.of_cons {l : Str} {ls : List Str} (h : AreLines (l :: ls)) (hne : ls ≠ []) :
    AreLines ls :=
  ⟨hne, fun x hx => h.newline_notMem x (List.mem_cons_of_mem _ hx)⟩

theorem AreLines.map {ls : List Str} (h : AreLines ls) {f : Str → Str}
    (hf : ∀ l, '\n' ∉ l → '\n' ∉ f l) : AreLines (ls.map f) := by
  refine ⟨by simpa using h.ne_nil, ?_⟩
  intro l hl
  obtain ⟨l', hl', rfl⟩ := List.mem_map.mp hl
  exact hf l' (h.newline_notMem l' hl')

/-- Adding a block of lines somewhere. -/
theorem AreLines.insert {before after block : List Str} (h : AreLines (before ++ after))
    (hblock : ∀ l ∈ block, '\n' ∉ l) : AreLines (before ++ block ++ after) := by
  refine ⟨?_, ?_⟩
  · intro hnil
    have := h.ne_nil
    simp_all
  · intro l hl
    have := h.newline_notMem l
    have := hblock l
    simp only [List.mem_append] at *
    tauto

end PartnerEdge.Text
