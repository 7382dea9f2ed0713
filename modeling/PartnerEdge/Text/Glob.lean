import PartnerEdge.Text.Lines

/-!
# Shell patterns

The patterns of a shell's `case`: characters, bracket expressions and stars. Patterns that match two
texts match, one behind the other, the two texts together.
-/

namespace PartnerEdge.Text

inductive GlobAtom where
  | one (p : Char → Bool)
  | star

abbrev Glob := List GlobAtom

namespace Glob

def char (c : Char) : GlobAtom := .one (· == c)

def oneOf (cs : List Char) : GlobAtom := .one (cs.contains ·)

def range (lo hi : Char) : GlobAtom := .one fun x => lo ≤ x && x ≤ hi

/-- A pattern without special characters. -/
def literal (s : String) : Glob := s.toList.map char

def accepts : Glob → Str → Bool
  | [], s => s.isEmpty
  | .star :: g, s => s.tails.any (accepts g ·)
  | .one _ :: _, [] => false
  | .one p :: g, x :: s => p x && accepts g s

theorem accepts_append {g h : Glob} {s t : Str} (hs : accepts g s = true)
    (ht : accepts h t = true) : accepts (g ++ h) (s ++ t) = true := by
  induction g generalizing s with
  | nil =>
    rw [accepts, List.isEmpty_iff] at hs
    rwa [hs]
  | cons atom g ih =>
    cases atom with
    | star =>
      rw [accepts, List.any_eq_true] at hs
      obtain ⟨u, hu, hg⟩ := hs
      obtain ⟨v, rfl⟩ := (List.mem_tails _ _).1 hu
      rw [List.cons_append, accepts, List.any_eq_true]
      exact ⟨u ++ t, (List.mem_tails _ _).2 ⟨v, by simp⟩, ih hg⟩
    | one p =>
      cases s with
      | nil => cases hs
      | cons x s =>
        rw [accepts, Bool.and_eq_true] at hs
        exact Bool.and_eq_true_iff.2 ⟨hs.1, ih hs.2⟩

theorem accepts_star (s : Str) : accepts [.star] s = true := by
  rw [accepts, List.any_eq_true]
  exact ⟨[], (List.mem_tails _ _).2 (List.nil_suffix), rfl⟩

/-- A star takes up to the character, and another one the rest. -/
theorem accepts_star_char_star (s : Str) (c : Char) (t : Str) :
    accepts [.star, char c, .star] (s ++ c :: t) = true := by
  rw [accepts, List.any_eq_true]
  refine ⟨c :: t, (List.mem_tails _ _).2 (List.suffix_append s (c :: t)), ?_⟩
  rw [char, accepts, beq_self_eq_true, Bool.true_and, accepts_star]

end Glob

end PartnerEdge.Text
