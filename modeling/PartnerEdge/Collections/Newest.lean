import Mathlib.Data.List.Sort

/-!
# The newest of a list

Sorting and keeping the last few. In a strictly sorted list the last `k` are those with fewer than
`k` others behind them, so whether an element is kept can be told without sorting.
-/

namespace PartnerEdge

variable {α : Type*} {r : α → α → Prop} [DecidableRel r]

/-- `sort | tail -n k` -/
def newest (r : α → α → Prop) [DecidableRel r] (k : Nat) (l : List α) : List α :=
  (l.insertionSort r).drop (l.length - k)

theorem mem_drop_of_pairwise {l : List α} (hirrefl : ∀ a, ¬ r a a) (hasymm : ∀ a b, r a b → ¬ r b a)
    (h : l.Pairwise r) (k : Nat) (x : α) :
    x ∈ l.drop (l.length - k) ↔ x ∈ l ∧ l.countP (r x ·) < k := by
  induction l with
  | nil => simp
  | cons a l ih =>
    obtain ⟨ha, hl⟩ := List.pairwise_cons.1 h
    specialize ih hl
    have hcount : ∀ y, l.countP (r y ·) ≤ l.length := fun y => List.countP_le_length
    rcases Nat.lt_or_ge l.length k with hk | hk
    · -- everything is kept, and at most the rest of the list is behind an element
      rw [List.length_cons, Nat.sub_eq_zero_of_le hk, List.drop_zero, iff_self_and]
      intro hx
      rcases List.mem_cons.1 hx with rfl | hx
      · rw [List.countP_cons_of_neg (by simpa using hirrefl x)]
        exact (hcount x).trans_lt hk
      · rw [List.countP_cons_of_neg (by simpa using hasymm a x (ha x hx))]
        exact (hcount x).trans_lt hk
    · rw [List.length_cons, Nat.sub_add_comm hk, List.drop_succ_cons, ih, List.mem_cons]
      constructor
      · rintro ⟨hx, hlt⟩
        refine ⟨.inr hx, ?_⟩
        rwa [List.countP_cons_of_neg (by simpa using hasymm a x (ha x hx))]
      · rintro ⟨rfl | hx, hlt⟩
        · -- the first element has all the others behind it
          have hall : l.countP (r x ·) = l.length := List.countP_eq_length.2 (by simpa using ha)
          rw [List.countP_cons_of_neg (by simpa using hirrefl x)] at hlt
          omega
        · rw [List.countP_cons_of_neg (by simpa using hasymm a x (ha x hx))] at hlt
          exact ⟨hx, hlt⟩

/-- The newest `k` are the elements with fewer than `k` others above them. -/
theorem mem_newest_iff [DecidableEq α] [Std.Total r] [IsTrans α r] [Std.Antisymm r] {l : List α}
    (hl : l.Nodup) (k : Nat) (x : α) :
    x ∈ newest r k l ↔ x ∈ l ∧ l.countP (fun y => r x y ∧ x ≠ y) < k := by
  have hsorted : (l.insertionSort r).Pairwise fun x y => r x y ∧ x ≠ y :=
    (List.pairwise_insertionSort r l).and ((List.perm_insertionSort r l).nodup_iff.2 hl)
  have hasymm : ∀ a b, (r a b ∧ a ≠ b) → ¬ (r b a ∧ b ≠ a) :=
    fun a b hab hba => hab.2 (Std.Antisymm.antisymm a b hab.1 hba.1)
  rw [newest, ← List.length_insertionSort r l,
    mem_drop_of_pairwise (fun a h => h.2 rfl) hasymm hsorted, List.mem_insertionSort,
    (List.perm_insertionSort r l).countP_eq]

end PartnerEdge
