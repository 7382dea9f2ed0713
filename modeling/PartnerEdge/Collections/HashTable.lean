import Mathlib

/-!
# Hash tables

A hash table as the list of its entries, with the order in which a program goes through it: this can
be any order, and can differ from table to table.
-/

namespace PartnerEdge.Collections

structure HashOrder where
  list {α : Type} (table : Nat) (entries : List α) : List α
  perm {α : Type} (table : Nat) (entries : List α) : (list table entries).Perm entries

/-- Every table in the order of insertion. -/
def HashOrder.insertion : HashOrder := ⟨fun _ entries => entries, fun _ _ => .refl _⟩

theorem HashOrder.mem_list (order : HashOrder) {α : Type} {table : Nat} {entries : List α} {a : α} :
    a ∈ order.list table entries ↔ a ∈ entries := (order.perm table entries).mem_iff

/-- What a partial function keeps of a list, seen through a function that it respects. -/
theorem map_filterMap_sublist {α β γ : Type*} {f : α → Option β} {g : β → γ} {k : α → γ}
    (h : ∀ a b, f a = some b → g b = k a) (l : List α) :
    ((l.filterMap f).map g).Sublist (l.map k) := by
  induction l with
  | nil => exact .slnil
  | cons a l ih =>
    rw [List.filterMap_cons]
    split
    · exact ih.cons _
    · next b hb =>
      rw [List.map_cons, List.map_cons, h a b hb]
      exact ih.cons_cons _

variable {κ ν : Type*} [BEq κ]

/-- The table with one more entry, or with another value for a key that it has. -/
def insertEntry (table : List (κ × ν)) (entry : κ × ν) : List (κ × ν) :=
  if (table.map Prod.fst).contains entry.1 then
    table.map fun e => if e.1 == entry.1 then entry else e
  else table ++ [entry]

/-- The table of a sequence of entries. Of several entries of one key, the last stays. -/
def collect (entries : List (κ × ν)) : List (κ × ν) := entries.foldl insertEntry []

variable [LawfulBEq κ]

theorem collect_of_nodup {entries : List (κ × ν)} (h : (entries.map Prod.fst).Nodup) :
    collect entries = entries := by
  induction entries using List.reverseRecOn with
  | nil => rfl
  | append_singleton entries e ih =>
    rw [List.map_append, List.nodup_append] at h
    have hnew : e.1 ∉ entries.map Prod.fst := fun he => h.2.2 _ he e.1 (by simp) rfl
    rw [collect, List.foldl_append]
    change insertEntry (collect entries) e = _
    rw [ih h.1, insertEntry, if_neg (by simpa using hnew)]

theorem lookup_eq_some_iff_mem {table : List (κ × ν)} (h : (table.map Prod.fst).Nodup) {k : κ}
    {v : ν} : table.lookup k = some v ↔ (k, v) ∈ table := by
  induction table with
  | nil => simp
  | cons e table ih =>
    obtain ⟨l, w⟩ := e
    obtain ⟨hl, htable⟩ := List.nodup_cons.1 h
    by_cases hk : k = l
    · subst hk
      have hnone : (k, v) ∉ table := fun hmem => hl (List.mem_map.2 ⟨_, hmem, rfl⟩)
      simp [hnone, eq_comm]
    · rw [List.lookup_cons, beq_false_of_ne hk, List.mem_cons, ih htable]
      simp [hk]

end PartnerEdge.Collections
