import Mathlib.Data.List.Basic
import Mathlib.Tactic

/-!
# Segments of a ring

The slots of a ring of `n` places are numbered from zero. A segment visits consecutive slots and
goes on at zero after the last. Segments that each begin where the one before stopped are together
one segment, and `n` of them that are not empty visit every slot.
-/

namespace PartnerEdge.Cyclic

/-- The `len` slots from `start` on. -/
def segment (n start len : Nat) : List Nat := (List.range len).map fun i => (start + i) % n

@[simp] theorem length_segment (n start len : Nat) : (segment n start len).length = len := by
  simp [segment]

@[simp] theorem segment_zero (n start : Nat) : segment n start 0 = [] := rfl

theorem segment_add (n start a b : Nat) :
    segment n start (a + b) = segment n start a ++ segment n (start + a) b := by
  simp [segment, List.range_add, Nat.add_assoc]

theorem segment_mod (n start len : Nat) : segment n (start % n) len = segment n start len := by
  simp [segment]

/-- A full round visits every slot. -/
theorem mem_segment {n start len slot : Nat} (hslot : slot < n) (hlen : n ≤ len) :
    slot ∈ segment n start len := by
  have hstart : start % n < n := Nat.mod_lt _ (by omega)
  rw [← segment_mod, segment, List.mem_map]
  refine ⟨if start % n ≤ slot then slot - start % n else slot + n - start % n, ?_, ?_⟩
  · rw [List.mem_range]
    split <;> omega
  · split
    · rw [Nat.add_sub_cancel' (by assumption), Nat.mod_eq_of_lt hslot]
    · rw [Nat.add_sub_cancel' (by omega), Nat.add_mod_right, Nat.mod_eq_of_lt hslot]

/-- Segments that each begin where the one before stopped, the first one at `start`. -/
def Joined (n : Nat) : Nat → List (List Nat) → Prop
  | _, [] => True
  | start, slots :: rest =>
    slots = segment n start slots.length ∧ Joined n (start + slots.length) rest

variable {n start : Nat} {walks : List (List Nat)}

theorem joined_mod : Joined n (start % n) walks ↔ Joined n start walks := by
  induction walks generalizing start with
  | nil => exact Iff.rfl
  | cons slots rest ih =>
    rw [Joined, Joined, segment_mod, ← ih, Nat.mod_add_mod, ih]

theorem joined_append {walks' : List (List Nat)} (h : Joined n start (walks ++ walks')) :
    Joined n start walks ∧ ∃ stop, Joined n stop walks' := by
  induction walks generalizing start with
  | nil => exact ⟨trivial, start, h⟩
  | cons slots rest ih =>
    obtain ⟨hrest, hstop⟩ := ih h.2
    exact ⟨⟨h.1, hrest⟩, hstop⟩

theorem Joined.eq_segment (h : Joined n start walks) {slots : List Nat} (hslots : slots ∈ walks) :
    ∃ start, slots = segment n start slots.length := by
  obtain ⟨before, after, rfl⟩ := List.append_of_mem hslots
  obtain ⟨-, stop, hstop⟩ := joined_append h
  exact ⟨stop, hstop.1⟩

/-- The second walk is a segment that begins where the first one stopped. -/
def Continues (n : Nat) (slots slots' : List Nat) : Prop :=
  ∃ start, slots = segment n start slots.length ∧
    slots' = segment n (start + slots.length) slots'.length

theorem Joined.isChain (h : Joined n start walks) : walks.IsChain (Continues n) := by
  induction walks generalizing start with
  | nil => exact .nil
  | cons slots rest ih =>
    cases rest with
    | nil => exact .singleton slots
    | cons slots' rest => exact List.isChain_cons_cons.2 ⟨⟨start, h.1, h.2.1⟩, ih h.2⟩

theorem Joined.flatten (h : Joined n start walks) :
    walks.flatten = segment n start walks.flatten.length := by
  induction walks generalizing start with
  | nil => rfl
  | cons slots rest ih =>
    rw [List.flatten_cons, List.length_append, segment_add, ← h.1, ← ih h.2]

/-- As many segments as there are slots visit every slot, unless one is empty. -/
theorem Joined.covers (h : Joined n start walks) (hne : ∀ slots ∈ walks, slots ≠ [])
    (hlen : n ≤ walks.length) {slot : Nat} (hslot : slot < n) : ∃ slots ∈ walks, slot ∈ slots := by
  have htotal : walks.length ≤ walks.flatten.length := by
    rw [List.length_flatten, ← List.length_map (f := List.length)]
    refine List.length_le_sum_of_one_le _ fun k hk => ?_
    obtain ⟨slots, hslots, rfl⟩ := List.mem_map.1 hk
    exact List.length_pos_of_ne_nil (hne slots hslots)
  rw [← List.mem_flatten, h.flatten]
  exact mem_segment hslot (hlen.trans htotal)

end PartnerEdge.Cyclic
