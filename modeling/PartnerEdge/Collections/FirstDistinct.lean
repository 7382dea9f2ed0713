import Mathlib

/-!
# First distinct elements

The first `n` distinct elements of a list that satisfy a predicate, in the order in which they occur
first. That is what filtering, dropping repetitions and truncating give, in this order.
-/

namespace PartnerEdge.Collections

variable {α : Type} {p : α → Bool} {raw : List α}

/-- Some start of the list has the first and not the second. -/
def Before (raw : List α) (u v : α) : Prop :=
  ∃ start rest, raw = start ++ rest ∧ u ∈ start ∧ v ∉ start

/-- The first `n` distinct elements that satisfy the predicate, in the order of their first
occurrences. -/
structure FirstDistinct (p : α → Bool) (n : Nat) (raw us : List α) : Prop where
  ordered : us.Pairwise (Before raw)
  mem : ∀ u ∈ us, u ∈ raw ∧ p u = true
  atMost : us.length ≤ n
  complete : ∀ u ∈ raw, p u = true → u ∉ us → us.length = n ∧ ∀ v ∈ us, Before raw v u

theorem FirstDistinct.nodup {n : Nat} {us : List α} (h : FirstDistinct p n raw us) : us.Nodup := by
  refine h.ordered.imp fun hbefore => ?_
  obtain ⟨start, rest, -, hu, hv⟩ := hbefore
  rintro rfl
  exact hv hu

theorem Before.of_filter {q : α → Bool} {u v : α} (hv : q v = true)
    (h : Before (raw.filter q) u v) : Before raw u v := by
  obtain ⟨start, rest, heq, hu, hstart⟩ := h
  obtain ⟨start', rest', rfl, rfl, -⟩ := List.filter_eq_append_iff.1 heq
  exact ⟨start', rest', rfl, (List.mem_filter.1 hu).1, fun hmem =>
    hstart (List.mem_filter.2 ⟨hmem, hv⟩)⟩

theorem Before.cons {a u v : α} (hv : v ≠ a) (h : Before raw u v) : Before (a :: raw) u v := by
  obtain ⟨start, rest, rfl, hu, hstart⟩ := h
  exact ⟨a :: start, rest, rfl, by simp [hu], by simp [hv, hstart]⟩

theorem pairwise_before_eraseDups [BEq α] [LawfulBEq α] (raw : List α) :
    raw.eraseDups.Pairwise (Before raw) := by
  induction hlen : raw.length using Nat.strong_induction_on generalizing raw with
  | _ n ih =>
    cases raw with
    | nil => simp
    | cons a raw =>
      rw [List.eraseDups_cons, List.pairwise_cons]
      have hother : ∀ u ∈ (raw.filter fun b => !b == a).eraseDups, u ≠ a := by
        intro u hu
        simpa using (List.mem_filter.1 (List.mem_eraseDups.1 hu)).2
      refine ⟨fun u hu => ⟨[a], raw, rfl, by simp, by simpa using hother u hu⟩, ?_⟩
      have hshorter : (raw.filter fun b => !b == a).length < n := by
        have := List.length_filter_le (fun b => !b == a) raw
        simp only [List.length_cons] at hlen
        omega
      refine (ih _ hshorter _ rfl).imp_of_mem fun hu hv hbefore => ?_
      exact .cons (hother _ hv) (.of_filter (by simpa using hother _ hv) hbefore)

theorem firstDistinct_take [BEq α] [LawfulBEq α] (p : α → Bool) (n : Nat) (raw : List α) :
    FirstDistinct p n raw ((raw.filter p).eraseDups.take n) := by
  have hmem {u : α} : u ∈ (raw.filter p).eraseDups ↔ u ∈ raw ∧ p u = true := by
    rw [List.mem_eraseDups, List.mem_filter]
  have hpairwise : (raw.filter p).eraseDups.Pairwise (Before raw) :=
    (pairwise_before_eraseDups _).imp_of_mem fun _ hv => .of_filter (hmem.1 hv).2
  refine ⟨hpairwise.sublist (List.take_sublist _ _), fun u hu => hmem.1 (List.mem_of_mem_take hu),
    List.length_take_le _ _, fun u hu hp hnot => ?_⟩
  rw [← List.take_append_drop n (raw.filter p).eraseDups, List.pairwise_append] at hpairwise
  have hdrop : u ∈ (raw.filter p).eraseDups.drop n := by
    have hall : u ∈ (raw.filter p).eraseDups := hmem.2 ⟨hu, hp⟩
    rw [← List.take_append_drop n (raw.filter p).eraseDups] at hall
    exact (List.mem_append.1 hall).resolve_left hnot
  have hlong := List.length_pos_of_mem hdrop
  rw [List.length_drop] at hlong
  exact ⟨List.length_take_of_le (by omega), fun v hv => hpairwise.2.2 v hv u hdrop⟩

end PartnerEdge.Collections
