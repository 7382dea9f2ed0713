import Mathlib.Tactic

/-!
# Computations that can fail

What the result of a computation in `Except` says about its parts: a sequence succeeds if its parts
do, and an error is that of the first part, or of the step of a loop, that fails.
-/

namespace PartnerEdge

variable {ε α β : Type}

theorem bind_eq_ok_iff {x : Except ε α} {f : α → Except ε β} {b : β} :
    (x >>= f) = .ok b ↔ ∃ a, x = .ok a ∧ f a = .ok b := by
  cases x <;> simp [bind, Except.bind]

theorem exists_of_bind_ok {x : Except ε α} {f : α → Except ε β} {b : β}
    (h : (x >>= f) = .ok b) : ∃ a, x = .ok a ∧ f a = .ok b := bind_eq_ok_iff.1 h

theorem mapError_eq_ok_iff {ε' : Type} {x : Except ε α} {f : ε → ε'} {a : α} :
    x.mapError f = .ok a ↔ x = .ok a := by
  cases x <;> simp [Except.mapError]

theorem error_of_bind {x : Except ε α} {g : α → Except ε β} {e : ε}
    (h : (x >>= g) = .error e) : x = .error e ∨ ∃ a, x = .ok a ∧ g a = .error e := by
  cases x with
  | error e' => exact .inl (congrArg Except.error (Except.error.inj h))
  | ok a => exact .inr ⟨a, rfl, h⟩

theorem exists_of_foldlM_error {g : β → α → Except ε β} {l : List α} {b : β} {e : ε}
    (h : l.foldlM g b = .error e) : ∃ b', ∃ a ∈ l, g b' a = .error e := by
  induction l generalizing b with
  | nil => cases h
  | cons a l ih =>
    rw [List.foldlM_cons] at h
    rcases error_of_bind h with hstep | ⟨b', -, hrest⟩
    · exact ⟨b, a, by simp, hstep⟩
    · obtain ⟨b', a', ha', hstep⟩ := ih hrest
      exact ⟨b', a', by simp [ha'], hstep⟩

theorem forM_ok_iff {g : α → Except ε Unit} {l : List α} :
    l.forM g = .ok () ↔ ∀ a ∈ l, g a = .ok () := by
  induction l with
  | nil => simp [List.forM_eq_forM, pure, Except.pure]
  | cons a l ih =>
    rw [List.forM_eq_forM] at ih ⊢
    rw [List.forM_cons, List.forall_mem_cons, ← ih]
    cases g a <;> simp [bind, Except.bind]

theorem exists_of_forM_error {g : α → Except ε Unit} {l : List α} {e : ε}
    (h : l.forM g = .error e) : ∃ a ∈ l, g a = .error e := by
  induction l with
  | nil => cases h
  | cons a l ih =>
    rcases error_of_bind h with hstep | ⟨_, -, hrest⟩
    · exact ⟨a, by simp, hstep⟩
    · obtain ⟨a', ha', hstep⟩ := ih hrest
      exact ⟨a', by simp [ha'], hstep⟩

end PartnerEdge
