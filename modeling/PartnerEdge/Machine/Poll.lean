import Mathlib.Tactic

/-!
# Polling

A loop that makes a limited number of attempts. An attempt either ends the loop with an answer or
goes on, with what it has learnt. What is proved about such a loop is an invariant of the attempts
that went on.
-/

namespace PartnerEdge.Machine

variable {σ β : Type*}

/-- Attempts from the `i`-th on, as many as are left. -/
def poll (attempt : Nat → σ → σ ⊕ β) : Nat → Nat → σ → σ ⊕ β
  | 0, _, s => .inl s
  | left + 1, i, s =>
    match attempt i s with
    | .inl s' => poll attempt left (i + 1) s'
    | .inr answer => .inr answer

variable (attempt : Nat → σ → σ ⊕ β) {i : Nat} {s : σ}

/-- An answer is given by an attempt, and all attempts before it went on. Without an answer all of
them went on. -/
theorem poll_spec (Inv : Nat → σ → Prop) (left : Nat) (hstart : Inv i s)
    (hstep : ∀ j s s', Inv j s → attempt j s = .inl s' → Inv (j + 1) s') :
    (∃ s', poll attempt left i s = .inl s' ∧ Inv (i + left) s') ∨
      ∃ answer j s', poll attempt left i s = .inr answer ∧ i ≤ j ∧ j < i + left ∧ Inv j s' ∧
        attempt j s' = .inr answer := by
  induction left generalizing i s with
  | zero => exact .inl ⟨s, rfl, hstart⟩
  | succ left ih =>
    rw [poll]
    cases hattempt : attempt i s with
    | inr answer => exact .inr ⟨answer, i, s, rfl, le_rfl, by omega, hstart, hattempt⟩
    | inl s' =>
      rcases ih (hstep i s s' hstart hattempt) with ⟨s'', hpoll, hinv⟩ |
        ⟨answer, j, s'', hpoll, hij, hj, hinv, hanswer⟩
      · exact .inl ⟨s'', hpoll, by rwa [show i + (left + 1) = i + 1 + left by omega]⟩
      · exact .inr ⟨answer, j, s'', hpoll, by omega, by omega, hinv, hanswer⟩

end PartnerEdge.Machine
