import Mathlib.Data.List.Induction
import Mathlib.Logic.Function.Basic

/-!
# Changes that stop half-way, and undoing them

A list of changes is made one after another until one of them fails; what fails is not up to the
program. Places that are overwritten keep what the last change wrote there, so writing the old
values again undoes whatever part of the changes was made.
-/

namespace PartnerEdge

/-! ## Stopping at a failure -/

section Attempt

variable {σ γ : Type*} (make : σ → γ → σ)

/-- The outcomes of the commands to come. A command past the end succeeds. -/
abbrev Outcomes := List Bool

/-- Makes the changes up to the first that fails, which changes nothing. -/
def attempt : List γ → Outcomes → σ → Bool × Outcomes × σ
  | [], tape, s => (true, tape, s)
  | c :: cs, tape, s =>
    if tape.headD true then attempt cs tape.tail (make s c) else (false, tape.tail, s)

/-- What is made is a first part of the changes, and all of them if none fails. -/
theorem attempt_spec (cs : List γ) (tape : Outcomes) (s : σ) :
    ∃ made, made <+: cs ∧ (attempt make cs tape s).2.2 = made.foldl make s ∧
      ((attempt make cs tape s).1 = true → made = cs) := by
  induction cs generalizing tape s with
  | nil => exact ⟨[], List.prefix_rfl, rfl, fun _ => rfl⟩
  | cons c cs ih =>
    rw [attempt]
    split
    · obtain ⟨made, hmade, hstate, hall⟩ := ih tape.tail (make s c)
      exact ⟨c :: made, List.cons_prefix_cons.2 ⟨rfl, hmade⟩, hstate, fun h => by rw [hall h]⟩
    · exact ⟨[], List.nil_prefix, rfl, fun h => Bool.noConfusion h⟩

end Attempt

/-! ## Overwriting -/

section Overwrite

variable {α β : Type*} [DecidableEq α] {f : α → β} {ws : List (α × β)} {a : α}

/-- The places after writes, made one after another. -/
def overwrite (f : α → β) (ws : List (α × β)) : α → β :=
  ws.foldl (fun f w => Function.update f w.1 w.2) f

theorem overwrite_concat (f : α → β) (ws : List (α × β)) (w : α × β) :
    overwrite f (ws ++ [w]) = Function.update (overwrite f ws) w.1 w.2 := by
  rw [overwrite, List.foldl_append]
  rfl

/-- A place holds what it held, or what one of the writes to it wrote. -/
theorem overwrite_cases (f : α → β) (ws : List (α × β)) (a : α) :
    overwrite f ws a = f a ∧ (∀ w ∈ ws, w.1 ≠ a) ∨ ∃ w ∈ ws, w.1 = a ∧ overwrite f ws a = w.2 := by
  induction ws using List.reverseRecOn with
  | nil => exact .inl ⟨rfl, by simp⟩
  | append_singleton ws w ih =>
    rw [overwrite_concat]
    by_cases hw : w.1 = a
    · exact .inr ⟨w, by simp, hw, by rw [← hw, Function.update_self]⟩
    · rw [Function.update_of_ne (Ne.symm hw)]
      rcases ih with ⟨hsame, hnone⟩ | ⟨v, hv, hva, heq⟩
      · exact .inl ⟨hsame, List.forall_mem_append.2 ⟨hnone, by simpa using hw⟩⟩
      · exact .inr ⟨v, by simp [hv], hva, heq⟩

theorem overwrite_of_notMem (h : ∀ w ∈ ws, w.1 ≠ a) : overwrite f ws a = f a := by
  rcases overwrite_cases f ws a with ⟨hsame, -⟩ | ⟨w, hw, hwa, -⟩
  · exact hsame
  · exact absurd hwa (h w hw)

/-- All writes to the place agree. -/
theorem overwrite_of_forall {b : β} (hsome : ∃ w ∈ ws, w.1 = a) (h : ∀ w ∈ ws, w.1 = a → w.2 = b) :
    overwrite f ws a = b := by
  rcases overwrite_cases f ws a with ⟨-, hnone⟩ | ⟨w, hw, hwa, heq⟩
  · obtain ⟨w, hw, hwa⟩ := hsome
    exact absurd hwa (hnone w hw)
  · rw [heq, h w hw hwa]

/-- What every place and every write satisfies holds after the writes. -/
theorem overwrite_of_all {R : α → β → Prop} (hf : ∀ a, R a (f a)) (h : ∀ w ∈ ws, R w.1 w.2)
    (a : α) : R a (overwrite f ws a) := by
  rcases overwrite_cases f ws a with ⟨hsame, -⟩ | ⟨w, hw, rfl, heq⟩
  · rw [hsame]
    exact hf a
  · rw [heq]
    exact h w hw

/-- Writes that put something acceptable wherever the first ones wrote undo them. -/
theorem overwrite_undo {R : α → β → Prop} {undo : List (α × β)} (hf : ∀ a, R a (f a))
    (hundo : ∀ w ∈ undo, R w.1 w.2) (hcovers : ∀ w ∈ ws, ∃ u ∈ undo, u.1 = w.1) (a : α) :
    R a (overwrite (overwrite f ws) undo a) := by
  rcases overwrite_cases (overwrite f ws) undo a with ⟨hsame, hnone⟩ | ⟨u, hu, rfl, heq⟩
  · rw [hsame, overwrite_of_notMem]
    · exact hf a
    · rintro w hw rfl
      obtain ⟨u, hu, huw⟩ := hcovers w hw
      exact hnone u hu huw
  · rw [heq]
    exact hundo u hu

end Overwrite

end PartnerEdge
