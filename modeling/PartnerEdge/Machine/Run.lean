import Mathlib.Tactic

/-!
# Runs of deterministic machines

A machine takes one input at a time, moves to its next state and emits one output. The rules here
turn facts about one step into facts about whole runs: an invariant that may depend on the inputs
seen so far, and noninterference, where inputs that are hidden from an observer do not change what
the observer sees. `Since` speaks about the past of a run. Two last rules find the moment of a
change, and count the parties of a machine that has several.
-/

namespace PartnerEdge

structure Machine (σ ι ο : Type) where
  step : σ → ι → σ × ο

namespace Machine

variable {σ ι ο : Type} (M : Machine σ ι ο)

/-- The state after a run. -/
def run (s : σ) (is : List ι) : σ := is.foldl (fun s i => (M.step s i).1) s

/-- The inputs of a run, each with the output it produced. -/
def outputs : σ → List ι → List (ι × ο)
  | _, [] => []
  | s, i :: is => (i, (M.step s i).2) :: outputs (M.step s i).1 is

@[simp] theorem run_nil (s : σ) : M.run s [] = s := rfl

@[simp] theorem run_cons (s : σ) (i : ι) (is : List ι) :
    M.run s (i :: is) = M.run (M.step s i).1 is := rfl

theorem run_append (s : σ) (is js : List ι) : M.run s (is ++ js) = M.run (M.run s is) js :=
  List.foldl_append

variable {M}

theorem mem_of_mem_outputs {s : σ} {is : List ι} {x : ι × ο} (h : x ∈ M.outputs s is) :
    x.1 ∈ is := by
  induction is generalizing s with
  | nil => cases h
  | cons i is ih =>
    rcases List.mem_cons.1 h with rfl | h
    · exact List.mem_cons_self
    · exact List.mem_cons_of_mem i (ih h)

/-- An invariant relating the state to the inputs consumed so far holds after every run. -/
theorem run_invariant {I : List ι → σ → Prop} {P : ι → Prop} {s : σ} (h₀ : I [] s)
    (hstep : ∀ is s i, P i → I is s → I (is ++ [i]) (M.step s i).1) {is : List ι}
    (hP : ∀ i ∈ is, P i) : I is (M.run s is) := by
  induction is using List.reverseRecOn with
  | nil => exact h₀
  | append_singleton is i ih =>
    rw [run_append]
    exact hstep is _ i (hP i (by simp)) (ih fun j hj => hP j (by simp [hj]))

/-- A property that every step keeps holds after every run. -/
theorem run_of_step {I : σ → Prop} (hstep : ∀ s i, I s → I (M.step s i).1) {s : σ} (h₀ : I s)
    (is : List ι) : I (M.run s is) := by
  induction is generalizing s with
  | nil => exact h₀
  | cons i is ih => exact ih (hstep s i h₀)

/-- A relation between the states of two machines that steps on related inputs keep holds after runs
on related inputs. -/
theorem run_rel {τ κ ο' : Type} {N : Machine τ κ ο'} {R : σ → τ → Prop} {S : ι → κ → Prop}
    (hstep : ∀ s t i j, R s t → S i j → R (M.step s i).1 (N.step t j).1) {s : σ} {t : τ}
    (h₀ : R s t) {is : List ι} {js : List κ} (h : List.Forall₂ S is js) :
    R (M.run s is) (N.run t js) := by
  induction h generalizing s t with
  | nil => exact h₀
  | cons hij _ ih => exact ih (hstep _ _ _ _ h₀ hij)

section Guarded

/-- Every input of the run is taken in a state in which `ok` allows it. -/
def Allowed (M : Machine σ ι ο) (ok : σ → ι → Prop) : σ → List ι → Prop
  | _, [] => True
  | s, i :: is => ok s i ∧ M.Allowed ok (M.step s i).1 is

instance (M : Machine σ ι ο) (ok : σ → ι → Prop) [∀ s i, Decidable (ok s i)] :
    ∀ s is, Decidable (M.Allowed ok s is)
  | _, [] => inferInstanceAs (Decidable True)
  | s, i :: is =>
    have := instDecidableAllowed M ok (M.step s i).1 is
    inferInstanceAs (Decidable (ok s i ∧ M.Allowed ok (M.step s i).1 is))

theorem allowed_append {ok : σ → ι → Prop} {s : σ} {is js : List ι} :
    M.Allowed ok s (is ++ js) ↔ M.Allowed ok s is ∧ M.Allowed ok (M.run s is) js := by
  induction is generalizing s with
  | nil => simp [Allowed]
  | cons i is ih => simp only [List.cons_append, Allowed, run_cons, ih, and_assoc]

/-- A run is allowed when each of its inputs is, after the inputs before it. -/
theorem allowed_of_forall {ok : σ → ι → Prop} {s : σ} {is : List ι}
    (h : ∀ before i, before ++ [i] <+: is → ok (M.run s before) i) : M.Allowed ok s is := by
  induction is using List.reverseRecOn with
  | nil => trivial
  | append_singleton is i ih =>
    refine allowed_append.2
      ⟨ih fun before j hj => h before j (hj.trans (List.prefix_append is [i])),
        h is i List.prefix_rfl, trivial⟩

/-- A property that allowed steps keep holds after every run of allowed steps. -/
theorem run_of_allowed {I : σ → Prop} {ok : σ → ι → Prop}
    (hstep : ∀ s i, I s → ok s i → I (M.step s i).1) {s : σ} {is : List ι} (h₀ : I s)
    (h : M.Allowed ok s is) : I (M.run s is) := by
  induction is generalizing s with
  | nil => exact h₀
  | cons i is ih => exact ih (hstep s i h₀ h.1) h.2

/-- Two guards that agree wherever an invariant holds allow the same runs. -/
theorem allowed_congr {I : σ → Prop} {ok ok' : σ → ι → Prop}
    (hstep : ∀ s i, I s → I (M.step s i).1) (hok : ∀ s i, I s → (ok s i ↔ ok' s i)) {s : σ}
    (h₀ : I s) (is : List ι) : M.Allowed ok s is ↔ M.Allowed ok' s is := by
  induction is generalizing s with
  | nil => exact Iff.rfl
  | cons i is ih => exact and_congr (hok s i h₀) (ih (hstep s i h₀))

end Guarded

section Past

/-- Some input of the run began something, and no later one ended it. -/
def Since (M : Machine σ ι ο) (begins ends : σ → ι → Prop) (s : σ) (is : List ι) : Prop :=
  ∃ before i rest, is = before ++ i :: rest ∧ begins (M.run s before) i ∧
    M.Allowed (fun s i => ¬ ends s i) (M.run s (before ++ [i])) rest

theorem since_append_singleton {begins ends : σ → ι → Prop} {s : σ} {is : List ι} {i : ι} :
    M.Since begins ends s (is ++ [i]) ↔
      begins (M.run s is) i ∨ M.Since begins ends s is ∧ ¬ ends (M.run s is) i := by
  constructor
  · rintro ⟨before, j, rest, heq, hbegins, hrest⟩
    cases rest using List.reverseRecOn with
    | nil =>
      obtain ⟨rfl, hj⟩ := List.append_inj' heq rfl
      cases hj
      exact .inl hbegins
    | append_singleton rest k =>
      rw [← List.cons_append, ← List.append_assoc] at heq
      obtain ⟨rfl, hk⟩ := List.append_inj' heq rfl
      cases hk
      obtain ⟨hrest, hlast, -⟩ := allowed_append.1 hrest
      refine .inr ⟨⟨before, j, rest, rfl, hbegins, hrest⟩, ?_⟩
      rwa [← run_append, List.append_assoc] at hlast
  · rintro (hbegins | ⟨⟨before, j, rest, rfl, hbegins, hrest⟩, hlast⟩)
    · exact ⟨is, i, [], rfl, hbegins, trivial⟩
    · refine ⟨before, j, rest ++ [i], by simp, hbegins, allowed_append.2 ⟨hrest, ?_, trivial⟩⟩
      rwa [← run_append, List.append_assoc]

/-- What a step begins or leaves as it was holds exactly if it has begun and not ended since. -/
theorem run_iff_since {P : σ → Prop} {begins ends : σ → ι → Prop} {s : σ} (h₀ : ¬ P s)
    (hstep : ∀ s i, P (M.step s i).1 ↔ begins s i ∨ P s ∧ ¬ ends s i) (is : List ι) :
    P (M.run s is) ↔ M.Since begins ends s is := by
  induction is using List.reverseRecOn with
  | nil =>
    refine iff_of_false h₀ ?_
    rintro ⟨before, i, rest, heq, -⟩
    simp at heq
  | append_singleton is i ih =>
    rw [run_append, run_cons, run_nil, hstep, since_append_singleton, ih]

end Past

section Noninterference

variable {R : σ → σ → Prop} {visible : ι → Bool} {P : ι → Prop}
  (hidden : ∀ s t i, P i → visible i = false → R s t → R (M.step s i).1 t)
  (shown : ∀ s t i, visible i = true → R s t →
    R (M.step s i).1 (M.step t i).1 ∧ (M.step s i).2 = (M.step t i).2)
include hidden shown

/-- Removing hidden inputs changes nothing an observer of the visible ones can see. -/
theorem outputs_filter {s t : σ} {is : List ι} (hR : R s t) (hP : ∀ i ∈ is, P i) :
    (M.outputs s is).filter (fun x => visible x.1) = M.outputs t (is.filter visible) := by
  induction is generalizing s t with
  | nil => rfl
  | cons i is ih =>
    have hP' : ∀ j ∈ is, P j := fun j hj => hP j (by simp [hj])
    cases hi : visible i with
    | false =>
      rw [List.filter_cons_of_neg (by simp [hi]), outputs, List.filter_cons_of_neg (by simp [hi])]
      exact ih (hidden s t i (hP i (by simp)) hi hR) hP'
    | true =>
      obtain ⟨hnext, hout⟩ := shown s t i hi hR
      rw [List.filter_cons_of_pos hi, outputs, List.filter_cons_of_pos (by simpa using hi), outputs,
        hout, ih hnext hP']

/-- Two runs with the same visible inputs show the same outputs at them. -/
theorem outputs_eq_of_filter_eq {s : σ} {is js : List ι} (hR : R s s) (his : ∀ i ∈ is, P i)
    (hjs : ∀ j ∈ js, P j) (h : is.filter visible = js.filter visible) :
    (M.outputs s is).filter (fun x => visible x.1) =
      (M.outputs s js).filter (fun x => visible x.1) := by
  rw [outputs_filter hidden shown hR his, outputs_filter hidden shown hR hjs, h]

end Noninterference

end Machine

/-- What does not hold at one moment and holds at a later one begins to hold in between. -/
theorem exists_begins {P : Nat → Prop} {i j : Nat} (hij : i ≤ j) (hi : ¬ P i) (hj : P j) :
    ∃ k, i ≤ k ∧ k < j ∧ ¬ P k ∧ P (k + 1) := by
  induction j, hij using Nat.le_induction with
  | base => exact absurd hj hi
  | succ j hij ih =>
    by_cases hP : P j
    · obtain ⟨k, hik, hkj, hk⟩ := ih hP
      exact ⟨k, hik, by omega, hk⟩
    · exact ⟨j, hij, by omega, hP, hj⟩

/-- One of several parties changes its phase: what that does to the number of parties in a phase. -/
theorem countP_set_add {α : Type} {p : α → Bool} {phases : List α} {i : Nat} {phase : α}
    (h : phases[i]? = some phase) (next : α) :
    (phases.set i next).countP p + (p phase).toNat = phases.countP p + (p next).toNat := by
  obtain ⟨hi, rfl⟩ := List.getElem?_eq_some_iff.1 h
  have hpos : p phases[i] = true → 0 < phases.countP p :=
    fun hp => List.countP_pos_iff.2 ⟨_, List.getElem_mem hi, hp⟩
  rw [List.countP_set hi]
  cases hp : p phases[i] <;> cases p next <;> grind

end PartnerEdge
