import Mathlib.Tactic

/-!
# Draining a queue

A loop takes items from the front of a queue until it is empty, and handling an item may queue more
items at its back. So the items of the queue are handled first, in order, then those that were
queued on the way, and so on: the loop is a sequence of sweeps. It ends after a sweep that queues
nothing.
-/

namespace PartnerEdge.Drain

/-- An item as it is handled. -/
structure Round (σ α : Type) where
  state : σ
  item : α
  queued : List α

variable {σ α : Type} (handle : σ → α → σ × List α)

/-- The loop, with a bound on its rounds. -/
def drain : Nat → σ → List α → Option (σ × List (Round σ α))
  | _, s, [] => some (s, [])
  | 0, _, _ :: _ => none
  | fuel + 1, s, a :: as =>
    (drain fuel (handle s a).1 (as ++ (handle s a).2)).map fun t =>
      (t.1, ⟨s, a, (handle s a).2⟩ :: t.2)

/-- Handles the items of a list; what is queued stays. -/
def sweep : σ → List α → σ × List (Round σ α)
  | s, [] => (s, [])
  | s, a :: as =>
    let rest := sweep (handle s a).1 as
    (rest.1, ⟨s, a, (handle s a).2⟩ :: rest.2)

/-- What a sweep queues. -/
def queued (rounds : List (Round σ α)) : List α := rounds.flatMap Round.queued

variable {handle}

@[simp] theorem queued_nil : queued ([] : List (Round σ α)) = [] := rfl

@[simp] theorem queued_cons (round : Round σ α) (rounds : List (Round σ α)) :
    queued (round :: rounds) = round.queued ++ queued rounds := rfl

@[simp] theorem queued_append (rounds rounds' : List (Round σ α)) :
    queued (rounds ++ rounds') = queued rounds ++ queued rounds' :=
  List.flatMap_append

@[simp] theorem map_item_sweep (s : σ) (as : List α) :
    (sweep handle s as).2.map Round.item = as := by
  induction as generalizing s with
  | nil => rfl
  | cons a as ih => simp [sweep, ih]

/-- The front part of a queue is one sweep of the loop. -/
theorem drain_sweep (handle : σ → α → σ × List α) (fuel : Nat) (s : σ) (as bs : List α) :
    drain handle (as.length + fuel) s (as ++ bs) =
      (drain handle fuel (sweep handle s as).1 (bs ++ queued (sweep handle s as).2)).map fun t =>
        (t.1, (sweep handle s as).2 ++ t.2) := by
  induction as generalizing s bs with
  | nil => simp [sweep]
  | cons a as ih =>
    have hfuel : (a :: as).length + fuel = as.length + fuel + 1 := by
      rw [List.length_cons]
      omega
    rw [hfuel, List.cons_append, drain, List.append_assoc, ih, Option.map_map]
    simp only [sweep, queued_cons, List.append_assoc]
    rfl

/-- Where what a sweep queues does not queue more, the loop is that sweep and one more. -/
theorem drain_two_sweeps {s : σ} {as : List α}
    (hquiet : queued (sweep handle (sweep handle s as).1 (queued (sweep handle s as).2)).2 = [])
    {fuel : Nat} (hfuel : as.length + (queued (sweep handle s as).2).length ≤ fuel) :
    drain handle fuel s as =
      some ((sweep handle (sweep handle s as).1 (queued (sweep handle s as).2)).1,
        (sweep handle s as).2 ++
          (sweep handle (sweep handle s as).1 (queued (sweep handle s as).2)).2) := by
  obtain ⟨rest, rfl⟩ := Nat.exists_eq_add_of_le hfuel
  have hfirst := drain_sweep handle ((queued (sweep handle s as).2).length + rest) s as []
  rw [List.append_nil, ← Nat.add_assoc, List.nil_append] at hfirst
  have hsecond := drain_sweep handle rest (sweep handle s as).1 (queued (sweep handle s as).2) []
  rw [List.append_nil, List.nil_append, hquiet, drain] at hsecond
  rw [hfirst, hsecond]
  simp

/-- A property of the state that every round keeps holds at each round of a sweep. -/
theorem sweep_invariant {I : σ → Prop} (hstep : ∀ s a, I s → I (handle s a).1) {s : σ} (h₀ : I s)
    (as : List α) : I (sweep handle s as).1 ∧ ∀ round ∈ (sweep handle s as).2,
      I round.state ∧ round.item ∈ as ∧ round.queued = (handle round.state round.item).2 := by
  induction as generalizing s with
  | nil => exact ⟨h₀, by simp [sweep]⟩
  | cons a as ih =>
    obtain ⟨hlast, hrounds⟩ := ih (hstep s a h₀)
    refine ⟨hlast, fun round hround => ?_⟩
    rcases List.mem_cons.mp hround with rfl | hround
    · exact ⟨h₀, by simp, rfl⟩
    · obtain ⟨hstate, hitem, hqueued⟩ := hrounds round hround
      exact ⟨hstate, by simp [hitem], hqueued⟩

end PartnerEdge.Drain
