import Mathlib.Tactic

/-!
# Updating and removing by index

A loop visits the elements of a vector by index, changes each in place and notes the indices of
those that have to go, with a reason. A second loop removes these, from the last to the first, so
that the indices that are still to come stay valid. Every access is checked: an index out of range
ends the loop with `none`. Together the two loops are one traversal that parts the visited elements
into kept and removed ones.
-/

namespace PartnerEdge.InPlace

variable {σ α ω : Type}

/-- The first loop: `visit` changes the state and an element, and may give a reason to remove it. -/
def markLoop (visit : σ → α → σ × α × Option ω) :
    List Nat → σ → List α → List (Nat × ω) → Option (σ × List α × List (Nat × ω))
  | [], s, xs, marks => some (s, xs, marks)
  | i :: is, s, xs, marks => do
    let x ← xs[i]?
    markLoop visit is (visit s x).1 (xs.set i (visit s x).2.1)
      (marks ++ (visit s x).2.2.toList.map (i, ·))

/-- The second loop, on the marks in the order in which they are taken. -/
def removeLoop : List (Nat × ω) → List α → List (α × ω) → Option (List α × List (α × ω))
  | [], xs, out => some (xs, out)
  | (i, o) :: marks, xs, out => do
    let x ← xs[i]?
    removeLoop marks (xs.eraseIdx i) (out ++ [(x, o)])

def sweepInPlace (visit : σ → α → σ × α × Option ω) (s : σ) (xs : List α) :
    Option (σ × List α × List (α × ω)) := do
  let marked ← markLoop visit (List.range xs.length) s xs []
  let result ← removeLoop marked.2.2.reverse marked.2.1 []
  some (marked.1, result)

/-! ## The traversal -/

/-- All elements as they are left by their visits, with the reasons to remove them. -/
def visitAll (visit : σ → α → σ × α × Option ω) : σ → List α → σ × List (α × Option ω)
  | s, [] => (s, [])
  | s, x :: xs =>
    let rest := visitAll visit (visit s x).1 xs
    (rest.1, (visit s x).2 :: rest.2)

def kept (vs : List (α × Option ω)) : List α :=
  vs.filterMap fun v => if v.2.isNone then some v.1 else none

def removed (vs : List (α × Option ω)) : List (α × ω) := vs.filterMap fun v => v.2.map (v.1, ·)

/-- The indices of the elements to remove, counted from `k`. -/
def marksFrom (k : Nat) (vs : List (α × Option ω)) : List (Nat × ω) :=
  (vs.zipIdx k).filterMap fun v => v.1.2.map (v.2, ·)

section Parts

variable (v : α × Option ω) (vs vs' : List (α × Option ω)) (k : Nat)

@[simp] theorem kept_append : kept (vs ++ vs') = kept vs ++ kept vs' := List.filterMap_append

@[simp] theorem removed_append : removed (vs ++ vs') = removed vs ++ removed vs' :=
  List.filterMap_append

@[simp] theorem marksFrom_cons :
    marksFrom k (v :: vs) = v.2.toList.map (k, ·) ++ marksFrom (k + 1) vs := by
  cases hv : v.2 <;> simp [marksFrom, List.zipIdx_cons, hv]

theorem marksFrom_concat : marksFrom k (vs ++ [v]) =
    marksFrom k vs ++ v.2.toList.map (k + vs.length, ·) := by
  cases hv : v.2 <;> simp [marksFrom, List.zipIdx_append, List.filterMap_append, hv]

/-- Every visited element is kept or removed. -/
theorem kept_append_removed_perm :
    (kept vs ++ (removed vs).map Prod.fst).Perm (vs.map Prod.fst) := by
  induction vs with
  | nil => exact .nil
  | cons v vs ih =>
    cases hv : v.2 with
    | none => simpa [kept, removed, hv] using ih.cons v.1
    | some o =>
      have hmiddle : (kept vs ++ v.1 :: (removed vs).map Prod.fst).Perm (v.1 :: vs.map Prod.fst) :=
        List.perm_middle.trans (ih.cons v.1)
      simpa [kept, removed, hv] using hmiddle

theorem kept_sublist : (kept vs).Sublist (vs.map Prod.fst) := by
  induction vs with
  | nil => exact .slnil
  | cons v vs ih =>
    cases hv : v.2 with
    | none => simpa [kept, hv] using ih.cons_cons v.1
    | some o => simpa [kept, hv] using ih.cons v.1

theorem mem_kept {vs : List (α × Option ω)} {x : α} : x ∈ kept vs ↔ (x, none) ∈ vs := by
  simp [kept]

end Parts

section Visits

variable {visit : σ → α → σ × α × Option ω}

theorem forall_mem_visitAll {P : α → Prop} {Q : α × Option ω → Prop}
    (h : ∀ s x, P x → Q (visit s x).2) {xs : List α} (hxs : ∀ x ∈ xs, P x) (s : σ) :
    ∀ v ∈ (visitAll visit s xs).2, Q v := by
  induction xs generalizing s with
  | nil => exact fun _ hv => absurd hv List.not_mem_nil
  | cons x xs ih =>
    obtain ⟨hx, hxs⟩ := List.forall_mem_cons.mp hxs
    exact List.forall_mem_cons.mpr ⟨h s x hx, ih hxs _⟩

/-- What no visit changes is the same for all elements afterwards. -/
theorem map_visitAll {β : Type} {f : α → β} (h : ∀ s x, f (visit s x).2.1 = f x) (s : σ)
    (xs : List α) : ((visitAll visit s xs).2.map Prod.fst).map f = xs.map f := by
  induction xs generalizing s with
  | nil => rfl
  | cons x xs ih => exact congrArg₂ List.cons (h s x) (ih _)

/-! ## The loops are the traversal -/

theorem markLoop_eq (visit : σ → α → σ × α × Option ω) (done xs : List α) (s : σ)
    (marks : List (Nat × ω)) :
    markLoop visit (List.range' done.length xs.length) s (done ++ xs) marks =
      some ((visitAll visit s xs).1, done ++ (visitAll visit s xs).2.map Prod.fst,
        marks ++ marksFrom done.length (visitAll visit s xs).2) := by
  induction xs generalizing done s marks with
  | nil => simp [markLoop, visitAll, marksFrom]
  | cons x xs ih =>
    have hset : (done ++ x :: xs).set done.length (visit s x).2.1 =
        (done ++ [(visit s x).2.1]) ++ xs := by simp
    have hlength : done.length + 1 = (done ++ [(visit s x).2.1]).length := by simp
    simp only [List.length_cons, List.range'_succ, markLoop, visitAll, marksFrom_cons]
    rw [List.getElem?_append_right le_rfl, Nat.sub_self, List.getElem?_cons_zero,
      Option.bind_eq_bind, Option.bind_some, hset, hlength, ih]
    simp

/-- Behind the marked elements there may be others, which stay. -/
theorem removeLoop_eq (vs : List (α × Option ω)) (rest : List α) (out : List (α × ω)) :
    removeLoop (marksFrom 0 vs).reverse (vs.map Prod.fst ++ rest) out =
      some (kept vs ++ rest, out ++ (removed vs).reverse) := by
  induction vs using List.reverseRecOn generalizing rest out with
  | nil => simp [removeLoop, marksFrom, kept, removed]
  | append_singleton vs v ih =>
    obtain ⟨x, o⟩ := v
    rw [marksFrom_concat]
    cases o with
    | none =>
      have hrest := ih (x :: rest) out
      simpa [kept, removed] using hrest
    | some o =>
      have hrest := ih rest (out ++ [(x, o)])
      have herase : (vs.map Prod.fst ++ x :: rest).eraseIdx vs.length =
          vs.map Prod.fst ++ rest := by
        simp [List.eraseIdx_append_of_length_le]
      have hkept : kept [(x, some o)] = [] := rfl
      have hremoved : removed [(x, some o)] = [(x, o)] := rfl
      simp [removeLoop, herase, hrest, hkept, hremoved]

theorem sweepInPlace_eq (visit : σ → α → σ × α × Option ω) (s : σ) (xs : List α) :
    sweepInPlace visit s xs = some ((visitAll visit s xs).1, kept (visitAll visit s xs).2,
      (removed (visitAll visit s xs).2).reverse) := by
  have hmarks := markLoop_eq visit [] xs s []
  have hremove := removeLoop_eq (visitAll visit s xs).2 [] []
  rw [List.length_nil, ← List.range_eq_range', List.nil_append] at hmarks
  rw [List.append_nil] at hremove
  simp only [sweepInPlace, hmarks, Option.bind_eq_bind, Option.bind_some, List.nil_append, hremove,
    List.append_nil]

end Visits

end PartnerEdge.InPlace
