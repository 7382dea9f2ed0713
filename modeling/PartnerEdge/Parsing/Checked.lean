import Mathlib.Tactic

/-!
# Checked parsers

A parser over a mutable reader that either returns a value, rejects its input, or hits a run-time
fault: an index out of range, a shift wider than the word, an arithmetic result that does not fit,
or a loop that outruns its fuel. Rejection is a legitimate answer; a fault is what a program that
must not crash on hostile input has to exclude.

`Triple` is the pre/postcondition logic in which faults are forbidden, and `Consumes` is the
round-trip logic: it says which prefix of the unread input a parser uses up, and what it returns.
Both compose along `>>=` and along the loops `times` and `forEach`.
-/

namespace PartnerEdge.Parsing

inductive Fault where
  | indexOutOfRange
  | shiftOverflow
  | subUnderflow
  | addOverflow
  | unreachable
  | outOfFuel
deriving DecidableEq, Repr

inductive Stop where
  | reject
  | fault (f : Fault)
deriving DecidableEq, Repr

abbrev Parser (σ α : Type) := StateT σ (Except Stop) α

section Operations

variable {σ α β : Type}

def reject : Parser σ α := fun _ => .error .reject

def crash (f : Fault) : Parser σ α := fun _ => .error (.fault f)

/-- Indexing that faults when the index is out of range. -/
def index (xs : List α) (i : Nat) : Parser σ α :=
  match xs[i]? with
  | some x => pure x
  | none => crash .indexOutOfRange

/-- Unsigned subtraction that faults below zero. -/
def checkedSub (a b : Nat) : Parser σ Nat :=
  if b ≤ a then pure (a - b) else crash .subUnderflow

/-- Addition in `w` bits that faults when the sum does not fit. -/
def checkedAdd (w a b : Nat) : Parser σ Nat :=
  if a + b < 2 ^ w then pure (a + b) else crash .addOverflow

/-- A left shift of a `w`-bit word: the distance must be below `w`, and high bits fall out. -/
def checkedShl (w a k : Nat) : Parser σ Nat :=
  if k < w then pure (a * 2 ^ k % 2 ^ w) else crash .shiftOverflow

/-- Addition in `w` bits that rejects the input when the sum does not fit. -/
def addOrReject (w a b : Nat) : Parser σ Nat :=
  if a + b < 2 ^ w then pure (a + b) else reject

/-- Runs `p` exactly `n` times and collects the results in order. -/
def times : Nat → Parser σ α → Parser σ (List α)
  | 0, _ => pure []
  | n + 1, p => do
    let a ← p
    let as ← times n p
    pure (a :: as)

/-- Runs `f` on every element, in order, and collects the results. -/
def forEach : List α → (α → Parser σ β) → Parser σ (List β)
  | [], _ => pure []
  | x :: xs, f => do
    let b ← f x
    let bs ← forEach xs f
    pure (b :: bs)

/-- Runs `p` when the flag that announces it is set. -/
def optionally (flag : Bool) (p : Parser σ α) : Parser σ (Option α) :=
  if flag then do
    let a ← p
    return some a
  else
    return none

theorem pure_apply (a : α) (r : σ) : (pure a : Parser σ α) r = .ok (a, r) := rfl

theorem get_apply (r : σ) : (get : Parser σ σ) r = .ok (r, r) := rfl

theorem set_apply (s r : σ) : (set s : Parser σ PUnit) r = .ok (⟨⟩, s) := rfl

theorem bind_apply (p : Parser σ α) (f : α → Parser σ β) (r : σ) :
    (p >>= f) r = match p r with
      | .ok (a, r') => f a r'
      | .error e => .error e := by
  show (p r >>= fun x => f x.1 x.2) = _
  cases p r <;> rfl

theorem bind_of_ok {p : Parser σ α} {f : α → Parser σ β} {r r' : σ} {a : α}
    (h : p r = .ok (a, r')) : (p >>= f) r = f a r' := by
  rw [bind_apply, h]

/-- A composite that returned ran both of its parts to a result. -/
theorem bind_eq_ok {p : Parser σ α} {f : α → Parser σ β} {r r'' : σ} {b : β}
    (h : (p >>= f) r = .ok (b, r'')) : ∃ a r', p r = .ok (a, r') ∧ f a r' = .ok (b, r'') := by
  rw [bind_apply] at h
  cases hp : p r with
  | error e => simp [hp] at h
  | ok x => exact ⟨x.1, x.2, rfl, by simpa [hp] using h⟩

theorem index_of_getElem? {xs : List α} {i : Nat} {x : α} (h : xs[i]? = some x) :
    (index xs i : Parser σ α) = pure x := by
  simp [index, h]

theorem checkedSub_of_le {a b : Nat} (h : b ≤ a) :
    (checkedSub a b : Parser σ Nat) = pure (a - b) := if_pos h

theorem checkedAdd_of_lt {w a b : Nat} (h : a + b < 2 ^ w) :
    (checkedAdd w a b : Parser σ Nat) = pure (a + b) := if_pos h

theorem checkedShl_of_lt {w a k : Nat} (hk : k < w) (h : a * 2 ^ k < 2 ^ w) :
    (checkedShl w a k : Parser σ Nat) = pure (a * 2 ^ k) := by
  rw [checkedShl, if_pos hk, Nat.mod_eq_of_lt h]

theorem addOrReject_of_lt {w a b : Nat} (h : a + b < 2 ^ w) :
    (addOrReject w a b : Parser σ Nat) = pure (a + b) := if_pos h

end Operations

section Triples

variable {σ α β : Type} {P : σ → Prop} {p : Parser σ α} {f : α → Parser σ β}

/-- From every reader satisfying `P`, `p` never faults, and a returned value satisfies `Q`. -/
def Triple (P : σ → Prop) (p : Parser σ α) (Q : α → σ → Prop) : Prop :=
  ∀ r, P r →
    match p r with
    | .ok (a, r') => Q a r'
    | .error .reject => True
    | .error (.fault _) => False

/-- `p` never faults, and every value it returns satisfies `φ`, whatever the reader. -/
def Safe (p : Parser σ α) (φ : α → Prop) : Prop :=
  Triple (fun _ => True) p (fun a _ => φ a)

theorem Triple.bind {Q : α → σ → Prop} {R : β → σ → Prop} (hp : Triple P p Q)
    (hf : ∀ a, Triple (Q a) (f a) R) : Triple P (p >>= f) R := by
  intro r hr
  have h := hp r hr
  rw [bind_apply]
  cases hpr : p r with
  | error e =>
    rw [hpr] at h
    cases e with
    | reject => trivial
    | fault f => exact h
  | ok x =>
    rw [hpr] at h
    exact hf x.1 x.2 h

theorem Triple.consequence {P' : σ → Prop} {Q Q' : α → σ → Prop} (h : Triple P p Q)
    (hP : ∀ r, P' r → P r) (hQ : ∀ a r, Q a r → Q' a r) : Triple P' p Q' := by
  intro r hr
  have h := h r (hP r hr)
  revert h
  cases p r with
  | error e => cases e <;> exact id
  | ok x => exact hQ x.1 x.2

theorem Safe.bind {φ : α → Prop} {ψ : β → Prop} (hp : Safe p φ)
    (hf : ∀ a, φ a → Safe (f a) ψ) : Safe (p >>= f) ψ := by
  refine Triple.bind hp fun a r ha => ?_
  exact hf a ha r trivial

theorem Safe.of_pure {φ : α → Prop} {a : α} (h : φ a) : Safe (pure a : Parser σ α) φ :=
  fun _ _ => h

theorem Safe.of_reject {φ : α → Prop} : Safe (reject : Parser σ α) φ := fun _ _ => trivial

theorem Safe.addOrReject (w a b : Nat) :
    Safe (addOrReject w a b : Parser σ Nat) (fun c => c = a + b ∧ c < 2 ^ w) := by
  unfold Parsing.addOrReject
  split
  · exact Safe.of_pure ⟨rfl, ‹_›⟩
  · exact Safe.of_reject

theorem Safe.times {φ : α → Prop} (hp : Safe p φ) (n : Nat) :
    Safe (times n p) (fun as => as.length = n ∧ ∀ a ∈ as, φ a) := by
  induction n with
  | zero => exact Safe.of_pure (by simp)
  | succ n ih =>
    refine hp.bind fun a ha => ih.bind fun as has => Safe.of_pure ?_
    simpa [has.1, ha] using has.2

/-- A body that keeps the aspect `h` of each element keeps it along the whole list. -/
theorem Safe.forEach {γ : Type} {g : β → γ} {h : α → γ} {ψ : β → Prop} {xs : List α}
    (hf : ∀ x ∈ xs, Safe (f x) (fun b => g b = h x ∧ ψ b)) :
    Safe (forEach xs f) (fun bs => bs.map g = xs.map h ∧ ∀ b ∈ bs, ψ b) := by
  induction xs with
  | nil => exact Safe.of_pure (by simp)
  | cons x xs ih =>
    refine (hf x (by simp)).bind fun b hb => ?_
    refine (ih fun y hy => hf y (by simp [hy])).bind fun bs hbs => Safe.of_pure ?_
    simpa [hb.1, hbs.1, hb.2] using hbs.2

theorem Safe.optionally {φ : α → Prop} (hp : Safe p φ) (flag : Bool) :
    Safe (optionally flag p) (fun o => ∀ a ∈ o, φ a) := by
  unfold Parsing.optionally
  split
  · exact hp.bind fun a ha => Safe.of_pure (by simpa using ha)
  · exact Safe.of_pure (by simp)

/-- What a safe parser's run amounts to. -/
theorem Safe.cases {φ : α → Prop} (h : Safe p φ) (r : σ) :
    p r = .error .reject ∨ ∃ a r', p r = .ok (a, r') ∧ φ a := by
  have h := h r trivial
  revert h
  cases p r with
  | error e => cases e <;> simp
  | ok x => exact fun h => .inr ⟨x.1, x.2, rfl, h⟩

end Triples

section Results

variable {σ α β : Type} {p : Parser σ α} {f : α → Parser σ β}

/-- Every value `p` returns satisfies `φ`; nothing is said about rejection or faults. -/
def Yields (p : Parser σ α) (φ : α → Prop) : Prop :=
  ∀ r a r', p r = .ok (a, r') → φ a

theorem Yields.bind {φ : α → Prop} {ψ : β → Prop} (hp : Yields p φ)
    (hf : ∀ a, φ a → Yields (f a) ψ) : Yields (p >>= f) ψ := by
  intro r b r'' h
  obtain ⟨a, r', ha, hb⟩ := bind_eq_ok h
  exact hf a (hp r a r' ha) r' b r'' hb

theorem Yields.bind_any {ψ : β → Prop} (hf : ∀ a, Yields (f a) ψ) : Yields (p >>= f) ψ :=
  Yields.bind (fun _ _ _ _ => trivial) fun a _ => hf a

theorem Yields.of_pure {φ : α → Prop} {a : α} (h : φ a) : Yields (pure a : Parser σ α) φ := by
  intro r b r' hb
  cases hb
  exact h

theorem Yields.of_reject {φ : α → Prop} : Yields (reject : Parser σ α) φ := by
  intro r a r' h
  cases h

end Results

section Consumption

variable {σ α β γ : Type} {view : σ → List γ} {p : Parser σ α} {f : α → Parser σ β}

/-- On a reader whose unread input starts with `xs`, `p` returns `a` and uses up exactly `xs`. -/
def Consumes (view : σ → List γ) (p : Parser σ α) (xs : List γ) (a : α) : Prop :=
  ∀ r rest, view r = xs ++ rest → ∃ r', p r = .ok (a, r') ∧ view r' = rest

theorem Consumes.of_pure (a : α) : Consumes view (pure a) [] a :=
  fun r _ h => ⟨r, rfl, by simpa using h⟩

theorem Consumes.bind {xs ys : List γ} {a : α} {b : β} (hp : Consumes view p xs a)
    (hf : Consumes view (f a) ys b) : Consumes view (p >>= f) (xs ++ ys) b := by
  intro r rest h
  obtain ⟨r', hr', hv⟩ := hp r (ys ++ rest) (by simpa using h)
  obtain ⟨r'', hr'', hv'⟩ := hf r' rest hv
  exact ⟨r'', by rw [bind_apply, hr']; exact hr'', hv'⟩

theorem Consumes.bind_pure {xs : List γ} {a : α} {b : β} (hp : Consumes view p xs a)
    (hf : f a = pure b) : Consumes view (p >>= f) xs b := by
  rw [← List.append_nil xs]
  refine hp.bind ?_
  rw [hf]
  exact Consumes.of_pure b

theorem Consumes.map {xs : List γ} {a : α} (hp : Consumes view p xs a) (g : α → β) :
    Consumes view (p >>= fun x => pure (g x)) xs (g a) :=
  hp.bind_pure rfl

theorem Consumes.times {enc : α → List γ} {as : List α}
    (hp : ∀ a ∈ as, Consumes view p (enc a) a) :
    Consumes view (times as.length p) (as.flatMap enc) as := by
  induction as with
  | nil => exact Consumes.of_pure []
  | cons a as ih =>
    rw [List.flatMap_cons]
    refine (hp a (by simp)).bind ?_
    exact (ih fun b hb => hp b (by simp [hb])).map (a :: ·)

/-- `forEach` over the images of `xs` consumes what its body consumes at each of them. -/
theorem Consumes.forEach {δ : Type} {h : δ → α} {enc : δ → List γ} {g : δ → β} {xs : List δ}
    (hf : ∀ x ∈ xs, Consumes view (f (h x)) (enc x) (g x)) :
    Consumes view (forEach (xs.map h) f) (xs.flatMap enc) (xs.map g) := by
  induction xs with
  | nil => exact Consumes.of_pure []
  | cons x xs ih =>
    rw [List.flatMap_cons]
    refine (hf x (by simp)).bind ?_
    exact (ih fun y hy => hf y (by simp [hy])).map (g x :: ·)

theorem Consumes.optionally {enc : α → List γ} {o : Option α}
    (hp : ∀ a ∈ o, Consumes view p (enc a) a) :
    Consumes view (optionally o.isSome p) (o.elim [] enc) o := by
  cases o with
  | none => exact Consumes.of_pure none
  | some a => exact (hp a rfl).map some

end Consumption

end PartnerEdge.Parsing
