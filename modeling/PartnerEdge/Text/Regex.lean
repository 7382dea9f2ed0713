import PartnerEdge.Text.Lines

/-!
# Regular expressions without anchors

Regular expressions with alternatives, optional parts and greedy repetitions of a character class.
The backtracking matcher tries the preferred way first, which is the leftmost-first meaning; the
texts of an expression are what it can match in any way. The matcher succeeds exactly when some way
does, and a repetition takes all that it can if the rest of the expression accepts that.
-/

namespace PartnerEdge.Text

inductive Regex where
  | empty
  | one (p : Char → Bool)
  | seq (a b : Regex)
  | alt (a b : Regex)
  | opt (a : Regex)
  | star (p : Char → Bool)

namespace Regex

/-- The texts that the expression can match. -/
def Matches : Regex → Str → Prop
  | empty, t => t = []
  | one p, t => ∃ c, p c = true ∧ t = [c]
  | seq a b, t => ∃ t₁ t₂, t = t₁ ++ t₂ ∧ a.Matches t₁ ∧ b.Matches t₂
  | alt a b, t => a.Matches t ∨ b.Matches t
  | opt a, t => a.Matches t ∨ t = []
  | star p, t => ∀ c ∈ t, p c = true

section Run

variable {α : Type*}

/-- As many characters of the class as possible, giving them back one by one until the
continuation succeeds. -/
def runStar (p : Char → Bool) (k : Str → Option α) : Str → Option α
  | [] => k []
  | c :: s => if p c then (runStar p k s).or (k (c :: s)) else k (c :: s)

/-- Matches a first part of the text and hands the rest to the continuation. -/
def run : Regex → (Str → Option α) → Str → Option α
  | empty, k, s => k s
  | one _, _, [] => none
  | one p, k, c :: s => if p c then k s else none
  | seq a b, k, s => a.run (b.run k) s
  | alt a b, k, s => (a.run k s).or (b.run k s)
  | opt a, k, s => (a.run k s).or (k s)
  | star p, k, s => runStar p k s

variable {r : Regex} {p : Char → Bool} {k : Str → Option α} {s : Str} {x : α}

theorem runStar_eq_some (h : runStar p k s = some x) :
    ∃ t u, s = t ++ u ∧ (∀ c ∈ t, p c = true) ∧ k u = some x := by
  induction s with
  | nil => exact ⟨[], [], rfl, by simp, h⟩
  | cons c s ih =>
    rw [runStar] at h
    split at h
    next hc =>
      rcases Option.or_eq_some_iff.mp h with h | ⟨-, h⟩
      · obtain ⟨t, u, rfl, ht, hu⟩ := ih h
        exact ⟨c :: t, u, rfl, by simpa using ⟨hc, ht⟩, hu⟩
      · exact ⟨[], c :: s, rfl, by simp, h⟩
    next => exact ⟨[], c :: s, rfl, by simp, h⟩

theorem runStar_ne_none {t u : Str} (ht : ∀ c ∈ t, p c = true) (hu : k u ≠ none) :
    runStar p k (t ++ u) ≠ none := by
  induction t with
  | nil => cases u <;> grind [runStar]
  | cons c t ih => grind [runStar]

/-- A result comes from one way to match. -/
theorem run_eq_some (h : r.run k s = some x) : ∃ t u, s = t ++ u ∧ r.Matches t ∧ k u = some x := by
  induction r generalizing k s with
  | empty => exact ⟨[], s, rfl, rfl, h⟩
  | one p =>
    cases s with
    | nil => cases h
    | cons c s =>
      rw [run] at h
      split at h
      next hc => exact ⟨[c], s, rfl, ⟨c, hc, rfl⟩, h⟩
      next => cases h
  | seq a b iha ihb =>
    obtain ⟨t₁, u, rfl, ha, hu⟩ := iha h
    obtain ⟨t₂, u, rfl, hb, hu⟩ := ihb hu
    exact ⟨t₁ ++ t₂, u, by simp, ⟨t₁, t₂, rfl, ha, hb⟩, hu⟩
  | alt a b iha ihb =>
    rcases Option.or_eq_some_iff.mp h with h | ⟨-, h⟩
    · obtain ⟨t, u, rfl, ht, hu⟩ := iha h
      exact ⟨t, u, rfl, .inl ht, hu⟩
    · obtain ⟨t, u, rfl, ht, hu⟩ := ihb h
      exact ⟨t, u, rfl, .inr ht, hu⟩
  | opt a iha =>
    rcases Option.or_eq_some_iff.mp h with h | ⟨-, h⟩
    · obtain ⟨t, u, rfl, ht, hu⟩ := iha h
      exact ⟨t, u, rfl, .inl ht, hu⟩
    · exact ⟨[], s, rfl, .inr rfl, h⟩
  | star p => exact runStar_eq_some h

/-- Any way to match gives a result. -/
theorem run_ne_none {t u : Str} (ht : r.Matches t) (hu : k u ≠ none) : r.run k (t ++ u) ≠ none := by
  induction r generalizing k t u with
  | empty =>
    obtain rfl := ht
    exact hu
  | one p =>
    obtain ⟨c, hc, rfl⟩ := ht
    simpa [run, hc] using hu
  | seq a b iha ihb =>
    obtain ⟨t₁, t₂, rfl, ha, hb⟩ := ht
    rw [List.append_assoc]
    exact iha ha (ihb hb hu)
  | alt a b iha ihb =>
    rcases ht with ht | ht
    · simp [run, Option.or_eq_none_iff, iha ht hu]
    · simp [run, Option.or_eq_none_iff, ihb ht hu]
  | opt a iha =>
    rcases ht with ht | rfl
    · simp [run, Option.or_eq_none_iff, iha ht hu]
    · simpa [run, Option.or_eq_none_iff] using fun _ => hu
  | star p => exact runStar_ne_none ht hu

/-- If a repetition can take all characters of its class, or can give none of them back, it takes
them all. -/
theorem runStar_eq (h : (k (s.dropWhile p)).isSome = true ∨ ∀ c t, p c = true → k (c :: t) = none) :
    runStar p k s = k (s.dropWhile p) := by
  induction s with
  | nil => rfl
  | cons c s ih =>
    cases hc : p c with
    | false => simp [runStar, hc]
    | true =>
      rw [List.dropWhile_cons_of_pos hc] at h ⊢
      rw [runStar, if_pos hc, ih h]
      rcases h with h | h
      · exact Option.or_of_isSome h
      · rw [h c s hc, Option.or_none]

end Run

/-- The whole text is matched. -/
def accepts (r : Regex) (t : Str) : Bool :=
  (r.run (fun rest => if rest.isEmpty then some () else none) t).isSome

theorem accepts_iff {r : Regex} {t : Str} : r.accepts t = true ↔ r.Matches t := by
  constructor
  · intro h
    obtain ⟨x, hx⟩ := Option.isSome_iff_exists.mp h
    obtain ⟨t, u, rfl, ht, hu⟩ := run_eq_some hx
    cases u with
    | nil => simpa using ht
    | cons => cases hu
  · intro h
    have hne := run_ne_none (k := fun rest => if rest.isEmpty then some () else none) (u := []) h
      (by simp)
    rw [List.append_nil] at hne
    exact Option.isSome_iff_ne_none.mpr hne

end Regex

/-! ## Replacing -/

/-- An expression whose first part is a capture group. -/
structure Capturing where
  group : Regex
  after : Regex

namespace Capturing

variable (R : Capturing)

/-- What the group captures in a match that begins at the start of the text, and what follows the
match. -/
def matchAt (s : Str) : Option (Str × Str) :=
  R.group.run (fun s₁ =>
    R.after.run (fun s₂ => some (s.take (s.length - s₁.length), s₂)) s₁) s

/-- Every match, from the left and without overlaps, replaced by what `f` makes of its group; the
first `skip` characters belong to a match that was already replaced. An empty match is left. -/
def replaceFrom (f : Str → Str) : Nat → Str → Str
  | _, [] => []
  | skip + 1, _ :: s => replaceFrom f skip s
  | 0, c :: s =>
    match R.matchAt (c :: s) with
    | some (group, rest) =>
      if rest.length ≤ s.length then f group ++ replaceFrom f (s.length - rest.length) s
      else c :: replaceFrom f 0 s
    | none => c :: replaceFrom f 0 s

def replaceAll (f : Str → Str) (s : Str) : Str := R.replaceFrom f 0 s

theorem replaceFrom_length (f : Str → Str) (u s : Str) :
    R.replaceFrom f u.length (u ++ s) = R.replaceFrom f 0 s := by
  induction u with
  | nil => rfl
  | cons c u ih => exact ih

end Capturing

end PartnerEdge.Text
