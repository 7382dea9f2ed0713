import PartnerEdge.Text.Scan

/-!
# Templates

Texts in which an occurrence of another text is replaced, and texts with variables in double braces.
A variable does not go over a character that it cannot have, so variables can be filled in before or
after such a text is put in.
-/

namespace PartnerEdge.Text

/-! ## Replacing a text -/

/-- The pieces between the occurrences of a text; `skip` characters belong to one that was found. -/
def splitTextFrom (needle : Str) : Nat → Str → List Str
  | _, [] => [[]]
  | skip + 1, _ :: s => splitTextFrom needle skip s
  | 0, c :: s =>
    if needle.isPrefixOf (c :: s) then [] :: splitTextFrom needle (needle.length - 1) s
    else (splitTextFrom needle 0 s).modifyHead (c :: ·)

/-- `str::split` -/
def splitText (needle s : Str) : List Str := splitTextFrom needle 0 s

/-- `str::replace` -/
def replaceText (needle new s : Str) : Str := new.intercalate (splitText needle s)

example : replaceText "aa".toList "b".toList "caaaac".toList = "cbbc".toList := by decide

/-! ## Variables -/

def isVarChar (c : Char) : Bool := c.isUpper || c.isDigit || c == '_'

/-- The match of `\{\{([A-Z][A-Z0-9_]*)\}\}` at the start of a text: the name, and what follows. -/
def variableAt : Str → Option (Str × Str)
  | '{' :: '{' :: s =>
    match s.dropWhile isVarChar with
    | '}' :: '}' :: rest =>
      if (s.takeWhile isVarChar).head?.any Char.isUpper then some (s.takeWhile isVarChar, rest)
      else none
    | _ => none
  | _ => none

section Substitute

variable (value : Str → Str)

def substituteFrom : Nat → Str → Str
  | _, [] => []
  | skip + 1, _ :: s => substituteFrom skip s
  | 0, c :: s =>
    match variableAt (c :: s) with
    | some (name, rest) => value name ++ substituteFrom (s.length - rest.length) s
    | none => c :: substituteFrom 0 s

/-- Every variable, from the left, replaced by its value. -/
def substitute (s : Str) : Str := substituteFrom value 0 s

theorem substituteFrom_length (u s : Str) :
    substituteFrom value u.length (u ++ s) = substitute value s := by
  induction u with
  | nil => rfl
  | cons c u ih => exact ih

variable {value}

/-- A variable as it stands in a template. -/
def braced (name : Str) : Str := '{' :: '{' :: (name ++ ['}', '}'])

/-- `[A-Z][A-Z0-9_]*` -/
def IsVarName (name : Str) : Prop :=
  name.head?.any Char.isUpper = true ∧ ∀ c ∈ name, isVarChar c = true

theorem variableAt_eq_some_iff {s name rest : Str} :
    variableAt s = some (name, rest) ↔ IsVarName name ∧ s = braced name ++ rest := by
  constructor
  · intro h
    unfold variableAt at h
    split at h
    · next t =>
      split at h
      · next rest' hrest =>
        split at h
        · next hupper =>
          obtain ⟨rfl, rfl⟩ := Prod.mk.inj (Option.some.inj h)
          refine ⟨⟨hupper, fun c hc => List.mem_takeWhile_imp hc⟩, ?_⟩
          have ht : t = t.takeWhile isVarChar ++ '}' :: '}' :: rest' := by
            rw [← hrest, List.takeWhile_append_dropWhile]
          conv_lhs => rw [ht]
          simp [braced]
        · cases h
      · cases h
    · cases h
  · rintro ⟨⟨hupper, hchars⟩, rfl⟩
    have htake : (name ++ '}' :: '}' :: rest).takeWhile isVarChar = name := by
      rw [List.takeWhile_append_of_pos hchars]
      simp [isVarChar]
    have hdrop : (name ++ '}' :: '}' :: rest).dropWhile isVarChar = '}' :: '}' :: rest := by
      rw [List.dropWhile_append_of_pos hchars]
      simp [isVarChar]
    have hbraced : braced name ++ rest = '{' :: '{' :: (name ++ '}' :: '}' :: rest) := by
      simp [braced]
    rw [hbraced, variableAt, hdrop, htake]
    exact if_pos hupper

theorem substitute_of_variableAt {s name rest : Str} (h : variableAt s = some (name, rest)) :
    substitute value s = value name ++ substitute value rest := by
  obtain ⟨-, rfl⟩ := variableAt_eq_some_iff.1 h
  have hlength : ('{' :: (name ++ ['}', '}']) ++ rest).length - rest.length =
      ('{' :: (name ++ ['}', '}'])).length := by
    rw [List.length_append, Nat.add_sub_cancel]
  rw [braced, List.cons_append] at h ⊢
  rw [substitute, substituteFrom, h]
  dsimp only
  rw [hlength, substituteFrom_length]

theorem substitute_cons {c : Char} {s : Str} (h : variableAt (c :: s) = none) :
    substitute value (c :: s) = c :: substitute value s := by
  rw [substitute, substituteFrom, h]
  rfl

/-- A character that no variable has. -/
def IsBarrier (c : Char) : Prop := isVarChar c = false ∧ c ≠ '{' ∧ c ≠ '}'

theorem variableAt_of_ne {c : Char} (h : c ≠ '{') (s : Str) : variableAt (c :: s) = none := by
  unfold variableAt
  split
  · next heq =>
    cases heq
    exact absurd rfl h
  · rfl

theorem IsBarrier.notMem_braced {c : Char} (hc : IsBarrier c) {name : Str}
    (hname : IsVarName name) : c ∉ braced name := by
  obtain ⟨hvar, hopen, hclose⟩ := hc
  have hmem : c ∉ name := fun hmem => absurd (hname.2 c hmem) (by simp [hvar])
  simp [braced, hopen, hclose, hmem]

theorem variableAt_append_cons {c : Char} (hc : IsBarrier c) (a b : Str) :
    variableAt (a ++ c :: b) = (variableAt a).map fun x => (x.1, x.2 ++ c :: b) := by
  refine Option.ext fun x => ?_
  obtain ⟨name, rest⟩ := x
  rw [variableAt_eq_some_iff, Option.map_eq_some_iff]
  constructor
  · rintro ⟨hname, htext⟩
    have hstart : (braced name).isPrefixOf a = true := by
      rw [← isPrefixOf_append_cons (hc.notMem_braced hname) a b, htext]
      simp
    obtain ⟨rest', rfl⟩ := List.isPrefixOf_iff_prefix.1 hstart
    refine ⟨(name, rest'), variableAt_eq_some_iff.2 ⟨hname, rfl⟩, ?_⟩
    rw [List.append_assoc, List.append_right_inj] at htext
    rw [htext]
  · rintro ⟨⟨name', rest'⟩, hvariable, heq⟩
    obtain ⟨rfl, rfl⟩ := Prod.mk.inj heq
    obtain ⟨hname, rfl⟩ := variableAt_eq_some_iff.1 hvariable
    exact ⟨hname, List.append_assoc ..⟩

theorem substitute_append_cons {c : Char} (hc : IsBarrier c) (a b : Str) :
    substitute value (a ++ c :: b) = substitute value a ++ c :: substitute value b := by
  -- the text before the character gets shorter by a character or by a variable
  induction hlength : a.length using Nat.strong_induction_on generalizing a with
  | _ n ih =>
    cases a with
    | nil => exact substitute_cons (variableAt_of_ne hc.2.1 b)
    | cons x a =>
      cases hvariable : variableAt (x :: a) with
      | none =>
        have hnone := variableAt_append_cons hc (x :: a) b
        rw [hvariable, Option.map_none, List.cons_append] at hnone
        rw [List.cons_append, substitute_cons hnone, substitute_cons hvariable,
          ih a.length (by simp [← hlength]) a rfl, List.cons_append]
      | some found =>
        obtain ⟨name, rest⟩ := found
        have hsome := variableAt_append_cons hc (x :: a) b
        rw [hvariable, Option.map_some] at hsome
        have hshort : rest.length < n := by
          obtain ⟨-, htext⟩ := variableAt_eq_some_iff.1 hvariable
          rw [← hlength, htext]
          simp [braced]
          omega
        rw [substitute_of_variableAt hsome, substitute_of_variableAt hvariable,
          ih rest.length hshort rest rfl, List.append_assoc]

theorem substitute_append {a : Str} (h : '{' ∉ a) (b : Str) :
    substitute value (a ++ b) = a ++ substitute value b := by
  induction a with
  | nil => rfl
  | cons c a ih =>
    rw [List.mem_cons, not_or] at h
    rw [List.cons_append, substitute_cons (variableAt_of_ne (Ne.symm h.1) _), ih h.2,
      List.cons_append]

/-- Variables are filled in piece by piece, if the pieces are joined by a text that no variable can
reach into. -/
theorem substitute_intercalate {c : Char} (hc : IsBarrier c) {new : Str} (hnew : '{' ∉ new)
    (pieces : List Str) : substitute value ((c :: new).intercalate pieces) =
      (c :: new).intercalate (pieces.map (substitute value)) := by
  induction pieces with
  | nil => rfl
  | cons piece pieces ih =>
    cases pieces with
    | nil => simp
    | cons piece' pieces =>
      rw [List.map_cons] at ih
      rw [List.intercalate_cons_cons, List.map_cons, List.map_cons, List.intercalate_cons_cons]
      simp only [List.append_assoc, List.cons_append]
      rw [substitute_append_cons hc, substitute_append hnew, ih]

end Substitute

end PartnerEdge.Text
