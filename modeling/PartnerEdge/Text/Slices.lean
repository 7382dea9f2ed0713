import PartnerEdge.Text.Scan

/-!
# Slices by byte offset

Rust's `str` is indexed by the bytes of its UTF-8 form. A search answers with an offset, and a slice
panics when an offset lies beyond the end or inside a character. Here a text is still the list of
its characters, an offset counts bytes, and a panic is `none`.
-/

namespace PartnerEdge.Text

/-- `str::len`. -/
def byteLen : Str → Nat
  | [] => 0
  | c :: s => c.utf8Size + byteLen s

/-- `str::find` for a character. -/
def findChar (sep : Char) : Str → Option Nat
  | [] => none
  | c :: s => if c = sep then some 0 else (findChar sep s).map (c.utf8Size + ·)

/-- `str::split_at`. -/
def splitAtByte : Nat → Str → Option (Str × Str)
  | 0, s => some ([], s)
  | _ + 1, [] => none
  | n + 1, c :: s =>
    if c.utf8Size ≤ n + 1 then (splitAtByte (n + 1 - c.utf8Size) s).map fun (a, b) => (c :: a, b)
    else none

/-- `&s[i..]`. -/
def sliceFrom (s : Str) (i : Nat) : Option Str := (splitAtByte i s).map Prod.snd

/-- `&s[i..j]`. -/
def slice (s : Str) (i j : Nat) : Option Str := do
  let (head, _) ← splitAtByte j s
  sliceFrom head i

@[simp] theorem byteLen_append (a b : Str) : byteLen (a ++ b) = byteLen a + byteLen b := by
  induction a with
  | nil => simp [byteLen]
  | cons c a ih => simp [byteLen, ih, Nat.add_assoc]

/-- The offset at which a text ends is one where it can be cut. -/
theorem splitAtByte_append (a b : Str) : splitAtByte (byteLen a) (a ++ b) = some (a, b) := by
  induction a with
  | nil => cases b <;> rfl
  | cons c a ih =>
    obtain ⟨n, hn⟩ : ∃ n, byteLen (c :: a) = n + 1 :=
      Nat.exists_eq_add_one.2 (Nat.add_pos_left c.utf8Size_pos _)
    have hrest : n + 1 - c.utf8Size = byteLen a := by grind [byteLen]
    have hle : c.utf8Size ≤ n + 1 := by grind [byteLen]
    rw [hn, List.cons_append, splitAtByte, if_pos hle, hrest, ih]
    rfl

theorem sliceFrom_append (a b : Str) : sliceFrom (a ++ b) (byteLen a) = some b := by
  rw [sliceFrom, splitAtByte_append]
  rfl

theorem slice_append (a b c : Str) :
    slice (a ++ b ++ c) (byteLen a) (byteLen (a ++ b)) = some b := by
  simp only [slice, splitAtByte_append (a ++ b) c, Option.bind_eq_bind, Option.bind_some,
    sliceFrom_append]

/-- A search by offset finds what `splitOnce` splits at. -/
theorem findChar_eq (sep : Char) (s : Str) :
    findChar sep s = (splitOnce sep s).map fun parts => byteLen parts.1 := by
  induction s with
  | nil => rfl
  | cons c s ih =>
    by_cases hc : c = sep
    · simp [findChar, splitOnce, hc, byteLen]
    · simp [findChar, splitOnce, hc, ih, Function.comp_def, byteLen]

end PartnerEdge.Text
