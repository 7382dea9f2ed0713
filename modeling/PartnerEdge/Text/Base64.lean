import PartnerEdge.Text.Lines

/-!
# Base64

A strict decoder of the standard alphabet, as a value with the two facts that its users need. The
instance `standard` demands canonical padding and zero trailing bits. Decoders that accept more than
a given one are its `Lenient` decoders; `trailing` is one that ignores the trailing bits.
-/

namespace PartnerEdge.Text

def isBase64Char (c : Char) : Bool := c.isAlphanum || c == '+' || c == '/' || c == '='

structure Base64 where
  /-- The bytes, or the text of the error. -/
  decode : Str → Except Str (List UInt8)
  decode_nil : decode [] = .ok []
  isBase64Char_of_decode : ∀ {s bytes}, decode s = .ok bytes → ∀ c ∈ s, isBase64Char c = true

namespace Base64

/-- The six bits of a character. -/
def sextet (c : Char) : Option Nat :=
  if c.isUpper then some (c.toNat - 65)
  else if c.isLower then some (c.toNat - 71)
  else if c.isDigit then some (c.toNat + 4)
  else if c = '+' then some 62
  else if c = '/' then some 63
  else none

def bytesOf (bits : Nat) (n : Nat) : List UInt8 :=
  (List.range n).map fun i => UInt8.ofNat (bits / 2 ^ (16 - 8 * i))

def decodeStandard : Str → Option (List UInt8)
  | [] => some []
  | [a, b, '=', '='] => do
    let bits := (← sextet a) * 2 ^ 18 + (← sextet b) * 2 ^ 12
    if bits % 2 ^ 16 = 0 then some (bytesOf bits 1) else none
  | [a, b, c, '='] => do
    let bits := (← sextet a) * 2 ^ 18 + (← sextet b) * 2 ^ 12 + (← sextet c) * 2 ^ 6
    if bits % 2 ^ 8 = 0 then some (bytesOf bits 2) else none
  | a :: b :: c :: d :: s => do
    let bits := (← sextet a) * 2 ^ 18 + (← sextet b) * 2 ^ 12 + (← sextet c) * 2 ^ 6 + (← sextet d)
    some (bytesOf bits 3 ++ (← decodeStandard s))
  | _ => none

theorem isBase64Char_of_sextet {c : Char} {n : Nat} (h : sextet c = some n) :
    isBase64Char c = true := by
  unfold sextet at h
  simp only [isBase64Char, Char.isAlphanum, Char.isAlpha]
  grind

/-- The same without the demand on the trailing bits. -/
def decodeTrailing : Str → Option (List UInt8)
  | [] => some []
  | [a, b, '=', '='] => do
    let bits := (← sextet a) * 2 ^ 18 + (← sextet b) * 2 ^ 12
    some (bytesOf bits 1)
  | [a, b, c, '='] => do
    let bits := (← sextet a) * 2 ^ 18 + (← sextet b) * 2 ^ 12 + (← sextet c) * 2 ^ 6
    some (bytesOf bits 2)
  | a :: b :: c :: d :: s => do
    let bits := (← sextet a) * 2 ^ 18 + (← sextet b) * 2 ^ 12 + (← sextet c) * 2 ^ 6 + (← sextet d)
    some (bytesOf bits 3 ++ (← decodeTrailing s))
  | _ => none

theorem decodeTrailing_of_decodeStandard {s : Str} {bytes : List UInt8}
    (h : decodeStandard s = some bytes) : decodeTrailing s = some bytes := by
  fun_induction decodeStandard s generalizing bytes with
  | case1 => exact h
  | case2 a b =>
    simp only [decodeTrailing, Option.bind_eq_bind, Option.bind_eq_some_iff] at h ⊢
    grind
  | case3 a b c =>
    simp only [decodeTrailing, Option.bind_eq_bind, Option.bind_eq_some_iff] at h ⊢
    grind
  | case4 a b c d s _ _ ih =>
    simp only [decodeTrailing, Option.bind_eq_bind, Option.bind_eq_some_iff] at h ⊢
    grind
  | case5 => cases h

theorem isBase64Char_of_decodeTrailing {s : Str} {bytes : List UInt8}
    (h : decodeTrailing s = some bytes) : ∀ c ∈ s, isBase64Char c = true := by
  fun_induction decodeTrailing s generalizing bytes with
  | case1 => simp
  | case2 a b =>
    simp only [Option.bind_eq_bind, Option.bind_eq_some_iff] at h
    obtain ⟨x, ha, y, hb, _⟩ := h
    have := isBase64Char_of_sextet ha
    have := isBase64Char_of_sextet hb
    have : isBase64Char '=' = true := rfl
    simp_all
  | case3 a b c =>
    simp only [Option.bind_eq_bind, Option.bind_eq_some_iff] at h
    obtain ⟨x, ha, y, hb, z, hc, _⟩ := h
    have := isBase64Char_of_sextet ha
    have := isBase64Char_of_sextet hb
    have := isBase64Char_of_sextet hc
    have : isBase64Char '=' = true := rfl
    simp_all
  | case4 a b c d s _ _ ih =>
    simp only [Option.bind_eq_bind, Option.bind_eq_some_iff] at h
    obtain ⟨x, ha, y, hb, z, hc, w, hd, rest, hrest, _⟩ := h
    have := isBase64Char_of_sextet ha
    have := isBase64Char_of_sextet hb
    have := isBase64Char_of_sextet hc
    have := isBase64Char_of_sextet hd
    have := ih hrest
    simp_all
  | case5 => simp at h

def standard : Base64 where
  decode s := match decodeStandard s with
    | some bytes => .ok bytes
    | none => .error "Invalid input.".toList
  decode_nil := rfl
  isBase64Char_of_decode := by
    intro s bytes h
    split at h
    · next heq => exact isBase64Char_of_decodeTrailing (decodeTrailing_of_decodeStandard heq)
    · cases h

/-- A decoder of the same characters that agrees with the strict one wherever that one decodes; it
may accept more. -/
structure Lenient (base64 : Base64) where
  decode : Str → Option (List UInt8)
  isBase64Char_of_decode : ∀ {s bytes}, decode s = some bytes → ∀ c ∈ s, isBase64Char c = true
  decode_of_ok : ∀ {s bytes}, base64.decode s = .ok bytes → decode s = some bytes

def trailing : Lenient standard where
  decode := decodeTrailing
  isBase64Char_of_decode := isBase64Char_of_decodeTrailing
  decode_of_ok := by
    intro s bytes h
    refine decodeTrailing_of_decodeStandard ?_
    simp only [standard] at h
    split at h
    · next heq => rw [heq, Except.ok.inj h]
    · cases h

end Base64

end PartnerEdge.Text
