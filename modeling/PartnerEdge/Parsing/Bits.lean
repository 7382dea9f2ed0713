import Mathlib.Data.Nat.Size
import Mathlib.Tactic

/-!
# Bit strings

Fixed-width numbers as bit strings, most significant bit first; byte strings as bit strings; and
the truncated binary code for a number below `n`, which spends one bit less on the small values
when `n` is not a power of two.
-/

namespace PartnerEdge.Bits

/-- The low `w` bits of `n`, most significant first. -/
def ofNat : Nat → Nat → List Bool
  | 0, _ => []
  | w + 1, n => n.testBit w :: ofNat w n

def toNat (bs : List Bool) : Nat :=
  bs.foldl (fun n b => 2 * n + b.toNat) 0

@[simp] theorem length_ofNat (w n : Nat) : (ofNat w n).length = w := by
  induction w with
  | zero => rfl
  | succ w ih => simp [ofNat, ih]

theorem foldl_eq_toNat (bs : List Bool) (n : Nat) :
    bs.foldl (fun n b => 2 * n + b.toNat) n = n * 2 ^ bs.length + toNat bs := by
  induction bs generalizing n with
  | nil => simp [toNat]
  | cons b bs ih =>
    rw [List.foldl_cons, toNat, List.foldl_cons, ih, ih (2 * 0 + b.toNat), List.length_cons]
    ring

theorem toNat_cons (b : Bool) (bs : List Bool) :
    toNat (b :: bs) = b.toNat * 2 ^ bs.length + toNat bs := by
  rw [← foldl_eq_toNat, toNat, List.foldl_cons, Nat.mul_zero, Nat.zero_add]

theorem toNat_lt (bs : List Bool) : toNat bs < 2 ^ bs.length := by
  induction bs with
  | nil => simp [toNat]
  | cons b bs ih =>
    rw [toNat_cons, List.length_cons, Nat.pow_succ]
    have hb : b.toNat ≤ 1 := Bool.toNat_le b
    nlinarith

theorem toNat_ofNat (w n : Nat) : toNat (ofNat w n) = n % 2 ^ w := by
  induction w with
  | zero => simp [ofNat, toNat, Nat.mod_one]
  | succ w ih =>
    rw [ofNat, toNat_cons, ih, length_ofNat, Nat.toNat_testBit, Nat.pow_succ, Nat.mod_mul]
    ring

/-- The bits of a byte string, most significant bit of each byte first. -/
def ofBytes (bytes : List UInt8) : List Bool :=
  bytes.flatMap fun b => ofNat 8 b.toNat

@[simp] theorem length_ofBytes (bytes : List UInt8) :
    (ofBytes bytes).length = 8 * bytes.length := by
  induction bytes with
  | nil => rfl
  | cons b bytes ih =>
    simp only [ofBytes, List.flatMap_cons, List.length_append, length_ofNat] at ih ⊢
    rw [ih, List.length_cons]
    ring

theorem getElem?_ofNat (w n i : Nat) :
    (ofNat w n)[i]? = if i < w then some (n.testBit (w - 1 - i)) else none := by
  induction w generalizing i with
  | zero => simp [ofNat]
  | succ w ih =>
    cases i with
    | zero => simp [ofNat]
    | succ i =>
      simp only [ofNat, List.getElem?_cons_succ, ih, Nat.add_lt_add_iff_right]
      congr 3
      omega

theorem getElem?_ofBytes (bytes : List UInt8) (i : Nat) :
    (ofBytes bytes)[i]? = bytes[i / 8]?.map fun b => b.toNat.testBit (7 - i % 8) := by
  induction bytes generalizing i with
  | nil => simp [ofBytes]
  | cons b bytes ih =>
    rw [ofBytes, List.flatMap_cons, List.getElem?_append, length_ofNat]
    split
    · next h =>
      rw [getElem?_ofNat, if_pos h, Nat.div_eq_of_lt h, Nat.mod_eq_of_lt h]
      rfl
    · next h =>
      have hdiv : i / 8 = (i - 8) / 8 + 1 := by omega
      have hmod : i % 8 = (i - 8) % 8 := by omega
      rw [hdiv, hmod, List.getElem?_cons_succ]
      exact ih (i - 8)

/-- The truncated binary code of `v` among the numbers below `n`. -/
def encodeNs (n v : Nat) : List Bool :=
  if n ≤ 1 then []
  else
    let w := n.size
    let m := 2 ^ w - n
    if v < m then ofNat (w - 1) v
    else ofNat (w - 1) ((v + m) / 2) ++ ofNat 1 ((v + m) % 2)

end PartnerEdge.Bits
