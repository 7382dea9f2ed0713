import PartnerEdge.Parsing.Bits
import PartnerEdge.Parsing.Checked

/-!
# The bit reader of the Dependency Descriptor parser

`BitReader` walks a byte slice most significant bit first. Its operations are the source's, with
every index, shift and subtraction checked; `readBits_spec` and `readNs_cases` say what they compute
on the unread bits, and the parser's proofs use nothing else about the reader.
-/

namespace PartnerEdge.Svc

open Parsing

structure BitReader where
  bytes : List UInt8
  bitPos : Nat
deriving DecidableEq, Repr

namespace BitReader

def new (bytes : List UInt8) : BitReader := ⟨bytes, 0⟩

def totalBits (r : BitReader) : Nat := r.bytes.length * 8

def remaining (r : BitReader) : Nat := r.totalBits - r.bitPos

/-- The loop of `read_bits`: shifts `k` further bits into the `u32` accumulator. -/
def readBitsLoop : Nat → Nat → Parser BitReader Nat
  | 0, result => pure result
  | k + 1, result => do
    let r ← get
    let bitIdx ← checkedSub 7 (r.bitPos % 8)
    let byte ← index r.bytes (r.bitPos / 8)
    let bit := byte.toNat >>> bitIdx &&& 1
    set { r with bitPos := r.bitPos + 1 }
    readBitsLoop k (result <<< 1 % 2 ^ 32 ||| bit)

def readBits (n : Nat) : Parser BitReader Nat := do
  if n = 0 then
    return 0
  let r ← get
  if n > 32 ∨ r.remaining < n then
    reject
  else
    readBitsLoop n 0

def readBool : Parser BitReader Bool := do
  let v ← readBits 1
  return v != 0

/-- The loop of `read_ns` that counts shifts until `x` is zero; a `u32` needs at most 32. -/
def countShifts : Nat → Nat → Nat → Parser BitReader Nat
  | 0, _, _ => crash .outOfFuel
  | fuel + 1, x, w => if x = 0 then pure w else countShifts fuel (x >>> 1) (w + 1)

def readNs (n : Nat) : Parser BitReader Nat := do
  if n ≤ 1 then
    return 0
  let w ← countShifts 33 n 0
  let top ← checkedShl 32 1 w
  let m ← checkedSub top n
  let width ← checkedSub w 1
  let v ← readBits width
  if v < m then
    return v
  else
    let extra ← readBits 1
    let twice ← checkedShl 32 v 1
    let low ← checkedSub twice m
    checkedAdd 32 low extra

/-! ## The unread bits -/

def unread (r : BitReader) : List Bool := (Bits.ofBytes r.bytes).drop r.bitPos

def advance (r : BitReader) (n : Nat) : BitReader := { r with bitPos := r.bitPos + n }

@[simp] theorem unread_new (bytes : List UInt8) : (new bytes).unread = Bits.ofBytes bytes := rfl

theorem length_unread (r : BitReader) : r.unread.length = r.remaining := by
  simp [unread, remaining, totalBits, Nat.mul_comm]

@[simp] theorem unread_advance (r : BitReader) (n : Nat) :
    (r.advance n).unread = r.unread.drop n := by
  simp [unread, advance]

/-- An unread bit is the bit of the byte the reader indexes. -/
theorem unread_cons {r : BitReader} {b : Bool} {bs : List Bool} (h : r.unread = b :: bs) :
    ∃ byte, r.bytes[r.bitPos / 8]? = some byte ∧
      byte.toNat >>> (7 - r.bitPos % 8) &&& 1 = b.toNat := by
  have hget : (Bits.ofBytes r.bytes)[r.bitPos]? = some b := by
    have := congrArg (fun xs => xs[0]?) h
    simpa [unread] using this
  rw [Bits.getElem?_ofBytes] at hget
  obtain ⟨byte, hbyte, hb⟩ := Option.map_eq_some_iff.mp hget
  refine ⟨byte, hbyte, ?_⟩
  rw [← hb, Nat.and_one_is_mod, Nat.shiftRight_eq_div_pow, Nat.toNat_testBit]

theorem readBitsLoop_spec (k result : Nat) (r : BitReader) (hk : k ≤ r.unread.length)
    (hres : result < 2 ^ (32 - k)) (hk32 : k ≤ 32) :
    readBitsLoop k result r =
      .ok ((r.unread.take k).foldl (fun n b => 2 * n + b.toNat) result, r.advance k) := by
  induction k generalizing r result with
  | zero => rfl
  | succ k ih =>
    obtain ⟨b, bs, hbs⟩ : ∃ b bs, r.unread = b :: bs :=
      List.exists_cons_of_length_pos (by omega)
    obtain ⟨byte, hbyte, hbit⟩ := unread_cons hbs
    have hb : b.toNat ≤ 1 := Bool.toNat_le b
    have hpow : 2 ^ (32 - k) = 2 * 2 ^ (32 - (k + 1)) := by
      rw [← Nat.pow_succ']
      congr 1
      omega
    have hle : 2 ^ (32 - k) ≤ 2 ^ 32 := Nat.pow_le_pow_right (by omega) (by omega)
    -- The accumulator has room for one more bit, so the shift loses nothing.
    have hacc : result <<< 1 % 2 ^ 32 ||| b.toNat = 2 * result + b.toNat := by
      rw [Nat.mod_eq_of_lt (by rw [Nat.shiftLeft_eq]; omega),
        ← Nat.shiftLeft_add_eq_or_of_lt (by omega), Nat.shiftLeft_eq]
      ring
    have hnext : (r.advance 1).unread = bs := by simp [hbs]
    have hstep : readBitsLoop (k + 1) result r =
        readBitsLoop k (2 * result + b.toNat) (r.advance 1) := by
      have h7 : r.bitPos % 8 ≤ 7 := by omega
      rw [← hacc, ← hbit]
      simp only [readBitsLoop, bind_apply, get_apply, checkedSub, if_pos h7, index, hbyte,
        pure_apply, set_apply, advance]
    rw [hstep, ih _ _ (by rw [hnext]; simp [hbs] at hk; omega) (by omega) (by omega), hnext, hbs]
    simp [advance, Nat.add_comm, Nat.add_left_comm]

/-- `read_bits` returns the number the next `n` bits denote, or rejects when fewer are left. -/
theorem readBits_spec {n : Nat} (hn : n ≤ 32) (r : BitReader) :
    readBits n r =
      if r.unread.length < n then .error .reject
      else .ok (Bits.toNat (r.unread.take n), r.advance n) := by
  by_cases h0 : n = 0
  · subst h0
    rfl
  · have hread : readBits n r =
        if r.unread.length < n then .error .reject else readBitsLoop n 0 r := by
      rw [length_unread]
      by_cases hlt : r.remaining < n
      · simp [readBits, h0, bind_apply, get_apply, hlt, reject]
      · have : ¬ 32 < n := by omega
        simp [readBits, h0, bind_apply, get_apply, hlt, this]
    rw [hread]
    split
    · rfl
    · rw [readBitsLoop_spec n 0 r (by omega) (Nat.two_pow_pos _) hn]
      rfl

theorem safe_readBits {n : Nat} (hn : n ≤ 32) : Safe (readBits n) (· < 2 ^ n) := by
  intro r _
  rw [readBits_spec hn]
  by_cases h : r.unread.length < n
  · rw [if_pos h]
    trivial
  · have hlt := Bits.toNat_lt (r.unread.take n)
    rw [List.length_take, Nat.min_eq_left (by omega)] at hlt
    rw [if_neg h]
    exact hlt

theorem consumes_readBits {w v : Nat} (hw : w ≤ 32) (hv : v < 2 ^ w) :
    Consumes unread (readBits w) (Bits.ofNat w v) v := by
  intro r rest h
  refine ⟨r.advance w, ?_, ?_⟩
  · have htake : r.unread.take w = Bits.ofNat w v := by
      rw [h, List.take_left' (Bits.length_ofNat w v)]
    rw [readBits_spec hw, if_neg (by simp [h]), htake, Bits.toNat_ofNat, Nat.mod_eq_of_lt hv]
  · rw [unread_advance, h, List.drop_left' (Bits.length_ofNat w v)]

theorem safe_readBool : Safe readBool (fun _ => True) :=
  (safe_readBits (by omega)).bind fun _ _ => Safe.of_pure trivial

theorem consumes_readBool (b : Bool) : Consumes unread readBool [b] b := by
  have h := (consumes_readBits (w := 1) (v := b.toNat) (by omega) (Bool.toNat_lt b)).map (· != 0)
  cases b <;> exact h

/-! ## Non-symmetric numbers -/

theorem size_eq_succ {x : Nat} (h : x ≠ 0) : x.size = (x >>> 1).size + 1 := by
  have hbit : Nat.bit x.bodd (x >>> 1) = x := by
    rw [Nat.shiftRight_eq_div_pow, Nat.pow_one, ← Nat.div2_val]
    exact Nat.bit_bodd_div2 x
  have hsize := Nat.size_bit (b := x.bodd) (n := x >>> 1) (by rwa [hbit])
  rwa [hbit] at hsize

theorem countShifts_spec {fuel x : Nat} (w : Nat) (h : x.size < fuel) :
    countShifts fuel x w = pure (w + x.size) := by
  induction fuel generalizing x w with
  | zero => omega
  | succ fuel ih =>
    unfold countShifts
    split
    · next h0 => simp [h0]
    · next h0 =>
      rw [size_eq_succ h0] at h ⊢
      rw [ih (w + 1) (by omega)]
      congr 1
      omega

theorem size_bounds {n : Nat} (h2 : 2 ≤ n) (hn : n < 2 ^ 31) :
    (1 < n.size ∧ n.size ≤ 31) ∧ 2 ^ n.size ≤ 2 ^ 31 ∧ 2 ^ n.size = 2 * 2 ^ (n.size - 1) ∧
      2 ^ (n.size - 1) ≤ n ∧ n < 2 ^ n.size := by
  have hpos : 1 < n.size := Nat.lt_size.mpr h2
  have hsize : n.size ≤ 31 := Nat.size_le.mpr hn
  refine ⟨⟨hpos, hsize⟩, Nat.pow_le_pow_right (by omega) hsize, ?_, Nat.lt_size.mp (by omega),
    Nat.lt_size_self n⟩
  rw [← Nat.pow_succ']
  congr 1
  omega

/-- For `2 ≤ n < 2 ^ 31` the shifts and subtractions before the first read are all in range. -/
theorem readNs_eq {n : Nat} (h2 : 2 ≤ n) (hn : n < 2 ^ 31) :
    readNs n = (do
      let v ← readBits (n.size - 1)
      if v < 2 ^ n.size - n then
        return v
      else
        let extra ← readBits 1
        let twice ← checkedShl 32 v 1
        let low ← checkedSub twice (2 ^ n.size - n)
        checkedAdd 32 low extra) := by
  obtain ⟨hsize, hpow, hhalf, hlow, htop⟩ := size_bounds h2 hn
  rw [readNs, if_neg (by omega), countShifts_spec 0 (by omega)]
  simp only [pure_bind, Nat.zero_add]
  rw [checkedShl_of_lt (by omega) (by omega), pure_bind, Nat.one_mul,
    checkedSub_of_le (Nat.lt_size_self n).le, pure_bind, checkedSub_of_le (by omega), pure_bind]

theorem safe_readNs {n : Nat} (hn : n < 2 ^ 31) : Safe (readNs n) (· < max n 1) := by
  by_cases h2 : 2 ≤ n
  · rw [readNs_eq h2 hn]
    obtain ⟨hsize, hpow, hhalf, hlow, htop⟩ := size_bounds h2 hn
    refine (safe_readBits (n := n.size - 1) (by omega)).bind fun v hv => ?_
    split
    · exact Safe.of_pure (by omega)
    · refine (safe_readBits (n := 1) (by omega)).bind fun extra hextra => ?_
      rw [checkedShl_of_lt (by omega) (by omega), pure_bind, checkedSub_of_le (by omega), pure_bind,
        checkedAdd_of_lt (by omega)]
      exact Safe.of_pure (by omega)
  · rw [readNs, if_pos (by omega)]
    exact Safe.of_pure (by omega)

theorem consumes_readNs {n v : Nat} (hn : n < 2 ^ 31) (hv : v < n) :
    Consumes unread (readNs n) (Bits.encodeNs n v) v := by
  by_cases h2 : 2 ≤ n
  · rw [readNs_eq h2 hn, Bits.encodeNs, if_neg (by omega)]
    obtain ⟨hsize, hpow, hhalf, hlow, htop⟩ := size_bounds h2 hn
    dsimp only
    split
    · next hm =>
      exact (consumes_readBits (by omega) (by omega)).bind_pure (if_pos hm)
    · next hm =>
      refine (consumes_readBits (w := n.size - 1) (by omega) (by omega)).bind ?_
      rw [if_neg (by omega)]
      refine (consumes_readBits (w := 1) (by omega) (by omega)).bind_pure ?_
      rw [checkedShl_of_lt (by omega) (by omega), pure_bind, checkedSub_of_le (by omega), pure_bind,
        checkedAdd_of_lt (by omega)]
      congr 1
      omega
  · have h1 : n ≤ 1 := by omega
    have h0 : v = 0 := by omega
    subst h0
    rw [readNs, Bits.encodeNs, if_pos h1, if_pos h1]
    exact Consumes.of_pure 0

@[simp] theorem advance_advance (r : BitReader) (j k : Nat) :
    (r.advance j).advance k = r.advance (j + k) := by
  simp [advance, Nat.add_assoc]

/-- `read_ns` fails if the bits run out, and else returns a number below `n` from bits that are
there. -/
theorem readNs_cases {n : Nat} (h1 : 1 ≤ n) (hn : n < 2 ^ 31) (r : BitReader) :
    (readNs n r = .error .reject ∧ r.unread.length < n.size) ∨
      ∃ v k, readNs n r = .ok (v, r.advance k) ∧ k ≤ r.unread.length ∧ v < n := by
  by_cases h2 : 2 ≤ n
  · obtain ⟨hsize, hpow, hhalf, hlow, htop⟩ := size_bounds h2 hn
    have hbits := Bits.toNat_lt (r.unread.take (n.size - 1))
    rw [readNs_eq h2 hn, bind_apply, readBits_spec (by omega)]
    by_cases hshort : r.unread.length < n.size - 1
    · rw [if_pos hshort]
      exact .inl ⟨rfl, by omega⟩
    · rw [if_neg hshort]
      dsimp only
      rw [List.length_take_of_le (by omega)] at hbits
      generalize Bits.toNat (r.unread.take (n.size - 1)) = v at hbits
      by_cases hm : v < 2 ^ n.size - n
      · rw [if_pos hm]
        exact .inr ⟨v, n.size - 1, rfl, by omega, by omega⟩
      · have hextra := Bits.toNat_lt ((r.advance (n.size - 1)).unread.take 1)
        rw [if_neg hm, bind_apply, readBits_spec (by omega), unread_advance, List.length_drop]
        by_cases hlast : r.unread.length - (n.size - 1) < 1
        · rw [if_pos hlast]
          exact .inl ⟨rfl, by omega⟩
        · rw [unread_advance, List.length_take_of_le (by rw [List.length_drop]; omega)] at hextra
          rw [if_neg hlast, advance_advance]
          dsimp only
          generalize Bits.toNat ((r.unread.drop (n.size - 1)).take 1) = extra at hextra
          rw [checkedShl_of_lt (by omega) (by omega), pure_bind, checkedSub_of_le (by omega),
            pure_bind, checkedAdd_of_lt (by omega)]
          exact .inr ⟨v * 2 ^ 1 - (2 ^ n.size - n) + extra, _, rfl, by omega, by omega⟩
  · rw [readNs, if_pos (by omega)]
    exact .inr ⟨0, 0, rfl, by omega, by omega⟩

/-- Written numbers are read back from any position, with exactly their bits. Whatever the bits are,
a number below `n` is read or too few bits are reported. -/
theorem readNs_inverse_and_bounded (n : Nat) (h1 : 1 ≤ n) (hn : n < 2 ^ 31) :
    (∀ v < n, ∀ r rest, unread r = Bits.encodeNs n v ++ rest →
      readNs n r = .ok (v, r.advance (Bits.encodeNs n v).length)) ∧
    ∀ r, (readNs n r = .error .reject ∧ r.unread.length < n.size) ∨
      ∃ v k, readNs n r = .ok (v, r.advance k) ∧ k ≤ r.unread.length ∧ v < n := by
  refine ⟨fun v hv r rest hr => ?_, readNs_cases h1 hn⟩
  obtain ⟨r', hread, hrest⟩ := consumes_readNs hn hv r rest hr
  obtain ⟨herror, -⟩ | ⟨w, k, hw, hk, -⟩ := readNs_cases h1 hn r
  · rw [hread] at herror
    cases herror
  · rw [hread, Except.ok.injEq, Prod.mk.injEq] at hw
    obtain ⟨rfl, rfl⟩ := hw
    have hlength : k = (Bits.encodeNs n v).length := by
      have hdrop := congrArg List.length hrest
      have htotal := congrArg List.length hr
      rw [unread_advance, List.length_drop] at hdrop
      rw [List.length_append] at htotal
      omega
    rw [hread, hlength]

theorem readNs_inverse_and_bounded_five : Bits.encodeNs 5 3 = [true, true, false] ∧
    readNs 5 ⟨[0x1a], 3⟩ = .ok (3, ⟨[0x1a], 6⟩) :=
  ⟨by decide, (readNs_inverse_and_bounded 5 (by decide) (by decide)).1 3 (by decide) ⟨[0x1a], 3⟩
    [true, false] (by decide)⟩

end BitReader

end PartnerEdge.Svc
