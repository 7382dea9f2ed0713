import PartnerEdge.Text.Scan

/-!
# IPv4 addresses

An address is read from dotted decimals as Rust's standard library reads it: four numbers of at most
three digits without a leading zero, which is how addresses are written. A net is the addresses that
agree with its own under a mask of leading ones; a mask of whole octets compares these octets.
-/

namespace PartnerEdge.Net

open Text

structure Ipv4Addr where
  a : BitVec 8
  b : BitVec 8
  c : BitVec 8
  d : BitVec 8
deriving DecidableEq, Repr

def Ipv4Addr.toU32 (ip : Ipv4Addr) : BitVec 32 := ip.a ++ ip.b ++ ip.c ++ ip.d

/-- A number of one to three digits, below 256 and without a leading zero. -/
def parseOctet (s : Str) : Option (BitVec 8) :=
  if s.length > 3 || (s.head? = some '0' && s.length > 1) then none
  else
    match parseDigits s with
    | some n => if n < 256 then some (BitVec.ofNat 8 n) else none
    | none => none

def parseIpv4 (s : Str) : Option Ipv4Addr :=
  match (s.splitOn '.').map parseOctet with
  | [some a, some b, some c, some d] => some ⟨a, b, c, d⟩
  | _ => none

def showOctet (o : BitVec 8) : Str := Nat.toDigits 10 o.toNat

def showIpv4 (ip : Ipv4Addr) : Str :=
  ['.'].intercalate [showOctet ip.a, showOctet ip.b, showOctet ip.c, showOctet ip.d]

def mask (bits : Nat) : BitVec 32 := if bits = 0 then 0 else BitVec.allOnes 32 <<< (32 - bits)

/-- The address is in the net with this many leading bits. -/
def Ipv4Addr.inNet (net : Ipv4Addr) (bits : Nat) (ip : Ipv4Addr) : Bool :=
  ip.toU32 &&& mask bits == net.toU32 &&& mask bits

section Bits

variable {n k : Nat} {x x' : BitVec n} {y y' : BitVec k}

/-- A mask without its `k` lowest bits compares what is above them. -/
theorem and_shiftLeft_allOnes_eq_iff (k : Nat) (x x' : BitVec n) :
    x &&& (BitVec.allOnes n <<< k) = x' &&& (BitVec.allOnes n <<< k) ↔ x >>> k = x' >>> k := by
  constructor
  · intro h
    ext i hi
    have hbit := congrArg (fun z => z.getLsbD (k + i)) h
    simp only [BitVec.getLsbD_and, BitVec.getLsbD_shiftLeft, BitVec.getLsbD_allOnes] at hbit
    simp only [BitVec.getElem_ushiftRight]
    by_cases hk : k + i < n
    · simpa [hk, hi] using hbit
    · simp [BitVec.getLsbD_of_ge, Nat.le_of_not_lt hk]
  · intro h
    ext i hi
    have hbit := congrArg (fun z => z.getLsbD (i - k)) h
    by_cases hk : i < k
    · simp [hk]
    · have hle : k ≤ i := Nat.le_of_not_lt hk
      simpa [hi, hk, Nat.add_sub_cancel' hle] using hbit

theorem toNat_append_eq (x : BitVec n) (y : BitVec k) :
    (x ++ y).toNat = x.toNat * 2 ^ k + y.toNat := by
  rw [BitVec.toNat_append, ← Nat.shiftLeft_add_eq_or_of_lt y.isLt, Nat.shiftLeft_eq]

theorem toNat_append_ushiftRight (x : BitVec n) (y : BitVec k) :
    ((x ++ y) >>> k).toNat = x.toNat := by
  have hpos : 0 < 2 ^ k := by positivity
  rw [BitVec.toNat_ushiftRight, toNat_append_eq, Nat.shiftRight_eq_div_pow, Nat.add_comm,
    Nat.add_mul_div_right _ _ hpos, Nat.div_eq_of_lt y.isLt, Nat.zero_add]

theorem append_ushiftRight_eq_iff : (x ++ y) >>> k = (x' ++ y') >>> k ↔ x = x' := by
  rw [← BitVec.toNat_inj, toNat_append_ushiftRight, toNat_append_ushiftRight, BitVec.toNat_inj]

theorem append_eq_append_iff : x ++ y = x' ++ y' ↔ x = x' ∧ y = y' := by
  constructor
  · intro h
    have hshift : (x ++ y) >>> k = (x' ++ y') >>> k := by rw [h]
    obtain rfl := append_ushiftRight_eq_iff.1 hshift
    have hsum := congrArg BitVec.toNat h
    rw [toNat_append_eq, toNat_append_eq] at hsum
    exact ⟨rfl, BitVec.eq_of_toNat_eq (Nat.add_left_cancel hsum)⟩
  · rintro ⟨rfl, rfl⟩
    rfl

end Bits

/-- A net of 24 bits compares three octets. -/
theorem inNet_24_iff {net ip : Ipv4Addr} :
    net.inNet 24 ip = true ↔ ip.a = net.a ∧ ip.b = net.b ∧ ip.c = net.c := by
  have hmask : mask 24 = BitVec.allOnes 32 <<< 8 := rfl
  rw [Ipv4Addr.inNet, beq_iff_eq, hmask, and_shiftLeft_allOnes_eq_iff]
  calc ip.toU32 >>> 8 = net.toU32 >>> 8
      ↔ ip.a ++ ip.b ++ ip.c = net.a ++ net.b ++ net.c := append_ushiftRight_eq_iff
    _ ↔ ip.a = net.a ∧ ip.b = net.b ∧ ip.c = net.c := by
      rw [append_eq_append_iff, append_eq_append_iff, and_assoc]

/-- The address as a number. -/
theorem toNat_toU32 (ip : Ipv4Addr) : ip.toU32.toNat =
    ((ip.a.toNat * 256 + ip.b.toNat) * 256 + ip.c.toNat) * 256 + ip.d.toNat := by
  simp only [Ipv4Addr.toU32, toNat_append_eq, Nat.reducePow]

theorem inNet_iff_div {net ip : Ipv4Addr} {bits : Nat} (hpos : bits ≠ 0) :
    net.inNet bits ip = true ↔
      ip.toU32.toNat / 2 ^ (32 - bits) = net.toU32.toNat / 2 ^ (32 - bits) := by
  rw [Ipv4Addr.inNet, beq_iff_eq, mask, if_neg hpos, and_shiftLeft_allOnes_eq_iff,
    ← BitVec.toNat_inj, BitVec.toNat_ushiftRight, BitVec.toNat_ushiftRight,
    Nat.shiftRight_eq_div_pow, Nat.shiftRight_eq_div_pow]

/-- The octets of an address in a net are those of the net, down to its last bit. -/
theorem octets_of_inNet {net ip : Ipv4Addr} {bits k m : Nat}
    (hnet : bits ≠ 0 ∧ 2 ^ (32 - bits) = m ∧ net.toU32.toNat / m = k)
    (h : net.inNet bits ip = true) :
    (((ip.a.toNat * 256 + ip.b.toNat) * 256 + ip.c.toNat) * 256 + ip.d.toNat) / m = k := by
  obtain ⟨hpos, rfl, rfl⟩ := hnet
  rw [← toNat_toU32]
  exact (inNet_iff_div hpos).1 h

/-! ## Reading and writing -/

theorem parseOctet_eq_some_iff {s : Str} {o : BitVec 8} :
    parseOctet s = some o ↔ s = showOctet o := by
  constructor
  · intro h
    unfold parseOctet at h
    split at h
    next => cases h
    next hshape =>
      split at h
      next n hn =>
        split at h
        next hlt =>
          cases h
          obtain ⟨hne, hdigits, rfl⟩ := parseDigits_eq_some_iff.1 hn
          have hlead : s.head? = some '0' → s.length = 1 := by
            intro hzero
            have hpos := List.length_pos_of_ne_nil hne
            simp [hzero] at hshape
            omega
          rw [showOctet, BitVec.toNat_ofNat, Nat.mod_eq_of_lt hlt,
            toDigits_ofDigitChars hne hdigits hlead]
        next => cases h
      next => cases h
  · rintro rfl
    have hlt : o.toNat < 256 := o.isLt
    have hlength : (Nat.toDigits 10 o.toNat).length ≤ 3 :=
      Nat.toDigits_length 10 o.toNat 3 (by decide) (by omega)
    have hlead : (Nat.toDigits 10 o.toNat).head? = some '0' →
        ¬ (Nat.toDigits 10 o.toNat).length > 1 := by
      intro hzero
      rw [eq_zero_of_head?_toDigits hzero]
      decide
    rw [parseOctet, showOctet, if_neg (by simpa [hlength] using hlead), parseDigits_toDigits]
    simp [hlt]

theorem dot_notMem_showOctet (o : BitVec 8) : '.' ∉ showOctet o :=
  fun h => absurd (isDigit_of_mem_toDigits h) (by decide)

theorem parseIpv4_eq_some_iff {s : Str} {ip : Ipv4Addr} :
    parseIpv4 s = some ip ↔ s = showIpv4 ip := by
  constructor
  · intro h
    unfold parseIpv4 at h
    split at h
    next a b c d hparts =>
      cases h
      obtain ⟨pa, ps, hs, ha, hps⟩ := List.map_eq_cons_iff.1 hparts
      obtain ⟨pb, ps, rfl, hb, hps⟩ := List.map_eq_cons_iff.1 hps
      obtain ⟨pc, ps, rfl, hc, hps⟩ := List.map_eq_cons_iff.1 hps
      obtain ⟨pd, ps, rfl, hd, hps⟩ := List.map_eq_cons_iff.1 hps
      rw [List.map_eq_nil_iff.1 hps] at hs
      rw [parseOctet_eq_some_iff] at ha hb hc hd
      have hjoin : ['.'].intercalate (s.splitOn '.') = s := List.intercalate_splitOn '.'
      rw [← hjoin, hs, ha, hb, hc, hd, showIpv4]
    next => cases h
  · rintro rfl
    have hsplit : (showIpv4 ip).splitOn '.' =
        [showOctet ip.a, showOctet ip.b, showOctet ip.c, showOctet ip.d] :=
      List.splitOn_intercalate '.' (by simp [dot_notMem_showOctet]) (by simp)
    have hoctet : ∀ o, parseOctet (showOctet o) = some o := fun o => parseOctet_eq_some_iff.2 rfl
    simp [parseIpv4, hsplit, hoctet]

theorem mem_showIpv4 {ip : Ipv4Addr} {c : Char} (h : c ∈ showIpv4 ip) :
    c.isDigit = true ∨ c = '.' := by
  have hoctet : ∀ o, c ∈ showOctet o → c.isDigit = true := fun o hc => isDigit_of_mem_toDigits hc
  simp only [showIpv4, List.intercalate, List.intersperse, List.flatten_cons, List.flatten_nil,
    List.mem_append, List.mem_singleton, List.not_mem_nil, or_false] at h
  have := hoctet ip.a
  have := hoctet ip.b
  have := hoctet ip.c
  have := hoctet ip.d
  tauto

end PartnerEdge.Net
