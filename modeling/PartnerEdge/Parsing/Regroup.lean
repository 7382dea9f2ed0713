import PartnerEdge.Parsing.Bits

/-!
# Regrouping bits

A list of digits of `w` bits each is a bit string. Two such lists with the same bits, up to a
remainder that is shorter than a digit, have the same digits; so a code that cuts the bits of a text
into digits of another width can be read back.
-/

namespace PartnerEdge.Bits

theorem ofNat_add (a b n : Nat) : ofNat (a + b) n = ofNat a (n / 2 ^ b) ++ ofNat b n := by
  induction a with
  | zero => simp [ofNat]
  | succ a ih =>
    rw [Nat.add_right_comm, ofNat, ofNat, ih, List.cons_append, Nat.testBit_div_two_pow]

theorem ofNat_congr {w m n : Nat} (h : m % 2 ^ w = n % 2 ^ w) : ofNat w m = ofNat w n := by
  refine List.ext_getElem? fun i => ?_
  rw [getElem?_ofNat, getElem?_ofNat]
  split
  · next hi =>
    have hbit (k : Nat) : k.testBit (w - 1 - i) = (k % 2 ^ w).testBit (w - 1 - i) := by
      rw [Nat.testBit_mod_two_pow, decide_eq_true (by omega), Bool.true_and]
    rw [hbit m, hbit n, h]
  · rfl

/-- The bits of a number, followed by those of a digit. -/
theorem ofNat_append {b m : Nat} (a n : Nat) (hm : m < 2 ^ b) :
    ofNat a n ++ ofNat b m = ofNat (a + b) (n * 2 ^ b + m) := by
  have hhigh : (n * 2 ^ b + m) / 2 ^ b = n := by
    rw [Nat.mul_comm, Nat.mul_add_div (by positivity), Nat.div_eq_of_lt hm, Nat.add_zero]
  have hlow : (n * 2 ^ b + m) % 2 ^ b = m % 2 ^ b := Nat.mul_add_mod_self_right _ _ _
  rw [ofNat_add, hhigh, ofNat_congr hlow]

theorem ofNat_inj {w m n : Nat} (hm : m < 2 ^ w) (hn : n < 2 ^ w) (h : ofNat w m = ofNat w n) :
    m = n := by
  have hvalue := congrArg toNat h
  rwa [toNat_ofNat, toNat_ofNat, Nat.mod_eq_of_lt hm, Nat.mod_eq_of_lt hn] at hvalue

/-- The bits of digits of a width. -/
def pack (w : Nat) (ds : List Nat) : List Bool := ds.flatMap (ofNat w)

@[simp] theorem pack_nil (w : Nat) : pack w [] = [] := rfl

@[simp] theorem pack_cons (w d : Nat) (ds : List Nat) : pack w (d :: ds) = ofNat w d ++ pack w ds :=
  rfl

@[simp] theorem pack_append (w : Nat) (ds es : List Nat) :
    pack w (ds ++ es) = pack w ds ++ pack w es :=
  List.flatMap_append

@[simp] theorem length_pack (w : Nat) (ds : List Nat) : (pack w ds).length = w * ds.length := by
  induction ds with
  | nil => rfl
  | cons d ds ih => simp [ih]; ring

theorem ofNat_append_pack {w : Nat} {ds : List Nat} (h : ∀ d ∈ ds, d < 2 ^ w) (a n : Nat) :
    ofNat a n ++ pack w ds = ofNat (a + w * ds.length) (ds.foldl (fun n d => n * 2 ^ w + d) n) := by
  induction ds generalizing a n with
  | nil => simp
  | cons d ds ih =>
    rw [List.forall_mem_cons] at h
    rw [pack_cons, ← List.append_assoc, ofNat_append a n h.1, ih h.2, List.foldl_cons,
      List.length_cons, Nat.mul_succ, Nat.add_assoc, Nat.add_comm w]

/-- Digits are one number. -/
theorem pack_eq_ofNat {w : Nat} {ds : List Nat} (h : ∀ d ∈ ds, d < 2 ^ w) :
    pack w ds = ofNat (w * ds.length) (ds.foldl (fun n d => n * 2 ^ w + d) 0) := by
  have hpack := ofNat_append_pack h 0 0
  rwa [Nat.zero_add] at hpack

theorem ofBytes_eq_pack (bytes : List UInt8) : ofBytes bytes = pack 8 (bytes.map UInt8.toNat) := by
  rw [ofBytes, pack, List.flatMap_map]

theorem ofBytes_append (a b : List UInt8) : ofBytes (a ++ b) = ofBytes a ++ ofBytes b :=
  List.flatMap_append

/-- The digits can be read off the bits, whatever short remainder follows them. -/
theorem pack_append_inj {w : Nat} {ds es : List Nat} {r s : List Bool}
    (hds : ∀ d ∈ ds, d < 2 ^ w) (hes : ∀ e ∈ es, e < 2 ^ w) (hr : r.length < w) (hs : s.length < w)
    (h : pack w ds ++ r = pack w es ++ s) : ds = es ∧ r = s := by
  induction ds generalizing es with
  | nil =>
    cases es with
    | nil => exact ⟨rfl, h⟩
    | cons e es =>
      have hlength := congrArg List.length h
      simp at hlength
      omega
  | cons d ds ih =>
    cases es with
    | nil =>
      have hlength := congrArg List.length h
      simp at hlength
      omega
    | cons e es =>
      rw [List.forall_mem_cons] at hds hes
      rw [pack_cons, pack_cons, List.append_assoc, List.append_assoc] at h
      obtain ⟨hfirst, hrest⟩ := List.append_inj h (by simp)
      obtain ⟨rfl, rfl⟩ := ih hds.2 hes.2 hrest
      exact ⟨by rw [ofNat_inj hds.1 hes.1 hfirst], rfl⟩

theorem map_toNat_lt (bytes : List UInt8) : ∀ d ∈ bytes.map UInt8.toNat, d < 2 ^ 8 := by
  intro d hd
  obtain ⟨byte, -, rfl⟩ := List.mem_map.1 hd
  exact byte.toNat_lt

theorem ofBytes_append_inj {a b : List UInt8} {r s : List Bool} (hr : r.length < 8)
    (hs : s.length < 8) (h : ofBytes a ++ r = ofBytes b ++ s) : a = b ∧ r = s := by
  rw [ofBytes_eq_pack, ofBytes_eq_pack] at h
  obtain ⟨hdigits, hrest⟩ := pack_append_inj (map_toNat_lt a) (map_toNat_lt b) hr hs h
  exact ⟨(List.map_injective_iff.2 fun x y => UInt8.toNat_inj.1) hdigits, hrest⟩

end PartnerEdge.Bits
