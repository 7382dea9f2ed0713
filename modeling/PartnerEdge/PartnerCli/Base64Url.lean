import PartnerEdge.Parsing.Regroup
import PartnerEdge.Text.Utf8

/-!
# The base64url codec

The encoder takes three bytes at a time. The decoder shifts six bits at a time into an accumulator
of 32 bits, which is never masked: the bits that leave it at the top were written out long before.
Only the lowest `bit_count` bits of the accumulator matter, and these are what is left of the text's
bits once the whole bytes are taken off.
-/

namespace PartnerEdge.PartnerCli

open Text

/-- `CHARS`. -/
def chars : List UInt8 :=
  "ABCDEFGHIJKLMNOPQRSTUVWXYZabcdefghijklmnopqrstuvwxyz0123456789-_".toList.map Char.toUInt8

/-- `CHARS[i] as char`, and NUL beyond the table. -/
def charAt (i : Nat) : Char := Char.ofUInt8 (chars.getD i 0)

def encodeChunk (chunk : List UInt8) : Str :=
  let b0 := (chunk.getD 0 0).toNat
  let b1 := if 1 < chunk.length then (chunk.getD 1 0).toNat else 0
  let b2 := if 2 < chunk.length then (chunk.getD 2 0).toNat else 0
  [charAt (b0 >>> 2), charAt ((b0 &&& 3) <<< 4 ||| b1 >>> 4)] ++
    (if 1 < chunk.length then [charAt ((b1 &&& 0xf) <<< 2 ||| b2 >>> 6)] else []) ++
    (if 2 < chunk.length then [charAt (b2 &&& 0x3f)] else [])

def base64UrlEncode : List UInt8 → Str
  | [] => []
  | b0 :: b1 :: b2 :: rest => encodeChunk [b0, b1, b2] ++ base64UrlEncode rest
  | chunk => encodeChunk chunk

/-- The state of the decoder's loop. -/
structure Decoder where
  bits : UInt32
  bitCount : Nat
  out : List UInt8
deriving DecidableEq, Repr

def Decoder.push (d : Decoder) (val : Nat) : Decoder :=
  let bits := d.bits <<< 6 ||| UInt32.ofNat val
  let bitCount := d.bitCount + 6
  if 8 ≤ bitCount then
    ⟨bits, bitCount - 8, d.out ++ [(bits >>> UInt32.ofNat (bitCount - 8)).toUInt8]⟩
  else ⟨bits, bitCount, d.out⟩

def invalidChar (c : UInt8) : Str :=
  "invalid base64url char: ".toList ++ Nat.toDigits 10 c.toNat

def decodeFrom (d : Decoder) : List UInt8 → Except Str (List UInt8)
  | [] => .ok d.out
  | c :: rest =>
    match chars.idxOf? c with
    | some val => decodeFrom (d.push val) rest
    | none => .error (invalidChar c)

def base64UrlDecode (s : Str) : Except Str (List UInt8) := decodeFrom ⟨0, 0, []⟩ (toUtf8 s)

def isUrlSafe (c : Char) : Bool := c.isAlphanum || c == '-' || c == '_'

def invalidPubkey (why : Str) : Str := "invalid pubkey format: ".toList ++ why

def validatePubkey (pubkey : Str) : Except Str { bytes : List UInt8 // bytes.length = 32 } :=
  if byteLen pubkey ≠ 43 then
    .error (invalidPubkey ("must be exactly 43 base64url chars (got ".toList ++
      Nat.toDigits 10 (byteLen pubkey) ++ [')']))
  else if !pubkey.all isUrlSafe then
    .error (invalidPubkey ("contains non-base64url characters ".toList ++
      "(allowed: A-Z a-z 0-9 - _)".toList))
  else
    match base64UrlDecode pubkey with
    | .error e => .error (invalidPubkey ("base64url decode failed: ".toList ++ e))
    | .ok bytes =>
      if h : bytes.length = 32 then .ok ⟨bytes, h⟩
      else .error (invalidPubkey "must decode to exactly 32 bytes".toList)

/-! ## The alphabet -/

theorem idxOf?_chars {i : Nat} (hi : i < 64) : chars.idxOf? (chars.getD i 0) = some i := by
  revert i
  decide +kernel

theorem isUrlSafe_charAt {i : Nat} (hi : i < 64) : isUrlSafe (charAt i) = true := by
  revert i
  decide +kernel

theorem toNat_charAt_lt {i : Nat} (hi : i < 64) : (charAt i).toNat < 128 := by
  revert i
  decide +kernel

theorem toUInt8_charAt {i : Nat} (hi : i < 64) : (charAt i).toUInt8 = chars.getD i 0 := by
  revert i
  decide +kernel

theorem toNat_lt_of_isUrlSafe {c : Char} (h : isUrlSafe c = true) : c.toNat < 128 := by
  simp only [isUrlSafe, Char.isAlphanum, Char.isAlpha, Char.isUpper, Char.isLower, Char.isDigit,
    Bool.or_eq_true, Bool.and_eq_true, decide_eq_true_eq, beq_iff_eq, ge_iff_le,
    UInt32.le_iff_toNat_le] at h
  have hval : c.val.toNat = c.toNat := rfl
  rcases h with (((h | h) | h) | rfl) | rfl
  · exact Nat.lt_of_le_of_lt (hval ▸ h.2) (by decide)
  · exact Nat.lt_of_le_of_lt (hval ▸ h.2) (by decide)
  · exact Nat.lt_of_le_of_lt (hval ▸ h.2) (by decide)
  · decide
  · decide

theorem exists_charAt {c : Char} (h : isUrlSafe c = true) : ∃ i < 64, charAt i = c := by
  have hall : ∀ n < 128, isUrlSafe (Char.ofNat n) = true → ∃ i < 64, charAt i = Char.ofNat n := by
    decide +kernel
  have hc := hall c.toNat (toNat_lt_of_isUrlSafe h)
  rw [Char.ofNat_toNat] at hc
  exact hc h

/-- A text of the alphabet is the text of digits. -/
theorem exists_digits {s : Str} (h : ∀ c ∈ s, isUrlSafe c = true) :
    ∃ ds : List Nat, (∀ d ∈ ds, d < 64) ∧ s = ds.map charAt := by
  induction s with
  | nil => exact ⟨[], by simp, rfl⟩
  | cons c s ih =>
    rw [List.forall_mem_cons] at h
    obtain ⟨d, hd, rfl⟩ := exists_charAt h.1
    obtain ⟨ds, hds, rfl⟩ := ih h.2
    exact ⟨d :: ds, List.forall_mem_cons.2 ⟨hd, hds⟩, rfl⟩

theorem toUtf8_digits {ds : List Nat} (h : ∀ d ∈ ds, d < 64) :
    toUtf8 (ds.map charAt) = ds.map (chars.getD · 0) := by
  have hascii : ∀ c ∈ ds.map charAt, c.toNat < 128 := by
    intro c hc
    obtain ⟨d, hd, rfl⟩ := List.mem_map.1 hc
    exact toNat_charAt_lt (h d hd)
  rw [toUtf8_of_ascii hascii, List.map_map]
  exact List.map_congr_left fun d hd => toUInt8_charAt (h d hd)

/-! ## The encoder -/

section Arithmetic

variable {b0 b1 b2 : Nat}

theorem first_digit (h0 : b0 < 256) : b0 >>> 2 = b0 / 4 ∧ b0 / 4 < 64 := by
  rw [Nat.shiftRight_eq_div_pow]
  omega

theorem second_digit (b0 : Nat) (h1 : b1 < 256) :
    (b0 &&& 3) <<< 4 ||| b1 >>> 4 = b0 % 4 * 16 + b1 / 16 ∧ b0 % 4 * 16 + b1 / 16 < 64 := by
  rw [Nat.and_two_pow_sub_one_eq_mod b0 2, Nat.shiftRight_eq_div_pow,
    ← Nat.shiftLeft_add_eq_or_of_lt (by omega), Nat.shiftLeft_eq]
  omega

theorem third_digit (b1 : Nat) (h2 : b2 < 256) :
    (b1 &&& 0xf) <<< 2 ||| b2 >>> 6 = b1 % 16 * 4 + b2 / 64 ∧ b1 % 16 * 4 + b2 / 64 < 64 := by
  rw [Nat.and_two_pow_sub_one_eq_mod b1 4, Nat.shiftRight_eq_div_pow,
    ← Nat.shiftLeft_add_eq_or_of_lt (by omega), Nat.shiftLeft_eq]
  omega

theorem fourth_digit (b2 : Nat) : b2 &&& 0x3f = b2 % 64 ∧ b2 % 64 < 64 := by
  rw [Nat.and_two_pow_sub_one_eq_mod b2 6]
  omega

end Arithmetic

/-- The text is that of digits with the bits of the bytes, and zeros up to the next digit. -/
structure Encodes (bytes : List UInt8) (text : Str) (ds : List Nat) : Prop where
  text : text = ds.map charAt
  digits : ∀ d ∈ ds, d < 64
  length : ds.length = (4 * bytes.length + 2) / 3
  bits : Bits.pack 6 ds = Bits.ofBytes bytes ++ Bits.ofNat (6 * ds.length - 8 * bytes.length) 0

/-- Digits that are the same number as the bytes with zeros behind them. -/
theorem pack_eq_ofBytes {ds : List Nat} (hds : ∀ d ∈ ds, d < 64) (bytes : List UInt8) (r : Nat)
    (hlength : 6 * ds.length = 8 * bytes.length + r)
    (hvalue : ds.foldl (fun n d => n * 2 ^ 6 + d) 0 =
      (bytes.map UInt8.toNat).foldl (fun n d => n * 2 ^ 8 + d) 0 * 2 ^ r) :
    Bits.pack 6 ds = Bits.ofBytes bytes ++ Bits.ofNat r 0 := by
  rw [Bits.pack_eq_ofNat hds, Bits.ofBytes_eq_pack, Bits.pack_eq_ofNat (Bits.map_toNat_lt bytes),
    Bits.ofNat_append _ _ (by positivity), List.length_map, hlength, hvalue, Nat.add_zero]

theorem encodes_one (b0 : UInt8) : ∃ ds, Encodes [b0] (encodeChunk [b0]) ds := by
  obtain ⟨hd0, hlt0⟩ := first_digit b0.toNat_lt
  obtain ⟨hd1, hlt1⟩ := second_digit b0.toNat (by decide : 0 < 256)
  have hds : ∀ d ∈ [b0.toNat / 4, b0.toNat % 4 * 16 + 0 / 16], d < 64 := by
    simp only [List.forall_mem_cons]
    exact ⟨hlt0, hlt1, by simp⟩
  refine ⟨_, ?_, hds, by simp, pack_eq_ofBytes hds [b0] 4 (by simp) ?_⟩
  · simp only [encodeChunk, List.length_singleton, List.getD_cons_zero, hd0, Nat.lt_irrefl,
      if_false, hd1]
    rfl
  · simp only [List.foldl_cons, List.foldl_nil, List.map_cons, List.map_nil]
    omega

theorem encodes_two (b0 b1 : UInt8) : ∃ ds, Encodes [b0, b1] (encodeChunk [b0, b1]) ds := by
  obtain ⟨hd0, hlt0⟩ := first_digit b0.toNat_lt
  obtain ⟨hd1, hlt1⟩ := second_digit b0.toNat b1.toNat_lt
  obtain ⟨hd2, hlt2⟩ := third_digit b1.toNat (by decide : 0 < 256)
  have hds : ∀ d ∈ [b0.toNat / 4, b0.toNat % 4 * 16 + b1.toNat / 16, b1.toNat % 16 * 4 + 0 / 64],
      d < 64 := by
    simp only [List.forall_mem_cons]
    exact ⟨hlt0, hlt1, hlt2, by simp⟩
  refine ⟨_, ?_, hds, by simp, pack_eq_ofBytes hds [b0, b1] 2 (by simp) ?_⟩
  · simp [encodeChunk, ← hd0, ← hd1, ← hd2]
  · simp only [List.foldl_cons, List.foldl_nil, List.map_cons, List.map_nil]
    omega

theorem encodes_three (b0 b1 b2 : UInt8) :
    ∃ ds, Encodes [b0, b1, b2] (encodeChunk [b0, b1, b2]) ds := by
  obtain ⟨hd0, hlt0⟩ := first_digit b0.toNat_lt
  obtain ⟨hd1, hlt1⟩ := second_digit b0.toNat b1.toNat_lt
  obtain ⟨hd2, hlt2⟩ := third_digit b1.toNat b2.toNat_lt
  obtain ⟨hd3, hlt3⟩ := fourth_digit b2.toNat
  have hds : ∀ d ∈ [b0.toNat / 4, b0.toNat % 4 * 16 + b1.toNat / 16,
      b1.toNat % 16 * 4 + b2.toNat / 64, b2.toNat % 64], d < 64 := by
    simp only [List.forall_mem_cons]
    exact ⟨hlt0, hlt1, hlt2, hlt3, by simp⟩
  refine ⟨_, ?_, hds, by simp, pack_eq_ofBytes hds [b0, b1, b2] 0 (by simp) ?_⟩
  · simp [encodeChunk, ← hd0, ← hd1, ← hd2, ← hd3]
  · simp only [List.foldl_cons, List.foldl_nil, List.map_cons, List.map_nil]
    omega

/-- A chunk of three bytes leaves no bits over, so that the next one starts afresh. -/
theorem Encodes.append {b0 b1 b2 : UInt8} {rest : List UInt8} {t u : Str} {ds es : List Nat}
    (h : Encodes [b0, b1, b2] t ds) (hrest : Encodes rest u es) :
    Encodes (b0 :: b1 :: b2 :: rest) (t ++ u) (ds ++ es) where
  text := by rw [h.text, hrest.text, List.map_append]
  digits d hd := (List.mem_append.1 hd).elim (h.digits d) (hrest.digits d)
  length := by
    have hds := h.length
    have hes := hrest.length
    simp only [List.length_cons, List.length_nil, List.length_append] at hds hes ⊢
    omega
  bits := by
    have hds : ds.length = 4 := by simpa using h.length
    have hbits := h.bits
    rw [hds, show 6 * 4 - 8 * [b0, b1, b2].length = 0 by simp, Bits.ofNat, List.append_nil] at hbits
    have hzeros : 6 * (ds ++ es).length - 8 * (b0 :: b1 :: b2 :: rest).length =
        6 * es.length - 8 * rest.length := by
      simp only [List.length_cons, List.length_append, hds]
      omega
    rw [hzeros, Bits.pack_append, hbits, hrest.bits, ← List.append_assoc, ← Bits.ofBytes_append]
    rfl

theorem exists_encodes (bytes : List UInt8) : ∃ ds, Encodes bytes (base64UrlEncode bytes) ds := by
  fun_induction base64UrlEncode bytes with
  | case1 => exact ⟨[], rfl, by simp, rfl, rfl⟩
  | case2 b0 b1 b2 rest ih =>
    obtain ⟨ds, hds⟩ := encodes_three b0 b1 b2
    obtain ⟨es, hes⟩ := ih
    exact ⟨ds ++ es, hds.append hes⟩
  | case3 chunk hnil hlong =>
    rcases chunk with - | ⟨b0, - | ⟨b1, - | ⟨b2, rest⟩⟩⟩
    · exact absurd rfl hnil
    · exact encodes_one b0
    · exact encodes_two b0 b1
    · exact absurd rfl (hlong b0 b1 b2 rest)

/-! ## The decoder -/

/-- The bits that were pushed are those written out, and the lowest ones of the accumulator. -/
structure Decoder.Holds (d : Decoder) (bs : List Bool) : Prop where
  few : d.bitCount < 8
  bits : bs = Bits.ofBytes d.out ++ Bits.ofNat d.bitCount d.bits.toNat

/-- What leaves the accumulator at the top is a multiple of the modulus. -/
theorem toNat_shift (bits : UInt32) {val : Nat} (hval : val < 64) :
    (bits <<< 6 ||| UInt32.ofNat val).toNat ≡ bits.toNat * 2 ^ 6 + val [MOD 2 ^ 32] := by
  have hdigit : (UInt32.ofNat val).toNat = val := UInt32.toNat_ofNat_of_lt' (hval.trans (by decide))
  have hshift : (bits <<< 6).toNat = (bits.toNat % 2 ^ 26) <<< 6 := by
    rw [UInt32.toNat_shiftLeft, Nat.shiftLeft_eq, Nat.shiftLeft_eq]
    exact Nat.mul_mod_mul_right (2 ^ 6) bits.toNat (2 ^ 26)
  rw [UInt32.toNat_or, hdigit, hshift, ← Nat.shiftLeft_add_eq_or_of_lt (by omega), Nat.shiftLeft_eq]
  exact Nat.ModEq.add_right val (Nat.ModEq.mul_right' (2 ^ 6) (Nat.mod_modEq _ _))

theorem Decoder.Holds.push {d : Decoder} {bs : List Bool} (h : d.Holds bs) {val : Nat}
    (hval : val < 64) : (d.push val).Holds (bs ++ Bits.ofNat 6 val) := by
  have hfew := h.few
  simp only [Decoder.push]
  generalize hbits : d.bits <<< 6 ||| UInt32.ofNat val = bits
  -- The accumulator still holds all the bits that are not written out.
  have hnow : bs ++ Bits.ofNat 6 val =
      Bits.ofBytes d.out ++ Bits.ofNat (d.bitCount + 6) bits.toNat := by
    have hmod := (toNat_shift d.bits hval).of_dvd (pow_dvd_pow 2 (by omega : d.bitCount + 6 ≤ 32))
    rw [hbits] at hmod
    rw [h.bits, List.append_assoc, Bits.ofNat_append _ _ hval, Bits.ofNat_congr hmod]
  split
  · next henough =>
    refine ⟨by dsimp only; omega, ?_⟩
    obtain ⟨k, hk⟩ : ∃ k, d.bitCount + 6 = 8 + k := ⟨d.bitCount + 6 - 8, by omega⟩
    have hbyte : ((bits >>> UInt32.ofNat k).toUInt8).toNat = bits.toNat / 2 ^ k % 2 ^ 8 := by
      rw [UInt32.toNat_toUInt8, UInt32.toNat_shiftRight, Nat.shiftRight_eq_div_pow,
        UInt32.toNat_ofNat_of_lt' ((by omega : k < 32).trans (by decide)),
        Nat.mod_eq_of_lt (by omega : k < 32)]
    have hsame : Bits.ofNat 8 (bits.toNat / 2 ^ k) =
        Bits.ofBytes [(bits >>> UInt32.ofNat k).toUInt8] := by
      rw [Bits.ofBytes, List.flatMap_singleton, hbyte]
      exact Bits.ofNat_congr (Nat.mod_mod _ _).symm
    rw [hnow, hk, Nat.add_sub_cancel_left, Bits.ofNat_add, hsame, Bits.ofBytes_append,
      List.append_assoc]
  · exact ⟨by dsimp only; omega, hnow⟩

theorem Decoder.Holds.pushAll {d : Decoder} {bs : List Bool} (h : d.Holds bs) {ds : List Nat}
    (hds : ∀ v ∈ ds, v < 64) : (ds.foldl Decoder.push d).Holds (bs ++ Bits.pack 6 ds) := by
  induction ds generalizing d bs with
  | nil => simpa using h
  | cons v ds ih =>
    rw [List.forall_mem_cons] at hds
    rw [Bits.pack_cons, ← List.append_assoc]
    exact ih (h.push hds.1) hds.2

theorem decodeFrom_digits {ds : List Nat} (hds : ∀ v ∈ ds, v < 64) (d : Decoder) :
    decodeFrom d (ds.map (chars.getD · 0)) = .ok (ds.foldl Decoder.push d).out := by
  induction ds generalizing d with
  | nil => rfl
  | cons v ds ih =>
    rw [List.forall_mem_cons] at hds
    rw [List.map_cons, decodeFrom, idxOf?_chars hds.1]
    exact ih hds.2 _

/-- The decoder takes the whole bytes off the bits of its digits. -/
theorem base64UrlDecode_digits {ds : List Nat} (hds : ∀ v ∈ ds, v < 64) :
    ∃ out rest, base64UrlDecode (ds.map charAt) = .ok out ∧
      Bits.pack 6 ds = Bits.ofBytes out ++ rest ∧ rest.length < 8 := by
  have hstart : (⟨0, 0, []⟩ : Decoder).Holds [] := ⟨by decide, rfl⟩
  have hend := hstart.pushAll hds
  refine ⟨_, _, ?_, hend.bits, ?_⟩
  · rw [base64UrlDecode, toUtf8_digits hds, decodeFrom_digits hds]
  · rw [Bits.length_ofNat]
    exact hend.few

/-! ## Keys -/

/-- The place of a character in the alphabet. -/
def sextet (c : Char) : Nat := chars.idxOf c.toUInt8

theorem sextet_charAt {i : Nat} (hi : i < 64) : sextet (charAt i) = i := by
  revert i
  decide +kernel

/-- The texts are the same up to the two lowest bits of the last digit. -/
def SameButLowBits (s t : Str) : Prop :=
  ∃ front c d, s = front ++ [c] ∧ t = front ++ [d] ∧ sextet c / 4 = sextet d / 4

/-- Digits with the same bits up to the last two. -/
theorem sameButLowBits_of_bits {ds es : List Nat} {bs r s : List Bool} (hds : ∀ d ∈ ds, d < 64)
    (hes : ∀ e ∈ es, e < 64) (hne : ds ≠ []) (hne' : es ≠ []) (h : Bits.pack 6 ds = bs ++ r)
    (h' : Bits.pack 6 es = bs ++ s) (hr : r.length = 2) (hs : s.length = 2) :
    SameButLowBits (ds.map charAt) (es.map charAt) := by
  -- The bits up to the last two are those of the other digits and four of the last one.
  have hcut {xs : List Nat} {x : Nat} {u : List Bool} (hu : u.length = 2)
      (hxs : Bits.pack 6 (xs ++ [x]) = bs ++ u) : bs = Bits.pack 6 xs ++ Bits.ofNat 4 (x / 4) := by
    have hlast : Bits.ofNat 6 x = Bits.ofNat 4 (x / 4) ++ Bits.ofNat 2 x := Bits.ofNat_add 4 2 x
    rw [Bits.pack_append, Bits.pack_cons, Bits.pack_nil, List.append_nil, hlast,
      ← List.append_assoc] at hxs
    exact (List.append_inj' hxs (by simp [hu])).1.symm
  obtain ⟨xs, x, rfl⟩ := (List.eq_nil_or_concat ds).resolve_left hne
  obtain ⟨ys, y, rfl⟩ := (List.eq_nil_or_concat es).resolve_left hne'
  rw [List.concat_eq_append] at *
  rw [List.forall_mem_append, List.forall_mem_singleton] at hds hes
  obtain ⟨rfl, hhigh⟩ := Bits.pack_append_inj hds.1 hes.1 (by simp) (by simp)
    ((hcut hr h).symm.trans (hcut hs h'))
  refine ⟨xs.map charAt, charAt x, charAt y, by simp, by simp, ?_⟩
  rw [sextet_charAt hds.2, sextet_charAt hes.2]
  exact Bits.ofNat_inj (by omega) (by omega) hhigh

theorem validatePubkey_digits {ds : List Nat} (hds : ∀ d ∈ ds, d < 64) (hlength : ds.length = 43) :
    ∃ key rest, validatePubkey (ds.map charAt) = .ok key ∧
      Bits.pack 6 ds = Bits.ofBytes key.1 ++ rest ∧ rest.length = 2 := by
  obtain ⟨out, rest, hdecode, hbits, hrest⟩ := base64UrlDecode_digits hds
  have htotal := congrArg List.length hbits
  rw [Bits.length_pack, List.length_append, Bits.length_ofBytes, hlength] at htotal
  have hout : out.length = 32 := by omega
  have hascii : ∀ c ∈ ds.map charAt, isUrlSafe c = true ∧ c.toNat < 128 := by
    intro c hc
    obtain ⟨d, hd, rfl⟩ := List.mem_map.1 hc
    exact ⟨isUrlSafe_charAt (hds d hd), toNat_charAt_lt (hds d hd)⟩
  have hlen : byteLen (ds.map charAt) = 43 := by
    rw [byteLen_of_ascii fun c hc => (hascii c hc).2, List.length_map, hlength]
  have hall : (ds.map charAt).all isUrlSafe = true :=
    List.all_eq_true.2 fun c hc => (hascii c hc).1
  refine ⟨⟨out, hout⟩, rest, ?_, hbits, by omega⟩
  simp only [validatePubkey, hlen, ne_eq, not_true_eq_false, if_false, hall, Bool.not_true,
    Bool.false_eq_true, hdecode, hout, dif_pos]

/-- A key that passes has 43 characters of the alphabet. -/
theorem of_validatePubkey {s : Str} {key : { bytes : List UInt8 // bytes.length = 32 }}
    (h : validatePubkey s = .ok key) : s.length = 43 ∧ ∀ c ∈ s, isUrlSafe c = true := by
  unfold validatePubkey at h
  split at h
  · cases h
  · next hlen =>
    split at h
    · cases h
    · next hall =>
      have hsafe : ∀ c ∈ s, isUrlSafe c = true := by simpa using hall
      refine ⟨?_, hsafe⟩
      rw [← byteLen_of_ascii fun c hc => toNat_lt_of_isUrlSafe (hsafe c hc)]
      exact not_not.1 hlen

/-- A byte string is written in as many characters as six bits each need for it, and read back. -/
theorem base64UrlDecode_encode (bytes : List UInt8) :
    (∀ c ∈ base64UrlEncode bytes, isUrlSafe c = true) ∧
      (base64UrlEncode bytes).length = (4 * bytes.length + 2) / 3 ∧
      base64UrlDecode (base64UrlEncode bytes) = .ok bytes := by
  obtain ⟨ds, hds⟩ := exists_encodes bytes
  obtain ⟨out, rest, hdecode, hbits, hrest⟩ := base64UrlDecode_digits hds.digits
  have hzeros : 6 * ds.length - 8 * bytes.length < 8 := by
    have := hds.length
    omega
  obtain ⟨rfl, -⟩ := Bits.ofBytes_append_inj (by rwa [Bits.length_ofNat]) hrest
    (hds.bits.symm.trans hbits)
  refine ⟨fun c hc => ?_, ?_, hds.text ▸ hdecode⟩
  · rw [hds.text] at hc
    obtain ⟨d, hd, rfl⟩ := List.mem_map.1 hc
    exact isUrlSafe_charAt (hds.digits d hd)
  · rw [hds.text, List.length_map, hds.length]

/-- The key of a text is written as that text, up to two bits that no byte has. -/
theorem sameButLowBits_encode {s : Str} {key : { bytes : List UInt8 // bytes.length = 32 }}
    (h : validatePubkey s = .ok key) : SameButLowBits (base64UrlEncode key.1) s := by
  obtain ⟨hlength, hsafe⟩ := of_validatePubkey h
  obtain ⟨ds, hds, rfl⟩ := exists_digits hsafe
  rw [List.length_map] at hlength
  obtain ⟨key', rest, hkey, hbits, hrest⟩ := validatePubkey_digits hds hlength
  obtain rfl := Except.ok.inj (hkey.symm.trans h)
  obtain ⟨es, hes⟩ := exists_encodes key'.1
  have hlength' : es.length = 43 := by rw [hes.length, key'.2]
  have hzeros : (Bits.ofNat (6 * es.length - 8 * key'.1.length) 0).length = 2 := by
    rw [Bits.length_ofNat, hlength', key'.2]
  rw [hes.text]
  exact sameButLowBits_of_bits hes.digits hds (List.ne_nil_of_length_eq_add_one hlength')
    (List.ne_nil_of_length_eq_add_one hlength) hes.bits hbits hzeros hrest

/-- For every byte string, its text is of the alphabet, as long as six bits a character need it to
be, and decodes to the bytes. A text passes as a key exactly if it has 43 characters of the
alphabet, and the key is written as the same text, up to two bits that no byte has. -/
theorem base64Url_correct :
    (∀ bytes, (∀ c ∈ base64UrlEncode bytes, isUrlSafe c = true) ∧
      (base64UrlEncode bytes).length = (4 * bytes.length + 2) / 3 ∧
      base64UrlDecode (base64UrlEncode bytes) = .ok bytes) ∧
    ∀ s, ((∃ key, validatePubkey s = .ok key) ↔ s.length = 43 ∧ ∀ c ∈ s, isUrlSafe c = true) ∧
      ∀ key, validatePubkey s = .ok key → SameButLowBits (base64UrlEncode key.1) s := by
  refine ⟨base64UrlDecode_encode, fun s => ⟨⟨?_, ?_⟩, fun key => sameButLowBits_encode⟩⟩
  · rintro ⟨key, hkey⟩
    exact of_validatePubkey hkey
  · rintro ⟨hlength, hsafe⟩
    obtain ⟨ds, hds, rfl⟩ := exists_digits hsafe
    obtain ⟨key, -, hkey, -⟩ := validatePubkey_digits hds (by simpa using hlength)
    exact ⟨key, hkey⟩

/-- A vector of RFC 4648 that the tests of the source have. -/
example : base64UrlEncode [0x66, 0x6f, 0x6f, 0x62, 0x61] = "Zm9vYmE".toList ∧
    base64UrlDecode "Zm9vYmE".toList = .ok [0x66, 0x6f, 0x6f, 0x62, 0x61] := by decide +kernel

end PartnerEdge.PartnerCli
