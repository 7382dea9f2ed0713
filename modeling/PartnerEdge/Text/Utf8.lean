import PartnerEdge.Text.Slices

/-!
# UTF-8

The bytes of a text, and the text of a byte string that is one.
-/

namespace PartnerEdge.Text

def fromUtf8 (bytes : List UInt8) : Option Str :=
  (ByteArray.mk bytes.toArray).utf8Decode?.map Array.toList

def toUtf8 (s : Str) : List UInt8 := s.flatMap String.utf8EncodeChar

theorem fromUtf8_toUtf8 (s : Str) : fromUtf8 (toUtf8 s) = some s := by
  have hbytes : ByteArray.mk (toUtf8 s).toArray = s.utf8Encode := by
    apply ByteArray.ext
    rw [List.utf8Encode, List.data_toByteArray]
    rfl
  rw [fromUtf8, hbytes, List.utf8Decode?_utf8Encode]
  simp

theorem fromUtf8_eq_some_iff {data : List UInt8} {s : Str} :
    fromUtf8 data = some s ↔ data = toUtf8 s := by
  refine ⟨fun h => ?_, fun h => h ▸ fromUtf8_toUtf8 s⟩
  obtain ⟨chars, hchars, rfl⟩ := Option.map_eq_some_iff.1 h
  obtain ⟨hsome, hget⟩ := Option.eq_some_iff_get_eq.1 hchars
  have hencode := ByteArray.utf8Encode_get_utf8Decode? (h := hsome)
  rw [hget] at hencode
  have hdata := congrArg (fun b => b.data.toList) hencode
  simpa [List.utf8Encode, toUtf8] using hdata.symm

theorem utf8EncodeChar_of_ascii {c : Char} (h : c.toNat < 128) :
    String.utf8EncodeChar c = [c.toUInt8] := by
  have hle : c.val.toNat ≤ 127 := Nat.le_of_lt_succ h
  rw [String.utf8EncodeChar, if_pos hle]
  rfl

/-- Only an ASCII character has an ASCII byte. -/
theorem ascii_of_mem_utf8EncodeChar {c : Char} {b : UInt8} (h : b ∈ String.utf8EncodeChar c)
    (hb : b.toNat < 128) : c.toNat < 128 := by
  by_contra hc
  have hhigh : ¬c.val.toNat ≤ 127 := fun hle => hc (Nat.lt_succ_of_le hle)
  have hbyte (n : Nat) (hn : 128 ≤ n ∧ n < 256) : b ≠ UInt8.ofNat n := by
    rintro rfl
    rw [UInt8.toNat_ofNat', Nat.mod_eq_of_lt hn.2] at hb
    omega
  rw [String.utf8EncodeChar, if_neg hhigh] at h
  split_ifs at h
  all_goals simp only [List.mem_cons, List.not_mem_nil, or_false] at h
  · rcases h with h | h <;> refine hbyte _ ?_ h <;> omega
  · rcases h with h | h | h <;> refine hbyte _ ?_ h <;> omega
  · rcases h with h | h | h | h <;> refine hbyte _ ?_ h <;> omega

/-- An ASCII byte in a text is a character of it. -/
theorem mem_of_mem_toUtf8 {s : Str} {c : Char} (hc : c.toNat < 128) (h : c.toUInt8 ∈ toUtf8 s) :
    c ∈ s := by
  have hbyte (c : Char) (hc : c.toNat < 128) : c.toUInt8.toNat = c.toNat := by
    change c.toNat % 256 = c.toNat
    omega
  obtain ⟨d, hd, hmem⟩ := List.mem_flatMap.1 h
  have hascii := ascii_of_mem_utf8EncodeChar hmem (hbyte c hc ▸ hc)
  rw [utf8EncodeChar_of_ascii hascii, List.mem_singleton] at hmem
  have hsame : c.toNat = d.toNat := by rw [← hbyte c hc, ← hbyte d hascii, hmem]
  rwa [Char.toNat_inj.1 hsame]

theorem toUtf8_append (s t : Str) : toUtf8 (s ++ t) = toUtf8 s ++ toUtf8 t := List.flatMap_append

/-- In ASCII a character is a byte. -/
theorem toUtf8_of_ascii {s : Str} (h : ∀ c ∈ s, c.toNat < 128) : toUtf8 s = s.map Char.toUInt8 := by
  induction s with
  | nil => rfl
  | cons c s ih =>
    rw [List.forall_mem_cons] at h
    rw [toUtf8, List.flatMap_cons, utf8EncodeChar_of_ascii h.1, ← toUtf8, ih h.2]
    rfl

theorem byteLen_of_ascii {s : Str} (h : ∀ c ∈ s, c.toNat < 128) : byteLen s = s.length := by
  induction s with
  | nil => rfl
  | cons c s ih =>
    rw [List.forall_mem_cons] at h
    have hsize : c.utf8Size = 1 :=
      Char.utf8Size_eq_one_iff.2 (UInt32.le_iff_toNat_le.2 (Nat.le_of_lt_succ h.1))
    rw [byteLen, hsize, ih h.2, List.length_cons, Nat.add_comm]

end PartnerEdge.Text
