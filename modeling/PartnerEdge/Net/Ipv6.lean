import PartnerEdge.Net.Ipv4

/-!
# IPv6 addresses

An address is a number of 128 bits. Its text is eight groups of one to four hexadecimal digits
between colons. Two colons stand for one or more groups of zeros, and the last two groups can be
written as an IPv4 address.
-/

namespace PartnerEdge.Net

open Text

abbrev Ipv6Addr := BitVec 128

def hexDigits : List (Char × Nat) :=
  [('0', 0), ('1', 1), ('2', 2), ('3', 3), ('4', 4), ('5', 5), ('6', 6), ('7', 7), ('8', 8),
    ('9', 9), ('a', 10), ('b', 11), ('c', 12), ('d', 13), ('e', 14), ('f', 15), ('A', 10),
    ('B', 11), ('C', 12), ('D', 13), ('E', 14), ('F', 15)]

def isHex (c : Char) : Bool := (hexDigits.lookup c).isSome

def hexValue (c : Char) : Nat := (hexDigits.lookup c).getD 0

def parseHexGroup (s : Str) : Option Nat :=
  if s ≠ [] ∧ s.length ≤ 4 ∧ s.all isHex then some (s.foldl (fun n c => 16 * n + hexValue c) 0)
  else none

def quadGroups (ip : Ipv4Addr) : List Nat :=
  [ip.a.toNat * 256 + ip.b.toNat, ip.c.toNat * 256 + ip.d.toNat]

/-- The groups between colons. Where an IPv4 address may stand, it stands at the end. -/
def parseGroups (quadAtEnd : Bool) : List Str → Option (List Nat)
  | [] => some []
  | part :: rest =>
    if quadAtEnd && rest.isEmpty && part.contains '.' then (parseIpv4 part).map quadGroups
    else do
      let g ← parseHexGroup part
      let gs ← parseGroups quadAtEnd rest
      return g :: gs

/-- The text before and after the first two colons. -/
def splitDoubleColon : Str → Option (Str × Str)
  | ':' :: ':' :: s => some ([], s)
  | c :: s => (splitDoubleColon s).map fun (before, after) => (c :: before, after)
  | [] => none

def groupTexts (s : Str) : List Str := if s = [] then [] else s.splitOn ':'

def ofGroups (gs : List Nat) : Ipv6Addr := BitVec.ofNat 128 (gs.foldl (fun n g => 65536 * n + g) 0)

/-- The standard textual form. -/
def parseIpv6 (s : Str) : Option Ipv6Addr :=
  match splitDoubleColon s with
  | none => do
    let gs ← parseGroups true (groupTexts s)
    if gs.length = 8 then some (ofGroups gs) else none
  | some (before, after) => do
    let gs ← parseGroups false (groupTexts before)
    let hs ← parseGroups true (groupTexts after)
    if gs.length + hs.length ≤ 7 then
      some (ofGroups (gs ++ List.replicate (8 - (gs.length + hs.length)) 0 ++ hs))
    else none

/-- The address is in the net with this many leading bits. -/
def inNet6 (net : Ipv6Addr) (bits : Nat) (ip : Ipv6Addr) : Bool :=
  ip >>> (128 - bits) == net >>> (128 - bits)

/-! ## Hexadecimal digits -/

theorem mem_hexDigits {c : Char} (h : isHex c = true) : (c, hexValue c) ∈ hexDigits := by
  obtain ⟨v, hv⟩ := Option.isSome_iff_exists.1 h
  obtain ⟨before, after, hsplit, -⟩ := List.lookup_eq_some_iff.1 hv
  rw [hexValue, hv, Option.getD_some, hsplit]
  simp

theorem isHex_of_isDigit {c : Char} (h : c.isDigit = true) : isHex c = true := by
  obtain ⟨hlt, hchar⟩ := digitChar_of_isDigit h
  rw [← hchar]
  generalize c.toNat - '0'.toNat = d at hlt
  interval_cases d <;> decide

theorem hexValue_lt (c : Char) : hexValue c < 16 := by
  by_cases h : isHex c = true
  · have htable : ∀ e ∈ hexDigits, e.2 < 16 := by decide
    exact htable _ (mem_hexDigits h)
  · rw [isHex, Option.not_isSome_iff_eq_none] at h
    rw [hexValue, h]
    decide

theorem foldl_hexValue_lt (s : Str) :
    s.foldl (fun n c => 16 * n + hexValue c) 0 < 16 ^ s.length := by
  induction s using List.reverseRecOn with
  | nil => decide
  | append_singleton s c ih =>
    have hc := hexValue_lt c
    rw [List.foldl_append, List.length_append, List.length_singleton, Nat.pow_succ]
    simp only [List.foldl_cons, List.foldl_nil]
    omega

section Groups

variable {s : Str} {g : Nat} {gs : List Nat} {quadAtEnd : Bool} {parts : List Str}

theorem parseHexGroup_eq_some_iff : parseHexGroup s = some g ↔
    s ≠ [] ∧ s.length ≤ 4 ∧ (∀ c ∈ s, isHex c = true) ∧
      s.foldl (fun n c => 16 * n + hexValue c) 0 = g := by
  simp [parseHexGroup, and_assoc]

theorem parseHexGroup_lt (h : parseHexGroup s = some g) : g < 65536 := by
  obtain ⟨-, hlength, -, rfl⟩ := parseHexGroup_eq_some_iff.1 h
  calc s.foldl (fun n c => 16 * n + hexValue c) 0 < 16 ^ s.length := foldl_hexValue_lt s
    _ ≤ 16 ^ 4 := Nat.pow_le_pow_right (by decide) hlength

/-- A group of which no digit is missing is written with all four. -/
theorem parseHexGroup_of_le (h : parseHexGroup s = some g) (hg : 4096 ≤ g) :
    ∃ c₀ c₁ c₂ c₃, s = [c₀, c₁, c₂, c₃] ∧ (∀ c ∈ s, isHex c = true) ∧
      g = ((hexValue c₀ * 16 + hexValue c₁) * 16 + hexValue c₂) * 16 + hexValue c₃ := by
  obtain ⟨-, hlength, hhex, rfl⟩ := parseHexGroup_eq_some_iff.1 h
  have hfour : s.length = 4 := by
    by_contra hne
    have hle : 16 ^ s.length ≤ 16 ^ 3 := Nat.pow_le_pow_right (by decide) (by omega)
    have hlt := foldl_hexValue_lt s
    omega
  obtain ⟨c₀, c₁, c₂, c₃, rfl⟩ := List.length_eq_four.1 hfour
  refine ⟨c₀, c₁, c₂, c₃, rfl, hhex, ?_⟩
  simp only [List.foldl_cons, List.foldl_nil]
  omega

theorem quadGroups_lt (ip : Ipv4Addr) : ∀ g ∈ quadGroups ip, g < 65536 := by
  have ha := ip.a.isLt
  have hb := ip.b.isLt
  have hc := ip.c.isLt
  have hd := ip.d.isLt
  simp only [quadGroups, List.forall_mem_cons]
  refine ⟨by omega, by omega, by simp⟩

theorem parseGroups_lt (h : parseGroups quadAtEnd parts = some gs) : ∀ g ∈ gs, g < 65536 := by
  induction parts generalizing gs with
  | nil =>
    cases h
    simp
  | cons part rest ih =>
    rw [parseGroups] at h
    split at h
    next =>
      obtain ⟨ip, -, rfl⟩ := Option.map_eq_some_iff.1 h
      exact quadGroups_lt ip
    next =>
      obtain ⟨g, hg, h⟩ := Option.bind_eq_some_iff.1 h
      obtain ⟨gs, hgs, h⟩ := Option.bind_eq_some_iff.1 h
      cases h
      exact List.forall_mem_cons.2 ⟨parseHexGroup_lt hg, ih hgs⟩

/-- The first group is hexadecimal, unless the text is an IPv4 address alone. -/
theorem parseGroups_cons {part : Str} (h : parseGroups quadAtEnd (part :: parts) = some gs) :
    (∃ g rest, gs = g :: rest ∧ parseHexGroup part = some g ∧
      parseGroups quadAtEnd parts = some rest) ∨
    quadAtEnd = true ∧ parts = [] ∧ gs.length = 2 := by
  rw [parseGroups] at h
  split at h
  next hquad =>
    obtain ⟨ip, -, rfl⟩ := Option.map_eq_some_iff.1 h
    simp only [Bool.and_eq_true, List.isEmpty_iff] at hquad
    exact .inr ⟨hquad.1.1, hquad.1.2, rfl⟩
  next =>
    obtain ⟨g, hg, h⟩ := Option.bind_eq_some_iff.1 h
    obtain ⟨rest, hrest, h⟩ := Option.bind_eq_some_iff.1 h
    cases h
    exact .inl ⟨g, rest, rfl, hg, hrest⟩

/-- The characters of the groups. -/
theorem parseGroups_chars (h : parseGroups quadAtEnd parts = some gs) :
    ∀ part ∈ parts, ∀ c ∈ part, isHex c = true ∨ c = '.' := by
  induction parts generalizing gs with
  | nil => simp
  | cons part rest ih =>
    rw [parseGroups] at h
    split at h
    next hquad =>
      obtain ⟨ip, hip, -⟩ := Option.map_eq_some_iff.1 h
      simp only [Bool.and_eq_true, List.isEmpty_iff] at hquad
      rw [parseIpv4_eq_some_iff] at hip
      rw [hquad.1.2, hip, List.forall_mem_singleton]
      exact fun c hc => (mem_showIpv4 hc).imp_left isHex_of_isDigit
    next =>
      obtain ⟨g, hg, h⟩ := Option.bind_eq_some_iff.1 h
      obtain ⟨gs, hgs, h⟩ := Option.bind_eq_some_iff.1 h
      obtain ⟨-, -, hhex, -⟩ := parseHexGroup_eq_some_iff.1 hg
      exact List.forall_mem_cons.2 ⟨fun c hc => .inl (hhex c hc), ih hgs⟩

end Groups

/-! ## The address of eight groups -/

theorem foldl_groups (init : Nat) (gs : List Nat) :
    gs.foldl (fun n g => 65536 * n + g) init =
      init * 65536 ^ gs.length + gs.foldl (fun n g => 65536 * n + g) 0 := by
  induction gs generalizing init with
  | nil => simp
  | cons g gs ih =>
    rw [List.foldl_cons, List.foldl_cons, ih, ih (65536 * 0 + g), List.length_cons, Nat.pow_succ]
    ring

theorem foldl_groups_lt {gs : List Nat} (h : ∀ g ∈ gs, g < 65536) :
    gs.foldl (fun n g => 65536 * n + g) 0 < 65536 ^ gs.length := by
  induction gs with
  | nil => decide
  | cons g gs ih =>
    obtain ⟨hg, hgs⟩ := List.forall_mem_cons.1 h
    have hrest := ih hgs
    rw [List.foldl_cons, foldl_groups, Nat.mul_zero, Nat.zero_add, List.length_cons, Nat.pow_succ]
    calc g * 65536 ^ gs.length + gs.foldl (fun n g => 65536 * n + g) 0
        < (g + 1) * 65536 ^ gs.length := by
          rw [Nat.succ_mul]
          omega
      _ ≤ 65536 ^ gs.length * 65536 := by
          rw [Nat.mul_comm]
          exact Nat.mul_le_mul_left _ hg

/-- The first group is the first sixteen bits. -/
theorem toNat_ofGroups_div {g : Nat} {gs : List Nat} (hlength : gs.length = 7)
    (h : ∀ x ∈ g :: gs, x < 65536) : (ofGroups (g :: gs)).toNat / 2 ^ 112 = g := by
  have hrest := foldl_groups_lt (List.forall_mem_cons.1 h).2
  have htotal := foldl_groups_lt h
  have hpow : 65536 ^ 7 = 2 ^ 112 := by norm_num
  have hbits : 65536 ^ (7 + 1) = 2 ^ 128 := by norm_num
  rw [List.length_cons, hlength, hbits] at htotal
  rw [hlength, hpow] at hrest
  rw [ofGroups, BitVec.toNat_ofNat, Nat.mod_eq_of_lt htotal, List.foldl_cons, foldl_groups, hlength,
    hpow, Nat.mul_zero, Nat.zero_add, Nat.add_comm, Nat.add_mul_div_right _ _ (by positivity),
    Nat.div_eq_of_lt hrest, Nat.zero_add]

theorem inNet6_iff_div {net v : Ipv6Addr} {bits : Nat} :
    inNet6 net bits v = true ↔ v.toNat / 2 ^ (128 - bits) = net.toNat / 2 ^ (128 - bits) := by
  rw [inNet6, beq_iff_eq, ← BitVec.toNat_inj, BitVec.toNat_ushiftRight, BitVec.toNat_ushiftRight,
    Nat.shiftRight_eq_div_pow, Nat.shiftRight_eq_div_pow]

/-! ## Texts of addresses -/

section Texts

variable {s before after : Str} {v : Ipv6Addr}

theorem splitDoubleColon_eq_some (h : splitDoubleColon s = some (before, after)) :
    s = before ++ ':' :: ':' :: after := by
  induction s generalizing before with
  | nil => cases h
  | cons c s ih =>
    unfold splitDoubleColon at h
    split at h
    next s' heq =>
      cases heq
      cases h
      rfl
    next c' s' _ heq =>
      cases heq
      obtain ⟨⟨before', after'⟩, hsplit, hpair⟩ := Option.map_eq_some_iff.1 h
      cases hpair
      rw [ih hsplit]
      rfl
    next heq => cases heq

theorem groupTexts_cons (hne : s ≠ []) :
    ∃ part parts, groupTexts s = part :: parts ∧ s = part ++ parts.flatMap (':' :: ·) := by
  have hgroups : groupTexts s = s.splitOn ':' := if_neg hne
  obtain ⟨part, parts, hparts⟩ := List.exists_cons_of_ne_nil (List.splitOn_ne_nil ':' s)
  have hjoin : [':'].intercalate (s.splitOn ':') = s := List.intercalate_splitOn ':'
  refine ⟨part, parts, hgroups.trans hparts, ?_⟩
  rw [← intercalate_cons, ← hparts, hjoin]

theorem mem_groupTexts {c : Char} (hc : c ∈ s) : c = ':' ∨ ∃ part ∈ groupTexts s, c ∈ part := by
  obtain ⟨part, parts, hparts, hs⟩ := groupTexts_cons (List.ne_nil_of_mem hc)
  rw [hs] at hc
  rw [hparts]
  obtain hc | hc := List.mem_append.1 hc
  · exact .inr ⟨part, List.mem_cons_self, hc⟩
  · obtain ⟨other, hother, hc⟩ := List.mem_flatMap.1 hc
    obtain rfl | hc := List.mem_cons.1 hc
    · exact .inl rfl
    · exact .inr ⟨other, List.mem_cons_of_mem _ hother, hc⟩

theorem parseGroups_groupTexts_chars {quadAtEnd : Bool} {gs : List Nat}
    (h : parseGroups quadAtEnd (groupTexts s) = some gs) :
    ∀ c ∈ s, isHex c = true ∨ c = '.' ∨ c = ':' := by
  intro c hc
  obtain rfl | ⟨part, hpart, hc⟩ := mem_groupTexts hc
  · exact .inr (.inr rfl)
  · exact (parseGroups_chars h part hpart c hc).imp_right .inl

/-- The two forms of an address, with and without two colons. -/
theorem parseIpv6_cases (h : parseIpv6 s = some v) :
    (∃ gs, parseGroups true (groupTexts s) = some gs ∧ gs.length = 8 ∧ v = ofGroups gs) ∨
    ∃ before after gs hs, s = before ++ ':' :: ':' :: after ∧
      parseGroups false (groupTexts before) = some gs ∧
      parseGroups true (groupTexts after) = some hs ∧ gs.length + hs.length ≤ 7 ∧
      v = ofGroups (gs ++ List.replicate (8 - (gs.length + hs.length)) 0 ++ hs) := by
  unfold parseIpv6 at h
  split at h
  next =>
    obtain ⟨gs, hgs, h⟩ := Option.bind_eq_some_iff.1 h
    split at h
    next hlength =>
      cases h
      exact .inl ⟨gs, hgs, hlength, rfl⟩
    next => cases h
  next before after hsplit =>
    obtain ⟨gs, hgs, h⟩ := Option.bind_eq_some_iff.1 h
    obtain ⟨hs, hhs, h⟩ := Option.bind_eq_some_iff.1 h
    split at h
    next hlength =>
      cases h
      exact .inr ⟨before, after, gs, hs, splitDoubleColon_eq_some hsplit, hgs, hhs, hlength, rfl⟩
    next => cases h

theorem parseIpv6_chars (h : parseIpv6 s = some v) :
    ∀ c ∈ s, isHex c = true ∨ c = '.' ∨ c = ':' := by
  obtain ⟨gs, hgs, -⟩ | ⟨before, after, gs, hs, rfl, hgs, hhs, -⟩ := parseIpv6_cases h
  · exact parseGroups_groupTexts_chars hgs
  · refine List.forall_mem_append.2 ⟨parseGroups_groupTexts_chars hgs, ?_⟩
    simpa using parseGroups_groupTexts_chars hhs

/-- The first group of a text without two colons. -/
theorem firstGroup_full {gs : List Nat} (hgs : parseGroups true (groupTexts s) = some gs)
    (hlength : gs.length = 8) : ∃ part rest, s = part ++ ':' :: rest ∧
      parseHexGroup part = some ((ofGroups gs).toNat / 2 ^ 112) := by
  have hne : s ≠ [] := by
    rintro rfl
    cases hgs
    simp at hlength
  obtain ⟨part, parts, hparts, hs⟩ := groupTexts_cons hne
  rw [hparts] at hgs
  obtain ⟨g, rest, rfl, hg, hrest⟩ | ⟨-, -, htwo⟩ := parseGroups_cons hgs
  · have hseven : rest.length = 7 := by simpa using hlength
    rw [toNat_ofGroups_div hseven (parseGroups_lt hgs)]
    cases parts with
    | nil =>
      cases hrest
      simp at hseven
    | cons other parts => exact ⟨part, _, by simpa using hs, hg⟩
  · omega

/-- The first group of a text with two colons that do not stand at its beginning. -/
theorem firstGroup_compressed {gs hs : List Nat} (hne : before ≠ [])
    (hgs : parseGroups false (groupTexts before) = some gs) (hlength : gs.length + hs.length ≤ 7)
    (hbound : ∀ x ∈ gs ++ List.replicate (8 - (gs.length + hs.length)) 0 ++ hs, x < 65536) :
    ∃ part rest, before ++ ':' :: ':' :: after = part ++ ':' :: rest ∧ parseHexGroup part =
      some ((ofGroups (gs ++ List.replicate (8 - (gs.length + hs.length)) 0 ++ hs)).toNat /
        2 ^ 112) := by
  obtain ⟨part, parts, hparts, rfl⟩ := groupTexts_cons hne
  rw [hparts] at hgs
  obtain ⟨g, rest, rfl, hg, -⟩ | ⟨hquad, -⟩ := parseGroups_cons hgs
  · rw [List.length_cons] at hlength
    rw [List.cons_append, List.cons_append] at hbound ⊢
    rw [toNat_ofGroups_div (by simp; omega) hbound]
    cases parts with
    | nil => exact ⟨part, ':' :: after, by simp, hg⟩
    | cons other parts =>
      exact ⟨part, other ++ parts.flatMap (':' :: ·) ++ ':' :: ':' :: after, by simp, hg⟩
  · cases hquad

/-- If no digit of the first group is missing, the text starts with its four digits. -/
theorem exists_firstGroup (h : parseIpv6 s = some v) (hlarge : 4096 ≤ v.toNat / 2 ^ 112) :
    ∃ part rest, s = part ++ ':' :: rest ∧ parseHexGroup part = some (v.toNat / 2 ^ 112) := by
  obtain ⟨gs, hgs, hlength, rfl⟩ | ⟨before, after, gs, hs, rfl, hgs, hhs, hlength, rfl⟩ :=
    parseIpv6_cases h
  · exact firstGroup_full hgs hlength
  · have hbound : ∀ x ∈ gs ++ List.replicate (8 - (gs.length + hs.length)) 0 ++ hs, x < 65536 := by
      refine List.forall_mem_append.2
        ⟨List.forall_mem_append.2 ⟨parseGroups_lt hgs, ?_⟩, parseGroups_lt hhs⟩
      intro x hx
      rw [List.eq_of_mem_replicate hx]
      decide
    by_cases hne : before = []
    · -- The address starts with the zeros that the colons stand for.
      subst hne
      cases hgs
      obtain ⟨k, hk⟩ : ∃ k, 8 - (([] : List Nat).length + hs.length) = k + 1 :=
        Nat.exists_eq_succ_of_ne_zero (by omega)
      have hseven : (List.replicate k 0 ++ hs).length = 7 := by
        rw [List.length_append, List.length_replicate]
        rw [List.length_nil] at hk hlength
        omega
      rw [hk, List.nil_append, List.replicate_succ, List.cons_append] at hbound hlarge
      rw [toNat_ofGroups_div hseven hbound] at hlarge
      omega
    · exact firstGroup_compressed hne hgs hlength hbound

/-- The digits of a large first group, and their number. -/
theorem exists_firstDigits (h : parseIpv6 s = some v)
    (hlarge : 4096 ≤ v.toNat / 2 ^ 112) :
    ∃ c₀ c₁ c₂ c₃ rest, s = [c₀, c₁, c₂, c₃] ++ ':' :: rest ∧ isHex c₀ = true ∧ isHex c₁ = true ∧
      isHex c₂ = true ∧ v.toNat / 2 ^ 112 =
        ((hexValue c₀ * 16 + hexValue c₁) * 16 + hexValue c₂) * 16 + hexValue c₃ := by
  obtain ⟨part, rest, rfl, hpart⟩ := exists_firstGroup h hlarge
  obtain ⟨c₀, c₁, c₂, c₃, rfl, hhex, hvalue⟩ := parseHexGroup_of_le hpart hlarge
  simp only [List.forall_mem_cons] at hhex
  exact ⟨c₀, c₁, c₂, c₃, rest, rfl, hhex.1, hhex.2.1, hhex.2.2.1, hvalue⟩

end Texts

end PartnerEdge.Net
