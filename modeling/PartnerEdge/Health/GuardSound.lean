import PartnerEdge.Health.PeerIpGuard

/-!
# The guard is sound

The internal ranges are nets of numbers, and what the guard looks at is text. Each range is matched
by the arms that stand for it, since a number that is large enough to be in one can be written in
only one way up to case: an octet without leading zeros, or a first group with all of its digits.
-/

namespace PartnerEdge.Health

open Text Net

/-! ## The internal ranges -/

def internalNets : List (Ipv4Addr × Nat) :=
  [(⟨0, 0, 0, 0⟩, 8), (⟨10, 0, 0, 0⟩, 8), (⟨127, 0, 0, 0⟩, 8), (⟨169, 254, 0, 0⟩, 16),
    (⟨172, 16, 0, 0⟩, 12), (⟨192, 168, 0, 0⟩, 16), (⟨100, 64, 0, 0⟩, 10)]

def Internal4 (ip : Ipv4Addr) : Prop := ∃ net ∈ internalNets, net.1.inNet net.2 ip = true

/-- `::ffff:0:0/96`, `64:ff9b::/96` and `::/96`. -/
def embeddingNets : List Ipv6Addr := [0xffff <<< 32, 0x64ff9b <<< 96, 0]

def Embeds (v : Ipv6Addr) : Prop := ∃ net ∈ embeddingNets, inNet6 net 96 v = true

/-- `fe80::/10` and `fc00::/7` -/
def localNets : List (Ipv6Addr × Nat) := [(0xfe80 <<< 112, 10), (0xfc00 <<< 112, 7)]

/-- An address that embeds an IPv4 address is judged by this. -/
def Internal6 (v : Ipv6Addr) : Prop :=
  Embeds v ∧ Internal4 (quadOf (v.extractLsb' 0 32)) ∨
  ¬ Embeds v ∧ (v = 0 ∨ v = 1 ∨ ∃ net ∈ localNets, inNet6 net.1 net.2 v = true)

inductive Addr
  | v4 (ip : Ipv4Addr)
  | v6 (ip : Ipv6Addr)

def Addr.Internal : Addr → Prop
  | .v4 ip => Internal4 ip
  | .v6 ip => Internal6 ip

def parseAddr (s : Str) : Option Addr :=
  if s.contains ':' then (parseIpv6 s).map .v6 else (parseIpv4 s).map .v4

/-! ## Octets -/

theorem matchesInternalArm_of_quadArm {u : Str} (h : quadArms.any (·.accepts u) = true) (v : Str) :
    matchesInternalArm (u ++ v) = true := by
  obtain ⟨g, hg, haccepts⟩ := List.any_eq_true.1 h
  rw [matchesInternalArm, List.any_eq_true]
  exact ⟨g ++ [.star], List.mem_append_left _ (List.mem_map_of_mem hg),
    Glob.accepts_append haccepts (Glob.accepts_star v)⟩

theorem showIpv4_eq (ip : Ipv4Addr) :
    showIpv4 ip = showOctet ip.a ++ ['.'] ++
      (showOctet ip.b ++ ['.'] ++ (showOctet ip.c ++ '.' :: showOctet ip.d)) := by
  simp [showIpv4, List.intercalate]

/-- The range is told by the first octet. -/
theorem matches_of_octet {ip : Ipv4Addr}
    (h : quadArms.any (·.accepts (showOctet ip.a ++ ['.'])) = true) :
    matchesInternalArm (showIpv4 ip) = true := by
  rw [showIpv4_eq]
  exact matchesInternalArm_of_quadArm h _

/-- The range is told by the first two octets. -/
theorem matches_of_octets {ip : Ipv4Addr}
    (h : quadArms.any (·.accepts (showOctet ip.a ++ ['.'] ++ (showOctet ip.b ++ ['.']))) = true) :
    matchesInternalArm (showIpv4 ip) = true := by
  rw [showIpv4_eq, ← List.append_assoc]
  exact matchesInternalArm_of_quadArm h _

theorem quadArms_172 : ∀ b < 32, 16 ≤ b →
    quadArms.any (·.accepts (Nat.toDigits 10 172 ++ ['.'] ++ (Nat.toDigits 10 b ++ ['.']))) =
      true := by
  decide +kernel

theorem quadArms_100 : ∀ b < 128, 64 ≤ b →
    quadArms.any (·.accepts (Nat.toDigits 10 100 ++ ['.'] ++ (Nat.toDigits 10 b ++ ['.']))) =
      true := by
  decide +kernel

theorem matchesInternalArm_showIpv4 {ip : Ipv4Addr} (h : Internal4 ip) :
    matchesInternalArm (showIpv4 ip) = true := by
  obtain ⟨net, hnet, hin⟩ := h
  have ha := ip.a.isLt
  have hb := ip.b.isLt
  have hc := ip.c.isLt
  have hd := ip.d.isLt
  simp only [internalNets, List.mem_cons, List.not_mem_nil, or_false] at hnet
  rcases hnet with rfl | rfl | rfl | rfl | rfl | rfl | rfl
  · have hdiv := octets_of_inNet (k := 0) (m := 2 ^ 24) (by decide) hin
    have hoctet : ip.a.toNat = 0 := by omega
    exact matches_of_octet (by rw [showOctet, hoctet]; decide +kernel)
  · have hdiv := octets_of_inNet (k := 10) (m := 2 ^ 24) (by decide) hin
    have hoctet : ip.a.toNat = 10 := by omega
    exact matches_of_octet (by rw [showOctet, hoctet]; decide +kernel)
  · have hdiv := octets_of_inNet (k := 127) (m := 2 ^ 24) (by decide) hin
    have hoctet : ip.a.toNat = 127 := by omega
    exact matches_of_octet (by rw [showOctet, hoctet]; decide +kernel)
  · have hdiv := octets_of_inNet (k := 169 * 256 + 254) (m := 2 ^ 16) (by decide) hin
    have hoctets : ip.a.toNat = 169 ∧ ip.b.toNat = 254 := by omega
    exact matches_of_octets (by rw [showOctet, showOctet, hoctets.1, hoctets.2]; decide +kernel)
  · have hdiv := octets_of_inNet (k := 172 * 16 + 1) (m := 2 ^ 20) (by decide) hin
    have hoctets : ip.a.toNat = 172 ∧ 16 ≤ ip.b.toNat ∧ ip.b.toNat < 32 := by omega
    refine matches_of_octets ?_
    rw [showOctet, showOctet, hoctets.1]
    exact quadArms_172 _ hoctets.2.2 hoctets.2.1
  · have hdiv := octets_of_inNet (k := 192 * 256 + 168) (m := 2 ^ 16) (by decide) hin
    have hoctets : ip.a.toNat = 192 ∧ ip.b.toNat = 168 := by omega
    exact matches_of_octets (by rw [showOctet, showOctet, hoctets.1, hoctets.2]; decide +kernel)
  · have hdiv := octets_of_inNet (k := 100 * 4 + 1) (m := 2 ^ 22) (by decide) hin
    have hoctets : ip.a.toNat = 100 ∧ 64 ≤ ip.b.toNat ∧ ip.b.toNat < 128 := by omega
    refine matches_of_octets ?_
    rw [showOctet, showOctet, hoctets.1]
    exact quadArms_100 _ hoctets.2.2 hoctets.2.1

/-! ## First groups -/

/-- A digit is told by its number, up to case. -/
theorem hexDigits_cases :
    (∀ e ∈ hexDigits, e.2 = 15 → ['F', 'f'].contains e.1 = true) ∧
    (∀ e ∈ hexDigits, e.2 = 14 → ['E', 'e'].contains e.1 = true) ∧
    (∀ e ∈ hexDigits, 8 ≤ e.2 ∧ e.2 < 12 →
      ['8', '9', 'A', 'a', 'B', 'b'].contains e.1 = true) ∧
    (∀ e ∈ hexDigits, 12 ≤ e.2 ∧ e.2 < 14 → ['C', 'c', 'D', 'd'].contains e.1 = true) := by
  decide

theorem matchesInternalArm_of_linkLocal {s : Str} {v : Ipv6Addr} (h : parseIpv6 s = some v)
    (hin : inNet6 (0xfe80 <<< 112) 10 v = true) : matchesInternalArm s = true := by
  have hfirst : 0xfe80 ≤ v.toNat / 2 ^ 112 ∧ v.toNat / 2 ^ 112 < 0xfec0 := by
    have hdiv := inNet6_iff_div.1 hin
    have hnet : BitVec.toNat (0xfe80 <<< 112 : Ipv6Addr) / 2 ^ (128 - 10) = 0x3fa := by decide
    rw [hnet] at hdiv
    omega
  obtain ⟨c₀, c₁, c₂, c₃, rest, rfl, hhex₀, hhex₁, hhex₂, hvalue⟩ :=
    exists_firstDigits h (by omega)
  have h₁ := hexValue_lt c₁
  have h₂ := hexValue_lt c₂
  have h₃ := hexValue_lt c₃
  have hc₀ := hexDigits_cases.1 _ (mem_hexDigits hhex₀) (by omega)
  have hc₁ := hexDigits_cases.2.1 _ (mem_hexDigits hhex₁) (by omega)
  have hc₂ := hexDigits_cases.2.2.1 _ (mem_hexDigits hhex₂) (by omega)
  have htail : Glob.accepts [.star, Glob.char ':', .star] ([c₃] ++ ':' :: rest) = true :=
    Glob.accepts_star_char_star [c₃] ':' rest
  rw [matchesInternalArm, List.any_eq_true]
  refine ⟨linkLocalArm, by simp [internalArms], ?_⟩
  rw [linkLocalArm, Glob.oneOf, Glob.oneOf, Glob.oneOf]
  simp only [List.cons_append, Glob.accepts, hc₀, hc₁, hc₂, Bool.true_and]
  exact htail

theorem matchesInternalArm_of_uniqueLocal {s : Str} {v : Ipv6Addr} (h : parseIpv6 s = some v)
    (hin : inNet6 (0xfc00 <<< 112) 7 v = true) : matchesInternalArm s = true := by
  have hfirst : 0xfc00 ≤ v.toNat / 2 ^ 112 ∧ v.toNat / 2 ^ 112 < 0xfe00 := by
    have hdiv := inNet6_iff_div.1 hin
    have hnet : BitVec.toNat (0xfc00 <<< 112 : Ipv6Addr) / 2 ^ (128 - 7) = 0x7e := by decide
    rw [hnet] at hdiv
    omega
  obtain ⟨c₀, c₁, c₂, c₃, rest, rfl, hhex₀, hhex₁, -, hvalue⟩ := exists_firstDigits h (by omega)
  have h₁ := hexValue_lt c₁
  have h₂ := hexValue_lt c₂
  have h₃ := hexValue_lt c₃
  have hc₀ := hexDigits_cases.1 _ (mem_hexDigits hhex₀) (by omega)
  have hc₁ := hexDigits_cases.2.2.2 _ (mem_hexDigits hhex₁) (by omega)
  have htail : Glob.accepts [.star, Glob.char ':', .star] ([c₂, c₃] ++ ':' :: rest) = true :=
    Glob.accepts_star_char_star [c₂, c₃] ':' rest
  rw [matchesInternalArm, List.any_eq_true]
  refine ⟨uniqueLocalArm, by simp [internalArms], ?_⟩
  rw [uniqueLocalArm, Glob.oneOf, Glob.oneOf]
  simp only [List.cons_append, Glob.accepts, hc₀, hc₁, Bool.true_and]
  exact htail

theorem matchesInternalArm_of_localNets {s : Str} {v : Ipv6Addr} (h : parseIpv6 s = some v)
    {net : Ipv6Addr × Nat} (hnet : net ∈ localNets) (hin : inNet6 net.1 net.2 v = true) :
    matchesInternalArm s = true := by
  simp only [localNets, List.mem_cons, List.not_mem_nil, or_false] at hnet
  obtain rfl | rfl := hnet
  · exact matchesInternalArm_of_linkLocal h hin
  · exact matchesInternalArm_of_uniqueLocal h hin

/-! ## Embedded addresses -/

theorem extractLsb_eq_iff_inNet6 {net v : Ipv6Addr} :
    v.extractLsb' 32 96 = net.extractLsb' 32 96 ↔ inNet6 net 96 v = true := by
  have hnet := net.isLt
  have hv := v.isLt
  rw [inNet6_iff_div, ← BitVec.toNat_inj, BitVec.extractLsb'_toNat, BitVec.extractLsb'_toNat,
    Nat.shiftRight_eq_div_pow, Nat.shiftRight_eq_div_pow, Nat.mod_eq_of_lt (by omega),
    Nat.mod_eq_of_lt (by omega)]

theorem contains_embeddingPrefixes_iff {v : Ipv6Addr} :
    embeddingPrefixes.contains (v.extractLsb' 32 96) = true ↔ Embeds v := by
  have hprefixes : embeddingPrefixes = embeddingNets.map (·.extractLsb' 32 96) := by decide
  rw [List.contains_iff_mem, hprefixes, List.mem_map, Embeds]
  exact exists_congr fun net => and_congr_right' (eq_comm.trans extractLsb_eq_iff_inNet6)

theorem embeds_zero : Embeds 0 := ⟨0, by decide, by decide⟩

theorem embeds_one : Embeds 1 := ⟨0, by decide, by decide⟩

/-! ## Brackets -/

theorem stripBrackets_eq_self {s : Str} (hopen : '[' ∉ s) (hclose : ']' ∉ s) :
    stripBrackets s = s := by
  have hhead : s.head? ≠ some '[' := fun h => hopen (List.mem_of_head? h)
  have hlast : s.getLast? ≠ some ']' := fun h => hclose (List.mem_of_getLast? h)
  simp only [stripBrackets, if_neg hhead, if_neg hlast]

theorem mem_stripBrackets {s : Str} {c : Char} (hopen : c ≠ '[') (hclose : c ≠ ']') (h : c ∈ s) :
    c ∈ stripBrackets s := by
  have hopened : c ∈ if s.head? = some '[' then s.tail else s := by
    split
    next hhead =>
      rw [← List.cons_head?_tail hhead] at h
      exact List.mem_of_ne_of_mem hopen h
    next => exact h
  rw [stripBrackets]
  generalize (if s.head? = some '[' then s.tail else s) = u at hopened
  split
  next hlast =>
    rw [← List.dropLast_append_getLast? _ hlast] at hopened
    simpa [hclose] using hopened
  next => exact hopened

theorem stripBrackets_showIpv4 (ip : Ipv4Addr) : stripBrackets (showIpv4 ip) = showIpv4 ip := by
  refine stripBrackets_eq_self (fun h => ?_) (fun h => ?_)
  · exact absurd (mem_showIpv4 h) (by decide)
  · exact absurd (mem_showIpv4 h) (by decide)

theorem stripBrackets_of_parseIpv6 {s : Str} {v : Ipv6Addr} (h : parseIpv6 s = some v) :
    stripBrackets s = s := by
  refine stripBrackets_eq_self (fun hc => ?_) (fun hc => ?_)
  · exact absurd (parseIpv6_chars h _ hc) (by decide)
  · exact absurd (parseIpv6_chars h _ hc) (by decide)

theorem stripBrackets_of_parseAddr {s : Str} {a : Addr} (h : parseAddr s = some a) :
    stripBrackets s = s := by
  unfold parseAddr at h
  split at h
  next =>
    obtain ⟨v, hv, -⟩ := Option.map_eq_some_iff.1 h
    exact stripBrackets_of_parseIpv6 hv
  next =>
    obtain ⟨ip, hip, -⟩ := Option.map_eq_some_iff.1 h
    rw [parseIpv4_eq_some_iff.1 hip, stripBrackets_showIpv4]

/-! ## Addresses -/

theorem colon_notMem_showIpv4 (ip : Ipv4Addr) : ':' ∉ showIpv4 ip :=
  fun h => absurd (mem_showIpv4 h) (by decide)

theorem ipv6EmbeddedV4_of_embeds {s : Str} {v : Ipv6Addr} (h : parseIpv6 s = some v)
    (hembeds : Embeds v) :
    ipv6EmbeddedV4 s = .embeds (showIpv4 (quadOf (v.extractLsb' 0 32))) := by
  simp only [ipv6EmbeddedV4, h, contains_embeddingPrefixes_iff.2 hembeds, if_true]

theorem ipv6EmbeddedV4_of_not_embeds {s : Str} {v : Ipv6Addr} (h : parseIpv6 s = some v)
    (hembeds : ¬ Embeds v) : ipv6EmbeddedV4 s = .pure := by
  simp only [ipv6EmbeddedV4, h, mt contains_embeddingPrefixes_iff.1 hembeds]
  rfl

/-- Internal IPv6 addresses are rejected in every textual form. -/
theorem ipIsInternal_of_internal6 {t : Str} {v : Ipv6Addr} (hcolon : ':' ∈ stripBrackets t)
    (h : parseIpv6 (stripBrackets t) = some v) (hinternal : Internal6 v) :
    ipIsInternal t = true := by
  rw [ipIsInternal, if_pos (List.contains_iff_mem.2 hcolon)]
  obtain ⟨hembeds, hquad⟩ | ⟨hembeds, hpure⟩ := hinternal
  · simp only [ipv6EmbeddedV4_of_embeds h hembeds, stripBrackets_showIpv4]
    exact matchesInternalArm_showIpv4 hquad
  · simp only [ipv6EmbeddedV4_of_not_embeds h hembeds]
    obtain rfl | rfl | ⟨net, hnet, hin⟩ := hpure
    · exact absurd embeds_zero hembeds
    · exact absurd embeds_one hembeds
    · exact matchesInternalArm_of_localNets h hnet hin

/-- The guard rejects what is written as an internal address, in brackets or not. -/
theorem ipIsInternal_of_internal {t : Str} {a : Addr} (h : parseAddr (stripBrackets t) = some a)
    (hinternal : a.Internal) : ipIsInternal t = true := by
  unfold parseAddr at h
  split at h
  next hcolon =>
    obtain ⟨v, hv, rfl⟩ := Option.map_eq_some_iff.1 h
    exact ipIsInternal_of_internal6 (List.contains_iff_mem.1 hcolon) hv hinternal
  next hcolon =>
    obtain ⟨ip, hip, rfl⟩ := Option.map_eq_some_iff.1 h
    rw [ipIsInternal, if_neg hcolon, parseIpv4_eq_some_iff.1 hip]
    exact matchesInternalArm_showIpv4 hinternal

/-- A text with a colon that the guard lets pass is an address. -/
theorem parseAddr_isSome_of_colon {t : Str} (hcolon : ':' ∈ stripBrackets t)
    (h : ipIsInternal t = false) : (parseAddr (stripBrackets t)).isSome = true := by
  have hcontains := List.contains_iff_mem.2 hcolon
  rw [parseAddr, if_pos hcontains, Option.isSome_map]
  rw [ipIsInternal, if_pos hcontains] at h
  cases hparse : parseIpv6 (stripBrackets t) with
  | none => simp [ipv6EmbeddedV4, hparse] at h
  | some v => rfl

/-! ## Numeric hosts -/

theorem isDigit_of_between {lo hi c : Char} (hbounds : '0' ≤ lo ∧ hi ≤ '9')
    (h : (decide (lo ≤ c) && decide (c ≤ hi)) = true) : c.isDigit = true := by
  rw [Bool.and_eq_true, decide_eq_true_iff, decide_eq_true_iff] at h
  have hlo : '0' ≤ c := hbounds.1.trans h.1
  have hhi : c ≤ '9' := h.2.trans hbounds.2
  exact Bool.and_eq_true_iff.2 ⟨decide_eq_true hlo, decide_eq_true hhi⟩

def decimals : Str := (List.range 10).map Nat.digitChar

theorem mem_sections_decimals {s : Str} (h : ∀ c ∈ s, c.isDigit = true) :
    s ∈ (List.replicate s.length decimals).sections := by
  rw [List.mem_sections]
  induction s with
  | nil => exact .nil
  | cons c s ih =>
    obtain ⟨hc, hs⟩ := List.forall_mem_cons.1 h
    obtain ⟨hlt, hchar⟩ := digitChar_of_isDigit hc
    exact .cons (List.mem_map.2 ⟨_, List.mem_range.2 hlt, hchar⟩) (ih hs)

theorem octetRegex_digits {s : Str} (h : octetRegex.Matches s) :
    s.length < 4 ∧ ∀ c ∈ s, c.isDigit = true := by
  have hdigit : ∀ {lo hi}, '0' ≤ lo ∧ hi ≤ '9' → ∀ {t}, (between lo hi).Matches t →
      ∃ c, c.isDigit = true ∧ t = [c] := by
    rintro lo hi hbounds t ⟨c, hc, rfl⟩
    exact ⟨c, isDigit_of_between hbounds hc, rfl⟩
  obtain h | ⟨t, u, rfl, ht, hu⟩ | ⟨t, _, rfl, ht, u, v, rfl, hu, hv⟩ |
    ⟨t, _, rfl, ht, u, v, rfl, hu, hv⟩ | ⟨t, _, rfl, ht, u, v, rfl, hu, hv⟩ := h
  · obtain ⟨c, hc, rfl⟩ := hdigit (by decide) h
    simp [hc]
  · obtain ⟨c, hc, rfl⟩ := hdigit (by decide) ht
    obtain hu | rfl := hu
    · obtain ⟨d, hd, rfl⟩ := hdigit (by decide) hu
      simp [hc, hd]
    · simp [hc]
  all_goals
    obtain ⟨c, hc, rfl⟩ := hdigit (by decide) ht
    obtain ⟨d, hd, rfl⟩ := hdigit (by decide) hu
    obtain ⟨e, he, rfl⟩ := hdigit (by decide) hv
    simp [hc, hd, he]

/-- What the expression accepts among the texts of at most three digits. -/
theorem parseOctet_sections : ∀ n < 4, ∀ s ∈ (List.replicate n decimals).sections,
    octetRegex.accepts s = true → (parseOctet s).isSome = true := by
  decide +kernel

theorem exists_showOctet {s : Str} (h : octetRegex.Matches s) : ∃ o, s = showOctet o := by
  obtain ⟨hlength, hdigits⟩ := octetRegex_digits h
  have hsome := parseOctet_sections _ hlength s (mem_sections_decimals hdigits)
    (Regex.accepts_iff.2 h)
  obtain ⟨o, ho⟩ := Option.isSome_iff_exists.1 hsome
  exact ⟨o, parseOctet_eq_some_iff.1 ho⟩

theorem matches_dotRegex {s : Str} (h : dotRegex.Matches s) : s = ['.'] := by
  obtain ⟨c, hc, rfl⟩ := h
  rw [Bool.and_eq_true, decide_eq_true_iff, decide_eq_true_iff] at hc
  rw [le_antisymm hc.2 hc.1]

/-- A host that is not suspect is an IPv4 address. -/
theorem exists_showIpv4 {s : Str} (h : ipv4LiteralIsSuspect s = false) : ∃ ip, s = showIpv4 ip := by
  rw [ipv4LiteralIsSuspect, Bool.not_eq_false', Regex.accepts_iff] at h
  obtain ⟨a, _, rfl, ha, p, _, rfl, hp, b, _, rfl, hb, q, _, rfl, hq, c, _, rfl, hc, r, d, rfl, hr,
    hd⟩ := h
  obtain ⟨a, rfl⟩ := exists_showOctet ha
  obtain ⟨b, rfl⟩ := exists_showOctet hb
  obtain ⟨c, rfl⟩ := exists_showOctet hc
  obtain ⟨d, rfl⟩ := exists_showOctet hd
  refine ⟨⟨a, b, c, d⟩, ?_⟩
  rw [showIpv4_eq, matches_dotRegex hp, matches_dotRegex hq, matches_dotRegex hr]
  simp

/-! ## Hosts -/

theorem mem_sortUnique {answers : List Str} {t : Str} : t ∈ sortUnique answers ↔ t ∈ answers := by
  rw [sortUnique, List.mem_eraseDups, List.mem_mergeSort]

theorem parseAddr_showIpv4 (ip : Ipv4Addr) : parseAddr (showIpv4 ip) = some (.v4 ip) := by
  rw [parseAddr, if_neg (by simpa using colon_notMem_showIpv4 ip), parseIpv4_eq_some_iff.2 rfl,
    Option.map_some]

/-- An address that the guard lets pass is not internal. -/
theorem exists_not_internal {t : Str} (hsome : (parseAddr (stripBrackets t)).isSome = true)
    (h : ipIsInternal t = false) : ∃ a, parseAddr (stripBrackets t) = some a ∧ ¬ a.Internal := by
  obtain ⟨a, ha⟩ := Option.isSome_iff_exists.1 hsome
  refine ⟨a, ha, fun hinternal => ?_⟩
  rw [ipIsInternal_of_internal ha hinternal] at h
  cases h

/-- What the guard prints is the literal it judged, or an answer after it judged all of them. -/
theorem hostIsInternal_cases {host printed : Str} {answers : List Str}
    (h : hostIsInternal host answers = some printed) :
    (printed = stripBrackets host ∧ ipIsInternal printed = false ∧
      (':' ∈ printed ∨ ipv4LiteralIsSuspect printed = false)) ∨
    (printed ∈ answers ∧ ∀ t ∈ answers, t ≠ [] → ipIsInternal t = false) := by
  simp only [hostIsInternal] at h
  split at h
  next => cases h
  next =>
    split at h
    next hcolon =>
      split at h
      next => cases h
      next hpass =>
        cases h
        exact .inl ⟨rfl, Bool.eq_false_of_not_eq_true hpass, .inl (List.contains_iff_mem.1 hcolon)⟩
    next =>
      split at h
      next =>
        split at h
        next => cases h
        next hclean =>
          split at h
          next => cases h
          next hpass =>
            cases h
            exact .inl ⟨rfl, Bool.eq_false_of_not_eq_true hpass,
              .inr (Bool.eq_false_of_not_eq_true hclean)⟩
      next =>
        split at h
        next => cases h
        next hall =>
          have hmem := List.mem_of_head? h
          refine .inr ⟨mem_sortUnique.1 (List.mem_of_mem_filter hmem), fun t ht hne => ?_⟩
          rw [List.any_eq_true, not_exists] at hall
          refine Bool.eq_false_of_not_eq_true fun hinternal => hall t ⟨?_, hinternal⟩
          exact List.mem_filter.2 ⟨mem_sortUnique.2 ht, by simpa using hne⟩

/-- A literal that passes is an address that is not internal. -/
theorem exists_public_of_literal {s : Str} (hpass : ipIsInternal s = false)
    (hliteral : ':' ∈ s ∨ ipv4LiteralIsSuspect s = false) :
    ∃ a, parseAddr (stripBrackets s) = some a ∧ ¬ a.Internal := by
  refine exists_not_internal ?_ hpass
  obtain hcolon | hclean := hliteral
  · exact parseAddr_isSome_of_colon (mem_stripBrackets (by decide) (by decide) hcolon) hpass
  · obtain ⟨ip, rfl⟩ := exists_showIpv4 hclean
    rw [stripBrackets_showIpv4, parseAddr_showIpv4]
    rfl

/-- An answer that passes is one as well. -/
theorem exists_public_of_answer {t : Str} (hsome : (parseAddr t).isSome = true)
    (hpass : t ≠ [] → ipIsInternal t = false) :
    stripBrackets t = t ∧ ∃ a, parseAddr t = some a ∧ ¬ a.Internal := by
  obtain ⟨a, ha⟩ := Option.isSome_iff_exists.1 hsome
  have hstrip := stripBrackets_of_parseAddr ha
  have hne : t ≠ [] := by
    rintro rfl
    cases ha
  have hresult := exists_not_internal (by rw [hstrip, ha]; rfl) (hpass hne)
  rw [hstrip] at hresult
  exact ⟨hstrip, hresult⟩

/-- Whatever the host and the answers of the resolver, an address that is dialled is the host or one
of the answers, and neither it nor any of the answers is internal. -/
theorem hostIsInternal_sound (host printed : Str) (answers : List Str)
    (hanswers : ∀ t ∈ answers, (parseAddr t).isSome = true)
    (h : hostIsInternal host answers = some printed) :
    (printed = stripBrackets host ∧
      ∃ a, parseAddr (stripBrackets printed) = some a ∧ ¬ a.Internal) ∨
    (printed ∈ answers ∧ ∀ t ∈ answers, ∃ a, parseAddr t = some a ∧ ¬ a.Internal) := by
  obtain ⟨hprinted, hpass, hliteral⟩ | ⟨hprinted, hpass⟩ := hostIsInternal_cases h
  · exact .inl ⟨hprinted, exists_public_of_literal hpass hliteral⟩
  · exact .inr ⟨hprinted, fun t ht => (exists_public_of_answer (hanswers t ht) (hpass t ht)).2⟩

def twoAnswers : List Str := ["2001:db8::1".toList, "8.8.8.8".toList]

theorem hostIsInternal_sound_twoAnswers :
    hostIsInternal "peer.example".toList twoAnswers = some "2001:db8::1".toList ∧
      ∀ t ∈ twoAnswers, ∃ a, parseAddr t = some a ∧ ¬ a.Internal := by
  have hsorted : sortUnique twoAnswers = twoAnswers := by
    rw [sortUnique, List.mergeSort_of_pairwise (by decide)]
    decide
  have hallowed : hostIsInternal "peer.example".toList twoAnswers = some "2001:db8::1".toList := by
    simp only [hostIsInternal, hsorted]
    decide +kernel
  have hsound := hostIsInternal_sound _ _ twoAnswers (by decide +kernel) hallowed
  exact ⟨hallowed, (hsound.resolve_left fun h => absurd h.1 (by decide)).2⟩

end PartnerEdge.Health
