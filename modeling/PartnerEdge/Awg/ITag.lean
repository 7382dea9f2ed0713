import PartnerEdge.Awg.Params
import PartnerEdge.Text.Slices

/-!
# The I-tag validator and its grammar

An I-tag literal is a sequence of bracketed tags with free text around them. The agent finds the
brackets by byte offset and slices the tags out. `scanITag` is that scanner with every slice
checked. It never fails a check, it computes `validateITag`, and it accepts exactly the grammar.
-/

namespace PartnerEdge.Awg

open Text

/-! ## The scanner -/

/-- The loop of `validate_i_tag` on byte offsets. Without a result it sliced out of bounds, or ran
out of fuel. -/
def scanTags : Nat → Str → Bool → Option (Except TagFault Bool)
  | 0, _, _ => none
  | fuel + 1, rest, sawTag =>
    match findChar '<' rest with
    | none => some (.ok sawTag)
    | some start => do
      let opened ← sliceFrom rest start
      match findChar '>' opened with
      | none => some (.error .unterminated)
      | some offset =>
        let stop := start + offset
        let tag ← slice rest (start + 1) stop
        match validateTag tag with
        | .error fault => some (.error fault)
        | .ok () =>
          let rest ← sliceFrom rest (stop + 1)
          scanTags fuel rest true

def scanITag (field : Field) (value : Str) : Option (Except Rejection Unit) :=
  match validateConfString field value with
  | .error e => some (.error e)
  | .ok () =>
    if value.isEmpty then some (.ok ())
    else do
      let sawTag ← scanTags (byteLen value + 1) value false
      some ((sawTag.bind fun sawTag => if sawTag then .ok () else .error .noTag).mapError
        (.iTag field value))

/-! ## The bodies of the tags -/

/-- What stands between the brackets, tag by tag, unless one is not closed. -/
def tagBodies : Nat → Str → Option (List Str)
  | 0, _ => some []
  | fuel + 1, rest =>
    match splitOnce '<' rest with
    | none => some []
    | some (_, inner) =>
      match splitOnce '>' inner with
      | none => none
      | some (tag, rest) => (tagBodies fuel rest).map (tag :: ·)

/-- Pieces of a text and a tag, written out. -/
def writePieces (pieces : List (Str × Str)) : Str :=
  pieces.flatMap fun (text, body) => text ++ '<' :: body ++ ['>']

/-- Texts without an opening bracket, bodies without a closing one. -/
def ArePieces (pieces : List (Str × Str)) : Prop :=
  ∀ p ∈ pieces, '<' ∉ p.1 ∧ '>' ∉ p.2

theorem tagBodies_iff {fuel : Nat} {s : Str} (hfuel : s.length ≤ fuel) {bodies : List Str} :
    tagBodies fuel s = some bodies ↔ ∃ pieces last, ArePieces pieces ∧ '<' ∉ last ∧
      s = writePieces pieces ++ last ∧ bodies = pieces.map Prod.snd := by
  induction fuel generalizing s bodies with
  | zero =>
    obtain rfl : s = [] := List.length_eq_zero_iff.1 (by omega)
    constructor
    · intro h
      obtain rfl : bodies = [] := by simpa [tagBodies, eq_comm] using h
      exact ⟨[], [], by simp [ArePieces], by simp, rfl, rfl⟩
    · rintro ⟨pieces, last, -, -, hs, rfl⟩
      cases pieces with
      | nil => rfl
      | cons p pieces => simp [writePieces] at hs
  | succ fuel ih =>
    constructor
    · intro h
      rw [tagBodies] at h
      cases hopen : splitOnce '<' s with
      | none =>
        obtain rfl : bodies = [] := by simpa [hopen, eq_comm] using h
        exact ⟨[], s, by simp [ArePieces], splitOnce_eq_none_iff.1 hopen, rfl, rfl⟩
      | some parts =>
        obtain ⟨text, inner⟩ := parts
        cases hclose : splitOnce '>' inner with
        | none => simp [hopen, hclose] at h
        | some parts =>
          obtain ⟨body, rest⟩ := parts
          obtain ⟨htext, rfl⟩ := splitOnce_eq_some_iff.1 hopen
          obtain ⟨hbody, rfl⟩ := splitOnce_eq_some_iff.1 hclose
          simp only [hopen, hclose, Option.map_eq_some_iff] at h
          obtain ⟨bodies', hbodies, rfl⟩ := h
          obtain ⟨pieces, last, hpieces, hlast, rfl, rfl⟩ := (ih (by grind)).1 hbodies
          exact ⟨(text, body) :: pieces, last, by grind [ArePieces], hlast,
            by simp [writePieces], rfl⟩
    · rintro ⟨pieces, last, hpieces, hlast, rfl, rfl⟩
      cases pieces with
      | nil => simp [tagBodies, writePieces, splitOnce_of_notMem hlast]
      | cons p pieces =>
        obtain ⟨text, body⟩ := p
        obtain ⟨⟨htext, hbody⟩, hpieces⟩ : ('<' ∉ text ∧ '>' ∉ body) ∧ ArePieces pieces := by
          simpa [ArePieces] using hpieces
        have hs : writePieces ((text, body) :: pieces) ++ last =
            text ++ '<' :: (body ++ '>' :: (writePieces pieces ++ last)) := by simp [writePieces]
        rw [hs] at hfuel ⊢
        have hrest := (ih (s := writePieces pieces ++ last) (by grind)).2
          ⟨pieces, last, hpieces, hlast, rfl, rfl⟩
        simp [tagBodies, splitOnce_append htext, splitOnce_append hbody, hrest]

theorem validateTags_ok_iff {fuel : Nat} {s : Str} {sawTag r : Bool} :
    validateTags fuel s sawTag = .ok r ↔ ∃ bodies, tagBodies fuel s = some bodies ∧
      (∀ body ∈ bodies, validateTag body = .ok ()) ∧ r = (sawTag || !bodies.isEmpty) := by
  induction fuel generalizing s sawTag with
  | zero => simp [validateTags, tagBodies, eq_comm]
  | succ fuel ih =>
    rw [validateTags, tagBodies]
    cases splitOnce '<' s with
    | none => simp [eq_comm]
    | some parts =>
      obtain ⟨text, inner⟩ := parts
      cases hclose : splitOnce '>' inner with
      | none => simp [hclose]
      | some parts =>
        obtain ⟨tag, rest⟩ := parts
        simp only [hclose, bind, Except.bind, Option.map_eq_some_iff, exists_exists_and_eq_and]
        cases htag : validateTag tag with
        | error fault => simp [htag]
        | ok => simp [ih, htag]

/-- Fuel for every character is enough. -/
theorem validateTags_of_le {fuel : Nat} {s : Str} (h : s.length ≤ fuel) (sawTag : Bool) :
    validateTags fuel s sawTag = validateTags s.length s sawTag := by
  induction fuel, h using Nat.le_induction with
  | base => rfl
  | succ fuel hle ih => rw [validateTags_fuel hle, ih]

/-! ## One tag -/

def IsHexArg (arg : Str) : Prop :=
  ∃ digits, (arg = digits ∨ arg = '0' :: 'x' :: digits) ∧ digits ≠ [] ∧ digits.length % 2 = 0 ∧
    ∀ c ∈ digits, isHexdigit c = true

def IsLengthArg (arg : Str) : Prop :=
  ∃ digits, (arg = digits ∨ arg = '+' :: digits) ∧ digits ≠ [] ∧ (∀ c ∈ digits, c.isDigit = true) ∧
    Nat.ofDigitChars 10 digits 0 ≤ 65535

def lengthKeys : List Str := [['r'], ['r', 'c'], ['r', 'd'], ['d', 'z']]

def freeKeys : List Str := [['t'], ['d'], ['d', 's']]

/-- A key with the argument it takes. -/
def IsTag (key : Str) (arg : Option Str) : Prop :=
  (key = ['b'] ∧ ∃ a ∈ arg, IsHexArg a) ∨ (key ∈ lengthKeys ∧ ∃ a ∈ arg, IsLengthArg a) ∨
    key ∈ freeKeys

/-- A key and what follows it after a space. -/
def joinArg (key : Str) : Option Str → Str
  | none => key
  | some arg => key ++ ' ' :: arg

/-- The body, cut at its first space, is a key with the argument it takes. -/
def IsTagBody (body : Str) : Prop := ∃ key arg, ' ' ∉ key ∧ body = joinArg key arg ∧ IsTag key arg

theorem validateHex_ok_iff {arg : Option Str} :
    validateHex arg = .ok () ↔ ∃ a ∈ arg, IsHexArg a := by
  cases arg with
  | none => simp [validateHex]
  | some arg =>
    have hx : isHexdigit 'x' = false := by decide
    simp only [validateHex, Option.mem_some_iff, exists_eq_left', IsHexArg]
    split
    · next digits =>
      constructor
      · intro h
        refine ⟨digits, .inr rfl, ?_⟩
        grind
      · grind
    · next hlead =>
      constructor
      · intro h
        refine ⟨arg, .inl rfl, ?_⟩
        grind
      · grind

theorem validateLength_ok_iff {key : Str} {arg : Option Str} :
    validateLength key arg = .ok () ↔ ∃ a ∈ arg, IsLengthArg a := by
  cases arg with
  | none => simp [validateLength]
  | some arg =>
    have hiff : validateLength key (some arg) = .ok () ↔
        ∃ n, parseU64 arg = some n ∧ n ≤ 65535 := by
      unfold validateLength
      grind
    simp only [hiff, Option.mem_some_iff, exists_eq_left', IsLengthArg, parseU64_eq_some_iff,
      parseDigits_eq_some_iff]
    constructor
    · rintro ⟨n, ⟨-, digits, harg, hne, hdigits, rfl⟩, hn⟩
      exact ⟨digits, harg, hne, hdigits, hn⟩
    · rintro ⟨digits, harg, hne, hdigits, hn⟩
      exact ⟨_, ⟨by omega, digits, harg, hne, hdigits, rfl⟩, hn⟩

/-- The validator of one tag, on the two parts of its body. -/
theorem validateTag_joinArg {key : Str} (hkey : ' ' ∉ key) (arg : Option Str) :
    validateTag (joinArg key arg) = .ok () ↔ IsTag key arg := by
  have hchain : (if key.isEmpty then Except.error TagFault.emptyTag
      else if key = ['b'] then validateHex arg
      else if key ∈ lengthKeys then validateLength key arg
      else if key ∈ freeKeys then .ok () else .error (.unknownTag key)) = .ok () ↔
        IsTag key arg := by
    have hb : ['b'] ∉ lengthKeys ++ freeKeys := by decide
    have hempty : [] ∉ ['b'] :: lengthKeys ++ freeKeys := by decide
    have hdisjoint : ∀ k ∈ lengthKeys, k ∉ freeKeys := by decide
    unfold IsTag
    grind [validateHex_ok_iff, validateLength_ok_iff]
  cases arg with
  | none =>
    simpa [validateTag, joinArg, splitOnce_of_notMem hkey, lengthKeys, freeKeys] using hchain
  | some arg =>
    simpa [validateTag, joinArg, splitOnce_append hkey, lengthKeys, freeKeys] using hchain

theorem validateTag_ok_iff {body : Str} : validateTag body = .ok () ↔ IsTagBody body := by
  constructor
  · intro h
    cases hsplit : splitOnce ' ' body with
    | none =>
      have hkey := splitOnce_eq_none_iff.1 hsplit
      exact ⟨body, none, hkey, rfl, (validateTag_joinArg hkey none).1 h⟩
    | some parts =>
      obtain ⟨key, arg⟩ := parts
      obtain ⟨hkey, rfl⟩ := splitOnce_eq_some_iff.1 hsplit
      exact ⟨key, some arg, hkey, rfl, (validateTag_joinArg hkey (some arg)).1 h⟩
  · rintro ⟨key, arg, hkey, rfl, htag⟩
    exact (validateTag_joinArg hkey arg).2 htag

/-! ## The whole literal -/

def IsITag (value : Str) : Prop :=
  ∃ pieces last, pieces ≠ [] ∧ ArePieces pieces ∧ '<' ∉ last ∧ (∀ p ∈ pieces, IsTagBody p.2) ∧
    value = writePieces pieces ++ last

/-- The verdict rests on the bodies: all closed, all valid, and at least one. -/
theorem validateITagGrammar_iff_bodies {value : Str} :
    validateITagGrammar value = .ok () ↔ ∃ bodies, tagBodies value.length value = some bodies ∧
      (∀ body ∈ bodies, validateTag body = .ok ()) ∧ bodies ≠ [] := by
  have hsaw : validateITagGrammar value = .ok () ↔
      validateTags value.length value false = .ok true := by
    unfold validateITagGrammar
    cases validateTags value.length value false with
    | error fault => simp [bind, Except.bind]
    | ok sawTag => cases sawTag <;> simp [bind, Except.bind]
  rw [hsaw, validateTags_ok_iff]
  simp

theorem validateITagGrammar_ok_iff {value : Str} :
    validateITagGrammar value = .ok () ↔ IsITag value := by
  rw [validateITagGrammar_iff_bodies]
  constructor
  · rintro ⟨bodies, hbodies, hvalid, hsome⟩
    obtain ⟨pieces, last, hpieces, hlast, rfl, rfl⟩ := (tagBodies_iff le_rfl).1 hbodies
    refine ⟨pieces, last, by simpa using hsome, hpieces, hlast, ?_, rfl⟩
    intro p hp
    exact validateTag_ok_iff.1 (hvalid p.2 (List.mem_map_of_mem hp))
  · rintro ⟨pieces, last, hne, hpieces, hlast, htags, rfl⟩
    refine ⟨pieces.map Prod.snd, (tagBodies_iff le_rfl).2 ⟨pieces, last, hpieces, hlast, rfl, rfl⟩,
      ?_, by simpa using hne⟩
    intro body hbody
    obtain ⟨p, hp, rfl⟩ := List.mem_map.1 hbody
    exact validateTag_ok_iff.2 (htags p hp)

theorem validateConfString_ok_iff {field : Field} {value : Str} :
    validateConfString field value = .ok () ↔
      '\n' ∉ value ∧ '\r' ∉ value ∧ '[' ∉ value ∧ ']' ∉ value := by
  have hiff : validateConfString field value = .ok () ↔ ∀ c ∈ value, c ∉ forbiddenConfChars := by
    refine ⟨validateConfString_ok, fun h => ?_⟩
    have hnone : value.find? (· ∈ forbiddenConfChars) = none := by simpa using h
    rw [validateConfString, hnone]
  rw [hiff]
  grind [forbiddenConfChars]

theorem validateITag_ok_iff {field : Field} {value : Str} :
    validateITag field value = .ok () ↔ ('\n' ∉ value ∧ '\r' ∉ value ∧ '[' ∉ value ∧ ']' ∉ value) ∧
      (value = [] ∨ IsITag value) := by
  have hconf : validateConfString field value = .ok () ↔ _ := validateConfString_ok_iff
  rw [← hconf, ← validateITagGrammar_ok_iff, validateITag]
  cases validateConfString field value with
  | error e => simp [bind, Except.bind]
  | ok =>
    by_cases hempty : value = []
    · simp [bind, Except.bind, hempty]
    · cases validateITagGrammar value <;> simp [bind, Except.bind, hempty, Except.mapError]

/-! ## The scanner slices where it may -/

theorem scanTags_eq {fuel : Nat} {rest : Str} (h : rest.length < fuel) (sawTag : Bool) :
    scanTags fuel rest sawTag = some (validateTags fuel rest sawTag) := by
  induction fuel generalizing rest sawTag with
  | zero => omega
  | succ fuel ih =>
    rw [scanTags, validateTags, findChar_eq]
    cases hopen : splitOnce '<' rest with
    | none => rfl
    | some parts =>
      obtain ⟨text, inner⟩ := parts
      obtain rfl := splitOnce_eq_some hopen
      have hfind : findChar '>' ('<' :: inner) =
          (splitOnce '>' inner).map fun parts => 1 + byteLen parts.1 := by
        simp [findChar, findChar_eq, Function.comp_def, show '<'.utf8Size = 1 from rfl]
      simp only [Option.map_some, sliceFrom_append, Option.bind_eq_bind, Option.bind_some, hfind]
      cases hclose : splitOnce '>' inner with
      | none => rfl
      | some parts =>
        obtain ⟨tag, rest⟩ := parts
        obtain rfl := splitOnce_eq_some hclose
        have htag := slice_append (text ++ ['<']) tag ('>' :: rest)
        have hrest := sliceFrom_append (text ++ ['<'] ++ tag ++ ['>']) rest
        have hopen : '<'.utf8Size = 1 := rfl
        have hshut : '>'.utf8Size = 1 := rfl
        simp only [byteLen_append, byteLen, List.append_assoc, List.cons_append, List.nil_append,
          hopen, hshut, Nat.add_zero] at htag hrest
        have hscan : ∀ sawTag, scanTags fuel rest sawTag = some (validateTags fuel rest sawTag) :=
          ih (by grind)
        simp only [Option.map_some, Nat.add_assoc, htag, hrest, Option.bind_some, hscan]
        cases validateTag tag <;> rfl

theorem length_le_byteLen (s : Str) : s.length ≤ byteLen s := by
  fun_induction byteLen s <;> grind [Char.utf8Size_pos]

/-- On every text the scanner slices on character boundaries only and stops, with the verdict of
`validateITag`, and it accepts exactly the empty text and the literals of the grammar, without a
character that the conf forbids. -/
theorem scanITag_decides (field : Field) (value : Str) :
    ∃ verdict, scanITag field value = some verdict ∧ verdict = validateITag field value ∧
      (verdict = .ok () ↔
        ('\n' ∉ value ∧ '\r' ∉ value ∧ '[' ∉ value ∧ ']' ∉ value) ∧
          (value = [] ∨ IsITag value)) := by
  refine ⟨_, ?_, rfl, validateITag_ok_iff⟩
  have hscan : scanTags (byteLen value + 1) value false =
      some (validateTags value.length value false) := by
    rw [scanTags_eq (by grind [length_le_byteLen]), validateTags_of_le]
    exact (length_le_byteLen value).trans (Nat.le_succ _)
  unfold scanITag validateITag validateITagGrammar
  cases validateConfString field value with
  | error e => rfl
  | ok =>
    by_cases hempty : value = []
    · simp [hempty, bind, Except.bind]
    · simp [hempty, bind, Except.bind, hscan]

end PartnerEdge.Awg
