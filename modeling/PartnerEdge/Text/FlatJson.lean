import PartnerEdge.Text.Scan

/-!
# Flat JSON objects

JSON objects whose values are strings without escapes, integers of 64 bits and the three literals,
with the blanks of one text of them. Beside the text of an object stands what the search for a
quoted word finds in it: quotes divide a text into pieces, and only a whole piece is found.
-/

namespace PartnerEdge.Json

open Text

/-! ## Objects and their texts -/

def isBlank (c : Char) : Bool := c == ' ' || c == '\t' || c == '\n' || c == '\r'

/-- A character that a string holds without an escape. -/
def isPlain (c : Char) : Bool := c != '"' && c != '\\' && 0x20 ≤ c.toNat

abbrev Blank := { s : Str // s.all isBlank = true }

abbrev Plain := { s : Str // s.all isPlain = true }

inductive Literal where
  | true
  | false
  | null
deriving DecidableEq, Repr

def Literal.text : Literal → Str
  | .true => ['t', 'r', 'u', 'e']
  | .false => ['f', 'a', 'l', 's', 'e']
  | .null => ['n', 'u', 'l', 'l']

inductive Value where
  | string (s : Plain)
  | number (n : UInt64)
  | literal (l : Literal)
deriving DecidableEq

namespace Value

def text : Value → Str
  | .string s => '"' :: s ++ ['"']
  | .number n => Nat.toDigits 10 n.toNat
  | .literal l => l.text

def str? : Value → Option Str
  | .string s => some s
  | _ => none

def num? : Value → Option Nat
  | .number n => some n.toNat
  | _ => none

end Value

/-- A member with the blanks around its parts. -/
structure Member where
  lead : Blank
  key : Plain
  beforeColon : Blank
  afterColon : Blank
  value : Value
  trail : Blank

namespace Member

variable (m : Member)

/-- The text between the key and the value. -/
def colon : Str := m.beforeColon ++ ':' :: m.afterColon

def text : Str := m.lead ++ '"' :: m.key ++ '"' :: m.colon ++ m.value.text ++ m.trail

end Member

/-- The text after a member: the members that follow it and the end of the object. -/
def restText (after : Str) : List Member → Str
  | [] => '\x7d' :: after
  | m :: ms => ',' :: m.text ++ restText after ms

structure Object where
  before : Blank
  inner : Blank
  members : List Member
  after : Blank
  distinct : (members.map (·.key)).Nodup

namespace Object

variable (o : Object)

def text : Str :=
  o.before ++ '\x7b' :: o.inner ++
    match o.members with
    | [] => '\x7d' :: o.after
    | m :: ms => m.text ++ restText o.after ms

/-- The value of the member with a key. -/
def lookup (key : Str) : Option Value :=
  (o.members.find? fun m => m.key.val == key).map (·.value)

end Object

/-! ## Characters of the parts -/

theorem Blank.isWhitespace (b : Blank) : ∀ c ∈ b.val, isWhitespace c = true := by
  intro c hc
  have hblank := List.all_eq_true.1 b.2 c hc
  simp only [isBlank, Bool.or_eq_true, beq_iff_eq] at hblank
  rcases hblank with ((rfl | rfl) | rfl) | rfl <;> rfl

theorem Blank.notMem (b : Blank) {c : Char} (hc : Text.isWhitespace c = false) : c ∉ b.val :=
  fun hmem => by simp [b.isWhitespace c hmem] at hc

theorem Plain.quote_notMem (s : Plain) : '"' ∉ s.val :=
  fun hmem => by simpa [isPlain] using List.all_eq_true.1 s.2 '"' hmem

/-- What a value begins with is no white space. -/
theorem Value.dropWhile_text (v : Value) (t : Str) :
    (v.text ++ t).dropWhile isWhitespace = v.text ++ t := by
  cases v with
  | string s => rfl
  | literal l => cases l <;> rfl
  | number n =>
    obtain ⟨d, ds, hdigits⟩ :=
      List.exists_cons_of_ne_nil (Nat.toDigits_ne_nil (b := 10) (n := n.toNat))
    have hd : d.isDigit = true := isDigit_of_mem_toDigits (n := n.toNat) (by simp [hdigits])
    have hwhite := isWhitespace_of_isAlphanum (c := d) (by simp [Char.isAlphanum, hd])
    simp [Value.text, hdigits, hwhite]

/-! ## Searching for a quoted word -/

def quoted (s : Str) : Str := '"' :: s ++ ['"']

section Quoted

variable {key : Str}

theorem afterFirst_quoted_append (key : Str) {a : Str} (ha : '"' ∉ a) (t : Str) :
    afterFirst (quoted key) (a ++ t) = afterFirst (quoted key) t := by
  induction a with
  | nil => rfl
  | cons c a ih =>
    have hc : ¬ '"' = c := by grind
    simpa [afterFirst, quoted, List.isPrefixOf, hc] using ih (by grind)

theorem quoted_prefix_iff (hkey : '"' ∉ key) {s : Str} (hs : '"' ∉ s) (t : Str) :
    quoted key <+: '"' :: s ++ '"' :: t ↔ s = key := by
  constructor
  · rintro ⟨u, hu⟩
    have hsplit : splitOnce '"' (key ++ '"' :: u) = splitOnce '"' (s ++ '"' :: t) := by
      simpa [quoted] using congrArg (fun x => splitOnce '"' x.tail) hu
    rw [splitOnce_append hkey, splitOnce_append hs] at hsplit
    grind
  · rintro rfl
    exact ⟨t, by simp [quoted]⟩

/-- A piece between two quotes is found when it is the word. -/
theorem afterFirst_quoted_cons (hkey : '"' ∉ key) {s : Str} (hs : '"' ∉ s) (t : Str) :
    afterFirst (quoted key) ('"' :: s ++ '"' :: t) =
      if s = key then some t else afterFirst (quoted key) ('"' :: t) := by
  rw [List.cons_append, afterFirst, ← List.cons_append]
  have hstart := quoted_prefix_iff hkey hs t
  split
  · next hfound =>
    obtain rfl := hstart.1 (List.isPrefixOf_iff_prefix.1 hfound)
    simp [quoted]
  · next hfound =>
    have hne : s ≠ key := fun h => hfound (List.isPrefixOf_iff_prefix.2 (hstart.2 h))
    rw [if_neg hne, afterFirst_quoted_append key hs]

/-- After the last quote there is nothing to find. -/
theorem afterFirst_quoted_last {s : Str} (hs : '"' ∉ s) :
    afterFirst (quoted key) ('"' :: s) = none := by
  have hnone : afterFirst (quoted key) s = none := by
    simpa [afterFirst, quoted] using afterFirst_quoted_append key hs []
  have hstart : ¬ quoted key <+: '"' :: s := by
    rintro ⟨u, hu⟩
    have htail := congrArg List.tail hu
    simp only [quoted, List.cons_append, List.tail_cons, List.append_assoc] at htail
    exact hs (by simp [← htail])
  rw [afterFirst, if_neg (mt List.isPrefixOf_iff_prefix.1 hstart), hnone]

end Quoted

namespace Member

/-- The text since the last quote of a member. -/
def sinceQuote (m : Member) : Str :=
  match m.value with
  | .string _ => []
  | v => m.colon ++ v.text

theorem quote_notMem_colon (m : Member) : '"' ∉ m.colon := by
  have hbefore := m.beforeColon.notMem (c := '"') rfl
  have hafter := m.afterColon.notMem (c := '"') rfl
  simp [colon, hbefore, hafter]

theorem quote_notMem_sinceQuote (m : Member) : '"' ∉ m.sinceQuote := by
  have hcolon := m.quote_notMem_colon
  unfold sinceQuote
  cases m.value with
  | string s => simp
  | literal l => cases l <;> simp [hcolon, Value.text, Literal.text]
  | number n =>
    have hdigits : '"' ∉ Nat.toDigits 10 n.toNat :=
      fun h => absurd (isDigit_of_mem_toDigits h) (by decide)
    simp [hcolon, Value.text, hdigits]

end Member

/-- What follows the first string that is the word, be it a key or a value. -/
def afterMention (key after : Str) : List Member → Option Str
  | [] => none
  | m :: ms =>
    if m.key.val = key then some (m.colon ++ m.value.text ++ m.trail ++ restText after ms)
    else if m.value.str? = some key then some (m.trail ++ restText after ms)
    else afterMention key after ms

section Mention

variable {key : Str} (hkey : key.all Char.isAlphanum = true)
include hkey

theorem notMem_word {c : Char} (hc : c.isAlphanum = false) : c ∉ key :=
  fun hmem => by simp [List.all_eq_true.1 hkey c hmem] at hc

/-- The search passes over what stands between two strings. -/
theorem afterFirst_separator {a : Str} (ha : '"' ∉ a) {c : Char} (hc : c ∈ a)
    (hword : c.isAlphanum = false) (t : Str) :
    afterFirst (quoted key) ('"' :: a ++ '"' :: t) = afterFirst (quoted key) ('"' :: t) := by
  have hne : a ≠ key := fun h => notMem_word hkey hword (h ▸ hc)
  rw [afterFirst_quoted_cons (notMem_word hkey rfl) ha, if_neg hne]

theorem afterFirst_member (m : Member) (t : Str) :
    afterFirst (quoted key) ('"' :: m.key ++ '"' :: (m.colon ++ m.value.text ++ t)) =
      if m.key.val = key then some (m.colon ++ m.value.text ++ t)
      else if m.value.str? = some key then some t
      else afterFirst (quoted key) ('"' :: m.sinceQuote ++ t) := by
  rw [afterFirst_quoted_cons (notMem_word hkey rfl) m.key.quote_notMem]
  congr 1
  cases hvalue : m.value with
  | string s =>
    have hcolon := afterFirst_separator hkey m.quote_notMem_colon (c := ':')
      (by simp [Member.colon])
      rfl (s ++ '"' :: t)
    have hstring := afterFirst_quoted_cons (notMem_word hkey rfl) s.quote_notMem t
    simp_all [Value.text, Value.str?, Member.sinceQuote]
  | number n => simp [Value.str?, Member.sinceQuote, hvalue]
  | literal l => simp [Value.str?, Member.sinceQuote, hvalue]

theorem afterFirst_restText (after : Blank) (ms : List Member) {a : Str} (ha : '"' ∉ a) :
    afterFirst (quoted key) ('"' :: a ++ restText after ms) = afterMention key after ms := by
  induction ms generalizing a with
  | nil =>
    have hafter := after.notMem (c := '"') rfl
    exact afterFirst_quoted_last (by simp [ha, restText, hafter])
  | cons m ms ih =>
    have hlead := m.lead.notMem (c := '"') rfl
    have htrail := m.trail.notMem (c := '"') rfl
    have hsep := afterFirst_separator hkey (a := a ++ ',' :: m.lead) (by simp [ha, hlead])
      (c := ',') (by simp) rfl
      (m.key ++ '"' :: (m.colon ++ m.value.text ++ (m.trail ++ restText after ms)))
    have hmember := afterFirst_member hkey m (m.trail ++ restText after ms)
    have hnext := ih (a := m.sinceQuote ++ m.trail) (by simp [m.quote_notMem_sinceQuote, htrail])
    simp only [restText, Member.text, List.append_assoc, List.cons_append] at hsep hmember hnext ⊢
    rw [hsep, hmember, hnext, afterMention]
    simp [List.append_assoc]

theorem Object.afterFirst_text (o : Object) :
    afterFirst (quoted key) o.text = afterMention key o.after o.members := by
  have hbefore := o.before.notMem (c := '"') rfl
  have hinner := o.inner.notMem (c := '"') rfl
  have hafter := o.after.notMem (c := '"') rfl
  cases hmembers : o.members with
  | nil =>
    have hnone := afterFirst_quoted_append key (a := o.text)
      (by simp [Object.text, hmembers, hbefore, hinner, hafter]) []
    simpa [afterFirst, quoted, afterMention] using hnone
  | cons m ms =>
    have hlead := m.lead.notMem (c := '"') rfl
    have htrail := m.trail.notMem (c := '"') rfl
    have hopen := afterFirst_quoted_append key
      (a := o.before ++ '\x7b' :: o.inner ++ m.lead) (by simp [hbefore, hinner, hlead])
      ('"' :: m.key ++ '"' :: (m.colon ++ m.value.text ++ (m.trail ++ restText o.after ms)))
    have hmember := afterFirst_member hkey m (m.trail ++ restText o.after ms)
    have hnext := afterFirst_restText hkey o.after ms (a := m.sinceQuote ++ m.trail)
      (by simp [m.quote_notMem_sinceQuote, htrail])
    simp only [Object.text, hmembers, Member.text, List.append_assoc, List.cons_append]
      at hopen hmember hnext ⊢
    rw [hopen, hmember, hnext, afterMention]
    simp [List.append_assoc]

end Mention

end PartnerEdge.Json
