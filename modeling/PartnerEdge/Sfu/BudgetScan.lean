import PartnerEdge.Text.FlatJson
import PartnerEdge.Sfu.TemporalCapMessage

/-!
# What the budget channel reads in a JSON object

The messages of the budget channel are JSON objects, read without a JSON parser: the value of a key
is what follows the next colon after the first place where the key stands in quotes. That place need
not be a key. This module gives the reading in terms of the members of the object: after a string
value equal to the key, the value of the next member is taken for it, and a key that holds a colon
is itself taken apart. The command that is carried out is the one the object states exactly when
this reading and the members name the same one.
-/

namespace PartnerEdge.Sfu

open Svc Text Json

/-! ## The text after the colon -/

/-- What stands after the next colon, without leading white space. -/
def pastColon (t : Str) : Option Str :=
  (splitOnce ':' t).map fun parts => parts.2.dropWhile isWhitespace

def numberAt (t : Str) : Option Nat :=
  let digits := t.takeWhile Char.isDigit
  if digits.isEmpty then none else parseU64 digits

def stringAt : Str → Option Str
  | '"' :: inner => (splitOnce '"' inner).map Prod.fst
  | _ => none

theorem afterFirst_singleton (sep : Char) (s : Str) :
    afterFirst [sep] s = (splitOnce sep s).map Prod.snd := by
  induction s with
  | nil => rfl
  | cons c s ih =>
    by_cases hc : c = sep
    · simp [afterFirst, splitOnce, hc]
    · have hsep : ¬ sep = c := fun h => hc h.symm
      simp [afterFirst, splitOnce, hc, hsep, ih, Function.comp_def]

theorem afterColon_eq (json key : Str) :
    afterColon json key = (afterFirst (quoted key) json).bind pastColon := by
  simp only [afterColon, afterFirst_singleton, Option.bind_eq_bind]
  apply Option.bind_congr
  intro t _
  rw [pastColon]
  cases splitOnce ':' t <;> rfl

theorem extractNumValue_eq (json key : Str) :
    extractNumValue json key = (afterColon json key).bind numberAt := rfl

theorem extractStrValue_eq (json key : Str) :
    extractStrValue json key = (afterColon json key).bind stringAt := by
  unfold extractStrValue stringAt
  cases afterColon json key <;> rfl

theorem pastColon_append {a : Str} (ha : ':' ∉ a) (t : Str) :
    pastColon (a ++ ':' :: t) = some (t.dropWhile isWhitespace) := by
  rw [pastColon, splitOnce_append ha]
  rfl

/-! ## The reading of an object -/

/-- The value the scan takes for that of a member it entered before the key: the member's own, or,
when the key holds a colon, the number right after it. -/
def seen (m : Json.Member) : Option Value :=
  match splitOnce ':' m.key with
  | none => some m.value
  | some (_, rest) =>
    (numberAt (rest.dropWhile isWhitespace)).map fun n => .number (UInt64.ofNat n)

/-- The value the scan takes for that of a key. -/
def mention (key : Str) : List Json.Member → Option Value
  | [] => none
  | m :: ms =>
    if m.key.val = key then some m.value
    else if m.value.str? = some key then ms.head?.bind seen
    else mention key ms

/-- A text reads as a value: the same number, and the same string where that has no colon. -/
structure Reads (t : Option Str) (v : Option Value) : Prop where
  number : t.bind numberAt = v.bind Value.num?
  string : ∀ w, ':' ∉ w → (t.bind stringAt = some w ↔ v.bind Value.str? = some w)

theorem reads_none : Reads none none := ⟨rfl, fun _ _ => Iff.rfl⟩

/-- A character that ends a value. -/
theorem isDigit_head?_restText (trail : Blank) (after : Str) (ms : List Json.Member) :
    ∀ c ∈ (trail ++ restText after ms).head?, c.isDigit = false := by
  obtain ⟨trail, htrail⟩ := trail
  cases trail with
  | nil => cases ms <;> simp [restText]
  | cons c trail =>
    simp only [List.all_cons, Bool.and_eq_true, isBlank, Bool.or_eq_true, beq_iff_eq] at htrail
    rcases htrail.1 with ((rfl | rfl) | rfl) | rfl <;> simp

theorem takeWhile_append_of_head? {p : Char → Bool} {a t : Str} (ha : ∀ c ∈ a, p c = true)
    (ht : ∀ c ∈ t.head?, p c = false) : (a ++ t).takeWhile p = a := by
  rw [List.takeWhile_append_of_pos ha]
  cases t with
  | nil => simp
  | cons c t => simp [ht c (by simp)]

theorem reads_value (v : Value) {t : Str} (ht : ∀ c ∈ t.head?, c.isDigit = false) :
    Reads (some (v.text ++ t)) (some v) := by
  cases v with
  | string s =>
    have hsplit : stringAt ((Value.string s).text ++ t) = some s.val := by
      simp [Value.text, stringAt, splitOnce_append s.quote_notMem]
    exact ⟨rfl, fun w _ => by rw [Option.bind_some, hsplit]; rfl⟩
  | number n =>
    have hdigits : ∀ c ∈ Nat.toDigits 10 n.toNat, c.isDigit = true :=
      fun c => isDigit_of_mem_toDigits
    have hne : Nat.toDigits 10 n.toNat ≠ [] := Nat.toDigits_ne_nil
    refine ⟨?_, fun w _ => ?_⟩
    · simp [Value.text, Value.num?, numberAt, takeWhile_append_of_head? hdigits ht, hne,
        parseU64_toDigits n.toNat_lt]
    · obtain ⟨d, ds, hcons⟩ := List.exists_cons_of_ne_nil hne
      have hd : d ≠ '"' := fun h => absurd (hdigits d (by simp [hcons])) (by simp [h])
      have hnone : stringAt (d :: (ds ++ t)) = none := by
        unfold stringAt
        grind
      simp [Value.text, Value.str?, hcons, hnone]
  | literal l => cases l <;> exact ⟨rfl, fun w _ => Iff.rfl⟩

theorem dropWhile_append_cons {p : Char → Bool} {c : Char} (hc : p c = false) (a t : Str) :
    (a ++ c :: t).dropWhile p = a.dropWhile p ++ c :: t := by
  induction a with
  | nil => simp [hc]
  | cons d a ih => cases hd : p d <;> simp [hd, ih]

theorem takeWhile_append_cons {p : Char → Bool} {c : Char} (hc : p c = false) (a t : Str) :
    (a ++ c :: t).takeWhile p = a.takeWhile p := by
  induction a with
  | nil => simp [hc]
  | cons d a ih => cases hd : p d <;> simp [hd, ih]

theorem numberAt_append (a t : Str) : numberAt (a ++ '"' :: t) = numberAt a := by
  simp only [numberAt, takeWhile_append_cons (p := Char.isDigit) (c := '"') rfl]

theorem numberAt_lt {t : Str} {n : Nat} (h : numberAt t = some n) : n < 2 ^ 64 := by
  simp only [numberAt] at h
  split at h
  · cases h
  · exact (parseU64_eq_some_iff.1 h).1

theorem bind_num?_number (t : Str) :
    ((numberAt t).map fun n => Value.number (UInt64.ofNat n)).bind Value.num? = numberAt t := by
  cases hn : numberAt t with
  | none => rfl
  | some n => simpa [Value.num?] using numberAt_lt hn

/-- A string that starts where a key was closed holds the colon of the member. -/
theorem colon_mem_of_stringAt {a w : Str} {m : Json.Member} {t : Str}
    (ha : ∀ c ∈ a.head?, c ≠ '"') (hw : stringAt (a ++ '"' :: (m.colon ++ t)) = some w) :
    ':' ∈ w := by
  cases a with
  | cons c a =>
    have hc : c ≠ '"' := ha c (by simp)
    unfold stringAt at hw
    grind
  | nil =>
    obtain ⟨⟨w', u⟩, hsplit, rfl⟩ := Option.map_eq_some_iff.1 hw
    obtain ⟨hquote, htext⟩ := splitOnce_eq_some_iff.1 hsplit
    have hcolon : ':' ∈ m.colon := by simp [Json.Member.colon]
    rcases List.append_eq_append_iff.1 htext with ⟨u', rfl, -⟩ | ⟨u', hfst, hsnd⟩
    · exact List.mem_append_left _ hcolon
    · cases u' with
      | nil => simpa [hfst] using hcolon
      | cons c u' =>
        obtain ⟨rfl, -⟩ := List.cons.inj hsnd
        exact absurd (by simp [hfst]) m.quote_notMem_colon

/-- Behind the colon in a key, the scan meets the quote that closes the key. -/
theorem reads_seen {m : Json.Member} {a rest : Str} (hkey : splitOnce ':' m.key = some (a, rest))
    (t : Str) :
    Reads (some ((rest ++ '"' :: (m.colon ++ t)).dropWhile isWhitespace)) (seen m) := by
  have hseen : seen m =
      (numberAt (rest.dropWhile isWhitespace)).map fun n => .number (UInt64.ofNat n) := by
    simp [seen, hkey]
  have hquote : ∀ c ∈ (rest.dropWhile isWhitespace).head?, c ≠ '"' := by
    rintro c hc rfl
    have hmem := (List.dropWhile_suffix _).subset (List.mem_of_mem_head? hc)
    have hsplit := splitOnce_eq_some hkey
    exact m.key.quote_notMem (by simp [hsplit, hmem])
  rw [dropWhile_append_cons rfl, hseen]
  refine ⟨?_, fun w hw => ⟨fun hread => absurd (colon_mem_of_stringAt hquote hread) hw, ?_⟩⟩
  · rw [Option.bind_some, numberAt_append]
    exact (bind_num?_number _).symm
  · cases numberAt (rest.dropWhile isWhitespace) <;> simp [Value.str?]

/-- Behind the colon of a member, the scan reads its value. -/
theorem reads_colon (m : Json.Member) (after : Str) (ms : List Json.Member) {a : Str}
    (ha : ':' ∉ a) :
    Reads (pastColon (a ++ (m.colon ++ (m.value.text ++ (m.trail ++ restText after ms)))))
      (some m.value) := by
  have hbefore := m.beforeColon.notMem (c := ':') rfl
  have hpast := pastColon_append (a := a ++ m.beforeColon) (by simp [ha, hbefore])
    (m.afterColon ++ (m.value.text ++ (m.trail ++ restText after ms)))
  rw [List.dropWhile_append_of_pos m.afterColon.isWhitespace, m.value.dropWhile_text] at hpast
  simp only [Json.Member.colon, List.append_assoc, List.cons_append] at hpast ⊢
  rw [hpast]
  exact reads_value m.value (isDigit_head?_restText m.trail after ms)

/-- Behind a string value, the scan reads the next member. -/
theorem reads_rest (trail after : Blank) (ms : List Json.Member) :
    Reads (pastColon (trail ++ restText after ms)) (ms.head?.bind seen) := by
  have htrail := trail.notMem (c := ':') rfl
  cases ms with
  | nil =>
    have hnone : ':' ∉ trail.val ++ restText after [] := by
      simp [restText, htrail, after.notMem (c := ':') rfl]
    rw [pastColon, splitOnce_of_notMem hnone]
    exact reads_none
  | cons m ms =>
    have hlead := m.lead.notMem (c := ':') rfl
    cases hkey : splitOnce ':' m.key with
    | none =>
      have hcolon := splitOnce_eq_none_iff.1 hkey
      have hreads := reads_colon m after ms (a := trail ++ ',' :: m.lead ++ '"' :: m.key ++ ['"'])
        (by simp [htrail, hlead, hcolon])
      simpa [seen, hkey, restText, Json.Member.text] using hreads
    | some parts =>
      obtain ⟨hfirst, hsplit⟩ := splitOnce_eq_some_iff.1
        (show _ = some (parts.1, parts.2) from hkey)
      have hpast := pastColon_append (a := trail ++ ',' :: m.lead ++ '"' :: parts.1)
        (by simp [htrail, hlead, hfirst])
        (parts.2 ++ '"' :: (m.colon ++ (m.value.text ++ (m.trail ++ restText after ms))))
      have hreads := reads_seen hkey (m.value.text ++ (m.trail ++ restText after ms))
      simp only [restText, Json.Member.text, hsplit, List.append_assoc, List.cons_append] at hpast ⊢
      rw [hpast]
      exact hreads

/-- What follows a mention of the key reads as the value the scan takes. -/
theorem reads_mention (key : Str) (after : Blank) (ms : List Json.Member) :
    Reads ((afterMention key after ms).bind pastColon) (mention key ms) := by
  fun_induction mention key ms with
  | case1 => exact reads_none
  | case2 m ms hkey =>
    simpa [afterMention, hkey] using reads_colon m after ms (a := []) (by simp)
  | case3 m ms hkey hvalue =>
    simpa [afterMention, hkey, hvalue] using reads_rest m.trail after ms
  | case4 m ms hkey hvalue ih => rwa [afterMention, if_neg hkey, if_neg hvalue]

/-- The extractors read an object as the scan of its members does. -/
theorem reads_object (o : Object) (key : Str) (hkey : key.all Char.isAlphanum = true) :
    Reads (afterColon o.text key) (mention key o.members) := by
  rw [afterColon_eq, o.afterFirst_text hkey]
  exact reads_mention key o.after o.members

/-! ## The command -/

/-- What an object of the budget channel asks for. -/
inductive Command where
  | budget (bps : Nat)
  | temporalCap
deriving DecidableEq, Repr

/-- The command of the values of the three keys. -/
def command (value : Str → Option Value) : Option Command :=
  let type := (value "type".toList).bind Value.str?
  if type = some "budget".toList then
    ((value "bps".toList).bind Value.num?).map .budget
  else if type = some "max_temporal_layer".toList then
    ((value "vfm".toList).bind Value.num?).map fun _ => .temporalCap
  else none

theorem temporalCap_ne_budget : some "max_temporal_layer".toList ≠ some "budget".toList := by decide

theorem command_iff {value : Str → Option Value} :
    (∀ n, command value = some (.budget n) ↔
      (value "type".toList).bind Value.str? = some "budget".toList ∧
        (value "bps".toList).bind Value.num? = some n) ∧
    (command value = some .temporalCap ↔
      (value "type".toList).bind Value.str? = some "max_temporal_layer".toList ∧
        ((value "vfm".toList).bind Value.num?).isSome = true) := by
  have hne := temporalCap_ne_budget
  simp only [command]
  generalize (value "type".toList).bind Value.str? = type
  generalize (value "bps".toList).bind Value.num? = bps
  generalize (value "vfm".toList).bind Value.num? = vfm
  generalize some "budget".toList = budget, some "max_temporal_layer".toList = temporalCap at *
  cases bps <;> cases vfm <;> grind

/-- The two sanity checks of the parser follow from what it goes on to read. -/
theorem parseBudgetBps_eq_some_iff {s : Str} {n : Nat} : parseBudgetBps s = some n ↔
    extractStrValue s "type".toList = some "budget".toList ∧
      extractNumValue s "bps".toList = some n := by
  have htype : (afterFirst "\"type\"".toList s).isNone = true →
      extractStrValue s "type".toList = none := by
    intro hnone
    have hfirst : afterFirst (quoted "type".toList) s = none := Option.isNone_iff_eq_none.1 hnone
    rw [extractStrValue_eq, afterColon_eq, hfirst]
    rfl
  have hbps : (afterFirst "\"bps\"".toList s).isNone = true →
      extractNumValue s "bps".toList = none := by
    intro hnone
    have hfirst : afterFirst (quoted "bps".toList) s = none := Option.isNone_iff_eq_none.1 hnone
    rw [extractNumValue_eq, afterColon_eq, hfirst]
    rfl
  rw [parseBudgetBps]
  generalize extractStrValue s "type".toList = type at *
  generalize extractNumValue s "bps".toList = bps at *
  generalize "budget".toList = budget
  generalize (afterFirst "\"type\"".toList s).isNone = noType at *
  generalize (afterFirst "\"bps\"".toList s).isNone = noBps at *
  cases noType <;> cases noBps <;> grind

section Events

variable (jwt : Jwt) (now : Nat) (auth : RelayAuth) (clientId : ClientId) (s : Str)

theorem relaySource_eq : relaySource jwt now auth clientId s = .noop ∨
    ∃ url, relaySource jwt now auth clientId s = .markRelaySource clientId url := by
  unfold relaySource
  simp only []
  repeat' split
  all_goals first
    | exact .inl rfl
    | exact .inr ⟨_, rfl⟩

theorem handleChannelData_budget :
    handleChannelData jwt now auth clientId "sfu-budget" (toUtf8 s) =
      if extractStrValue s "type".toList = some "relay_source".toList then
        relaySource jwt now auth clientId s
      else budgetMessage clientId s := by
  simp only [handleChannelData, fromUtf8_toUtf8, Option.bind_some, Option.getD_some]
  rfl

theorem budgetHint_iff (n : Nat) :
    handleChannelData jwt now auth clientId "sfu-budget" (toUtf8 s) =
        .clientBudgetHint clientId n ↔
      extractStrValue s "type".toList = some "budget".toList ∧
        extractNumValue s "bps".toList = some n := by
  have hne := temporalCap_ne_budget
  have hrelay : some "relay_source".toList ≠ some "budget".toList := by decide
  have hsource := relaySource_eq jwt now auth clientId s
  rw [handleChannelData_budget, budgetMessage, ← parseBudgetBps_eq_some_iff]
  have hparse := parseBudgetBps_eq_some_iff (s := s) (n := n)
  generalize parseBudgetBps s = bps at *
  generalize extractStrValue s "type".toList = type at *
  generalize some "budget".toList = budget at *
  generalize some "max_temporal_layer".toList = temporalCap at *
  generalize some "relay_source".toList = source at *
  grind

theorem temporalCap_iff :
    (∃ cap, handleChannelData jwt now auth clientId "sfu-budget" (toUtf8 s) =
        .vfmLayerCap clientId cap) ↔
      extractStrValue s "type".toList = some "max_temporal_layer".toList ∧
        (extractNumValue s "vfm".toList).isSome = true := by
  have hrelay : some "relay_source".toList ≠ some "max_temporal_layer".toList := by decide
  have hsource := relaySource_eq jwt now auth clientId s
  rw [handleChannelData_budget, budgetMessage]
  generalize parseBudgetBps s = bps at *
  generalize extractNumValue s "vfm".toList = vfm at *
  generalize extractStrValue s "type".toList = type at *
  generalize some "max_temporal_layer".toList = temporalCap at *
  generalize some "relay_source".toList = source at *
  by_cases htype : type = temporalCap
  · cases vfm <;> simp [htype, hrelay.symm]
  · split
    · grind
    · cases bps <;> simp [htype]

end Events

theorem Command.ext_iff {a b : Option Command} : a = b ↔
    (∀ n, a = some (.budget n) ↔ b = some (.budget n)) ∧
      (a = some .temporalCap ↔ b = some .temporalCap) := by
  constructor
  · rintro rfl
    exact ⟨fun _ => Iff.rfl, Iff.rfl⟩
  · rintro ⟨hbudget, hcap⟩
    rcases a with _ | (n | _) <;> rcases b with _ | (n' | _) <;> grind

/-- A flat object gets the event its members call for exactly when the scan takes from it the
command that its members state. -/
theorem budgetChannel_agrees_iff (jwt : Jwt) (now : Nat) (auth : RelayAuth) (clientId : ClientId)
    (o : Object) :
    ((∀ n, handleChannelData jwt now auth clientId "sfu-budget" (toUtf8 o.text) =
          .clientBudgetHint clientId n ↔
        (o.lookup "type".toList).bind Value.str? = some "budget".toList ∧
          (o.lookup "bps".toList).bind Value.num? = some n) ∧
      ((∃ cap, handleChannelData jwt now auth clientId "sfu-budget" (toUtf8 o.text) =
          .vfmLayerCap clientId cap) ↔
        (o.lookup "type".toList).bind Value.str? = some "max_temporal_layer".toList ∧
          ((o.lookup "vfm".toList).bind Value.num?).isSome = true)) ↔
      command (mention · o.members) = command o.lookup := by
  have htype := (reads_object o "type".toList (by decide)).string
  have hbps := (reads_object o "bps".toList (by decide)).number
  have hvfm := (reads_object o "vfm".toList (by decide)).number
  simp only [← extractStrValue_eq, ← extractNumValue_eq] at htype hbps hvfm
  rw [Command.ext_iff]
  simp only [budgetHint_iff, temporalCap_iff, hbps, hvfm, htype "budget".toList (by decide),
    htype "max_temporal_layer".toList (by decide), command_iff.1,
    command_iff.2]

/-- A member without blanks. -/
def bare (key : Plain) (value : Value) : Json.Member :=
  ⟨⟨[], rfl⟩, key, ⟨[], rfl⟩, ⟨[], rfl⟩, value, ⟨[], rfl⟩⟩

/-- `{"x":"type","y":"budget","bps":5}` -/
def untyped : Object where
  before := ⟨[], rfl⟩
  inner := ⟨[], rfl⟩
  members := [bare ⟨"x".toList, by decide⟩ (.string ⟨"type".toList, by decide⟩),
    bare ⟨"y".toList, by decide⟩ (.string ⟨"budget".toList, by decide⟩),
    bare ⟨"bps".toList, by decide⟩ (.number 5)]
  after := ⟨[], rfl⟩
  distinct := by decide

/-- `{"x":"type","bps":5,"type":"budget"}` -/
def typedLast : Object where
  before := ⟨[], rfl⟩
  inner := ⟨[], rfl⟩
  members := [bare ⟨"x".toList, by decide⟩ (.string ⟨"type".toList, by decide⟩),
    bare ⟨"bps".toList, by decide⟩ (.number 5),
    bare ⟨"type".toList, by decide⟩ (.string ⟨"budget".toList, by decide⟩)]
  after := ⟨[], rfl⟩
  distinct := by decide

/-- An object without a type gives a budget, and one with the type `budget` gives none. -/
theorem budget_untyped :
    (untyped.lookup "type".toList = none ∧ ∀ jwt now auth clientId,
      handleChannelData jwt now auth clientId "sfu-budget" (toUtf8 untyped.text) =
        .clientBudgetHint clientId 5) ∧
    (typedLast.lookup "type".toList).bind Value.str? = some "budget".toList ∧
    (typedLast.lookup "bps".toList).bind Value.num? = some 5 ∧ ∀ jwt now auth clientId,
      handleChannelData jwt now auth clientId "sfu-budget" (toUtf8 typedLast.text) ≠
        .clientBudgetHint clientId 5 := by
  refine ⟨⟨by decide, fun jwt now auth clientId => ?_⟩, by decide, by decide,
    fun jwt now auth clientId => ?_⟩
  · rw [budgetHint_iff]
    decide +kernel
  · rw [Ne, budgetHint_iff]
    decide +kernel

end PartnerEdge.Sfu
