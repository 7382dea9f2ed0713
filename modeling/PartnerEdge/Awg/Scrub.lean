import PartnerEdge.Text.Regex
import PartnerEdge.Awg.ConfLines

/-!
# Key material in error texts

The output of the commands that apply a conf may show its lines, so the agent replaces the values of
the secret keys before it reports an error. The expression matches a key's name, an equals sign and
the rest of the line, at any place of a line. A line therefore has at most one match, at its first
assignment to a secret key, and nothing after that equals sign is read.

Letters are compared in any case. The expression is a Unicode one, for which the Kelvin sign is a
`k` and the long s an `s`.
-/

namespace PartnerEdge.Awg

open Text

/-! ## The expression -/

/-- The character is the letter in some case, by simple case folding. -/
def foldsTo (letter c : Char) : Bool :=
  c == letter || c == letter.toUpper || (letter == 'k' && c == '\u212A') ||
    (letter == 's' && c == '\u017F')

def ignoreCase : Str → Regex
  | [] => .empty
  | letter :: word => .seq (.one (foldsTo letter)) (ignoreCase word)

/-- Words with an optional underscore between them. -/
def secretName : List Str → Regex
  | [] => .empty
  | [word] => ignoreCase word
  | word :: words => .seq (ignoreCase word) (.seq (.opt (.one (· == '_'))) (secretName words))

def privateKey : List Str := ["private".toList, "key".toList]

def presharedKey : List Str := ["preshared".toList, "key".toList]

def protectionKey : List Str := ["header".toList, "protection".toList, "key".toList]

/-- `(private_?key|preshared_?key|header_?protection_?key)[ \t]*=[ \t]*[^\n]*` -/
def keyRe : Capturing where
  group := .alt (secretName privateKey) (.alt (secretName presharedKey) (secretName protectionKey))
  after := .seq (.star isBlank)
    (.seq (.one (· == '=')) (.seq (.star isBlank) (.star (· != '\n'))))

def redacted : Str := " = [redacted]".toList

def scrubKeyMaterial (text : Str) : Str := keyRe.replaceAll (· ++ redacted) text

/-! ## Secret names -/

/-- The words in any case, with or without underscores between them. -/
inductive Spells : List Str → Str → Prop where
  | last {word t} (h : List.Forall₂ (foldsTo · · = true) word t) : Spells [word] t
  | joined {word next words t u} (h : List.Forall₂ (foldsTo · · = true) word t)
      (hrest : Spells (next :: words) u) : Spells (word :: next :: words) (t ++ u)
  | underscored {word next words t u} (h : List.Forall₂ (foldsTo · · = true) word t)
      (hrest : Spells (next :: words) u) : Spells (word :: next :: words) (t ++ '_' :: u)

def secretNames : List (List Str) := [privateKey, presharedKey, protectionKey]

def IsSecretName (t : Str) : Prop := ∃ words ∈ secretNames, Spells words t

theorem matches_ignoreCase {word t : Str} :
    (ignoreCase word).Matches t ↔ List.Forall₂ (foldsTo · · = true) word t := by
  induction word generalizing t with
  | nil => simp [ignoreCase, Regex.Matches]
  | cons letter word ih =>
    simp only [ignoreCase, Regex.Matches, ih, List.forall₂_cons_left_iff]
    constructor
    · rintro ⟨_, rest, rfl, ⟨c, hc, rfl⟩, hrest⟩
      exact ⟨c, rest, hc, hrest, rfl⟩
    · rintro ⟨c, rest, hc, hrest, rfl⟩
      exact ⟨[c], rest, rfl, ⟨c, hc, rfl⟩, hrest⟩

theorem matches_secretName {words : List Str} (hne : words ≠ []) {t : Str} :
    (secretName words).Matches t ↔ Spells words t := by
  induction words generalizing t with
  | nil => exact absurd rfl hne
  | cons word words ih =>
    cases words with
    | nil =>
      rw [secretName, matches_ignoreCase]
      refine ⟨.last, fun h => ?_⟩
      cases h with
      | last h => exact h
    | cons next words =>
      simp only [secretName, Regex.Matches, matches_ignoreCase, ih (List.cons_ne_nil _ _)]
      constructor
      · rintro ⟨t, _, rfl, ht, sep, u, rfl, ⟨c, hc, rfl⟩ | rfl, hu⟩
        · obtain rfl : c = '_' := by simpa using hc
          exact .underscored ht hu
        · exact .joined ht hu
      · intro h
        cases h with
        | joined ht hu => exact ⟨_, _, rfl, ht, [], _, rfl, .inr rfl, hu⟩
        | underscored ht hu => exact ⟨_, _, rfl, ht, ['_'], _, rfl, .inl ⟨'_', rfl, rfl⟩, hu⟩

theorem matches_group {t : Str} : keyRe.group.Matches t ↔ IsSecretName t := by
  simp [keyRe, Regex.Matches, IsSecretName, secretNames, matches_secretName, privateKey,
    presharedKey, protectionKey]

/-- The characters that can stand in a name. -/
def isNameChar (c : Char) : Bool := !isBlank c && c != '=' && c != '\n'

theorem isNameChar_of_foldsTo {letter c : Char} (h : foldsTo letter c = true)
    (hletter : isNameChar letter = true ∧ isNameChar letter.toUpper = true) :
    isNameChar c = true := by
  simp only [foldsTo, Bool.or_eq_true, Bool.and_eq_true, beq_iff_eq] at h
  rcases h with ((rfl | rfl) | ⟨-, rfl⟩) | ⟨-, rfl⟩
  · exact hletter.1
  · exact hletter.2
  · decide
  · decide

theorem isNameChar_of_spells {words : List Str} {t : Str} (h : Spells words t)
    (hwords : ∀ word ∈ words, ∀ letter ∈ word,
      isNameChar letter = true ∧ isNameChar letter.toUpper = true) :
    ∀ c ∈ t, isNameChar c = true := by
  have hword : ∀ {word t : Str}, List.Forall₂ (foldsTo · · = true) word t →
      (∀ letter ∈ word, isNameChar letter = true ∧ isNameChar letter.toUpper = true) →
      ∀ c ∈ t, isNameChar c = true := by
    intro word t h hletters
    induction h with
    | nil => simp
    | cons hc _ ih =>
      rw [List.forall_mem_cons] at hletters ⊢
      exact ⟨isNameChar_of_foldsTo hc hletters.1, ih hletters.2⟩
  induction h with
  | last h => exact hword h (hwords _ (by simp))
  | joined h _ ih =>
    rw [List.forall_mem_cons] at hwords
    exact List.forall_mem_append.mpr ⟨hword h hwords.1, ih hwords.2⟩
  | underscored h _ ih =>
    rw [List.forall_mem_cons] at hwords
    refine List.forall_mem_append.mpr ⟨hword h hwords.1, ?_⟩
    exact List.forall_mem_cons.mpr ⟨by decide, ih hwords.2⟩

theorem IsSecretName.isNameChar {t : Str} (h : IsSecretName t) : ∀ c ∈ t, isNameChar c = true := by
  obtain ⟨words, hwords, hspells⟩ := h
  have hletters : secretNames.all (·.all (·.all fun letter =>
      Awg.isNameChar letter && Awg.isNameChar letter.toUpper)) = true := by
    decide +kernel
  simp only [List.all_eq_true, Bool.and_eq_true] at hletters
  exact isNameChar_of_spells hspells (hletters words hwords)

theorem IsSecretName.ne_nil {t : Str} (h : IsSecretName t) : t ≠ [] := by
  obtain ⟨words, hwords, hspells⟩ := h
  have hne : ∀ words ∈ secretNames, [] ∉ words := by decide
  have hword : ∀ word ∈ words, ¬List.Forall₂ (foldsTo · · = true) word [] := by
    rintro word hword h
    cases h
    exact hne words hwords hword
  rintro rfl
  generalize hempty : ([] : Str) = t at hspells
  cases hspells with
  | last h => exact hword _ (by simp) (hempty ▸ h)
  | joined h _ | underscored h _ =>
    obtain ⟨rfl, -⟩ := List.append_eq_nil_iff.mp hempty.symm
    exact hword _ (by simp) h

/-! ## One line -/

/-- Blanks and an equals sign. -/
def opensValue (s : Str) : Bool := (s.dropWhile isBlank).head? == some '='

/-- The secret name that the text assigns to at its start. -/
def secretAt (s : Str) : Option Str :=
  if keyRe.group.accepts (s.takeWhile isNameChar) && opensValue (s.dropWhile isNameChar) then
    some (s.takeWhile isNameChar)
  else none

/-- The line up to its first assignment to a secret key. -/
def redact : Str → Str
  | [] => []
  | c :: s =>
    match secretAt (c :: s) with
    | some name => name ++ redacted
    | none => c :: redact s

theorem redact_cons (c : Char) (s : Str) :
    redact (c :: s) = (secretAt (c :: s)).elim (c :: redact s) (· ++ redacted) := by
  rw [redact.eq_def]
  dsimp only
  cases secretAt (c :: s) <;> rfl

section Runs

variable {p : Char → Bool} {s : Str}

/-- A run ends in the first part of a text if a character there stops it, or the second part
does. -/
theorem run_append {t : Str} (h : (∃ c ∈ s, p c = false) ∨ ∀ c ∈ t.head?, p c = false) :
    (s ++ t).takeWhile p = s.takeWhile p ∧ (s ++ t).dropWhile p = s.dropWhile p ++ t := by
  induction s with
  | nil => cases t <;> simp_all
  | cons c s ih =>
    cases hc : p c with
    | false => simp [hc]
    | true => simpa [hc] using ih (h.imp_left (by grind))

theorem run_followedBy (hp : p '\n' = false) (l : Str) (ls : List Str) :
    (l ++ followedBy ls).takeWhile p = l.takeWhile p ∧
      (l ++ followedBy ls).dropWhile p = l.dropWhile p ++ followedBy ls :=
  run_append (.inr (by cases ls <;> simp [followedBy, hp]))

theorem opensValue_followedBy (l : Str) (ls : List Str) :
    opensValue (l ++ followedBy ls) = opensValue l := by
  rw [opensValue, opensValue, (run_followedBy (by decide) l ls).2]
  cases l.dropWhile isBlank with
  | nil => cases ls <;> simp [followedBy]
  | cons c l => rfl

theorem secretAt_followedBy (l : Str) (ls : List Str) :
    secretAt (l ++ followedBy ls) = secretAt l := by
  obtain ⟨htake, hdrop⟩ := run_followedBy (p := isNameChar) (by decide) l ls
  rw [secretAt, htake, hdrop, opensValue_followedBy, secretAt]

end Runs

theorem isNameChar_of_opensValue {c : Char} {s : Str} (h : opensValue (c :: s) = true) :
    isNameChar c = false := by
  by_cases hc : isBlank c = true
  · simp [isNameChar, hc]
  · have heq : c = '=' := by simpa [opensValue, hc] using h
    rw [heq]
    rfl

/-- The only way to cut a text into a name and what opens a value. -/
theorem takeWhile_of_opensValue {name rest : Str} (hname : ∀ c ∈ name, isNameChar c = true)
    (hrest : opensValue rest = true) :
    (name ++ rest).takeWhile isNameChar = name ∧ (name ++ rest).dropWhile isNameChar = rest := by
  rw [List.takeWhile_append_of_pos hname, List.dropWhile_append_of_pos hname]
  cases rest with
  | nil => cases hrest
  | cons c rest => simp [isNameChar_of_opensValue hrest]

theorem secretAt_eq_some_iff {s name : Str} :
    secretAt s = some name ↔
      IsSecretName name ∧ ∃ rest, s = name ++ rest ∧ opensValue rest = true := by
  have hcut : secretAt s = some name ↔ (IsSecretName (s.takeWhile isNameChar) ∧
      opensValue (s.dropWhile isNameChar) = true) ∧ s.takeWhile isNameChar = name := by
    simp [secretAt, Regex.accepts_iff, matches_group]
  rw [hcut]
  constructor
  · rintro ⟨⟨hname, hrest⟩, rfl⟩
    exact ⟨hname, _, List.takeWhile_append_dropWhile.symm, hrest⟩
  · rintro ⟨hname, rest, rfl, hrest⟩
    obtain ⟨htake, hdrop⟩ := takeWhile_of_opensValue hname.isNameChar hrest
    rw [htake, hdrop]
    exact ⟨⟨hname, hrest⟩, rfl⟩

/-! ## The expression on a line -/

section After

variable {α : Type} {k : Str → Option α} {s : Str}

theorem dropWhile_isBlank (t : Str) :
    (t.dropWhile isBlank).dropWhile (· != '\n') = t.dropWhile (· != '\n') := by
  induction t with
  | nil => rfl
  | cons c t ih =>
    by_cases hc : isBlank c = true
    · have hne : c ≠ '\n' := by
        rintro rfl
        cases hc
      simpa [hc, hne] using ih
    · simp [hc]

/-- The rest of a match: it needs an equals sign and ends with the line. -/
theorem run_after (hk : ∀ t, (k t).isSome = true) :
    keyRe.after.run k s =
      if opensValue s then k ((s.dropWhile isBlank).dropWhile (· != '\n')) else none := by
  have hline : ∀ t, Regex.run (.seq (.star isBlank) (.star (· != '\n'))) k t =
      k (t.dropWhile (· != '\n')) := by
    intro t
    have hinner : Regex.run (.star (· != '\n')) k = fun t => k (t.dropWhile (· != '\n')) :=
      funext fun t => Regex.runStar_eq (.inl (hk _))
    rw [Regex.run, hinner, Regex.run,
      Regex.runStar_eq (k := fun t => k (t.dropWhile (· != '\n'))) (.inl (hk _)),
      dropWhile_isBlank]
  have hequals : ∀ c t, isBlank c = true → Regex.run (.seq (.one (· == '='))
      (.seq (.star isBlank) (.star (· != '\n')))) k (c :: t) = none := by
    intro c t hc
    have hne : c ≠ '=' := by
      rintro rfl
      cases hc
    simp [Regex.run, hne]
  rw [keyRe, Regex.run, Regex.run, Regex.runStar_eq (.inr hequals), opensValue]
  cases s.dropWhile isBlank with
  | nil => rfl
  | cons c rest =>
    rw [Regex.run, Regex.run]
    by_cases hc : c = '='
    · simp [hc, hline]
    · simp [hc]

end After

/-- The match at the start of a line. -/
theorem matchAt_line {l : Str} (hl : '\n' ∉ l) (ls : List Str) :
    keyRe.matchAt (l ++ followedBy ls) = (secretAt l).map (·, followedBy ls) := by
  generalize hs : l ++ followedBy ls = s
  have hafter (name rest : Str) : keyRe.after.run (fun s₂ => some (name, s₂)) rest =
      if opensValue rest then some (name, rest.dropWhile (· != '\n')) else none := by
    rw [run_after fun _ => rfl, dropWhile_isBlank]
  -- Any result of the group comes from the one cut of the text.
  have hcut {name rest : Str} (hname : IsSecretName name) (hrest : opensValue rest = true)
      (hcut : s = name ++ rest) : secretAt l = some name ∧ rest.dropWhile (· != '\n') =
        followedBy ls := by
    constructor
    · rw [← secretAt_followedBy l ls, hs]
      exact secretAt_eq_some_iff.mpr ⟨hname, rest, hcut, hrest⟩
    · have hchars : ∀ c ∈ name, (c != '\n') = true := fun c hc => by
        have := hname.isNameChar c hc
        grind [isNameChar]
      rw [← List.dropWhile_append_of_pos hchars, ← hcut, ← hs,
        List.dropWhile_append_of_pos (by grind)]
      cases ls <;> simp [followedBy]
  simp only [Capturing.matchAt, hafter]
  cases hrun : keyRe.group.run (fun s₁ => if opensValue s₁ then
      some (s.take (s.length - s₁.length), s₁.dropWhile (· != '\n')) else none) s with
  | none =>
    cases hsecret : secretAt l with
    | none => rfl
    | some name =>
      rw [← secretAt_followedBy l ls, hs] at hsecret
      obtain ⟨hname, rest, rfl, hrest⟩ := secretAt_eq_some_iff.mp hsecret
      exact absurd hrun (Regex.run_ne_none (matches_group.mpr hname) (by simp [hrest]))
  | some x =>
    obtain ⟨name, rest, hsplit, hname, hresult⟩ := Regex.run_eq_some hrun
    obtain ⟨hrest, hx⟩ := Option.ite_none_right_eq_some.mp hresult
    obtain ⟨hsecret, hend⟩ := hcut (matches_group.mp hname) hrest hsplit
    simp [hsecret, hend, hsplit, ← hx]

theorem replaceFrom_line (l : Str) (hl : '\n' ∉ l) (ls : List Str) :
    keyRe.replaceFrom (· ++ redacted) 0 (l ++ followedBy ls) =
      redact l ++ keyRe.replaceFrom (· ++ redacted) 0 (followedBy ls) := by
  induction l with
  | nil => rfl
  | cons c l ih =>
    have hmatch := matchAt_line hl ls
    rw [List.cons_append] at hmatch ⊢
    rw [Capturing.replaceFrom, hmatch, redact_cons]
    cases secretAt (c :: l) with
    | none => simpa using ih (by grind)
    | some name =>
      simp [Capturing.replaceFrom_length]

theorem scrubKeyMaterial_joinLines {ls : List Str} (h : AreLines ls) :
    scrubKeyMaterial (joinLines ls) = joinLines (ls.map redact) := by
  have hrest : ∀ ls : List Str, (∀ l ∈ ls, '\n' ∉ l) →
      keyRe.replaceFrom (· ++ redacted) 0 (followedBy ls) = followedBy (ls.map redact) := by
    intro ls hls
    induction ls with
    | nil => rfl
    | cons l ls ih =>
      have hnewline := matchAt_line (l := []) (by simp) (l :: ls)
      rw [List.nil_append, followedBy_cons] at hnewline
      rw [followedBy_cons, Capturing.replaceFrom, hnewline, joinLines_cons,
        show secretAt [] = none from rfl, Option.map_none,
        replaceFrom_line l (hls l (by simp)), ih fun l hl => hls l (by simp [hl])]
      rfl
  obtain ⟨l, ls, rfl⟩ := List.exists_cons_of_ne_nil h.ne_nil
  rw [scrubKeyMaterial, Capturing.replaceAll, joinLines_cons,
    replaceFrom_line l (h.newline_notMem l (by simp)), List.map_cons, joinLines_cons,
    hrest ls fun l hl => h.newline_notMem l (by simp [hl])]

/-! ## Noninterference -/

/-- The line assigns to a secret key, and ends with the equals sign. -/
def EndsInAssignment (l : Str) : Prop :=
  ∃ before name blanks, IsSecretName name ∧ (∀ c ∈ blanks, c = ' ' ∨ c = '\t') ∧
    l = before ++ name ++ blanks ++ ['=']

/-- The lines are the same, or differ only after an assignment to a secret key. -/
def SameButSecret (l l' : Str) : Prop :=
  l = l' ∨ ∃ shown value value', EndsInAssignment shown ∧ l = shown ++ value ∧ l' = shown ++ value'

theorem opensValue_append {s : Str} (h : ∃ c ∈ s, isBlank c = false) (t : Str) :
    opensValue (s ++ t) = opensValue s := by
  have hne : s.dropWhile isBlank ≠ [] := by simpa using h
  rw [opensValue, opensValue, (run_append (.inl h)).2, List.head?_append_of_ne_nil _ hne]

/-- An equals sign shows whether the text starts with an assignment. -/
theorem secretAt_append {s : Str} (h : '=' ∈ s) (t : Str) : secretAt (s ++ t) = secretAt s := by
  obtain ⟨htake, hdrop⟩ := run_append (p := isNameChar) (t := t) (.inl ⟨'=', h, rfl⟩)
  have hrest : '=' ∈ s.dropWhile isNameChar := by
    rw [← List.takeWhile_append_dropWhile (p := isNameChar) (l := s), List.mem_append] at h
    exact h.resolve_left fun hmem => absurd (List.mem_takeWhile_imp hmem) (by decide)
  rw [secretAt, htake, hdrop, opensValue_append ⟨'=', hrest, rfl⟩, secretAt]

theorem redact_of_secretAt {s name : Str} (h : secretAt s = some name) :
    redact s = name ++ redacted := by
  cases s with
  | nil => cases h
  | cons c s => rw [redact_cons, h, Option.elim_some]

theorem redact_assignment {shown : Str} (h : EndsInAssignment shown) (value : Str) :
    redact (shown ++ value) = redact shown := by
  obtain ⟨before, name, blanks, hname, hblanks, rfl⟩ := h
  have hopens : ∀ rest, opensValue (blanks ++ '=' :: rest) = true := by
    intro rest
    rw [opensValue, List.dropWhile_append_of_pos (by grind [isBlank])]
    rfl
  have hsecret : ∀ rest, secretAt (name ++ (blanks ++ '=' :: rest)) = some name := fun rest =>
    secretAt_eq_some_iff.mpr ⟨hname, _, rfl, hopens rest⟩
  simp only [List.append_assoc, List.cons_append, List.nil_append]
  induction before with
  | nil => rw [List.nil_append, List.nil_append, redact_of_secretAt (hsecret _),
      redact_of_secretAt (hsecret _)]
  | cons c before ih =>
    have hsame :=
      secretAt_append (s := c :: (before ++ (name ++ (blanks ++ ['='])))) (by simp) value
    simp only [List.append_assoc, List.cons_append, List.nil_append] at hsame ⊢
    rw [redact_cons, redact_cons, hsame, ih]

/-! ## Idempotence -/

/-- Where a value opens after a name, it does not matter which value it is. -/
theorem secretAt_append_of_opensValue {s t t' : Str} {c : Char} (hc : isBlank c = false)
    (ht : opensValue t = true) (ht' : opensValue t' = true) :
    secretAt (s ++ [c] ++ t) = secretAt (s ++ [c] ++ t') := by
  have hview : ∀ {t}, opensValue t = true → secretAt (s ++ [c] ++ t) =
      if keyRe.group.accepts ((s ++ [c]).takeWhile isNameChar) &&
          ((s ++ [c]).dropWhile isNameChar == [] ||
            opensValue ((s ++ [c]).dropWhile isNameChar)) then
        some ((s ++ [c]).takeWhile isNameChar) else none := by
    intro t ht
    have hstop : ∀ d ∈ t.head?, isNameChar d = false := by
      intro d hd
      obtain ⟨rest, rfl⟩ := List.head?_eq_some_iff.mp hd
      exact isNameChar_of_opensValue ht
    obtain ⟨htake, hdrop⟩ := run_append (p := isNameChar) (s := s ++ [c]) (.inr hstop)
    rw [secretAt, htake, hdrop]
    by_cases hempty : (s ++ [c]).dropWhile isNameChar = []
    · simp [hempty, ht]
    · have hlast : c ∈ (s ++ [c]).dropWhile isNameChar := by
        obtain ⟨run, hrun⟩ := List.dropWhile_suffix (l := s ++ [c]) isNameChar
        refine List.mem_of_getLast? ?_
        rw [← List.getLast?_append_of_ne_nil run hempty, hrun]
        simp
      simp [hempty, opensValue_append ⟨c, hlast, hc⟩]
  rw [hview ht, hview ht']

/-- What is left of a line: all of it, or its part before the first value. -/
theorem redact_cases (l : Str) :
    redact l = l ∨ ∃ s c t, l = s ++ [c] ++ t ∧ isBlank c = false ∧ opensValue t = true ∧
      redact l = s ++ [c] ++ redacted := by
  induction l with
  | nil => exact .inl rfl
  | cons d l ih =>
    cases hsecret : secretAt (d :: l) with
    | none =>
      rw [redact_cons, hsecret, Option.elim_none]
      rcases ih with hsame | ⟨s, c, t, hl, hc, ht, heq⟩
      · exact .inl (congrArg (d :: ·) hsame)
      · exact .inr ⟨d :: s, c, t, by simp [hl], hc, ht, by simp [heq]⟩
    | some name =>
      obtain ⟨hname, rest, hcut, hrest⟩ := secretAt_eq_some_iff.mp hsecret
      obtain ⟨s, c, rfl⟩ := (List.eq_nil_or_concat name).resolve_left hname.ne_nil
      rw [List.concat_eq_append] at *
      have hc := hname.isNameChar c (by simp)
      exact .inr ⟨s, c, rest, hcut, by grind [isNameChar], hrest, redact_of_secretAt hsecret⟩

theorem redact_idempotent (l : Str) : redact (redact l) = redact l := by
  induction l with
  | nil => rfl
  | cons c l ih =>
    cases hsecret : secretAt (c :: l) with
    | none =>
      have hnone : secretAt (c :: redact l) = none := by
        rcases redact_cases l with hsame | ⟨s, d, t, rfl, hd, ht, heq⟩
        · rwa [hsame]
        · rw [heq, ← hsecret]
          exact secretAt_append_of_opensValue (s := c :: s) hd (by decide) ht
      rw [redact_cons, hsecret, Option.elim_none, redact_cons, hnone, Option.elim_none, ih]
    | some name =>
      obtain ⟨hname, -⟩ := secretAt_eq_some_iff.mp hsecret
      have hagain : secretAt (name ++ redacted) = some name :=
        secretAt_eq_some_iff.mpr ⟨hname, redacted, rfl, by decide⟩
      rw [redact_of_secretAt hsecret, redact_of_secretAt hagain]

/-! ## Texts -/

theorem newline_notMem_redact {l : Str} (h : '\n' ∉ l) : '\n' ∉ redact l := by
  induction l with
  | nil => exact h
  | cons c l ih =>
    rw [redact_cons]
    cases hsecret : secretAt (c :: l) with
    | none => simpa using ⟨by grind, ih (by grind)⟩
    | some name =>
      obtain ⟨hname, -⟩ := secretAt_eq_some_iff.mp hsecret
      refine List.not_mem_append (fun hmem => ?_) (by decide)
      exact absurd (hname.isNameChar _ hmem) (by decide)

theorem SameButSecret.redact_eq {l l' : Str} (h : SameButSecret l l') : redact l = redact l' := by
  rcases h with rfl | ⟨shown, value, value', hshown, rfl, rfl⟩
  · rfl
  · rw [redact_assignment hshown, redact_assignment hshown]

/-- Texts whose lines differ only in values of secret keys are scrubbed to the same text, and
scrubbing twice is scrubbing once. -/
theorem scrubKeyMaterial_hides :
    (∀ a b : Str, List.Forall₂ SameButSecret (lines a) (lines b) →
      scrubKeyMaterial a = scrubKeyMaterial b) ∧
    ∀ t : Str, scrubKeyMaterial (scrubKeyMaterial t) = scrubKeyMaterial t := by
  have hscrub : ∀ t, scrubKeyMaterial t = joinLines ((lines t).map redact) := by
    intro t
    rw [← scrubKeyMaterial_joinLines (areLines_lines t), joinLines_lines]
  constructor
  · intro a b h
    have hmap : List.Forall₂ (· = ·) ((lines a).map redact) ((lines b).map redact) :=
      List.forall₂_map_left_iff.mpr (List.forall₂_map_right_iff.mpr
        (h.imp fun _ _ hline => hline.redact_eq))
    rw [List.forall₂_eq_eq_eq] at hmap
    rw [hscrub, hscrub, hmap]
  · intro t
    have hlines : AreLines ((lines t).map redact) :=
      (areLines_lines t).map fun l => newline_notMem_redact
    rw [hscrub t, scrubKeyMaterial_joinLines hlines, List.map_map]
    simp [Function.comp_def, redact_idempotent]

/-- Two values of one key. -/
theorem scrubKeyMaterial_hides_presharedKey :
    let a := "[Peer]\nunrecognized: PRESHARED_KEY \t= AAAA=\n".toList
    let b := "[Peer]\nunrecognized: PRESHARED_KEY \t=other\n".toList
    scrubKeyMaterial a = scrubKeyMaterial b ∧
      scrubKeyMaterial (scrubKeyMaterial a) = scrubKeyMaterial a := by
  intro a b
  have ha : lines a = ["[Peer]".toList, "unrecognized: PRESHARED_KEY \t= AAAA=".toList, []] := by
    decide +kernel
  have hb : lines b = ["[Peer]".toList, "unrecognized: PRESHARED_KEY \t=other".toList, []] := by
    decide +kernel
  have hname : IsSecretName "PRESHARED_KEY".toList :=
    matches_group.mp (Regex.accepts_iff.mp (by decide +kernel))
  refine ⟨scrubKeyMaterial_hides.1 a b ?_, scrubKeyMaterial_hides.2 a⟩
  rw [ha, hb]
  refine .cons (.inl rfl) (.cons (.inr ?_) (.cons (.inl rfl) .nil))
  refine ⟨"unrecognized: PRESHARED_KEY \t=".toList, " AAAA=".toList, "other".toList, ?_, rfl, rfl⟩
  refine ⟨"unrecognized: ".toList, _, " \t".toList, hname, ?_, by decide +kernel⟩
  exact of_literal (P := fun blanks => ∀ c ∈ blanks, c = ' ' ∨ c = '\t') rfl (by simp)

end PartnerEdge.Awg
