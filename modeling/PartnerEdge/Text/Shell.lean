import PartnerEdge.Text.Utf8

/-!
# Shell words

How a POSIX shell reads a script that has only words: single quotes, backslashes, blanks and
newlines. At any other byte that means something to a shell the reader gives up, so that what it
reads has no expansion, redirection, comment or compound command.
-/

namespace PartnerEdge.Text.Shell

/-- The bytes of a word, each with whether it was quoted. -/
abbrev Word := List (UInt8 × Bool)

inductive Mode where
  | plain
  | quoted
  | escaped
deriving DecidableEq, Repr

structure Reader where
  commands : List (List Word)
  words : List Word
  /-- The word that is being read; none between words. -/
  word : Option Word
  mode : Mode
deriving DecidableEq, Repr

def quote : UInt8 := '\''.toUInt8

def backslash : UInt8 := '\\'.toUInt8

def newline : UInt8 := '\n'.toUInt8

def equals : UInt8 := '='.toUInt8

def isBlank (b : UInt8) : Bool := b == ' '.toUInt8 || b == '\t'.toUInt8

/-- Bytes that mean something outside of quotes, other than those that the reader knows. -/
def isSpecial (b : UInt8) : Bool :=
  b == 0 || ("\"$\x60;&|<>()#*?[]~!\x7b\x7d%".toList.map Char.toUInt8).contains b

namespace Reader

def start : Reader := ⟨[], [], none, .plain⟩

def put (r : Reader) (b : UInt8) (isQuoted : Bool) : Reader :=
  { r with word := some (r.word.getD [] ++ [(b, isQuoted)]) }

def endWord (r : Reader) : Reader :=
  match r.word with
  | some w => { r with words := r.words ++ [w], word := none }
  | none => r

def endCommand (r : Reader) : Reader :=
  if r.endWord.words.isEmpty then r.endWord
  else { r.endWord with commands := r.commands ++ [r.endWord.words], words := [] }

def step (r : Reader) (b : UInt8) : Option Reader :=
  match r.mode with
  | .quoted =>
    if b = 0 then none
    else if b = quote then some { r with mode := .plain }
    else some (r.put b true)
  | .escaped =>
    if b = 0 then none
    -- a line goes on after a backslash
    else if b = newline then some { r with mode := .plain }
    else some { r.put b true with mode := .plain }
  | .plain =>
    if isSpecial b then none
    -- quotes begin a word, even if there is nothing in them
    else if b = quote then some { r with mode := .quoted, word := some (r.word.getD []) }
    else if b = backslash then some { r with mode := .escaped }
    else if b = newline then some r.endCommand
    else if isBlank b then some r.endWord
    else some (r.put b false)

end Reader

/-- The commands of a script, as lists of words. -/
def readCommands (script : List UInt8) : Option (List (List Word)) := do
  let r ← script.foldlM Reader.step .start
  if r.mode = .plain then some r.endCommand.commands else none

def isNameStart (b : UInt8) : Bool := (Char.ofUInt8 b).isAlpha || b == '_'.toUInt8

def isNameByte (b : UInt8) : Bool := isNameStart b || (Char.ofUInt8 b).isDigit

def isName (name : List UInt8) : Bool := name.head?.any isNameStart && name.all isNameByte

/-- A command that is one assignment: the name and the value without its quotes. -/
def assignment : List Word → Option (List UInt8 × List UInt8)
  | [w] =>
    let name := w.takeWhile (· != (equals, false))
    match w.dropWhile (· != (equals, false)) with
    | _ :: value =>
      if isName (name.map Prod.fst) && name.all (!·.2) then
        some (name.map Prod.fst, value.map Prod.fst)
      else none
    | [] => none
  | _ => none

/-- The assignments of a script that has nothing else. -/
def readAssignments (script : List UInt8) : Option (List (List UInt8 × List UInt8)) :=
  (readCommands script).bind fun commands => commands.mapM assignment

/-! ## Quoting -/

/-- A byte between single quotes: a quote closes them, stands escaped and opens them again. -/
def escapeByte (b : UInt8) : List UInt8 :=
  if b = quote then [quote, backslash, quote, quote] else [b]

def singleQuote (s : List UInt8) : List UInt8 := quote :: (s.flatMap escapeByte ++ [quote])

variable {commands : List (List Word)} {words : List Word} {w : Word} {name value : List UInt8}

theorem foldlM_step_escapeByte {b : UInt8} (hb : b ≠ 0) :
    (escapeByte b).foldlM Reader.step ⟨commands, words, some w, .quoted⟩ =
      some ⟨commands, words, some (w ++ [(b, true)]), .quoted⟩ := by
  unfold escapeByte
  split
  · next hquote =>
    subst hquote
    rfl
  · next hquote =>
    have hstep : Reader.step ⟨commands, words, some w, .quoted⟩ b =
        some ⟨commands, words, some (w ++ [(b, true)]), .quoted⟩ := by
      simp [Reader.step, Reader.put, hb, hquote]
    rw [List.foldlM_cons, hstep]
    rfl

theorem foldlM_step_escaped (h : 0 ∉ value) :
    (value.flatMap escapeByte).foldlM Reader.step ⟨commands, words, some w, .quoted⟩ =
      some ⟨commands, words, some (w ++ value.map (·, true)), .quoted⟩ := by
  induction value generalizing w with
  | nil => simp
  | cons b value ih =>
    rw [List.mem_cons, not_or] at h
    rw [List.flatMap_cons, List.foldlM_append, foldlM_step_escapeByte (Ne.symm h.1),
      Option.bind_eq_bind, Option.bind_some, ih h.2]
    simp

theorem flatMap_escapeByte_of_notMem (h : quote ∉ value) : value.flatMap escapeByte = value := by
  have hself : ∀ b ∈ value, escapeByte b = [b] := by
    intro b hb
    have hne : b ≠ quote := by
      rintro rfl
      exact h hb
    exact if_neg hne
  rw [List.flatMap_congr hself, List.flatMap_singleton']

/-- Between single quotes a text is read as it is. -/
theorem foldlM_step_singleQuote (h : 0 ∉ value) :
    (singleQuote value).foldlM Reader.step ⟨commands, words, some w, .plain⟩ =
      some ⟨commands, words, some (w ++ value.map (·, true)), .plain⟩ := by
  have hopen : Reader.step ⟨commands, words, some w, .plain⟩ quote =
      some ⟨commands, words, some w, .quoted⟩ := rfl
  rw [singleQuote, List.foldlM_cons, hopen, Option.bind_eq_bind, Option.bind_some,
    List.foldlM_append, foldlM_step_escaped h]
  rfl

theorem isNameByte_plain {b : UInt8} (h : isNameByte b = true) : isSpecial b = false ∧
    b ≠ quote ∧ b ≠ backslash ∧ b ≠ newline ∧ isBlank b = false ∧ b ≠ equals := by
  have hall : ∀ n : Fin 256, isNameByte (.ofFin n) = true → isSpecial (.ofFin n) = false ∧
      UInt8.ofFin n ≠ quote ∧ UInt8.ofFin n ≠ backslash ∧ UInt8.ofFin n ≠ newline ∧
      isBlank (.ofFin n) = false ∧ UInt8.ofFin n ≠ equals := by
    decide +kernel
  exact hall b.toFin h

theorem step_nameByte {b : UInt8} {o : Option Word} (h : isNameByte b = true) :
    Reader.step ⟨commands, words, o, .plain⟩ b =
      some ⟨commands, words, some (o.getD [] ++ [(b, false)]), .plain⟩ := by
  obtain ⟨hspecial, hquote, hbackslash, hnewline, hblank, -⟩ := isNameByte_plain h
  simp [Reader.step, Reader.put, hspecial, hquote, hbackslash, hnewline, hblank]

theorem foldlM_step_name (h : name.all isNameByte = true) :
    name.foldlM Reader.step ⟨commands, words, some w, .plain⟩ =
      some ⟨commands, words, some (w ++ name.map (·, false)), .plain⟩ := by
  induction name generalizing w with
  | nil => simp
  | cons b name ih =>
    rw [List.all_cons, Bool.and_eq_true] at h
    rw [List.foldlM_cons, step_nameByte h.1, Option.bind_eq_bind, Option.bind_some, ih h.2]
    simp

/-- A line that assigns a quoted value. -/
def assignmentLine (name value : List UInt8) : List UInt8 :=
  name ++ equals :: (singleQuote value ++ [newline])

/-- The word of such a line. -/
def assignmentWord (name value : List UInt8) : Word :=
  name.map (·, false) ++ (equals, false) :: value.map (·, true)

theorem foldlM_step_assignmentLine (hname : isName name = true) (hvalue : 0 ∉ value) :
    (assignmentLine name value).foldlM Reader.step ⟨commands, [], none, .plain⟩ =
      some ⟨commands ++ [[assignmentWord name value]], [], none, .plain⟩ := by
  cases name with
  | nil => cases hname
  | cons b name =>
    have hbytes := (Bool.and_eq_true_iff.1 hname).2
    rw [List.all_cons, Bool.and_eq_true] at hbytes
    have hequals (w : Word) : Reader.step ⟨commands, [], some w, .plain⟩ equals =
        some ⟨commands, [], some (w ++ [(equals, false)]), .plain⟩ := rfl
    have hend (w : Word) : Reader.step ⟨commands, [], some w, .plain⟩ newline =
        some ⟨commands ++ [[w]], [], none, .plain⟩ := rfl
    rw [assignmentLine, List.cons_append, List.foldlM_cons, step_nameByte hbytes.1]
    simp only [Option.bind_eq_bind, Option.bind_some, List.foldlM_append, List.foldlM_cons,
      List.foldlM_nil, foldlM_step_name hbytes.2, hequals, foldlM_step_singleQuote hvalue, hend]
    simp [assignmentWord]

theorem assignment_assignmentWord (hname : isName name = true) :
    assignment [assignmentWord name value] = some (name, value) := by
  have hne : ∀ x ∈ name.map (·, false), (x != (equals, false)) = true := by
    intro x hx
    obtain ⟨b, hb, rfl⟩ := List.mem_map.1 hx
    have hbyte := List.all_eq_true.1 (Bool.and_eq_true_iff.1 hname).2 b hb
    simpa using (isNameByte_plain hbyte).2.2.2.2.2
  have htake : (assignmentWord name value).takeWhile (· != (equals, false)) =
      name.map (·, false) := by
    rw [assignmentWord, List.takeWhile_append_of_pos hne]
    simp
  have hdrop : (assignmentWord name value).dropWhile (· != (equals, false)) =
      (equals, false) :: value.map (·, true) := by
    rw [assignmentWord, List.dropWhile_append_of_pos hne]
    simp
  rw [assignment, htake, hdrop]
  simp [hname, Function.comp_def]

section Script

variable {pairs : List (List UInt8 × List UInt8)}

theorem foldlM_step_lines (hnames : ∀ p ∈ pairs, isName p.1 = true)
    (hvalues : ∀ p ∈ pairs, 0 ∉ p.2) :
    (pairs.flatMap fun p => assignmentLine p.1 p.2).foldlM Reader.step
      ⟨commands, [], none, .plain⟩ =
      some ⟨commands ++ pairs.map fun p => [assignmentWord p.1 p.2], [], none, .plain⟩ := by
  induction pairs generalizing commands with
  | nil => simp
  | cons p pairs ih =>
    rw [List.forall_mem_cons] at hnames hvalues
    rw [List.flatMap_cons, List.foldlM_append, foldlM_step_assignmentLine hnames.1 hvalues.1,
      Option.bind_eq_bind, Option.bind_some, ih hnames.2 hvalues.2]
    simp

theorem mapM_assignment (hnames : ∀ p ∈ pairs, isName p.1 = true) :
    (pairs.map fun p => [assignmentWord p.1 p.2]).mapM assignment = some pairs := by
  induction pairs with
  | nil => rfl
  | cons p pairs ih =>
    rw [List.forall_mem_cons] at hnames
    rw [List.map_cons, List.mapM_cons, assignment_assignmentWord hnames.1, ih hnames.2]
    rfl

/-- A script of such lines is read as these assignments and nothing else. -/
theorem readAssignments_lines (hnames : ∀ p ∈ pairs, isName p.1 = true)
    (hvalues : ∀ p ∈ pairs, 0 ∉ p.2) :
    readAssignments (pairs.flatMap fun p => assignmentLine p.1 p.2) = some pairs := by
  have hcommands : readCommands (pairs.flatMap fun p => assignmentLine p.1 p.2) =
      some (pairs.map fun p => [assignmentWord p.1 p.2]) := by
    rw [readCommands, Reader.start, foldlM_step_lines hnames hvalues]
    rfl
  rw [readAssignments, hcommands, Option.bind_some, mapM_assignment hnames]

end Script

end PartnerEdge.Text.Shell
