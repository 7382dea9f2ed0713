import PartnerEdge.Text.Lines

/-!
# Multi-line patterns

A fragment of regular expressions with the leftmost-first meaning of a backtracking matcher: single
characters, greedy repetitions of a character class, and the two line anchors. A line starts at the
beginning of the text or after a newline, and ends at the end of the text or before a newline. A
pattern has one capture group.

For a pattern that only matches whole lines, searching and replacing in the text are the same as
searching and replacing in its list of lines.
-/

namespace PartnerEdge.Text

inductive Atom where
  | lineStart
  | lineEnd
  | char (c : Char)
  | star (p : Char → Bool)

def atLineStart (prev : Option Char) : Bool := prev.all (· == '\n')

def atLineEnd : Str → Bool
  | [] => true
  | c :: _ => c == '\n'

section Matching

variable {α : Type*}

/-- As many characters of the class as possible, giving them back one by one until the
continuation `k` succeeds. The continuation sees the previous character and the remaining text. -/
def greedy (p : Char → Bool) (k : Option Char → Str → Option α) : Option Char → Str → Option α
  | prev, [] => k prev []
  | prev, c :: s => if p c then (greedy p k (some c) s).or (k prev (c :: s)) else k prev (c :: s)

def Atom.run (k : Option Char → Str → Option α) : Atom → Option Char → Str → Option α
  | .lineStart, prev, s => if atLineStart prev then k prev s else none
  | .lineEnd, prev, s => if atLineEnd s then k prev s else none
  | .char _, _, [] => none
  | .char c, _, x :: s => if x = c then k (some x) s else none
  | .star p, prev, s => greedy p k prev s

def runAtoms : List Atom → (Option Char → Str → Option α) → Option Char → Str → Option α
  | [], k => k
  | a :: as, k => a.run (runAtoms as k)

end Matching

structure Pattern where
  before : List Atom
  group : List Atom
  after : List Atom

/-- What the group captured and the text after the match. -/
structure Match where
  group : Str
  rest : Str
deriving DecidableEq, Repr

namespace Pattern

variable (P : Pattern)

/-- The match that begins at the start of `s`, where `prev` is the character before it. -/
def matchAt (prev : Option Char) (s : Str) : Option Match :=
  runAtoms P.before (fun prev s₁ =>
    runAtoms P.group (fun prev s₂ =>
      runAtoms P.after (fun _ s₃ => some ⟨s₁.take (s₁.length - s₂.length), s₃⟩) prev s₂)
      prev s₁) prev s

/-- The leftmost match. -/
def findFrom : Option Char → Str → Option Match
  | prev, [] => P.matchAt prev []
  | prev, c :: s => (P.matchAt prev (c :: s)).or (findFrom (some c) s)

def find (s : Str) : Option Match := P.findFrom none s

/-- Every match, from the left and without overlaps, replaced by `line`; the first `skip` characters
belong to a match that was already replaced. An empty match is not replaced. -/
def replaceFrom (line : Str) : Nat → Option Char → Str → Str
  | _, _, [] => []
  | skip + 1, _, c :: s => replaceFrom line skip (some c) s
  | 0, prev, c :: s =>
    match P.matchAt prev (c :: s) with
    | some m =>
      if m.rest.length ≤ s.length then
        line ++ replaceFrom line (s.length - m.rest.length) (some c) s
      else c :: replaceFrom line 0 (some c) s
    | none => c :: replaceFrom line 0 (some c) s

def replaceAll (line s : Str) : Str := P.replaceFrom line 0 none s

/-! ## Patterns of whole lines -/

/-- The pattern matches exactly the lines on which `capture` succeeds, each from its start to its
end, and the group captures what `capture` returns. -/
structure MatchesLines (capture : Str → Option Str) : Prop where
  line : ∀ {prev l s}, '\n' ∉ l → atLineStart prev = true → atLineEnd s = true →
    P.matchAt prev (l ++ s) = (capture l).map (⟨·, s⟩)
  inner : ∀ {prev s}, atLineStart prev = false → P.matchAt prev s = none
  nil : capture [] = none

end Pattern

theorem atLineEnd_followedBy (ls : List Str) : atLineEnd (followedBy ls) = true := by
  cases ls with
  | nil => rfl
  | cons l ls => simp [followedBy_cons, atLineEnd]

namespace Pattern.MatchesLines

variable {P : Pattern} {capture : Str → Option Str}

theorem replaceFrom_skip (line : Str) {u : Str} {prev : Option Char} (s : Str) :
    P.replaceFrom line u.length prev (u ++ s) = P.replaceFrom line 0 (u.getLast?.or prev) s := by
  induction u generalizing prev with
  | nil => rfl
  | cons c u ih =>
    rw [List.length_cons, List.cons_append, replaceFrom, ih]
    cases u with
    | nil => rfl
    | cons d u => simp [List.getLast?_cons]

variable (h : P.MatchesLines capture)
include h

/-- Nothing matches from inside a line to its end; the search goes on with the next line. -/
theorem findFrom_inner {l : Str} (hl : '\n' ∉ l) (ls : List Str) {prev : Option Char}
    (hprev : atLineStart prev = false) :
    P.findFrom prev (l ++ followedBy ls) =
      match ls with
      | [] => none
      | l' :: ls => P.findFrom (some '\n') (joinLines (l' :: ls)) := by
  induction l generalizing prev with
  | nil =>
    cases ls with
    | nil => simp [findFrom, h.inner hprev]
    | cons l' ls => simp [followedBy_cons, findFrom, h.inner hprev]
  | cons c l ih =>
    have hc : c ≠ '\n' := by grind
    rw [List.cons_append, findFrom, h.inner hprev]
    exact ih (by grind) (by simpa [atLineStart] using hc)

/-- The search in a text that starts a line. -/
theorem findFrom_joinLines_cons {l : Str} (hl : '\n' ∉ l) (ls : List Str) {prev : Option Char}
    (hprev : atLineStart prev = true) :
    P.findFrom prev (joinLines (l :: ls)) =
      match capture l, ls with
      | some g, ls => some ⟨g, followedBy ls⟩
      | none, [] => none
      | none, l' :: ls => P.findFrom (some '\n') (joinLines (l' :: ls)) := by
  have hmatch := h.line hl hprev (atLineEnd_followedBy ls)
  rw [joinLines_cons]
  cases hcapture : capture l with
  | some g =>
    simp only [hcapture, Option.map_some] at hmatch
    cases htext : l ++ followedBy ls with
    | nil => simpa [findFrom, htext] using hmatch
    | cons c s =>
      rw [htext] at hmatch
      simp [findFrom, hmatch]
  | none =>
    simp only [hcapture, Option.map_none] at hmatch
    cases l with
    | nil =>
      cases ls with
      | nil => simpa [findFrom] using hmatch
      | cons l' ls =>
        rw [List.nil_append, followedBy_cons] at hmatch ⊢
        simp [findFrom, hmatch]
    | cons c l =>
      have hc : c ≠ '\n' := by grind
      rw [List.cons_append] at hmatch ⊢
      rw [findFrom, hmatch, Option.none_or,
        h.findFrom_inner (by grind) ls (by simpa [atLineStart] using hc)]
      cases ls <;> rfl

theorem find_eq_none {ls : List Str} (hls : AreLines ls) (hnone : ∀ l ∈ ls, capture l = none) :
    P.find (joinLines ls) = none := by
  have hfrom : ∀ prev, atLineStart prev = true → P.findFrom prev (joinLines ls) = none := by
    induction ls with
    | nil => exact absurd rfl hls.ne_nil
    | cons l ls ih =>
      intro prev hprev
      rw [h.findFrom_joinLines_cons (hls.newline_notMem l (by simp)) ls hprev, hnone l (by simp)]
      cases ls with
      | nil => rfl
      | cons l' ls =>
        refine ih (hls.of_cons (by simp)) (fun x hx => hnone x (List.mem_cons_of_mem _ hx)) _ rfl
  exact hfrom none rfl

/-- The match is on the first line that `capture` accepts, and ends where the line ends. -/
theorem find_eq_some {before after : List Str} {l g : Str} (hls : AreLines (before ++ l :: after))
    (hbefore : ∀ b ∈ before, capture b = none) (hl : capture l = some g) :
    P.find (joinLines (before ++ l :: after)) = some ⟨g, followedBy after⟩ := by
  have hfrom : ∀ prev, atLineStart prev = true →
      P.findFrom prev (joinLines (before ++ l :: after)) = some ⟨g, followedBy after⟩ := by
    induction before with
    | nil =>
      intro prev hprev
      rw [List.nil_append, h.findFrom_joinLines_cons (hls.newline_notMem l (by simp)) after hprev,
        hl]
    | cons b before ih =>
      intro prev hprev
      rw [List.cons_append, h.findFrom_joinLines_cons (hls.newline_notMem b (by simp)) _ hprev,
        hbefore b (by simp)]
      have hrest := ih (hls.of_cons (by simp)) fun x hx => hbefore x (List.mem_cons_of_mem _ hx)
      cases before <;> exact hrest _ rfl
  exact hfrom none rfl

/-- What the group captures in a text. -/
theorem find_group (t : Str) : (P.find t).map Match.group = (lines t).findSome? capture := by
  have hls := areLines_lines t
  rw [← joinLines_lines t, lines_joinLines hls]
  generalize lines t = ls at hls
  cases hfirst : ls.findSome? capture with
  | none =>
    rw [h.find_eq_none hls (List.findSome?_eq_none_iff.mp hfirst)]
    rfl
  | some g =>
    obtain ⟨before, l, after, rfl, hl, hbefore⟩ := List.findSome?_eq_some_iff.mp hfirst
    rw [h.find_eq_some hls hbefore hl]
    rfl

/-! ## Replacing -/

/-- Inside a line nothing is replaced up to the next line. -/
theorem replaceFrom_inner (line : Str) {l : Str} (hl : '\n' ∉ l) (ls : List Str)
    {prev : Option Char} (hprev : atLineStart prev = false) :
    P.replaceFrom line 0 prev (l ++ followedBy ls) =
      l ++ match ls with
        | [] => []
        | l' :: ls => '\n' :: P.replaceFrom line 0 (some '\n') (joinLines (l' :: ls)) := by
  induction l generalizing prev with
  | nil => cases ls <;> simp [followedBy_cons, replaceFrom, h.inner hprev]
  | cons c l ih =>
    have hc : c ≠ '\n' := by grind
    rw [List.cons_append, replaceFrom, h.inner hprev]
    simp [ih (by grind) (show atLineStart (some c) = false by simpa [atLineStart] using hc)]

theorem replaceFrom_joinLines_cons (line : Str) {l : Str} (hl : '\n' ∉ l) (ls : List Str)
    {prev : Option Char} (hprev : atLineStart prev = true) :
    P.replaceFrom line 0 prev (joinLines (l :: ls)) =
      (if (capture l).isSome then line else l) ++ match ls with
        | [] => []
        | l' :: ls => '\n' :: P.replaceFrom line 0 (some '\n') (joinLines (l' :: ls)) := by
  have hmatch := h.line hl hprev (atLineEnd_followedBy ls)
  rw [joinLines_cons]
  cases l with
  | nil =>
    rw [h.nil] at hmatch ⊢
    cases ls with
    | nil => rfl
    | cons l' ls =>
      rw [List.nil_append, followedBy_cons] at hmatch ⊢
      simp [replaceFrom, hmatch]
  | cons c l =>
    have hc : c ≠ '\n' := by grind
    have hl : '\n' ∉ l := by grind
    rw [List.cons_append] at hmatch ⊢
    rw [replaceFrom, hmatch]
    cases hcapture : capture (c :: l) with
    | none =>
      simp [h.replaceFrom_inner line hl ls
        (show atLineStart (some c) = false by simpa [atLineStart] using hc)]
    | some g =>
      -- The rest of the line belongs to the match; after it the line ends.
      have hlast : atLineStart (l.getLast?.or (some c)) = false := by
        cases hlast : l.getLast? with
        | none => simpa [atLineStart] using hc
        | some d =>
          have := List.mem_of_getLast? hlast
          simp [atLineStart]
          grind
      have hskip : P.replaceFrom line l.length (some c) (l ++ followedBy ls) = _ :=
        (replaceFrom_skip line _).trans (h.replaceFrom_inner line (by simp : '\n' ∉ []) ls hlast)
      simp [hskip]

/-- Replacing every match replaces every line that `capture` accepts. -/
theorem replaceAll_joinLines (line : Str) {ls : List Str} (hls : AreLines ls) :
    P.replaceAll line (joinLines ls) =
      joinLines (ls.map fun l => if (capture l).isSome then line else l) := by
  have hfrom : ∀ prev, atLineStart prev = true → P.replaceFrom line 0 prev (joinLines ls) =
      joinLines (ls.map fun l => if (capture l).isSome then line else l) := by
    induction ls with
    | nil => exact absurd rfl hls.ne_nil
    | cons l ls ih =>
      intro prev hprev
      rw [h.replaceFrom_joinLines_cons line (hls.newline_notMem l (by simp)) ls hprev,
        List.map_cons, joinLines_cons]
      cases ls with
      | nil => rfl
      | cons l' ls =>
        have hrest := ih (hls.of_cons (by simp)) (some '\n') rfl
        simp only [hrest]
        rw [List.map_cons, ← followedBy_cons]
  exact hfrom none rfl

end Pattern.MatchesLines

/-! ## Greedy repetitions -/

section Greedy

variable {α : Type*} {p : Char → Bool} {k : Option Char → Str → Option α}

/-- A repetition that must not stop early: the continuation fails before a character of the
class. -/
theorem greedy_eq_of_none (hprev : ∀ prev prev' s, k prev s = k prev' s)
    (hnone : ∀ prev c s, p c = true → k prev (c :: s) = none) (prev : Option Char) (s : Str) :
    greedy p k prev s = k none (s.dropWhile p) := by
  induction s generalizing prev with
  | nil => exact hprev _ _ _
  | cons c s ih =>
    rw [greedy]
    split
    · next hc => simp [ih, hnone _ _ _ hc, hc]
    · next hc => simp [hc, hprev prev none]

/-- A repetition that never gives back: the continuation succeeds everywhere. -/
theorem greedy_eq_of_some (hprev : ∀ prev prev' s, k prev s = k prev' s)
    (hsome : ∀ prev s, (k prev s).isSome = true) (prev : Option Char) (s : Str) :
    greedy p k prev s = k none (s.dropWhile p) := by
  induction s generalizing prev with
  | nil => exact hprev _ _ _
  | cons c s ih =>
    rw [greedy]
    split
    · next hc =>
      obtain ⟨x, hx⟩ := Option.isSome_iff_exists.mp (hsome none (s.dropWhile p))
      simp [ih, hc, hx]
    · next hc => simp [hc, hprev prev none]

/-- A literal followed by a continuation. -/
theorem runAtoms_literal (w : Str) (as : List Atom) (prev : Option Char) (s : Str)
    (hprev : ∀ prev prev' s, runAtoms as k prev s = runAtoms as k prev' s) :
    runAtoms (w.map .char ++ as) k prev s =
      if w <+: s then runAtoms as k none (s.drop w.length) else none := by
  induction w generalizing prev s with
  | nil => simp [hprev prev none]
  | cons c w ih =>
    cases s with
    | nil => simp [runAtoms, Atom.run]
    | cons x s =>
      simp only [List.map_cons, List.cons_append, runAtoms, Atom.run, ih, List.cons_prefix_cons,
        List.length_cons, List.drop_succ_cons]
      grind

end Greedy

/-! ## The rest of a line -/

/-- `before` and then, captured, everything up to the end of the line. -/
def restOfLine (before : List Atom) : Pattern := ⟨before, [.star (· != '\n')], [.lineEnd]⟩

theorem takeWhile_append_of_atLineEnd {l s : Str} (hl : '\n' ∉ l) (hs : atLineEnd s = true) :
    (l ++ s).takeWhile (· != '\n') = l ∧ (l ++ s).dropWhile (· != '\n') = s := by
  have hall : ∀ c ∈ l, (c != '\n') = true := by grind
  rw [List.takeWhile_append_of_pos hall, List.dropWhile_append_of_pos hall]
  cases s with
  | nil => simp
  | cons c s =>
    have hc : c = '\n' := by simpa [atLineEnd] using hs
    simp [hc]

theorem matchAt_restOfLine (before : List Atom) (prev : Option Char) (s : Str) :
    (restOfLine before).matchAt prev s = runAtoms before
      (fun _ s₁ => some ⟨s₁.takeWhile (· != '\n'), s₁.dropWhile (· != '\n')⟩) prev s := by
  have hrest : ∀ prev (s₁ : Str),
      greedy (· != '\n') (fun _ s₂ => if atLineEnd s₂ = true then
        some (Match.mk (s₁.take (s₁.length - s₂.length)) s₂) else none) prev s₁ =
        some ⟨s₁.takeWhile (· != '\n'), s₁.dropWhile (· != '\n')⟩ := by
    intro prev s₁
    have hlength := congrArg List.length
      (List.takeWhile_append_dropWhile (p := (· != '\n')) (l := s₁))
    have htake : s₁.take (s₁.takeWhile (· != '\n')).length = s₁.takeWhile (· != '\n') :=
      (List.prefix_iff_eq_take.mp (List.takeWhile_prefix _)).symm
    rw [greedy_eq_of_none (fun _ _ _ => rfl) (fun _ c s hc => by grind [atLineEnd])]
    have hend : atLineEnd (s₁.dropWhile (· != '\n')) = true := by
      cases hdrop : s₁.dropWhile (· != '\n') with
      | nil => rfl
      | cons c s =>
        have := List.head?_dropWhile_not (· != '\n') s₁
        simp_all [atLineEnd]
    rw [if_pos hend, ← htake]
    simp only [List.length_append] at hlength
    congr 3
    all_goals grind
  simp only [Pattern.matchAt, restOfLine, runAtoms, Atom.run, hrest]

/-- A class without the newline does not reach beyond the line. -/
theorem dropWhile_append_of_atLineEnd {p : Char → Bool} (hp : p '\n' = false) (l : Str) {s : Str}
    (hs : atLineEnd s = true) : (l ++ s).dropWhile p = l.dropWhile p ++ s := by
  induction l with
  | nil =>
    cases s with
    | nil => rfl
    | cons c s =>
      have hc : c = '\n' := by simpa [atLineEnd] using hs
      simp [hc, hp]
  | cons c l ih => cases hc : p c <;> simp [hc, ih]

theorem prefix_append_of_atLineEnd {w l s : Str} (hw : '\n' ∉ w) (hs : atLineEnd s = true) :
    w <+: l ++ s ↔ w <+: l := by
  induction w generalizing l with
  | nil => simp
  | cons c w ih =>
    cases l with
    | nil =>
      cases s with
      | nil => simp
      | cons d s =>
        have hd : d = '\n' := by simpa [atLineEnd] using hs
        simp [List.cons_prefix_cons]
        grind
    | cons d l => simp [List.cons_prefix_cons, ih (by grind)]

/-- Lines that start with a literal. -/
theorem restOfLine_literal_matchesLines {w : Str} (hw : '\n' ∉ w) (hne : w ≠ []) :
    (restOfLine (.lineStart :: w.map .char)).MatchesLines
      fun l => if w <+: l then some (l.drop w.length) else none where
  line := by
    intro prev l s hl hprev hs
    have hliteral := runAtoms_literal (k := fun _ (s₁ : Str) =>
      some (Match.mk (s₁.takeWhile (· != '\n')) (s₁.dropWhile (· != '\n')))) w [] prev (l ++ s)
      fun _ _ _ => rfl
    rw [List.append_nil] at hliteral
    rw [matchAt_restOfLine, runAtoms, Atom.run, if_pos hprev, hliteral]
    simp only [prefix_append_of_atLineEnd hw hs]
    split
    · next hpre =>
      have hrest : '\n' ∉ l.drop w.length := fun hmem => hl (List.mem_of_mem_drop hmem)
      obtain ⟨htake, hdrop⟩ := takeWhile_append_of_atLineEnd hrest hs
      rw [List.drop_append_of_le_length hpre.length_le]
      simp [runAtoms, htake, hdrop]
    · rfl
  inner := by
    intro prev s hprev
    rw [matchAt_restOfLine, runAtoms, Atom.run, hprev]
    rfl
  nil := by simp [hne]

end PartnerEdge.Text
