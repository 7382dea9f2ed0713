import PartnerEdge.Text.Terminated

/-!
# Texts with marks

Texts in which marks stand for something that is filled in later, by a text or by another text with
marks. The lines of what comes out are those of the lines that it comes from. Line endings are
treated before the text is split: a carriage return before a newline is dropped, which gives the
lines of Rust's `str::lines`.
-/

namespace PartnerEdge.Text

/-! ## Splitting -/

section Split

variable {α : Type*} [BEq α] [LawfulBEq α] {a : α}

theorem splitOn_cons_self (s : List α) : (a :: s).splitOn a = [] :: s.splitOn a := by
  rw [List.splitOn_cons_eq_if_modifyHead, if_pos (beq_self_eq_true a)]

theorem splitOn_cons_of_ne {x : α} (h : x ≠ a) (s : List α) :
    (x :: s).splitOn a = (s.splitOn a).modifyHead (x :: ·) := by
  rw [List.splitOn_cons_eq_if_modifyHead, if_neg (by simpa using h)]

theorem splitOn_of_notMem {s : List α} (h : a ∉ s) : s.splitOn a = [s] := by
  induction s with
  | nil => rfl
  | cons x s ih =>
    rw [List.mem_cons, not_or] at h
    rw [splitOn_cons_of_ne (Ne.symm h.1), ih h.2]
    rfl

theorem notMem_of_mem_splitOn {s l : List α} (h : l ∈ s.splitOn a) : a ∉ l := by
  induction s generalizing l with
  | nil =>
    rw [List.mem_singleton.1 h]
    simp
  | cons x s ih =>
    by_cases hx : x = a
    · subst hx
      rw [splitOn_cons_self] at h
      rcases List.mem_cons.1 h with rfl | h
      · simp
      · exact ih h
    · rw [splitOn_cons_of_ne hx] at h
      cases hs : s.splitOn a with
      | nil => exact absurd hs (List.splitOn_ne_nil a s)
      | cons l' ls =>
        rw [hs] at h ih
        rcases List.mem_cons.1 h with rfl | h
        · simp [Ne.symm hx, ih List.mem_cons_self]
        · exact ih (List.mem_cons_of_mem _ h)

/-- What stands in front goes to the first part. -/
theorem splitOn_append_of_eq {s t : List α} {rest : List (List α)}
    (h : s.splitOn a = t.splitOn a ++ rest) (w : List α) :
    (w ++ s).splitOn a = (w ++ t).splitOn a ++ rest := by
  induction w with
  | nil => exact h
  | cons x w ih =>
    by_cases hx : x = a
    · subst hx
      rw [List.cons_append, List.cons_append, splitOn_cons_self, splitOn_cons_self, ih]
      rfl
    · rw [List.cons_append, List.cons_append, splitOn_cons_of_ne hx, splitOn_cons_of_ne hx, ih]
      cases hs : (w ++ t).splitOn a with
      | nil => exact absurd hs (List.splitOn_ne_nil a _)
      | cons l ls => rfl

end Split

/-! ## Line endings -/

/-- Without the carriage returns that stand before a newline. -/
def unixEndings {α : Type*} [DecidableEq α] (cr lf : α) : List α → List α
  | [] => []
  | x :: s =>
    if x = cr ∧ s.head? = some lf then unixEndings cr lf s else x :: unixEndings cr lf s

theorem dropCr_cons {c : Char} {l : Str} (h : l = [] → c ≠ '\r') :
    dropCr (c :: l) = c :: dropCr l := by
  cases l with
  | nil => simp [dropCr, h rfl]
  | cons d l =>
    unfold dropCr
    rw [List.getLast?_cons_cons]
    split
    · rfl
    · rfl

theorem lines_cons_newline (t : Str) : lines ('\n' :: t) = [] :: lines t := splitOn_cons_self t

theorem lines_cons_of_ne {c : Char} (h : c ≠ '\n') (t : Str) :
    lines (c :: t) = (lines t).modifyHead (c :: ·) := splitOn_cons_of_ne h t

/-- Where a first line ends at once, a newline follows. -/
theorem head?_of_lines_eq {t : Str} {l' : Str} {ls : List Str} (h : lines t = [] :: l' :: ls) :
    t.head? = some '\n' := by
  cases t with
  | nil => cases h
  | cons d t =>
    by_cases hd : d = '\n'
    · rw [hd]
      rfl
    · rw [lines_cons_of_ne hd] at h
      cases hlines : lines t with
      | nil => exact absurd hlines (List.splitOn_ne_nil _ _)
      | cons l ls =>
        rw [hlines] at h
        cases h

theorem dropCr_lines (t : Str) : (lines t).dropLast.map dropCr ++ (lines t).getLast?.toList =
    lines (unixEndings '\r' '\n' t) := by
  induction t with
  | nil => rfl
  | cons c t ih =>
    by_cases hc : c = '\n'
    · subst hc
      rw [unixEndings, if_neg (by simp), lines_cons_newline, lines_cons_newline, ← ih]
      cases hlines : lines t with
      | nil => exact absurd hlines (List.splitOn_ne_nil _ _)
      | cons l ls => rfl
    · rw [lines_cons_of_ne hc, unixEndings]
      cases hlines : lines t with
      | nil => exact absurd hlines (List.splitOn_ne_nil _ _)
      | cons l ls =>
        rw [hlines] at ih
        cases ls with
        | nil =>
          have hhead : t.head? ≠ some '\n' := by
            intro hhead
            obtain ⟨t', rfl⟩ := List.head?_eq_some_iff.1 hhead
            rw [lines_cons_newline] at hlines
            exact List.splitOn_ne_nil _ _ (List.cons.inj hlines).2
          rw [if_neg fun h => hhead h.2, lines_cons_of_ne hc, ← ih]
          rfl
        | cons l' ls =>
          split
          · next hcr =>
            obtain ⟨rfl, hhead⟩ := hcr
            obtain ⟨t', rfl⟩ := List.head?_eq_some_iff.1 hhead
            rw [lines_cons_newline] at hlines
            obtain ⟨rfl, -⟩ := List.cons.inj hlines
            rw [← ih]
            rfl
          · next hcr =>
            have hdrop : dropCr (c :: l) = c :: dropCr l := by
              refine dropCr_cons fun hl hr => hcr ⟨hr, ?_⟩
              exact head?_of_lines_eq (hl ▸ hlines)
            rw [lines_cons_of_ne hc, ← ih]
            simp [hdrop]

/-- What holds of no empty line holds of the same lines of `str::lines` and of the text with other
line endings. -/
theorem filter_strLines {p : Str → Bool} (hp : p [] = false) (t : Str) :
    (strLines t).filter p = (lines (unixEndings '\r' '\n' t)).filter p := by
  rw [← dropCr_lines, strLines, List.filter_append, List.filter_append, List.filter_filter]
  congr 1
  refine List.filter_congr fun l _ => ?_
  cases l with
  | nil => simp [hp]
  | cons => simp

/-! ## Marks -/

inductive Glyph (ι : Type*) where
  | char (c : Char)
  | mark (i : ι)
deriving DecidableEq, Repr

abbrev Marked (ι : Type*) := List (Glyph ι)

section Fill

variable {ι β : Type*} (e : Char → β) (f : ι → List β)

def Glyph.fill : Glyph ι → List β
  | .char c => [e c]
  | .mark i => f i

/-- Characters and marks replaced, each by its own. -/
def fillWith (m : Marked ι) : List β := m.flatMap (Glyph.fill e f)

@[simp] theorem fillWith_nil : fillWith e f [] = [] := rfl

@[simp] theorem fillWith_char (c : Char) (m : Marked ι) :
    fillWith e f (.char c :: m) = e c :: fillWith e f m := rfl

@[simp] theorem fillWith_mark (i : ι) (m : Marked ι) :
    fillWith e f (.mark i :: m) = f i ++ fillWith e f m := rfl

theorem fillWith_append (m m' : Marked ι) :
    fillWith e f (m ++ m') = fillWith e f m ++ fillWith e f m' := List.flatMap_append

variable [DecidableEq ι] [DecidableEq β] {e f}

theorem splitOn_fillWith (m : Marked ι) :
    (fillWith e f m).splitOn (e '\n') =
      (m.splitOn (.char '\n')).flatMap fun l => (fillWith e f l).splitOn (e '\n') := by
  induction m with
  | nil => rfl
  | cons x m ih =>
    by_cases hx : x = .char '\n'
    · subst hx
      rw [fillWith_char, splitOn_cons_self, splitOn_cons_self, ih]
      rfl
    · rw [splitOn_cons_of_ne hx]
      cases hm : m.splitOn (.char '\n') with
      | nil => exact absurd hm (List.splitOn_ne_nil _ _)
      | cons l ls =>
        rw [hm, List.flatMap_cons] at ih
        have happend := splitOn_append_of_eq ih (fillWith e f [x])
        rw [← fillWith_append, ← fillWith_append] at happend
        exact happend

theorem unixEndings_append {cr lf : β} {w : List β} (hw : cr ∉ w) (s : List β) :
    unixEndings cr lf (w ++ s) = w ++ unixEndings cr lf s := by
  induction w with
  | nil => rfl
  | cons x w ih =>
    rw [List.mem_cons, not_or] at hw
    rw [List.cons_append, unixEndings, if_neg fun h => hw.1 h.1.symm, ih hw.2, List.cons_append]

theorem unixEndings_fillWith (he : Function.Injective e) (hne : ∀ i, f i ≠ [])
    (hhead : ∀ i, (f i).head? ≠ some (e '\n')) (hcr : ∀ i, e '\r' ∉ f i) (m : Marked ι) :
    unixEndings (e '\r') (e '\n') (fillWith e f m) =
      fillWith e f (unixEndings (.char '\r') (.char '\n') m) := by
  have hstart (m : Marked ι) :
      (fillWith e f m).head? = some (e '\n') ↔ m.head? = some (.char '\n') := by
    cases m with
    | nil => simp
    | cons x m =>
      cases x with
      | char c => simp [he.eq_iff]
      | mark i =>
        rw [fillWith_mark, List.head?_append_of_ne_nil _ (hne i)]
        simp [hhead i]
  induction m with
  | nil => rfl
  | cons x m ih =>
    cases x with
    | char c =>
      simp only [fillWith_char, unixEndings, hstart, he.eq_iff, Glyph.char.injEq, ih]
      split
      · rfl
      · rfl
    | mark i =>
      rw [fillWith_mark, unixEndings_append (hcr i), unixEndings, if_neg (by simp), ih]
      rfl

end Fill

/-! ## Lines with marks -/

section Lines

variable {ι κ : Type*}

def isMark : Glyph ι → Bool
  | .char _ => false
  | .mark _ => true

/-- The characters before the first mark. -/
def leadText : Marked ι → Str
  | .char c :: l => c :: leadText l
  | _ => []

def markedLines [DecidableEq ι] (m : Marked ι) : List (Marked ι) := m.splitOn (.char '\n')

theorem eq_nil_of_fillWith {f : ι → Str} (hf : ∀ i, f i ≠ []) {x : Marked ι}
    (h : fillWith id f x = []) : x = [] := by
  cases x with
  | nil => rfl
  | cons g x =>
    cases g with
    | char c => cases h
    | mark i => exact absurd (List.append_eq_nil_iff.1 h).1 (hf i)

theorem fillWith_char_map (f : ι → Str) (t : Str) : fillWith id f (t.map .char) = t := by
  induction t with
  | nil => rfl
  | cons c t ih => rw [List.map_cons, fillWith_char, ih, id]

/-- A line has no mark, or its first one stands behind the characters that it begins with. -/
theorem eq_lead_or_mark (l : Marked ι) : l = (leadText l).map .char ∨
    ∃ i rest, l = (leadText l).map .char ++ .mark i :: rest := by
  induction l with
  | nil => exact .inl rfl
  | cons g l ih =>
    cases g with
    | char c =>
      exact ih.imp (congrArg (Glyph.char c :: ·)) fun ⟨i, rest, h⟩ =>
        ⟨i, rest, congrArg (Glyph.char c :: ·) h⟩
    | mark i => exact .inr ⟨i, l, rfl⟩

theorem fillWith_eq_lead (f : ι → Str) (l : Marked ι) : ∃ x, fillWith id f l = leadText l ++ x ∧
    ((x = [] ∧ l.any isMark = false) ∨ ∃ i y, x = f i ++ y ∧ l.any isMark = true) := by
  rcases eq_lead_or_mark l with h | ⟨i, rest, h⟩
  · refine ⟨[], ?_, .inl ⟨rfl, ?_⟩⟩
    · exact (congrArg (fillWith id f) h).trans (by rw [fillWith_char_map, List.append_nil])
    · rw [h]
      simp [isMark]
  · refine ⟨f i ++ fillWith id f rest, ?_, .inr ⟨i, _, rfl, ?_⟩⟩
    · exact (congrArg (fillWith id f) h).trans
        (by rw [fillWith_append, fillWith_char_map, fillWith_mark])
    · rw [h]
      simp [isMark]

theorem fillWith_fillWith (f : κ → Str) (g : ι → Marked κ) (m : Marked ι) :
    fillWith id f (fillWith .char g m) = fillWith id (fun i => fillWith id f (g i)) m := by
  induction m with
  | nil => rfl
  | cons x m ih =>
    cases x with
    | char c => rw [fillWith_char, fillWith_char, fillWith_char, ih]
    | mark i => rw [fillWith_mark, fillWith_mark, fillWith_append, ih]

theorem fillWith_intercalate (new : Str) (pieces : List Str) :
    fillWith id (fun _ : Unit => new) ([.mark ()].intercalate (pieces.map fun p => p.map .char)) =
      new.intercalate pieces := by
  induction pieces with
  | nil => rfl
  | cons piece pieces ih =>
    cases pieces with
    | nil => simp [fillWith_char_map]
    | cons piece' pieces =>
      rw [List.map_cons] at ih
      rw [List.map_cons, List.map_cons, List.intercalate_cons_cons, List.intercalate_cons_cons,
        fillWith_append, fillWith_append, ih, fillWith_char_map, fillWith_mark, fillWith_nil,
        List.append_nil]

theorem notMem_fillWith {f : ι → Str} {c : Char} (hf : ∀ i, c ∉ f i) {m : Marked ι}
    (hm : .char c ∉ m) : c ∉ fillWith id f m := by
  induction m with
  | nil => simp
  | cons x m ih =>
    rw [List.mem_cons, not_or] at hm
    cases x with
    | char d =>
      rw [fillWith_char, List.mem_cons, not_or]
      exact ⟨fun h => hm.1 (congrArg _ h), ih hm.2⟩
    | mark i =>
      rw [fillWith_mark, List.mem_append, not_or]
      exact ⟨hf i, ih hm.2⟩

/-- If nothing that is filled in has a newline then lines stay lines. -/
theorem lines_fillWith [DecidableEq ι] {f : ι → Str} (hf : ∀ i, '\n' ∉ f i)
    (m : Marked ι) : lines (fillWith id f m) = (markedLines m).map (fillWith id f) := by
  refine (splitOn_fillWith (e := id) m).trans ?_
  rw [List.map_eq_flatMap]
  refine List.flatMap_congr fun l hl => ?_
  exact splitOn_of_notMem (notMem_fillWith hf (notMem_of_mem_splitOn hl))

end Lines

end PartnerEdge.Text
