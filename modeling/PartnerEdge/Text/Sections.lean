import PartnerEdge.Text.Terminated

/-!
# Line endings and sections

A text whose lines all end the same way is read by splitting it at that ending, and written by
putting it behind every line. A list of lines in which some are headers falls into what stands
before the first header, and one section for each header.
-/

namespace PartnerEdge.Text

/-! ## Line endings -/

inductive LineEnding where
  | lf
  | crlf
deriving DecidableEq, Repr

def LineEnding.text : LineEnding → Str
  | .lf => ['\n']
  | .crlf => ['\r', '\n']

/-- CRLF if there is one. -/
def lineEnding (t : Str) : LineEnding := if ['\r', '\n'] <:+: t then .crlf else .lf

/-- `split("\r\n")` -/
def splitCrlf : Str → List Str
  | '\r' :: '\n' :: t => [] :: splitCrlf t
  | c :: t => (splitCrlf t).modifyHead (c :: ·)
  | [] => [[]]

def LineEnding.split : LineEnding → Str → List Str
  | .lf => lines
  | .crlf => splitCrlf

/-- The text split at its line ending. -/
def splitLines (t : Str) : List Str := (lineEnding t).split t

def LineEnding.terminate (eol : LineEnding) (ls : List Str) : Str := ls.flatMap (· ++ eol.text)

/-- Carriage returns and newlines come in pairs only. -/
def onlyCrlf : Str → Bool
  | '\r' :: '\n' :: t => onlyCrlf t
  | c :: t => c != '\r' && c != '\n' && onlyCrlf t
  | [] => true

/-- All line endings are newlines or all are CRLF, and there is no other carriage return. -/
def OneEnding (t : Str) : Prop := '\r' ∉ t ∨ onlyCrlf t = true

instance (t : Str) : Decidable (OneEnding t) := inferInstanceAs (Decidable (_ ∨ _))

def IsLine (l : Str) : Prop := '\r' ∉ l ∧ '\n' ∉ l

instance (l : Str) : Decidable (IsLine l) := inferInstanceAs (Decidable (_ ∧ _))

theorem IsLine.append {l l' : Str} (h : IsLine l) (h' : IsLine l') : IsLine (l ++ l') := by
  simp [IsLine, h.1, h.2, h'.1, h'.2]

theorem splitCrlf_ne_nil (t : Str) : splitCrlf t ≠ [] := by
  fun_induction splitCrlf t with
  | case1 t ih => simp
  | case2 c t hpair ih => simpa [List.modifyHead_eq_nil_iff] using ih
  | case3 => simp

theorem isLine_of_mem_splitCrlf {t : Str} (h : onlyCrlf t = true) :
    ∀ l ∈ splitCrlf t, IsLine l := by
  fun_induction splitCrlf t with
  | case1 t ih =>
    intro l hl
    rcases List.mem_cons.1 hl with rfl | hl
    · simp [IsLine]
    · exact ih (by simpa [onlyCrlf] using h) l hl
  | case2 c t hpair ih =>
    have hc : (c ≠ '\r' ∧ c ≠ '\n') ∧ onlyCrlf t = true := by
      rw [onlyCrlf] at h
      · simpa using h
      · exact hpair
    obtain ⟨first, rest, hsplit⟩ := List.exists_cons_of_ne_nil (splitCrlf_ne_nil t)
    rw [hsplit] at ih ⊢
    intro l hl
    rcases List.mem_cons.1 hl with rfl | hl
    · have hfirst := ih hc.2 first (by simp)
      simp only [IsLine, List.mem_cons, not_or]
      exact ⟨⟨hc.1.1.symm, hfirst.1⟩, hc.1.2.symm, hfirst.2⟩
    · exact ih hc.2 l (by simp [hl])
  | case3 => simp [IsLine]

theorem cr_notMem_of_onlyCrlf {t : Str} (h : onlyCrlf t = true) (hnone : ¬ ['\r', '\n'] <:+: t) :
    '\r' ∉ t := by
  fun_induction onlyCrlf t with
  | case1 t ih => exact absurd ⟨[], t, rfl⟩ hnone
  | case2 c t hpair ih =>
    simp only [Bool.and_eq_true, bne_iff_ne] at h
    have ht : ¬ ['\r', '\n'] <:+: t := fun hfound =>
      hnone (hfound.trans (List.infix_cons (List.infix_refl t)))
    simp [ih h.2 ht, h.1.1.symm]
  | case3 => simp

theorem mem_of_mem_lines {t l : Str} {c : Char} (hl : l ∈ lines t) (hc : c ∈ l) : c ∈ t := by
  rw [← joinLines_lines t]
  cases hlines : lines t with
  | nil => exact absurd hlines (areLines_lines t).ne_nil
  | cons first rest =>
    rw [hlines] at hl
    rw [joinLines_cons, followedBy]
    rcases List.mem_cons.1 hl with rfl | hl
    · exact List.mem_append_left _ hc
    · exact List.mem_append_right _ (List.mem_flatMap.2 ⟨l, hl, List.mem_cons_of_mem _ hc⟩)

/-- The lines of a text with one line ending. -/
theorem OneEnding.isLine {t : Str} (h : OneEnding t) : ∀ l ∈ splitLines t, IsLine l := by
  by_cases hcrlf : ['\r', '\n'] <:+: t
  · have honly : onlyCrlf t = true := h.resolve_left fun hcr => hcr (hcrlf.subset (by simp))
    simpa [splitLines, lineEnding, hcrlf, LineEnding.split] using isLine_of_mem_splitCrlf honly
  · have hcr : '\r' ∉ t := h.elim id fun honly => cr_notMem_of_onlyCrlf honly hcrlf
    intro l hl
    have hlines : l ∈ lines t := by simpa [splitLines, lineEnding, hcrlf, LineEnding.split] using hl
    exact ⟨fun hmem => hcr (mem_of_mem_lines hlines hmem),
      (areLines_lines t).newline_notMem l hlines⟩

theorem splitCrlf_append {l : Str} (h : '\r' ∉ l) (t : Str) :
    splitCrlf (l ++ '\r' :: '\n' :: t) = l :: splitCrlf t := by
  induction l with
  | nil => rfl
  | cons c l ih =>
    have hc : c ≠ '\r' := by grind
    rw [List.cons_append, splitCrlf]
    · rw [ih (by grind)]
      rfl
    · rintro t' rfl
      exact absurd rfl hc

theorem splitCrlf_terminate {ls : List Str} (h : ∀ l ∈ ls, IsLine l) :
    splitCrlf (LineEnding.crlf.terminate ls) = ls ++ [[]] := by
  induction ls with
  | nil => rfl
  | cons l ls ih =>
    have hcons : LineEnding.crlf.terminate (l :: ls) =
        l ++ '\r' :: '\n' :: LineEnding.crlf.terminate ls := by
      simp [LineEnding.terminate, LineEnding.text]
    rw [hcons, splitCrlf_append (h l (by simp)).1, ih fun l' hl' => h l' (by simp [hl']),
      List.cons_append]

theorem lineEnding_terminate {eol : LineEnding} {ls : List Str} (h : ∀ l ∈ ls, IsLine l)
    (hne : ls ≠ []) : lineEnding (eol.terminate ls) = eol := by
  cases eol with
  | crlf =>
    obtain ⟨l, rest, rfl⟩ := List.exists_cons_of_ne_nil hne
    exact if_pos ⟨l, LineEnding.crlf.terminate rest,
      by simp [LineEnding.terminate, LineEnding.text]⟩
  | lf =>
    refine if_neg fun hfound => ?_
    have hcr : '\r' ∈ LineEnding.lf.terminate ls := hfound.subset (by simp)
    obtain ⟨l, hl, hmem⟩ := List.mem_flatMap.1 hcr
    simp [LineEnding.text, (h l hl).1] at hmem

/-- Writing lines and splitting the text again. -/
theorem splitLines_terminate {eol : LineEnding} {ls : List Str} (h : ∀ l ∈ ls, IsLine l) :
    splitLines (eol.terminate ls) = ls ++ [[]] := by
  by_cases hne : ls = []
  · subst hne
    cases eol <;> decide
  · rw [splitLines, lineEnding_terminate h hne]
    cases eol with
    | crlf => exact splitCrlf_terminate h
    | lf => exact lines_terminate fun l hl => (h l hl).2

/-! ## Sections -/

section Sections

variable {α : Type} {isHeader : α → Bool} {ls : List α}

/-- What stands before the first header, and each header with what follows it. -/
def sections (isHeader : α → Bool) : List α → List α × List (List α)
  | [] => ([], [])
  | l :: ls =>
    let rest := sections isHeader ls
    if isHeader l then ([], (l :: rest.1) :: rest.2) else (l :: rest.1, rest.2)

theorem sections_cons_header {l : α} (h : isHeader l = true) :
    sections isHeader (l :: ls) =
      ([], (l :: (sections isHeader ls).1) :: (sections isHeader ls).2) := by
  rw [sections]
  simp [h]

theorem sections_cons_other {l : α} (h : isHeader l = false) :
    sections isHeader (l :: ls) =
      (l :: (sections isHeader ls).1, (sections isHeader ls).2) := by
  rw [sections]
  simp [h]

/-- A header and lines that are none. -/
def IsSection (isHeader : α → Bool) (b : List α) : Prop :=
  ∃ header rest, b = header :: rest ∧ isHeader header = true ∧ ∀ l ∈ rest, isHeader l = false

theorem flatten_sections (isHeader : α → Bool) (ls : List α) :
    (sections isHeader ls).1 ++ (sections isHeader ls).2.flatten = ls := by
  induction ls with
  | nil => rfl
  | cons l ls ih =>
    cases h : isHeader l with
    | true => simpa [sections_cons_header h] using ih
    | false => simpa [sections_cons_other h] using ih

theorem isSection_sections (isHeader : α → Bool) (ls : List α) :
    (∀ l ∈ (sections isHeader ls).1, isHeader l = false) ∧
      ∀ b ∈ (sections isHeader ls).2, IsSection isHeader b := by
  induction ls with
  | nil => simp [sections]
  | cons l ls ih =>
    cases h : isHeader l with
    | true =>
      rw [sections_cons_header h]
      refine ⟨by simp, fun b hb => ?_⟩
      rcases List.mem_cons.1 hb with rfl | hb
      · exact ⟨l, _, rfl, h, ih.1⟩
      · exact ih.2 b hb
    | false =>
      rw [sections_cons_other h]
      exact ⟨by simpa [h] using ih.1, ih.2⟩

theorem sections_append {pre : List α} (hpre : ∀ l ∈ pre, isHeader l = false) :
    sections isHeader (pre ++ ls) =
      (pre ++ (sections isHeader ls).1, (sections isHeader ls).2) := by
  induction pre with
  | nil => rfl
  | cons l pre ih =>
    rw [List.cons_append, sections_cons_other (hpre l (by simp)),
      ih fun l' hl' => hpre l' (by simp [hl'])]
    rfl

/-- Sections in a row are the sections of the whole. -/
theorem sections_flatten {pre : List α} {bs : List (List α)}
    (hpre : ∀ l ∈ pre, isHeader l = false) (hbs : ∀ b ∈ bs, IsSection isHeader b) :
    sections isHeader (pre ++ bs.flatten) = (pre, bs) := by
  have hnone : sections isHeader bs.flatten = ([], bs) := by
    induction bs with
    | nil => rfl
    | cons b bs ih =>
      obtain ⟨header, rest, rfl, hheader, hrest⟩ := hbs b (by simp)
      rw [List.flatten_cons, List.cons_append, sections_cons_header hheader, sections_append hrest,
        ih fun b' hb' => hbs b' (by simp [hb']), List.append_nil]
  rw [sections_append hpre, hnone, List.append_nil]

end Sections

end PartnerEdge.Text
