import PartnerEdge.Opec.Coturn
import PartnerEdge.Text.Marked

/-!
# The lines of a rendered configuration

A template with its variables filled in is a text in which marks stand for the placeholder. Secrets
are put in as lines, so a line with marks is cut into several. The secret lines of the result are
those that begin with the key of a secret or with a mark, whatever the secrets are.
-/

namespace PartnerEdge.Opec

open Text

/-! ## Lines with marks -/

section Lines

variable {ι : Type} [DecidableEq ι]

/-- The line begins with the key of a secret, or with a mark. -/
def beginsSecret (l : Marked ι) : Bool :=
  secretKey.isPrefixOf (leadText l) || l.head?.any isMark

/-- The line sets a realm, where a mark stands for some text. -/
def setsRealm (l : Marked ι) : Bool :=
  "realm=".toList.isPrefixOf ((leadText l).dropWhile isWhitespace) &&
    (l.any isMark || !(trim (((leadText l).dropWhile isWhitespace).drop 6)).isEmpty)

/-- The template with its variables filled in, and a mark for each placeholder. -/
def skeleton (value : Str → Str) (tpl : Str) : Marked Unit :=
  unixEndings (.char '\r') (.char '\n')
    ([.mark ()].intercalate ((splitText secretLinesPlaceholder tpl).map fun piece =>
      (substitute value piece).map .char))

end Lines

/-! ## The key of a secret -/

/-- The key does not end like it begins, so it is not found across a border. -/
theorem isPrefixOf_secretKey {p x : Str} (hp : p ≠ []) (hx : x = [] ∨ secretKey <+: x) :
    secretKey.isPrefixOf (p ++ x) = secretKey.isPrefixOf p := by
  have hborder : ∀ i < 19, i ≠ 0 → (secretKey.drop i).isPrefixOf secretKey = false := by decide
  rw [Bool.eq_iff_iff, List.isPrefixOf_iff_prefix, List.isPrefixOf_iff_prefix]
  refine ⟨fun h => ?_, fun h => h.trans (List.prefix_append p x)⟩
  rcases List.prefix_or_prefix_of_prefix h (List.prefix_append p x) with hkey | ⟨q, hq⟩
  · exact hkey
  · have hlength : p.length + q.length = 19 := by
      rw [← List.length_append, hq]
      rfl
    have hpos := List.length_pos_of_ne_nil hp
    rw [← hq, List.prefix_append_right_inj] at h
    cases q with
    | nil => exact ⟨[], by simpa using hq.symm⟩
    | cons c q =>
      exfalso
      rcases hx with rfl | hx
      · simp at h
      · have hend : c :: q <+: secretKey := by
          rcases List.prefix_or_prefix_of_prefix h hx with hend | hend
          · exact hend
          · have hle := hend.length_le
            have hkey : secretKey.length = 19 := by rfl
            omega
        have hdrop : secretKey.drop p.length = c :: q := by rw [← hq, List.drop_left]
        have hfalse := hborder p.length (by simp at hlength; omega) (by omega)
        rw [hdrop, List.isPrefixOf_iff_prefix.2 hend] at hfalse
        cases hfalse

section Fill

variable {ι : Type} {f : ι → Str}

theorem beginsSecret_of_head {x : Marked ι} {j : ι} (h : x.head? = some (.mark j)) :
    beginsSecret x = true := by simp [beginsSecret, h, isMark]

theorem isSecretLine_fillWith (hf : ∀ i, secretKey <+: f i) (l : Marked ι) :
    isSecretLine (fillWith id f l) = beginsSecret l := by
  obtain ⟨x, hfill, hx⟩ := fillWith_eq_lead f l
  have hkey : x = [] ∨ secretKey <+: x := by
    rcases hx with ⟨hx, -⟩ | ⟨i, y, rfl, -⟩
    · exact .inl hx
    · exact .inr ((hf i).trans (List.prefix_append _ _))
  cases l with
  | nil => simp [isSecretLine, beginsSecret, leadText]
  | cons g l =>
    cases g with
    | char c =>
      rw [isSecretLine, hfill, isPrefixOf_secretKey (by simp [leadText]) hkey]
      simp [beginsSecret, isMark]
    | mark i =>
      have hstart : secretKey.isPrefixOf (f i ++ fillWith id f l) = true :=
        List.isPrefixOf_iff_prefix.2 ((hf i).trans (List.prefix_append _ _))
      rw [isSecretLine, fillWith_mark, hstart]
      simp [beginsSecret, isMark]

theorem isRealmLine_fillWith (hf : ∀ i, secretKey <+: f i) (l : Marked ι) :
    isRealmLine (fillWith id f l) = setsRealm l := by
  obtain ⟨x, hfill, ⟨rfl, hmark⟩ | ⟨i, y, rfl, hmark⟩⟩ := fillWith_eq_lead f l
  · rw [List.append_nil] at hfill
    rw [isRealmLine, setsRealm, hfill, hmark, Bool.false_or]
  · obtain ⟨z, hz⟩ := hf i
    have hkey : secretKey = 's' :: "tatic-auth-secret=".toList := by decide
    have hx : f i ++ y = 's' :: ("tatic-auth-secret=".toList ++ z ++ y) := by
      rw [← hz, hkey]
      simp only [List.cons_append]
    have hdrop : (fillWith id f l).dropWhile isWhitespace =
        (leadText l).dropWhile isWhitespace ++ (f i ++ y) := by
      have hself : (f i ++ y).dropWhile isWhitespace = f i ++ y := by
        rw [hx, List.dropWhile_cons_of_neg (by decide)]
      rw [hfill, List.dropWhile_append, hself]
      split
      · next hempty => rw [List.isEmpty_iff.1 hempty, List.nil_append]
      · rfl
    rw [isRealmLine, setsRealm, hdrop, hmark, Bool.true_or, Bool.and_true, hx,
      isPrefixOf_append_cons (by decide)]
    cases hrealm : "realm=".toList.isPrefixOf ((leadText l).dropWhile isWhitespace) with
    | false => rfl
    | true =>
      obtain ⟨r, hr⟩ := List.isPrefixOf_iff_prefix.1 hrealm
      have htrim : trim (r ++ 's' :: ("tatic-auth-secret=".toList ++ z ++ y)) ≠ [] :=
        trim_ne_nil (c := 's') (by simp) (by decide)
      rw [← hr, List.append_assoc, List.drop_left' (by rfl)]
      simpa using htrim

end Fill

/-! ## Lines of the rendered text -/

section Rows

variable {ι : Type} [DecidableEq ι]

/-- Marks, each on a line of its own. -/
def rows : ι → List ι → Marked ι
  | i, [] => [.mark i]
  | i, j :: is => .mark i :: .char '\n' :: rows j is

theorem splitOn_rows_nil (i : ι) (s : Marked ι) :
    (rows i [] ++ s).splitOn (.char '\n') = (s.splitOn (.char '\n')).modifyHead (.mark i :: ·) :=
  splitOn_cons_of_ne (by simp) s

theorem splitOn_rows_cons (i j : ι) (is : List ι) (s : Marked ι) :
    (rows i (j :: is) ++ s).splitOn (.char '\n') =
      [.mark i] :: (rows j is ++ s).splitOn (.char '\n') := by
  rw [rows, List.cons_append, List.cons_append, splitOn_cons_of_ne (by simp), splitOn_cons_self]
  rfl

theorem splitOn_rows (i : ι) (is : List ι) :
    (rows i is).splitOn (.char '\n') = (i :: is).map fun j => [.mark j] := by
  induction is generalizing i with
  | nil => exact splitOn_of_notMem (by simp [rows])
  | cons j is ih =>
    have hcons := splitOn_rows_cons i j is []
    rw [List.append_nil, List.append_nil, ih] at hcons
    exact hcons

/-- The first line begins with the first mark, and all that are new with another. What follows the
marks goes to the last of their lines. -/
theorem splitOn_rows_append (i : ι) (is : List ι) {s h : Marked ι} {t : List (Marked ι)}
    (hs : s.splitOn (.char '\n') = h :: t) : ∃ h' t',
      (rows i is ++ s).splitOn (.char '\n') = (.mark i :: h') :: t' ∧
      (∀ x ∈ t', x ∈ t ∨ ∃ j ∈ is, x.head? = some (.mark j)) ∧ t'.length = is.length + t.length ∧
      ∃ j, .mark j :: h ∈ (.mark i :: h') :: t' := by
  induction is generalizing i with
  | nil =>
    refine ⟨h, t, ?_, fun x hx => .inl hx, by simp, i, List.mem_cons_self⟩
    rw [splitOn_rows_nil, hs]
    rfl
  | cons j is ih =>
    obtain ⟨h', t', heq, hrest, hlength, k, hk⟩ := ih j
    refine ⟨[], (.mark j :: h') :: t', ?_, fun x hx => ?_, ?_, k, List.mem_cons_of_mem _ hk⟩
    · rw [splitOn_rows_cons, heq]
    · rcases List.mem_cons.1 hx with rfl | hx
      · exact .inr ⟨j, List.mem_cons_self, rfl⟩
      · exact (hrest x hx).imp_right fun ⟨j', hj', hx⟩ => ⟨j', List.mem_cons_of_mem _ hj', hx⟩
    · simp only [List.length_cons, hlength]
      omega

variable (i : ι) (is : List ι)

/-- Each placeholder replaced by the marks of the secrets. -/
def expand (m : Marked Unit) : Marked ι := fillWith .char (fun _ => rows i is) m

def expandedLines (m : Marked Unit) : List (Marked ι) := markedLines (expand i is m)

theorem expandedLines_eq (m : Marked Unit) :
    expandedLines i is m = (markedLines m).flatMap (expandedLines i is) := splitOn_fillWith m

/-- What becomes of a line: the first line that it is cut into begins like it, and all others begin
with a mark. -/
structure CutsTo (l : Marked Unit) (h : Marked ι) (t : List (Marked ι)) : Prop where
  eq : expandedLines i is l = h :: t
  lead : leadText h = leadText l
  head : h.head?.any isMark = l.head?.any isMark
  any : h.any isMark = l.any isMark
  first : ∀ j, h.head? = some (.mark j) → j = i
  rest : ∀ x ∈ t, ∃ j ∈ is, x.head? = some (.mark j)
  length : t.length = is.length * l.countP isMark

theorem exists_cutsTo {l : Marked Unit} (hl : .char '\n' ∉ l) : ∃ h t, CutsTo i is l h t := by
  induction l with
  | nil => exact ⟨[], [], rfl, rfl, rfl, rfl, by simp, by simp, by simp⟩
  | cons g l ih =>
    rw [List.mem_cons, not_or] at hl
    obtain ⟨h, t, hcut⟩ := ih hl.2
    cases g with
    | char c =>
      refine ⟨.char c :: h, t, ?_, by simp [leadText, hcut.lead], by simp [isMark],
        by simp [isMark, hcut.any], by simp, hcut.rest, by simp [isMark, hcut.length]⟩
      have hsplit := splitOn_cons_of_ne (x := Glyph.char c) (a := (.char '\n' : Glyph ι))
        (by simpa using Ne.symm hl.1) (expand i is l)
      exact hsplit.trans (by rw [show (expand i is l).splitOn _ = h :: t from hcut.eq]; rfl)
    | mark u =>
      obtain ⟨h', t', heq, hrest, hlength, -⟩ := splitOn_rows_append i is hcut.eq
      refine ⟨.mark i :: h', t', heq, by simp [leadText], by simp [isMark], by simp [isMark],
        fun j hj => by simpa using hj.symm, fun x hx => ?_, ?_⟩
      · exact (hrest x hx).elim (hcut.rest x) id
      · rw [hlength, hcut.length, List.countP_cons_of_pos (by rfl), Nat.mul_succ, Nat.add_comm]

theorem countP_expandedLine {l : Marked Unit} (hl : .char '\n' ∉ l) :
    (expandedLines i is l).countP beginsSecret =
      is.length * l.countP isMark + if beginsSecret l then 1 else 0 := by
  obtain ⟨h, t, hcut⟩ := exists_cutsTo i is hl
  have hall : t.countP beginsSecret = t.length := List.countP_eq_length.2 fun x hx =>
    have ⟨_, _, hhead⟩ := hcut.rest x hx
    beginsSecret_of_head hhead
  have hfirst : beginsSecret h = beginsSecret l := by
    rw [beginsSecret, beginsSecret, hcut.lead, hcut.head]
  rw [hcut.eq, List.countP_cons, hall, hfirst, hcut.length]

theorem any_expandedLine {l : Marked Unit} (hl : .char '\n' ∉ l) :
    (expandedLines i is l).any setsRealm = setsRealm l := by
  obtain ⟨h, t, hcut⟩ := exists_cutsTo i is hl
  have hnone : t.any setsRealm = false := by
    rw [List.any_eq_false]
    intro x hx
    obtain ⟨j, -, hhead⟩ := hcut.rest x hx
    obtain ⟨x', rfl⟩ := List.head?_eq_some_iff.1 hhead
    have hnil : "realm=".toList.isPrefixOf [] = false := by decide
    simp only [setsRealm, leadText, List.dropWhile_nil, hnil, Bool.false_and]
    decide
  rw [hcut.eq, List.any_cons, hnone, Bool.or_false, setsRealm, setsRealm, hcut.lead, hcut.any]

theorem countP_flatten_markedLines (m : Marked Unit) :
    (markedLines m).flatten.countP isMark = m.countP isMark := by
  induction m with
  | nil => rfl
  | cons g m ih =>
    by_cases hg : g = .char '\n'
    · subst hg
      rw [markedLines, splitOn_cons_self, List.flatten_cons, List.nil_append,
        List.countP_cons_of_neg (by simp [isMark])]
      exact ih
    · rw [markedLines, splitOn_cons_of_ne hg]
      rw [markedLines] at ih
      cases hm : m.splitOn (.char '\n') with
      | nil => exact absurd hm (List.splitOn_ne_nil _ _)
      | cons l ls =>
        rw [hm, List.flatten_cons] at ih
        rw [List.modifyHead_cons, List.flatten_cons, List.cons_append, List.countP_cons, ih,
          List.countP_cons]

theorem countP_expandedLines (m : Marked Unit) :
    (expandedLines i is m).countP beginsSecret =
      (markedLines m).countP beginsSecret + is.length * m.countP isMark := by
  have hlines (ls : List (Marked Unit)) (hls : ∀ l ∈ ls, .char '\n' ∉ l) :
      (ls.flatMap (expandedLines i is)).countP beginsSecret =
        ls.countP beginsSecret + is.length * ls.flatten.countP isMark := by
    induction ls with
    | nil => simp
    | cons l ls ih =>
      obtain ⟨hl, hls⟩ := List.forall_mem_cons.1 hls
      rw [List.flatMap_cons, List.countP_append, countP_expandedLine i is hl, ih hls,
        List.flatten_cons, List.countP_append, Nat.mul_add, List.countP_cons]
      omega
  rw [expandedLines_eq, hlines (markedLines m) fun l hl => notMem_of_mem_splitOn hl,
    countP_flatten_markedLines]

theorem any_expandedLines (m : Marked Unit) :
    (expandedLines i is m).any setsRealm = (markedLines m).any setsRealm := by
  rw [expandedLines_eq, List.any_flatMap]
  rw [Bool.eq_iff_iff, List.any_eq_true, List.any_eq_true]
  refine exists_congr fun l => and_congr_right fun hl => ?_
  rw [any_expandedLine i is (notMem_of_mem_splitOn hl)]

/-- A bare placeholder gives the marks, one on each line. If the number of lines is right then there
are no others. -/
theorem filter_expandedLines_of_bare {m : Marked Unit} (hbare : [.mark ()] ∈ markedLines m)
    (hcount : (expandedLines i is m).countP beginsSecret = is.length + 1) :
    (expandedLines i is m).filter beginsSecret = (i :: is).map fun j => [.mark j] := by
  obtain ⟨before, after, hlines⟩ := List.append_of_mem hbare
  have hmarks : expandedLines i is [.mark ()] = (i :: is).map fun j => [.mark j] := by
    have hrows : expand i is [.mark ()] = rows i is := List.append_nil _
    rw [expandedLines, hrows, markedLines, splitOn_rows]
  have hall : (expandedLines i is [.mark ()]).filter beginsSecret =
      (i :: is).map fun j => [.mark j] := by
    rw [hmarks, List.filter_eq_self]
    simp [beginsSecret, isMark]
  rw [expandedLines_eq, hlines, List.flatMap_append, List.flatMap_cons] at hcount ⊢
  rw [List.countP_eq_length_filter, List.filter_append, List.filter_append, hall,
    List.length_append, List.length_append, List.length_map, List.length_cons] at hcount
  rw [List.filter_append, List.filter_append, hall,
    List.length_eq_zero_iff.1 (by omega : (List.filter beginsSecret (before.flatMap _)).length = 0),
    List.length_eq_zero_iff.1 (by omega : (List.filter beginsSecret (after.flatMap _)).length = 0),
    List.nil_append, List.append_nil]

variable {i is} in
/-- If all that are kept are bare marks, and the first mark is one of them, then the placeholder was
bare. -/
theorem bare_of_filter (hi : i ∉ is) {m : Marked Unit}
    (hfirst : [.mark i] ∈ expandedLines i is m)
    (hall : ∀ x ∈ expandedLines i is m, beginsSecret x = true → ∃ j, x = [.mark j]) :
    [.mark ()] ∈ markedLines m := by
  rw [expandedLines_eq] at hfirst hall
  obtain ⟨l, hl, hmem⟩ := List.mem_flatMap.1 hfirst
  obtain ⟨h, t, hcut⟩ := exists_cutsTo i is (notMem_of_mem_splitOn hl)
  have hhead : [.mark i] = h := by
    rw [hcut.eq] at hmem
    refine (List.mem_cons.1 hmem).resolve_right fun ht => hi ?_
    obtain ⟨j, hj, heq⟩ := hcut.rest _ ht
    rw [List.head?_cons, Option.some_inj, Glyph.mark.injEq] at heq
    exact heq ▸ hj
  have hmark := hcut.head
  rw [← hhead] at hmark
  cases l with
  | nil => cases hmark
  | cons g l =>
    cases g with
    | char c => cases hmark
    | mark u =>
      -- the last line of the marks is bare, so nothing follows the placeholder
      obtain ⟨h', t', hcut'⟩ := exists_cutsTo i is
        fun hmem => notMem_of_mem_splitOn hl (List.mem_cons_of_mem _ hmem)
      obtain ⟨_, _, heq, -, -, j, hj⟩ := splitOn_rows_append i is hcut'.eq
      have hlast : .mark j :: h' ∈ expandedLines i is (.mark u :: l) := by
        rw [show expandedLines i is (.mark u :: l) = _ from heq]
        exact hj
      obtain ⟨j', hbare⟩ := hall _ (List.mem_flatMap.2 ⟨_, hl, hlast⟩) (beginsSecret_of_head rfl)
      obtain ⟨-, rfl⟩ := List.cons.inj hbare
      have hlead := hcut'.lead
      have hmark' := hcut'.head
      cases l with
      | nil => exact hl
      | cons g l =>
        cases g with
        | char c => cases hlead
        | mark u => cases hmark'

end Rows

/-! ## The rendered text -/

/-- The text that is put in for the placeholder. -/
def secretBlock {ι : Type} (s : ι → Str) (i : ι) (is : List ι) : Str :=
  fillWith id (fun j => secretKey ++ s j) (rows i is)

section Block

variable {ι : Type} {s : ι → Str}

theorem secretBlock_nil (s : ι → Str) (i : ι) : secretBlock s i [] = secretKey ++ s i :=
  List.append_nil _

theorem secretBlock_cons (s : ι → Str) (i j : ι) (is : List ι) :
    secretBlock s i (j :: is) = secretKey ++ s i ++ '\n' :: secretBlock s j is := rfl

theorem secretBlock_append_newline (s : ι → Str) (i : ι) (is : List ι) :
    secretBlock s i is ++ ['\n'] = secretLines ((i :: is).map s) := by
  induction is generalizing i with
  | nil => simp [secretBlock_nil, secretLines]
  | cons j is ih =>
    have hcons (t : Str) (ts : List Str) :
        secretLines (t :: ts) = secretKey ++ t ++ '\n' :: secretLines ts := by simp [secretLines]
    rw [secretBlock_cons, List.append_assoc, List.cons_append, ih]
    exact (hcons (s i) _).symm

theorem secretBlock_eq_cons (s : ι → Str) (i : ι) (is : List ι) :
    ∃ text, secretBlock s i is = 's' :: text := by
  have hkey : secretKey = 's' :: "tatic-auth-secret=".toList := by decide
  cases is with
  | nil => exact ⟨_, by rw [secretBlock_nil, hkey, List.cons_append]⟩
  | cons j is => exact ⟨_, by rw [secretBlock_cons, hkey, List.cons_append, List.cons_append]⟩

theorem getLast?_secretBlock (s : ι → Str) (i : ι) (is : List ι) :
    ∃ j, (secretBlock s i is).getLast? = (secretKey ++ s j).getLast? := by
  induction is generalizing i with
  | nil => exact ⟨i, by rw [secretBlock_nil]⟩
  | cons j is ih =>
    obtain ⟨k, hk⟩ := ih j
    obtain ⟨text, htext⟩ := secretBlock_eq_cons s j is
    refine ⟨k, ?_⟩
    rw [secretBlock_cons, List.getLast?_append, List.getLast?_cons, ← hk, htext,
      List.getLast?_eq_some_getLast (List.cons_ne_nil _ _)]
    rfl

variable (hs : ∀ j, (s j).all isB64url = true)

theorem notMem_secretLine {c : Char} (hc : isB64url c = false) (hkey : c ∉ secretKey) {t : Str}
    (ht : t.all isB64url = true) : c ∉ secretKey ++ t := by
  rw [List.mem_append, not_or]
  refine ⟨hkey, fun hmem => ?_⟩
  rw [List.all_eq_true.1 ht c hmem] at hc
  cases hc

include hs

theorem notMem_secretBlock {c : Char} (hc : isB64url c = false) (hkey : c ∉ secretKey)
    (hnl : c ≠ '\n') (i : ι) (is : List ι) : c ∉ secretBlock s i is := by
  induction is generalizing i with
  | nil =>
    rw [secretBlock_nil]
    exact notMem_secretLine hc hkey (hs i)
  | cons j is ih =>
    rw [secretBlock_cons, List.mem_append, List.mem_cons, not_or, not_or]
    exact ⟨notMem_secretLine hc hkey (hs i), hnl, ih j⟩

theorem trimEndNewlines_secretLines (i : ι) (is : List ι) :
    trimEndNewlines (secretLines ((i :: is).map s)) = secretBlock s i is := by
  obtain ⟨j, hj⟩ := getLast?_secretBlock s i is
  have hne : (secretBlock s i is).reverse.head? ≠ some '\n' := by
    rw [List.head?_reverse, hj]
    exact fun hlast => notMem_secretLine (by decide) (by decide) (hs j) (List.mem_of_getLast? hlast)
  rw [← secretBlock_append_newline, trimEndNewlines, List.reverse_append, List.reverse_singleton,
    List.singleton_append, List.dropWhile_cons_of_pos (by decide)]
  cases hrev : (secretBlock s i is).reverse with
  | nil => simpa using hrev
  | cons c text =>
    rw [hrev] at hne
    rw [List.dropWhile_cons_of_neg (by simpa using hne), ← hrev, List.reverse_reverse]

variable [DecidableEq ι]

/-- The lines of the rendered text are those of the skeleton, each with its marks filled in. -/
theorem lines_rendered (value : Str → Str) (tpl : Str) (i : ι) (is : List ι) :
    lines (unixEndings '\r' '\n' (substitute value (replaceText secretLinesPlaceholder
      (trimEndNewlines (secretLines ((i :: is).map s))) tpl))) =
      (expandedLines i is (skeleton value tpl)).map (fillWith id fun j => secretKey ++ s j) := by
  obtain ⟨text, htext⟩ := secretBlock_eq_cons s i is
  have hbrace : '{' ∉ text := fun hmem =>
    notMem_secretBlock hs (by decide) (by decide) (by decide) i is
      (htext ▸ List.mem_cons_of_mem _ hmem)
  have hbarrier : IsBarrier 's' := ⟨by decide, by decide, by decide⟩
  have hrendered : substitute value (replaceText secretLinesPlaceholder (secretBlock s i is) tpl) =
      fillWith id (fun _ : Unit => secretBlock s i is) ([.mark ()].intercalate
        ((splitText secretLinesPlaceholder tpl).map fun p => (substitute value p).map .char)) := by
    have hpieces := fillWith_intercalate (secretBlock s i is)
      ((splitText secretLinesPlaceholder tpl).map (substitute value))
    rw [List.map_map] at hpieces
    rw [replaceText, htext, substitute_intercalate hbarrier hbrace, ← htext]
    exact hpieces.symm
  have hendings (m : Marked Unit) :
      unixEndings '\r' '\n' (fillWith id (fun _ => secretBlock s i is) m) =
        fillWith id (fun _ => secretBlock s i is) (unixEndings (.char '\r') (.char '\n') m) :=
    unixEndings_fillWith Function.injective_id (fun _ => by simp [htext]) (fun _ => by simp [htext])
      (fun _ => notMem_secretBlock hs (by decide) (by decide) (by decide) i is) m
  have hexpand (m : Marked Unit) : fillWith id (fun _ => secretBlock s i is) m =
      fillWith id (fun j => secretKey ++ s j) (expand i is m) := (fillWith_fillWith _ _ m).symm
  rw [trimEndNewlines_secretLines hs, hrendered, hendings, hexpand, lines_fillWith fun j =>
    notMem_secretLine (by decide) (by decide) (hs j)]
  rfl

/-- The secret lines are those that begin with the key, or with a mark. -/
theorem filter_isSecretLine_rendered (value : Str → Str) (tpl : Str) (i : ι) (is : List ι) :
    (strLines (substitute value (replaceText secretLinesPlaceholder
      (trimEndNewlines (secretLines ((i :: is).map s))) tpl))).filter isSecretLine =
      ((expandedLines i is (skeleton value tpl)).filter beginsSecret).map
        (fillWith id fun j => secretKey ++ s j) := by
  rw [filter_strLines (by decide), lines_rendered hs, List.filter_map]
  congr 2
  funext l
  exact isSecretLine_fillWith (fun j => List.prefix_append _ _) l

theorem any_isRealmLine_rendered (value : Str → Str) (tpl : Str) (i : ι) (is : List ι) :
    (strLines (substitute value (replaceText secretLinesPlaceholder
      (trimEndNewlines (secretLines ((i :: is).map s))) tpl))).any isRealmLine =
      (markedLines (skeleton value tpl)).any setsRealm := by
  have hany (t : Str) : (strLines t).any isRealmLine =
      (lines (unixEndings '\r' '\n' t)).any isRealmLine := by
    have hfilter (ls : List Str) : ls.any isRealmLine =
        (ls.filter isRealmLine).any isRealmLine := by
      simp only [List.any_filter, Bool.and_self]
    rw [hfilter, hfilter (lines _), filter_strLines (by decide)]
  rw [hany, lines_rendered hs, List.any_map, ← any_expandedLines i is]
  congr 1
  funext l
  exact isRealmLine_fillWith (fun j => List.prefix_append _ _) l

end Block

end PartnerEdge.Opec
