import PartnerEdge.Opec.CoturnLines
import PartnerEdge.Parsing.Fallible

/-!
# The secrets of a rendered configuration

Only the number of secret lines is checked. It can be right for a template that has the key in a
line of its own, or text around the placeholder: such a template is written with other secret lines
than those of the node. Where a line is the bare placeholder, the check leaves room for no other.
-/

namespace PartnerEdge.Opec

open Text

/-- The template sets a realm and its secret lines can have the right number, but no line of it is
the bare placeholder. -/
structure Misplaced (m : Marked Unit) : Prop where
  realm : (markedLines m).any setsRealm = true
  notBare : [.mark ()] ∉ markedLines m
  count : (markedLines m).countP beginsSecret = 1 ∨
    (markedLines m).countP beginsSecret + m.countP isMark = 2

/-! ## What was read -/

theorem foldlM_pushSecret {ls : List (Str × Nat)} {out secrets : List Str}
    (h : ls.foldlM pushSecret out = .ok secrets) :
    secrets = out ++ ls.map Prod.fst ∧ ∀ l ∈ ls, l.1.all isB64url = true := by
  induction ls generalizing out with
  | nil =>
    cases h
    exact ⟨by simp, by simp⟩
  | cons l ls ih =>
    rw [List.foldlM_cons] at h
    obtain ⟨out', hl, h⟩ := exists_of_bind_ok h
    obtain ⟨hsecrets, hls⟩ := ih h
    unfold pushSecret at hl
    split at hl
    · cases hl
    · next hvalid =>
      split at hl
      · cases hl
      · cases hl
        rw [Bool.or_eq_true, not_or, Bool.not_eq_true', Bool.not_eq_false] at hvalid
        exact ⟨by simp [hsecrets], List.forall_mem_cons.2 ⟨hvalid.2, hls⟩⟩

theorem parseSecrets_eq_ok {text : Str} {secrets : List Str} (h : parseSecrets text = .ok secrets) :
    secrets ≠ [] ∧ secrets.length ≤ 2 ∧ ∀ s ∈ secrets, s.all isB64url = true := by
  unfold parseSecrets at h
  dsimp only at h
  split at h
  · cases h
  · split at h
    · cases h
    · next hcount =>
      obtain ⟨heq, hall⟩ := foldlM_pushSecret h
      rw [List.nil_append, List.zipIdx_map_fst] at heq
      subst heq
      refine ⟨List.splitOn_ne_nil _ _, Nat.not_lt.1 hcount, fun s hs => ?_⟩
      rw [← List.zipIdx_map_fst 0 (lines _), List.mem_map] at hs
      obtain ⟨l, hl, rfl⟩ := hs
      exact hall l hl

theorem readNodeSecrets_eq_ok {euid : Nat} {file : SecretFile} {secrets : List Str}
    (h : readNodeSecrets euid file = .ok secrets) :
    secrets ≠ [] ∧ secrets.length ≤ 2 ∧ ∀ s ∈ secrets, s.all isB64url = true := by
  unfold readNodeSecrets at h
  repeat' split at h
  all_goals first | cases h | exact parseSecrets_eq_ok (mapError_eq_ok_iff.1 h)

/-! ## What was written -/

theorem written_of_result_error {site : Site} {file : SecretFile} {e : RenderError}
    (h : (renderWithSecretFile site file).result = .error e) :
    (renderWithSecretFile site file).written = none := by
  unfold renderWithSecretFile writeAtomic at *
  split at h
  · rfl
  · split at h
    · cases h
    · next hpersists => simp [hpersists]

/-- The text of the template with the secrets and the variables filled in. -/
def renderedText (value : Str → Str) (tpl : Str) (secrets : List Str) : Str :=
  substitute value (replaceText secretLinesPlaceholder (trimEndNewlines (secretLines secrets)) tpl)

theorem checkCount_eq_ok_iff {rendered : Str} {expected : Nat} {u : Unit} :
    checkCount rendered expected = .ok u ↔
      ((strLines rendered).filter isSecretLine).length = expected := by
  unfold checkCount
  dsimp only
  split
  · next hcount => exact iff_of_false (by simp) hcount
  · next hcount => exact iff_of_true rfl (not_not.1 hcount)

theorem checkRealm_eq_ok_iff {rendered : Str} {u : Unit} :
    checkRealm rendered = .ok u ↔ (strLines rendered).any isRealmLine = true := by
  unfold checkRealm
  split
  · next hrealm => exact iff_of_true rfl hrealm
  · next hrealm => exact iff_of_false (by simp) hrealm

theorem renderStringPre_eq_ok_iff {tpl : Str} {site : Site} (hsrc : site.src = some (some tpl))
    {pre : Str → Str} {text : Str} : renderStringPre site pre = .ok text ↔
      site.dstDir = true ∧ substitute site.value (pre tpl) = text := by
  unfold renderStringPre
  rw [hsrc]
  cases site.dstDir with
  | false => simp
  | true => simp

theorem renderChecked_eq_ok_iff {tpl : Str} {site : Site} (hsrc : site.src = some (some tpl))
    {file : SecretFile} {secrets : List Str} (hread : readNodeSecrets site.euid file = .ok secrets)
    {text : Str} : renderChecked site file = .ok text ↔
      site.dstDir = true ∧ text = renderedText site.value tpl secrets ∧
      ((strLines text).filter isSecretLine).length = secrets.length ∧
      (strLines text).any isRealmLine = true := by
  simp only [renderChecked, bind_eq_ok_iff, hread, renderStringPre_eq_ok_iff hsrc,
    checkCount_eq_ok_iff, checkRealm_eq_ok_iff, pure, Except.pure, Except.ok.injEq]
  constructor
  · rintro ⟨_, rfl, _, ⟨hdir, rfl⟩, _, hcount, _, hrealm, rfl⟩
    exact ⟨hdir, rfl, hcount, hrealm⟩
  · rintro ⟨hdir, rfl, hcount, hrealm⟩
    exact ⟨secrets, rfl, _, ⟨hdir, rfl⟩, (), hcount, (), hrealm, rfl⟩

theorem result_ok_iff {site : Site} {file : SecretFile} :
    (renderWithSecretFile site file).result = .ok () ↔ site.persists = true ∧
      ∃ text, renderChecked site file = .ok text ∧
        (renderWithSecretFile site file).written = some text := by
  unfold renderWithSecretFile writeAtomic
  cases renderChecked site file with
  | error e => simp
  | ok text =>
    cases site.persists with
    | false => simp
    | true => simp

/-! ## Secrets and marks -/

section Marks

variable {ι : Type}

variable {s s' : ι → Str} {n : Nat} (hlength : ∀ j, (s j).length = n) (hinj : Function.Injective s)
  (hne : ∀ j, s j ≠ s' j)
include hlength hinj hne

/-- A line that becomes that of a secret, for secrets that have nothing in common, is its mark. -/
theorem eq_mark_of_fillWith {x : Marked ι} {j : ι}
    (h : fillWith id (fun j => secretKey ++ s j) x = secretKey ++ s j)
    (h' : fillWith id (fun j => secretKey ++ s' j) x = secretKey ++ s' j) : x = [.mark j] := by
  rcases eq_lead_or_mark x with hx | ⟨i, rest, hx⟩
  · rw [hx, fillWith_char_map] at h h'
    exact absurd (List.append_cancel_left (h.symm.trans h')) (hne j)
  · rw [hx, fillWith_append, fillWith_char_map, fillWith_mark] at h
    have hcount := congrArg List.length h
    simp only [List.length_append, hlength] at hcount
    have hnil : leadText x = [] := List.length_eq_zero_iff.1 (by omega)
    have hkey (i : ι) : secretKey ++ s i ≠ [] := List.append_ne_nil_of_left_ne_nil (by decide) _
    have hrest : rest = [] := eq_nil_of_fillWith hkey (List.length_eq_zero_iff.1 (by omega))
    subst hrest
    rw [hnil, fillWith_nil, List.nil_append, List.append_nil] at h
    rw [hx, hnil, hinj (List.append_cancel_left h)]
    rfl

theorem eq_marks_of_map_fillWith {xs : List (Marked ι)} {js : List ι}
    (h : xs.map (fillWith id fun j => secretKey ++ s j) = js.map fun j => secretKey ++ s j)
    (h' : xs.map (fillWith id fun j => secretKey ++ s' j) = js.map fun j => secretKey ++ s' j) :
    xs = js.map fun j => [.mark j] := by
  induction xs generalizing js with
  | nil =>
    cases js with
    | nil => rfl
    | cons j js => cases h
  | cons x xs ih =>
    cases js with
    | nil => cases h
    | cons j js =>
      obtain ⟨hx, hxs⟩ := List.cons.inj h
      obtain ⟨hx', hxs'⟩ := List.cons.inj h'
      rw [eq_mark_of_fillWith hlength hinj hne hx hx', ih hxs hxs']
      rfl

end Marks

/-! ## The secrets of the node -/

/-- The result of a rendering with the secrets of a file: on success, the secret lines of what was
written are those of the secrets; on failure, nothing was written. -/
def CarriesSecrets (site : Site) (file : SecretFile) : Prop :=
  ∀ secrets, readNodeSecrets site.euid file = .ok secrets →
    ((renderWithSecretFile site file).result = .ok () →
      ∃ text, (renderWithSecretFile site file).written = some text ∧
        (strLines text).filter isSecretLine = secrets.map (secretKey ++ ·)) ∧
    ∀ e, (renderWithSecretFile site file).result = .error e →
      (renderWithSecretFile site file).written = none

section Template

variable {tpl : Str} {site : Site} (hsrc : site.src = some (some tpl))
include hsrc

theorem carriesSecrets_of_not_misplaced (h : ¬Misplaced (skeleton site.value tpl))
    (file : SecretFile) : CarriesSecrets site file := by
  intro secrets hread
  refine ⟨fun hok => ?_, fun e => written_of_result_error⟩
  obtain ⟨-, text, hchecked, hwritten⟩ := result_ok_iff.1 hok
  obtain ⟨-, rfl, hcount, hrealm⟩ := (renderChecked_eq_ok_iff hsrc hread).1 hchecked
  refine ⟨_, hwritten, ?_⟩
  obtain ⟨hne, hle, hall⟩ := readNodeSecrets_eq_ok hread
  lift secrets to List {t : Str // t.all isB64url = true} using hall
  cases secrets with
  | nil => exact absurd rfl hne
  | cons i is =>
    have hs (j : {t : Str // t.all isB64url = true}) : j.1.all isB64url = true := j.2
    rw [renderedText, filter_isSecretLine_rendered hs, List.length_map,
      ← List.countP_eq_length_filter, List.length_map, List.length_cons] at hcount
    rw [renderedText, any_isRealmLine_rendered hs] at hrealm
    have hbare : [.mark ()] ∈ markedLines (skeleton site.value tpl) := by
      by_contra hbare
      refine h ⟨hrealm, hbare, ?_⟩
      rw [countP_expandedLines] at hcount
      rw [List.length_map, List.length_cons] at hle
      obtain hone | htwo : is.length = 0 ∨ is.length = 1 := by omega
      · rw [hone, Nat.zero_mul] at hcount
        exact .inl hcount
      · rw [htwo, Nat.one_mul] at hcount
        exact .inr hcount
    rw [renderedText, filter_isSecretLine_rendered hs,
      filter_expandedLines_of_bare i is hbare hcount, List.map_map, List.map_map]
    simp

/-- Where the checks leave the secrets alone, those of the node are in the lines of the skeleton. -/
theorem map_fillWith_of_carriesSecrets {ι : Type} [DecidableEq ι] {s : ι → Str}
    (hs : ∀ j, (s j).all isB64url = true) {i : ι} {is : List ι} {file : SecretFile}
    (hread : readNodeSecrets site.euid file = .ok ((i :: is).map s)) (hdir : site.dstDir = true)
    (hpersists : site.persists = true)
    (hcount : (expandedLines i is (skeleton site.value tpl)).countP beginsSecret = is.length + 1)
    (hrealm : (markedLines (skeleton site.value tpl)).any setsRealm = true)
    (h : CarriesSecrets site file) :
    ((expandedLines i is (skeleton site.value tpl)).filter beginsSecret).map
      (fillWith id fun j => secretKey ++ s j) = (i :: is).map fun j => secretKey ++ s j := by
  have hchecked : renderChecked site file =
      .ok (renderedText site.value tpl ((i :: is).map s)) := by
    refine (renderChecked_eq_ok_iff hsrc hread).2 ⟨hdir, rfl, ?_, ?_⟩
    · rw [renderedText, filter_isSecretLine_rendered hs, List.length_map,
        ← List.countP_eq_length_filter, hcount, List.length_map, List.length_cons]
    · rw [renderedText, any_isRealmLine_rendered hs, hrealm]
  have hwritten : renderWithSecretFile site file =
      ⟨.ok (), some (renderedText site.value tpl ((i :: is).map s))⟩ := by
    rw [renderWithSecretFile, hchecked]
    dsimp only
    rw [writeAtomic, if_pos hpersists]
  obtain ⟨text, htext, hlines⟩ := (h _ hread).1 (by rw [hwritten])
  rw [hwritten] at htext
  cases htext
  rw [renderedText, filter_isSecretLine_rendered hs, List.map_map] at hlines
  exact hlines

end Template

/-- A file of the secrets, as it has to be. -/
def nodeFile (secrets : List Str) : SecretFile :=
  ⟨true, true, true, 0o600, 1, 0, some (joinLines secrets)⟩

/-- Two secrets, and the same two the other way around. -/
def sampleSecret (swapped other : Bool) : Str :=
  List.replicate 43 (if swapped = other then 'a' else 'b')

theorem readNodeSecrets_sample {is : List Bool} (his : is = [] ∨ is = [true]) (swapped : Bool) :
    readNodeSecrets 0 (nodeFile ((false :: is).map (sampleSecret swapped))) =
      .ok ((false :: is).map (sampleSecret swapped)) := by
  rcases his with rfl | rfl
  · cases swapped
    · decide +kernel
    · decide +kernel
  · cases swapped
    · decide +kernel
    · decide +kernel

theorem not_misplaced_of_carriesSecrets {tpl : Str} {site : Site}
    (hsrc : site.src = some (some tpl)) (hdir : site.dstDir = true) (heuid : site.euid = 0)
    (hpersists : site.persists = true) (h : ∀ file, CarriesSecrets site file) :
    ¬Misplaced (skeleton site.value tpl) := by
  rintro ⟨hrealm, hbare, hcount⟩
  obtain ⟨is, his, hcount⟩ : ∃ is : List Bool, (is = [] ∨ is = [true]) ∧
      (expandedLines false is (skeleton site.value tpl)).countP beginsSecret = is.length + 1 := by
    rcases hcount with hone | htwo
    · refine ⟨[], .inl rfl, ?_⟩
      rw [countP_expandedLines, hone]
      simp
    · refine ⟨[true], .inr rfl, ?_⟩
      rw [countP_expandedLines]
      simpa using htwo
  have hs (swapped j : Bool) : (sampleSecret swapped j).all isB64url = true := by
    cases swapped
    · cases j
      · decide
      · decide
    · cases j
      · decide
      · decide
  have hmap (swapped : Bool) := map_fillWith_of_carriesSecrets hsrc (hs swapped)
    (heuid ▸ readNodeSecrets_sample his swapped) hdir hpersists hcount hrealm (h _)
  have hmarks := eq_marks_of_map_fillWith (n := 43) (fun j => List.length_replicate)
    (by decide) (by decide) (hmap false) (hmap true)
  have hfalse : false ∉ is := by
    rcases his with rfl | rfl
    · simp
    · simp
  refine hbare (bare_of_filter hfalse ?_ fun x hx hbegins => ?_)
  · refine List.mem_of_mem_filter (p := beginsSecret) ?_
    rw [hmarks]
    exact List.mem_cons_self
  · have hmem := List.mem_filter.2 ⟨hx, hbegins⟩
    rw [hmarks, List.mem_map] at hmem
    obtain ⟨j, -, hj⟩ := hmem
    exact ⟨j, hj.symm⟩

/-- For every template and environment, a rendering always carries the secrets of the node if and
only if the template is not misplaced. -/
theorem carries_secrets_iff_not_misplaced (tpl : Str) (env : Str → Option Str) :
    (∀ site file, site.src = some (some tpl) → site.env = env → CarriesSecrets site file) ↔
      ¬Misplaced (skeleton (fun name => (env name).getD []) tpl) := by
  constructor
  · intro h
    exact @not_misplaced_of_carriesSecrets tpl ⟨some (some tpl), true, env, 0, true⟩ rfl rfl rfl rfl
      fun file => h _ file rfl rfl
  · rintro h site file hsrc rfl
    exact carriesSecrets_of_not_misplaced hsrc h file

def hardcodedTemplate : Str := "realm=example.org\nstatic-auth-secret=other\n".toList

def hardcodedSite : Site := ⟨some (some hardcodedTemplate), true, fun _ => none, 0, true⟩

/-- A template with a secret of its own and no placeholder is written as it is, and the secret of
the node is not in it. -/
theorem hardcoded_secret_written :
    renderWithSecretFile hardcodedSite (nodeFile [sampleSecret false false]) =
      ⟨.ok (), some hardcodedTemplate⟩ ∧
    ¬CarriesSecrets hardcodedSite (nodeFile [sampleSecret false false]) := by
  have hwritten : renderWithSecretFile hardcodedSite (nodeFile [sampleSecret false false]) =
      ⟨.ok (), some hardcodedTemplate⟩ := by decide +kernel
  refine ⟨hwritten, fun h => ?_⟩
  have hread : readNodeSecrets hardcodedSite.euid (nodeFile [sampleSecret false false]) =
      .ok [sampleSecret false false] := by decide +kernel
  obtain ⟨text, htext, hlines⟩ := (h _ hread).1 (by rw [hwritten])
  rw [hwritten] at htext
  cases htext
  exact absurd hlines (by decide +kernel)

end PartnerEdge.Opec
