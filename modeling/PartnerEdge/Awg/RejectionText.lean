import PartnerEdge.Awg.JunkBlame
import PartnerEdge.Text.Debug

/-!
# The label of a rejected parameter

The rejection counter takes its label from the text of the error: it is the word after the first
`field=`. A validator writes that marker before anything else, with the name of its own row, so the
value that follows cannot displace it. The error of a conf without an interface section has no such
marker, but it shows the lines that could not be placed. If one of them holds a marker, its word
becomes the label.
-/

namespace PartnerEdge.Awg

open Text

/-! ## Error texts -/

def Field.name : Field → Str
  | .jc => "jc".toList
  | .jmin => "jmin".toList
  | .jmax => "jmax".toList
  | .s1 => "s1".toList
  | .s2 => "s2".toList
  | .s3 => "s3".toList
  | .s4 => "s4".toList
  | .h1 => "h1".toList
  | .h2 => "h2".toList
  | .h3 => "h3".toList
  | .h4 => "h4".toList
  | .i1 => "i1".toList
  | .i2 => "i2".toList
  | .i3 => "i3".toList
  | .i4 => "i4".toList
  | .i5 => "i5".toList
  | .headerProtectionKey => "header_protection_key".toList
  | .contentPaddingAddition => "content_padding_addition".toList
  | .rekeyAfterTime => "rekey_after_time".toList
  | .rekeyTimeout => "rekey_timeout".toList
  | .rejectAfterTime => "reject_after_time".toList
  | .keepaliveTimeout => "keepalive_timeout".toList
  | .maxHandshakeAttempts => "max_handshake_attempts".toList
  | .randomTrailers => "random_trailers".toList
  | .disableCookies => "disable_cookies".toList

def SpecKind.debug : SpecKind → Str
  | .sInt => "SInt".toList
  | .hRange => "HRange".toList
  | .rangeString => "RangeString".toList
  | .tagLiteral => "TagLiteral".toList
  | .headerProtectionKey => "HeaderProtectionKey".toList
  | .onOff => "OnOff".toList
  | .junkCount => "JunkCount".toList

def Section.debug : Section → Str
  | .interface => "Interface".toList

section Texts

variable (printer : Printer)

def FieldValue.debug : FieldValue → Str
  | .int n => "Int(".toList ++ showI64 n ++ ")".toList
  | .range lo hi => "Range(".toList ++ showI64 lo ++ ", ".toList ++ showI64 hi ++ ")".toList
  | .str s => "Str(".toList ++ printer.debugStr s ++ ")".toList
  | .bool b => "Bool(".toList ++ (if b then "true" else "false").toList ++ ")".toList

def TagFault.text : TagFault → Str
  | .unterminated => "has an unterminated `<` (upstream: missing enclosing >)".toList
  | .emptyTag => "has an empty `<>` tag".toList
  | .hexMissing => "tag <b> requires a hex argument".toList
  | .hexMalformed => "tag <b> argument must be non-empty even-length hex".toList
  | .lengthMissing key => "tag <".toList ++ key ++ "> requires a length argument".toList
  | .lengthMalformed key => "tag <".toList ++ key ++ ("> argument must be a length in 0..=65535 " ++
      "(upstream Atoi accepts negatives that panic the daemon at send)").toList
  | .unknownTag key => "has unknown tag <".toList ++ key ++ ">".toList
  | .noTag => "contains no <tag> elements (upstream parses it to an inert nil chain)".toList

/-- The common start of the errors about a field. -/
def rejected (field : Field) (why : Str) : Str :=
  "awg param rejected: field=".toList ++ (field.name ++ ' ' :: why)

def refusing : Str := " — refusing to splice into awg0.conf".toList

def noSectionLead (target : Section) : Str :=
  "conf merge: no ".toList ++ target.debug ++ " section found (cannot insert".toList

def Rejection.text : Rejection → Str
  | .forbiddenCharacter field bad => rejected field ("contains forbidden character ".toList ++
      printer.debugChar bad ++ " (conf-injection guard)".toList ++ refusing)
  | .junkValue field n => rejected field ("value ".toList ++ showI64 n ++
      " outside junk grammar 0..=4294967295 (upstream ParseUint(10,32))".toList ++ refusing)
  | .iTag field value reason => rejected field ("value ".toList ++ printer.debugStr value ++
      ' ' :: reason.text ++ refusing)
  | .sValue field n => rejected field ("value ".toList ++ showI64 n ++
      " outside S grammar 0..=65535 (u16 junk-size bound)".toList ++ refusing)
  | .hValue field lo hi => rejected field ("range ".toList ++ showI64 lo ++ '-' :: showI64 hi ++
      (" violates H grammar (need 5 <= lo <= hi <= 4294967295; 1-4 are vanilla WG " ++
        "message types)").toList ++ refusing)
  | .rangeString field value => rejected field ("value ".toList ++ printer.debugStr value ++
      " is not a `N`/`N-M` range with lo <= hi".toList ++ refusing)
  | .notBase64 field error => rejected field ("value is not valid base64 (".toList ++ error ++
      ")".toList ++ refusing)
  | .keyLength field length => rejected field ("base64-decodes to ".toList ++
      Nat.toDigits 10 length ++ " bytes, need exactly 32".toList ++ refusing)
  | .typeMismatch field kind v => rejected field ("internal type mismatch — validator ".toList ++
      kind.debug ++ " can\x27t hold ".toList ++ v.debug printer ++ " (table bug)".toList)
  | .reservedPair s2 s1 => rejected .s2 ("post-merge S2=".toList ++ showI64 s2 ++
      " equals S1+56 (S1=".toList ++ showI64 s1 ++ (") — reserved size pair upstream " ++
        "mergeWithDevice refuses; rejecting whole merge").toList)
  | .overlap field lo hi other otherLo otherHi => rejected field ("post-merge H range ".toList ++
      showI64 lo ++ '-' :: showI64 hi ++ " overlaps ".toList ++ other.name ++ ' ' ::
      showI64 otherLo ++ '-' :: showI64 otherHi ++
      " — pairwise H non-overlap violated; rejecting whole merge".toList)
  | .junkTooSmall s1 s2 s3 s4 => rejected .headerProtectionKey
      ("active HPK requires all post-merge S1-S4 >= 12 (got s1=".toList ++ showI64 s1 ++
        " s2=".toList ++ showI64 s2 ++ " s3=".toList ++ showI64 s3 ++ " s4=".toList ++ showI64 s4 ++
        ("; absent counts as 0) — upstream mergeWithDevice precondition; " ++
          "rejecting whole merge").toList)
  | .junkInverted lo hi => rejected .jmax ("post-merge jmin=".toList ++ showI64 lo ++
      " > jmax=".toList ++ showI64 hi ++ (" with no epoch-sourced member left to drop " ++
        "(pre-existing conf is inverted) — JunkPackets would underflow max-min to a ~4GiB " ++
        "allocation; rejecting whole merge").toList)
  | .noSection target lines => noSectionLead target ++
      ' ' :: (Printer.debugList (lines.map printer.debugStr) ++ [')'])

end Texts

/-! ## The label -/

def marker : Str := "field=".toList

def isLabelChar (c : Char) : Bool := c.isAlphanum || c == '_'

/-- The word after the first marker of a text, unless it is empty. -/
def markedWord (text : Str) : Option Str :=
  ((afterFirst marker text).map (·.takeWhile isLabelChar)).filter (!·.isEmpty)

/-- `extract_rejected_field` on the texts of an error's chain, the outermost first. -/
def extractRejectedField (chain : List Str) : Option Str := chain.findSome? markedWord

/-- The context that `tick` adds to an error of the merge. -/
def mergeContext : List Str :=
  ["merge+write conf under lock".toList, "merge obfuscation params".toList]

theorem extractRejectedField_mergeContext (text : Str) :
    extractRejectedField (mergeContext ++ [text]) = markedWord text := by
  have hcontext : mergeContext.findSome? markedWord = none := by decide
  rw [extractRejectedField, List.findSome?_append, hcontext, Option.none_or]
  cases hword : markedWord text <;> simp [hword]

theorem isLabelChar_name (field : Field) : ∀ c ∈ field.name, isLabelChar c = true :=
  List.all_eq_true.1 (by cases field <;> rfl)

theorem name_ne_nil (field : Field) : field.name ≠ [] := by
  cases field <;> decide

/-- A rejection names its row, whatever the value was. -/
theorem markedWord_rejected (field : Field) (why : Str) :
    markedWord (rejected field why) = some field.name := by
  have hafter : afterFirst marker (rejected field why) = some (field.name ++ ' ' :: why) := rfl
  have hword : (field.name ++ ' ' :: why).takeWhile isLabelChar = field.name := by
    rw [List.takeWhile_append_of_pos (isLabelChar_name field)]
    simp [show isLabelChar ' ' = false from rfl]
  simp [markedWord, hafter, hword, Option.filter, name_ne_nil]

theorem markedWord_text {printer : Printer} {e : Rejection} {field : Field}
    (h : e.field = some field) : markedWord (e.text printer) = some field.name := by
  cases e <;> simp only [Rejection.field, Option.some.injEq, reduceCtorEq] at h <;> subst h <;>
    exact markedWord_rejected _ _

/-- Without a marker of its own, the error of a missing section shows the markers of its lines. -/
theorem markedWord_noSection {printer : Printer} (target : Section) (lines : List Str) :
    markedWord ((Rejection.noSection target lines).text printer) =
      markedWord (Printer.debugList (lines.map printer.debugStr)) := by
  have hne : marker ≠ [] := by decide
  have hblank : ' ' ∉ marker := by decide
  have hparen : ')' ∉ marker := by decide
  have hlead : afterFirst marker (noSectionLead target) = none := by
    cases target
    decide +kernel
  have htake : ∀ rest : Str,
      (rest ++ [')']).takeWhile isLabelChar = rest.takeWhile isLabelChar := by
    intro rest
    induction rest with
    | nil => rfl
    | cons c rest ih => simp only [List.cons_append, List.takeWhile_cons, ih]
  have hafter : afterFirst marker ((Rejection.noSection target lines).text printer) =
      (afterFirst marker (Printer.debugList (lines.map printer.debugStr))).map (· ++ [')']) := by
    refine (afterFirst_append_cons hne hblank (noSectionLead target) _).trans ?_
    rw [hlead, Option.map_none, Option.none_or, afterFirst_append_cons hne hparen]
    exact Option.or_none
  rw [markedWord, hafter, markedWord, Option.map_map]
  simp only [Function.comp_def, htake]

/-! ## The errors of a merge -/

section Merge

variable (base64 : Base64) (conf : Str) (params : Option AwgParams) (defaults : ClientDefaults)

/-- The lines of the rows that have a value and no line. -/
def missingLines : List Str :=
  (fieldSpecs.filter fun spec => (spec.confRaw conf).isNone).filterMap fun spec =>
    ((spec.settled base64 conf params defaults).entry spec).map Prod.snd

/-- The lines that a merge wants to insert into a conf without an interface section. -/
def unplacedLines : Option (List Str) :=
  if (settle base64 conf params defaults).isOk &&
      !(missingLines base64 conf params defaults).isEmpty && (awgInterfaceRe.find conf).isNone then
    some (missingLines base64 conf params defaults)
  else none

variable {base64 conf params defaults} {r : Resolution} {e : Rejection}

/-- Errors before the splicing carry a marker. -/
theorem settle_error_field (h : settle base64 conf params defaults = .error e) :
    e.field.isSome = true := by
  have hsubject : ∀ {field : Field}, e.subject = some field → e.field.isSome = true := by
    intro field
    cases e <;> simp [Rejection.subject, Rejection.field]
  unfold settle at h
  rcases error_of_bind h with h | ⟨r, -, h⟩
  · obtain ⟨_, _, -, hstep⟩ := exists_of_foldlM_error h
    exact hsubject (resolve_error_subject hstep)
  rcases error_of_bind h with h | ⟨_, -, h⟩
  · rcases checkPreconditions_error h with ⟨_, _, rfl⟩ | ⟨_, _, _, _, _, _, rfl⟩ |
      ⟨_, _, _, _, rfl⟩ <;> rfl
  · rw [softenJunk_eq] at h
    cases hfirst : junkInversion r.effective <;> rw [hfirst] at h
    · cases h
    · cases hlast : junkInversion (giveUpJunk conf params r).effective <;> rw [hlast] at h
      · cases h
      · cases h
        rfl

theorem splice_error_iff (h : Sound base64 conf fieldSpecs r) : splice conf r = .error e ↔
    r.inserts ≠ [] ∧ awgInterfaceRe.find conf = none ∧
      e = .noSection .interface (r.inserts.map Prod.snd) := by
  have hnl : ∀ e ∈ r.replaces, '\n' ∉ e.2 := fun e he =>
    (h.writes (List.mem_append_left _ he)).2.newline_notMem
  have hfind : awgInterfaceRe.find (replaceLines conf r.replaces) = none ↔
      awgInterfaceRe.find conf = none := by
    obtain ⟨hreplaced, hls⟩ := replaceLines_joinLines hnl (areLines_lines conf)
    rw [joinLines_lines] at hreplaced
    rw [← Option.map_eq_none_iff (f := Match.group), awgInterfaceRe_matchesLines.find_group,
      hreplaced, lines_joinLines hls, ← Option.map_eq_none_iff (f := Match.group),
      awgInterfaceRe_matchesLines.find_group]
    simp [List.findSome?_eq_none_iff, captureHeader_replaceLine h.captures]
  unfold splice
  by_cases hinserts : r.inserts = []
  · simp [hinserts, groupBySection, pure, Except.pure]
  · rw [groupBySection_eq hinserts]
    have hone : insertBlock (replaceLines conf r.replaces) .interface (r.inserts.map Prod.snd) =
        .error e ↔ awgInterfaceRe.find conf = none ∧
          e = .noSection .interface (r.inserts.map Prod.snd) := by
      rw [← hfind, insertBlock, show Section.interface.headerRe = awgInterfaceRe from rfl]
      cases awgInterfaceRe.find (replaceLines conf r.replaces) <;> grind
    simpa [hinserts] using hone

theorem inserts_of_settle (h : settle base64 conf params defaults = .ok r) :
    r.inserts.map Prod.snd = missingLines base64 conf params defaults := by
  obtain ⟨-, -, -, rfl⟩ := settle_eq_ok_iff.mp h
  exact List.map_filterMap ..

theorem merge_error_noSection_iff {lines : List Str} :
    mergeObfuscationParamsReporting base64 conf params defaults =
        .error (.noSection .interface lines) ↔
      unplacedLines base64 conf params defaults = some lines := by
  rw [merge_eq_settle, unplacedLines]
  cases hr : settle base64 conf params defaults with
  | error e =>
    have hfield := settle_error_field hr
    have hne : e ≠ .noSection .interface lines := by
      rintro rfl
      cases hfield
    simpa [bind, Except.bind, Except.isOk, Except.toBool] using hne
  | ok r =>
    have hmap : (splice conf r).map (·, r.dropped) = .error (.noSection .interface lines) ↔
        splice conf r = .error (.noSection .interface lines) := by
      cases splice conf r <;> simp [Except.map]
    refine hmap.trans ((splice_error_iff (sound_of_settle hr)).trans ?_)
    rw [← inserts_of_settle hr]
    simp [Except.isOk, Except.toBool, and_assoc, @eq_comm _ lines]

theorem merge_error_cases
    (h : mergeObfuscationParamsReporting base64 conf params defaults = .error e) :
    (∃ field, e.field = some field) ∨ ∃ lines, e = .noSection .interface lines := by
  rw [merge_eq_settle] at h
  rcases error_of_bind h with h | ⟨r, hr, h⟩
  · exact .inl (Option.isSome_iff_exists.mp (settle_error_field h))
  · cases hsplice : splice conf r with
    | ok out => simp [hsplice, Except.map] at h
    | error e' =>
      obtain ⟨-, -, rfl⟩ := (splice_error_iff (sound_of_settle hr)).mp hsplice
      simp only [hsplice, Except.map, Except.error.injEq] at h
      exact .inr ⟨_, h.symm⟩

/-- For any conf, payload and defaults: every error of the merge, with the agent's context, is
counted under the name of a row or not at all, exactly when the lines that found no section show no
marker with another word. -/
theorem rejectionLabel_iff (printer : Printer) (base64 : Base64) (conf : Str)
    (params : Option AwgParams) (defaults : ClientDefaults) :
    (∀ e, mergeObfuscationParamsReporting base64 conf params defaults = .error e →
      ∀ label ∈ extractRejectedField (mergeContext ++ [e.text printer]),
        ∃ spec ∈ fieldSpecs, label = spec.field.name) ↔
    ∀ lines ∈ unplacedLines base64 conf params defaults,
      ∀ label ∈ markedWord (Printer.debugList (lines.map printer.debugStr)),
        ∃ spec ∈ fieldSpecs, label = spec.field.name := by
  simp only [extractRejectedField_mergeContext]
  constructor
  · intro hall lines hlines label hlabel
    refine hall _ (merge_error_noSection_iff.mpr hlines) label ?_
    rw [markedWord_noSection]
    exact hlabel
  · intro hall e he label hlabel
    rcases merge_error_cases he with ⟨field, hfield⟩ | ⟨lines, rfl⟩
    · rw [markedWord_text hfield] at hlabel
      cases hlabel
      obtain ⟨spec, hspec, rfl⟩ := exists_spec field
      exact ⟨spec, hspec, rfl⟩
    · rw [markedWord_noSection] at hlabel
      exact hall lines (merge_error_noSection_iff.mp he) label hlabel

end Merge

/-- A payload whose `I1` is within the grammar and holds a marker. -/
def markedPayload : AwgParams := { samplePayload with i1 := some "<t field=evil>".toList }

def markedLines : List Str := ["Jc = 4", "Jmin = 50", "Jmax = 60", "S1 = 20", "S2 = 30", "S3 = 12",
  "S4 = 16", "H1 = 5", "H2 = 6-8", "H3 = 9", "H4 = 10", "I1 = <t field=evil>",
  "HeaderProtectionKey = AAAAAAAAAAAAAAAAAAAAAAAAAAAAAAAAAAAAAAAAAAE=",
  "ContentPaddingAddition = 8-20"].map String.toList

theorem debugStr_markedLines (printer : Printer) :
    markedLines.map printer.debugStr = markedLines.map fun l => '"' :: l ++ ['"'] := by
  have hplain : markedLines.all
      (·.all fun c => (' ' ≤ c ∧ c ≤ '~') ∧ c ≠ '"' ∧ c ≠ '\\') = true := by
    decide +kernel
  refine List.map_congr_left fun l hl => printer.debugStr_eq fun c hc => ?_
  exact of_decide_eq_true (List.all_eq_true.mp (List.all_eq_true.mp hplain l hl) c hc)

/-- On a conf without an interface section the payload chooses the label. -/
theorem rejectionLabel_evil :
    mergeObfuscationParamsReporting .standard "[Peer]".toList (some markedPayload) sampleDefaults =
      .error (.noSection .interface markedLines) ∧
    ∀ printer : Printer, extractRejectedField
      (mergeContext ++ [(Rejection.noSection .interface markedLines).text printer]) =
        some "evil".toList := by
  refine ⟨by decide +kernel, fun printer => ?_⟩
  rw [extractRejectedField_mergeContext, markedWord_noSection, debugStr_markedLines]
  decide +kernel

end PartnerEdge.Awg
