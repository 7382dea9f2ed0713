import PartnerEdge.Awg.Install
import PartnerEdge.Awg.TopUp

/-!
# The rows of a written conf

A render is told from its text row by row: the keys are letters and digits, and every value that
passed its guard stands on one line. The agent reads each row back with the number that the
installer compared, so the conf is described by the variables that it was rendered from.
-/

namespace PartnerEdge.Awg

open Text

/-! ## Rows -/

/-- The row can be told from its text: a key of letters and digits, a value of one line. -/
structure IsRow (row : Str × Str) : Prop where
  key_ne_nil : row.1 ≠ []
  key_alphanum : row.1.all Char.isAlphanum = true
  newline_notMem : '\n' ∉ row.2

theorem takeWhile_assign {row : Str × Str} (h : IsRow row) :
    (assign row).takeWhile Char.isAlphanum = row.1 := by
  rw [assign, List.append_assoc, List.takeWhile_append_of_pos (List.all_eq_true.mp h.key_alphanum)]
  simp

theorem newline_notMem_assign {row : Str × Str} (h : IsRow row) : '\n' ∉ assign row := by
  have hkey := newline_notMem_of_all_isAlphanum h.key_alphanum
  simp [assign, hkey, h.newline_notMem]

theorem captureField_assign {row : Str × Str} (h : IsRow row) (spec : FieldSpec) :
    captureField spec.key (assign row) =
      if spec.key = row.1 then some (row.2.dropWhile isBlank) else none := by
  split
  · next hkey =>
    have hpre : spec.key <+: spec.key ++ (" = ".toList ++ row.2) := List.prefix_append _ _
    rw [assign, ← hkey, List.append_assoc, captureField, if_pos hpre, List.drop_left]
    rfl
  · next hkey =>
    cases hcapture : captureField spec.key (assign row) with
    | none => rfl
    | some v =>
      have hown := @key_eq_takeWhile spec (assign row) (by simp [hcapture])
      exact absurd (hown.trans (takeWhile_assign h)) hkey

theorem findSome?_assign {rows : List (Str × Str)} (h : ∀ row ∈ rows, IsRow row)
    (spec : FieldSpec) :
    (rows.map assign).findSome? (captureField spec.key) =
      (rows.lookup spec.key).map (·.dropWhile isBlank) := by
  induction rows with
  | nil => rfl
  | cons row rows ih =>
    obtain ⟨hrow, hrows⟩ := List.forall_mem_cons.mp h
    rw [List.map_cons, List.findSome?_cons, captureField_assign hrow, List.lookup_cons]
    by_cases hkey : spec.key = row.1
    · simp [hkey]
    · have hbeq : (spec.key == row.1) = false := by simpa using hkey
      simp [hkey, hbeq, ih hrows]

/-- The conf has a header, and of each key of the table the rows have what the agent reads. -/
structure HasRows (conf : Str) (rows : List (Str × Str)) : Prop where
  header : ∃ l ∈ lines conf, (captureHeader l).isSome = true
  confRaw : ∀ spec : FieldSpec, spec.confRaw conf =
    (rows.lookup spec.key).map (·.dropWhile isBlank)

theorem captureField_eq_none_of_takeWhile {spec : FieldSpec} {l : Str}
    (h : l.takeWhile Char.isAlphanum = []) : captureField spec.key l = none := by
  cases hcapture : captureField spec.key l with
  | none => rfl
  | some v =>
    have hown := @key_eq_takeWhile spec l (by simp [hcapture])
    exact absurd (hown.trans h) spec.key_ne_nil

theorem hasRows_confLines {interface peer : List (Str × Str)}
    (hinterface : ∀ row ∈ interface, IsRow row) (hpeer : ∀ row ∈ peer, IsRow row) :
    HasRows (joinLines (confLines interface peer)) (interface ++ peer) := by
  have hlines : lines (joinLines (confLines interface peer)) = confLines interface peer := by
    refine lines_joinLines ⟨by simp [confLines], ?_⟩
    simp only [confLines, List.cons_append, List.mem_cons, List.mem_append, List.mem_map]
    rintro l (rfl | ((⟨row, hrow, rfl⟩ | rfl | rfl | hnil) | ⟨row, hrow, rfl⟩) | rfl | hnil)
    · decide
    · exact newline_notMem_assign (hinterface row hrow)
    · decide
    · decide
    · cases hnil
    · exact newline_notMem_assign (hpeer row hrow)
    · decide
    · cases hnil
  constructor
  · rw [hlines]
    exact ⟨_, List.mem_append_left _ (List.mem_append_left _ (List.mem_append_left _
      (List.mem_cons_self ..))), by decide⟩
  · intro spec
    rw [FieldSpec.confRaw_eq, hlines, ← findSome?_assign (by grind) spec, confLines]
    have hheader : captureField spec.key "[Interface]".toList = none :=
      captureField_eq_none_of_takeWhile (by decide)
    have hblank : captureField spec.key [] = none :=
      captureField_eq_none_of_takeWhile (by decide)
    have hpeerHeader : captureField spec.key "[Peer]".toList = none :=
      captureField_eq_none_of_takeWhile (by decide)
    simp only [List.findSome?_append, List.findSome?_cons, List.findSome?_nil, List.cons_append,
      hheader, hblank, hpeerHeader, List.map_append, Option.or_none]

/-! ## Reading rows back -/

section ReadBack

variable {conf : Str} {rows : List (Str × Str)} {spec : FieldSpec} {s lo hi : Str} {n : Nat}

theorem HasRows.readBack (h : HasRows conf rows) (hspec : spec ∈ fieldSpecs) :
    readBack conf spec.field = (rows.lookup spec.key).bind spec.parseConfValue := by
  rw [readBack_eq hspec, FieldSpec.confValue, h.confRaw, Option.bind_map]
  congr 1
  funext value
  exact parseConfValue_dropWhile spec value

theorem isDigitsUpTo_iff : isDigitsUpTo n s = true ↔
    (s ≠ [] ∧ s.all Char.isDigit = true) ∧ s.length ≤ n := by
  simp [isDigitsUpTo, isDigits]

theorem isWhitespace_of_isDigitsUpTo (h : isDigitsUpTo n s = true) :
    ∀ c ∈ s, isWhitespace c = false := by
  intro c hc
  have hdigit := List.all_eq_true.mp (isDigitsUpTo_iff.mp h).1.2 c hc
  exact isWhitespace_of_isAlphanum (by simp [Char.isAlphanum, hdigit])

theorem dash_notMem_of_isDigitsUpTo (h : isDigitsUpTo n s = true) : '-' ∉ s := by
  intro hmem
  exact absurd (List.all_eq_true.mp (isDigitsUpTo_iff.mp h).1.2 _ hmem) (by decide)

/-- The agent reads the number that the installer compared. -/
theorem parseI64_of_isDigitsUpTo (h : isDigitsUpTo n s = true) (hn : n ≤ 18) :
    parseI64 s = some (base10 s) := by
  obtain ⟨⟨hne, hall⟩, hlength⟩ := isDigitsUpTo_iff.mp h
  exact parseI64_of_digits hne hall (hlength.trans hn)

theorem parseConfValue_of_isDigitsUpTo (hkind : spec.kind = .sInt ∨ spec.kind = .junkCount)
    (h : isDigitsUpTo n s = true) (hn : n ≤ 18) :
    spec.parseConfValue s = some (.int (base10 s)) := by
  have htrim := trim_eq_self (isWhitespace_of_isDigitsUpTo h)
  have hne := (isDigitsUpTo_iff.mp h).1.1
  rcases hkind with hkind | hkind <;>
    simp [FieldSpec.parseConfValue, htrim, hne, hkind, parseI64_of_isDigitsUpTo h hn]

theorem awgHParse_cases (h : awgHParse s = some (lo, hi)) :
    isDigitsUpTo 10 lo = true ∧ isDigitsUpTo 10 hi = true ∧
      (s = lo ++ '-' :: hi ∨ s = lo ∧ s = hi) := by
  obtain ⟨hbounds, -⟩ := Option.filter_eq_some_iff.mp h
  unfold rangeBounds at hbounds
  split at hbounds
  · next hsplit =>
    rw [Option.ite_none_right_eq_some, Option.some.injEq, Prod.mk.injEq,
      Bool.and_eq_true] at hbounds
    obtain ⟨⟨hlo, hhi⟩, rfl, rfl⟩ := hbounds
    exact ⟨hlo, hhi, .inl (splitOnce_eq_some hsplit)⟩
  · rw [Option.ite_none_right_eq_some, Option.some.injEq, Prod.mk.injEq] at hbounds
    obtain ⟨hs, rfl, rfl⟩ := hbounds
    exact ⟨hs, hs, .inr ⟨rfl, rfl⟩⟩

theorem parseConfValue_of_awgHParse (hkind : spec.kind = .hRange)
    (h : awgHParse s = some (lo, hi)) :
    (spec.parseConfValue s).bind FieldValue.interval = some (base10 lo, base10 hi) := by
  obtain ⟨hlo, hhi, rfl | ⟨rfl, rfl⟩⟩ := awgHParse_cases h
  · have hspace : ∀ c ∈ lo ++ '-' :: hi, isWhitespace c = false := by
      have hlo := isWhitespace_of_isDigitsUpTo hlo
      have hhi := isWhitespace_of_isDigitsUpTo hhi
      have hdash : isWhitespace '-' = false := rfl
      grind
    simp [FieldSpec.parseConfValue, trim_eq_self hspace, hkind, IntOrRange.parse,
      splitOnce_append (dash_notMem_of_isDigitsUpTo hlo), parseI64_of_isDigitsUpTo hlo (by decide),
      parseI64_of_isDigitsUpTo hhi (by decide), FieldValue.ofIntOrRange, FieldValue.interval]
  · have hne := (isDigitsUpTo_iff.mp hlo).1.1
    simp [FieldSpec.parseConfValue, trim_eq_self (isWhitespace_of_isDigitsUpTo hlo), hne, hkind,
      IntOrRange.parse, splitOnce_of_notMem (dash_notMem_of_isDigitsUpTo hlo),
      parseI64_of_isDigitsUpTo hlo (by decide), FieldValue.ofIntOrRange, FieldValue.interval]

end ReadBack

/-! ## The rows of a written conf -/

/-- The row of an optional variable. -/
def optRow (key value : Str) (validator : Str → Bool) : List (Str × Str) :=
  if !value.isEmpty && awgConfSafe value && validator value then [(key, value)] else []

section Written

variable {base64 : Base64} {python : base64.Lenient} {vars : RegisterVars} {host : Host}

theorem newline_notMem_of_awgConfSafe {value : Str} (h : awgConfSafe value = true) :
    '\n' ∉ value := by
  intro hmem
  simp only [awgConfSafe, Bool.not_eq_true', List.any_eq_false] at h
  exact absurd (h _ hmem) (by decide)

theorem isRow_of_mem_optRow {key value : Str} {validator : Str → Bool} (hne : key ≠ [])
    (halphanum : key.all Char.isAlphanum = true) {row : Str × Str}
    (h : row ∈ optRow key value validator) : IsRow row := by
  unfold optRow at h
  split at h
  · next hok =>
    obtain rfl := List.mem_singleton.mp h
    simp only [Bool.and_eq_true] at hok
    exact ⟨hne, halphanum, newline_notMem_of_awgConfSafe hok.1.2⟩
  · cases h

theorem key_of_mem_optRow {key value : Str} {validator : Str → Bool} {row : Str × Str}
    (h : row ∈ optRow key value validator) : row.1 = key := by
  unfold optRow at h
  grind

theorem rows_awgOpt {drop : OptLines → Str → OptLines}
    (hdrop : ∀ acc why, (drop acc why).rows = acc.rows)
    (label key value : Str) (validator : Str → Bool) (acc : OptLines) :
    (awgOpt drop label key value validator acc).rows = acc.rows ++ optRow key value validator := by
  unfold awgOpt optRow
  by_cases hempty : value.isEmpty = true
  · simp only [hempty, if_true, Bool.not_true, Bool.false_and, Bool.false_eq_true, if_false,
      List.append_nil]
  by_cases hsafe : awgConfSafe value = true
  · by_cases hvalid : validator value = true
    · simp [hempty, hsafe, hvalid, OptLines.addRow]
    · simp [hempty, hsafe, hvalid, hdrop]
  · simp [hempty, hsafe, hdrop]

/-- When the key gets its row. -/
def rendersKey (python : base64.Lenient) (vars : RegisterVars) (hpk : Str) : Bool :=
  awgHpk32 python hpk && (awgHpkIsZero python hpk || hpkSizesOk vars)

theorem rows_hpkLine (acc : OptLines) : (hpkLine python vars acc).rows = acc.rows ++
    optRow "HeaderProtectionKey".toList (vars (.param .headerProtectionKey))
      (rendersKey python vars) := by
  simp only [hpkLine, optRow, rendersKey]
  generalize vars (.param .headerProtectionKey) = hpk
  have hdrop : ∀ why, (acc.addDropMm why).rows = acc.rows := fun _ => rfl
  by_cases hempty : hpk.isEmpty = true
  · simp [hempty]
  by_cases hsafe : awgConfSafe hpk = true
  · by_cases hkey : awgHpk32 python hpk = true
    · by_cases hzero : awgHpkIsZero python hpk = true
      · simp [hempty, hsafe, hkey, hzero, OptLines.addRow]
      · by_cases hsizes : hpkSizesOk vars = true
        · simp [hempty, hsafe, hkey, hzero, hsizes, OptLines.addRow]
        · simp [hempty, hsafe, hkey, hzero, hsizes, hdrop]
    · simp [hempty, hsafe, hkey, hdrop]
  · simp [hempty, hsafe, hdrop]

/-- The optional rows in their order. -/
def optTable (python : base64.Lenient) (vars : RegisterVars) :
    List (Str × Field × (Str → Bool)) := [
  ("S3".toList, .s3, awgU16),
  ("I1".toList, .i1, awgItag),
  ("I2".toList, .i2, awgItag),
  ("I3".toList, .i3, awgItag),
  ("I4".toList, .i4, awgItag),
  ("I5".toList, .i5, awgItag),
  ("HeaderProtectionKey".toList, .headerProtectionKey, rendersKey python vars),
  ("ContentPaddingAddition".toList, .contentPaddingAddition, awgRange),
  ("RekeyAfterTime".toList, .rekeyAfterTime, awgRange),
  ("RekeyTimeout".toList, .rekeyTimeout, awgRange),
  ("RejectAfterTime".toList, .rejectAfterTime, awgRange),
  ("KeepaliveTimeout".toList, .keepaliveTimeout, awgRange),
  ("MaxHandshakeAttempts".toList, .maxHandshakeAttempts, awgRange),
  ("RandomTrailers".toList, .randomTrailers, awgOnoff),
  ("DisableCookies".toList, .disableCookies, awgOnoff)]

theorem optLines_rows : (optLines python vars).rows =
    (optTable python vars).flatMap fun e => optRow e.1 (vars (.param e.2.1)) e.2.2 := by
  have hmm := @rows_awgOpt OptLines.addDropMm fun _ _ => rfl
  have hcl := @rows_awgOpt OptLines.addDropCl fun _ _ => rfl
  simp only [optLines, awgOptMm, awgOptClf, awgOptCl, hmm, hcl, rows_hpkLine, OptLines.empty,
    optTable, List.flatMap_cons, List.flatMap_nil, List.nil_append, List.append_nil,
    List.append_assoc]

theorem optTable_keys (python : base64.Lenient) (vars : RegisterVars) :
    (optTable python vars).map (·.1) = ["S3", "I1", "I2", "I3", "I4", "I5", "HeaderProtectionKey",
      "ContentPaddingAddition", "RekeyAfterTime", "RekeyTimeout", "RejectAfterTime",
      "KeepaliveTimeout", "MaxHandshakeAttempts", "RandomTrailers", "DisableCookies"].map
        String.toList := rfl

theorem lookup_optRow (k key value : Str) (validator : Str → Bool) :
    (optRow key value validator).lookup k =
      if k = key ∧ (!value.isEmpty && awgConfSafe value && validator value) = true then some value
      else none := by
  unfold optRow
  split <;> by_cases hkey : k = key <;> simp_all

/-- Different keys do not hide each other. -/
theorem lookup_flatMap_optRow {table : List (Str × Field × (Str → Bool))}
    (hnodup : (table.map (·.1)).Nodup) {e : Str × Field × (Str → Bool)} (he : e ∈ table) :
    (table.flatMap fun e => optRow e.1 (vars (.param e.2.1)) e.2.2).lookup e.1 =
      (optRow e.1 (vars (.param e.2.1)) e.2.2).lookup e.1 := by
  induction table with
  | nil => cases he
  | cons head table ih =>
    rw [List.map_cons, List.nodup_cons] at hnodup
    rw [List.flatMap_cons, List.lookup_append]
    rcases List.mem_cons.mp he with rfl | he
    · have hrest :
          (table.flatMap fun e => optRow e.1 (vars (.param e.2.1)) e.2.2).lookup e.1 = none := by
        simp only [List.lookup_eq_none_iff, List.mem_flatMap]
        rintro row ⟨e', he', hrow⟩
        have hkey := key_of_mem_optRow hrow
        refine bne_iff_ne.mpr fun heq => hnodup.1 ?_
        exact List.mem_map.mpr ⟨e', he', (heq.trans hkey).symm⟩
      rw [hrest, Option.or_none]
    · have hkey : e.1 ≠ head.1 := fun heq => hnodup.1 (heq ▸ List.mem_map_of_mem he)
      rw [lookup_optRow, if_neg (by simp [hkey]), Option.none_or, ih hnodup.2 he]

/-- What the required variables satisfy when nothing is dropped. -/
structure Guarded (vars : RegisterVars) (host : Host) : Prop where
  identity : ∀ v ∈ [AwgVar.allocatedIp, .motherlyPubkey, .motherlyEndpoint, .motherlyAwgIp],
    awgConfSafe (vars v) = true
  junk : ∀ f ∈ [Field.jc, .jmin, .jmax],
    awgConfSafe (vars (.param f)) = true ∧ awgU32 (vars (.param f)) = true
  sizes : ∀ f ∈ [Field.s1, .s2, .s4],
    awgConfSafe (vars (.param f)) = true ∧ awgU16 (vars (.param f)) = true
  headers : ∀ f ∈ hFields, awgConfSafe (vars (.param f)) = true ∧
    ∃ lo hi, awgHParse (vars (.param f)) = some (lo, hi)
  disjoint : ∀ p ∈ pairs hFields, ∀ lo hi lo' hi',
    awgHParse (vars (.param p.1)) = some (lo, hi) →
      awgHParse (vars (.param p.2)) = some (lo', hi') →
        ¬(base10 lo ≤ base10 hi' ∧ base10 lo' ≤ base10 hi)
  reserved : base10 (vars (.param .s1)) + 56 ≠ base10 (vars (.param .s2))
  ordered : base10 (vars (.param .jmin)) ≤ base10 (vars (.param .jmax))
  privkey : awgConfSafe (privkey host) = true
  listenPort : awgConfSafe (listenPort vars host) = true

theorem failing_eq_nil {grammar : Str → Bool} {names : List (Str × AwgVar)} :
    failing vars grammar names = [] ↔ ∀ n ∈ names,
      (vars n.2 ≠ [] ∧ awgConfSafe (vars n.2) = true) ∧ grammar (vars n.2) = true := by
  simp [failing]

theorem isDigits_of_isDigitsUpTo {n : Nat} {s : Str} (h : isDigitsUpTo n s = true) :
    isDigits s = true := by
  simp only [isDigitsUpTo, Bool.and_eq_true] at h
  exact h.1

theorem isDigitsUpTo_of_awgU16 {s : Str} (h : awgU16 s = true) : isDigitsUpTo 5 s = true := by
  simp only [awgU16, Bool.and_eq_true] at h
  exact h.1

theorem isDigitsUpTo_of_awgU32 {s : Str} (h : awgU32 s = true) : isDigitsUpTo 10 s = true := by
  simp only [awgU32, Bool.and_eq_true] at h
  exact h.1

theorem disjoint_of_hOverlaps (hheaders : ∀ f ∈ hFields,
    (vars (.param f) ≠ [] ∧ awgConfSafe (vars (.param f)) = true) ∧
      ∃ lo hi, awgHParse (vars (.param f)) = some (lo, hi)) (h : hOverlaps vars = []) :
    ∀ p ∈ pairs hFields, ∀ lo hi lo' hi', awgHParse (vars (.param p.1)) = some (lo, hi) →
      awgHParse (vars (.param p.2)) = some (lo', hi') →
        ¬(base10 lo ≤ base10 hi' ∧ base10 lo' ≤ base10 hi) := by
  simp only [hFields, List.forall_mem_cons] at hheaders
  obtain ⟨⟨hsafe1, lo1, hi1, h1⟩, ⟨hsafe2, lo2, hi2, h2⟩, ⟨hsafe3, lo3, hi3, h3⟩,
    ⟨hsafe4, lo4, hi4, h4⟩, -⟩ := hheaders
  simp [hOverlaps, hBounds, hVars, hsafe1, hsafe2, hsafe3, hsafe4, h1, h2, h3, h4, pairs] at h
  simp only [hFields, pairs, List.map_cons, List.map_nil, List.cons_append, List.nil_append,
    List.forall_mem_cons, h1, h2, h3, h4]
  grind

theorem ne_of_reservedPair (hs1 : isDigits (vars (.param .s1)) = true)
    (hs2 : isDigits (vars (.param .s2)) = true) (h : reservedPair vars = []) :
    base10 (vars (.param .s1)) + 56 ≠ base10 (vars (.param .s2)) := by
  intro heq
  unfold reservedPair at h
  rw [if_pos (by simp [hs1, hs2, heq])] at h
  cases h

theorem le_of_junkInverted (hjmin : isDigits (vars (.param .jmin)) = true)
    (hjmax : isDigits (vars (.param .jmax)) = true) (h : junkInverted vars = []) :
    base10 (vars (.param .jmin)) ≤ base10 (vars (.param .jmax)) := by
  refine Int64.not_lt.mp fun hlt => ?_
  unfold junkInverted at h
  rw [if_pos (by simp [hjmin, hjmax, hlt])] at h
  cases h

theorem guarded_of_dropIdent (h : dropIdent vars host = []) : Guarded vars host := by
  simp only [dropIdent, List.append_eq_nil_iff, failing_eq_nil] at h
  obtain ⟨⟨⟨⟨⟨⟨⟨⟨hidentity, hjunk⟩, hsizes⟩, hheaders⟩, hoverlaps⟩, hreserved⟩, hordered⟩, hkey⟩,
    hport⟩ := h
  have hjunk' : ∀ f ∈ [Field.jc, .jmin, .jmax],
      awgConfSafe (vars (.param f)) = true ∧ awgU32 (vars (.param f)) = true := by
    simp only [junkVars, List.forall_mem_cons] at hjunk
    simp [hjunk]
  have hsizes' : ∀ f ∈ [Field.s1, .s2, .s4],
      awgConfSafe (vars (.param f)) = true ∧ awgU16 (vars (.param f)) = true := by
    simp only [sVars, List.forall_mem_cons] at hsizes
    simp [hsizes]
  have hheaders' : ∀ f ∈ hFields, (vars (.param f) ≠ [] ∧ awgConfSafe (vars (.param f)) = true) ∧
      ∃ lo hi, awgHParse (vars (.param f)) = some (lo, hi) := by
    simp only [hVars, List.forall_mem_cons, Option.isSome_iff_exists, Prod.exists] at hheaders
    simpa [hFields] using hheaders
  have hdigits : ∀ f ∈ [Field.s1, .s2, .jmin, .jmax], isDigits (vars (.param f)) = true := by
    have hjunkDigits := fun f hf =>
      isDigits_of_isDigitsUpTo (isDigitsUpTo_of_awgU32 (hjunk' f hf).2)
    have hsizeDigits := fun f hf =>
      isDigits_of_isDigitsUpTo (isDigitsUpTo_of_awgU16 (hsizes' f hf).2)
    simp only [List.forall_mem_cons] at hjunkDigits hsizeDigits
    simp [hjunkDigits, hsizeDigits]
  refine ⟨?_, hjunk', hsizes', fun f hf => ⟨(hheaders' f hf).1.2, (hheaders' f hf).2⟩,
    disjoint_of_hOverlaps hheaders' hoverlaps, ?_, ?_, ?_, ?_⟩
  · simp only [identityVars, List.forall_mem_cons] at hidentity
    simp [hidentity]
  · exact ne_of_reservedPair (hdigits .s1 (by simp)) (hdigits .s2 (by simp)) hreserved
  · exact le_of_junkInverted (hdigits .jmin (by simp)) (hdigits .jmax (by simp)) hordered
  · split at hkey
    · next hok => exact (Bool.and_eq_true_iff.mp hok).2
    · cases hkey
  · split at hport
    · next hok => exact hok
    · cases hport

theorem awgConfSafe_append (a b : Str) :
    awgConfSafe (a ++ b) = (awgConfSafe a && awgConfSafe b) := by
  rw [awgConfSafe, List.any_append, Bool.not_or]
  rfl

theorem isRow_of_safe {rows : List (Str × Str)}
    (hkeys : ∀ row ∈ rows, row.1 ≠ [] ∧ row.1.all Char.isAlphanum = true)
    (hsafe : ∀ row ∈ rows, awgConfSafe row.2 = true) : ∀ row ∈ rows, IsRow row := by
  intro row hrow
  obtain ⟨hne, halphanum⟩ := hkeys row hrow
  exact ⟨hne, halphanum, newline_notMem_of_awgConfSafe (hsafe row hrow)⟩

theorem Guarded.isRow_interface (h : Guarded vars host) (python : base64.Lenient) :
    ∀ row ∈ interfaceRows python vars host, IsRow row := by
  have hrequired : ∀ row ∈ requiredRows vars host, IsRow row := by
    refine isRow_of_safe (by simp only [requiredRows, List.forall_mem_cons]; decide) ?_
    have hidentity := h.identity
    have hjunk := h.junk
    have hsizes := h.sizes
    have hheaders := h.headers
    simp only [hFields, List.forall_mem_cons] at hidentity hjunk hsizes hheaders
    simp only [requiredRows, List.forall_mem_cons]
    simp [h.privkey, h.listenPort, hidentity, hjunk, hsizes, hheaders]
  have hfixed : ∀ row ∈ fixedRows, IsRow row := isRow_of_safe (by decide) (by decide)
  have hoptional : ∀ row ∈ (optLines python vars).rows, IsRow row := by
    intro row hrow
    rw [optLines_rows] at hrow
    obtain ⟨e, he, hrow⟩ := List.mem_flatMap.mp hrow
    have hkeys : ∀ key ∈ (optTable python vars).map (·.1),
        key ≠ [] ∧ key.all Char.isAlphanum = true := by
      rw [optTable_keys]
      decide
    obtain ⟨hne, halphanum⟩ := hkeys e.1 (List.mem_map_of_mem he)
    exact isRow_of_mem_optRow hne halphanum hrow
  intro row hrow
  simp only [interfaceRows, List.mem_append] at hrow
  obtain (hrow | hrow) | hrow := hrow
  · exact hrequired row hrow
  · exact hoptional row hrow
  · exact hfixed row hrow

theorem Guarded.isRow_peer (h : Guarded vars host) : ∀ row ∈ peerRows vars, IsRow row := by
  refine isRow_of_safe (by simp only [peerRows, List.forall_mem_cons]; decide) ?_
  have hidentity := h.identity
  simp only [List.forall_mem_cons] at hidentity
  simp only [peerRows, List.forall_mem_cons, awgConfSafe_append, hidentity]
  decide

theorem Guarded.hasRows (h : Guarded vars host) (python : base64.Lenient) :
    HasRows (renderConf python vars host) (interfaceRows python vars host ++ peerRows vars) :=
  hasRows_confLines (h.isRow_interface python) h.isRow_peer

/-- The required fields that the checks read. -/
def requiredFields : List Field := [.s1, .s2, .s4, .jmin, .jmax, .h1, .h2, .h3, .h4]

/-- The required rows are under the keys of the agent's table. -/
theorem lookup_required (python : base64.Lenient) (vars : RegisterVars) (host : Host) :
    ∀ spec ∈ fieldSpecs, spec.field ∈ requiredFields →
      (interfaceRows python vars host ++ peerRows vars).lookup spec.key =
        some (vars (.param spec.field)) := by
  have hrequired : ∀ spec ∈ fieldSpecs,
      spec.field ∈ requiredFields →
        (requiredRows vars host).lookup spec.key = some (vars (.param spec.field)) := by
    simp only [fieldSpecs, List.forall_mem_cons, List.not_mem_nil, false_imp_iff, implies_true]
    and_intros <;> first | trivial | exact fun _ => rfl | exact fun hf => absurd hf (by decide)
  intro spec hspec hf
  simp [interfaceRows, List.lookup_append, hrequired spec hspec hf]

theorem lookup_optional (host : Host) {e : Str × Field × (Str → Bool)}
    (he : e ∈ optTable python vars) (hrequired : (requiredRows vars host).lookup e.1 = none)
    (hfixed : fixedRows.lookup e.1 = none) (hpeer : (peerRows vars).lookup e.1 = none)
    (hguard : ∀ value, e.2.2 value = true → value ≠ [] ∧ awgConfSafe value = true) :
    (interfaceRows python vars host ++ peerRows vars).lookup e.1 =
      if e.2.2 (vars (.param e.2.1)) = true then some (vars (.param e.2.1)) else none := by
  have hnodup : ((optTable python vars).map (·.1)).Nodup := by
    rw [optTable_keys]
    decide
  have hrow : (interfaceRows python vars host ++ peerRows vars).lookup e.1 =
      (optRow e.1 (vars (.param e.2.1)) e.2.2).lookup e.1 := by
    rw [← lookup_flatMap_optRow hnodup he, ← optLines_rows]
    simp [interfaceRows, List.lookup_append, hrequired, hfixed, hpeer]
  have hguard := hguard (vars (.param e.2.1))
  rw [hrow, lookup_optRow]
  refine if_congr ?_ rfl rfl
  simp only [Bool.and_eq_true, Bool.not_eq_true', List.isEmpty_eq_false_iff, true_and]
  tauto

/-- Letters, digits and the signs of base64 are safe. -/
theorem awgConfSafe_of_isBase64Char {s : Str} (h : ∀ c ∈ s, isBase64Char c = true) :
    awgConfSafe s = true := by
  simp only [awgConfSafe, Bool.not_eq_true', List.any_eq_false]
  intro c hc hbad
  have hchar := h c hc
  simp only [Bool.or_eq_true, beq_iff_eq] at hbad
  rcases hbad with ((rfl | rfl) | rfl) | rfl <;> exact absurd hchar (by decide)

theorem guard_of_awgU16 {s : Str} (h : awgU16 s = true) : s ≠ [] ∧ awgConfSafe s = true := by
  obtain ⟨⟨hne, hall⟩, -⟩ := isDigitsUpTo_iff.mp (isDigitsUpTo_of_awgU16 h)
  refine ⟨hne, awgConfSafe_of_isBase64Char fun c hc => ?_⟩
  simp [isBase64Char, Char.isAlphanum, List.all_eq_true.mp hall c hc]

theorem awgHpk32_iff {hpk : Str} :
    awgHpk32 python hpk = true ↔ ∃ bytes, python.decode hpk = some bytes ∧ bytes.length = 32 := by
  simp [awgHpk32, Option.any_eq_true]

theorem isBase64Char_of_awgHpk32 {hpk : Str} (h : awgHpk32 python hpk = true) :
    hpk ≠ [] ∧ ∀ c ∈ hpk, isBase64Char c = true := by
  obtain ⟨bytes, hdecode, hlength⟩ := awgHpk32_iff.mp h
  refine ⟨?_, python.isBase64Char_of_decode hdecode⟩
  rintro rfl
  rw [python.decode_of_ok base64.decode_nil, Option.some.injEq] at hdecode
  subst hdecode
  cases hlength

theorem awgHpk32_of_rendersKey {hpk : Str} (h : rendersKey python vars hpk = true) :
    awgHpk32 python hpk = true :=
  (Bool.and_eq_true_iff.mp h).1

/-! ## The values of a written conf -/

theorem hpkSizeOk_iff {size : Str} (h : awgU16 size = true) :
    hpkSizeOk size = true ↔ 12 ≤ base10 size := by
  have hempty : size.isEmpty = false := by simpa using (guard_of_awgU16 h).1
  simp [hpkSizeOk, hempty, isDigits_of_isDigitsUpTo (isDigitsUpTo_of_awgU16 h)]

section Values

variable (h : Guarded vars host) (python : base64.Lenient)
include h

theorem Guarded.readBack_int : ∀ f ∈ [Field.s1, .s2, .s4, .jmin, .jmax],
    readBack (renderConf python vars host) f = some (.int (base10 (vars (.param f)))) := by
  have hdigits : ∀ f ∈ [Field.s1, .s2, .s4, .jmin, .jmax],
      isDigitsUpTo 5 (vars (.param f)) = true ∨ isDigitsUpTo 10 (vars (.param f)) = true := by
    have hsizes := fun f hf => isDigitsUpTo_of_awgU16 (h.sizes f hf).2
    have hjunk := fun f hf => isDigitsUpTo_of_awgU32 (h.junk f hf).2
    simp only [List.forall_mem_cons] at hsizes hjunk
    simp [hsizes, hjunk]
  intro f hf
  obtain ⟨spec, hspec, rfl⟩ := exists_spec f
  have hints : [Field.s1, .s2, .s4, .jmin, .jmax] ⊆ [.s1, .s2, .s3, .s4, .jmin, .jmax] := by decide
  have hrequired : [Field.s1, .s2, .s4, .jmin, .jmax] ⊆ requiredFields := by decide
  have hkind := kind_of_int spec hspec (hints hf)
  have hrow := lookup_required python vars host spec hspec (hrequired hf)
  rw [(h.hasRows python).readBack hspec, hrow]
  rcases hdigits _ hf with hdigits | hdigits <;>
    exact parseConfValue_of_isDigitsUpTo hkind hdigits (by decide)

theorem Guarded.hRange_eq {f : Field} (hf : f ∈ hFields) {lo hi : Str}
    (hparse : awgHParse (vars (.param f)) = some (lo, hi)) :
    hRange (readBack (renderConf python vars host)) f = some (base10 lo, base10 hi) := by
  obtain ⟨spec, hspec, rfl⟩ := exists_spec f
  have hrequired : hFields ⊆ requiredFields := by decide
  have hrow := lookup_required python vars host spec hspec (hrequired hf)
  rw [Awg.hRange_eq, (h.hasRows python).readBack hspec, hrow]
  exact parseConfValue_of_awgHParse (kind_of_hField spec hspec hf) hparse

theorem Guarded.readBack_s3 : readBack (renderConf python vars host) .s3 =
    if awgU16 (vars (.param .s3)) = true then some (.int (base10 (vars (.param .s3))))
    else none := by
  obtain ⟨spec, hspec, hfield, hkey, hkind⟩ : ∃ spec ∈ fieldSpecs, spec.field = .s3 ∧
      spec.key = "S3".toList ∧ spec.kind = .sInt := by decide
  have hrow := lookup_optional host (e := ("S3".toList, .s3, awgU16))
    (by simp [optTable] : _ ∈ optTable python vars) rfl rfl rfl fun _ => guard_of_awgU16
  rw [← hfield, (h.hasRows python).readBack hspec, hkey, hrow, hfield]
  split
  · next hu16 =>
    exact parseConfValue_of_isDigitsUpTo (.inl hkind) (isDigitsUpTo_of_awgU16 hu16) (by decide)
  · rfl

theorem Guarded.readBack_key : readBack (renderConf python vars host) .headerProtectionKey =
    if rendersKey python vars (vars (.param .headerProtectionKey)) = true then
      some (.str (vars (.param .headerProtectionKey))) else none := by
  obtain ⟨spec, hspec, hfield, hkey, hkind⟩ : ∃ spec ∈ fieldSpecs,
      spec.field = .headerProtectionKey ∧ spec.key = "HeaderProtectionKey".toList ∧
        spec.kind = .headerProtectionKey := by decide
  have hrow := lookup_optional host
    (e := ("HeaderProtectionKey".toList, .headerProtectionKey, rendersKey python vars))
    (by simp [optTable] : _ ∈ optTable python vars) rfl rfl rfl fun value hrenders => by
      obtain ⟨hne, hchars⟩ := isBase64Char_of_awgHpk32 (awgHpk32_of_rendersKey hrenders)
      exact ⟨hne, awgConfSafe_of_isBase64Char hchars⟩
  rw [← hfield, (h.hasRows python).readBack hspec, hkey, hrow, hfield]
  split
  · next hrenders =>
    obtain ⟨hne, hchars⟩ := isBase64Char_of_awgHpk32 (awgHpk32_of_rendersKey hrenders)
    have htrim := trim_eq_self fun c hc => isWhitespace_of_isBase64Char (hchars c hc)
    simp [FieldSpec.parseConfValue, htrim, hne, hkind]
  · rfl

end Values

end Written

end PartnerEdge.Awg
