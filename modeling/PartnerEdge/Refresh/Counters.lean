import PartnerEdge.Refresh.MetricSink

/-!
# What the counters add up to

A counter is used with a name and labels. Rows without labels are read back as other rows, so they
are never exposed; a sum that the shell cannot hold is not kept. In all other runs the state has
each counter once with its sum, and the exposition has it below the type of its name.
-/

namespace PartnerEdge.Refresh

open Text

/-- The counter that a call adds to. -/
def Call.key (call : Call) : Str × Str := (call.name, call.labels)

def Row.key (row : Row) : Str × Str := (row.name, row.labels)

section Sums

variable (calls : List Call) (key : Str × Str)

def uses : Nat := calls.countP (·.key == key)

def total : Nat := ((calls.filter (·.key == key)).map Call.delta).sum

def totalRow : Row := ⟨key.1, key.2, Nat.toDigits 10 (total calls key)⟩

end Sums

/-- The state has each counter that was used exactly once, with its sum. The exposition has one line
for the type of each name, and behind it one sample for each of the labels it was used with. -/
structure Accumulates (calls : List Call) (files : Files) : Prop where
  state : ∃ keys : List (Str × Str), keys.Nodup ∧
    (∀ key, key ∈ keys ↔ key ∈ calls.map Call.key) ∧
    files.state.getD [] = stateText (keys.map (totalRow calls))
  prom : ∃ blocks : List (Str × List Str), (blocks.map Prod.fst).Nodup ∧
    (∀ name, name ∈ blocks.map Prod.fst ↔ name ∈ calls.map Call.name) ∧
    (∀ b ∈ blocks, b.2.Nodup ∧ ∀ labels, labels ∈ b.2 ↔ (b.1, labels) ∈ calls.map Call.key) ∧
    files.prom.getD [] = terminate (blocks.flatMap fun b =>
      typeLine b.1 :: b.2.map fun labels => sampleLine (totalRow calls (b.1, labels)))

/-! ## One call -/

theorem isFor_iff {call : Call} {row : Row} : call.isFor row = true ↔ row.key = call.key := by
  simp [Call.isFor, Row.key, Call.key]

@[simp] theorem key_bumped (call : Call) (row : Row) : (bumped call row).key = row.key := rfl

section Concat

variable {calls : List Call} {call : Call} {key : Str × Str}

theorem uses_concat_self : uses (calls ++ [call]) call.key = uses calls call.key + 1 := by
  simp [uses]

theorem uses_concat_of_ne (h : key ≠ call.key) : uses (calls ++ [call]) key = uses calls key := by
  simp [uses, Ne.symm h]

theorem total_concat_self :
    total (calls ++ [call]) call.key = total calls call.key + call.delta := by simp [total]

theorem total_concat_of_ne (h : key ≠ call.key) :
    total (calls ++ [call]) key = total calls key := by simp [total, Ne.symm h]

theorem uses_le_concat (calls : List Call) (call : Call) (key : Str × Str) :
    uses calls key ≤ uses (calls ++ [call]) key := by
  rw [uses, uses, List.countP_append]
  omega

theorem total_le_concat : total calls key ≤ total (calls ++ [call]) key := by
  rw [total, total, List.filter_append, List.map_append, List.sum_append]
  omega

theorem uses_pos_iff : 0 < uses calls key ↔ key ∈ calls.map Call.key := by
  simp [uses, List.countP_pos_iff]

theorem total_of_notMem (h : key ∉ calls.map Call.key) : total calls key = 0 := by
  have hfilter : calls.filter (·.key == key) = [] := by
    rw [List.filter_eq_nil_iff]
    intro c hc hkey
    exact h (List.mem_map.2 ⟨c, hc, by simpa using hkey⟩)
  rw [total, hfilter]
  rfl

end Concat

/-- Sums that the shell can hold, for the counters that it adds to. -/
def Fits (calls : List Call) : Prop :=
  ∀ key ∈ calls.map Call.key, uses calls key = 1 ∨ total calls key < 2 ^ 63

theorem Fits.of_concat {calls : List Call} {call : Call} (h : Fits (calls ++ [call])) :
    Fits calls := by
  intro key hkey
  refine (h key (by simp [hkey])).imp (fun huses => ?_) total_le_concat.trans_lt
  have hle := uses_le_concat calls call key
  have hpos := uses_pos_iff.2 hkey
  omega

/-- A counter that is found has been used before, so its new sum fits. -/
theorem Fits.total_lt {calls : List Call} {call : Call} (hfits : Fits (calls ++ [call]))
    (hused : call.key ∈ calls.map Call.key) : total calls call.key + call.delta < 2 ^ 63 := by
  have hpos := uses_pos_iff.2 hused
  rw [← total_concat_self]
  refine (hfits call.key (by simp)).resolve_left fun hone => ?_
  rw [uses_concat_self] at hone
  omega

/-- The rows that a run leaves in which every call has labels. -/
structure Counts (calls : List Call) (rows : List Row) : Prop where
  labelled : ∀ row ∈ rows, row.labels ≠ []
  nodup : (rows.map Row.key).Nodup
  mem : ∀ key, key ∈ rows.map Row.key ↔ key ∈ calls.map Call.key
  added : ∀ row ∈ rows, uses calls row.key ≠ 1 → ∃ n : Int64, row.value = showI64 n
  exact : Fits calls → ∀ row ∈ rows, row.value = Nat.toDigits 10 (total calls row.key)

theorem counts_nil : Counts [] [] := ⟨by simp, by simp, by simp, by simp, by simp⟩

theorem counted_toDigits (n : Nat) : counted (Nat.toDigits 10 n) = Nat.toDigits 10 n := by
  rw [counted, parseDigits_toDigits, if_pos (by rfl)]

theorem counted_showI64 (n : Int64) : ∃ m : Int64, counted (showI64 n) = showI64 m := by
  unfold counted
  split
  · exact ⟨n, rfl⟩
  · exact ⟨0, rfl⟩

theorem showI64_add {a b : Nat} (h : a + b < 2 ^ 63) :
    showI64 (Int64.ofNat a + Int64.ofNat b) = Nat.toDigits 10 (a + b) := by
  rw [← Int64.ofNat_add, showI64, Int64.toInt_ofNat_of_lt h]
  rfl

theorem map_reread_of_labels {rows : List Row} (h : ∀ row ∈ rows, row.labels ≠ []) :
    rows.map reread = rows := by
  conv_rhs => rw [← List.map_id rows]
  exact List.map_congr_left fun row hrow => reread_of_labels (h row hrow)

namespace Counts

variable {calls : List Call} {rows : List Row} (h : Counts calls rows) {call : Call}
include h

theorem tableStep_eq : tableStep rows call = rows.map (bumped call) ++
    if call.key ∈ calls.map Call.key then [] else [call.row] := by
  have hany : (rows.any call.isFor = true) ↔ call.key ∈ calls.map Call.key := by
    rw [← h.mem, List.any_eq_true, List.mem_map]
    simp only [isFor_iff]
  rw [tableStep, map_reread_of_labels h.labelled]
  simp only [hany]

theorem mem_tableStep {row : Row} : row ∈ tableStep rows call ↔
    (∃ row' ∈ rows, row = bumped call row') ∨ call.key ∉ calls.map Call.key ∧ row = call.row := by
  rw [h.tableStep_eq, List.mem_append, List.mem_map]
  refine or_congr (exists_congr fun row' => and_congr_right fun _ => eq_comm) ?_
  split
  · next hmem => simp [hmem]
  · next hmem => simp [hmem]

theorem map_key_tableStep : (tableStep rows call).map Row.key = rows.map Row.key ++
    if call.key ∈ calls.map Call.key then [] else [call.key] := by
  rw [h.tableStep_eq, List.map_append, List.map_map]
  congr 1
  split
  · rfl
  · rfl

theorem nodup_tableStep : ((tableStep rows call).map Row.key).Nodup := by
  rw [h.map_key_tableStep]
  split
  · rw [List.append_nil]
    exact h.nodup
  · next hnew =>
    rw [List.nodup_append]
    refine ⟨h.nodup, List.nodup_singleton _, fun key hkey key' hkey' heq => hnew ?_⟩
    rw [← List.mem_singleton.1 hkey', ← heq]
    exact (h.mem key).1 hkey

theorem mem_keys_tableStep (key : Str × Str) :
    key ∈ (tableStep rows call).map Row.key ↔ key ∈ (calls ++ [call]).map Call.key := by
  rw [h.map_key_tableStep, List.mem_append, h.mem, List.map_append, List.mem_append]
  split
  · next hold =>
    refine ⟨fun hkey => hkey.elim .inl fun hnil => (List.not_mem_nil hnil).elim, ?_⟩
    rintro (hkey | hkey)
    · exact .inl hkey
    · rw [List.mem_singleton.1 hkey]
      exact .inl hold
  · rfl

/-- What was added to has been written by the shell, and what was reset as well. -/
theorem added_tableStep {row : Row} (hrow : row ∈ tableStep rows call)
    (huses : uses (calls ++ [call]) row.key ≠ 1) : ∃ n : Int64, row.value = showI64 n := by
  rcases h.mem_tableStep.1 hrow with ⟨row', hrow', rfl⟩ | ⟨hnew, rfl⟩
  · by_cases hkey : row'.key = call.key
    · exact ⟨_, if_pos (isFor_iff.2 hkey)⟩
    · rw [key_bumped, uses_concat_of_ne hkey] at huses
      obtain ⟨n, hn⟩ := h.added row' hrow' huses
      obtain ⟨m, hm⟩ := counted_showI64 n
      refine ⟨m, ?_⟩
      rw [← hm, ← hn]
      exact if_neg fun hfor => hkey (isFor_iff.1 hfor)
  · refine absurd ?_ huses
    have hzero : ¬0 < uses calls call.key := fun hpos => hnew (uses_pos_iff.1 hpos)
    rw [show call.row.key = call.key from rfl, uses_concat_self]
    omega

theorem exact_tableStep (hfits : Fits (calls ++ [call])) {row : Row}
    (hrow : row ∈ tableStep rows call) :
    row.value = Nat.toDigits 10 (total (calls ++ [call]) row.key) := by
  rcases h.mem_tableStep.1 hrow with ⟨row', hrow', rfl⟩ | ⟨hnew, rfl⟩
  · rw [key_bumped, bumped, h.exact hfits.of_concat row' hrow', counted_toDigits,
      parseDigits_toDigits]
    dsimp only
    split
    · next hfor =>
      have hused : call.key ∈ calls.map Call.key := by
        rw [← h.mem, ← isFor_iff.1 hfor]
        exact List.mem_map_of_mem hrow'
      rw [isFor_iff.1 hfor, total_concat_self, Option.getD_some]
      exact showI64_add (hfits.total_lt hused)
    · next hfor => rw [total_concat_of_ne fun hkey => hfor (isFor_iff.2 hkey)]
  · rw [show call.row.key = call.key from rfl, total_concat_self, total_of_notMem hnew, zero_add]
    rfl

theorem tableStep (hlabels : call.labels ≠ []) :
    Counts (calls ++ [call]) (Refresh.tableStep rows call) where
  labelled row hrow := by
    rcases h.mem_tableStep.1 hrow with ⟨row', hrow', rfl⟩ | ⟨-, rfl⟩
    · exact h.labelled row' hrow'
    · exact hlabels
  nodup := h.nodup_tableStep
  mem := h.mem_keys_tableStep
  added _ := h.added_tableStep
  exact hfits _ := h.exact_tableStep hfits

theorem mem_names {name : Str} : name ∈ rows.map Row.name ↔ name ∈ calls.map Call.name := by
  have hrows : rows.map Row.name = (rows.map Row.key).map Prod.fst := by
    rw [List.map_map]
    rfl
  have hcalls : calls.map Call.name = (calls.map Call.key).map Prod.fst := by
    rw [List.map_map]
    rfl
  rw [hrows, hcalls, List.mem_map, List.mem_map]
  simp only [h.mem]

theorem nodup_labels (name : Str) : ((rows.filter (·.name == name)).map Row.labels).Nodup := by
  refine List.Nodup.of_map (Prod.mk name) ?_
  have hkeys : ((rows.filter (·.name == name)).map Row.labels).map (Prod.mk name) =
      (rows.filter (·.name == name)).map Row.key := by
    rw [List.map_map]
    refine List.map_congr_left fun row hrow => ?_
    have hname : row.name = name := by simpa using (List.mem_filter.1 hrow).2
    rw [← hname]
    rfl
  rw [hkeys]
  exact h.nodup.sublist (List.filter_sublist.map _)

theorem mem_labels {name labels : Str} : labels ∈ (rows.filter (·.name == name)).map Row.labels ↔
    (name, labels) ∈ calls.map Call.key := by
  rw [← h.mem, List.mem_map, List.mem_map]
  simp [Row.key, and_assoc]

end Counts

theorem counts_table {calls : List Call} (h : ∀ call ∈ calls, call.labels ≠ []) :
    Counts calls (table calls) := by
  induction calls using List.reverseRecOn with
  | nil => exact counts_nil
  | append_singleton calls call ih =>
    rw [table, List.foldl_append]
    exact (ih fun c hc => h c (by simp [hc])).tableStep (h call (by simp))

/-! ## Blocks of lines -/

/-- Blocks are found again by the lines that only begin them. -/
theorem flatMap_blocks_inj {α : Type} (isHead : α → Bool) {blocks blocks' : List (α × List α)}
    (h : ∀ b ∈ blocks, isHead b.1 = true ∧ ∀ l ∈ b.2, isHead l = false)
    (h' : ∀ b ∈ blocks', isHead b.1 = true ∧ ∀ l ∈ b.2, isHead l = false)
    (heq : blocks.flatMap (fun b => b.1 :: b.2) = blocks'.flatMap fun b => b.1 :: b.2) :
    blocks = blocks' := by
  have htake {blocks : List (α × List α)} (hblocks : ∀ b ∈ blocks, isHead b.1 = true)
      {body : List α} (hbody : ∀ l ∈ body, isHead l = false) :
      (body ++ blocks.flatMap fun b => b.1 :: b.2).takeWhile (!isHead ·) = body := by
    rw [List.takeWhile_append_of_pos fun l hl => by simp [hbody l hl]]
    cases blocks with
    | nil => simp
    | cons b blocks => simp [hblocks b List.mem_cons_self]
  induction blocks generalizing blocks' with
  | nil =>
    cases blocks' with
    | nil => rfl
    | cons b' blocks' => cases heq
  | cons b blocks ih =>
    cases blocks' with
    | nil => cases heq
    | cons b' blocks' =>
      obtain ⟨hb, hblocks⟩ := List.forall_mem_cons.1 h
      obtain ⟨hb', hblocks'⟩ := List.forall_mem_cons.1 h'
      rw [List.flatMap_cons, List.flatMap_cons, List.cons_append, List.cons_append] at heq
      obtain ⟨hhead, hrest⟩ := List.cons.inj heq
      have hbody : b.2 = b'.2 := by
        rw [← htake (fun b hb => (hblocks b hb).1) hb.2,
          ← htake (fun b hb => (hblocks' b hb).1) hb'.2, hrest]
      rw [hbody] at hrest
      rw [ih hblocks hblocks' (List.append_cancel_left hrest), Prod.ext hhead hbody]

theorem terminate_inj {ls ls' : List Str} (h : ∀ l ∈ ls, '\n' ∉ l) (h' : ∀ l ∈ ls', '\n' ∉ l)
    (heq : terminate ls = terminate ls') : ls = ls' := by
  have hlines := congrArg lines heq
  rw [lines_terminate h, lines_terminate h'] at hlines
  exact List.append_cancel_right hlines

/-- Rows that a line of the exposition is written for. -/
structure Row.Exposed (row : Row) : Prop where
  cleanName : Clean row.name
  cleanLabels : Clean row.labels
  value : row.value = [] ∨ ∃ n : Int, row.value = showInt n

theorem Row.Shaped.exposed_reread {row : Row} (h : row.Shaped) : (reread row).Exposed where
  cleanName := by
    rw [reread_name]
    exact h.cleanName
  cleanLabels := cleanLabels_reread h
  value := reread_value h

theorem Row.Exposed.of_mem_value {row : Row} (h : row.Exposed) {c : Char} (hc : c ∈ row.value) :
    c.isDigit = true ∨ c = '-' := by
  rcases h.value with hnil | ⟨n, hn⟩
  · rw [hnil] at hc
    cases hc
  · rw [hn] at hc
    exact mem_showInt hc

/-- The type lines end in a letter, and the samples in a digit or a blank. -/
def endsType (line : Str) : Bool := line.getLast? == some 'r'

theorem endsType_typeLine (name : Str) : endsType (typeLine name) = true := by
  have hlast : " counter".toList.getLast? = some 'r' := by decide
  unfold typeLine
  generalize " counter".toList = ending at hlast
  rw [endsType, List.getLast?_append, hlast]
  rfl

theorem endsType_sampleLine {row : Row} (h : row.Exposed) : endsType (sampleLine row) = false := by
  have hlast : (sampleLine row).getLast? = (' ' :: row.value).getLast? := by
    rw [sampleLine, List.getLast?_append, List.getLast?_cons_cons, List.getLast?_cons]
    rfl
  rw [endsType, hlast, beq_eq_false_iff_ne]
  intro hr
  rcases List.mem_cons.1 (List.mem_of_getLast? hr) with hblank | hvalue
  · cases hblank
  · exact absurd (h.of_mem_value hvalue) (by decide)

theorem typeLine_injective : Function.Injective typeLine := by
  intro name name' h
  unfold typeLine at h
  exact List.append_cancel_left (List.append_cancel_right h)

theorem newline_notMem_typeLine {name : Str} (h : '\n' ∉ name) : '\n' ∉ typeLine name := by
  have hstart : '\n' ∉ "# TYPE ".toList := by decide
  have hend : '\n' ∉ " counter".toList := by decide
  unfold typeLine
  rw [List.mem_append, List.mem_append, not_or, not_or]
  exact ⟨⟨hstart, h⟩, hend⟩

theorem newline_notMem_sampleLine {row : Row} (h : row.Exposed) : '\n' ∉ sampleLine row := by
  have hvalue : '\n' ∉ row.value := fun hmem => absurd (h.of_mem_value hmem) (by decide)
  simp [sampleLine, h.cleanName.2, h.cleanLabels.2, hvalue]

/-- The text of the exposition, from the rows below the type of each name. -/
def blocksText (blocks : List (Str × List Row)) : Str :=
  terminate (blocks.flatMap fun b => typeLine b.1 :: b.2.map sampleLine)

theorem map_sampleLine_of_blocksText {blocks blocks' : List (Str × List Row)}
    (h : ∀ b ∈ blocks, '\n' ∉ b.1 ∧ ∀ row ∈ b.2, row.Exposed)
    (h' : ∀ b ∈ blocks', '\n' ∉ b.1 ∧ ∀ row ∈ b.2, row.Exposed)
    (heq : blocksText blocks = blocksText blocks') :
    blocks.map (fun b => (b.1, b.2.map sampleLine)) =
      blocks'.map fun b => (b.1, b.2.map sampleLine) := by
  have hlines {blocks : List (Str × List Row)}
      (h : ∀ b ∈ blocks, '\n' ∉ b.1 ∧ ∀ row ∈ b.2, row.Exposed) :
      ∀ l ∈ blocks.flatMap (fun b => typeLine b.1 :: b.2.map sampleLine), '\n' ∉ l := by
    intro l hl
    obtain ⟨b, hb, hl⟩ := List.mem_flatMap.1 hl
    rcases List.mem_cons.1 hl with rfl | hl
    · exact newline_notMem_typeLine (h b hb).1
    · obtain ⟨row, hrow, rfl⟩ := List.mem_map.1 hl
      exact newline_notMem_sampleLine ((h b hb).2 row hrow)
  have hheads {blocks : List (Str × List Row)}
      (h : ∀ b ∈ blocks, '\n' ∉ b.1 ∧ ∀ row ∈ b.2, row.Exposed) :
      ∀ b ∈ blocks.map (fun b => (typeLine b.1, b.2.map sampleLine)),
        endsType b.1 = true ∧ ∀ l ∈ b.2, endsType l = false := by
    intro _ hmem
    obtain ⟨b, hb, rfl⟩ := List.mem_map.1 hmem
    refine ⟨endsType_typeLine b.1, fun l hl => ?_⟩
    obtain ⟨row, hrow, rfl⟩ := List.mem_map.1 hl
    exact endsType_sampleLine ((h b hb).2 row hrow)
  have hflat := terminate_inj (hlines h) (hlines h') heq
  have hmap := flatMap_blocks_inj endsType (hheads h) (hheads h')
    (by rw [List.flatMap_map, List.flatMap_map]; exact hflat)
  have hinj : Function.Injective (Prod.map typeLine (id : List Str → List Str)) :=
    typeLine_injective.prodMap Function.injective_id
  refine List.map_injective_iff.2 hinj ?_
  rw [List.map_map, List.map_map]
  exact hmap

/-- A sample without labels is not one with labels. -/
theorem sampleLine_ne {name labels value : Str} {n : Nat} (h : labels ≠ []) :
    sampleLine ⟨name, [], Nat.toDigits 10 n⟩ ≠ sampleLine ⟨name, labels, value⟩ := by
  intro heq
  cases labels with
  | nil => exact h rfl
  | cons c labels =>
    simp only [sampleLine, List.append_assoc, List.cons_append, List.nil_append] at heq
    have hrest := (List.cons.inj (List.append_cancel_left heq)).2
    obtain ⟨-, hrest⟩ := List.cons.inj hrest
    have hmem : '}' ∈ ' ' :: Nat.toDigits 10 n := by
      rw [hrest]
      simp
    rcases List.mem_cons.1 hmem with hblank | hdigit
    · cases hblank
    · exact absurd (isDigit_of_mem_toDigits hdigit) (by decide)

/-! ## All runs -/

section Runs

variable {calls : List Call} {files : Files}

theorem exposed_totalRow {key : Str × Str} (h : key ∈ calls.map Call.key) :
    (totalRow calls key).Exposed := by
  obtain ⟨call, -, rfl⟩ := List.mem_map.1 h
  exact ⟨call.cleanName, call.cleanLabels, .inr ⟨total calls call.key, rfl⟩⟩

theorem shaped_totalRow {key : Str × Str} (h : key ∈ calls.map Call.key) :
    (totalRow calls key).Shaped := by
  obtain ⟨call, -, rfl⟩ := List.mem_map.1 h
  exact ⟨call.named, call.cleanName, call.cleanLabels, total calls call.key, rfl⟩

/-- The rows of a name as the code exposes them. -/
def exposedRows (rows : List Row) (name : Str) : List Row :=
  (rows.map reread).filter (·.name == name)

/-- The samples of a name, with the labels that it was used with. -/
def totalRows (calls : List Call) (b : Str × List Str) : List Row :=
  b.2.map fun labels => totalRow calls (b.1, labels)

/-- The samples that are expected of a name are those of rows that were read. -/
theorem map_sampleLine_eq (hholds : Holds files (table calls)) {blocks : List (Str × List Str)}
    (hnames : ∀ name, name ∈ blocks.map Prod.fst ↔ name ∈ calls.map Call.name)
    (hlabels : ∀ b ∈ blocks, ∀ labels, labels ∈ b.2 ↔ (b.1, labels) ∈ calls.map Call.key)
    (hprom : files.prom.getD [] = blocksText (blocks.map fun b => (b.1, totalRows calls b)))
    {b : Str × List Str} (hb : b ∈ blocks) :
    (exposedRows (table calls) b.1).map sampleLine = (totalRows calls b).map sampleLine := by
  obtain ⟨order, -, horder, hexposition⟩ := exposition_stateText hholds.shaped
  have hblocks : (order.map fun name => (name, exposedRows (table calls) name)).map
        (fun b => (b.1, b.2.map sampleLine)) =
      (blocks.map fun b => (b.1, totalRows calls b)).map fun b => (b.1, b.2.map sampleLine) := by
    refine map_sampleLine_of_blocksText (fun _ hmem => ?_) (fun _ hmem => ?_) ?_
    · obtain ⟨name, hname, rfl⟩ := List.mem_map.1 hmem
      obtain ⟨row, hrow, rfl⟩ := List.mem_map.1 ((horder name).1 hname)
      refine ⟨(hholds.shaped row hrow).cleanName.2, fun _ hmem => ?_⟩
      obtain ⟨row', hrow', rfl⟩ := List.mem_map.1 (List.mem_of_mem_filter hmem)
      exact (hholds.shaped row' hrow').exposed_reread
    · obtain ⟨b, hb, rfl⟩ := List.mem_map.1 hmem
      obtain ⟨call, -, hname⟩ := List.mem_map.1 ((hnames b.1).1 (List.mem_map_of_mem hb))
      refine ⟨hname ▸ call.cleanName.2, fun row hrow => ?_⟩
      obtain ⟨labels, hl, rfl⟩ := List.mem_map.1 hrow
      exact exposed_totalRow ((hlabels b hb labels).1 hl)
    · rw [← hprom, hholds.prom, hexposition, blocksText, List.flatMap_map]
      rfl
  rw [List.map_map, List.map_map] at hblocks
  have hmem := List.mem_map_of_mem (f := (fun b : Str × List Row => (b.1, b.2.map sampleLine)) ∘
    fun b => (b.1, totalRows calls b)) hb
  rw [← hblocks, List.mem_map] at hmem
  obtain ⟨name, -, hblock⟩ := hmem
  obtain ⟨rfl, hsamples⟩ := Prod.mk.inj hblock
  exact hsamples

/-- A sample without labels is never exposed. -/
theorem labels_ne_nil_of_accumulates (hholds : Holds files (table calls))
    (h : Accumulates calls files) : ∀ call ∈ calls, call.labels ≠ [] := by
  intro call hcall hnil
  obtain ⟨blocks, -, hnames, hlabels, hprom⟩ := h.prom
  obtain ⟨b, hb, hname⟩ := List.mem_map.1 ((hnames call.name).2 (List.mem_map_of_mem hcall))
  have htext : files.prom.getD [] = blocksText (blocks.map fun b => (b.1, totalRows calls b)) := by
    rw [hprom, blocksText, List.flatMap_map]
    simp only [totalRows, List.map_map]
    rfl
  have hused : (b.1, []) ∈ calls.map Call.key :=
    List.mem_map.2 ⟨call, hcall, by rw [hname, ← hnil]; rfl⟩
  have hsample : sampleLine (totalRow calls (b.1, [])) ∈ (totalRows calls b).map sampleLine :=
    List.mem_map_of_mem (List.mem_map.2 ⟨[], ((hlabels b hb).2 []).2 hused, rfl⟩)
  -- all rows that were read have labels
  rw [← map_sampleLine_eq hholds hnames (fun b hb => (hlabels b hb).2) htext hb,
    List.mem_map] at hsample
  obtain ⟨_, hmem, heq⟩ := hsample
  obtain ⟨hread, hrowname⟩ := List.mem_filter.1 hmem
  obtain ⟨row, hrow, rfl⟩ := List.mem_map.1 hread
  have hrow' : reread row = ⟨b.1, (reread row).labels, (reread row).value⟩ := by
    rw [← beq_iff_eq.1 hrowname]
  rw [hrow'] at heq
  exact sampleLine_ne (hholds.shaped row hrow).reread_labels_ne_nil heq.symm

theorem fits_of_accumulates (hlabels : ∀ call ∈ calls, call.labels ≠ [])
    (hholds : Holds files (table calls)) (h : Accumulates calls files) : Fits calls := by
  have hcounts := counts_table hlabels
  obtain ⟨keys, -, hkeys, hstate⟩ := h.state
  have hshaped : ∀ row ∈ keys.map (totalRow calls), row.Shaped := by
    intro _ hmem
    obtain ⟨key, hkey, rfl⟩ := List.mem_map.1 hmem
    exact shaped_totalRow ((hkeys key).1 hkey)
  have hrows : table calls = keys.map (totalRow calls) := by
    have hread := congrArg readRows (hholds.state.symm.trans hstate)
    rw [readRows_stateText hholds.shaped, readRows_stateText hshaped] at hread
    rw [map_reread_of_labels hcounts.labelled, map_reread_of_labels] at hread
    · exact hread
    · intro _ hmem
      obtain ⟨key, hkey, rfl⟩ := List.mem_map.1 hmem
      obtain ⟨call, hcall, rfl⟩ := List.mem_map.1 ((hkeys key).1 hkey)
      exact hlabels call hcall
  intro key hkey
  refine or_iff_not_imp_left.2 fun huses => ?_
  have hmem : totalRow calls key ∈ table calls :=
    hrows ▸ List.mem_map_of_mem ((hkeys key).2 hkey)
  obtain ⟨n, hn⟩ := hcounts.added _ hmem huses
  have hint : parseInt (showInt (total calls key)) = parseInt (showInt n.toInt) :=
    congrArg parseInt hn
  rw [parseInt_showInt, parseInt_showInt, Option.some_inj] at hint
  have hlt := n.toInt_lt
  omega

theorem accumulates_of_fits (hlabels : ∀ call ∈ calls, call.labels ≠ [])
    (hholds : Holds files (table calls)) (h : Fits calls) : Accumulates calls files := by
  have hcounts := counts_table hlabels
  have hrow : ∀ row ∈ table calls, row = totalRow calls row.key := by
    intro row hmem
    rw [totalRow, ← hcounts.exact h row hmem]
    rfl
  obtain ⟨order, hnodup, horder, hexposition⟩ := exposition_stateText hholds.shaped
  rw [map_reread_of_labels hcounts.labelled] at hexposition
  refine ⟨⟨(table calls).map Row.key, hcounts.nodup, hcounts.mem, ?_⟩,
    ⟨order.map fun name => (name, ((table calls).filter (·.name == name)).map Row.labels),
      ?_, ?_, ?_, ?_⟩⟩
  · rw [hholds.state, List.map_map]
    congr 1
    conv_lhs => rw [← List.map_id (table calls)]
    exact List.map_congr_left hrow
  · rw [List.map_map]
    exact (List.map_id order).symm ▸ hnodup
  · intro name
    rw [List.map_map, ← hcounts.mem_names, ← horder]
    exact (List.map_id order).symm ▸ Iff.rfl
  · intro _ hmem
    obtain ⟨name, -, rfl⟩ := List.mem_map.1 hmem
    exact ⟨hcounts.nodup_labels name, fun labels => hcounts.mem_labels⟩
  · rw [hholds.prom, hexposition, List.flatMap_map]
    congr 1
    refine List.flatMap_congr fun name _ => ?_
    rw [samplesOf, List.map_map]
    refine congrArg _ (List.map_congr_left fun row hmem => ?_)
    obtain ⟨hmem, hname⟩ := List.mem_filter.1 hmem
    conv_lhs => rw [hrow row hmem]
    rw [← beq_iff_eq.1 hname]
    rfl

end Runs

/-- The counters accumulate over a run iff every call has labels and the sums fit. -/
theorem accumulates_iff_labelled_and_fits (calls : List Call) :
    (∃ files, emitMetrics calls = some files ∧ Accumulates calls files) ↔
      (∀ call ∈ calls, call.labels ≠ []) ∧ Fits calls := by
  obtain ⟨files, hrun, hholds⟩ := exists_holds_table calls
  constructor
  · rintro ⟨files', hrun', h⟩
    rw [hrun, Option.some_inj] at hrun'
    subst hrun'
    have hlabels := labels_ne_nil_of_accumulates hholds h
    exact ⟨hlabels, fits_of_accumulates hlabels hholds h⟩
  · rintro ⟨hlabels, hfits⟩
    exact ⟨files, hrun, accumulates_of_fits hlabels hholds hfits⟩

def unlabelledCall : Call where
  name := "restarts".toList
  labels := []
  delta := 1
  named := by decide
  cleanName := ⟨by decide, by decide⟩
  cleanLabels := ⟨by decide, by decide⟩

/-- Without labels, the second call does not find what the first has written, and the value is
exposed as labels. -/
theorem unlabelled_counter_lost :
    emitMetrics [unlabelledCall, unlabelledCall] = some
      ⟨some "restarts\t1\t0\nrestarts\t\t1\n".toList,
        some "# TYPE restarts counter\nrestarts\x7b1\x7d 0\nrestarts\x7b1\x7d \n".toList⟩ ∧
    ¬∃ files, emitMetrics [unlabelledCall, unlabelledCall] = some files ∧
      Accumulates [unlabelledCall, unlabelledCall] files := by
  refine ⟨by decide +kernel, ?_⟩
  rintro ⟨files, hrun, h⟩
  obtain ⟨files', hrun', hholds⟩ := exists_holds_table [unlabelledCall, unlabelledCall]
  rw [hrun, Option.some_inj] at hrun'
  subst hrun'
  exact labels_ne_nil_of_accumulates hholds h unlabelledCall List.mem_cons_self rfl

end PartnerEdge.Refresh
