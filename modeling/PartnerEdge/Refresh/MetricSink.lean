import PartnerEdge.Text.Fields
import PartnerEdge.Text.Terminated

/-!
# The metric sink of the refresh script

A counter is kept in a state file of lines with a name, labels and a value, which tabs separate.
Each call reads the file, adds to the value of its counter, writes the file anew and writes from it
the exposition that the collector reads. What `read` makes of a line is not always what was written,
so the rows of the state are followed from call to call as a table.
-/

namespace PartnerEdge.Refresh

open Text

/-- A text that the arguments of a call can be: it does not end a field or a line. -/
def Clean (s : Str) : Prop := '\t' ∉ s ∧ '\n' ∉ s

/-- The arguments of `emit_metric`. -/
structure Call where
  name : Str
  labels : Str
  delta : Nat
  named : name ≠ []
  cleanName : Clean name
  cleanLabels : Clean labels

/-- The variables `_n`, `_l` and `_v`. -/
structure Row where
  name : Str
  labels : Str
  value : Str
deriving DecidableEq, Repr

/-- The state file and the exposition, if they are there. -/
structure Files where
  state : Option Str
  prom : Option Str
deriving DecidableEq, Repr

/-! ## Reading and writing the state -/

/-- `IFS=$'\t' read -r _n _l _v` -/
def readRow (line : Str) : Row :=
  let vars := readFields (· == '\t') 3 line
  ⟨vars.getD 0 [], vars.getD 1 [], vars.getD 2 []⟩

/-- The rows for which the body of a loop over the file goes on. A last line without a newline is
read as well, and a line without a name is skipped. -/
def readRows (text : Str) : List Row := ((lines text).map readRow).filter (!·.name.isEmpty)

def rowLine (row : Row) : Str := ['\t'].intercalate [row.name, row.labels, row.value]

def Call.row (call : Call) : Row := ⟨call.name, call.labels, Nat.toDigits 10 call.delta⟩

/-! ## Adding to a counter -/

/-- `[[ "$_v" =~ ^[0-9]+$ ]] || _v=0` -/
def counted (v : Str) : Str := if (parseDigits v).isSome then v else ['0']

/-- `$(( _v + delta ))`, with the shell's integers of 64 bits. -/
def addDelta (v : Str) (delta : Nat) : Option Str :=
  (arithConstant v).map fun n => showI64 (Int64.ofNat n + Int64.ofNat delta)

def Call.isFor (call : Call) (row : Row) : Bool :=
  row.name == call.name && row.labels == call.labels

/-- The loop over the rows: whether the counter was found, and the rows that are written. -/
def mergeRows (call : Call) : List Row → Option (Bool × List Row)
  | [] => some (false, [])
  | row :: rows => do
    if call.isFor row then
      let v ← addDelta (counted row.value) call.delta
      let (_, out) ← mergeRows call rows
      return (true, { row with value := v } :: out)
    else
      let (found, out) ← mergeRows call rows
      return (found, { row with value := counted row.value } :: out)

/-- The new state file. There is none if an expression cannot be evaluated, which ends the call. -/
def mergeState (state : Option Str) (call : Call) : Option Str := do
  let (found, rows) ← match state with
    | none => some (false, [])
    | some text => mergeRows call (readRows text)
  return terminate (rows.map rowLine) ++ if found then [] else terminate [rowLine call.row]

/-! ## The exposition -/

/-- The arrays `_samples` and `_order`. -/
structure Groups where
  samples : Str → Option Str
  order : List Str

def sampleLine (row : Row) : Str := row.name ++ '{' :: row.labels ++ '}' :: ' ' :: row.value

def typeLine (name : Str) : Str := "# TYPE ".toList ++ name ++ " counter".toList

def addSample (groups : Groups) (row : Row) : Groups where
  samples := Function.update groups.samples row.name
    (some ((groups.samples row.name).getD [] ++ (sampleLine row ++ ['\n'])))
  order := if (groups.samples row.name).isNone then groups.order ++ [row.name] else groups.order

def exposition (state : Str) : Str :=
  let groups := (readRows state).foldl addSample ⟨fun _ => none, []⟩
  groups.order.flatMap fun name => typeLine name ++ ['\n'] ++ (groups.samples name).getD []

def emitMetric (files : Files) (call : Call) : Option Files := do
  let state ← mergeState files.state call
  return ⟨some state, some (exposition state)⟩

/-! ## Rows as they are read -/

/-- The rows that are in the state file. -/
structure Row.Shaped (row : Row) : Prop where
  named : row.name ≠ []
  cleanName : Clean row.name
  cleanLabels : Clean row.labels
  numeral : ∃ n : Int, row.value = showInt n

def stateText (rows : List Row) : Str := terminate (rows.map rowLine)

/-- Without labels, the value is read in their place. -/
def reread (row : Row) : Row := if row.labels = [] then ⟨row.name, row.value, []⟩ else row

@[simp] theorem reread_name (row : Row) : (reread row).name = row.name := by
  unfold reread
  split
  · rfl
  · rfl

theorem reread_of_labels {row : Row} (h : row.labels ≠ []) : reread row = row := if_neg h

theorem clean_showInt (n : Int) : Clean (showInt n) :=
  ⟨fun h => absurd (mem_showInt h) (by decide), fun h => absurd (mem_showInt h) (by decide)⟩

namespace Row.Shaped

variable {row : Row} (h : row.Shaped)
include h

theorem value_ne_nil : row.value ≠ [] := by
  obtain ⟨n, hn⟩ := h.numeral
  rw [hn]
  exact showInt_ne_nil n

theorem cleanValue : Clean row.value := by
  obtain ⟨n, hn⟩ := h.numeral
  rw [hn]
  exact clean_showInt n

theorem newline_notMem_rowLine : '\n' ∉ rowLine row := by
  simp [rowLine, List.intercalate_cons_cons, h.cleanName.2, h.cleanLabels.2, h.cleanValue.2]

theorem readRow_rowLine : readRow (rowLine row) = reread row := by
  have hfields : ∀ w ∈ [row.name, row.labels, row.value], '\t' ∉ w := by
    simp [h.cleanName.1, h.cleanLabels.1, h.cleanValue.1]
  have hvars := readFields_intercalate hfields (le_refl 3)
  rw [readRow, rowLine, hvars, reread]
  by_cases hlabels : row.labels = []
  · simp [h.named, h.value_ne_nil, hlabels]
  · simp [h.named, h.value_ne_nil, hlabels]

theorem reread_labels_ne_nil : (reread row).labels ≠ [] := by
  unfold reread
  split
  · exact h.value_ne_nil
  · next hlabels => exact hlabels

end Row.Shaped

theorem readRows_stateText {rows : List Row} (h : ∀ row ∈ rows, row.Shaped) :
    readRows (stateText rows) = rows.map reread := by
  have hlines : ∀ l ∈ rows.map rowLine, '\n' ∉ l := by
    intro l hl
    obtain ⟨row, hrow, rfl⟩ := List.mem_map.1 hl
    exact (h row hrow).newline_notMem_rowLine
  have hread : (rows.map rowLine).map readRow = rows.map reread := by
    rw [List.map_map]
    exact List.map_congr_left fun row hrow => (h row hrow).readRow_rowLine
  rw [readRows, stateText, lines_terminate hlines, List.map_append, List.filter_append, hread,
    List.filter_eq_self.2]
  · exact List.append_nil _
  · intro row hrow
    obtain ⟨row', hrow', rfl⟩ := List.mem_map.1 hrow
    simp [(h row' hrow').named]

/-! ## The table of counters -/

/-- The value after the call, where the numbers are read as decimal. -/
def bumped (call : Call) (row : Row) : Row :=
  { row with value :=
      if call.isFor row then
        showI64 (Int64.ofNat ((parseDigits row.value).getD 0) + Int64.ofNat call.delta)
      else counted row.value }

def tableStep (rows : List Row) (call : Call) : List Row :=
  (rows.map reread).map (bumped call) ++ if (rows.map reread).any call.isFor then [] else [call.row]

def table (calls : List Call) : List Row := calls.foldl tableStep []

theorem parseDigits_showInt_neg (n : Nat) : parseDigits (showInt (.negSucc n)) = none := by
  simp [parseDigits, showInt]

theorem addDelta_counted {v : Str} (hv : v = [] ∨ ∃ n : Int, v = showInt n) (delta : Nat) :
    addDelta (counted v) delta =
      some (showI64 (Int64.ofNat ((parseDigits v).getD 0) + Int64.ofNat delta)) := by
  have hreset (hnone : parseDigits v = none) : addDelta (counted v) delta =
      some (showI64 (Int64.ofNat ((parseDigits v).getD 0) + Int64.ofNat delta)) := by
    rw [counted, hnone]
    rfl
  rcases hv with rfl | ⟨n, rfl⟩
  · exact hreset rfl
  · cases n with
    | ofNat n =>
      rw [showInt, counted, parseDigits_toDigits, addDelta, if_pos (by rfl), arithConstant_toDigits]
      rfl
    | negSucc n => exact hreset (parseDigits_showInt_neg n)

theorem mergeRows_eq {call : Call} {rows : List Row}
    (h : ∀ row ∈ rows, row.value = [] ∨ ∃ n : Int, row.value = showInt n) :
    mergeRows call rows = some (rows.any call.isFor, rows.map (bumped call)) := by
  induction rows with
  | nil => rfl
  | cons row rows ih =>
    obtain ⟨hrow, hrows⟩ := List.forall_mem_cons.1 h
    rw [mergeRows, ih hrows, List.any_cons, List.map_cons]
    cases hfor : call.isFor row with
    | false => simp [bumped, hfor]
    | true => simp [bumped, hfor, addDelta_counted hrow]

theorem reread_value {row : Row} (h : row.Shaped) :
    (reread row).value = [] ∨ ∃ n : Int, (reread row).value = showInt n := by
  unfold reread
  split
  · exact .inl rfl
  · exact .inr h.numeral

theorem cleanLabels_reread {row : Row} (h : row.Shaped) : Clean (reread row).labels := by
  unfold reread
  split
  · exact h.cleanValue
  · exact h.cleanLabels

theorem counted_value {v : Str} (hv : v = [] ∨ ∃ n : Int, v = showInt n) :
    ∃ n : Int, counted v = showInt n := by
  unfold counted
  split
  · next hsome =>
    refine hv.resolve_left ?_
    rintro rfl
    cases hsome
  · exact ⟨0, rfl⟩

theorem Call.shaped_row (call : Call) : call.row.Shaped :=
  ⟨call.named, call.cleanName, call.cleanLabels, call.delta, rfl⟩

theorem shaped_bumped_reread {row : Row} (h : row.Shaped) (call : Call) :
    (bumped call (reread row)).Shaped where
  named := by
    rw [bumped, reread_name]
    exact h.named
  cleanName := by
    rw [bumped, reread_name]
    exact h.cleanName
  cleanLabels := cleanLabels_reread h
  numeral := by
    unfold bumped
    dsimp only
    split
    · exact ⟨_, rfl⟩
    · exact counted_value (reread_value h)

theorem shaped_tableStep {rows : List Row} (h : ∀ row ∈ rows, row.Shaped) (call : Call) :
    ∀ row ∈ tableStep rows call, row.Shaped := by
  intro row hrow
  rw [tableStep, List.map_map, List.mem_append, List.mem_map] at hrow
  rcases hrow with ⟨row', hrow', rfl⟩ | hrow
  · exact shaped_bumped_reread (h row' hrow') call
  · split at hrow
    · cases hrow
    · rw [List.mem_singleton.1 hrow]
      exact call.shaped_row

theorem mergeState_stateText {rows : List Row} (h : ∀ row ∈ rows, row.Shaped) (call : Call) :
    mergeState (some (stateText rows)) call = some (stateText (tableStep rows call)) := by
  have hmerge : mergeRows call (rows.map reread) = some ((rows.map reread).any call.isFor,
      (rows.map reread).map (bumped call)) := by
    refine mergeRows_eq fun row hrow => ?_
    obtain ⟨row', hrow', rfl⟩ := List.mem_map.1 hrow
    exact reread_value (h row' hrow')
  have happend (a b : List Row) : stateText (a ++ b) = stateText a ++ stateText b := by
    rw [stateText, List.map_append, terminate, List.flatMap_append]
    rfl
  rw [mergeState, readRows_stateText h, tableStep, happend]
  dsimp only
  rw [hmerge]
  cases (rows.map reread).any call.isFor with
  | false => rfl
  | true => rfl

theorem mergeState_getD (state : Option Str) (call : Call) :
    mergeState state call = mergeState (some (state.getD [])) call := by
  cases state with
  | none => rfl
  | some text => rfl

/-! ## Runs -/

/-- The files are those of the table. A file that is not there is as good as an empty one. -/
structure Holds (files : Files) (rows : List Row) : Prop where
  shaped : ∀ row ∈ rows, row.Shaped
  state : files.state.getD [] = stateText rows
  prom : files.prom.getD [] = exposition (stateText rows)

theorem Holds.emitMetric {files : Files} {rows : List Row} (h : Holds files rows) (call : Call) :
    ∃ files', emitMetric files call = some files' ∧ Holds files' (tableStep rows call) := by
  let state := stateText (tableStep rows call)
  refine ⟨⟨some state, some (exposition state)⟩, ?_, shaped_tableStep h.shaped call, rfl, rfl⟩
  rw [Refresh.emitMetric, mergeState_getD, h.state, mergeState_stateText h.shaped]
  rfl

theorem Holds.foldlM {files : Files} {rows : List Row} (h : Holds files rows) (calls : List Call) :
    ∃ files', calls.foldlM Refresh.emitMetric files = some files' ∧
      Holds files' (calls.foldl tableStep rows) := by
  induction calls generalizing files rows with
  | nil => exact ⟨files, rfl, h⟩
  | cons call calls ih =>
    obtain ⟨files', hcall, hfiles'⟩ := h.emitMetric call
    obtain ⟨files'', hcalls, hfiles''⟩ := ih hfiles'
    exact ⟨files'', by rw [List.foldlM_cons, hcall]; exact hcalls, hfiles''⟩

theorem holds_nil : Holds ⟨none, none⟩ [] := ⟨by simp, rfl, rfl⟩

/-- A run of calls, from no files. -/
def emitMetrics (calls : List Call) : Option Files := calls.foldlM emitMetric ⟨none, none⟩

theorem exists_holds_table (calls : List Call) :
    ∃ files, emitMetrics calls = some files ∧ Holds files (table calls) :=
  holds_nil.foldlM calls

/-! ## Groups of samples -/

/-- The lines of the samples of a name. -/
def samplesOf (rows : List Row) (name : Str) : List Str :=
  (rows.filter (·.name == name)).map sampleLine

/-- The groups of the rows that were read so far. -/
structure Grouped (rows : List Row) (groups : Groups) : Prop where
  nodup : groups.order.Nodup
  mem : ∀ name, name ∈ groups.order ↔ name ∈ rows.map Row.name
  isSome : ∀ name, (groups.samples name).isSome ↔ name ∈ groups.order
  samples : ∀ name, (groups.samples name).getD [] = terminate (samplesOf rows name)

theorem grouped_nil : Grouped [] ⟨fun _ => none, []⟩ :=
  ⟨by simp, by simp, by simp, by simp [samplesOf, terminate]⟩

theorem samples_addSample (groups : Groups) (row : Row) (name : Str) :
    (addSample groups row).samples name =
      if name = row.name then some ((groups.samples row.name).getD [] ++ (sampleLine row ++ ['\n']))
      else groups.samples name := Function.update_apply _ _ _ _

theorem Grouped.mem_order_addSample {rows : List Row} {groups : Groups} (h : Grouped rows groups)
    (row : Row) (name : Str) :
    name ∈ (Refresh.addSample groups row).order ↔ name ∈ groups.order ∨ name = row.name := by
  unfold Refresh.addSample
  dsimp only
  split
  · simp
  · next hsome =>
    have hold : row.name ∈ groups.order :=
      (h.isSome _).1 (by simpa [Option.isSome_iff_ne_none] using hsome)
    exact ⟨.inl, fun hname => hname.elim id fun heq => heq ▸ hold⟩

theorem Grouped.addSample {rows : List Row} {groups : Groups} (h : Grouped rows groups)
    (row : Row) : Grouped (rows ++ [row]) (addSample groups row) where
  nodup := by
    unfold Refresh.addSample
    dsimp only
    split
    · next hnone =>
      have hnew : row.name ∉ groups.order := fun hmem => by
        simpa [Option.isNone_iff_eq_none.1 hnone] using (h.isSome _).2 hmem
      rw [List.nodup_append]
      refine ⟨h.nodup, List.nodup_singleton _, fun a ha b hb heq => hnew ?_⟩
      rw [← List.mem_singleton.1 hb, ← heq]
      exact ha
    · exact h.nodup
  mem name := by
    rw [h.mem_order_addSample, h.mem]
    simp
  isSome name := by
    rw [h.mem_order_addSample, samples_addSample]
    split
    · next hname => simp [hname]
    · next hname => simp [hname, h.isSome]
  samples name := by
    rw [samples_addSample, samplesOf, List.filter_append, List.map_append,
      terminate, List.flatMap_append]
    split
    · next hname =>
      subst hname
      have hlast : [row].filter (·.name == row.name) = [row] := by simp
      rw [hlast, Option.getD_some, h.samples]
      simp [terminate, samplesOf]
    · next hname =>
      have hlast : [row].filter (·.name == name) = [] := by simpa using Ne.symm hname
      rw [hlast, h.samples]
      simp [terminate, samplesOf]

theorem Grouped.foldl {rows : List Row} {groups : Groups} (h : Grouped rows groups)
    (rows' : List Row) : Grouped (rows ++ rows') (rows'.foldl Refresh.addSample groups) := by
  induction rows' generalizing rows groups with
  | nil => simpa using h
  | cons row rows' ih =>
    have hcons := ih (h.addSample row)
    rwa [List.append_assoc, List.singleton_append] at hcons

/-- The exposition has a line for the type of each name and the samples of the name behind it. -/
theorem exposition_stateText {rows : List Row} (h : ∀ row ∈ rows, row.Shaped) :
    ∃ order : List Str, order.Nodup ∧ (∀ name, name ∈ order ↔ name ∈ rows.map Row.name) ∧
      exposition (stateText rows) = terminate (order.flatMap fun name =>
        typeLine name :: samplesOf (rows.map reread) name) := by
  have hgrouped := grouped_nil.foldl (rows.map reread)
  rw [List.nil_append] at hgrouped
  refine ⟨_, hgrouped.nodup, fun name => ?_, ?_⟩
  · rw [hgrouped.mem, List.map_map]
    simp
  · rw [exposition, readRows_stateText h, terminate, List.flatMap_assoc]
    refine List.flatMap_congr fun name _ => ?_
    rw [hgrouped.samples, List.flatMap_cons]
    rfl

end PartnerEdge.Refresh
