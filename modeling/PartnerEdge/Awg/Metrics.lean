import PartnerEdge.Machine.Run
import PartnerEdge.Text.Terminated

/-!
# The agent's counters

The agent counts what it does and keeps the counts in a file for the node exporter, which it
rewrites after every event and reads back when it starts. The file has a help and a type comment for
each family of series, and one line for each series: its name, a blank and its value. The name of a
rejected field is a label, and labels beyond a bound are not counted.

Events come one after the other and every flush succeeds. The clock is an input.
-/

namespace PartnerEdge.Awg

open Text

/-! ## The series -/

inductive Metric where
  | pollFailures
  | lastSuccess
  | confConflict
  | paramRejected
  | applyFailures
  | lastApplySuccess
deriving DecidableEq, Repr

namespace Metric

/-- The `*_METRIC` constants. -/
def name : Metric → Str
  | pollFailures => "awg_params_agent_poll_failures_total".toList
  | lastSuccess => "awg_params_agent_last_success_timestamp_seconds".toList
  | confConflict => "awg_params_agent_conf_write_conflicts_total".toList
  | paramRejected => "awg_params_agent_param_rejected_total".toList
  | applyFailures => "awg_params_agent_apply_failures_total".toList
  | lastApplySuccess => "awg_params_agent_last_apply_success_timestamp_seconds".toList

def kind : Metric → Str
  | lastSuccess | lastApplySuccess => "gauge".toList
  | _ => "counter".toList

/-- The pieces of a help text. -/
def helpParts : Metric → List Str
  | pollFailures =>
    ["Non-2xx or network-error responses from GET .../awg-params/latest ".toList,
      "(central-unreachable signal), cumulative since agent start (reseeded from this ".toList,
      "file on restart).".toList]
  | lastSuccess =>
    ["Unix timestamp of the last successful (2xx) poll of central. ".toList,
      "0 = never succeeded since install (fresh node, no prior file to reseed from) — ".toList,
      "alert on `time() - ".toList, name lastSuccess, " > N` for staleness.".toList]
  | confConflict =>
    ["awg0.conf writes/applies the agent skipped due to a concurrent ".toList,
      "writer, by reason. reason=\"lock_timeout\": could not acquire the shared lock ".toList,
      "within the timeout, so the agent never wrote awg0.conf (retries next poll). ".toList,
      "reason=\"apply_superseded\": wrote under the lock, but the installer superseded ".toList,
      "the file before the unlocked kernel apply, so only the apply was deferred to the ".toList,
      "next poll (self-healing).".toList]
  | paramRejected =>
    ["Central-sourced obfuscation params rejected by FIELD_SPECS ".toList,
      "validators before splice into awg0.conf, by field (params.rs charset/grammar ".toList,
      "guards + post-merge preconditions). Non-zero is a hostile-central / MITM ".toList,
      "signal — critical alert, not routine.".toList]
  | applyFailures =>
    ["awg-quick strip / awg syncconf non-zero exits, cumulative. ".toList,
      "Nonzero while ".toList, name lastSuccess, " advances = polls succeed but the epoch ".toList,
      "never reaches the kernel (the fail-soft-invisible stall).".toList]
  | lastApplySuccess =>
    ["Unix timestamp of the last successful kernel apply (awg syncconf ".toList,
      "exit 0). 0 = never applied. Alert on `time() - ".toList, name lastApplySuccess,
      " > N` alongside the poll ".toList,
      "gauge — poll-green + apply-stale is the silent-drop signature.".toList]

def help (metric : Metric) : Str := metric.helpParts.flatten

/-- The comments above the series of a family. -/
def header (metric : Metric) : List Str :=
  ["# HELP ".toList ++ metric.name ++ ' ' :: metric.help,
    "# TYPE ".toList ++ metric.name ++ ' ' :: metric.kind]

/-- The name of a series with a label. -/
def labelled (metric : Metric) (label value : Str) : Str :=
  metric.name ++ '\x7b' :: (label ++ '=' :: '"' :: (value ++ ['"', '\x7d']))

theorem name_injective : Function.Injective name := by
  intro a b h
  cases a <;> cases b <;> first | rfl | exact absurd (String.toList_injective h) (by decide)

theorem head?_name (metric : Metric) : metric.name.head? = some 'a' := by
  cases metric <;> exact of_literal (P := (·.head? = some 'a')) rfl rfl

theorem brace_notMem_name (metric : Metric) : '\x7b' ∉ metric.name := by
  cases metric <;> exact of_literal (P := ('\x7b' ∉ ·)) rfl (by decide)

theorem newline_notMem_name (metric : Metric) : '\n' ∉ metric.name := by
  cases metric <;> exact of_literal (P := ('\n' ∉ ·)) rfl (by decide)

theorem newline_notMem_helpParts (metric : Metric) : ∀ part ∈ metric.helpParts, '\n' ∉ part := by
  cases metric <;> simp only [helpParts, List.forall_mem_cons] <;> and_intros <;>
    first
    | exact List.forall_mem_nil _
    | exact of_literal (P := ('\n' ∉ ·)) rfl (by decide)

theorem newline_notMem_header (metric : Metric) : ∀ line ∈ metric.header, '\n' ∉ line := by
  have hkind : '\n' ∉ metric.kind := by
    cases metric <;> exact of_literal (P := ('\n' ∉ ·)) rfl (by decide)
  have hhelp : '\n' ∉ metric.help := by
    simpa [help] using metric.newline_notMem_helpParts
  simp [header, metric.newline_notMem_name, hhelp, hkind]

theorem head?_labelled (metric : Metric) (label value : Str) :
    (metric.labelled label value).head? = some 'a' := by
  rw [labelled, List.head?_append, head?_name]
  rfl

theorem labelled_ne_name (metric other : Metric) (label value : Str) :
    metric.labelled label value ≠ other.name := by
  intro h
  apply other.brace_notMem_name
  simp [← h, labelled]

/-- Series of different families have different names. -/
theorem labelled_ne_labelled {metric other : Metric} (h : metric ≠ other)
    (label value label' value' : Str) :
    metric.labelled label value ≠ other.labelled label' value' := by
  intro heq
  have hsplit := congrArg (splitOnce '\x7b') heq
  rw [labelled, labelled, splitOnce_append metric.brace_notMem_name,
    splitOnce_append other.brace_notMem_name] at hsplit
  exact h (name_injective (congrArg Prod.fst (Option.some.inj hsplit)))

end Metric

inductive ConflictReason where
  | lockTimeout
  | applySuperseded
deriving DecidableEq, Repr

namespace ConflictReason

def all : List ConflictReason := [lockTimeout, applySuperseded]

def label : ConflictReason → Str
  | lockTimeout => "lock_timeout".toList
  | applySuperseded => "apply_superseded".toList

def seriesPrefix (reason : ConflictReason) : Str :=
  Metric.confConflict.labelled "reason".toList reason.label

theorem label_injective : Function.Injective label := by
  intro a b h
  cases a <;> cases b <;> first | rfl | exact absurd h (by decide)

theorem seriesPrefix_injective : Function.Injective seriesPrefix := by
  intro a b h
  apply label_injective
  simpa [seriesPrefix, Metric.labelled] using h

theorem head?_seriesPrefix (reason : ConflictReason) : reason.seriesPrefix.head? = some 'a' :=
  Metric.head?_labelled _ _ _

theorem newline_notMem_seriesPrefix (reason : ConflictReason) : '\n' ∉ reason.seriesPrefix := by
  cases reason <;> decide

end ConflictReason

def maxParamRejectedFields : Nat := 32

structure Metrics where
  pollFailures : UInt64
  lastSuccessEpochSecs : Int64
  confWriteConflictsLockTimeout : UInt64
  confWriteConflictsApplySuperseded : UInt64
  paramRejected : Std.ExtTreeMap Str UInt64
  applyFailures : UInt64
  lastApplySuccessEpochSecs : Int64

namespace Metrics

/-! ## Events -/

/-- The `record_*` functions, with the time of the clock where they read it. -/
inductive Call where
  | pollFailure
  | pollSuccess (now : Int64)
  | confWriteConflict (reason : ConflictReason)
  | paramRejected (field : Str)
  | applyFailure
  | applySuccess (now : Int64)
deriving DecidableEq, Repr

variable (m : Metrics)

def confWriteConflicts : ConflictReason → UInt64
  | .lockTimeout => m.confWriteConflictsLockTimeout
  | .applySuperseded => m.confWriteConflictsApplySuperseded

def setConfWriteConflicts (value : UInt64) : ConflictReason → Metrics
  | .lockTimeout => { m with confWriteConflictsLockTimeout := value }
  | .applySuperseded => { m with confWriteConflictsApplySuperseded := value }

/-- The state after `record_param_rejected`, or nothing if the field is beyond the bound. -/
def recordParamRejected (field : Str) : Option Metrics :=
  if !m.paramRejected.contains field && maxParamRejectedFields ≤ m.paramRejected.size then none
  else some { m with
    paramRejected := m.paramRejected.insert field (m.paramRejected.getD field 0 + 1) }

/-- The state that a call flushes, if it does. Counters wrap. -/
def record : Call → Option Metrics
  | .pollFailure => some { m with pollFailures := m.pollFailures + 1 }
  | .pollSuccess now => some { m with lastSuccessEpochSecs := now }
  | .confWriteConflict reason =>
    some (m.setConfWriteConflicts (m.confWriteConflicts reason + 1) reason)
  | .paramRejected field => m.recordParamRejected field
  | .applyFailure => some { m with applyFailures := m.applyFailures + 1 }
  | .applySuccess now => some { m with lastApplySuccessEpochSecs := now }

/-! ## The file -/

def showU64 (n : UInt64) : Str := Nat.toDigits 10 n.toNat

def sample (series value : Str) : Str := series ++ ' ' :: value

def rejectedSample (entry : Str × UInt64) : Str :=
  sample (Metric.paramRejected.labelled "field".toList entry.1) (showU64 entry.2)

def flushLines : List Str :=
  Metric.pollFailures.header ++ [sample Metric.pollFailures.name (showU64 m.pollFailures)] ++
  Metric.lastSuccess.header ++ [sample Metric.lastSuccess.name (showI64 m.lastSuccessEpochSecs)] ++
  Metric.confConflict.header ++
    [sample ConflictReason.lockTimeout.seriesPrefix (showU64 m.confWriteConflictsLockTimeout),
      sample ConflictReason.applySuperseded.seriesPrefix
        (showU64 m.confWriteConflictsApplySuperseded)] ++
  Metric.paramRejected.header ++ m.paramRejected.toList.map rejectedSample ++
  Metric.applyFailures.header ++ [sample Metric.applyFailures.name (showU64 m.applyFailures)] ++
  Metric.lastApplySuccess.header ++
    [sample Metric.lastApplySuccess.name (showI64 m.lastApplySuccessEpochSecs)]

/-- The text that `flush` writes. -/
def flush : Str := terminate m.flushLines

def zero : Metrics := ⟨0, 0, 0, 0, ∅, 0, 0⟩

/-- A value is taken if it can be parsed. -/
def seed {α : Type} (value : Option α) (set : α → Metrics) : Metrics := value.elim m set

def parseCounter (value : Str) : Option UInt64 := (parseU64 value).map UInt64.ofNat

/-- What `load` does with one series. -/
def loadSeries (series value : Str) : Metrics :=
  if series = Metric.pollFailures.name then
    m.seed (parseCounter value) fun n => { m with pollFailures := n }
  else if series = Metric.lastSuccess.name then
    m.seed (parseI64 value) fun n => { m with lastSuccessEpochSecs := n }
  else if series = Metric.applyFailures.name then
    m.seed (parseCounter value) fun n => { m with applyFailures := n }
  else if series = Metric.lastApplySuccess.name then
    m.seed (parseI64 value) fun n => { m with lastApplySuccessEpochSecs := n }
  else match ConflictReason.all.find? (series = ·.seriesPrefix) with
    | some reason => m.seed (parseCounter value) fun n => m.setConfWriteConflicts n reason
    | none =>
      match (series.dropPrefix? (Metric.paramRejected.name ++ "\x7bfield=\"".toList)).bind
          (·.dropSuffix? "\"\x7d".toList) with
      | some field =>
        m.seed (parseCounter value) fun n =>
          { m with paramRejected := m.paramRejected.insert field n }
      | none => m

def loadLine (line : Str) : Metrics :=
  if (trim line).isEmpty || (trim line).head? == some '#' then m
  else match rsplitOnce ' ' (trim line) with
    | some (series, value) => m.loadSeries series value
    | none => m

/-- The state from the file, if it can be read. -/
def load : Option Str → Metrics
  | some text => (strLines text).foldl loadLine zero
  | none => zero

/-! ## Reading back what was flushed -/

variable {m}

/-- What a value looks like in the file. -/
structure IsNumeral (value : Str) : Prop where
  ne_nil : value ≠ []
  char : ∀ c ∈ value, c.isDigit = true ∨ c = '-'

theorem isNumeral_showU64 (n : UInt64) : IsNumeral (showU64 n) :=
  ⟨Nat.toDigits_ne_nil, fun _ hc => .inl (isDigit_of_mem_toDigits hc)⟩

theorem isNumeral_showI64 (n : Int64) : IsNumeral (showI64 n) :=
  ⟨showI64_ne_nil n, fun _ hc => mem_showI64 hc⟩

theorem IsNumeral.isWhitespace {value : Str} (h : IsNumeral value) :
    ∀ c ∈ value, isWhitespace c = false := by
  intro c hc
  rcases h.char c hc with hdigit | rfl
  · exact isWhitespace_of_isAlphanum (by simp [Char.isAlphanum, hdigit])
  · rfl

theorem parseCounter_showU64 (n : UInt64) : parseCounter (showU64 n) = some n := by
  simp [parseCounter, showU64, parseU64_toDigits n.toNat_lt]

theorem loadLine_comment (m : Metrics) (line : Str) : m.loadLine ('#' :: line) = m := by
  simp [loadLine, head?_trim (show isWhitespace '#' = false from rfl)]

theorem foldl_loadLine_header (m : Metrics) (metric : Metric) :
    metric.header.foldl loadLine m = m := by
  exact (loadLine_comment _ _).trans (loadLine_comment m _)

theorem loadLine_sample (m : Metrics) {series value : Str} (hseries : series.head? = some 'a')
    (hvalue : IsNumeral value) : m.loadLine (sample series value) = m.loadSeries series value := by
  obtain ⟨rest, rfl⟩ := List.head?_eq_some_iff.mp hseries
  have htrim : trim (sample ('a' :: rest) value) = sample ('a' :: rest) value := by
    obtain ⟨front, last, rfl⟩ := (List.eq_nil_or_concat value).resolve_left hvalue.ne_nil
    have hlast := hvalue.isWhitespace last (by simp)
    simpa [sample] using trim_eq_self_of_ends (s := rest ++ ' ' :: front)
      (show isWhitespace 'a' = false from rfl) hlast
  have hsplit : rsplitOnce ' ' (sample ('a' :: rest) value) = some ('a' :: rest, value) :=
    rsplitOnce_append _ fun hblank => absurd (hvalue.isWhitespace ' ' hblank) (by decide)
  simp only [loadLine, htrim, hsplit]
  rfl

section Series

variable (m)

theorem loadSeries_pollFailures (n : UInt64) :
    m.loadSeries Metric.pollFailures.name (showU64 n) = { m with pollFailures := n } := by
  simp [loadSeries, seed, parseCounter_showU64]

theorem loadSeries_lastSuccess (n : Int64) :
    m.loadSeries Metric.lastSuccess.name (showI64 n) = { m with lastSuccessEpochSecs := n } := by
  simp [loadSeries, seed, parseI64_showI64, Metric.name_injective.eq_iff]

theorem loadSeries_applyFailures (n : UInt64) :
    m.loadSeries Metric.applyFailures.name (showU64 n) = { m with applyFailures := n } := by
  simp [loadSeries, seed, parseCounter_showU64, Metric.name_injective.eq_iff]

theorem loadSeries_lastApplySuccess (n : Int64) :
    m.loadSeries Metric.lastApplySuccess.name (showI64 n) =
      { m with lastApplySuccessEpochSecs := n } := by
  simp [loadSeries, seed, parseI64_showI64, Metric.name_injective.eq_iff]

theorem loadSeries_confConflict (reason : ConflictReason) (n : UInt64) :
    m.loadSeries reason.seriesPrefix (showU64 n) = m.setConfWriteConflicts n reason := by
  have hname : ∀ metric : Metric, reason.seriesPrefix ≠ metric.name := fun metric =>
    Metric.labelled_ne_name _ _ _ _
  have hfind : ConflictReason.all.find? (reason.seriesPrefix = ·.seriesPrefix) = some reason := by
    simp only [ConflictReason.seriesPrefix_injective.eq_iff]
    cases reason <;> rfl
  simp [loadSeries, hname, hfind, seed, parseCounter_showU64]

theorem loadSeries_paramRejected (field : Str) (n : UInt64) :
    m.loadSeries (Metric.paramRejected.labelled "field".toList field) (showU64 n) =
      { m with paramRejected := m.paramRejected.insert field n } := by
  have hname : ∀ metric : Metric,
      Metric.paramRejected.labelled "field".toList field ≠ metric.name := fun metric =>
    Metric.labelled_ne_name _ _ _ _
  have hfind : ConflictReason.all.find?
      (Metric.paramRejected.labelled "field".toList field = ·.seriesPrefix) = none := by
    simp [ConflictReason.seriesPrefix, Metric.labelled_ne_labelled]
  have hstart : (Metric.paramRejected.labelled "field".toList field).dropPrefix?
      (Metric.paramRejected.name ++ "\x7bfield=\"".toList) = some (field ++ "\"\x7d".toList) := by
    refine List.dropPrefix?_eq_some_iff.mpr ⟨_, ?_, beq_self_eq_true _⟩
    simp [Metric.labelled]
  have hend : (field ++ "\"\x7d".toList).dropSuffix? "\"\x7d".toList = some field :=
    List.dropSuffix?_eq_some_iff.mpr ⟨_, rfl, beq_self_eq_true _⟩
  simp only [loadSeries, hname, if_false, hfind, hstart, Option.bind_some, hend, seed,
    parseCounter_showU64, Option.elim_some]

end Series

theorem foldl_rejectedSample (m : Metrics) (entries : List (Str × UInt64)) :
    (entries.map rejectedSample).foldl loadLine m =
      { m with paramRejected := m.paramRejected.insertMany entries } := by
  induction entries generalizing m with
  | nil => simp
  | cons entry entries ih =>
    obtain ⟨field, n⟩ := entry
    rw [List.map_cons, List.foldl_cons, rejectedSample,
      loadLine_sample _ (Metric.head?_labelled _ _ _) (isNumeral_showU64 _),
      loadSeries_paramRejected, ih, Std.ExtTreeMap.insertMany_cons]

theorem insertMany_toList (t : Std.ExtTreeMap Str UInt64) :
    (∅ : Std.ExtTreeMap Str UInt64).insertMany t.toList = t := by
  apply Std.ExtTreeMap.ext_getElem?
  intro field
  cases hfield : t[field]? with
  | none =>
    have habsent : (t.toList.map Prod.fst).contains field = false := by
      rw [List.contains_eq_mem, decide_eq_false_iff_not]
      intro hmem
      obtain ⟨entry, hentry, rfl⟩ := List.mem_map.mp hmem
      rw [Std.ExtTreeMap.mem_toList_iff_getElem?_eq_some.mp hentry] at hfield
      cases hfield
    rw [Std.ExtTreeMap.getElem?_insertMany_list_of_contains_eq_false habsent,
      Std.ExtTreeMap.getElem?_empty]
  | some n =>
    have hentry := Std.ExtTreeMap.mem_toList_iff_getElem?_eq_some.mpr hfield
    exact Std.ExtTreeMap.getElem?_insertMany_list_of_mem Std.ReflCmp.compare_self
      Std.ExtTreeMap.distinct_keys_toList hentry

/-- Labels that fit on a line. -/
def OneLine (m : Metrics) : Prop := ∀ field ∈ m.paramRejected, '\n' ∉ field

theorem newline_notMem_sample {series value : Str} (hseries : '\n' ∉ series)
    (hvalue : IsNumeral value) : '\n' ∉ sample series value := by
  have hnumeral : '\n' ∉ value := fun hmem => absurd (hvalue.isWhitespace _ hmem) (by decide)
  simp [sample, hseries, hnumeral]

theorem newline_notMem_flushLines (h : m.OneLine) : ∀ line ∈ m.flushLines, '\n' ∉ line := by
  have hu (metric : Metric) (n : UInt64) :=
    newline_notMem_sample metric.newline_notMem_name (isNumeral_showU64 n)
  have hi (metric : Metric) (n : Int64) :=
    newline_notMem_sample metric.newline_notMem_name (isNumeral_showI64 n)
  have hconflict (reason : ConflictReason) (n : UInt64) :=
    newline_notMem_sample reason.newline_notMem_seriesPrefix (isNumeral_showU64 n)
  have hrejected : ∀ entry ∈ m.paramRejected.toList, '\n' ∉ rejectedSample entry := by
    intro entry hentry
    apply newline_notMem_sample _ (isNumeral_showU64 _)
    have hfield : entry.1 ∈ m.paramRejected := by
      rw [Std.ExtTreeMap.mem_iff_isSome_getElem?,
        Std.ExtTreeMap.mem_toList_iff_getElem?_eq_some.mp hentry]
      rfl
    simp [Metric.labelled, Metric.newline_notMem_name, h _ hfield]
  have hheader := Metric.newline_notMem_header
  simp only [flushLines, List.mem_append, List.mem_cons, List.mem_map, List.not_mem_nil]
  grind

/-- The file gives back the state that was flushed. -/
theorem load_flush (h : m.OneLine) : load (some m.flush) = m := by
  have hcr : ∀ (m : Metrics) line, m.loadLine (dropCr line) = m.loadLine line := by
    intro m line
    simp only [loadLine, trim_dropCr]
  have hu (m : Metrics) (metric : Metric) (n : UInt64) :=
    m.loadLine_sample metric.head?_name (isNumeral_showU64 n)
  have hi (m : Metrics) (metric : Metric) (n : Int64) :=
    m.loadLine_sample metric.head?_name (isNumeral_showI64 n)
  have hconflict (m : Metrics) (reason : ConflictReason) (n : UInt64) :=
    m.loadLine_sample reason.head?_seriesPrefix (isNumeral_showU64 n)
  simp only [load, flush, strLines_terminate (newline_notMem_flushLines h), List.foldl_map, hcr]
  simp only [flushLines, List.foldl_append, foldl_loadLine_header, foldl_rejectedSample,
    List.foldl_cons, List.foldl_nil, hu, hi, hconflict, loadSeries_pollFailures,
    loadSeries_lastSuccess, loadSeries_confConflict, loadSeries_applyFailures,
    loadSeries_lastApplySuccess, setConfWriteConflicts, zero, insertMany_toList]

/-! ## Counters -/

inductive Counter where
  | pollFailures
  | confWriteConflicts (reason : ConflictReason)
  | paramRejected (field : Str)
  | applyFailures
deriving DecidableEq, Repr

/-- The counter that a call is about. -/
def Call.counter : Call → Option Counter
  | .pollFailure => some .pollFailures
  | .confWriteConflict reason => some (.confWriteConflicts reason)
  | .paramRejected field => some (.paramRejected field)
  | .applyFailure => some .applyFailures
  | .pollSuccess _ | .applySuccess _ => none

def value (m : Metrics) : Counter → Option UInt64
  | .pollFailures => some m.pollFailures
  | .confWriteConflicts reason => some (m.confWriteConflicts reason)
  | .paramRejected field => m.paramRejected[field]?
  | .applyFailures => some m.applyFailures

section Record

variable {m' : Metrics} {call : Call}

/-- A call that is flushed adds one to its counter and leaves the others alone. -/
theorem value_record (h : m.record call = some m') (counter : Counter) :
    m'.value counter =
      if call.counter = some counter then some ((m.value counter).getD 0 + 1)
      else m.value counter := by
  cases call with
  | pollFailure | pollSuccess | applyFailure | applySuccess =>
    cases h
    cases counter <;> simp [Call.counter, value, confWriteConflicts]
  | confWriteConflict reason =>
    cases h
    cases reason <;> rcases counter with _ | (_ | _) | _ | _ <;>
      simp [Call.counter, value, confWriteConflicts, setConfWriteConflicts]
  | paramRejected field =>
    simp only [record, recordParamRejected] at h
    split at h
    · cases h
    · cases h
      cases counter with
      | paramRejected other =>
        by_cases hother : field = other <;>
          simp [Call.counter, value, Std.ExtTreeMap.getElem?_insert,
            Std.ExtTreeMap.getD_eq_getD_getElem?, hother]
      | pollFailures | confWriteConflicts | applyFailures =>
        simp [Call.counter, value, confWriteConflicts]

/-- What a call does to the labels. -/
theorem paramRejected_record (h : m.record call = some m') :
    m'.paramRejected = m.paramRejected ∨
      ∃ field n, call = .paramRejected field ∧
        (field ∈ m.paramRejected ∨ m.paramRejected.size < maxParamRejectedFields) ∧
        m'.paramRejected = m.paramRejected.insert field n := by
  cases call with
  | pollFailure | pollSuccess | applyFailure | applySuccess =>
    cases h
    exact .inl rfl
  | confWriteConflict reason =>
    cases h
    cases reason <;> exact .inl rfl
  | paramRejected field =>
    simp only [record, recordParamRejected] at h
    split at h
    · cases h
    next hroom =>
      cases h
      refine .inr ⟨field, _, rfl, ?_, rfl⟩
      simpa [← Std.ExtTreeMap.contains_iff_mem, or_iff_not_imp_left] using hroom

theorem size_record (h : m.record call = some m')
    (hsize : m.paramRejected.size ≤ maxParamRejectedFields) :
    m'.paramRejected.size ≤ maxParamRejectedFields := by
  rcases paramRejected_record h with hsame | ⟨field, n, -, hroom, hinsert⟩
  · rwa [hsame]
  · rw [hinsert, Std.ExtTreeMap.size_insert]
    grind

theorem OneLine.record (h : m.OneLine) (hcall : ∀ field, call = .paramRejected field → '\n' ∉ field)
    (hrecord : m.record call = some m') : m'.OneLine := by
  rcases paramRejected_record hrecord with hsame | ⟨field, n, rfl, -, hinsert⟩
  · rwa [OneLine, hsame]
  · intro other hother
    rw [hinsert, Std.ExtTreeMap.mem_insert] at hother
    rcases hother with hfield | hold
    · obtain rfl := Std.LawfulEqCmp.eq_of_compare hfield
      exact hcall field rfl
    · exact h other hold

end Record

/-! ## Flushes and restarts -/

/-- The counters of the running agent and the file. -/
structure Store where
  metrics : Metrics
  file : Option Str

namespace Store

inductive Event where
  | call (call : Call)
  | restart
deriving DecidableEq, Repr

def step (s : Store) : Event → Store
  | .call call =>
    match s.metrics.record call with
    | some metrics => ⟨metrics, some metrics.flush⟩
    | none => s
  | .restart => { s with metrics := load s.file }

/-- The first start after the installation. -/
def fresh : Store := ⟨load none, none⟩

/-- The event records no label of several lines. -/
def Event.OneLine (e : Event) : Prop := ∀ field, e = .call (.paramRejected field) → '\n' ∉ field

end Store

def store : Machine Store Store.Event Unit := ⟨fun s e => (s.step e, ())⟩

namespace Store

/-- The file holds the state. -/
structure Saved (s : Store) : Prop where
  load : load s.file = s.metrics
  oneLine : s.metrics.OneLine
  size : s.metrics.paramRejected.size ≤ maxParamRejectedFields

variable {s : Store} {e : Event}

theorem saved_fresh : fresh.Saved where
  load := rfl
  oneLine := by simp [fresh, Metrics.load, zero, OneLine]
  size := by simp [fresh, Metrics.load, zero]

theorem Saved.step (h : s.Saved) (he : e.OneLine) : (s.step e).Saved := by
  cases e with
  | restart => simpa [Store.step, h.load] using h
  | call call =>
    cases hrecord : s.metrics.record call with
    | none => simpa [Store.step, hrecord] using h
    | some metrics =>
      have hline : metrics.OneLine := h.oneLine.record (by simpa [Event.OneLine] using he) hrecord
      simp only [Store.step, hrecord]
      exact ⟨load_flush hline, hline, size_record hrecord h.size⟩

theorem Saved.run (h : s.Saved) {events : List Event} (hevents : ∀ e ∈ events, e.OneLine) :
    (store.run s events).Saved :=
  Machine.run_invariant (I := fun _ (s : Store) => s.Saved) (P := Event.OneLine) h
    (fun _ _ _ he hs => hs.step he) hevents

/-- One event and a counter that has a value. -/
theorem Saved.value_step (h : s.Saved) {counter : Counter} {v : UInt64}
    (hv : s.metrics.value counter = some v) :
    ∃ v', (s.step e).metrics.value counter = some v' ∧ (v' = v ∨ v' = v + 1) := by
  cases e with
  | restart => exact ⟨v, by simpa [Store.step, h.load] using hv, .inl rfl⟩
  | call call =>
    cases hrecord : s.metrics.record call with
    | none => exact ⟨v, by simpa [Store.step, hrecord] using hv, .inl rfl⟩
    | some metrics =>
      have hvalue := value_record hrecord counter
      simp only [Store.step, hrecord]
      grind

/-- A counter does not decrease unless it comes to its last value. -/
theorem Saved.value_run (h : s.Saved) {events : List Event} (hevents : ∀ e ∈ events, e.OneLine)
    {counter : Counter} {v : UInt64} (hv : s.metrics.value counter = some v) :
    (∃ v', (store.run s events).metrics.value counter = some v' ∧ v ≤ v') ∨
      ∃ first, first <+: events ∧
        (store.run s first).metrics.value counter = some (.ofNat (2 ^ 64 - 1)) := by
  induction events generalizing s v with
  | nil => exact .inl ⟨v, hv, UInt64.le_refl v⟩
  | cons e events ih =>
    by_cases hlast : v = .ofNat (2 ^ 64 - 1)
    · exact .inr ⟨[], List.nil_prefix, hlast ▸ hv⟩
    obtain ⟨v₁, hv₁, hstep⟩ := h.value_step (e := e) hv
    have hle : v ≤ v₁ := by
      rcases hstep with rfl | rfl
      · exact UInt64.le_refl _
      · have hroom : v.toNat ≠ 2 ^ 64 - 1 := fun heq => hlast (UInt64.toNat_inj.mp heq)
        have hlt := v.toNat_lt
        rw [UInt64.le_iff_toNat_le, UInt64.toNat_add, UInt64.toNat_one]
        omega
    have he := hevents e (by simp)
    rcases ih (h.step he) (fun e' he' => hevents e' (by simp [he'])) hv₁ with
      ⟨v', hv', hle'⟩ | ⟨first, hfirst, hreached⟩
    · exact .inl ⟨v', hv', UInt64.le_trans hle hle'⟩
    · exact .inr ⟨e :: first, List.cons_prefix_cons.mpr ⟨rfl, hfirst⟩, hreached⟩

end Store

/-- For any events: a restart finds the state that was flushed, there are never more labels than the
bound, and the value of a counter in the file does not decrease over further events and restarts,
unless it comes to the last value of its type in between. -/
theorem load_after_restart (events later : List Store.Event)
    (h : ∀ e ∈ events ++ later, e.OneLine) :
    let before := store.run .fresh events
    let after := store.run before later
    load before.file = before.metrics ∧
    before.metrics.paramRejected.size ≤ maxParamRejectedFields ∧
    ∀ counter v, (load before.file).value counter = some v →
      (∃ v', (load after.file).value counter = some v' ∧ v ≤ v') ∨
      ∃ first, first <+: later ∧
        (load (store.run before first).file).value counter = some (.ofNat (2 ^ 64 - 1)) := by
  intro before after
  have hbefore : before.Saved := Store.saved_fresh.run fun e he => h e (by simp [he])
  have hafter : ∀ first, first <+: later → (store.run before first).Saved := fun first hfirst =>
    hbefore.run fun e he => h e (List.mem_append_right _ (hfirst.subset he))
  refine ⟨hbefore.load, hbefore.size, fun counter v hv => ?_⟩
  rw [hbefore.load] at hv
  rcases hbefore.value_run (fun e he => h e (List.mem_append_right _ he)) hv with
    ⟨v', hv', hle⟩ | ⟨first, hfirst, hreached⟩
  · exact .inl ⟨v', by rwa [(hafter later List.prefix_rfl).load], hle⟩
  · exact .inr ⟨first, hfirst, by rwa [(hafter first hfirst).load]⟩

theorem load_after_restart_jmax :
    let before := store.run .fresh [.call (.paramRejected "jmax".toList), .call .pollFailure]
    let later := [.restart, .call (.paramRejected "jmax".toList)]
    load before.file = before.metrics ∧
    before.metrics.paramRejected.size ≤ maxParamRejectedFields ∧
    ((∃ v', (load (store.run before later).file).value .pollFailures = some v' ∧ 1 ≤ v') ∨
      ∃ first, first <+: later ∧
        (load (store.run before first).file).value .pollFailures = some (.ofNat (2 ^ 64 - 1))) := by
  intro before later
  obtain ⟨hload, hsize, hvalue⟩ := load_after_restart
    [.call (.paramRejected "jmax".toList), .call .pollFailure] later
    (by simp [later, Store.Event.OneLine])
  refine ⟨hload, hsize, hvalue .pollFailures 1 ?_⟩
  rw [hload]
  rfl

theorem pollFailures_run (n : Nat) :
    (store.run .fresh (List.replicate n (.call .pollFailure))).metrics.pollFailures = .ofNat n := by
  induction n with
  | zero => rfl
  | succ n ih =>
    rw [List.replicate_succ', Machine.run_append, UInt64.ofNat_add, ← ih]
    rfl

/-- After the last value of its type a counter in the file starts again. -/
theorem pollFailures_wraps :
    let file (n : Nat) := (store.run .fresh (List.replicate n (.call .pollFailure))).file
    (load (file (2 ^ 64 - 1))).value .pollFailures = some (.ofNat (2 ^ 64 - 1)) ∧
      (load (file (2 ^ 64))).value .pollFailures = some 0 := by
  have hvalue : ∀ n, (load (store.run .fresh (List.replicate n (.call .pollFailure))).file).value
      .pollFailures = some (.ofNat n) := by
    intro n
    have hsaved : (store.run .fresh (List.replicate n (.call .pollFailure))).Saved :=
      Store.saved_fresh.run (by simp [Store.Event.OneLine])
    rw [hsaved.load, value, pollFailures_run]
  exact ⟨hvalue _, hvalue _⟩

end Metrics

end PartnerEdge.Awg
