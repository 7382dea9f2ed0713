import PartnerEdge.Collections.HashTable
import PartnerEdge.Machine.Run
import PartnerEdge.Text.Assignment

/-!
# The upstream check of the health report

Each run of the health report scrapes the proxy's metrics, compares the health of every upstream
with what the state file says about it, alerts where the two differ, and writes the state file anew
from what it scraped. The scrape and the state file are texts that the shell takes apart line by
line.
-/

namespace PartnerEdge.Health

open Text Collections

inductive UpstreamHealth
  | healthy
  | unhealthy
deriving DecidableEq, Repr

def UpstreamHealth.text : UpstreamHealth → Str
  | .healthy => "healthy".toList
  | .unhealthy => "unhealthy".toList

/-! ## Reading the metrics -/

def metricName : Str := "caddy_reverse_proxy_upstreams_healthy".toList

def upstreamKey : Str := "upstream=".toList

/-- The quoted texts behind `upstream=`, in a line that was split at its quotes. What the last quote
opens is not closed. -/
def quotedUpstreams : List Str → List Str
  | s :: name :: next :: rest =>
    let others := quotedUpstreams (name :: next :: rest)
    if upstreamKey.isSuffixOf s && !name.isEmpty then name :: others else others
  | _ => []

/-- `sed -nE 's/.*upstream="([^"]+)".*/\1/p'`, where the first star takes as much as it can. -/
def upstreamOf (line : Str) : Option Str := (quotedUpstreams (line.splitOn '"')).getLast?

/-- `sed -nE 's/.* ([01])$/\1/p'` -/
def healthOf (line : Str) : Option UpstreamHealth :=
  match line.reverse with
  | '1' :: ' ' :: _ => some .healthy
  | '0' :: ' ' :: _ => some .unhealthy
  | _ => none

def parseSample (line : Str) : Option (Str × UpstreamHealth) := do
  if !metricName.isPrefixOf line then none
  let up ← upstreamOf line
  let health ← healthOf line
  return (up, health)

/-- The array `current`. -/
def currentHealth (raw : Str) : List (Str × UpstreamHealth) :=
  collect ((lines (substituted raw)).filterMap parseSample)

/-! ## The state file -/

/-- `IFS='=' read -r key rest`. No line of the state file ends in an equals sign, which would be
dropped. -/
def readKeyRest (line : Str) : Str × Str := (splitOnce '=' line).getD (line, [])

def parseState (line : Str) : Option (Str × Str) :=
  let (key, rest) := readKeyRest line
  if key.isEmpty || key.head? == some '#' then none
  else some (key, rest.takeWhile (· != ':'))

/-- The array `previous`. Nothing is read after the last newline. -/
def previousHealth (file : Option Str) : List (Str × Str) :=
  match file with
  | some text => collect ((lines text).dropLast.filterMap parseState)
  | none => []

def stateHeader : Str :=
  "# Generated by oxpulse-channels-health-report.sh — do not edit".toList

def stateLine (epoch : Str → Nat) (entry : Str × UpstreamHealth) : Str :=
  assignment entry.1 (entry.2.text ++ ':' :: Nat.toDigits 10 (epoch entry.1))

def stateText (epoch : Str → Nat) (entries : List (Str × UpstreamHealth)) : Str :=
  terminate (stateHeader :: entries.map (stateLine epoch))

/-! ## Scrapes -/

/-- A name that can stand between quotes in a line. -/
structure UpstreamName where
  name : Str
  ne_nil : name ≠ []
  quote_notMem : '"' ∉ name
  newline_notMem : '\n' ∉ name
deriving DecidableEq

inductive MetricLine
  | sample (up : UpstreamName) (health : UpstreamHealth)
  | other (text : Str) (notSample : metricName.isPrefixOf text = false) (oneLine : '\n' ∉ text)

def UpstreamHealth.value : UpstreamHealth → Char
  | .healthy => '1'
  | .unhealthy => '0'

def MetricLine.text : MetricLine → Str
  | .sample up health =>
    metricName ++ "\x7bupstream=\"".toList ++ up.name ++ "\"\x7d ".toList ++ [health.value]
  | .other text _ _ => text

def MetricLine.sample? : MetricLine → Option (Str × UpstreamHealth)
  | .sample up health => some (up.name, health)
  | .other _ _ _ => none

/-- What a scrape returns: a health value for each of a set of upstreams, among other lines. -/
structure Metrics where
  lines : List MetricLine
  nodup : ((lines.filterMap MetricLine.sample?).map Prod.fst).Nodup

def Metrics.text (m : Metrics) : Str := terminate (m.lines.map MetricLine.text)

def Metrics.samples (m : Metrics) : List (Str × UpstreamHealth) :=
  m.lines.filterMap MetricLine.sample?

inductive Scrape
  /-- `curl` fails and prints nothing. -/
  | failed
  /-- The metrics are in a file, which cannot be read. -/
  | unreadable
  | returned (metrics : Metrics)

/-- The variable `raw`, if the function goes on. The `return` behind a `curl` that fails ends only
the substitution that it stands in. -/
def Scrape.raw : Scrape → Option Str
  | .failed => some []
  | .unreadable => none
  | .returned metrics => some metrics.text

/-! ## One run -/

structure Alert where
  up : Str
  prev : Str
  cur : UpstreamHealth
deriving DecidableEq, Repr

/-- What `tg_alert` is called with. -/
def Alert.text (hostname : Str) (a : Alert) : Str :=
  '[' :: hostname ++ "] TRANSITION upstream=".toList ++ a.up ++ ' ' :: a.prev ++
    " -> ".toList ++ a.cur.text

/-- A run: its scrape, the order of the shell's array, and the clock at each line of the state. -/
structure Run where
  scrape : Scrape
  order : List (Str × UpstreamHealth) → List (Str × UpstreamHealth)
  perm : ∀ entries, (order entries).Perm entries
  epoch : Str → Nat

/-- `prev="${previous[$up]:-}"` and the test behind it. -/
def alertFor (previous : List (Str × Str)) (entry : Str × UpstreamHealth) : Option Alert :=
  let prev := (previous.lookup entry.1).getD []
  if prev ≠ [] ∧ entry.2.text ≠ prev then some ⟨entry.1, prev, entry.2⟩ else none

/-- The state file after a run and the alerts of the run. -/
def checkUpstreamTransitions (file : Option Str) (run : Run) : Option Str × List Alert :=
  match run.scrape.raw with
  | none => (file, [])
  | some raw =>
    let current := run.order (currentHealth raw)
    (some (stateText run.epoch current), current.filterMap (alertFor (previousHealth file)))

def upstreamCheck : Machine (Option Str) Run (List Alert) where
  step := checkUpstreamTransitions

/-! ## A scrape as it is read -/

theorem upstreamOf_sample {start name rest : Str} (hstart : '"' ∉ start) (hname : '"' ∉ name)
    (hne : name ≠ []) (hrest : '"' ∉ rest) (hkey : upstreamKey.isSuffixOf start) :
    upstreamOf (start ++ '"' :: name ++ '"' :: rest) = some name := by
  have hjoin : start ++ '"' :: name ++ '"' :: rest = ['"'].intercalate [start, name, rest] := by
    simp [List.intercalate]
  have hsplit : (start ++ '"' :: name ++ '"' :: rest).splitOn '"' = [start, name, rest] := by
    rw [hjoin]
    exact List.splitOn_intercalate '"' (by simp [hstart, hname, hrest]) (by simp)
  rw [upstreamOf, hsplit]
  simp [quotedUpstreams, hkey, hne]

theorem parseSample_text (l : MetricLine) : parseSample l.text = l.sample? := by
  cases l with
  | sample up health =>
    have htext : (MetricLine.sample up health).text =
        (metricName ++ "\x7bupstream=".toList) ++ '"' :: up.name ++
          '"' :: ("\x7d ".toList ++ [health.value]) := by
      simp [MetricLine.text]
    have hprefix : metricName.isPrefixOf (MetricLine.sample up health).text = true := by
      rw [htext, List.isPrefixOf_iff_prefix, List.append_assoc, List.append_assoc]
      exact List.prefix_append _ _
    have hup : upstreamOf (MetricLine.sample up health).text = some up.name := by
      rw [htext]
      exact upstreamOf_sample (by decide) up.quote_notMem up.ne_nil
        (by cases health <;> decide) (by decide)
    have hhealth : healthOf (MetricLine.sample up health).text = some health := by
      rw [htext, healthOf]
      cases health <;> simp [UpstreamHealth.value]
    simp [parseSample, hprefix, hup, hhealth, MetricLine.sample?]
  | other text notSample oneLine =>
    simp [parseSample, MetricLine.text, notSample, MetricLine.sample?]

theorem newline_notMem_text (l : MetricLine) : '\n' ∉ l.text := by
  cases l with
  | sample up health =>
    have hmetric : '\n' ∉ metricName := by decide
    cases health <;>
      simp [MetricLine.text, hmetric, up.newline_notMem, UpstreamHealth.value]
  | other text notSample oneLine => exact oneLine

/-- What a scrape says about the upstreams. -/
def Scrape.samples : Scrape → List (Str × UpstreamHealth)
  | .returned metrics => metrics.samples
  | _ => []

theorem Scrape.nodup_samples (s : Scrape) : (s.samples.map Prod.fst).Nodup := by
  cases s with
  | returned metrics => exact metrics.nodup
  | failed => exact List.nodup_nil
  | unreadable => exact List.nodup_nil

theorem currentHealth_raw {s : Scrape} {raw : Str} (h : s.raw = some raw) :
    currentHealth raw = s.samples := by
  cases s with
  | failed =>
    cases h
    rfl
  | unreadable => cases h
  | returned metrics =>
    cases h
    have hlines : ∀ l ∈ metrics.lines.map MetricLine.text, '\n' ∉ l := by
      intro l hl
      obtain ⟨l, -, rfl⟩ := List.mem_map.1 hl
      exact newline_notMem_text l
    have hparse : parseSample [] = none := by decide
    rw [currentHealth, Metrics.text, filterMap_lines_substituted hparse, lines_terminate hlines,
      List.filterMap_append, List.filterMap_map]
    simp only [Function.comp_def, parseSample_text, List.filterMap_cons, hparse,
      List.filterMap_nil, List.append_nil]
    exact collect_of_nodup metrics.nodup

/-! ## The state file as it is read -/

/-- A name that a line of the state file can start with. -/
def Proper (name : Str) : Prop := name ≠ [] ∧ '\n' ∉ name ∧ '=' ∉ name ∧ name.head? ≠ some '#'

theorem newline_notMem_health (health : UpstreamHealth) : '\n' ∉ health.text := by
  cases health <;> decide

theorem newline_notMem_stateLine {entry : Str × UpstreamHealth} (h : Proper entry.1)
    (epoch : Str → Nat) : '\n' ∉ stateLine epoch entry := by
  have hdigits : '\n' ∉ Nat.toDigits 10 (epoch entry.1) :=
    fun hmem => absurd (isDigit_of_mem_toDigits hmem) (by decide)
  simp [stateLine, assignment, h.2.1, newline_notMem_health, hdigits]

theorem takeWhile_health (health : UpstreamHealth) (rest : Str) :
    (health.text ++ ':' :: rest).takeWhile (· != ':') = health.text := by
  have hcolon : ':' ∉ health.text := by cases health <;> decide
  have hother : ∀ c ∈ health.text, (c != ':') = true :=
    fun c hc => bne_iff_ne.2 (ne_of_mem_of_not_mem hc hcolon)
  rw [List.takeWhile_append_of_pos hother]
  simp

theorem parseState_stateLine {entry : Str × UpstreamHealth} (h : Proper entry.1)
    (epoch : Str → Nat) : parseState (stateLine epoch entry) = some (entry.1, entry.2.text) := by
  obtain ⟨hne, -, heq, hhash⟩ := h
  have hread : readKeyRest (stateLine epoch entry) =
      (entry.1, entry.2.text ++ ':' :: Nat.toDigits 10 (epoch entry.1)) := by
    rw [readKeyRest, stateLine, assignment, splitOnce_append heq]
    rfl
  simp [parseState, hread, hne, hhash, takeWhile_health]

theorem previousHealth_stateText {entries : List (Str × UpstreamHealth)} (epoch : Str → Nat)
    (hnodup : (entries.map Prod.fst).Nodup) (hproper : ∀ entry ∈ entries, Proper entry.1) :
    previousHealth (some (stateText epoch entries)) = entries.map fun e => (e.1, e.2.text) := by
  have hlines : ∀ l ∈ stateHeader :: entries.map (stateLine epoch), '\n' ∉ l := by
    refine List.forall_mem_cons.2 ⟨by decide, fun l hl => ?_⟩
    obtain ⟨entry, hentry, rfl⟩ := List.mem_map.1 hl
    exact newline_notMem_stateLine (hproper entry hentry) epoch
  have hheader : parseState stateHeader = none := by decide
  have hparse : (entries.map (stateLine epoch)).filterMap parseState =
      entries.map fun e => (e.1, e.2.text) := by
    rw [List.filterMap_map, ← List.filterMap_eq_map]
    exact List.filterMap_congr fun entry hentry =>
      parseState_stateLine (hproper entry hentry) epoch
  rw [previousHealth, stateText, lines_terminate hlines, List.dropLast_concat,
    List.filterMap_cons_none hheader, hparse]
  exact collect_of_nodup (by simpa [Function.comp_def] using hnodup)

end PartnerEdge.Health
