import PartnerEdge.Text.Assignment

/-!
# The migration of the state file

`migrate_state` brings a state file to schema version 1. It appends the structural keys that are
missing, with what lookups on the live system answer, and sets the version last. The file is edited
in place by appending text, which makes a line of its own only behind a newline.
-/

namespace PartnerEdge.Reconcile

open Text

/-! ## The lookups -/

/-- What the lookups answer, each on one line. -/
structure Answers where
  /-- The hash of the Caddyfile, if there is one. -/
  caddyfileSha : Option Str
  /-- `turns_subdomain` of the node config; empty if it has none. -/
  turnsSubdomain : Str
  /-- The port in the environment of the naive container; empty if it does not run. -/
  naiveSocksPort : Str
  sha_oneLine : ∀ sha ∈ caddyfileSha, '\n' ∉ sha
  subdomain_oneLine : '\n' ∉ turnsSubdomain
  port_oneLine : '\n' ∉ naiveSocksPort

def schemaVersionKey : Str := "SCHEMA_VERSION".toList

def caddyfileShaKey : Str := "CADDYFILE_SHA".toList

def turnsSubdomainKey : Str := "TURNS_SUBDOMAIN".toList

def backendApiKey : Str := "BACKEND_API".toList

def naiveSocksPortKey : Str := "NAIVE_SOCKS_PORT".toList

def backendApi : Str := "https://api.oxpulse.chat".toList

def defaultSocksPort : Str := "1080".toList

/-- The phases that derive a key: the key, and its value if there is one. -/
def Answers.phases (a : Answers) : List (Str × Option Str) :=
  [(caddyfileShaKey, a.caddyfileSha),
    (turnsSubdomainKey, if a.turnsSubdomain = [] then none else some a.turnsSubdomain),
    (backendApiKey, some backendApi),
    (naiveSocksPortKey,
      some (if a.naiveSocksPort = [] then defaultSocksPort else a.naiveSocksPort))]

/-! ## Editing the file -/

/-- `printf 'KEY=%s\n' "$value" >> "$_state_file"` -/
def appendAssignment (t key value : Str) : Str := t ++ assignment key value ++ ['\n']

/-- `grep '^SCHEMA_VERSION=' | cut -d= -f2 | tr -d '[:space:]'`. The newlines between several lines
are deleted as well. -/
def currentVersion (t : Str) : Str :=
  ((valuesOf schemaVersionKey t).map fun v => (v.takeWhile (· != '=')).filter (!isSpace ·)).flatten

/-- One phase, on the file and the assignments that were appended to it. -/
def derive (state : Str × List (Str × Str)) (phase : Str × Option Str) :
    Str × List (Str × Str) :=
  if assigns phase.1 state.1 then state
  else match phase.2 with
    | some value => (appendAssignment state.1 phase.1 value, state.2 ++ [(phase.1, value)])
    | none => state

def versionLine (line : Str) : Str :=
  if (valueOf? schemaVersionKey line).isSome then assignment schemaVersionKey ['1'] else line

/-- `sed -i "s|^SCHEMA_VERSION=.*|SCHEMA_VERSION=1|"`. A missing newline at the end stays so. -/
def setVersion (t : Str) : Str := joinLines ((lines t).map versionLine)

/-- The file after the migration, and the assignments that were appended to it. An absent version
is read as zero, which is not one either. -/
def migrateState (a : Answers) (t : Str) : Str × List (Str × Str) :=
  if currentVersion t = ['1'] then (t, [])
  else
    let (text, appended) := a.phases.foldl derive (t, [])
    if assigns schemaVersionKey text then (setVersion text, appended)
    else (appendAssignment text schemaVersionKey ['1'], appended ++ [(schemaVersionKey, ['1'])])

/-! ## What a migration should do -/

/-- The version that a shell finds which sources the file: the last one, and zero without any. -/
def schemaVersion (t : Str) : Nat :=
  ((valuesOf schemaVersionKey t).getLast?.bind parseDigits).getD 0

/-- Every version in the file is a number. -/
def Versioned (t : Str) : Prop := ∀ v ∈ valuesOf schemaVersionKey t, (parseDigits v).isSome

structure MigratesForward (a : Answers) (t : Str) : Prop where
  /-- A key that was assigned still is, on lines of its own and with the same values. -/
  keeps : ∀ key, key ≠ schemaVersionKey → '=' ∉ key → valuesOf key t ≠ [] →
    valuesOf key (migrateState a t).1 = valuesOf key t
  adds : ∀ entry ∈ (migrateState a t).2, assignment entry.1 entry.2 ∈ lines (migrateState a t).1
  version : schemaVersion t ≤ schemaVersion (migrateState a t).1 ∧
    1 ≤ schemaVersion (migrateState a t).1
  idempotent : (migrateState a (migrateState a t).1).1 = (migrateState a t).1

/-- Every key that the migration has a value for is there. -/
def NothingMissing (a : Answers) (t : Str) : Prop :=
  (∀ phase ∈ a.phases, phase.2.isSome → assigns phase.1 t) ∧ assigns schemaVersionKey t

end PartnerEdge.Reconcile
