import PartnerEdge.Opec.SecretsError
import PartnerEdge.Text.Shell

/-!
# The secrets env file

A register response is written as ten lines for a shell to source. Every value is put between single
quotes, with the quotes in it escaped, and a value that would break its line is refused. A shell
reads the file as exactly these assignments.
-/

namespace PartnerEdge.Opec

open Text

/-- A response of the registry whose required fields were found. -/
structure RegisterResponse where
  nodeId : Str
  backendEndpoint : Str
  turnSecret : Str
  realityUuid : Str
  realityPublicKey : Str
  realityShortId : Str
  realityServerName : Str
  realityEncryption : Str
  relayJwtSecret : Option Str
  turnsSubdomain : Str
deriving DecidableEq, Repr

def RegisterResponse.pairs (r : RegisterResponse) : List (Str × Str) :=
  [("NODE_ID".toList, r.nodeId),
    ("BACKEND_ENDPOINT".toList, r.backendEndpoint),
    ("TURN_SECRET".toList, r.turnSecret),
    ("REALITY_UUID".toList, r.realityUuid),
    ("REALITY_PUBLIC_KEY".toList, r.realityPublicKey),
    ("REALITY_SHORT_ID".toList, r.realityShortId),
    ("REALITY_SERVER_NAME".toList, r.realityServerName),
    ("REALITY_ENCRYPTION".toList, r.realityEncryption),
    ("RELAY_JWT_SECRET".toList, r.relayJwtSecret.getD []),
    ("TURNS_SUBDOMAIN".toList, r.turnsSubdomain)]

/-- What a function returned, and the files that it wrote. -/
structure Outcome where
  result : Except SecretsError Unit
  writes : List (Str × List UInt8)
deriving DecidableEq

def breaksLine (value : Str) : Bool := value.contains '\n' || value.contains '\r'

def newlineReason : Str :=
  "value contains newline — refusing to write env-file (injection vector)".toList

def validateEnvValue (name value : Str) : Except SecretsError Unit :=
  if breaksLine value then .error (.invalidResponseValue name newlineReason) else .ok ()

/-- `v.replace('\'', "'\\''")` -/
def escapeQuotes (value : Str) : Str :=
  value.flatMap fun c => if c = '\'' then "'\\''".toList else [c]

def envLine (k v : Str) : Str := k ++ "='".toList ++ escapeQuotes v ++ "'\n".toList

def pushEnvLine (content : Str) (p : Str × Str) : Except SecretsError Str := do
  validateEnvValue p.1 p.2
  return content ++ envLine p.1 p.2

def envContent (pairs : List (Str × Str)) : Except SecretsError Str := pairs.foldlM pushEnvLine []

/-- The content goes to a temporary file that is renamed at the end, or something on this way
fails. -/
def writeEnvFile (io : Except SecretsError Unit) (path : Str) (r : RegisterResponse) : Outcome :=
  match envContent r.pairs with
  | .error e => ⟨.error e, []⟩
  | .ok content =>
    match io with
    | .error e => ⟨.error e, []⟩
    | .ok () => ⟨.ok (), [(path, toUtf8 content)]⟩

/-! ## The content -/

section Content

variable {pairs : List (Str × Str)}

theorem foldlM_pushEnvLine_ok (content : Str) (h : ∀ p ∈ pairs, breaksLine p.2 = false) :
    pairs.foldlM pushEnvLine content = .ok (content ++ pairs.flatMap fun p => envLine p.1 p.2) := by
  induction pairs generalizing content with
  | nil => simp [pure, Except.pure]
  | cons p pairs ih =>
    rw [List.forall_mem_cons] at h
    have hstep : pushEnvLine content p = .ok (content ++ envLine p.1 p.2) := by
      simp [pushEnvLine, validateEnvValue, h.1]
    rw [List.foldlM_cons, hstep]
    change pairs.foldlM pushEnvLine (content ++ envLine p.1 p.2) = _
    rw [ih _ h.2, List.flatMap_cons, List.append_assoc]

theorem foldlM_pushEnvLine_error (content : Str) (h : ∃ p ∈ pairs, breaksLine p.2 = true) :
    ∃ p ∈ pairs, breaksLine p.2 = true ∧
      pairs.foldlM pushEnvLine content = .error (.invalidResponseValue p.1 newlineReason) := by
  induction pairs generalizing content with
  | nil => simp at h
  | cons p pairs ih =>
    cases hp : breaksLine p.2 with
    | true =>
      refine ⟨p, List.mem_cons_self, hp, ?_⟩
      have hstep : pushEnvLine content p = .error (.invalidResponseValue p.1 newlineReason) := by
        simp [pushEnvLine, validateEnvValue, hp]
      rw [List.foldlM_cons, hstep]
      rfl
    | false =>
      have hstep : pushEnvLine content p = .ok (content ++ envLine p.1 p.2) := by
        simp [pushEnvLine, validateEnvValue, hp]
      obtain ⟨q, hq, hbreaks, herror⟩ := ih (content ++ envLine p.1 p.2) (by simpa [hp] using h)
      refine ⟨q, List.mem_cons_of_mem _ hq, hbreaks, ?_⟩
      rw [List.foldlM_cons, hstep]
      exact herror

end Content

theorem toUtf8_escapeQuotes (value : Str) :
    toUtf8 (escapeQuotes value) = (toUtf8 value).flatMap Shell.escapeByte := by
  have hchar (c : Char) : toUtf8 (if c = '\'' then "'\\''".toList else [c]) =
      (String.utf8EncodeChar c).flatMap Shell.escapeByte := by
    split
    · next hc =>
      subst hc
      decide
    · next hc =>
      have hsingle : toUtf8 [c] = String.utf8EncodeChar c := List.flatMap_singleton ..
      rw [← hsingle, Shell.flatMap_escapeByte_of_notMem]
      intro hmem
      exact hc (List.mem_singleton.1 (mem_of_mem_toUtf8 (by decide) hmem)).symm
  rw [escapeQuotes, toUtf8, toUtf8, List.flatMap_assoc, List.flatMap_assoc]
  simp only [← hchar]
  rfl

theorem toUtf8_envLine (k v : Str) :
    toUtf8 (envLine k v) = Shell.assignmentLine (toUtf8 k) (toUtf8 v) := by
  have hopen : toUtf8 "='".toList = [Shell.equals, Shell.quote] := by decide
  have hclose : toUtf8 "'\n".toList = [Shell.quote, Shell.newline] := by decide
  rw [envLine, toUtf8_append, toUtf8_append, toUtf8_append, hopen, hclose, toUtf8_escapeQuotes,
    Shell.assignmentLine, Shell.singleQuote]
  simp

theorem readAssignments_envContent (r : RegisterResponse) (h : ∀ p ∈ r.pairs, '\x00' ∉ p.2) :
    Shell.readAssignments (toUtf8 (r.pairs.flatMap fun p => envLine p.1 p.2)) =
      some (r.pairs.map fun p => (toUtf8 p.1, toUtf8 p.2)) := by
  have hlines : toUtf8 (r.pairs.flatMap fun p => envLine p.1 p.2) =
      (r.pairs.map fun p => (toUtf8 p.1, toUtf8 p.2)).flatMap fun p =>
        Shell.assignmentLine p.1 p.2 := by
    rw [toUtf8, List.flatMap_assoc, List.flatMap_map]
    exact List.flatMap_congr fun p _ => toUtf8_envLine p.1 p.2
  rw [hlines, Shell.readAssignments_lines]
  · have hnames : ∀ k ∈ r.pairs.map Prod.fst, Shell.isName (toUtf8 k) = true := by
      change ∀ k ∈ ["NODE_ID".toList, "BACKEND_ENDPOINT".toList, "TURN_SECRET".toList,
        "REALITY_UUID".toList, "REALITY_PUBLIC_KEY".toList, "REALITY_SHORT_ID".toList,
        "REALITY_SERVER_NAME".toList, "REALITY_ENCRYPTION".toList, "RELAY_JWT_SECRET".toList,
        "TURNS_SUBDOMAIN".toList], Shell.isName (toUtf8 k) = true
      decide +kernel
    intro q hq
    obtain ⟨p, hp, rfl⟩ := List.mem_map.1 hq
    exact hnames p.1 (List.mem_map_of_mem hp)
  · rintro q hq hzero
    obtain ⟨p, hp, rfl⟩ := List.mem_map.1 hq
    exact h p hp (mem_of_mem_toUtf8 (by decide) hzero)

/-- A value that breaks its line is refused, and nothing is written. Otherwise the file, if it can
be written, is one from which a shell reads every name with its value. -/
theorem env_file_assigns_values (io : Except SecretsError Unit) (path : Str) (r : RegisterResponse)
    (h : ∀ p ∈ r.pairs, '\x00' ∉ p.2) :
    (∃ p ∈ r.pairs, breaksLine p.2 = true ∧
      writeEnvFile io path r = ⟨.error (.invalidResponseValue p.1 newlineReason), []⟩) ∨
    (∀ p ∈ r.pairs, breaksLine p.2 = false) ∧
      ((∃ e, io = .error e ∧ writeEnvFile io path r = ⟨.error e, []⟩) ∨
        ∃ script, io = .ok () ∧ writeEnvFile io path r = ⟨.ok (), [(path, script)]⟩ ∧
          Shell.readAssignments script = some (r.pairs.map fun p => (toUtf8 p.1, toUtf8 p.2))) := by
  by_cases hbreaks : ∃ p ∈ r.pairs, breaksLine p.2 = true
  · obtain ⟨p, hp, hline, herror⟩ := foldlM_pushEnvLine_error [] hbreaks
    refine .inl ⟨p, hp, hline, ?_⟩
    rw [writeEnvFile, envContent, herror]
  · have hnone : ∀ p ∈ r.pairs, breaksLine p.2 = false := by simpa using hbreaks
    refine .inr ⟨hnone, ?_⟩
    rw [writeEnvFile, envContent, foldlM_pushEnvLine_ok [] hnone]
    cases io with
    | error e => exact .inl ⟨e, rfl, rfl⟩
    | ok u => exact .inr ⟨_, rfl, rfl, readAssignments_envContent r h⟩

/-- A response of a registry that tries to be executed. -/
def hostileResponse : RegisterResponse where
  nodeId := "node-1".toList
  backendEndpoint := "https://example.com".toList
  turnSecret := "$(id)'; id; '".toList
  realityUuid := "\\'\\".toList
  realityPublicKey := "ключ".toList
  realityShortId := "''".toList
  realityServerName := "example.com".toList
  realityEncryption := "none # no".toList
  relayJwtSecret := none
  turnsSubdomain := []

theorem hostileResponse_assigned : ∃ script,
    writeEnvFile (.ok ()) "secrets.env".toList hostileResponse =
      ⟨.ok (), [("secrets.env".toList, script)]⟩ ∧
    Shell.readAssignments script =
      some (hostileResponse.pairs.map fun p => (toUtf8 p.1, toUtf8 p.2)) := by
  rcases env_file_assigns_values (.ok ()) "secrets.env".toList hostileResponse
    (by decide +kernel) with ⟨p, hp, hbreaks, -⟩ | ⟨-, ⟨e, he, -⟩ | ⟨script, -, hwrite, hread⟩⟩
  · have hnone : ∀ p ∈ hostileResponse.pairs, breaksLine p.2 = false := by decide +kernel
    rw [hnone p hp] at hbreaks
    cases hbreaks
  · cases he
  · exact ⟨script, hwrite, hread⟩

end PartnerEdge.Opec
