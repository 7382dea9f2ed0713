import PartnerEdge.Opec.EnvFile
import PartnerEdge.Parsing.Fallible
import PartnerEdge.Text.JsonTree

/-!
# Registration

A run of `opec secrets register`: the request is built from the arguments, the environment and some
files, sent until the registry gives a final answer, and the answer is checked and written. The copy
of the answer in `out_json` is written before the last two checks, so a run that fails at one of
these leaves it behind.
-/

namespace PartnerEdge.Opec

open Text

/-! ## The request -/

structure Args where
  registryUrl : Str
  partnerId : Str
  domain : Str
  token : Str
  publicIp : Str
  realityPubFile : Str
  realityUuidFile : Str
  awgPubFile : Str
  outEnv : Str
  outJson : Option Str
  region : Option Str
  brandingConfig : Option Str
  retries : Nat

/-- What a run finds: environment variables and files that can be read. -/
structure Surroundings where
  serveCountriesJson : Option Str
  imageVersion : Option Str
  readToString : Str → Option Str

structure RegisterBody where
  partnerId : Str
  domain : Str
  token : Str
  publicIp : Str
  region : Option Str
  awgPubkey : Option Str
  realityPublicKey : Option Str
  realityUuid : Option Str
  branding : Option JsonTree
  serveCountries : Option (List Str)

structure RegisterResponseRaw where
  nodeId : Option Str
  backendEndpoint : Option Str
  turnSecret : Option Str
  realityUuid : Option Str
  realityPublicKey : Option Str
  realityShortId : Option Str
  realityServerName : Option Str
  realityEncryption : Option Str
  relayJwtSecret : Option Str
  turnsSubdomain : Str
deriving DecidableEq, Repr

/-- The kinds of errors of the JSON library. -/
inductive Category where
  | io
  | malformed
  | data
  | eof

def Category.text : Category → Str
  | .io => "io".toList
  | .malformed => "syntax".toList
  | .data => "data".toList
  | .eof => "eof".toList

/-- The JSON library, as far as it is used. -/
structure JsonLibrary where
  parseStrings : Str → Except Str (List Str)
  parseValue : Str → Except Category JsonTree
  parseResponse : Str → Except Category RegisterResponseRaw
  serialize : RegisterBody → Except Str Str

def isBlank (s : Str) : Bool := (trim s).isEmpty

def digits (n : Nat) : Str := Nat.toDigits 10 n

def serveCountries (around : Surroundings) (json : JsonLibrary) :
    Except SecretsError (Option (List Str)) :=
  match around.serveCountriesJson with
  | none => .ok none
  | some raw =>
    if isBlank raw then .ok none
    else match json.parseStrings raw with
      | .ok parsed => .ok (some parsed)
      | .error e =>
        .error (.responseParse ("SERVE_COUNTRIES_JSON is not a valid JSON array: ".toList ++ e ++
          " (got: ".toList ++ raw.take 40 ++ ")".toList))

/-- A file without its surrounding blanks, if there is more in it. -/
def readTrim (around : Surroundings) (path : Str) : Option Str :=
  (around.readToString path).bind fun s => if isBlank s then none else some (trim s)

def readBranding (around : Surroundings) (json : JsonLibrary) :
    Option Str → Except SecretsError (Option JsonTree)
  | none => .ok none
  | some path =>
    match around.readToString path with
    | none => .error (.io path)
    | some content =>
      match json.parseValue content with
      | .ok parsed => .ok (some parsed)
      | .error e => .error (.invalidBranding path ("not valid JSON: ".toList ++
          digits (byteLen content) ++ " bytes, error kind: ".toList ++ e.text))

def buildBody (around : Surroundings) (json : JsonLibrary) (args : Args)
    (countries : Option (List Str)) : Except SecretsError Str := do
  let branding ← readBranding around json args.brandingConfig
  match json.serialize {
      partnerId := args.partnerId
      domain := args.domain
      token := args.token
      publicIp := args.publicIp
      region := args.region
      awgPubkey := readTrim around args.awgPubFile
      realityPublicKey := readTrim around args.realityPubFile
      realityUuid := readTrim around args.realityUuidFile
      branding := branding
      serveCountries := countries } with
  | .ok body => .ok body
  | .error e => .error (.responseParse ("body serialization failed: ".toList ++ e))

/-! ## The answer -/

structure Request where
  endpoint : Str
  installerVersion : Option Str
  body : Str

/-- What comes back for one request. Reading the body of an answer can fail. -/
inductive Reply where
  | ok (body : Except Str Str)
  | status (code : Nat) (body : Option Str)
  | transport

def trimEndSlashes (s : Str) : Str := (s.reverse.dropWhile (· == '/')).reverse

def registerRequest (around : Surroundings) (args : Args) (body : Str) : Request where
  endpoint := trimEndSlashes args.registryUrl ++ "/api/partner/register".toList
  installerVersion := around.imageVersion.filter fun v => !isBlank v
  body := body

def readReply (json : JsonLibrary) :
    Except Str Str → Except SecretsError (Str × RegisterResponseRaw)
  | .error e => .error (.responseParse ("could not read response body: ".toList ++ e))
  | .ok bodyStr =>
    match json.parseResponse bodyStr with
    | .ok parsed => .ok (bodyStr, parsed)
    | .error e =>
      .error (.responseParse ("response not JSON: ".toList ++ digits (byteLen bodyStr) ++
        " bytes, error kind: ".toList ++ e.text))

/-- The attempts from one on, with so many left after it. -/
def attemptFrom (json : JsonLibrary) (server : Nat → Reply) (attempt : Nat) :
    Nat → Except SecretsError (Str × RegisterResponseRaw)
  | 0 =>
    match server attempt with
    | .ok body => readReply json body
    | .status code body => .error (.http code ((body.getD []).take 500))
    | .transport => .error .transport
  | left + 1 =>
    match server attempt with
    | .ok body => readReply json body
    | .status code body =>
      if code < 500 then .error (.http code ((body.getD []).take 500))
      else attemptFrom json server (attempt + 1) left
    | .transport => attemptFrom json server (attempt + 1) left

def postWithRetry (json : JsonLibrary) (server : Request → Nat → Reply) (request : Request)
    (retries : Nat) : Except SecretsError (Str × RegisterResponseRaw) :=
  attemptFrom json (server request) 0 retries

/-- `require`: missing or blank is an error. -/
def requireField (value : Option Str) (name : String) : Except SecretsError Str :=
  match value with
  | some v => if isBlank v then .error (.missingResponseField name.toList) else .ok v
  | none => .error (.missingResponseField name.toList)

def RegisterResponseRaw.intoValidated (raw : RegisterResponseRaw) :
    Except SecretsError RegisterResponse := do
  return {
    nodeId := ← requireField raw.nodeId "node_id"
    backendEndpoint := ← requireField raw.backendEndpoint "backend_endpoint"
    turnSecret := ← requireField raw.turnSecret "turn_secret"
    realityUuid := ← requireField raw.realityUuid "reality_uuid"
    realityPublicKey := ← requireField raw.realityPublicKey "reality_public_key"
    realityShortId := ← requireField raw.realityShortId "reality_short_id"
    realityServerName := ← requireField raw.realityServerName "reality_server_name"
    realityEncryption := raw.realityEncryption.getD []
    relayJwtSecret := raw.relayJwtSecret.filter fun s => !s.isEmpty
    turnsSubdomain := raw.turnsSubdomain }

/-! ## A run -/

def isStale (r : RegisterResponse) : Bool :=
  isBlank r.realityEncryption && !isBlank r.realityPublicKey

/-- A validated answer is copied to `out_json`, checked once more, and written to `out_env`. -/
def finish (args : Args) (bodyStr : Str) (response : RegisterResponse) : Outcome :=
  let copied := args.outJson.toList.map fun path => (path, toUtf8 bodyStr)
  if isStale response then ⟨.error .staleRegistry, copied⟩
  else
    let env := writeEnvFile (.ok ()) args.outEnv response
    ⟨env.result, copied ++ env.writes⟩

/-- The answer of the registry to the request that the run sends. -/
def answer (around : Surroundings) (json : JsonLibrary) (server : Request → Nat → Reply)
    (args : Args) : Except SecretsError (Str × RegisterResponse) := do
  let countries ← serveCountries around json
  let body ← buildBody around json args countries
  let (bodyStr, raw) ← postWithRetry json server (registerRequest around args body) args.retries
  let response ← raw.intoValidated
  return (bodyStr, response)

def run (around : Surroundings) (json : JsonLibrary) (server : Request → Nat → Reply)
    (args : Args) : Outcome :=
  match answer around json server args with
  | .error e => ⟨.error e, []⟩
  | .ok (bodyStr, response) => finish args bodyStr response

/-! ## Runs that fail late -/

/-- The request is sent again after this reply, if an attempt is left. -/
def Reply.Retried : Reply → Prop
  | .ok _ => False
  | .status code _ => 500 ≤ code
  | .transport => True

/-- After replies to try again, the server gives an answer. -/
def Answers (server : Nat → Reply) (retries : Nat) (text : Str) : Prop :=
  ∃ attempt ≤ retries, (∀ i < attempt, (server i).Retried) ∧ server attempt = .ok (.ok text)

section Attempts

variable {json : JsonLibrary} {server : Nat → Reply} {text : Str} {raw : RegisterResponseRaw}

theorem answers_zero : Answers server 0 text ↔ server 0 = .ok (.ok text) := by
  constructor
  · rintro ⟨attempt, hle, -, hanswer⟩
    rwa [Nat.le_zero.1 hle] at hanswer
  · intro hanswer
    exact ⟨0, le_rfl, by simp, hanswer⟩

theorem answers_succ {n : Nat} : Answers server (n + 1) text ↔ server 0 = .ok (.ok text) ∨
    (server 0).Retried ∧ Answers (fun i => server (i + 1)) n text := by
  constructor
  · rintro ⟨attempt, hle, hretried, hanswer⟩
    cases attempt with
    | zero => exact .inl hanswer
    | succ attempt =>
      refine .inr ⟨hretried 0 (Nat.succ_pos _), attempt, Nat.le_of_succ_le_succ hle, ?_, hanswer⟩
      intro i hi
      exact hretried (i + 1) (Nat.succ_lt_succ hi)
  · rintro (hanswer | ⟨hfirst, attempt, hle, hretried, hanswer⟩)
    · exact ⟨0, Nat.zero_le _, by simp, hanswer⟩
    · refine ⟨attempt + 1, Nat.succ_le_succ hle, fun i hi => ?_, hanswer⟩
      cases i with
      | zero => exact hfirst
      | succ i => exact hretried i (Nat.lt_of_succ_lt_succ hi)

theorem readReply_eq_ok_iff {body : Except Str Str} : readReply json body = .ok (text, raw) ↔
    body = .ok text ∧ json.parseResponse text = .ok raw := by
  cases body with
  | error e => simp [readReply]
  | ok bodyStr =>
    rw [readReply, Except.ok.injEq]
    constructor
    · intro h
      split at h
      · next parsed hparsed =>
        cases h
        exact ⟨rfl, hparsed⟩
      · cases h
    · rintro ⟨rfl, hparsed⟩
      rw [hparsed]

theorem attemptFrom_eq_ok_iff (attempt left : Nat) :
    attemptFrom json server attempt left = .ok (text, raw) ↔
      Answers (fun i => server (attempt + i)) left text ∧ json.parseResponse text = .ok raw := by
  induction left generalizing attempt with
  | zero =>
    rw [answers_zero, attemptFrom, Nat.add_zero]
    cases server attempt with
    | ok body => simp [readReply_eq_ok_iff]
    | status code body => simp
    | transport => simp
  | succ left ih =>
    have hshift : (fun i => server (attempt + (i + 1))) = fun i => server (attempt + 1 + i) := by
      funext i
      rw [Nat.add_right_comm, Nat.add_assoc]
    rw [answers_succ, attemptFrom, Nat.add_zero, hshift]
    cases server attempt with
    | ok body => simp [readReply_eq_ok_iff, Reply.Retried]
    | status code body =>
      by_cases hcode : code < 500
      · simp [hcode, Reply.Retried]
      · simp [hcode, Reply.Retried, ih, Nat.le_of_not_lt hcode]
    | transport => simp [Reply.Retried, ih]

end Attempts

section Runs

variable {around : Surroundings} {json : JsonLibrary} {server : Request → Nat → Reply} {args : Args}
  {text : Str} {r : RegisterResponse}

/-- The registry finally answers the request with a complete response. -/
def AnswersWith (around : Surroundings) (json : JsonLibrary) (server : Request → Nat → Reply)
    (args : Args) (text : Str) (r : RegisterResponse) : Prop :=
  ∃ countries body raw, serveCountries around json = .ok countries ∧
    buildBody around json args countries = .ok body ∧
    Answers (server (registerRequest around args body)) args.retries text ∧
    json.parseResponse text = .ok raw ∧ raw.intoValidated = .ok r

theorem answer_eq_ok_iff : answer around json server args = .ok (text, r) ↔
    AnswersWith around json server args text r := by
  have hpost (request : Request) (raw : RegisterResponseRaw) :
      postWithRetry json server request args.retries = .ok (text, raw) ↔
        Answers (server request) args.retries text ∧ json.parseResponse text = .ok raw := by
    simp [postWithRetry, attemptFrom_eq_ok_iff]
  simp only [answer, bind_eq_ok_iff, AnswersWith, Prod.exists, pure, Except.pure, Except.ok.injEq,
    Prod.mk.injEq]
  constructor
  · rintro ⟨countries, hcountries, body, hbody, bodyStr, raw, hreply, response, hvalid, rfl, rfl⟩
    obtain ⟨hanswers, hparse⟩ := (hpost _ raw).1 hreply
    exact ⟨countries, body, raw, hcountries, hbody, hanswers, hparse, hvalid⟩
  · rintro ⟨countries, body, raw, hcountries, hbody, hanswers, hparse, hvalid⟩
    exact ⟨countries, hcountries, body, hbody, text, raw, (hpost _ raw).2 ⟨hanswers, hparse⟩, r,
      hvalid, rfl, rfl⟩

theorem not_isBlank_of_requireField {value : Option Str} {name : String} {v : Str}
    (h : requireField value name = .ok v) : isBlank v = false := by
  unfold requireField at h
  split at h
  · split at h
    · cases h
    · next hblank =>
      cases h
      exact Bool.eq_false_iff.2 hblank
  · cases h

theorem not_isBlank_of_intoValidated {raw : RegisterResponseRaw} (h : raw.intoValidated = .ok r) :
    isBlank r.realityPublicKey = false := by
  simp only [RegisterResponseRaw.intoValidated, bind_eq_ok_iff, pure, Except.pure,
    Except.ok.injEq] at h
  obtain ⟨_, _, _, _, _, _, _, _, key, hkey, _, _, _, _, rfl⟩ := h
  exact not_isBlank_of_requireField hkey

/-- The response is refused after it has been copied to `out_json`. -/
def RefusedLate (r : RegisterResponse) : Prop :=
  isBlank r.realityEncryption = true ∨ ∃ p ∈ r.pairs, breaksLine p.2 = true

theorem finish_of_refusedLate (args : Args) (text : Str) {raw : RegisterResponseRaw}
    (hvalid : raw.intoValidated = .ok r) (hlate : RefusedLate r) : ∃ e, finish args text r =
      ⟨.error e, args.outJson.toList.map fun path => (path, toUtf8 text)⟩ := by
  unfold finish
  dsimp only
  split
  · exact ⟨_, rfl⟩
  · next hstale =>
    have hkey := not_isBlank_of_intoValidated hvalid
    have hbreaks : ∃ p ∈ r.pairs, breaksLine p.2 = true := by
      rcases hlate with hblank | hbreaks
      · simp [isStale, hblank, hkey] at hstale
      · exact hbreaks
    obtain ⟨p, -, -, herror⟩ := foldlM_pushEnvLine_error [] hbreaks
    refine ⟨.invalidResponseValue p.1 newlineReason, ?_⟩
    rw [writeEnvFile, envContent, herror, List.append_nil]

theorem finish_of_not_refusedLate (hlate : ¬RefusedLate r) :
    (finish args text r).result = .ok () := by
  rw [RefusedLate, not_or, Bool.not_eq_true] at hlate
  have hnone : ∀ p ∈ r.pairs, breaksLine p.2 = false := by simpa using hlate.2
  simp [finish, isStale, hlate.1, writeEnvFile, envContent, foldlM_pushEnvLine_ok [] hnone]

end Runs

/-- A failed run has written nothing, unless a copy of the answer is asked for and the answer is
complete and refused late. -/
theorem failed_run_writes_nothing_iff (around : Surroundings) (json : JsonLibrary)
    (server : Request → Nat → Reply) (args : Args) :
    ((∃ e, (run around json server args).result = .error e) →
      (run around json server args).writes = []) ↔
    ¬(args.outJson ≠ none ∧
      ∃ text r, AnswersWith around json server args text r ∧ RefusedLate r) := by
  cases hanswer : answer around json server args with
  | error e =>
    have hnone (text : Str) (r : RegisterResponse) :
        ¬AnswersWith around json server args text r := by
      rw [← answer_eq_ok_iff, hanswer]
      simp
    simp [run, hanswer, hnone]
  | ok pair =>
    obtain ⟨text, r⟩ := pair
    have hrun : run around json server args = finish args text r := by rw [run, hanswer]
    obtain ⟨countries, body, raw, -, -, -, -, hvalid⟩ := answer_eq_ok_iff.1 hanswer
    have honly : (∃ text r, AnswersWith around json server args text r ∧ RefusedLate r) ↔
        RefusedLate r := by
      simp only [← answer_eq_ok_iff, hanswer, Except.ok.injEq, Prod.mk.injEq]
      constructor
      · rintro ⟨_, _, ⟨rfl, rfl⟩, hlate⟩
        exact hlate
      · intro hlate
        exact ⟨text, r, ⟨rfl, rfl⟩, hlate⟩
    rw [honly, hrun]
    by_cases hlate : RefusedLate r
    · obtain ⟨e, he⟩ := finish_of_refusedLate args text hvalid hlate
      rw [he]
      cases args.outJson <;> simp [hlate]
    · simp [finish_of_not_refusedLate hlate, hlate]

/-- An answer of a registry that does not know `reality_encryption`. -/
def staleText : Str :=
  ("\x7b\"node_id\":\"n1\",\"backend_endpoint\":\"https://a.example\",\"turn_secret\":\"t\"," ++
    "\"reality_uuid\":\"u\",\"reality_public_key\":\"k\",\"reality_short_id\":\"s\"," ++
    "\"reality_server_name\":\"b.example\"\x7d").toList

def staleRaw : RegisterResponseRaw where
  nodeId := some "n1".toList
  backendEndpoint := some "https://a.example".toList
  turnSecret := some "t".toList
  realityUuid := some "u".toList
  realityPublicKey := some "k".toList
  realityShortId := some "s".toList
  realityServerName := some "b.example".toList
  realityEncryption := none
  relayJwtSecret := none
  turnsSubdomain := []

/-- A library that reads this text, and nothing else. -/
def staleJson : JsonLibrary where
  parseStrings _ := .error []
  parseValue _ := .error .malformed
  parseResponse text := if text = staleText then .ok staleRaw else .error .malformed
  serialize body := .ok body.partnerId

def copyingArgs : Args where
  registryUrl := "https://registry.example/".toList
  partnerId := "p1".toList
  domain := "edge.example".toList
  token := "t".toList
  publicIp := "192.0.2.1".toList
  realityPubFile := "reality.pub".toList
  realityUuidFile := "reality.uuid".toList
  awgPubFile := "awg.pub".toList
  outEnv := "register.env".toList
  outJson := some "register.json".toList
  region := none
  brandingConfig := none
  retries := 0

/-- The run fails, and the secrets of the answer are in `out_json`. -/
theorem stale_answer_copied :
    run ⟨none, none, fun _ => none⟩ staleJson (fun _ _ => .ok (.ok staleText)) copyingArgs =
      ⟨.error .staleRegistry, [("register.json".toList, toUtf8 staleText)]⟩ := by
  decide +kernel

end PartnerEdge.Opec
