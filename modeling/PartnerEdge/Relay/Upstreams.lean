import PartnerEdge.Collections.FirstDistinct
import PartnerEdge.Net.Ipv4
import PartnerEdge.Relay.Provenance
import PartnerEdge.Text.Slices

/-!
# Upstreams

Which upstreams a relay node dials. A token lists candidates; the handler keeps the first eight
distinct ones that pass the allow-list and enqueues them, and the runner tries them one after the
other, several tasks at a time. `http::Uri` is a parameter: the allow-list judges what it parses,
and the dialler goes where it says.
-/

namespace PartnerEdge.Relay

open Text Sfu Net Collections

/-! ## The allow-list -/

structure Uri where
  scheme : Option Str
  host : Option Str
deriving DecidableEq, Repr

def meshV4 : Ipv4Addr := ⟨10, 9, 0, 0⟩

def publicWssAllowed : List Str := [".oxpulse.chat".toList, "localhost".toList, "127.0.0.1".toList]

def inMesh (host : Str) : Bool :=
  match parseIpv4 host with
  | some ip => meshV4.inNet 24 ip
  | none => false

/-- A pattern with a leading dot is a domain with its subdomains. -/
def matchesHost (host : Str) : Str → Bool
  | '.' :: suffix =>
    host = suffix || (byteLen host > byteLen ('.' :: suffix) && ('.' :: suffix).isSuffixOf host)
  | pattern => host = pattern

def isAllowedUpstream (parseUri : Str → Option Uri) (url : Str) : Bool :=
  match parseUri url with
  | none => false
  | some uri =>
    match uri.scheme, uri.host with
    | some scheme, some host =>
      if host.isEmpty then false
      else if scheme = "wss".toList then publicWssAllowed.any (matchesHost host)
      else if scheme = "ws".toList then inMesh host
      else false
    | _, _ => false

/-- A public host under TLS, or an address of the mesh. -/
def TrustedUpstream (uri : Uri) : Prop :=
  (uri.scheme = some "wss".toList ∧ ∃ host, uri.host = some host ∧
    (host = "oxpulse.chat".toList ∨ (∃ name ≠ [], host = name ++ ".oxpulse.chat".toList) ∨
      host = "localhost".toList ∨ host = "127.0.0.1".toList)) ∨
  (uri.scheme = some "ws".toList ∧ ∃ host d, uri.host = some host ∧
    parseIpv4 host = some ⟨10, 9, 0, d⟩)

theorem inMesh_iff {host : Str} : inMesh host = true ↔
    ∃ d, parseIpv4 host = some ⟨10, 9, 0, d⟩ := by
  unfold inMesh
  cases parseIpv4 host with
  | none => simp
  | some ip =>
    obtain ⟨a, b, c, d⟩ := ip
    simp [inNet_24_iff, meshV4]

theorem isSuffixOf_longer_iff {suffix host : Str} :
    (byteLen host > byteLen suffix ∧ suffix <:+ host) ↔ ∃ name ≠ [], host = name ++ suffix := by
  constructor
  · rintro ⟨hlen, name, rfl⟩
    refine ⟨name, ?_, rfl⟩
    rintro rfl
    simp at hlen
  · rintro ⟨name, hname, rfl⟩
    obtain ⟨c, rest, rfl⟩ := List.exists_cons_of_ne_nil hname
    have hpos := c.utf8Size_pos
    refine ⟨?_, List.suffix_append _ _⟩
    simp only [byteLen_append, byteLen]
    omega

theorem matchesHost_domain_iff {host suffix : Str} : matchesHost host ('.' :: suffix) = true ↔
    host = suffix ∨ ∃ name ≠ [], host = name ++ '.' :: suffix := by
  rw [← isSuffixOf_longer_iff, ← List.isSuffixOf_iff_suffix]
  simp [matchesHost]

theorem matchesHost_exact_iff {host pattern : Str} (h : pattern.head? ≠ some '.') :
    matchesHost host pattern = true ↔ host = pattern := by
  rw [matchesHost]
  · simp
  · rintro suffix rfl
    exact h rfl

theorem any_matchesHost_iff {host : Str} : publicWssAllowed.any (matchesHost host) = true ↔
    host = "oxpulse.chat".toList ∨ (∃ name ≠ [], host = name ++ ".oxpulse.chat".toList) ∨
      host = "localhost".toList ∨ host = "127.0.0.1".toList := by
  have hdomain : ".oxpulse.chat".toList = '.' :: "oxpulse.chat".toList := by decide
  rw [publicWssAllowed, List.any_cons, List.any_cons, List.any_cons, List.any_nil, Bool.or_false,
    Bool.or_eq_true, Bool.or_eq_true, hdomain, matchesHost_domain_iff,
    matchesHost_exact_iff (by decide), matchesHost_exact_iff (by decide), or_assoc]

theorem trustedUpstream_iff {scheme host : Str} : TrustedUpstream ⟨some scheme, some host⟩ ↔
    (scheme = "wss".toList ∧ publicWssAllowed.any (matchesHost host) = true) ∨
      (scheme = "ws".toList ∧ inMesh host = true) := by
  rw [any_matchesHost_iff, inMesh_iff]
  constructor
  · rintro (⟨hscheme, _, hhost, htrusted⟩ | ⟨hscheme, _, d, hhost, hmesh⟩)
    · cases hhost
      exact .inl ⟨Option.some.inj hscheme, htrusted⟩
    · cases hhost
      exact .inr ⟨Option.some.inj hscheme, d, hmesh⟩
  · rintro (⟨rfl, htrusted⟩ | ⟨rfl, d, hmesh⟩)
    · exact .inl ⟨rfl, host, rfl, htrusted⟩
    · exact .inr ⟨rfl, host, d, rfl, hmesh⟩

/-- The allow-list accepts the trusted upstreams and no others. -/
theorem isAllowedUpstream_iff {parseUri : Str → Option Uri} {url : Str} :
    isAllowedUpstream parseUri url = true ↔
      ∃ uri, parseUri url = some uri ∧ TrustedUpstream uri := by
  unfold isAllowedUpstream
  cases parseUri url with
  | none => simp
  | some uri =>
    obtain ⟨_ | scheme, _ | host⟩ := uri
    · simp [TrustedUpstream]
    · simp [TrustedUpstream]
    · simp [TrustedUpstream]
    · have hdiffer : "wss".toList ≠ "ws".toList := by decide
      have hempty : publicWssAllowed.any (matchesHost []) = false ∧ inMesh [] = false := by decide
      simp only [Option.some.injEq, exists_eq_left', trustedUpstream_iff]
      generalize "wss".toList = wss at *
      generalize "ws".toList = ws at *
      cases host <;> grind

/-! ## The candidates -/

/-- The candidates that the token lists, or its single upstream. -/
def signedCandidates (jwt : RelayJwt) : List Str :=
  if jwt.upstreamCandidates.isEmpty then [jwt.upstreamUrl] else jwt.upstreamCandidates

theorem firstDistinct_selectCandidates (env : Env) (jwt : RelayJwt) :
    FirstDistinct env.isAllowedUpstream 8 (signedCandidates jwt) (selectCandidates env jwt) :=
  firstDistinct_take _ _ _

theorem selectCandidates_eq_nil_iff {env : Env} {jwt : RelayJwt} :
    selectCandidates env jwt = [] ↔
      ∀ url ∈ signedCandidates jwt, env.isAllowedUpstream url = false := by
  have hfirst := firstDistinct_selectCandidates env jwt
  constructor
  · intro hnil url hurl
    by_contra hallowed
    have hlength := (hfirst.complete url hurl (Bool.of_not_eq_false hallowed) (by simp [hnil])).1
    rw [hnil] at hlength
    cases hlength
  · intro hnone
    refine List.eq_nil_iff_forall_not_mem.2 fun url hurl => ?_
    obtain ⟨hmem, hallowed⟩ := hfirst.mem url hurl
    rw [hnone url hmem] at hallowed
    cases hallowed

/-! ## The runner -/

/-- How an attempt at a candidate ends. -/
inductive Attempt where
  | connected
  | failed
  | timedOut
deriving DecidableEq, Repr

/-- A failover loop: the candidates that are left, what has become of the others, and the upstreams
that were dialled. -/
structure Failover where
  task : RelayTask
  candidates : List Str
  attempts : List (Str × Attempt)
  dialled : List Str
deriving DecidableEq, Repr

namespace Failover

def start (task : RelayTask) : Failover := ⟨task, task.upstreamCandidates, [], []⟩

def isConnected (f : Failover) : Bool := f.attempts.any (·.2 == .connected)

def isExhausted (f : Failover) : Bool := f.candidates.isEmpty && !f.isConnected

/-- One turn of the loop, which has returned after a success. `connect_relay` checks the allow-list
again before it dials. -/
def attempt (isAllowedUpstream : Str → Bool) (outcome : Attempt) (f : Failover) : Failover :=
  match f.candidates with
  | [] => f
  | url :: rest =>
    if f.isConnected then f
    else if isAllowedUpstream url then
      { f with
        candidates := rest
        attempts := f.attempts ++ [(url, outcome)]
        dialled := f.dialled ++ [url] }
    else { f with candidates := rest, attempts := f.attempts ++ [(url, .failed)] }

end Failover

def relayMaxConcurrent : Nat := 16

/-- The relay API and its runner, which takes the tasks in the order in which they were enqueued. -/
structure RelayNode where
  api : RelayApi
  received : Nat
  failovers : List Failover
deriving DecidableEq, Repr

inductive NodeLabel where
  | api (l : Label)
  /-- The runner takes a task as soon as it has a permit for it. -/
  | recv
  | attempt (i : Nat) (outcome : Attempt)
deriving DecidableEq, Repr

namespace RelayNode

def init : RelayNode := ⟨.init, 0, []⟩

def running (s : RelayNode) : Nat :=
  s.failovers.countP fun f => !(f.isConnected || f.isExhausted)

def step (env : Env) (s : RelayNode) : NodeLabel → RelayNode
  | .api l => { s with api := s.api.step env l }
  | .recv =>
    match s.api.tasks.reverse[s.received]? with
    | some e =>
      if s.running < relayMaxConcurrent then
        { s with received := s.received + 1, failovers := s.failovers ++ [.start e.2] }
      else s
    | none => s
  | .attempt i outcome =>
    match s.failovers[i]? with
    | some f => { s with failovers := s.failovers.set i (f.attempt env.isAllowedUpstream outcome) }
    | none => s

end RelayNode

def relayNode (env : Env) : Machine RelayNode NodeLabel Unit := ⟨fun s l => (s.step env l, ())⟩

/-- The steps of the relay API in a run of the node. -/
def apiLabels (ls : List NodeLabel) : List Label :=
  ls.filterMap fun
    | .api l => some l
    | _ => none

namespace RelayNode

variable {env : Env}

theorem api_run (ls : List NodeLabel) (s : RelayNode) :
    ((relayNode env).run s ls).api = (relayApi env).run s.api (apiLabels ls) := by
  induction ls generalizing s with
  | nil => rfl
  | cons l ls ih =>
    rw [Machine.run_cons, ih]
    cases l with
    | api l => rfl
    | recv =>
      simp only [relayNode, step, apiLabels, List.filterMap_cons]
      split
      · split <;> rfl
      · rfl
    | attempt i outcome =>
      simp only [relayNode, step, apiLabels, List.filterMap_cons]
      split <;> rfl

end RelayNode

namespace Failover

/-- The loop is in the middle of its task: what was tried and what is left are its candidates, and
nothing was tried after a success. -/
structure Follows (isAllowedUpstream : Str → Bool) (f : Failover) : Prop where
  tried : f.attempts.map Prod.fst ++ f.candidates = f.task.upstreamCandidates
  dialled : f.dialled = (f.attempts.map Prod.fst).filter isAllowedUpstream
  stopped : ∀ x ∈ f.attempts.dropLast, x.2 ≠ .connected

variable {isAllowedUpstream : Str → Bool} {f : Failover}

theorem Follows.start (task : RelayTask) : (start task).Follows isAllowedUpstream :=
  ⟨rfl, rfl, by simp [Failover.start]⟩

theorem Follows.attempt (h : f.Follows isAllowedUpstream) (outcome : Attempt) :
    (f.attempt isAllowedUpstream outcome).Follows isAllowedUpstream := by
  unfold Failover.attempt
  split
  · exact h
  · next url rest hcandidates =>
    have htried := h.tried
    rw [hcandidates] at htried
    split
    · exact h
    · next hconnected =>
      have hnone : ∀ x ∈ f.attempts, x.2 ≠ .connected := fun x hx hx' =>
        hconnected (List.any_eq_true.2 ⟨x, hx, by simp [hx']⟩)
      split
      · next hallowed =>
        refine ⟨by simpa using htried, ?_, by simpa using hnone⟩
        simp [h.dialled, hallowed]
      · next hrefused =>
        refine ⟨by simpa using htried, ?_, by simpa using hnone⟩
        simp [h.dialled, hrefused]

theorem attempt_task (outcome : Attempt) :
    (f.attempt isAllowedUpstream outcome).task = f.task := by
  unfold Failover.attempt
  split
  · rfl
  · split
    · rfl
    · split <;> rfl

end Failover

/-- Each loop follows the candidates of a task that was enqueued. -/
def RelayNode.Runs (env : Env) (s : RelayNode) : Prop :=
  ∀ f ∈ s.failovers, f.Follows env.isAllowedUpstream ∧ ∃ e ∈ s.api.tasks, e.2 = f.task

theorem RelayApi.tasks_step (env : Env) (s : RelayApi) (l : Label) :
    ∀ e ∈ s.tasks, e ∈ (s.step env l).tasks := by
  intro e he
  cases l with
  | tick seconds => exact he
  | connect token => exact he
  | resume i sent =>
    simp only [RelayApi.step]
    split
    · exact he
    · next phase _ =>
      cases phase with
      | verified claims =>
        simp only [RelayApi.resume]
        split
        · exact he
        · obtain ⟨-, heq⟩ | ⟨-, heq⟩ := s.checkReplay_cases i claims _ _ <;> rw [heq] <;> exact he
      | sending jti relayId task =>
        simp only [RelayApi.resume]
        split
        · exact List.mem_cons_of_mem _ he
        · exact he
      | _ => exact he

namespace RelayNode

variable {env : Env} {s : RelayNode}

theorem Runs.step (h : s.Runs env) (l : NodeLabel) : (s.step env l).Runs env := by
  cases l with
  | api l =>
    intro f hf
    obtain ⟨hfollows, e, he, htask⟩ := h f hf
    exact ⟨hfollows, e, s.api.tasks_step env l e he, htask⟩
  | recv =>
    simp only [RelayNode.step]
    split
    · next e he =>
      split
      · intro f hf
        rcases List.mem_append.1 hf with hf | hf
        · exact h f hf
        · obtain rfl := List.mem_singleton.1 hf
          exact ⟨.start e.2, e, List.mem_reverse.1 (List.mem_of_getElem? he), rfl⟩
      · exact h
    · exact h
  | attempt i outcome =>
    simp only [RelayNode.step]
    split
    · next f hf =>
      intro f' hf'
      rcases List.mem_or_eq_of_mem_set hf' with hf' | rfl
      · exact h f' hf'
      · obtain ⟨hfollows, e, he, htask⟩ := h f (List.mem_of_getElem? hf)
        exact ⟨hfollows.attempt outcome, e, he, htask.trans (Failover.attempt_task outcome).symm⟩
    · exact h

theorem runs_run (env : Env) (ls : List NodeLabel) : ((relayNode env).run .init ls).Runs env :=
  Machine.run_of_step (I := Runs env) (fun _ l h => h.step l) (by simp [Runs, init]) ls

end RelayNode

/-! ## What is dialled -/

/-- The token was decoded under one of the credentials. -/
def IsVerified (env : Env) (token : Str) (claims : RelayJwt) : Prop :=
  ∃ now, (∃ publicKeyPem, env.signingPublicKey = some publicKeyPem ∧
      decodeEd25519 env now token publicKeyPem = .ok claims) ∨
    (env.consultsSecret = true ∧ decodeHs256 env now token = .ok claims)

theorem verifies_isVerified (env : Env) : env.Verifies (IsVerified env) :=
  ⟨fun now _ pem _ hkey hok => ⟨now, .inl ⟨pem, hkey, hok⟩⟩,
    fun now _ _ hsecret hok => ⟨now, .inr ⟨hsecret, hok⟩⟩⟩

/-- The candidates of a task are the first eight distinct allowed ones of a token. -/
def Enqueues (env : Env) (claims : RelayJwt) (task : RelayTask) : Prop :=
  task.upstreamCandidates ≠ [] ∧
    FirstDistinct env.isAllowedUpstream 8 (signedCandidates claims) task.upstreamCandidates

theorem IsTaskOf.enqueues {env : Env} {claims : RelayJwt} {task : RelayTask}
    (h : IsTaskOf env claims task) : Enqueues env claims task := by
  obtain ⟨url, candidates, hselect, rfl⟩ := h
  exact ⟨by simp, hselect ▸ firstDistinct_selectCandidates env claims⟩

/-- What becomes of a request with a verified token at its next step: without an allowed candidate
it is rejected, and otherwise it is a replay or its task is sent. -/
def Decides (env : Env) (claims : RelayJwt) (next : Phase) : Prop :=
  ((∀ url ∈ signedCandidates claims, env.isAllowedUpstream url = false) ∧
    next = .finished .badRequest) ∨
  ((∃ url ∈ signedCandidates claims, env.isAllowedUpstream url = true) ∧
    (next = .finished .conflict ∨
      ∃ task, next = .sending claims.jti (relayId claims) task ∧ Enqueues env claims task))

theorem RelayApi.decides_step (env : Env) {s : RelayApi} {i : Nat} {claims : RelayJwt}
    (h : s.requests[i]? = some (.verified claims)) (sent : Bool) :
    ∃ next, (s.step env (.resume i sent)).requests[i]? = some next ∧ Decides env claims next := by
  obtain ⟨hi, -⟩ := List.getElem?_eq_some_iff.1 h
  have hset (phase : Phase) : (s.requests.set i phase)[i]? = some phase :=
    List.getElem?_set_self hi
  simp only [RelayApi.step, h, RelayApi.resume]
  cases hselect : selectCandidates env claims with
  | nil => exact ⟨_, hset _, .inl ⟨selectCandidates_eq_nil_iff.1 hselect, rfl⟩⟩
  | cons url candidates =>
    have hallowed := (firstDistinct_selectCandidates env claims).mem url (by simp [hselect])
    simp only
    obtain ⟨-, heq⟩ | ⟨-, heq⟩ := s.checkReplay_cases i claims url candidates <;> rw [heq]
    · exact ⟨_, hset _, .inr ⟨⟨url, hallowed⟩, .inl rfl⟩⟩
    · refine ⟨_, hset _, .inr ⟨⟨url, hallowed⟩, .inr ⟨_, rfl, ?_⟩⟩⟩
      exact IsTaskOf.enqueues ⟨url, candidates, hselect, rfl⟩

/-- The relay API with the allow-list of the source. -/
def Env.withUri (env : Env) (parseUri : Str → Option Uri) : Env :=
  { env with isAllowedUpstream := Relay.isAllowedUpstream parseUri }

/-- What is enqueued and dialled. -/
structure RelayNode.DialsAllowed (env : Env) (parseUri : Str → Option Uri) (s : RelayNode) :
    Prop where
  verified : ∀ (i : Nat) (claims : RelayJwt) (sent : Bool),
    s.api.requests[i]? = some (.verified claims) →
      ∃ next, (s.api.step env (.resume i sent)).requests[i]? = some next ∧ Decides env claims next
  tasks : ∀ e ∈ s.api.tasks, ∃ token claims, IsVerified env token claims ∧ Enqueues env claims e.2
  failovers : ∀ f ∈ s.failovers, (∃ e ∈ s.api.tasks, e.2 = f.task) ∧
    f.dialled = f.attempts.map Prod.fst ∧ f.dialled <+: f.task.upstreamCandidates ∧
    f.dialled.Nodup ∧ ∀ x ∈ f.attempts.dropLast, x.2 ≠ .connected
  allowed : ∀ f ∈ s.failovers, ∀ url ∈ f.dialled, env.isAllowedUpstream url = true
  trusted : ∀ url, env.isAllowedUpstream url = true → ∃ uri, parseUri url = some uri ∧
    TrustedUpstream uri

/-- In every run of a relay node: the candidates of a verified token that are enqueued are the first
eight distinct allowed ones, a token without one is rejected, each task dials its candidates in
order, each at most once and none after a success, and what is dialled is allowed: a public host
under TLS or an address of the mesh. -/
theorem dialsAllowed_run (env : Env) (parseUri : Str → Option Uri) (ls : List NodeLabel) :
    ((relayNode (env.withUri parseUri)).run .init ls).DialsAllowed (env.withUri parseUri)
      parseUri := by
  have htraced := RelayApi.traced_run (verifies_isVerified (env.withUri parseUri)) (apiLabels ls)
  have htasks : ∀ e ∈ ((relayNode (env.withUri parseUri)).run .init ls).api.tasks,
      ∃ token claims, IsVerified (env.withUri parseUri) token claims ∧
        Enqueues (env.withUri parseUri) claims e.2 := by
    intro e he
    rw [RelayNode.api_run] at he
    obtain ⟨token, -, claims, hverified, htask⟩ := htraced.tasks e he
    exact ⟨token, claims, hverified, htask.enqueues⟩
  have hfailovers : ∀ f ∈ ((relayNode (env.withUri parseUri)).run .init ls).failovers,
      (∃ e ∈ ((relayNode (env.withUri parseUri)).run .init ls).api.tasks, e.2 = f.task) ∧
        f.Follows (isAllowedUpstream parseUri) ∧
        ∃ claims, Enqueues (env.withUri parseUri) claims f.task := by
    intro f hf
    obtain ⟨hfollows, e, he, htask⟩ := RelayNode.runs_run (env.withUri parseUri) ls f hf
    obtain ⟨-, claims, -, henqueues⟩ := htasks e he
    exact ⟨⟨e, he, htask⟩, hfollows, claims, htask ▸ henqueues⟩
  refine ⟨fun i claims sent h => RelayApi.decides_step _ h sent, htasks, fun f hf => ?_,
    fun f hf url hurl => ?_, fun url => isAllowedUpstream_iff.1⟩
  · obtain ⟨hqueued, hfollows, claims, -, hfirst⟩ := hfailovers f hf
    have hstart : f.attempts.map Prod.fst <+: f.task.upstreamCandidates := ⟨_, hfollows.tried⟩
    have hdialled : f.dialled = f.attempts.map Prod.fst := by
      rw [hfollows.dialled]
      exact List.filter_eq_self.2 fun url hurl => (hfirst.mem url (hstart.subset hurl)).2
    exact ⟨hqueued, hdialled, hdialled ▸ hstart, hdialled ▸ hfirst.nodup.sublist hstart.sublist,
      hfollows.stopped⟩
  · obtain ⟨-, hfollows, -⟩ := hfailovers f hf
    rw [hfollows.dialled] at hurl
    exact (List.mem_filter.1 hurl).2

end PartnerEdge.Relay
