import PartnerEdge.Machine.Run
import PartnerEdge.Sfu.RoomAuth

/-!
# Relay grants

`POST /relay/connect` takes a signed relay token, verifies it, passes it through a replay cache and
hands a task to the relay runner. Requests are handled concurrently, and each of them reads the
clock several times. Here every read is a step of its own: a `Phase` is the point that a request has
reached, and a run interleaves the steps of any number of requests with the ticks of the clock.

The cache forgets a token at its `exp`, and the verifier accepts it in that second still.
-/

namespace PartnerEdge.Relay

open Text Sfu

/-- The claims of a relay token. -/
structure RelayJwt where
  roomId : Str
  upstreamUrl : Str
  upstreamRoomToken : Str
  iat : Nat
  exp : Nat
  jti : Str
  upstreamCandidates : List Str
deriving DecidableEq, Repr

inductive RelayJwtError where
  | malformed
  | invalidSignature
  | expired
  | algorithmMismatch
deriving DecidableEq, Repr

inductive ErrorKind where
  | expiredSignature
  | invalidSignature
  | invalidAlgorithmName
  | invalidKeyFormat
  | invalidAlgorithm
  | other
deriving DecidableEq, Repr

/-- The relay API and what it rests on: jsonwebtoken, which decodes a token at a time, and the
allow-list of upstreams. -/
structure Env where
  edPemParses : Str → Bool
  decode : Nat → Str → DecodingKey → Algorithm → Except ErrorKind RelayJwt
  isAllowedUpstream : Str → Bool
  secret : List UInt8
  signingPublicKey : Option Str
  hs256FallbackEnabled : Bool

/-! ## Verification -/

section Verify

variable (env : Env) (now : Nat)

/-- The decoding part of `RelayJwt::verify`. -/
def decodeHs256 (token : Str) : Except RelayJwtError RelayJwt :=
  match env.decode now token (.fromSecret env.secret) .hs256 with
  | .ok claims => .ok claims
  | .error .expiredSignature => .error .expired
  | .error .invalidSignature | .error .invalidAlgorithmName | .error .invalidKeyFormat =>
    .error .invalidSignature
  | .error .invalidAlgorithm | .error .other => .error .malformed

/-- The decoding part of `RelayJwt::verify_ed25519`. -/
def decodeEd25519 (token publicKeyPem : Str) : Except RelayJwtError RelayJwt :=
  if env.edPemParses publicKeyPem then
    match env.decode now token (.fromEdPem publicKeyPem) .edDSA with
    | .ok claims => .ok claims
    | .error .expiredSignature => .error .expired
    | .error .invalidSignature => .error .invalidSignature
    | .error .invalidAlgorithm => .error .algorithmMismatch
    | .error .invalidAlgorithmName | .error .invalidKeyFormat | .error .other => .error .malformed
  else .error .malformed

end Verify

def maxRelayCandidates : Nat := 8

/-- The allowed candidates in their signed order, each once. -/
def selectCandidates (env : Env) (jwt : RelayJwt) : List Str :=
  let raw := if jwt.upstreamCandidates.isEmpty then [jwt.upstreamUrl] else jwt.upstreamCandidates
  ((raw.filter env.isAllowedUpstream).eraseDups).take maxRelayCandidates

structure RelayTask where
  roomId : Str
  upstreamUrl : Str
  upstreamRoomToken : Str
  upstreamCandidates : List Str
deriving DecidableEq, Repr

/-! ## Requests -/

inductive Response where
  | ok (relayId : Str)
  | badRequest
  | unauthorized
  | conflict
deriving DecidableEq, Repr

def errorResponse : RelayJwtError → Response
  | .invalidSignature => .unauthorized
  | .expired | .malformed | .algorithmMismatch => .badRequest

/-- Where a request is. -/
inductive Phase where
  /-- About to be decoded under the key, or under the secret. -/
  | ed25519 (token publicKeyPem : Str)
  | hs256 (token : Str)
  /-- About to have its `iat` checked. -/
  | decoded (claims : RelayJwt)
  /-- About to take the lock of the replay cache. -/
  | verified (claims : RelayJwt)
  /-- Waiting for the channel to the runner. -/
  | sending (jti relayId : Str) (task : RelayTask)
  | finished (response : Response)
deriving DecidableEq, Repr

/-- The endpoint. `accepted` records the tokens that the replay check has let through, and the first
part of a task is the `jti` it came from; neither is read. -/
structure RelayApi where
  now : Nat
  seenJtis : List (Str × Nat)
  requests : List Phase
  tasks : List (Str × RelayTask)
  accepted : List (Str × Nat)
deriving DecidableEq, Repr

inductive Label where
  | tick (seconds : Nat)
  | connect (relayToken : Str)
  /-- One step of a request; `sent` is false if the runner has gone. -/
  | resume (i : Nat) (sent : Bool)
deriving DecidableEq, Repr

def connect (env : Env) (relayToken : Str) : Phase :=
  match env.signingPublicKey with
  | some publicKeyPem => .ed25519 relayToken publicKeyPem
  | none => .hs256 relayToken

/-- What follows `verify_ed25519`'s decoding: only a token that was not signed for the key goes to
the secret. -/
def afterEd25519 (env : Env) (token : Str) : Except RelayJwtError RelayJwt → Phase
  | .ok claims => .decoded claims
  | .error .invalidSignature | .error .algorithmMismatch =>
    if env.hs256FallbackEnabled then .hs256 token else .finished (errorResponse .invalidSignature)
  | .error .expired => .finished (errorResponse .expired)
  | .error .malformed => .finished (errorResponse .malformed)

def afterHs256 : Except RelayJwtError RelayJwt → Phase
  | .ok claims => .decoded claims
  | .error e => .finished (errorResponse e)

/-- A token from the future is malformed. -/
def checkIat (now : Nat) (claims : RelayJwt) : Phase :=
  if claims.iat > now + 30 then .finished (errorResponse .malformed) else .verified claims

def relayId (claims : RelayJwt) : Str := "relay-".toList ++ claims.roomId.take 8

namespace RelayApi

def init : RelayApi := ⟨0, [], [], [], []⟩

variable (env : Env) (s : RelayApi)

def setPhase (i : Nat) (phase : Phase) : RelayApi := { s with requests := s.requests.set i phase }

/-- Under the lock: entries at their `exp` go, a known `jti` is a replay, a new one is kept. -/
def checkReplay (i : Nat) (claims : RelayJwt) (url : Str) (candidates : List Str) : RelayApi :=
  let seen := s.seenJtis.filter (·.2 > s.now)
  if seen.any (·.1 == claims.jti) then
    { s with seenJtis := seen }.setPhase i (.finished .conflict)
  else
    { s with
      seenJtis := (claims.jti, claims.exp) :: seen
      accepted := (claims.jti, claims.exp) :: s.accepted }.setPhase i
        (.sending claims.jti (relayId claims)
          ⟨claims.roomId, url, claims.upstreamRoomToken, url :: candidates⟩)

/-- One step of the request at an index. -/
def resume (i : Nat) (sent : Bool) : Phase → RelayApi
  | .ed25519 token publicKeyPem =>
    s.setPhase i (afterEd25519 env token (decodeEd25519 env s.now token publicKeyPem))
  | .hs256 token => s.setPhase i (afterHs256 (decodeHs256 env s.now token))
  | .decoded claims => s.setPhase i (checkIat s.now claims)
  | .verified claims =>
    match selectCandidates env claims with
    | [] => s.setPhase i (.finished .badRequest)
    | url :: candidates => s.checkReplay i claims url candidates
  | .sending jti relayId task =>
    if sent then { s with tasks := (jti, task) :: s.tasks }.setPhase i (.finished (.ok relayId))
    else s.setPhase i (.finished .badRequest)
  | .finished _ => s

def step : Label → RelayApi
  | .tick seconds => { s with now := s.now + seconds }
  | .connect relayToken => { s with requests := s.requests ++ [Relay.connect env relayToken] }
  | .resume i sent =>
    match s.requests[i]? with
    | none => s
    | some phase => s.resume env i sent phase

end RelayApi

def relayApi (env : Env) : Machine RelayApi Label Unit := ⟨fun s l => (s.step env l, ())⟩

/-! ## The replay cache along a run -/

def Phase.isSending (jti : Str) : Phase → Bool
  | .sending jti' _ _ => jti' == jti
  | _ => false

/-- The token of a request at the replay check, unless none of its candidates is allowed. -/
def Phase.checked (env : Env) : Phase → Option RelayJwt
  | .verified claims => if selectCandidates env claims = [] then none else some claims
  | _ => none

namespace RelayApi

variable {env : Env} {s : RelayApi}

def enqueued (s : RelayApi) (jti : Str) : Nat := s.tasks.countP (·.1 == jti)

def sending (s : RelayApi) (jti : Str) : Nat := s.requests.countP (·.isSending jti)

/-- A token that was let through is in the cache until its `exp`, and each of them stands for at
most one task, enqueued or about to be. -/
structure Cached (s : RelayApi) : Prop where
  remembered : ∀ e ∈ s.accepted, e ∈ s.seenJtis ∨ e.2 ≤ s.now
  seen : ∀ e ∈ s.seenJtis, e ∈ s.accepted
  counted : ∀ jti, s.enqueued jti + s.sending jti ≤ s.accepted.countP (·.1 == jti)

theorem sending_setPhase {i : Nat} {phase : Phase} (h : s.requests[i]? = some phase) (next : Phase)
    (jti : Str) :
    (s.setPhase i next).sending jti + (phase.isSending jti).toNat =
      s.sending jti + (next.isSending jti).toNat :=
  countP_set_add (p := Phase.isSending jti) h next

/-- A step inside verification, or one that ends a request. -/
theorem Cached.setPhase (h : s.Cached) {i : Nat} {phase next : Phase}
    (hphase : s.requests[i]? = some phase) (hnext : ∀ jti, next.isSending jti = false) :
    (s.setPhase i next).Cached where
  remembered := h.remembered
  seen := h.seen
  counted jti := by
    have hsending := sending_setPhase hphase next jti
    have hcounted := h.counted jti
    rw [hnext] at hsending
    simp only [enqueued, RelayApi.setPhase, Bool.toNat_false] at *
    omega

theorem Cached.evict (h : s.Cached) :
    { s with seenJtis := s.seenJtis.filter (·.2 > s.now) }.Cached where
  remembered e he := by
    rcases h.remembered e he with hseen | hexp
    · by_cases hlive : e.2 > s.now
      · exact .inl (List.mem_filter.2 ⟨hseen, by simpa using hlive⟩)
      · exact .inr (Nat.le_of_not_gt hlive)
    · exact .inr hexp
  seen e he := h.seen e (List.mem_of_mem_filter he)
  counted := h.counted

theorem Cached.accept (h : s.Cached) {i : Nat} {claims : RelayJwt} {jti relayId : Str} {exp : Nat}
    {task : RelayTask} (hphase : s.requests[i]? = some (.verified claims)) :
    ({ s with
      seenJtis := (jti, exp) :: s.seenJtis
      accepted := (jti, exp) :: s.accepted }.setPhase i (.sending jti relayId task)).Cached where
  remembered e he := by
    rcases List.mem_cons.1 he with rfl | he
    · exact .inl List.mem_cons_self
    · exact (h.remembered e he).imp_left (List.mem_cons_of_mem _)
  seen e he := by
    rcases List.mem_cons.1 he with rfl | he
    · exact List.mem_cons_self
    · exact List.mem_cons_of_mem _ (h.seen e he)
  counted jti' := by
    have hsending := sending_setPhase hphase (.sending jti relayId task) jti'
    have hcounted := h.counted jti'
    simp only [enqueued, RelayApi.sending, RelayApi.setPhase, Phase.isSending,
      List.countP_cons, Bool.toNat] at *
    grind

theorem Cached.enqueue (h : s.Cached) {i : Nat} {jti relayId : Str} {task : RelayTask}
    {response : Response} (hphase : s.requests[i]? = some (.sending jti relayId task)) :
    ({ s with tasks := (jti, task) :: s.tasks }.setPhase i (.finished response)).Cached where
  remembered := h.remembered
  seen := h.seen
  counted jti' := by
    have hsending := sending_setPhase hphase (.finished response) jti'
    have hcounted := h.counted jti'
    simp only [enqueued, RelayApi.sending, RelayApi.setPhase, Phase.isSending,
      List.countP_cons, Bool.toNat] at *
    grind

/-- Either some entry of the `jti` is still live, or the token is let through. -/
theorem checkReplay_cases (s : RelayApi) (i : Nat) (claims : RelayJwt) (url : Str)
    (candidates : List Str) :
    ((∃ e ∈ s.seenJtis, e.1 = claims.jti ∧ s.now < e.2) ∧
      s.checkReplay i claims url candidates =
        { s with seenJtis := s.seenJtis.filter (·.2 > s.now) }.setPhase i (.finished .conflict)) ∨
    ((∀ e ∈ s.seenJtis, e.1 = claims.jti → e.2 ≤ s.now) ∧
      s.checkReplay i claims url candidates =
        { s with
          seenJtis := (claims.jti, claims.exp) :: s.seenJtis.filter (·.2 > s.now)
          accepted := (claims.jti, claims.exp) :: s.accepted }.setPhase i
            (.sending claims.jti (relayId claims)
              ⟨claims.roomId, url, claims.upstreamRoomToken, url :: candidates⟩)) := by
  unfold checkReplay
  by_cases hseen : (s.seenJtis.filter (·.2 > s.now)).any (·.1 == claims.jti) = true
  · refine .inl ⟨?_, if_pos hseen⟩
    simp only [List.any_eq_true, List.mem_filter, decide_eq_true_eq, beq_iff_eq] at hseen
    obtain ⟨e, ⟨he, hlive⟩, hjti⟩ := hseen
    exact ⟨e, he, hjti, hlive⟩
  · refine .inr ⟨?_, if_neg hseen⟩
    intro e he hjti
    by_contra hlive
    refine hseen (List.any_eq_true.2 ⟨e, List.mem_filter.2 ⟨he, ?_⟩, by simpa using hjti⟩)
    simpa using hlive

/-- The token that a step brings to the replay check. -/
def checked (env : Env) (s : RelayApi) : Label → Option RelayJwt
  | .resume i _ => (s.requests[i]?).bind (·.checked env)
  | .tick _ | .connect _ => none

/-- What a step that checks a token, or none, does to the accepted ones. A token is refused if some
entry of its `jti` is live, and let through otherwise. -/
def Admits (s next : RelayApi) (token : Option RelayJwt) : Prop :=
  (next.accepted = s.accepted ∧ ∀ claims, token = some claims →
      ∃ e ∈ s.seenJtis, e.1 = claims.jti ∧ s.now < e.2) ∨
    ∃ claims, token = some claims ∧ (∀ e ∈ s.seenJtis, e.1 = claims.jti → e.2 ≤ s.now) ∧
      next.accepted = (claims.jti, claims.exp) :: s.accepted

theorem Admits.of_none {next : RelayApi} (h : next.accepted = s.accepted) : s.Admits next none :=
  .inl ⟨h, nofun⟩

theorem isSending_connect (token jti : Str) : (Relay.connect env token).isSending jti = false := by
  unfold Relay.connect
  split <;> rfl

theorem isSending_afterEd25519 (token jti : Str) (result : Except RelayJwtError RelayJwt) :
    (afterEd25519 env token result).isSending jti = false := by
  unfold afterEd25519
  repeat' split
  all_goals rfl

theorem isSending_afterHs256 (jti : Str) (result : Except RelayJwtError RelayJwt) :
    (afterHs256 result).isSending jti = false := by
  unfold afterHs256
  split <;> rfl

theorem isSending_checkIat (now : Nat) (claims : RelayJwt) (jti : Str) :
    (checkIat now claims).isSending jti = false := by
  unfold checkIat
  split <;> rfl

theorem resume_spec (h : s.Cached) {i : Nat} {phase : Phase} (hphase : s.requests[i]? = some phase)
    (sent : Bool) :
    (s.resume env i sent phase).Cached ∧
      s.Admits (s.resume env i sent phase) (phase.checked env) := by
  cases phase with
  | ed25519 token publicKeyPem =>
    exact ⟨h.setPhase hphase fun jti => isSending_afterEd25519 token jti _, .of_none rfl⟩
  | hs256 token =>
    exact ⟨h.setPhase hphase fun jti => isSending_afterHs256 jti _, .of_none rfl⟩
  | decoded claims =>
    exact ⟨h.setPhase hphase fun jti => isSending_checkIat _ claims jti, .of_none rfl⟩
  | verified claims =>
    simp only [resume, Phase.checked]
    cases hselect : selectCandidates env claims with
    | nil => exact ⟨h.setPhase hphase fun _ => rfl, .of_none rfl⟩
    | cons url candidates =>
      simp only [reduceCtorEq, ↓reduceIte]
      obtain ⟨hlive, heq⟩ | ⟨hnone, heq⟩ := s.checkReplay_cases i claims url candidates <;> rw [heq]
      · refine ⟨h.evict.setPhase hphase fun _ => rfl, .inl ⟨rfl, ?_⟩⟩
        rintro _ ⟨⟩
        exact hlive
      · exact ⟨h.evict.accept hphase, .inr ⟨claims, rfl, hnone, rfl⟩⟩
  | sending jti relayId task =>
    simp only [resume]
    split
    · exact ⟨h.enqueue hphase, .of_none rfl⟩
    · exact ⟨h.setPhase hphase fun _ => rfl, .of_none rfl⟩
  | finished response => exact ⟨h, .of_none rfl⟩

/-- Every step keeps the cache in order, and the replay check is the only one that lets a token
through. -/
theorem step_spec (env : Env) (h : s.Cached) (l : Label) :
    (s.step env l).Cached ∧ s.Admits (s.step env l) (s.checked env l) := by
  cases l with
  | tick seconds =>
    refine ⟨⟨fun e he => ?_, h.seen, h.counted⟩, .of_none rfl⟩
    exact (h.remembered e he).imp_right (Nat.le_add_right_of_le ·)
  | connect token =>
    refine ⟨⟨h.remembered, h.seen, fun jti => ?_⟩, .of_none rfl⟩
    have hsending : (s.step env (.connect token)).sending jti = s.sending jti := by
      simp [sending, step, isSending_connect]
    rw [hsending]
    exact h.counted jti
  | resume i sent =>
    simp only [step, checked]
    cases hphase : s.requests[i]? with
    | none => exact ⟨h, .of_none rfl⟩
    | some phase => exact resume_spec h hphase sent

/-! ## One use of a token -/

/-- No token with the `jti` of the one at the replay check was let through and has expired. -/
def BeforeExpiry (env : Env) (s : RelayApi) (l : Label) : Prop :=
  ∀ claims, s.checked env l = some claims → ∀ e ∈ s.accepted, e.1 = claims.jti → s.now < e.2

/-- The cache misses a replay exactly at or after the `exp` of the token it has forgotten. -/
theorem nodup_step_iff (h : s.Cached) (hnodup : (s.accepted.map Prod.fst).Nodup) (l : Label) :
    ((s.step env l).accepted.map Prod.fst).Nodup ↔ s.BeforeExpiry env l := by
  obtain ⟨-, ⟨heq, hlive⟩ | ⟨claims, hchecked, hnone, heq⟩⟩ := step_spec env h l
  · refine iff_of_true (heq ▸ hnodup) ?_
    intro claims hchecked e he hjti
    obtain ⟨e', he', hjti', hnow⟩ := hlive claims hchecked
    obtain rfl : e = e' :=
      List.inj_on_of_nodup_map hnodup he (h.seen e' he') (hjti.trans hjti'.symm)
    exact hnow
  · rw [heq, List.map_cons, List.nodup_cons]
    constructor
    · rintro ⟨hfresh, -⟩ claims' hchecked' e he hjti
      cases hchecked.symm.trans hchecked'
      exact absurd (List.mem_map.2 ⟨e, he, hjti⟩) hfresh
    · intro hbefore
      refine ⟨fun hmem => ?_, hnodup⟩
      obtain ⟨e, he, hjti⟩ := List.mem_map.1 hmem
      have hlate := hbefore claims hchecked e he hjti
      rcases h.remembered e he with hseen | hexp
      · exact absurd (hnone e hseen hjti) (Nat.not_le_of_lt hlate)
      · exact absurd hexp (Nat.not_le_of_lt hlate)

theorem accepted_suffix_step (h : s.Cached) (l : Label) :
    s.accepted <:+ (s.step env l).accepted := by
  obtain ⟨-, ⟨heq, -⟩ | ⟨claims, -, -, heq⟩⟩ := step_spec env h l <;> rw [heq]
  exact List.suffix_cons _ _

theorem accepted_suffix_run (h : s.Cached) (ls : List Label) :
    s.accepted <:+ ((relayApi env).run s ls).accepted := by
  induction ls generalizing s with
  | nil => exact List.suffix_rfl
  | cons l ls ih => exact (accepted_suffix_step h l).trans (ih (step_spec env h l).1)

/-- The replay check lets every `jti` through at most once exactly if each check comes before the
`exp` of what it has let through. -/
theorem nodup_run_iff (h : s.Cached) (hnodup : (s.accepted.map Prod.fst).Nodup) (ls : List Label) :
    (((relayApi env).run s ls).accepted.map Prod.fst).Nodup ↔
      (relayApi env).Allowed (BeforeExpiry env) s ls := by
  induction ls generalizing s with
  | nil => exact iff_of_true hnodup trivial
  | cons l ls ih =>
    have hstep := (step_spec env h l).1
    by_cases hbefore : s.BeforeExpiry env l
    · exact (ih hstep ((nodup_step_iff h hnodup l).2 hbefore)).trans
        (and_iff_right hbefore).symm
    · refine iff_of_false (fun hrun => hbefore ?_) fun hrun => hbefore hrun.1
      exact (nodup_step_iff h hnodup l).1
        (((accepted_suffix_run hstep ls).map Prod.fst).sublist.nodup hrun)

theorem cached_init : init.Cached := ⟨nofun, nofun, fun _ => Nat.le_refl 0⟩

theorem Cached.run (env : Env) (h : s.Cached) (ls : List Label) :
    ((relayApi env).run s ls).Cached :=
  Machine.run_of_step (I := Cached) (fun _ l h => (step_spec env h l).1) h ls

/-- A relay token leads to at most one task in every run in which no token is checked again after
its `exp`. -/
theorem enqueued_le_one_of_beforeExpiry (env : Env) (ls : List Label)
    (h : (relayApi env).Allowed (BeforeExpiry env) .init ls) (jti : Str) :
    ((relayApi env).run .init ls).enqueued jti ≤ 1 := by
  have hnodup := (nodup_run_iff cached_init List.nodup_nil ls).2 h
  have hcounted := (cached_init.run env ls).counted jti
  have honce := List.nodup_iff_count_le_one.1 hnodup jti
  rw [List.count, List.countP_map] at honce
  exact (Nat.le_of_add_right_le hcounted).trans honce

end RelayApi

/-- Every token is `t`, good through second 10, and every upstream is allowed. -/
def oneTokenEnv : Env where
  edPemParses _ := false
  decode now _ _ _ :=
    if 10 < now then .error .expiredSignature
    else .ok ⟨"room".toList, "ws://10.9.0.1".toList, "t".toList, 0, 10, "j".toList, []⟩
  isAllowedUpstream _ := true
  secret := []
  signingPublicKey := none
  hs256FallbackEnabled := true

/-- A request with the token that runs to its end. -/
def wholeRequest (i : Nat) : List Label :=
  .connect "t".toList :: List.replicate 4 (.resume i true)

/-- Two requests in the last second before `exp` lead to one task. -/
theorem enqueued_le_one_of_beforeExpiry_replay :
    ((relayApi oneTokenEnv).run .init (.tick 9 :: wholeRequest 0 ++ wholeRequest 1)).enqueued
      "j".toList ≤ 1 := by
  refine RelayApi.enqueued_le_one_of_beforeExpiry oneTokenEnv _ ?_ _
  exact (RelayApi.nodup_run_iff RelayApi.cached_init List.nodup_nil _).1 (by decide +kernel)

/-- The second request comes in the second of `exp`, when the token still verifies. -/
theorem replay_at_exp :
    ((relayApi oneTokenEnv).run .init
      (.tick 9 :: wholeRequest 0 ++ .tick 1 :: wholeRequest 1)).enqueued "j".toList = 2 := by
  decide +kernel

end PartnerEdge.Relay
