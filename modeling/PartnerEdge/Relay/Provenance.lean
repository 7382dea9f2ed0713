import PartnerEdge.Relay.Connect

/-!
# Where a grant comes from

A request is the request of one token. Whatever every successful verification of a token says of the
token and its claims is true of every request that got past verification, and of every task that was
enqueued, in every run: the phases hand on what was verified and nothing else.
-/

namespace PartnerEdge.Relay

open Text Sfu

/-- The tokens of the requests, in the order of their indices. -/
def connectTokens (ls : List Label) : List Str :=
  ls.filterMap fun
    | .connect relayToken => some relayToken
    | _ => none

/-- The secret is consulted: there is no key, or a token that is not for the key may fall back. -/
def Env.consultsSecret (env : Env) : Bool := env.signingPublicKey.isNone || env.hs256FallbackEnabled

/-- Each verification that succeeds gives the property. -/
structure Env.Verifies (env : Env) (V : Str → RelayJwt → Prop) : Prop where
  ed25519 : ∀ now token publicKeyPem claims, env.signingPublicKey = some publicKeyPem →
    decodeEd25519 env now token publicKeyPem = .ok claims → V token claims
  hs256 : ∀ now token claims, env.consultsSecret = true →
    decodeHs256 env now token = .ok claims → V token claims

/-- The task of a token. -/
def IsTaskOf (env : Env) (claims : RelayJwt) (task : RelayTask) : Prop :=
  ∃ url candidates, selectCandidates env claims = url :: candidates ∧
    task = ⟨claims.roomId, url, claims.upstreamRoomToken, url :: candidates⟩

section Holds

variable (env : Env) (V : Str → RelayJwt → Prop)

/-- What is known of the token of a request. -/
def Phase.Holds (token : Str) : Phase → Prop
  | .ed25519 token' publicKeyPem => token' = token ∧ env.signingPublicKey = some publicKeyPem
  | .hs256 token' => token' = token ∧ env.consultsSecret = true
  | .decoded claims | .verified claims => V token claims
  | .sending _ _ task => ∃ claims, V token claims ∧ IsTaskOf env claims task
  | .finished (.ok _) => ∃ claims, V token claims
  | .finished _ => True

structure RelayApi.Traced (tokens : List Str) (s : RelayApi) : Prop where
  length : tokens.length = s.requests.length
  requests : ∀ (i : Nat) (token : Str) (phase : Phase), tokens[i]? = some token →
    s.requests[i]? = some phase → phase.Holds env V token
  tasks : ∀ e ∈ s.tasks, ∃ token ∈ tokens, ∃ claims, V token claims ∧ IsTaskOf env claims e.2

end Holds

namespace RelayApi

variable {env : Env} {V : Str → RelayJwt → Prop} {tokens : List Str} {s : RelayApi}

theorem Traced.setPhase (h : s.Traced env V tokens) {i : Nat} {token : Str} {next : Phase}
    (htoken : tokens[i]? = some token) (hnext : next.Holds env V token) :
    (s.setPhase i next).Traced env V tokens where
  length := by simpa [RelayApi.setPhase] using h.length
  requests j token' phase htoken' hphase := by
    simp only [RelayApi.setPhase, List.getElem?_set] at hphase
    split at hphase
    · next hij =>
      subst hij
      split at hphase
      · cases hphase
        cases htoken.symm.trans htoken'
        exact hnext
      · cases hphase
    · exact h.requests j token' phase htoken' hphase
  tasks := h.tasks

theorem holds_afterEd25519 (hV : env.Verifies V) {now : Nat} {token publicKeyPem : Str}
    (hkey : env.signingPublicKey = some publicKeyPem) :
    (afterEd25519 env token (decodeEd25519 env now token publicKeyPem)).Holds env V token := by
  unfold afterEd25519
  split
  · next claims hdecode => exact hV.ed25519 now token publicKeyPem claims hkey hdecode
  · split
    · next hfallback => exact ⟨rfl, by simp [Env.consultsSecret, hfallback]⟩
    · trivial
  · split
    · next hfallback => exact ⟨rfl, by simp [Env.consultsSecret, hfallback]⟩
    · trivial
  · trivial
  · trivial

theorem holds_afterHs256 (hV : env.Verifies V) {now : Nat} {token : Str}
    (hsecret : env.consultsSecret = true) :
    (afterHs256 (decodeHs256 env now token)).Holds env V token := by
  unfold afterHs256
  split
  · next claims hdecode => exact hV.hs256 now token claims hsecret hdecode
  · next e _ => cases e <;> trivial

/-- The replay check goes on to the task of the token, or refuses it. -/
theorem Traced.checkReplay (h : s.Traced env V tokens) {i : Nat} {token : Str} {claims : RelayJwt}
    (htoken : tokens[i]? = some token) (hclaims : V token claims) (sent : Bool) :
    (s.resume env i sent (.verified claims)).Traced env V tokens := by
  simp only [RelayApi.resume]
  cases hselect : selectCandidates env claims with
  | nil => exact h.setPhase htoken trivial
  | cons url candidates =>
    have hsame (seen accepted) : { s with seenJtis := seen, accepted }.Traced env V tokens :=
      ⟨h.length, h.requests, h.tasks⟩
    simp only
    obtain ⟨-, heq⟩ | ⟨-, heq⟩ := s.checkReplay_cases i claims url candidates <;> rw [heq]
    · exact (hsame _ _).setPhase htoken trivial
    · exact (hsame _ _).setPhase htoken ⟨claims, hclaims, url, candidates, hselect, rfl⟩

theorem Traced.send (h : s.Traced env V tokens) {i : Nat} {token jti relayId : Str}
    {claims : RelayJwt} {task : RelayTask} (htoken : tokens[i]? = some token)
    (hclaims : V token claims) (htask : IsTaskOf env claims task) (sent : Bool) :
    (s.resume env i sent (.sending jti relayId task)).Traced env V tokens := by
  simp only [RelayApi.resume]
  split
  · have henqueued : { s with tasks := (jti, task) :: s.tasks }.Traced env V tokens := by
      refine ⟨h.length, h.requests, fun e he => ?_⟩
      rcases List.mem_cons.1 he with rfl | he
      · exact ⟨token, List.mem_of_getElem? htoken, claims, hclaims, htask⟩
      · exact h.tasks e he
    exact henqueued.setPhase htoken ⟨claims, hclaims⟩
  · exact h.setPhase htoken trivial

theorem Traced.resume (hV : env.Verifies V) (h : s.Traced env V tokens) {i : Nat} {phase : Phase}
    (hphase : s.requests[i]? = some phase) (sent : Bool) :
    (s.resume env i sent phase).Traced env V tokens := by
  obtain ⟨hi, -⟩ := List.getElem?_eq_some_iff.1 hphase
  obtain ⟨token, htoken⟩ : ∃ token, tokens[i]? = some token :=
    ⟨_, List.getElem?_eq_getElem (h.length ▸ hi)⟩
  have hholds := h.requests i token phase htoken hphase
  cases phase with
  | ed25519 token' publicKeyPem =>
    obtain ⟨rfl, hkey⟩ := hholds
    exact h.setPhase htoken (holds_afterEd25519 hV hkey)
  | hs256 token' =>
    obtain ⟨rfl, hsecret⟩ := hholds
    exact h.setPhase htoken (holds_afterHs256 hV hsecret)
  | decoded claims =>
    refine h.setPhase htoken ?_
    unfold checkIat
    split
    · trivial
    · exact hholds
  | verified claims => exact h.checkReplay htoken hholds sent
  | sending jti relayId task =>
    obtain ⟨claims, hclaims, htask⟩ := hholds
    exact h.send htoken hclaims htask sent
  | finished response => exact h

theorem Traced.connect (h : s.Traced env V tokens) (token : Str) :
    (s.step env (.connect token)).Traced env V (tokens ++ [token]) where
  length := by simp [step, h.length]
  requests i token' phase htoken hphase := by
    simp only [step, List.getElem?_append] at hphase
    rw [List.getElem?_append, h.length] at htoken
    split at hphase
    · next hi =>
      rw [if_pos hi] at htoken
      exact h.requests i token' phase htoken hphase
    · next hi =>
      rw [if_neg hi] at htoken
      obtain rfl := List.mem_singleton.1 (List.mem_of_getElem? htoken)
      obtain rfl := List.mem_singleton.1 (List.mem_of_getElem? hphase)
      unfold Relay.connect
      split
      · next hkey => exact ⟨rfl, hkey⟩
      · next hkey => exact ⟨rfl, by simp [Env.consultsSecret, hkey]⟩
  tasks e he := by
    obtain ⟨token', hmem, hclaims⟩ := h.tasks e he
    exact ⟨token', List.mem_append_left _ hmem, hclaims⟩

/-- What every verification gives holds of every request and task of a run. -/
theorem traced_run (hV : env.Verifies V) (ls : List Label) :
    ((relayApi env).run .init ls).Traced env V (connectTokens ls) := by
  refine Machine.run_invariant (I := fun ls (s : RelayApi) => s.Traced env V (connectTokens ls))
    (P := fun _ => True) ⟨rfl, by simp [RelayApi.init], by simp [RelayApi.init]⟩ ?_ (by simp)
  intro ls s l _ h
  cases l with
  | tick seconds =>
    have htokens : connectTokens (ls ++ [.tick seconds]) = connectTokens ls := by
      simp [connectTokens]
    rw [htokens]
    exact ⟨h.length, h.requests, h.tasks⟩
  | connect token =>
    rw [connectTokens, List.filterMap_append]
    exact h.connect token
  | resume i sent =>
    have htokens : connectTokens (ls ++ [.resume i sent]) = connectTokens ls := by
      simp [connectTokens]
    rw [htokens]
    simp only [relayApi, step]
    cases hphase : s.requests[i]? with
    | none => exact h
    | some phase => exact h.resume hV hphase sent

end RelayApi

end PartnerEdge.Relay
