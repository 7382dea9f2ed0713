import PartnerEdge.Relay.Provenance
import PartnerEdge.Sfu.DataChannel

/-!
# Activation of the relay API

At startup the relay API is given its credentials: the secret of the environment if it is strong,
and an empty one otherwise, the signing key, and whether a token may fall back from the key to the
secret. The strength of the secret is checked here only, so that what keeps the verifier from the
empty secret is the way the three are combined.
-/

namespace PartnerEdge.Relay

open Text Sfu

/-- What startup reads of the environment. -/
structure RelayConfig where
  relayJwtSecret : Option Str
  sfuSigningPublicKey : Option Str
  relayHs256FallbackEnabled : Bool
deriving DecidableEq, Repr

structure RelayActivation where
  enabled : Bool
  secret : List UInt8
  hs256FallbackEffective : Bool
  authMode : Option Str
deriving DecidableEq, Repr

def placeholderSecret : Str := "change-me-in-production".toList

def placeholderError : Str :=
  "RELAY_JWT_SECRET is the documented placeholder value — ".toList ++
    "set a random secret of at least 32 bytes. Generate one with: openssl rand -hex 32".toList

def tooShortError (bytes : Nat) : Str :=
  "RELAY_JWT_SECRET is too short (".toList ++ Nat.toDigits 10 bytes ++
    " bytes) — minimum 32 bytes required".toList

def hasHs256Secret : Option Str → Except Str Bool
  | none => .ok false
  | some s =>
    if s = placeholderSecret then .error placeholderError
    else if (toUtf8 s).length < 32 then .error (tooShortError (toUtf8 s).length)
    else .ok true

def relayAuthMode (hasEddsaKey hasHs256Secret : Bool) : Option Str :=
  match hasEddsaKey, hasHs256Secret with
  | true, true => some "both".toList
  | true, false => some "eddsa".toList
  | false, true => some "hs256".toList
  | false, false => none

def computeRelayActivation (cfg : RelayConfig) : Except Str RelayActivation := do
  let hasHs256Secret ← hasHs256Secret cfg.relayJwtSecret
  let hasEddsaKey := cfg.sfuSigningPublicKey.isSome
  return {
    enabled := hasHs256Secret || hasEddsaKey
    secret := match cfg.relayJwtSecret with
      | some s => if hasHs256Secret then toUtf8 s else []
      | none => []
    hs256FallbackEffective := hasHs256Secret && cfg.relayHs256FallbackEnabled
    authMode := relayAuthMode hasEddsaKey hasHs256Secret }

section Start

variable (edPemParses : Str → Bool)
  (decode : Nat → Str → DecodingKey → Algorithm → Except ErrorKind RelayJwt)
  (isAllowedUpstream : Str → Bool) (cfg : RelayConfig)

/-- Startup: the relay API with its credentials, or none in standalone mode. -/
def startRelayApi : Except Str (Option Env) := do
  let activation ← computeRelayActivation cfg
  if activation.enabled then
    return some {
      edPemParses, decode, isAllowedUpstream
      secret := activation.secret
      signingPublicKey := cfg.sfuSigningPublicKey
      hs256FallbackEnabled := activation.hs256FallbackEffective }
  else return none

/-- The token decodes under the configured key, or under a strong secret; with a key, only if the
fallback is on. -/
def VerifiedWith (token : Str) (claims : RelayJwt) : Prop :=
  ∃ now, (∃ publicKeyPem, cfg.sfuSigningPublicKey = some publicKeyPem ∧
      edPemParses publicKeyPem = true ∧
      decode now token (.fromEdPem publicKeyPem) .edDSA = .ok claims) ∨
    ∃ secret, cfg.relayJwtSecret = some secret ∧ 32 ≤ (toUtf8 secret).length ∧
      secret ≠ placeholderSecret ∧
      decode now token (.fromSecret (toUtf8 secret)) .hs256 = .ok claims ∧
      (cfg.sfuSigningPublicKey.isSome = true → cfg.relayHs256FallbackEnabled = true)

end Start

/-- The request has got its token verified. -/
def Phase.isAccepted : Phase → Bool
  | .decoded _ | .verified _ | .sending _ _ _ | .finished (.ok _) => true
  | _ => false

variable {edPemParses : Str → Bool}
  {decode : Nat → Str → DecodingKey → Algorithm → Except ErrorKind RelayJwt}
  {isAllowedUpstream : Str → Bool} {cfg : RelayConfig} {env : Env}

theorem hasHs256Secret_eq_ok {secret : Option Str} {has : Bool}
    (h : hasHs256Secret secret = .ok has) :
    (secret = none ∧ has = false) ∨
      ∃ s, secret = some s ∧ has = true ∧ 32 ≤ (toUtf8 s).length ∧ s ≠ placeholderSecret := by
  cases secret with
  | none =>
    cases h
    exact .inl ⟨rfl, rfl⟩
  | some s =>
    simp only [hasHs256Secret] at h
    split at h
    · cases h
    · next hne =>
      split at h
      · cases h
      · next hlen =>
        cases h
        exact .inr ⟨s, rfl, rfl, Nat.le_of_not_lt hlen, hne⟩

/-- The credentials of a relay API that startup has spawned. -/
theorem startRelayApi_eq_ok
    (h : startRelayApi edPemParses decode isAllowedUpstream cfg = .ok (some env)) :
    env.edPemParses = edPemParses ∧ env.decode = decode ∧
      env.signingPublicKey = cfg.sfuSigningPublicKey ∧
      (env.consultsSecret = true → ∃ s, cfg.relayJwtSecret = some s ∧ env.secret = toUtf8 s ∧
        32 ≤ (toUtf8 s).length ∧ s ≠ placeholderSecret ∧
        (cfg.sfuSigningPublicKey.isSome = true → cfg.relayHs256FallbackEnabled = true)) := by
  unfold startRelayApi computeRelayActivation at h
  cases hsecret : hasHs256Secret cfg.relayJwtSecret with
  | error e =>
    rw [hsecret] at h
    cases h
  | ok has =>
    rw [hsecret] at h
    simp only [bind, Except.bind, pure, Except.pure] at h
    split at h
    · next henabled =>
      cases h
      refine ⟨rfl, rfl, rfl, fun hconsults => ?_⟩
      obtain ⟨hnone, rfl⟩ | ⟨s, hsome, rfl, hlen, hne⟩ := hasHs256Secret_eq_ok hsecret
      · -- Without a secret there is a key and no fallback.
        cases hkey : cfg.sfuSigningPublicKey <;>
          simp [Env.consultsSecret, hkey] at henabled hconsults
      · refine ⟨s, hsome, by simp [hsome], hlen, hne, fun hkey => ?_⟩
        simpa [Env.consultsSecret, Option.isSome_iff_ne_none.1 hkey] using hconsults
    · cases h

theorem decodeEd25519_eq_ok {now : Nat} {token publicKeyPem : Str} {claims : RelayJwt}
    (h : decodeEd25519 env now token publicKeyPem = .ok claims) :
    env.edPemParses publicKeyPem = true ∧
      env.decode now token (.fromEdPem publicKeyPem) .edDSA = .ok claims := by
  unfold decodeEd25519 at h
  grind

theorem decodeHs256_eq_ok {now : Nat} {token : Str} {claims : RelayJwt}
    (h : decodeHs256 env now token = .ok claims) :
    env.decode now token (.fromSecret env.secret) .hs256 = .ok claims := by
  unfold decodeHs256 at h
  grind

/-- Every verification that succeeds is one under the configured key or a strong secret. -/
theorem verifies_startRelayApi
    (h : startRelayApi edPemParses decode isAllowedUpstream cfg = .ok (some env)) :
    env.Verifies (VerifiedWith edPemParses decode cfg) := by
  obtain ⟨hparses, hdecode, hkey, hsecret⟩ := startRelayApi_eq_ok h
  constructor
  · intro now token publicKeyPem claims hpem hok
    obtain ⟨hok, hclaims⟩ := decodeEd25519_eq_ok hok
    exact ⟨now, .inl ⟨publicKeyPem, hkey ▸ hpem, hparses ▸ hok, hdecode ▸ hclaims⟩⟩
  · intro now token claims hconsults hok
    obtain ⟨s, hs, hbytes, hlen, hne, hfallback⟩ := hsecret hconsults
    have hclaims := decodeHs256_eq_ok hok
    rw [hbytes, hdecode] at hclaims
    exact ⟨now, .inr ⟨s, hs, hlen, hne, hclaims, hfallback⟩⟩

/-- In every run of a relay API that startup has spawned, a request whose token was accepted has had
it verified with the configured key, or under a secret of 32 bytes or more that is not the
placeholder, and this with a configured key only if the fallback is on. -/
theorem accepted_verifiedWith
    (h : startRelayApi edPemParses decode isAllowedUpstream cfg = .ok (some env)) (ls : List Label)
    {i : Nat} {token : Str} {phase : Phase} (htoken : (connectTokens ls)[i]? = some token)
    (hphase : ((relayApi env).run .init ls).requests[i]? = some phase)
    (haccepted : phase.isAccepted = true) :
    ∃ claims, VerifiedWith edPemParses decode cfg token claims := by
  have hholds := (RelayApi.traced_run (verifies_startRelayApi h) ls).requests i token phase htoken
    hphase
  cases phase with
  | ed25519 token' publicKeyPem => cases haccepted
  | hs256 token' => cases haccepted
  | decoded claims => exact ⟨claims, hholds⟩
  | verified claims => exact ⟨claims, hholds⟩
  | sending jti relayId task =>
    obtain ⟨claims, hclaims, -⟩ := hholds
    exact ⟨claims, hclaims⟩
  | finished response =>
    cases response with
    | ok relayId => exact hholds
    | _ => cases haccepted

/-- A node that is moving to a signing key, with tokens that are still signed under the secret. -/
def rolloutConfig : RelayConfig := ⟨some (List.replicate 32 'k'), some "pem".toList, true⟩

def rolloutDecode (_ : Nat) (_ : Str) (_ : DecodingKey) : Algorithm → Except ErrorKind RelayJwt
  | .hs256 => .ok ⟨"room".toList, "ws://10.9.0.1".toList, "t".toList, 0, 10, "j".toList, []⟩
  | .edDSA => .error .invalidAlgorithm

def rolloutEnv : Env where
  edPemParses _ := true
  decode := rolloutDecode
  isAllowedUpstream _ := true
  secret := List.replicate 32 107
  signingPublicKey := some "pem".toList
  hs256FallbackEnabled := true

theorem accepted_verifiedWith_rollout :
    ((relayApi rolloutEnv).run .init
        (.connect "t".toList :: List.replicate 5 (.resume 0 true))).requests[0]? =
      some (.finished (.ok "relay-room".toList)) ∧
    ∃ claims, VerifiedWith (fun _ => true) rolloutDecode rolloutConfig "t".toList claims := by
  have hstart : startRelayApi (fun _ => true) rolloutDecode (fun _ => true) rolloutConfig =
      .ok (some rolloutEnv) := rfl
  have hphase : ((relayApi rolloutEnv).run .init
      (.connect "t".toList :: List.replicate 5 (.resume 0 true))).requests[0]? =
        some (.finished (.ok "relay-room".toList)) := by decide +kernel
  exact ⟨hphase, accepted_verifiedWith hstart _ rfl hphase rfl⟩

end PartnerEdge.Relay
