import PartnerEdge.Sfu.DataChannel

/-!
# Relay promotion and admission

A `relay_source` message promotes its sender to a cascade relay. With the credentials of the
WebSocket endpoint it is held to the endpoint's own policy: the decision for a token and a room is
that of `verifyToken`, which `Admits` states as a relation, one constructor for each way in.
-/

namespace PartnerEdge.Sfu

open Svc PartnerEdge.Client Text

/-- The credentials of the upgrade, as the data channels of the same process have them. -/
def AuthConfig.relayAuth (cfg : AuthConfig) : RelayAuth where
  secret := some cfg.secret
  signingPubkey := cfg.signingPubkey
  hs256FallbackEnabled := cfg.hs256FallbackEnabled
  policy := cfg.policy

def lastSegment (url : Str) : Str := ((url.splitOn '/').getLast?).getD []

/-- A complete `relay_source` announcement. -/
def Announces (data : List UInt8) (upstreamUrl roomToken : Str) : Prop :=
  ∃ s, fromUtf8 data = some s ∧ extractStrValue s "type".toList = some "relay_source".toList ∧
    extractStrValue s "upstreamUrl".toList = some upstreamUrl ∧
    extractStrValue s "roomToken".toList = some roomToken

/-- The three ways in. Of the verdicts under a key, only an invalid signature leads to the secret.
-/
inductive Admits (jwt : Jwt) (now : Nat) (cfg : AuthConfig) (token roomId : Str)
    (claims : RoomClaims) : Prop where
  | hs256 (hkey : cfg.signingPubkey = none)
      (hok : verifyRoomToken jwt now cfg.policy token roomId cfg.secret = .ok claims)
  | ed25519 {pubkey : Str} (hkey : cfg.signingPubkey = some pubkey)
      (hok : verifyRoomTokenEd25519 jwt now cfg.policy token roomId pubkey = .ok claims)
  | fallback {pubkey : Str} (hkey : cfg.signingPubkey = some pubkey)
      (hsignature : verifyRoomTokenEd25519 jwt now cfg.policy token roomId pubkey =
        .error .invalidSignature)
      (hswitch : cfg.hs256FallbackEnabled)
      (hok : verifyRoomToken jwt now cfg.policy token roomId cfg.secret = .ok claims)

section Decision

variable {jwt : Jwt} {now : Nat} {cfg : AuthConfig} {token roomId : Str}

theorem verifyRelayToken_relayAuth (token roomId : Str) :
    verifyRelayToken jwt now cfg.relayAuth token roomId = verifyToken jwt now cfg token roomId := by
  unfold verifyRelayToken verifyToken
  cases hkey : cfg.signingPubkey with
  | none => simp [AuthConfig.relayAuth, hkey]
  | some pubkey =>
    cases hverify : verifyRoomTokenEd25519 jwt now cfg.policy token roomId pubkey with
    | ok claims => simp [AuthConfig.relayAuth, hkey, hverify]
    | error e => cases e <;> simp [AuthConfig.relayAuth, hkey, hverify]

theorem verifyToken_eq_ok_iff {claims : RoomClaims} :
    verifyToken jwt now cfg token roomId = .ok claims ↔
      Admits jwt now cfg token roomId claims := by
  constructor
  · intro h
    unfold verifyToken at h
    split at h
    · next hkey => exact .hs256 hkey h
    · next pubkey hkey =>
      split at h
      · next hok =>
        cases h
        exact .ed25519 hkey hok
      · next hsignature =>
        split at h
        · next hswitch => exact .fallback hkey hsignature hswitch h
        · cases h
      · cases h
  · rintro (⟨hkey, hok⟩ | ⟨hkey, hok⟩ | ⟨hkey, hsignature, hswitch, hok⟩)
    · simpa [verifyToken, hkey] using hok
    · simp [verifyToken, hkey, hok]
    · simpa [verifyToken, hkey, hsignature, hswitch] using hok

/-- Any other verdict under the key is final. -/
theorem verifyToken_eq_error {pubkey : Str} {e : RoomAuthError}
    (hkey : cfg.signingPubkey = some pubkey)
    (herr : verifyRoomTokenEd25519 jwt now cfg.policy token roomId pubkey = .error e)
    (he : e ≠ .invalidSignature) : verifyToken jwt now cfg token roomId = .error e := by
  unfold verifyToken
  simp only [hkey, herr]

end Decision

section Message

variable {jwt : Jwt} {now : Nat} {cfg : AuthConfig}

theorem relaySource_eq_markRelaySource_iff {clientId id : ClientId} {s url : Str} :
    relaySource jwt now cfg.relayAuth clientId s = .markRelaySource id url ↔
      id = clientId ∧ lastSegment url ≠ [] ∧ extractStrValue s "upstreamUrl".toList = some url ∧
        ∃ token claims, extractStrValue s "roomToken".toList = some token ∧
          verifyToken jwt now cfg token (lastSegment url) = .ok claims := by
  have hrequired :
      (cfg.relayAuth.signingPubkey.isSome || cfg.relayAuth.secret.isSome) = true := by
    simp [AuthConfig.relayAuth]
  unfold relaySource
  simp only [hrequired, ↓reduceIte, verifyRelayToken_relayAuth, ← lastSegment.eq_1]
  grind

theorem opaqueFrame_ne_markRelaySource {maxBytes : Nat} {data : List UInt8}
    {event : List UInt8 → Propagated} {id : ClientId} {url : Str}
    (h : event data ≠ .markRelaySource id url) :
    opaqueFrame maxBytes data event ≠ .markRelaySource id url := by
  unfold opaqueFrame
  split
  · nofun
  · exact h

theorem budgetMessage_ne_markRelaySource {clientId id : ClientId} {text url : Str} :
    budgetMessage clientId text ≠ .markRelaySource id url := by
  unfold budgetMessage
  repeat' split
  all_goals nofun

/-- A message on any other branch is never a promotion. -/
theorem handleChannelData_eq_markRelaySource_iff {auth : RelayAuth} {clientId id : ClientId}
    {label : String} {data : List UInt8} {url : Str} :
    handleChannelData jwt now auth clientId label data = .markRelaySource id url ↔
      ∃ s, fromUtf8 data = some s ∧
        extractStrValue s "type".toList = some "relay_source".toList ∧
        relaySource jwt now auth clientId s = .markRelaySource id url := by
  unfold handleChannelData
  by_cases htype : (fromUtf8 data).bind (extractStrValue · "type".toList) =
      some "relay_source".toList
  · simp only [htype, ↓reduceIte]
    obtain ⟨s, hs, htype⟩ := Option.bind_eq_some_iff.1 htype
    rw [hs]
    exact ⟨fun h => ⟨s, rfl, htype, h⟩, by rintro ⟨_, ⟨⟩, -, h⟩; exact h⟩
  · simp only [htype, ↓reduceIte]
    constructor
    · intro h
      refine absurd h ?_
      repeat' split
      all_goals first
        | exact budgetMessage_ne_markRelaySource
        | exact opaqueFrame_ne_markRelaySource (by simp)
        | simp
    · rintro ⟨s, hs, hs_type, -⟩
      refine absurd ?_ htype
      rw [hs]
      exact hs_type

end Message

/-- With the endpoint's credentials a message is a promotion exactly when it announces an upstream
with a last path segment for which its token is admitted. The two decisions are one function of the
token and the room. -/
theorem relayPromotion_eq_admission (jwt : Jwt) (now : Nat) (cfg : AuthConfig) :
    (∀ clientId label data id url,
      handleChannelData jwt now cfg.relayAuth clientId label data = .markRelaySource id url ↔
        id = clientId ∧ lastSegment url ≠ [] ∧ ∃ token claims, Announces data url token ∧
          verifyToken jwt now cfg token (lastSegment url) = .ok claims) ∧
    (∀ token roomId,
      verifyRelayToken jwt now cfg.relayAuth token roomId =
        verifyToken jwt now cfg token roomId) ∧
    (∀ token roomId claims, verifyToken jwt now cfg token roomId = .ok claims ↔
      Admits jwt now cfg token roomId claims) ∧
    ∀ token roomId pubkey e, cfg.signingPubkey = some pubkey →
      verifyRoomTokenEd25519 jwt now cfg.policy token roomId pubkey = .error e →
      e ≠ .invalidSignature → verifyToken jwt now cfg token roomId = .error e := by
  refine ⟨?_, verifyRelayToken_relayAuth, fun _ _ _ => verifyToken_eq_ok_iff,
    fun _ _ _ _ => verifyToken_eq_error⟩
  intro clientId label data id url
  rw [handleChannelData_eq_markRelaySource_iff]
  simp only [relaySource_eq_markRelaySource_iff, Announces]
  grind

/-- A verifier that takes the token `t` of one room, under the secret. -/
def oneRoomJwt (room : Str) : Jwt where
  edPemParses _ := false
  decode _ token key _ :=
    if token = "t".toList ∧ key = .fromSecret [] then .ok ⟨1, room, 0, 9⟩
    else .error .invalidSignature

def oneRoomConfig (signingPubkey : Option Str) : AuthConfig :=
  ⟨[], signingPubkey, true, ⟨[], [], false⟩⟩

def announcementText (url : String) : String :=
  "\x7b\"type\":\"relay_source\",\"upstreamUrl\":\"" ++ url ++ "\",\"roomToken\":\"t\"\x7d"

def announcement (url : String) : List UInt8 := (announcementText url).toUTF8.data.toList

/-- The token of a room is a promotion to an upstream in that room, and under a key that does not
parse the secret is never asked. -/
theorem relayPromotion_eq_admission_oneRoom :
    handleChannelData (oneRoomJwt "r".toList) 0 (oneRoomConfig none).relayAuth 1 "chat-data"
        (announcement "wss://hub/r") = .markRelaySource 1 "wss://hub/r".toList ∧
      verifyToken (oneRoomJwt "r".toList) 0 (oneRoomConfig (some [])) "t".toList "r".toList =
        .error .malformed := by
  constructor
  · refine ((relayPromotion_eq_admission _ 0 (oneRoomConfig none)).1 1 _ _ 1 _).2
      ⟨rfl, by decide +kernel, "t".toList, ⟨1, "r".toList, 0, 9⟩, ?_, by decide +kernel⟩
    exact ⟨(announcementText "wss://hub/r").toList, by decide +kernel⟩
  · exact (relayPromotion_eq_admission _ 0 (oneRoomConfig (some []))).2.2.2 _ _ [] _ rfl
      (by decide +kernel) (by decide)

/-- An upstream URL that ends in a slash is refused before the token is looked at, also where the
endpoint would admit the token for the empty room. -/
theorem relayPromotion_ne_admission_emptyRoom :
    ¬ ∀ jwt now cfg clientId label data url token, Announces data url token →
      (handleChannelData jwt now cfg.relayAuth clientId label data = .markRelaySource clientId url ↔
        ∃ claims, verifyToken jwt now cfg token (lastSegment url) = .ok claims) := by
  intro h
  have hmark := (h (oneRoomJwt []) 0 (oneRoomConfig none) 1 "chat-data" (announcement "wss://hub/")
    "wss://hub/".toList "t".toList
    ⟨(announcementText "wss://hub/").toList, by decide +kernel⟩).2
    ⟨⟨1, [], 0, 9⟩, by decide +kernel⟩
  exact absurd hmark (by decide +kernel)

end PartnerEdge.Sfu
