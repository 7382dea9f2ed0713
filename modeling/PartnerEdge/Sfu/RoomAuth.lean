import PartnerEdge.Text.Scan

/-!
# Room tokens and the WebSocket upgrade

A browser opens `/sfu/ws/{room_id}` with a room token among its subprotocols. The token is checked
under the Ed25519 key first and, where that is allowed, under the HS256 secret; its `room` claim
must be the room of the path. What jsonwebtoken makes of a token is a parameter (`Jwt`).
-/

namespace PartnerEdge.Sfu

open Text

inductive Algorithm where
  | hs256
  | edDSA
deriving DecidableEq, Repr

structure RoomTokenPolicy where
  issuers : List Str
  audience : Str
  requireBinding : Bool
deriving DecidableEq, Repr

structure Validation where
  algorithm : Algorithm
  validateExp : Bool
  leeway : Nat
  audience : Str
  /-- The accepted issuers; none when the issuer is not checked. -/
  issuers : Option (List Str)
  requiredSpecClaims : List Str
deriving DecidableEq, Repr

def RoomTokenPolicy.validation (policy : RoomTokenPolicy) (algorithm : Algorithm) : Validation where
  algorithm := algorithm
  validateExp := true
  leeway := 0
  audience := policy.audience
  issuers := if policy.issuers.isEmpty then none else some policy.issuers
  requiredSpecClaims :=
    "exp".toList :: if policy.requireBinding then ["iss".toList, "aud".toList] else []

structure RoomClaims where
  sub : Nat
  room : Str
  iat : Nat
  exp : Nat
deriving DecidableEq, Repr

inductive JwtErrorKind where
  | expiredSignature
  | invalidSignature
  | invalidAlgorithmName
  | invalidAlgorithm
  | other
deriving DecidableEq, Repr

inductive RoomAuthError where
  | invalidSignature
  | expired
  | malformed
  | roomMismatch (tokenRoom requestRoom : Str)
deriving DecidableEq, Repr

def mapJwtError : JwtErrorKind → RoomAuthError
  | .expiredSignature => .expired
  | .invalidSignature | .invalidAlgorithmName | .invalidAlgorithm => .invalidSignature
  | .other => .malformed

inductive DecodingKey where
  | fromSecret (secret : List UInt8)
  | fromEdPem (pem : Str)
deriving DecidableEq, Repr

/-- The jsonwebtoken crate: which PEM texts are keys, and what a token decodes to at a time. -/
structure Jwt where
  edPemParses : Str → Bool
  decode : Nat → Str → DecodingKey → Validation → Except JwtErrorKind RoomClaims

/-- The credentials of one endpoint. -/
structure AuthConfig where
  secret : List UInt8
  signingPubkey : Option Str
  hs256FallbackEnabled : Bool
  policy : RoomTokenPolicy
deriving DecidableEq, Repr

section Verify

variable (jwt : Jwt) (now : Nat)

def decodeAndMatch (token roomId : Str) (key : DecodingKey) (validation : Validation) :
    Except RoomAuthError RoomClaims :=
  match jwt.decode now token key validation with
  | .error e => .error (mapJwtError e)
  | .ok claims =>
    if claims.room ≠ roomId then .error (.roomMismatch claims.room roomId) else .ok claims

def verifyRoomToken (policy : RoomTokenPolicy) (token roomId : Str) (secret : List UInt8) :
    Except RoomAuthError RoomClaims :=
  decodeAndMatch jwt now token roomId (.fromSecret secret) (policy.validation .hs256)

def verifyRoomTokenEd25519 (policy : RoomTokenPolicy) (token roomId publicKeyPem : Str) :
    Except RoomAuthError RoomClaims :=
  if jwt.edPemParses publicKeyPem then
    decodeAndMatch jwt now token roomId (.fromEdPem publicKeyPem) (policy.validation .edDSA)
  else .error .malformed

/-- Only an invalid signature falls back to the shared secret. -/
def verifyToken (cfg : AuthConfig) (token roomId : Str) : Except RoomAuthError RoomClaims :=
  match cfg.signingPubkey with
  | none => verifyRoomToken jwt now cfg.policy token roomId cfg.secret
  | some pubkey =>
    match verifyRoomTokenEd25519 jwt now cfg.policy token roomId pubkey with
    | .ok claims => .ok claims
    | .error .invalidSignature =>
      if cfg.hs256FallbackEnabled then verifyRoomToken jwt now cfg.policy token roomId cfg.secret
      else .error .invalidSignature
    | .error e => .error e

end Verify

/-! ## The upgrade -/

/-- The text after a scheme, unless it is empty. -/
def bearerToken (scheme part : Str) : Option Str :=
  if scheme.isPrefixOf part then
    let token := part.drop scheme.length
    if token.isEmpty then none else some token
  else none

/-- The first `bearer.<token>` or `Bearer <token>` of the `Sec-WebSocket-Protocol` header. -/
def extractBearerFromSubprotocols (header : Option Str) : Option Str := do
  let raw ← header
  (raw.splitOn ',').findSome? fun part =>
    let trimmed := trim part
    (bearerToken "bearer.".toList trimmed).or (bearerToken "Bearer ".toList trimmed)

structure UpgradeRequest where
  roomId : Str
  /-- The `Sec-WebSocket-Protocol` header, if it is there and readable. -/
  subprotocols : Option Str
  now : Nat
  /-- The gauge of active sessions when the request is handled, and the cap. -/
  activeSessions : Int
  maxParticipants : Nat
deriving DecidableEq, Repr

inductive UpgradeResponse where
  | unauthorized
  /-- Upgraded and closed with code 4001. -/
  | roomMismatch
  | serviceUnavailable
  | session (roomId : Str) (peerId : Nat)
deriving DecidableEq, Repr

def clientWsUpgrade (jwt : Jwt) (cfg : AuthConfig) (req : UpgradeRequest) : UpgradeResponse :=
  match extractBearerFromSubprotocols req.subprotocols with
  | none => .unauthorized
  | some token =>
    match verifyToken jwt req.now cfg token req.roomId with
    | .error (.roomMismatch _ _) => .roomMismatch
    | .error _ => .unauthorized
    | .ok claims =>
      if req.activeSessions ≥ req.maxParticipants then .serviceUnavailable
      else .session req.roomId claims.sub

section Spec

variable {jwt : Jwt} {now : Nat} {cfg : AuthConfig} {token roomId : Str} {claims : RoomClaims}

theorem decodeAndMatch_room {key : DecodingKey} {validation : Validation}
    (h : decodeAndMatch jwt now token roomId key validation = .ok claims) :
    claims.room = roomId := by
  unfold decodeAndMatch at h
  split at h
  · cases h
  · split at h
    · cases h
    · next hroom =>
      cases h
      simpa using hroom

theorem verifyToken_room (h : verifyToken jwt now cfg token roomId = .ok claims) :
    claims.room = roomId := by
  have hs256 : ∀ {c}, verifyRoomToken jwt now cfg.policy token roomId cfg.secret = .ok c →
      c.room = roomId := decodeAndMatch_room
  have hed : ∀ {pem c}, verifyRoomTokenEd25519 jwt now cfg.policy token roomId pem = .ok c →
      c.room = roomId := by
    intro pem c h
    unfold verifyRoomTokenEd25519 at h
    split at h
    · exact decodeAndMatch_room h
    · cases h
  unfold verifyToken at h
  split at h
  · exact hs256 h
  · split at h
    · next hok =>
      cases h
      exact hed hok
    · split at h
      · exact hs256 h
      · cases h
    · cases h

/-- A session is started only for a verified token of the room in the path. -/
theorem clientWsUpgrade_session {req : UpgradeRequest} {room : Str} {peerId : Nat}
    (h : clientWsUpgrade jwt cfg req = .session room peerId) :
    req.roomId = room ∧ ∃ token claims,
      extractBearerFromSubprotocols req.subprotocols = some token ∧
      verifyToken jwt req.now cfg token room = .ok claims ∧
      claims.room = room ∧ claims.sub = peerId := by
  unfold clientWsUpgrade at h
  split at h
  · cases h
  · next token htoken =>
    split at h
    · cases h
    · cases h
    · next claims hclaims =>
      split at h
      · cases h
      · cases h
        exact ⟨rfl, token, claims, htoken, hclaims, verifyToken_room hclaims, rfl⟩

end Spec

end PartnerEdge.Sfu
