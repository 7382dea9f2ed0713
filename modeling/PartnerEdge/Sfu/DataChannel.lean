import PartnerEdge.Client.Fanout
import PartnerEdge.Sfu.RoomAuth
import PartnerEdge.Text.Utf8

/-!
# Events and data-channel messages

`Propagated` is what one client's event means to the others. A data-channel message becomes one by
its channel's label, after a first look for a `relay_source` announcement, which is taken on every
channel.
-/

namespace PartnerEdge.Sfu

open Svc PartnerEdge.Client Text

inductive SuspendTier where
  | audioNormal
  | audioLow
  | videoMax
deriving DecidableEq, Repr

/-- The events of the registry's queue. -/
inductive Propagated where
  | noop
  | timeout (deadline : Nat)
  | trackOpen (origin : ClientId) (trackIn : TrackIn)
  | mediaData (origin : ClientId) (data : MediaData)
  | keyframeRequest (origin : ClientId) (rid : Option Rid) (source : ClientId) (mid : Mid)
  | activeSpeakerChanged (peerId : ClientId)
  | bandwidthEstimate (client : ClientId) (bps : Nat)
  | clientBudgetHint (client : ClientId) (bps : Nat)
  | topSpeakers (peerIds : List ClientId)
  | audioCodecHint (peerId : ClientId)
  | vfmLayerCap (client : ClientId) (max : UInt8)
  | markRelaySource (client : ClientId) (upstreamUrl : Str)
  | chatData (origin : ClientId) (payload : List UInt8)
  | chatCtrl (origin : ClientId) (payload : List UInt8)
  | voiceData (origin : ClientId) (payload : List UInt8)
  | keysData (origin : ClientId) (payload : List UInt8)
  | peerSuspended (peerId : ClientId) (tier : SuspendTier)
  | publisherLayerHint (publisher : ClientId) (maxRid : Rid)
  | upstreamKeyframeRequest (sourceRelay : ClientId) (rid : Option Rid) (sourceMid : Mid)
  | publisherLayerHintForUpstream (publisherRelay : ClientId) (maxRid : Rid)
deriving DecidableEq, Repr

/-- The originator that fan-out skips. -/
def Propagated.clientId : Propagated → Option ClientId
  | .trackOpen c _ | .mediaData c _ | .keyframeRequest c _ _ _ | .bandwidthEstimate c _
  | .clientBudgetHint c _ | .chatData c _ | .chatCtrl c _ | .voiceData c _ | .keysData c _
  | .peerSuspended c _ | .vfmLayerCap c _ | .publisherLayerHint c _ => some c
  | .noop | .timeout _ | .activeSpeakerChanged _ | .topSpeakers _ | .audioCodecHint _
  | .markRelaySource _ _ | .upstreamKeyframeRequest _ _ _
  | .publisherLayerHintForUpstream _ _ => none

/-! ## Data-channel messages -/

def chatFrameMaxBytes : Nat := 256 * 1024

def voiceFrameMaxBytes : Nat := 64 * 1024

def sframeKeysFrameMaxBytes : Nat := 64 * 1024

/-- The text after the colon that follows the first `"key"`, without leading white space. -/
def afterColon (json key : Str) : Option Str := do
  let afterKey ← afterFirst ('"' :: key ++ ['"']) json
  let rest ← afterFirst [':'] afterKey
  some (rest.dropWhile isWhitespace)

def extractStrValue (json key : Str) : Option Str := do
  match ← afterColon json key with
  | '"' :: inner => (splitOnce '"' inner).map Prod.fst
  | _ => none

def extractNumValue (json key : Str) : Option Nat := do
  let digits := (← afterColon json key).takeWhile Char.isDigit
  if digits.isEmpty then none else parseU64 digits

def parseBudgetBps (s : Str) : Option Nat :=
  if (afterFirst "\"type\"".toList s).isNone || (afterFirst "\"bps\"".toList s).isNone then none
  else if extractStrValue s "type".toList = some "budget".toList then
    extractNumValue s "bps".toList
  else none

/-- The credentials for relay announcements; neither is set in development. -/
structure RelayAuth where
  secret : Option (List UInt8)
  signingPubkey : Option Str
  hs256FallbackEnabled : Bool
  policy : RoomTokenPolicy
deriving DecidableEq, Repr

section Messages

variable (jwt : Jwt) (now : Nat) (auth : RelayAuth)

def verifyRelayToken (token roomId : Str) : Except RoomAuthError RoomClaims :=
  match auth.signingPubkey, auth.secret with
  | some pubkey, secret =>
    match verifyRoomTokenEd25519 jwt now auth.policy token roomId pubkey with
    | .ok claims => .ok claims
    | .error .invalidSignature =>
      match secret with
      | some secret =>
        if auth.hs256FallbackEnabled then verifyRoomToken jwt now auth.policy token roomId secret
        else .error .invalidSignature
      | none => .error .invalidSignature
    | .error e => .error e
  | none, some secret => verifyRoomToken jwt now auth.policy token roomId secret
  | none, none => .error .malformed

/-- A `relay_source` message: the event, or no event when it is incomplete or its room token does
not verify for the last path segment of the upstream URL. -/
def relaySource (clientId : ClientId) (s : Str) : Propagated :=
  match extractStrValue s "upstreamUrl".toList with
  | none => .noop
  | some upstreamUrl =>
    if auth.signingPubkey.isSome || auth.secret.isSome then
      match extractStrValue s "roomToken".toList with
      | none => .noop
      | some token =>
        let roomId := ((upstreamUrl.splitOn '/').getLast?).getD []
        if roomId.isEmpty then .noop
        else
          match verifyRelayToken jwt now auth token roomId with
          | .error _ => .noop
          | .ok _ => .markRelaySource clientId upstreamUrl
    else .markRelaySource clientId upstreamUrl

/-- A frame that is relayed unread, up to a size. -/
def opaqueFrame (maxBytes : Nat) (data : List UInt8) (event : List UInt8 → Propagated) :
    Propagated :=
  if data.length > maxBytes then .noop else event data

/-- The `sfu-budget` channel: a temporal-layer cap or a bandwidth budget. -/
def budgetMessage (clientId : ClientId) (text : Str) : Propagated :=
  if extractStrValue text "type".toList = some "max_temporal_layer".toList then
    match extractNumValue text "vfm".toList with
    | some maxTid => .vfmLayerCap clientId (UInt8.ofNat maxTid)
    | none => .noop
  else
    match parseBudgetBps text with
    | some bps => .clientBudgetHint clientId bps
    | none => .noop

def handleChannelData (clientId : ClientId) (label : String) (data : List UInt8) : Propagated :=
  let text := fromUtf8 data
  if text.bind (extractStrValue · "type".toList) = some "relay_source".toList then
    relaySource jwt now auth clientId (text.getD [])
  else if label = "chat-data" then opaqueFrame chatFrameMaxBytes data (.chatData clientId)
  else if label = "chat-ctrl" then opaqueFrame chatFrameMaxBytes data (.chatCtrl clientId)
  else if label = "voice" then opaqueFrame voiceFrameMaxBytes data (.voiceData clientId)
  else if label = "sframe-keys" then
    opaqueFrame sframeKeysFrameMaxBytes data (.keysData clientId)
  else if label = "sfu-events" then .noop
  else if label ≠ "sfu-budget" then .noop
  else
    match text with
    | none => .noop
    | some text => budgetMessage clientId text

end Messages

end PartnerEdge.Sfu
