import PartnerEdge.Client.Renegotiation
import PartnerEdge.Sfu.DataChannel

/-!
# One client of the registry

A client joins the media filter and the renegotiation of `PartnerEdge.Client`: it turns str0m's
events into events for the other clients, and it writes what the others send. What str0m, the
bandwidth estimator and the pacer of the kit answer is a `World`, indexed by the number of events
the registry has drained before. Keyframe waits and the throttle of keyframe requests are not part
of this record; the requests they lead to are inputs of the loop.
-/

namespace PartnerEdge.Sfu

open Svc PartnerEdge.Client Text

/-- The data channels a client may have. -/
inductive Channel where
  | keys
  | activeSpeaker
  | chatData
  | chatCtrl
  | voice
  | reactions
  | sfuEvents
deriving DecidableEq, Repr

inductive MediaWrite where
  | written
  /-- No writer for the m-line or no matching parameters. -/
  | skipped
  | failed
deriving DecidableEq, Repr

inductive PacerAction where
  | noChange
  | changeLayer (rid : Rid)
  | suspendVideo
  | goAudioOnly
  | restoreAudio
  | restoreVideo
deriving DecidableEq, Repr

structure World where
  jwt : Jwt
  negotiation : ClientId → Client.Env
  channelWrites : Nat → ClientId → Channel → Bool
  mediaWrites : Nat → ClientId → Mid → MediaWrite
  estimate : Nat → ClientId → Option Nat
  pacerAction : Nat → ClientId → Nat → PacerAction
  /-- Whether the `tracks_map` frame of a newcomer fits its outbound queue. -/
  tracksMapSent : ClientId → Bool

/-- The settings of the process. Times are in milliseconds. -/
structure Config where
  auth : AuthConfig
  relayAuth : RelayAuth
  soloKickTimeout : Option Nat
  pacerFloorEnabled : Bool
  bweTemporalCapEnabled : Bool
  audioOnlyBps : Nat
  lowMinBps : Nat

structure Client where
  id : ClientId
  externalPeerId : Option Nat
  /-- The upstream URL of a cascade relay. -/
  relayFrom : Option Str
  alive : Bool
  tracksIn : List TrackIn
  activeRids : List Rid
  /-- The media filter; its tracks and departures are those of `negotiator`. -/
  filter : Subscriber
  negotiator : Negotiator
  channels : List Channel
  lastPacerTick : Option Nat
  lastSwitchKeyframeRequest : List (Rid × Nat)
  pendingTierEmit : Option SuspendTier
  lastEmittedTier : Option SuspendTier

/-- What a client receives of another one. -/
inductive Item where
  | tracksMap (peerId : Nat)
  | trackOpen (trackIn : TrackIn)
  | media (mid : Mid) (data : MediaData)
  | chatData (payload : List UInt8)
  | chatCtrl (payload : List UInt8)
  | voiceData (payload : List UInt8)
  | keysData (payload : List UInt8)
deriving DecidableEq, Repr

inductive Direction where
  | sendOnly
  | recvOnly
  | sendRecv
  | inactive
deriving DecidableEq, Repr

/-- The outputs of str0m that mean something to the registry. -/
inductive RtcEvent where
  | disconnected
  | mediaAdded (mid : Mid) (kind : MediaKind) (direction : Direction)
  | mediaData (data : MediaData)
  | keyframeRequest (mid : Mid)
  | egressBitrateEstimate (bps : Nat)
  | channelData (label : String) (data : List UInt8)
deriving DecidableEq, Repr

namespace Client

/-- `Client::new`: a negotiator without WebSocket and only the active-speaker channel. -/
def new (cfg : Config) (id : ClientId) : Client where
  id := id
  externalPeerId := none
  relayFrom := none
  alive := true
  tracksIn := []
  activeRids := []
  filter := .new cfg.audioOnlyBps cfg.lowMinBps
  negotiator := { Negotiator.newBrowser with wsMsgTx := false, wsCtrlRx := false }
  channels := [.activeSpeaker]
  lastPacerTick := none
  lastSwitchKeyframeRequest := []
  pendingTierEmit := none
  lastEmittedTier := none

/-- The browser client the loop builds. It gets no voice channel. -/
def newBrowser (cfg : Config) (id : ClientId) (peerId : Nat) : Client :=
  { new cfg id with
    externalPeerId := some peerId
    channels := [.activeSpeaker, .keys, .chatData, .chatCtrl, .reactions, .sfuEvents]
    negotiator := .newBrowser }

def newOutboundRelay (cfg : Config) (id : ClientId) (upstreamUrl : Str) : Client :=
  { new cfg id with relayFrom := some upstreamUrl }

variable (c : Client)

def disconnect : Client := { c with alive := false }

/-- Weak references to the tracks of removed clients stop upgrading. -/
def noteDeparted (ids : List ClientId) : Client :=
  { c with negotiator := { c.negotiator with departed := ids ++ c.negotiator.departed } }

/-! ## Events of str0m -/

/-- The first entry negotiating this media id opens. -/
def openNegotiating (mid : Mid) : List TrackOut → List TrackOut
  | [] => []
  | o :: os =>
    if o.state = .negotiating mid then { o with state := .opened mid } :: os
    else o :: openNegotiating mid os

def trackInAdded (mid : Mid) (kind : MediaKind) : Client × Propagated :=
  let trackIn := ⟨c.id, mid, kind, c.externalPeerId⟩
  ({ c with tracksIn := c.tracksIn ++ [trackIn] }, .trackOpen c.id trackIn)

def trackInMedia (data : MediaData) : Client × Propagated :=
  let activeRids := match data.rid with
    | some rid => c.activeRids.insert rid
    | none => c.activeRids
  ({ c with activeRids }, .mediaData c.id data)

/-- A receiver's keyframe request, aimed at the source of the track. -/
def incomingKeyframeReq (mid : Mid) : Propagated :=
  match c.negotiator.tracksOut.find? (·.mid == some mid) with
  | none => .noop
  | some o =>
    if o.trackIn.upgrades c.negotiator.departed then
      .keyframeRequest c.id c.filter.chosenRid o.trackIn.origin o.trackIn.mid
    else .noop

def handleEvent (jwt : Jwt) (now : Nat) (auth : RelayAuth) : RtcEvent → Client × Propagated
  | .disconnected => (c.disconnect, .noop)
  | .mediaAdded mid kind direction =>
    match direction with
    | .sendOnly =>
      ({ c with negotiator :=
          { c.negotiator with tracksOut := openNegotiating mid c.negotiator.tracksOut } }, .noop)
    | .recvOnly | .sendRecv | .inactive => c.trackInAdded mid kind
  | .mediaData data => c.trackInMedia data
  | .keyframeRequest mid => (c, c.incomingKeyframeReq mid)
  | .egressBitrateEstimate bps => (c, .bandwidthEstimate c.id bps)
  | .channelData label data => (c, handleChannelData jwt now auth c.id label data)

/-- The client's part of `poll_all`: events are taken as long as it is alive. -/
def poll (jwt : Jwt) (now : Nat) (auth : RelayAuth) : Client → List RtcEvent →
    Client × List Propagated
  | c, [] => (c, [])
  | c, e :: es =>
    if c.alive then
      let (c, p) := c.handleEvent jwt now auth e
      let (c, ps) := c.poll jwt now auth es
      (c, if p = .noop then ps else p :: ps)
    else (c, [])

/-! ## What other clients send -/

section Out

variable (world : World) (n : Nat)

/-- A frame for one of the client's channels, unless it is too long, the client never created the
channel, or the channel is not open. -/
def writeFrame (channel : Channel) (maxBytes : Nat) (payload : List UInt8)
    (item : List UInt8 → Item) : List Item :=
  if payload.length > maxBytes then []
  else if channel ∉ c.channels then []
  else if world.channelWrites n c.id channel then [item payload]
  else []

/-- The media filter on the client's current tracks. -/
def subscriber : Subscriber :=
  { c.filter with tracksOut := c.negotiator.tracksOut, departed := c.negotiator.departed }

def handleMediaDataOut (origin : ClientId) (data : MediaData) : Client × List Item :=
  let (filter, decision) := c.subscriber.handleMediaDataOut origin data
  let c := { c with filter }
  match decision with
  | .write mid =>
    match world.mediaWrites n c.id mid with
    | .written => (c, [.media mid data])
    | .skipped => (c, [])
    | .failed => (c.disconnect, [])
  | _ => (c, [])

def handleTrackOpen (now : Nat) (trackIn : TrackIn) : Client × List Item :=
  ({ c with negotiator := c.negotiator.handleTrackOpen (world.negotiation c.id) now trackIn },
    [.trackOpen trackIn])

def drainWsCtrl (now : Nat) (messages : List Answer) (channelClosed : Bool) : Client :=
  { c with negotiator :=
      c.negotiator.drainWsCtrl (world.negotiation c.id) now messages channelClosed }

end Out

/-! ## The pacer -/

section Pacer

def layerLow : Rid := "q"

def layerMedium : Rid := "h"

def layerHigh : Rid := "f"

def rank (rid : Rid) : Nat := if rid = layerHigh then 2 else if rid = layerMedium then 1 else 0

/-- The best available layer not above the target, else the first available one. -/
def clampToAvailable (target : Rid) (available : List Rid) : Rid :=
  match [layerHigh, layerMedium, layerLow].find? fun candidate =>
      rank candidate ≤ rank target && available.contains candidate with
  | some candidate => candidate
  | none => available.head?.getD layerLow

def setDesiredLayer (rid : Rid) : Client := { c with filter := c.filter.setDesiredLayer rid }

/-- At most once in 100 ms. -/
def pacerTickReady (now : Nat) : Client × Bool :=
  match c.lastPacerTick with
  | some last =>
    if now - last < 100 then (c, false) else ({ c with lastPacerTick := some now }, true)
  | none => ({ c with lastPacerTick := some now }, true)

def pacerSelectLayer (action : Nat → PacerAction) (budget : Option Nat) (available : List Rid) :
    Client × Option Rid :=
  match budget with
  | none => (c, some c.filter.desiredLayer)
  | some bps =>
    match action bps with
    | .noChange | .restoreAudio => (c, some c.filter.desiredLayer)
    | .changeLayer target =>
      let rid := clampToAvailable target available
      let c := if rid ≠ c.filter.desiredLayer then c.setDesiredLayer rid else c
      ({ c with pendingTierEmit := some .videoMax }, some rid)
    | .suspendVideo => ({ c with pendingTierEmit := some .audioNormal }, none)
    | .goAudioOnly => ({ c with pendingTierEmit := some .audioLow }, none)
    | .restoreVideo =>
      ({ c.setDesiredLayer layerLow with pendingTierEmit := some .videoMax }, some layerLow)

/-- At most one request a second for each target layer, to every video publisher. -/
def emitKeyframeOnLayerSwitch (now : Nat) (newRid : Rid) : Client × List Propagated :=
  if (c.lastSwitchKeyframeRequest.lookup newRid).any (fun last => now - last < 1000) then (c, [])
  else
    ({ c with lastSwitchKeyframeRequest := (newRid, now) :: c.lastSwitchKeyframeRequest },
      (c.negotiator.tracksOut.filter fun o =>
        o.trackIn.upgrades c.negotiator.departed && o.trackIn.kind == .video).map fun o =>
          .keyframeRequest c.id (some newRid) o.trackIn.origin o.trackIn.mid)

/-- Whether a tier is news; before the first notice the full tier is not. -/
def tierChanged (last : Option SuspendTier) (tier : SuspendTier) : Bool :=
  match last with
  | some prev => prev ≠ tier
  | none => tier ≠ .videoMax

def emitTier : Client × List Propagated :=
  match c.pendingTierEmit with
  | none => (c, [])
  | some tier =>
    let c := { c with pendingTierEmit := none }
    if tierChanged c.lastEmittedTier tier then
      ({ c with lastEmittedTier := some tier }, [.peerSuspended c.id tier])
    else (c, [])

section Turn

variable (cfg : Config)

/-- Both floors share one tick; with neither enabled every pass is ready. -/
def pacerTick (now : Nat) : Client × Bool :=
  if cfg.pacerFloorEnabled || cfg.bweTemporalCapEnabled then c.pacerTickReady now else (c, true)

/-- A pass held back by the floor keeps the layer. -/
def chooseLayer (action : Nat → PacerAction) (tickReady : Bool) (budget : Option Nat)
    (available : List Rid) : Client × Option Rid :=
  if cfg.pacerFloorEnabled && !tickReady then (c, some c.filter.desiredLayer)
  else c.pacerSelectLayer action budget available

/-- A keyframe request when the layer changed and video is not suspended. -/
def switchKeyframe (now : Nat) (prevLayer : Rid) (chosen : Option Rid) : Client × List Propagated :=
  match chosen with
  | some newRid => if newRid ≠ prevLayer then c.emitKeyframeOnLayerSwitch now newRid else (c, [])
  | none => (c, [])

def selectTemporalCap (tickReady : Bool) (budget : Option Nat) : Client :=
  if cfg.bweTemporalCapEnabled && tickReady then
    { c with filter := c.filter.bweSelectTemporalCap budget }
  else c

/-- One client's turn in `update_pacer_layers`. -/
def updatePacerLayer (world : World) (n now : Nat) (available : List Rid) :
    Client × List Propagated :=
  let budget := world.estimate n c.id
  let tick := c.pacerTick cfg now
  let choice := tick.1.chooseLayer cfg (world.pacerAction n c.id) tick.2 budget available
  let switch := choice.1.switchKeyframe now c.filter.desiredLayer choice.2
  let notice := switch.1.emitTier
  (notice.1.selectTemporalCap cfg tick.2 budget, switch.2 ++ notice.2)

end Turn

end Pacer

end Client

end PartnerEdge.Sfu
