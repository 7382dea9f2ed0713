import PartnerEdge.Sfu.Registry

/-!
# The SFU process

Upgrade requests start session tasks; a task that has exchanged SDP hands its peer to the UDP loop
through the inject channel; the loop drives the registry. One step is one request, one move of a
session task, or one whole pass of the loop, which ends with one arm of its `select`. The room of a
peer travels to the loop for logging only. `admissions` records it for each inserted browser and is
never read.
-/

namespace PartnerEdge.Sfu

open Svc PartnerEdge.Client Text

structure PendingClient where
  roomId : Str
  externalPeerId : Nat
deriving DecidableEq, Repr

structure Admission where
  id : ClientId
  roomId : Str
  peerId : Nat
deriving DecidableEq, Repr

structure Process where
  registry : Registry
  nextClientId : ClientId
  /-- Session tasks that have not reached the inject channel. -/
  sessions : List PendingClient
  clientInjectRx : List PendingClient
  admissions : List Admission

inductive Arm where
  /-- The timer or a datagram; the clients on whose input str0m fails. -/
  | input (failed : List ClientId)
  | speakerTick (dominant : Option ClientId) (top : List ClientId)
  | relayInjected (upstreamUrl : Str)
  | clientInjected
deriving DecidableEq, Repr

/-- What one pass of the loop reads from the outside. -/
structure Pass where
  now : Nat
  answers : ClientId → List Answer × Bool
  keyframeRequests : ClientId → List (Option Rid × ClientId × Mid)
  outputs : ClientId → List RtcEvent
  arm : Arm

inductive Step where
  | upgrade (req : UpgradeRequest)
  /-- A session task sends its peer to the loop. -/
  | sessionReady (i : Nat)
  /-- A session task ends before that: no offer, a bad one, or the peer is gone. -/
  | sessionEnded (i : Nat)
  | pass (p : Pass)

namespace Process

def init : Process := ⟨.empty, 0, [], [], []⟩

variable (cfg : Config) (world : World) (s : Process)

def upgrade (req : UpgradeRequest) : Process :=
  match clientWsUpgrade world.jwt cfg.auth req with
  | .session roomId peerId => { s with sessions := s.sessions ++ [⟨roomId, peerId⟩] }
  | _ => s

def sessionReady (i : Nat) : Process :=
  match s.sessions[i]? with
  | some pending =>
    { s with
      sessions := s.sessions.eraseIdx i
      clientInjectRx := s.clientInjectRx ++ [pending] }
  | none => s

def sessionEnded (i : Nat) : Process := { s with sessions := s.sessions.eraseIdx i }

def soloKick (r : Registry) (now : Nat) : Registry :=
  match cfg.soloKickTimeout with
  | some timeout => r.checkSoloTimeout timeout now
  | none => r

/-- The registry when it has been polled. -/
def polled (p : Pass) : Registry :=
  let r := soloKick cfg (s.registry.reapDead p.now) p.now
  let r := r.pumpWsCtrl world p.now p.answers p.keyframeRequests
  r.pollAll cfg world p.now p.outputs

/-- The loop up to its `select`. -/
def drive (p : Pass) : Process :=
  { s with registry := (s.polled cfg world p).fanoutPending cfg world p.now }

/-- The `tracks_map` frame: every registered browser, to the newcomer. -/
def tracksMap (newcomer : ClientId) : List Delivery :=
  if world.tracksMapSent newcomer then
    s.registry.clients.flatMap fun c =>
      c.externalPeerId.toList.map fun peerId => ⟨c.id, newcomer, .tracksMap peerId⟩
  else []

/-- A client with the next id is inserted. -/
def join (now : Nat) (client : Client) (admission : Option Admission) : Process :=
  { s with
    registry := s.registry.insert world now client
    nextClientId := s.nextClientId + 1
    admissions := s.admissions ++ admission.toList }

/-- The pending client is taken from the channel and gets its `tracks_map`. -/
def announce (rest : List PendingClient) : Process :=
  { s with
    registry := { s.registry with
      deliveries := s.registry.deliveries ++ s.tracksMap world s.nextClientId }
    clientInjectRx := rest }

def injectClient (now : Nat) : Process :=
  match s.clientInjectRx with
  | [] => s
  | pending :: rest =>
    let id := s.nextClientId
    (s.announce world rest).join world now (Client.newBrowser cfg id pending.externalPeerId)
      (some ⟨id, pending.roomId, pending.externalPeerId⟩)

def injectRelay (now : Nat) (upstreamUrl : Str) : Process :=
  s.join world now (Client.newOutboundRelay cfg s.nextClientId upstreamUrl) none

def select (now : Nat) : Arm → Process
  | .input failed => { s with registry := s.registry.failInputs failed }
  | .speakerTick dominant top => { s with registry := s.registry.tickSpeakers dominant top }
  | .relayInjected upstreamUrl => s.injectRelay cfg world now upstreamUrl
  | .clientInjected => s.injectClient cfg world now

def step : Step → Process
  | .upgrade req => s.upgrade cfg world req
  | .sessionReady i => s.sessionReady i
  | .sessionEnded i => s.sessionEnded i
  | .pass p => (s.drive cfg world p).select cfg world p.now p.arm

end Process

def process (cfg : Config) (world : World) : Machine Process Step Unit :=
  ⟨fun s i => (s.step cfg world i, ())⟩

end PartnerEdge.Sfu
