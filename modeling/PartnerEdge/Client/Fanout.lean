import PartnerEdge.Client.Tracks
import PartnerEdge.Machine.Run

/-!
# Media fanout to one subscriber

The part of a client that decides what to do with a packet of another peer: the temporal cap from
the client and from the bandwidth estimate, the structure cache, the simulcast layer filter and the
lookup of the outbound track. The decision ends where the packet is handed to the media writer.
-/

namespace PartnerEdge.Client

open Svc

abbrev Rid := String

structure MediaData where
  mid : Mid
  rid : Option Rid
  /-- The Dependency Descriptor extension bytes, when present. -/
  dd : Option (List UInt8)
deriving DecidableEq, Repr

structure Subscriber where
  desiredLayer : Rid
  chosenRid : Option Rid
  tracksOut : List TrackOut
  /-- Publishers that have left, so that weak references to their tracks no longer upgrade. -/
  departed : List ClientId
  maxVfmTemporalLayer : UInt8
  bweVfmTemporalCap : UInt8
  bweCapAudioOnlyBps : Nat
  bweCapLowMinBps : Nat
  ddStructureCache : DdStructureCache

inductive FanoutDecision where
  | temporalDrop (temporalId : Nat)
  | layerMismatch
  | skippedNoTrack
  | write (mid : Mid)
deriving DecidableEq, Repr

namespace Subscriber

/-- A new subscriber asks for the low layer and has no cap. -/
def new (audioOnlyBps lowMinBps : Nat) : Subscriber where
  desiredLayer := "q"
  chosenRid := none
  tracksOut := []
  departed := []
  maxVfmTemporalLayer := 255
  bweVfmTemporalCap := 255
  bweCapAudioOnlyBps := audioOnlyBps
  bweCapLowMinBps := lowMinBps
  ddStructureCache := .new

variable (c : Subscriber)

def effectiveTemporalCap : UInt8 := min c.maxVfmTemporalLayer c.bweVfmTemporalCap

def invalidateDdCacheOnCapEngage (before : UInt8) : Subscriber :=
  if before = 255 ∧ c.effectiveTemporalCap < 255 then
    { c with ddStructureCache := c.ddStructureCache.clear }
  else c

def setMaxVfmTemporalLayer (max : UInt8) : Subscriber :=
  { c with maxVfmTemporalLayer := max }.invalidateDdCacheOnCapEngage c.effectiveTemporalCap

/-- The next bandwidth cap; Nat subtraction is the source's saturating one. -/
def nextBweCap (budgetBps : Option Nat) : UInt8 :=
  let lo := c.bweCapAudioOnlyBps
  let hi := c.bweCapLowMinBps
  let hiReenter := hi - (hi - lo) / 5
  match budgetBps with
  | none => 255
  | some b =>
    if b < lo then 0
    else if b ≥ hi then 255
    else if c.bweVfmTemporalCap = 0 then 0
    else if c.bweVfmTemporalCap = 255 ∧ b ≥ hiReenter then 255
    else 1

def bweSelectTemporalCap (budgetBps : Option Nat) : Subscriber :=
  { c with bweVfmTemporalCap := c.nextBweCap budgetBps }.invalidateDdCacheOnCapEngage
    c.effectiveTemporalCap

def setDesiredLayer (rid : Rid) : Subscriber := { c with desiredLayer := rid, chosenRid := none }

/-- Caches the structure a parsed descriptor carried. -/
def remember (key : StreamKey) (parsed : DependencyDescriptor) : Subscriber :=
  match parsed.attached with
  | some s => { c with ddStructureCache := c.ddStructureCache.insert key s }
  | none => c

/-- The temporal filter of `handle_media_data_out`: the temporal id at which the packet is dropped,
if it is. An unreadable descriptor or an unresolved template forwards. -/
def temporalFilter (origin : ClientId) (data : MediaData) : Subscriber × Option Nat :=
  match data.dd with
  | none => (c, none)
  | some bytes =>
    if c.effectiveTemporalCap < 255 then
      let streamKey := (origin, data.mid)
      match parseDependencyDescriptor bytes (c.ddStructureCache.get streamKey) with
      | .error _ => (c, none)
      | .ok parsed =>
        (c.remember streamKey parsed,
          parsed.temporalId.filter fun tid => tid > c.effectiveTemporalCap.toNat)
    else (c, none)

/-- `layer::matches`: a packet without a rid is not simulcast and always passes. -/
def layerMatches (data : MediaData) : Bool :=
  match data.rid with
  | none => true
  | some rid => rid == c.desiredLayer

/-- The outbound track entry for a publisher's track. -/
def findTrackOut (origin : ClientId) (mid : Mid) : Option TrackOut :=
  c.tracksOut.find? fun o =>
    o.trackIn.upgrades c.departed && o.trackIn.origin == origin && o.trackIn.mid == mid

def noteChosenRid (data : MediaData) : Subscriber :=
  if data.rid.isSome ∧ c.chosenRid ≠ data.rid then { c with chosenRid := data.rid } else c

/-- What follows the temporal filter. -/
def forward (origin : ClientId) (data : MediaData) : Subscriber × FanoutDecision :=
  if c.layerMatches data then
    match (c.findTrackOut origin data.mid).bind (·.mid) with
    | none => (c, .skippedNoTrack)
    | some mid => (c.noteChosenRid data, .write mid)
  else (c, .layerMismatch)

def handleMediaDataOut (origin : ClientId) (data : MediaData) : Subscriber × FanoutDecision :=
  match c.temporalFilter origin data with
  | (c, some tid) => (c, .temporalDrop tid)
  | (c, none) => c.forward origin data

end Subscriber

/-! ## The subscriber as a machine -/

/-- What reaches a subscriber: packets, cap changes, and changes of its layer and tracks made by
the pacer and by renegotiation. -/
inductive Event where
  | packet (origin : ClientId) (data : MediaData)
  | clientCap (max : UInt8)
  | bweTick (budgetBps : Option Nat)
  | desiredLayer (rid : Rid)
  | tracksOut (tracks : List TrackOut)
  | departure (origin : ClientId)
deriving DecidableEq, Repr

def Subscriber.step (c : Subscriber) : Event → Subscriber × Option FanoutDecision
  | .packet origin data =>
    let (c, decision) := c.handleMediaDataOut origin data
    (c, some decision)
  | .clientCap max => (c.setMaxVfmTemporalLayer max, none)
  | .bweTick budgetBps => (c.bweSelectTemporalCap budgetBps, none)
  | .desiredLayer rid => (c.setDesiredLayer rid, none)
  | .tracksOut tracks => ({ c with tracksOut := tracks }, none)
  | .departure origin => ({ c with departed := origin :: c.departed }, none)

def subscriber : Machine Subscriber Event (Option FanoutDecision) := ⟨Subscriber.step⟩

end PartnerEdge.Client
