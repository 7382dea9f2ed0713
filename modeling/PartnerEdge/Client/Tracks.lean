import PartnerEdge.Svc.DdExt

/-!
# Tracks

What a peer publishes (`TrackIn`) and what it receives from another (`TrackOut`). A `TrackOut` holds
a weak reference to the publisher's track; the reference upgrades as long as the publisher has not
departed.
-/

namespace PartnerEdge.Client

open Svc

inductive MediaKind where
  | audio
  | video
deriving DecidableEq, Repr

structure TrackIn where
  origin : ClientId
  mid : Mid
  kind : MediaKind
  externalPeerId : Option Nat
deriving DecidableEq, Repr

/-- The source's `Open` is `opened` here. -/
inductive TrackOutState where
  | toOpen
  | negotiating (mid : Mid)
  | opened (mid : Mid)
deriving DecidableEq, Repr

structure TrackOut where
  trackIn : TrackIn
  state : TrackOutState
deriving DecidableEq, Repr

/-- The m-line packets may be written to: only an open one. -/
def TrackOut.mid (o : TrackOut) : Option Mid :=
  match o.state with
  | .toOpen | .negotiating _ => none
  | .opened mid => some mid

/-- Whether a weak reference to the track still upgrades, given the publishers that have left. -/
def TrackIn.upgrades (departed : List ClientId) (t : TrackIn) : Bool := t.origin ∉ departed

end PartnerEdge.Client
