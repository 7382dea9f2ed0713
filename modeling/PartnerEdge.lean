import PartnerEdge.Svc.DdRoundTrip
import PartnerEdge.Client.Simulcast
import PartnerEdge.Client.SingleOffer
import PartnerEdge.Client.QueueProgress
import PartnerEdge.Awg.MustMatch
import PartnerEdge.Sfu.RelayPromotion
import PartnerEdge.Sfu.SoloKick
import PartnerEdge.Sfu.SpeakerElection
import PartnerEdge.Awg.InstallAccepted
import PartnerEdge.Awg.NoLostUpdate
import PartnerEdge.Awg.Overflow
import PartnerEdge.Awg.Idempotent
import PartnerEdge.Relay.Announce
import PartnerEdge.Sfu.AdmissionCap
import PartnerEdge.Client.BweCap
import PartnerEdge.Sfu.LayerChoice
import PartnerEdge.Awg.OneGrammar
import PartnerEdge.Awg.ApplyCount
import PartnerEdge.Awg.Scrub
import PartnerEdge.Sfu.WaitLog
import PartnerEdge.Sfu.StealPath
import PartnerEdge.Sfu.SuspendLog
import PartnerEdge.Sfu.HintGate
import PartnerEdge.Sfu.OpaqueFrames
import PartnerEdge.Sfu.StreamIds
import PartnerEdge.Sfu.SdpMsid
import PartnerEdge.Relay.Activation
import PartnerEdge.Relay.Upstreams
import PartnerEdge.Opec.HostOverlap
import PartnerEdge.Opec.RouteDiff
import PartnerEdge.Opec.TenantDiff
import PartnerEdge.Opec.Upstream
import PartnerEdge.Opec.Reality
import PartnerEdge.Opec.Register
import PartnerEdge.Opec.CoturnSecrets
import PartnerEdge.Refresh.Counters
import PartnerEdge.Svc.StructureCache
import PartnerEdge.Health.Transitions
import PartnerEdge.Reconcile.ForwardMigration
import PartnerEdge.Health.PinnedDial
import PartnerEdge.RelayNode.Attempts
import PartnerEdge.Upgrade.Settle
import PartnerEdge.RelayNode.Prune
