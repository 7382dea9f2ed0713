import PartnerEdge.Health.PeerIpGuard
import PartnerEdge.Machine.Run
import PartnerEdge.Text.Assignment

/-!
# The cross-probe loop

Each tick of the health timer walks a part of the peer roster, dials the peers that pass the guard
and posts what it found. Where the next tick starts is kept in a marker file, which a tick that is
skipped writes as well. Slots, counts and offsets are bounded by the length of the roster; only the
operator's limits are large enough for the shell's 64 bits to matter.
-/

namespace PartnerEdge.Health

open Text

/-! ## The marker -/

inductive ProbeMode
  | disabled
  | degraded
  | started
  | peer
deriving DecidableEq, Repr

def ProbeMode.text : ProbeMode → Str
  | .disabled => "disabled".toList
  | .degraded => "degraded".toList
  | .started => "started".toList
  | .peer => "peer".toList

/-- The arguments of `_write_peer_probe_state`, and the time. -/
structure Marker where
  mode : ProbeMode
  probed : Nat := 0
  ok : Nat := 0
  rejected : Nat := 0
  post4xx : Nat := 0
  offset : Nat := 0
  dropped : Str := []
  time : Nat
deriving DecidableEq, Repr

def headerLine : Str :=
  "# Generated by oxpulse-channels-health-report.sh — do not edit".toList

def offsetKey : Str := "PEER_PROBE_OFFSET".toList

/-- The lines before that of the offset. -/
def Marker.countLines (m : Marker) : List Str :=
  [headerLine, assignment "PEER_PROBE_MODE".toList m.mode.text,
    assignment "PEER_PROBE_PROBED".toList (Nat.toDigits 10 m.probed),
    assignment "PEER_PROBE_OK".toList (Nat.toDigits 10 m.ok),
    assignment "PEER_PROBE_REJECTED".toList (Nat.toDigits 10 m.rejected),
    assignment "PEER_PROBE_POST_4XX".toList (Nat.toDigits 10 m.post4xx)]

def Marker.offsetLine (m : Marker) : Str := assignment offsetKey (Nat.toDigits 10 m.offset)

def Marker.text (m : Marker) : Str :=
  terminate (m.countLines ++ [m.offsetLine]) ++
    terminate [assignment "PEER_PROBE_DROPPED".toList m.dropped,
      assignment "PEER_PROBE_AT".toList (Nat.toDigits 10 m.time)]

/-- `_read_peer_probe_offset`, where no override is set: the first line with the key, if it is a
number. -/
def readPeerProbeOffset (file : Option Str) : Str :=
  let val := match file with
    | some text => (valuesOf offsetKey text).head?.getD []
    | none => []
  if (parseDigits val).isSome then val else ['0']

/-! ## One cycle -/

/-- An entry of the roster, with the texts that `jq` finds in it. -/
structure Peer where
  nodeId : Option Str
  turnsHost : Option Str
  turnsPort : Option Str
  udpPort : Option Str
deriving DecidableEq, Repr

structure Config where
  roster : List Peer
  /-- `OXPULSE_PEER_PROBE_MAX` -/
  cap : Nat := 2
  /-- `OXPULSE_PEER_PROBE_REJECT_HEADROOM` -/
  rejectHeadroom : Option Nat := none
  /-- `OXPULSE_COTURN_STUN_PORT` -/
  stunPort : Str := "3478".toList
deriving DecidableEq, Repr

inductive Handshake
  | succeeded
  | failed
  | skip
deriving DecidableEq, Repr

/-- What the world answers in one cycle: the resolver for the host of a slot, the handshake, whether
the post of a leg is answered with a 4xx, and the clock at each write. What the UDP leg finds is
posted and not counted. -/
structure World where
  answers : Nat → List Str
  tls : Nat → Handshake
  tlsPost4xx : Nat → Bool
  udpPost4xx : Nat → Bool
  time : Nat → Nat

/-- What the loop reads from an entry of the roster. -/
structure Entry where
  nodeId : Str
  turnsHost : Str
  turnsPort : Str
  udpPort : Str
deriving DecidableEq, Repr

/-- A peer that is dialled, with the address that both probes are handed. -/
structure Dial extends Entry where
  vettedIp : Str
deriving DecidableEq, Repr

/-- The variables of the loop, the slots that it walked and what it did there. -/
structure Walk where
  probed : Nat := 0
  ok : Nat := 0
  rejected : Nat := 0
  post4xx : Nat := 0
  scanned : Nat := 0
  slots : List Nat := []
  dials : List Dial := []
  writes : List Marker := []
deriving DecidableEq, Repr

namespace Config

variable (cfg : Config)

def n : Nat := cfg.roster.length

/-- The headroom is the cap unless it is set. -/
def headroom : Nat := cfg.rejectHeadroom.getD cfg.cap

/-- `cap` as a number of the shell. -/
def capValue : Int := (Int64.ofNat cfg.cap).toInt

/-- `scan_cap=$(( cap + headroom ))` -/
def scanCap : Int := (Int64.ofNat cfg.cap + Int64.ofNat cfg.headroom).toInt

/-- `jq -r '.[$i].field // default'` -/
def field (get : Peer → Option Str) (default : Str) (idx : Nat) : Str :=
  (cfg.roster[idx]?.bind get).getD default

/-- A port that is not a number is replaced. -/
def portOr (default port : Str) : Str := if (parseDigits port).isSome then port else default

def entry (idx : Nat) : Entry where
  nodeId := cfg.field Peer.nodeId [] idx
  turnsHost := cfg.field Peer.turnsHost [] idx
  turnsPort := portOr "443".toList (cfg.field Peer.turnsPort "443".toList idx)
  udpPort := portOr cfg.stunPort (cfg.field Peer.udpPort [] idx)

/-- The body of the loop. Only a peer that passes the guard is dialled and counts for the cap. -/
def visit (world : World) (start i : Nat) (w : Walk) : Walk :=
  let idx := (start + i) % cfg.n
  let peer := cfg.entry idx
  if peer.nodeId.isEmpty || peer.turnsHost.isEmpty then
    { w with scanned := w.scanned + 1, slots := w.slots ++ [idx] }
  else match hostIsInternal peer.turnsHost (world.answers idx) with
  | none =>
    { w with
      rejected := w.rejected + 1
      scanned := w.scanned + 1
      slots := w.slots ++ [idx] }
  | some vettedIp =>
    let probed := w.probed + 1
    let ok := if world.tls idx = .succeeded then w.ok + 1 else w.ok
    let tlsPost4xx := if world.tls idx ≠ .skip ∧ world.tlsPost4xx idx then 1 else w.post4xx
    let post4xx := if world.udpPost4xx idx then 1 else tlsPost4xx
    { probed, ok, post4xx
      rejected := w.rejected
      scanned := w.scanned + 1
      slots := w.slots ++ [idx]
      dials := w.dials ++ [⟨peer, vettedIp⟩]
      writes := w.writes ++ [{
        mode := .started, probed, ok, rejected := w.rejected, post4xx, offset := start
        time := world.time w.writes.length }] }

/-- `for (( i=0; i<n && probed<cap && scanned<scan_cap; i++ ))`, with the iterations up to `n`. -/
def walkLoop (world : World) (start : Nat) : Nat → Nat → Walk → Walk
  | 0, _, w => w
  | k + 1, i, w =>
    if w.probed < cfg.capValue ∧ w.scanned < cfg.scanCap then
      walkLoop world start k (i + 1) (cfg.visit world start i w)
    else w

/-- `tr -cd 'A-Za-z0-9._-'` -/
def sanitize (d : Str) : Str :=
  d.filter fun c => c.isAlphanum || c == '.' || c == '_' || c == '-'

/-- The names of the slots from number `scanned` of the walk on. -/
def dropped (start scanned : Nat) : Str :=
  let names := (List.range' scanned (cfg.n - scanned)).map fun j =>
    sanitize (cfg.field Peer.nodeId [] ((start + j) % cfg.n))
  [','].intercalate (names.filter (!·.isEmpty))

/-- The cycle from the first marker to the last. -/
def runCycle (world : World) (start : Nat) : Walk :=
  let began : Marker := { mode := .started, offset := start, time := world.time 0 }
  let w := cfg.walkLoop world start cfg.n 0 { writes := [began] }
  { w with writes := w.writes ++ [{
      mode := .peer
      probed := w.probed
      ok := w.ok
      rejected := w.rejected
      post4xx := w.post4xx
      offset := (start + w.scanned) % cfg.n
      dropped := cfg.dropped start w.scanned
      time := world.time w.writes.length }] }

end Config

/-! ## Ticks -/

/-- What a tick finds. The roster does not change, but it may be unreadable for a while. -/
structure Tick where
  token : Str
  rosterReadable : Bool
  turnSecret : Str
  world : World

/-- Why a tick is skipped, if it is. -/
def Tick.skipped (tick : Tick) (cfg : Config) : Option ProbeMode :=
  if tick.token.isEmpty then some .disabled
  else if !tick.rosterReadable then some .disabled
  else if cfg.n = 0 then some .disabled
  else if tick.turnSecret.isEmpty then some .degraded
  else none

/-- `start=$(( offset % n ))`, with what the marker's file says. -/
def startSlot (cfg : Config) (marker : Option Marker) : Option Nat :=
  (arithConstant (readPeerProbeOffset (marker.map Marker.text))).map (· % cfg.n)

/-- `_run_peer_probe_loop` on the marker that is there. A skipped tick walks nothing, and an offset
that is not a number of the shell would end the function. -/
def runPeerProbeLoop (cfg : Config) (marker : Option Marker) (tick : Tick) :
    Option Marker × Option Walk :=
  match tick.skipped cfg with
  | some mode => (some { mode, time := tick.world.time 0 }, none)
  | none =>
    match startSlot cfg marker with
    | none => (marker, none)
    | some start =>
      let w := cfg.runCycle tick.world start
      (w.writes.getLast?, some w)

def peerProbe (cfg : Config) : Machine (Option Marker) Tick (Option Walk) where
  step := runPeerProbeLoop cfg

/-- The complete cycles of a run. -/
def completeCycles (cfg : Config) (marker : Option Marker) (ticks : List Tick) : List Walk :=
  ((peerProbe cfg).outputs marker ticks).filterMap (·.2)

end PartnerEdge.Health
