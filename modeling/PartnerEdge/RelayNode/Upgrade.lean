import PartnerEdge.RelayNode.Swap
import PartnerEdge.Collections.Newest
import PartnerEdge.Text.Terminated

/-!
# The upgrade of a relay node

`apply_upgrade` moves a node to a newer release: it stages the release, lays its binaries out, swaps
the other files in and restarts coturn behind a health gate. If the gate fails, it rolls back and
notes the version, which is then not tried again. Commands that fail where the script does not look
at them end it at once, with status 1. What the script keeps for itself (`VERSION`,
`failed-version`, `last-rc`, the names of the releases) stands apart from the files.
-/

namespace PartnerEdge.RelayNode

open Text

/-! ## The node -/

structure Node extends Layout where
  /-- The directories among the releases. -/
  releases : List Str
  /-- The text of `VERSION`. -/
  version : Option Str
  failedVersion : Option Str
  lastRc : Option Nat

def baselineVer : Str := "0.0.0".toList

/-- `awk '{print $1; exit}'` -/
def firstField (t : Str) : Str := (fieldsBy isGap ((lines t).headD [])).headD []

def installedVersion (node : Node) : Str := firstField (node.version.getD [])

def failedBefore (node : Node) : Str := substituted (node.failedVersion.getD [])

def currentTarget (ver : Str) : Str := "releases/".toList ++ ver

def initBaseline (node : Node) : Node :=
  { node with
    releases := node.releases.insert baselineVer
    current := some (node.current.getD (currentTarget baselineVer))
    version := if node.version.getD [] = [] then some (baselineVer ++ ['\n']) else node.version }

variable (dirs : Dirs)

/-- `rm -rf` on the directories of some releases. -/
def removeReleases (node : Node) (gone : List Str) : Node :=
  { node with
    releases := node.releases.filter (!gone.contains ·)
    files := fun path =>
      if (gone.map (releaseDir dirs)).contains path.dir then none else node.files path }

/-- The directory of the release, made anew. -/
def freshRelease (node : Node) (ver : Str) : Node :=
  let node := removeReleases dirs node [ver]
  { node with releases := node.releases ++ [ver] }

/-- The binaries of the release. -/
def layOut (ver : Str) (rows : List Row) (stage : Stage) : List Change :=
  (rows.filter (·.kind = .bin)).map fun row =>
    .install (destFor dirs .bin row.name ver) ⟨(stage row.asset).getD [], 0o755⟩

/-! ## Pruning -/

/-- A release that may be pruned. -/
def isStagedRelease (name : Str) : Bool := isSemver name && name != baselineVer

/-- Keeps the two newest releases. The loop that collects the names ends with the status of its last
test, so nothing is pruned if the last entry is not such a release. -/
def pruneReleases (node : Node) : Bool × Node :=
  let entries := (node.releases.filter (·.head? ≠ some '.')).insertionSort (· ≤ ·)
  if !entries.getLast?.any isStagedRelease then (false, node)
  else
    let staged := entries.filter isStagedRelease
    let keep := newest VersionLe 2 staged
    (true, removeReleases dirs node (staged.filter (!keep.contains ·)))

/-! ## The health gate -/

inductive Gate
  | passed
  | failed
  /-- `relay.env` lacks a name that the gate needs, which ends the script. -/
  | exited
deriving DecidableEq, Repr

/-- Tries until all probes succeed at once. -/
def gateTries : Nat → Outcomes → Bool × Outcomes
  | 0, tape => (false, tape)
  | tries + 1, tape =>
    if tape.headD true then (true, tape.tail) else gateTries tries tape.tail

def healthGate (envComplete : Bool) (tries : Nat) (tape : Outcomes) : Gate × Outcomes :=
  if !envComplete then (.exited, tape)
  else
    let (ok, tape) := gateTries tries tape
    (if ok then .passed else .failed, tape)

/-! ## Applying an upgrade -/

/-- What one run of the upgrader meets. -/
structure Attempt where
  ver : Str
  isRoot : Bool
  /-- The gate on registration material and the identity of the node. -/
  isRelayNode : Bool
  /-- Another run holds the lock. -/
  locked : Bool
  world : World
  /-- `relay.env` names the address and the host. -/
  envComplete : Bool
  gateTries : Nat
  tape : Outcomes

/-- How a run ends: its status, the node, and how often coturn was restarted. -/
structure Result where
  code : Nat
  node : Node
  restarts : Nat

section Apply

variable (a : Attempt)

def finishUpgrade (node : Node) (tape : Outcomes) : Result :=
  if !tape.headD true then ⟨1, node, 1⟩
  else
    let node := { node with
      version := some (a.ver ++ ['\n']), failedVersion := none, lastRc := none }
    let (ok, node) := pruneReleases dirs node
    ⟨if ok then 0 else 1, node, 1⟩

def rollBack (snap : Snapshot) (node : Node) (restarts : Nat) (tape : Outcomes) : Result :=
  if !tape.headD true then ⟨1, node, restarts⟩
  else
    let node := { node with failedVersion := some (a.ver ++ ['\n']) }
    match attempt Layout.make (restoreSnapshot dirs snap) tape.tail node.toLayout with
    | (false, _, layout) => ⟨12, { node with toLayout := layout }, restarts⟩
    | (true, tape, layout) =>
      let node := { node with toLayout := layout }
      match (healthGate a.envComplete a.gateTries tape).1 with
      | .passed => ⟨11, node, restarts + 1⟩
      | .failed => ⟨12, node, restarts + 1⟩
      | .exited => ⟨1, node, restarts + 1⟩

/-- From the snapshot on. -/
def swapIn (rows : List Row) (stage : Stage) (opecNew : Option Str) (node : Node)
    (tape : Outcomes) : Result :=
  if !tape.headD true then ⟨1, node, 0⟩
  else
    let snap := snapshotLive dirs a.ver rows opecNew node.toLayout
    match attempt Layout.make (activate dirs a.ver rows stage opecNew) tape.tail node.toLayout with
    | (false, tape, layout) => rollBack dirs a snap { node with toLayout := layout } 0 tape
    | (true, tape, layout) =>
      let node := { node with toLayout := layout }
      match healthGate a.envComplete a.gateTries tape with
      | (.passed, tape) => finishUpgrade dirs a node tape
      | (.failed, tape) => rollBack dirs a snap node 1 tape
      | (.exited, _) => ⟨1, node, 1⟩

/-- An `opec` that is there and executable. -/
def installedOpec (node : Node) : Option Str :=
  ((node.files dirs.opecDst).filter fun file => file.mode &&& 0o111 != 0).map (·.content)

/-- Once the upgrade has been decided on. -/
def upgrade (node : Node) : Result :=
  match prepare a.world a.ver (installedOpec dirs node) with
  | .error _ => ⟨10, node, 0⟩
  | .ok (rows, stage, opecNew) =>
    let node := freshRelease dirs node a.ver
    match attempt Layout.make (layOut dirs a.ver rows stage) a.tape node.toLayout with
    | (false, _, layout) => ⟨1, { node with toLayout := layout }, 0⟩
    | (true, tape, layout) => swapIn dirs a rows stage opecNew { node with toLayout := layout } tape

/-- A failing outcome is kept for the heartbeat. -/
def onExit (r : Result) : Result :=
  if r.code = 10 ∨ r.code = 11 ∨ r.code = 12 then
    { r with node := { r.node with lastRc := some r.code } }
  else r

def applyUpgrade (node : Node) : Result :=
  if !isSemver a.ver then ⟨2, node, 0⟩
  else if !a.isRoot then ⟨2, node, 0⟩
  else if !a.isRelayNode then ⟨10, node, 0⟩
  else if a.locked then ⟨0, node, 0⟩
  else
    let inst := installedVersion node
    if !isSemver inst then ⟨10, node, 0⟩
    else if a.ver = inst then ⟨0, { node with lastRc := none }, 0⟩
    else if !verGt a.ver inst then ⟨0, node, 0⟩
    else if failedBefore node = a.ver then ⟨0, node, 0⟩
    else onExit (upgrade dirs a (initBaseline node))

/-! ## How an upgrade ends -/

/-- The node while its layout changes. -/
def Node.after (node : Node) (cs : List Change) : Node :=
  { node with toLayout := cs.foldl Layout.make node.toLayout }

/-- The node with the binaries of the release laid out. -/
def laidOut (rows : List Row) (stage : Stage) (node : Node) : Node :=
  (freshRelease dirs node a.ver).after (layOut dirs a.ver rows stage)

/-- The node with the whole release in place and recorded. -/
def activated (rows : List Row) (stage : Stage) (opecNew : Option Str) (node : Node) : Node :=
  { (laidOut dirs a rows stage node).after (activate dirs a.ver rows stage opecNew) with
    version := some (a.ver ++ ['\n']), failedVersion := none, lastRc := none }

/-- All the ways in which an upgrade can end. -/
inductive Ends (node : Node) : Result → Prop
  | refused : Ends node ⟨10, node, 0⟩
  /-- A binary could not be laid out. -/
  | unfinished {rows stage opecNew laid}
      (hprepare : prepare a.world a.ver (installedOpec dirs node) = .ok (rows, stage, opecNew))
      (hlaid : laid <+: layOut dirs a.ver rows stage) :
      Ends node ⟨1, (freshRelease dirs node a.ver).after laid, 0⟩
  /-- A command failed that the script does not look at, after a part of the activation. -/
  | stopped {rows stage opecNew made restarts}
      (hprepare : prepare a.world a.ver (installedOpec dirs node) = .ok (rows, stage, opecNew))
      (hmade : made <+: activate dirs a.ver rows stage opecNew) :
      Ends node ⟨1, (laidOut dirs a rows stage node).after made, restarts⟩
  | upgraded {rows stage opecNew}
      (hprepare : prepare a.world a.ver (installedOpec dirs node) = .ok (rows, stage, opecNew)) :
      Ends node ⟨if (pruneReleases dirs (activated dirs a rows stage opecNew node)).1 then 0 else 1,
        (pruneReleases dirs (activated dirs a rows stage opecNew node)).2, 1⟩
  | rolledBack {rows stage opecNew made restored code restarts}
      (hprepare : prepare a.world a.ver (installedOpec dirs node) = .ok (rows, stage, opecNew))
      (hmade : made <+: activate dirs a.ver rows stage opecNew)
      (hrestored : restored <+: restoreSnapshot dirs
        (snapshotLive dirs a.ver rows opecNew (laidOut dirs a rows stage node).toLayout))
      (hcode : code = 1 ∨ code = 11 ∨ code = 12)
      (hall : code = 11 → restored = restoreSnapshot dirs
        (snapshotLive dirs a.ver rows opecNew (laidOut dirs a rows stage node).toLayout))
      (hrestarts : restarts ≤ 2) :
      Ends node ⟨code, { ((laidOut dirs a rows stage node).after made).after restored with
        failedVersion := some (a.ver ++ ['\n']) }, restarts⟩

variable {dirs a}

section Prepared

variable {node : Node} {rows : List Row} {stage : Stage} {opecNew : Option Str} {tape : Outcomes}
  (hprepare : prepare a.world a.ver (installedOpec dirs node) = .ok (rows, stage, opecNew))
include hprepare

theorem rollBack_ends {made : List Change} {restarts : Nat}
    (hmade : made <+: activate dirs a.ver rows stage opecNew) (hrestarts : restarts ≤ 1) :
    Ends dirs a node (rollBack dirs a
      (snapshotLive dirs a.ver rows opecNew (laidOut dirs a rows stage node).toLayout)
      ((laidOut dirs a rows stage node).after made) restarts tape) := by
  unfold rollBack
  split
  · exact .stopped hprepare hmade
  dsimp only
  obtain ⟨restored, hrestored, hlayout, hall⟩ := attempt_spec Layout.make
    (restoreSnapshot dirs
      (snapshotLive dirs a.ver rows opecNew (laidOut dirs a rows stage node).toLayout))
    tape.tail ((laidOut dirs a rows stage node).after made).toLayout
  split
  · next layout hattempt =>
    rw [hattempt] at hlayout
    subst hlayout
    exact .rolledBack hprepare hmade hrestored (.inr (.inr rfl)) (by simp) (by omega)
  · next tape' layout hattempt =>
    rw [hattempt] at hlayout hall
    subst hlayout
    split
    · exact .rolledBack hprepare hmade hrestored (.inr (.inl rfl)) (fun _ => hall rfl) (by omega)
    · exact .rolledBack hprepare hmade hrestored (.inr (.inr rfl)) (by simp) (by omega)
    · exact .rolledBack hprepare hmade hrestored (.inl rfl) (by simp) (by omega)

theorem swapIn_ends : Ends dirs a node
    (swapIn dirs a rows stage opecNew (laidOut dirs a rows stage node) tape) := by
  unfold swapIn
  split
  · exact .stopped hprepare List.nil_prefix
  dsimp only
  obtain ⟨made, hmade, hlayout, hall⟩ := attempt_spec Layout.make
    (activate dirs a.ver rows stage opecNew) tape.tail (laidOut dirs a rows stage node).toLayout
  split
  · next tape' layout hattempt =>
    rw [hattempt] at hlayout
    subst hlayout
    exact rollBack_ends hprepare hmade (by omega)
  · next tape' layout hattempt =>
    rw [hattempt] at hlayout hall
    subst hlayout
    obtain rfl := hall rfl
    split
    · unfold finishUpgrade
      split
      · exact .stopped hprepare hmade
      · exact .upgraded hprepare
    · exact rollBack_ends hprepare hmade (by omega)
    · exact .stopped hprepare hmade

end Prepared

theorem upgrade_ends (dirs : Dirs) (a : Attempt) (node : Node) :
    Ends dirs a node (upgrade dirs a node) := by
  unfold upgrade
  split
  · exact .refused
  · next rows stage opecNew hprepare =>
    dsimp only
    obtain ⟨laid, hlaid, hlayout, hall⟩ := attempt_spec Layout.make
      (layOut dirs a.ver rows stage) a.tape (freshRelease dirs node a.ver).toLayout
    split
    · next layout hattempt =>
      rw [hattempt] at hlayout
      subst hlayout
      exact .unfinished hprepare hlaid
    · next tape layout hattempt =>
      rw [hattempt] at hlayout hall
      subst hlayout
      obtain rfl := hall rfl
      exact swapIn_ends hprepare

end Apply

end PartnerEdge.RelayNode
