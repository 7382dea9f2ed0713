import PartnerEdge.Awg.Injection
import PartnerEdge.Machine.Run

/-!
# The agent and the installer on one conf

The agent tops the conf up at startup and then polls for epochs, one tick after the other. A tick
reads, merges and rewrites the conf under a lock that it shares with the installers, and goes on
without the lock: it stats the conf again, applies it to the kernel and saves the epoch. Each of
these is one step here, with the outcome of its system calls as an input, so that any step of an
installer may come in between; a crash may come at any point and releases the lock.

Every rewrite changes the identity of the conf, so the number of rewrites stands for it. The restart
hook and the report to the central server, which do not feed back, are left out.
-/

namespace PartnerEdge.Awg

open Text

structure ConfFile where
  text : Str
  identity : Nat
deriving DecidableEq, Repr

inductive Holder where
  | agent
  | installer (pid : Nat)
deriving DecidableEq, Repr

structure Response where
  epoch : Int64
  params : AwgParams
deriving DecidableEq, Repr

/-- Where the agent is. The payload of a merge is the polled epoch, or nothing for the top-up. -/
inductive Phase where
  | down
  | idle
  | acquiring (payload : Option Response)
  | reading (payload : Option Response)
  | merging (payload : Option Response) (confText : Str)
  | writing (payload : Option Response) (newConf : Str)
  | stating (payload : Option Response) (changed : Bool)
  | written (payload : Option Response) (identity : Nat) (changed : Bool)
  | applying (payload : Option Response)
  | saving (response : Response)
deriving DecidableEq, Repr

/-- How a tick or a top-up can end early. -/
inductive Ended where
  | lockTimeout
  | lockError
  | readFailed
  | mergeError
  | writeFailed
  | statFailed
  | superseded
  | restatFailed
  | applyFailed
  | saveFailed
deriving DecidableEq, Repr

/-- What the agent has done. -/
inductive Event where
  /-- A merge of the payload into the conf, with the holder of the lock at that time. -/
  | merged (holder : Option Holder) (payload : Option Response) (confText newConf : Str)
  /-- The identity of the conf at the end of the locked part. -/
  | stated (identity : Nat)
  /-- The re-stat found the conf unchanged. -/
  | unchanged (file : ConfFile)
  | applied
  | ended (why : Ended)
deriving DecidableEq, Repr

/-- The files, the lock and the agent. `installed` and `trace` record what was done and are never
read: the text of the latest rewrite by an installer, and the events of the agent, the latest first.
-/
structure Edge where
  conf : Option ConfFile
  rewrites : Nat
  lock : Option Holder
  lastAppliedEpoch : Option Int64
  phase : Phase
  defaults : ClientDefaults
  installed : Option Str
  trace : List Event

inductive Input where
  | start (defaults : ClientDefaults)
  | crash
  /-- The answer to the poll, if there is one, and whether the state file can be read. -/
  | poll (response : Option Response) (loads : Bool)
  | acquire
  /-- The agent waits no longer for the lock, or cannot open or lock the file. -/
  | lockFails (timeout : Bool)
  | read (ok : Bool)
  | merge
  | write (ok : Bool)
  | stat (ok : Bool)
  | restat (ok : Bool)
  | apply (ok : Bool)
  | save (ok : Bool)
  | installerAcquire (pid : Nat)
  | installerRename (pid : Nat) (text : Str)
  | installerRelease (pid : Nat)
deriving DecidableEq, Repr

namespace Edge

def init (conf : Option Str) (lastAppliedEpoch : Option Int64) (defaults : ClientDefaults) :
    Edge where
  conf := conf.map (⟨·, 0⟩)
  rewrites := 1
  lock := none
  lastAppliedEpoch
  phase := .down
  defaults
  installed := conf
  trace := []

variable (base64 : Base64) (s : Edge)

/-- An absent state file counts as epoch 0. -/
def lastEpoch : Int64 := s.lastAppliedEpoch.getD 0

def record (e : Event) : Edge := { s with trace := e :: s.trace }

def release (h : Holder) : Edge := { s with lock := if s.lock = some h then none else s.lock }

def rewrite (text : Str) : Edge :=
  { s with conf := some ⟨text, s.rewrites⟩, rewrites := s.rewrites + 1 }

/-- Back to the loop, with the lock released if it was held. -/
def endTick (why : Ended) : Edge := { (s.release .agent).record (.ended why) with phase := .idle }

/-- The conf as a system call finds it. -/
def confIfOk (ok : Bool) : Option ConfFile := if ok then s.conf else none

def start (defaults : ClientDefaults) : Edge :=
  match s.phase with
  | .down => { s with phase := .acquiring none, defaults }
  | _ => s

def crash : Edge := { s.release .agent with phase := .down }

/-- The poll and the comparison with the saved epoch. -/
def poll (response : Option Response) (loads : Bool) : Edge :=
  match s.phase, response with
  | .idle, some response =>
    if loads && s.lastEpoch < response.epoch then { s with phase := .acquiring (some response) }
    else s
  | _, _ => s

def acquireConfLock : Edge :=
  match s.phase, s.lock with
  | .acquiring payload, none => { s with lock := some .agent, phase := .reading payload }
  | _, _ => s

def lockFails (timeout : Bool) : Edge :=
  match s.phase with
  | .acquiring _ => s.endTick (if timeout then .lockTimeout else .lockError)
  | _ => s

def readConf (ok : Bool) : Edge :=
  match s.phase with
  | .reading payload =>
    match s.confIfOk ok with
    | some file => { s with phase := .merging payload file.text }
    | none => s.endTick .readFailed
  | _ => s

def mergeConf : Edge :=
  match s.phase with
  | .merging payload confText =>
    match mergeObfuscationParamsReporting base64 confText (payload.map (·.params)) s.defaults with
    | .error _ => s.endTick .mergeError
    | .ok (newConf, _) =>
      { s.record (.merged s.lock payload confText newConf) with
        phase := if newConf = confText then .stating payload false else .writing payload newConf }
  | _ => s

def writeConfAtomic (ok : Bool) : Edge :=
  match s.phase with
  | .writing payload newConf =>
    if ok then { s.rewrite newConf with phase := .stating payload true } else s.endTick .writeFailed
  | _ => s

/-- The stat under the lock; the lock is released after it. -/
def confIdentity (ok : Bool) : Edge :=
  match s.phase with
  | .stating payload changed =>
    match s.confIfOk ok with
    | some file =>
      { (s.release .agent).record (.stated file.identity) with
        phase := .written payload file.identity changed }
    | none => s.endTick .statFailed
  | _ => s

/-- The re-stat; a top-up that changed nothing is done without it. -/
def confChangedSince (ok : Bool) : Edge :=
  match s.phase with
  | .written payload identity changed =>
    if payload.isNone && !changed then { s with phase := .idle }
    else match s.confIfOk ok with
      | some file =>
        if file.identity = identity then
          { s.record (.unchanged file) with phase := .applying payload }
        else s.endTick .superseded
      | none => s.endTick .restatFailed
  | _ => s

def applyToKernel (ok : Bool) : Edge :=
  match s.phase with
  | .applying (some response) =>
    if ok then { s.record .applied with phase := .saving response } else s.endTick .applyFailed
  | .applying none => if ok then { s with phase := .idle } else s.endTick .applyFailed
  | _ => s

def saveState (ok : Bool) : Edge :=
  match s.phase with
  | .saving response =>
    if ok then { s with lastAppliedEpoch := some response.epoch, phase := .idle }
    else s.endTick .saveFailed
  | _ => s

def installerAcquire (pid : Nat) : Edge :=
  match s.lock with
  | none => { s with lock := some (.installer pid) }
  | some _ => s

/-- The rename of a rendered conf, by the installer that holds the lock. -/
def installerRename (pid : Nat) (text : Str) : Edge :=
  if s.lock = some (.installer pid) then { s.rewrite text with installed := some text } else s

def step : Input → Edge
  | .start defaults => s.start defaults
  | .crash => s.crash
  | .poll response loads => s.poll response loads
  | .acquire => s.acquireConfLock
  | .lockFails timeout => s.lockFails timeout
  | .read ok => s.readConf ok
  | .merge => s.mergeConf base64
  | .write ok => s.writeConfAtomic ok
  | .stat ok => s.confIdentity ok
  | .restat ok => s.confChangedSince ok
  | .apply ok => s.applyToKernel ok
  | .save ok => s.saveState ok
  | .installerAcquire pid => s.installerAcquire pid
  | .installerRename pid text => s.installerRename pid text
  | .installerRelease pid => s.release (.installer pid)

end Edge

def edge (base64 : Base64) : Machine Edge Input Unit := ⟨fun s i => (s.step base64 i, ())⟩

end PartnerEdge.Awg
