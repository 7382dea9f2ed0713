import PartnerEdge.Awg.Agent
import PartnerEdge.Awg.Metrics
import PartnerEdge.Awg.RejectionText

/-!
# The counters of a running agent

The agent of `Awg.Agent` together with its counters, which each step increases as the source does:
polls, conflicts with the installer, rejected fields and kernel applies. An apply runs two commands
within a time limit and records how it ended. Its caller at startup, the top-up of client defaults,
records the same outcome once more, so that an apply of the top-up counts twice if it fails.
-/

namespace PartnerEdge.Awg

open Text

/-! ## Kernel applies and polls -/

inductive ApplyError where
  | stripSpawn
  | stripFailed
  | syncconfSpawn
  | syncconfStdin
  | syncconfWait
  | syncconfFailed
  | timedOut
deriving DecidableEq, Repr

/-- How the parts of one `apply_to_kernel` end. -/
structure KernelApply where
  stripSpawns : Bool
  stripSucceeds : Bool
  syncconfSpawns : Bool
  stdinWritten : Bool
  syncconfWaits : Bool
  syncconfSucceeds : Bool
  inTime : Bool
deriving DecidableEq, Repr

namespace KernelApply

variable (kernel : KernelApply)

/-- `awg-quick strip` and `awg syncconf`, without the time limit. -/
def apply : Except ApplyError Unit :=
  if !kernel.stripSpawns then .error .stripSpawn
  else if !kernel.stripSucceeds then .error .stripFailed
  else if !kernel.syncconfSpawns then .error .syncconfSpawn
  else if !kernel.stdinWritten then .error .syncconfStdin
  else if !kernel.syncconfWaits then .error .syncconfWait
  else if !kernel.syncconfSucceeds then .error .syncconfFailed
  else .ok ()

def outcome : Except ApplyError Unit := if kernel.inTime then kernel.apply else .error .timedOut

def succeeds : Bool := kernel.outcome.isOk

end KernelApply

/-- The ways in which a poll can end. -/
inductive PollAnswer where
  | noToken
  | sendFailed
  | undecodable
  | refused
  | answered (response : Response)
deriving DecidableEq, Repr

namespace PollAnswer

def response : PollAnswer → Option Response
  | answered response => some response
  | _ => none

/-- What `poll_latest` records. -/
def calls (now : Int64) : PollAnswer → List Metrics.Call
  | noToken => []
  | sendFailed | undecodable | refused => [.pollFailure]
  | answered _ => [.pollSuccess now]

end PollAnswer

/-! ## The agent with its counters -/

/-- The inputs of a running agent that need no more detail here. -/
def Input.isPlain : Input → Bool
  | .start _ | .crash | .poll _ _ | .apply _ => false
  | _ => true

/-- What happens to a running agent. The times are those at which an outcome is recorded. -/
inductive Stimulus where
  | poll (answer : PollAnswer) (loads : Bool) (now : Int64)
  | apply (kernel : KernelApply) (now again : Int64)
  | other (input : Input) (plain : input.isPlain = true)

def Stimulus.input : Stimulus → Input
  | poll answer loads _ => .poll answer.response loads
  | apply kernel _ _ => .apply kernel.succeeds
  | other input _ => input

/-- An apply that was started, and whether the top-up started it. -/
structure Attempt where
  topUp : Bool
  outcome : Except ApplyError Unit

def Attempt.failed (attempt : Attempt) : Bool := !attempt.outcome.isOk

/-- The recorded outcome of an apply. -/
def applyCall (ok : Bool) (now : Int64) : Metrics.Call :=
  if ok then .applySuccess now else .applyFailure

namespace Edge

variable (printer : Printer) (base64 : Base64) (s : Edge)

def lockCalls (timeout : Bool) : List Metrics.Call :=
  match s.phase with
  | .acquiring (some _) => if timeout then [.confWriteConflict .lockTimeout] else []
  | _ => []

def mergeCalls : List Metrics.Call :=
  match s.phase with
  | .merging payload confText =>
    match mergeObfuscationParamsReporting base64 confText (payload.map (·.params)) s.defaults with
    | .error e => (extractRejectedField [e.text printer]).toList.map .paramRejected
    | .ok (_, dropped) => dropped.map fun field => .paramRejected field.name
  | _ => []

def restatCalls (ok : Bool) : List Metrics.Call :=
  match s.phase with
  | .written payload identity changed =>
    if payload.isNone && !changed then []
    else match s.confIfOk ok with
      | some file =>
        if file.identity = identity then [] else [.confWriteConflict .applySuperseded]
      | none => []
  | _ => []

/-- The top-up records what `apply_to_kernel` has already recorded. -/
def applyCalls (ok : Bool) (now again : Int64) : List Metrics.Call :=
  match s.phase with
  | .applying (some _) => [applyCall ok now]
  | .applying none => [applyCall ok now, applyCall ok again]
  | _ => []

def calls : Stimulus → List Metrics.Call
  | .poll answer _ now => if s.phase = .idle then answer.calls now else []
  | .apply kernel now again => s.applyCalls kernel.succeeds now again
  | .other (.lockFails timeout) _ => s.lockCalls timeout
  | .other .merge _ => s.mergeCalls printer base64
  | .other (.restat ok) _ => s.restatCalls ok
  | .other _ _ => []

def attempt : Stimulus → Option Attempt
  | .apply kernel _ _ =>
    match s.phase with
    | .applying payload => some ⟨payload.isNone, kernel.outcome⟩
    | _ => none
  | _ => none

end Edge

def Metrics.recordAll (m : Metrics) (calls : List Metrics.Call) : Metrics :=
  calls.foldl (fun m call => (m.record call).getD m) m

structure Agent where
  edge : Edge
  metrics : Metrics

namespace Agent

/-- A new process, with the counters from the file. -/
def start (s : Edge) (defaults : ClientDefaults) (file : Option Str) : Agent :=
  ⟨s.start defaults, .load file⟩

def step (printer : Printer) (base64 : Base64) (a : Agent) (e : Stimulus) : Agent :=
  ⟨a.edge.step base64 e.input, a.metrics.recordAll (a.edge.calls printer base64 e)⟩

end Agent

/-- A running agent, with the applies that it starts as outputs. -/
def agent (printer : Printer) (base64 : Base64) : Machine Agent Stimulus (Option Attempt) :=
  ⟨fun a e => (a.step printer base64 e, a.edge.attempt e)⟩

/-- The number of applies of a run with a property. -/
def countAttempts (p : Attempt → Bool) (outputs : List (Stimulus × Option Attempt)) : Nat :=
  outputs.countP (·.2.any p)

/-- The failed applies of a run. -/
def failures (outputs : List (Stimulus × Option Attempt)) : Nat :=
  countAttempts Attempt.failed outputs

/-- The failed applies of a run that the top-up started. -/
def topUpFailures (outputs : List (Stimulus × Option Attempt)) : Nat :=
  countAttempts (fun attempt => attempt.topUp && attempt.failed) outputs

/-! ## Counting -/

theorem applyFailures_record (m : Metrics) (call : Metrics.Call) :
    ((m.record call).getD m).applyFailures =
      m.applyFailures + if call = .applyFailure then 1 else 0 := by
  cases hrecord : m.record call with
  | none =>
    have hcall : call ≠ .applyFailure := by
      rintro rfl
      cases hrecord
    simp [hcall]
  | some m' =>
    have hvalue := Metrics.value_record hrecord .applyFailures
    cases call <;> simp_all [Metrics.Call.counter, Metrics.value]

theorem applyFailures_recordAll (m : Metrics) (calls : List Metrics.Call) :
    (m.recordAll calls).applyFailures = m.applyFailures + .ofNat (calls.count .applyFailure) := by
  induction calls generalizing m with
  | nil => simp [Metrics.recordAll]
  | cons call calls ih =>
    have hfirst := applyFailures_record m call
    rw [Metrics.recordAll, List.foldl_cons, ← Metrics.recordAll, ih, hfirst, List.count_cons]
    by_cases hcall : call = .applyFailure
    · simp [hcall, UInt64.add_assoc, UInt64.add_comm]
    · simp [hcall]

variable {printer : Printer} {base64 : Base64}

/-- A failed apply is recorded once, and once more for the top-up. -/
theorem count_applyFailure_calls (s : Edge) (e : Stimulus) :
    (s.calls printer base64 e).count .applyFailure =
      ((s.attempt e).any Attempt.failed).toNat +
        ((s.attempt e).any fun attempt => attempt.topUp && attempt.failed).toNat := by
  cases e with
  | poll answer loads now =>
    have hcalls : .applyFailure ∉ s.calls printer base64 (.poll answer loads now) := by
      cases answer <;> simp [Edge.calls, PollAnswer.calls]
    simp [List.count_eq_zero.mpr hcalls, Edge.attempt]
  | apply kernel now again =>
    cases hphase : s.phase with
    | applying payload =>
      cases payload <;> cases hok : kernel.outcome.isOk <;>
        simp [Edge.calls, Edge.applyCalls, Edge.attempt, hphase, applyCall, KernelApply.succeeds,
          hok, Attempt.failed]
    | _ => simp [Edge.calls, Edge.applyCalls, Edge.attempt, hphase]
  | other input plain =>
    have hcalls : .applyFailure ∉ s.calls printer base64 (.other input plain) := by
      cases input <;> simp only [Edge.calls, Edge.lockCalls, Edge.mergeCalls, Edge.restatCalls]
      all_goals grind
    simp [List.count_eq_zero.mpr hcalls, Edge.attempt]

theorem countAttempts_cons (p : Attempt → Bool) (a : Agent) (e : Stimulus) (es : List Stimulus) :
    countAttempts p ((agent printer base64).outputs a (e :: es)) =
      ((a.edge.attempt e).any p).toNat +
        countAttempts p ((agent printer base64).outputs (a.step printer base64 e) es) := by
  simp only [Machine.outputs, agent, countAttempts, List.countP_cons]
  cases (a.edge.attempt e).any p <;> simp [Nat.add_comm]

theorem applyFailures_run (a : Agent) (es : List Stimulus) :
    ((agent printer base64).run a es).metrics.applyFailures = a.metrics.applyFailures +
      .ofNat (failures ((agent printer base64).outputs a es) +
        topUpFailures ((agent printer base64).outputs a es)) := by
  induction es generalizing a with
  | nil => simp [Machine.outputs, failures, topUpFailures, countAttempts]
  | cons e es ih =>
    have hstep : (a.step printer base64 e).metrics.applyFailures = a.metrics.applyFailures +
        .ofNat ((a.edge.calls printer base64 e).count .applyFailure) :=
      applyFailures_recordAll _ _
    have hrun := ih (a.step printer base64 e)
    rw [hstep, count_applyFailure_calls, UInt64.add_assoc, ← UInt64.ofNat_add] at hrun
    refine hrun.trans (congrArg (a.metrics.applyFailures + .ofNat ·) ?_)
    simp only [failures, topUpFailures, countAttempts_cons]
    omega

/-- The agent works for the top-up. -/
def Phase.isTopUp : Phase → Bool
  | .acquiring payload | .reading payload | .merging payload _ | .writing payload _
  | .stating payload _ | .written payload _ _ | .applying payload => payload.isNone
  | .down | .idle | .saving _ => false

/-- A running agent comes to no further top-up, and to none after an apply. -/
theorem isTopUp_step {s : Edge} {e : Stimulus}
    (h : (s.step base64 e.input).phase.isTopUp = true) :
    s.phase.isTopUp = true ∧ s.attempt e = none := by
  cases e with
  | poll answer loads now =>
    refine ⟨?_, rfl⟩
    simp only [Stimulus.input, Edge.step, Edge.poll] at h
    grind [Phase.isTopUp]
  | apply kernel now again =>
    simp only [Stimulus.input, Edge.step, Edge.applyToKernel, Edge.endTick] at h
    cases hphase : s.phase with
    | applying payload => cases payload <;> grind [Phase.isTopUp]
    | _ => simp_all [Edge.attempt, Phase.isTopUp]
  | other input plain =>
    refine ⟨?_, rfl⟩
    cases input <;> simp only [Stimulus.input, Edge.step, Edge.acquireConfLock, Edge.lockFails,
      Edge.readConf, Edge.mergeConf, Edge.writeConfAtomic, Edge.confIdentity,
      Edge.confChangedSince, Edge.saveState, Edge.installerAcquire, Edge.installerRename,
      Edge.release, Edge.endTick, Edge.rewrite] at h <;> grind [Phase.isTopUp, Input.isPlain]

theorem isTopUp_of_attempt {s : Edge} {e : Stimulus} {attempt : Attempt}
    (h : s.attempt e = some attempt) : s.phase.isTopUp = attempt.topUp := by
  cases e with
  | apply kernel now again =>
    simp only [Edge.attempt] at h
    grind [Phase.isTopUp]
  | poll | other => contradiction

/-- The top-up applies at most once. -/
theorem topUpFailures_le (a : Agent) (es : List Stimulus) :
    topUpFailures ((agent printer base64).outputs a es) ≤ a.edge.phase.isTopUp.toNat := by
  induction es generalizing a with
  | nil => simp [Machine.outputs, topUpFailures, countAttempts]
  | cons e es ih =>
    have hrest : topUpFailures ((agent printer base64).outputs (a.step printer base64 e) es) ≤
        (a.edge.step base64 e.input).phase.isTopUp.toNat := ih _
    rw [topUpFailures, countAttempts_cons, ← topUpFailures]
    cases hnext : (a.edge.step base64 e.input).phase.isTopUp with
    | true =>
      obtain ⟨hphase, hattempt⟩ := isTopUp_step hnext
      simpa [hphase, hattempt, hnext] using hrest
    | false =>
      rw [hnext] at hrest
      cases hattempt : a.edge.attempt e with
      | none => simpa using hrest.trans (Nat.zero_le _)
      | some attempt =>
        have hfailed : (attempt.topUp && attempt.failed).toNat ≤ attempt.topUp.toNat := by
          cases attempt.topUp <;> simp [Bool.toNat_le]
        rw [isTopUp_of_attempt hattempt, Option.any_some]
        exact Nat.add_le_add hfailed hrest

/-- For any edge, defaults, counter file and stimuli: from the start of the agent on, the failure
counter increases by the number of failed applies exactly when no apply of the top-up failed and the
counter has room for them. -/
theorem applyFailures_increase_iff (printer : Printer) (base64 : Base64) (s : Edge)
    (defaults : ClientDefaults) (file : Option Str) (es : List Stimulus) :
    let a := Agent.start s defaults file
    let attempts := (agent printer base64).outputs a es
    (((agent printer base64).run a es).metrics.applyFailures.toNat : Int) -
        a.metrics.applyFailures.toNat = failures attempts ↔
      topUpFailures attempts = 0 ∧ a.metrics.applyFailures.toNat + failures attempts < 2 ^ 64 := by
  intro a attempts
  have hrun : ((agent printer base64).run a es).metrics.applyFailures =
      a.metrics.applyFailures + .ofNat (failures attempts + topUpFailures attempts) :=
    applyFailures_run a es
  have hone : topUpFailures attempts ≤ 1 := (topUpFailures_le a es).trans (Bool.toNat_le _)
  have hlt := a.metrics.applyFailures.toNat_lt
  rw [hrun, UInt64.toNat_add, UInt64.toNat_ofNat']
  omega

/-- The first `awg-quick strip` fails. -/
def stripFails : KernelApply := ⟨true, false, true, true, true, true, true⟩

/-- The top-up of an installed conf and its apply. -/
def topUpStimuli : List Stimulus :=
  [.other .acquire rfl, .other (.read true) rfl, .other .merge rfl, .other (.write true) rfl,
    .other (.stat true) rfl, .other (.restat true) rfl, .apply stripFails 0 0]

/-- One failed apply is counted twice. -/
theorem applyFailures_topUp_twice :
    let a := Agent.start (.init (some sampleConf) none sampleDefaults) sampleDefaults none
    a.metrics.applyFailures = 0 ∧
    failures ((agent Printer.plain .standard).outputs a topUpStimuli) = 1 ∧
    ((agent Printer.plain .standard).run a topUpStimuli).metrics.applyFailures = 2 := by
  decide +kernel

end PartnerEdge.Awg
