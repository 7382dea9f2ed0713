import PartnerEdge.Machine.Run
import PartnerEdge.Sfu.RoomAuth

/-!
# The admission cap

The upgrade handler compares the gauge of active sessions with the cap. The gauge is raised later,
by the task that runs the session once the upgrade is through. A run here interleaves upgrade
requests with starts and ends of sessions, so other requests may read the gauge in between.

Sessions that are admitted and have not started yet are missing from the gauge. The cap holds
whatever the order of their starts, exactly in the runs in which every admitted request found room
for them as well.
-/

namespace PartnerEdge.Sfu

open Text

/-- A session from its admission on. -/
inductive SessionPhase where
  /-- The response is sent; the session task has not begun. -/
  | admitted (roomId : Str) (peerId : Nat)
  /-- The task holds its `ActiveSessionGuard`. -/
  | running (roomId : Str) (peerId : Nat)
  | ended
deriving DecidableEq, Repr

def SessionPhase.isAdmitted : SessionPhase → Bool
  | .admitted _ _ => true
  | _ => false

def SessionPhase.isRunning : SessionPhase → Bool
  | .running _ _ => true
  | _ => false

structure Gate where
  /-- The gauge `client_ws_active_sessions`. -/
  activeSessions : Int
  sessions : List SessionPhase
deriving DecidableEq, Repr

inductive GateStep where
  | upgrade (roomId : Str) (subprotocols : Option Str) (now : Nat)
  /-- The session task begins. -/
  | start (i : Nat)
  /-- The session task returns or panics and drops its guard. -/
  | finish (i : Nat)
  /-- The connection is lost before the session task begins. -/
  | abandon (i : Nat)
deriving DecidableEq, Repr

namespace Gate

def init : Gate := ⟨0, []⟩

variable (jwt : Jwt) (cfg : AuthConfig) (maxParticipants : Nat)

/-- The answer to an upgrade request at the present gauge. -/
def respond (s : Gate) (roomId : Str) (subprotocols : Option Str) (now : Nat) : UpgradeResponse :=
  clientWsUpgrade jwt cfg ⟨roomId, subprotocols, now, s.activeSessions, maxParticipants⟩

def step (s : Gate) : GateStep → Gate
  | .upgrade roomId subprotocols now =>
    match s.respond jwt cfg maxParticipants roomId subprotocols now with
    | .session roomId peerId => { s with sessions := s.sessions ++ [.admitted roomId peerId] }
    | .unauthorized | .roomMismatch | .serviceUnavailable => s
  | .start i =>
    match s.sessions[i]? with
    | some (.admitted roomId peerId) =>
      ⟨s.activeSessions + 1, s.sessions.set i (.running roomId peerId)⟩
    | _ => s
  | .finish i =>
    match s.sessions[i]? with
    | some (.running _ _) => ⟨s.activeSessions - 1, s.sessions.set i .ended⟩
    | _ => s
  | .abandon i =>
    match s.sessions[i]? with
    | some (.admitted _ _) => { s with sessions := s.sessions.set i .ended }
    | _ => s

def pending (s : Gate) : Nat := s.sessions.countP SessionPhase.isAdmitted

def running (s : Gate) : Nat := s.sessions.countP SessionPhase.isRunning

/-- A request that is admitted finds room for all sessions admitted before it, started or not. -/
def FindsRoom (s : Gate) : GateStep → Prop
  | .upgrade roomId subprotocols now =>
    ∀ room peerId,
      s.respond jwt cfg maxParticipants roomId subprotocols now = .session room peerId →
      s.pending + s.running < maxParticipants
  | _ => True

end Gate

def gate (jwt : Jwt) (cfg : AuthConfig) (maxParticipants : Nat) : Machine Gate GateStep Unit :=
  ⟨fun s l => (s.step jwt cfg maxParticipants l, ())⟩

namespace Gate

variable {jwt : Jwt} {cfg : AuthConfig} {maxParticipants : Nat} {s : Gate}

/-- The gauge counts the running sessions. -/
def Counted (s : Gate) : Prop := s.activeSessions = s.running

section Counts

variable (gauge : Int) {i peerId : Nat} {room : Str}

theorem counts_admission :
    (Gate.mk gauge (s.sessions ++ [.admitted room peerId])).pending = s.pending + 1 ∧
      (Gate.mk gauge (s.sessions ++ [.admitted room peerId])).running = s.running := by
  simp [pending, running, List.countP_append, List.countP_singleton, SessionPhase.isAdmitted,
    SessionPhase.isRunning]

theorem counts_start (h : s.sessions[i]? = some (.admitted room peerId)) :
    (Gate.mk gauge (s.sessions.set i (.running room peerId))).pending + 1 = s.pending ∧
      (Gate.mk gauge (s.sessions.set i (.running room peerId))).running = s.running + 1 :=
  ⟨countP_set_add (p := SessionPhase.isAdmitted) h (.running room peerId),
    countP_set_add (p := SessionPhase.isRunning) h (.running room peerId)⟩

theorem counts_finish (h : s.sessions[i]? = some (.running room peerId)) :
    (Gate.mk gauge (s.sessions.set i .ended)).pending = s.pending ∧
      (Gate.mk gauge (s.sessions.set i .ended)).running + 1 = s.running :=
  ⟨countP_set_add (p := SessionPhase.isAdmitted) h .ended,
    countP_set_add (p := SessionPhase.isRunning) h .ended⟩

theorem counts_abandon (h : s.sessions[i]? = some (.admitted room peerId)) :
    (Gate.mk gauge (s.sessions.set i .ended)).pending + 1 = s.pending ∧
      (Gate.mk gauge (s.sessions.set i .ended)).running = s.running :=
  ⟨countP_set_add (p := SessionPhase.isAdmitted) h .ended,
    countP_set_add (p := SessionPhase.isRunning) h .ended⟩

end Counts

/-- What a step does: nothing, or an admission, a start, an end or a loss. -/
theorem step_cases (l : GateStep) :
    s.step jwt cfg maxParticipants l = s ∨
    (∃ roomId subprotocols now room peerId, l = .upgrade roomId subprotocols now ∧
      s.respond jwt cfg maxParticipants roomId subprotocols now = .session room peerId ∧
      s.step jwt cfg maxParticipants l =
        ⟨s.activeSessions, s.sessions ++ [.admitted room peerId]⟩) ∨
    (∃ i room peerId, s.sessions[i]? = some (.admitted room peerId) ∧
      s.step jwt cfg maxParticipants l =
        ⟨s.activeSessions + 1, s.sessions.set i (.running room peerId)⟩) ∨
    (∃ i room peerId, s.sessions[i]? = some (.running room peerId) ∧
      s.step jwt cfg maxParticipants l = ⟨s.activeSessions - 1, s.sessions.set i .ended⟩) ∨
    (∃ i room peerId, s.sessions[i]? = some (.admitted room peerId) ∧
      s.step jwt cfg maxParticipants l = ⟨s.activeSessions, s.sessions.set i .ended⟩) := by
  cases l <;> grind [step]

theorem Counted.step (h : s.Counted) (l : GateStep) :
    (s.step jwt cfg maxParticipants l).Counted := by
  unfold Counted at *
  rcases s.step_cases l with heq | ⟨_, _, _, room, peerId, _, _, heq⟩ | ⟨i, room, peerId, hi, heq⟩ |
    ⟨i, room, peerId, hi, heq⟩ | ⟨i, room, peerId, hi, heq⟩
  · rw [heq, h]
  · rw [heq, (counts_admission _).2, h]
  · rw [heq, (counts_start _ hi).2, h]
    simp
  · have hrunning := (counts_finish (s.activeSessions - 1) hi).2
    rw [heq]
    simp only
    omega
  · rw [heq, (counts_abandon _ hi).2, h]

theorem counted_run (steps : List GateStep) :
    ((gate jwt cfg maxParticipants).run .init steps).Counted :=
  Machine.run_of_step (I := Counted) (fun _ l h => h.step l) (s := .init) rfl steps

/-- Only an admission adds to the sessions that run or are about to. -/
theorem pending_add_running_step {l : GateStep} (hfinds : s.FindsRoom jwt cfg maxParticipants l)
    (h : s.pending + s.running ≤ maxParticipants) :
    (s.step jwt cfg maxParticipants l).pending + (s.step jwt cfg maxParticipants l).running ≤
      maxParticipants := by
  rcases s.step_cases l with heq | ⟨_, _, _, room, peerId, rfl, hrespond, heq⟩ |
    ⟨i, room, peerId, hi, heq⟩ | ⟨i, room, peerId, hi, heq⟩ | ⟨i, room, peerId, hi, heq⟩
  · rw [heq]
    exact h
  · have hroom := hfinds room peerId hrespond
    rw [heq, (counts_admission _).1, (counts_admission _).2]
    omega
  · have hcounts := counts_start (s.activeSessions + 1) hi
    rw [heq]
    omega
  · have hcounts := counts_finish (s.activeSessions - 1) hi
    rw [heq]
    omega
  · have hcounts := counts_abandon s.activeSessions hi
    rw [heq]
    omega

/-- The admitted sessions can all be started, and then the gauge shows them too. -/
theorem exists_starts (jwt : Jwt) (cfg : AuthConfig) (maxParticipants : Nat) (h : s.Counted) :
    ∃ starts : List Nat, ((gate jwt cfg maxParticipants).run s
      (starts.map GateStep.start)).activeSessions = s.pending + s.running := by
  induction hn : s.pending generalizing s with
  | zero => exact ⟨[], by simpa [Counted] using h⟩
  | succ n ih =>
    obtain ⟨phase, hmem, hadmitted⟩ := List.countP_pos_iff.1 (show 0 < s.pending by omega)
    obtain ⟨i, hi⟩ := List.mem_iff_getElem?.1 hmem
    cases phase with
    | admitted room peerId =>
      have hstep : s.step jwt cfg maxParticipants (.start i) =
          ⟨s.activeSessions + 1, s.sessions.set i (.running room peerId)⟩ := by
        simp only [step, hi]
      obtain ⟨hpending, hrunning⟩ := counts_start (s.activeSessions + 1) hi
      obtain ⟨starts, hstarts⟩ := ih (h.step (.start i)) (by rw [hstep]; omega)
      refine ⟨i :: starts, hstarts.trans ?_⟩
      rw [hstep, hrunning]
      push_cast
      ring
    | running => cases hadmitted
    | ended => cases hadmitted

/-- If the gauge stays within the cap after a step however the admitted sessions start, the step
found room. -/
theorem findsRoom_of_starts (h : s.Counted) (l : GateStep)
    (hcap : ∀ starts : List Nat, ((gate jwt cfg maxParticipants).run
      (s.step jwt cfg maxParticipants l) (starts.map GateStep.start)).activeSessions ≤
        maxParticipants) :
    s.FindsRoom jwt cfg maxParticipants l := by
  cases l with
  | upgrade roomId subprotocols now =>
    intro room peerId hrespond
    obtain ⟨starts, hstarts⟩ := exists_starts jwt cfg maxParticipants
      (h.step (.upgrade roomId subprotocols now))
    have hstep : s.step jwt cfg maxParticipants (.upgrade roomId subprotocols now) =
        ⟨s.activeSessions, s.sessions ++ [.admitted room peerId]⟩ := by
      simp only [step, hrespond]
    have hle := hcap starts
    rw [hstarts, hstep, (counts_admission _).1, (counts_admission _).2] at hle
    omega
  | start i => trivial
  | finish i => trivial
  | abandon i => trivial

theorem allowed_starts (starts : List Nat) (s : Gate) :
    (gate jwt cfg maxParticipants).Allowed (FindsRoom jwt cfg maxParticipants) s
      (starts.map GateStep.start) := by
  induction starts generalizing s with
  | nil => trivial
  | cons i starts ih => exact ⟨trivial, ih _⟩

/-- The gauge stays within the cap along a run, whatever the order in which admitted sessions start,
if and only if every request that is admitted finds room for the ones admitted before it. -/
theorem activeSessions_le_iff (jwt : Jwt) (cfg : AuthConfig) (maxParticipants : Nat)
    (steps : List GateStep) :
    (∀ (before : List GateStep) (starts : List Nat), before <+: steps →
      ((gate jwt cfg maxParticipants).run .init
        (before ++ starts.map GateStep.start)).activeSessions ≤ maxParticipants) ↔
      (gate jwt cfg maxParticipants).Allowed (FindsRoom jwt cfg maxParticipants) .init steps := by
  constructor
  · intro hcap
    refine Machine.allowed_of_forall fun before l hl => ?_
    refine findsRoom_of_starts (counted_run before) l fun starts => ?_
    have hle := hcap (before ++ [l]) starts hl
    rw [Machine.run_append, Machine.run_append] at hle
    exact hle
  · rintro hallowed before starts ⟨after, rfl⟩
    have hstarts : (gate jwt cfg maxParticipants).Allowed (FindsRoom jwt cfg maxParticipants)
        .init (before ++ starts.map GateStep.start) :=
      Machine.allowed_append.2 ⟨(Machine.allowed_append.1 hallowed).1, allowed_starts starts _⟩
    have hroom := Machine.run_of_allowed (I := fun s => s.pending + s.running ≤ maxParticipants)
      (fun _ _ h hl => pending_add_running_step hl h) (Nat.zero_le _) hstarts
    rw [counted_run]
    exact_mod_cast (Nat.le_add_left _ _).trans hroom

end Gate

/-! ### Two requests at once -/

/-- A jsonwebtoken that takes every token for one of peer 1 in room `r`. -/
def lenientJwt : Jwt where
  edPemParses _ := false
  decode _ _ _ _ := .ok ⟨1, "r".toList, 0, 0⟩

def hs256Auth : AuthConfig := ⟨[1], none, true, ⟨[], [], false⟩⟩

/-- Two upgrades are handled before the first session starts. -/
def twoUpgrades : List GateStep :=
  [.upgrade "r".toList (some "bearer.t".toList) 0, .upgrade "r".toList (some "bearer.t".toList) 0,
    .start 0, .start 1]

/-- With a cap of one, two sessions run. -/
theorem twoUpgrades_exceed_cap :
    ((gate lenientJwt hs256Auth 1).run .init twoUpgrades).activeSessions = 2 := by
  decide +kernel

end PartnerEdge.Sfu
