import PartnerEdge.Machine.Run
import PartnerEdge.Text.Scan

/-!
# The rate gate of bandwidth hints

Every web-socket session of a peer runs as a task of its own. A session that is parked reads hint
frames, and takes the time before it takes the lock of the table in which the last accepted hint of
each peer is kept. When it ends it removes the entry of its peer, also when another session of that
peer lives on. Hints of a peer with a session alive are as far apart as configured in every run in
which such an entry has run out for all those that could still ask for it.
-/

namespace PartnerEdge.Sfu

open Text

namespace HintGate

/-! ## Sessions and their table -/

def defaultMs : Nat := 100

/-- `SFU_BWE_HINT_MIN_INTERVAL_MS`, at least one millisecond. -/
def hintMinIntervalMs (env : Option Str) : Nat := max ((env.bind parseU64).getD defaultMs) 1

/-- The interval in nanoseconds, the unit of the clock. -/
def hintMinInterval (env : Option Str) : Nat := hintMinIntervalMs env * 1000000

/-- The fields of a `bwe-hint` frame that are looked for. -/
structure HintFrame where
  sender : Option Str
  ts : Option Int
  bps : Option Nat
deriving DecidableEq, Repr

def HintFrame.isComplete (frame : HintFrame) : Bool :=
  frame.sender.isSome && frame.ts.isSome && frame.bps.isSome

/-- Where the task of a session stands. -/
inductive Phase where
  /-- Before the answer is sent. -/
  | joining
  | parked
  /-- A hint has been read at a time, and the gate not yet asked. -/
  | holding (now : Nat)
  /-- Parking is over, and the entry not yet removed. -/
  | ended
  | gone
deriving DecidableEq, Repr

def Phase.reading? : Phase → Option Nat
  | .holding now => some now
  | _ => none

structure Session where
  peerId : Nat
  phase : Phase
deriving DecidableEq, Repr

structure State where
  clock : Nat
  /-- When the last hint of a peer was accepted. -/
  hintRateRegistry : Nat → Option Nat
  sessions : List Session

/-- What the task of a session does next. -/
inductive Action where
  | park
  /-- The session fails before it parks. -/
  | abandon
  | read (frame : HintFrame)
  | gate
  /-- The peer closes, a send fails, or a newer session takes the place of this one. -/
  | finish
  | scrub
deriving DecidableEq, Repr

inductive Step where
  | tick (elapsed : Nat)
  | join (peerId : Nat)
  | session (i : Nat) (action : Action)
deriving DecidableEq, Repr

/-- The peer and the time of a hint that was let through. -/
abbrev Accepted := Nat × Nat

namespace State

def init : State := ⟨0, fun _ => none, []⟩

variable (s : State) (interval : Nat)

def setPhase (i : Nat) (x : Session) (phase : Phase) : State :=
  { s with sessions := s.sessions.set i { x with phase := phase } }

/-- The check and the update under the lock. -/
def askGate (peerId now : Nat) : State × Option Accepted :=
  if (s.hintRateRegistry peerId).any fun last => now - last < interval then (s, none)
  else
    ({ s with hintRateRegistry := Function.update s.hintRateRegistry peerId (some now) },
      some (peerId, now))

def scrubHintRegistry (peerId : Nat) : State :=
  { s with hintRateRegistry := Function.update s.hintRateRegistry peerId none }

def act (i : Nat) (x : Session) : Action → Phase → State × Option Accepted
  | .park, .joining => (s.setPhase i x .parked, none)
  | .abandon, .joining => (s.setPhase i x .gone, none)
  | .read frame, .parked =>
    (if frame.isComplete then s.setPhase i x (.holding s.clock) else s, none)
  | .gate, .holding now => (s.setPhase i x .parked).askGate interval x.peerId now
  | .finish, .parked => (s.setPhase i x .ended, none)
  | .scrub, .ended => ((s.setPhase i x .gone).scrubHintRegistry x.peerId, none)
  | _, _ => (s, none)

def step : Step → State × Option Accepted
  | .tick elapsed => ({ s with clock := s.clock + elapsed }, none)
  | .join peerId => ({ s with sessions := s.sessions ++ [⟨peerId, .joining⟩] }, none)
  | .session i action =>
    match s.sessions[i]? with
    | some x => s.act interval i x action x.phase
    | none => (s, none)

end State

def hintGate (env : Option Str) : Machine State Step (Option Accepted) :=
  ⟨fun s => s.step (hintMinInterval env)⟩

/-! ## What a step does -/

/-- A session of the peer is under way. -/
def State.Live (s : State) (peerId : Nat) : Prop :=
  ∃ x ∈ s.sessions, x.peerId = peerId ∧ x.phase ≠ .gone

/-- No clock reading of the peer, taken or to come, is before a time. -/
structure State.ReadsFrom (s : State) (peerId time : Nat) : Prop where
  clock : time ≤ s.clock
  reading : ∀ x ∈ s.sessions, x.peerId = peerId → ∀ now ∈ x.phase.reading?, time ≤ now

/-- An entry is removed when no other session of the peer is under way, or when it has run out for
every reading of the peer. -/
def State.Harmless (interval : Nat) (s : State) : Step → Prop
  | .session i .scrub => ∀ x ∈ s.sessions[i]?, x.phase = .ended →
      (∀ y ∈ s.sessions.eraseIdx i, y.peerId = x.peerId → y.phase = .gone) ∨
      ∀ last ∈ s.hintRateRegistry x.peerId, s.ReadsFrom x.peerId (last + interval)
  | _ => True

namespace State

instance (s : State) (peerId : Nat) : Decidable (s.Live peerId) :=
  inferInstanceAs (Decidable (∃ x ∈ s.sessions, _))

instance (s : State) (peerId time : Nat) : Decidable (s.ReadsFrom peerId time) :=
  decidable_of_iff (time ≤ s.clock ∧
      ∀ x ∈ s.sessions, x.peerId = peerId → ∀ now ∈ x.phase.reading?, time ≤ now)
    ⟨fun h => ⟨h.1, h.2⟩, fun h => ⟨h.clock, h.reading⟩⟩

instance (interval : Nat) (s : State) : ∀ l, Decidable (s.Harmless interval l)
  | .session i .scrub => inferInstanceAs (Decidable (∀ x ∈ s.sessions[i]?, _))
  | .tick _ | .join _ => inferInstanceAs (Decidable True)
  | .session _ .park | .session _ .abandon | .session _ (.read _) | .session _ .gate
  | .session _ .finish => inferInstanceAs (Decidable True)

variable {s : State} {interval : Nat}

theorem ReadsFrom.setPhase {peerId time : Nat} (h : s.ReadsFrom peerId time) (i : Nat) (x : Session)
    {phase : Phase} (hphase : ∀ now ∈ phase.reading?, now = s.clock) :
    (s.setPhase i x phase).ReadsFrom peerId time := by
  refine ⟨h.clock, fun y hy hpeer now hnow => ?_⟩
  rcases List.mem_or_eq_of_mem_set hy with hy | rfl
  · exact h.reading y hy hpeer now hnow
  · exact hphase now hnow ▸ h.clock

/-- What a step can do to the table, while it keeps what is known of the readings. -/
inductive Moves (interval : Nat) (s next : State) : Step → Option Accepted → Prop where
  | idle (l : Step) (hregistry : next.hintRateRegistry = s.hintRateRegistry) :
      Moves interval s next l none
  | accept (l : Step) (x : Session) (now : Nat) (hx : x ∈ s.sessions)
      (hnow : x.phase = .holding now)
      (hgate : ∀ last ∈ s.hintRateRegistry x.peerId, interval ≤ now - last)
      (hregistry : next.hintRateRegistry =
        Function.update s.hintRateRegistry x.peerId (some now)) :
      Moves interval s next l (some (x.peerId, now))
  | scrub (i : Nat) (x : Session) (hx : s.sessions[i]? = some x) (hended : x.phase = .ended)
      (hregistry : next.hintRateRegistry = Function.update s.hintRateRegistry x.peerId none)
      (hsessions : next.sessions = s.sessions.set i { x with phase := .gone }) :
      Moves interval s next (.session i .scrub) none

theorem moves_act (i : Nat) {x : Session} (hx : s.sessions[i]? = some x) (action : Action) :
    Moves interval s (s.act interval i x action x.phase).1 (.session i action)
      (s.act interval i x action x.phase).2 := by
  generalize hphase : x.phase = phase
  fun_cases act s interval i x action phase with
  | case1 => exact .idle _ rfl
  | case2 => exact .idle _ rfl
  | case3 frame =>
    split <;> exact .idle _ rfl
  | case4 now =>
    rw [askGate]
    split
    · exact .idle _ rfl
    · next hgate =>
      refine .accept _ x now (List.mem_of_getElem? hx) hphase (fun last hlast => ?_) rfl
      simpa [setPhase, Option.mem_def.1 hlast] using hgate
  | case5 => exact .idle _ rfl
  | case6 => exact .scrub i x hx hphase rfl rfl
  | case7 => exact .idle _ rfl

theorem moves_step (l : Step) : Moves interval s (s.step interval l).1 l (s.step interval l).2 := by
  cases l with
  | tick elapsed => exact .idle _ rfl
  | join peerId => exact .idle _ rfl
  | session i action =>
    simp only [step]
    split
    · next x hx => exact moves_act i hx action
    · exact .idle _ rfl

theorem ReadsFrom.act {peerId time : Nat} (h : s.ReadsFrom peerId time) (i : Nat) (x : Session)
    (action : Action) (phase : Phase) :
    (s.act interval i x action phase).1.ReadsFrom peerId time := by
  fun_cases State.act s interval i x action phase with
  | case1 => exact h.setPhase i x nofun
  | case2 => exact h.setPhase i x nofun
  | case3 frame =>
    split
    · exact h.setPhase i x (by simp [Phase.reading?])
    · exact h
  | case4 now =>
    rw [askGate]
    have hparked : (s.setPhase i x .parked).ReadsFrom peerId time := h.setPhase i x nofun
    split
    · exact hparked
    · exact ⟨hparked.clock, hparked.reading⟩
  | case5 => exact h.setPhase i x nofun
  | case6 =>
    have hgone : (s.setPhase i x .gone).ReadsFrom peerId time := h.setPhase i x nofun
    exact ⟨hgone.clock, hgone.reading⟩
  | case7 => exact h

theorem ReadsFrom.step {peerId time : Nat} (h : s.ReadsFrom peerId time) (l : Step) :
    (s.step interval l).1.ReadsFrom peerId time := by
  cases l with
  | tick elapsed => exact ⟨h.clock.trans (Nat.le_add_right _ _), h.reading⟩
  | join peerId =>
    refine ⟨h.clock, fun x hx => ?_⟩
    rcases List.mem_append.1 hx with hx | hx
    · exact h.reading x hx
    · obtain rfl := List.mem_singleton.1 hx
      exact fun _ => nofun
  | session i action =>
    simp only [State.step]
    split
    · exact h.act i _ action _
    · exact h

/-! ## Hints of a peer with a session under way -/

/-- A hint accepted at a time still counts: the table has it or a later one, or it has run out. -/
def Remembers (interval peerId time : Nat) (s : State) : Prop :=
  (∃ last ∈ s.hintRateRegistry peerId, time ≤ last) ∨ s.ReadsFrom peerId (time + interval)

theorem not_live_of_scrub {next : State} {i : Nat} {x : Session}
    (hothers : ∀ y ∈ s.sessions.eraseIdx i, y.peerId = x.peerId → y.phase = .gone)
    (hsessions : next.sessions = s.sessions.set i { x with phase := .gone }) :
    ¬ next.Live x.peerId := by
  rintro ⟨y, hy, hpeer, hphase⟩
  rw [hsessions] at hy
  obtain ⟨j, hj⟩ := List.mem_iff_getElem?.1 hy
  by_cases hij : i = j
  · subst hij
    rw [List.getElem?_set_self'] at hj
    obtain ⟨_, -, rfl⟩ := Option.map_eq_some_iff.1 hj
    exact hphase rfl
  · rw [List.getElem?_set_ne hij] at hj
    exact hphase (hothers y (List.mem_eraseIdx_iff_getElem?.2 ⟨j, Ne.symm hij, hj⟩) hpeer)

theorem ReadsFrom.mono {peerId time time' : Nat} (h : s.ReadsFrom peerId time')
    (hle : time ≤ time') : s.ReadsFrom peerId time :=
  ⟨hle.trans h.clock, fun x hx hpeer now hnow => hle.trans (h.reading x hx hpeer now hnow)⟩

theorem Remembers.of_moves (hinterval : 0 < interval) {peerId time : Nat} {next : State} {l : Step}
    {output : Option Accepted} (h : s.Remembers interval peerId time)
    (hmoves : Moves interval s next l output)
    (hreads : ∀ time, s.ReadsFrom peerId time → next.ReadsFrom peerId time)
    (hharmless : s.Harmless interval l) (hlive : next.Live peerId) :
    next.Remembers interval peerId time := by
  rcases h with ⟨last, hlast, hle⟩ | hpast
  swap
  · exact .inr (hreads _ hpast)
  cases hmoves with
  | idle _ hregistry => exact .inl ⟨last, hregistry ▸ hlast, hle⟩
  | accept _ x now hx hnow hgate hregistry =>
    by_cases hpeer : x.peerId = peerId
    · subst hpeer
      have hgap := hgate last hlast
      exact .inl ⟨now, by simp [hregistry], by omega⟩
    · refine .inl ⟨last, ?_, hle⟩
      rwa [hregistry, Function.update_of_ne (Ne.symm hpeer)]
  | scrub i x hx hended hregistry hsessions =>
    by_cases hpeer : x.peerId = peerId
    · subst hpeer
      rcases hharmless x hx hended with hothers | hpast
      · exact absurd hlive (not_live_of_scrub hothers hsessions)
      · exact .inr (hreads _ ((hpast last hlast).mono (Nat.add_le_add_right hle interval)))
    · refine .inl ⟨last, ?_, hle⟩
      rwa [hregistry, Function.update_of_ne (Ne.symm hpeer)]

/-- A hint that is accepted is remembered, and comes an interval after one that was. -/
theorem Moves.accepted (hinterval : 0 < interval) {next : State} {l : Step} {peerId now : Nat}
    (h : Moves interval s next l (some (peerId, now))) :
    next.Remembers interval peerId now ∧
      ∀ time, s.Remembers interval peerId time → time + interval ≤ now := by
  cases h with
  | accept _ x _ hx hnow hgate hregistry =>
    refine ⟨.inl ⟨now, by simp [hregistry], le_rfl⟩, ?_⟩
    rintro time (⟨last, hlast, hle⟩ | hpast)
    · have hgap := hgate last hlast
      omega
    · exact hpast.reading x hx rfl now (by simp [hnow, Phase.reading?])

end State

theorem hintMinInterval_pos (env : Option Str) : 0 < hintMinInterval env := by
  simp [hintMinInterval, hintMinIntervalMs]

section Runs

variable {env : Option Str} {s : State} {peerId time : Nat}

theorem accepted_step {l : Step} (h : ((hintGate env).step s l).2 = some (peerId, time)) :
    ((hintGate env).step s l).1.Remembers (hintMinInterval env) peerId time ∧
      ∀ earlier, s.Remembers (hintMinInterval env) peerId earlier →
        earlier + hintMinInterval env ≤ time := by
  have hmoves : State.Moves (hintMinInterval env) s ((hintGate env).step s l).1 l
      ((hintGate env).step s l).2 := State.moves_step l
  rw [h] at hmoves
  exact hmoves.accepted (hintMinInterval_pos env)

theorem remembers_run (h : s.Remembers (hintMinInterval env) peerId time) {ls : List Step}
    (hallowed : (hintGate env).Allowed (State.Harmless (hintMinInterval env)) s ls)
    (hlive : ∀ done, done <+: ls → ((hintGate env).run s done).Live peerId) :
    ((hintGate env).run s ls).Remembers (hintMinInterval env) peerId time := by
  induction ls generalizing s with
  | nil => exact h
  | cons l ls ih =>
    refine ih (h.of_moves (hintMinInterval_pos env) (State.moves_step l)
      (fun _ hreads => hreads.step l) hallowed.1 (hlive [l] (by simp))) hallowed.2 ?_
    exact fun done hdone => hlive (l :: done) (by simpa using hdone)

end Runs

/-- Two accepted hints of a peer, with a session of the peer under way from the first to the second,
are at least the configured interval apart in every run without a harmful removal. -/
theorem hints_spaced (env : Option Str) (before middle : List Step) (first second : Step)
    (peerId time time' : Nat)
    (hallowed : (hintGate env).Allowed (State.Harmless (hintMinInterval env)) .init
      (before ++ first :: middle ++ [second]))
    (hfirst : ((hintGate env).step ((hintGate env).run .init before) first).2 =
      some (peerId, time))
    (hlive : ∀ done, done <+: middle →
      ((hintGate env).run .init (before ++ first :: done)).Live peerId)
    (hsecond :
      ((hintGate env).step ((hintGate env).run .init (before ++ first :: middle)) second).2 =
        some (peerId, time')) :
    time + hintMinInterval env ≤ time' := by
  simp only [Machine.run_append, Machine.run_cons] at hlive hsecond
  have hmiddle := (Machine.allowed_append.1 (Machine.allowed_append.1 hallowed).1).2.2
  exact (accepted_step hsecond).2 time (remembers_run (accepted_step hfirst).1 hmiddle hlive)

/-- A session of the peer reads a complete hint and asks the gate. -/
def hint (i : Nat) : List Step :=
  [.session i (.read ⟨some [], some 0, some 0⟩), .session i .gate]

/-- Two sessions of peer 7 park. -/
def twoTabs : List Step :=
  [.join 7, .session 0 .park, .join 7, .session 1 .park]

/-- The second session ends, and its entry is removed an interval after the hint of the first. -/
theorem hints_spaced_twoTabs :
    let run := twoTabs ++ hint 0 ++
      [.session 1 .finish, .tick 100000000, .session 1 .scrub] ++ hint 0
    ((hintGate none).outputs .init run).filterMap (·.2) = [(7, 0), (7, 100000000)] ∧
      0 + hintMinInterval none ≤ 100000000 := by
  refine ⟨by decide +kernel, hints_spaced none
    (twoTabs ++ [.session 0 (.read ⟨some [], some 0, some 0⟩)])
    [.session 1 .finish, .tick 100000000, .session 1 .scrub,
      .session 0 (.read ⟨some [], some 0, some 0⟩)]
    (.session 0 .gate) (.session 0 .gate) 7 0 100000000 (by decide +kernel) (by decide +kernel) ?_
    (by decide +kernel)⟩
  intro done hdone
  rw [← List.mem_inits] at hdone
  revert done
  decide +kernel

/-- The second session ends at once, and the first has two hints accepted within a millisecond. -/
theorem hints_unspaced :
    let run := twoTabs ++ hint 0 ++
      [.session 1 .finish, .session 1 .scrub, .tick 1000000] ++ hint 0
    (((hintGate none).outputs .init run).filterMap (·.2) = [(7, 0), (7, 1000000)] ∧
      ∀ done, done <+: run → 1 ≤ done.length → ((hintGate none).run .init done).Live 7) ∧
    1000000 < hintMinInterval none := by
  refine ⟨⟨by decide +kernel, fun done hdone => ?_⟩, by decide⟩
  rw [← List.mem_inits] at hdone
  revert done
  decide +kernel

end HintGate

end PartnerEdge.Sfu
