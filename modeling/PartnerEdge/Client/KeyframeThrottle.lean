import PartnerEdge.Client.Fanout

/-!
# Keyframe requests to publishers

A publisher is asked for a keyframe from two sides: by its own client when its media is not
contiguous, and for the subscribers, whose decoders, layer switches and subscriptions all end in one
handler. Both sides look at one time stamp of the track, but they set it at different moments: the
first with the request, the second also where str0m has no writer for the track. Times are in
milliseconds, and a call takes no time.
-/

namespace PartnerEdge.Client

open Svc

inductive KeyframeRequestKind where
  | pli
  | fir
deriving DecidableEq, Repr

structure TrackInEntry where
  id : TrackIn
  lastKeyframeRequest : Option Nat
deriving DecidableEq, Repr

/-- A `request_keyframe` call on str0m's writer. -/
structure WriterCall where
  client : ClientId
  mid : Mid
  rid : Option Rid
  kind : KeyframeRequestKind
  time : Nat
deriving DecidableEq, Repr

def keyframeRequestMinGap : Nat := 1000

namespace TrackInEntry

def isThrottled (now : Nat) (entry : TrackInEntry) : Bool :=
  entry.lastKeyframeRequest.any fun last => now - last < keyframeRequestMinGap

/-- Stamps the first entry of the m-line. -/
def stamp (now : Nat) (mid : Mid) : List TrackInEntry → List TrackInEntry
  | [] => []
  | entry :: entries =>
    if entry.id.mid = mid then { entry with lastKeyframeRequest := some now } :: entries
    else entry :: stamp now mid entries

end TrackInEntry

open TrackInEntry

section Publisher

variable (client : ClientId) (writer : Mid → Bool) (now : Nat) (tracksIn : List TrackInEntry)

def requestKeyframeThrottled (mid : Mid) (rid : Option Rid) (kind : KeyframeRequestKind) :
    List TrackInEntry × Option WriterCall :=
  if writer mid then
    match tracksIn.find? (·.id.mid = mid) with
    | none => (tracksIn, none)
    | some entry =>
      if entry.isThrottled now then (tracksIn, none)
      else (stamp now mid tracksIn, some ⟨client, mid, rid, kind, now⟩)
  else (tracksIn, none)

/-- The stamp is set before the writer is looked up. -/
def handleKeyframeRequest (rid : Option Rid) (kind : KeyframeRequestKind) (midIn : Mid) :
    List TrackInEntry × Option WriterCall :=
  match tracksIn.find? (·.id.mid = midIn) with
  | none => (tracksIn, none)
  | some entry =>
    if entry.isThrottled now then (tracksIn, none)
    else (stamp now midIn tracksIn,
      if writer midIn then some ⟨client, midIn, rid, kind, now⟩ else none)

def trackInAdded (mid : Mid) (kind : MediaKind) (externalPeerId : Option Nat) :
    List TrackInEntry × Option WriterCall :=
  (tracksIn ++ [⟨⟨client, mid, kind, externalPeerId⟩, none⟩], none)

def trackInMedia (mid : Mid) (rid : Option Rid) (contiguous : Bool) :
    List TrackInEntry × Option WriterCall :=
  if contiguous then (tracksIn, none)
  else requestKeyframeThrottled client writer now tracksIn mid rid .fir

end Publisher

/-! ## All publishers -/

inductive KeyframeEvent where
  | mediaAdded (client : ClientId) (mid : Mid) (kind : MediaKind) (externalPeerId : Option Nat)
  | media (client : ClientId) (mid : Mid) (rid : Option Rid) (contiguous : Bool)
  /-- A propagated request of a subscriber, as the fan-out takes it. -/
  | request (subscriber : ClientId) (rid : Option Rid) (kind : KeyframeRequestKind)
      (source : ClientId) (midIn : Mid)
deriving DecidableEq, Repr

/-- An event, the time since the one before, and the m-lines that str0m has a writer for. -/
structure KeyframeInput where
  elapsed : Nat
  writer : Mid → Bool
  event : KeyframeEvent

/-- The entries of each client. The field `calls` records what was asked of str0m and is never
read. -/
structure Publishers where
  clock : Nat
  tracksIn : ClientId → List TrackInEntry
  calls : List WriterCall

namespace Publishers

def init : Publishers := ⟨0, fun _ => [], []⟩

/-- One client's entries change, and str0m may be called. -/
def put (s : Publishers) (client : ClientId) (result : List TrackInEntry × Option WriterCall) :
    Publishers :=
  { s with
    tracksIn := Function.update s.tracksIn client result.1
    calls := s.calls ++ result.2.toList }

def handle (s : Publishers) (writer : Mid → Bool) : KeyframeEvent → Publishers
  | .mediaAdded client mid kind externalPeerId =>
    s.put client (trackInAdded client (s.tracksIn client) mid kind externalPeerId)
  | .media client mid rid contiguous =>
    s.put client (trackInMedia client writer s.clock (s.tracksIn client) mid rid contiguous)
  | .request subscriber rid kind source midIn =>
    -- The fan-out skips the originator of an event.
    if source = subscriber then s
    else s.put source
      (handleKeyframeRequest source writer s.clock (s.tracksIn source) rid kind midIn)

def step (s : Publishers) (i : KeyframeInput) : Publishers :=
  { s with clock := s.clock + i.elapsed }.handle i.writer i.event

end Publishers

def keyframeRequests : Machine Publishers KeyframeInput Unit := ⟨fun s i => (s.step i, ())⟩

/-! ## One stamp for both sides -/

section Stamp

variable {client : ClientId} {writer : Mid → Bool} {now : Nat} {tracksIn : List TrackInEntry}

/-- The stamp of an m-line: the one of its first entry. -/
def stampOf (tracksIn : List TrackInEntry) (mid : Mid) : Option Nat :=
  (tracksIn.find? (·.id.mid = mid)).bind (·.lastKeyframeRequest)

theorem stampOf_stamp (mid mid' : Mid) : stampOf (stamp now mid tracksIn) mid' =
    if mid' = mid ∧ (tracksIn.find? (·.id.mid = mid)).isSome then some now
    else stampOf tracksIn mid' := by
  induction tracksIn with
  | nil => simp [stamp, stampOf]
  | cons entry entries ih =>
    simp only [stampOf] at ih
    by_cases hfirst : entry.id.mid = mid
    · by_cases hmid : mid' = mid <;> simp_all [stamp, stampOf, List.find?_cons]
      grind
    · by_cases hother : entry.id.mid = mid'
      · have hne : mid' ≠ mid := hother ▸ hfirst
        simp [stamp, stampOf, hother, hne]
      · simp [stamp, stampOf, hfirst, hother, ih]

/-- What a handler may do: it sets stamps to the present, and calls str0m only for a line whose
stamp it has set and was old enough. -/
structure Asks (client : ClientId) (now : Nat) (before : List TrackInEntry)
    (result : List TrackInEntry × Option WriterCall) : Prop where
  stamps : ∀ mid, stampOf result.1 mid = stampOf before mid ∨ stampOf result.1 mid = some now
  called : ∀ call ∈ result.2, call.client = client ∧ call.time = now ∧
    stampOf result.1 call.mid = some now ∧
      ∀ last ∈ stampOf before call.mid, last + keyframeRequestMinGap ≤ now

theorem Asks.silent : Asks client now tracksIn (tracksIn, none) :=
  ⟨fun _ => .inl rfl, by simp⟩

/-- Both sides stamp an entry that they find and that is not throttled. -/
theorem Asks.stamp {mid : Mid} {entry : TrackInEntry}
    (hfind : tracksIn.find? (·.id.mid = mid) = some entry) (hopen : ¬entry.isThrottled now = true)
    {call : Option WriterCall}
    (hcall : ∀ c ∈ call, c.client = client ∧ c.mid = mid ∧ c.time = now) :
    Asks client now tracksIn (TrackInEntry.stamp now mid tracksIn, call) := by
  refine ⟨fun mid' => ?_, fun c hc => ?_⟩
  · rw [stampOf_stamp]
    split
    · exact .inr rfl
    · exact .inl rfl
  · obtain ⟨hclient, hmid, htime⟩ := hcall c hc
    refine ⟨hclient, htime, ?_, fun last hlast => ?_⟩
    · rw [stampOf_stamp, if_pos ⟨hmid, by simp [hfind]⟩]
    · have hstamp : entry.lastKeyframeRequest = some last := by
        simpa [stampOf, hmid, hfind] using hlast
      have hgap : ¬now - last < keyframeRequestMinGap :=
        fun hlt => hopen (by simp [isThrottled, hstamp, hlt])
      unfold keyframeRequestMinGap at hgap ⊢
      omega

variable (client writer now tracksIn)

theorem asks_requestKeyframeThrottled (mid : Mid) (rid : Option Rid)
    (kind : KeyframeRequestKind) : Asks client now tracksIn
      (requestKeyframeThrottled client writer now tracksIn mid rid kind) := by
  unfold requestKeyframeThrottled
  split
  · split
    · exact .silent
    · next entry hfind =>
      split
      · exact .silent
      · next hopen => exact .stamp hfind hopen (by simp)
  · exact .silent

theorem asks_handleKeyframeRequest (rid : Option Rid) (kind : KeyframeRequestKind) (midIn : Mid) :
    Asks client now tracksIn
      (handleKeyframeRequest client writer now tracksIn rid kind midIn) := by
  unfold handleKeyframeRequest
  split
  · exact .silent
  · next entry hfind =>
    split
    · exact .silent
    · next hopen =>
      refine .stamp hfind hopen fun c hc => ?_
      split at hc
      · obtain rfl := Option.some.inj hc
        exact ⟨rfl, rfl, rfl⟩
      · cases hc

/-- A new entry has no stamp, and comes after the others. -/
theorem asks_trackInAdded (mid : Mid) (kind : MediaKind) (externalPeerId : Option Nat) :
    Asks client now tracksIn (trackInAdded client tracksIn mid kind externalPeerId) := by
  refine ⟨fun mid' => .inl ?_, by simp [trackInAdded]⟩
  simp only [trackInAdded, stampOf, List.find?_append]
  cases tracksIn.find? (·.id.mid = mid') with
  | some entry => rfl
  | none =>
    by_cases hmid : mid = mid' <;> simp [hmid]

theorem asks_trackInMedia (mid : Mid) (rid : Option Rid) (contiguous : Bool) :
    Asks client now tracksIn (trackInMedia client writer now tracksIn mid rid contiguous) := by
  unfold trackInMedia
  split
  · exact .silent
  · exact asks_requestKeyframeThrottled client writer now tracksIn mid rid .fir

end Stamp

/-! ## Every run -/

/-- Calls on one line are a gap apart, and the stamp of a line is not older than its last call. -/
structure Publishers.Spaced (s : Publishers) : Prop where
  past : ∀ call ∈ s.calls, call.time ≤ s.clock
  stamped : ∀ call ∈ s.calls, ∃ last ∈ stampOf (s.tracksIn call.client) call.mid, call.time ≤ last
  spaced : s.calls.Pairwise fun a b =>
    a.client = b.client → a.mid = b.mid → a.time + keyframeRequestMinGap ≤ b.time

namespace Publishers

variable {s : Publishers}

theorem Spaced.init : init.Spaced := ⟨by simp [Publishers.init], by simp [Publishers.init], .nil⟩

theorem Spaced.advance (h : s.Spaced) (elapsed : Nat) :
    { s with clock := s.clock + elapsed }.Spaced :=
  ⟨fun call hcall => (h.past call hcall).trans (Nat.le_add_right _ _), h.stamped, h.spaced⟩

theorem Spaced.put (h : s.Spaced) {client : ClientId}
    {result : List TrackInEntry × Option WriterCall}
    (hasks : Asks client s.clock (s.tracksIn client) result) : (s.put client result).Spaced where
  past := by
    intro call hcall
    rcases List.mem_append.mp hcall with hcall | hcall
    · exact h.past call hcall
    · exact (hasks.called call (by simpa using hcall)).2.1.le
  stamped := by
    intro call hcall
    rcases List.mem_append.mp hcall with hcall | hcall
    · obtain ⟨last, hlast, hle⟩ := h.stamped call hcall
      by_cases hclient : call.client = client
      · simp only [Publishers.put, hclient, Function.update_self]
        rcases hasks.stamps call.mid with hsame | hnow
        · exact ⟨last, hsame ▸ hclient ▸ hlast, hle⟩
        · exact ⟨s.clock, hnow, h.past call hcall⟩
      · simp only [Publishers.put, Function.update_of_ne hclient]
        exact ⟨last, hlast, hle⟩
    · obtain ⟨hclient, htime, hstamp, -⟩ := hasks.called call (by simpa using hcall)
      refine ⟨s.clock, ?_, htime.le⟩
      simp only [Publishers.put, hclient, Function.update_self]
      exact hstamp
  spaced := by
    refine List.pairwise_append.mpr ⟨h.spaced, ?_, ?_⟩
    · cases result.2 <;> simp
    · intro a ha b hb hclient hmid
      obtain ⟨hb₁, hb₂, -, hold⟩ := hasks.called b (by simpa using hb)
      obtain ⟨last, hlast, hle⟩ := h.stamped a ha
      rw [hclient, hb₁, hmid] at hlast
      have := hold last hlast
      omega

theorem Spaced.step (h : s.Spaced) (i : KeyframeInput) : (s.step i).Spaced := by
  have hnow := h.advance i.elapsed
  unfold Publishers.step
  cases i.event with
  | mediaAdded client mid kind externalPeerId => exact hnow.put (asks_trackInAdded ..)
  | media client mid rid contiguous => exact hnow.put (asks_trackInMedia ..)
  | request subscriber rid kind source midIn =>
    simp only [Publishers.handle]
    split
    · exact hnow
    · exact hnow.put (asks_handleKeyframeRequest ..)

end Publishers

/-- In every run, whoever asks and in whatever order, the requests on an incoming track reach str0m
at least a second apart. -/
theorem keyframeRequests_spaced (inputs : List KeyframeInput) (client : ClientId) (mid : Mid) :
    ((keyframeRequests.run .init inputs).calls.filter fun call =>
      call.client = client ∧ call.mid = mid).Pairwise fun a b => a.time + 1000 ≤ b.time := by
  have hspaced : (keyframeRequests.run .init inputs).Spaced :=
    Machine.run_of_step (M := keyframeRequests) (fun _ i h => h.step i) .init inputs
  refine (hspaced.spaced.filter _).imp_of_mem fun {a b} ha hb hgap => ?_
  obtain ⟨-, ha⟩ := List.mem_filter.mp ha
  obtain ⟨-, hb⟩ := List.mem_filter.mp hb
  obtain ⟨ha₁, ha₂⟩ := of_decide_eq_true ha
  obtain ⟨hb₁, hb₂⟩ := of_decide_eq_true hb
  exact hgap (ha₁.trans hb₁.symm) (ha₂.trans hb₂.symm)

example : (keyframeRequests.run .init [⟨0, fun _ => true, .mediaAdded 1 "0" .video none⟩,
    ⟨5, fun _ => true, .media 1 "0" none false⟩,
    ⟨999, fun _ => true, .request 2 none .pli 1 "0"⟩,
    ⟨1, fun _ => true, .request 3 none .pli 1 "0"⟩]).calls.map WriterCall.time =
      [5, 1005] := by
  decide

end PartnerEdge.Client
