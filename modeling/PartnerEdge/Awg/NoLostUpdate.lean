import PartnerEdge.Awg.Agent

/-!
# No lost update and no false epoch

What the installer wrote into the conf survives every merge, and the saved epoch follows from a
merge of that epoch that no other writer has overtaken. Both rest on one invariant: it says for each
phase of the agent what the lock, the conf and the record of the tick look like, under all steps
that the installers can take meanwhile.
-/

namespace PartnerEdge.Awg

open Text

/-- The installer's part of a conf: headers and all lines that are of no key of the table. -/
def ownPart (text : Str) : List Str := (lines text).filter (!isKeyLine ·)

theorem ownPart_merge {base64 : Base64} {conf out : Str} {params : Option AwgParams}
    {defaults : ClientDefaults} {dropped : List Field}
    (h : mergeObfuscationParamsReporting base64 conf params defaults = .ok (out, dropped)) :
    ownPart out = ownPart conf := by
  obtain ⟨_, r, _, _, _, hsound, hsplice, -⟩ := merge_ok h
  exact hsound.filter_splice hsplice

namespace Edge

variable {base64 : Base64} {s : Edge}

/-- The payload is an epoch that has not been applied. -/
def Newer (s : Edge) (payload : Option Response) : Prop := ∀ r ∈ payload, s.lastEpoch < r.epoch

/-- The tick has merged its payload into `confText` under the lock. -/
def Merged (base64 : Base64) (s : Edge) (payload : Option Response) (newConf : Str)
    (trace : List Event) : Prop :=
  ∃ confText rest dropped, trace = .merged (some .agent) payload confText newConf :: rest ∧
    mergeObfuscationParamsReporting base64 confText (payload.map (·.params)) s.defaults =
      .ok (newConf, dropped)

/-- After that it has found the conf as it left it. -/
def Unchanged (base64 : Base64) (s : Edge) (payload : Option Response) (trace : List Event) :
    Prop :=
  ∃ file rest, trace = .unchanged file :: .stated file.identity :: rest ∧
    s.Merged base64 payload file.text rest

/-- After that the kernel has taken it. -/
def Applied (base64 : Base64) (s : Edge) (response : Response) : Prop :=
  ∃ rest, s.trace = .applied :: rest ∧ s.Unchanged base64 (some response) rest

/-- What holds in the phase of the agent. -/
def PhaseOk (base64 : Base64) (s : Edge) : Prop :=
  match s.phase with
  | .down | .idle => True
  | .acquiring payload => s.Newer payload
  | .reading payload => s.lock = some .agent ∧ s.Newer payload
  | .merging payload confText =>
    s.lock = some .agent ∧ s.Newer payload ∧ ∃ file ∈ s.conf, file.text = confText
  | .writing payload newConf =>
    s.lock = some .agent ∧ s.Newer payload ∧ s.Merged base64 payload newConf s.trace ∧
      ∃ file ∈ s.conf, ownPart newConf = ownPart file.text
  | .stating payload _ =>
    s.lock = some .agent ∧ s.Newer payload ∧
      ∃ file ∈ s.conf, s.Merged base64 payload file.text s.trace
  | .written payload identity _ =>
    s.Newer payload ∧ identity < s.rewrites ∧ ∃ newConf rest, s.trace = .stated identity :: rest ∧
      s.Merged base64 payload newConf rest ∧
      ∀ file ∈ s.conf, file.identity = identity → file.text = newConf
  | .applying payload => s.Newer payload ∧ s.Unchanged base64 payload s.trace
  | .saving response => s.lastEpoch < response.epoch ∧ s.Applied base64 response

structure Coherent (base64 : Base64) (s : Edge) : Prop where
  owned : s.conf.map (ownPart ·.text) = s.installed.map ownPart
  fresh : ∀ file ∈ s.conf, file.identity < s.rewrites
  phase : s.PhaseOk base64

theorem mem_of_confIfOk {ok : Bool} {file : ConfFile} (h : s.confIfOk ok = some file) :
    file ∈ s.conf := by
  unfold confIfOk at h
  split at h
  · exact h
  · cases h

/-- A rewrite gets an identity of its own. -/
theorem fresh_rewrite (text : Str) : ∀ file ∈ (s.rewrite text).conf,
    file.identity < (s.rewrite text).rewrites := by
  rintro file hfile
  obtain rfl := Option.some.inj hfile
  exact Nat.lt_succ_self _

/-- While the agent does not hold the lock, it depends on the conf only by the identity that it has
seen, so another writer may do as it likes. -/
theorem PhaseOk.frame (h : s.PhaseOk base64) (hlock : s.lock ≠ some .agent)
    {conf : Option ConfFile} {rewrites : Nat} (hrewrites : s.rewrites ≤ rewrites)
    (hconf : ∀ file ∈ conf, file ∈ s.conf ∨ s.rewrites ≤ file.identity) (lock : Option Holder)
    (installed : Option Str) : { s with conf, rewrites, lock, installed }.PhaseOk base64 := by
  unfold PhaseOk at h ⊢
  cases hphase : s.phase <;> simp only [hphase] at h
  case down | idle => trivial
  case acquiring | applying | saving => exact h
  case reading | merging | writing | stating => exact absurd h.1 hlock
  case written payload identity changed =>
    obtain ⟨hnewer, hidentity, newConf, rest, htrace, hmerged, hsame⟩ := h
    refine ⟨hnewer, hidentity.trans_le hrewrites, newConf, rest, htrace, hmerged, ?_⟩
    intro file hfile heq
    rcases hconf file hfile with hold | hnew
    · exact hsame file hold heq
    · omega

section Steps

variable (h : s.Coherent base64)
include h

theorem Coherent.endTick (why : Ended) : (s.endTick why).Coherent base64 :=
  ⟨h.owned, h.fresh, trivial⟩

theorem Coherent.start (defaults : ClientDefaults) : (s.start defaults).Coherent base64 := by
  unfold Edge.start
  split
  · exact ⟨h.owned, h.fresh, by simp [PhaseOk, Newer]⟩
  · exact h

theorem Coherent.poll (response : Option Response) (loads : Bool) :
    (s.poll response loads).Coherent base64 := by
  unfold Edge.poll
  split
  · split
    · next hnewer =>
      refine ⟨h.owned, h.fresh, fun r hr => ?_⟩
      obtain rfl := Option.some.inj hr
      exact of_decide_eq_true (Bool.and_eq_true_iff.mp hnewer).2
    · exact h
  · exact h

theorem Coherent.acquireConfLock : s.acquireConfLock.Coherent base64 := by
  unfold Edge.acquireConfLock
  split
  · next payload hphase _ =>
    have hok := h.phase
    simp only [PhaseOk, hphase] at hok
    exact ⟨h.owned, h.fresh, rfl, hok⟩
  · exact h

theorem Coherent.lockFails (timeout : Bool) : (s.lockFails timeout).Coherent base64 := by
  unfold Edge.lockFails
  split
  · exact h.endTick _
  · exact h

theorem Coherent.readConf (ok : Bool) : (s.readConf ok).Coherent base64 := by
  unfold Edge.readConf
  split
  · next payload hphase =>
    have hok := h.phase
    simp only [PhaseOk, hphase] at hok
    split
    · next file hfile =>
      exact ⟨h.owned, h.fresh, hok.1, hok.2, file, mem_of_confIfOk hfile, rfl⟩
    · exact h.endTick _
  · exact h

theorem Coherent.mergeConf : (s.mergeConf base64).Coherent base64 := by
  unfold Edge.mergeConf
  split
  · next payload confText hphase =>
    have hok := h.phase
    simp only [PhaseOk, hphase] at hok
    obtain ⟨hlock, hnewer, file, hfile, rfl⟩ := hok
    split
    · exact h.endTick _
    · next newConf dropped hmerge =>
      have hmerged : s.Merged base64 payload newConf
          (.merged s.lock payload file.text newConf :: s.trace) :=
        ⟨file.text, s.trace, dropped, by rw [hlock], hmerge⟩
      refine ⟨h.owned, h.fresh, ?_⟩
      unfold PhaseOk
      by_cases heq : newConf = file.text
      · simp only [if_pos heq]
        exact ⟨hlock, hnewer, file, hfile, heq ▸ hmerged⟩
      · simp only [if_neg heq]
        exact ⟨hlock, hnewer, hmerged, file, hfile, ownPart_merge hmerge⟩
  · exact h

theorem Coherent.writeConfAtomic (ok : Bool) : (s.writeConfAtomic ok).Coherent base64 := by
  unfold Edge.writeConfAtomic
  split
  · next payload newConf hphase =>
    have hok := h.phase
    simp only [PhaseOk, hphase] at hok
    obtain ⟨hlock, hnewer, hmerged, file, hfile, hpart⟩ := hok
    split
    · have howned := h.owned
      rw [Option.mem_def.mp hfile] at howned
      exact ⟨(congrArg some hpart).trans howned, fresh_rewrite newConf, hlock, hnewer, _, rfl,
        hmerged⟩
    · exact h.endTick _
  · exact h

theorem Coherent.confIdentity (ok : Bool) : (s.confIdentity ok).Coherent base64 := by
  unfold Edge.confIdentity
  split
  · next payload changed hphase =>
    have hok := h.phase
    simp only [PhaseOk, hphase] at hok
    obtain ⟨-, hnewer, file, hfile, hmerged⟩ := hok
    split
    · next file' hfile' =>
      obtain rfl : file = file' := Option.mem_unique hfile (mem_of_confIfOk hfile')
      refine ⟨h.owned, h.fresh, hnewer, h.fresh file hfile, file.text, s.trace, rfl, hmerged, ?_⟩
      intro file' hfile' _
      rw [Option.mem_unique hfile' hfile]
    · exact h.endTick _
  · exact h

theorem Coherent.confChangedSince (ok : Bool) : (s.confChangedSince ok).Coherent base64 := by
  unfold Edge.confChangedSince
  split
  · next payload identity changed hphase =>
    have hok := h.phase
    simp only [PhaseOk, hphase] at hok
    obtain ⟨hnewer, -, newConf, rest, htrace, hmerged, hsame⟩ := hok
    split
    · exact ⟨h.owned, h.fresh, trivial⟩
    split
    · next file hfile =>
      split
      · next heq =>
        subst heq
        have htext := hsame file (mem_of_confIfOk hfile) rfl
        refine ⟨h.owned, h.fresh, hnewer, file, rest, ?_, htext ▸ hmerged⟩
        rw [record, htrace]
      · exact h.endTick _
    · exact h.endTick _
  · exact h

theorem Coherent.applyToKernel (ok : Bool) : (s.applyToKernel ok).Coherent base64 := by
  unfold Edge.applyToKernel
  split
  · next response hphase =>
    have hok := h.phase
    simp only [PhaseOk, hphase] at hok
    split
    · exact ⟨h.owned, h.fresh, hok.1 response rfl, s.trace, rfl, hok.2⟩
    · exact h.endTick _
  · split
    · exact ⟨h.owned, h.fresh, trivial⟩
    · exact h.endTick _
  · exact h

theorem Coherent.saveState (ok : Bool) : (s.saveState ok).Coherent base64 := by
  unfold Edge.saveState
  split
  · split
    · exact ⟨h.owned, h.fresh, trivial⟩
    · exact h.endTick _
  · exact h

theorem Coherent.crash : s.crash.Coherent base64 :=
  ⟨h.owned, h.fresh, trivial⟩

theorem Coherent.installerAcquire (pid : Nat) : (s.installerAcquire pid).Coherent base64 := by
  unfold Edge.installerAcquire
  split
  · next hfree =>
    exact ⟨h.owned, h.fresh,
      h.phase.frame (by simp [hfree]) le_rfl (fun file hfile => .inl hfile) _ _⟩
  · exact h

theorem Coherent.installerRename (pid : Nat) (text : Str) :
    (s.installerRename pid text).Coherent base64 := by
  unfold Edge.installerRename
  split
  · next hheld =>
    refine ⟨rfl, fresh_rewrite text, h.phase.frame (by simp [hheld]) (Nat.le_succ _) ?_ _ _⟩
    intro file hfile
    obtain rfl := Option.some.inj hfile
    exact .inr le_rfl
  · exact h

theorem Coherent.installerRelease (pid : Nat) : (s.release (.installer pid)).Coherent base64 := by
  unfold Edge.release
  split
  · next hheld =>
    exact ⟨h.owned, h.fresh,
      h.phase.frame (by simp [hheld]) le_rfl (fun file hfile => .inl hfile) _ _⟩
  · exact h

theorem Coherent.step (i : Input) : (s.step base64 i).Coherent base64 := by
  cases i with
  | start defaults => exact h.start defaults
  | crash => exact h.crash
  | poll response loads => exact h.poll response loads
  | acquire => exact h.acquireConfLock
  | lockFails timeout => exact h.lockFails timeout
  | read ok => exact h.readConf ok
  | merge => exact h.mergeConf
  | write ok => exact h.writeConfAtomic ok
  | stat ok => exact h.confIdentity ok
  | restat ok => exact h.confChangedSince ok
  | apply ok => exact h.applyToKernel ok
  | save ok => exact h.saveState ok
  | installerAcquire pid => exact h.installerAcquire pid
  | installerRename pid text => exact h.installerRename pid text
  | installerRelease pid => exact h.installerRelease pid

end Steps

theorem coherent_init (conf : Option Str) (lastAppliedEpoch : Option Int64)
    (defaults : ClientDefaults) : (init conf lastAppliedEpoch defaults).Coherent base64 := by
  refine ⟨?_, ?_, trivial⟩
  · simp [init, Option.map_map, Function.comp_def]
  · simp only [init, Option.mem_map]
    rintro file ⟨text, -, rfl⟩
    exact Nat.one_pos

theorem coherent_run (base64 : Base64) (conf : Option Str) (lastAppliedEpoch : Option Int64)
    (defaults : ClientDefaults) (is : List Input) :
    ((edge base64).run (.init conf lastAppliedEpoch defaults) is).Coherent base64 :=
  Machine.run_of_step (I := Coherent base64) (fun _ i h => h.step i) (coherent_init _ _ _) is

/-- Only a successful save touches the epoch. -/
theorem step_lastAppliedEpoch (base64 : Base64) (s : Edge) (i : Input) :
    (s.step base64 i).lastAppliedEpoch = s.lastAppliedEpoch ∨
      ∃ response, s.phase = .saving response ∧
        (s.step base64 i).lastAppliedEpoch = some response.epoch ∧
          (s.step base64 i).trace = s.trace := by
  cases i with
  | save ok =>
    simp only [Edge.step, Edge.saveState]
    split
    · next response hphase =>
      cases ok with
      | true => exact .inr ⟨response, hphase, rfl, rfl⟩
      | false => exact .inl rfl
    · exact .inl rfl
  | start | crash | poll | acquire | lockFails | read | merge | write | stat | restat | apply
  | installerAcquire | installerRename | installerRelease =>
    left
    simp only [Edge.step, Edge.start, Edge.crash, Edge.poll, Edge.acquireConfLock, Edge.lockFails,
      Edge.readConf, Edge.mergeConf, Edge.writeConfAtomic, Edge.confIdentity, Edge.confChangedSince,
      Edge.applyToKernel, Edge.installerAcquire, Edge.installerRename]
    repeat' first | rfl | split

/-- In every run the conf keeps the installer's part of the latest rewrite by an installer. No step
lowers the saved epoch, a tick that ends early leaves it alone, and it becomes an epoch only when
that epoch's payload was merged under the lock, the conf was then found unchanged, with the merged
text, and the kernel took it. -/
theorem noLostUpdate_noFalseEpoch (base64 : Base64) (conf : Option Str)
    (lastAppliedEpoch : Option Int64) (defaults : ClientDefaults) (is : List Input) :
    let s := (edge base64).run (.init conf lastAppliedEpoch defaults) is
    s.conf.map (ownPart ·.text) = s.installed.map ownPart ∧
      ∀ i, s.lastEpoch ≤ (s.step base64 i).lastEpoch ∧
        (∀ why, (s.step base64 i).trace = .ended why :: s.trace →
          (s.step base64 i).lastAppliedEpoch = s.lastAppliedEpoch) ∧
        ((s.step base64 i).lastAppliedEpoch ≠ s.lastAppliedEpoch →
          ∃ response, (s.step base64 i).lastAppliedEpoch = some response.epoch ∧
            s.Applied base64 response) := by
  intro s
  have hcoherent : s.Coherent base64 := coherent_run base64 conf lastAppliedEpoch defaults is
  refine ⟨hcoherent.owned, fun i => ?_⟩
  obtain hsame | ⟨response, hphase, hepoch, htrace⟩ := step_lastAppliedEpoch base64 s i
  · exact ⟨by simp [lastEpoch, hsame], fun _ _ => hsame, fun hne => absurd hsame hne⟩
  · have hok := hcoherent.phase
    simp only [PhaseOk, hphase] at hok
    refine ⟨?_, fun why hended => ?_, fun _ => ⟨response, hepoch, hok.2⟩⟩
    · unfold lastEpoch
      rw [hepoch]
      exact Int64.le_of_lt hok.1
    · rw [htrace] at hended
      exact absurd hended (List.cons_ne_self _ _).symm

/-- A tick for epoch 7, while an installer holds the lock after the agent and writes nothing. -/
def sampleRun : List Input := [.start sampleDefaults, .lockFails true,
  .poll (some ⟨7, samplePayload⟩) true, .acquire, .read true, .merge, .write true, .stat true,
  .installerAcquire 0, .restat true, .apply true]

theorem noLostUpdate_noFalseEpoch_sampleRun :
    let s := (edge .standard).run (.init (some sampleConf) (some 3) sampleDefaults) sampleRun
    (s.step .standard (.save true)).lastAppliedEpoch = some 7 ∧
      ∃ response, response.epoch = 7 ∧ s.Applied .standard response := by
  intro s
  have hbefore : s.lastAppliedEpoch = some 3 := by decide +kernel
  have hafter : (s.step .standard (.save true)).lastAppliedEpoch = some 7 := by decide +kernel
  have hrun :=
    noLostUpdate_noFalseEpoch .standard (some sampleConf) (some 3) sampleDefaults sampleRun
  obtain ⟨response, hepoch, happlied⟩ := (hrun.2 (.save true)).2.2 <| by
    rw [hafter, hbefore]
    decide
  exact ⟨hafter, response, Option.some.inj (hepoch.symm.trans hafter), happlied⟩

end Edge

end PartnerEdge.Awg
