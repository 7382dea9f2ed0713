import PartnerEdge.Sfu.Confinement
import PartnerEdge.Sfu.Ledger
import PartnerEdge.Sfu.Pacer

/-!
# The solo kick

A client that has been alone for too long is disconnected. The registry measures this with one
instant, which four operations start, clear and restart, and a session steal replaces the lone
client in the middle of an insert. The instant is tied here to the history of the registry: as long
as it is set, the same client has been the only one registered since then.
-/

namespace PartnerEdge.Sfu

open Svc PartnerEdge.Client Text

/-- From a snapshot at or before `t` on, the client was the only one after every operation. -/
def AloneSince (id : ClientId) (t : Nat) : List Snapshot → Prop
  | [] => False
  | snapshot :: older =>
    snapshot.members = [id] ∧ (snapshot.time ≤ t ∨ AloneSince id t older)

theorem AloneSince.mono {id : ClientId} {t t' : Nat} {history : List Snapshot} (ht : t ≤ t')
    (h : AloneSince id t history) : AloneSince id t' history := by
  induction history with
  | nil => exact h
  | cons snapshot older ih =>
    obtain ⟨hmembers, htime | holder⟩ := h
    · exact ⟨hmembers, .inl (htime.trans ht)⟩
    · exact ⟨hmembers, .inr (ih holder)⟩

namespace Registry

theorem ids_eq_members (r : Registry) : r.ids = r.members.map (·.id) := by
  rw [ids, members, List.map_map]
  rfl

theorem length_clients (r : Registry) : r.clients.length = r.ids.length :=
  (List.length_map _).symm

/-- After an operation at `now` the clock is off, or it shows a single client and has just been
started or gone on for the same client. -/
structure KeepsClock (now : Nat) (r r' : Registry) : Prop where
  single : ∀ since, r'.soloSince = some since → ∃ id, r'.ids = [id]
  since : ∀ since, r'.soloSince = some since →
    since = now ∨ r.soloSince = some since ∧ r'.ids = r.ids

theorem KeepsClock.of_eq {r r' : Registry} {now : Nat}
    (hone : ∀ since, r.soloSince = some since → ∃ id, r.ids = [id])
    (hsince : r'.soloSince = r.soloSince) (hids : r'.ids = r.ids) : r.KeepsClock now r' where
  single since h := hids ▸ hone since (hsince ▸ h)
  since _ h := .inr ⟨hsince ▸ h, hids⟩

theorem exists_id_of_length {r : Registry} (h : r.clients.length = 1) : ∃ id, r.ids = [id] :=
  List.length_eq_one_iff.1 (r.length_clients ▸ h)

theorem KeepsClock.insert (r : Registry) (world : World) (now : Nat) (client : Client) :
    r.KeepsClock now (r.insert world now client) := by
  have hclock : ∀ since, (r.insert world now client).soloSince = some since →
      (r.insert world now client).clients.length = 1 ∧ since = now := by
    intro since h
    simp only [Registry.insert] at h ⊢
    split at h
    · next hlength => exact ⟨hlength, (Option.some.inj h).symm⟩
    · cases h
  exact ⟨fun since h => exists_id_of_length (hclock since h).1,
    fun since h => .inl (hclock since h).2⟩

theorem KeepsClock.reapDead {r : Registry}
    (hone : ∀ since, r.soloSince = some since → ∃ id, r.ids = [id]) (now : Nat) :
    r.KeepsClock now (r.reapDead now) := by
  have hclock : ∀ since, (r.reapDead now).soloSince = some since →
      (r.reapDead now).clients.length = 1 ∧ r.soloSince.or (some now) = some since := by
    intro since h
    simp only [Registry.reapDead] at h ⊢
    split at h
    · cases h
    · next hlength => exact ⟨hlength, h⟩
    · cases h
  refine ⟨fun since h => exists_id_of_length (hclock since h).1, fun since h => ?_⟩
  obtain ⟨hlength, hor⟩ := hclock since h
  cases hsince : r.soloSince with
  | none =>
    rw [hsince] at hor
    exact .inl (Option.some.inj hor).symm
  | some since' =>
    rw [hsince] at hor
    obtain rfl := Option.some.inj hor
    -- The lone client is not the one that was reaped.
    refine .inr ⟨rfl, ?_⟩
    obtain ⟨id, hid⟩ := hone _ hsince
    have hsub : (r.reapDead now).ids.Sublist r.ids := by
      rw [ids_eq_members, ids_eq_members, members_reapDead]
      exact List.filter_sublist.map _
    refine hsub.eq_of_length ?_
    rw [← length_clients, hlength, hid]
    rfl

theorem checkSoloTimeout_ids (r : Registry) (timeout now : Nat) :
    (r.checkSoloTimeout timeout now).ids = r.ids := by
  rw [ids_eq_members, ids_eq_members]
  obtain heq | heq := r.members_checkSoloTimeout timeout now
  · rw [heq]
  · rw [heq, List.map_map]
    rfl

theorem KeepsClock.checkSoloTimeout {r : Registry}
    (hone : ∀ since, r.soloSince = some since → ∃ id, r.ids = [id]) (timeout now : Nat) :
    r.KeepsClock now (r.checkSoloTimeout timeout now) := by
  have hids := r.checkSoloTimeout_ids timeout now
  have hsince : ∀ since, (r.checkSoloTimeout timeout now).soloSince = some since →
      r.soloSince = some since := by
    intro since h
    unfold Registry.checkSoloTimeout at h
    grind
  exact ⟨fun since h => hids ▸ hone since (hsince since h),
    fun since h => .inr ⟨hsince since h, hids⟩⟩

/-- A kick needs a running clock of at least the timeout. -/
theorem checkSoloTimeout_kicks {r : Registry} {timeout now : Nat} {c : Client} (hc : c ∈ r.clients)
    (halive : c.alive = true)
    (hdead : ∀ c' ∈ (r.checkSoloTimeout timeout now).clients, c'.id = c.id → c'.alive = false) :
    r.ids = [c.id] ∧ ∃ since, r.soloSince = some since ∧ timeout ≤ now - since := by
  unfold checkSoloTimeout at hdead
  split at hdead
  · next c₀ since hclients hsince =>
    obtain rfl : c = c₀ := by simpa [hclients] using hc
    refine ⟨by simp [ids, hclients], since, hsince, ?_⟩
    split at hdead
    · next hshort =>
      rw [hdead c hc rfl] at halive
      cases halive
    · next hlong => exact Nat.le_of_not_lt hlong
  · rw [hdead c hc rfl] at halive
    cases halive

end Registry

namespace Ledger

variable {world : World} {s : Ledger}

/-- The clock of the registry against its history. -/
def SoloClock (s : Ledger) : Prop :=
  ∀ since, s.registry.soloSince = some since →
    since ≤ s.clock ∧ ∃ id, s.registry.ids = [id] ∧ AloneSince id since s.history

theorem keepsClock_apply (world : World) (now : Nat) (operation : Operation)
    (hone : ∀ since, s.registry.soloSince = some since → ∃ id, s.registry.ids = [id]) :
    s.registry.KeepsClock now (s.apply world now operation).registry := by
  have hmap : ∀ {f : Client → Client}, (∀ c, (f c).id = c.id) →
      ∀ {r : Registry}, r.clients = s.registry.clients.map f → r.ids = s.registry.ids := by
    intro f hf r hr
    simp only [Registry.ids, hr, List.map_map]
    exact List.map_congr_left fun c _ => hf c
  cases operation with
  | insert client => exact .insert _ _ _ _
  | channelOpen id channel =>
    refine .of_eq hone ?_ ?_ <;>
    · simp only [apply, channelOpen]
      grind
  | disconnect id =>
    refine .of_eq hone rfl (hmap (fun c => ?_) rfl)
    split <;> rfl
  | reapDead => exact .reapDead hone now
  | checkSoloTimeout timeout => exact .checkSoloTimeout hone timeout now
  | markRelaySource id upstreamUrl =>
    simp only [apply, markRelaySource]
    split
    · refine .of_eq hone rfl (hmap (fun c => ?_) rfl)
      split <;> rfl
    · exact .of_eq hone rfl rfl

theorem SoloClock.step (h : s.SoloClock) (t : Timed) : (s.step world t).SoloClock := by
  have hkeeps := keepsClock_apply world (s.clock + t.after) t.operation
    fun since hsince => (h since hsince).2.imp fun _ => And.left
  intro since hsince
  obtain ⟨id, hid⟩ := hkeeps.single since hsince
  have hlatest := (Registry.ids_eq_members _).symm.trans hid
  obtain rfl | ⟨hbefore, hids⟩ := hkeeps.since since hsince
  · exact ⟨Nat.le_refl _, id, hid, hlatest, .inl (Nat.le_refl _)⟩
  · obtain ⟨hclock, id', hid', halone⟩ := h since hbefore
    obtain rfl : id = id' := by simpa [hid, hid'] using hids
    exact ⟨Nat.le_add_right_of_le hclock, id, hid, hlatest, .inr halone⟩

theorem soloClock_init : init.SoloClock := by
  intro since hsince
  cases hsince

theorem soloClock_run (world : World) (ops : List Timed) :
    ((ledger world).run .init ops).SoloClock :=
  Machine.run_of_step (I := SoloClock) (fun _ t h => h.step t) soloClock_init ops

/-- In every run the clock is on only when exactly one client is registered, and a client that the
solo check disconnects has been the only one for at least the timeout. -/
theorem soloKick_alone (world : World) (ops : List Timed) :
    let s := (ledger world).run .init ops
    (s.registry.soloSince.isSome = true → s.registry.clients.length = 1) ∧
      ∀ after timeout, ∀ c ∈ s.registry.clients, c.alive = true →
        (∀ c' ∈ (s.step world ⟨after, .checkSoloTimeout timeout⟩).registry.clients,
          c'.id = c.id → c'.alive = false) →
        timeout ≤ s.clock + after ∧
          AloneSince c.id (s.clock + after - timeout) s.history := by
  intro s
  have hclock : s.SoloClock := soloClock_run world ops
  refine ⟨fun hsome => ?_, fun after timeout c hc halive hdead => ?_⟩
  · obtain ⟨since, hsince⟩ := Option.isSome_iff_exists.1 hsome
    obtain ⟨-, id, hid, -⟩ := hclock since hsince
    rw [Registry.length_clients, hid]
    rfl
  · obtain ⟨hids, since, hsince, htimeout⟩ := Registry.checkSoloTimeout_kicks hc halive hdead
    obtain ⟨hle, id, hid, halone⟩ := hclock since hsince
    obtain rfl : c.id = id := by simpa [hids] using hid
    simp only at htimeout
    exact ⟨by omega, halone.mono (by omega)⟩

/-- A browser that joins an empty registry at 1 and is still alone at 2. -/
def loneBrowser : List Timed :=
  [⟨1, .insert (.newBrowser pacedConfig 0 1)⟩, ⟨1, .reapDead⟩]

/-- At 7 it has been alone for 5. -/
theorem soloKick_alone_loneBrowser :
    AloneSince 0 2 ((ledger (pacedWorld none .noChange)).run .init loneBrowser).history := by
  have hbefore : ∃ c, ((ledger (pacedWorld none .noChange)).run .init
      loneBrowser).registry.clients = [c] ∧ c.id = 0 ∧ c.alive = true ∧
        (((ledger (pacedWorld none .noChange)).run .init loneBrowser).step
          (pacedWorld none .noChange) ⟨5, .checkSoloTimeout 5⟩).registry.clients = [c.disconnect] :=
    ⟨_, rfl, rfl, rfl, rfl⟩
  obtain ⟨c, hclients, hid, halive, hkicked⟩ := hbefore
  have hkick := (soloKick_alone (pacedWorld none .noChange) loneBrowser).2 5 5 c
    (by rw [hclients]; exact List.mem_singleton_self c) halive
    (by rw [hkicked]; exact fun c' hc' _ => List.mem_singleton.1 hc' ▸ rfl)
  exact hid ▸ hkick.2

end Ledger

end PartnerEdge.Sfu
