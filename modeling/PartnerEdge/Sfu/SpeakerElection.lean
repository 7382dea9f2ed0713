import PartnerEdge.Sfu.Ledger
import PartnerEdge.Sfu.Pacer

/-!
# Who may be elected speaker

A relay carries the speech of other people and must not be elected. Promotion by `relay_source`, the
session steal and the reaping keep the detector to that, but `insert` adds every newcomer, also the
outbound relay, which is one from the start. So the detector knows exactly the local clients as long
as no relay is inserted.
-/

namespace PartnerEdge.Sfu

open Svc PartnerEdge.Client Text

/-- An operation other than the insertion of a relay. -/
def Operation.InsertsNoRelay : Operation → Prop
  | .insert client => client.relayFrom = none
  | _ => True

namespace Ledger

/-- The detector's peers are the registered clients that are not relays; none of the relays is. -/
structure LocalSpeakers (s : Ledger) : Prop where
  peers : ∀ id, id ∈ s.detector ↔ ∃ c ∈ s.registry.clients, c.id = id ∧ c.relayFrom = none
  relays : ∀ c ∈ s.registry.clients, c.relayFrom.isSome = true → c.id ∉ s.detector

/-- The same, of the members. -/
def ElectsLocal (s : Ledger) : Prop :=
  ∀ id, id ∈ s.detector ↔ ∃ m ∈ s.registry.members, m.id = id ∧ m.isRelay = false

variable {world : World} {s : Ledger} {now : Nat}

theorem eq_of_id_eq (h : s.Balanced) {m m' : Member} (hm : m ∈ s.registry.members)
    (hm' : m' ∈ s.registry.members) (hid : m.id = m'.id) : m = m' :=
  List.inj_on_of_nodup_map h.ids hm hm' hid

theorem localSpeakers_iff_electsLocal (h : s.Balanced) : s.LocalSpeakers ↔ s.ElectsLocal := by
  have hpeers : (∀ id, id ∈ s.detector ↔ ∃ c ∈ s.registry.clients, c.id = id ∧ c.relayFrom = none) ↔
      s.ElectsLocal := by
    simp [ElectsLocal, Registry.members, Client.member]
  refine ⟨fun hlocal => hpeers.1 hlocal.peers, fun helects => ⟨hpeers.2 helects, ?_⟩⟩
  intro c hc hrelay hmem
  obtain ⟨m, hm, hid, hlocal⟩ := (helects c.id).1 hmem
  obtain rfl := eq_of_id_eq h hm (List.mem_map_of_mem hc) hid
  exact absurd hrelay (by simpa [Client.member] using hlocal)

theorem mem_foldl_erase {id : ClientId} (gone : List Member) (detector : Finset ClientId) :
    id ∈ gone.foldl (·.erase ·.id) detector ↔ id ∈ detector ∧ ∀ m ∈ gone, m.id ≠ id := by
  induction gone generalizing detector with
  | nil => simp
  | cons m gone ih =>
    rw [List.foldl_cons, ih]
    grind

theorem ElectsLocal.remove (h : s.Balanced) (helects : s.ElectsLocal) {gone : List Member}
    {registry : Registry} (hperm : s.registry.members.Perm (gone ++ registry.members)) :
    (s.remove gone registry).ElectsLocal := by
  intro id
  simp only [Ledger.remove, mem_foldl_erase, helects id]
  constructor
  · rintro ⟨⟨m, hm, rfl, hlocal⟩, hgone⟩
    rcases List.mem_append.1 (hperm.mem_iff.1 hm) with hm | hm
    · exact absurd rfl (hgone m hm)
    · exact ⟨m, hm, rfl, hlocal⟩
  · rintro ⟨m, hm, rfl, hlocal⟩
    refine ⟨⟨m, hperm.mem_iff.2 (List.mem_append_right _ hm), rfl, hlocal⟩, fun m' hm' hid => ?_⟩
    -- One id cannot be both removed and kept.
    have hnodup := (hperm.map (·.id)).nodup_iff.1 h.ids
    rw [List.map_append] at hnodup
    exact List.disjoint_of_nodup_append hnodup (List.mem_map_of_mem hm')
      (hid ▸ List.mem_map_of_mem hm)

theorem ElectsLocal.stealSession (h : s.Balanced) (helects : s.ElectsLocal) (client : Client) :
    (s.stealSession client).ElectsLocal := by
  obtain ⟨hnone, -⟩ | ⟨old, hold, -, -, hperm⟩ := s.registry.members_stealSession client
  · rwa [Ledger.stealSession, hnone]
  · rw [Ledger.stealSession, hold]
    exact helects.remove h hperm

theorem insert_detector (s : Ledger) (client : Client) :
    (s.insert world now client).detector =
      Insert.insert client.id (s.stealSession client).detector := by
  simp only [Ledger.insert, Ledger.stealSession]
  cases s.registry.replaced client <;> rfl

/-- The newcomer is a peer of the detector whatever it is. -/
theorem electsLocal_insert_iff (h : s.Balanced) (helects : s.ElectsLocal) {client : Client}
    (hid : client.id = s.nextClientId) :
    (s.insert world now client).ElectsLocal ↔ client.relayFrom = none := by
  have hsteal := helects.stealSession h client
  simp only [ElectsLocal, insert_detector, insert_members, Finset.mem_insert, List.mem_append,
    List.mem_singleton]
  constructor
  · intro hall
    obtain ⟨m, hm | rfl, hmid, hlocal⟩ := (hall client.id).1 (.inl rfl)
    · exact absurd hmid (h.id_unused hid m hm)
    · simpa [Client.member] using hlocal
  · intro hnone id
    constructor
    · rintro (rfl | hmem)
      · exact ⟨client.member, .inr rfl, rfl, by simp [Client.member, hnone]⟩
      · obtain ⟨m, hm, hmid, hlocal⟩ := (hsteal id).1 hmem
        exact ⟨m, .inl hm, hmid, hlocal⟩
    · rintro ⟨m, hm | rfl, rfl, hlocal⟩
      · exact .inr ((hsteal m.id).2 ⟨m, hm, rfl, hlocal⟩)
      · exact .inl rfl

/-- A promoted client leaves the detector. -/
theorem ElectsLocal.markRelaySource (helects : s.ElectsLocal) (id : ClientId) (upstreamUrl : Str) :
    (s.markRelaySource id upstreamUrl).ElectsLocal := by
  unfold Ledger.markRelaySource
  split
  · intro id'
    have hid' := helects id'
    simp only [Registry.members_markRelaySource, Finset.mem_erase, List.mem_map, hid']
    grind
  · exact helects

theorem ElectsLocal.map (helects : s.ElectsLocal) {registry : Registry} {f : Member → Member}
    (hmembers : registry.members = s.registry.members.map f)
    (hf : ∀ m, (f m).id = m.id ∧ (f m).isRelay = m.isRelay) :
    { s with registry }.ElectsLocal := by
  intro id
  simpa [hmembers, hf] using helects id

theorem electsLocal_apply_iff (h : s.Balanced) (helects : s.ElectsLocal) (operation : Operation) :
    (s.apply world now operation).ElectsLocal ↔ operation.InsertsNoRelay := by
  cases operation with
  | insert client => exact electsLocal_insert_iff h helects rfl
  | channelOpen id channel =>
    refine iff_of_true ?_ trivial
    simp only [Ledger.apply, Ledger.channelOpen]
    split
    · exact helects
    · split <;> exact helects
  | disconnect id =>
    refine iff_of_true (helects.map (s.registry.members_failInputs [id]) fun m => ?_) trivial
    split <;> exact ⟨rfl, rfl⟩
  | reapDead =>
    exact iff_of_true (helects.remove h (s.registry.members_perm_reapDead now)) trivial
  | checkSoloTimeout timeout =>
    refine iff_of_true ?_ trivial
    obtain heq | heq := s.registry.members_checkSoloTimeout timeout now
    · exact helects.map (heq.trans (List.map_id _).symm) fun m => ⟨rfl, rfl⟩
    · exact helects.map heq fun m => ⟨rfl, rfl⟩
  | markRelaySource id upstreamUrl =>
    exact iff_of_true (helects.markRelaySource id upstreamUrl) trivial

theorem electsLocal_runs (h : s.Balanced) (helects : s.ElectsLocal) (ops : List Timed) :
    (ledger world).Allowed (fun s t => (s.step world t).LocalSpeakers) s ops ↔
      ∀ t ∈ ops, t.operation.InsertsNoRelay := by
  induction ops generalizing s with
  | nil => simp [Machine.Allowed]
  | cons t ops ih =>
    have hstep : (s.step world t).Balanced := h.step world t
    have hiff : (s.step world t).LocalSpeakers ↔ t.operation.InsertsNoRelay :=
      (localSpeakers_iff_electsLocal hstep).trans (electsLocal_apply_iff h helects t.operation)
    rw [Machine.Allowed, List.forall_mem_cons, hiff]
    refine and_congr_right fun hlocal => ih hstep ?_
    exact (electsLocal_apply_iff h helects t.operation).2 hlocal

/-- After every operation of a run the detector knows exactly the local clients, if and only if the
run inserts no relay. -/
theorem localSpeakers_iff_insertsNoRelay (world : World) (ops : List Timed) :
    (ledger world).Allowed (fun s t => (s.step world t).LocalSpeakers) .init ops ↔
      ∀ t ∈ ops, t.operation.InsertsNoRelay :=
  electsLocal_runs balanced_init (by simp [ElectsLocal, init, Registry.members, Registry.empty]) ops

/-- An outbound relay in an otherwise empty registry. -/
def loneOutboundRelay : List Timed :=
  [⟨0, .insert (.newOutboundRelay pacedConfig 0 "wss://hub/r".toList)⟩]

/-- It is the one peer that can be elected. -/
theorem outboundRelay_is_electable :
    ((ledger (pacedWorld none .noChange)).run .init loneOutboundRelay).detector = {0} ∧
      ¬ ((ledger (pacedWorld none .noChange)).run .init loneOutboundRelay).LocalSpeakers := by
  refine ⟨rfl, fun hlocal => ?_⟩
  have hclients : ∃ c,
      ((ledger (pacedWorld none .noChange)).run .init loneOutboundRelay).registry.clients = [c] ∧
        c.id = 0 ∧ c.relayFrom.isSome = true := ⟨_, rfl, rfl, rfl⟩
  obtain ⟨c, hc, hid, hrelay⟩ := hclients
  refine hlocal.relays c (hc ▸ List.mem_singleton_self c) hrelay ?_
  rw [hid]
  exact Finset.mem_singleton_self 0

end Ledger

end PartnerEdge.Sfu
