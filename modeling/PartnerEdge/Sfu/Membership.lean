import PartnerEdge.Sfu.Registry

/-!
# Who is registered

The part of the registry that its bookkeeping depends on: for each client its ids, its channels,
whether it is a relay and whether it is alive. Each operation on the registry is summed up by what
it does to the list of members; the tracks and the negotiations of the clients play no part.
-/

namespace PartnerEdge.Sfu

open Svc PartnerEdge.Client Text

structure Member where
  id : ClientId
  externalPeerId : Option Nat
  channels : List Channel
  isRelay : Bool
  alive : Bool
deriving DecidableEq, Repr

def Client.member (c : Client) : Member :=
  ⟨c.id, c.externalPeerId, c.channels, c.relayFrom.isSome, c.alive⟩

def Member.disconnect (m : Member) : Member := { m with alive := false }

theorem swapRemove_perm {α : Type} {xs : List α} {i : Nat} {x : α} (h : xs[i]? = some x) :
    xs.Perm (x :: swapRemove xs i) := by
  obtain ⟨hi, rfl⟩ := List.getElem?_eq_some_iff.1 h
  cases xs using List.reverseRecOn with
  | nil => simp at hi
  | append_singleton ys last =>
    have hlast : (ys ++ [last]).Perm (last :: ys) := List.perm_append_singleton last ys
    simp only [swapRemove, List.getLast?_append, List.getLast?_singleton, Option.some_or]
    by_cases hy : i < ys.length
    · -- The last element moves to the place of the removed one.
      simp only [List.set_append_left _ _ hy, List.dropLast_concat, List.getElem_append_left hy]
      refine hlast.trans ?_
      refine ((List.getElem_cons_eraseIdx_perm hy).symm.cons last).trans ?_
      exact (List.Perm.swap _ _ _).trans ((List.set_perm_cons_eraseIdx hy last).symm.cons _)
    · obtain rfl : i = ys.length := by simp at hi; omega
      simp

namespace Registry

variable (r : Registry)

def members : List Member := r.clients.map Client.member

/-- The session that a newcomer replaces. -/
def replaced (client : Client) : Option Member := do
  let newPid ← client.externalPeerId
  let idx ← r.clients.findIdx? (·.externalPeerId == some newPid)
  (r.clients[idx]?).map Client.member

@[simp] theorem members_removeDeparted (ids : List ClientId) :
    (r.removeDeparted ids).members = r.members := by
  simp only [members, removeDeparted, List.map_map]
  rfl

theorem members_reapDead (now : Nat) :
    (r.reapDead now).members = r.members.filter (·.alive) := by
  simp only [members, reapDead, removeDeparted, List.map_map, List.filter_map]
  rfl

/-- Every client is reaped or kept. -/
theorem members_perm_reapDead (now : Nat) :
    r.members.Perm (r.members.filter (!·.alive) ++ (r.reapDead now).members) := by
  rw [members_reapDead]
  exact (List.filter_append_perm (·.alive) r.members).symm.trans List.perm_append_comm

theorem members_checkSoloTimeout (timeout now : Nat) :
    (r.checkSoloTimeout timeout now).members = r.members ∨
      (r.checkSoloTimeout timeout now).members = r.members.map Member.disconnect := by
  unfold checkSoloTimeout
  split
  · next c since hclients _ =>
    split
    · exact .inl rfl
    · refine .inr ?_
      rw [members, members, hclients]
      rfl
  · exact .inl rfl

theorem members_failInputs (ids : List ClientId) :
    (r.failInputs ids).members =
      r.members.map fun m => if m.id ∈ ids then m.disconnect else m := by
  simp only [members, failInputs, List.map_map]
  refine List.map_congr_left fun c _ => ?_
  by_cases hc : c.id ∈ ids <;> simp [hc, Client.member, Client.disconnect, Member.disconnect]

/-- A steal removes the first client with the newcomer's peer id, if there is one. -/
theorem members_stealSession (client : Client) :
    (r.replaced client = none ∧ (r.stealSession client).members = r.members ∧
      (client.externalPeerId.isSome = true →
        ∀ m ∈ r.members, m.externalPeerId ≠ client.externalPeerId)) ∨
      ∃ old, r.replaced client = some old ∧ old.externalPeerId = client.externalPeerId ∧
        client.externalPeerId.isSome = true ∧
        r.members.Perm (old :: (r.stealSession client).members) := by
  unfold replaced stealSession
  cases hpid : client.externalPeerId with
  | none => exact .inl ⟨rfl, rfl, nofun⟩
  | some pid =>
    cases hidx : r.clients.findIdx? (·.externalPeerId == some pid) with
    | none =>
      refine .inl ⟨by simp [hidx], by simp only [hidx], fun _ => ?_⟩
      rw [members, List.forall_mem_map]
      intro c hc
      exact ne_of_beq_false (List.findIdx?_eq_none_iff.1 hidx c hc)
    | some idx =>
      have hfound := List.of_findIdx?_eq_some hidx
      cases hold : r.clients[idx]? with
      | none => simp [hold] at hfound
      | some old =>
        rw [hold] at hfound
        refine .inr ⟨old.member, by simp [hidx, hold], eq_of_beq hfound, rfl, ?_⟩
        simp only [hidx, evictForSteal, hold, members_removeDeparted]
        exact (swapRemove_perm hold).map Client.member

theorem member_crossAdvertise (world : World) (now : Nat) (client : Client) :
    (r.crossAdvertise world now client).1.member = client.member := by
  have hfold : ∀ (ts : List TrackIn) (newcomer : Client × List Delivery),
      (ts.foldl (advertise world now) newcomer).1.member = newcomer.1.member := by
    intro ts
    induction ts with
    | nil => exact fun _ => rfl
    | cons t ts ih => exact fun newcomer => ih _
  exact hfold _ _

theorem members_insert (world : World) (now : Nat) (client : Client) :
    (r.insert world now client).members = (r.stealSession client).members ++ [client.member] := by
  simp only [members, insert, List.map_append, List.map_cons, List.map_nil]
  rw [member_crossAdvertise]
  rfl

theorem members_markRelaySource (id : ClientId) (upstreamUrl : Str) :
    (r.updateClient id fun c => { c with relayFrom := some upstreamUrl }).members =
      r.members.map fun m => if m.id = id then { m with isRelay := true } else m := by
  simp only [members, updateClient, List.map_map]
  refine List.map_congr_left fun c _ => ?_
  by_cases hc : c.id = id <;> simp [hc, Client.member]

/-! ## The peer ids -/

def peerIds : List Nat := r.clients.filterMap (·.externalPeerId)

theorem peerIds_eq_members :
    r.peerIds = r.members.filterMap (·.externalPeerId) := by
  rw [members, List.filterMap_map]
  rfl

/-- A steal frees the peer id of the newcomer. -/
theorem peerIds_stealSession {r : Registry} (h : r.peerIds.Nodup) (client : Client) :
    (r.stealSession client).peerIds.Nodup ∧
      ∀ pid, client.externalPeerId = some pid → pid ∉ (r.stealSession client).peerIds := by
  rw [peerIds_eq_members] at h ⊢
  obtain ⟨-, heq, hfree⟩ | ⟨old, -, hold, -, hperm⟩ := r.members_stealSession client
  · refine ⟨heq ▸ h, fun pid hpid hmem => ?_⟩
    obtain ⟨m, hm, hmpid⟩ := List.mem_filterMap.mp hmem
    exact hfree (by simp [hpid]) m (heq ▸ hm) (hmpid.trans hpid.symm)
  · have hnodup := (hperm.filterMap (·.externalPeerId)).nodup_iff.mp h
    cases hpid : client.externalPeerId with
    | none =>
      rw [List.filterMap_cons_none (hold.trans hpid)] at hnodup
      exact ⟨hnodup, nofun⟩
    | some pid =>
      rw [List.filterMap_cons_some (hold.trans hpid), List.nodup_cons] at hnodup
      refine ⟨hnodup.2, ?_⟩
      rintro _ ⟨⟩
      exact hnodup.1

theorem peerIds_insert {r : Registry} (h : r.peerIds.Nodup) (world : World) (now : Nat)
    (client : Client) : (r.insert world now client).peerIds.Nodup := by
  obtain ⟨hsteal, hfree⟩ := peerIds_stealSession h client
  rw [peerIds_eq_members] at hsteal hfree ⊢
  rw [members_insert, List.filterMap_append]
  cases hpid : client.externalPeerId with
  | none => simpa [Client.member, hpid] using hsteal
  | some pid =>
    have hnew : [client.member].filterMap (·.externalPeerId) = [pid] := by
      simp [Client.member, hpid]
    rw [hnew]
    exact hsteal.append (List.nodup_singleton pid) (by simpa using hfree pid hpid)

end Registry

end PartnerEdge.Sfu
