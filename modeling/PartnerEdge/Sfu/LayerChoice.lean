import PartnerEdge.Sfu.Pacer

/-!
# What the clamp of a layer depends on

A publisher's simulcast layers are the ids its packets carried, kept in a hash set. The clamp reads
them as a list, in the order of the set. As long as one of the known layers fits under the target
the order does not matter and the best fit is chosen. Otherwise the first id of the list is taken,
whatever it is.
-/

namespace PartnerEdge.Sfu

open Svc PartnerEdge.Client

/-- The ids that these packets carried. -/
def Seen (packets : List MediaData) (rid : Rid) : Prop := ∃ data ∈ packets, data.rid = some rid

namespace Client

def layers : List Rid := [layerHigh, layerMedium, layerLow]

/-- A publisher after these packets. -/
def afterMedia (c : Client) (packets : List MediaData) : Client :=
  packets.foldl (fun c data => (c.trackInMedia data).1) c

theorem mem_activeRids_afterMedia (c : Client) (packets : List MediaData) (rid : Rid) :
    rid ∈ (c.afterMedia packets).activeRids ↔ rid ∈ c.activeRids ∨ Seen packets rid := by
  induction packets generalizing c with
  | nil => simp [afterMedia, Seen]
  | cons data packets ih =>
    rw [afterMedia, List.foldl_cons, ← afterMedia, ih]
    simp only [trackInMedia, Seen, List.exists_mem_cons_iff]
    cases data.rid with
    | none => simp
    | some rid' => grind

theorem nodup_activeRids_afterMedia (c : Client) (packets : List MediaData)
    (h : c.activeRids.Nodup) : (c.afterMedia packets).activeRids.Nodup := by
  induction packets generalizing c with
  | nil => exact h
  | cons data packets ih =>
    apply ih
    simp only [trackInMedia]
    split
    · exact h.insert
    · exact h

/-! ## A known layer fits -/

/-- A known layer not above the target was seen. -/
def Fits (target : Rid) (sent : Rid → Prop) : Prop :=
  ∃ rid ∈ layers, sent rid ∧ rank rid ≤ rank target

/-- The choice the clamp is meant to make. -/
structure IsChoice (target : Rid) (sent : Rid → Prop) (chosen : Rid) : Prop where
  member : sent chosen
  highest : Fits target sent → chosen ∈ layers ∧ rank chosen ≤ rank target ∧
    ∀ rid ∈ layers, sent rid → rank rid ≤ rank target → rank rid ≤ rank chosen
  lowest : ¬ Fits target sent → (∃ rid ∈ layers, sent rid) → chosen ∈ layers ∧
    ∀ rid ∈ layers, sent rid → rank chosen ≤ rank rid

/-- Known layers are told apart by their rank. -/
theorem rank_injOn : ∀ rid ∈ layers, ∀ rid' ∈ layers, rank rid = rank rid' → rid = rid' := by
  decide

/-- With a known layer that fits, the clamp finds the best one. -/
theorem clampToAvailable_best {target : Rid} {available : List Rid}
    (hfits : Fits target (· ∈ available)) :
    clampToAvailable target available ∈ layers ∧ clampToAvailable target available ∈ available ∧
      rank (clampToAvailable target available) ≤ rank target ∧
      ∀ rid ∈ layers, rid ∈ available → rank rid ≤ rank target →
        rank rid ≤ rank (clampToAvailable target available) := by
  have hhigh : rank layerHigh = 2 := by decide
  have hmedium : rank layerMedium = 1 := by decide
  have hlow : rank layerLow = 0 := by decide
  simp only [Fits, layers, List.mem_cons, List.not_mem_nil, or_false] at *
  simp only [clampToAvailable, List.find?_cons]
  split
  · grind
  · grind

/-- Without one it takes the first id of the list. -/
theorem clampToAvailable_of_not_fits {target : Rid} {available : List Rid}
    (hfits : ¬ Fits target (· ∈ available)) :
    clampToAvailable target available = available.head?.getD layerLow := by
  unfold clampToAvailable
  split
  · next candidate hfind =>
    have hcandidate := List.find?_some hfind
    simp only [Bool.and_eq_true, decide_eq_true_eq, List.contains_iff_mem] at hcandidate
    exact absurd ⟨candidate, List.mem_of_find?_eq_some hfind, hcandidate.2, hcandidate.1⟩ hfits
  · rfl

theorem fits_congr {target : Rid} {sent sent' : Rid → Prop} (h : ∀ rid, sent rid ↔ sent' rid) :
    Fits target sent ↔ Fits target sent' := by
  simp only [Fits, h]

/-! ## Every order of the set -/

section Orders

variable (target : Rid) (rids : List Rid)

/-- One layer is chosen whatever the order in which the set lists its ids, and it is the one meant
for them. -/
def ChoosesInAnyOrder : Prop :=
  ∃ chosen, IsChoice target (· ∈ rids) chosen ∧
    ∀ available, available.Perm rids → clampToAvailable target available = chosen

variable {target rids}

theorem choosesInAnyOrder_of_fits (hfits : Fits target (· ∈ rids)) :
    ChoosesInAnyOrder target rids := by
  obtain ⟨hlayer, hmem, hrank, hbest⟩ := clampToAvailable_best hfits
  refine ⟨_, ⟨hmem, fun _ => ⟨hlayer, hrank, hbest⟩, fun h => absurd hfits h⟩, ?_⟩
  intro available hperm
  obtain ⟨hlayer', hmem', hrank', hbest'⟩ :=
    clampToAvailable_best ((fits_congr fun rid => hperm.mem_iff).2 hfits)
  apply rank_injOn _ hlayer' _ hlayer
  apply Nat.le_antisymm
  · exact hbest _ hlayer' (hperm.mem_iff.1 hmem') hrank'
  · exact hbest' _ hlayer (hperm.mem_iff.2 hmem) hrank

theorem choosesInAnyOrder_singleton (rid : Rid) : ChoosesInAnyOrder target [rid] := by
  by_cases hfits : Fits target (· ∈ [rid])
  · exact choosesInAnyOrder_of_fits hfits
  · refine ⟨rid, ⟨by simp, fun h => absurd h hfits, ?_⟩, ?_⟩
    · rintro - ⟨rid', hlayer, hrid'⟩
      simp only [List.mem_singleton] at hrid' ⊢
      subst hrid'
      exact ⟨hlayer, by rintro _ _ rfl; exact le_rfl⟩
    · intro available hperm
      obtain rfl := List.perm_singleton.1 hperm
      rw [clampToAvailable_of_not_fits hfits]
      rfl

/-- Two ids of which none fits: each is chosen when the set lists it first. -/
theorem not_choosesInAnyOrder {rid rid' : Rid} (hfits : ¬ Fits target (· ∈ rids))
    (h : rid ∈ rids) (h' : rid' ∈ rids) (hne : rid ≠ rid') : ¬ ChoosesInAnyOrder target rids := by
  rintro ⟨chosen, -, hchosen⟩
  have hfirst : ∀ rid ∈ rids, rid = chosen := by
    intro rid hrid
    have hperm := (List.perm_cons_erase hrid).symm
    rw [← hchosen _ hperm,
      clampToAvailable_of_not_fits (mt (fits_congr fun rid => hperm.mem_iff).1 hfits)]
    rfl
  exact hne ((hfirst rid h).trans (hfirst rid' h').symm)

/-- The order does not matter when a known layer fits, or when there is only one id. -/
theorem choosesInAnyOrder_iff (hnodup : rids.Nodup) (hsome : rids ≠ []) :
    ChoosesInAnyOrder target rids ↔
      Fits target (· ∈ rids) ∨ ∀ rid ∈ rids, ∀ rid' ∈ rids, rid = rid' := by
  constructor
  · intro hchooses
    by_contra hnone
    push Not at hnone
    obtain ⟨hfits, rid, hrid, rid', hrid', hne⟩ := hnone
    exact not_choosesInAnyOrder hfits hrid hrid' hne hchooses
  · rintro (hfits | hone)
    · exact choosesInAnyOrder_of_fits hfits
    · obtain ⟨rid, rest, rfl⟩ := List.exists_cons_of_ne_nil hsome
      cases rest with
      | nil => exact choosesInAnyOrder_singleton rid
      | cons rid' rest =>
        have heq := hone rid (by simp) rid' (by simp)
        simp [heq] at hnodup

end Orders

/-- For any packets of a publisher of which one carries an id: the clamp picks one layer in every
order of the hash set, a seen one and the one meant, exactly when a known layer not above the target
was seen, or a single id was. -/
theorem clampToAvailable_anyOrder_iff (cfg : Config) (id : ClientId) (packets : List MediaData)
    (target : Rid) (hseen : ∃ rid, Seen packets rid) :
    (∃ chosen, IsChoice target (Seen packets) chosen ∧
      ∀ available, available.Perm ((Client.new cfg id).afterMedia packets).activeRids →
        clampToAvailable target available = chosen) ↔
      Fits target (Seen packets) ∨
        ∀ rid rid', Seen packets rid → Seen packets rid' → rid = rid' := by
  have hrids : ∀ rid, rid ∈ ((Client.new cfg id).afterMedia packets).activeRids ↔
      Seen packets rid := by
    intro rid
    rw [mem_activeRids_afterMedia]
    simp [Client.new]
  have hsent : (· ∈ ((Client.new cfg id).afterMedia packets).activeRids) = Seen packets :=
    funext fun rid => propext (hrids rid)
  obtain ⟨rid, hrid⟩ := hseen
  have hiff : ChoosesInAnyOrder target _ ↔ _ := choosesInAnyOrder_iff
    (nodup_activeRids_afterMedia (Client.new cfg id) packets List.nodup_nil)
    (List.ne_nil_of_mem ((hrids rid).2 hrid))
  rw [ChoosesInAnyOrder, hsent] at hiff
  simp only [hrids] at hiff
  rw [hiff]
  apply or_congr_right
  grind

/-- A publisher of the high layer only: it is chosen for the low target too. -/
theorem clampToAvailable_anyOrder_single :
    let packets : List MediaData := [⟨"0", some layerHigh, none⟩]
    ∃ chosen, IsChoice layerLow (Seen packets) chosen ∧
      ∀ available, available.Perm ((Client.new pacedConfig 1).afterMedia packets).activeRids →
        clampToAvailable layerLow available = chosen :=
  (clampToAvailable_anyOrder_iff pacedConfig 1 _ layerLow ⟨layerHigh, _, List.mem_cons_self, rfl⟩).2
    (Or.inr (by simp [Seen]))

/-- A publisher of the medium and the high layer, and a target below both: the set may list the high
layer first, and then it is chosen although the medium one was seen. -/
theorem clampToAvailable_takes_first :
    let packets : List MediaData := [⟨"0", some layerMedium, none⟩, ⟨"0", some layerHigh, none⟩]
    let rids := ((Client.new pacedConfig 1).afterMedia packets).activeRids
    [layerHigh, layerMedium].Perm rids ∧ [layerMedium, layerHigh].Perm rids ∧
      clampToAvailable layerLow [layerHigh, layerMedium] = layerHigh ∧
      clampToAvailable layerLow [layerMedium, layerHigh] = layerMedium := by
  decide

end Client

end PartnerEdge.Sfu
