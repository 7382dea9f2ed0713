import PartnerEdge.Client.Fanout

/-!
# The bandwidth cap as a Schmitt trigger

The cap on temporal layers that the bandwidth estimate sets has three values. It falls to 0 below
the lower rail and is lifted at the upper one. In between it keeps 0, and it keeps "no cap" down to
a third rail, a fifth of the spread below the upper one. So both edges have a band in which the
history decides, and a larger budget never gives a smaller cap.
-/

namespace PartnerEdge.Client

/-! ## The rails -/

def saturatingSub (a b : UInt64) : UInt64 := if b ≤ a then a - b else 0

/-- The rail below which a lifted cap comes back. -/
def hiReenter (lo hi : UInt64) : UInt64 := saturatingSub hi (saturatingSub hi lo / 5)

@[simp] theorem toNat_saturatingSub (a b : UInt64) :
    (saturatingSub a b).toNat = a.toNat - b.toNat := by
  unfold saturatingSub
  split
  · next hle => exact UInt64.toNat_sub_of_le _ _ hle
  · next hlt =>
    rw [UInt64.le_iff_toNat_le] at hlt
    simp
    omega

theorem toNat_hiReenter (lo hi : UInt64) :
    (hiReenter lo hi).toNat = hi.toNat - (hi.toNat - lo.toNat) / 5 := by
  simp [hiReenter]

/-! ## One tick -/

namespace Subscriber

/-- The subscriber with the rails of its process. -/
def withRails (c : Subscriber) (lo hi : UInt64) : Subscriber :=
  { c with bweCapAudioOnlyBps := lo.toNat, bweCapLowMinBps := hi.toNat }

variable {c d : Subscriber} {b b' : Option Nat}

@[simp] theorem bweSelectTemporalCap_cap (c : Subscriber) (b : Option Nat) :
    (c.bweSelectTemporalCap b).bweVfmTemporalCap = c.nextBweCap b := by
  unfold bweSelectTemporalCap invalidateDdCacheOnCapEngage
  split <;> rfl

@[simp] theorem bweSelectTemporalCap_lo (c : Subscriber) (b : Option Nat) :
    (c.bweSelectTemporalCap b).bweCapAudioOnlyBps = c.bweCapAudioOnlyBps := by
  unfold bweSelectTemporalCap invalidateDdCacheOnCapEngage
  split <;> rfl

@[simp] theorem bweSelectTemporalCap_hi (c : Subscriber) (b : Option Nat) :
    (c.bweSelectTemporalCap b).bweCapLowMinBps = c.bweCapLowMinBps := by
  unfold bweSelectTemporalCap invalidateDdCacheOnCapEngage
  split <;> rfl

theorem nextBweCap_mem (c : Subscriber) (b : Option Nat) :
    c.nextBweCap b = 0 ∨ c.nextBweCap b = 1 ∨ c.nextBweCap b = 255 := by
  unfold nextBweCap
  grind

/-- A missing budget counts as the largest one. -/
def BudgetLe : Option Nat → Option Nat → Prop
  | _, none => True
  | none, some _ => False
  | some b, some b' => b ≤ b'

/-- Same rails, and a cap that is not larger. -/
structure CapLe (c d : Subscriber) : Prop where
  lo : c.bweCapAudioOnlyBps = d.bweCapAudioOnlyBps
  hi : c.bweCapLowMinBps = d.bweCapLowMinBps
  cap : c.bweVfmTemporalCap ≤ d.bweVfmTemporalCap

theorem CapLe.nextBweCap (h : c.CapLe d) (hb : BudgetLe b b') :
    c.nextBweCap b ≤ d.nextBweCap b' := by
  obtain ⟨hlo, hhi, hcap⟩ := h
  have hzero : d.bweVfmTemporalCap = 0 → c.bweVfmTemporalCap = 0 := by
    simp only [UInt8.le_iff_toNat_le, ← UInt8.toNat_inj, UInt8.toNat_zero] at hcap ⊢
    omega
  have hlifted : c.bweVfmTemporalCap = 255 → d.bweVfmTemporalCap = 255 := by
    have hmost := d.bweVfmTemporalCap.toNat_lt
    simp only [UInt8.le_iff_toNat_le, ← UInt8.toNat_inj] at hcap ⊢
    grind [UInt8.toNat_ofNat]
  cases b' with
  | none => exact UInt8.le_iff_toNat_le.2 (Nat.le_of_lt_succ (UInt8.toNat_lt _))
  | some b' =>
    cases b with
    | none => cases hb
    | some b =>
      have hb : b ≤ b' := hb
      simp only [Subscriber.nextBweCap, hlo, hhi]
      split_ifs <;> first | decide | (exfalso; grind)

/-- From 0 the cap only moves on a budget at the upper rail, or on none. -/
theorem nextBweCap_of_zero (h : c.bweVfmTemporalCap = 0) (hnext : c.nextBweCap b ≠ 0) :
    ∀ bps ∈ b, c.bweCapLowMinBps ≤ bps ∧ c.bweCapAudioOnlyBps ≤ bps := by
  unfold nextBweCap at hnext
  grind

/-- The cap is lifted at the upper rail, or when there is no budget. -/
theorem nextBweCap_lifts (h : c.bweVfmTemporalCap ≠ 255) (hnext : c.nextBweCap b = 255) :
    ∀ bps ∈ b, c.bweCapLowMinBps ≤ bps := by
  unfold nextBweCap at hnext
  grind

/-- A lifted cap comes back below the third rail only. -/
theorem nextBweCap_returns (hrails : c.bweCapAudioOnlyBps ≤ c.bweCapLowMinBps)
    (h : c.bweVfmTemporalCap = 255) (hnext : c.nextBweCap b ≠ 255) :
    ∃ bps ∈ b, bps <
      c.bweCapLowMinBps - (c.bweCapLowMinBps - c.bweCapAudioOnlyBps) / 5 := by
  have hrail : c.bweCapAudioOnlyBps ≤
      c.bweCapLowMinBps - (c.bweCapLowMinBps - c.bweCapAudioOnlyBps) / 5 := by omega
  cases b with
  | none => exact absurd rfl hnext
  | some b =>
    refine ⟨b, rfl, ?_⟩
    by_contra hge
    simp only [nextBweCap, h] at hnext
    grind

/-! ## Whole runs -/

/-- The subscriber after ticks with these budgets. -/
def ticks (c : Subscriber) (budgets : List (Option UInt64)) : Subscriber :=
  subscriber.run c (budgets.map fun b => .bweTick (b.map UInt64.toNat))

/-- The cap after ticks with these budgets. -/
def capAfter (c : Subscriber) (budgets : List (Option UInt64)) : UInt8 :=
  (c.ticks budgets).bweVfmTemporalCap

/-- The tick at `k` lifts the cap from 1, or brings it back to 1. -/
def CrossesEdge (c : Subscriber) (budgets : List (Option UInt64)) (k : Nat) : Prop :=
  (c.capAfter (budgets.take k) = 1 ∧ c.capAfter (budgets.take (k + 1)) = 255) ∨
    (c.capAfter (budgets.take k) = 255 ∧ c.capAfter (budgets.take (k + 1)) = 1)

variable {lo hi : UInt64} {budgets : List (Option UInt64)} {budget : Option UInt64}

theorem ticks_snoc (c : Subscriber) (budgets : List (Option UInt64)) (budget : Option UInt64) :
    c.ticks (budgets ++ [budget]) =
      (c.ticks budgets).bweSelectTemporalCap (budget.map UInt64.toNat) := by
  simp only [ticks, List.map_append, Machine.run_append]
  rfl

theorem capAfter_snoc (c : Subscriber) (budgets : List (Option UInt64)) (budget : Option UInt64) :
    c.capAfter (budgets ++ [budget]) = (c.ticks budgets).nextBweCap (budget.map UInt64.toNat) := by
  rw [capAfter, ticks_snoc, bweSelectTemporalCap_cap]

/-- Ticks leave the rails alone. -/
theorem ticks_withRails (c : Subscriber) (lo hi : UInt64) (budgets : List (Option UInt64)) :
    ((c.withRails lo hi).ticks budgets).bweCapAudioOnlyBps = lo.toNat ∧
      ((c.withRails lo hi).ticks budgets).bweCapLowMinBps = hi.toNat := by
  induction budgets using List.reverseRecOn with
  | nil => exact ⟨rfl, rfl⟩
  | append_singleton budgets budget ih => simpa [ticks_snoc] using ih

theorem capAfter_mem (budgets : List (Option UInt64)) (h : c.bweVfmTemporalCap ∈ [0, 1, 255]) :
    c.capAfter budgets ∈ [0, 1, 255] := by
  induction budgets using List.reverseRecOn with
  | nil => exact h
  | append_singleton budgets budget _ =>
    rw [capAfter_snoc]
    simpa using nextBweCap_mem _ _

theorem CapLe.ticks (h : c.CapLe d) {budgets budgets' : List (Option UInt64)}
    (hb : List.Forall₂ (fun b b' => BudgetLe (b.map UInt64.toNat) (b'.map UInt64.toNat))
      budgets budgets') : (c.ticks budgets).CapLe (d.ticks budgets') := by
  refine Machine.run_rel
    (S := fun e e' => ∃ b b', BudgetLe b b' ∧ e = .bweTick b ∧ e' = .bweTick b') ?_ h ?_
  · rintro s t _ _ hle ⟨b, b', hb, rfl, rfl⟩
    exact ⟨by simpa [subscriber, step] using hle.lo, by simpa [subscriber, step] using hle.hi,
      by simpa [subscriber, step] using hle.nextBweCap hb⟩
  · refine List.forall₂_map_left_iff.2 (List.forall₂_map_right_iff.2 (hb.imp ?_))
    exact fun b b' hle => ⟨_, _, hle, rfl, rfl⟩

/-- A tick that lifts the cap. -/
theorem capAfter_lifts {c : Subscriber} (hbefore : (c.withRails lo hi).capAfter budgets ≠ 255)
    (hafter : (c.withRails lo hi).capAfter (budgets ++ [budget]) = 255) :
    ∀ bps ∈ budget, hi ≤ bps := by
  rw [capAfter_snoc] at hafter
  obtain ⟨-, hhi⟩ := ticks_withRails c lo hi budgets
  intro bps hbps
  have hle := nextBweCap_lifts hbefore hafter bps.toNat (Option.mem_map_of_mem _ hbps)
  rwa [hhi, ← UInt64.le_iff_toNat_le] at hle

/-- A tick that brings it back. -/
theorem capAfter_returns {c : Subscriber} (hrails : lo ≤ hi)
    (hbefore : (c.withRails lo hi).capAfter budgets = 255)
    (hafter : (c.withRails lo hi).capAfter (budgets ++ [budget]) ≠ 255) :
    ∃ bps ∈ budget, bps < hiReenter lo hi := by
  rw [capAfter_snoc] at hafter
  obtain ⟨hlo, hhi⟩ := ticks_withRails c lo hi budgets
  obtain ⟨n, hn, hlt⟩ := nextBweCap_returns (by rwa [hlo, hhi, ← UInt64.le_iff_toNat_le])
    hbefore hafter
  obtain ⟨bps, hbps, rfl⟩ := Option.mem_map.1 hn
  rw [hlo, hhi, ← toNat_hiReenter, ← UInt64.lt_iff_toNat_lt] at hlt
  exact ⟨bps, hbps, hlt⟩

/-- The tick at which a lifted cap came back, between a moment with no cap and a later one with
one. -/
theorem exists_return {c : Subscriber} (hrails : lo ≤ hi) {i j : Nat} (hij : i ≤ j)
    (hj : j ≤ budgets.length) (hi' : (c.withRails lo hi).capAfter (budgets.take i) = 255)
    (hj' : (c.withRails lo hi).capAfter (budgets.take j) ≠ 255) :
    ∃ k bps, i ≤ k ∧ k < j ∧ budgets[k]? = some (some bps) ∧ bps < hiReenter lo hi := by
  obtain ⟨k, hik, hkj, hbefore, hafter⟩ := exists_begins
    (P := fun n => (c.withRails lo hi).capAfter (budgets.take n) ≠ 255) hij (by simpa using hi') hj'
  have hk : k < budgets.length := by omega
  rw [List.take_add_one, List.getElem?_eq_getElem hk] at hafter
  obtain ⟨bps, hbps, hlt⟩ := capAfter_returns hrails (not_not.1 hbefore) hafter
  exact ⟨k, bps, hik, hkj, by rw [List.getElem?_eq_getElem hk, hbps], hlt⟩

/-- The tick at which the cap was lifted, between a moment with a cap and a later one with none. -/
theorem exists_lift {c : Subscriber} {i j : Nat} (hij : i ≤ j) (hj : j ≤ budgets.length)
    (hi' : (c.withRails lo hi).capAfter (budgets.take i) ≠ 255)
    (hj' : (c.withRails lo hi).capAfter (budgets.take j) = 255) :
    ∃ k budget, i ≤ k ∧ k < j ∧ budgets[k]? = some budget ∧ ∀ bps ∈ budget, hi ≤ bps := by
  obtain ⟨k, hik, hkj, hbefore, hafter⟩ := exists_begins
    (P := fun n => (c.withRails lo hi).capAfter (budgets.take n) = 255) hij hi' hj'
  have hk : k < budgets.length := by omega
  rw [List.take_add_one, List.getElem?_eq_getElem hk] at hafter
  exact ⟨k, _, hik, hkj, List.getElem?_eq_getElem hk, capAfter_lifts hbefore hafter⟩

/-- Two moments around a tick that crosses the edge: one with a cap and one with none. -/
theorem CrossesEdge.moments {k : Nat} (h : c.CrossesEdge budgets k) :
    (∃ i, k ≤ i ∧ i ≤ k + 1 ∧ c.capAfter (budgets.take i) ≠ 255) ∧
      ∃ i, k ≤ i ∧ i ≤ k + 1 ∧ c.capAfter (budgets.take i) = 255 := by
  have hone : (1 : UInt8) ≠ 255 := by decide
  rcases h with ⟨hbefore, hafter⟩ | ⟨hbefore, hafter⟩
  · exact ⟨⟨k, by omega, by omega, hbefore ▸ hone⟩, k + 1, by omega, by omega, hafter⟩
  · exact ⟨⟨k + 1, by omega, by omega, hafter ▸ hone⟩, k, by omega, by omega, hbefore⟩

/-- Between two ticks that cross the edge a budget was below the third rail, and one reached the
upper rail or was absent. -/
theorem CrossesEdge.band {c : Subscriber} (hrails : lo ≤ hi) {i j : Nat} (hij : i < j)
    (hj : j < budgets.length) (hi' : (c.withRails lo hi).CrossesEdge budgets i)
    (hj' : (c.withRails lo hi).CrossesEdge budgets j) :
    (∃ k bps, i ≤ k ∧ k ≤ j ∧ budgets[k]? = some (some bps) ∧ bps < hiReenter lo hi) ∧
      ∃ k budget, i ≤ k ∧ k ≤ j ∧ budgets[k]? = some budget ∧ ∀ bps ∈ budget, hi ≤ bps := by
  obtain ⟨⟨m, hm, hm', hcapped⟩, n, hn, hn', hfree⟩ := hi'.moments
  obtain ⟨⟨m', hmj, hmj', hcapped'⟩, n', hnj, hnj', hfree'⟩ := hj'.moments
  constructor
  · obtain ⟨k, bps, hnk, hkm, hbps⟩ :=
      exists_return hrails (by omega) (by omega) hfree hcapped'
    exact ⟨k, bps, by omega, by omega, hbps⟩
  · obtain ⟨k, budget, hmk, hkn, hbudget⟩ := exists_lift (by omega) (by omega) hcapped hfree'
    exact ⟨k, budget, by omega, by omega, hbudget⟩

/-- The bandwidth cap is a monotone Schmitt trigger. The rails may be in any order: the third one is
computed without underflow, the cap is 0, 1 or 255, larger budgets give larger caps, and 0 is left
at the upper rail only. With ordered rails a lifted cap comes back below the third rail only, and
the budget crosses the whole band between two crossings of that edge. -/
theorem bweCap_schmitt (c : Subscriber) (lo hi : UInt64) :
    ((hiReenter lo hi).toNat : ℤ) = hi.toNat - max (hi.toNat - lo.toNat : ℤ) 0 / 5 ∧
    (c.bweVfmTemporalCap ∈ [0, 1, 255] →
      ∀ budgets, (c.withRails lo hi).capAfter budgets ∈ [0, 1, 255]) ∧
    (∀ (d : Subscriber) (budgets budgets' : List (Option UInt64)),
      c.bweVfmTemporalCap ≤ d.bweVfmTemporalCap →
      List.Forall₂ (fun b b' => BudgetLe (b.map UInt64.toNat) (b'.map UInt64.toNat))
        budgets budgets' →
      ∀ k, (c.withRails lo hi).capAfter (budgets.take k) ≤
        (d.withRails lo hi).capAfter (budgets'.take k)) ∧
    (∀ budgets budget, (c.withRails lo hi).capAfter budgets = 0 →
      (c.withRails lo hi).capAfter (budgets ++ [budget]) ≠ 0 →
      ∀ bps ∈ budget, hi ≤ bps ∧ lo ≤ bps) ∧
    (lo ≤ hi → ∀ budgets budget, (c.withRails lo hi).capAfter budgets = 255 →
      (c.withRails lo hi).capAfter (budgets ++ [budget]) ≠ 255 →
      ∃ bps ∈ budget, bps < hiReenter lo hi) ∧
    (lo ≤ hi → ∀ budgets i j, i < j → j < budgets.length →
      (c.withRails lo hi).CrossesEdge budgets i → (c.withRails lo hi).CrossesEdge budgets j →
      (∃ k bps, i ≤ k ∧ k ≤ j ∧ budgets[k]? = some (some bps) ∧ bps < hiReenter lo hi) ∧
        ∃ k budget, i ≤ k ∧ k ≤ j ∧ budgets[k]? = some budget ∧ ∀ bps ∈ budget, hi ≤ bps) := by
  refine ⟨?_, fun h budgets => capAfter_mem budgets h, ?_, ?_, ?_, ?_⟩
  · rw [toNat_hiReenter]
    omega
  · intro d budgets budgets' hcap hle k
    have hrails : (c.withRails lo hi).CapLe (d.withRails lo hi) := ⟨rfl, rfl, hcap⟩
    exact (hrails.ticks (List.forall₂_take k hle)).cap
  · intro budgets budget hbefore hafter bps hbps
    obtain ⟨hlo, hhi⟩ := ticks_withRails c lo hi budgets
    rw [capAfter_snoc] at hafter
    have hle := nextBweCap_of_zero hbefore hafter bps.toNat (Option.mem_map_of_mem _ hbps)
    rwa [hlo, hhi, ← UInt64.le_iff_toNat_le, ← UInt64.le_iff_toNat_le] at hle
  · exact fun hrails budgets budget hbefore hafter => capAfter_returns hrails hbefore hafter
  · exact fun hrails budgets i j hij hj hi' hj' => hi'.band hrails hij hj hj'

end Subscriber

end PartnerEdge.Client
