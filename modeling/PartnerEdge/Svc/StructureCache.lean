import PartnerEdge.Machine.Run
import PartnerEdge.Svc.DdExt

/-!
# Runs of the structure cache

The cache keeps a map and a queue of its keys that are updated separately. `WellFormed` says what
ties them together, and every operation keeps it. Over a whole run the queue is in the order in
which the keys' current residences began, so that the key an insertion evicts is the one that has
been there longest.
-/

namespace PartnerEdge.Svc

namespace DdStructureCache

/-- The queue lists the keys of the map, each once, and there are not too many. -/
structure WellFormed (cache : DdStructureCache) : Prop where
  nodup : cache.order.Nodup
  mem_order : ∀ k, k ∈ cache.order ↔ k ∈ cache.map
  length_le : cache.order.length ≤ maxStreams

variable {cache : DdStructureCache}

theorem WellFormed.len_eq (h : cache.WellFormed) : cache.len = cache.order.length := by
  refine List.Perm.length_eq ((List.perm_ext_iff_of_nodup cache.map.keys_nodup h.nodup).2 ?_)
  intro k
  rw [← AList.mem_keys, h.mem_order]

/-- The three ways of an insertion: a replacement, a new key with room for it, and a new key that
takes the place of the oldest. -/
theorem WellFormed.insert_cases (h : cache.WellFormed) (key : StreamKey)
    (s : TemplateDependencyStructure) :
    (key ∈ cache.map ∧ cache.insert key s = ⟨cache.map.insert key s, cache.order⟩) ∨
    (key ∉ cache.map ∧ cache.order.length < maxStreams ∧
      cache.insert key s = ⟨cache.map.insert key s, cache.order ++ [key]⟩) ∨
    (key ∉ cache.map ∧ cache.order.length = maxStreams ∧ ∃ oldest rest,
      cache.order = oldest :: rest ∧
      cache.insert key s = ⟨(cache.map.erase oldest).insert key s, rest ++ [key]⟩) := by
  by_cases hkey : key ∈ cache.map
  · exact .inl ⟨hkey, if_pos hkey⟩
  · have hinsert : cache.insert key s =
        ⟨cache.evictOldest.map.insert key s, cache.evictOldest.order ++ [key]⟩ := if_neg hkey
    by_cases hfull : cache.order.length ≥ maxStreams
    · have hlen : cache.order.length = maxStreams := le_antisymm h.length_le hfull
      obtain ⟨oldest, rest, horder⟩ : ∃ oldest rest, cache.order = oldest :: rest :=
        List.exists_cons_of_length_pos (by rw [hlen]; decide)
      refine .inr (.inr ⟨hkey, hlen, oldest, rest, horder, ?_⟩)
      rw [hinsert, evictOldest, if_pos hfull, horder]
    · refine .inr (.inl ⟨hkey, by omega, ?_⟩)
      rw [hinsert, evictOldest, if_neg hfull]

theorem wellFormed_new : new.WellFormed :=
  ⟨List.nodup_nil, fun k => iff_of_false List.not_mem_nil (AList.notMem_empty k), Nat.zero_le _⟩

theorem wellFormed_clear (cache : DdStructureCache) : cache.clear.WellFormed := wellFormed_new

theorem WellFormed.insert (h : cache.WellFormed) (key : StreamKey)
    (s : TemplateDependencyStructure) : (cache.insert key s).WellFormed := by
  obtain ⟨hkey, heq⟩ | ⟨hkey, hlen, heq⟩ | ⟨hkey, hlen, oldest, rest, horder, heq⟩ :=
    h.insert_cases key s
  · refine heq ▸ ⟨h.nodup, fun k => ?_, h.length_le⟩
    rw [h.mem_order, AList.mem_insert]
    exact ⟨.inr, fun hk => hk.elim (fun hk => hk ▸ hkey) id⟩
  · refine heq ▸ ⟨?_, fun k => ?_, by simpa using hlen⟩
    · exact List.concat_eq_append ▸ h.nodup.concat (mt (h.mem_order key).1 hkey)
    · rw [List.mem_append, List.mem_singleton, h.mem_order, AList.mem_insert, or_comm]
  · have hnodup := h.nodup
    have hmem := h.mem_order
    rw [horder] at hnodup hmem hlen
    obtain ⟨holdest, hrest⟩ := List.nodup_cons.1 hnodup
    have hkept : ∀ k, k ∈ rest ↔ k ≠ oldest ∧ k ∈ cache.map := by
      intro k
      rw [← hmem, List.mem_cons]
      exact ⟨fun hk => ⟨fun hne => holdest (hne ▸ hk), .inr hk⟩,
        fun hk => hk.2.resolve_left hk.1⟩
    refine heq ▸ ⟨?_, fun k => ?_, by simpa using hlen.le⟩
    · exact List.concat_eq_append ▸ hrest.concat fun hk => hkey ((hkept key).1 hk).2
    · rw [List.mem_append, List.mem_singleton, hkept, AList.mem_insert, AList.mem_erase, or_comm]

end DdStructureCache

/-! ## Operations and runs -/

inductive CacheOp
  | insert (key : StreamKey) (s : TemplateDependencyStructure)
  | get (key : StreamKey)
  | clear

/-- The cache under its operations; `get` answers and the others do not. -/
def structureCache :
    Machine DdStructureCache CacheOp (Option TemplateDependencyStructure) where
  step cache op :=
    match op with
    | .insert key s => (cache.insert key s, none)
    | .get key => (cache, cache.get key)
    | .clear => (cache.clear, none)

namespace CacheOp

open DdStructureCache

/-- The cache after the operations, from an empty one. -/
def after (ops : List CacheOp) : DdStructureCache := structureCache.run new ops

/-- The operation is an insertion, and `k` is there before it and not after it. -/
def Evicts (k : StreamKey) (cache : DdStructureCache) (op : CacheOp) : Prop :=
  (∃ key s, op = .insert key s) ∧ k ∈ cache.map ∧ k ∉ (structureCache.step cache op).1.map

/-- What puts an end to the structure cached for `k`: a newer one, a clear or an eviction. -/
def Ends (k : StreamKey) (cache : DdStructureCache) (op : CacheOp) : Prop :=
  (∃ s, op = .insert k s) ∨ op = .clear ∨ Evicts k cache op

/-- The operation number `i` brought `k` in, and `k` has been there ever since. -/
def ResidentSince (ops : List CacheOp) (k : StreamKey) (i : Nat) : Prop :=
  i < ops.length ∧ k ∉ (after (ops.take i)).map ∧
    ∀ j, i < j → j ≤ ops.length → k ∈ (after (ops.take j)).map

/-- The current residence of `k` began before that of `k'`. -/
def Older (ops : List CacheOp) (k k' : StreamKey) : Prop :=
  ∃ i j, ResidentSince ops k i ∧ ResidentSince ops k' j ∧ i < j

theorem wellFormed_after (ops : List CacheOp) : (after ops).WellFormed := by
  refine Machine.run_of_step (fun cache op h => ?_) wellFormed_new ops
  cases op with
  | insert key s => exact h.insert key s
  | get key => exact h
  | clear => exact wellFormed_clear cache

theorem after_append (ops : List CacheOp) (op : CacheOp) :
    after (ops ++ [op]) = (structureCache.step (after ops) op).1 := by
  rw [after, Machine.run_append, Machine.run_cons, Machine.run_nil, after]

/-! ## The cached structures -/

theorem mem_of_get_eq_some {cache : DdStructureCache} {k : StreamKey}
    {s : TemplateDependencyStructure} (h : cache.get k = some s) : k ∈ cache.map := by
  rw [← AList.lookup_isSome, ← DdStructureCache.get, h]
  rfl

theorem exists_get_of_mem {cache : DdStructureCache} {k : StreamKey} (h : k ∈ cache.map) :
    ∃ s, cache.get k = some s :=
  Option.isSome_iff_exists.1 (AList.lookup_isSome.2 h)

theorem get_step_iff (cache : DdStructureCache) (op : CacheOp) (k : StreamKey)
    (s : TemplateDependencyStructure) :
    (structureCache.step cache op).1.get k = some s ↔
      op = .insert k s ∨ cache.get k = some s ∧ ¬ Ends k cache op := by
  cases op with
  | insert key t =>
    change (cache.insert key t).get k = some s ↔ _
    by_cases hkey : k = key
    · subst hkey
      rw [get_insert_self, Option.some_inj]
      constructor
      · exact fun h => .inl (h ▸ rfl)
      · rintro (h | ⟨-, h⟩)
        · exact (CacheOp.insert.inj h).2
        · exact absurd (.inl ⟨t, rfl⟩) h
    · constructor
      · intro h
        refine .inr ⟨get_of_insert_ne hkey h, ?_⟩
        rintro (⟨_, heq⟩ | heq | ⟨-, -, hgone⟩)
        · exact hkey (CacheOp.insert.inj heq).1.symm
        · cases heq
        · exact hgone (mem_of_get_eq_some h)
      · rintro (heq | ⟨hget, hends⟩)
        · exact absurd (CacheOp.insert.inj heq).1.symm hkey
        · -- The key was not evicted, so something is found, and it is what was there before.
          have hstays : k ∈ (cache.insert key t).map := by
            by_contra hgone
            exact hends (.inr (.inr ⟨⟨key, t, rfl⟩, mem_of_get_eq_some hget, hgone⟩))
          obtain ⟨u, hu⟩ := exists_get_of_mem hstays
          rw [hu, ← get_of_insert_ne hkey hu, hget]
  | get key =>
    have hends : ¬ Ends k cache (.get key) := by
      rintro (⟨_, heq⟩ | heq | ⟨⟨_, _, heq⟩, -⟩) <;> cases heq
    simp [structureCache, hends]
  | clear => simp [structureCache, Ends]

/-! ## The order of the queue -/

variable {ops : List CacheOp} {op : CacheOp} {k k' : StreamKey} {i : Nat}

theorem ResidentSince.append (h : ResidentSince ops k i) (hk : k ∈ (after (ops ++ [op])).map) :
    ResidentSince (ops ++ [op]) k i := by
  obtain ⟨hi, hbefore, hsince⟩ := h
  refine ⟨by simp; omega, by rwa [List.take_append_of_le_length hi.le], fun j hij hj => ?_⟩
  rw [List.length_append, List.length_singleton] at hj
  obtain hj | rfl := Nat.le_succ_iff.1 hj
  · rw [List.take_append_of_le_length hj]
    exact hsince j hij hj
  · rwa [List.take_of_length_le (by simp)]

theorem residentSince_length (hold : k ∉ (after ops).map) (hnew : k ∈ (after (ops ++ [op])).map) :
    ResidentSince (ops ++ [op]) k ops.length := by
  refine ⟨by simp, by rwa [List.take_left], fun j hij hj => ?_⟩
  rwa [List.take_of_length_le (by simp; omega)]

theorem ResidentSince.unique {j : Nat} (hi : ResidentSince ops k i) (hj : ResidentSince ops k j) :
    i = j := by
  obtain ⟨hi, hbefore, hsince⟩ := hi
  obtain ⟨hj, hbefore', hsince'⟩ := hj
  obtain hij | hij | hij := lt_trichotomy i j
  · exact absurd (hsince j hij hj.le) hbefore'
  · exact hij
  · exact absurd (hsince' i hij hi.le) hbefore

theorem Older.append (h : Older ops k k') (hk : k ∈ (after (ops ++ [op])).map)
    (hk' : k' ∈ (after (ops ++ [op])).map) : Older (ops ++ [op]) k k' := by
  obtain ⟨i, j, hi, hj, hij⟩ := h
  exact ⟨i, j, hi.append hk, hj.append hk', hij⟩

/-- The queue after a run: each key with the beginning of its residence, the oldest first. -/
structure InOrder (ops : List CacheOp) (order : List StreamKey) : Prop where
  resident : ∀ k ∈ order, ∃ i, ResidentSince ops k i
  older : order.Pairwise (Older ops)

variable {order : List StreamKey}

theorem InOrder.sublist {order' : List StreamKey} (h : InOrder ops order)
    (hsub : order'.Sublist order) : InOrder ops order' :=
  ⟨fun k hk => h.resident k (hsub.subset hk), h.older.sublist hsub⟩

/-- Keys that an operation leaves in the cache stay in order. -/
theorem InOrder.append (h : InOrder ops order)
    (hkept : ∀ k ∈ order, k ∈ (after (ops ++ [op])).map) : InOrder (ops ++ [op]) order := by
  refine ⟨fun k hk => ?_, h.older.imp_of_mem fun hk hk' h => h.append (hkept _ hk) (hkept _ hk')⟩
  obtain ⟨i, hi⟩ := h.resident k hk
  exact ⟨i, hi.append (hkept k hk)⟩

/-- A key that comes in is younger than all that stay. -/
theorem InOrder.concat (h : InOrder ops order)
    (hkept : ∀ k ∈ order ++ [k'], k ∈ (after (ops ++ [op])).map) (hnew : k' ∉ (after ops).map) :
    InOrder (ops ++ [op]) (order ++ [k']) := by
  have hk' := residentSince_length hnew (hkept k' (by simp))
  have hold := h.append fun k hk => hkept k (List.mem_append_left _ hk)
  refine ⟨fun k hk => ?_, List.pairwise_append.2 ⟨hold.older, List.pairwise_singleton _ _, ?_⟩⟩
  · obtain hk | hk := List.mem_append.1 hk
    · exact hold.resident k hk
    · exact List.mem_singleton.1 hk ▸ ⟨_, hk'⟩
  · intro k hk _ hnew'
    cases List.mem_singleton.1 hnew'
    obtain ⟨i, hi⟩ := h.resident k hk
    exact ⟨i, ops.length, hi.append (hkept k (List.mem_append_left _ hk)), hk', hi.1⟩

theorem inOrder_after (ops : List CacheOp) : InOrder ops (after ops).order := by
  induction ops using List.reverseRecOn with
  | nil => exact ⟨by simp [after, new], List.Pairwise.nil⟩
  | append_singleton ops op ih =>
    have hkept := fun k => ((wellFormed_after (ops ++ [op])).mem_order k).1
    cases op with
    | insert key s =>
      have hafter : after (ops ++ [.insert key s]) = (after ops).insert key s := after_append _ _
      obtain ⟨hkey, heq⟩ | ⟨hkey, hlen, heq⟩ | ⟨hkey, hlen, oldest, rest, horder, heq⟩ :=
        (wellFormed_after ops).insert_cases key s
      · have hsame : (after (ops ++ [.insert key s])).order = (after ops).order := by
          rw [hafter, heq]
        rw [hsame] at hkept ⊢
        exact ih.append hkept
      · have hlast : (after (ops ++ [.insert key s])).order = (after ops).order ++ [key] := by
          rw [hafter, heq]
        rw [hlast] at hkept ⊢
        exact ih.concat hkept hkey
      · have hlast : (after (ops ++ [.insert key s])).order = rest ++ [key] := by
          rw [hafter, heq]
        rw [hlast] at hkept ⊢
        exact (ih.sublist (horder ▸ List.sublist_cons_self oldest rest)).concat hkept hkey
    | get key =>
      have hsame : after (ops ++ [.get key]) = after ops := after_append _ _
      rw [hsame] at hkept ⊢
      exact ih.append (hsame ▸ hkept)
    | clear =>
      have hempty : (after (ops ++ [.clear])).order = [] := by rw [after_append]; rfl
      rw [hempty]
      exact ⟨fun k hk => absurd hk List.not_mem_nil, List.Pairwise.nil⟩

/-- Only a new key at a full cache evicts, and it evicts the head of the queue. -/
theorem evicts_insert {cache : DdStructureCache} (hcache : cache.WellFormed) {key : StreamKey}
    {s : TemplateDependencyStructure} (h : Evicts k cache (.insert key s)) :
    key ∉ cache.map ∧ cache.order.length = maxStreams ∧ ∃ rest, cache.order = k :: rest := by
  obtain ⟨-, hk, hgone⟩ := h
  change k ∉ (cache.insert key s).map at hgone
  obtain ⟨hkey, heq⟩ | ⟨hkey, hlen, heq⟩ | ⟨hkey, hlen, oldest, rest, horder, heq⟩ :=
    hcache.insert_cases key s
  · rw [heq, AList.mem_insert] at hgone
    exact absurd (.inr hk) hgone
  · rw [heq, AList.mem_insert] at hgone
    exact absurd (.inr hk) hgone
  · rw [heq, AList.mem_insert, AList.mem_erase] at hgone
    have holdest : k = oldest := by
      by_contra hne
      exact hgone (.inr ⟨hne, hk⟩)
    exact ⟨hkey, hlen, rest, holdest ▸ horder⟩

/-- After any operations the cache is a bounded map that evicts in the order of arrival. -/
theorem after_bounded_fifo (ops : List CacheOp) :
    (after ops).len ≤ maxStreams ∧
    ((after ops).order.Nodup ∧ ∀ k, k ∈ (after ops).order ↔ k ∈ (after ops).map) ∧
    (∀ k s, (after ops).get k = some s ↔
      structureCache.Since (fun _ op => op = .insert k s) (Ends k) new ops) ∧
    ∀ key s evicted, Evicts evicted (after ops) (.insert key s) →
      key ∉ (after ops).map ∧ (after ops).len = maxStreams ∧
      ∃ i, ResidentSince ops evicted i ∧
        ∀ k ∈ (after ops).map, k ≠ evicted → ∃ j, ResidentSince ops k j ∧ i < j := by
  have hwf := wellFormed_after ops
  refine ⟨hwf.len_eq ▸ hwf.length_le, ⟨hwf.nodup, hwf.mem_order⟩, fun k s => ?_,
    fun key s evicted hevicts => ?_⟩
  · exact Machine.run_iff_since (P := fun cache => cache.get k = some s) (by rw [get_new]; simp)
      (fun cache op => get_step_iff cache op k s) ops
  · obtain ⟨hnew, hfull, rest, horder⟩ := evicts_insert hwf hevicts
    have hinOrder := inOrder_after ops
    rw [horder] at hinOrder
    obtain ⟨i, hi⟩ := hinOrder.resident evicted (by simp)
    refine ⟨hnew, hwf.len_eq.trans hfull, i, hi, fun k hk hne => ?_⟩
    have hrest : k ∈ rest :=
      (List.mem_cons.1 (horder ▸ (hwf.mem_order k).2 hk)).resolve_left hne
    obtain ⟨i', j, hi', hj, hij⟩ := List.rel_of_pairwise_cons hinOrder.older hrest
    exact ⟨j, hj, hi.unique hi' ▸ hij⟩

end CacheOp

end PartnerEdge.Svc
