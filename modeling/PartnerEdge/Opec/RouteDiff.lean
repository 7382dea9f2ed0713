import PartnerEdge.Collections.HashTable
import PartnerEdge.Opec.Caddy

/-!
# Differences between route arrays

Live and proposed routes are compared through tables keyed by the routes' ids. A table has one route
for each id, so a difference accounts for all routes if no two routes of one side share an id. Of
the routes rendered from an accepted file, only redirects of one tenant can.
-/

namespace PartnerEdge.Opec

open Text Collections

/-- `route_id(v).unwrap_or_default()` -/
def routeKey (v : JsonTree) : Str := (routeId v).getD []

structure RouteDiff where
  added : List JsonTree
  removed : List Str
  changed : List (Str × JsonTree × JsonTree)
  unchanged : Nat

def idMap (routes : List JsonTree) : List (Str × JsonTree) :=
  collect (routes.filterMap fun v => (routeId v).map fun id => (id, v))

section Tables

variable (liveMap proposedMap : List (Str × JsonTree))

def addedRoutes : List JsonTree :=
  (proposedMap.filter fun e => (liveMap.lookup e.1).isNone).map Prod.snd

def removedIds : List Str :=
  (liveMap.map Prod.fst).filter fun id => (proposedMap.lookup id).isNone

def changedRoute (e : Str × JsonTree) : Option (Str × JsonTree × JsonTree) :=
  match liveMap.lookup e.1 with
  | some liveVal => if liveVal = e.2 then none else some (e.1, liveVal, e.2)
  | none => none

def changedRoutes : List (Str × JsonTree × JsonTree) := proposedMap.filterMap (changedRoute liveMap)

def sameRoutes : List (Str × JsonTree) :=
  proposedMap.filter fun e => liveMap.lookup e.1 == some e.2

end Tables

def diffRoutes (order : HashOrder) (live proposed : List JsonTree) : RouteDiff :=
  let liveMap := order.list 0 (idMap live)
  let proposedMap := order.list 1 (idMap proposed)
  { added := (addedRoutes liveMap proposedMap).mergeSort fun a b => routeKey a ≤ routeKey b
    removed := (removedIds liveMap proposedMap).mergeSort
    changed := (changedRoutes liveMap proposedMap).mergeSort fun a b => a.1 ≤ b.1
    unchanged := (sameRoutes liveMap proposedMap).length }

/-! ## What a difference should say -/

namespace RouteDiff

/-- The route that stands for a live one afterwards. -/
def replace (diff : RouteDiff) (v : JsonTree) : JsonTree :=
  (((routeId v).bind fun id => diff.changed.lookup id).map Prod.snd).getD v

/-- The live routes, changed as the difference says. -/
def apply (diff : RouteDiff) (live : List JsonTree) : List JsonTree :=
  (live.filter fun v => (routeId v).all fun id => !diff.removed.contains id).map diff.replace ++
    diff.added

/-- The difference accounts for every route. -/
structure Accounts (diff : RouteDiff) (live proposed : List JsonTree) : Prop where
  liveIds : (live.map routeId).Nodup
  proposedIds : (proposed.map routeId).Nodup
  placed : (diff.added ++ diff.changed.map (fun c => c.2.2) ++
    proposed.filter fun v => live.contains v).Perm proposed
  unchanged : diff.unchanged = (proposed.filter fun v => live.contains v).length
  removed : diff.removed.Nodup ∧
    ∀ id, id ∈ diff.removed ↔ some id ∈ live.map routeId ∧ some id ∉ proposed.map routeId
  applied : (diff.apply live).Perm proposed

end RouteDiff

/-! ## Tables of routes with different ids -/

theorem placed_perm (liveMap proposedMap : List (Str × JsonTree)) :
    (addedRoutes liveMap proposedMap ++ (changedRoutes liveMap proposedMap).map (fun c => c.2.2) ++
      (sameRoutes liveMap proposedMap).map Prod.snd).Perm (proposedMap.map Prod.snd) := by
  induction proposedMap with
  | nil => rfl
  | cons e proposedMap ih =>
    rw [List.map_cons]
    cases hlookup : liveMap.lookup e.1 with
    | none => simpa [addedRoutes, changedRoutes, changedRoute, sameRoutes, hlookup] using ih
    | some w =>
      have hadded : addedRoutes liveMap (e :: proposedMap) = addedRoutes liveMap proposedMap := by
        simp [addedRoutes, hlookup]
      by_cases hw : w = e.2
      · have hchanged : changedRoutes liveMap (e :: proposedMap) =
            changedRoutes liveMap proposedMap := by
          simp [changedRoutes, changedRoute, hlookup, hw]
        have hsame : sameRoutes liveMap (e :: proposedMap) =
            e :: sameRoutes liveMap proposedMap := by
          simp [sameRoutes, hlookup, hw]
        rw [hadded, hchanged, hsame, List.map_cons]
        exact List.perm_middle.trans (ih.cons _)
      · have hchanged : changedRoutes liveMap (e :: proposedMap) =
            (e.1, w, e.2) :: changedRoutes liveMap proposedMap := by
          simp [changedRoutes, changedRoute, hlookup, hw]
        have hsame : sameRoutes liveMap (e :: proposedMap) = sameRoutes liveMap proposedMap := by
          simp [sameRoutes, hlookup, hw]
        rw [hadded, hchanged, hsame, List.map_cons, List.append_assoc, List.cons_append]
        refine List.perm_middle.trans (.cons _ ?_)
        rwa [← List.append_assoc]

/-- Every route has an id, and no two have the same. -/
structure Identified (routes : List JsonTree) : Prop where
  routeId_eq : ∀ v ∈ routes, routeId v = some (routeKey v)
  nodup : (routes.map routeKey).Nodup

namespace Identified

variable {routes live proposed : List JsonTree} {v w : JsonTree} {id : Str} {order : HashOrder}
  {table : Nat}

variable (h : Identified routes)
include h

theorem inj (hv : v ∈ routes) (hw : w ∈ routes) (hid : routeId v = routeId w) : v = w := by
  refine List.inj_on_of_nodup_map h.nodup hv hw ?_
  rw [routeKey, hid, routeKey]

theorem nodup_routeId : (routes.map routeId).Nodup := by
  have hkeys : routes.map routeId = (routes.map routeKey).map some := by
    rw [List.map_map]
    exact List.map_congr_left h.routeId_eq
  rw [hkeys]
  exact h.nodup.map (Option.some_injective _)

theorem idMap_eq : idMap routes = routes.map fun v => (routeKey v, v) := by
  have hall : routes.filterMap (fun v => (routeId v).map fun id => (id, v)) =
      routes.map fun v => (routeKey v, v) := by
    rw [← List.filterMap_eq_map]
    refine List.filterMap_congr fun v hv => ?_
    rw [h.routeId_eq v hv]
    rfl
  rw [idMap, hall, collect_of_nodup]
  rw [List.map_map]
  exact h.nodup

theorem mem_entries :
    (id, v) ∈ order.list table (idMap routes) ↔ v ∈ routes ∧ routeId v = some id := by
  rw [order.mem_list, h.idMap_eq, List.mem_map]
  constructor
  · rintro ⟨w, hw, he⟩
    obtain ⟨rfl, rfl⟩ := Prod.mk.inj he
    exact ⟨hw, h.routeId_eq w hw⟩
  · rintro ⟨hv, hid⟩
    exact ⟨v, hv, by rw [routeKey, hid]; rfl⟩

theorem nodup_keys : ((order.list table (idMap routes)).map Prod.fst).Nodup := by
  rw [((order.perm table _).map Prod.fst).nodup_iff, h.idMap_eq, List.map_map]
  exact h.nodup

theorem lookup_entries :
    (order.list table (idMap routes)).lookup id = some v ↔ v ∈ routes ∧ routeId v = some id := by
  rw [lookup_eq_some_iff_mem h.nodup_keys, h.mem_entries]

theorem lookup_entries_eq_none :
    (order.list table (idMap routes)).lookup id = none ↔ some id ∉ routes.map routeId := by
  rw [Option.eq_none_iff_forall_not_mem]
  simp only [Option.mem_def, h.lookup_entries, List.mem_map, not_and, not_exists]

theorem perm_entries (order : HashOrder) (table : Nat) :
    ((order.list table (idMap routes)).map Prod.snd).Perm routes := by
  refine ((order.perm table _).map Prod.snd).trans (.of_eq ?_)
  rw [h.idMap_eq, List.map_map]
  exact List.map_id _

end Identified

/-! ## Differences of routes with different ids -/

section Diff

variable {live proposed : List JsonTree} {v w : JsonTree} {id : Str} {order : HashOrder}

theorem nodup_removed (hlive : Identified live) :
    (diffRoutes order live proposed).removed.Nodup := by
  rw [diffRoutes, (List.mergeSort_perm _ _).nodup_iff, removedIds]
  exact hlive.nodup_keys.filter _

theorem nodup_changed (hproposed : Identified proposed) :
    ((diffRoutes order live proposed).changed.map Prod.fst).Nodup := by
  rw [diffRoutes, ((List.mergeSort_perm _ _).map _).nodup_iff, changedRoutes]
  refine List.Nodup.sublist (map_filterMap_sublist (fun e c hc => ?_) _) hproposed.nodup_keys
  unfold changedRoute at hc
  split at hc
  · split at hc <;> cases hc
    rfl
  · cases hc

variable (hlive : Identified live) (hproposed : Identified proposed)
include hlive hproposed

theorem mem_added :
    v ∈ (diffRoutes order live proposed).added ↔ v ∈ proposed ∧ routeId v ∉ live.map routeId := by
  rw [diffRoutes, List.mem_mergeSort, addedRoutes, List.mem_map]
  constructor
  · rintro ⟨⟨id, v⟩, he, rfl⟩
    obtain ⟨hmem, hnone⟩ := List.mem_filter.1 he
    obtain ⟨hv, hid⟩ := hproposed.mem_entries.1 hmem
    exact ⟨hv, hid ▸ hlive.lookup_entries_eq_none.1 (Option.isNone_iff_eq_none.1 hnone)⟩
  · rintro ⟨hv, hnone⟩
    have hid := hproposed.routeId_eq v hv
    refine ⟨(routeKey v, v), List.mem_filter.2 ⟨hproposed.mem_entries.2 ⟨hv, hid⟩, ?_⟩, rfl⟩
    exact Option.isNone_iff_eq_none.2 (hlive.lookup_entries_eq_none.2 (hid ▸ hnone))

theorem mem_removed :
    id ∈ (diffRoutes order live proposed).removed ↔
      some id ∈ live.map routeId ∧ some id ∉ proposed.map routeId := by
  rw [diffRoutes, List.mem_mergeSort, removedIds, List.mem_filter, Option.isNone_iff_eq_none,
    hproposed.lookup_entries_eq_none]
  refine and_congr_left fun _ => ?_
  simp only [List.mem_map, Prod.exists, exists_and_right, exists_eq_right, hlive.mem_entries]

theorem mem_changed :
    (id, w, v) ∈ (diffRoutes order live proposed).changed ↔
      w ∈ live ∧ v ∈ proposed ∧ routeId w = some id ∧ routeId v = some id ∧ w ≠ v := by
  rw [diffRoutes, List.mem_mergeSort, changedRoutes, List.mem_filterMap]
  constructor
  · rintro ⟨⟨id', v'⟩, hmem, he⟩
    obtain ⟨hv, hid⟩ := hproposed.mem_entries.1 hmem
    unfold changedRoute at he
    split at he
    · next w' hlookup =>
      obtain ⟨hw, hidw⟩ := hlive.lookup_entries.1 hlookup
      split at he
      · cases he
      · next hne =>
        cases he
        exact ⟨hw, hv, hidw, hid, hne⟩
    · cases he
  · rintro ⟨hw, hv, hidw, hid, hne⟩
    refine ⟨(id, v), hproposed.mem_entries.2 ⟨hv, hid⟩, ?_⟩
    rw [changedRoute, hlive.lookup_entries.2 ⟨hw, hidw⟩]
    exact if_neg hne

theorem replace_eq (hw : w ∈ live) (hv : v ∈ proposed) (hid : routeId w = routeId v) :
    (diffRoutes order live proposed).replace w = v := by
  have hkey := hproposed.routeId_eq v hv
  rw [RouteDiff.replace, hid, hkey, Option.bind_some]
  by_cases hsame : w = v
  · have hnone : (diffRoutes order live proposed).changed.lookup (routeKey v) = none := by
      refine Option.eq_none_iff_forall_ne_some.2 fun ⟨w', v'⟩ hlookup => ?_
      rw [lookup_eq_some_iff_mem (nodup_changed hproposed), mem_changed hlive hproposed] at hlookup
      obtain ⟨hw', hv', hidw, hidv, hne⟩ := hlookup
      refine hne ?_
      rw [hlive.inj hw' hw (hidw.trans (hid.trans hkey).symm), hsame,
        hproposed.inj hv' hv (hidv.trans hkey.symm)]
    rw [hnone, hsame]
    rfl
  · have hchanged : (diffRoutes order live proposed).changed.lookup (routeKey v) = some (w, v) := by
      rw [lookup_eq_some_iff_mem (nodup_changed hproposed), mem_changed hlive hproposed]
      exact ⟨hw, hv, hid.trans hkey, hkey, hsame⟩
    rw [hchanged]
    rfl

theorem mem_sameRoutes {e : Str × JsonTree} (he : e ∈ order.list 1 (idMap proposed)) :
    ((order.list 0 (idMap live)).lookup e.1 == some e.2) = live.contains e.2 := by
  obtain ⟨hv, hid⟩ := hproposed.mem_entries.1 he
  rw [Bool.eq_iff_iff, beq_iff_eq, hlive.lookup_entries, List.contains_iff_mem]
  exact and_iff_left hid

theorem map_sameRoutes_perm (order : HashOrder) :
    ((sameRoutes (order.list 0 (idMap live)) (order.list 1 (idMap proposed))).map Prod.snd).Perm
      (proposed.filter fun v => live.contains v) := by
  rw [sameRoutes, List.filter_congr fun e he => mem_sameRoutes hlive hproposed he]
  rw [← Function.comp_def live.contains, ← List.filter_map]
  exact (hproposed.perm_entries order 1).filter _

theorem placed_of_identified (order : HashOrder) :
    ((diffRoutes order live proposed).added ++
      (diffRoutes order live proposed).changed.map (fun c => c.2.2) ++
      proposed.filter fun v => live.contains v).Perm proposed := by
  refine List.Perm.trans ?_ ((placed_perm (order.list 0 (idMap live)) _).trans
    (hproposed.perm_entries order 1))
  exact ((List.mergeSort_perm _ _).append ((List.mergeSort_perm _ _).map _)).append
    (map_sameRoutes_perm hlive hproposed order).symm

theorem nodup_added : ((diffRoutes order live proposed).added.map routeId).Nodup := by
  have hall := ((placed_of_identified hlive hproposed order).map routeId).nodup_iff.2
    hproposed.nodup_routeId
  rw [List.append_assoc, List.map_append] at hall
  exact hall.of_append_left

theorem kept_iff (hw : w ∈ live) :
    ((routeId w).all fun id => !(diffRoutes order live proposed).removed.contains id) = true ↔
      ∃ v ∈ proposed, routeId w = routeId v := by
  have hmem : some (routeKey w) ∈ live.map routeId :=
    List.mem_map.2 ⟨w, hw, hlive.routeId_eq w hw⟩
  rw [hlive.routeId_eq w hw, Option.all_some, Bool.not_eq_true', ← Bool.not_eq_true,
    List.contains_iff_mem, mem_removed hlive hproposed, not_and_not_right]
  simp only [hmem, true_imp_iff, List.mem_map, eq_comm]

theorem mem_apply : v ∈ (diffRoutes order live proposed).apply live ↔ v ∈ proposed := by
  rw [RouteDiff.apply, List.mem_append, mem_added hlive hproposed, List.mem_map]
  constructor
  · rintro (⟨w, hw, rfl⟩ | ⟨hv, -⟩)
    · obtain ⟨hw, hkept⟩ := List.mem_filter.1 hw
      obtain ⟨v, hv, hid⟩ := (kept_iff hlive hproposed hw).1 hkept
      rwa [replace_eq hlive hproposed hw hv hid]
    · exact hv
  · intro hv
    by_cases hold : routeId v ∈ live.map routeId
    · obtain ⟨w, hw, hid⟩ := List.mem_map.1 hold
      exact .inl ⟨w, List.mem_filter.2 ⟨hw, (kept_iff hlive hproposed hw).2 ⟨v, hv, hid⟩⟩,
        replace_eq hlive hproposed hw hv hid⟩
    · exact .inr ⟨hv, hold⟩

theorem nodup_apply : (((diffRoutes order live proposed).apply live).map routeId).Nodup := by
  have hreplace (w : JsonTree) (hw : w ∈ live.filter fun v =>
      (routeId v).all fun id => !(diffRoutes order live proposed).removed.contains id) :
      (routeId ∘ (diffRoutes order live proposed).replace) w = routeId w := by
    obtain ⟨hw, hkept⟩ := List.mem_filter.1 hw
    obtain ⟨v, hv, hid⟩ := (kept_iff hlive hproposed hw).1 hkept
    rw [Function.comp_apply, replace_eq hlive hproposed hw hv hid, hid]
  rw [RouteDiff.apply, List.map_append, List.map_map, List.map_congr_left hreplace]
  refine List.Nodup.append (hlive.nodup_routeId.sublist (List.filter_sublist.map _))
    (nodup_added hlive hproposed) fun id hold hnew => ?_
  obtain ⟨v, hv, rfl⟩ := List.mem_map.1 hnew
  exact ((mem_added hlive hproposed).1 hv).2 ((List.filter_sublist.map _).subset hold)

theorem accounts_of_identified (order : HashOrder) :
    (diffRoutes order live proposed).Accounts live proposed where
  liveIds := hlive.nodup_routeId
  proposedIds := hproposed.nodup_routeId
  placed := placed_of_identified hlive hproposed order
  unchanged := by
    rw [← (map_sameRoutes_perm hlive hproposed order).length_eq, List.length_map]
    rfl
  removed := ⟨nodup_removed hlive, fun _ => mem_removed hlive hproposed⟩
  applied := by
    refine (List.perm_ext_iff_of_nodup (nodup_apply hlive hproposed).of_map
      hproposed.nodup_routeId.of_map).2 fun v => mem_apply hlive hproposed

end Diff

/-! ## Rendered routes -/

/-- No two redirects of the tenant have the same source. -/
def Tenant.RedirectsOnce (t : Tenant) : Prop := (t.redirects.map Redirect.fromHost).Nodup

theorem routeId_eq_of_mem_renderTenant {t : Tenant} {v : JsonTree} (h : v ∈ renderTenant t) :
    routeId v = some (routeKey v) := by
  unfold renderTenant at h
  split at h
  · rcases List.mem_cons.1 h with rfl | hmem
    · simp [routeKey]
    · obtain ⟨r, -, rfl⟩ := List.mem_map.1 hmem
      simp [routeKey]
  · cases h

theorem map_routeKey_renderTenant (t : Tenant) : (renderTenant t).map routeKey =
    if t.enabled then mainId t.id :: t.redirects.map (fun r => redirectId t.id r.fromHost)
    else [] := by
  unfold renderTenant
  split
  · simp [routeKey]
  · rfl

theorem nodup_renderTenant_iff {t : Tenant} (ht : ':' ∉ t.id) :
    ((renderTenant t).map routeKey).Nodup ↔ (t.enabled = true → t.RedirectsOnce) := by
  rw [map_routeKey_renderTenant]
  by_cases hon : t.enabled = true
  · have hmain : mainId t.id ∉ t.redirects.map fun r => redirectId t.id r.fromHost := by
      intro hmem
      obtain ⟨r, -, hr⟩ := List.mem_map.1 hmem
      exact mainId_ne_redirectId ht _ _ hr.symm
    have hinj : Function.Injective (redirectId t.id) := fun f g hfg =>
      ((redirectId_inj ht ht).1 hfg).2
    rw [if_pos hon, List.nodup_cons, and_iff_right hmain, Tenant.RedirectsOnce]
    rw [← Function.comp_def (redirectId t.id), ← List.map_map, List.nodup_map_iff hinj]
    simp [hon]
  · simp [hon]

theorem mem_map_routeKey_renderTenant {t : Tenant} {key : Str}
    (h : key ∈ (renderTenant t).map routeKey) :
    key = mainId t.id ∨ ∃ f, key = redirectId t.id f := by
  rw [map_routeKey_renderTenant] at h
  split at h
  · rcases List.mem_cons.1 h with hmain | hmem
    · exact .inl hmain
    · obtain ⟨r, -, rfl⟩ := List.mem_map.1 hmem
      exact .inr ⟨_, rfl⟩
  · cases h

theorem disjoint_renderTenant {t t' : Tenant} (ht : ':' ∉ t.id) (ht' : ':' ∉ t'.id)
    (hne : t.id ≠ t'.id) :
    ((renderTenant t).map routeKey).Disjoint ((renderTenant t').map routeKey) := by
  intro key hkey hkey'
  rcases mem_map_routeKey_renderTenant hkey with rfl | ⟨f, rfl⟩ <;>
    rcases mem_map_routeKey_renderTenant hkey' with heq | ⟨g, heq⟩
  · exact hne (mainId_inj.1 heq)
  · exact mainId_ne_redirectId ht _ _ heq
  · exact mainId_ne_redirectId ht' _ _ heq.symm
  · exact hne ((redirectId_inj ht ht').1 heq).1

theorem nodup_renderTenantRoutes_iff {file : TenantsFile} (hvalid : file.Valid) :
    ((renderTenantRoutes file.tenants).map routeKey).Nodup ↔
      ∀ t ∈ file.tenants, t.enabled = true → t.RedirectsOnce := by
  have hcolon (t : Tenant) (ht : t ∈ file.tenants) : ':' ∉ t.id :=
    colon_notMem_of_isTenantId (hvalid.idFormat t ht)
  have hapart : file.tenants.Pairwise
      (Function.onFun List.Disjoint fun t => (renderTenant t).map routeKey) :=
    (List.pairwise_map.1 hvalid.ids).imp_of_mem fun ht ht' hne =>
      disjoint_renderTenant (hcolon _ ht) (hcolon _ ht') hne
  rw [renderTenantRoutes, List.map_flatMap, List.nodup_flatMap, and_iff_left hapart]
  exact forall₂_congr fun t ht => nodup_renderTenant_iff (hcolon t ht)

theorem identified_renderTenantRoutes {file : TenantsFile} (hvalid : file.Valid)
    (h : ∀ t ∈ file.tenants, t.enabled = true → t.RedirectsOnce) :
    Identified (renderTenantRoutes file.tenants) where
  routeId_eq v hv := by
    obtain ⟨t, -, hv⟩ := List.mem_flatMap.1 hv
    exact routeId_eq_of_mem_renderTenant hv
  nodup := (nodup_renderTenantRoutes_iff hvalid).2 h

theorem redirectsOnce_of_nodup {file : TenantsFile} (hvalid : file.Valid)
    (h : ((renderTenantRoutes file.tenants).map routeId).Nodup) :
    ∀ t ∈ file.tenants, t.enabled = true → t.RedirectsOnce := by
  refine (nodup_renderTenantRoutes_iff hvalid).1 (List.Nodup.of_map some ?_)
  rw [List.map_map]
  convert h using 1
  refine List.map_congr_left fun v hv => ?_
  obtain ⟨t, -, hv⟩ := List.mem_flatMap.1 hv
  exact (routeId_eq_of_mem_renderTenant hv).symm

/-- For the routes of two valid files the difference accounts for every route iff no enabled tenant
redirects a host twice. -/
theorem diff_accounts_iff_redirectsOnce (order : HashOrder) (left right : TenantsFile)
    (hleft : validate left = .ok ()) (hright : validate right = .ok ()) :
    (diffRoutes order (renderTenantRoutes left.tenants) (renderTenantRoutes right.tenants)).Accounts
      (renderTenantRoutes left.tenants) (renderTenantRoutes right.tenants) ↔
    (∀ t ∈ left.tenants, t.enabled = true → t.RedirectsOnce) ∧
      ∀ t ∈ right.tenants, t.enabled = true → t.RedirectsOnce := by
  have hvalid := TenantsFile.valid_of_validate hleft
  have hvalid' := TenantsFile.valid_of_validate hright
  constructor
  · intro haccounts
    exact ⟨redirectsOnce_of_nodup hvalid haccounts.liveIds,
      redirectsOnce_of_nodup hvalid' haccounts.proposedIds⟩
  · rintro ⟨honce, honce'⟩
    exact accounts_of_identified (identified_renderTenantRoutes hvalid honce)
      (identified_renderTenantRoutes hvalid' honce') order

/-- A tenant with two redirects. -/
def redirecting (first second : Redirect) : TenantsFile :=
  ⟨1, [⟨"shop".toList, ["shop.example.com".toList], true, [], none, [first, second]⟩]⟩

def fromWww : Redirect := ⟨"www.example.com".toList, "https://shop.example.com".toList, true⟩

def fromOld : Redirect := ⟨"old.example.com".toList, "https://shop.example.com".toList, false⟩

def fromWwwElsewhere : Redirect := { fromWww with toUrl := "https://example.com".toList }

theorem diff_accounts_of_other_redirects :
    let left := renderTenantRoutes (redirecting fromWww fromOld).tenants
    let right := renderTenantRoutes (redirecting fromWwwElsewhere fromOld).tenants
    (diffRoutes .insertion left right).Accounts left right :=
  (diff_accounts_iff_redirectsOnce .insertion (redirecting fromWww fromOld)
    (redirecting fromWwwElsewhere fromOld) (by decide +kernel) (by decide +kernel)).2
    (by unfold Tenant.RedirectsOnce; decide +kernel)

/-- Two redirects from one host are accepted and get one id. If the first of them changes, the
difference is empty. -/
theorem repeated_redirect_unaccounted :
    let left := redirecting fromWww fromWwwElsewhere
    let right := redirecting fromWwwElsewhere fromWwwElsewhere
    let diff := diffRoutes .insertion (renderTenantRoutes left.tenants)
      (renderTenantRoutes right.tenants)
    validate left = .ok () ∧ validate right = .ok () ∧
      (diff.added = [] ∧ diff.removed = [] ∧ diff.changed = [] ∧ diff.unchanged = 2) ∧
      ¬diff.Accounts (renderTenantRoutes left.tenants) (renderTenantRoutes right.tenants) := by
  refine ⟨by decide +kernel, by decide +kernel, by decide +kernel, fun haccounts => ?_⟩
  exact absurd haccounts.liveIds (by decide +kernel)

end PartnerEdge.Opec
