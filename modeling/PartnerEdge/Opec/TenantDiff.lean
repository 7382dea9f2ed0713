import PartnerEdge.Collections.HashTable
import PartnerEdge.Opec.Caddy

/-!
# Differences between tenants files

`opec tenant diff` compares tenants of the same id by their domains, by whether they are enabled
and, for every path, by the first route of the path. It does not look at redirects and security
headers, nor at the order of routes and the later routes of a path. A difference in these alone is
not reported, although the rendered routes depend on the redirects and on the order of the routes.
-/

namespace PartnerEdge.Opec

open Text Collections

structure ChangedTenant where
  id : Str
  routePathsChanged : List Str
  domainsChanged : Bool
  enabledChanged : Bool
deriving DecidableEq, Repr

structure DiffOutput where
  added : List Str
  removed : List Str
  changed : List ChangedTenant
deriving DecidableEq, Repr

/-- `t.routes.iter().find(|r| r.path == path)` -/
def Tenant.firstRoute (t : Tenant) (path : Str) : Option Route := t.routes.find? (·.path == path)

def Tenant.paths (t : Tenant) : List Str := (t.routes.map Route.path).dedup

def changedPaths (order : HashOrder) (lt rt : Tenant) : List Str :=
  let oneSide := order.list 4 (lt.paths.filter (!rt.paths.contains ·) ++
    rt.paths.filter (!lt.paths.contains ·))
  let bothSides := order.list 5 (lt.paths.filter rt.paths.contains)
  let changed := oneSide ++ bothSides.filter fun path => lt.firstRoute path != rt.firstRoute path
  changed.mergeSort.destutter (· ≠ ·)

def changedTenant (order : HashOrder) (id : Str) (lt rt : Tenant) : Option ChangedTenant :=
  let paths := changedPaths order lt rt
  let domainsChanged := lt.domains != rt.domains
  let enabledChanged := lt.enabled != rt.enabled
  if !paths.isEmpty || domainsChanged || enabledChanged then
    some ⟨id, paths, domainsChanged, enabledChanged⟩
  else none

def tenantMap (file : TenantsFile) : List (Str × Tenant) :=
  collect (file.tenants.map fun t => (t.id, t))

def cmdDiff (order : HashOrder) (left right : TenantsFile) : DiffOutput :=
  let leftMap := order.list 0 (tenantMap left)
  let rightMap := order.list 1 (tenantMap right)
  let leftIds := leftMap.map Prod.fst
  let rightIds := rightMap.map Prod.fst
  let commonIds := (order.list 2 (leftIds.filter rightIds.contains)).mergeSort
  { added := (order.list 3 (rightIds.filter (!leftIds.contains ·))).mergeSort
    removed := (order.list 3 (leftIds.filter (!rightIds.contains ·))).mergeSort
    -- an id of both files is in both maps, so that indexing them does not panic
    changed := commonIds.filterMap fun id => do
      changedTenant order id (← leftMap.lookup id) (← rightMap.lookup id) }

/-! ## What is compared -/

/-- The two tenants agree in all that is compared. -/
structure LookAlike (lt rt : Tenant) : Prop where
  domains : lt.domains = rt.domains
  enabled : lt.enabled = rt.enabled
  routes : ∀ path, lt.firstRoute path = rt.firstRoute path

/-- The files have tenants of the same ids, and these look alike. -/
structure FilesLookAlike (left right : TenantsFile) : Prop where
  ids : ∀ id, id ∈ left.tenants.map Tenant.id ↔ id ∈ right.tenants.map Tenant.id
  tenants : ∀ lt ∈ left.tenants, ∀ rt ∈ right.tenants, lt.id = rt.id → LookAlike lt rt

theorem firstRoute_isSome (t : Tenant) (path : Str) :
    (t.firstRoute path).isSome = true ↔ path ∈ t.paths := by
  simp [Tenant.firstRoute, Tenant.paths]

theorem changedPaths_eq_nil {order : HashOrder} {lt rt : Tenant} :
    changedPaths order lt rt = [] ↔ ∀ path, lt.firstRoute path = rt.firstRoute path := by
  rw [changedPaths, List.destutter_eq_nil, List.eq_nil_iff_forall_not_mem]
  refine forall_congr' fun path => ?_
  have hleft := firstRoute_isSome lt path
  have hright := firstRoute_isSome rt path
  simp only [List.mem_mergeSort, List.mem_append, List.mem_filter, order.mem_list]
  cases hl : lt.firstRoute path <;> cases hr : rt.firstRoute path <;> simp_all

theorem changedTenant_eq_none {order : HashOrder} {id : Str} {lt rt : Tenant} :
    changedTenant order id lt rt = none ↔ LookAlike lt rt := by
  simp only [changedTenant, ite_eq_right_iff, reduceCtorEq, imp_false, Bool.or_eq_true,
    Bool.not_eq_true', List.isEmpty_eq_false_iff, bne_iff_ne, not_or, not_not,
    changedPaths_eq_nil]
  exact ⟨fun ⟨⟨hroutes, hdomains⟩, henabled⟩ => ⟨hdomains, henabled, hroutes⟩,
    fun h => ⟨⟨h.routes, h.domains⟩, h.enabled⟩⟩

section Files

variable {order : HashOrder} {file left right : TenantsFile} {table : Nat} {id : Str} {t : Tenant}

theorem tenantMap_eq (hvalid : file.Valid) :
    tenantMap file = file.tenants.map fun t => (t.id, t) := by
  refine collect_of_nodup ?_
  rw [List.map_map]
  exact hvalid.ids

theorem lookup_tenantMap (hvalid : file.Valid) :
    (order.list table (tenantMap file)).lookup id = some t ↔ t ∈ file.tenants ∧ t.id = id := by
  have hkeys : ((order.list table (tenantMap file)).map Prod.fst).Nodup := by
    rw [((order.perm table _).map Prod.fst).nodup_iff, tenantMap_eq hvalid, List.map_map]
    exact hvalid.ids
  rw [lookup_eq_some_iff_mem hkeys, order.mem_list, tenantMap_eq hvalid, List.mem_map]
  simp [and_comm]

theorem mem_tenantMap_keys (hvalid : file.Valid) :
    id ∈ (order.list table (tenantMap file)).map Prod.fst ↔ id ∈ file.tenants.map Tenant.id := by
  rw [((order.perm table _).map Prod.fst).mem_iff, tenantMap_eq hvalid, List.map_map]
  rfl

theorem mem_cmdDiff_added (hleft : left.Valid) (hright : right.Valid) :
    id ∈ (cmdDiff order left right).added ↔
      id ∈ right.tenants.map Tenant.id ∧ id ∉ left.tenants.map Tenant.id := by
  simp only [cmdDiff, List.mem_mergeSort, order.mem_list, List.mem_filter, Bool.not_eq_true',
    ← Bool.not_eq_true, List.contains_iff_mem, mem_tenantMap_keys hleft, mem_tenantMap_keys hright]

theorem mem_cmdDiff_removed (hleft : left.Valid) (hright : right.Valid) :
    id ∈ (cmdDiff order left right).removed ↔
      id ∈ left.tenants.map Tenant.id ∧ id ∉ right.tenants.map Tenant.id := by
  simp only [cmdDiff, List.mem_mergeSort, order.mem_list, List.mem_filter, Bool.not_eq_true',
    ← Bool.not_eq_true, List.contains_iff_mem, mem_tenantMap_keys hleft, mem_tenantMap_keys hright]

theorem cmdDiff_changed_eq_nil (hleft : left.Valid) (hright : right.Valid) :
    (cmdDiff order left right).changed = [] ↔
      ∀ lt ∈ left.tenants, ∀ rt ∈ right.tenants, lt.id = rt.id → LookAlike lt rt := by
  simp only [cmdDiff, List.filterMap_eq_nil_iff, List.mem_mergeSort, order.mem_list,
    List.mem_filter, List.contains_iff_mem, mem_tenantMap_keys hleft, mem_tenantMap_keys hright]
  constructor
  · intro h lt hlt rt hrt hid
    have hnone := h lt.id ⟨List.mem_map_of_mem hlt, hid ▸ List.mem_map_of_mem hrt⟩
    rw [(lookup_tenantMap hleft).2 ⟨hlt, rfl⟩, (lookup_tenantMap hright).2 ⟨hrt, hid.symm⟩] at hnone
    exact changedTenant_eq_none.1 hnone
  · rintro h id ⟨hl, hr⟩
    obtain ⟨lt, hlt, rfl⟩ := List.mem_map.1 hl
    obtain ⟨rt, hrt, hid⟩ := List.mem_map.1 hr
    rw [(lookup_tenantMap hleft).2 ⟨hlt, rfl⟩, (lookup_tenantMap hright).2 ⟨hrt, hid⟩]
    exact changedTenant_eq_none.2 (h lt hlt rt hrt hid.symm)

/-- No tenant is reported as added, removed or changed. -/
def DiffOutput.Nothing (diff : DiffOutput) : Prop :=
  diff.added = [] ∧ diff.removed = [] ∧ diff.changed = []

theorem nothing_iff_filesLookAlike (hleft : left.Valid) (hright : right.Valid) :
    (cmdDiff order left right).Nothing ↔ FilesLookAlike left right := by
  simp only [DiffOutput.Nothing, List.eq_nil_iff_forall_not_mem (l := DiffOutput.added _),
    List.eq_nil_iff_forall_not_mem (l := DiffOutput.removed _), mem_cmdDiff_added hleft hright,
    mem_cmdDiff_removed hleft hright, cmdDiff_changed_eq_nil hleft hright, not_and_not_right]
  exact ⟨fun ⟨hadded, hremoved, hchanged⟩ => ⟨fun id => ⟨hremoved id, hadded id⟩, hchanged⟩,
    fun h => ⟨fun id => (h.ids id).2, fun id => (h.ids id).1, h.tenants⟩⟩

/-! ## What is not compared -/

/-- Security headers, redirects, and the routes as a list. -/
def SameUnseen (lt rt : Tenant) : Prop :=
  lt.securityHeaders = rt.securityHeaders ∧ lt.redirects = rt.redirects ∧ lt.routes = rt.routes

/-- The files look alike, and some tenant differs in what is not compared. -/
def DifferUnseen (left right : TenantsFile) : Prop :=
  FilesLookAlike left right ∧
    ∃ lt ∈ left.tenants, ∃ rt ∈ right.tenants, lt.id = rt.id ∧ ¬SameUnseen lt rt

theorem eq_of_lookAlike {lt rt : Tenant} (hid : lt.id = rt.id) (halike : LookAlike lt rt)
    (hsame : SameUnseen lt rt) : lt = rt := by
  obtain ⟨hheaders, hredirects, hroutes⟩ := hsame
  obtain ⟨hdomains, henabled, -⟩ := halike
  cases lt
  cases rt
  simp_all

theorem eq_of_perm (hright : right.Valid) (hperm : left.tenants.Perm right.tenants) {lt rt : Tenant}
    (hlt : lt ∈ left.tenants) (hrt : rt ∈ right.tenants) (hid : lt.id = rt.id) : lt = rt :=
  List.inj_on_of_nodup_map hright.ids (hperm.mem_iff.1 hlt) hrt hid

theorem filesLookAlike_of_perm (hright : right.Valid) (hperm : left.tenants.Perm right.tenants) :
    FilesLookAlike left right where
  ids _ := (hperm.map Tenant.id).mem_iff
  tenants _ hlt _ hrt hid := eq_of_perm hright hperm hlt hrt hid ▸ ⟨rfl, rfl, fun _ => rfl⟩

theorem perm_of_filesLookAlike (hleft : left.Valid) (hright : right.Valid)
    (halike : FilesLookAlike left right) (hsame : ∀ lt ∈ left.tenants, ∀ rt ∈ right.tenants,
      lt.id = rt.id → SameUnseen lt rt) : left.tenants.Perm right.tenants := by
  have heq (lt : Tenant) (hlt : lt ∈ left.tenants) (rt : Tenant) (hrt : rt ∈ right.tenants)
      (hid : lt.id = rt.id) : lt = rt :=
    eq_of_lookAlike hid (halike.tenants lt hlt rt hrt hid) (hsame lt hlt rt hrt hid)
  refine (List.perm_ext_iff_of_nodup hleft.ids.of_map hright.ids.of_map).2 fun t => ⟨?_, ?_⟩
  · intro hlt
    obtain ⟨rt, hrt, hid⟩ := List.mem_map.1 ((halike.ids t.id).1 (List.mem_map_of_mem hlt))
    rwa [heq t hlt rt hrt hid.symm]
  · intro hrt
    obtain ⟨lt, hlt, hid⟩ := List.mem_map.1 ((halike.ids t.id).2 (List.mem_map_of_mem hrt))
    rwa [← heq lt hlt t hrt hid]

theorem perm_of_filesLookAlike_iff (hleft : left.Valid) (hright : right.Valid) :
    (FilesLookAlike left right → left.tenants.Perm right.tenants) ↔ ¬DifferUnseen left right := by
  constructor
  · rintro himp ⟨halike, lt, hlt, rt, hrt, hid, hunseen⟩
    obtain rfl := eq_of_perm hright (himp halike) hlt hrt hid
    exact hunseen ⟨rfl, rfl, rfl⟩
  · intro hnot halike
    refine perm_of_filesLookAlike hleft hright halike fun lt hlt rt hrt hid => ?_
    by_contra hunseen
    exact hnot ⟨halike, lt, hlt, rt, hrt, hid, hunseen⟩

end Files

/-- The difference of two valid files says nothing exactly when they have the same tenants, and it
tells whenever the rendered routes differ, iff nothing but what is not compared sets them apart. -/
theorem diff_complete_iff_not_differUnseen (order : HashOrder) (left right : TenantsFile)
    (hleft : validate left = .ok ()) (hright : validate right = .ok ()) :
    (((cmdDiff order left right).Nothing ↔ left.tenants.Perm right.tenants) ∧
      ((∃ v, ¬(v ∈ renderTenantRoutes left.tenants ↔ v ∈ renderTenantRoutes right.tenants)) →
        ¬(cmdDiff order left right).Nothing)) ↔
    ¬DifferUnseen left right := by
  have hvalid := TenantsFile.valid_of_validate hleft
  have hvalid' := TenantsFile.valid_of_validate hright
  rw [← perm_of_filesLookAlike_iff hvalid hvalid', nothing_iff_filesLookAlike hvalid hvalid']
  constructor
  · intro h
    exact h.1.1
  · intro himp
    refine ⟨⟨himp, filesLookAlike_of_perm hvalid'⟩, ?_⟩
    rintro ⟨v, hv⟩ halike
    exact hv ((himp halike).flatMap_right renderTenant).mem_iff

/-- A tenant with one redirect. -/
def redirectingTo (domain url : String) : TenantsFile :=
  ⟨1, [⟨"shop".toList, [domain.toList], true, [], none,
    [⟨"www.example.com".toList, url.toList, true⟩]⟩]⟩

theorem diff_complete_of_other_domain :
    let left := redirectingTo "shop.example.com" "https://shop.example.com"
    let right := redirectingTo "store.example.com" "https://store.example.com"
    ((cmdDiff .insertion left right).Nothing ↔ left.tenants.Perm right.tenants) ∧
      ((∃ v, ¬(v ∈ renderTenantRoutes left.tenants ↔ v ∈ renderTenantRoutes right.tenants)) →
        ¬(cmdDiff .insertion left right).Nothing) := by
  refine (diff_complete_iff_not_differUnseen .insertion
    (redirectingTo "shop.example.com" "https://shop.example.com")
    (redirectingTo "store.example.com" "https://store.example.com")
    (by decide +kernel) (by decide +kernel)).2 ?_
  rintro ⟨halike, -⟩
  have hdomains := (halike.tenants _ (List.mem_singleton_self _) _ (List.mem_singleton_self _)
    rfl).domains
  exact absurd hdomains (by decide +kernel)

/-- A redirect to another target is not reported, although another route is rendered. -/
theorem redirect_target_unreported :
    let left := redirectingTo "shop.example.com" "https://shop.example.com"
    let right := redirectingTo "shop.example.com" "https://example.com"
    validate left = .ok () ∧ validate right = .ok () ∧ (cmdDiff .insertion left right).Nothing ∧
      ¬left.tenants.Perm right.tenants ∧
      ∃ v, ¬(v ∈ renderTenantRoutes left.tenants ↔ v ∈ renderTenantRoutes right.tenants) := by
  refine ⟨by decide +kernel, by decide +kernel, by unfold DiffOutput.Nothing; decide +kernel,
    by decide +kernel, renderRedirectRoute "shop".toList
      ⟨"www.example.com".toList, "https://example.com".toList, true⟩, by decide +kernel⟩

end PartnerEdge.Opec
