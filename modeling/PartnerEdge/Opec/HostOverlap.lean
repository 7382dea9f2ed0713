import PartnerEdge.Opec.Caddy

/-!
# Hosts of different tenants

A route belongs to the tenant that its id names. The validator compares domains as texts and does
not look at redirects, while a web server compares hosts without regard to case and matches
redirects as well: the hosts of two tenants are apart exactly if the tenants are separate in this
wider sense.
-/

namespace PartnerEdge.Opec

open Text

/-- A host as HTTP compares it. -/
def foldHost (host : Str) : Str := host.map Char.toLower

def ownedBy (tenantId : Str) (route : JsonTree) : Bool :=
  (routeId route).any fun id => id == mainId tenantId || (redirectId tenantId []).isPrefixOf id

/-- The hosts that the routes of one tenant match. -/
def hostsOf (tenantId : Str) (routes : List JsonTree) : List Str :=
  ((routes.filter (ownedBy tenantId)).flatMap routeHosts).map foldHost

theorem ownedBy_iff {tenantId id : Str} {route : JsonTree} (h : routeId route = some id) :
    ownedBy tenantId route = true ↔ id = mainId tenantId ∨ ∃ f, id = redirectId tenantId f := by
  have hprefix : redirectId tenantId [] <+: id ↔ ∃ f, id = redirectId tenantId f := by
    simp only [List.IsPrefix, redirectId, List.append_nil, eq_comm]
  rw [ownedBy, h, Option.any_some, Bool.or_eq_true, beq_iff_eq, List.isPrefixOf_iff_prefix, hprefix]

theorem ownedBy_of_mem_renderTenant {id : Str} {t : Tenant} {route : JsonTree} (hid : ':' ∉ id)
    (ht : ':' ∉ t.id) (h : route ∈ renderTenant t) : ownedBy id route = true ↔ t.id = id := by
  unfold renderTenant at h
  split at h
  · rcases List.mem_cons.1 h with rfl | hmem
    · have hne (f : Str) : mainId t.id ≠ redirectId id f := mainId_ne_redirectId ht id f
      simp [ownedBy_iff (routeId_renderMainRoute t), mainId_inj, hne]
    · obtain ⟨r, -, rfl⟩ := List.mem_map.1 hmem
      have hne : redirectId t.id r.fromHost ≠ mainId id := (mainId_ne_redirectId hid _ _).symm
      simp [ownedBy_iff (routeId_renderRedirectRoute t.id r), hne, redirectId_inj ht hid]
  · cases h

/-- The domains and redirect sources of an enabled tenant. -/
def Tenant.hosts (t : Tenant) : List Str :=
  if t.enabled then t.domains ++ t.redirects.map Redirect.fromHost else []

theorem mem_hostsOf {file : TenantsFile} (hvalid : file.Valid) {t : Tenant} (ht : t ∈ file.tenants)
    {host : Str} : host ∈ hostsOf t.id (renderTenantRoutes file.tenants) ↔
      ∃ h ∈ t.hosts, foldHost h = host := by
  have hcolon (t : Tenant) (ht : t ∈ file.tenants) : ':' ∉ t.id :=
    colon_notMem_of_isTenantId (hvalid.idFormat t ht)
  have hown : host ∈ hostsOf t.id (renderTenantRoutes file.tenants) ↔
      ∃ h ∈ (renderTenant t).flatMap routeHosts, foldHost h = host := by
    simp only [hostsOf, renderTenantRoutes, List.mem_map, List.mem_flatMap, List.mem_filter]
    constructor
    · rintro ⟨h, ⟨route, ⟨⟨t', ht', hroute⟩, howned⟩, hh⟩, rfl⟩
      have hsame := (ownedBy_of_mem_renderTenant (hcolon t ht) (hcolon t' ht') hroute).1 howned
      obtain rfl := List.inj_on_of_nodup_map hvalid.ids ht' ht hsame
      exact ⟨h, ⟨route, hroute, hh⟩, rfl⟩
    · rintro ⟨h, ⟨route, hroute, hh⟩, rfl⟩
      exact ⟨h, ⟨route, ⟨⟨t, ht, hroute⟩,
        (ownedBy_of_mem_renderTenant (hcolon t ht) (hcolon t ht) hroute).2 rfl⟩, hh⟩, rfl⟩
  rw [hown, flatMap_routeHosts_renderTenant, Tenant.hosts]

/-- Domains of the two tenants do not differ in case only, and neither tenant redirects a host of
the other. -/
structure Separate (t t' : Tenant) : Prop where
  domains : ∀ d ∈ t.domains, ∀ d' ∈ t'.domains, foldHost d = foldHost d' → d = d'
  redirectDomain : ∀ r ∈ t.redirects, ∀ d ∈ t'.domains, foldHost r.fromHost ≠ foldHost d
  domainRedirect : ∀ d ∈ t.domains, ∀ r ∈ t'.redirects, foldHost d ≠ foldHost r.fromHost
  redirects : ∀ r ∈ t.redirects, ∀ r' ∈ t'.redirects, foldHost r.fromHost ≠ foldHost r'.fromHost

instance (t t' : Tenant) : Decidable (Separate t t') :=
  decidable_of_iff
    ((∀ d ∈ t.domains, ∀ d' ∈ t'.domains, foldHost d = foldHost d' → d = d') ∧
      (∀ r ∈ t.redirects, ∀ d ∈ t'.domains, foldHost r.fromHost ≠ foldHost d) ∧
      (∀ d ∈ t.domains, ∀ r ∈ t'.redirects, foldHost d ≠ foldHost r.fromHost) ∧
      ∀ r ∈ t.redirects, ∀ r' ∈ t'.redirects, foldHost r.fromHost ≠ foldHost r'.fromHost)
    ⟨fun ⟨hd, hrd, hdr, hr⟩ => ⟨hd, hrd, hdr, hr⟩, fun ⟨hd, hrd, hdr, hr⟩ => ⟨hd, hrd, hdr, hr⟩⟩

theorem separate_iff {t t' : Tenant} (hdomains : ∀ d ∈ t.domains, d ∉ t'.domains)
    (ht : t.enabled = true) (ht' : t'.enabled = true) :
    (∀ h ∈ t.hosts, ∀ h' ∈ t'.hosts, foldHost h ≠ foldHost h') ↔ Separate t t' := by
  simp only [Tenant.hosts, ht, ht', if_true, List.forall_mem_append, List.forall_mem_map]
  constructor
  · intro h
    exact ⟨fun d hd d' hd' hfold => absurd hfold ((h.1 d hd).1 d' hd'),
      fun r hr d hd => (h.2 r hr).1 d hd, fun d hd r hr => (h.1 d hd).2 r hr,
      fun r hr r' hr' => (h.2 r hr).2 r' hr'⟩
  · intro h
    refine ⟨fun d hd => ⟨fun d' hd' hfold => ?_, h.domainRedirect d hd⟩,
      fun r hr => ⟨h.redirectDomain r hr, h.redirects r hr⟩⟩
    obtain rfl := h.domains d hd d' hd' hfold
    exact hdomains d hd hd'

/-- The routes of different tenants of a valid file match different hosts iff those of the enabled
ones are separate. -/
theorem hosts_disjoint_iff_separate (file : TenantsFile) (h : validate file = .ok ()) :
    (∀ t ∈ file.tenants, ∀ t' ∈ file.tenants, t ≠ t' →
      (hostsOf t.id (renderTenantRoutes file.tenants)).Disjoint
        (hostsOf t'.id (renderTenantRoutes file.tenants))) ↔
    ∀ t ∈ file.tenants, ∀ t' ∈ file.tenants, t ≠ t' → t.enabled = true → t'.enabled = true →
      Separate t t' := by
  have hvalid := TenantsFile.valid_of_validate h
  refine forall₂_congr fun t ht => forall₂_congr fun t' ht' => forall_congr' fun hne => ?_
  have hdisjoint : (hostsOf t.id (renderTenantRoutes file.tenants)).Disjoint
        (hostsOf t'.id (renderTenantRoutes file.tenants)) ↔
      ∀ h ∈ t.hosts, ∀ h' ∈ t'.hosts, foldHost h ≠ foldHost h' := by
    simp only [List.Disjoint, mem_hostsOf hvalid ht, mem_hostsOf hvalid ht']
    constructor
    · intro hnone h hh h' hh' hfold
      exact hnone ⟨h, hh, rfl⟩ ⟨h', hh', hfold.symm⟩
    · rintro hnone _ ⟨h, hh, rfl⟩ ⟨h', hh', hfold⟩
      exact hnone h hh h' hh' hfold.symm
  have hdomains (d : Str) (hd : d ∈ t.domains) : d ∉ t'.domains := fun hd' =>
    hne (List.inj_on_of_nodup_map hvalid.ids ht ht' (hvalid.domains t ht t' ht' d hd hd'))
  rw [hdisjoint]
  constructor
  · intro hall hon hon'
    exact (separate_iff hdomains hon hon').1 hall
  · intro hsep
    by_cases hon : t.enabled = true
    · by_cases hon' : t'.enabled = true
      · exact (separate_iff hdomains hon hon').2 (hsep hon hon')
      · simp [Tenant.hosts, hon']
    · simp [Tenant.hosts, hon]

/-- Two tenants of different domains, the first with a redirect. -/
def twoTenants (fromHost domain : String) : TenantsFile :=
  ⟨1, [⟨"first".toList, ["first.example.com".toList], true, [], none,
      [⟨fromHost.toList, "https://first.example.com".toList, true⟩]⟩,
    ⟨"second".toList, [domain.toList], true, [], none, []⟩]⟩

theorem hosts_disjoint_of_other_redirect :
    let file := twoTenants "www.example.com" "second.example.com"
    validate file = .ok () ∧ ∀ t ∈ file.tenants, ∀ t' ∈ file.tenants, t ≠ t' →
      (hostsOf t.id (renderTenantRoutes file.tenants)).Disjoint
        (hostsOf t'.id (renderTenantRoutes file.tenants)) :=
  ⟨by decide +kernel, (hosts_disjoint_iff_separate _ (by decide +kernel)).2 (by decide +kernel)⟩

/-- The validator accepts a redirect of a foreign domain, and a foreign domain in another case. -/
theorem foreign_host_accepted :
    (validate (twoTenants "second.example.com" "second.example.com") = .ok () ∧
      "second.example.com".toList ∈ hostsOf "first".toList (renderTenantRoutes
        (twoTenants "second.example.com" "second.example.com").tenants) ∧
      "second.example.com".toList ∈ hostsOf "second".toList (renderTenantRoutes
        (twoTenants "second.example.com" "second.example.com").tenants)) ∧
    validate (twoTenants "www.example.com" "First.Example.com") = .ok () ∧
      "first.example.com".toList ∈ hostsOf "first".toList (renderTenantRoutes
        (twoTenants "www.example.com" "First.Example.com").tenants) ∧
      "first.example.com".toList ∈ hostsOf "second".toList (renderTenantRoutes
        (twoTenants "www.example.com" "First.Example.com").tenants) := by
  decide +kernel

end PartnerEdge.Opec
