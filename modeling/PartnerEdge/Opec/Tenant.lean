import PartnerEdge.Text.Lines

/-!
# Tenants

The tenants file, and the validator that collects all errors of it. The validator is one pass with
two tables: the ids seen so far, and for each domain the tenant that claimed it first. A file
without errors has different ids, and no domain in two tenants.
-/

namespace PartnerEdge.Opec

open Text

/-! ## The file -/

inductive RouteAction where
  | proxy (upstream : Str) (hostHeader : Option Str) (sse : Option Bool)
  | fileServer (root : Str) (cacheControl : Option Str) (tryFiles : Option (List Str))
      (stripPathPrefix : Option Str)
deriving DecidableEq, Repr

structure Route where
  path : Str
  action : RouteAction
deriving DecidableEq, Repr

structure Redirect where
  fromHost : Str
  toUrl : Str
  permanent : Bool
deriving DecidableEq, Repr

structure Tenant where
  id : Str
  domains : List Str
  enabled : Bool
  routes : List Route
  securityHeaders : Option Str
  redirects : List Redirect
deriving DecidableEq, Repr

structure TenantsFile where
  schemaVersion : Nat
  tenants : List Tenant
deriving DecidableEq, Repr

/-! ## The validator -/

inductive ValidationError where
  | unsupportedSchemaVersion (version : Nat)
  | invalidTenantId (id : Str)
  | invalidDomain (id domain : Str)
  | duplicateTenantId (id : Str)
  | domainCollision (domain a b : Str)
  | invalidRoutePath (id : Str) (index : Nat)
  | proxyMissingUpstream (id : Str) (index : Nat)
  | fileServerInvalidRoot (id : Str) (index : Nat)
deriving DecidableEq, Repr

def isIdChar (c : Char) : Bool := c.isLower || c.isDigit

/-- `^[a-z0-9][a-z0-9-]{1,30}[a-z0-9]$` -/
def isTenantId (id : Str) : Bool :=
  decide (3 ≤ id.length) && decide (id.length ≤ 32) && id.head?.any isIdChar &&
    id.getLast?.any isIdChar && id.all fun c => isIdChar c || c == '-'

/-- `[a-zA-Z0-9]([a-zA-Z0-9-]*[a-zA-Z0-9])?` -/
def isLabel (label : Str) : Bool :=
  label.head?.any Char.isAlphanum && label.getLast?.any Char.isAlphanum &&
    label.all fun c => c.isAlphanum || c == '-'

/-- `^([a-zA-Z0-9]([a-zA-Z0-9-]*[a-zA-Z0-9])?\.)+[a-zA-Z]{2,}$` -/
def isDomain (domain : Str) : Bool :=
  match (domain.splitOn '.').reverse with
  | top :: labels => !labels.isEmpty && labels.all isLabel && decide (2 ≤ top.length) &&
      top.all Char.isAlpha
  | [] => false

/-- What the pass knows. -/
structure Seen where
  errors : List ValidationError
  seenIds : List Str
  seenDomains : List (Str × Str)

namespace Seen

def checkId (s : Seen) (tid : Str) : Seen :=
  if s.seenIds.contains tid then { s with errors := s.errors ++ [.duplicateTenantId tid] }
  else { s with seenIds := s.seenIds ++ [tid] }

def checkIdFormat (s : Seen) (tid : Str) : Seen :=
  if isTenantId tid then s else { s with errors := s.errors ++ [.invalidTenantId tid] }

def checkDomainFormat (s : Seen) (tid domain : Str) : Seen :=
  if isDomain domain then s else { s with errors := s.errors ++ [.invalidDomain tid domain] }

def claimDomain (s : Seen) (tid domain : Str) : Seen :=
  match s.seenDomains.lookup domain with
  | some prior =>
    if prior ≠ tid then { s with errors := s.errors ++ [.domainCollision domain prior tid] } else s
  | none => { s with seenDomains := s.seenDomains ++ [(domain, tid)] }

def checkDomain (tid : Str) (s : Seen) (domain : Str) : Seen :=
  (s.checkDomainFormat tid domain).claimDomain tid domain

end Seen

def startsWithSlash (s : Str) : Bool := s.head? == some '/'

def Route.errors (tid : Str) (route : Route) (index : Nat) : List ValidationError :=
  (if route.path.isEmpty || !startsWithSlash route.path then [.invalidRoutePath tid index]
    else []) ++
    match route.action with
    | .proxy upstream _ _ => if upstream.isEmpty then [.proxyMissingUpstream tid index] else []
    | .fileServer root _ _ _ =>
      if root.isEmpty || !startsWithSlash root then [.fileServerInvalidRoot tid index] else []

def Seen.checkRoutes (s : Seen) (tid : Str) (routes : List Route) : Seen :=
  { s with errors := s.errors ++ routes.zipIdx.flatMap fun x => x.1.errors tid x.2 }

def Seen.checkTenant (s : Seen) (tenant : Tenant) : Seen :=
  (tenant.domains.foldl (Seen.checkDomain tenant.id)
    ((s.checkId tenant.id).checkIdFormat tenant.id)).checkRoutes tenant.id tenant.routes

def TenantsFile.checked (file : TenantsFile) : Seen :=
  file.tenants.foldl Seen.checkTenant
    ⟨if file.schemaVersion ≠ 1 then [.unsupportedSchemaVersion file.schemaVersion] else [], [], []⟩

def validate (file : TenantsFile) : Except (List ValidationError) Unit :=
  if file.checked.errors.isEmpty then .ok () else .error file.checked.errors

/-! ## Accepted files -/

/-- What the validator demands. -/
structure TenantsFile.Valid (file : TenantsFile) : Prop where
  schemaVersion : file.schemaVersion = 1
  ids : (file.tenants.map Tenant.id).Nodup
  idFormat : ∀ t ∈ file.tenants, isTenantId t.id = true
  domainFormat : ∀ t ∈ file.tenants, ∀ d ∈ t.domains, isDomain d = true
  domains : ∀ t ∈ file.tenants, ∀ t' ∈ file.tenants, ∀ d ∈ t.domains, d ∈ t'.domains → t.id = t'.id
  routes : ∀ t ∈ file.tenants, t.routes.zipIdx.flatMap (fun x => x.1.errors t.id x.2) = []

namespace Seen

/-- From one state to another the tenant has claimed domains, without an error. -/
structure Claims (s s' : Seen) (tid : Str) (domains : List Str) : Prop where
  errors : s.errors = []
  seenIds : s'.seenIds = s.seenIds
  format : ∀ d ∈ domains, isDomain d = true
  claimed : ∀ d ∈ domains, s'.seenDomains.lookup d = some tid
  kept : ∀ d x, s.seenDomains.lookup d = some x → s'.seenDomains.lookup d = some x

variable {s s' s'' : Seen} {tid domain : Str} {tenant : Tenant}

theorem claims_checkDomain (h : (s.checkDomain tid domain).errors = []) :
    s.Claims (s.checkDomain tid domain) tid [domain] := by
  simp only [checkDomain, checkDomainFormat, claimDomain] at h ⊢
  cases hformat : isDomain domain with
  | false =>
    exfalso
    cases hlookup : s.seenDomains.lookup domain <;> simp [hformat, hlookup] at h
    split at h <;> simp at h
  | true =>
    simp only [hformat, if_true] at h ⊢
    cases hlookup : s.seenDomains.lookup domain with
    | none =>
      simp only [hlookup] at h ⊢
      refine ⟨h, rfl, by simpa using hformat, ?_, fun d x hd => ?_⟩
      · rw [List.forall_mem_singleton, List.lookup_append, hlookup, List.lookup_cons_self,
          Option.none_or]
      · rw [List.lookup_append, hd, Option.some_or]
    | some prior =>
      simp only [hlookup] at h ⊢
      split at h
      · simp at h
      · next hprior =>
        rw [if_neg hprior]
        exact ⟨h, rfl, by simpa using hformat, by simp [hlookup, not_not.1 hprior],
          fun _ _ hd => hd⟩

theorem claims_checkDomains {domains : List Str}
    (h : (domains.foldl (checkDomain tid) s).errors = []) :
    s.Claims (domains.foldl (checkDomain tid) s) tid domains := by
  induction domains generalizing s with
  | nil => exact ⟨h, rfl, by simp, by simp, fun _ _ hd => hd⟩
  | cons domain domains ih =>
    have hrest := ih h
    have hfirst := claims_checkDomain hrest.errors
    exact ⟨hfirst.errors, hrest.seenIds.trans hfirst.seenIds,
      List.forall_mem_cons.2 ⟨hfirst.format domain (by simp), hrest.format⟩,
      List.forall_mem_cons.2 ⟨hrest.kept _ _ (hfirst.claimed domain (by simp)), hrest.claimed⟩,
      fun d x hd => hrest.kept d x (hfirst.kept d x hd)⟩

/-- A tenant that adds no error has a new id, and has claimed its domains. -/
structure Admits (s s' : Seen) (tenant : Tenant) : Prop where
  errors : s.errors = []
  fresh : tenant.id ∉ s.seenIds
  seenIds : s'.seenIds = s.seenIds ++ [tenant.id]
  idFormat : isTenantId tenant.id = true
  domainFormat : ∀ d ∈ tenant.domains, isDomain d = true
  claimed : ∀ d ∈ tenant.domains, s'.seenDomains.lookup d = some tenant.id
  kept : ∀ d x, s.seenDomains.lookup d = some x → s'.seenDomains.lookup d = some x
  routes : tenant.routes.zipIdx.flatMap (fun x => x.1.errors tenant.id x.2) = []

theorem admits_checkTenant (h : (s.checkTenant tenant).errors = []) :
    s.Admits (s.checkTenant tenant) tenant := by
  obtain ⟨hdomains, hroutes⟩ := List.append_eq_nil_iff.1 h
  have hclaims := claims_checkDomains hdomains
  have hformat : isTenantId tenant.id = true := by
    by_contra hformat
    have herrors := hclaims.errors
    simp [checkIdFormat, hformat] at herrors
  have hid : (s.checkId tenant.id).errors = [] := by
    simpa [checkIdFormat, hformat] using hclaims.errors
  have hfresh : ¬s.seenIds.contains tenant.id = true := by
    intro hseen
    simp only [checkId, if_pos hseen] at hid
    simp at hid
  have hsame : (s.checkId tenant.id).checkIdFormat tenant.id =
      { s with seenIds := s.seenIds ++ [tenant.id] } := by
    rw [checkIdFormat, if_pos hformat, checkId, if_neg hfresh]
  rw [hsame] at hclaims
  refine ⟨hclaims.errors, by simpa using hfresh, ?_, hformat, hclaims.format, ?_, ?_, hroutes⟩
  · simpa [checkTenant, checkRoutes, hsame] using hclaims.seenIds
  · simpa [checkTenant, checkRoutes, hsame] using hclaims.claimed
  · simpa [checkTenant, checkRoutes, hsame] using hclaims.kept

/-- What the pass has established if it found no error. -/
structure Sound (s : Seen) (tenants : List Tenant) : Prop where
  seenIds : s.seenIds = tenants.map Tenant.id
  ids : (tenants.map Tenant.id).Nodup
  idFormat : ∀ t ∈ tenants, isTenantId t.id = true
  domainFormat : ∀ t ∈ tenants, ∀ d ∈ t.domains, isDomain d = true
  claimed : ∀ t ∈ tenants, ∀ d ∈ t.domains, s.seenDomains.lookup d = some t.id
  routes : ∀ t ∈ tenants, t.routes.zipIdx.flatMap (fun x => x.1.errors t.id x.2) = []

theorem Sound.concat {tenants : List Tenant} (h : s.Sound tenants) (hnext : s.Admits s' tenant) :
    s'.Sound (tenants ++ [tenant]) := by
  have hall {P : Tenant → Prop} (hold : ∀ t ∈ tenants, P t) (hnew : P tenant) :
      ∀ t ∈ tenants ++ [tenant], P t := by
    rw [List.forall_mem_append, List.forall_mem_singleton]
    exact ⟨hold, hnew⟩
  refine ⟨?_, ?_, hall h.idFormat hnext.idFormat, hall h.domainFormat hnext.domainFormat,
    hall (fun t ht d hd => hnext.kept _ _ (h.claimed t ht d hd)) hnext.claimed,
    hall h.routes hnext.routes⟩
  · rw [hnext.seenIds, h.seenIds, List.map_append]
    rfl
  · rw [List.map_append]
    refine List.Nodup.append h.ids (List.nodup_singleton _) ?_
    rw [← h.seenIds]
    simpa using hnext.fresh

theorem sound_checkTenants {tenants : List Tenant} {errors : List ValidationError}
    (h : (tenants.foldl checkTenant ⟨errors, [], []⟩).errors = []) :
    errors = [] ∧ (tenants.foldl checkTenant ⟨errors, [], []⟩).Sound tenants := by
  induction tenants using List.reverseRecOn with
  | nil => exact ⟨h, rfl, List.nodup_nil, by simp, by simp, by simp, by simp⟩
  | append_singleton tenants tenant ih =>
    rw [List.foldl_append, List.foldl_cons, List.foldl_nil] at h ⊢
    have hnext := admits_checkTenant h
    obtain ⟨herrors, hsound⟩ := ih hnext.errors
    exact ⟨herrors, hsound.concat hnext⟩

end Seen

theorem TenantsFile.valid_of_validate {file : TenantsFile} (h : validate file = .ok ()) :
    file.Valid := by
  have hnone : file.checked.errors = [] := by
    unfold validate at h
    split at h
    · next hempty => exact List.isEmpty_iff.1 hempty
    · cases h
  obtain ⟨hversion, hsound⟩ := Seen.sound_checkTenants hnone
  refine ⟨?_, hsound.ids, hsound.idFormat, hsound.domainFormat, ?_, hsound.routes⟩
  · by_contra hne
    rw [if_pos hne] at hversion
    cases hversion
  · intro t ht t' ht' d hd hd'
    exact Option.some.inj ((hsound.claimed t ht d hd).symm.trans (hsound.claimed t' ht' d hd'))

end PartnerEdge.Opec
