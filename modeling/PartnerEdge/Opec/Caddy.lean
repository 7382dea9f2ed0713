import PartnerEdge.Opec.Tenant
import PartnerEdge.Text.JsonTree
import PartnerEdge.Text.Scan

/-!
# Caddy routes

The renderer: every enabled tenant becomes a route for its domains and one for each of its
redirects, as values of Caddy's admin API. Upstreams are taken apart by three helpers that each look
for the scheme and the first slash themselves.
-/

namespace PartnerEdge.Opec

open Text

def text (s : String) : JsonTree := .string s.toList

def strings (ss : List Str) : JsonTree := .array (ss.map JsonTree.string)

/-! ## Proxies -/

def https : Str := "https".toList

def http : Str := "http".toList

/-- The scheme of an upstream and what follows it. -/
def parseUpstream (url : Str) : Str × Str :=
  if "https://".toList.isPrefixOf url then (https, url.drop 8)
  else if "http://".toList.isPrefixOf url then (http, url.drop 7)
  else (http, url)

/-- `rest.split('/').next()` -/
def beforeSlash (rest : Str) : Str := rest.takeWhile (· != '/')

def makeDial (url : Str) (defaultPort : Nat) : Str :=
  let hostPort := beforeSlash (parseUpstream url).2
  if hostPort.contains ':' then hostPort
  else hostPort ++ ':' :: Nat.toDigits 10 defaultPort

def hostFromUrl (url : Str) : Str := beforeSlash (parseUpstream url).2

def renderProxyHandlers (upstream : Str) (hostHeader : Option Str) (sse : Option Bool) :
    List JsonTree :=
  let useTls := (parseUpstream upstream).1 == https
  let dialAddr := makeDial upstream (if useTls then 443 else 80)
  let proxy := JsonTree.ofMembers [("handler", text "reverse_proxy"),
    ("upstreams", .array [.ofMembers [("dial", .string dialAddr)]])]
  let proxy := if useTls then
      proxy.set "transport" (.ofMembers [("protocol", text "http"), ("tls", .ofMembers [])])
    else proxy
  let headerHost := hostHeader.getD (hostFromUrl upstream)
  let proxy := proxy.set "headers"
    (.ofMembers [("request", .ofMembers [("set", .ofMembers [("Host", strings [headerHost])])])])
  let proxy := if sse = some true then proxy.set "flush_interval" (.number (-1)) else proxy
  [proxy]

/-! ## Files -/

def renderFileServerHandlers (root : Str) (cacheControl : Option Str)
    (tryFiles : Option (List Str)) (stripPathPrefix : Option Str) : List JsonTree :=
  (stripPathPrefix.map fun path => JsonTree.ofMembers
    [("handler", text "rewrite"), ("strip_path_prefix", .string path)]).toList ++
  (tryFiles.map fun tf => JsonTree.ofMembers
    [("handler", text "subroute"),
      ("routes", .array [.ofMembers
        [("match", .array [.ofMembers
          [("file", .ofMembers [("try_files", strings tf), ("root", .string root)])]]),
          ("handle", .array [.ofMembers
            [("handler", text "rewrite"),
              ("uri", text "\x7bhttp.matchers.file.relative\x7d")]])]])]).toList ++
  [.ofMembers [("handler", text "file_server"), ("root", .string root)]] ++
  (cacheControl.map fun cc => JsonTree.ofMembers
    [("handler", text "headers"),
      ("response", .ofMembers [("set", .ofMembers [("Cache-Control", strings [cc])])])]).toList

/-! ## Routes -/

def renderYamlRoute (route : Route) : JsonTree :=
  let handlers := match route.action with
    | .proxy upstream hostHeader sse => renderProxyHandlers upstream hostHeader sse
    | .fileServer root cacheControl tryFiles stripPathPrefix =>
      renderFileServerHandlers root cacheControl tryFiles stripPathPrefix
  .ofMembers [("match", .array [.ofMembers [("path", strings [route.path])]]),
    ("handle", .array handlers)]

def mainId (tenantId : Str) : Str := "tenant:".toList ++ tenantId

def redirectId (tenantId fromHost : Str) : Str := mainId tenantId ++ ":redirect:".toList ++ fromHost

def renderMainRoute (t : Tenant) : JsonTree :=
  .ofMembers [("@id", .string (mainId t.id)),
    ("match", .array [.ofMembers [("host", strings t.domains)]]),
    ("handle", .array [.ofMembers
      [("handler", text "subroute"), ("routes", .array (t.routes.map renderYamlRoute))]]),
    ("terminal", .bool true)]

def renderRedirectRoute (tenantId : Str) (r : Redirect) : JsonTree :=
  .ofMembers [("@id", .string (redirectId tenantId r.fromHost)),
    ("match", .array [.ofMembers [("host", strings [r.fromHost])]]),
    ("handle", .array [.ofMembers
      [("handler", text "static_response"),
        ("headers", .ofMembers [("Location", strings [r.toUrl])]),
        ("status_code", .number (if r.permanent then 308 else 307))]]),
    ("terminal", .bool true)]

/-- The routes of one tenant. -/
def renderTenant (t : Tenant) : List JsonTree :=
  if t.enabled then renderMainRoute t :: t.redirects.map (renderRedirectRoute t.id) else []

def renderTenantRoutes (tenants : List Tenant) : List JsonTree := tenants.flatMap renderTenant

/-! ## What a route says -/

/-- `route_id`. -/
def routeId (v : JsonTree) : Option Str := (v.get "@id").bind JsonTree.asStr

/-- The hosts of all matchers of a route. -/
def routeHosts (v : JsonTree) : List Str :=
  (((v.get "match").bind JsonTree.asArray).getD []).flatMap fun matcher =>
    (((matcher.get "host").bind JsonTree.asArray).getD []).filterMap JsonTree.asStr

@[simp] theorem routeId_renderMainRoute (t : Tenant) :
    routeId (renderMainRoute t) = some (mainId t.id) := by
  simp [routeId, renderMainRoute, JsonTree.get_ofMembers, List.lookup_cons, JsonTree.asStr]

@[simp] theorem routeId_renderRedirectRoute (tenantId : Str) (r : Redirect) :
    routeId (renderRedirectRoute tenantId r) = some (redirectId tenantId r.fromHost) := by
  simp [routeId, renderRedirectRoute, JsonTree.get_ofMembers, List.lookup_cons, JsonTree.asStr]

theorem filterMap_asStr_string (ss : List Str) :
    (ss.map JsonTree.string).filterMap JsonTree.asStr = ss := by
  rw [List.filterMap_map]
  exact List.filterMap_some

@[simp] theorem routeHosts_renderMainRoute (t : Tenant) :
    routeHosts (renderMainRoute t) = t.domains := by
  simp [routeHosts, renderMainRoute, JsonTree.get_ofMembers, List.lookup_cons, JsonTree.asArray,
    strings, filterMap_asStr_string, -List.filterMap_map]

@[simp] theorem routeHosts_renderRedirectRoute (tenantId : Str) (r : Redirect) :
    routeHosts (renderRedirectRoute tenantId r) = [r.fromHost] := by
  simp [routeHosts, renderRedirectRoute, JsonTree.get_ofMembers, List.lookup_cons,
    JsonTree.asArray, strings, JsonTree.asStr]

theorem flatMap_routeHosts_renderTenant (t : Tenant) : (renderTenant t).flatMap routeHosts =
    if t.enabled then t.domains ++ t.redirects.map Redirect.fromHost else [] := by
  unfold renderTenant
  split
  · rw [List.flatMap_cons, routeHosts_renderMainRoute, List.flatMap_map, List.map_eq_flatMap]
    simp only [routeHosts_renderRedirectRoute]
  · rfl

/-! ## Ids -/

theorem colon_notMem_of_isTenantId {id : Str} (h : isTenantId id = true) : ':' ∉ id := by
  intro hmem
  simp only [isTenantId, Bool.and_eq_true] at h
  have hcolon := List.all_eq_true.1 h.2 ':' hmem
  revert hcolon
  decide

theorem mainId_inj {a b : Str} : mainId a = mainId b ↔ a = b := List.append_right_inj _

theorem redirectId_eq (tenantId fromHost : Str) : redirectId tenantId fromHost =
    mainId (tenantId ++ ':' :: ("redirect:".toList ++ fromHost)) := by
  have hcolon : ":redirect:".toList = ':' :: "redirect:".toList := by decide
  unfold redirectId mainId
  rw [hcolon]
  generalize "redirect:".toList = middle, "tenant:".toList = start
  simp

theorem mainId_ne_redirectId {a : Str} (ha : ':' ∉ a) (b f : Str) : mainId a ≠ redirectId b f := by
  rw [redirectId_eq, Ne, mainId_inj]
  rintro rfl
  simp at ha

theorem redirectId_inj {a b f g : Str} (ha : ':' ∉ a) (hb : ':' ∉ b) :
    redirectId a f = redirectId b g ↔ a = b ∧ f = g := by
  refine ⟨fun h => ?_, fun ⟨hab, hfg⟩ => hab ▸ hfg ▸ rfl⟩
  rw [redirectId_eq, redirectId_eq, mainId_inj] at h
  have hsplit := congrArg (splitOnce ':') h
  rw [splitOnce_append ha, splitOnce_append hb] at hsplit
  simpa using hsplit

end PartnerEdge.Opec
