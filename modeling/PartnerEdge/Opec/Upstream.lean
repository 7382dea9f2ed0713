import PartnerEdge.Opec.Caddy

/-!
# Upstream URLs

An upstream is a scheme, a host, perhaps a port and perhaps a path. What should be dialled and sent
as `Host` is read off these parts, and compared with the rendered proxy. A port is recognised by a
colon anywhere in the host, and a port is never dropped: the two agree unless an IPv6 literal has no
port, or the port is the default one and no host header is configured.
-/

namespace PartnerEdge.Opec

open Text

inductive Scheme where
  | http
  | https
deriving DecidableEq, Repr

def Scheme.text : Scheme → Str
  | .http => "http://".toList
  | .https => "https://".toList

def Scheme.defaultPort : Scheme → Nat
  | .http => 80
  | .https => 443

def isHexDigit (c : Char) : Bool :=
  c.isDigit || decide ('a' ≤ c ∧ c ≤ 'f') || decide ('A' ≤ c ∧ c ≤ 'F')

/-- DNS names and IPv4 literals have only these characters. -/
def isNameChar (c : Char) : Bool := c.isAlphanum || c == '-' || c == '_' || c == '.'

def isName (host : Str) : Bool := !host.isEmpty && host.all isNameChar

/-- An IPv6 literal has only these characters, and has a colon. -/
def isIpv6Char (c : Char) : Bool := isHexDigit c || c == ':' || c == '.'

def isIpv6 (address : Str) : Bool := address.contains ':' && address.all isIpv6Char

inductive UpstreamHost where
  | name (host : Str) (h : isName host = true)
  | ipv6 (address : Str) (h : isIpv6 address = true)

def UpstreamHost.text : UpstreamHost → Str
  | .name host _ => host
  | .ipv6 address _ => '[' :: address ++ [']']

def UpstreamHost.isBracketed : UpstreamHost → Bool
  | .name _ _ => false
  | .ipv6 _ _ => true

structure Upstream where
  scheme : Scheme
  host : UpstreamHost
  port : Option Str
  path : Str
  isPort : ∀ p ∈ port, ∃ n < 65536, parseDigits p = some n
  isPath : path = [] ∨ path.head? = some '/'

namespace Upstream

/-- `:port`, if there is a port. -/
def portText (u : Upstream) : Str := (u.port.map (':' :: ·)).getD []

def url (u : Upstream) : Str := u.scheme.text ++ (u.host.text ++ u.portText ++ u.path)

/-- The port of the upstream is the default one of its scheme. -/
def givesDefaultPort (u : Upstream) : Bool := u.port.any fun p =>
  parseDigits p == some u.scheme.defaultPort

/-- What should be dialled. -/
def dial (u : Upstream) : Str :=
  u.host.text ++ ':' :: u.port.getD (Nat.toDigits 10 u.scheme.defaultPort)

/-- What should be sent as `Host`. -/
def hostHeader (u : Upstream) : Str :=
  u.host.text ++ if u.givesDefaultPort then [] else u.portText

end Upstream

/-! ## Rendered proxies -/

/-- The addresses that a proxy dials. -/
def dials (proxy : JsonTree) : List Str :=
  (((proxy.get "upstreams").bind JsonTree.asArray).getD []).filterMap fun upstream =>
    (upstream.get "dial").bind JsonTree.asStr

def usesTls (proxy : JsonTree) : Bool :=
  ((proxy.get "transport").bind fun transport => transport.get "tls").isSome

/-- The values of `Host` that a proxy sets in a request. -/
def requestHosts (proxy : JsonTree) : List Str :=
  ((((((proxy.get "headers").bind fun headers => headers.get "request").bind fun request =>
    request.get "set").bind fun set => set.get "Host").bind JsonTree.asArray).getD []).filterMap
    JsonTree.asStr

/-- The proxy dials the upstream, with TLS exactly for https, and sends the right `Host` if none is
configured. -/
structure Faithful (u : Upstream) (configured : Option Str) (proxy : JsonTree) : Prop where
  dials : dials proxy = [u.dial]
  tls : usesTls proxy = true ↔ u.scheme = .https
  host : configured = none → requestHosts proxy = [u.hostHeader]

theorem renderProxyHandlers_eq (upstream : Str) (configured : Option Str) (sse : Option Bool) :
    ∃ proxy, renderProxyHandlers upstream configured sse = [proxy] ∧
      dials proxy = [makeDial upstream (if (parseUpstream upstream).1 == https then 443 else 80)] ∧
      usesTls proxy = ((parseUpstream upstream).1 == https) ∧
      requestHosts proxy = [configured.getD (hostFromUrl upstream)] := by
  refine ⟨_, rfl, ?_⟩
  cases htls : (parseUpstream upstream).1 == https <;> by_cases hsse : sse = some true <;>
    simp [hsse, dials, usesTls, requestHosts, JsonTree.set_ofMembers, JsonTree.get_ofMembers,
      List.lookup_cons, JsonTree.asArray, JsonTree.asStr, strings, text]

namespace Upstream

theorem parseUpstream_url (u : Upstream) : parseUpstream u.url =
    (if u.scheme = .https then https else http, u.host.text ++ u.portText ++ u.path) := by
  unfold parseUpstream url
  cases u.scheme
  · have hnot : "https://".toList.isPrefixOf
      (Scheme.http.text ++ (u.host.text ++ u.portText ++ u.path)) = false := rfl
    have hhttp : "http://".toList.isPrefixOf
      (Scheme.http.text ++ (u.host.text ++ u.portText ++ u.path)) = true := rfl
    rw [hnot, hhttp]
    rfl
  · have hhttps : "https://".toList.isPrefixOf
      (Scheme.https.text ++ (u.host.text ++ u.portText ++ u.path)) = true := rfl
    rw [hhttps]
    rfl

theorem colon_mem_host {host : UpstreamHost} (h : host.isBracketed = true) : ':' ∈ host.text := by
  cases host with
  | name host hname => cases h
  | ipv6 address hipv6 =>
    have hcolon := (Bool.and_eq_true_iff.1 hipv6).1
    simp [UpstreamHost.text, List.contains_iff_mem.1 hcolon]

theorem colon_notMem_host {host : UpstreamHost} (h : host.isBracketed = false) :
    ':' ∉ host.text := by
  cases host with
  | name host hname =>
    intro hmem
    exact absurd (List.all_eq_true.1 (Bool.and_eq_true_iff.1 hname).2 ':' hmem) (by decide)
  | ipv6 address hipv6 => cases h

theorem slash_notMem_host (host : UpstreamHost) : '/' ∉ host.text := by
  cases host with
  | name host hname =>
    intro hmem
    exact absurd (List.all_eq_true.1 (Bool.and_eq_true_iff.1 hname).2 '/' hmem) (by decide)
  | ipv6 address hipv6 =>
    have hslash : '/' ∉ address := fun hmem =>
      absurd (List.all_eq_true.1 (Bool.and_eq_true_iff.1 hipv6).2 '/' hmem) (by decide)
    simp [UpstreamHost.text, hslash]

theorem isDigit_of_mem_port {u : Upstream} {p : Str} (hp : u.port = some p) {c : Char}
    (hc : c ∈ p) : c.isDigit = true := by
  obtain ⟨n, -, hn⟩ := u.isPort p hp
  exact (parseDigits_eq_some_iff.1 hn).2.1 c hc

theorem beforeSlash_url (u : Upstream) :
    beforeSlash (parseUpstream u.url).2 = u.host.text ++ u.portText := by
  have hport : '/' ∉ u.portText := by
    unfold portText
    cases hp : u.port with
    | none => simp
    | some p =>
      have hslash : '/' ∉ p := fun hmem => absurd (isDigit_of_mem_port hp hmem) (by decide)
      simp [hslash]
  have hnone : ∀ c ∈ u.host.text ++ u.portText, (c != '/') = true := by
    intro c hc
    rw [bne_iff_ne]
    rintro rfl
    exact (List.mem_append.1 hc).elim (slash_notMem_host u.host) hport
  have hpath : u.path.takeWhile (· != '/') = [] := by
    rcases u.isPath with hpath | hpath
    · rw [hpath]
      rfl
    · obtain ⟨rest, hrest⟩ := List.head?_eq_some_iff.1 hpath
      rw [hrest]
      rfl
  rw [parseUpstream_url, beforeSlash, List.takeWhile_append_of_pos hnone, hpath, List.append_nil]

theorem tls_eq (u : Upstream) : ((parseUpstream u.url).1 == https) = (u.scheme == .https) := by
  rw [parseUpstream_url]
  dsimp only
  cases u.scheme <;> decide

theorem makeDial_url (u : Upstream) :
    makeDial u.url (if (parseUpstream u.url).1 == https then 443 else 80) = u.dial ↔
      (u.host.isBracketed = true → u.port ≠ none) := by
  have hdefault : (if (parseUpstream u.url).1 == https then 443 else 80) =
      u.scheme.defaultPort := by
    rw [tls_eq]
    cases u.scheme <;> rfl
  rw [hdefault, makeDial, beforeSlash_url, dial]
  cases hp : u.port with
  | some p => simp [portText, hp]
  | none =>
    have hempty : u.portText = [] := by simp [portText, hp]
    rw [hempty, List.append_nil]
    cases hbracketed : u.host.isBracketed with
    | false => simp [colon_notMem_host hbracketed]
    | true => simp [colon_mem_host hbracketed]

theorem hostFromUrl_url (u : Upstream) :
    hostFromUrl u.url = u.hostHeader ↔ u.givesDefaultPort = false := by
  rw [hostFromUrl, beforeSlash_url, hostHeader]
  cases hgives : u.givesDefaultPort with
  | false => simp
  | true =>
    cases hp : u.port with
    | none => simp [givesDefaultPort, hp] at hgives
    | some p => simp [portText, hp]

end Upstream

/-- A proxy is rendered faithfully iff an IPv6 host comes with a port, and the default port is left
out where no `Host` is configured. -/
theorem upstream_faithful_iff (u : Upstream) (configured : Option Str) (sse : Option Bool) :
    (∃ proxy, renderProxyHandlers u.url configured sse = [proxy] ∧ Faithful u configured proxy) ↔
      (u.host.isBracketed = true → u.port ≠ none) ∧
        (configured = none → u.givesDefaultPort = false) := by
  obtain ⟨proxy, hproxy, hdials, htls, hhosts⟩ := renderProxyHandlers_eq u.url configured sse
  have hsome : (∃ proxy, renderProxyHandlers u.url configured sse = [proxy] ∧
      Faithful u configured proxy) ↔ Faithful u configured proxy := by
    simp [hproxy]
  rw [hsome, ← u.makeDial_url, ← u.hostFromUrl_url]
  constructor
  · intro h
    refine ⟨by simpa [hdials] using h.dials, fun hnone => ?_⟩
    subst hnone
    simpa [hhosts] using h.host rfl
  · rintro ⟨hdial, hhost⟩
    refine ⟨by rw [hdials, hdial], by rw [htls, u.tls_eq, beq_iff_eq], fun hnone => ?_⟩
    subst hnone
    rw [hhosts, Option.getD_none, hhost rfl]

def literalUpstream : Upstream where
  scheme := .https
  host := .ipv6 "2001:db8::1".toList (by decide)
  port := none
  path := "/api".toList
  isPort := by simp
  isPath := .inr (by decide)

def explicitUpstream : Upstream where
  scheme := .https
  host := .name "backend.example.com".toList (by decide)
  port := some "443".toList
  path := []
  isPort := by
    rintro p ⟨⟩
    exact ⟨443, by decide, by decide⟩
  isPath := .inl rfl

/-- An IPv6 literal without a port is dialled without one, and the default port stays in `Host`. -/
theorem upstream_unfaithful :
    (literalUpstream.url = "https://[2001:db8::1]/api".toList ∧
      literalUpstream.dial = "[2001:db8::1]:443".toList ∧
      (renderProxyHandlers literalUpstream.url none none).map dials =
        [["[2001:db8::1]".toList]]) ∧
    explicitUpstream.url = "https://backend.example.com:443".toList ∧
      explicitUpstream.hostHeader = "backend.example.com".toList ∧
      (renderProxyHandlers explicitUpstream.url none none).map requestHosts =
        [["backend.example.com:443".toList]] := by
  decide +kernel

end PartnerEdge.Opec
