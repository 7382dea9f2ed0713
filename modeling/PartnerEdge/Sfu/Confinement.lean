import PartnerEdge.Sfu.Follows
import PartnerEdge.Sfu.Registry

/-!
# Who can hear whom

A relation `R` on clients bounds what the registry lets one client receive of another. As long as
every two registered clients are related, everything written to a client, every track it may be
offered and every session it replaces is of a related client; the operations of the registry keep
this (`Confined`).
-/

namespace PartnerEdge.Sfu

open Svc PartnerEdge.Client Text

/-- Every client of the second list is a client of the first later on. -/
def Continues (cs cs' : List Client) : Prop := ∀ c' ∈ cs', ∃ c ∈ cs, ∃ new, c.Follows new c'

/-- The same, with no new tracks handed to any client. -/
def KeepsTo (cs cs' : List Client) : Prop := ∀ c' ∈ cs', ∃ c ∈ cs, c.Follows [] c'

theorem KeepsTo.map {f : Client → Client} (hf : ∀ c : Client, c.Follows [] (f c))
    (cs : List Client) : KeepsTo cs (cs.map f) := by
  intro c' hc'
  obtain ⟨c, hc, rfl⟩ := List.mem_map.mp hc'
  exact ⟨c, hc, hf c⟩

theorem KeepsTo.of_subset {cs cs' : List Client} (h : cs' ⊆ cs) : KeepsTo cs cs' :=
  fun c hc => ⟨c, h hc, .refl c⟩

theorem KeepsTo.trans {cs cs' cs'' : List Client} (h : KeepsTo cs cs') (h' : KeepsTo cs' cs'') :
    KeepsTo cs cs'' := by
  intro c'' hc''
  obtain ⟨c', hc', hfollows'⟩ := h' c'' hc''
  obtain ⟨c, hc, hfollows⟩ := h c' hc'
  exact ⟨c, hc, hfollows.trans hfollows'⟩

theorem Continues.trans {cs cs' cs'' : List Client} (h : Continues cs cs')
    (h' : Continues cs' cs'') : Continues cs cs'' := by
  intro c'' hc''
  obtain ⟨c', hc', _, hfollows'⟩ := h' c'' hc''
  obtain ⟨c, hc, _, hfollows⟩ := h c' hc'
  exact ⟨c, hc, _, hfollows.append hfollows'⟩

theorem KeepsTo.continues {cs cs' : List Client} (h : KeepsTo cs cs') : Continues cs cs' :=
  fun c' hc' => (h c' hc').imp fun _ ⟨hc, hfollows⟩ => ⟨hc, [], hfollows⟩

namespace Registry

def ids (r : Registry) : List ClientId := r.clients.map (·.id)

/-- The same clients in the same order, each with the same tracks. -/
def SamePublishers (r r' : Registry) : Prop :=
  ∃ f, r'.clients = r.clients.map f ∧ ∀ c : Client, c.SamePublisher (f c)

section SamePublishers

variable {r r' r'' : Registry}

theorem SamePublishers.of_clients (h : r'.clients = r.clients) : r.SamePublishers r' :=
  ⟨id, by simp [h], fun _ => ⟨rfl, rfl, rfl⟩⟩

theorem SamePublishers.trans (h : r.SamePublishers r') (h' : r'.SamePublishers r'') :
    r.SamePublishers r'' := by
  obtain ⟨f, hclients, hf⟩ := h
  obtain ⟨g, hclients', hg⟩ := h'
  refine ⟨g ∘ f, by rw [hclients', hclients, List.map_map], fun c => ?_⟩
  exact ⟨(hg (f c)).id.trans (hf c).id, (hg (f c)).externalPeerId.trans (hf c).externalPeerId,
    (hg (f c)).tracksIn.trans (hf c).tracksIn⟩

theorem SamePublishers.ids (h : r.SamePublishers r') : r'.ids = r.ids := by
  obtain ⟨f, hclients, hf⟩ := h
  rw [Registry.ids, hclients, List.map_map]
  exact List.map_congr_left fun c _ => (hf c).id

end SamePublishers

structure Confined (R : ClientId → ClientId → Prop) (r : Registry) : Prop where
  together : ∀ c ∈ r.clients, ∀ d ∈ r.clients, c.id ≠ d.id → R c.id d.id
  own : ∀ c ∈ r.clients, ∀ t ∈ c.tracksIn, t.origin = c.id
  heard : ∀ c ∈ r.clients, c.negotiator.AllTracks fun t => R t.origin c.id
  sent : ∀ d ∈ r.deliveries, R d.source d.target
  stolen : ∀ steal ∈ r.steals, R steal.newcomer steal.evicted

section Confined

variable {R : ClientId → ClientId → Prop} {r r' : Registry}

theorem Confined.of_own (h : ∀ c ∈ r.clients, ∀ t ∈ c.tracksIn, t.origin = c.id) :
    r.Confined fun _ _ => True :=
  ⟨by simp, h, fun _ _ _ _ => trivial, by simp, by simp⟩

theorem Confined.mono {R' : ClientId → ClientId → Prop} (h : r.Confined R)
    (hR : ∀ x y, R x y → R' x y) : r.Confined R' where
  together c hc d hd hne := hR _ _ (h.together c hc d hd hne)
  own := h.own
  heard c hc t ht := hR _ _ (h.heard c hc t ht)
  sent d hd := hR _ _ (h.sent d hd)
  stolen st hst := hR _ _ (h.stolen st hst)

/-- What remains to be shown when the clients of one registry continue those of another. -/
theorem Confined.of_continues (h : r.Confined R) (hclients : Continues r.clients r'.clients)
    (hheard : ∀ c ∈ r'.clients, c.negotiator.AllTracks fun t => R t.origin c.id)
    (hsent : ∀ d ∈ r'.deliveries, R d.source d.target)
    (hstolen : ∀ steal ∈ r'.steals, R steal.newcomer steal.evicted) : r'.Confined R where
  together c' hc' d' hd' hne := by
    obtain ⟨c, hc, _, hcc⟩ := hclients c' hc'
    obtain ⟨d, hd, _, hdd⟩ := hclients d' hd'
    rw [hcc.id, hdd.id] at hne ⊢
    exact h.together c hc d hd hne
  own c' hc' t ht := by
    obtain ⟨c, hc, _, hcc⟩ := hclients c' hc'
    rcases hcc.tracksIn t ht with ht | ht
    · exact (h.own c hc t ht).trans hcc.id.symm
    · exact ht.trans hcc.id.symm
  heard := hheard
  sent := hsent
  stolen := hstolen

theorem Confined.keepsTo (h : r.Confined R) (hclients : KeepsTo r.clients r'.clients)
    (hdeliveries : r'.deliveries = r.deliveries) (hsteals : r'.steals = r.steals) :
    r'.Confined R := by
  refine h.of_continues hclients.continues ?_ (hdeliveries ▸ h.sent) (hsteals ▸ h.stolen)
  intro c' hc'
  obtain ⟨c, hc, hcc⟩ := hclients c' hc'
  rw [hcc.id]
  exact hcc.heard _ (by simp) (h.heard c hc)

theorem Confined.addDeliveries {ds : List Delivery} (h : r.Confined R)
    (hds : ∀ d ∈ ds, R d.source d.target) :
    Registry.Confined R { r with deliveries := r.deliveries ++ ds } :=
  ⟨h.together, h.own, h.heard, fun d hd => (List.mem_append.mp hd).elim (h.sent d) (hds d),
    h.stolen⟩

end Confined

/-! ### Fan-out -/

section Fanout

variable {R : ClientId → ClientId → Prop} {r : Registry} {cfg : Config} {world : World} {now : Nat}
  {p : Propagated}

/-- The tracks an event hands to its receivers. -/
def newTracks : Propagated → List TrackIn
  | .trackOpen _ trackIn => [trackIn]
  | _ => []

theorem follows_deliver (origin : ClientId) (c : Client) :
    c.Follows (newTracks p) (r.deliver world now p origin c).1 := by
  cases p with
  | trackOpen _ t => exact .handleTrackOpen world now c t
  | mediaData _ data => exact .handleMediaDataOut world r.drained c origin data
  | _ => exact .refl c

theorem deliver_of_not_isContent (h : p.isContent = false) (origin : ClientId) (c : Client) :
    (r.deliver world now p origin c).2 = [] := by
  cases p <;> first | rfl | cases h

/-- Who an event is from, when it brings something. -/
theorem fromOneOf_origin {origin : ClientId} {ids : List ClientId} (hp : p.FromOneOf ids)
    (horigin : p.clientId = some origin) :
    (p.isContent = true → origin ∈ ids) ∧
      ∀ t ∈ newTracks p, p.isContent = true ∧ t.origin = origin := by
  cases p <;> simp_all [Propagated.clientId, Propagated.isContent, newTracks, Propagated.FromOneOf]

theorem exists_follows_fanoutTurn (origin : ClientId) (c : Client) :
    ∃ new, c.Follows new (r.fanoutTurn world now p origin c).1 := by
  unfold fanoutTurn
  split
  · exact ⟨[], .refl c⟩
  · exact ⟨_, follows_deliver origin c⟩

theorem samePublishers_fanout : r.SamePublishers (r.fanout world now p) := by
  unfold fanout
  split
  · exact .of_clients rfl
  · refine ⟨_, rfl, fun c => ?_⟩
    unfold fanoutTurn
    split
    · exact ⟨rfl, rfl, rfl⟩
    · cases p with
      | mediaData _ data => exact c.samePublisher_handleMediaDataOut world r.drained _ data
      | _ => exact ⟨rfl, rfl, rfl⟩

theorem steals_fanout : (r.fanout world now p).steals = r.steals := by
  unfold fanout
  split <;> rfl

theorem continues_fanout : Continues r.clients (r.fanout world now p).clients := by
  unfold fanout
  split
  · exact (KeepsTo.of_subset (List.Subset.refl _)).continues
  · intro c' hc'
    obtain ⟨c, hc, rfl⟩ := List.mem_map.mp hc'
    exact ⟨c, hc, exists_follows_fanoutTurn _ c⟩

/-- An event of a registered client reaches only clients related to it. -/
theorem Confined.fanout (h : r.Confined R) (hp : p.FromOneOf r.ids) :
    (r.fanout world now p).Confined R := by
  cases horigin : p.clientId with
  | none =>
    simp only [Registry.fanout, horigin]
    exact h.keepsTo (.of_subset (List.Subset.refl _)) rfl rfl
  | some origin =>
    obtain ⟨hmem, htracks⟩ := fromOneOf_origin hp horigin
    have hrelated : p.isContent = true → ∀ c ∈ r.clients, c.id ≠ origin → R origin c.id := by
      intro hcontent c hc hne
      obtain ⟨d, hd, hid⟩ := List.mem_map.mp (hmem hcontent)
      exact hid ▸ h.together d hd c hc (hid ▸ hne.symm)
    refine h.of_continues continues_fanout ?_ ?_ ?_
    · simp only [Registry.fanout, horigin, List.mem_map]
      rintro _ ⟨c, hc, rfl⟩
      unfold fanoutTurn
      split
      · exact h.heard c hc
      · next hcall =>
        have hdeliver : c.Follows (newTracks p) (r.deliver world now p origin c).1 :=
          follows_deliver origin c
        rw [hdeliver.id]
        refine hdeliver.heard _ (fun t ht => ?_) (h.heard c hc)
        obtain ⟨hcontent, ht⟩ := htracks t ht
        exact ht ▸ hrelated hcontent c hc (Propagated.ne_of_call horigin hcall)
    · simp only [Registry.fanout, horigin, List.mem_append, List.mem_flatMap, delivered,
        List.mem_map]
      rintro d (hd | ⟨c, hc, item, hitem, rfl⟩)
      · exact h.sent d hd
      · unfold fanoutTurn at hitem
        split at hitem
        · cases hitem
        · next hcall =>
          refine hrelated ?_ c hc (Propagated.ne_of_call horigin hcall)
          by_contra hcontent
          rw [deliver_of_not_isContent (by simpa using hcontent)] at hitem
          cases hitem
    · rw [steals_fanout]
      exact h.stolen

/-! ### Draining the queue -/

theorem exists_map_consult : ∃ f, (r.consult cfg world now p).clients = r.clients.map f ∧
    ∀ c : Client, c.Stays (f c) := by
  cases p with
  | vfmLayerCap client max =>
    exact ⟨_, rfl, fun c => by split <;> exact ⟨⟨rfl, rfl, rfl⟩, rfl, rfl⟩⟩
  | markRelaySource client url =>
    exact ⟨_, rfl, fun c => by split <;> exact ⟨⟨rfl, rfl, rfl⟩, rfl, rfl⟩⟩
  | mediaData origin data => exact ⟨_, rfl, Client.stays_updatePacerLayer cfg world _ now _⟩
  | _ => exact ⟨id, by simp [consult], fun _ => ⟨⟨rfl, rfl, rfl⟩, rfl, rfl⟩⟩

theorem keepsTo_consult : KeepsTo r.clients (r.consult cfg world now p).clients := by
  obtain ⟨f, hclients, hf⟩ := r.exists_map_consult
  rw [hclients]
  exact .map (fun c => .of_stays (hf c)) r.clients

theorem samePublishers_consult : r.SamePublishers (r.consult cfg world now p) := by
  obtain ⟨f, hclients, hf⟩ := r.exists_map_consult
  exact ⟨f, hclients, fun c => (hf c).toSamePublisher⟩

/-- No pass adds or removes a client or a track. -/
theorem samePublishers_handlePending : r.SamePublishers (r.handlePending cfg world now p) := by
  simp only [handlePending]
  split
  · exact samePublishers_consult.trans (.of_clients rfl)
  · exact (samePublishers_consult.trans samePublishers_fanout).trans (.of_clients rfl)

theorem samePublishers_drainPass : r.SamePublishers (r.drainPass cfg world now) := by
  apply List.foldlRecOn _ _ (.of_clients rfl)
  exact fun r' hr' p _ => hr'.trans samePublishers_handlePending

theorem samePublishers_fanoutPending : r.SamePublishers (r.fanoutPending cfg world now) :=
  samePublishers_drainPass.trans samePublishers_drainPass

theorem steals_consult : (r.consult cfg world now p).steals = r.steals := by
  cases p <;> rfl

theorem Confined.consult (h : r.Confined R) : (r.consult cfg world now p).Confined R := by
  refine h.keepsTo keepsTo_consult ?_ steals_consult
  cases p <;> rfl

/-- A later stage of the same pass: the same clients, still confined. -/
structure Drains (R : ClientId → ClientId → Prop) (r r' : Registry) : Prop where
  confined : r'.Confined R
  ids : r'.ids = r.ids
  continues : Continues r.clients r'.clients
  steals : r'.steals = r.steals

theorem Drains.trans {r' r'' : Registry} (h : Drains R r r') (h' : Drains R r' r'') :
    Drains R r r'' :=
  ⟨h'.confined, h'.ids.trans h.ids, h.continues.trans h'.continues, h'.steals.trans h.steals⟩

theorem Confined.handlePending (h : r.Confined R) (hp : p.FromOneOf r.ids) :
    Drains R r (r.handlePending cfg world now p) := by
  have hconsult : Drains R r (r.consult cfg world now p) :=
    ⟨h.consult, samePublishers_consult.ids, keepsTo_consult.continues, steals_consult⟩
  simp only [Registry.handlePending]
  split
  · exact ⟨hconsult.confined.keepsTo (.of_subset (List.Subset.refl _)) rfl rfl, hconsult.ids,
      hconsult.continues, hconsult.steals⟩
  · have hfanout : Drains R (r.consult cfg world now p)
        ((r.consult cfg world now p).fanout world now p) :=
      ⟨hconsult.confined.fanout (hconsult.ids ▸ hp), samePublishers_fanout.ids, continues_fanout,
        steals_fanout⟩
    have hboth := hconsult.trans hfanout
    exact ⟨hboth.confined.keepsTo (.of_subset (List.Subset.refl _)) rfl rfl, hboth.ids,
      hboth.continues, hboth.steals⟩

theorem Confined.foldl_handlePending {ps : List Propagated} (h : r.Confined R)
    (hps : ∀ p ∈ ps, p.FromOneOf r.ids) :
    Drains R r (ps.foldl (fun r p => r.handlePending cfg world now p) r) := by
  have hrefl : Drains R r r :=
    ⟨h, rfl, (KeepsTo.of_subset (List.Subset.refl _)).continues, rfl⟩
  apply List.foldlRecOn _ _ hrefl
  intro r' hr' p hp
  exact hr'.trans (hr'.confined.handlePending (hr'.ids ▸ hps p hp))

/-- Only a media packet queues events, and none of them is content. -/
theorem mem_toPropagate_handlePending {q : Propagated}
    (hq : q ∈ (r.handlePending cfg world now p).toPropagate) :
    q ∈ r.toPropagate ∨ p.isContent = true ∧ q.isContent = false := by
  have hfanout : ∀ r : Registry, (r.fanout world now p).toPropagate = r.toPropagate := by
    intro r
    unfold fanout
    split <;> rfl
  have hconsult : q ∈ (r.consult cfg world now p).toPropagate := by
    simp only [handlePending] at hq
    split at hq
    · exact hq
    · exact hfanout _ ▸ hq
  cases p with
  | mediaData origin data =>
    rcases List.mem_append.mp hconsult with hq | hq
    · exact .inl hq
    · obtain ⟨c, _, hq⟩ := List.mem_flatMap.mp hq
      exact .inr ⟨rfl, Client.updatePacerLayer_isContent cfg world _ now _ c q hq⟩
  | _ => exact .inl hconsult

theorem mem_toPropagate_foldl_handlePending {ps : List Propagated} {q : Propagated}
    (hq : q ∈ (ps.foldl (fun r p => r.handlePending cfg world now p) r).toPropagate) :
    q ∈ r.toPropagate ∨ (∃ p ∈ ps, p.isContent = true) ∧ q.isContent = false := by
  revert q
  apply List.foldlRecOn (motive := fun r' : Registry => ∀ {q}, q ∈ r'.toPropagate →
    q ∈ r.toPropagate ∨ (∃ p ∈ ps, p.isContent = true) ∧ q.isContent = false) _ _ .inl
  intro r' hr' p hp q hq
  rcases mem_toPropagate_handlePending hq with hq | ⟨hcontent, hq⟩
  · exact hr' hq
  · exact .inr ⟨⟨p, hp, hcontent⟩, hq⟩

theorem isContent_of_mem_drainPass {q : Propagated}
    (hq : q ∈ (r.drainPass cfg world now).toPropagate) : q.isContent = false := by
  rcases mem_toPropagate_foldl_handlePending hq with hq | ⟨_, hq⟩
  · cases hq
  · exact hq

/-- The drain leaves an empty queue: its second pass queues nothing. -/
theorem fanoutPending_toPropagate : (r.fanoutPending cfg world now).toPropagate = [] := by
  apply List.eq_nil_iff_forall_not_mem.mpr
  intro q hq
  rcases mem_toPropagate_foldl_handlePending hq with hq | ⟨⟨p, hp, hcontent⟩, _⟩
  · cases hq
  · rw [isContent_of_mem_drainPass hp] at hcontent
    cases hcontent

theorem Confined.drainPass (h : r.Confined R) (hq : ∀ p ∈ r.toPropagate, p.FromOneOf r.ids) :
    Drains R r (r.drainPass cfg world now) := by
  have hempty : Registry.Confined R { r with toPropagate := [] } :=
    h.keepsTo (.of_subset (List.Subset.refl _)) rfl rfl
  have hfold : Drains R { r with toPropagate := [] } (r.drainPass cfg world now) :=
    hempty.foldl_handlePending hq
  exact ⟨hfold.confined, hfold.ids, hfold.continues, hfold.steals⟩

theorem Confined.fanoutPending (h : r.Confined R) (hq : ∀ p ∈ r.toPropagate, p.FromOneOf r.ids) :
    Drains R r (r.fanoutPending cfg world now) := by
  have hfirst : Drains R r (r.drainPass cfg world now) := h.drainPass hq
  exact hfirst.trans (hfirst.confined.drainPass fun p hp =>
    .of_not_isContent (isContent_of_mem_drainPass hp))

end Fanout

/-! ### The rest of a pass -/

section Pass

variable {r : Registry}

theorem exists_alive_of_mem_reapDead {now : Nat} {c' : Client}
    (hc' : c' ∈ (r.reapDead now).clients) : ∃ c ∈ r.clients, c.alive = true ∧ c.Follows [] c' := by
  obtain ⟨c, hc, rfl⟩ := List.mem_map.mp hc'
  obtain ⟨hc, halive⟩ := List.mem_filter.mp hc
  exact ⟨c, hc, halive, .noteDeparted c _⟩

theorem keepsTo_checkSoloTimeout (timeout now : Nat) :
    KeepsTo r.clients (r.checkSoloTimeout timeout now).clients := by
  unfold checkSoloTimeout
  split
  · next c _ hclients _ =>
    split
    · exact .of_subset (List.Subset.refl _)
    · rw [hclients]
      exact KeepsTo.map .disconnect [c]
  · exact .of_subset (List.Subset.refl _)

theorem keepsTo_pumpWsCtrl (world : World) (now : Nat) (answers : ClientId → List Answer × Bool)
    (keyframeRequests : ClientId → List (Option Rid × ClientId × Mid)) :
    KeepsTo r.clients (r.pumpWsCtrl world now answers keyframeRequests).clients :=
  KeepsTo.map (fun c => .drainWsCtrl world now c _ _) r.clients

theorem isContent_of_mem_pumpWsCtrl {world : World} {now : Nat}
    {answers : ClientId → List Answer × Bool}
    {keyframeRequests : ClientId → List (Option Rid × ClientId × Mid)}
    (hq : ∀ p ∈ r.toPropagate, p.isContent = false) :
    ∀ p ∈ (r.pumpWsCtrl world now answers keyframeRequests).toPropagate, p.isContent = false := by
  simp only [pumpWsCtrl, List.mem_append, List.mem_flatMap, List.mem_map]
  rintro p (hp | ⟨c, _, ⟨rid, source, mid⟩, _, rfl⟩)
  · exact hq p hp
  · rfl

theorem keepsTo_pollAll (cfg : Config) (world : World) (now : Nat)
    (outputs : ClientId → List RtcEvent) :
    KeepsTo r.clients (r.pollAll cfg world now outputs).clients :=
  KeepsTo.map (fun c => .poll world.jwt now cfg.relayAuth _ c) r.clients

theorem fromOneOf_of_mem_pollAll {cfg : Config} {world : World} {now : Nat}
    {outputs : ClientId → List RtcEvent} (hq : ∀ p ∈ r.toPropagate, p.isContent = false) :
    ∀ p ∈ (r.pollAll cfg world now outputs).toPropagate,
      p.FromOneOf (r.pollAll cfg world now outputs).ids := by
  intro p hp
  rcases List.mem_append.mp hp with hp | hp
  · exact .of_not_isContent (hq p hp)
  · obtain ⟨c, hc, hp⟩ := List.mem_flatMap.mp hp
    refine (Client.poll_fromOneOf world.jwt now cfg.relayAuth _ c p hp).mono ?_
    simp only [ids, pollAll, List.map_map, List.cons_subset, List.nil_subset, and_true,
      List.mem_map, Function.comp_apply]
    exact ⟨c, hc, (Client.Follows.poll world.jwt now cfg.relayAuth _ c).id⟩

theorem keepsTo_failInputs (failed : List ClientId) :
    KeepsTo r.clients (r.failInputs failed).clients := by
  refine KeepsTo.map (fun c => ?_) r.clients
  split
  · exact .disconnect c
  · exact .refl c

theorem isContent_of_mem_tickSpeakers {dominant : Option ClientId} {top : List ClientId}
    (hq : ∀ p ∈ r.toPropagate, p.isContent = false) :
    ∀ p ∈ (r.tickSpeakers dominant top).toPropagate, p.isContent = false := by
  simp only [tickSpeakers, List.mem_append, List.mem_map]
  rintro p ((hp | ⟨_, _, rfl⟩) | hp)
  · exact hq p hp
  · rfl
  · split at hp
    · cases hp
    · rw [List.mem_singleton.mp hp]
      rfl

end Pass

/-! ### Joining -/

section Insert

variable {R : ClientId → ClientId → Prop} {r : Registry} {world : World} {now : Nat}

theorem keepsTo_removeDeparted (departed : List ClientId) :
    KeepsTo r.clients (r.removeDeparted departed).clients :=
  KeepsTo.map (fun c => .noteDeparted c departed) r.clients

theorem swapRemove_subset {α : Type} (xs : List α) (i : Nat) : swapRemove xs i ⊆ xs := by
  intro x hx
  unfold swapRemove at hx
  split at hx
  · cases hx
  · next last hlast =>
    rcases List.mem_or_eq_of_mem_set (List.mem_of_mem_dropLast hx) with hx | rfl
    · exact hx
    · exact List.mem_of_getLast? hlast

/-- A steal removes at most one client, and one with the newcomer's peer id. -/
theorem stealSession_cases (r : Registry) (client : Client) :
    r.stealSession client = r ∨
    ∃ old ∈ r.clients, old.externalPeerId = client.externalPeerId ∧
      client.externalPeerId.isSome = true ∧
      KeepsTo r.clients (r.stealSession client).clients ∧
      (r.stealSession client).steals = r.steals ++ [⟨client.id, old.id⟩] ∧
      (r.stealSession client).deliveries = r.deliveries ∧
      (r.stealSession client).toPropagate = r.toPropagate := by
  unfold stealSession
  split
  · exact .inl rfl
  · next pid hpid =>
    split
    · exact .inl rfl
    · next idx hidx =>
      unfold evictForSteal
      split
      · exact .inl rfl
      · next old hold =>
        have hpeer : old.externalPeerId = some pid := by
          have hfound := List.of_findIdx?_eq_some hidx
          rw [hold] at hfound
          simpa using hfound
        refine .inr ⟨old, List.mem_of_getElem? hold, by rw [hpeer, hpid], by simp [hpid], ?_, rfl,
          rfl, rfl⟩
        exact (KeepsTo.of_subset (swapRemove_subset r.clients idx)).trans
          (keepsTo_removeDeparted _)

theorem keepsTo_stealSession (client : Client) :
    KeepsTo r.clients (r.stealSession client).clients := by
  obtain h | ⟨_, _, _, _, h, _⟩ := r.stealSession_cases client
  · rw [h]
    exact .of_subset (List.Subset.refl _)
  · exact h

theorem Confined.stealSession {client : Client} (h : r.Confined R)
    (hnew : ∀ c ∈ r.clients, R client.id c.id) : (r.stealSession client).Confined R := by
  obtain heq | ⟨old, hold, _, _, hclients, hsteals, hdeliveries, _⟩ := r.stealSession_cases client
  · rwa [heq]
  · have hkept : Registry.Confined R { r.stealSession client with steals := r.steals } :=
      h.keepsTo hclients hdeliveries rfl
    refine ⟨hkept.together, hkept.own, hkept.heard, hkept.sent, ?_⟩
    rw [hsteals]
    intro st hst
    rcases List.mem_append.mp hst with hst | hst
    · exact h.stolen st hst
    · obtain rfl := List.mem_singleton.mp hst
      exact hnew old hold

theorem foldl_advertise (ts : List TrackIn) (c : Client) (out : List Delivery) :
    c.Follows ts (ts.foldl (advertise world now) (c, out)).1 ∧
      ∀ d ∈ (ts.foldl (advertise world now) (c, out)).2,
        d ∈ out ∨ ∃ t ∈ ts, d.source = t.origin ∧ d.target = c.id := by
  induction ts generalizing c out with
  | nil => exact ⟨.refl c, fun d hd => .inl hd⟩
  | cons t ts ih =>
    have hopen := Client.Follows.handleTrackOpen world now c t
    obtain ⟨hfollows, hout⟩ := ih (c.handleTrackOpen world now t).1
      (advertise world now (c, out) t).2
    refine ⟨hopen.append hfollows, fun d hd => ?_⟩
    rcases hout d hd with hd | ⟨t', ht', hsource, htarget⟩
    · rcases List.mem_append.mp hd with hd | hd
      · exact .inl hd
      · obtain ⟨item, _, rfl⟩ := List.mem_map.mp hd
        exact .inr ⟨t, by simp, rfl, hopen.id⟩
    · exact .inr ⟨t', by simp [ht'], hsource, htarget.trans hopen.id⟩

/-- The newcomer after the announcements. -/
theorem follows_crossAdvertise (r : Registry) (world : World) (now : Nat) (client : Client) :
    client.Follows (r.clients.flatMap (·.tracksIn))
      (r.crossAdvertise world now (client.noteDeparted r.departed)).1 :=
  (Client.Follows.noteDeparted client r.departed).append (foldl_advertise _ _ _).1

theorem mem_crossAdvertise {client : Client} {d : Delivery}
    (hd : d ∈ (r.crossAdvertise world now client).2) :
    ∃ t ∈ r.clients.flatMap (·.tracksIn), d.source = t.origin ∧ d.target = client.id := by
  rcases (foldl_advertise _ _ _).2 d hd with hd | hd
  · cases hd
  · exact hd

theorem Confined.insert {client : Client} (h : r.Confined R)
    (hnew : ∀ c ∈ r.clients, R c.id client.id ∧ R client.id c.id)
    (htracksIn : client.tracksIn = []) (htracks : client.negotiator.tracks = []) :
    (r.insert world now client).Confined R := by
  have hsteal := h.stealSession fun c hc => (hnew c hc).2
  have hold : ∀ c ∈ (r.stealSession client).clients, R c.id client.id ∧ R client.id c.id := by
    intro c hc
    obtain ⟨c₀, hc₀, hfollows⟩ := keepsTo_stealSession client c hc
    exact hfollows.id ▸ hnew c₀ hc₀
  have hannounced : ∀ t ∈ (r.stealSession client).clients.flatMap (·.tracksIn),
      R t.origin client.id := by
    intro t ht
    obtain ⟨c, hc, ht⟩ := List.mem_flatMap.mp ht
    exact hsteal.own c hc t ht ▸ (hold c hc).1
  have hfollows := follows_crossAdvertise (r.stealSession client) world now client
  refine ⟨?_, ?_, ?_, ?_, hsteal.stolen⟩
  · simp only [Registry.insert, List.mem_append, List.mem_singleton]
    rintro c (hc | rfl) d (hd | rfl) hne
    · exact hsteal.together c hc d hd hne
    · exact hfollows.id ▸ (hold c hc).1
    · exact hfollows.id ▸ (hold d hd).2
    · exact absurd rfl hne
  · simp only [Registry.insert, List.mem_append, List.mem_singleton]
    rintro c (hc | rfl) t ht
    · exact hsteal.own c hc t ht
    · rcases hfollows.tracksIn t ht with ht | ht
      · rw [htracksIn] at ht
        cases ht
      · exact ht.trans hfollows.id.symm
  · simp only [Registry.insert, List.mem_append, List.mem_singleton]
    rintro c (hc | rfl)
    · exact hsteal.heard c hc
    · rw [hfollows.id]
      refine hfollows.heard _ hannounced ?_
      simp [Negotiator.AllTracks, htracks]
  · simp only [Registry.insert, List.mem_append]
    rintro d (hd | hd)
    · exact hsteal.sent d hd
    · obtain ⟨t, ht, hsource, htarget⟩ := mem_crossAdvertise hd
      rw [hsource, htarget]
      exact hannounced t ht

/-- Who is registered after an insert. -/
theorem mem_clients_insert {client c : Client} (hc : c ∈ (r.insert world now client).clients) :
    (∃ c₀ ∈ r.clients, c₀.Follows [] c) ∨
      c.id = client.id ∧ c.externalPeerId = client.externalPeerId := by
  rcases List.mem_append.mp hc with hc | hc
  · exact .inl (keepsTo_stealSession client c hc)
  · obtain rfl := List.mem_singleton.mp hc
    have hfollows := follows_crossAdvertise (r.stealSession client) world now client
    exact .inr ⟨hfollows.id, hfollows.externalPeerId⟩

theorem mem_steals_insert {client : Client} {steal : Steal}
    (h : steal ∈ (r.insert world now client).steals) :
    steal ∈ r.steals ∨ steal.newcomer = client.id ∧ client.externalPeerId.isSome = true ∧
      ∃ old ∈ r.clients, steal.evicted = old.id ∧ old.externalPeerId = client.externalPeerId := by
  have hsteals : steal ∈ (r.stealSession client).steals := h
  obtain heq | ⟨old, hold, hpeer, hsome, _, heq, _⟩ := r.stealSession_cases client
  · exact .inl (heq ▸ hsteals)
  · rw [heq] at hsteals
    rcases List.mem_append.mp hsteals with h | h
    · exact .inl h
    · obtain rfl := List.mem_singleton.mp h
      exact .inr ⟨rfl, hsome, old, hold, rfl, hpeer⟩

theorem isContent_of_mem_insert {client : Client}
    (hq : ∀ p ∈ r.toPropagate, p.isContent = false) :
    ∀ p ∈ (r.insert world now client).toPropagate, p.isContent = false := by
  have hsteal : (r.stealSession client).toPropagate = r.toPropagate := by
    obtain h | ⟨_, _, _, _, _, _, _, h⟩ := r.stealSession_cases client
    · rw [h]
    · exact h
  simp only [Registry.insert, hsteal, List.mem_append, List.mem_singleton]
  rintro p (hp | rfl)
  · exact hq p hp
  · rfl

end Insert

end Registry

end PartnerEdge.Sfu
