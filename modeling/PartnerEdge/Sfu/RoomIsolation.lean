import PartnerEdge.Client.Subscriptions
import PartnerEdge.Sfu.Confinement
import PartnerEdge.Sfu.Serve

/-!
# Rooms

Tokens bind a browser to a room at the door, but nothing behind it does: the registry is one room.
Two browsers of different rooms in one process hear each other, and a peer id of one room replaces
the same peer id of another. What the process does keep apart are rooms it serves one after the
other: if every browser is inserted while the registered ones are of its room, nothing of one room
reaches a browser of another, although queues, tracks and renegotiations outlive the clients they
came from.
-/

namespace PartnerEdge.Sfu

open Svc PartnerEdge.Client Text

namespace Process

/-! ## One pass -/

section Drive

variable {R : ClientId → ClientId → Prop} (cfg : Config) (world : World) {s : Process} (p : Pass)

theorem soloKick_spec (r : Registry) (now : Nat) :
    KeepsTo r.clients (soloKick cfg r now).clients ∧
      (soloKick cfg r now).toPropagate = r.toPropagate ∧
      (soloKick cfg r now).deliveries = r.deliveries ∧ (soloKick cfg r now).steals = r.steals := by
  unfold soloKick
  split
  · refine ⟨Registry.keepsTo_checkSoloTimeout _ _, ?_⟩
    unfold Registry.checkSoloTimeout
    split
    · split <;> exact ⟨rfl, rfl, rfl⟩
    · exact ⟨rfl, rfl, rfl⟩
  · exact ⟨.of_subset (List.Subset.refl _), rfl, rfl, rfl⟩

theorem keepsTo_polled (s : Process) :
    KeepsTo (s.registry.reapDead p.now).clients (s.polled cfg world p).clients :=
  ((soloKick_spec cfg _ _).1.trans (Registry.keepsTo_pumpWsCtrl _ _ _ _)).trans
    (Registry.keepsTo_pollAll _ _ _ _)

variable {cfg world p} in
theorem exists_alive_of_mem_polled {c' : Client} (hc' : c' ∈ (s.polled cfg world p).clients) :
    ∃ c ∈ s.registry.clients, c.alive = true ∧ c.Follows [] c' := by
  obtain ⟨c₁, hc₁, hfollows'⟩ := keepsTo_polled cfg world p s c' hc'
  obtain ⟨c, hc, halive, hfollows⟩ := Registry.exists_alive_of_mem_reapDead hc₁
  exact ⟨c, hc, halive, hfollows.trans hfollows'⟩

/-- The pass up to its `select`: who is registered then was alive before, the queue is empty, and
what was confined is. -/
theorem drive_spec (h : s.registry.Confined R)
    (hq : ∀ q ∈ s.registry.toPropagate, q.isContent = false) :
    (s.drive cfg world p).registry.Confined R ∧
      (s.drive cfg world p).registry.toPropagate = [] ∧
      (s.drive cfg world p).registry.steals = s.registry.steals ∧
      ∀ c' ∈ (s.drive cfg world p).registry.clients,
        ∃ c ∈ s.registry.clients, c.alive = true ∧ ∃ new, c.Follows new c' := by
  obtain ⟨_, hqueue, hdeliveries, hsteals⟩ :=
    soloKick_spec cfg (s.registry.reapDead p.now) p.now
  have hkeeps : KeepsTo s.registry.clients (s.polled cfg world p).clients := by
    intro c' hc'
    obtain ⟨c, hc, _, hfollows⟩ := exists_alive_of_mem_polled hc'
    exact ⟨c, hc, hfollows⟩
  have hpolled : (s.polled cfg world p).Confined R := h.keepsTo hkeeps hdeliveries hsteals
  have hdrain : Registry.Drains R (s.polled cfg world p) (s.drive cfg world p).registry := by
    refine hpolled.fanoutPending (Registry.fromOneOf_of_mem_pollAll ?_)
    apply Registry.isContent_of_mem_pumpWsCtrl
    rw [hqueue]
    exact hq
  refine ⟨hdrain.confined, Registry.fanoutPending_toPropagate, hdrain.steals.trans hsteals, ?_⟩
  intro c' hc'
  obtain ⟨c₁, hc₁, new, hfollows'⟩ := hdrain.continues c' hc'
  obtain ⟨c, hc, halive, hfollows⟩ := exists_alive_of_mem_polled hc₁
  exact ⟨c, hc, halive, _, hfollows.append hfollows'⟩

end Drive

/-! ## Admissions -/

/-- What every run keeps: fresh ids, an admission for each registered browser, and steals between
sessions of one peer id. -/
structure Consistent (s : Process) : Prop where
  own : ∀ c ∈ s.registry.clients, ∀ t ∈ c.tracksIn, t.origin = c.id
  quiet : ∀ q ∈ s.registry.toPropagate, q.isContent = false
  clientIds : ∀ c ∈ s.registry.clients, c.id < s.nextClientId
  admissionIds : ∀ a ∈ s.admissions, a.id < s.nextClientId
  admitted : ∀ c ∈ s.registry.clients, ∀ pid, c.externalPeerId = some pid →
    ∃ a ∈ s.admissions, a.id = c.id ∧ a.peerId = pid
  steals : ∀ steal ∈ s.registry.steals, ∃ a ∈ s.admissions, ∃ b ∈ s.admissions,
    a.id = steal.newcomer ∧ b.id = steal.evicted ∧ a.peerId = b.peerId

section Consistent

variable {cfg : Config} {world : World} {s : Process}

theorem Consistent.init : init.Consistent := by
  constructor <;> simp [Process.init, Registry.empty]

variable (h : s.Consistent)
include h

/-- A step after which every registered client was registered before. -/
theorem Consistent.continues {r : Registry} (hclients : Continues s.registry.clients r.clients)
    (hqueue : ∀ q ∈ r.toPropagate, q.isContent = false) (hsteals : r.steals = s.registry.steals) :
    Consistent { s with registry := r } where
  own c' hc' t ht := by
    obtain ⟨c, hc, _, hfollows⟩ := hclients c' hc'
    rcases hfollows.tracksIn t ht with ht | ht
    · exact (h.own c hc t ht).trans hfollows.id.symm
    · exact ht.trans hfollows.id.symm
  quiet := hqueue
  clientIds c' hc' := by
    obtain ⟨c, hc, _, hfollows⟩ := hclients c' hc'
    exact hfollows.id ▸ h.clientIds c hc
  admissionIds := h.admissionIds
  admitted c' hc' pid hpid := by
    obtain ⟨c, hc, _, hfollows⟩ := hclients c' hc'
    rw [hfollows.id]
    exact h.admitted c hc pid (hfollows.externalPeerId ▸ hpid)
  steals := hsteals ▸ h.steals

theorem Consistent.drive (p : Pass) : (s.drive cfg world p).Consistent := by
  obtain ⟨_, hqueue, hsteals, hclients⟩ := drive_spec cfg world p (.of_own h.own) h.quiet
  have hcontinues : Continues s.registry.clients (s.drive cfg world p).registry.clients := by
    intro c' hc'
    obtain ⟨c, hc, _, hfollows⟩ := hclients c' hc'
    exact ⟨c, hc, hfollows⟩
  exact h.continues hcontinues (fun _ hq => by cases hqueue ▸ hq) hsteals

/-- A client with the next id joins, with an admission if it has a peer id. -/
theorem Consistent.join {client : Client} {admission : Option Admission} {now : Nat}
    (hid : client.id = s.nextClientId) (htracksIn : client.tracksIn = [])
    (htracks : client.negotiator.tracks = []) (hnew : ∀ a ∈ admission, a.id = s.nextClientId)
    (hpeer : ∀ pid, client.externalPeerId = some pid → ∃ a ∈ admission, a.peerId = pid) :
    (s.join world now client admission).Consistent where
  own := ((Registry.Confined.of_own h.own).insert (fun _ _ => ⟨trivial, trivial⟩) htracksIn
    htracks).own
  quiet := Registry.isContent_of_mem_insert h.quiet
  clientIds c hc := by
    rcases Registry.mem_clients_insert hc with ⟨c₀, hc₀, hfollows⟩ | ⟨hc, _⟩
    · rw [hfollows.id]
      exact Nat.lt_succ_of_lt (h.clientIds c₀ hc₀)
    · rw [hc, hid]
      exact Nat.lt_succ_self _
  admissionIds a ha := by
    rcases List.mem_append.mp ha with ha | ha
    · exact Nat.lt_succ_of_lt (h.admissionIds a ha)
    · rw [hnew a (Option.mem_toList.mp ha)]
      exact Nat.lt_succ_self _
  admitted c hc pid hpid := by
    rcases Registry.mem_clients_insert hc with ⟨c₀, hc₀, hfollows⟩ | ⟨hcid, hcpeer⟩
    · obtain ⟨a, ha, haid, hapeer⟩ := h.admitted c₀ hc₀ pid (hfollows.externalPeerId ▸ hpid)
      exact ⟨a, List.mem_append_left _ ha, haid.trans hfollows.id.symm, hapeer⟩
    · obtain ⟨a, ha, hapeer⟩ := hpeer pid (hcpeer ▸ hpid)
      exact ⟨a, List.mem_append_right _ (Option.mem_toList.mpr ha), by rw [hnew a ha, hcid, hid],
        hapeer⟩
  steals steal hsteal := by
    rcases Registry.mem_steals_insert hsteal with hsteal | ⟨hst, hsome, old, hold, hevicted, hsame⟩
    · obtain ⟨a, ha, b, hb, hab⟩ := h.steals steal hsteal
      exact ⟨a, List.mem_append_left _ ha, b, List.mem_append_left _ hb, hab⟩
    · obtain ⟨pid, hpid⟩ := Option.isSome_iff_exists.mp hsome
      obtain ⟨a, ha, hapeer⟩ := hpeer pid hpid
      obtain ⟨b, hb, hbid, hbpeer⟩ := h.admitted old hold pid (hsame.trans hpid)
      exact ⟨a, List.mem_append_right _ (Option.mem_toList.mpr ha), b, List.mem_append_left _ hb,
        by rw [hnew a ha, hst, hid], hbid.trans hevicted.symm, hapeer.trans hbpeer.symm⟩

theorem Consistent.announce (rest : List PendingClient) : (s.announce world rest).Consistent :=
  ⟨h.own, h.quiet, h.clientIds, h.admissionIds, h.admitted, h.steals⟩

theorem Consistent.select (now : Nat) (arm : Arm) : (s.select cfg world now arm).Consistent := by
  cases arm with
  | input failed =>
    exact h.continues (Registry.keepsTo_failInputs failed).continues h.quiet rfl
  | speakerTick dominant top =>
    refine h.continues (KeepsTo.of_subset (List.Subset.refl _)).continues ?_ rfl
    exact Registry.isContent_of_mem_tickSpeakers h.quiet
  | relayInjected upstreamUrl =>
    exact h.join rfl rfl rfl (by simp) (fun _ hpid => by cases hpid)
  | clientInjected =>
    simp only [Process.select, injectClient]
    split
    · exact h
    · exact (h.announce _).join rfl rfl rfl (by simp [Process.announce])
        (by simp [Client.newBrowser])

theorem Consistent.step (i : Step) : (s.step cfg world i).Consistent := by
  have hsame : ∀ sessions rx, Consistent { s with sessions, clientInjectRx := rx } := fun _ _ =>
    ⟨h.own, h.quiet, h.clientIds, h.admissionIds, h.admitted, h.steals⟩
  cases i with
  | upgrade req =>
    simp only [Process.step, Process.upgrade]
    split
    · exact hsame _ _
    · exact h
  | sessionReady i =>
    simp only [Process.step, Process.sessionReady]
    split
    · exact hsame _ _
    · exact h
  | sessionEnded i => exact hsame _ _
  | pass p => exact (h.drive p).select p.now p.arm

end Consistent

/-! ## Rooms served one after the other -/

/-- Both clients have joined, and if both are browsers they are of one room. -/
def SameRoom (s : Process) (x y : ClientId) : Prop :=
  x < s.nextClientId ∧ y < s.nextClientId ∧
    ∀ a ∈ s.admissions, ∀ b ∈ s.admissions, a.id = x → b.id = y → a.roomId = b.roomId

/-- The room a step inserts a browser for is the room of every registered browser. -/
def servesOneRoom (s : Process) : Step → Prop
  | .pass p => p.arm = .clientInjected → ∀ pending ∈ s.clientInjectRx.head?,
      ∀ c ∈ s.registry.clients, c.alive = true →
        ∀ a ∈ s.admissions, a.id = c.id → a.roomId = pending.roomId
  | _ => True

instance (s : Process) : ∀ i, Decidable (s.servesOneRoom i)
  | .pass p => inferInstanceAs (Decidable (p.arm = .clientInjected →
      ∀ pending ∈ s.clientInjectRx.head?, ∀ c ∈ s.registry.clients, c.alive = true →
        ∀ a ∈ s.admissions, a.id = c.id → a.roomId = pending.roomId))
  | .upgrade _ | .sessionReady _ | .sessionEnded _ => inferInstanceAs (Decidable True)

/-- No media, announcement or frame of a browser reaches a browser of another room, none of its
tracks is held for one, and sessions are replaced within a room and by the same peer. -/
structure RoomsIsolated (s : Process) : Prop where
  deliveries : ∀ a ∈ s.admissions, ∀ b ∈ s.admissions, a.roomId ≠ b.roomId →
    ∀ d ∈ s.registry.deliveries, ¬ (d.source = a.id ∧ d.target = b.id)
  tracks : ∀ a ∈ s.admissions, ∀ b ∈ s.admissions, a.roomId ≠ b.roomId →
    ∀ c ∈ s.registry.clients, c.id = b.id → ∀ t ∈ c.negotiator.tracks, t.origin ≠ a.id
  steals : ∀ steal ∈ s.registry.steals, ∃ a ∈ s.admissions, ∃ b ∈ s.admissions,
    a.id = steal.newcomer ∧ b.id = steal.evicted ∧ a.roomId = b.roomId ∧ a.peerId = b.peerId

section Rooms

variable {cfg : Config} {world : World} {s : Process}

theorem Consistent.roomsIsolated (h : s.Consistent) (hrooms : s.registry.Confined s.SameRoom) :
    s.RoomsIsolated where
  deliveries a ha b hb hne d hd := by
    rintro ⟨hsource, htarget⟩
    exact hne ((hrooms.sent d hd).2.2 a ha b hb hsource.symm htarget.symm)
  tracks a ha b hb hne c hc hid t ht horigin :=
    hne ((hrooms.heard c hc t ht).2.2 a ha b hb horigin.symm hid.symm)
  steals steal hsteal := by
    obtain ⟨a, ha, b, hb, hnewcomer, hevicted, hpeer⟩ := h.steals steal hsteal
    exact ⟨a, ha, b, hb, hnewcomer, hevicted,
      (hrooms.stolen steal hsteal).2.2 a ha b hb hnewcomer hevicted, hpeer⟩

/-- A join changes nothing between clients that joined before. -/
theorem SameRoom.join {client : Client} {admission : Option Admission} {now : Nat} {x y : ClientId}
    (hnew : ∀ a ∈ admission, a.id = s.nextClientId) (h : s.SameRoom x y) :
    (s.join world now client admission).SameRoom x y := by
  obtain ⟨hx, hy, hrooms⟩ := h
  refine ⟨Nat.lt_succ_of_lt hx, Nat.lt_succ_of_lt hy, ?_⟩
  have hold : ∀ a ∈ s.admissions ++ admission.toList, a.id < s.nextClientId →
      a ∈ s.admissions := by
    intro a ha hlt
    rcases List.mem_append.mp ha with ha | ha
    · exact ha
    · rw [hnew a (Option.mem_toList.mp ha)] at hlt
      exact absurd hlt (Nat.lt_irrefl _)
  rintro a ha b hb rfl rfl
  exact hrooms a (hold a ha hx) b (hold b hb hy) rfl rfl

/-- A newcomer of the registered browsers' room is in one room with each of them. -/
theorem Consistent.sameRoom_newcomer {client c : Client} {admission : Option Admission} {now : Nat}
    (h : s.Consistent) (hnew : ∀ a ∈ admission, a.id = s.nextClientId) (hc : c ∈ s.registry.clients)
    (hroom : ∀ a ∈ admission, ∀ b ∈ s.admissions, b.id = c.id → b.roomId = a.roomId) :
    (s.join world now client admission).SameRoom c.id s.nextClientId ∧
      (s.join world now client admission).SameRoom s.nextClientId c.id := by
  have hlt := h.clientIds c hc
  have hold : ∀ a ∈ s.admissions ++ admission.toList, a.id = c.id → a ∈ s.admissions := by
    intro a ha hid
    rcases List.mem_append.mp ha with ha | ha
    · exact ha
    · exact absurd (hid.symm.trans (hnew a (Option.mem_toList.mp ha))) (Nat.ne_of_lt hlt)
  have hfresh : ∀ a ∈ s.admissions ++ admission.toList, a.id = s.nextClientId →
      a ∈ admission := by
    intro a ha hid
    rcases List.mem_append.mp ha with ha | ha
    · exact absurd hid (Nat.ne_of_lt (h.admissionIds a ha))
    · exact Option.mem_toList.mp ha
  refine ⟨⟨Nat.lt_succ_of_lt hlt, Nat.lt_succ_self _, ?_⟩,
    ⟨Nat.lt_succ_self _, Nat.lt_succ_of_lt hlt, ?_⟩⟩
  · intro a ha b hb haid hbid
    exact hroom b (hfresh b hb hbid) a (hold a ha haid) haid
  · intro a ha b hb haid hbid
    exact (hroom a (hfresh a ha haid) b (hold b hb hbid) hbid).symm

theorem sameRoom_join {client : Client} {admission : Option Admission} {now : Nat}
    (h : s.Consistent) (hnew : ∀ a ∈ admission, a.id = s.nextClientId)
    (hroom : ∀ c ∈ s.registry.clients, ∀ a ∈ admission, ∀ b ∈ s.admissions, b.id = c.id →
      b.roomId = a.roomId)
    (hrooms : s.registry.Confined (s.join world now client admission).SameRoom)
    (hid : client.id = s.nextClientId) (htracksIn : client.tracksIn = [])
    (htracks : client.negotiator.tracks = []) :
    (s.join world now client admission).registry.Confined
      (s.join world now client admission).SameRoom := by
  refine hrooms.insert (fun c hc => ?_) htracksIn htracks
  rw [hid]
  exact h.sameRoom_newcomer hnew hc (hroom c hc)

theorem mem_tracksMap {newcomer : ClientId} {d : Delivery} (hd : d ∈ s.tracksMap world newcomer) :
    ∃ c ∈ s.registry.clients, d.source = c.id ∧ d.target = newcomer := by
  unfold tracksMap at hd
  split at hd
  · obtain ⟨c, hc, hd⟩ := List.mem_flatMap.mp hd
    obtain ⟨_, _, rfl⟩ := List.mem_map.mp hd
    exact ⟨c, hc, rfl, rfl⟩
  · cases hd

/-- The arms of the loop keep rooms apart, if a browser joins its own room. -/
theorem sameRoom_select {arm : Arm} {now : Nat} (h : s.Consistent)
    (hrooms : s.registry.Confined s.SameRoom)
    (hone : arm = .clientInjected → ∀ pending ∈ s.clientInjectRx.head?,
      ∀ c ∈ s.registry.clients, ∀ a ∈ s.admissions, a.id = c.id → a.roomId = pending.roomId) :
    (s.select cfg world now arm).registry.Confined (s.select cfg world now arm).SameRoom := by
  cases arm with
  | input failed => exact hrooms.keepsTo (Registry.keepsTo_failInputs failed) rfl rfl
  | speakerTick dominant top =>
    exact hrooms.keepsTo (.of_subset (List.Subset.refl _)) rfl rfl
  | relayInjected upstreamUrl =>
    exact sameRoom_join h (by simp) (by simp) (hrooms.mono fun _ _ => SameRoom.join (by simp))
      rfl rfl rfl
  | clientInjected =>
    simp only [Process.select, injectClient]
    split
    · exact hrooms
    · next pending rest hrx =>
      have hannounced : (s.announce world rest).Consistent := h.announce rest
      have hnew : ∀ a ∈ some (Admission.mk s.nextClientId pending.roomId pending.externalPeerId),
          a.id = s.nextClientId := by simp
      have hroom : ∀ c ∈ s.registry.clients,
          ∀ a ∈ some (Admission.mk s.nextClientId pending.roomId pending.externalPeerId),
          ∀ b ∈ s.admissions, b.id = c.id → b.roomId = a.roomId := by
        rintro c hc _ ⟨⟩
        exact hone rfl pending (by simp [hrx]) c hc
      refine sameRoom_join hannounced hnew hroom ?_ rfl rfl rfl
      refine (hrooms.mono fun _ _ => SameRoom.join (s := s.announce world rest) hnew).addDeliveries
        fun d hd => ?_
      obtain ⟨c, hc, hsource, htarget⟩ := mem_tracksMap hd
      rw [hsource, htarget]
      exact (hannounced.sameRoom_newcomer hnew hc (hroom c hc)).1

/-- A pass keeps rooms apart, if the room it inserts a browser for is the registered one. -/
theorem sameRoom_step (h : s.Consistent) (hrooms : s.registry.Confined s.SameRoom) {i : Step}
    (hone : s.servesOneRoom i) :
    (s.step cfg world i).registry.Confined (s.step cfg world i).SameRoom := by
  cases i with
  | upgrade req =>
    simp only [Process.step, Process.upgrade]
    split <;> exact hrooms
  | sessionReady i =>
    simp only [Process.step, Process.sessionReady]
    split <;> exact hrooms
  | sessionEnded i => exact hrooms
  | pass p =>
    obtain ⟨hdriven, _, _, hclients⟩ := drive_spec cfg world p hrooms h.quiet
    refine sameRoom_select (h.drive p) hdriven fun harm pending hpending c' hc' a ha hid => ?_
    obtain ⟨c, hc, halive, _, hfollows⟩ := hclients c' hc'
    exact hone harm pending hpending c hc halive a ha (hid.trans hfollows.id)

end Rooms

/-! ## Tokens -/

/-- Some request of the run carried a verified token of this room and peer, for this room. -/
def HasToken (cfg : Config) (world : World) (steps : List Step) (roomId : Str) (peerId : Nat) :
    Prop :=
  ∃ req token claims, Step.upgrade req ∈ steps ∧ req.roomId = roomId ∧
    extractBearerFromSubprotocols req.subprotocols = some token ∧
    verifyToken world.jwt req.now cfg.auth token roomId = .ok claims ∧
    claims.room = roomId ∧ claims.sub = peerId

/-- Every session, on its way to the loop and after, has a token. -/
structure Verified (cfg : Config) (world : World) (steps : List Step) (s : Process) : Prop where
  sessions : ∀ x ∈ s.sessions, HasToken cfg world steps x.roomId x.externalPeerId
  injected : ∀ x ∈ s.clientInjectRx, HasToken cfg world steps x.roomId x.externalPeerId
  admissions : ∀ a ∈ s.admissions, HasToken cfg world steps a.roomId a.peerId

section Tokens

variable {cfg : Config} {world : World} {steps : List Step} {s : Process}

theorem HasToken.snoc {roomId : Str} {peerId : Nat} (h : HasToken cfg world steps roomId peerId)
    (i : Step) : HasToken cfg world (steps ++ [i]) roomId peerId := by
  obtain ⟨req, token, claims, hreq, h⟩ := h
  exact ⟨req, token, claims, List.mem_append_left _ hreq, h⟩

theorem Verified.snoc (h : s.Verified cfg world steps) (i : Step) :
    s.Verified cfg world (steps ++ [i]) :=
  ⟨fun x hx => (h.sessions x hx).snoc i, fun x hx => (h.injected x hx).snoc i,
    fun a ha => (h.admissions a ha).snoc i⟩

theorem Verified.select (h : s.Verified cfg world steps) (now : Nat) (arm : Arm) :
    (s.select cfg world now arm).Verified cfg world steps := by
  cases arm with
  | input failed => exact ⟨h.sessions, h.injected, h.admissions⟩
  | speakerTick dominant top => exact ⟨h.sessions, h.injected, h.admissions⟩
  | relayInjected url =>
    exact ⟨h.sessions, h.injected, fun a ha => h.admissions a (by simpa [Process.select,
      injectRelay, join] using ha)⟩
  | clientInjected =>
    simp only [Process.select, injectClient]
    split
    · exact h
    · next pending rest hrx =>
      have hpending := h.injected pending (by simp [hrx])
      refine ⟨h.sessions, fun x hx => h.injected x (by rw [hrx]; exact .tail _ hx), ?_⟩
      simp only [join, announce, Option.toList_some, List.mem_append, List.mem_singleton]
      rintro a (ha | rfl)
      · exact h.admissions a ha
      · exact hpending

theorem Verified.step (h : s.Verified cfg world steps) (i : Step) :
    (s.step cfg world i).Verified cfg world (steps ++ [i]) := by
  have hold := h.snoc i
  cases i with
  | upgrade req =>
    simp only [Process.step, Process.upgrade]
    split
    · next room peerId hsession =>
      refine ⟨?_, hold.injected, hold.admissions⟩
      simp only [List.mem_append, List.mem_singleton]
      rintro x (hx | rfl)
      · exact hold.sessions x hx
      · obtain ⟨hreq, token, claims, htoken⟩ := clientWsUpgrade_session hsession
        exact ⟨req, token, claims, by simp, hreq, htoken⟩
    · exact hold
  | sessionReady i =>
    simp only [Process.step, Process.sessionReady]
    split
    · next pending hpending =>
      refine ⟨fun x hx => hold.sessions x (List.mem_of_mem_eraseIdx hx), ?_, hold.admissions⟩
      simp only [List.mem_append, List.mem_singleton]
      rintro x (hx | rfl)
      · exact hold.injected x hx
      · exact hold.sessions x (List.mem_of_getElem? hpending)
    · exact hold
  | sessionEnded i =>
    exact ⟨fun x hx => hold.sessions x (List.mem_of_mem_eraseIdx hx), hold.injected,
      hold.admissions⟩
  | pass p =>
    have hdriven : (s.drive cfg world p).Verified cfg world (steps ++ [.pass p]) :=
      ⟨hold.sessions, hold.injected, hold.admissions⟩
    exact hdriven.select p.now p.arm

end Tokens

end Process

/-! ## Runs -/

/-- A browser is admitted only with a token of its room, and replaces only a session of its own peer
id. If the process serves one room at a time, rooms are isolated. -/
theorem roomsIsolated_of_servesOneRoom (cfg : Config) (world : World) (steps : List Step) :
    (∀ a ∈ ((process cfg world).run .init steps).admissions,
      Process.HasToken cfg world steps a.roomId a.peerId) ∧
    (∀ steal ∈ ((process cfg world).run .init steps).registry.steals,
      ∃ a ∈ ((process cfg world).run .init steps).admissions,
      ∃ b ∈ ((process cfg world).run .init steps).admissions,
        a.id = steal.newcomer ∧ b.id = steal.evicted ∧ a.peerId = b.peerId) ∧
    ((process cfg world).Allowed Process.servesOneRoom .init steps →
      ((process cfg world).run .init steps).RoomsIsolated) := by
  have hverified : ((process cfg world).run .init steps).Verified cfg world steps := by
    refine Machine.run_invariant (P := fun _ => True) ?_ (fun _ _ i _ h => h.step i) (by simp)
    constructor <;> simp [Process.init]
  have hconsistent : ((process cfg world).run .init steps).Consistent :=
    Machine.run_invariant (I := fun _ (s : Process) => s.Consistent) (P := fun _ => True) .init
      (fun _ _ i _ h => h.step i) (by simp)
  refine ⟨hverified.admissions, hconsistent.steals, fun hone => ?_⟩
  have hrooms : ((process cfg world).run .init steps).Consistent ∧
      ((process cfg world).run .init steps).registry.Confined
        ((process cfg world).run .init steps).SameRoom := by
    refine Machine.run_of_allowed
      (I := fun s : Process => s.Consistent ∧ s.registry.Confined s.SameRoom)
      ?_ ⟨.init, ?_⟩ hone
    · exact fun s i h hi => ⟨h.1.step i, Process.sameRoom_step h.1 h.2 hi⟩
    · constructor <;> simp [Process.init, Registry.empty]
  exact hrooms.1.roomsIsolated hrooms.2

/-! ### Sample runs -/

def sampleConfig : Config where
  auth := ⟨[1, 2, 3], none, true, ⟨[], "oxpulse-sfu".toList, false⟩⟩
  relayAuth := ⟨none, none, true, ⟨[], "oxpulse-sfu".toList, false⟩⟩
  soloKickTimeout := none
  pacerFloorEnabled := false
  bweTemporalCapEnabled := false
  audioOnlyBps := 100000
  lowMinBps := 150000

/-- Tokens that were issued, with their claims. -/
def sampleTokens : List (Str × RoomClaims) :=
  [("red-1".toList, ⟨1, "red".toList, 0, 1000⟩), ("red-2".toList, ⟨2, "red".toList, 0, 1000⟩),
    ("blue-1".toList, ⟨1, "blue".toList, 0, 1000⟩), ("blue-2".toList, ⟨2, "blue".toList, 0, 1000⟩)]

/-- A world in which issued tokens verify until they expire and every write succeeds. -/
def sampleWorld : World where
  jwt :=
    { edPemParses := fun _ => false
      decode := fun now token _ _ =>
        match sampleTokens.lookup token with
        | some claims => if claims.exp < now then .error .expiredSignature else .ok claims
        | none => .error .invalidSignature }
  negotiation _ := sampleEnv fun _ => false
  channelWrites _ _ _ := true
  mediaWrites _ _ _ := .written
  estimate _ _ := none
  pacerAction _ _ _ := .noChange
  tracksMapSent _ := true

def samplePass (answers : ClientId → List Answer × Bool) (outputs : ClientId → List RtcEvent)
    (arm : Arm) : Step :=
  .pass ⟨5, answers, fun _ => [], outputs, arm⟩

/-- A browser joins: upgrade, SDP exchange, and the pass that inserts it. -/
def sampleJoin (room token : String) : List Step :=
  [.upgrade ⟨room.toList, some ("bearer.".toList ++ token.toList), 5, 0, 50⟩, .sessionReady 0,
    samplePass (fun _ => ([], false)) (fun _ => []) .clientInjected]

def sampleEvents (events : ClientId → List RtcEvent) : List Step :=
  [samplePass (fun _ => ([], false)) events (.input [])]

/-- A browser of one room and two of another. The first one opens a track, which the second accepts,
and sends a packet, a chat message and a key frame. -/
def twoRooms : List Step :=
  sampleJoin "red" "red-1" ++ sampleJoin "blue" "blue-2" ++
    sampleEvents (fun id => if id = 0 then [.mediaAdded "0" .video .recvOnly] else []) ++
    [samplePass (fun id => if id = 1 then ([.accepted], false) else ([], false))
      (fun id => if id = 0 then [.mediaData ⟨"0", none, none⟩, .channelData "chat-data" [104, 105],
        .channelData "sframe-keys" [7]] else []) (.input [])] ++
    sampleJoin "blue" "blue-1"

/-- Two rooms at once are one: the second browser gets the first one's announcement, packet, chat
message and keys, and the third, of the second room, replaces the first one's session. -/
theorem rooms_share_registry :
    ((process sampleConfig sampleWorld).run .init twoRooms).admissions =
        [⟨0, "red".toList, 1⟩, ⟨1, "blue".toList, 2⟩, ⟨2, "blue".toList, 1⟩] ∧
      [⟨0, 1, .trackOpen ⟨0, "0", .video, some 1⟩⟩, ⟨0, 1, .media "" ⟨"0", none, none⟩⟩,
        ⟨0, 1, .chatData [104, 105]⟩, ⟨0, 1, .keysData [7]⟩] ⊆
        ((process sampleConfig sampleWorld).run .init twoRooms).registry.deliveries ∧
      ((process sampleConfig sampleWorld).run .init twoRooms).registry.steals = [⟨2, 0⟩] ∧
      ¬ ((process sampleConfig sampleWorld).run .init twoRooms).RoomsIsolated := by
  refine ⟨by decide +kernel, by decide +kernel, by decide +kernel, fun h => ?_⟩
  exact h.deliveries ⟨0, "red".toList, 1⟩ (by decide +kernel) ⟨1, "blue".toList, 2⟩
    (by decide +kernel) (by decide) ⟨0, 1, .chatData [104, 105]⟩ (by decide +kernel) ⟨rfl, rfl⟩

/-- Two browsers of one room, who leave before a browser of another room joins. -/
def roomAfterRoom : List Step :=
  sampleJoin "red" "red-1" ++ sampleJoin "red" "red-2" ++
    sampleEvents (fun id => if id = 0 then [.channelData "chat-data" [104, 105]] else []) ++
    sampleEvents (fun _ => [.disconnected]) ++ sampleJoin "blue" "blue-1"

theorem roomsIsolated_of_servesOneRoom_roomAfterRoom :
    ((process sampleConfig sampleWorld).run .init roomAfterRoom).admissions =
        [⟨0, "red".toList, 1⟩, ⟨1, "red".toList, 2⟩, ⟨2, "blue".toList, 1⟩] ∧
      ⟨0, 1, .chatData [104, 105]⟩ ∈
        ((process sampleConfig sampleWorld).run .init roomAfterRoom).registry.deliveries ∧
      ((process sampleConfig sampleWorld).run .init roomAfterRoom).RoomsIsolated :=
  ⟨by decide +kernel, by decide +kernel,
    (roomsIsolated_of_servesOneRoom sampleConfig sampleWorld roomAfterRoom).2.2 (by decide +kernel)⟩

end PartnerEdge.Sfu
