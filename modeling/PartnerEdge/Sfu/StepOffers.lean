import PartnerEdge.Client.Offers
import PartnerEdge.Sfu.DrainLoop
import PartnerEdge.Sfu.RoomIsolation

/-!
# The offers of a step

The calls that a step of the process makes to the renegotiation of its clients, in their order, and
the offers these make. Nothing else of a step sends a client a frame: what it was sent is what it
was sent before, or a frame of one of these offers.
-/

namespace PartnerEdge.Sfu

open Svc PartnerEdge.Client Text

/-! ## Calls and offers -/

namespace Registry

/-- The calls to the clients' renegotiation when their control channels are drained. -/
def pumpCalls (r : Registry) (now : Nat) (answers : ClientId → List Answer × Bool) :
    List (Client × Call) :=
  r.clients.map fun c => (c, .drainWsCtrl now (answers c.id).1 (answers c.id).2)

/-- The calls of the fan-out of an event. -/
def fanoutCalls (r : Registry) (now : Nat) : Propagated → List (Client × Call)
  | .trackOpen origin t =>
    (r.clients.filter (·.id ≠ origin)).map fun c => (c, .handleTrackOpen now t)
  | _ => []

/-- The calls of the rounds of a drain. -/
def drainCalls (cfg : Config) (world : World) (now : Nat) :
    List Propagated → Registry → List (Client × Call)
  | [], _ => []
  | p :: ps, r =>
    (r.consult cfg world now p).fanoutCalls now p ++
      drainCalls cfg world now ps (r.handlePending cfg world now p)

/-- The calls of both passes over the queue. -/
def fanoutPendingCalls (cfg : Config) (world : World) (now : Nat) (r : Registry) :
    List (Client × Call) :=
  drainCalls cfg world now r.toPropagate (r.withQueue []) ++
    drainCalls cfg world now (r.drainPass cfg world now).toPropagate
      ((r.drainPass cfg world now).withQueue [])

def advertiseCalls (world : World) (now : Nat) : Client → List TrackIn → List (Client × Call)
  | _, [] => []
  | c, t :: ts =>
    (c, .handleTrackOpen now t) :: advertiseCalls world now (c.handleTrackOpen world now t).1 ts

/-- The calls that announce the registered tracks to a newcomer. -/
def insertCalls (world : World) (now : Nat) (r : Registry) (client : Client) :
    List (Client × Call) :=
  let r := r.stealSession client
  advertiseCalls world now (client.noteDeparted r.departed) (r.clients.flatMap (·.tracksIn))

end Registry

/-- The offers of a list of calls, each with the subscriber. -/
def callOffers (world : World) (calls : List (Client × Call)) : List (ClientId × Offer) :=
  calls.flatMap fun (c, k) =>
    (Negotiator.offersOf (world.negotiation c.id) c.negotiator (k.actions c.negotiator)).map
      (c.id, ·)

namespace Process

variable (cfg : Config) (world : World) (s : Process)

def selectCalls (now : Nat) : Arm → List (Client × Call)
  | .relayInjected upstreamUrl =>
    s.registry.insertCalls world now (Client.newOutboundRelay cfg s.nextClientId upstreamUrl)
  | .clientInjected =>
    match s.clientInjectRx with
    | [] => []
    | pending :: rest =>
      (s.announce world rest).registry.insertCalls world now
        (Client.newBrowser cfg s.nextClientId pending.externalPeerId)
  | _ => []

/-- The calls a step makes to the renegotiation of its clients, each with the client as it is
then. -/
def negotiatorCalls : Step → List (Client × Call)
  | .pass p =>
    (soloKick cfg (s.registry.reapDead p.now) p.now).pumpCalls p.now p.answers ++
      (s.polled cfg world p).fanoutPendingCalls cfg world p.now ++
      (s.drive cfg world p).selectCalls cfg world p.now p.arm
  | _ => []

/-- The offers a step makes, each with the subscriber. -/
def offers (i : Step) : List (ClientId × Offer) := callOffers world (s.negotiatorCalls cfg world i)

end Process

/-! ## Every frame is of an offer -/

/-- What a client has been sent, it was sent before or by one of the calls. -/
def Accounts (world : World) (calls : List (Client × Call)) (cs cs' : List Client) : Prop :=
  ∀ c' ∈ cs', ∀ f ∈ c'.negotiator.frames,
    (∃ c ∈ cs, c.id = c'.id ∧ f ∈ c.negotiator.frames) ∨
      ∃ o, (c'.id, o) ∈ callOffers world calls ∧ f ∈ o.frames

section Accounts

variable {world : World} {calls calls' : List (Client × Call)} {cs cs' cs'' : List Client}

theorem Accounts.of_same (h : ∀ c' ∈ cs', ∃ c ∈ cs, c.id = c'.id ∧
    c'.negotiator.frames = c.negotiator.frames) : Accounts world [] cs cs' := by
  intro c' hc' f hf
  obtain ⟨c, hc, hid, hframes⟩ := h c' hc'
  exact .inl ⟨c, hc, hid, hframes ▸ hf⟩

theorem Accounts.map {g : Client → Client}
    (hg : ∀ c, (g c).id = c.id ∧ (g c).negotiator.frames = c.negotiator.frames) :
    Accounts world [] cs (cs.map g) := by
  refine .of_same fun c' hc' => ?_
  obtain ⟨c, hc, rfl⟩ := List.mem_map.1 hc'
  exact ⟨c, hc, (hg c).1.symm, (hg c).2⟩

theorem Accounts.of_subset (h : cs' ⊆ cs) : Accounts world [] cs cs' :=
  .of_same fun c hc => ⟨c, h hc, rfl, rfl⟩

theorem Accounts.trans (h : Accounts world calls cs cs') (h' : Accounts world calls' cs' cs'') :
    Accounts world (calls ++ calls') cs cs'' := by
  have hoffers : callOffers world (calls ++ calls') =
      callOffers world calls ++ callOffers world calls' := List.flatMap_append
  intro c'' hc'' f hf
  rcases h' c'' hc'' f hf with ⟨c', hc', hid, hf⟩ | ⟨o, ho, hf⟩
  · rcases h c' hc' f hf with ⟨c, hc, hid', hf⟩ | ⟨o, ho, hf⟩
    · exact .inl ⟨c, hc, hid'.trans hid, hf⟩
    · exact .inr ⟨o, hoffers ▸ List.mem_append_left _ (hid ▸ ho), hf⟩
  · exact .inr ⟨o, hoffers ▸ List.mem_append_right _ ho, hf⟩

/-- A client after one of the calls. -/
theorem mem_frames_call {c : Client} {k : Call} {f : WsFrame} (hcall : (c, k) ∈ calls)
    (hf : f ∈ (c.negotiator.call (world.negotiation c.id) k).frames) :
    f ∈ c.negotiator.frames ∨ ∃ o, (c.id, o) ∈ callOffers world calls ∧ f ∈ o.frames := by
  rw [Negotiator.frames_call] at hf
  rcases List.mem_append.1 hf with hf | hf
  · exact .inl hf
  · obtain ⟨o, ho, hf⟩ := List.mem_flatMap.1 hf
    exact .inr ⟨o, List.mem_flatMap.2 ⟨_, hcall, List.mem_map.2 ⟨o, ho, rfl⟩⟩, hf⟩

end Accounts

namespace Client

theorem frames_poll (jwt : Jwt) (now : Nat) (auth : RelayAuth) (es : List RtcEvent) (c : Client) :
    (c.poll jwt now auth es).1.negotiator.frames = c.negotiator.frames := by
  induction es generalizing c with
  | nil => rfl
  | cons e es ih =>
    simp only [poll]
    split
    · refine (ih _).trans ?_
      cases e with
      | mediaAdded mid kind direction => cases direction <;> rfl
      | _ => rfl
    · rfl

end Client

namespace Registry

variable {cfg : Config} {world : World} {now : Nat} {r : Registry}

theorem accounts_reapDead : Accounts world [] r.clients (r.reapDead now).clients :=
  Accounts.trans (.of_subset List.filter_sublist.subset) (.map fun _ => ⟨rfl, rfl⟩)

theorem accounts_pumpWsCtrl (answers : ClientId → List Answer × Bool)
    (keyframeRequests : ClientId → List (Option Rid × ClientId × Mid)) :
    Accounts world (r.pumpCalls now answers) r.clients
      (r.pumpWsCtrl world now answers keyframeRequests).clients := by
  intro c' hc' f hf
  obtain ⟨c, hc, rfl⟩ := List.mem_map.1 hc'
  have hcall : (c, .drainWsCtrl now (answers c.id).1 (answers c.id).2) ∈ r.pumpCalls now answers :=
    List.mem_map.2 ⟨c, hc, rfl⟩
  exact (mem_frames_call hcall hf).imp_left fun hf => ⟨c, hc, rfl, hf⟩

theorem accounts_pollAll (outputs : ClientId → List RtcEvent) :
    Accounts world [] r.clients (r.pollAll cfg world now outputs).clients :=
  .map fun c => ⟨(Client.Follows.poll world.jwt now cfg.relayAuth (outputs c.id) c).id,
    c.frames_poll world.jwt now cfg.relayAuth (outputs c.id)⟩

theorem accounts_consult (p : Propagated) :
    Accounts world [] r.clients (r.consult cfg world now p).clients := by
  obtain ⟨f, hclients, hf⟩ := r.exists_map_consult
  rw [hclients]
  exact .map fun c => ⟨(hf c).id, congrArg _ (hf c).negotiator⟩

theorem accounts_fanout (p : Propagated) :
    Accounts world (r.fanoutCalls now p) r.clients (r.fanout world now p).clients := by
  cases p with
  | trackOpen origin t =>
    intro c' hc' f hf
    obtain ⟨c, hc, rfl⟩ := List.mem_map.1 hc'
    unfold fanoutTurn at hf ⊢
    split at hf
    · exact .inl ⟨c, hc, rfl, hf⟩
    · next hturn =>
      have hid : c.id ≠ origin := Propagated.ne_of_call rfl hturn
      have hcall : (c, .handleTrackOpen now t) ∈ r.fanoutCalls now (.trackOpen origin t) :=
        List.mem_map.2 ⟨c, List.mem_filter.2 ⟨hc, by simpa using hid⟩, rfl⟩
      exact (mem_frames_call hcall hf).imp_left fun hf => ⟨c, hc, rfl, hf⟩
  | mediaData origin data =>
    have hmedia (c : Client) : (c.handleMediaDataOut world r.drained origin data).1.negotiator =
        c.negotiator := by
      obtain ⟨_, h | h⟩ := c.handleMediaDataOut_changes world r.drained origin data <;> rw [h]
    refine .map fun c => ?_
    unfold fanoutTurn
    split
    · exact ⟨rfl, rfl⟩
    · exact ⟨(follows_deliver origin c).id, congrArg _ (hmedia c)⟩
  | _ =>
    unfold fanout
    split
    · exact .of_subset (List.Subset.refl _)
    · refine .map fun c => ?_
      unfold fanoutTurn
      split <;> exact ⟨rfl, rfl⟩

theorem accounts_handlePending (p : Propagated) :
    Accounts world ((r.consult cfg world now p).fanoutCalls now p) r.clients
      (r.handlePending cfg world now p).clients := by
  have hconsult : Accounts world [] r.clients (r.consult cfg world now p).clients :=
    accounts_consult p
  unfold handlePending
  split
  · next hconsumed =>
    cases p <;> first | exact hconsult | cases hconsumed
  · exact hconsult.trans (accounts_fanout p)

theorem accounts_drain (ps : List Propagated) (r : Registry) :
    Accounts world (drainCalls cfg world now ps r) r.clients
      (ps.foldl (fun r p => r.handlePending cfg world now p) r).clients := by
  induction ps generalizing r with
  | nil => exact .of_subset (List.Subset.refl _)
  | cons p ps ih => exact (accounts_handlePending p).trans (ih _)

theorem accounts_fanoutPending : Accounts world (r.fanoutPendingCalls cfg world now) r.clients
    (r.fanoutPending cfg world now).clients :=
  (accounts_drain r.toPropagate (r.withQueue [])).trans
    (accounts_drain _ ((r.drainPass cfg world now).withQueue []))

theorem accounts_stealSession (client : Client) :
    Accounts world [] r.clients (r.stealSession client).clients := by
  unfold stealSession
  split
  · exact .of_subset (List.Subset.refl _)
  · split
    · exact .of_subset (List.Subset.refl _)
    · unfold evictForSteal
      split
      · exact .of_subset (List.Subset.refl _)
      · exact Accounts.trans (.of_subset (swapRemove_subset r.clients _)) (.map fun _ => ⟨rfl, rfl⟩)

/-- What a newcomer was sent when the registered tracks have been announced to it. -/
theorem accounts_advertise (ts : List TrackIn) (newcomer : Client × List Delivery) :
    Accounts world (advertiseCalls world now newcomer.1 ts) [newcomer.1]
      [(ts.foldl (advertise world now) newcomer).1] := by
  induction ts generalizing newcomer with
  | nil => exact .of_subset (List.Subset.refl _)
  | cons t ts ih =>
    have hfirst : Accounts world [(newcomer.1, .handleTrackOpen now t)] [newcomer.1]
        [(advertise world now newcomer t).1] := by
      intro c' hc' f hf
      obtain rfl := List.mem_singleton.1 hc'
      exact (mem_frames_call (List.mem_singleton.2 rfl) hf).imp_left fun hf =>
        ⟨newcomer.1, List.mem_singleton.2 rfl, rfl, hf⟩
    exact hfirst.trans (ih _)

theorem accounts_insert {client : Client} (hnone : client.negotiator.frames = []) :
    Accounts world (r.insertCalls world now client) r.clients
      (r.insert world now client).clients := by
  intro c hc f hf
  rcases List.mem_append.1 hc with hc | hc
  · have hsteal : Accounts world [] r.clients (r.stealSession client).clients :=
      accounts_stealSession client
    rcases hsteal c hc f hf with hbefore | ⟨o, ho, -⟩
    · exact .inl hbefore
    · cases ho
  · rcases accounts_advertise _ _ c hc f hf with ⟨c₀, hc₀, -, hf⟩ | hoffer
    · obtain rfl := List.mem_singleton.1 hc₀
      have hbefore : f ∈ client.negotiator.frames := hf
      rw [hnone] at hbefore
      cases hbefore
    · exact .inr hoffer

end Registry

namespace Process

variable {cfg : Config} {world : World} {s : Process}

theorem accounts_soloKick (r : Registry) (now : Nat) :
    Accounts world [] r.clients (soloKick cfg r now).clients := by
  unfold soloKick Registry.checkSoloTimeout
  split
  · split
    · next c _ hclients _ =>
      split
      · exact .of_subset (List.Subset.refl _)
      · rw [hclients]
        exact .map (g := Client.disconnect) fun _ => ⟨rfl, rfl⟩
    · exact .of_subset (List.Subset.refl _)
  · exact .of_subset (List.Subset.refl _)

theorem accounts_select (now : Nat) (arm : Arm) :
    Accounts world (s.selectCalls cfg world now arm) s.registry.clients
      (s.select cfg world now arm).registry.clients := by
  cases arm with
  | input failed =>
    refine .map fun c => ?_
    split <;> exact ⟨rfl, rfl⟩
  | speakerTick dominant top => exact .of_subset (List.Subset.refl _)
  | relayInjected upstreamUrl => exact Registry.accounts_insert rfl
  | clientInjected =>
    simp only [Process.select, injectClient, selectCalls]
    cases s.clientInjectRx with
    | nil => exact .of_subset (List.Subset.refl _)
    | cons pending rest => exact Registry.accounts_insert rfl

/-- The frames of a step are those of its offers. -/
theorem accounts_step (i : Step) : Accounts world (s.negotiatorCalls cfg world i)
    s.registry.clients (s.step cfg world i).registry.clients := by
  cases i with
  | upgrade req =>
    simp only [Process.step, Process.upgrade]
    split <;> exact .of_subset (List.Subset.refl _)
  | sessionReady i =>
    simp only [Process.step, Process.sessionReady]
    split <;> exact .of_subset (List.Subset.refl _)
  | sessionEnded i => exact .of_subset (List.Subset.refl _)
  | pass p =>
    have hkicked : Accounts world [] s.registry.clients
        (soloKick cfg (s.registry.reapDead p.now) p.now).clients :=
      Registry.accounts_reapDead.trans (accounts_soloKick _ p.now)
    have hpumped : Accounts world (Registry.pumpCalls _ p.now p.answers) s.registry.clients
        (Registry.pumpWsCtrl _ world p.now p.answers p.keyframeRequests).clients :=
      hkicked.trans (Registry.accounts_pumpWsCtrl p.answers p.keyframeRequests)
    have hpolled : Accounts world (Registry.pumpCalls _ p.now p.answers ++ []) s.registry.clients
        (s.polled cfg world p).clients := hpumped.trans (Registry.accounts_pollAll p.outputs)
    rw [List.append_nil] at hpolled
    exact (hpolled.trans Registry.accounts_fanoutPending).trans (accounts_select p.now p.arm)

end Process

end PartnerEdge.Sfu
