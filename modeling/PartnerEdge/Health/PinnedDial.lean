import PartnerEdge.Health.GuardSound
import PartnerEdge.Health.Rotation

/-!
# What the cross-probe dials

The guard resolves a peer once and prints the address that it judged, and both probes of the peer
connect to that address. So no complete cycle connects to an internal address, whatever the roster
says and whatever the resolver answers from one tick to the next.
-/

namespace PartnerEdge.Health

open Text Net

/-- `${4:-$turns_host}`: the host, where no address was handed over. -/
def dialIp (vetted host : Str) : Str := if vetted = [] then host else vetted

/-- An IPv6 address stands in brackets. -/
def connectTarget (ip : Str) : Str := if ip.contains ':' then '[' :: ip ++ [']'] else ip

/-- `-connect` of `_probe_peer_coturn` -/
def Dial.tlsTarget (d : Dial) : Str :=
  connectTarget (dialIp d.vettedIp d.turnsHost) ++ ':' :: d.turnsPort

/-- The arguments of `turnutils_stunclient` in `_probe_peer_udp_stun`. -/
def Dial.stunTarget (d : Dial) : Str × Str := (dialIp d.vettedIp d.turnsHost, d.udpPort)

/-! ## The peers that are dialled -/

variable {cfg : Config} {world : World} {start : Nat}

/-- The guard let the peer pass and printed the address that is dialled. -/
def Passed (cfg : Config) (world : World) (d : Dial) : Prop :=
  ∃ idx, d.toEntry = cfg.entry idx ∧
    hostIsInternal d.turnsHost (world.answers idx) = some d.vettedIp

theorem passed_visit {i : Nat} {w : Walk} (hw : ∀ d ∈ w.dials, Passed cfg world d) :
    ∀ d ∈ (cfg.visit world start i w).dials, Passed cfg world d := by
  unfold Config.visit
  dsimp only
  split
  · exact hw
  · split
    · exact hw
    · next vettedIp hguard =>
      refine List.forall_mem_append.2 ⟨hw, ?_⟩
      simpa using ⟨(start + i) % cfg.n, rfl, hguard⟩

theorem passed_walkLoop (k : Nat) {i : Nat} {w : Walk} (hw : ∀ d ∈ w.dials, Passed cfg world d) :
    ∀ d ∈ (cfg.walkLoop world start k i w).dials, Passed cfg world d := by
  induction k generalizing i w with
  | zero => exact hw
  | succ k ih =>
    rw [Config.walkLoop]
    split
    · exact ih (passed_visit hw)
    · exact hw

/-- Each cycle of a run dials what the guard lets pass in the tick of that cycle. -/
theorem passed_of_mem_outputs {marker : Option Marker} {ticks : List Tick}
    {x : Tick × Option Walk} (hx : x ∈ (peerProbe cfg).outputs marker ticks) :
    ∀ w ∈ x.2, ∀ d ∈ w.dials, Passed cfg x.1.world d := by
  induction ticks generalizing marker with
  | nil => cases hx
  | cons tick ticks ih =>
    rcases List.mem_cons.1 hx with rfl | hx
    · intro w hw
      change (runPeerProbeLoop cfg marker tick).2 = some w at hw
      cases hskipped : tick.skipped cfg with
      | some mode =>
        rw [runPeerProbeLoop_skipped hskipped] at hw
        cases hw
      | none =>
        rw [runPeerProbeLoop_complete hskipped] at hw
        cases hw
        exact passed_walkLoop cfg.n (by simp)
    · exact ih hx

/-! ## The address that is dialled -/

/-- What the guard prints is an address, and not an internal one. -/
theorem exists_public_of_allowed {host printed : Str} {answers : List Str}
    (hanswers : ∀ t ∈ answers, (parseAddr t).isSome = true)
    (h : hostIsInternal host answers = some printed) :
    ∃ a, parseAddr (stripBrackets printed) = some a ∧ ¬ a.Internal := by
  obtain ⟨-, hpass, hliteral⟩ | ⟨hprinted, hpass⟩ := hostIsInternal_cases h
  · exact exists_public_of_literal hpass hliteral
  · obtain ⟨hstrip, hpublic⟩ :=
      exists_public_of_answer (hanswers printed hprinted) (hpass printed hprinted)
    rwa [hstrip]

theorem dialIp_eq {vetted : Str} {a : Addr} (h : parseAddr (stripBrackets vetted) = some a)
    (host : Str) : dialIp vetted host = vetted := by
  refine if_neg ?_
  rintro rfl
  cases h

/-- In every run of the timer, both probes of a peer that a cycle dials connect to the address that
the guard has judged in the tick of that cycle, and it is not internal. The host is never resolved a
second time. -/
theorem completeCycles_dials_public (cfg : Config) (marker : Option Marker) (ticks : List Tick)
    (hanswers : ∀ tick ∈ ticks, ∀ idx, ∀ t ∈ tick.world.answers idx, (parseAddr t).isSome = true) :
    ∀ x ∈ (peerProbe cfg).outputs marker ticks, ∀ w ∈ x.2, ∀ d ∈ w.dials, ∃ idx a,
      d.toEntry = cfg.entry idx ∧
      hostIsInternal d.turnsHost (x.1.world.answers idx) = some d.vettedIp ∧
      d.tlsTarget = connectTarget d.vettedIp ++ ':' :: d.turnsPort ∧
      d.stunTarget = (d.vettedIp, d.udpPort) ∧
      parseAddr (stripBrackets d.vettedIp) = some a ∧ ¬ a.Internal := by
  intro x hx w hw d hd
  obtain ⟨idx, hentry, hguard⟩ := passed_of_mem_outputs hx w hw d hd
  have hanswers' := hanswers x.1 (Machine.mem_of_mem_outputs hx) idx
  obtain ⟨a, ha, hpublic⟩ := exists_public_of_allowed hanswers' hguard
  refine ⟨idx, a, hentry, hguard, ?_, ?_, ha, hpublic⟩
  · rw [Dial.tlsTarget, dialIp_eq ha]
  · rw [Dial.stunTarget, dialIp_eq ha]

/-- A peer that is named by its address, and one that resolves to a private address. -/
def publicAndPrivate : Config where
  roster := [⟨some ['a'], some "8.8.8.8".toList, none, none⟩,
    ⟨some ['b'], some "b.example".toList, none, none⟩]

def privateTick : Tick :=
  { completeTick with world := { healthyWorld with answers := fun _ => ["10.0.0.4".toList] } }

theorem completeCycles_dials_public_publicAndPrivate :
    (completeCycles publicAndPrivate none [privateTick]).map Walk.dials =
      [[⟨publicAndPrivate.entry 0, "8.8.8.8".toList⟩]] ∧
    ∀ x ∈ (peerProbe publicAndPrivate).outputs none [privateTick], ∀ w ∈ x.2, ∀ d ∈ w.dials,
      ∃ a, d.stunTarget = (d.vettedIp, d.udpPort) ∧
        parseAddr (stripBrackets d.vettedIp) = some a ∧ ¬ a.Internal := by
  refine ⟨by decide +kernel, fun x hx w hw d hd => ?_⟩
  have hanswers : ∀ tick ∈ [privateTick], ∀ idx, ∀ t ∈ tick.world.answers idx,
      (parseAddr t).isSome = true := by
    intro tick htick idx t ht
    rw [List.mem_singleton.1 htick] at ht
    rw [List.mem_singleton.1 ht]
    decide +kernel
  obtain ⟨-, a, -, -, -, hstun, haddr, hpublic⟩ :=
    completeCycles_dials_public publicAndPrivate none [privateTick] hanswers x hx w hw d hd
  exact ⟨a, hstun, haddr, hpublic⟩

end PartnerEdge.Health
