import PartnerEdge.Collections.Cyclic
import PartnerEdge.Health.PeerProbe

/-!
# The rotation over the roster

A complete cycle starts at the offset of the marker and leaves the offset at which it stopped. A
skipped tick leaves the offset zero, so that the rotation goes on only if it is due at slot zero
anyway. Otherwise the roster is walked from its beginning again, and its tail may never be reached.
-/

namespace PartnerEdge.Health

open Text

/-! ## Reading the offset back -/

/-- The offset a marker keeps; without a marker a cycle starts at zero. -/
def storedOffset (marker : Option Marker) : Nat := marker.elim 0 Marker.offset

theorem newline_notMem_toDigits (n : Nat) : '\n' ∉ Nat.toDigits 10 n :=
  fun h => absurd (isDigit_of_mem_toDigits h) (by decide)

theorem newline_notMem_mode (mode : ProbeMode) : '\n' ∉ mode.text := by
  cases mode <;> decide

theorem newline_notMem_lines (m : Marker) : ∀ l ∈ m.countLines ++ [m.offsetLine], '\n' ∉ l := by
  have hcount {key : Str} (hkey : '\n' ∉ key) (n : Nat) :
      '\n' ∉ assignment key (Nat.toDigits 10 n) :=
    newline_notMem_assignment hkey (newline_notMem_toDigits n)
  simp only [Marker.countLines, List.cons_append, List.nil_append, List.forall_mem_cons]
  exact ⟨by decide, newline_notMem_assignment (by decide) (newline_notMem_mode _),
    hcount (by decide) _, hcount (by decide) _, hcount (by decide) _, hcount (by decide) _,
    hcount (by decide) _, by simp⟩

/-- No line before that of the offset has its key. -/
theorem filterMap_countLines (m : Marker) : m.countLines.filterMap (valueOf? offsetKey) = [] := by
  simp only [List.filterMap_eq_nil_iff, Marker.countLines, List.forall_mem_cons]
  have hother {key value : Str} (hkey : '=' ∉ key) (hne : offsetKey ≠ key) :
      valueOf? offsetKey (assignment key value) = none :=
    valueOf?_assignment_ne (by decide) hkey hne
  exact ⟨by decide, hother (by decide) (by decide), hother (by decide) (by decide),
    hother (by decide) (by decide), hother (by decide) (by decide),
    hother (by decide) (by decide), by simp⟩

theorem readPeerProbeOffset_text (m : Marker) :
    readPeerProbeOffset (some m.text) = Nat.toDigits 10 m.offset := by
  have hval : (valuesOf offsetKey m.text).head? = some (Nat.toDigits 10 m.offset) := by
    rw [Marker.text, valuesOf, lines_terminate_append (newline_notMem_lines m),
      List.filterMap_append, List.filterMap_append, filterMap_countLines, Marker.offsetLine]
    simp
  simp [readPeerProbeOffset, hval, parseDigits_toDigits]

theorem startSlot_eq (cfg : Config) (marker : Option Marker) :
    startSlot cfg marker = some (storedOffset marker % cfg.n) := by
  cases marker with
  | none => rfl
  | some m =>
    rw [startSlot, Option.map_some, readPeerProbeOffset_text, arithConstant_toDigits]
    rfl

/-! ## One cycle -/

section Cycle

variable {cfg : Config} (world : World) (start : Nat)

theorem scanned_visit (i : Nat) (w : Walk) :
    (cfg.visit world start i w).scanned = w.scanned + 1 := by
  unfold Config.visit
  dsimp only
  split
  · rfl
  · split <;> rfl

theorem slots_visit (i : Nat) (w : Walk) :
    (cfg.visit world start i w).slots = w.slots ++ [(start + i) % cfg.n] := by
  unfold Config.visit
  dsimp only
  split
  · rfl
  · split <;> rfl

theorem probed_visit_le (i : Nat) (w : Walk) :
    (cfg.visit world start i w).probed ≤ w.probed + 1 := by
  unfold Config.visit
  dsimp only
  split
  · simp
  · split <;> simp

theorem dials_visit {w : Walk} (h : w.dials.length = w.probed) (i : Nat) :
    (cfg.visit world start i w).dials.length = (cfg.visit world start i w).probed := by
  unfold Config.visit
  dsimp only
  split
  · exact h
  · split <;> simp [h]

/-- What holds at each iteration of the loop. -/
structure Walk.Tracks (cfg : Config) (start : Nat) (w : Walk) : Prop where
  slots_eq : w.slots = Cyclic.segment cfg.n start w.scanned
  length_dials : w.dials.length = w.probed
  probed_le : w.probed ≤ cfg.cap
  scanned_le : w.scanned ≤ cfg.cap + cfg.headroom

theorem Walk.Tracks.visit {w : Walk} (h : w.Tracks cfg start) (hprobed : w.probed < cfg.cap)
    (hscanned : w.scanned < cfg.cap + cfg.headroom) :
    (cfg.visit world start w.scanned w).Tracks cfg start where
  slots_eq := by
    rw [slots_visit, scanned_visit, Cyclic.segment_add, h.slots_eq]
    simp [Cyclic.segment]
  length_dials := dials_visit world start h.length_dials _
  probed_le := (probed_visit_le world start _ w).trans hprobed
  scanned_le := by
    rw [scanned_visit]
    exact hscanned

variable (hfits : cfg.cap + cfg.headroom < 2 ^ 63)
include hfits

theorem capValue_eq : cfg.capValue = cfg.cap :=
  Int64.toInt_ofNat_of_lt (by omega)

theorem scanCap_eq : cfg.scanCap = (cfg.cap + cfg.headroom : Nat) := by
  rw [Config.scanCap, ← Int64.ofNat_add]
  exact Int64.toInt_ofNat_of_lt hfits

theorem tracks_walkLoop (k : Nat) {w : Walk} (h : w.Tracks cfg start) :
    (cfg.walkLoop world start k w.scanned w).Tracks cfg start ∧
      w.scanned ≤ (cfg.walkLoop world start k w.scanned w).scanned ∧
      (cfg.walkLoop world start k w.scanned w).scanned ≤ w.scanned + k := by
  induction k generalizing w with
  | zero => exact ⟨h, le_rfl, le_rfl⟩
  | succ k ih =>
    rw [Config.walkLoop]
    split
    next hgoes =>
      rw [capValue_eq hfits, scanCap_eq hfits, Nat.cast_lt, Nat.cast_lt] at hgoes
      have hvisit := h.visit world start hgoes.1 hgoes.2
      have hnext : (cfg.visit world start w.scanned w).scanned = w.scanned + 1 :=
        scanned_visit world start w.scanned w
      obtain ⟨htracks, hge, hle⟩ := ih hvisit
      rw [hnext] at htracks hge hle
      exact ⟨htracks, by omega, by omega⟩
    next => exact ⟨h, le_rfl, by omega⟩

/-- A cycle that the limits allow to walk at all. -/
theorem runCycle_spec (hroster : cfg.roster ≠ []) (hcap : 1 ≤ cfg.cap) :
    (cfg.runCycle world start).Tracks cfg start ∧
      1 ≤ (cfg.runCycle world start).scanned ∧ (cfg.runCycle world start).scanned ≤ cfg.n ∧
      ∃ m, (cfg.runCycle world start).writes.getLast? = some m ∧
        m.offset = (start + (cfg.runCycle world start).scanned) % cfg.n := by
  let w₀ : Walk := { writes := [{ mode := .started, offset := start, time := world.time 0 }] }
  have hn : cfg.n ≠ 0 := fun hn => hroster (List.length_eq_zero_iff.1 hn)
  have hstart : w₀.Tracks cfg start := ⟨rfl, rfl, Nat.zero_le _, Nat.zero_le _⟩
  obtain ⟨htracks, -, hle⟩ := tracks_walkLoop world start hfits cfg.n hstart
  have hpos : 1 ≤ (cfg.walkLoop world start cfg.n 0 w₀).scanned := by
    obtain ⟨k, hk⟩ := Nat.exists_eq_succ_of_ne_zero hn
    have hscan : w₀.scanned < cfg.cap + cfg.headroom :=
      Nat.lt_of_lt_of_le hcap (Nat.le_add_right _ _)
    have hgoes : (w₀.probed : Int) < cfg.capValue ∧ (w₀.scanned : Int) < cfg.scanCap := by
      rw [capValue_eq hfits, scanCap_eq hfits, Nat.cast_lt, Nat.cast_lt]
      exact ⟨hcap, hscan⟩
    have hvisit := hstart.visit world start hcap hscan
    have hnext : (cfg.visit world start 0 w₀).scanned = 1 := scanned_visit world start 0 w₀
    obtain ⟨-, hge, -⟩ := tracks_walkLoop world start hfits k hvisit
    rw [hk, Config.walkLoop, if_pos hgoes]
    change (cfg.visit world start 0 w₀).scanned ≤ _ at hge
    rw [hnext] at hge
    exact hge
  rw [zero_add] at hle
  refine ⟨⟨htracks.slots_eq, htracks.length_dials, htracks.probed_le, htracks.scanned_le⟩, hpos,
    hle, _, List.getLast?_concat, rfl⟩

end Cycle

/-! ## Whole runs -/

/-- The complete cycles rotate over the roster. -/
structure Rotates (cfg : Config) (cycles : List Walk) : Prop where
  isSegment : ∀ w ∈ cycles, w.slots ≠ [] ∧ w.slots.length ≤ cfg.n ∧
    ∃ start, w.slots = Cyclic.segment cfg.n start w.slots.length
  bounded : ∀ w ∈ cycles, w.dials.length ≤ cfg.cap ∧ w.slots.length ≤ cfg.cap + cfg.headroom
  continues : cycles.IsChain fun w w' => Cyclic.Continues cfg.n w.slots w'.slots
  covers : ∀ window, window <:+: cycles → cfg.n ≤ window.length →
    ∀ slot < cfg.n, ∃ w ∈ window, slot ∈ w.slots

theorem rotates_of_joined {cfg : Config} {cycles : List Walk} {start : Nat}
    (hjoined : Cyclic.Joined cfg.n start (cycles.map Walk.slots))
    (hbounds : ∀ w ∈ cycles, w.slots ≠ [] ∧ w.slots.length ≤ cfg.n ∧ w.dials.length ≤ cfg.cap ∧
      w.slots.length ≤ cfg.cap + cfg.headroom) : Rotates cfg cycles where
  isSegment w hw :=
    ⟨(hbounds w hw).1, (hbounds w hw).2.1, hjoined.eq_segment (List.mem_map_of_mem hw)⟩
  bounded w hw := (hbounds w hw).2.2
  continues := List.isChain_map Walk.slots |>.1 hjoined.isChain
  covers := by
    rintro window ⟨before, after, rfl⟩ hlen slot hslot
    rw [List.map_append, List.map_append] at hjoined
    obtain ⟨-, stop, hwindow⟩ := Cyclic.joined_append (Cyclic.joined_append hjoined).1
    have hne : ∀ slots ∈ window.map Walk.slots, slots ≠ [] := by
      intro slots hslots
      obtain ⟨w, hw, rfl⟩ := List.mem_map.1 hslots
      exact (hbounds w (by simp [hw])).1
    obtain ⟨slots, hslots, hmem⟩ := hwindow.covers hne (by simpa using hlen) hslot
    obtain ⟨w, hw, rfl⟩ := List.mem_map.1 hslots
    exact ⟨w, hw, hmem⟩

/-- The tick is not skipped, or the rotation is due at slot zero. -/
def KeepsRotation (cfg : Config) (marker : Option Marker) (tick : Tick) : Prop :=
  (tick.skipped cfg).isSome → storedOffset marker % cfg.n = 0

instance (cfg : Config) (marker : Option Marker) (tick : Tick) :
    Decidable (KeepsRotation cfg marker tick) :=
  inferInstanceAs (Decidable (_ → _))

section Runs

variable {cfg : Config} {marker : Option Marker} {tick : Tick}

theorem runPeerProbeLoop_skipped {mode : ProbeMode} (h : tick.skipped cfg = some mode) :
    runPeerProbeLoop cfg marker tick = (some { mode, time := tick.world.time 0 }, none) := by
  simp only [runPeerProbeLoop, h]

theorem runPeerProbeLoop_complete (h : tick.skipped cfg = none) :
    runPeerProbeLoop cfg marker tick =
      ((cfg.runCycle tick.world (storedOffset marker % cfg.n)).writes.getLast?,
        some (cfg.runCycle tick.world (storedOffset marker % cfg.n))) := by
  simp only [runPeerProbeLoop, h, startSlot_eq]

theorem completeCycles_cons (cfg : Config) (marker : Option Marker) (tick : Tick)
    (ticks : List Tick) :
    completeCycles cfg marker (tick :: ticks) =
      (runPeerProbeLoop cfg marker tick).2.toList ++
        completeCycles cfg (runPeerProbeLoop cfg marker tick).1 ticks := by
  rw [completeCycles, Machine.outputs, List.filterMap_cons]
  cases h : (runPeerProbeLoop cfg marker tick).2 <;> simp [peerProbe, h, completeCycles]

/-- By induction on the ticks: the cycles to come are joined, from the stored offset on. -/
theorem joined_completeCycles (hroster : cfg.roster ≠ []) (hcap : 1 ≤ cfg.cap)
    (hfits : cfg.cap + cfg.headroom < 2 ^ 63) {ticks : List Tick}
    (hkeeps : (peerProbe cfg).Allowed (KeepsRotation cfg) marker ticks) :
    Cyclic.Joined cfg.n (storedOffset marker) ((completeCycles cfg marker ticks).map Walk.slots) ∧
      ∀ w ∈ completeCycles cfg marker ticks, w.slots ≠ [] ∧ w.slots.length ≤ cfg.n ∧
        w.dials.length ≤ cfg.cap ∧ w.slots.length ≤ cfg.cap + cfg.headroom := by
  induction ticks generalizing marker with
  | nil => exact ⟨trivial, fun w hw => absurd hw List.not_mem_nil⟩
  | cons tick ticks ih =>
    obtain ⟨hkeep, hrest⟩ := hkeeps
    change (peerProbe cfg).Allowed _ (runPeerProbeLoop cfg marker tick).1 ticks at hrest
    rw [completeCycles_cons]
    cases hskipped : tick.skipped cfg with
    | some mode =>
      have hzero : storedOffset marker % cfg.n = 0 := hkeep (by rw [hskipped]; rfl)
      rw [runPeerProbeLoop_skipped hskipped] at hrest ⊢
      obtain ⟨hjoined, hbounds⟩ := ih hrest
      rw [← Cyclic.joined_mod, hzero]
      exact ⟨hjoined, hbounds⟩
    | none =>
      rw [runPeerProbeLoop_complete hskipped] at hrest ⊢
      obtain ⟨htracks, hpos, hle, m, hlast, hoffset⟩ := runCycle_spec tick.world
        (storedOffset marker % cfg.n) hfits hroster hcap
      generalize cfg.runCycle tick.world (storedOffset marker % cfg.n) = w at *
      have hlength : w.slots.length = w.scanned := by rw [htracks.slots_eq, Cyclic.length_segment]
      rw [hlast] at hrest ⊢
      obtain ⟨hjoined, hbounds⟩ := ih hrest
      rw [storedOffset, Option.elim_some, hoffset, Nat.mod_add_mod, Cyclic.joined_mod] at hjoined
      refine ⟨⟨?_, hlength ▸ hjoined⟩, List.forall_mem_cons.2 ⟨?_, hbounds⟩⟩
      · rw [hlength, htracks.slots_eq, Cyclic.segment_mod]
      · rw [hlength, htracks.length_dials, ← List.length_pos_iff, hlength]
        exact ⟨hpos, hle, htracks.probed_le, htracks.scanned_le⟩

end Runs

/-- If the limits fit the shell's integers and no tick is skipped while the rotation is elsewhere
than at slot zero, the complete cycles of any run rotate over the roster. -/
theorem completeCycles_rotate (cfg : Config) (hroster : cfg.roster ≠ []) (hcap : 1 ≤ cfg.cap)
    (hfits : cfg.cap + cfg.headroom < 2 ^ 63) (marker : Option Marker) (ticks : List Tick)
    (hkeeps : (peerProbe cfg).Allowed (KeepsRotation cfg) marker ticks) :
    Rotates cfg (completeCycles cfg marker ticks) := by
  obtain ⟨hjoined, hbounds⟩ := joined_completeCycles hroster hcap hfits hkeeps
  exact rotates_of_joined hjoined hbounds

/-! ## A roster of three -/

def threePeers : Config where
  roster := [⟨some ['a'], some ['a'], none, none⟩, ⟨some ['b'], some ['b'], none, none⟩,
    ⟨some ['c'], some ['c'], none, none⟩]
  cap := 1

/-- Every peer is dialled and answers. -/
def healthyWorld : World where
  answers _ := ["8.8.8.8".toList]
  tls _ := .succeeded
  tlsPost4xx _ := false
  udpPost4xx _ := false
  time k := k

def completeTick : Tick := ⟨['t'], true, ['s'], healthyWorld⟩

def disabledTick : Tick := ⟨[], true, ['s'], healthyWorld⟩

theorem completeCycles_rotate_threePeers :
    (peerProbe threePeers).Allowed (KeepsRotation threePeers) none
      [completeTick, completeTick, completeTick, disabledTick, completeTick] ∧
    Rotates threePeers (completeCycles threePeers none
      [completeTick, completeTick, completeTick, disabledTick, completeTick]) :=
  ⟨by decide +kernel, completeCycles_rotate threePeers (by decide) (by decide) (by decide) none _
    (by decide +kernel)⟩

/-- A tick without a token sends the rotation back to slot zero. -/
theorem disabledTick_restarts_rotation :
    (completeCycles threePeers none [completeTick, disabledTick, completeTick]).map Walk.slots =
      [[0], [0]] ∧
    ¬ Rotates threePeers
      (completeCycles threePeers none [completeTick, disabledTick, completeTick]) := by
  have hslots : (completeCycles threePeers none [completeTick, disabledTick, completeTick]).map
      Walk.slots = [[0], [0]] := by decide +kernel
  refine ⟨hslots, fun h => ?_⟩
  have hchain := List.isChain_map Walk.slots |>.2 h.continues
  rw [hslots] at hchain
  obtain ⟨start, hfirst, hsecond⟩ := (List.isChain_cons_cons.1 hchain).1
  simp [Cyclic.segment, Config.n, threePeers] at hfirst hsecond
  omega

end PartnerEdge.Health
