import PartnerEdge.RelayNode.Outcome

/-!
# Which releases are kept

After an upgrade only the two newest staged releases stay. A release that failed stays staged, so
the release that was just installed need not be among the two newest.
-/

namespace PartnerEdge.RelayNode

open Text

variable {dirs : Dirs} {a : Attempt} {node : Node}

theorem isStagedRelease_head {name : Str} (h : isStagedRelease name = true) :
    name.head? ≠ some '.' := by
  obtain ⟨major, minor, patch, rfl, hmajor, -⟩ :=
    exists_of_isSemver (Bool.and_eq_true_iff.1 h).1
  cases major with
  | nil => cases hmajor
  | cons c major =>
    rintro ⟨⟩
    simp [isNumber] at hmajor

theorem mem_removeReleases {gone : List Str} {ver : Str} :
    ver ∈ (removeReleases dirs node gone).releases ↔ ver ∈ node.releases ∧ ver ∉ gone := by
  simp [removeReleases]

theorem removeReleases_files_of_mem {gone : List Str} {ver : Str} (h : ver ∈ gone) (name : Str) :
    (removeReleases dirs node gone).files ⟨releaseDir dirs ver, name⟩ = none := by
  have hdir : (gone.map (releaseDir dirs)).contains (releaseDir dirs ver) = true :=
    List.contains_iff_mem.2 (List.mem_map_of_mem h)
  simp only [removeReleases, hdir, if_true]

/-- The names among which the newest two are kept. -/
def stagedReleases (node : Node) : List Str :=
  ((node.releases.filter (·.head? ≠ some '.')).insertionSort (· ≤ ·)).filter isStagedRelease

theorem stagedReleases_perm (node : Node) :
    (stagedReleases node).Perm (node.releases.filter isStagedRelease) := by
  refine ((List.perm_insertionSort _ _).filter _).trans ?_
  rw [List.filter_filter]
  refine List.Perm.of_eq (List.filter_congr fun name _ => ?_)
  cases hname : isStagedRelease name with
  | false => rfl
  | true => simpa using isStagedRelease_head hname

/-- A release stays if fewer than two staged ones are newer. -/
theorem mem_pruneReleases_iff (hnodup : node.releases.Nodup)
    (hok : (pruneReleases dirs node).1 = true) {ver : Str} (hver : ver ∈ node.releases)
    (hstaged : isStagedRelease ver = true) :
    ver ∈ (pruneReleases dirs node).2.releases ↔
      node.releases.countP (fun name => isStagedRelease name && verGt name ver) < 2 := by
  have hperm := stagedReleases_perm node
  have hmem : ver ∈ stagedReleases node := hperm.mem_iff.2 (List.mem_filter.2 ⟨hver, hstaged⟩)
  have hkeep := mem_newest_iff (r := VersionLe) (hperm.nodup_iff.2 (hnodup.filter _)) 2 ver
  have hcount : (stagedReleases node).countP (fun name => VersionLe ver name ∧ ver ≠ name) =
      node.releases.countP (fun name => isStagedRelease name && verGt name ver) := by
    rw [hperm.countP_eq, List.countP_filter]
    refine List.countP_congr fun name _ => ?_
    simp only [Bool.and_eq_true, decide_eq_true_eq, verGt_iff, ne_comm, and_comm]
  unfold pruneReleases at hok ⊢
  dsimp only at hok ⊢
  split at hok
  · cases hok
  next hlast =>
  rw [if_neg hlast, ← stagedReleases, mem_removeReleases, List.mem_filter]
  simp only [hver, hmem, true_and, Bool.not_eq_true', Bool.not_eq_false, List.contains_iff_mem]
  rw [hkeep, hcount, and_iff_right hmem]

theorem pruneReleases_removed {ver : Str} (hver : ver ∈ node.releases)
    (hgone : ver ∉ (pruneReleases dirs node).2.releases) (name : Str) :
    (pruneReleases dirs node).2.files ⟨releaseDir dirs ver, name⟩ = none := by
  unfold pruneReleases at hgone ⊢
  dsimp only at hgone ⊢
  split at hgone
  · exact absurd hver hgone
  next hlast =>
  rw [mem_removeReleases, not_and, not_not] at hgone
  rw [if_neg hlast]
  exact removeReleases_files_of_mem (hgone hver) name

section Activated

variable {rows : List Row} {stage : Stage} {opecNew : Option Str}

theorem laidOut_releases : (laidOut dirs a rows stage node).releases =
    (removeReleases dirs node [a.ver]).releases ++ [a.ver] := rfl

theorem activated_releases : (activated dirs a rows stage opecNew node).releases =
    (removeReleases dirs node [a.ver]).releases ++ [a.ver] := rfl

theorem nodup_activated (h : node.releases.Nodup) :
    (activated dirs a rows stage opecNew (initBaseline node)).releases.Nodup := by
  rw [activated_releases]
  refine List.nodup_append.2 ⟨h.insert.filter _, List.nodup_singleton _, ?_⟩
  rintro name hname ver hver rfl
  exact (mem_removeReleases.1 hname).2 hver

theorem countP_activated :
    (activated dirs a rows stage opecNew (initBaseline node)).releases.countP
      (fun name => isStagedRelease name && verGt name a.ver) =
    node.releases.countP fun name => isStagedRelease name && verGt name a.ver := by
  have hself : [a.ver].countP (fun name => isStagedRelease name && verGt name a.ver) = 0 := by
    simp [verGt_irrefl]
  have hinsert : (node.releases.insert baselineVer).countP
      (fun name => isStagedRelease name && verGt name a.ver) =
        node.releases.countP fun name => isStagedRelease name && verGt name a.ver := by
    unfold List.insert
    split
    · rfl
    · exact List.countP_cons_of_neg (by simp [show isStagedRelease baselineVer = false by decide])
  rw [activated_releases, List.countP_append, hself, Nat.add_zero, ← hinsert]
  refine (List.countP_filter ..).trans (List.countP_congr fun name _ => ?_)
  by_cases hname : name = a.ver
  · simp [hname, verGt_irrefl]
  · simp [hname]

end Activated

/-- A release that failed stays, and so do those that were there. -/
theorem mem_releases_of_failed
    (hcode : (applyUpgrade dirs a node).code = 11 ∨ (applyUpgrade dirs a node).code = 12)
    (ver : Str) : ver ∈ (applyUpgrade dirs a node).node.releases ↔
      ver = a.ver ∨ ver = baselineVer ∨ ver ∈ node.releases := by
  rcases applyUpgrade_cases dirs a node with ⟨-, -, -, -, hsmall⟩ | ⟨-, -, -, -, -, r, hends, heq⟩
  · omega
  simp only [← heq, onExit_result] at hcode ⊢
  cases hends with
  | refused | unfinished | stopped => simp at hcode
  | upgraded =>
    split at hcode <;> simp at hcode
  | @rolledBack rows stage opecNew made restored =>
    have hreleases : (((laidOut dirs a rows stage (initBaseline node)).after made).after
        restored).releases = (laidOut dirs a rows stage (initBaseline node)).releases := rfl
    rw [hreleases, laidOut_releases, List.mem_append, mem_removeReleases, List.mem_singleton,
      initBaseline, List.mem_insert_iff]
    tauto

/-- When an upgrade succeeds, its release stays if fewer than two staged ones are newer. Otherwise
its binaries are removed, though the link points to them. When an upgrade fails, its release stays
staged next to all others. -/
theorem applyUpgrade_keeps_iff (hnodup : node.releases.Nodup) (hver : a.ver ≠ baselineVer) :
    let r := applyUpgrade dirs a node
    (r.code = 0 → r.node.version ≠ node.version →
      r.node.current = some (currentTarget a.ver) ∧
      (a.ver ∈ r.node.releases ↔
        node.releases.countP (fun name => isStagedRelease name && verGt name a.ver) < 2) ∧
      (a.ver ∉ r.node.releases → ∀ name, r.node.files ⟨releaseDir dirs a.ver, name⟩ = none)) ∧
    (r.code = 11 ∨ r.code = 12 → ∀ ver, ver ∈ r.node.releases ↔
      ver = a.ver ∨ ver = baselineVer ∨ ver ∈ node.releases) := by
  refine ⟨fun hcode hversion => ?_, mem_releases_of_failed⟩
  rcases applyUpgrade_cases dirs a node with ⟨-, -, hsame, -⟩ |
    ⟨hsemver, -, -, -, hbaseline, r, hends, heq⟩
  · exact absurd hsame hversion
  simp only [← heq, onExit_result, ← hbaseline] at hversion hcode ⊢
  cases hends with
  | refused | unfinished | stopped | rolledBack => exact absurd rfl hversion
  | @upgraded rows stage opecNew hprepare =>
    have hmem : a.ver ∈ (activated dirs a rows stage opecNew (initBaseline node)).releases := by
      rw [activated_releases]
      simp
    have hok : (pruneReleases dirs
        (activated dirs a rows stage opecNew (initBaseline node))).1 = true := by
      by_contra hfail
      simp [hfail] at hcode
    refine ⟨(pruneReleases_version dirs _).2.trans activated_current, ?_,
      pruneReleases_removed hmem⟩
    rw [mem_pruneReleases_iff (nodup_activated hnodup) hok hmem
      (by simp [isStagedRelease, hsemver, hver]), countP_activated]

/-- The node after upgrades to 1.2.0 and to 1.10.0 that both failed. -/
def failedTwice : Node :=
  (applyUpgrade defaultDirs (failingUpgrade "1.10.0")
    (applyUpgrade defaultDirs (failingUpgrade "1.2.0") olderNode).node).node

theorem applyUpgrade_keeps_iff_failedTwice :
    failedTwice.releases = ["0.0.0", "1.0.0", "1.2.0", "1.10.0"].map String.toList ∧
    (applyUpgrade defaultDirs (upgradeTo "1.1.0" []) failedTwice).node.current =
      some "releases/1.1.0".toList ∧
    "1.1.0".toList ∉
      (applyUpgrade defaultDirs (upgradeTo "1.1.0" []) failedTwice).node.releases := by
  have hreleases : failedTwice.releases =
      ["0.0.0", "1.0.0", "1.2.0", "1.10.0"].map String.toList := by decide +kernel
  have hcode : (applyUpgrade defaultDirs (upgradeTo "1.1.0" []) failedTwice).code = 0 := by
    decide +kernel
  obtain ⟨hcurrent, hkept, -⟩ := (applyUpgrade_keeps_iff (by rw [hreleases]; decide)
    (by decide)).1 hcode (by decide +kernel)
  refine ⟨hreleases, hcurrent, fun hmem => absurd (hkept.1 hmem) ?_⟩
  rw [hreleases]
  decide

end PartnerEdge.RelayNode
