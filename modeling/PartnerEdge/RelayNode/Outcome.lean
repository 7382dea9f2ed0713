import PartnerEdge.RelayNode.Upgrade

/-!
# What an upgrade leaves behind

An upgrade that is refused or rolled back leaves the files of the node as they were. The recorded
version changes only when the whole release is in place. Whatever happens, no file comes from
anywhere but the node itself or the checksums of the release.
-/

namespace PartnerEdge.RelayNode

open Text

variable {dirs : Dirs} {a : Attempt} {node : Node}

/-! ## The steps -/

theorem removeReleases_files {gone : List Str} {path : Path}
    (h : ∀ ver ∈ gone, path.dir ≠ releaseDir dirs ver) :
    (removeReleases dirs node gone).files path = node.files path := by
  have hnot : (gone.map (releaseDir dirs)).contains path.dir = false := by
    simp only [List.contains_eq_mem, List.mem_map, decide_eq_false_iff_not, not_exists, not_and]
    exact fun ver hver heq => h ver hver heq.symm
  simp only [removeReleases, hnot, Bool.false_eq_true, if_false]

theorem removeReleases_files_eq_some {gone : List Str} {path : Path} {file : File}
    (h : (removeReleases dirs node gone).files path = some file) : node.files path = some file := by
  simp only [removeReleases] at h
  split at h
  · cases h
  · exact h

theorem laidOut_files (rows : List Row) (stage : Stage) {path : Path}
    (hpath : path.dir ≠ releaseDir dirs a.ver) :
    (laidOut dirs a rows stage node).files path = node.files path := by
  have hfresh : (freshRelease dirs node a.ver).files path = node.files path :=
    removeReleases_files (by simpa using hpath)
  rw [laidOut, Node.after, foldl_make_files, overwrite_of_notMem, hfresh]
  rintro place hplace rfl
  simp only [layOut, List.mem_filterMap, List.mem_map] at hplace
  obtain ⟨change, ⟨row, -, rfl⟩, hwrite⟩ := hplace
  cases hwrite
  exact hpath rfl

theorem laidOut_current (rows : List Row) (stage : Stage) :
    (laidOut dirs a rows stage node).current = node.current := by
  refine foldl_make_current ?_ _
  simp only [layOut, List.forall_mem_map]
  exact fun _ _ => rfl

theorem initBaseline_version (h : isSemver (installedVersion node) = true) :
    (initBaseline node).version = node.version := by
  have hne : node.version.getD [] ≠ [] := by
    intro hnil
    rw [installedVersion, hnil] at h
    exact absurd h (by decide)
  simp only [initBaseline, if_neg hne]

/-- The releases are outside of the directories that files are installed to. -/
theorem destFor_dir_ne {kind : Kind} (hkind : kind ≠ .bin) (name ver ver' : Str) :
    (destFor dirs kind name ver).dir ≠ releaseDir dirs ver' := by
  have houtside : ∀ dir ∈ [dirs.sbin, dirs.etc, dirs.unitDir, dirs.opecDst.dir],
      dir ≠ releaseDir dirs ver' := by
    rintro dir hdir rfl
    refine dirs.outside _ hdir ?_
    rw [releaseDir, List.append_assoc]
    exact List.prefix_append _ _
  cases kind with
  | bin => exact absurd rfl hkind
  | lib =>
    intro heq
    have hlength := congrArg List.length heq
    simp [destFor, releaseDir] at hlength
  | sbin | etc | unit | opec => exact houtside _ (by simp [destFor])

/-! ## Deciding -/

theorem onExit_result (r : Result) : (onExit r).node.toLayout = r.node.toLayout ∧
    (onExit r).node.releases = r.node.releases ∧ (onExit r).node.version = r.node.version ∧
    (onExit r).node.failedVersion = r.node.failedVersion ∧ (onExit r).code = r.code ∧
    (onExit r).restarts = r.restarts := by
  unfold onExit
  split <;> exact ⟨rfl, rfl, rfl, rfl, rfl, rfl⟩

/-- A run does nothing to the node but forget the last failure, or the upgrade was decided on and
ends in one of its ways. -/
theorem applyUpgrade_cases (dirs : Dirs) (a : Attempt) (node : Node) :
    let r := applyUpgrade dirs a node
    (r.restarts = 0 ∧ r.node.toLayout = node.toLayout ∧ r.node.version = node.version ∧
      r.node.failedVersion = node.failedVersion ∧ r.code < 11) ∨
    isSemver a.ver = true ∧ isSemver (installedVersion node) = true ∧
      verGt a.ver (installedVersion node) = true ∧ failedBefore node ≠ a.ver ∧
      (initBaseline node).version = node.version ∧
      ∃ r', Ends dirs a (initBaseline node) r' ∧ onExit r' = r := by
  unfold applyUpgrade
  dsimp only
  split_ifs with hver _ _ _ hinst _ hgt hfailed
  case neg =>
    simp only [Bool.not_eq_true, Bool.not_eq_false'] at hver hinst hgt
    exact .inr ⟨hver, hinst, hgt, hfailed, initBaseline_version hinst, _, upgrade_ends .., rfl⟩
  all_goals exact .inl ⟨rfl, rfl, rfl, rfl, by simp⟩

/-! ## Refused and rolled back -/

theorem isPlain_of_plainRelease {rows : List Row} {stage : Stage} {opec opecNew : Option Str}
    (hplain : plainRelease a.world a.ver = true)
    (hprepare : prepare a.world a.ver opec = .ok (rows, stage, opecNew)) :
    ∀ row ∈ rows, row.isPlain = true := by
  obtain ⟨staged, hstaged, -⟩ := of_prepare_ok hprepare
  rw [plainRelease, hstaged] at hplain
  exact List.all_eq_true.1 hplain

theorem ne_dot_of_isPlain {row : Row} (h : row.isPlain = true) : row.name.head? ≠ some '.' := by
  simp only [Row.isPlain, Bool.and_eq_true, decide_eq_true_eq] at h
  exact h.1.1

/-- A run that is refused leaves every file, and one that rolls back brings back the content of
every file outside the new release, the link and the version. -/
theorem applyUpgrade_unsuccessful (hplain : plainRelease a.world a.ver = true)
    (hcurrent : node.current.isSome = true) :
    let r := applyUpgrade dirs a node
    (r.code = 10 → r.node.files = node.files ∧ r.node.current = node.current ∧
      r.node.version = node.version ∧ r.node.failedVersion = node.failedVersion) ∧
    (r.code = 11 →
      (∀ path, path.dir ≠ releaseDir dirs a.ver →
        SameContent (node.files path) (r.node.files path)) ∧
      r.node.current = node.current ∧ r.node.version = node.version ∧
      r.node.failedVersion = some (a.ver ++ ['\n'])) := by
  obtain ⟨target, hcurrent⟩ := Option.isSome_iff_exists.1 hcurrent
  have hbaseline : (initBaseline node).current = node.current := by simp [initBaseline, hcurrent]
  rcases applyUpgrade_cases dirs a node with ⟨-, hlayout, hversion, hfailed, hcode⟩ |
    ⟨-, -, -, -, hversion, r, hends, heq⟩
  · refine ⟨fun _ => ?_, fun h => absurd h hcode.ne⟩
    rw [hlayout]
    exact ⟨rfl, rfl, hversion, hfailed⟩
  · simp only [← heq, onExit_result, ← hversion]
    cases hends with
    | refused => exact ⟨fun _ => ⟨rfl, hbaseline, rfl, rfl⟩, by simp⟩
    | unfinished => simp
    | stopped => simp
    | upgraded => split <;> simp
    | @rolledBack rows stage opecNew made restored code restarts hprepare hmade _ hcode' hall _ =>
      refine ⟨by rcases hcode' with rfl | rfl | rfl <;> simp, fun hcode => ?_⟩
      obtain rfl := hall hcode
      have hback := restore_activate (l := (laidOut dirs a rows stage (initBaseline node)).toLayout)
        hmade fun row hrow _ => ne_dot_of_isPlain (isPlain_of_plainRelease hplain hprepare row hrow)
      refine ⟨fun path hpath => ?_, (hback.2.trans (laidOut_current rows stage)).trans hbaseline,
        rfl, rfl⟩
      have hfiles : (laidOut dirs a rows stage (initBaseline node)).files path = node.files path :=
        laidOut_files rows stage hpath
      rw [← hfiles]
      exact hback.1 path

/-- A release of two files. -/
def twoFiles : World where
  releasesBase := []
  serve request _ :=
    [List.replicate 64 'a' ++ " relay-manifest.txt\n".toList ++ List.replicate 64 'a' ++
      " a\n".toList ++ List.replicate 64 'a' ++ " relay-turnserver-amd64\n".toList,
      "release lib a b\nrelease bin relay-turnserver-amd64 turnserver\n".toList, "new".toList,
      "elf".toList][request]?
  sha256 _ := List.replicate 64 'a'
  archToken := some "amd64".toList
  machine := "x86_64".toList
  runs _ := true
  opecSupports _ := true

def defaultDirs : Dirs where
  sbin := "/usr/local/sbin".toList
  libRoot := "/usr/local/lib/oxpulse-relay".toList
  etc := "/etc/oxpulse-partner-edge".toList
  unitDir := "/etc/systemd/system".toList
  opecDst := ⟨"/usr/bin".toList, "opec".toList⟩
  share := "/usr/local/share/oxpulse-partner-edge".toList
  outside := by decide
  apart := by decide

/-- A node at 1.0.0 that has an older file and `opec`. -/
def olderNode : Node where
  files := Function.update (Function.update (fun _ => none) defaultDirs.opecDst (some ⟨[], 0o755⟩))
    ⟨defaultDirs.libRoot, ['b']⟩ (some ⟨"old".toList, 0o600⟩)
  current := some (currentTarget "1.0.0".toList)
  releases := ["0.0.0".toList, "1.0.0".toList]
  version := some "1.0.0\n".toList
  failedVersion := none
  lastRc := none

/-- An upgrade to a version, with these outcomes. -/
def upgradeTo (ver : String) (tape : Outcomes) : Attempt where
  ver := ver.toList
  isRoot := true
  isRelayNode := true
  locked := false
  world := twoFiles
  envComplete := true
  gateTries := 1
  tape := tape

/-- An upgrade that fails the gate and is rolled back. -/
def failingUpgrade (ver : String) : Attempt :=
  upgradeTo ver [true, true, true, true, true, false]

theorem applyUpgrade_unsuccessful_interrupted :
    let r := applyUpgrade defaultDirs (upgradeTo "1.1.0" [true, true, true, false]) olderNode
    r.node.files ⟨defaultDirs.libRoot, ['b']⟩ = some ⟨"old".toList, 0o644⟩ ∧
      r.node.current = olderNode.current :=
  ⟨by decide +kernel, ((applyUpgrade_unsuccessful (by decide +kernel) (by decide)).2
    (by decide +kernel)).2.1⟩

/-! ## Where the files come from -/

/-- The node had this content there, or the checksums of the release list it. -/
def Genuine (a : Attempt) (node : Node) (path : Path) (file : Option File) : Prop :=
  ∀ f ∈ file, (∃ old, node.files path = some old ∧ old.content = f.content) ∨
    ∃ asset, Listed a.world a.ver asset f.content

theorem Genuine.of_sameContent {path : Path} {old new : Option File} (h : Genuine a node path old)
    (hsame : SameContent old new) : Genuine a node path new := by
  rcases hsame with rfl | ⟨kind, file, rfl, rfl⟩
  · exact h
  · rintro f ⟨⟩
    exact h file rfl

theorem genuine_removeReleases {start : Node} {gone : List Str}
    (h : ∀ path, Genuine a node path (start.files path)) (path : Path) :
    Genuine a node path ((removeReleases dirs start gone).files path) :=
  fun _ hf => h path _ (removeReleases_files_eq_some hf)

/-- Changes that install listed content. -/
theorem genuine_after {start : Node} {cs : List Change}
    (hcs : ∀ place ∈ cs.filterMap Change.write?, Genuine a node place.1 place.2)
    (h : ∀ path, Genuine a node path (start.files path)) (path : Path) :
    Genuine a node path ((start.after cs).files path) := by
  rw [Node.after, foldl_make_files]
  exact overwrite_of_all (R := Genuine a node) h hcs path

theorem genuine_of_staged {stage : Stage} {asset : Str} (h : Staged a.world a.ver stage asset)
    (path : Path) (mode : Nat) : Genuine a node path (some ⟨(stage asset).getD [], mode⟩) := by
  obtain ⟨content, hstage, hlisted⟩ := h
  rintro f ⟨⟩
  exact .inr ⟨asset, by rwa [hstage]⟩

section Prepared

variable {rows : List Row} {stage : Stage} {opecNew : Option Str} {opec : Option Str}
  (hprepare : prepare a.world a.ver opec = .ok (rows, stage, opecNew))
include hprepare

theorem genuine_layOut {place : Path × Option File}
    (h : place ∈ (layOut dirs a.ver rows stage).filterMap Change.write?) :
    Genuine a node place.1 place.2 := by
  simp only [layOut, List.mem_filterMap, List.mem_map, List.mem_filter] at h
  obtain ⟨change, ⟨row, ⟨hrow, -⟩, rfl⟩, hwrite⟩ := h
  cases hwrite
  exact genuine_of_staged ((prepare_staged hprepare).1 row hrow).2 _ _

theorem genuine_activate {place : Path × Option File}
    (h : place ∈ (activate dirs a.ver rows stage opecNew).filterMap Change.write?) :
    Genuine a node place.1 place.2 := by
  rcases mem_activate_iff.1 h with ⟨row, hrow, -, -, rfl⟩ | ⟨asset, hasset, rfl⟩
  · exact genuine_of_staged ((prepare_staged hprepare).1 row hrow).2 _ _
  · exact genuine_of_staged ((prepare_staged hprepare).2 asset hasset) _ _

theorem genuine_laidOut {start : Node} (h : ∀ path, Genuine a node path (start.files path))
    {laid : List Change} (hlaid : laid <+: layOut dirs a.ver rows stage) (path : Path) :
    Genuine a node path (((freshRelease dirs start a.ver).after laid).files path) :=
  genuine_after (fun _ hplace => genuine_layOut hprepare
    ((hlaid.filterMap Change.write?).subset hplace)) (genuine_removeReleases h) path

theorem genuine_activated {start : Node} (h : ∀ path, Genuine a node path (start.files path))
    {made : List Change} (hmade : made <+: activate dirs a.ver rows stage opecNew) (path : Path) :
    Genuine a node path (((laidOut dirs a rows stage start).after made).files path) :=
  genuine_after (fun _ hplace => genuine_activate hprepare
    ((hmade.filterMap Change.write?).subset hplace))
      (genuine_laidOut hprepare h List.prefix_rfl) path

end Prepared

/-- Whatever the server answers and whatever fails, every file after a run has the content that the
node had there, or a content whose checksum the release lists. The rows are plain so that the files
of the upgrader itself are not among those that it installs. -/
theorem applyUpgrade_genuine (dirs : Dirs) (a : Attempt) (node : Node) :
    plainRelease a.world a.ver = true → ∀ path,
      Genuine a node path ((applyUpgrade dirs a node).node.files path) := by
  intro _ path
  have hown : ∀ path, Genuine a node path ((initBaseline node).files path) :=
    fun path f hf => .inl ⟨f, hf, rfl⟩
  rcases applyUpgrade_cases dirs a node with ⟨-, hlayout, -⟩ | ⟨-, -, -, -, -, r, hends, heq⟩
  · rw [hlayout]
    exact hown path
  · rw [← heq, (onExit_result r).1]
    cases hends with
    | refused => exact hown path
    | unfinished hprepare hlaid => exact genuine_laidOut hprepare hown hlaid path
    | stopped hprepare hmade => exact genuine_activated hprepare hown hmade path
    | @upgraded rows stage opecNew hprepare =>
      have hactivated : ∀ path, Genuine a node path
          ((activated dirs a rows stage opecNew (initBaseline node)).files path) :=
        genuine_activated hprepare hown List.prefix_rfl
      unfold pruneReleases
      dsimp only
      split
      · exact hactivated path
      · exact genuine_removeReleases hactivated path
    | rolledBack hprepare hmade hrestored =>
      refine genuine_after (fun place hplace => ?_) (genuine_activated hprepare hown hmade) path
      exact (genuine_laidOut hprepare hown List.prefix_rfl place.1).of_sameContent
        (sameContent_of_restore ((hrestored.filterMap Change.write?).subset hplace))

/-- The library of an interrupted upgrade to 1.1.0 is an old one. -/
theorem applyUpgrade_genuine_interrupted :
    plainRelease twoFiles "1.1.0".toList = true ∧
    Genuine (upgradeTo "1.1.0" [true, true, true, false]) olderNode ⟨defaultDirs.libRoot, ['b']⟩
      (some ⟨"old".toList, 0o644⟩) := by
  have hplain : plainRelease twoFiles "1.1.0".toList = true := by decide +kernel
  have hfile : (applyUpgrade defaultDirs (upgradeTo "1.1.0" [true, true, true, false])
      olderNode).node.files ⟨defaultDirs.libRoot, ['b']⟩ = some ⟨"old".toList, 0o644⟩ := by
    decide +kernel
  exact ⟨hplain, hfile ▸ applyUpgrade_genuine _ _ olderNode hplain _⟩

/-! ## A version that is recorded is in place -/

theorem firstField_line {v : Str} (hne : v ≠ []) (hgap : ∀ c ∈ v, isGap c = false ∧ c ≠ '\n') :
    firstField (v ++ ['\n']) = v := by
  have hline : lines v = [v] := lines_of_newline_notMem fun hmem => (hgap _ hmem).2 rfl
  have hfields : fieldsBy isGap v = [v] := fieldsBy_eq_singleton hne fun c hc => (hgap c hc).1
  rw [firstField, lines_concat_newline, hline]
  simpa using congrArg (List.headD · []) hfields

theorem firstField_semver {v : Str} (h : isSemver v = true) : firstField (v ++ ['\n']) = v := by
  obtain ⟨hne, hchars⟩ := isSemver_chars h
  refine firstField_line hne fun c hc => ?_
  rcases hchars c hc with hdigit | rfl
  · refine ⟨?_, by rintro rfl; exact absurd hdigit (by decide)⟩
    by_contra hgap
    simp only [isGap, Bool.not_eq_false, Bool.or_eq_true, beq_iff_eq] at hgap
    rcases hgap with rfl | rfl <;> exact absurd hdigit (by decide)
  · decide

/-- The places that an activation writes to. -/
def destinations (dirs : Dirs) (ver : Str) (rows : List Row) (opecNew : Option Str) : List Path :=
  (replaced rows opecNew).map fun (kind, name) => destFor dirs kind name ver

/-- The release has plain rows and installs no two files to one place. -/
def distinctDests (dirs : Dirs) (a : Attempt) (node : Node) : Bool :=
  plainRelease a.world a.ver && match prepare a.world a.ver (installedOpec dirs node) with
  | .ok (rows, _, opecNew) => decide (destinations dirs a.ver rows opecNew).Nodup
  | .error _ => true

theorem nodup_of_distinctDests {rows : List Row} {stage : Stage} {opecNew : Option Str}
    (hdistinct : distinctDests dirs a node = true)
    (hprepare : prepare a.world a.ver (installedOpec dirs node) = .ok (rows, stage, opecNew)) :
    (destinations dirs a.ver rows opecNew).Nodup := by
  rw [distinctDests, hprepare, Bool.and_eq_true] at hdistinct
  exact of_decide_eq_true hdistinct.2

theorem pruneReleases_files {path : Path} (hpath : ∀ ver, path.dir ≠ releaseDir dirs ver) :
    (pruneReleases dirs node).2.files path = node.files path := by
  unfold pruneReleases
  dsimp only
  split
  · rfl
  · exact removeReleases_files fun ver _ => hpath ver

theorem pruneReleases_version (dirs : Dirs) (node : Node) :
    (pruneReleases dirs node).2.version = node.version ∧
      (pruneReleases dirs node).2.current = node.current := by
  unfold pruneReleases
  dsimp only
  split <;> exact ⟨rfl, rfl⟩

section Activated

variable {rows : List Row} {stage : Stage} {opecNew : Option Str}

/-- With distinct places, each holds what is written there. -/
theorem activated_files (hnodup : (destinations dirs a.ver rows opecNew).Nodup)
    {place : Path × Option File}
    (h : place ∈ (activate dirs a.ver rows stage opecNew).filterMap Change.write?) :
    (activated dirs a rows stage opecNew node).files place.1 = place.2 := by
  have hmem {row : Row} (hrow : row ∈ rows) (hbin : row.kind ≠ .bin) :
      row ∈ rows.filter (·.kind ≠ .bin) := by simpa using ⟨hrow, hbin⟩
  simp only [destinations, replaced, List.map_append, List.map_map] at hnodup
  obtain ⟨hrows, -, hapart⟩ := List.nodup_append.1 hnodup
  have hne {row : Row} {asset : Str} (hrow : row ∈ rows) (hbin : row.kind ≠ .bin)
      (hasset : asset ∈ opecNew) : destFor dirs row.kind row.name a.ver ≠ dirs.opecDst :=
    hapart _ (List.mem_map.2 ⟨row, hmem hrow hbin, rfl⟩) _
      (List.mem_map.2 ⟨asset, by simpa using hasset, rfl⟩)
  rw [activated, Node.after, foldl_make_files]
  refine overwrite_of_forall ⟨place, h, rfl⟩ fun other hother hpath => ?_
  rcases mem_activate_iff.1 h with ⟨row, hrow, hbin, -, rfl⟩ | ⟨asset, hasset, rfl⟩ <;>
    rcases mem_activate_iff.1 hother with ⟨row', hrow', hbin', -, rfl⟩ | ⟨asset', hasset', rfl⟩
  · rw [List.inj_on_of_nodup_map hrows (hmem hrow' hbin') (hmem hrow hbin) hpath]
  · exact absurd hpath.symm (hne hrow hbin hasset')
  · exact absurd hpath (hne hrow' hbin' hasset)
  · rw [Option.mem_unique hasset' hasset]

theorem activated_current :
    (activated dirs a rows stage opecNew node).current = some (currentTarget a.ver) := by
  simp only [activated, Node.after, activate, List.foldl_append]
  rfl

end Activated

/-- The version in `VERSION` changes only to a newer one, of which then every file is installed from
a listed content and `current` points to the release. -/
theorem applyUpgrade_records (hdistinct : distinctDests dirs a node = true)
    (h : (applyUpgrade dirs a node).node.version ≠ node.version) :
    ∃ rows stage opecNew,
      prepare a.world a.ver (installedOpec dirs node) = .ok (rows, stage, opecNew) ∧
      verGt a.ver (installedVersion node) = true ∧
      installedVersion (applyUpgrade dirs a node).node = a.ver ∧
      (applyUpgrade dirs a node).node.current = some (currentTarget a.ver) ∧
      (∀ row ∈ rows, row.kind ≠ .bin → ∃ content,
        (applyUpgrade dirs a node).node.files (destFor dirs row.kind row.name a.ver) =
          some ⟨content, modeFor row.kind⟩ ∧ Listed a.world a.ver row.asset content) ∧
      ∀ asset ∈ opecNew, ∃ content,
        (applyUpgrade dirs a node).node.files dirs.opecDst = some ⟨content, 0o755⟩ ∧
          Listed a.world a.ver asset content := by
  rcases applyUpgrade_cases dirs a node with ⟨-, -, hversion, -⟩ |
    ⟨hsemver, -, hgt, -, hversion, r, hends, heq⟩
  · exact absurd hversion h
  simp only [← heq, onExit_result, installedVersion, ← hversion] at h hgt ⊢
  cases hends with
  | refused | unfinished | stopped | rolledBack => exact absurd rfl h
  | @upgraded rows stage opecNew hprepare =>
    have hnodup := nodup_of_distinctDests hdistinct hprepare
    obtain ⟨hrows, hopecs⟩ := prepare_staged hprepare
    obtain ⟨hpruned, hcurrent⟩ :=
      pruneReleases_version dirs (activated dirs a rows stage opecNew (initBaseline node))
    have hopecDst : ∀ ver, dirs.opecDst.dir ≠ releaseDir dirs ver :=
      destFor_dir_ne (show Kind.opec ≠ .bin by decide) [] []
    refine ⟨rows, stage, opecNew, hprepare, hgt, ?_, hcurrent.trans activated_current, ?_, ?_⟩
    · rw [hpruned]
      exact firstField_semver hsemver
    · intro row hrow hbin
      obtain ⟨hopec, content, hstage, hlisted⟩ := hrows row hrow
      refine ⟨content, ?_, hlisted⟩
      rw [pruneReleases_files fun ver => destFor_dir_ne hbin _ _ ver,
        activated_files hnodup (mem_activate_iff.2 (.inl ⟨row, hrow, hbin, hopec, rfl⟩)), hstage]
      rfl
    · intro asset hasset
      obtain ⟨content, hstage, hlisted⟩ := hopecs asset hasset
      refine ⟨content, ?_, hlisted⟩
      rw [pruneReleases_files hopecDst,
        activated_files hnodup (mem_activate_iff.2 (.inr ⟨asset, hasset, rfl⟩)), hstage]
      rfl

theorem applyUpgrade_records_twoFiles : ∃ rows stage opecNew,
    prepare twoFiles "1.1.0".toList (installedOpec defaultDirs olderNode) =
      .ok (rows, stage, opecNew) ∧
    installedVersion (applyUpgrade defaultDirs (upgradeTo "1.1.0" []) olderNode).node =
      "1.1.0".toList := by
  have hdistinct : distinctDests defaultDirs (upgradeTo "1.1.0" []) olderNode = true := by
    decide +kernel
  obtain ⟨rows, stage, opecNew, hprepare, -, hversion, -⟩ :=
    applyUpgrade_records hdistinct (by decide +kernel)
  exact ⟨rows, stage, opecNew, hprepare, hversion⟩

end PartnerEdge.RelayNode
