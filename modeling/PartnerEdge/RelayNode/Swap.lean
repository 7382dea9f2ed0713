import PartnerEdge.RelayNode.Staging
import PartnerEdge.Machine.Attempt

/-!
# Swapping a release in, and back

Before the files of a release replace those of the node, every file that will be replaced is copied
to a snapshot, and those that are not there yet are noted. The swap may stop at any of its steps. To
roll back, the copies are installed again, the noted files are removed, and the link to the current
release is put back.
-/

namespace PartnerEdge.RelayNode

open Text

/-! ## The files of the node -/

/-- A directory and the name of a file in it. -/
structure Path where
  dir : Str
  base : Str
deriving DecidableEq, Repr

structure File where
  content : Str
  mode : Nat
deriving DecidableEq, Repr

/-- Where files are installed, as resolved paths. -/
structure Dirs where
  sbin : Str
  libRoot : Str
  etc : Str
  unitDir : Str
  opecDst : Path
  /-- The directory of `VERSION`. -/
  share : Str
  /-- Only libraries and the binaries of releases are installed under `libRoot`. -/
  outside : ∀ dir ∈ [sbin, etc, unitDir, opecDst.dir], ¬ libRoot <+: dir
  apart : share ∉ [sbin, libRoot, etc, unitDir, opecDst.dir]

def releaseDir (dirs : Dirs) (ver : Str) : Str := dirs.libRoot ++ "/releases/".toList ++ ver

def destFor (dirs : Dirs) (kind : Kind) (name ver : Str) : Path :=
  match kind with
  | .sbin => ⟨dirs.sbin, name⟩
  | .lib => ⟨dirs.libRoot, name⟩
  | .etc => ⟨dirs.etc, name⟩
  | .unit => ⟨dirs.unitDir, name⟩
  | .opec => dirs.opecDst
  | .bin => ⟨releaseDir dirs ver, name⟩

def modeFor : Kind → Nat
  | .sbin | .bin | .opec => 0o755
  | _ => 0o644

/-- The files, and where the link `current` points to. The files are the regular ones that rows can
name; no row names a directory or a link. `VERSION`, the two notes and the lock of the upgrader,
what it stages and saves, its temporary files and the links of the baseline release are not among
them. -/
structure Layout where
  files : Path → Option File
  current : Option Str

/-- The commands that change the layout. -/
inductive Change
  | install (path : Path) (file : File)
  | remove (path : Path)
  | setCurrent (target : Option Str)
  | daemonReload

def Layout.make (l : Layout) : Change → Layout
  | .install path file => { l with files := Function.update l.files path (some file) }
  | .remove path => { l with files := Function.update l.files path none }
  | .setCurrent target => { l with current := target }
  | .daemonReload => l

/-- The file that a change writes, and what it writes there. -/
def Change.write? : Change → Option (Path × Option File)
  | .install path file => some (path, some file)
  | .remove path => some (path, none)
  | .setCurrent _ | .daemonReload => none

theorem foldl_make_files (cs : List Change) (l : Layout) :
    (cs.foldl Layout.make l).files = overwrite l.files (cs.filterMap Change.write?) := by
  induction cs generalizing l with
  | nil => rfl
  | cons c cs ih =>
    rw [List.foldl_cons, ih]
    cases c <;> rfl

/-- Changes to files leave the link alone. -/
theorem foldl_make_current {cs : List Change} (h : ∀ c ∈ cs, c.write?.isSome = true) (l : Layout) :
    (cs.foldl Layout.make l).current = l.current := by
  induction cs generalizing l with
  | nil => rfl
  | cons c cs ih =>
    obtain ⟨hc, hcs⟩ := List.forall_mem_cons.1 h
    rw [List.foldl_cons, ih hcs]
    cases c <;> first | rfl | cases hc

/-! ## Snapshot, activation and restoration -/

section Swap

variable (dirs : Dirs) (ver : Str) (rows : List Row) (stage : Stage) (opecNew : Option Str)

structure Snapshot where
  saved : List (Kind × Str × File)
  absent : List (Kind × Str)
  current : Option Str

/-- The files that an activation replaces, by kind and name. -/
def replaced : List (Kind × Str) :=
  (rows.filter (·.kind ≠ .bin)).map (fun row => (row.kind, row.name)) ++
    opecNew.toList.map fun _ => (.opec, "opec".toList)

def snapshotLive (l : Layout) : Snapshot where
  saved := (replaced rows opecNew).filterMap fun (kind, name) =>
    (l.files (destFor dirs kind name ver)).map (kind, name, ·)
  absent := (replaced rows opecNew).filter fun (kind, name) =>
    (l.files (destFor dirs kind name ver)).isNone
  current := l.current

/-- Libraries come first and the upgrader last. Every staged file was verified, so it is there. -/
def activate : List Change :=
  ([Kind.lib, .etc, .unit, .sbin].flatMap fun kind =>
    (rows.filter (·.kind = kind)).map fun row =>
      .install (destFor dirs kind row.name ver) ⟨(stage row.asset).getD [], modeFor kind⟩) ++
    opecNew.toList.map (fun asset => .install dirs.opecDst ⟨(stage asset).getD [], 0o755⟩) ++
    [.setCurrent (some ("releases/".toList ++ ver)), .daemonReload]

/-- `"${SNAP_DIR}/${kind}"/*`: the copies of one kind by name, without those that begin with a
dot. -/
def Snapshot.listing (snap : Snapshot) (kind : Kind) : List (Kind × Str × File) :=
  ((snap.saved.filter fun (k, name, _) => k = kind ∧ name.head? ≠ some '.').dedup).insertionSort
    fun a b => a.2.1 ≤ b.2.1

def restoreSnapshot (snap : Snapshot) : List Change :=
  ([Kind.lib, .etc, .unit, .sbin, .opec].flatMap fun kind =>
    (snap.listing kind).map fun (_, name, file) =>
      .install (destFor dirs kind name ['x']) ⟨file.content, modeFor kind⟩) ++
    snap.absent.map (fun (kind, name) => .remove (destFor dirs kind name ['x'])) ++
    [.setCurrent snap.current, .daemonReload]

end Swap

/-! ## Rolling back -/

variable {dirs : Dirs} {ver : Str} {rows : List Row} {stage : Stage} {opecNew : Option Str}
  {l : Layout}

/-- The same content; the mode may have become the one that some kind is installed with. -/
def SameContent (old new : Option File) : Prop :=
  new = old ∨ ∃ kind file, old = some file ∧ new = some ⟨file.content, modeFor kind⟩

theorem mem_listing {snap : Snapshot} {kind k : Kind} {name : Str} {file : File} :
    (k, name, file) ∈ snap.listing kind ↔
      (k, name, file) ∈ snap.saved ∧ k = kind ∧ name.head? ≠ some '.' := by
  simp [Snapshot.listing]

theorem destFor_of_ne_bin {kind : Kind} (h : kind ≠ .bin) (name ver ver' : Str) :
    destFor dirs kind name ver = destFor dirs kind name ver' := by
  cases kind <;> first | rfl | exact absurd rfl h

theorem ne_bin_of_mem_replaced {kind : Kind} {name : Str}
    (h : (kind, name) ∈ replaced rows opecNew) : kind ≠ .bin := by
  simp only [replaced, List.mem_append, List.mem_map, List.mem_filter, decide_eq_true_eq,
    Prod.mk.injEq] at h
  rcases h with ⟨row, ⟨-, hkind⟩, rfl, -⟩ | ⟨_, -, rfl, -⟩
  · exact hkind
  · decide

theorem mem_kinds {kind : Kind} (h : kind ≠ .bin) :
    kind ∈ [Kind.lib, .etc, .unit, .sbin, .opec] := by
  cases kind <;> first | decide | exact absurd rfl h

/-- What the activation writes: the files of the rows, and the new `opec`. -/
theorem mem_activate_iff {place : Path × Option File} :
    place ∈ (activate dirs ver rows stage opecNew).filterMap Change.write? ↔
      (∃ row ∈ rows, row.kind ≠ .bin ∧ row.kind ≠ .opec ∧
        place = (destFor dirs row.kind row.name ver,
        some ⟨(stage row.asset).getD [], modeFor row.kind⟩)) ∨
      ∃ asset ∈ opecNew, place = (dirs.opecDst, some ⟨(stage asset).getD [], 0o755⟩) := by
  have hkinds : ∀ kind, kind ∈ [Kind.lib, .etc, .unit, .sbin] ↔ kind ≠ .bin ∧ kind ≠ .opec := by
    intro kind
    cases kind <;> decide
  have hlast : [Change.setCurrent (some ("releases/".toList ++ ver)), .daemonReload].filterMap
      Change.write? = [] := rfl
  simp only [activate, List.filterMap_append, hlast, List.append_nil, List.mem_append,
    List.mem_filterMap, List.mem_flatMap, List.mem_map, List.mem_filter, decide_eq_true_eq,
    Option.mem_toList, hkinds]
  refine or_congr ⟨?_, ?_⟩ ⟨?_, ?_⟩
  · rintro ⟨change, ⟨kind, ⟨hbin, hopec⟩, row, ⟨hrow, rfl⟩, rfl⟩, hwrite⟩
    exact ⟨row, hrow, hbin, hopec, (Option.some.inj hwrite).symm⟩
  · rintro ⟨row, hrow, hbin, hopec, rfl⟩
    exact ⟨_, ⟨row.kind, ⟨hbin, hopec⟩, row, ⟨hrow, rfl⟩, rfl⟩, rfl⟩
  · rintro ⟨change, ⟨asset, hasset, rfl⟩, hwrite⟩
    exact ⟨asset, hasset, (Option.some.inj hwrite).symm⟩
  · rintro ⟨asset, hasset, rfl⟩
    exact ⟨_, ⟨asset, hasset, rfl⟩, rfl⟩

/-- The activation writes only where a replaced file is. -/
theorem mem_replaced_of_activate {place : Path × Option File}
    (h : place ∈ (activate dirs ver rows stage opecNew).filterMap Change.write?) :
    ∃ kind name, (kind, name) ∈ replaced rows opecNew ∧ place.1 = destFor dirs kind name ver := by
  rcases mem_activate_iff.1 h with ⟨row, hrow, hbin, -, rfl⟩ | ⟨asset, hasset, rfl⟩
  · refine ⟨row.kind, row.name, ?_, rfl⟩
    exact List.mem_append_left _ (List.mem_map.2 ⟨row, by simpa using ⟨hrow, hbin⟩, rfl⟩)
  · refine ⟨.opec, "opec".toList, ?_, rfl⟩
    exact List.mem_append_right _ (List.mem_map.2 ⟨asset, by simpa using hasset, rfl⟩)

/-- What the restoration writes is what was there when the snapshot was taken. -/
theorem sameContent_of_restore {place : Path × Option File}
    (h : place ∈ (restoreSnapshot dirs (snapshotLive dirs ver rows opecNew l)).filterMap
      Change.write?) : SameContent (l.files place.1) place.2 := by
  simp only [restoreSnapshot, List.mem_filterMap, List.mem_append, List.mem_flatMap, List.mem_map,
    Prod.exists] at h
  obtain ⟨change, (⟨kind, -, k, name, file, hlisted, rfl⟩ | ⟨kind, name, habsent, rfl⟩) | hlast,
    hwrite⟩ := h
  · obtain ⟨hsaved, rfl, -⟩ := mem_listing.1 hlisted
    simp only [snapshotLive, List.mem_filterMap, Option.map_eq_some_iff, Prod.exists,
      Prod.mk.injEq] at hsaved
    obtain ⟨_, _, hmem, file, hfile, rfl, rfl, rfl⟩ := hsaved
    cases hwrite
    rw [destFor_of_ne_bin (ne_bin_of_mem_replaced hmem) _ _ ver, hfile]
    exact .inr ⟨_, file, rfl, rfl⟩
  · simp only [snapshotLive, List.mem_filter, Option.isNone_iff_eq_none] at habsent
    cases hwrite
    rw [destFor_of_ne_bin (ne_bin_of_mem_replaced habsent.1) _ _ ver, habsent.2]
    exact .inl rfl
  · simp only [List.mem_cons, List.not_mem_nil, or_false] at hlast
    rcases hlast with rfl | rfl <;> cases hwrite

/-- The restoration writes wherever a file was replaced, as long as no name hides from the
listing. -/
theorem exists_restore_of_replaced {kind : Kind} {name : Str}
    (hmem : (kind, name) ∈ replaced rows opecNew) (hdot : name.head? ≠ some '.') :
    ∃ place ∈ (restoreSnapshot dirs (snapshotLive dirs ver rows opecNew l)).filterMap Change.write?,
      place.1 = destFor dirs kind name ver := by
  have hbin := ne_bin_of_mem_replaced hmem
  rw [destFor_of_ne_bin hbin _ _ ['x']]
  cases hfile : l.files (destFor dirs kind name ver) with
  | some file =>
    refine ⟨(_, some ⟨file.content, modeFor kind⟩), List.mem_filterMap.2
      ⟨.install (destFor dirs kind name ['x']) ⟨file.content, modeFor kind⟩, ?_, rfl⟩, rfl⟩
    refine List.mem_append_left _ (List.mem_append_left _ (List.mem_flatMap.2
      ⟨kind, mem_kinds hbin, List.mem_map.2
        ⟨(kind, name, file), mem_listing.2 ⟨?_, rfl, hdot⟩, rfl⟩⟩))
    exact List.mem_filterMap.2 ⟨(kind, name), hmem, by simp [hfile]⟩
  | none =>
    refine ⟨(_, none), List.mem_filterMap.2 ⟨.remove (destFor dirs kind name ['x']), ?_, rfl⟩, rfl⟩
    refine List.mem_append_left _ (List.mem_append_right _ (List.mem_map.2 ⟨(kind, name), ?_, rfl⟩))
    exact List.mem_filter.2 ⟨hmem, by simp [hfile]⟩

/-- However far the activation came, a restoration brings back every file and the link. -/
theorem restore_activate {made : List Change}
    (hmade : made <+: activate dirs ver rows stage opecNew)
    (hdot : ∀ row ∈ rows, row.kind ≠ .bin → row.name.head? ≠ some '.') :
    let l' := (restoreSnapshot dirs (snapshotLive dirs ver rows opecNew l)).foldl Layout.make
      (made.foldl Layout.make l)
    (∀ path, SameContent (l.files path) (l'.files path)) ∧ l'.current = l.current := by
  refine ⟨fun path => ?_, ?_⟩
  · rw [foldl_make_files, foldl_make_files]
    refine overwrite_undo (R := fun path => SameContent (l.files path)) (fun path => .inl rfl)
      (fun place => sameContent_of_restore) (fun place hplace => ?_) path
    obtain ⟨kind, name, hmem, heq⟩ := mem_replaced_of_activate
      ((hmade.filterMap Change.write?).subset hplace)
    rw [heq]
    refine exists_restore_of_replaced hmem ?_
    simp only [replaced, List.mem_append, List.mem_map, List.mem_filter, decide_eq_true_eq,
      Prod.mk.injEq] at hmem
    rcases hmem with ⟨row, ⟨hrow, hbin⟩, -, rfl⟩ | ⟨_, -, -, rfl⟩
    · exact hdot row hrow hbin
    · decide
  · rw [restoreSnapshot, List.foldl_append]
    rfl

end PartnerEdge.RelayNode
