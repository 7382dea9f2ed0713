import PartnerEdge.Text.Fields
import PartnerEdge.Text.Template
import PartnerEdge.Text.Version
import PartnerEdge.Parsing.Fallible

/-!
# Staging a release of the relay node

The upgrader of a relay-only node downloads a release into a staging directory. The checksums come
first, then the manifest, then every file that the manifest lists; a file that the checksums do not
list is refused like one whose checksum differs. What the server answers may change from one request
to the next.
-/

namespace PartnerEdge.RelayNode

open Text

/-- Where a file of a release belongs. -/
inductive Kind
  | sbin
  | lib
  | etc
  | unit
  | bin
  | opec
deriving DecidableEq, Repr

/-- The kinds that a manifest may name. -/
def parseKind (s : Str) : Option Kind :=
  if s = "sbin".toList then some .sbin
  else if s = "lib".toList then some .lib
  else if s = "etc".toList then some .etc
  else if s = "unit".toList then some .unit
  else if s = "bin".toList then some .bin
  else none

structure Row where
  group : Str
  kind : Kind
  asset : Str
  name : Str
deriving DecidableEq, Repr

/-- The files of the staging directory. -/
abbrev Stage := Str → Option Str

/-- The release server, and what the host says about itself and the files. -/
structure World where
  releasesBase : Str
  /-- What the request with this number, for this address, is answered with. -/
  serve : Nat → Str → Option Str
  sha256 : Str → Str
  /-- `amd64` or `arm64`; nothing on another machine. -/
  archToken : Option Str
  machine : Str
  /-- Whether a binary with this content runs with `--version`. -/
  runs : Str → Bool
  /-- Whether an `opec` with this content runs and has the relay subcommands. -/
  opecSupports : Str → Bool

/-! ## Checksums -/

def sumsName : Str := "SHA256SUMS".toList

/-- `awk -v n="$1" '$2 == n || $2 == "*" n || $2 == "./" n { print $1; exit }'` -/
def sumsLookup (sums asset : Str) : Str :=
  ((lines sums).findSome? fun line =>
    match fieldsBy isGap line with
    | sum :: name :: _ =>
      if name = asset ∨ name = '*' :: asset ∨ name = '.' :: '/' :: asset then some sum else none
    | _ => none).getD []

/-- `^[0-9a-f]{64}$` -/
def isSum (s : Str) : Bool := s.length == 64 && s.all fun c => c.isDigit || ('a' ≤ c && c ≤ 'f')

def verifyAsset (sha256 : Str → Str) (sums file asset : Str) : Except Str Unit :=
  let want := sumsLookup sums asset
  let have_ := sha256 file
  if !isSum want then
    .error (asset ++
      ": not listed in the release SHA256SUMS; refusing an unverified file".toList)
  else if have_ != want then
    .error (asset ++ ": SHA256 MISMATCH (expected ".toList ++ want ++ ", got ".toList ++ have_ ++
      "); nothing installed".toList)
  else .ok ()

/-! ## The manifest -/

/-- `^[A-Za-z0-9._-]+$` -/
def isFileName (s : Str) : Bool :=
  !s.isEmpty && s.all fun c => c.isAlphanum || c == '.' || c == '_' || c == '-'

def upgraderGroup : Str := "upgrader".toList

def releaseGroup : Str := "release".toList

def allGroups : Str := "all".toList

/-- One line of the manifest. Nothing comes of a comment, or of a row of another group. -/
def parseRow (arch groups line : Str) : Except Str (Option Row) :=
  let line := line.takeWhile (· != '#')
  if line.all isSpace then .ok none
  else match readFields isGap 4 line with
    | [group, kind, asset, name] =>
      if group ≠ upgraderGroup ∧ group ≠ releaseGroup then
        .error ("manifest: bad group '".toList ++ group ++ "'".toList)
      else match parseKind kind with
        | none => .error ("manifest: bad kind '".toList ++ kind ++ "'".toList)
        | some kind =>
          let asset := replaceText "@ARCH@".toList arch asset
          if !isFileName asset || !isFileName name then
            .error ("manifest: unsafe file name in '".toList ++ line ++ "'".toList)
          else if groups = allGroups ∨ group = groups then .ok (some ⟨group, kind, asset, name⟩)
          else .ok none
    | _ => .ok none

/-- `read` leaves out what follows the last newline. -/
def readManifest (arch groups text : Str) : Except Str (List Row) := do
  let rows ← (lines text).dropLast.mapM (parseRow arch groups)
  return rows.filterMap id

/-! ## Fetching -/

variable (w : World)

/-- Fetches a file into the staging directory and checks it against the checksums that are there. -/
def fetchAsset (base : Str) (request : Nat) (stage : Stage) (asset : Str) : Except Str Stage :=
  match w.serve request (base ++ '/' :: asset) with
  | none => .error ("could not fetch ".toList ++ base ++ '/' :: asset)
  | some file => do
    let stage := Function.update stage asset (some file)
    verifyAsset w.sha256 ((stage sumsName).getD []) file asset
    return stage

/-- The files of the rows; `request` counts the requests made before. -/
def fetchRows (base : Str) : Nat → Stage → List Row → Except Str Stage
  | _, stage, [] => .ok stage
  | request, stage, row :: rows => do
    let stage ← fetchAsset w base request stage row.asset
    fetchRows base (request + 1) stage rows

def releaseBase (ver : Str) : Str := w.releasesBase ++ "/v".toList ++ ver

def manifestName : Str := "relay-manifest.txt".toList

def stageRelease (ver groups : Str) : Except Str (List Row × Stage) :=
  let base := releaseBase w ver
  match w.archToken with
  | none => .error ("unsupported architecture ".toList ++ w.machine)
  | some arch =>
    match w.serve 0 (base ++ '/' :: sumsName) with
    | none =>
      .error ("could not fetch ".toList ++ base ++ "/SHA256SUMS (release v".toList ++ ver ++
        " missing or network down)".toList)
    | some sums =>
      match w.serve 1 (base ++ '/' :: manifestName) with
      | none => .error ("could not fetch relay-manifest.txt for v".toList ++ ver)
      | some manifest => do
        verifyAsset w.sha256 sums manifest manifestName
        let rows ← readManifest arch groups manifest
        if rows.isEmpty then
          .error ("manifest for v".toList ++ ver ++ " lists nothing for group '".toList ++ groups ++
            "'".toList)
        else
          let stage := Function.update (Function.update (fun _ => none) sumsName (some sums))
            manifestName (some manifest)
          return (rows, ← fetchRows w base 2 stage rows)

/-- Whether a staged file has been made executable, which is done for rows of two kinds only. -/
def executable (rows : List Row) (asset : Str) : Bool :=
  rows.any fun row => row.asset = asset ∧ (row.kind = .sbin ∨ row.kind = .bin)

/-- The replacement for an `opec` that the template cannot be rendered with: the staged file, if one
is needed. It is fetched like the files of the rows but not made executable, so it passes only if
some row names it too. -/
def ensureOpec (ver : Str) (installed : Option Str) (rows : List Row) (stage : Stage) :
    Except Str (Option Str × Stage) :=
  if installed.any w.opecSupports then .ok (none, stage)
  else match w.archToken with
    | none => .error "unsupported architecture".toList
    | some arch => do
      let asset := "opec-".toList ++ arch
      match w.serve (2 + rows.length) (releaseBase w ver ++ '/' :: asset) with
      | none => .error ("opec: could not fetch ".toList ++ asset)
      | some file =>
        let stage := Function.update stage asset (some file)
        verifyAsset w.sha256 ((stage sumsName).getD []) file asset
        if executable rows asset && w.opecSupports file then return (some asset, stage)
        else .error ("opec: release v".toList ++ ver ++ " ".toList ++ asset ++
          " lacks the relay subcommands".toList)

/-- Everything that is checked before a file of the node is touched: the rows, the staged files and
the replacement for `opec`. -/
def prepare (ver : Str) (installedOpec : Option Str) :
    Except Str (List Row × Stage × Option Str) := do
  let (rows, stage) ← stageRelease w ver allGroups
  let turnserver := "relay-turnserver-".toList ++ w.archToken.getD []
  if !(executable rows turnserver && (stage turnserver).any w.runs) then
    .error ("v".toList ++ ver ++
      ": the shipped turnserver does not run on this host; nothing changed".toList)
  else
    let (opecNew, stage) ← ensureOpec w ver installedOpec rows stage
    return (rows, stage, opecNew)

/-! ## Names that the upgrader uses itself -/

/-- The entries of its directory that a glob lists. -/
def ownNames : List Str :=
  ["current", "releases", "snapshots", "failed-version", "last-rc"].map String.toList

/-- The row names no hidden file, no temporary file of an installation and no entry that the
upgrader uses itself. -/
def Row.isPlain (row : Row) : Bool :=
  row.name.head? ≠ some '.' && !decide (".new.".toList <:+: row.name) &&
    (row.kind ≠ .lib || !ownNames.contains row.name)

/-- The model of the node keeps the files of the upgrader apart from the others, so that it is about
releases with plain rows. -/
def plainRelease (ver : Str) : Bool :=
  match stageRelease w ver allGroups with
  | .ok (rows, _) => rows.all Row.isPlain
  | .error _ => true

/-! ## What is staged is listed -/

/-- Checksums that the server sent for the release list this content under the name. -/
def Listed (ver asset content : Str) : Prop :=
  ∃ request sums, w.serve request (releaseBase w ver ++ '/' :: sumsName) = some sums ∧
    isSum (sumsLookup sums asset) = true ∧ w.sha256 content = sumsLookup sums asset

theorem verifyAsset_eq_ok_iff {sha256 : Str → Str} {sums file asset : Str} {u : Unit} :
    verifyAsset sha256 sums file asset = .ok u ↔
      isSum (sumsLookup sums asset) = true ∧ sha256 file = sumsLookup sums asset := by
  unfold verifyAsset
  by_cases hsum : isSum (sumsLookup sums asset) = true <;>
    by_cases hsha : sha256 file = sumsLookup sums asset <;> simp [hsum, hsha]

variable {w} {ver : Str} {stage stage' : Stage}

/-- The checksums in the staging directory are some that the server sent. -/
def SumsServed (w : World) (ver : Str) (stage : Stage) : Prop :=
  ∃ request sums, w.serve request (releaseBase w ver ++ '/' :: sumsName) = some sums ∧
    stage sumsName = some sums

def Staged (w : World) (ver : Str) (stage : Stage) (asset : Str) : Prop :=
  ∃ file, stage asset = some file ∧ Listed w ver asset file

/-- A file that is fetched and verified is listed, and the others stay. -/
theorem staged_update {asset file : Str} {request : Nat}
    (hserve : w.serve request (releaseBase w ver ++ '/' :: asset) = some file)
    (hverify : verifyAsset w.sha256
      ((Function.update stage asset (some file) sumsName).getD []) file asset = .ok ())
    (hsums : SumsServed w ver stage) :
    SumsServed w ver (Function.update stage asset (some file)) ∧
      Staged w ver (Function.update stage asset (some file)) asset ∧
      ∀ other, Staged w ver stage other →
        Staged w ver (Function.update stage asset (some file)) other := by
  have hserved : SumsServed w ver (Function.update stage asset (some file)) := by
    by_cases hname : asset = sumsName
    · subst hname
      exact ⟨request, file, hserve, Function.update_self ..⟩
    · obtain ⟨n, sums, hn, hstage⟩ := hsums
      exact ⟨n, sums, hn, by rwa [Function.update_of_ne (Ne.symm hname)]⟩
  obtain ⟨n, sums, hn, hstage⟩ := id hserved
  rw [hstage, verifyAsset_eq_ok_iff] at hverify
  have hlisted : Listed w ver asset file := ⟨n, sums, hn, hverify⟩
  refine ⟨hserved, ⟨file, Function.update_self .., hlisted⟩, ?_⟩
  rintro other ⟨content, hcontent, hother⟩
  by_cases hname : other = asset
  · exact ⟨file, by rw [hname, Function.update_self], hname ▸ hlisted⟩
  · exact ⟨content, by rwa [Function.update_of_ne hname], hother⟩

theorem fetchRows_staged {request : Nat} {rows : List Row}
    (h : fetchRows w (releaseBase w ver) request stage rows = .ok stage')
    (hsums : SumsServed w ver stage) : SumsServed w ver stage' ∧
      (∀ row ∈ rows, Staged w ver stage' row.asset) ∧
      ∀ asset, Staged w ver stage asset → Staged w ver stage' asset := by
  induction rows generalizing request stage with
  | nil =>
    obtain rfl : stage = stage' := by simpa [fetchRows] using h
    exact ⟨hsums, by simp, fun _ => id⟩
  | cons row rows ih =>
    obtain ⟨between, hfetch, hrest⟩ := exists_of_bind_ok h
    unfold fetchAsset at hfetch
    split at hfetch
    · cases hfetch
    · next file hserve =>
      obtain ⟨⟨⟩, hverify, heq⟩ := exists_of_bind_ok hfetch
      obtain rfl : Function.update stage row.asset (some file) = between := by
        simpa [pure, Except.pure] using heq
      obtain ⟨hserved, hrow, hothers⟩ := staged_update hserve hverify hsums
      obtain ⟨hserved', hrows, hkept⟩ := ih hrest hserved
      exact ⟨hserved', List.forall_mem_cons.2 ⟨hkept _ hrow, hrows⟩,
        fun asset hasset => hkept _ (hothers _ hasset)⟩

theorem parseRow_kind {arch groups line : Str} {row : Row}
    (h : parseRow arch groups line = .ok (some row)) : row.kind ≠ .opec := by
  have hparse : ∀ s, parseKind s ≠ some .opec := by
    intro s
    unfold parseKind
    split_ifs <;> simp
  unfold parseRow at h
  dsimp only at h
  split at h
  · cases h
  split at h
  · split at h
    · cases h
    split at h
    · cases h
    next kind hkind =>
    split_ifs at h
    · obtain rfl := Option.some.inj (Except.ok.inj h)
      exact fun heq => hparse _ (hkind.trans (congrArg some heq))
    · cases h
  · cases h

theorem readManifest_kind {arch groups text : Str} {rows : List Row}
    (h : readManifest arch groups text = .ok rows) : ∀ row ∈ rows, row.kind ≠ .opec := by
  obtain ⟨parsed, hparsed, heq⟩ := exists_of_bind_ok h
  obtain rfl : parsed.filterMap id = rows := by simpa [pure, Except.pure] using heq
  clear h heq
  generalize (lines text).dropLast = ls at hparsed
  induction ls generalizing parsed with
  | nil =>
    obtain rfl : [] = parsed := by simpa [pure, Except.pure] using hparsed
    simp
  | cons l ls ih =>
    rw [List.mapM_cons] at hparsed
    obtain ⟨row?, hrow, hparsed⟩ := exists_of_bind_ok hparsed
    obtain ⟨others, hothers, heq⟩ := exists_of_bind_ok hparsed
    obtain rfl : row? :: others = parsed := by simpa [pure, Except.pure] using heq
    intro row hmem
    simp only [List.mem_filterMap, List.mem_cons, id_eq, exists_eq_right] at hmem
    rcases hmem with heq | hmem
    · exact parseRow_kind (hrow.trans (congrArg Except.ok heq.symm))
    · exact ih others hothers row (by simpa using hmem)

/-- A staged release: the manifest that was read, and the files that were fetched after it. -/
theorem of_stageRelease_ok {groups : Str} {rows : List Row}
    (h : stageRelease w ver groups = .ok (rows, stage)) : ∃ arch sums manifest,
      w.serve 0 (releaseBase w ver ++ '/' :: sumsName) = some sums ∧
      readManifest arch groups manifest = .ok rows ∧
      fetchRows w (releaseBase w ver) 2 (Function.update (Function.update (fun _ => none) sumsName
        (some sums)) manifestName (some manifest)) rows = .ok stage := by
  unfold stageRelease at h
  dsimp only at h
  split at h
  · cases h
  next arch _ =>
  split at h
  · cases h
  next sums hsums =>
  split at h
  · cases h
  next manifest _ =>
  obtain ⟨⟨⟩, -, h⟩ := exists_of_bind_ok h
  obtain ⟨rows', hrows, h⟩ := exists_of_bind_ok h
  split at h
  · cases h
  obtain ⟨stage', hfetch, heq⟩ := exists_of_bind_ok h
  obtain ⟨rfl, rfl⟩ : rows' = rows ∧ stage' = stage := by simpa [pure, Except.pure] using heq
  exact ⟨arch, sums, manifest, hsums, hrows, hfetch⟩

theorem of_prepare_ok {installedOpec opecNew : Option Str} {rows : List Row}
    (h : prepare w ver installedOpec = .ok (rows, stage, opecNew)) : ∃ staged,
      stageRelease w ver allGroups = .ok (rows, staged) ∧
      ensureOpec w ver installedOpec rows staged = .ok (opecNew, stage) := by
  obtain ⟨⟨rows', staged⟩, hstage, h⟩ := exists_of_bind_ok h
  dsimp only at h
  split at h
  · cases h
  obtain ⟨⟨opec, stage'⟩, hopec, heq⟩ := exists_of_bind_ok h
  obtain ⟨rfl, rfl, rfl⟩ : rows' = rows ∧ stage' = stage ∧ opec = opecNew := by
    simpa [pure, Except.pure] using heq
  exact ⟨staged, hstage, hopec⟩

/-- Every file that a prepared release installs is listed by checksums of the release. -/
theorem prepare_staged {installedOpec opecNew : Option Str} {rows : List Row}
    (h : prepare w ver installedOpec = .ok (rows, stage, opecNew)) :
    (∀ row ∈ rows, row.kind ≠ .opec ∧ Staged w ver stage row.asset) ∧
      ∀ asset ∈ opecNew, Staged w ver stage asset := by
  obtain ⟨staged, hstage, hopec⟩ := of_prepare_ok h
  obtain ⟨arch, sums, manifest, hsums, hmanifest, hfetch⟩ := of_stageRelease_ok hstage
  have hkinds := readManifest_kind hmanifest
  obtain ⟨hserved, hrows, -⟩ := fetchRows_staged hfetch
    ⟨0, sums, hsums, by rw [Function.update_of_ne (by decide), Function.update_self]⟩
  unfold ensureOpec at hopec
  split at hopec
  · obtain ⟨rfl, rfl⟩ : none = opecNew ∧ staged = stage := by simpa using hopec
    exact ⟨fun row hrow => ⟨hkinds row hrow, hrows row hrow⟩, by simp⟩
  split at hopec
  · cases hopec
  dsimp only at hopec
  split at hopec
  · cases hopec
  next file hserve =>
  obtain ⟨⟨⟩, hverify, hopec⟩ := exists_of_bind_ok hopec
  split at hopec
  · obtain ⟨rfl, rfl⟩ : _ = opecNew ∧ _ = stage := by simpa [pure, Except.pure] using hopec
    obtain ⟨-, hnew, hothers⟩ := staged_update hserve hverify hserved
    exact ⟨fun row hrow => ⟨hkinds row hrow, hothers _ (hrows row hrow)⟩, by simpa using hnew⟩
  · cases hopec

end PartnerEdge.RelayNode
