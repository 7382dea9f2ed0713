import PartnerEdge.Text.Sections

/-!
# Stream ids in the answer

The answer that str0m makes is rewritten line by line before it goes to the browser: every audio or
video block that sends gets one `a=msid` line with the peer id in place of its own. Blocks are
collected in an accumulator that is flushed at the next `m=` line and at the end. The model follows
the loop; the results are about the sections of the text.
-/

namespace PartnerEdge.Sfu.SdpMsid

open Text

inductive Kind where
  | audio
  | video
  | other
deriving DecidableEq, Repr

inductive Direction where
  | sendOnly
  | sendRecv
  | inactive
  | recvOnly
deriving DecidableEq, Repr

def startsWith (tag : String) (l : Str) : Bool := tag.toList.isPrefixOf l

def isMLine (l : Str) : Bool := startsWith "m=" l

def isMsid (l : Str) : Bool := startsWith "a=msid:" l

/-- `a=msid:peer-N ` -/
def canonicalStart (peerId : Nat) : Str :=
  "a=msid:peer-".toList ++ Nat.toDigits 10 peerId ++ " ".toList

def isCanonical (peerId : Nat) (l : Str) : Bool := (canonicalStart peerId).isPrefixOf l

def kindOf (raw : Str) : Kind :=
  if startsWith "m=audio" raw then .audio
  else if startsWith "m=video" raw then .video
  else .other

def directionOf (raw : Str) : Option Direction :=
  if raw = "a=recvonly".toList then some .recvOnly
  else if raw = "a=sendonly".toList then some .sendOnly
  else if raw = "a=sendrecv".toList then some .sendRecv
  else if raw = "a=inactive".toList then some .inactive
  else none

structure MBlock where
  lines : List Str
  kind : Kind
  direction : Direction
  alreadyInjected : Bool
  /-- Where in `lines` the last `a=mid:` line is. -/
  midIdx : Option Nat
deriving DecidableEq, Repr

namespace MBlock

def new (kind : Kind) : MBlock := ⟨[], kind, .sendOnly, false, none⟩

def addLine (b : MBlock) (raw : Str) : MBlock := { b with lines := b.lines ++ [raw] }

/-- A line of a block after its `m=` line. -/
def push (peerId : Nat) (b : MBlock) (raw : Str) : MBlock :=
  let b := { b with direction := (directionOf raw).getD b.direction }
  let b := if isCanonical peerId raw then { b with alreadyInjected := true } else b
  let b := if startsWith "a=mid:" raw then { b with midIdx := some b.lines.length } else b
  b.addLine raw

end MBlock

/-- The index of the last element that satisfies the predicate. -/
def rposition {α : Type} (p : α → Bool) (ls : List α) : Option Nat :=
  (ls.reverse.findIdx? p).map (ls.length - 1 - ·)

def Kind.name : Kind → Str
  | .audio => "audio".toList
  | .video => "video".toList
  | .other => []

def msidLine (peerId : Nat) (kind : Kind) : Str :=
  canonicalStart peerId ++ "peer-".toList ++ Nat.toDigits 10 peerId ++ "-".toList ++ kind.name

namespace MBlock

/-- After the `a=mid:` line, else after the last line that is no `a=ssrc:` line. -/
def insertAfter (b : MBlock) : Nat :=
  b.midIdx.getD ((rposition (fun l => !startsWith "a=ssrc:" l) b.lines).getD (b.lines.length - 1))

/-- The loop over the lines of a block that gets an `a=msid` line, and whether it got it. -/
def emit (eol msidLine : Str) (insertAfter : Nat) : Nat → List Str → Str × Bool → Str × Bool
  | _, [], acc => acc
  | i, l :: ls, (out, injected) =>
    if isMsid l then emit eol msidLine insertAfter (i + 1) ls (out, injected)
    else if !injected && i == insertAfter then
      emit eol msidLine insertAfter (i + 1) ls (out ++ l ++ eol ++ msidLine ++ eol, true)
    else emit eol msidLine insertAfter (i + 1) ls (out ++ l ++ eol, injected)

/-- The block is left as it is. -/
def isSkipped (b : MBlock) : Bool :=
  b.kind = .other || b.alreadyInjected || b.direction = .recvOnly || b.direction = .inactive

/-- Appends the block to the output; true if it got an `a=msid` line. -/
def flush (b : MBlock) (out : Str) (peerId : Nat) (eol : Str) : Str × Bool :=
  if b.isSkipped then
    (out ++ b.lines.flatMap (· ++ eol), false)
  else
    let msidLine := msidLine peerId b.kind
    let (out, injected) := emit eol msidLine b.insertAfter 0 b.lines (out, false)
    if injected then (out, true) else (out ++ msidLine ++ eol, true)

end MBlock

structure State where
  out : Str
  /-- The lines before the first `m=` line. -/
  sessionLines : List Str
  inSession : Bool
  current : Option MBlock
  totalInjected : Nat
deriving DecidableEq, Repr

namespace State

def init : State := ⟨[], [], true, none, 0⟩

variable (peerId : Nat) (eol : Str)

def flushCurrent (s : State) : State :=
  if s.inSession then
    { s with out := s.out ++ s.sessionLines.flatMap (· ++ eol), inSession := false }
  else
    match s.current with
    | none => s
    | some block =>
      let (out, injected) := block.flush s.out peerId eol
      { s with
        out
        current := none
        totalInjected := if injected then s.totalInjected + 1 else s.totalInjected }

def line (s : State) (raw : Str) : State :=
  if raw.isEmpty then s
  else if isMLine raw then
    { s.flushCurrent peerId eol with current := some ((MBlock.new (kindOf raw)).addLine raw) }
  else if s.inSession then { s with sessionLines := s.sessionLines ++ [raw] }
  else { s with current := s.current.map (·.push peerId raw) }

end State

def injectMsid (answerSdp : Str) (peerId : Nat) : Str × Nat :=
  let eol := (lineEnding answerSdp).text
  let s := (splitLines answerSdp).foldl (State.line peerId eol) .init
  let s := s.flushCurrent peerId eol
  (s.out, s.totalInjected)

/-! ## What the rewrite is -/

/-- The session part and the blocks of a text, without its empty lines. -/
def sdpSections (t : Str) : List Str × List (List Str) :=
  sections isMLine ((splitLines t).filter (!·.isEmpty))

def blockKind (b : List Str) : Kind := (b.head?.map kindOf).getD .other

/-- That of the last direction line. -/
def blockDirection (b : List Str) : Direction := (b.filterMap directionOf).getLast?.getD .sendOnly

/-- An audio or video block that sends and does not name the peer yet. -/
def needsMsid (peerId : Nat) (b : List Str) : Bool :=
  blockKind b ≠ .other && blockDirection b ≠ .recvOnly && blockDirection b ≠ .inactive &&
    !b.any (isCanonical peerId)

/-- The block with one `a=msid` line in place of its own. -/
structure Rewritten (peerId : Nat) (b b' : List Str) : Prop where
  header : b'.head? = b.head?
  kept : b'.filter (!isMsid ·) = b.filter (!isMsid ·)
  msid : b'.filter isMsid = [msidLine peerId (blockKind b)]

def Becomes (peerId : Nat) (b b' : List Str) : Prop :=
  if needsMsid peerId b then Rewritten peerId b b' else b' = b

/-! ## Lines -/

section Lines

variable {peerId : Nat} {kind : Kind} {l : Str}

theorem isMLine_iff : isMLine l = true ↔ ∃ t, l = 'm' :: '=' :: t := by
  rw [isMLine, startsWith, List.isPrefixOf_iff_prefix]
  exact ⟨fun ⟨t, ht⟩ => ⟨t, ht.symm⟩, fun ⟨t, ht⟩ => ⟨t, ht.symm⟩⟩

theorem isMsid_of_isMLine (h : isMLine l = true) : isMsid l = false := by
  obtain ⟨t, rfl⟩ := isMLine_iff.1 h
  rfl

theorem directionOf_of_isMLine (h : isMLine l = true) : directionOf l = none := by
  obtain ⟨t, rfl⟩ := isMLine_iff.1 h
  simp [directionOf]

theorem isMsid_of_isCanonical (h : isCanonical peerId l = true) : isMsid l = true := by
  have hstart : "a=msid:".toList <+: "a=msid:peer-".toList := by decide
  refine List.isPrefixOf_iff_prefix.2 (.trans ?_ (List.isPrefixOf_iff_prefix.1 h))
  exact hstart.trans ((List.prefix_append _ _).trans (List.prefix_append _ _))

theorem isCanonical_msidLine (peerId : Nat) (kind : Kind) :
    isCanonical peerId (msidLine peerId kind) = true := by
  rw [isCanonical, msidLine, List.append_assoc, List.append_assoc, List.append_assoc]
  exact List.isPrefixOf_iff_prefix.2 (List.prefix_append _ _)

theorem isMsid_msidLine (peerId : Nat) (kind : Kind) : isMsid (msidLine peerId kind) = true :=
  isMsid_of_isCanonical (isCanonical_msidLine peerId kind)

theorem isLine_msidLine (peerId : Nat) (kind : Kind) : IsLine (msidLine peerId kind) := by
  have hdigits : IsLine (Nat.toDigits 10 peerId) := by
    constructor <;> exact fun hmem => absurd (isDigit_of_mem_toDigits hmem) (by decide)
  have hname : IsLine kind.name := by cases kind <;> decide
  have hstart : IsLine (canonicalStart peerId) := .append (.append (by decide) hdigits) (by decide)
  exact .append (.append (.append (.append hstart (by decide)) hdigits) (by decide)) hname

end Lines

/-! ## One block -/

section Block

variable {peerId : Nat} {eol : LineEnding}

/-- The block of a section, as it is collected. -/
def MBlock.ofSection (peerId : Nat) : List Str → MBlock
  | [] => .new .other
  | raw :: rest => rest.foldl (MBlock.push peerId) ((MBlock.new (kindOf raw)).addLine raw)

theorem MBlock.foldl_push (peerId : Nat) (rest : List Str) (b : MBlock) :
    (rest.foldl (push peerId) b).lines = b.lines ++ rest ∧
      (rest.foldl (push peerId) b).kind = b.kind ∧
      (rest.foldl (push peerId) b).direction =
        (rest.filterMap directionOf).getLast?.getD b.direction ∧
      (rest.foldl (push peerId) b).alreadyInjected =
        (b.alreadyInjected || rest.any (isCanonical peerId)) := by
  induction rest generalizing b with
  | nil => simp
  | cons raw rest ih =>
    have hpush : (b.push peerId raw).lines = b.lines ++ [raw] ∧ (b.push peerId raw).kind = b.kind ∧
        (b.push peerId raw).direction = (directionOf raw).getD b.direction ∧
        (b.push peerId raw).alreadyInjected = (b.alreadyInjected || isCanonical peerId raw) := by
      simp only [push, addLine]
      cases isCanonical peerId raw <;> cases startsWith "a=mid:" raw <;> simp
    obtain ⟨hlines, hkind, hdirection, hinjected⟩ := hpush
    obtain ⟨ihlines, ihkind, ihdirection, ihinjected⟩ := ih (b.push peerId raw)
    refine ⟨?_, ihkind.trans hkind, ?_, ?_⟩
    · rw [List.foldl_cons, ihlines, hlines, List.append_assoc, List.singleton_append]
    · rw [List.foldl_cons, ihdirection, hdirection]
      cases hraw : directionOf raw with
      | none => simp [hraw]
      | some d => simp [hraw, List.getLast?_cons]
    · rw [List.foldl_cons, ihinjected, hinjected, List.any_cons, Bool.or_assoc]

/-- The loop keeps the lines that are no `a=msid` lines, and adds at most one. -/
theorem MBlock.emit_spec (eol : LineEnding) {msidLine : Str} (hmsid : isMsid msidLine = true)
    (insertAfter i : Nat) (ls : List Str) (out : Str) (injected : Bool) : ∃ ls' injected',
      emit eol.text msidLine insertAfter i ls (out, injected) =
        (out ++ eol.terminate ls', injected') ∧
      ls'.filter (!isMsid ·) = ls.filter (!isMsid ·) ∧
      ls'.filter isMsid = (if injected' && !injected then [msidLine] else []) ∧
      (injected = true → injected' = true) ∧
      ∀ l ∈ ls.head?, isMsid l = false → ls'.head? = some l := by
  induction ls generalizing i out injected with
  | nil => exact ⟨[], injected, by simp [emit, LineEnding.terminate], by simp⟩
  | cons l ls ih =>
    cases hl : isMsid l with
    | true =>
      obtain ⟨ls', injected', hemit, hkept, hadded, hstays, -⟩ := ih (i + 1) out injected
      exact ⟨ls', injected', by rw [emit, if_pos hl, hemit], by simpa [hl] using hkept, hadded,
        hstays, by simp [hl]⟩
    | false =>
      cases hhere : !injected && i == insertAfter with
      | true =>
        obtain ⟨ls', injected', hemit, hkept, hadded, hstays, -⟩ :=
          ih (i + 1) (out ++ l ++ eol.text ++ msidLine ++ eol.text) true
        have hbefore : injected = false := by grind
        refine ⟨l :: msidLine :: ls', injected', ?_, ?_, ?_, by simp [hbefore], by simp⟩
        · rw [emit, if_neg (by simp [hl]), if_pos hhere, hemit]
          simp [LineEnding.terminate]
        · simpa [hl, hmsid] using hkept
        · simpa [hl, hmsid, hbefore, hstays rfl] using hadded
      | false =>
        obtain ⟨ls', injected', hemit, hkept, hadded, hstays, -⟩ :=
          ih (i + 1) (out ++ l ++ eol.text) injected
        refine ⟨l :: ls', injected', ?_, ?_, ?_, hstays, by simp⟩
        · rw [emit, if_neg (by simp [hl]), if_neg (by simp [hhere]), hemit]
          simp [LineEnding.terminate]
        · simpa [hl] using hkept
        · simpa [hl] using hadded

theorem MBlock.ofSection_eq (peerId : Nat) {raw : Str} (hraw : isMLine raw = true)
    (rest : List Str) :
    (ofSection peerId (raw :: rest)).lines = raw :: rest ∧
      (ofSection peerId (raw :: rest)).kind = blockKind (raw :: rest) ∧
      (ofSection peerId (raw :: rest)).isSkipped = !needsMsid peerId (raw :: rest) := by
  obtain ⟨hlines, hkind, hdirection, hinjected⟩ :=
    foldl_push peerId rest ((MBlock.new (kindOf raw)).addLine raw)
  have hcanonical : isCanonical peerId raw = false := by
    by_contra hne
    have hmsid := isMsid_of_isCanonical (Bool.of_not_eq_false hne)
    rw [isMsid_of_isMLine hraw] at hmsid
    cases hmsid
  have hdirection' : (ofSection peerId (raw :: rest)).direction = blockDirection (raw :: rest) := by
    simpa [blockDirection, directionOf_of_isMLine hraw, ofSection, MBlock.new, addLine] using
      hdirection
  have hinjected' : (ofSection peerId (raw :: rest)).alreadyInjected =
      (raw :: rest).any (isCanonical peerId) := by
    simpa [hcanonical, ofSection, MBlock.new, addLine] using hinjected
  have hkind' : (ofSection peerId (raw :: rest)).kind = blockKind (raw :: rest) := hkind
  refine ⟨hlines, hkind', ?_⟩
  rw [isSkipped, needsMsid, hkind', hdirection', hinjected']
  grind

theorem MBlock.flush_ofSection {b : List Str} (hb : IsSection isMLine b) (out : Str) :
    ∃ b', (ofSection peerId b).flush out peerId eol.text =
        (out ++ eol.terminate b', needsMsid peerId b) ∧ Becomes peerId b b' := by
  obtain ⟨raw, rest, rfl, hraw, hrest⟩ := hb
  obtain ⟨hlines, hkind, hskipped⟩ := ofSection_eq peerId hraw rest
  unfold flush Becomes
  rw [hskipped, hlines, hkind]
  cases hneeds : needsMsid peerId (raw :: rest) with
  | false => exact ⟨raw :: rest, by simp [LineEnding.terminate], by simp⟩
  | true =>
    have hmsid := isMsid_msidLine peerId (blockKind (raw :: rest))
    obtain ⟨ls', injected, hemit, hkept, hadded, -, hhead⟩ := emit_spec eol hmsid
      (ofSection peerId (raw :: rest)).insertAfter 0 (raw :: rest) out false
    have hheader : ls'.head? = some raw := hhead raw rfl (isMsid_of_isMLine hraw)
    simp only [Bool.not_true, Bool.false_eq_true, if_false, if_true, hemit]
    cases injected with
    | true => exact ⟨ls', rfl, hheader, hkept, by simpa using hadded⟩
    | false =>
      refine ⟨ls' ++ [msidLine peerId (blockKind (raw :: rest))], ?_, ?_, ?_, ?_⟩
      · simp [LineEnding.terminate]
      · simp [hheader]
      · simp [hkept, hmsid]
      · simpa [hmsid] using hadded

end Block

/-! ## The whole text -/

section Text

variable {peerId : Nat} {eol : LineEnding}

def flushInto (peerId : Nat) (eol : Str) (acc : Str × Nat) (b : MBlock) : Str × Nat :=
  ((b.flush acc.1 peerId eol).1, if (b.flush acc.1 peerId eol).2 then acc.2 + 1 else acc.2)

/-- The loop and the flush at its end. -/
def rewriteLines (peerId : Nat) (eol : Str) (s : State) (ls : List Str) : Str × Nat :=
  let s := (ls.foldl (State.line peerId eol) s).flushCurrent peerId eol
  (s.out, s.totalInjected)

theorem rewriteLines_block {ls : List Str} (hls : [] ∉ ls) (out : Str) (session : List Str)
    (b : MBlock) (n : Nat) :
    rewriteLines peerId eol.text ⟨out, session, false, some b, n⟩ ls =
      ((sections isMLine ls).2.map (MBlock.ofSection peerId)).foldl (flushInto peerId eol.text)
        (flushInto peerId eol.text (out, n)
          ((sections isMLine ls).1.foldl (MBlock.push peerId) b)) := by
  induction ls generalizing out b n with
  | nil => rfl
  | cons raw ls ih =>
    have hraw : raw.isEmpty = false := by grind
    have hrest : [] ∉ ls := by grind
    have hcons : rewriteLines peerId eol.text ⟨out, session, false, some b, n⟩ (raw :: ls) =
      rewriteLines peerId eol.text (State.line peerId eol.text ⟨out, session, false, some b, n⟩ raw)
        ls := rfl
    cases hheader : isMLine raw with
    | true =>
      rw [hcons, sections_cons_header hheader]
      simp only [State.line, hraw, hheader, State.flushCurrent, Bool.false_eq_true, if_false,
        if_true]
      rw [ih hrest]
      rfl
    | false =>
      rw [hcons, sections_cons_other hheader]
      simp only [State.line, hraw, hheader, Bool.false_eq_true, if_false]
      exact ih hrest out (b.push peerId raw) n

/-- The loop over nonempty lines, block by block. -/
theorem rewriteLines_session {ls : List Str} (hls : [] ∉ ls) (session : List Str) :
    rewriteLines peerId eol.text ⟨[], session, true, none, 0⟩ ls =
      ((sections isMLine ls).2.map (MBlock.ofSection peerId)).foldl (flushInto peerId eol.text)
        (eol.terminate (session ++ (sections isMLine ls).1), 0) := by
  induction ls generalizing session with
  | nil => simp [rewriteLines, State.flushCurrent, sections, LineEnding.terminate]
  | cons raw ls ih =>
    have hraw : raw.isEmpty = false := by grind
    have hrest : [] ∉ ls := by grind
    have hcons : rewriteLines peerId eol.text ⟨[], session, true, none, 0⟩ (raw :: ls) =
      rewriteLines peerId eol.text (State.line peerId eol.text ⟨[], session, true, none, 0⟩ raw)
        ls := rfl
    cases hheader : isMLine raw with
    | true =>
      rw [hcons, sections_cons_header hheader, List.append_nil]
      simp only [State.line, hraw, hheader, State.flushCurrent, Bool.false_eq_true, if_false,
        if_true]
      exact rewriteLines_block hrest _ _ _ _
    | false =>
      rw [hcons, sections_cons_other hheader]
      simp only [State.line, hraw, hheader, Bool.false_eq_true, if_false, if_true]
      rw [ih hrest, List.append_assoc, List.singleton_append]

theorem foldl_flushInto (peerId : Nat) (eol : LineEnding) {bs : List (List Str)}
    (hbs : ∀ b ∈ bs, IsSection isMLine b) (out : Str) (n : Nat) :
    ∃ bs', List.Forall₂ (Becomes peerId) bs bs' ∧
      (bs.map (MBlock.ofSection peerId)).foldl (flushInto peerId eol.text) (out, n) =
        (out ++ eol.terminate bs'.flatten, n + bs.countP (needsMsid peerId)) := by
  induction bs generalizing out n with
  | nil => exact ⟨[], .nil, by simp [LineEnding.terminate]⟩
  | cons b bs ih =>
    obtain ⟨b', hflush, hbecomes⟩ := MBlock.flush_ofSection (hbs b (by simp)) out
    obtain ⟨bs', hforall, hfold⟩ := ih (fun b hb => hbs b (by simp [hb]))
      (out ++ eol.terminate b') (if needsMsid peerId b then n + 1 else n)
    refine ⟨b' :: bs', .cons hbecomes hforall, ?_⟩
    rw [List.map_cons, List.foldl_cons, flushInto, hflush, hfold, List.countP_cons]
    refine Prod.ext ?_ ?_
    · simp [LineEnding.terminate]
    · simp only
      split <;> omega

/-- What the rewrite writes for a list of lines. -/
theorem injectMsid_eq (t : Str) (peerId : Nat) :
    ∃ bs', List.Forall₂ (Becomes peerId) (sdpSections t).2 bs' ∧
      injectMsid t peerId = ((lineEnding t).terminate ((sdpSections t).1 ++ bs'.flatten),
        (sdpSections t).2.countP (needsMsid peerId)) := by
  have hfilter (s : State) (ls : List Str) (eol : Str) :
      ls.foldl (State.line peerId eol) s =
        (ls.filter (!·.isEmpty)).foldl (State.line peerId eol) s := by
    induction ls generalizing s with
    | nil => rfl
    | cons l ls ih =>
      cases hl : l.isEmpty with
      | true => simpa [hl, State.line] using ih s
      | false => simpa [hl] using ih _
  have hnonempty : [] ∉ (splitLines t).filter (!·.isEmpty) := by simp
  have hloop : injectMsid t peerId = rewriteLines peerId (lineEnding t).text .init
      ((splitLines t).filter (!·.isEmpty)) := by
    rw [injectMsid, rewriteLines, hfilter]
  obtain ⟨bs', hforall, hfold⟩ := foldl_flushInto peerId (lineEnding t)
    (isSection_sections isMLine ((splitLines t).filter (!·.isEmpty))).2
    ((lineEnding t).terminate (sdpSections t).1) 0
  refine ⟨bs', hforall, ?_⟩
  rw [hloop, State.init, rewriteLines_session hnonempty, List.nil_append]
  refine hfold.trans (Prod.ext ?_ (Nat.zero_add _))
  simp [LineEnding.terminate]

theorem Becomes.mem {b b' : List Str} (h : Becomes peerId b b') {l : Str} (hl : l ∈ b') :
    l ∈ b ∨ l = msidLine peerId (blockKind b) := by
  unfold Becomes at h
  split at h
  · cases hmsid : isMsid l with
    | true =>
      have hmem : l ∈ b'.filter isMsid := List.mem_filter.2 ⟨hl, hmsid⟩
      rw [h.msid] at hmem
      exact .inr (List.mem_singleton.1 hmem)
    | false =>
      have hmem : l ∈ b'.filter (!isMsid ·) := List.mem_filter.2 ⟨hl, by simp [hmsid]⟩
      rw [h.kept] at hmem
      exact .inl (List.mem_filter.1 hmem).1
  · exact .inl (h ▸ hl)

theorem Becomes.isSection {b b' : List Str} (h : Becomes peerId b b')
    (hb : IsSection isMLine b) : IsSection isMLine b' := by
  obtain ⟨raw, rest, rfl, hraw, hrest⟩ := hb
  have hother : isMsid raw = false := isMsid_of_isMLine hraw
  unfold Becomes at h
  split at h
  · obtain ⟨rest', rfl⟩ := List.head?_eq_some_iff.1 h.header
    have hkept : rest'.filter (!isMsid ·) = rest.filter (!isMsid ·) := by
      simpa [hother] using h.kept
    refine ⟨raw, rest', rfl, hraw, fun l hl => ?_⟩
    cases hmsid : isMsid l with
    | true =>
      by_contra hne
      rw [isMsid_of_isMLine (Bool.of_not_eq_false hne)] at hmsid
      cases hmsid
    | false =>
      have hmem : l ∈ rest'.filter (!isMsid ·) := List.mem_filter.2 ⟨hl, by simp [hmsid]⟩
      rw [hkept] at hmem
      exact hrest l (List.mem_filter.1 hmem).1
  · exact h ▸ ⟨raw, rest, rfl, hraw, hrest⟩

/-- A block that has been through the rewrite needs none. -/
theorem Becomes.needsMsid_eq {b b' : List Str} (h : Becomes peerId b b') :
    needsMsid peerId b' = false := by
  unfold Becomes at h
  split at h
  · have hmem : msidLine peerId (blockKind b) ∈ b'.filter isMsid := by rw [h.msid]; simp
    have hany : b'.any (isCanonical peerId) = true :=
      List.any_eq_true.2 ⟨_, (List.mem_filter.1 hmem).1, isCanonical_msidLine peerId _⟩
    simp [needsMsid, hany]
  · next hneeds => exact h ▸ Bool.eq_false_iff.2 hneeds

/-- A block of the output is what a block of the input became. -/
theorem exists_becomes {bs bs' : List (List Str)} (h : List.Forall₂ (Becomes peerId) bs bs')
    {b' : List Str} (hb' : b' ∈ bs') : ∃ b ∈ bs, Becomes peerId b b' := by
  induction h with
  | nil => cases hb'
  | cons hbecomes _ ih =>
    rcases List.mem_cons.1 hb' with rfl | hb'
    · exact ⟨_, by simp, hbecomes⟩
    · obtain ⟨b, hb, hbecomes⟩ := ih hb'
      exact ⟨b, by simp [hb], hbecomes⟩

/-- Blocks that need no line stay. -/
theorem eq_of_becomes {bs bs' : List (List Str)} (h : List.Forall₂ (Becomes peerId) bs bs')
    (hbs : ∀ b ∈ bs, needsMsid peerId b = false) : bs' = bs := by
  induction h with
  | nil => rfl
  | @cons b b' bs bs' hbecomes _ ih =>
    have hsame : b' = b := by simpa [Becomes, hbs b (by simp)] using hbecomes
    rw [hsame, ih fun b hb => hbs b (by simp [hb])]

theorem sdpSections_terminate {pre : List Str} {bs : List (List Str)}
    (hlines : ∀ l ∈ pre ++ bs.flatten, IsLine l ∧ l ≠ [])
    (hpre : ∀ l ∈ pre, isMLine l = false) (hbs : ∀ b ∈ bs, IsSection isMLine b) :
    sdpSections (eol.terminate (pre ++ bs.flatten)) = (pre, bs) := by
  have hnonempty : (pre ++ bs.flatten).filter (!·.isEmpty) = pre ++ bs.flatten :=
    List.filter_eq_self.2 fun l hl => by simpa using (hlines l hl).2
  rw [sdpSections, splitLines_terminate fun l hl => (hlines l hl).1, List.filter_append, hnonempty]
  simpa using sections_flatten hpre hbs

end Text

/-- For every text with one line ending: the session part stays, each block that needs it gets the
one `a=msid` line of its kind and every other block stays, the count is that of the rewritten
blocks, and a second rewrite changes nothing. -/
theorem injectMsid_exact {t : Str} (ht : OneEnding t) (peerId : Nat) :
    ∃ blocks, List.Forall₂ (Becomes peerId) (sdpSections t).2 blocks ∧
      injectMsid t peerId = ((lineEnding t).terminate ((sdpSections t).1 ++ blocks.flatten),
        (sdpSections t).2.countP (needsMsid peerId)) ∧
      sdpSections (injectMsid t peerId).1 = ((sdpSections t).1, blocks) ∧
      injectMsid (injectMsid t peerId).1 peerId = ((injectMsid t peerId).1, 0) := by
  obtain ⟨blocks, hbecomes, hresult⟩ := injectMsid_eq t peerId
  obtain ⟨hpre, hsections⟩ := isSection_sections isMLine ((splitLines t).filter (!·.isEmpty))
  have hinput : ∀ l ∈ (sdpSections t).1 ++ (sdpSections t).2.flatten, IsLine l ∧ l ≠ [] := by
    rw [sdpSections, flatten_sections]
    intro l hl
    obtain ⟨hl, hne⟩ := List.mem_filter.1 hl
    exact ⟨ht.isLine l hl, by simpa using hne⟩
  have houtput : ∀ l ∈ (sdpSections t).1 ++ blocks.flatten, IsLine l ∧ l ≠ [] := by
    intro l hl
    rcases List.mem_append.1 hl with hl | hl
    · exact hinput l (List.mem_append_left _ hl)
    · obtain ⟨b', hb', hl⟩ := List.mem_flatten.1 hl
      obtain ⟨b, hb, hb'⟩ := exists_becomes hbecomes hb'
      rcases hb'.mem hl with hl | rfl
      · exact hinput l (List.mem_append_right _ (List.mem_flatten.2 ⟨b, hb, hl⟩))
      · exact ⟨isLine_msidLine peerId _, by simp [msidLine]⟩
  have hblocks : ∀ b' ∈ blocks, IsSection isMLine b' ∧ needsMsid peerId b' = false := by
    intro b' hb'
    obtain ⟨b, hb, hbecomes⟩ := exists_becomes hbecomes hb'
    exact ⟨hbecomes.isSection (hsections b hb), hbecomes.needsMsid_eq⟩
  have hagain : sdpSections (injectMsid t peerId).1 = ((sdpSections t).1, blocks) := by
    rw [hresult]
    exact sdpSections_terminate houtput hpre fun b' hb' => (hblocks b' hb').1
  refine ⟨blocks, hbecomes, hresult, hagain, ?_⟩
  obtain ⟨blocks', hbecomes', hresult'⟩ := injectMsid_eq (injectMsid t peerId).1 peerId
  rw [hagain] at hbecomes' hresult'
  rw [hresult', eq_of_becomes hbecomes' fun b' hb' => (hblocks b' hb').2]
  refine Prod.ext ?_ (List.countP_eq_zero.2 fun b' hb' => by simp [(hblocks b' hb').2])
  rw [hresult]
  by_cases hnone : (sdpSections t).1 ++ blocks.flatten = []
  · simp [hnone, LineEnding.terminate]
  · rw [lineEnding_terminate (fun l hl => (houtput l hl).1) hnone]

/-- An answer with a block that sends, one that does not and one of another kind. -/
def sampleAnswer : Str :=
  ("v=0\r\n\r\nm=audio 9\r\na=ssrc:1\r\na=msid:x y\r\n" ++
    "m=video 9\r\na=mid:1\r\na=recvonly\r\nm=application 9\r\n").toList

theorem injectMsid_exact_sampleAnswer : OneEnding sampleAnswer ∧
    injectMsid sampleAnswer 7 =
      (("v=0\r\nm=audio 9\r\na=ssrc:1\r\na=msid:peer-7 peer-7-audio\r\n" ++
        "m=video 9\r\na=mid:1\r\na=recvonly\r\nm=application 9\r\n").toList, 1) ∧
    ∃ blocks, List.Forall₂ (Becomes 7) (sdpSections sampleAnswer).2 blocks ∧
      injectMsid sampleAnswer 7 = ((lineEnding sampleAnswer).terminate
        ((sdpSections sampleAnswer).1 ++ blocks.flatten),
        (sdpSections sampleAnswer).2.countP (needsMsid 7)) ∧
      sdpSections (injectMsid sampleAnswer 7).1 = ((sdpSections sampleAnswer).1, blocks) ∧
      injectMsid (injectMsid sampleAnswer 7).1 7 = ((injectMsid sampleAnswer 7).1, 0) :=
  ⟨by decide +kernel, by decide +kernel, injectMsid_exact (by decide +kernel) 7⟩

end PartnerEdge.Sfu.SdpMsid
