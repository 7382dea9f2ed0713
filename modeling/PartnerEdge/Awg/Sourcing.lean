import PartnerEdge.Awg.TopUp

/-!
# Where each value comes from

What the first pass does with a row depends on that row alone, so its outcome is a function from
rows to sources: a value to write, an epoch value that was omitted, or the conf as it stands. The
fallback of the junk bounds turns the source of a bound into the conf. Values, lines to write and
the drop list are read off the sources.
-/

namespace PartnerEdge.Awg

open Text

/-- The source of a row. -/
inductive Sourced where
  /-- The epoch value, or the default of a row without a line. -/
  | written (v : FieldValue)
  /-- A client-side epoch value that does not pass its validator. -/
  | omitted
  | kept
deriving DecidableEq, Repr

namespace Sourced

def value (conf : Str) (spec : FieldSpec) : Sourced → Option FieldValue
  | .written v => some v
  | .omitted | .kept => spec.confValue conf

def entry (spec : FieldSpec) : Sourced → Option (FieldSpec × Str)
  | .written v => some (spec, spec.render v)
  | .omitted | .kept => none

end Sourced

section Source

variable (base64 : Base64) (conf : Str) (params : Option AwgParams) (defaults : ClientDefaults)

def FieldSpec.source (spec : FieldSpec) : Except Rejection Sourced :=
  match spec.epochValue params with
  | some v =>
    match spec.validate base64 v with
    | .ok () => .ok (.written v)
    | .error e =>
      match spec.mergeClass with
      | .mustMatch => .error e
      | .clientSide => .ok .omitted
  | none =>
    if (spec.confRaw conf).isSome then .ok .kept
    else match spec.default defaults with
      | some v =>
        match spec.validate base64 v with
        | .ok () => .ok (.written v)
        | .error _ => .ok .kept
      | none => .ok .kept

/-- The source of a row in a merge that accepts it. -/
def FieldSpec.sourced (spec : FieldSpec) : Sourced :=
  ((spec.source base64 conf params defaults).toOption).getD .kept

end Source

section Sourced

variable {base64 : Base64} {conf : Str} {params : Option AwgParams} {defaults : ClientDefaults}
  {spec : FieldSpec} {v : FieldValue}

theorem sourced_of_valid (hepoch : spec.epochValue params = some v)
    (hvalid : spec.validate base64 v = .ok ()) :
    spec.sourced base64 conf params defaults = .written v := by
  simp [FieldSpec.sourced, FieldSpec.source, hepoch, hvalid, Except.toOption]

theorem sourced_eq_omitted_iff : spec.sourced base64 conf params defaults = .omitted ↔
    spec.mergeClass = .clientSide ∧
      ∃ v e, spec.epochValue params = some v ∧ spec.validate base64 v = .error e := by
  unfold FieldSpec.sourced FieldSpec.source
  cases hepoch : spec.epochValue params with
  | some v =>
    cases hvalid : spec.validate base64 v with
    | ok u => simp [Except.toOption, hvalid]
    | error e => cases hclass : spec.mergeClass <;> simp [Except.toOption, hvalid]
  | none =>
    by_cases hraw : (spec.confRaw conf).isSome = true
    · simp [hraw, Except.toOption]
    · cases hdefault : spec.default defaults with
      | none => simp [hraw, Except.toOption]
      | some v =>
        cases hvalid : spec.validate base64 v <;> simp [hraw, Except.toOption, hvalid]

/-- Without an epoch value the line stays, and a row without a line gets its default. -/
theorem source_eq_of_epoch_none (hepoch : spec.epochValue params = none) :
    spec.source base64 conf params defaults =
      .ok (if (spec.confRaw conf).isSome then .kept
      else ((spec.default defaults).filter fun v => spec.validate base64 v = .ok ()).elim .kept
        .written) := by
  unfold FieldSpec.source
  by_cases hraw : (spec.confRaw conf).isSome = true
  · simp [hepoch, hraw]
  · cases hdefault : spec.default defaults with
    | none => simp [hepoch, hraw]
    | some v =>
      cases hvalid : spec.validate base64 v <;> simp [hepoch, hraw, hvalid, Option.filter]

theorem sourced_of_epoch_none (hepoch : spec.epochValue params = none) :
    spec.sourced base64 conf params defaults =
      if (spec.confRaw conf).isSome then .kept
      else ((spec.default defaults).filter fun v => spec.validate base64 v = .ok ()).elim .kept
        .written := by
  rw [FieldSpec.sourced, source_eq_of_epoch_none hepoch]
  rfl

/-- A row without an epoch value is not refused. -/
theorem source_of_epoch_none (hepoch : spec.epochValue params = none) :
    spec.source base64 conf params defaults = .ok (spec.sourced base64 conf params defaults) := by
  rw [sourced_of_epoch_none hepoch, source_eq_of_epoch_none hepoch]

end Sourced

/-- What a round makes of the resolution, by the source of its row. -/
def Resolution.take (r : Resolution) (conf : Str) (spec : FieldSpec) : Sourced → Resolution
  | .written v =>
    (if (spec.confRaw conf).isSome then
      { r with replaces := r.replaces ++ [(spec, spec.render v)] }
    else { r with inserts := r.inserts ++ [(spec, spec.render v)] }).setEffective spec.field v
  | .omitted =>
    { r with dropped := r.dropped ++ [spec.field] }.keepConf spec.field (spec.confValue conf)
  | .kept => r.keepConf spec.field (spec.confValue conf)

/-- The rows `done` have been taken from their sources. -/
structure Resolution.Takes (r : Resolution) (src : FieldSpec → Sourced) (conf : Str)
    (done : List FieldSpec) : Prop where
  effective : ∀ spec ∈ done, r.effective spec.field = (src spec).value conf spec
  replaces : r.replaces = (done.filter fun spec => (spec.confRaw conf).isSome).filterMap fun spec =>
    (src spec).entry spec
  inserts : r.inserts = (done.filter fun spec => (spec.confRaw conf).isNone).filterMap fun spec =>
    (src spec).entry spec
  unset : ∀ f, (∀ spec ∈ done, spec.field ≠ f) → r.effective f = none

section Pass

variable {base64 : Base64} {conf : Str} {params : Option AwgParams} {defaults : ClientDefaults}
  {src : FieldSpec → Sourced} {done : List FieldSpec} {r r' : Resolution} {spec : FieldSpec}

theorem resolve_eq_take (r : Resolution) (spec : FieldSpec) :
    resolve base64 conf params defaults r spec =
      (spec.source base64 conf params defaults).map (r.take conf spec) := by
  unfold resolve FieldSpec.source
  cases hepoch : spec.epochValue params with
  | some v =>
    cases hvalid : spec.validate base64 v with
    | ok u => simp only [hvalid, Except.map, Resolution.take]
    | error e => cases hclass : spec.mergeClass <;> simp only [hvalid, Except.map, Resolution.take]
  | none =>
    by_cases hraw : (spec.confRaw conf).isSome = true
    · simp only [if_pos hraw, Except.map, Resolution.take]
    · have hvalue : spec.confValue conf = none := by
        simp [FieldSpec.confValue, Option.not_isSome_iff_eq_none.mp hraw]
      simp only [if_neg hraw]
      cases hdefault : spec.default defaults with
      | none => simp [Except.map, Resolution.take, Resolution.keepConf, hvalue]
      | some v =>
        cases hvalid : spec.validate base64 v with
        | ok u => simp [Except.map, Resolution.take, hraw, hvalid]
        | error e => simp [Except.map, Resolution.take, Resolution.keepConf, hvalue, hvalid]

/-- The first pass succeeds if and only if every row has a source. -/
theorem foldlM_resolve_ok_iff {specs : List FieldSpec} :
    specs.foldlM (resolve base64 conf params defaults) r = .ok r' ↔
      (∀ spec ∈ specs, spec.source base64 conf params defaults =
        .ok (spec.sourced base64 conf params defaults)) ∧
      r' = specs.foldl
        (fun r spec => r.take conf spec (spec.sourced base64 conf params defaults)) r := by
  induction specs generalizing r with
  | nil => simp [pure, Except.pure, eq_comm]
  | cons spec specs ih =>
    rw [List.foldlM_cons, resolve_eq_take, List.forall_mem_cons, List.foldl_cons, and_assoc]
    cases hsource : spec.source base64 conf params defaults with
    | error e => simp [Except.map, bind, Except.bind]
    | ok s =>
      have hsourced : spec.sourced base64 conf params defaults = s := by
        simp [FieldSpec.sourced, hsource, Except.toOption]
      rw [hsourced, eq_self, true_and, ← ih]
      rfl

@[simp]
theorem Resolution.keepConf_frame (r : Resolution) (f : Field) (v : Option FieldValue) :
    (r.keepConf f v).dropped = r.dropped ∧ (r.keepConf f v).replaces = r.replaces ∧
      (r.keepConf f v).inserts = r.inserts := by
  cases v <;> exact ⟨rfl, rfl, rfl⟩

theorem Resolution.take_dropped (r : Resolution) (spec : FieldSpec) (s : Sourced) :
    (r.take conf spec s).dropped = r.dropped ++ if s = .omitted then [spec.field] else [] := by
  cases s with
  | written v =>
    simp only [Resolution.take, Resolution.setEffective]
    split <;> simp
  | omitted => simp [Resolution.take]
  | kept => simp [Resolution.take]

theorem Resolution.take_replaces (r : Resolution) (spec : FieldSpec) (s : Sourced) :
    (r.take conf spec s).replaces =
      r.replaces ++ if (spec.confRaw conf).isSome then (s.entry spec).toList else [] := by
  cases s with
  | written v =>
    simp only [Resolution.take, Resolution.setEffective]
    split <;> simp [Sourced.entry]
  | omitted => simp [Resolution.take, Sourced.entry]
  | kept => simp [Resolution.take, Sourced.entry]

theorem Resolution.take_inserts (r : Resolution) (spec : FieldSpec) (s : Sourced) :
    (r.take conf spec s).inserts =
      r.inserts ++ if (spec.confRaw conf).isNone then (s.entry spec).toList else [] := by
  cases s with
  | written v =>
    simp only [Resolution.take, Resolution.setEffective]
    cases spec.confRaw conf <;> simp [Sourced.entry]
  | omitted => simp [Resolution.take, Sourced.entry]
  | kept => simp [Resolution.take, Sourced.entry]

theorem Resolution.keepConf_effective_of_ne (r : Resolution) {f g : Field} (hne : g ≠ f)
    (v : Option FieldValue) : (r.keepConf f v).effective g = r.effective g := by
  cases v with
  | none => rfl
  | some v => exact Function.update_of_ne hne _ _

theorem Resolution.keepConf_effective_self {f : Field} (h : r.effective f = none)
    (v : Option FieldValue) : (r.keepConf f v).effective f = v := by
  cases v with
  | none => exact h
  | some v => exact Function.update_self ..

theorem Resolution.take_effective_of_ne (r : Resolution) {f : Field} (hne : f ≠ spec.field)
    (s : Sourced) : (r.take conf spec s).effective f = r.effective f := by
  cases s with
  | written v =>
    simp only [Resolution.take, Resolution.setEffective, Function.update_of_ne hne]
    split <;> rfl
  | omitted => exact Resolution.keepConf_effective_of_ne _ hne _
  | kept => exact Resolution.keepConf_effective_of_ne _ hne _

theorem Resolution.take_effective_self (h : r.effective spec.field = none) (s : Sourced) :
    (r.take conf spec s).effective spec.field = s.value conf spec := by
  cases s with
  | written v => exact Function.update_self ..
  | omitted =>
    have hunset : { r with dropped := r.dropped ++ [spec.field] }.effective spec.field = none := h
    exact Resolution.keepConf_effective_self hunset _
  | kept => exact Resolution.keepConf_effective_self h _

theorem Resolution.Takes.congr (h : r.Takes src conf done) {src' : FieldSpec → Sourced}
    (hsame : ∀ spec ∈ done, src' spec = src spec) : r.Takes src' conf done := by
  refine ⟨fun spec hspec => ?_, ?_, ?_, h.unset⟩
  · rw [h.effective spec hspec, hsame spec hspec]
  · rw [h.replaces]
    refine List.filterMap_congr fun spec hspec => ?_
    rw [hsame spec (List.mem_filter.mp hspec).1]
  · rw [h.inserts]
    refine List.filterMap_congr fun spec hspec => ?_
    rw [hsame spec (List.mem_filter.mp hspec).1]

theorem Resolution.Takes.empty : Resolution.empty.Takes src conf [] :=
  ⟨by simp, rfl, rfl, fun _ _ => rfl⟩

theorem Resolution.Takes.take (h : r.Takes src conf done)
    (hnew : ∀ s ∈ done, s.field ≠ spec.field) :
    (r.take conf spec (src spec)).Takes src conf (done ++ [spec]) where
  effective := by
    intro s hs
    rcases List.mem_append.mp hs with hs | hs
    · rw [Resolution.take_effective_of_ne r (hnew s hs), h.effective s hs]
    · obtain rfl := List.mem_singleton.mp hs
      exact Resolution.take_effective_self (h.unset _ hnew) _
  replaces := by
    rw [Resolution.take_replaces, h.replaces, List.filter_append, List.filterMap_append]
    cases hraw : (spec.confRaw conf).isSome <;> simp [hraw, List.filterMap_cons]
    cases (src spec).entry spec <;> rfl
  inserts := by
    rw [Resolution.take_inserts, h.inserts, List.filter_append, List.filterMap_append]
    cases hraw : (spec.confRaw conf).isNone <;> simp [hraw, List.filterMap_cons]
    cases (src spec).entry spec <;> rfl
  unset := by
    intro f hf
    have hne : f ≠ spec.field := (hf spec (by simp)).symm
    rw [Resolution.take_effective_of_ne r hne]
    exact h.unset f fun s hs => hf s (by simp [hs])

theorem Resolution.Takes.foldl_take (h : r.Takes src conf done) (specs : List FieldSpec)
    (hnodup : ((done ++ specs).map FieldSpec.field).Nodup) :
    (specs.foldl (fun r spec => r.take conf spec (src spec)) r).Takes src conf (done ++ specs) := by
  induction specs generalizing done r with
  | nil => simpa using h
  | cons spec specs ih =>
    simpa using ih (h.take (field_ne_of_nodup hnodup)) (by simpa using hnodup)

theorem foldl_take_dropped (specs : List FieldSpec) (r : Resolution) :
    (specs.foldl (fun r spec => r.take conf spec (src spec)) r).dropped =
      r.dropped ++ (specs.filter (src · = .omitted)).map FieldSpec.field := by
  induction specs generalizing r with
  | nil => simp
  | cons spec specs ih =>
    rw [List.foldl_cons, ih, Resolution.take_dropped, List.append_assoc, List.filter_cons]
    by_cases homitted : src spec = .omitted <;> simp [homitted]

end Pass

/-! ## The junk bounds -/

/-- The junk bounds, if they are inverted. -/
def junkInversion (effective : Field → Option FieldValue) : Option (Int64 × Int64) :=
  (junkPair effective).filter fun bounds => bounds.2 < bounds.1

/-- Whether the payload has a value for the field. -/
def carries (params : Option AwgParams) (f : Field) : Bool :=
  (fieldSpecs.find? (·.field = f)).any fun spec => (spec.epochValue params).isSome

/-- Both bounds fall back to the conf as far as they are epoch values. -/
def giveUpJunk (conf : Str) (params : Option AwgParams) (r : Resolution) : Resolution :=
  [Field.jmin, .jmax].foldl (dropEpochMember conf params) r

/-- The sources after that. -/
def giveUp (params : Option AwgParams) (src : FieldSpec → Sourced) (f : Field) (spec : FieldSpec) :
    Sourced :=
  if spec.field = f ∧ (spec.epochValue params).isSome then .kept else src spec

section Junk

variable {conf : Str} {params : Option AwgParams} {src : FieldSpec → Sourced} {r r' : Resolution}

theorem carries_eq {spec : FieldSpec} (h : spec ∈ fieldSpecs) :
    carries params spec.field = (spec.epochValue params).isSome := by
  rw [carries, find?_field h]
  rfl

theorem softenJunk_eq (r : Resolution) : softenJunk conf params r =
    if (junkInversion r.effective).isSome then
      (junkInversion (giveUpJunk conf params r).effective).elim (.ok (giveUpJunk conf params r))
        fun bounds => .error (.junkInverted bounds.1 bounds.2)
    else .ok r := by
  unfold softenJunk junkInversion
  rw [← giveUpJunk]
  cases hpair : junkPair r.effective with
  | none => simp
  | some bounds =>
    by_cases hinverted : bounds.2 < bounds.1
    · cases hpair' : junkPair (giveUpJunk conf params r).effective with
      | none => simp [hinverted, hpair']
      | some bounds' =>
        by_cases hinverted' : bounds'.2 < bounds'.1 <;>
          simp [hinverted, hinverted', hpair', Option.filter]
    · simp [hinverted]

theorem dropEpochMember_dropped (r : Resolution) (f : Field) :
    (dropEpochMember conf params r f).dropped =
      r.dropped ++ if carries params f then [f] else [] := by
  unfold dropEpochMember carries
  cases fieldSpecs.find? (·.field = f) with
  | none => simp
  | some spec =>
    by_cases hepoch : (spec.epochValue params).isSome = true <;> simp [hepoch]

theorem entry_giveUp {spec : FieldSpec} {f : Field}
    (hepoch : spec.field = f → (spec.epochValue params).isSome = true) :
    (giveUp params src f spec).entry spec =
      ((src spec).entry spec).filter fun e => e.1.field ≠ f := by
  by_cases hfield : spec.field = f
  · rw [giveUp, if_pos ⟨hfield, hepoch hfield⟩]
    cases src spec <;> simp [Sourced.entry, hfield, Option.filter]
  · rw [giveUp, if_neg fun h => hfield h.1]
    cases src spec <;> simp [Sourced.entry, hfield, Option.filter]

theorem Resolution.Takes.dropEpochMember (h : r.Takes src conf fieldSpecs)
    (params : Option AwgParams) (f : Field) :
    (dropEpochMember conf params r f).Takes (giveUp params src f) conf fieldSpecs := by
  unfold Awg.dropEpochMember
  obtain ⟨spec, hspec, rfl⟩ := exists_spec f
  simp only [find?_field hspec]
  by_cases hepoch : (spec.epochValue params).isSome = true
  · rw [if_pos hepoch]
    have hcarried :
        ∀ s ∈ fieldSpecs, s.field = spec.field → (s.epochValue params).isSome = true := by
      intro s hs heq
      rw [fieldSpecs_eq_of_field hs hspec heq, hepoch]
    refine ⟨?_, ?_, ?_, ?_⟩
    · intro s hs
      by_cases heq : s.field = spec.field
      · obtain rfl := fieldSpecs_eq_of_field hs hspec heq
        simp [giveUp, hepoch, Sourced.value]
      · simp only [Function.update_of_ne heq, giveUp, heq, false_and, if_false]
        exact h.effective s hs
    · rw [h.replaces, List.filter_filterMap]
      refine List.filterMap_congr fun s hs => (entry_giveUp ?_).symm
      exact hcarried s (List.mem_filter.mp hs).1
    · rw [h.inserts, List.filter_filterMap]
      refine List.filterMap_congr fun s hs => (entry_giveUp ?_).symm
      exact hcarried s (List.mem_filter.mp hs).1
    · intro f hf
      rw [← h.unset f hf]
      exact Function.update_of_ne (hf spec hspec).symm _ _
  · rw [if_neg hepoch]
    refine h.congr fun s hs => if_neg ?_
    rintro ⟨heq, hsome⟩
    rw [fieldSpecs_eq_of_field hs hspec heq] at hsome
    exact hepoch hsome

end Junk

/-! ## The merge by its sources -/

section Merge

variable (src : FieldSpec → Sourced) (conf : Str)

def effectiveOf (f : Field) : Option FieldValue :=
  (fieldSpecs.find? (·.field = f)).bind fun spec => (src spec).value conf spec

/-- The resolution that the sources make. -/
def Resolution.ofSources (dropped : List Field) : Resolution where
  effective := effectiveOf src conf
  replaces := (fieldSpecs.filter fun spec => (spec.confRaw conf).isSome).filterMap fun spec =>
    (src spec).entry spec
  inserts := (fieldSpecs.filter fun spec => (spec.confRaw conf).isNone).filterMap fun spec =>
    (src spec).entry spec
  dropped

end Merge

section Merge

variable (base64 : Base64) (conf : Str) (params : Option AwgParams) (defaults : ClientDefaults)

/-- Whether the first pass leaves the junk bounds inverted. -/
def resolvesInverted : Bool :=
  (junkInversion (effectiveOf (·.sourced base64 conf params defaults) conf)).isSome

/-- The sources that the lines are written from. -/
def FieldSpec.settled (spec : FieldSpec) : Sourced :=
  if resolvesInverted base64 conf params defaults then
    giveUp params (giveUp params (·.sourced base64 conf params defaults) .jmin) .jmax spec
  else spec.sourced base64 conf params defaults

/-- The fields omitted by their validators, then the junk bounds that were given up. -/
def droppedFields : List Field :=
  (fieldSpecs.filter (·.sourced base64 conf params defaults = .omitted)).map FieldSpec.field ++
    if resolvesInverted base64 conf params defaults then
      [Field.jmin, .jmax].filter (carries params)
    else []

end Merge

section Merge

variable {base64 : Base64} {conf out : Str} {params : Option AwgParams} {defaults : ClientDefaults}
  {src : FieldSpec → Sourced} {r r' : Resolution} {dropped : List Field}

theorem effectiveOf_field {spec : FieldSpec} (h : spec ∈ fieldSpecs) :
    effectiveOf src conf spec.field = (src spec).value conf spec := by
  rw [effectiveOf, find?_field h]
  rfl

@[simp]
theorem Resolution.ofSources_effective (dropped : List Field) :
    (Resolution.ofSources src conf dropped).effective = effectiveOf src conf :=
  rfl

theorem Resolution.Takes.eq_ofSources (h : r.Takes src conf fieldSpecs) :
    r = .ofSources src conf r.dropped := by
  have heffective : r.effective = effectiveOf src conf := by
    funext f
    obtain ⟨spec, hspec, rfl⟩ := exists_spec f
    rw [h.effective spec hspec, effectiveOf_field hspec]
  cases r
  simp only [Resolution.ofSources, Resolution.mk.injEq, and_true]
  exact ⟨heffective, h.replaces, h.inserts⟩

theorem takes_ofSources (src : FieldSpec → Sourced) (conf : Str) (dropped : List Field) :
    (Resolution.ofSources src conf dropped).Takes src conf fieldSpecs := by
  refine ⟨fun spec hspec => effectiveOf_field hspec, rfl, rfl, fun f hf => ?_⟩
  obtain ⟨spec, hspec, rfl⟩ := exists_spec f
  exact absurd rfl (hf spec hspec)

/-- The first pass. -/
theorem firstPass_ok_iff :
    fieldSpecs.foldlM (resolve base64 conf params defaults) Resolution.empty = .ok r ↔
      (∀ spec ∈ fieldSpecs, spec.source base64 conf params defaults =
        .ok (spec.sourced base64 conf params defaults)) ∧
      r = .ofSources (·.sourced base64 conf params defaults) conf
        ((fieldSpecs.filter (·.sourced base64 conf params defaults = .omitted)).map
          FieldSpec.field) := by
  rw [foldlM_resolve_ok_iff]
  refine and_congr_right fun _ => ?_
  have htakes : Resolution.empty.Takes (·.sourced base64 conf params defaults) conf [] := .empty
  have heq := (htakes.foldl_take fieldSpecs fieldSpecs_field_nodup).eq_ofSources
  rw [foldl_take_dropped] at heq
  rw [heq]
  rfl

theorem giveUpJunk_ofSources (dropped : List Field) :
    giveUpJunk conf params (.ofSources src conf dropped) =
      .ofSources (giveUp params (giveUp params src .jmin) .jmax) conf
        (dropped ++ [Field.jmin, .jmax].filter (carries params)) := by
  have htakes := (takes_ofSources src conf dropped).dropEpochMember params .jmin
  have heq := (htakes.dropEpochMember params .jmax).eq_ofSources
  rw [giveUpJunk, List.foldl_cons, List.foldl_cons, List.foldl_nil, heq, dropEpochMember_dropped,
    dropEpochMember_dropped]
  cases hmin : carries params .jmin <;> cases hmax : carries params .jmax <;>
    simp [hmin, hmax, Resolution.ofSources]

/-- The fallback of the junk bounds, by the sources. -/
theorem softenJunk_ofSources (base64 : Base64) (conf : Str) (params : Option AwgParams)
    (defaults : ClientDefaults) :
    softenJunk conf params (.ofSources (·.sourced base64 conf params defaults) conf
      ((fieldSpecs.filter (·.sourced base64 conf params defaults = .omitted)).map
        FieldSpec.field)) =
      (junkInversion (effectiveOf (·.settled base64 conf params defaults) conf)).elim
        (.ok (.ofSources (·.settled base64 conf params defaults) conf
          (droppedFields base64 conf params defaults)))
        fun bounds => .error (.junkInverted bounds.1 bounds.2) := by
  have hsettled : (fun spec : FieldSpec => spec.settled base64 conf params defaults) =
      if resolvesInverted base64 conf params defaults then
        giveUp params (giveUp params (·.sourced base64 conf params defaults) .jmin) .jmax
      else (·.sourced base64 conf params defaults) := by
    funext spec
    unfold FieldSpec.settled
    split <;> rfl
  rw [softenJunk_eq, giveUpJunk_ofSources, hsettled, droppedFields]
  by_cases hinverted : resolvesInverted base64 conf params defaults = true
  · have hfirst := hinverted
    rw [resolvesInverted] at hfirst
    simp only [Resolution.ofSources_effective, hfirst, hinverted, if_true]
  · have hfirst :
        junkInversion (effectiveOf (·.sourced base64 conf params defaults) conf) = none := by
      simpa [resolvesInverted] using hinverted
    simp [hinverted, hfirst]

/-- The merge up to the splicing. -/
def settle (base64 : Base64) (conf : Str) (params : Option AwgParams)
    (defaults : ClientDefaults) : Except Rejection Resolution := do
  let r ← fieldSpecs.foldlM (resolve base64 conf params defaults) Resolution.empty
  checkPreconditions base64 r.effective
  softenJunk conf params r

theorem merge_eq_settle : mergeObfuscationParamsReporting base64 conf params defaults =
    settle base64 conf params defaults >>= fun r => (splice conf r).map (·, r.dropped) := by
  unfold mergeObfuscationParamsReporting settle
  simp only [bind_assoc]
  rfl

theorem sound_of_settle (h : settle base64 conf params defaults = .ok r) :
    Sound base64 conf fieldSpecs r := by
  unfold settle at h
  obtain ⟨r₀, hpass, h⟩ := exists_of_bind_ok h
  obtain ⟨_, -, hsoften⟩ := exists_of_bind_ok h
  exact sound_of_passes hpass hsoften

/-- The lines are settled if every row has a source, the preconditions hold and no inverted pair of
junk bounds is left. -/
theorem settle_eq_ok_iff : settle base64 conf params defaults = .ok r ↔
    (∀ spec ∈ fieldSpecs, spec.source base64 conf params defaults =
      .ok (spec.sourced base64 conf params defaults)) ∧
    checkPreconditions base64 (effectiveOf (·.sourced base64 conf params defaults) conf) = .ok () ∧
    junkInversion (effectiveOf (·.settled base64 conf params defaults) conf) = none ∧
    r = .ofSources (·.settled base64 conf params defaults) conf
      (droppedFields base64 conf params defaults) := by
  simp only [settle, bind_eq_ok_iff, firstPass_ok_iff]
  constructor
  · rintro ⟨_, ⟨hsource, rfl⟩, _, hcheck, hsoften⟩
    rw [softenJunk_ofSources] at hsoften
    cases hinversion : junkInversion (effectiveOf (·.settled base64 conf params defaults) conf) with
    | some bounds =>
      rw [hinversion] at hsoften
      cases hsoften
    | none =>
      rw [hinversion] at hsoften
      exact ⟨hsource, hcheck, rfl, (Except.ok.inj hsoften).symm⟩
  · rintro ⟨hsource, hcheck, hinversion, rfl⟩
    exact ⟨_, ⟨hsource, rfl⟩, (), hcheck, by rw [softenJunk_ofSources, hinversion]; rfl⟩

/-- A merge succeeds if the lines are settled and can be placed. -/
theorem merge_ok_iff :
    mergeObfuscationParamsReporting base64 conf params defaults = .ok (out, dropped) ↔
      (∀ spec ∈ fieldSpecs, spec.source base64 conf params defaults =
        .ok (spec.sourced base64 conf params defaults)) ∧
      checkPreconditions base64 (effectiveOf (·.sourced base64 conf params defaults) conf) =
        .ok () ∧
      junkInversion (effectiveOf (·.settled base64 conf params defaults) conf) = none ∧
      splice conf (.ofSources (·.settled base64 conf params defaults) conf dropped) = .ok out ∧
      dropped = droppedFields base64 conf params defaults := by
  have hmap (r : Resolution) : (splice conf r).map (·, r.dropped) = .ok (out, dropped) ↔
      splice conf r = .ok out ∧ dropped = r.dropped := by
    cases splice conf r <;> simp [Except.map, eq_comm]
  simp only [merge_eq_settle, bind_eq_ok_iff, settle_eq_ok_iff, hmap]
  constructor
  · rintro ⟨_, ⟨hsource, hcheck, hinversion, rfl⟩, hsplice, rfl⟩
    exact ⟨hsource, hcheck, hinversion, hsplice, rfl⟩
  · rintro ⟨hsource, hcheck, hinversion, hsplice, rfl⟩
    exact ⟨_, ⟨hsource, hcheck, hinversion, rfl⟩, hsplice, rfl⟩

theorem mem_ofSources {e : FieldSpec × Str} :
    e ∈ (Resolution.ofSources src conf dropped).replaces ++
        (Resolution.ofSources src conf dropped).inserts ↔
      e.1 ∈ fieldSpecs ∧ ∃ v, src e.1 = .written v ∧ e.2 = e.1.render v := by
  have hentry : ∀ spec : FieldSpec, (src spec).entry spec = some e ↔
      spec = e.1 ∧ ∃ v, src e.1 = .written v ∧ e.2 = e.1.render v := by
    intro spec
    cases hsrc : src spec with
    | written v =>
      simp only [Sourced.entry, Option.some.injEq]
      constructor
      · rintro rfl
        exact ⟨rfl, v, hsrc, rfl⟩
      · rintro ⟨rfl, w, hw, hline⟩
        obtain rfl : v = w := by simpa [hsrc] using hw
        exact Prod.ext rfl hline.symm
    | omitted => grind [Sourced.entry]
    | kept => grind [Sourced.entry]
  simp only [Resolution.ofSources, List.mem_append, List.mem_filterMap, List.mem_filter, hentry]
  constructor
  · rintro (⟨spec, ⟨hspec, -⟩, rfl, hwritten⟩ | ⟨spec, ⟨hspec, -⟩, rfl, hwritten⟩)
    · exact ⟨hspec, hwritten⟩
    · exact ⟨hspec, hwritten⟩
  · rintro ⟨hspec, hwritten⟩
    cases hraw : e.1.confRaw conf with
    | some raw => exact .inl ⟨e.1, ⟨hspec, by simp [hraw]⟩, rfl, hwritten⟩
    | none => exact .inr ⟨e.1, ⟨hspec, by simp [hraw]⟩, rfl, hwritten⟩

/-- What a successful merge splices. -/
theorem merge_settled
    (h : mergeObfuscationParamsReporting base64 conf params defaults = .ok (out, dropped)) :
    Sound base64 conf fieldSpecs (.ofSources (·.settled base64 conf params defaults) conf dropped) ∧
      splice conf (.ofSources (·.settled base64 conf params defaults) conf dropped) = .ok out := by
  obtain ⟨hsource, hcheck, hinversion, hsplice, rfl⟩ := merge_ok_iff.mp h
  exact ⟨sound_of_settle (settle_eq_ok_iff.mpr ⟨hsource, hcheck, hinversion, rfl⟩), hsplice⟩

end Merge

end PartnerEdge.Awg
