import PartnerEdge.Svc.BitReader

/-!
# The AV1 Dependency Descriptor parser

`parseDependencyDescriptor` and the functions it calls, with machine widths explicit: `asU8` and
`asU16` are the source's truncating casts, `addOrReject` its `checked_add(..)?`, and the plain
`u32` operators of the source are the checked ones that fault. A `None` of the source is `reject`.
-/

namespace PartnerEdge.Svc

open Parsing BitReader

/-- One entry of the template dependency structure. -/
structure FrameDependencyTemplate where
  temporalId : Nat
  spatialId : Nat
  dtis : List Nat
  fdiffs : List Nat
  chainFdiffs : List Nat
deriving DecidableEq, Repr

/-- The structure a key frame attaches, against which template-only descriptors are resolved. -/
structure TemplateDependencyStructure where
  templateIdOffset : Nat
  templateCount : Nat
  dtCnt : Nat
  chainCnt : Nat
  maxTemporalId : Nat
  maxSpatialId : Nat
  templates : List FrameDependencyTemplate
deriving DecidableEq, Repr

structure DependencyDescriptor where
  startOfFrame : Bool
  endOfFrame : Bool
  frameDependencyTemplateId : Nat
  frameNumber : Nat
  temporalId : Option Nat
  spatialId : Option Nat
  attached : Option TemplateDependencyStructure
deriving DecidableEq, Repr

def asU8 (n : Nat) : Nat := n % 2 ^ 8

def asU16 (n : Nat) : Nat := n % 2 ^ 16

/-! ## Template layers -/

/-- The layer the walk of `parse_template_layers` stands on, with the largest temporal id so far. -/
structure LayerCursor where
  spatialId : Nat
  temporalId : Nat
  maxTemporalId : Nat
deriving DecidableEq, Repr

/-- The `next_layer_idc` match of `parse_template_layers`, without the terminating arm. -/
def nextLayer (idc : Nat) (c : LayerCursor) : Parser BitReader LayerCursor :=
  match idc with
  | 0 => pure c
  | 1 => do
    let temporalId ← addOrReject 8 c.temporalId 1
    let maxTemporalId := if temporalId > c.maxTemporalId then temporalId else c.maxTemporalId
    return { c with temporalId, maxTemporalId }
  | 2 => do
    let spatialId ← addOrReject 8 c.spatialId 1
    return { c with spatialId, temporalId := 0 }
  | _ => crash .unreachable

/-- The loop of `parse_template_layers`; it returns the `(spatial_id, temporal_id)` pairs and the
two maxima. -/
def templateLayersLoop :
    Nat → List (Nat × Nat) → LayerCursor → Parser BitReader (List (Nat × Nat) × Nat × Nat)
  | 0, _, _ => crash .outOfFuel
  | fuel + 1, templates, c => do
    let templates := templates ++ [(c.spatialId, c.temporalId)]
    let idc ← readBits 2
    if idc = 3 then
      return (templates, c.maxTemporalId, c.spatialId)
    else
      let c ← nextLayer idc c
      if templates.length ≥ 64 then reject else templateLayersLoop fuel templates c

def parseTemplateLayers : Parser BitReader (List (Nat × Nat) × Nat × Nat) :=
  templateLayersLoop 64 [] ⟨0, 0, 0⟩

/-! ## Template blocks -/

/-- A template with its layer known and its three blocks still to be read. -/
def FrameDependencyTemplate.ofLayer (layer : Nat × Nat) : FrameDependencyTemplate where
  temporalId := layer.2
  spatialId := layer.1
  dtis := []
  fdiffs := []
  chainFdiffs := []

/-- The `while follows` loop of `parse_template_fdiffs`. -/
def templateFdiffsLoop : Nat → List Nat → Bool → Parser BitReader (List Nat)
  | 0, _, _ => crash .outOfFuel
  | _ + 1, fdiffs, false => pure fdiffs
  | fuel + 1, fdiffs, true => do
    let fdiffMinusOne ← readBits 4
    let fdiff ← addOrReject 8 (asU8 fdiffMinusOne) 1
    let fdiffs := fdiffs ++ [fdiff]
    let follows ← readBool
    if fdiffs.length ≥ 8 then reject else templateFdiffsLoop fuel fdiffs follows

def parseTemplateFdiffs : Parser BitReader (List Nat) := do
  let follows ← readBool
  templateFdiffsLoop 8 [] follows

def readU8 (n : Nat) : Parser BitReader Nat := do
  let v ← readBits n
  return asU8 v

/-- `template_dtis()`: two bits for every template and decode target. -/
def parseTemplateDtis (dtCnt : Nat) (templates : List FrameDependencyTemplate) :
    Parser BitReader (List FrameDependencyTemplate) :=
  forEach templates fun tpl => do
    let dtis ← times dtCnt (readU8 2)
    return { tpl with dtis := tpl.dtis ++ dtis }

/-- `template_fdiffs()` for every template, after all the decode target indications. -/
def parseAllTemplateFdiffs (templates : List FrameDependencyTemplate) :
    Parser BitReader (List FrameDependencyTemplate) :=
  forEach templates fun tpl => do
    let fdiffs ← parseTemplateFdiffs
    return { tpl with fdiffs := fdiffs }

/-- The part of `template_chains()` that is present when there is a chain. -/
def parseTemplateChains (dtCnt chainCnt : Nat) (templates : List FrameDependencyTemplate) :
    Parser BitReader (List FrameDependencyTemplate) :=
  if chainCnt > 0 then do
    let _protectedBy ← times dtCnt (readNs chainCnt)
    forEach templates fun tpl => do
      let chainFdiffs ← times chainCnt (readU8 4)
      return { tpl with chainFdiffs := chainFdiffs }
  else
    pure templates

def parseRenderResolution : Parser BitReader (Nat × Nat) := do
  let width ← readBits 16
  let height ← readBits 16
  return (width, height)

def parseResolutions (maxSpatialId : Nat) : Parser BitReader Unit := do
  let resolutionsPresent ← readBool
  let _resolutions ← optionally resolutionsPresent (times (maxSpatialId + 1) parseRenderResolution)
  return ()

def parseTemplateDependencyStructure : Parser BitReader TemplateDependencyStructure := do
  let templateIdOffset ← readU8 6
  let dtCntMinusOne ← readU8 5
  let dtCnt ← addOrReject 8 dtCntMinusOne 1
  if dtCnt ≥ 32 then reject else
    let (layers, maxTemporalId, maxSpatialId) ← parseTemplateLayers
    let templateCount := asU8 layers.length
    if templateCount = 0 then reject else
      let templates ← parseTemplateDtis dtCnt (layers.map .ofLayer)
      let templates ← parseAllTemplateFdiffs templates
      let chainCntBits ← readNs (dtCnt + 1)
      let chainCnt := asU8 chainCntBits
      let templates ← parseTemplateChains dtCnt chainCnt templates
      parseResolutions maxSpatialId
      return { templateIdOffset, templateCount, dtCnt, chainCnt, maxTemporalId, maxSpatialId,
               templates }

/-! ## The descriptor -/

/-- What the extended fields leave for the rest of the parse. -/
structure ExtendedFields where
  attached : Option TemplateDependencyStructure
  customDtisFlag : Bool
  customFdiffsFlag : Bool
  customChainsFlag : Bool
deriving DecidableEq, Repr

/-- The attached structure and the active decode targets bitmask. The bitmask is computed and
dropped, as in the source. -/
def parseAttached (present activePresent : Bool) (prior : Option TemplateDependencyStructure) :
    Parser BitReader (Option TemplateDependencyStructure) :=
  if present then do
    let parsed ← parseTemplateDependencyStructure
    let top ← checkedShl 32 1 parsed.dtCnt
    let _allActive ← checkedSub top 1
    let _bitmask ← optionally activePresent (readBits parsed.dtCnt)
    return some parsed
  else if activePresent then
    match prior with
    | none => reject
    | some s => do
      let _bitmask ← readBits s.dtCnt
      return none
  else
    return none

def parseExtendedFields (prior : Option TemplateDependencyStructure) :
    Parser BitReader ExtendedFields := do
  let present ← readBool
  let activePresent ← readBool
  let customDtisFlag ← readBool
  let customFdiffsFlag ← readBool
  let customChainsFlag ← readBool
  let attached ← parseAttached present activePresent prior
  return { attached, customDtisFlag, customFdiffsFlag, customChainsFlag }

/-- `extended_descriptor_fields()` when the descriptor is longer than three bytes, else
`no_extended_descriptor_fields()`. -/
def parseExtension (sz : Nat) (prior : Option TemplateDependencyStructure) :
    Parser BitReader ExtendedFields :=
  if sz > 3 then parseExtendedFields prior
  else pure { attached := none, customDtisFlag := false, customFdiffsFlag := false,
              customChainsFlag := false }

/-- The temporal and spatial id of the frame's template in the structure in force. -/
def resolveTemplate (templateId : Nat) (s : TemplateDependencyStructure) :
    Parser BitReader (Nat × Nat) := do
  let shifted ← checkedSub (templateId + 64) s.templateIdOffset
  let templateIndex := shifted % 64
  if templateIndex ≥ s.templateCount then reject else
    let tpl ← index s.templates templateIndex
    return (tpl.temporalId, tpl.spatialId)

/-- The `frame_fdiffs()` loop, which runs until it reads a zero size. -/
def frameFdiffsLoop : Nat → Parser BitReader Unit
  | 0 => crash .outOfFuel
  | fuel + 1 => do
    let nextFdiffSize ← readBits 2
    if nextFdiffSize = 0 then
      return ()
    else
      let _fdiff ← readBits (4 * nextFdiffSize)
      frameFdiffsLoop fuel

/-- `frame_fdiffs()`. Every round consumes a bit, so the unread bits bound the rounds. -/
def frameFdiffs : Parser BitReader Unit := do
  let r ← get
  frameFdiffsLoop (r.remaining + 1)

/-- The per-frame overrides: consumed, so that a truncated descriptor is rejected, and dropped. -/
def parseOverrides (ext : ExtendedFields) (s : TemplateDependencyStructure) :
    Parser BitReader Unit := do
  let _dtis ← optionally ext.customDtisFlag (times s.dtCnt (readBits 2))
  let _fdiffs ← optionally ext.customFdiffsFlag frameFdiffs
  let _chains ← optionally ext.customChainsFlag (times s.chainCnt (readBits 8))
  return ()

def parseFrame (ext : ExtendedFields) (templateId : Nat)
    (prior : Option TemplateDependencyStructure) : Parser BitReader (Option (Nat × Nat)) :=
  match ext.attached.or prior with
  | some s => do
    let ids ← resolveTemplate templateId s
    parseOverrides ext s
    return some ids
  | none =>
    if ext.customDtisFlag || ext.customFdiffsFlag || ext.customChainsFlag then reject
    else return none

/-- The body of `parse_dependency_descriptor` once the length is known to be at least three. -/
def parseDescriptor (sz : Nat) (prior : Option TemplateDependencyStructure) :
    Parser BitReader DependencyDescriptor := do
  let startOfFrame ← readBool
  let endOfFrame ← readBool
  let templateIdBits ← readBits 6
  let frameNumberBits ← readBits 16
  let ext ← parseExtension sz prior
  let ids ← parseFrame ext (asU8 templateIdBits) prior
  return {
    startOfFrame, endOfFrame
    frameDependencyTemplateId := asU8 templateIdBits
    frameNumber := asU16 frameNumberBits
    temporalId := ids.map Prod.fst
    spatialId := ids.map Prod.snd
    attached := ext.attached }

def parseDependencyDescriptor (bytes : List UInt8) (prior : Option TemplateDependencyStructure) :
    Except Stop DependencyDescriptor :=
  if bytes.length < 3 then .error .reject
  else (parseDescriptor bytes.length prior (BitReader.new bytes)).map Prod.fst

end PartnerEdge.Svc
