/-
  ModelExpress Megatron trainer — HF names for Megatron's own storage
  (`engines/megatron/aliases.py`).

  A rank publishes its native tensors without copying them: each HF tensor is given as shards,
  a shard being an address in a native tensor and the box of the HF tensor whose elements lie
  there in row-major order.

  The digests of the shards, which play no part in where they lie, are left out.
-/
import ModelExpress.Lib.Checks
import ModelExpress.Lib.Strided
import ModelExpress.Lib.Text

namespace ModelExpress.Megatron

open Checks Strided

/-! ## Tensors -/

structure Tensor where
  dtype : String
  elsize : ℕ
  shape : List ℕ
  strides : List ℕ
  dataPtr : ℕ
  device : ℕ
  deriving DecidableEq

def Tensor.isContiguous (t : Tensor) : Bool := decide (0 ∈ t.shape) || contiguous t.shape t.strides

def Tensor.narrow (t : Tensor) (axis start length : ℕ) : Tensor :=
  { t with shape := t.shape.set axis length, dataPtr := t.dataPtr + start * t.strides.getD axis 0 * t.elsize }

structure PublishedShard where
  agentName : String
  deviceId : ℕ
  addr : ℕ
  shardOffset : List ℕ
  shape : List ℕ
  deriving DecidableEq

structure PublishedTensor where
  name : String
  dtype : String
  elsize : ℕ
  fullShape : List ℕ
  shards : List PublishedShard
  deriving DecidableEq

def PublishedShard.box (shard : PublishedShard) : Box := boxAt shard.shardOffset shard.shape

/-! ## Specifications -/

inductive Role where
  | qkvColumn
  | gatedMlpColumn
  | expertColumn
  | column
  | expertRow
  | row
  | replicated
  deriving DecidableEq

inductive Placement where
  | shard
  | replicate
  deriving DecidableEq

abbrev Extras := List (String × String)

/-- `MegatronTensorSpec`: a native tensor and how it is to be read. -/
structure TensorSpec where
  name : String
  tensor : Tensor
  role : Role
  hfNames : List String
  globalShape : List ℕ
  placementKind : Placement
  shardAxis : Option ℕ
  localShardRange : Option (ℕ × ℕ)
  extras : Extras
  deriving DecidableEq

inductive PublicationError where
  -- specifications
  | namesRequired
  | hfNamesNotUnique (name : String)
  | invalidGlobalShape (name : String)
  | shardLayoutRequired (name : String)
  | replicateWithLayout (name : String)
  -- shards
  | noSuchAxis (name : String)
  | noLocalRange (name : String)
  | rangeOutside (name : String)
  | inconsistentGeometry (name : String)
  | nonUniformShard (name : String)
  | rangeMismatch (name : String)
  | replicatedShapeMismatch (name : String)
  | hfNameCount (name : String)
  | notContiguous (name : String)
  -- fused gate and up
  | gatedOrder (name : String)
  | oddExtent (name : String)
  | shapeDisagrees (name : String)
  -- fused QKV
  | qkvDimensions (name : String)
  | globalHeadsIncomplete (name : String)
  | missingExtra (name key : String)
  | notANumber (name key : String)
  | notInterleavedByHead (name : String)
  | headGeometry (name : String)
  | rowsDisagree (name : String)
  | trailingMismatch (name : String)
  | rowInterval (name : String)
  | mappedRows (name : String)
  -- selection
  | expertQkv
  | qkvRank
  | unsupportedMapping
  | permutedDims
  | unknownParallelism (detected : String)
  | missingHfParam (key : String)
  | invalidRank
  | noTensors
  deriving DecidableEq

abbrev Publishing := Except PublicationError

variable (item : TensorSpec)

def TensorSpec.check : Publishing Unit := do
  ensure (item.name ≠ "" ∧ item.hfNames ≠ []) .namesRequired
  ensure item.hfNames.Nodup (.hfNamesNotUnique item.name)
  ensure (item.globalShape ≠ [] ∧ 0 ∉ item.globalShape) (.invalidGlobalShape item.name)
  ensure (item.placementKind = .shard → item.shardAxis.isSome ∧ item.localShardRange.isSome) (.shardLayoutRequired item.name)
  ensure (item.placementKind = .replicate → item.shardAxis = none ∧ item.localShardRange = none)
    (.replicateWithLayout item.name)

/-! ## One shard -/

def sourceRankAndSize (axis : ℕ) : Publishing (ℕ × ℕ) := do
  let localExtent ← found item.tensor.shape[axis]? (.noSuchAxis item.name)
  let globalExtent ← found item.globalShape[axis]? (.noSuchAxis item.name)
  if item.placementKind = .replicate then return (0, 1)
  let (lo, hi) ← found item.localShardRange (.noLocalRange item.name)
  ensure (lo < hi ∧ hi ≤ globalExtent) (.rangeOutside item.name)
  ensure (hi - lo = localExtent ∧ localExtent ∣ globalExtent) (.inconsistentGeometry item.name)
  ensure (localExtent ∣ lo) (.nonUniformShard item.name)
  return (lo / localExtent, globalExtent / localExtent)

/-- `_one_shard`; a shard that is not replicated has an axis and a range. -/
def oneShard (name agentName : String) (tensor : Tensor) (fullShape : List ℕ) (shard : Option (ℕ × Option (ℕ × ℕ))) :
    Publishing PublishedTensor := do
  let offset ← match shard with
    | some (axis, range) => do
      let (lo, hi) ← found range (.noLocalRange name)
      let extent ← found tensor.shape[axis]? (.noSuchAxis name)
      ensure (lo + extent = hi) (.rangeMismatch name)
      pure (unitAt tensor.shape.length axis lo)
    | none => do
      ensure (tensor.shape = fullShape) (.replicatedShapeMismatch name)
      pure (List.replicate tensor.shape.length 0)
  return { name, dtype := tensor.dtype, elsize := tensor.elsize, fullShape,
           shards := [⟨agentName, tensor.device, tensor.dataPtr, offset, tensor.shape⟩] }

/-! ## Fused gate and up projections -/

def gateThenUp : String := "gate_then_up"

variable (agentName : String)

def buildGatedAliases : Publishing (List PublishedTensor) := do
  ensure (item.hfNames.length = 2) (.hfNameCount item.name)
  ensure (item.extras.lookup "gated_mlp_order" = some gateThenUp) (.gatedOrder item.name)
  let axis := item.shardAxis.getD 0
  let localExtent ← found item.tensor.shape[axis]? (.noSuchAxis item.name)
  ensure (2 ∣ localExtent) (.oddExtent item.name)
  let half := localExtent / 2
  let gate := item.tensor.narrow axis 0 half
  let up := item.tensor.narrow axis half half
  ensure (gate.isContiguous ∧ up.isContiguous) (.notContiguous item.name)
  let (sourceRank, sourceSize) ← sourceRankAndSize item axis
  let fullShape := item.tensor.shape.set axis (half * sourceSize)
  let globalExtent ← found item.globalShape[axis]? (.noSuchAxis item.name)
  ensure (2 ∣ globalExtent) (.oddExtent item.name)
  ensure (item.globalShape.set axis (globalExtent / 2) = fullShape) (.shapeDisagrees item.name)
  let shard := if 1 < sourceSize then some (axis, some (sourceRank * half, (sourceRank + 1) * half)) else none
  (item.hfNames.zip [gate, up]).mapM fun (hfName, tensor) => oneShard hfName agentName tensor fullShape shard

/-! ## Fused QKV -/

/-- `_qkv_source_interval`: the rows of the global tensor that this rank holds. -/
def qkvSourceInterval : Publishing (ℕ × ℕ) := do
  let localRows ← found item.tensor.shape[0]? (.noSuchAxis item.name)
  let globalRows ← found item.globalShape[0]? (.noSuchAxis item.name)
  match item.placementKind with
  | .replicate =>
    ensure (localRows = globalRows) (.replicatedShapeMismatch item.name)
    return (0, globalRows)
  | .shard =>
    ensure (item.shardAxis = some 0) (.rowInterval item.name)
    let (lo, hi) ← found item.localShardRange (.rowInterval item.name)
    ensure (lo < hi ∧ hi ≤ globalRows ∧ hi - lo = localRows) (.rowInterval item.name)
    return (lo, hi)

inductive Projection where
  | q
  | k
  | v
  deriving DecidableEq

/-- `_QkvBand`: rows of the fused tensor that belong to one projection, and where they begin in it. -/
structure QkvBand where
  projection : Projection
  start : ℕ
  rows : ℕ
  destinationStart : ℕ
  deriving DecidableEq

/-- `_QkvLayout`: per KV group its query rows, its K head and its V head. -/
structure QkvLayout where
  headDim : ℕ
  qHeads : ℕ
  kvHeads : ℕ
  deriving DecidableEq

variable (layout : QkvLayout)

def QkvLayout.qRowsPerGroup : ℕ := layout.qHeads / layout.kvHeads * layout.headDim

def QkvLayout.groupRows : ℕ := layout.qRowsPerGroup + 2 * layout.headDim

def QkvLayout.totalRows : ℕ := layout.kvHeads * layout.groupRows

def QkvLayout.bandRows : Projection → ℕ
  | .q => layout.qRowsPerGroup
  | .k | .v => layout.headDim

def QkvLayout.bandStart : Projection → ℕ
  | .q => 0
  | .k => layout.qRowsPerGroup
  | .v => layout.qRowsPerGroup + layout.headDim

def QkvLayout.destinationRows : Projection → ℕ
  | .q => layout.qHeads * layout.headDim
  | .k | .v => layout.kvHeads * layout.headDim

def QkvLayout.band (group : ℕ) (projection : Projection) : QkvBand where
  projection := projection
  start := group * layout.groupRows + layout.bandStart projection
  rows := layout.bandRows projection
  destinationStart := group * layout.bandRows projection

/-- `bands`: every run of one projection, in the order of the rows. -/
def QkvLayout.bands : List QkvBand :=
  (List.range layout.kvHeads).flatMap fun group => [Projection.q, .k, .v].map (layout.band group)

def TensorSpec.number (key : String) : Publishing ℕ := do
  let text ← found (item.extras.lookup key) (.missingExtra item.name key)
  found (Text.toNumber text) (.notANumber item.name key)

def readQkvLayout : Publishing QkvLayout := do
  ensure (item.extras.lookup "qkv_interleave" = some "by_head") (.notInterleavedByHead item.name)
  let headDim ← item.number "head_dim"
  let qHeads ← item.number "num_heads"
  let kvHeads ← item.number "num_kv_heads"
  ensure (0 < headDim ∧ 0 < qHeads ∧ 0 < kvHeads ∧ kvHeads ∣ qHeads) (.headGeometry item.name)
  return ⟨headDim, qHeads, kvHeads⟩

/-- The part of a band that lies in the rows from `lo` to `hi`. -/
def QkvBand.shard (band : QkvBand) (tensor : Tensor) (agentName : String) (lo hi : ℕ) : Option PublishedShard :=
  let overlapLo := max lo band.start
  let overlapHi := min hi (band.start + band.rows)
  if overlapLo < overlapHi then
    let part := tensor.narrow 0 (overlapLo - lo) (overlapHi - overlapLo)
    some ⟨agentName, part.device, part.dataPtr, unitAt tensor.shape.length 0 (band.destinationStart + (overlapLo - band.start)),
      part.shape⟩
  else none

/-- The HF tensor of a projection, unless this rank has none of its rows. -/
def projectionTensor (name : String) (tensor : Tensor) (rows : ℕ) (shards : List PublishedShard) : Option PublishedTensor :=
  if shards = [] then none
  else some { name, dtype := tensor.dtype, elsize := tensor.elsize, fullShape := tensor.shape.set 0 rows, shards }

/-- `_build_global_qkv_aliases`: the rows of this rank, cut along the bands of the global layout. -/
def buildGlobalQkvAliases : Publishing (List PublishedTensor) := do
  let layout ← readQkvLayout item
  ensure (item.globalShape.tail = item.tensor.shape.tail) (.trailingMismatch item.name)
  ensure (item.globalShape.head? = some layout.totalRows) (.rowsDisagree item.name)
  let (lo, hi) ← qkvSourceInterval item
  let shards := fun projection => (layout.bands.filter (·.projection = projection)).filterMap
    (·.shard item.tensor agentName lo hi)
  let mappedRows := (layout.bands.map fun band => min hi (band.start + band.rows) - max lo band.start).sum
  ensure (item.tensor.shape.head? = some mappedRows) (.mappedRows item.name)
  return (item.hfNames.zip [Projection.q, .k, .v]).filterMap fun (name, projection) =>
    projectionTensor name item.tensor (layout.destinationRows projection) (shards projection)

/-- `_build_legacy_qkv_aliases`: the groups of this rank, when they are whole. -/
def buildLegacyQkvAliases : Publishing (List PublishedTensor) := do
  let headDim ← item.number "head_dim"
  let qHeadsLocal ← item.number "num_heads_local"
  let kvHeadsLocal ← item.number "num_kv_heads_local"
  ensure (0 < kvHeadsLocal ∧ kvHeadsLocal ∣ qHeadsLocal) (.headGeometry item.name)
  let layout : QkvLayout := ⟨headDim, qHeadsLocal, kvHeadsLocal⟩
  ensure (item.tensor.shape.head? = some (layout.groupRows * kvHeadsLocal)) (.rowsDisagree item.name)
  let (sourceRank, sourceSize) ← sourceRankAndSize item 0
  let shards := fun projection => (List.range kvHeadsLocal).map fun localGroup =>
    let group := item.tensor.narrow 0 (localGroup * layout.groupRows) layout.groupRows
    let part := group.narrow 0 (layout.bandStart projection) (layout.bandRows projection)
    let globalGroup := sourceRank * kvHeadsLocal + localGroup
    (⟨agentName, part.device, part.dataPtr, unitAt item.tensor.shape.length 0 (globalGroup * layout.bandRows projection),
      part.shape⟩ : PublishedShard)
  return (item.hfNames.zip [Projection.q, .k, .v]).map fun (name, projection) =>
    { name, dtype := item.tensor.dtype, elsize := item.tensor.elsize,
      fullShape := item.tensor.shape.set 0 (layout.destinationRows projection * sourceSize), shards := shards projection }

def buildQkvAliases : Publishing (List PublishedTensor) := do
  ensure (item.hfNames.length = 3 ∧ (item.tensor.shape.length = 1 ∨ item.tensor.shape.length = 2)) (.qkvDimensions item.name)
  let hasGlobalQ := (item.extras.lookup "num_heads").isSome
  ensure (hasGlobalQ = (item.extras.lookup "num_kv_heads").isSome) (.globalHeadsIncomplete item.name)
  if hasGlobalQ then buildGlobalQkvAliases item agentName else buildLegacyQkvAliases item agentName

/-! ## All tensors of a rank -/

def itemAliases (item : TensorSpec) : Publishing (List PublishedTensor) := do
  ensure item.tensor.isContiguous (.notContiguous item.name)
  if item.role = .qkvColumn then buildQkvAliases item agentName
  else if (item.role = .gatedMlpColumn ∨ item.role = .expertColumn) ∧ item.hfNames.length = 2 then
    buildGatedAliases item agentName
  else match item.hfNames with
    | [hfName] => do
      let shard := match item.placementKind, item.shardAxis with
        | .shard, some axis => some (axis, item.localShardRange)
        | _, _ => none
      return [← oneShard hfName agentName item.tensor item.globalShape shard]
    | _ => .error (.hfNameCount item.name)

def buildHfAliases (items : List TensorSpec) (agentName : String) : Publishing (List PublishedTensor) := do
  return (← items.mapM (itemAliases agentName)).flatten

end ModelExpress.Megatron
