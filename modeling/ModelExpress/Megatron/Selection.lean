/-
  ModelExpress Megatron trainer — which tensors a rank publishes, and how (`engines/megatron/selection.py`).
-/
import ModelExpress.Megatron.Aliases

namespace ModelExpress.Megatron

open Checks

/-- `hf_param`: a name or names by key; `text` is its `str`. -/
structure HfParam where
  text : String
  entries : List (String × String)
  deriving DecidableEq

structure Mapping where
  /-- the names of its class and its base classes -/
  classes : List String
  isExpert : Bool
  hfParam : HfParam
  /-- an `AutoMapping` permutes dimensions -/
  permutesDims : Bool
  /-- what an `AutoMapping` detects -/
  detected : String
  deriving DecidableEq

def Mapping.inherits (mapping : Mapping) (className : String) : Bool := mapping.classes.contains className

structure TransformerConfig where
  numAttentionHeads : ℕ
  numQueryGroups : ℕ
  kvChannels : ℕ
  deriving DecidableEq

/-- `WeightConversionTask`; `paramWeight` is `none` when the rank does not hold the tensor. -/
structure ConversionTask where
  globalParamName : String
  mapping : Mapping
  paramWeight : Option Tensor
  deriving DecidableEq

def Mapping.columnRole (mapping : Mapping) : Role := if mapping.isExpert then .expertColumn else .column

/-- A row-parallel bias is not cut. -/
def Mapping.rowRole (mapping : Mapping) (ndim : ℕ) : Role :=
  if ndim ≤ 1 then .replicated else if mapping.isExpert then .expertRow else .row

def roleForMapping (mapping : Mapping) (ndim : ℕ) : Publishing Role := do
  if mapping.inherits "QKVMapping" then
    ensure (mapping.isExpert = false) .expertQkv
    ensure (ndim = 1 ∨ ndim = 2) .qkvRank
    return .qkvColumn
  else if mapping.inherits "GatedMLPMapping" then return if mapping.isExpert then .expertColumn else .gatedMlpColumn
  else if mapping.inherits "ColumnParallelMapping" then return mapping.columnRole
  else if mapping.inherits "RowParallelMapping" then return mapping.rowRole ndim
  else if mapping.inherits "ReplicatedMapping" ∨ mapping.inherits "DirectMapping" then return .replicated
  else if mapping.classes.head? = some "AutoMapping" then
    ensure (mapping.permutesDims = false) .permutedDims
    if mapping.detected = "column" then return mapping.columnRole
    else if mapping.detected = "row" then return mapping.rowRole ndim
    else if mapping.detected = "replicated" then return .replicated
    else .error (.unknownParallelism mapping.detected)
  else .error .unsupportedMapping

variable (config : TransformerConfig)

def qkvDescriptorExtras (tensorParallelSize globalRows : ℕ) : Publishing Extras := do
  let numHeads := config.numAttentionHeads
  let numKvHeads := config.numQueryGroups
  let headDim := config.kvChannels
  ensure (0 < tensorParallelSize ∧ 0 < numHeads ∧ 0 < numKvHeads ∧ 0 < headDim ∧ numKvHeads ∣ numHeads) (.headGeometry "")
  ensure (globalRows = (numHeads + 2 * numKvHeads) * headDim) (.rowsDisagree "")
  let extras := [("qkv_interleave", "by_head"), ("head_dim", Text.decimal headDim), ("num_heads", Text.decimal numHeads),
    ("num_kv_heads", Text.decimal numKvHeads)]
  if tensorParallelSize ∣ numHeads ∧ tensorParallelSize ∣ numKvHeads then
    return extras ++ [("num_heads_local", Text.decimal (numHeads / tensorParallelSize)),
      ("num_kv_heads_local", Text.decimal (numKvHeads / tensorParallelSize))]
  else return extras

/-- The sizes of the groups and the place of a rank in them. -/
structure Parallel where
  tensorParallelSize : ℕ
  tensorParallelRank : ℕ
  expertTensorParallelSize : ℕ
  expertTensorParallelRank : ℕ
  deriving DecidableEq

variable (p : Parallel)

def Parallel.size (mapping : Mapping) : ℕ :=
  if mapping.isExpert then p.expertTensorParallelSize else p.tensorParallelSize

def Parallel.rank (mapping : Mapping) : ℕ :=
  if mapping.isExpert then p.expertTensorParallelRank else p.tensorParallelRank

/-- The HF names of a task, the metadata and the axis along which its tensor is cut. -/
def taskLayout (mapping : Mapping) (role : Role) (tensor : Tensor) :
    Publishing (List String × Extras × Option ℕ) := do
  let key := fun key => found (mapping.hfParam.entries.lookup key) (.missingHfParam key)
  match role with
  | .qkvColumn =>
    let hfNames ← ["q", "k", "v"].mapM key
    let rows ← found tensor.shape[0]? (.noSuchAxis "")
    let extras ← qkvDescriptorExtras config p.tensorParallelSize (rows * p.tensorParallelSize)
    return (hfNames, extras, some 0)
  | .gatedMlpColumn | .expertColumn =>
    if mapping.inherits "GatedMLPMapping" then
      let hfNames ← ["gate", "up"].mapM key
      return (hfNames, [("gated_mlp_order", gateThenUp)], some 0)
    else return ([mapping.hfParam.text], [], some 0)
  | .column => return ([mapping.hfParam.text], [], some 0)
  | .row | .expertRow => return ([mapping.hfParam.text], [], some 1)
  | .replicated => return ([mapping.hfParam.text], [], none)

/-- The specification of one task; `none` when the rank has nothing to publish for it. -/
def taskSpec (task : ConversionTask) : Publishing (Option TensorSpec) :=
  match task.paramWeight with
  | none => return none
  | some tensor => do
    let role ← roleForMapping task.mapping tensor.shape.length
    let (hfNames, extras, shardAxis) ← taskLayout config p task.mapping role tensor
    let spec ← match shardAxis with
      | none =>
        if p.rank task.mapping ≠ 0 then return none
        else pure { name := task.globalParamName, tensor, role, hfNames, globalShape := tensor.shape,
                    placementKind := .replicate, shardAxis := none, localShardRange := none, extras }
      | some axis => do
        let localExtent ← found tensor.shape[axis]? (.noSuchAxis task.globalParamName)
        let rank := p.rank task.mapping
        pure { name := task.globalParamName, tensor, role, hfNames,
               globalShape := tensor.shape.set axis (localExtent * p.size task.mapping), placementKind := .shard,
               shardAxis := some axis, localShardRange := some (rank * localExtent, (rank + 1) * localExtent), extras }
    spec.check
    return some spec

def buildMegatronTensorSpecs (tasks : List ConversionTask) : Publishing (List TensorSpec) := do
  ensure (p.tensorParallelRank < p.tensorParallelSize) .invalidRank
  ensure (p.expertTensorParallelRank < p.expertTensorParallelSize) .invalidRank
  let specs := (← tasks.mapM (taskSpec config p)).filterMap id
  ensure (specs ≠ []) .noTensors
  return specs

def publish (tasks : List ConversionTask) (agentName : String) : Publishing (List PublishedTensor) := do
  buildHfAliases (← buildMegatronTensorSpecs config p tasks) agentName

end ModelExpress.Megatron
