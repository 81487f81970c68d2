/-
  ModelExpress reshard planner — slices of published tensors (`types.py`, `slice_plan.py`).

  `planPull` turns a recorded copy and the published shards of its source into byte runs to
  read.
  What PyTorch does with a chain is a parameter, `Replay`.  A shard's address and digest,
  which the planner does not read, are left out.
-/
import Mathlib.Data.List.ReduceOption
import ModelExpress.Lib.Checks
import ModelExpress.Lib.Strided

namespace ModelExpress.Reshard

open Checks Strided

/-! ## Errors -/

/-- Why `UnsupportedReshard` is raised, with what the message reports. -/
inductive UnsupportedReshard where
  | notATensor
  | notAView
  | rankIncrease (view source : ℕ)
  | nonPermutationStride (stride : ℕ)
  | notAPermutation
  | exceedsSource
  | offsetNotABoxStart
  | destShape (paramName : String) (dest view : List ℕ)
  | dtype (paramName : String)
  | scalarFullPull (srcName : String)
  | shardRank (srcName : String)
  | notDimZero (srcName : String) (offset shape : List ℕ)
  | gapOrOverlap (srcName : String) (nextRow start : ℕ)
  | missingRows (srcName : String) (rows total : ℕ)
  | replayOperation (srcName : String)
  | noReplayPrefix (srcName : String)
  | replayDigest (srcName : String)
  | ownerLayout
  | destinationGeometry
  | overlappingOwner
  | exceedsOwner
  | ownerHoles
  deriving DecidableEq

/-- The exceptions of the planner.  Only `UnsupportedReshard` is ever caught. -/
inductive PlanError where
  | unsupported (reason : UnsupportedReshard)
  | value (message : String)
  | zeroDivision
  | index
  | key (name : String)
  | torch
  deriving DecidableEq

/-! ## Records -/

/-- A strided view of a tensor, in elements. -/
structure View where
  offset : ℕ
  shape : List ℕ
  stride : List ℕ
  rank : stride.length = shape.length
  deriving DecidableEq

/-- What replaying an op chain on a `meta` tensor ends in. -/
inductive Replayed where
  | view (v : View)
  /-- a tensor with a storage of its own -/
  | copied (shape : List ℕ)
  /-- the results of an operation that returns several -/
  | tuple
  deriving DecidableEq

/-- Replaying an op chain on a tensor of the given shape. -/
abbrev Replay (Op : Type) := List Op → List ℕ → Except PlanError Replayed

/-- `RecordedCopy`: read `srcName` sliced by `opChain` and write it into `paramName` at the
    view of it with the given offset, shape and stride.  The shape and the stride were
    read off one tensor. -/
structure RecordedCopy (Op δ : Type) where
  srcName : String
  opChain : List Op
  paramName : String
  destOffset : ℕ
  destShape : List ℕ
  destStride : List ℕ
  destDtype : δ
  rank : destStride.length = destShape.length
  deriving DecidableEq

/-- `Shard`: a row-major buffer with the elements of the full tensor from `shardOffset` on. -/
structure Shard where
  shardOffset : List ℕ
  shape : List ℕ
  session : String
  elsize : ℕ
  deriving DecidableEq

/-- `LogicalRead`: a byte run of a source buffer and where it goes in a named destination. -/
structure LogicalRead where
  sourceBuffer : ℕ
  srcByte : ℕ
  paramName : String
  dstByte : ℕ
  nbytes : ℕ
  deriving DecidableEq

/-! ## Slice resolution -/

/-- `_row_major_strides`: from the right, each stride is the next one times the next extent. -/
def rowMajorStrides : List ℕ → List ℕ
  | [] => []
  | [_] => [1]
  | _ :: n :: shape => match rowMajorStrides (n :: shape) with
    | [] => []
    | s :: strides => s * n :: s :: strides

@[simp] theorem rowMajorStrides_eq : ∀ shape, rowMajorStrides shape = rowMajor shape
  | [] => rfl
  | [_] => rfl
  | m :: n :: shape => by
    rw [rowMajorStrides, rowMajorStrides_eq (n :: shape)]
    simp [rowMajor, Nat.mul_comm]

section
variable {Op δ : Type} (replay : Replay Op)

/-- `_replay_view`: the chain must resolve to a tensor that is a view of the source. -/
def replayView (opChain : List Op) (globalShape : List ℕ) : Except PlanError View := do
  match ← replay opChain globalShape with
  | .view v => return v
  | .copied _ => throw (.unsupported .notAView)
  | .tuple => throw (.unsupported .notATensor)

/-- Dimensions without a source dimension of their own take the remaining ones in order. -/
def assignRemaining : List (Option ℕ) → List ℕ → Except PlanError (List ℕ)
  | [], _ => .ok []
  | some s :: perm, remaining => do return s :: (← assignRemaining perm remaining)
  | none :: perm, s :: remaining => do return s :: (← assignRemaining perm remaining)
  | none :: _, [] => .error .index

/-- The source dimension whose stride a dimension of the view has, the outermost if there are
    several; the stride of a dimension of extent one says nothing. -/
def strideDim (gstrides : List ℕ) (n stride : ℕ) : Except PlanError (Option ℕ) :=
  if n = 1 then .ok none
  else match gstrides.idxOf? stride with
    | some sdim => .ok (some sdim)
    | none => .error (.unsupported (.nonPermutationStride stride))

/-- `_view_to_box_perm`: the box of source indices a strided view consists of, and the source
    dimension that each dimension of the view walks. -/
def viewToBoxPerm (v : View) (globalShape : List ℕ) : Except PlanError (Box × List ℕ) := do
  let ndim := globalShape.length
  ensure (v.shape.length ≤ ndim) (.unsupported (.rankIncrease v.shape.length ndim))
  let gstrides := rowMajorStrides globalShape
  let dims ← (v.shape.zip v.stride).mapM fun d => strideDim gstrides d.1 d.2
  let remaining := (List.range ndim).filter fun s => some s ∉ dims
  let perm ← assignRemaining dims remaining
  ensure perm.Nodup (.unsupported .notAPermutation)
  -- the divisions below are by the strides and the extents
  ensure (0 ∉ globalShape) .zeroDivision
  let boxLo := gstrides.zipWith (fun g n => v.offset / g % n) globalShape
  -- a dimension that the view does not walk keeps the extent one
  let box := boxAt boxLo (scatter (List.replicate ndim 1) perm v.shape)
  ensure (List.Forall₂ (fun b n => b.2 ≤ n) box globalShape) (.unsupported .exceedsSource)
  ensure (dot boxLo gstrides = v.offset) (.unsupported .offsetNotABoxStart)
  return (box, perm)

/-- `resolve_slice`: the needed box and the destination strides in the order of the source
    dimensions. -/
def resolveSlice (copy : RecordedCopy Op δ) (globalShape : List ℕ) : Except PlanError (Box × List ℕ) := do
  let v ← replayView replay copy.opChain globalShape
  let (box, perm) ← viewToBoxPerm v globalShape
  ensure (copy.destShape = v.shape) (.unsupported (.destShape copy.paramName copy.destShape v.shape))
  return (box, scatter (List.replicate globalShape.length 0) perm copy.destStride)

/-! ## Intersection and runs -/

/-- `intersect`: the overlap of two boxes, `none` as soon as a dimension has none. -/
def intersect : Box → Box → Except PlanError (Option Box)
  | [], [] => .ok (some [])
  | a :: as, b :: bs =>
    if min a.2 b.2 ≤ max a.1 b.1 then .ok none
    else do return (← intersect as bs).map ((max a.1 b.1, min a.2 b.2) :: ·)
  | _, _ => .error (.value "zip() arguments have different lengths")

/-- The loop of `_paired_run_shape`: the trailing dimensions from `p` on form one run of
    `runLen` elements, in the source and in the destination. -/
def mergeRuns (sizes srcStrides dstStrides : List ℕ) : ℕ → ℕ → ℕ × ℕ
  | 0, runLen => (0, runLen)
  | p + 1, runLen =>
    if srcStrides[p]? = some runLen ∧ dstStrides[p]? = some runLen then
      mergeRuns sizes srcStrides dstStrides p (runLen * sizes.getD p 0)
    else (p + 1, runLen)

/-- `_paired_run_shape`: the number of outer dimensions and the length of a run. -/
def pairedRunShape (overlap : Box) (srcStrides dstStrides : List ℕ) : ℕ × ℕ :=
  mergeRuns (sizes overlap) srcStrides dstStrides overlap.length 1

/-- A run of `len` elements, from the offset `src` in the source and `dst` in the destination. -/
structure ElementRun where
  src : ℕ
  dst : ℕ
  len : ℕ
  deriving DecidableEq

def pairedRuns (overlap : Box) (srcOrigin srcStrides dstOrigin dstStrides : List ℕ) : List ElementRun :=
  let shape := pairedRunShape overlap srcStrides dstStrides
  let srcBase := dot ((corner overlap).zipWith (· - ·) srcOrigin) srcStrides
  let dstBase := dot ((corner overlap).zipWith (· - ·) dstOrigin) dstStrides
  if shape.1 = 0 then [⟨srcBase, dstBase, shape.2⟩]
  else (indices ((sizes overlap).take shape.1)).map fun idx =>
    ⟨srcBase + dot idx srcStrides, dstBase + dot idx dstStrides, shape.2⟩

/-! ## Pulls -/

/-- The box of a shard; its offset and its shape must have one rank. -/
def Shard.box (sh : Shard) : Box := boxAt sh.shardOffset sh.shape

/-- What `_pull_regions` yields: the overlap of one shard with what is needed. -/
structure Region where
  shardIndex : ℕ
  shard : Shard
  overlap : Box
  needOrigin : List ℕ
  destStrides : List ℕ

variable [DecidableEq δ]

/-- The turn of the loop of `_pull_regions` for one shard. -/
def pullRegion (needed : Box) (destStrides : List ℕ) (sh : Shard) (shardIndex : ℕ) :
    Except PlanError (Option Region) := do
  ensure (sh.shardOffset.length = sh.shape.length) (.value "zip() arguments have different lengths")
  let overlap ← intersect needed sh.box
  return overlap.map fun o => ⟨shardIndex, sh, o, corner needed, destStrides⟩

def pullRegions (copy : RecordedCopy Op δ) (globalShape : List ℕ) (srcDtype : δ) (shards : List Shard) :
    Except PlanError (List Region) := do
  ensure (srcDtype = copy.destDtype) (.unsupported (.dtype copy.paramName))
  let (needed, destStrides) ← resolveSlice replay copy globalShape
  let regions ← shards.zipIdx.mapM fun sh => pullRegion needed destStrides sh.1 sh.2
  return regions.reduceOption

def Region.reads (r : Region) (copy : RecordedCopy Op δ) (elsize : ℕ) (bufferIndices : List ℕ) :
    List LogicalRead :=
  (pairedRuns r.overlap r.shard.shardOffset (rowMajorStrides r.shard.shape) r.needOrigin
    r.destStrides).map fun run =>
      { sourceBuffer := bufferIndices.getD r.shardIndex 0
        srcByte := run.src * r.shard.elsize
        paramName := copy.paramName
        dstByte := (copy.destOffset + run.dst) * elsize
        nbytes := run.len * elsize }

/-- `plan_pull`: the reads of exactly the needed slice. -/
def planPull (copy : RecordedCopy Op δ) (globalShape : List ℕ) (srcDtype : δ) (elsize : ℕ)
    (shards : List Shard) (bufferIndices : List ℕ) : Except PlanError (List LogicalRead) := do
  ensure (bufferIndices.length = shards.length)
    (.value "source buffer indices must match source shards")
  let regions ← pullRegions replay copy globalShape srcDtype shards
  return regions.flatMap fun r => r.reads copy elsize bufferIndices

/-- `pull_metrics`: the number of the reads and of their bytes. -/
def pullMetrics (copy : RecordedCopy Op δ) (globalShape : List ℕ) (srcDtype : δ) (elsize : ℕ)
    (shards : List Shard) : Except PlanError (ℕ × ℕ) := do
  let regions ← pullRegions replay copy globalShape srcDtype shards
  let runs := regions.map fun r =>
    let shape := pairedRunShape r.overlap (rowMajorStrides r.shard.shape) r.destStrides
    (((sizes r.overlap).take shape.1).prod, shape.2)
  return ((runs.map Prod.fst).sum, (runs.map fun r => r.1 * r.2 * elsize).sum)

end

end ModelExpress.Reshard
