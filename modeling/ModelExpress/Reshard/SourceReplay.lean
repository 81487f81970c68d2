/-
  ModelExpress reshard planner — ordered source replay (`transfer_plan.py`).

  Every copy has a staging buffer of its own: `planLocalReplay` reads the part of the source
  that a prefix of the op chain makes, and the rest of the chain is replayed from there.  What
  a chain does to a tensor without storage is the parameter `Replay`; `supported` and `stops`
  say whether a replay may contain an operation and whether it ends the prefixes.
-/
import Mathlib.Data.List.MinMax
import Mathlib.Data.Prod.Lex
import ModelExpress.Lib.Assoc
import ModelExpress.Lib.Batching
import ModelExpress.Reshard.TransferPlan

namespace ModelExpress.Reshard

open Checks Buckets Batching

/-! ## Records -/

/-- The name of the staging buffer of a recorded copy. -/
structure ReplayKey where
  srcName : String
  paramName : String
  index : ℕ
  deriving DecidableEq

/-- `FullPullSource` of a replay: the part of a source that one copy needs, read into the buffer
    `key`; `copies` is the copy with the rest of its chain.  All reads go to `key`. -/
structure ReplayPull (Op δ : Type) where
  key : ReplayKey
  globalShape : List ℕ
  dtype : δ
  elsize : ℕ
  segments : List LogicalRead
  copies : List (RecordedCopy Op δ)
  copyIndices : List ℕ
  exactDescriptorCount : ℕ
  exactBytes : ℕ

/-- `LogicalTransferPlan` of a replay. -/
structure ReplayPlan (Op δ : Type) where
  sourceBuffers : List SourceBuffer
  fullPulls : List (ReplayPull Op δ)
  fallback : List String
  verifyFullSources : Bool
  parameterNames : List String
  lastWrites : AList fun _ : String => ℕ
  totalCopies : ℕ
  generation : Option ℤ
  exactDescriptorCount : ℕ
  exactBytes : ℕ

/-- `CaptureResult` with ordered source replay; `destinationLayouts` has the shape and the stride of
    the owners that are not row-major. -/
structure ReplayCapture (Op δ : Type) where
  copies : List (RecordedCopy Op δ)
  unsupported : List String
  unattributed : ℕ
  generation : Option ℤ
  destinationLayouts : AList fun _ : String => List ℕ × List ℕ

section
variable {Op δ : Type} [DecidableEq δ] (replay : Replay Op) (supported stops : Op → Bool)
variable (sources : Sources δ) (sourceIndices : String → Option (List ℕ)) (maxSegmentsPerCopy : ℕ)
variable (maxStagingBytes : Option ℕ)

/-! ## One copy -/

/-- A prefix that can be read, with the number of its reads and of their bytes. -/
structure Candidate (Op δ : Type) where
  length : ℕ
  copy : RecordedCopy Op δ
  count : ℕ
  nbytes : ℕ

variable (copy : RecordedCopy Op δ) (source : SourceInfo δ)

/-- The copy of what a prefix makes into a fresh contiguous buffer. -/
def prefixCopy (done : List Op) (shape : List ℕ) : RecordedCopy Op δ :=
  { copy with
    opChain := done
    destOffset := 0
    destShape := shape
    destStride := rowMajorStrides shape
    destDtype := source.dtype
    rank := length_rowMajorStrides shape }

/-- What the turn of the loop of `_plan_local_replay` for one prefix does. -/
inductive PrefixStep (Op δ : Type) where
  | candidate (c : Candidate Op δ)
  /-- the results of an operation that returns several: the loop goes on -/
  | skip
  | stop

/-- A prefix can be read if it makes a view of the source whose reads can be planned. -/
def prefixStep (done : List Op) : Except PlanError (PrefixStep Op δ) := do
  let value ← match done.getLast? with
    | none => pure (some (some source.globalShape))
    | some op =>
      if stops op then pure none
      else do
        match ← replay done source.globalShape with
        | .view v => pure (some (some v.shape))
        | .copied _ => pure none
        | .tuple => pure (some none)
  match value with
  | none => return .stop
  | some none => return .skip
  | some (some shape) =>
    let candidate := prefixCopy copy source done shape
    let metrics ← caught (pullMetrics replay candidate source.globalShape source.dtype source.elsize source.shards)
    return metrics.elim .stop fun m => .candidate ⟨done.length, candidate, m.1, m.2⟩

/-- The loop of `_plan_local_replay` over the prefixes of the chain. -/
def replayCandidates (copy : RecordedCopy Op δ) (source : SourceInfo δ) (done : List Op) :
    List Op → Except PlanError (List (Candidate Op δ))
  | [] => do
    match ← prefixStep replay stops copy source done with
    | .candidate c => return [c]
    | .skip | .stop => return []
  | op :: rest => do
    match ← prefixStep replay stops copy source done with
    | .candidate c => return c :: (← replayCandidates copy source (done ++ [op]) rest)
    | .skip => replayCandidates copy source (done ++ [op]) rest
    | .stop => return []

/-- The order in which a shorter prefix is chosen: the fewest reads over the bound, the fewest bytes,
    the longest prefix. -/
def Candidate.rank (c : Candidate Op δ) : ℕ ×ₗ ℕ ×ₗ ℕᵒᵈ :=
  toLex (c.count - maxSegmentsPerCopy, toLex (c.nbytes, OrderDual.toDual c.length))

/-- The prefix that is read: the exact one, or a shorter one if that needs too many reads. -/
def selectCandidate (candidates : List (Candidate Op δ)) (exact : Candidate Op δ) : Candidate Op δ :=
  if maxSegmentsPerCopy < exact.count then
    let eligible := candidates.filter fun c => c.count < exact.count ∧
      ∀ budget ∈ maxStagingBytes, align 256 (c.copy.destShape.prod * source.elsize) ≤ budget
    (eligible.argmin (Candidate.rank maxSegmentsPerCopy)).getD exact
  else exact

def planLocalReplay (index : ℕ) (bufferIndices : List ℕ) : Except PlanError (ReplayPull Op δ) := do
  ensure (copy.opChain.all supported) (.unsupported (.replayOperation copy.srcName))
  let candidates ← replayCandidates replay stops copy source [] copy.opChain
  let exact ← found candidates.getLast? (.unsupported (.noReplayPrefix copy.srcName))
  let selected := selectCandidate maxSegmentsPerCopy maxStagingBytes source candidates exact
  let segments ← planPull replay selected.copy source.globalShape source.dtype source.elsize source.shards
    bufferIndices
  return {
    key := ⟨copy.srcName, copy.paramName, index⟩
    globalShape := selected.copy.destShape
    dtype := source.dtype
    elsize := source.elsize
    segments
    copies := [{ copy with opChain := copy.opChain.drop selected.length }]
    copyIndices := [index]
    exactDescriptorCount := exact.count
    exactBytes := exact.nbytes }

/-! ## Plans -/

/-- The turn of the loop of `_plan_source_replay`: the pull of a copy, or `none` if its source is
    missing. -/
def planReplayCopy (verifyFullSources : Bool) (copy : RecordedCopy Op δ) (index : ℕ) :
    Except PlanError (Option (ReplayPull Op δ)) :=
  match sources.lookup copy.srcName with
  | none => .ok none
  | some source => do
    let bufferIndices ← found (sourceIndices copy.srcName) (.key copy.srcName)
    let pull ← planLocalReplay replay supported stops maxSegmentsPerCopy maxStagingBytes copy source index
      bufferIndices
    ensure (verifyFullSources → ∀ c ∈ pull.copies.head?, c.opChain.length = copy.opChain.length)
      (.unsupported (.replayDigest copy.srcName))
    return some pull

def planSourceReplay (capture : ReplayCapture Op δ) (sourceBuffers : List SourceBuffer)
    (verifyFullSources : Bool) : Except PlanError (ReplayPlan Op δ) := do
  ensure (1 ≤ maxSegmentsPerCopy) (.value "max_segments_per_copy must be at least 1")
  let pulls ← capture.copies.zipIdx.mapM fun c =>
    planReplayCopy replay supported stops sources sourceIndices maxSegmentsPerCopy maxStagingBytes
      verifyFullSources c.1 c.2
  let missing := (capture.copies.map RecordedCopy.srcName).filter (· ∉ sources)
  let fullPulls := pulls.reduceOption
  return {
    sourceBuffers
    fullPulls
    fallback := missing.foldl mark (distinct capture.unsupported)
    verifyFullSources
    parameterNames := distinct (capture.copies.map RecordedCopy.paramName)
    lastWrites := Assoc.extend ∅ (capture.copies.zipIdx.map fun c => ⟨c.1.paramName, c.2⟩)
    totalCopies := capture.copies.length
    generation := capture.generation
    exactDescriptorCount := (fullPulls.map (·.exactDescriptorCount)).sum
    exactBytes := (fullPulls.map (·.exactBytes)).sum }

/-- `plan_transfer` for a replay. -/
def planReplay (sourceSlots : Option (String → Option String)) (verifyFullSources : Bool)
    (capture : ReplayCapture Op δ) : Except PlanError (ReplayPlan Op δ) := do
  let table ← sourceTable sources sourceSlots ⟨capture.copies, capture.unsupported, capture.unattributed⟩
  planSourceReplay replay supported stops sources (table.indices.lookup ·) maxSegmentsPerCopy maxStagingBytes
    capture table.buffers verifyFullSources

end

end ModelExpress.Reshard
