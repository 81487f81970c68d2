/-
  ModelExpress reshard planner — transfer plans (`transfer_plan.py`) and the check that a plan
  is complete (`nixl_staged_transfer.py`).

  A source one of whose copies needs too many reads is pulled as a whole, if its shards are a
  gap-free partition along the first dimension (`fullPullSegments`); with `verifyFullSources`
  every source is, unless one of its copies is the whole tensor (`planVerified`).
-/
import Mathlib.Data.List.AList
import Mathlib.Data.List.Sort
import ModelExpress.Lib.Buckets
import ModelExpress.Reshard.SlicePlan

namespace ModelExpress.Reshard

open Checks Strided Buckets

/-! ## Records -/

/-- `SourceInfo`: a full source tensor and the shards published for it. -/
structure SourceInfo (δ : Type) where
  globalShape : List ℕ
  dtype : δ
  elsize : ℕ
  shards : List Shard

/-- The sources table, in order. -/
abbrev Sources (δ : Type) := AList fun _ : String => SourceInfo δ

/-- `SourceBuffer`: the identity of a published shard. -/
structure SourceBuffer where
  sourceSlotId : String
  srcName : String
  shardOffset : List ℕ
  shape : List ℕ
  deriving DecidableEq

/-- `ConvertSource`: reads into a conversion buffer of the served dtype, one per parameter. -/
structure ConvertSource (δ : Type) where
  paramName : String
  destShape : List ℕ
  srcDtype : δ
  segments : List LogicalRead

/-- `FullPullSource`: a source read as a whole into a buffer of its own, and the copies that are
    replayed from it. -/
structure FullPullSource (Op δ : Type) where
  srcName : String
  globalShape : List ℕ
  dtype : δ
  elsize : ℕ
  segments : List LogicalRead
  copies : List (RecordedCopy Op δ)

structure LogicalTransferPlan (Op δ : Type) where
  sourceBuffers : List SourceBuffer
  segments : List LogicalRead
  fallback : List String
  converts : List (ConvertSource δ)
  fullPulls : List (FullPullSource Op δ)
  unboundedSources : List String
  exactDescriptorCount : ℕ
  exactBytes : ℕ
  verifyFullSources : Bool

/-- `CaptureResult`, without ordered source replay. -/
structure CaptureResult (Op δ : Type) where
  copies : List (RecordedCopy Op δ)
  unsupported : List String
  unattributed : ℕ

def totalBytes (reads : List LogicalRead) : ℕ := (reads.map LogicalRead.nbytes).sum

/-- `except UnsupportedReshard`: the result, or `none` if it was raised. -/
def caught {α : Type} : Except PlanError α → Except PlanError (Option α)
  | .ok a => .ok (some a)
  | .error (.unsupported _) => .ok none
  | .error e => .error e

theorem length_rowMajorStrides (shape : List ℕ) : (rowMajorStrides shape).length = shape.length := by
  rw [rowMajorStrides_eq, length_rowMajor]

section
variable {Op δ : Type}

/-- The copy into a fresh contiguous buffer of the dtype of the source. -/
def RecordedCopy.staged (copy : RecordedCopy Op δ) (srcDtype : δ) : RecordedCopy Op δ :=
  { copy with
    destOffset := 0
    destStride := rowMajorStrides copy.destShape
    destDtype := srcDtype
    rank := length_rowMajorStrides copy.destShape }

/-- The copy of a whole source into a contiguous buffer of its name. -/
def identityCopy (name : String) (source : SourceInfo δ) : RecordedCopy Op δ where
  srcName := name
  opChain := []
  paramName := name
  destOffset := 0
  destShape := source.globalShape
  destStride := rowMajorStrides source.globalShape
  destDtype := source.dtype
  rank := length_rowMajorStrides source.globalShape

/-! ## Full pulls -/

/-- The loop of `_full_pull_segments` over the shards in the order of their first row. -/
def fullPullRows (srcName : String) (source : SourceInfo δ) :
    List (ℕ × Shard) → ℕ → Except PlanError (List LogicalRead)
  | [], nextRow => do
    ensure (nextRow = source.globalShape.headD 0)
      (.unsupported (.missingRows srcName nextRow (source.globalShape.headD 0)))
    return []
  | (bufferIndex, shard) :: ordered, nextRow => do
    ensure (shard.shape.length = source.globalShape.length ∧
        shard.shardOffset.length = source.globalShape.length)
      (.unsupported (.shardRank srcName))
    ensure (shard.shape.tail = source.globalShape.tail ∧ ∀ offset ∈ shard.shardOffset.tail, offset = 0)
      (.unsupported (.notDimZero srcName shard.shardOffset shard.shape))
    let start := shard.shardOffset.headD 0
    let rows := shard.shape.headD 0
    let trailing := source.globalShape.tail.prod
    ensure (start = nextRow) (.unsupported (.gapOrOverlap srcName nextRow start))
    let segments ← fullPullRows srcName source ordered (nextRow + rows)
    return ⟨bufferIndex, 0, srcName, start * trailing * source.elsize, rows * trailing * source.elsize⟩ ::
      segments

/-- `_full_pull_segments`: the reads of all shards of a gap-free partition along the first
    dimension. -/
def fullPullSegments (srcName : String) (source : SourceInfo δ) (bufferIndices : List ℕ) :
    Except PlanError (List LogicalRead) := do
  ensure (source.globalShape ≠ []) (.unsupported (.scalarFullPull srcName))
  ensure (bufferIndices.length = source.shards.length) (.value "zip() arguments have different lengths")
  -- the sort reads the first offset of every shard
  ensure (∀ shard ∈ source.shards, shard.shardOffset ≠ []) .index
  let ordered := (bufferIndices.zip source.shards).insertionSort fun a b =>
    a.2.shardOffset.headD 0 ≤ b.2.shardOffset.headD 0
  fullPullRows srcName source ordered 0

/-! ## Copies -/

variable [DecidableEq δ] (replay : Replay Op) (sources : Sources δ)
variable (sourceIndices : String → Option (List ℕ)) (maxSegmentsPerCopy : ℕ)

inductive Outcome (δ : Type) where
  | fallback
  | convert (source : ConvertSource δ)
  | exact (segments : List LogicalRead)

/-- The turn of the loop of `_plan_transfer` for one copy. -/
def planCopy (copy : RecordedCopy Op δ) : Except PlanError (Outcome δ) :=
  match sources.lookup copy.srcName with
  | none => .ok .fallback
  | some src => do
    let indices ← found (sourceIndices copy.srcName) (.key copy.srcName)
    if src.dtype ≠ copy.destDtype then
      -- served in another dtype: read into a conversion buffer, cast from there
      let segments ← caught (planPull replay (copy.staged src.dtype) src.globalShape src.dtype src.elsize
        src.shards indices)
      return segments.elim .fallback fun segments =>
        .convert ⟨copy.paramName, copy.destShape, src.dtype, segments⟩
    else
      let segments ← caught (planPull replay copy src.globalShape src.dtype src.elsize src.shards indices)
      return segments.elim .fallback .exact

structure Draft (Op δ : Type) where
  fallback : List String
  converts : List (ConvertSource δ)
  exactBySource : List (String × List (RecordedCopy Op δ × List LogicalRead))
  fullPullNames : List String
  exactDescriptorCount : ℕ
  exactBytes : ℕ

def Draft.add (d : Draft Op δ) (copy : RecordedCopy Op δ) : Outcome δ → Draft Op δ
  | .fallback => { d with fallback := mark d.fallback copy.srcName }
  | .convert source =>
    { d with
      converts := d.converts ++ [source]
      exactDescriptorCount := d.exactDescriptorCount + source.segments.length
      exactBytes := d.exactBytes + totalBytes source.segments }
  | .exact segments =>
    { d with
      exactBySource := push copy.srcName (copy, segments) d.exactBySource
      fullPullNames :=
        if maxSegmentsPerCopy < segments.length then mark d.fullPullNames copy.srcName else d.fullPullNames
      exactDescriptorCount := d.exactDescriptorCount + segments.length
      exactBytes := d.exactBytes + totalBytes segments }

variable (capture : CaptureResult Op δ)

def planCopies : Except PlanError (Draft Op δ) :=
  capture.copies.foldlM
    (fun d copy => do return d.add maxSegmentsPerCopy copy (← planCopy replay sources sourceIndices copy))
    ⟨distinct capture.unsupported, [], [], [], 0, 0⟩

/-! ## Sources -/

/-- How the exact copies of a source are planned. -/
inductive Route (Op δ : Type) where
  | direct
  | unbounded
  | full (pull : FullPullSource Op δ)

/-- The turn of the second loop of `_plan_transfer` for one source. -/
def planSource (fullPullNames : List String) (srcName : String)
    (entries : List (RecordedCopy Op δ × List LogicalRead)) : Except PlanError (Route Op δ) :=
  if srcName ∉ fullPullNames then .ok .direct
  else do
    let source ← found (sources.lookup srcName) (.key srcName)
    let indices ← found (sourceIndices srcName) (.key srcName)
    let segments ← caught (fullPullSegments srcName source indices)
    return segments.elim .unbounded fun segments =>
      .full ⟨srcName, source.globalShape, source.dtype, source.elsize, segments, entries.map Prod.fst⟩

/-- The reads straight into the parameters: those of the exact copies, unless the source is
    pulled as a whole. -/
def Route.segments (entries : List (RecordedCopy Op δ × List LogicalRead)) : Route Op δ → List LogicalRead
  | .direct | .unbounded => entries.flatMap Prod.snd
  | .full _ => []

def Route.fullPull : Route Op δ → Option (FullPullSource Op δ)
  | .full pull => some pull
  | .direct | .unbounded => none

def Route.isUnbounded : Route Op δ → Bool
  | .unbounded => true
  | .direct | .full _ => false

variable (sourceBuffers : List SourceBuffer)

/-- `_plan_transfer` without full-source verification. -/
def planDirect : Except PlanError (LogicalTransferPlan Op δ) := do
  let draft ← planCopies replay sources sourceIndices maxSegmentsPerCopy capture
  let routes ← draft.exactBySource.mapM fun e => do
    return (e, ← planSource sources sourceIndices draft.fullPullNames e.1 e.2)
  return {
    sourceBuffers
    segments := routes.flatMap fun r => r.2.segments r.1.2
    fallback := draft.fallback
    converts := draft.converts
    fullPulls := routes.filterMap fun r => r.2.fullPull
    unboundedSources := (routes.filter fun r => r.2.isUnbounded).map fun r => r.1.1
    exactDescriptorCount := draft.exactDescriptorCount
    exactBytes := draft.exactBytes
    verifyFullSources := false }

def copiesOf (name : String) : List (RecordedCopy Op δ) :=
  capture.copies.filter fun copy => copy.srcName = name

def isWhole (source : SourceInfo δ) (copy : RecordedCopy Op δ) : Bool :=
  copy.opChain.isEmpty && copy.destShape = source.globalShape

/-- The part of `_plan_verified_transfer` for one source. -/
def planVerifiedSource (name : String) (source : SourceInfo δ) : Except PlanError (LogicalTransferPlan Op δ) :=
  let copies := copiesOf capture name
  if copies.isEmpty then
    .ok ⟨sourceBuffers, [], [], [], [], [], 0, 0, true⟩
  else if copies.any (isWhole source) then
    planDirect replay (AList.singleton name source) sourceIndices maxSegmentsPerCopy ⟨copies, [], 0⟩
      sourceBuffers
  else do
    let indices ← found (sourceIndices name) (.key name)
    let reads ← planPull replay (identityCopy name source) source.globalShape source.dtype source.elsize
      source.shards indices
    return ⟨sourceBuffers, [], [], [],
      [⟨name, source.globalShape, source.dtype, source.elsize, reads, copies⟩], [],
      reads.length, totalBytes reads, true⟩

def planVerified : Except PlanError (LogicalTransferPlan Op δ) := do
  let parts ← sources.entries.mapM fun e =>
    planVerifiedSource replay sourceIndices maxSegmentsPerCopy capture sourceBuffers e.1 e.2
  let missing := (distinct (capture.copies.map RecordedCopy.srcName)).filter (· ∉ sources)
  return {
    sourceBuffers
    segments := parts.flatMap (·.segments)
    fallback := (parts.flatMap (·.fallback) ++ missing).foldl mark (distinct capture.unsupported)
    converts := parts.flatMap (·.converts)
    fullPulls := parts.flatMap (·.fullPulls)
    unboundedSources := parts.flatMap (·.unboundedSources)
    exactDescriptorCount := (parts.map (·.exactDescriptorCount)).sum
    exactBytes := (parts.map (·.exactBytes)).sum
    verifyFullSources := true }

/-! ## Plans -/

def planWith (verifyFullSources : Bool) : Except PlanError (LogicalTransferPlan Op δ) := do
  ensure (1 ≤ maxSegmentsPerCopy) (.value "max_segments_per_copy must be at least 1")
  if verifyFullSources then
    planVerified replay sources sourceIndices maxSegmentsPerCopy capture sourceBuffers
  else
    planDirect replay sources sourceIndices maxSegmentsPerCopy capture sourceBuffers

/-- The buffers of all sources so far and the indices of each source. -/
structure SourceTable where
  buffers : List SourceBuffer
  indices : List (String × List ℕ)

variable (sourceSlots : Option (String → Option String))

/-- The slot of a shard: its session, or what the map of the slots says. -/
def slotOf (sh : Shard) : Except PlanError String :=
  match sourceSlots with
  | none => .ok sh.session
  | some slots => found (slots sh.session) (.key sh.session)

/-- The turn of the loop of `plan_transfer` for one needed source. -/
def SourceTable.add (table : SourceTable) (name : String) : Except PlanError SourceTable :=
  match sources.lookup name with
  | none => .ok table
  | some source => do
    let buffers ← source.shards.mapM fun sh => do
      return ⟨← slotOf sourceSlots sh, name, sh.shardOffset, sh.shape⟩
    return ⟨table.buffers ++ buffers,
      table.indices ++ [(name, List.range' table.buffers.length source.shards.length)]⟩

def sourceTable (capture : CaptureResult Op δ) : Except PlanError SourceTable :=
  (distinct (capture.copies.map RecordedCopy.srcName)).foldlM (SourceTable.add sources sourceSlots) ⟨[], []⟩

def planTransfer (verifyFullSources : Bool)
    (capture : CaptureResult Op δ) : Except PlanError (LogicalTransferPlan Op δ) := do
  let table ← sourceTable sources sourceSlots capture
  planWith replay sources (table.indices.lookup ·) maxSegmentsPerCopy capture table.buffers verifyFullSources

/-- The indices of the buffers of a source, in order; a source without buffers has no entry. -/
def indicesIn (buffers : List SourceBuffer) (name : String) : Option (List ℕ) :=
  let indices := (buffers.zipIdx.filter fun b => b.1.srcName = name).map Prod.snd
  if indices.isEmpty then none else some indices

def planTransferGroups (captures : List (CaptureResult Op δ)) (complete : LogicalTransferPlan Op δ) :
    Except PlanError (List (LogicalTransferPlan Op δ)) :=
  captures.mapM fun capture => planWith replay sources (indicesIn complete.sourceBuffers) maxSegmentsPerCopy
    capture complete.sourceBuffers complete.verifyFullSources

/-! ## Completeness -/

/-- What `IncompleteRefit` reports. -/
structure IncompleteRefit where
  missing : List String
  unsupported : ℕ
  unattributed : ℕ
  fallback : ℕ
  deriving DecidableEq

/-- `_validate_complete` for a plan without source replay; `parameters` are the names of the
    parameter layout. -/
def validateComplete (parameters : List String) (plan : LogicalTransferPlan Op δ) : Except IncompleteRefit Unit :=
  let written := capture.copies.map RecordedCopy.paramName
  let missing := (parameters.filter (· ∉ written)).insertionSort (· ≤ ·)
  ensure (missing = [] ∧ capture.unsupported = [] ∧ capture.unattributed = 0 ∧ plan.fallback = [])
    ⟨missing, capture.unsupported.length, capture.unattributed, plan.fallback.length⟩

end

end ModelExpress.Reshard
