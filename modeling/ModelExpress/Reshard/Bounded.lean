/-
  ModelExpress reshard receiver — bounded staging (`nixl_staged_transfer.py`). With a staging budget, an
  update is cut into batches that are staged one after the other in arenas.
-/
import ModelExpress.Reshard.Destination
import ModelExpress.Reshard.SourceReplay

namespace ModelExpress.Reshard

open Checks Buckets Batching

/-! ## Records -/

abbrev StagingLayout (κ δ : Type) := AList fun _ : κ => List ℕ × δ

/-- `_StagingLayouts`, in the order of the arena; sources are staged under names of the type `κ`. -/
structure StagingLayouts (κ δ : Type) where
  recv : StagingLayout String δ
  convert : StagingLayout String δ
  full : StagingLayout κ δ

/-- `_StreamingBatch`: a part of the capture, its plan and its place in an arena. -/
structure StreamingBatch (κ C P δ : Type) where
  capture : C
  transferPlan : P
  layouts : StagingLayouts κ δ
  nbytes : ℕ

abbrev ModuleBatch (Op δ : Type) := StreamingBatch String (CaptureResult Op δ) (LogicalTransferPlan Op δ) δ

abbrev ReplayBatch (Op δ : Type) := StreamingBatch ReplayKey (ReplayCapture Op δ) (ReplayPlan Op δ) δ

/-- The streaming settings that messages report. -/
structure StagingSettings where
  totalStagingBytes : Option ℕ
  stagingBuffers : ℕ
  deriving DecidableEq

/-- The exceptions; all but the first two are `IncompleteRefit`. -/
inductive BoundedError where
  /-- `ValueError`: the budget is not positive -/
  | budget
  | plan (error : PlanError)
  | incomplete (report : IncompleteRefit)
  | destination (paramName : String) (reason : UnsupportedReshard)
  | unknownParameters
  | writeBytes (nbytes budget : ℕ) (settings : StagingSettings)
  | noWrites
  | moduleBytes (module : String) (nbytes budget : ℕ) (settings : StagingSettings)
  | noParameters
  | packedBudget
  | overlappingKeys
  deriving DecidableEq

/-! ## Sizes -/

section
variable {κ δ C P : Type} (itemsize : δ → ℕ)

def bufferBytes (b : List ℕ × δ) : ℕ := b.1.prod * itemsize b.2

/-- What a layout takes in an arena: every buffer is rounded up to 256 bytes. -/
def layoutBytes (layout : StagingLayout κ δ) : ℕ := extent 256 (fun e => bufferBytes itemsize e.2) layout.entries

def StagingLayouts.nbytes (layouts : StagingLayouts κ δ) : ℕ :=
  layoutBytes itemsize layouts.recv + layoutBytes itemsize layouts.convert + layoutBytes itemsize layouts.full

/-- The places of the buffers of one layout, from `offset` on. -/
def carveLayout (offset : ℕ) (layout : StagingLayout κ δ) : List (κ × Slot) :=
  (carve 256 (fun e => bufferBytes itemsize e.2) offset layout.entries).map fun x => (x.1.1, x.2)

/-- `_carve_bounded`: the places of the buffers of a batch in its arena. -/
def carveBounded (batch : StreamingBatch κ C P δ) :
    List (String × Slot) × List (String × Slot) × List (κ × Slot) :=
  let recvBytes := layoutBytes itemsize batch.layouts.recv
  let convertBytes := layoutBytes itemsize batch.layouts.convert
  (carveLayout itemsize 0 batch.layouts.recv, carveLayout itemsize recvBytes batch.layouts.convert,
    carveLayout itemsize (recvBytes + convertBytes) batch.layouts.full)

end

section
variable {Op δ : Type} [DecidableEq δ] (itemsize : δ → ℕ) (replay : Replay Op) (sources : Sources δ)
variable (maxSegmentsPerCopy : ℕ) (sourceSlots : Option (String → Option String)) (verify : Bool)
variable (maxStagingBytes : ℕ) (settings : StagingSettings)

/-! ## Modules -/

def moduleOf (name : String) : String :=
  String.ofList ((name.toList.reverse.dropWhile (· ≠ '.')).drop 1).reverse

/-- The parameters of every module, in the order of the layout. -/
def moduleGroups (parameterLayout : StagingLayout String δ) :
    List (String × List (Sigma fun _ : String => List ℕ × δ)) :=
  parameterLayout.entries.foldl (fun groups e => push (moduleOf e.1) e groups) []

variable (capture : CaptureResult Op δ)

def subset (recv : StagingLayout String δ) : CaptureResult Op δ :=
  ⟨capture.copies.filter fun c => c.paramName ∈ recv, [], 0⟩

/-- The buffers that a module stages: its parameters, one conversion buffer for each parameter that
    is converted, and one for each source that is pulled as a whole. -/
def moduleLayouts (recv : StagingLayout String δ) (plan : LogicalTransferPlan Op δ) : StagingLayouts String δ where
  recv := recv
  convert := Assoc.extend ∅ (plan.converts.map fun c => ⟨c.paramName, c.destShape, c.srcDtype⟩)
  full := Assoc.extend ∅ (plan.fullPulls.map fun f => ⟨f.srcName, f.globalShape, f.dtype⟩)

def moduleBatch (complete : LogicalTransferPlan Op δ) (module : String)
    (recv : StagingLayout String δ) : Except BoundedError (ModuleBatch Op δ) := do
  let capture := subset capture recv
  let plan ← (planWith replay sources (indicesIn complete.sourceBuffers) maxSegmentsPerCopy capture
    complete.sourceBuffers complete.verifyFullSources).mapError .plan
  (validateComplete capture recv.keys plan).mapError .incomplete
  let layouts := moduleLayouts recv plan
  let nbytes := layouts.nbytes itemsize
  ensure (nbytes ≤ maxStagingBytes) (.moduleBytes module nbytes maxStagingBytes settings)
  return ⟨capture, plan, layouts, nbytes⟩

/-- `_bounded_batches` without source replay. -/
def boundedModules (parameterLayout : StagingLayout String δ) : Except BoundedError (List (ModuleBatch Op δ)) := do
  ensure (0 < maxStagingBytes) .budget
  let complete ← (planTransfer replay sources maxSegmentsPerCopy sourceSlots verify capture).mapError .plan
  (validateComplete capture parameterLayout.keys complete).mapError .incomplete
  ensure (∀ c ∈ capture.copies, c.paramName ∈ parameterLayout) .unknownParameters
  let batches ← (moduleGroups parameterLayout).mapM fun g =>
    moduleBatch itemsize replay sources maxSegmentsPerCopy maxStagingBytes settings capture complete g.1
      (Assoc.extend ∅ g.2)
  ensure (batches ≠ []) .noParameters
  return batches

/-! ## Packing -/

/-- Add the buffers of a batch; a name must not be there yet. -/
def mergeLayout {κ : Type} [DecidableEq κ] (layout incoming : StagingLayout κ δ) :
    Except BoundedError (StagingLayout κ δ) := do
  ensure (∀ a ∈ incoming.keys, a ∉ layout) .overlappingKeys
  return Assoc.extend layout incoming.entries

def mergeLayouts (layouts incoming : StagingLayouts String δ) : Except BoundedError (StagingLayouts String δ) := do
  let recv ← mergeLayout layouts.recv incoming.recv
  let convert ← mergeLayout layouts.convert incoming.convert
  let full ← mergeLayout layouts.full incoming.full
  return ⟨recv, convert, full⟩

/-- The plan of several modules: the first one's, with the reads of all. -/
def mergePlans (first : LogicalTransferPlan Op δ) (plans : List (LogicalTransferPlan Op δ)) :
    LogicalTransferPlan Op δ :=
  { first with
    segments := plans.flatMap (·.segments)
    converts := plans.flatMap (·.converts)
    fullPulls := plans.flatMap (·.fullPulls)
    fallback := distinct (plans.flatMap (·.fallback))
    unboundedSources := plans.flatMap (·.unboundedSources)
    exactDescriptorCount := (plans.map (·.exactDescriptorCount)).sum
    exactBytes := (plans.map (·.exactBytes)).sum }

/-- The batch of several modules, which are `first` and `rest`. -/
def mergeBatches (first : ModuleBatch Op δ) (rest : List (ModuleBatch Op δ)) :
    Except BoundedError (ModuleBatch Op δ) := do
  let group := first :: rest
  let layouts ← group.foldlM (fun layouts batch => mergeLayouts layouts batch.layouts) ⟨∅, ∅, ∅⟩
  return ⟨⟨group.flatMap (·.capture.copies), [], 0⟩, mergePlans first.transferPlan (group.map (·.transferPlan)),
    layouts, (group.map (·.nbytes)).sum⟩

/-- The packed batch of what was collected, if that is anything. -/
def mergeCurrent : List (ModuleBatch Op δ) → Except BoundedError (List (ModuleBatch Op δ))
  | [] => .ok []
  | first :: rest => do return [← mergeBatches first rest]

/-- The loop of `_pack_bounded_batches`: the modules collected, their bytes and the sources they pull
    as a whole. -/
def packFrom (current : List (ModuleBatch Op δ)) (currentBytes : ℕ) (fullSources : List String) :
    List (ModuleBatch Op δ) → Except BoundedError (List (ModuleBatch Op δ))
  | [] => mergeCurrent current
  | batch :: batches => do
    ensure (batch.nbytes ≤ maxStagingBytes) .packedBudget
    -- two modules that pull the same source would need its buffer for two writes
    if ¬ current.isEmpty ∧ (maxStagingBytes < currentBytes + batch.nbytes ∨
        ∃ q ∈ fullSources, q ∈ batch.layouts.full) then
      let merged ← mergeCurrent current
      return merged ++ (← packFrom [batch] batch.nbytes batch.layouts.full.keys batches)
    else
      packFrom (current ++ [batch]) (currentBytes + batch.nbytes) (fullSources ++ batch.layouts.full.keys) batches

def packBoundedBatches (batches : List (ModuleBatch Op δ)) : Except BoundedError (List (ModuleBatch Op δ)) :=
  packFrom maxStagingBytes [] 0 [] batches

/-! ## Source replay -/

section
variable (supported stops : Op → Bool) (capture : ReplayCapture Op δ)

/-- The destination of a copy lies in the storage of its parameter. -/
def validateDestination (parameterLayout : StagingLayout String δ)
    (copy : RecordedCopy Op δ) : Except UnsupportedReshard Unit := do
  let (shape, dtype) ← found (parameterLayout.lookup copy.paramName) .ownerLayout
  let owner := (capture.destinationLayouts.lookup copy.paramName).getD (shape, rowMajorStrides shape)
  ensure (dtype = copy.destDtype ∧ owner.1 = shape) .ownerLayout
  validatePhysicalDestination copy.destShape copy.destStride copy.destOffset owner.1 owner.2

/-- `_validate_complete` for a replay. -/
def validateReplay (parameterLayout : StagingLayout String δ)
    (plan : ReplayPlan Op δ) : Except BoundedError Unit := do
  forM capture.copies fun copy =>
    (validateDestination capture parameterLayout copy).mapError (.destination copy.paramName)
  let written := capture.copies.map RecordedCopy.paramName
  let missing := (parameterLayout.keys.filter (· ∉ written)).insertionSort (· ≤ ·)
  ensure (missing = [] ∧ capture.unsupported = [] ∧ capture.unattributed = 0 ∧ plan.fallback = [])
    (.incomplete ⟨missing, capture.unsupported.length, capture.unattributed, plan.fallback.length⟩)

/-- What the buffer of a recorded copy takes in an arena. -/
def pullBytes (pull : ReplayPull Op δ) : ℕ := align 256 (pull.globalShape.prod * itemsize pull.dtype)

/-- The bytes of a batch with one more pull, and whether they keep to the budget. -/
def addPull (bytes : ℕ) (pull : ReplayPull Op δ) : ℕ := bytes + pullBytes itemsize pull

def PullFits (budget bytes : ℕ) (pull : ReplayPull Op δ) : Prop := addPull itemsize bytes pull ≤ budget

instance (budget bytes : ℕ) (pull : ReplayPull Op δ) : Decidable (PullFits itemsize budget bytes pull) :=
  inferInstanceAs (Decidable (_ ≤ _))

/-- The batch of the given pulls, which take `nbytes`. -/
def replayBatch (complete : ReplayPlan Op δ) (pulls : List (ReplayPull Op δ))
    (nbytes : ℕ) : Except BoundedError (ReplayBatch Op δ) := do
  let copies ← (pulls.flatMap (·.copyIndices)).mapM fun index => found capture.copies[index]? (.plan .index)
  return ⟨⟨copies, [], 0, capture.generation, capture.destinationLayouts⟩, { complete with fullPulls := pulls },
    ⟨∅, ∅, Assoc.extend ∅ (pulls.map fun p => ⟨p.key, p.globalShape, p.dtype⟩)⟩, nbytes⟩

/-- `_bounded_batches` with source replay. -/
def boundedReplay (parameterLayout : StagingLayout String δ) : Except BoundedError (List (ReplayBatch Op δ)) := do
  ensure (0 < maxStagingBytes) .budget
  let complete ← (planReplay replay supported stops sources maxSegmentsPerCopy (some maxStagingBytes) sourceSlots
    verify capture).mapError .plan
  validateReplay capture parameterLayout complete
  ensure (∀ c ∈ capture.copies, c.paramName ∈ parameterLayout) .unknownParameters
  -- the only failure of the loop
  forM complete.fullPulls fun pull =>
    ensure (pullBytes itemsize pull ≤ maxStagingBytes) (.writeBytes (pullBytes itemsize pull) maxStagingBytes settings)
  let groups := cut (addPull itemsize) 0 (PullFits itemsize maxStagingBytes) [] 0 complete.fullPulls
  let batches ← groups.mapM fun g => replayBatch capture complete g.1 g.2
  ensure (batches ≠ []) .noWrites
  return batches

end

end

end ModelExpress.Reshard
