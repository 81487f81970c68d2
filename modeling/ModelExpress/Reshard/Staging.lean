/-
  ModelExpress reshard receiver — staging a plan (`nixl_staged_transfer.py`).

  The reads of a plan go into them, in any order; then `completeStage` replays the recorded
  copies from the full pulls and casts the conversion buffers, which are keyed by the name of
  the parameter.  PyTorch is a parameter, `Torch`; an element of a tensor is given by its
  bytes.
-/
import ModelExpress.Reshard.Ops
import ModelExpress.Reshard.Pull
import ModelExpress.Reshard.TransferPlan

namespace ModelExpress.Reshard

open Checks Strided

/-! ## Tensors -/

/-- A tensor with its dtype; an element is the function from the number of a byte to the byte. -/
structure TypedTensor (δ β : Type) where
  dtype : δ
  tensor : Tensor (ℕ → β)

/-- What the receiver uses of PyTorch. -/
structure Torch (Op δ β : Type) where
  itemsize : δ → ℕ
  /-- an op chain on a tensor without storage -/
  replay : Replay Op
  /-- `_replay_ops`: an op chain on a tensor, with the tensor as the chain leaves it -/
  replayOn : List Op → TypedTensor δ β → Except PlanError (TypedTensor δ β × TypedTensor δ β)
  cast : δ → δ → (ℕ → β) → ℕ → β

abbrev Layout (δ : Type) := String → Option (List ℕ × δ)

structure Workspace (β : Type) where
  recv : Memory β
  full : Memory β
  convert : Memory β

section
variable {Op δ β : Type} (torch : Torch Op δ β)

def bufferTensor (m : Memory β) (name : String) (shape : List ℕ) (dtype : δ) : TypedTensor δ β :=
  ⟨dtype, sourceTensor shape fun a b => m (name, a * torch.itemsize dtype + b)⟩

/-- The destination of a copy: a strided view of the buffer of its parameter, which must not leave
    the storage of the buffer.  Returns the dtype of the parameter. -/
def destination (layout : Layout δ) (copy : RecordedCopy Op δ) : Except PlanError δ := do
  let buffer ← found (layout copy.paramName) (.key copy.paramName)
  ensure (∀ j ∈ indices copy.destShape, copy.destOffset + dot j copy.destStride < buffer.1.prod) .torch
  return buffer.2

variable [DecidableEq δ]

def Torch.castTo (target dtype : δ) (x : ℕ → β) : ℕ → β := if dtype = target then x else torch.cast dtype target x

def copyWrites (copy : RecordedCopy Op δ) (target : δ) (x : TypedTensor δ β) : List ((String × ℕ) × β) :=
  (indices copy.destShape).flatMap fun j => (List.range (torch.itemsize target)).map fun b =>
    ((copy.paramName, (copy.destOffset + dot j copy.destStride) * torch.itemsize target + b),
      torch.castTo target x.dtype (x.tensor.get (broadcastIndex x.tensor.shape j)) b)

def copyInto (copy : RecordedCopy Op δ) (target : δ) (x : TypedTensor δ β) (recv : Memory β) :
    Except PlanError (Memory β) := do
  ensure (Broadcasts x.tensor.shape copy.destShape) .torch
  return Writes.apply (copyWrites torch copy target x) recv

/-! ## Reconstruction -/

/-- The shape and dtype of the full-pull buffers; the last entry of a name counts. -/
def fullLayout (plan : LogicalTransferPlan Op δ) : Layout δ := fun name =>
  (plan.fullPulls.reverse.find? fun f => f.srcName = name).map fun f => (f.globalShape, f.dtype)

/-- The turn of the loop over the copies of a full pull; the state is the staged source and the
    receive buffers. -/
def replayCopy (layout : Layout δ) (s : TypedTensor δ β × Memory β) (copy : RecordedCopy Op δ) :
    Except PlanError (TypedTensor δ β × Memory β) := do
  let target ← destination layout copy
  let value ← torch.replayOn copy.opChain s.1
  let recv ← copyInto torch copy target value.1 s.2
  return (value.2, recv)

/-- The turn of the loop over the full pulls. -/
def replayFull (layout : Layout δ) (plan : LogicalTransferPlan Op δ) (full recv : Memory β)
    (pull : FullPullSource Op δ) : Except PlanError (Memory β) := do
  let buffer ← found (fullLayout plan pull.srcName) (.key pull.srcName)
  let s ← pull.copies.foldlM (replayCopy torch layout)
    (bufferTensor torch full pull.srcName buffer.1 buffer.2, recv)
  return s.2

/-! ## Conversion -/

/-- The shape and dtype of the conversion buffers; the last entry of a parameter counts. -/
def convertLayout (plan : LogicalTransferPlan Op δ) : Layout δ := fun name =>
  (plan.converts.reverse.find? fun v => v.paramName = name).map fun v => (v.destShape, v.srcDtype)

/-- The copy that a conversion of the parameter is cast to: the last one that was recorded. -/
def conversionCopy (capture : CaptureResult Op δ) (name : String) : Option (RecordedCopy Op δ) :=
  capture.copies.reverse.find? fun copy => copy.paramName = name

/-- The turn of the loop over the conversions. -/
def castConvert (layout : Layout δ) (capture : CaptureResult Op δ) (plan : LogicalTransferPlan Op δ)
    (convert recv : Memory β) (source : ConvertSource δ) : Except PlanError (Memory β) := do
  let copy ← found (conversionCopy capture source.paramName) (.key source.paramName)
  let target ← destination layout copy
  let buffer ← found (convertLayout plan source.paramName) (.key source.paramName)
  copyInto torch copy target (bufferTensor torch convert source.paramName buffer.1 buffer.2) recv

/-- `_complete_stage`, once the reads are done; the checksums are left out. -/
def completeStage (layout : Layout δ) (capture : CaptureResult Op δ) (plan : LogicalTransferPlan Op δ)
    (w : Workspace β) : Except PlanError (Memory β) := do
  let recv ← plan.fullPulls.foldlM (replayFull torch layout plan w.full) w.recv
  plan.converts.foldlM (castConvert torch layout capture plan w.convert) recv

/-! ## Executions -/

/-- One execution of a plan: the order in which its reads complete, and what the staging buffers
    held before. -/
structure Execution (Op δ β : Type) where
  capture : CaptureResult Op δ
  plan : LogicalTransferPlan Op δ
  recvReads : List LogicalRead
  fullReads : List LogicalRead
  convertReads : List LogicalRead
  full : Memory β
  convert : Memory β
  recv_perm : recvReads.Perm plan.segments
  full_perm : fullReads.Perm (plan.fullPulls.flatMap (·.segments))
  convert_perm : convertReads.Perm (plan.converts.flatMap (·.segments))

/-- `stage`: the receive buffers after the reads and the local work. -/
def Execution.stage (run : Execution Op δ β) (layout : Layout δ) (buffers : ℕ → ℕ → β) (recv : Memory β) :
    Except PlanError (Memory β) :=
  completeStage torch layout run.capture run.plan
    ⟨executeReads buffers run.recvReads recv, executeReads buffers run.fullReads run.full,
      executeReads buffers run.convertReads run.convert⟩

/-- One execution after the other, with the same receive buffers. -/
def stageAll (layout : Layout δ) (buffers : ℕ → ℕ → β) (runs : List (Execution Op δ β)) (recv : Memory β) :
    Except PlanError (Memory β) :=
  runs.foldlM (fun recv run => run.stage torch layout buffers recv) recv

end

end ModelExpress.Reshard
