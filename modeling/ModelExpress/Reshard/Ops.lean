/-
  ModelExpress reshard planner — the operations a capture records (`geometry.py`,
  `_SUPPORTED_OPS`).

  A chain runs on any representation of tensors (`Tensorial`): on a strided view (`View`),
  which is what the planner replays it on, and on a tensor with its elements (`Tensor`), which
  is what it means.

  `to`, the dtype casts, `contiguous`, `view`, `reshape` and `flatten` are not operations of
  `Op`; the planner's results about any `Replay` cover them.
-/
import ModelExpress.Reshard.SlicePlan

namespace ModelExpress.Reshard

open Checks Strided

/-! ## Operations -/

/-- An item of an index: an integer, a slice with unit step, `...` or `None`. -/
inductive Key where
  | int (i : ℤ)
  | slice (start stop : Option ℤ)
  | ellipsis
  | newaxis
  deriving DecidableEq

/-- What stands between the brackets: one item or a tuple of them. -/
inductive Index where
  | one (key : Key)
  | tuple (keys : List Key)
  deriving DecidableEq

def Index.keys : Index → List Key
  | .one key => [key]
  | .tuple keys => keys

inductive Op where
  | narrow (dim start length : ℤ)
  | select (dim index : ℤ)
  | getitem (index : Index)
  | transpose (dim0 dim1 : ℤ)
  | t
  | permute (dims : List ℤ)
  | squeeze
  | squeezeDims (dims : List ℤ)
  | unsqueeze (dim : ℤ)
  | chunk (chunks dim : ℤ)
  | split (size dim : ℤ)
  | splitSizes (sizes : List ℤ) (dim : ℤ)
  | unbind (dim : ℤ)
  | zero_
  deriving DecidableEq

/-! ## Basic views -/

inductive BasicView where
  | narrow (dim start length : ℕ)
  | select (dim index : ℕ)
  | permute (dims : List ℕ)
  | unsqueeze (dim : ℕ)
  deriving DecidableEq

variable (shape : List ℕ)

namespace BasicView

/-- The arguments are right for a tensor of this shape. -/
def Fits : BasicView → Prop
  | narrow d s l => d < shape.length ∧ s + l ≤ shape.getD d 0
  | select d i => i < shape.getD d 0
  | permute dims => dims.length = shape.length ∧ dims.Nodup ∧ ∀ d ∈ dims, d < shape.length
  | unsqueeze d => d ≤ shape.length

instance (shape : List ℕ) : DecidablePred (Fits shape)
  | narrow .. => inferInstanceAs (Decidable (_ ∧ _))
  | select .. => inferInstanceAs (Decidable (_ < _))
  | permute .. => inferInstanceAs (Decidable (_ ∧ _ ∧ _))
  | unsqueeze .. => inferInstanceAs (Decidable (_ ≤ _))

def resultShape : BasicView → List ℕ
  | narrow d _ l => shape.set d l
  | select d _ => shape.eraseIdx d
  | permute dims => gather dims shape
  | unsqueeze d => shape.insertIdx d 1

/-- The index of the argument that an index of the result stands for. -/
def argIndex : BasicView → List ℕ → List ℕ
  | narrow d s _, j => j.modify d (· + s)
  | select d i, j => j.insertIdx d i
  | permute dims, j => scatter (List.replicate dims.length 0) dims j
  | unsqueeze d, j => j.eraseIdx d

/-- The offset and the strides of the result, in the storage of the argument. -/
def resultOffset (v : View) : BasicView → ℕ
  | narrow d s _ => v.offset + s * v.stride.getD d 0
  | select d i => v.offset + i * v.stride.getD d 0
  | permute _ | unsqueeze _ => v.offset

def resultStride (v : View) : BasicView → List ℕ
  | narrow .. => v.stride
  | select d _ => v.stride.eraseIdx d
  | permute dims => gather dims v.stride
  | unsqueeze d =>
    v.stride.insertIdx d (if d < v.shape.length then v.shape.getD d 0 * v.stride.getD d 0 else 1)

theorem length_resultStride (v : View) (b : BasicView) :
    (b.resultStride v).length = (b.resultShape v.shape).length := by
  cases b with
  | narrow => simp [resultStride, resultShape, v.rank]
  | select d i => simp [resultStride, resultShape, List.length_eraseIdx, v.rank]
  | permute => simp [resultStride, resultShape]
  | unsqueeze d => simp [resultStride, resultShape, List.length_insertIdx, v.rank]

end BasicView

/-! ## Arguments -/

/-- A dimension or an index, counted from the end if negative. -/
def wrap (i : ℤ) (n : ℕ) : Except PlanError ℕ :=
  if -n ≤ i ∧ i < n then .ok (if i < 0 then i + n else i).toNat else .error .torch

/-- A slice bound: counted from the end if negative, then clamped to the extent. -/
def sliceBound (i : ℤ) (n : ℕ) : ℕ := min (if i < 0 then i + n else i).toNat n

/-- The start and the length of a slice with unit step. -/
def sliceRange (start stop : Option ℤ) (n : ℕ) : ℕ × ℕ :=
  let lo := sliceBound (start.getD 0) n
  (lo, (stop.elim n (sliceBound · n)) - lo)

/-- The items of an index from the dimension `dim` on, for a tensor with the extents `rest`
    there; `skip` is the number of dimensions `...` stands for. -/
def keyViews (skip : ℕ) : List Key → ℕ → List ℕ → Except PlanError (List BasicView)
  | [], _, _ => .ok []
  | .int i :: keys, dim, n :: rest => do
    let i ← wrap i n
    return .select dim i :: (← keyViews skip keys dim rest)
  | .slice start stop :: keys, dim, n :: rest => do
    let (lo, len) := sliceRange start stop n
    return .narrow dim lo len :: (← keyViews skip keys (dim + 1) rest)
  | .ellipsis :: keys, dim, rest => keyViews skip keys (dim + skip) (rest.drop skip)
  | .newaxis :: keys, dim, rest => do
    return .unsqueeze dim :: (← keyViews skip keys (dim + 1) rest)
  | _, _, [] => .error .torch

/-- Whether the item takes a dimension of the tensor. -/
def Key.takesDim : Key → Bool
  | .int _ | .slice .. => true
  | .ellipsis | .newaxis => false

/-- `split`: the parts of `size` elements each, the last one shorter; one part at least. -/
def splitViews (dim extent size : ℕ) : List BasicView :=
  (List.range (max ((extent + size - 1) / size) 1)).map fun i =>
    .narrow dim (i * size) (min size (extent - i * size))

/-- The parts of the given sizes, from `start` on. -/
def partViews (dim : ℕ) : ℕ → List ℕ → List BasicView
  | _, [] => []
  | start, n :: sizes => .narrow dim start n :: partViews dim (start + n) sizes

/-- What an operation does: one view after the other, or one view for each result. -/
inductive Lowered where
  | one (views : List BasicView)
  | many (views : List BasicView)
  deriving DecidableEq

/-- The dimensions of extent one that are dropped, from the last. -/
def dropViews (p : ℕ → Bool) : List BasicView :=
  ((List.range shape.length).filter fun d => shape.getD d 0 = 1 ∧ p d).reverse.map (.select · 0)

/-- The operation on a tensor of this shape, or the error PyTorch raises. -/
def Op.lower : Op → Except PlanError Lowered
  | .narrow dim start length => do
    let d ← wrap dim shape.length
    let n := shape.getD d 0
    ensure (0 ≤ length ∧ -n ≤ start ∧ start ≤ n) .torch
    return .one [.narrow d (if start < 0 then start + n else start).toNat length.toNat]
  | .select dim index => do
    let d ← wrap dim shape.length
    return .one [.select d (← wrap index (shape.getD d 0))]
  | .getitem index => do
    let specified := index.keys.countP Key.takesDim
    ensure (specified ≤ shape.length) .torch
    return .one (← keyViews (shape.length - specified) index.keys 0 shape)
  | .transpose dim0 dim1 => do
    -- a scalar has a dimension to name, but none to swap
    let d0 ← wrap dim0 (max shape.length 1)
    let d1 ← wrap dim1 (max shape.length 1)
    return .one [.permute (((List.range shape.length).set d0 d1).set d1 d0)]
  | .t => do
    ensure (shape.length ≤ 2) .torch
    return .one [.permute (List.range shape.length).reverse]
  | .permute dims => do
    return .one [.permute (← dims.mapM (wrap · shape.length))]
  | .squeeze => .ok (.one (dropViews shape fun _ => true))
  | .squeezeDims dims => do
    let ds ← dims.mapM (wrap · (max shape.length 1))
    ensure ds.Nodup .torch
    return .one (dropViews shape (· ∈ ds))
  | .unsqueeze dim => do return .one [.unsqueeze (← wrap dim (shape.length + 1))]
  | .chunk chunks dim => do
    let d ← wrap dim shape.length
    ensure (0 < chunks) .torch
    let n := shape.getD d 0
    let size := (n + chunks.toNat - 1) / chunks.toNat
    return .many (if size = 0 then List.replicate chunks.toNat (.narrow d 0 0) else splitViews d n size)
  | .split size dim => do
    let d ← wrap dim shape.length
    let n := shape.getD d 0
    ensure (0 < size ∨ size = 0 ∧ n = 0) .torch
    return .many (splitViews d n size.toNat)
  | .splitSizes sizes dim => do
    let d ← wrap dim shape.length
    ensure ((∀ n ∈ sizes, 0 ≤ n) ∧ (sizes.map Int.toNat).sum = shape.getD d 0) .torch
    return .many (partViews d 0 (sizes.map Int.toNat))
  | .unbind dim => do
    let d ← wrap dim shape.length
    return .many ((List.range (shape.getD d 0)).map (.select d))
  | .zero_ => .ok (.one [])

/-! ## Running a chain -/

class Tensorial (T : Type) where
  shape : T → List ℕ
  basic : BasicView → T → T
  zero : T → T

/-- A tensor, or the results of an operation that returns several. -/
inductive Value (T : Type) where
  | tensor (t : T)
  | tuple (ts : List T)

section
variable {T : Type} [Tensorial T]

def applyBasic (t : T) (b : BasicView) : Except PlanError T :=
  if b.Fits (Tensorial.shape t) then .ok (Tensorial.basic b t) else .error .torch

def applyLowered (t : T) : Lowered → Except PlanError (Value T)
  | .one views => do return .tensor (← views.foldlM applyBasic t)
  | .many views => do return .tuple (← views.mapM (applyBasic t))

/-- A link of the chain: a method of a tensor, or the index of a tuple. -/
def Op.apply : Value T → Op → Except PlanError (Value T)
  | .tensor x, .zero_ => .ok (.tensor (Tensorial.zero x))
  | .tensor x, op => do applyLowered x (← op.lower (Tensorial.shape x))
  | .tuple xs, .getitem (.one (.int i)) => do
    let i ← wrap i xs.length
    return .tensor (← found xs[i]? .torch)
  | .tuple xs, .getitem (.one (.slice start stop)) =>
    let range := sliceRange start stop xs.length
    .ok (.tuple ((xs.drop range.1).take range.2))
  | .tuple _, _ => .error .torch

def applyChain (chain : List Op) (t : T) : Except PlanError (Value T) := chain.foldlM Op.apply (.tensor t)

end

/-! ## The two representations -/

instance : Tensorial View where
  shape v := v.shape
  basic b v := ⟨b.resultOffset v, b.resultShape v.shape, b.resultStride v, b.length_resultStride v⟩
  zero v := v

def contiguousView : View := ⟨0, shape, rowMajor shape, length_rowMajor shape⟩

/-- Replaying a chain on a contiguous tensor without storage; all these operations are views. -/
def replayOps : Replay Op := fun opChain globalShape => do
  match ← applyChain opChain (contiguousView globalShape) with
  | .tensor v => return .view v
  | .tuple _ => return .tuple

structure Tensor (α : Type) where
  shape : List ℕ
  get : List ℕ → α

instance {α : Type} [Zero α] : Tensorial (Tensor α) where
  shape t := t.shape
  basic b t := ⟨b.resultShape t.shape, fun j => t.get (b.argIndex j)⟩
  zero t := ⟨t.shape, fun _ => 0⟩

/-- The tensor of a shape whose elements in row-major order are `full`. -/
def sourceTensor {α : Type} (globalShape : List ℕ) (full : ℕ → α) : Tensor α :=
  ⟨globalShape, fun i => full (dot i (rowMajor globalShape))⟩

end ModelExpress.Reshard
