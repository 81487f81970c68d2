/-
  ModelExpress reshard planner — where a copy may write (`geometry.py`).

  A destination view must stay within the span of the owner and must not touch a hole:
  `validatePhysicalDestination` compares every contiguous run of the view (`stridedSpans`) with
  the blocks of the owner, after dividing all steps by their greatest common divisor.

  Shapes, strides and offsets are natural numbers; the source refuses negative ones.
-/
import Mathlib.Data.List.Sort
import ModelExpress.Reshard.SlicePlan

namespace ModelExpress.Reshard

open Checks

/-- The steps and sizes of the dimensions that have more than one element, by step. -/
def sortedDims (shape stride : List ℕ) : List (ℕ × ℕ) :=
  ((stride.zip shape).filter fun d => 1 < d.2).insertionSort fun a b => a.1 < b.1 ∨ a.1 = b.1 ∧ a.2 ≤ b.2

/-- The runs of `block` elements of a view, its dimensions from the outermost on. -/
def spanRuns (block : ℕ) : List (ℕ × ℕ) → ℕ → List (ℕ × ℕ)
  | [], offset => [(offset, offset + block)]
  | (stride, size) :: dims, offset =>
    (List.range size).flatMap fun index => spanRuns block dims (offset + index * stride)

/-- `_strided_spans`: the contiguous runs of a view, as first and last places. -/
def stridedSpans (shape strides : List ℕ) (start elementSize : ℕ) : List (ℕ × ℕ) :=
  let merged := (sortedDims shape (strides.map (· * elementSize))).foldl
    (fun s d => if s.2.isEmpty ∧ d.1 ≤ s.1 then (s.1 + d.1 * (d.2 - 1), s.2) else (s.1, s.2 ++ [d]))
    (elementSize, ([] : List (ℕ × ℕ)))
  spanRuns merged.1 merged.2.reverse start

/-- The storage of an owner: its span, the size of its innermost block, and the steps and numbers of
    what lies further apart. -/
structure OwnerBlocks where
  span : ℕ
  block : ℕ
  gaps : List (ℕ × ℕ)

def ownerBlocks (dims : List (ℕ × ℕ)) : Except UnsupportedReshard OwnerBlocks :=
  dims.foldlM
    (fun s d => do
      ensure (s.span ≤ d.1) .overlappingOwner
      let span := s.span + (d.2 - 1) * d.1
      return if d.1 = s.block then ⟨span, s.block * d.2, s.gaps⟩ else ⟨span, s.block, s.gaps ++ [d]⟩)
    ⟨1, 1, []⟩

section
variable (shape stride : List ℕ) (offset : ℕ) (ownerShape ownerStride : List ℕ)

/-- The checks up to the holes; `none` if there are none to check. -/
def checkBounds : Except UnsupportedReshard (Option OwnerBlocks) := do
  ensure (shape.length = stride.length ∧ ownerShape.length = ownerStride.length) .destinationGeometry
  let blocks ← ownerBlocks (sortedDims ownerShape ownerStride)
  let span := if ownerShape.prod = 0 then 0 else blocks.span
  let stop := offset + if shape.prod = 0 then 0 else 1 + (shape.zipWith (fun n s => (n - 1) * s) stride).sum
  ensure (offset ≤ span ∧ stop ≤ span) .exceedsOwner
  return if shape.prod = 0 ∨ blocks.gaps = [] ∨ (offset = 0 ∧ shape = ownerShape ∧ stride = ownerStride) then none
    else some blocks

/-- No run of the view leaves the blocks of the owner. -/
def checkHoles (blocks : OwnerBlocks) : Except UnsupportedReshard Unit :=
  forM (stridedSpans shape stride offset 1) fun run => do
    let remainder ← blocks.gaps.reverse.foldlM
      (fun r d => do
        ensure (r / d.1 < d.2) .ownerHoles
        return r % d.1) run.1
    ensure (remainder + (run.2 - run.1) ≤ blocks.block) .ownerHoles

/-- `_validate_physical_destination`.  Divided by their greatest common divisor, the steps have none
    but one, so the source calls itself at most once. -/
def validatePhysicalDestination : Except UnsupportedReshard Unit := do
  match ← checkBounds shape stride offset ownerShape ownerStride with
  | none => return ()
  | some blocks =>
    let unit := ((sortedDims ownerShape ownerStride).map Prod.fst).foldl Nat.gcd 0
    if 1 < unit then
      ensure (offset % unit = 0 ∧ ∀ d ∈ shape.zip stride, 1 < d.1 → d.2 % unit = 0) .ownerHoles
      let reduce (sizes steps : List ℕ) := sizes.zipWith (fun n s => if 1 < n then s / unit else 0) steps
      match ← checkBounds shape (reduce shape stride) (offset / unit) ownerShape (reduce ownerShape ownerStride) with
      | none => return ()
      | some blocks => checkHoles shape (reduce shape stride) (offset / unit) blocks
    else checkHoles shape stride offset blocks

end

end ModelExpress.Reshard
