/-
  ModelExpress NCCL M2N refit — the plan and the order of its operations
  (`collective/types.py`, `collective/plan.py`).

  A layer group is submitted in `submissionOrder`: by run (lane, source mesh, destination
  mesh), then by the canonical text of the entry.
-/
import Mathlib.Data.List.Sort
import Mathlib.Data.Prod.Lex
import Mathlib.Data.String.Basic
import ModelExpress.Lib.Checks
import ModelExpress.Lib.Json

namespace ModelExpress.M2n

open Checks Json Text List

/-! ## Plans -/

inductive Placement where
  | replicate
  | shard (dim : ℕ)
  deriving DecidableEq

def Placement.canonical : Placement → String
  | replicate => "R"
  | shard dim => "S" ++ decimal dim

structure MeshSpec where
  shape : List ℕ
  rankOffset : ℕ := 0
  deriving DecidableEq

def MeshSpec.canonical (mesh : MeshSpec) : String :=
  join 'x' (mesh.shape.map decimal) ++ "@" ++ decimal mesh.rankOffset

/-- The geometry of one bulk parameter on both sides. -/
structure ParamPlan where
  name : String
  globalShape : List ℕ
  dtype : String
  partitionId : ℕ
  srcMesh : MeshSpec
  srcPlacements : List Placement
  dstMesh : MeshSpec
  dstPlacements : List Placement
  groupKey : Option String := none
  deriving DecidableEq

variable (entry : ParamPlan)

def ParamPlan.canonical : String :=
  array [
    quote entry.name,
    array (entry.globalShape.map decimal),
    quote entry.dtype,
    decimal entry.partitionId,
    quote entry.srcMesh.canonical,
    array (entry.srcPlacements.map fun p => quote p.canonical),
    quote entry.dstMesh.canonical,
    array (entry.dstPlacements.map fun p => quote p.canonical),
    entry.groupKey.elim "null" quote]

/-- A parameter that rides the packed broadcast. -/
structure MiscParam where
  name : String
  globalShape : List ℕ
  dtype : String
  deriving DecidableEq

structure ReshardPlan where
  bulk : List ParamPlan := []
  misc : List MiscParam := []
  sourcePartitionCount : ℕ := 1
  deriving DecidableEq

variable (plan : ReshardPlan)

def ReshardPlan.parameterNames : List String :=
  plan.bulk.map (·.name) ++ plan.misc.map (·.name)

def sortedNames (names : List String) : List String := names.insertionSort (· ≤ ·)

def duplicates (names : List String) : List String := sortedNames (names.dedup.filter fun name => 1 < names.count name)

/-- What `validate` and `validate_coverage` refuse. -/
inductive PlanError where
  | partitionCount
  | invalidPartitions (ids : List ℕ)
  | duplicates (names : List String)
  | expectedDuplicates (names : List String)
  | missing (names : List String)
  | unknown (names : List String)
  deriving DecidableEq

def ReshardPlan.validate : Except PlanError Unit := do
  ensure (0 < plan.sourcePartitionCount) .partitionCount
  let invalid := ((plan.bulk.map (·.partitionId)).dedup.filter (plan.sourcePartitionCount ≤ ·)).insertionSort (· ≤ ·)
  ensure (invalid = []) (.invalidPartitions invalid)

/-- `validate_coverage`: the plan names every expected parameter once. -/
def validateCoverage (expected : List String) : Except PlanError Unit := do
  plan.validate
  let declared := plan.parameterNames
  ensure (duplicates declared = []) (.duplicates (duplicates declared))
  ensure (duplicates expected = []) (.expectedDuplicates (duplicates expected))
  let missing := sortedNames (expected.filter (· ∉ declared))
  ensure (missing = []) (.missing missing)
  let unknown := sortedNames (declared.filter (· ∉ expected))
  ensure (unknown = []) (.unknown unknown)

/-! ## The order of submission -/

def reshardRunKey : ℕ ×ₗ String ×ₗ String :=
  toLex (entry.partitionId, toLex (entry.srcMesh.canonical, entry.dstMesh.canonical))

def submissionKey : (ℕ ×ₗ String ×ₗ String) ×ₗ String :=
  toLex (reshardRunKey entry, entry.canonical)

variable (entries : List ParamPlan) {a b : ParamPlan}

def submissionOrder : List ParamPlan :=
  entries.insertionSort fun a b => submissionKey a ≤ submissionKey b

def canonicalOrder : List ParamPlan :=
  entries.insertionSort fun a b => a.canonical ≤ b.canonical

theorem submissionOrder_perm : (submissionOrder entries).Perm entries :=
  perm_insertionSort _ entries

theorem canonicalOrder_perm : (canonicalOrder entries).Perm entries :=
  perm_insertionSort _ entries

theorem submissionOrder_sorted : (submissionOrder entries).Pairwise fun a b => submissionKey a ≤ submissionKey b :=
  pairwise_insertionSort _ entries

theorem canonical_name (h : a.canonical = b.canonical) : a.name = b.name := array_quote_inj h

theorem submissionKey_name (h : submissionKey a = submissionKey b) : a.name = b.name := by
  have hpair := toLex.injective h
  exact canonical_name (Prod.mk.inj hpair).2

theorem submissionOrder_eq {entries sorted : List ParamPlan} (hn : (entries.map (·.name)).Nodup)
    (hp : sorted.Perm entries) (hs : sorted.Pairwise fun a b => submissionKey a ≤ submissionKey b) :
    submissionOrder entries = sorted := by
  have hperm := (submissionOrder_perm entries).trans hp.symm
  refine List.Perm.eq_of_pairwise ?_ (submissionOrder_sorted entries) hs hperm
  intro a b ha hb hab hba
  have hname := submissionKey_name (le_antisymm hab hba)
  exact inj_on_of_nodup_map hn ((submissionOrder_perm entries).subset ha) (hp.subset hb) hname

theorem submissionOrder_filter {entries : List ParamPlan} (hn : (entries.map (·.name)).Nodup)
    (p : ParamPlan → Bool) : submissionOrder (entries.filter p) = (submissionOrder entries).filter p := by
  refine submissionOrder_eq ?_ ((submissionOrder_perm entries).filter p) ((submissionOrder_sorted entries).filter p)
  exact hn.sublist ((filter_sublist).map _)

/-! ## Layer groups -/

inductive GroupingError where
  | repeated (group : ℕ)
  | overlapping (name : String)
  | unknown (name : String)
  | uncovered (names : List String)
  deriving DecidableEq

/-- One round of the loop of `validate_layer_groups`. -/
def checkGroup (bulkNames seen : List String) (group : List String × ℕ) : Except GroupingError (List String) := do
  ensure group.1.Nodup (.repeated group.2)
  let overlap := sortedNames (group.1.filter (· ∈ seen))
  ensure (overlap = []) (.overlapping (overlap.headD ""))
  let unknown := sortedNames (group.1.filter (· ∉ bulkNames))
  ensure (unknown = []) (.unknown (unknown.headD ""))
  return seen ++ group.1

def validateLayerGroups (groupings : List (List String)) : Except GroupingError Unit := do
  let bulkNames := plan.bulk.map (·.name)
  let seen ← groupings.zipIdx.foldlM (checkGroup bulkNames) []
  let uncovered := sortedNames (bulkNames.dedup.filter (· ∉ seen))
  ensure (uncovered = []) (.uncovered uncovered)

end ModelExpress.M2n
