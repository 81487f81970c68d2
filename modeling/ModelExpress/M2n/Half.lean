/-
  ModelExpress NCCL M2N refit — plan walking and layer groups (`collective/backend.py`, `_CollectiveHalf`).
-/
import ModelExpress.M2n.Plan

namespace ModelExpress.M2n

open Checks

inductive HalfError where
  | partitionCount
  | invalidPartitions (ids : List ℕ)
  | activePartition (id count : ℕ)
  | noStorage (names : List String)
  | grouping (error : GroupingError)
  | noGroup (group : ℕ)
  | alreadyRan (group : ℕ)
  | skipped (groups : List ℕ)
  deriving DecidableEq

structure Half where
  plan : ReshardPlan
  /-- all bulk entries, in canonical order -/
  allBulk : List ParamPlan
  /-- the bulk entries of this rank -/
  bulk : List ParamPlan
  groups : List (ℕ × List ParamPlan)
  deriving DecidableEq

def defaultLayerGroup : ℕ := 0

/-- The rank takes part in the reshards of the partition: a trainer in those of its own, a generator in all. -/
def Takes (active : Option ℕ) (partition : ℕ) : Prop := ∀ p ∈ active, partition = p

instance (active : Option ℕ) (partition : ℕ) : Decidable (Takes active partition) :=
  inferInstanceAs (Decidable (∀ p ∈ active, partition = p))

def resolveSpecs (specs required : List String) : Except HalfError Unit :=
  let missing := required.filter (· ∉ specs)
  ensure (missing = []) (.noStorage missing)

def Half.new (plan : ReshardPlan) (specs : List String) (active : Option ℕ) : Except HalfError Half := do
  ensure (0 < plan.sourcePartitionCount) .partitionCount
  let invalid := ((plan.bulk.map (·.partitionId)).dedup.filter (plan.sourcePartitionCount ≤ ·)).insertionSort (· ≤ ·)
  ensure (invalid = []) (.invalidPartitions invalid)
  ensure (∀ p ∈ active, p < plan.sourcePartitionCount) (.activePartition (active.getD 0) plan.sourcePartitionCount)
  let allBulk := canonicalOrder plan.bulk
  let bulk := allBulk.filter fun entry => Takes active entry.partitionId
  resolveSpecs specs (bulk.map (·.name) ++ plan.misc.map (·.name))
  return { plan, allBulk, bulk, groups := [(defaultLayerGroup, bulk)] }

def Half.setupLayerGroups (half : Half) : Option (List (List String)) → Except HalfError Half
  | none => return { half with groups := [(defaultLayerGroup, half.bulk)] }
  | some groupings => do
    (validateLayerGroups half.plan groupings).mapError .grouping
    let activeNames := half.bulk.map (·.name)
    return { half with
      groups := groupings.zipIdx.map fun group =>
        (group.2, half.allBulk.filter fun entry => entry.name ∈ group.1 ∧ entry.name ∈ activeNames) }

def Half.entries (half : Half) (group : ℕ) : Except HalfError (List ParamPlan) :=
  found (half.groups.lookup group) (.noGroup group)

def Half.claimGroup (half : Half) (ran : List ℕ) (group : ℕ) : Except HalfError (List ParamPlan) := do
  let entries ← half.entries group
  ensure (group ∉ ran) (.alreadyRan group)
  return entries

def Half.requireEveryGroup (half : Half) (ran : List ℕ) : Except HalfError Unit := do
  let skipped := (half.groups.map (·.1)).filter (· ∉ ran)
  ensure (skipped = []) (.skipped skipped)

/-- An operation on a communicator: a reshard of a layer group, or a broadcast. -/
inductive Op where
  | reshard (group : ℕ) (entry : ParamPlan)
  | broadcast (param : MiscParam)
  deriving DecidableEq

/-- The layer groups that are run, after those that ran already: the operations that are issued, and the groups
    that have run at the end. -/
def Half.runGroups (half : Half) : List ℕ → List ℕ → Except HalfError (List Op × List ℕ)
  | ran, [] => return ([], ran)
  | ran, group :: rest => do
    let entries ← half.claimGroup ran group
    let (ops, ran) ← half.runGroups (ran ++ [group]) rest
    return ((submissionOrder entries).map (.reshard group) ++ ops, ran)

/-- One round: `_submit_layer_group` for each of the groups, in the order given, then `finish_weight_update`. -/
def Half.round (half : Half) (order : List ℕ) : Except HalfError (List Op) := do
  let (ops, ran) ← half.runGroups [] order
  half.requireEveryGroup ran
  return ops ++ half.plan.misc.map .broadcast

end ModelExpress.M2n
