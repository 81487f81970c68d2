/-
  ModelExpress vLLM installer — engine slots and the replay schedule (`install_plan.py`). Slots that hold
  one tensor are tied: the first of their names is the canonical one. Layers that share a tensor or whose
  storage overlaps are finished together.
-/
import Mathlib.Data.List.AList
import ModelExpress.Lib.Checks
import ModelExpress.Lib.UnionFind

namespace ModelExpress.Vllm

open Checks

/-! ## Engine slots -/

structure InputSlot where
  name : String
  leaf : String
  identity : ℕ
  isBuffer : Bool
  deriving DecidableEq

structure InputOwner where
  path : String
  slots : List InputSlot
  deriving DecidableEq

/-- `EngineInstallPlan`: a slot is named by the path of its layer and its place there, so no two
    slots have one name. -/
structure EngineInstallPlan where
  inputs : List InputOwner
  overlapGroups : List (List String)
  names : ((inputs.flatMap (·.slots)).map (·.name)).Nodup

/-- A load-layout name, the slot of the layer, and the canonical name. -/
structure Parameter where
  name : String
  leaf : String
  canonical : String
  deriving DecidableEq

structure LayerInstallPlan where
  path : String
  parameters : List Parameter
  deriving DecidableEq

structure InstallTargets where
  owners : List LayerInstallPlan
  deriving DecidableEq

variable (targets : InstallTargets)

/-- The entries of `by_name`, in the order in which they are written. -/
def InstallTargets.entries : List (String × LayerInstallPlan) :=
  targets.owners.flatMap fun owner =>
    (owner.parameters.filter fun parameter => parameter.name = parameter.canonical).map fun parameter => (parameter.name, owner)

def InstallTargets.keys : List String := targets.entries.map Prod.fst

/-- `by_name`: a later entry replaces an earlier one. -/
def InstallTargets.byName (name : String) : Option LayerInstallPlan :=
  targets.entries.reverse.lookup name

/-- The slots of one layer; `canonical` has the first name of every tensor so far. -/
def bindSlots (bufferNames : List String) : (ℕ → Option String) → List InputSlot → List Parameter × (ℕ → Option String)
  | canonical, [] => ([], canonical)
  | canonical, slot :: slots =>
    if slot.isBuffer ∧ slot.name ∉ bufferNames then bindSlots bufferNames canonical slots
    else
      let first := (canonical slot.identity).getD slot.name
      let rest := bindSlots bufferNames (Function.update canonical slot.identity (some first)) slots
      (⟨slot.name, slot.leaf, first⟩ :: rest.1, rest.2)

def bindOwners (bufferNames : List String) : (ℕ → Option String) → List InputOwner → List LayerInstallPlan
  | _, [] => []
  | canonical, owner :: owners =>
    let bound := bindSlots bufferNames canonical owner.slots
    let rest := bindOwners bufferNames bound.2 owners
    if bound.1 = [] then rest else ⟨owner.path, bound.1⟩ :: rest

def EngineInstallPlan.bindTargets (plan : EngineInstallPlan) (bufferNames : List String) : InstallTargets :=
  ⟨bindOwners bufferNames (fun _ => none) plan.inputs⟩

/-! ## The schedule -/

inductive ReplayError where
  | keyError (key : String)
  | invalidated
  | differentPlan
  | coverageDiffers
  | scheduleDiffers
  | incompatibleBatch
  | notInOrder
  | ended
  | engine
  deriving DecidableEq

abbrev LastWrites := AList fun _ : String => ℕ

/-- The last copy to every parameter of a recorded list. -/
def lastWrites (copies : List String) : LastWrites :=
  copies.zipIdx.foldl (fun table item => table.insert item.1 item.2) ∅

/-- `_ReplaySchedule`: the groups, and those that are complete after each copy. -/
structure ReplaySchedule where
  lastWrites : LastWrites
  totalCopies : ℕ
  groups : List (List LayerInstallPlan)
  ready : List (ℕ × List (List LayerInstallPlan))

def ReplaySchedule.groupOf (schedule : ReplaySchedule) (owner : LayerInstallPlan) : Option (List LayerInstallPlan) :=
  schedule.groups.find? (owner ∈ ·)

def ReplaySchedule.readyAt (schedule : ReplaySchedule) (index : ℕ) : List (List LayerInstallPlan) :=
  (schedule.ready.lookup index).getD []

def InstallTargets.ownerOf (name : String) : Option LayerInstallPlan :=
  (targets.owners.flatMap fun owner => owner.parameters.map fun parameter => (parameter.name, owner)).reverse.lookup name

def InstallTargets.canonicalSlots : List (String × List String) :=
  (targets.owners.flatMap (·.parameters)).foldl (fun slots parameter => Buckets.push parameter.canonical parameter.name slots) []

def InstallTargets.links (overlapGroups : List (List String)) : List (List LayerInstallPlan) :=
  (overlapGroups ++ targets.canonicalSlots.map Prod.snd).map fun names => names.filterMap targets.ownerOf

def lastOf (table : LastWrites) (owner : LayerInstallPlan) : Except ReplayError ℕ := do
  let writes ← owner.parameters.mapM fun parameter => found (table.lookup parameter.canonical) (.keyError parameter.canonical)
  return writes.foldl max 0

def groupEnd (table : LastWrites) (group : List LayerInstallPlan) : Except ReplayError ℕ := do
  return (← group.mapM (lastOf table)).foldl max 0

def ReplaySchedule.compile (overlapGroups : List (List String)) (table : LastWrites)
    (totalCopies : ℕ) : Except ReplayError ReplaySchedule := do
  let _ ← targets.owners.mapM (lastOf table)
  let groups := UnionFind.connectedGroups targets.owners (targets.links overlapGroups)
  let ends ← groups.mapM (groupEnd table)
  let ready := (ends.zip groups).foldl (fun ready item => Buckets.push item.1 item.2 ready) []
  return { lastWrites := table, totalCopies, groups, ready }

end ModelExpress.Vllm
