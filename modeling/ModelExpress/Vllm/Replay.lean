/-
  ModelExpress vLLM installer — ordered source replay (`installer.py`). What the engine does is left to it:
  `engine` says, of what has happened and of the next step, whether it is carried out.
-/
import ModelExpress.Vllm.InstallPlan

namespace ModelExpress.Vllm

open Checks

inductive Event where
  | begin (owner : LayerInstallPlan)
  | write (index : ℕ) (owner : LayerInstallPlan)
  | finish (owners : List LayerInstallPlan)
  deriving DecidableEq

/-- `SourceReplayBatch`: writes by index and parameter; `metadata` is the identity of the complete
    plan whose names and last writes the batch has. -/
structure SourceReplayBatch where
  writes : List (ℕ × String)
  metadata : ℕ
  parameterNames : List String
  lastWrites : LastWrites
  totalCopies : ℕ
  generation : Option ℕ

structure InstallExecution where
  targets : InstallTargets
  schedule : Option ReplaySchedule
  installed : List String
  replayStarted : List LayerInstallPlan
  replayNext : ℕ
  replayMetadata : Option ℕ
  trace : List Event

def newInstallExecution (targets : InstallTargets) (schedule : Option ReplaySchedule) : InstallExecution :=
  ⟨targets, schedule, [], [], 0, none, []⟩

section
variable (engine : List Event → Event → Bool) (plan : InstallExecution)

def InstallExecution.perform (event : Event) : Except ReplayError InstallExecution := do
  ensure (engine plan.trace event = true) .engine
  return { plan with trace := plan.trace ++ [event] }

def beginSourceOwner (owner : LayerInstallPlan) : Except ReplayError InstallExecution := do
  let plan ← plan.perform engine (.begin owner)
  return { plan with replayStarted := plan.replayStarted ++ [owner] }

def beginPending (owner : LayerInstallPlan) : Except ReplayError InstallExecution :=
  if owner ∈ plan.replayStarted then return plan else beginSourceOwner engine plan owner

def finishSourceGroup (owners : List LayerInstallPlan) : Except ReplayError InstallExecution := do
  ensure (∀ owner ∈ owners, owner ∈ plan.replayStarted) (.keyError "replay_started")
  let plan ← plan.perform engine (.finish owners)
  return { plan with
    replayStarted := plan.replayStarted.filter (· ∉ owners)
    installed := plan.installed ++ owners.flatMap fun owner => owner.parameters.map (·.canonical) }

/-- The group of a layer is begun before its first write. -/
def beginGroup (schedule : ReplaySchedule) (plan : InstallExecution) (owner : LayerInstallPlan) :
    Except ReplayError InstallExecution :=
  if owner ∈ plan.replayStarted then return plan
  else do (← found (schedule.groupOf owner) (.keyError owner.path)).foldlM (beginPending engine) plan

def applyWrite (schedule : ReplaySchedule) (plan : InstallExecution) (write : ℕ × String) :
    Except ReplayError InstallExecution := do
  ensure (write.1 = plan.replayNext ∧ write.1 < schedule.totalCopies) .notInOrder
  let owner ← found (plan.targets.byName write.2) (.keyError write.2)
  let plan ← beginGroup engine schedule plan owner
  let plan ← plan.perform engine (.write write.1 owner)
  (schedule.readyAt write.1).foldlM (finishSourceGroup engine) { plan with replayNext := plan.replayNext + 1 }

variable (overlapGroups : List (List String)) (plan : InstallExecution) (batch : SourceReplayBatch)

/-- The schedule of the execution, compiled with the first batch if the capture has none. -/
def scheduleFor : Except ReplayError ReplaySchedule :=
  match plan.schedule with
  | some schedule => return schedule
  | none => ReplaySchedule.compile plan.targets overlapGroups batch.lastWrites batch.totalCopies

def bindMetadata : Except ReplayError ReplaySchedule := do
  ensure ((∀ name ∈ batch.parameterNames, name ∈ plan.targets.keys) ∧ ∀ name ∈ plan.targets.keys, name ∈ batch.parameterNames)
    .coverageDiffers
  let schedule ← scheduleFor overlapGroups plan batch
  ensure (batch.lastWrites.entries.Perm schedule.lastWrites.entries) .scheduleDiffers
  return schedule

def batchSchedule : Except ReplayError ReplaySchedule :=
  match plan.replayMetadata with
  | none => bindMetadata overlapGroups plan batch
  | some metadata => do
    ensure (batch.metadata = metadata) .differentPlan
    found plan.schedule (.keyError "schedule")

def applySourceBatch (planGeneration : ℕ) (overlapGroups : List (List String)) (plan : InstallExecution)
    (batch : SourceReplayBatch) : Except ReplayError InstallExecution := do
  ensure (∀ generation, batch.generation = some generation → generation = planGeneration) .invalidated
  let schedule ← batchSchedule overlapGroups plan batch
  ensure (batch.totalCopies = schedule.totalCopies ∧ batch.writes ≠ []) .incompatibleBatch
  batch.writes.foldlM (applyWrite engine schedule)
    { plan with schedule := some schedule, replayMetadata := some batch.metadata }

def finishSourceReplay : Except ReplayError Unit := do
  let schedule ← found plan.schedule (.keyError "schedule")
  ensure (plan.replayNext = schedule.totalCopies ∧ plan.replayStarted = []) .ended

end

end ModelExpress.Vllm
