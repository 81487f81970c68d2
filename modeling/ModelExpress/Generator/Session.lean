/-
  ModelExpress generator — one weight update of one rank (`inference/session.py`, `methods/`).

  What is called outside is logged with what it found; how a call ends is decided by the
  parameter `World`, which knows everything called before.  The tensors of an engine are a
  value of any type.
-/
import ModelExpress.Lib.Effects
import ModelExpress.Generator.Lineage

namespace ModelExpress.Generator

open Effects

/-! ## Calls and answers -/

inductive WeightSource where
  | trainer
  | generator
  | objectStorage
  deriving DecidableEq

inductive Raised where
  | rpc
  | runtime
  | recovery
  | manifest
  | other
  deriving DecidableEq

/-- `grpc.RpcError`, `RuntimeError` or `ManifestMismatchError`: another candidate or source may do. -/
def Raised.unavailable : Raised → Bool
  | .other => false
  | _ => true

inductive Act where
  -- control plane
  | getWeightVersion (version : String)
  | startLease (version : String)
  | deleteLease (lease : ℕ)
  | resolveReplayChain (version : String)
  -- planner; `nextPlan` advances its iterator
  | validate (version : String)
  | nextPlan (version : String)
  -- update methods
  | prepare (version : String)
  | preparationFailed
  | preparePeerRead
  | receivePeer
  | closeRead
  | enterContext
  | leaveContext
  | installationFailed
  | releaseMethod
  -- engine; `installed` marks that the installation of a checkpoint returned
  | indexCheckpoint
  | install (version : String)
  | installed (version : String)
  | unpublish
  | publish (version : String)
  deriving DecidableEq

/-- The calls that may write to the tensors of the engine. -/
def Act.writes : Act → Bool
  | .receivePeer | .install _ => true
  | _ => false

structure Event (W : Type) where
  act : Act
  ok : Bool
  published : Option String
  engine : W

structure World (W : Type) where
  /-- what a call raises, if it does -/
  answer : List (Event W) → Act → Option Raised
  weights : String → W
  /-- what a failed installation or a started transfer leaves -/
  junk : List (Event W) → W
  starts : List (Event W) → Bool
  /-- a call to publish or to unpublish that raised has had its effect -/
  takes : List (Event W) → Bool
  /-- how many plans there are for a version -/
  attempts : List (Event W) → ℕ
  /-- the versions to replay before the target -/
  bases : List (Event W) → List String
  /-- the plans of a chain all have the same method and installer -/
  oneMethod : List (Event W) → Bool
  /-- `ownership.release_blocked` -/
  blocked : List (Event W) → Bool
  streamed : List (Event W) → Bool
  /-- the checkpoint store -/
  chain : List (Event W) → String → Option Chain
  index : List (Event W) → String → Option (List String)
  /-- the tensors of the checkpoint of a version -/
  tensors : String → List String
  /-- a module has been fed without being complete -/
  incomplete : List (Event W) → Bool

structure Config where
  sourceOrder : List WeightSource
  /-- bounded staging is configured -/
  streaming : Bool
  /-- there is a resolver of replay chains -/
  replay : Bool
  /-- the engine has runtime tensors to publish -/
  publishes : Bool
  /-- the version served at first is known -/
  hasInitial : Bool
  /-- `MX_REFIT_DELTA_SURGICAL` -/
  surgical : Bool
  deriving DecidableEq

/-! ## State -/

inductive PreparedArtifact where
  | engineTensors
  | streamingTensors
  | runtimeTensors (read : ℕ)
  | checkpoint (targetVersion : String) (streaming : Bool) (deltaChanges : List DeltaChange)
  deriving DecidableEq

/-- `SessionUpdate`, with the version of its plan.  A single lease is the group of it alone. -/
structure SessionUpdate where
  version : String
  prepared : PreparedArtifact
  lease : List ℕ
  applied : Bool := false
  released : Bool := false
  installationStarted : Bool := false
  deriving DecidableEq

/-- `_PreparedRuntimeTensorRead`; `leased`: there is a tensor read. -/
structure PeerRead where
  id : ℕ
  leased : Bool
  transferStarted : Bool
  deriving DecidableEq

structure StagedWeightHandle where
  id : ℕ
  versionId : String
  update : Option ℕ
  deriving DecidableEq

/-- The client, its session and methods, the installer and the engine. -/
structure State (W : Type) where
  engine : W
  /-- the version that the runtime tensors are published under -/
  published : Option String
  servingVersionId : Option String
  ready : Bool
  activeHandle : Option StagedWeightHandle := none
  handles : ℕ := 0
  updates : List SessionUpdate := []
  leases : ℕ := 0
  closed : List ℕ := []
  activeRead : Option PeerRead := none
  reads : ℕ := 0
  liveVersion : Option String := none
  trace : List (Event W) := []

abbrev Updating (W : Type) := EStateM Raised (State W)

variable {W : Type}

def State.log (s : State W) (act : Act) (ok : Bool) : State W :=
  { s with trace := s.trace ++ [⟨act, ok, s.published, s.engine⟩] }

def State.modifyUpdate (s : State W) (i : ℕ) (f : SessionUpdate → SessionUpdate) : State W :=
  { s with updates := s.updates.modify i f }

section
variable (world : World W) (config : Config)

/-- A call and what it does to the state. -/
def callWith (act : Act) (effect : Bool → State W → State W) : Updating W Unit := do
  match world.answer (← get).trace act with
  | none => modify fun s => effect true (s.log act true)
  | some e =>
    modify fun s => effect false (s.log act false)
    throw e

def call (act : Act) : Updating W Unit := callWith world act fun _ s => s

def theUpdate (i : ℕ) : Updating W SessionUpdate := do
  match (← get).updates[i]? with
  | some update => return update
  | none => throw .other

def modifyUpdate (i : ℕ) (f : SessionUpdate → SessionUpdate) : Updating W Unit := modify (·.modifyUpdate i f)

/-! ## Leases -/

variable (version : String)

def startLease : Updating W ℕ := do
  call world (.startLease version)
  let lease := (← get).leases
  modify fun s => { s with leases := lease + 1 }
  return lease

def closeVersionLease (lease : ℕ) : Updating W Unit := do
  if lease ∈ (← get).closed then return
  call world (.deleteLease lease)
  modify fun s => { s with closed := lease :: s.closed }

/-- Closes every lease; the first error is the one to be raised. -/
def closeEach : List ℕ → Updating W (Option Raised)
  | [] => return none
  | lease :: leases => do
    let error ← tryCatch (do closeVersionLease world lease; return none) fun e => return some e
    let later ← closeEach leases
    return error.or later

def closeGroup (leases : List ℕ) : Updating W Unit := do
  match ← closeEach world leases.reverse with
  | some e => throw e
  | none => return

def closeLease (leases : List ℕ) (primary : Bool) : Updating W Unit :=
  tryCatch (closeGroup world leases) fun e => if e = .rpc ∧ primary then return else throw e

/-- The leases are given back when the rest raises. -/
def orCloseLease {α : Type} (leases : List ℕ) (x : Updating W α) : Updating W α :=
  tryCatch x fun e => do
    closeLease world leases true
    throw e

/-! ## Staging -/

def prepareArtifact : WeightSource → Updating W PreparedArtifact
  | .generator => do
    if (← get).activeRead.isSome then throw .runtime
    call world (.prepare version)
    let read := (← get).reads
    modify fun s => { s with activeRead := some ⟨read, true, false⟩, reads := read + 1 }
    return .runtimeTensors read
  | .trainer => do
    call world (.prepare version)
    return if config.streaming then .streamingTensors else .engineTensors
  | .objectStorage => do
    call world (.prepare version)
    let t := (← get).trace
    if world.streamed t then return .checkpoint version true []
    return .checkpoint version false (deltaChanges (world.index t) config.surgical (world.chain t version))

def recoverPreparation : Updating W Unit :=
  tryCatch (call world .preparationFailed) fun _ => throw .recovery

/-- `_prepare_candidates`, for the plans that are left and the last error. -/
def prepareCandidates (version : String) (source : WeightSource) : ℕ → Option Raised → Updating W PreparedArtifact
  | 0, last => do
    call world (.nextPlan version)
    throw (last.getD .runtime)
  | n + 1, _ => do
    call world (.nextPlan version)
    match ← attempt (prepareArtifact world config version source) with
    | .ok prepared => return prepared
    | .error e =>
      if e.unavailable = false then throw e
      if ¬ (config.streaming ∧ source = .trainer) then
        if e = .recovery then throw e
        recoverPreparation world
      prepareCandidates version source n (some e)

def addUpdate (update : SessionUpdate) : Updating W ℕ := do
  let i := (← get).updates.length
  modify fun s => { s with updates := s.updates ++ [update] }
  return i

def stageOne (source : WeightSource) : Updating W ℕ := do
  let lease ← startLease world version
  orCloseLease world [lease] do
    let prepared ← prepareCandidates world config version source (world.attempts (← get).trace) none
    addUpdate { version, prepared, lease := [lease] }

/-- One lease per version of a chain; `leases` are those already taken. -/
def startLeases : List String → List ℕ → Updating W (List ℕ)
  | [], leases => return leases
  | version :: versions, leases => do
    let lease ← orCloseLease world leases (startLease world version)
    startLeases versions (leases ++ [lease])

def replayPlans : List String → Updating W Unit
  | [] => return
  | version :: versions => do
    call world (.nextPlan version)
    if world.attempts (← get).trace = 0 then throw .runtime
    replayPlans versions

/-- `_stage_replay_chain`, for the versions before the target. -/
def stageReplayChain (bases : List String) (target : String) : Updating W ℕ :=
  if bases = [] then stageOne world config target .objectStorage
  else do
    let leases ← startLeases world (bases ++ [target]) []
    orCloseLease world leases do
      replayPlans world (bases ++ [target])
      if world.oneMethod (← get).trace = false then throw .runtime
      let prepared ← tryCatch (prepareArtifact world config target .objectStorage) fun e => do
        recoverPreparation world
        throw e
      addUpdate { version := target, prepared, lease := leases }

/-- `_stage_source`; a chain that has been resolved ends in the target. -/
def stageSource : WeightSource → Updating W ℕ
  | .objectStorage => do
    if config.replay = false then throw .runtime
    call world (.resolveReplayChain version)
    let bases := world.bases (← get).trace
    (bases ++ [version]).forM fun replayed => call world (.validate replayed)
    stageReplayChain world config bases version
  | source => stageOne world config version source

/-- `WeightUpdateSession.stage`: the sources in order, the last one without fallback. -/
def stage (version : String) : List WeightSource → Updating W ℕ
  | [] => throw .runtime
  | [source] => stageSource world config version source
  | source :: source' :: sources =>
    tryCatch (stageSource world config version source) fun e =>
      if e = .recovery ∨ e.unavailable = false then throw e else stage version (source' :: sources)

/-! ## Applying and releasing -/

def modifyRead (f : PeerRead → PeerRead) : Updating W Unit :=
  modify fun s => { s with activeRead := s.activeRead.map f }

/-- `receive_peer`: it says that it starts before it writes. -/
def receivePeer : Updating W Unit :=
  callWith world .receivePeer fun _ s =>
    if world.starts s.trace then
      { s with engine := world.junk s.trace, activeRead := s.activeRead.map ({ · with transferStarted := true }) }
    else s

def enterContext : PreparedArtifact → Updating W Unit
  | .runtimeTensors id => do
    match (← get).activeRead with
    | none => throw .runtime
    | some read =>
      if read.id ≠ id then throw .runtime
      if read.leased = false then
        if read.transferStarted then throw .runtime
        call world .preparePeerRead
        modifyRead ({ · with leased := true })
      tryFinally (receivePeer world) (tryFinally (call world .closeRead) (modifyRead ({ · with leased := false })))
  | _ => call world .enterContext

/-- Leaving it; a peer transfer has nothing left to do. -/
def leaveContext : PreparedArtifact → Updating W Unit
  | .runtimeTensors _ => return
  | _ => call world .leaveContext

def State.mutated (s : State W) : PreparedArtifact → Bool
  | .runtimeTensors id => s.activeRead.any fun read => read.id = id && read.transferStarted
  | _ => false

/-- What `apply` does under `try`; `install` is the installer. -/
def installUpdate (install : SessionUpdate → Updating W Unit) (i : ℕ) (update : SessionUpdate) : Updating W Unit := do
  enterContext world update.prepared
  tryFinally (do modifyUpdate i ({ · with installationStarted := true }); install update)
    (leaveContext world update.prepared)
  modifyUpdate i ({ · with applied := true })

/-- What `apply` does when that raises. -/
def fenceUpdate (i : ℕ) (prepared : PreparedArtifact) : Updating W Unit := do
  let mutated := (← get).mutated prepared
  modifyUpdate i fun update => { update with installationStarted := update.installationStarted || mutated }
  if (← theUpdate i).installationStarted then
    tryCatch (call world .installationFailed) fun _ => return

def applyUpdate (install : SessionUpdate → Updating W Unit) (i : ℕ) : Updating W Unit := do
  let update ← theUpdate i
  if update.released then throw .runtime
  if update.applied then return
  match ← attempt (installUpdate world install i update) with
  | .ok _ =>
    if ¬ (update.prepared = .streamingTensors ∧ world.blocked (← get).trace) then closeLease world update.lease false
  | .error e =>
    fenceUpdate world i update.prepared
    if ¬ (update.prepared = .streamingTensors ∧ world.blocked (← get).trace) then closeLease world update.lease true
    throw e

def releaseMethod : PreparedArtifact → Updating W Unit
  | .runtimeTensors id => do
    match (← get).activeRead with
    | none => throw .runtime
    | some read =>
      if read.id ≠ id then throw .runtime
      tryFinally (if read.leased then call world .closeRead else pure ())
        (modify fun s : State W => { s with activeRead := none })
  | _ => call world .releaseMethod

def releaseUpdate (i : ℕ) : Updating W Unit := do
  let update ← theUpdate i
  if update.released then return
  if update.prepared = .streamingTensors ∧ world.blocked (← get).trace then throw .runtime
  match ← attempt (releaseMethod world update.prepared) with
  | .ok _ =>
    modifyUpdate i ({ · with released := true })
    closeLease world update.lease false
  | .error e =>
    modifyUpdate i ({ · with released := true })
    closeLease world update.lease true
    throw e

end

end ModelExpress.Generator
