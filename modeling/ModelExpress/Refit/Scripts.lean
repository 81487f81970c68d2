/-
  ModelExpress refit control plane — the Lua scripts.

  A script is atomic; what it writes before it refuses stays written (the purge of expired
  leases in `updateTrainerMeshScript` and `deleteTrainerMeshScript`).
-/
import ModelExpress.Refit.Store

namespace ModelExpress.Refit

open Checks Function

/-! ## Workers -/

inductive RegisterOutcome where
  | ok (expiresAt : ℕ)
  | conflict
  deriving DecidableEq

def registerWorkerScript (a : Registration) (ttl : ℕ) (s : Store) : RegisterOutcome × Store :=
  let sameRegistration := (s.workers a.workerId).all fun r =>
    r.role = a.role ∧ r.modelName = a.modelName ∧ r.refitEndpoint = a.refitEndpoint
  if ¬ sameRegistration then (.conflict, s)
  else (.ok (s.now + ttl), { s with workers := update s.workers a.workerId (some a) })

/-! ## Meshes -/

inductive WorkerRefusal where
  | workerNotFound
  | workerMismatch
  deriving DecidableEq

variable (s : Store)

/-- The check of one selected worker: an active trainer registration for the model and the endpoint. -/
def checkMeshWorker (modelName : String) (workers : Members) (workerId : String) : Option WorkerRefusal :=
  match s.workers workerId with
  | none => some .workerNotFound
  | some r =>
    if r.modelName ≠ modelName ∨ r.role ≠ .trainer then some .workerMismatch
    else
      match workers.lookup r.workerId with
      | none => some .workerMismatch
      | some m => if r.refitEndpoint ≠ m.metadataEndpoint then some .workerMismatch else none

inductive CreateMeshOutcome where
  | existing (meshId : String)
  | collision
  | refused (refusal : WorkerRefusal)
  | created
  deriving DecidableEq

structure CreateMeshArgs where
  meshId : String
  modelName : String
  requestKey : String
  logicalShards : List String
  workers : Members

def createTrainerMeshScript (a : CreateMeshArgs) (s : Store) : CreateMeshOutcome × Store :=
  match s.meshRequests a.requestKey with
  | some existing => (.existing existing, s)
  | none =>
    if (s.meshes a.meshId).isSome then (.collision, s)
    else
      match a.workers.entries.findSome? fun e => checkMeshWorker s a.modelName a.workers e.1 with
      | some refusal => (.refused refusal, s)
      | none => (.created, { s with
          meshes := update s.meshes a.meshId (some {
            meshId := a.meshId
            modelName := a.modelName
            generation := 1
            logicalShards := a.logicalShards
            workers := a.workers
            initialWorkers := a.workers
            pins := fun _ => none })
          meshRequests := update s.meshRequests a.requestKey (some a.meshId) })

inductive UpdateMeshOutcome where
  | notFound
  | coverageMismatch
  | generationMismatch
  | refused (refusal : WorkerRefusal)
  | unchanged
  | versionLeased
  | updated
  deriving DecidableEq

structure UpdateMeshArgs where
  meshId : String
  expectedGeneration : ℕ
  workers : Members
  modelName : String

variable (old replacement : Members)

def covers : Bool :=
  replacement.shardIds.all (· ∈ old.shardIds) && old.shardIds.all (· ∈ replacement.shardIds)

def unchangedMembers : Bool :=
  (old.entries.all fun e => replacement.lookup e.1 = some e.2) &&
    replacement.entries.all fun e => (old.lookup e.1).isSome

/-- `changed`: the replacement's workers that are new, re-sharded or re-addressed. -/
def changedMembers : List (String × TrainerTensorsMetadata) :=
  (replacement.entries.map fun e => (e.1, e.2)).filter fun e => old.lookup e.1 ≠ some e.2

/-- `removed`: the old workers that are gone or re-sharded. -/
def removedMembers : List (String × TrainerTensorsMetadata) :=
  (old.entries.map fun e => (e.1, e.2)).filter fun e =>
    (replacement.lookup e.1).all fun current => current.logicalShardId ≠ e.2.logicalShardId

variable (versionId : String)

/-- The publication keys of one version that the update retires. -/
def retiredKeys (removed changed : List (String × TrainerTensorsMetadata)) : List String :=
  (removed.map fun e => publicationKey e.1 e.2.logicalShardId).filter
    (fun key => ((s.shards versionId).lookup key).isSome) ++
  (changed.filter fun e =>
    let key := publicationKey e.1 e.2.logicalShardId
    ((s.shards versionId).lookup key).isSome ∧
      s.endpoints versionId key ≠ some e.2.metadataEndpoint).map
    fun e => publicationKey e.1 e.2.logicalShardId

/-- The loop over the linked versions: purge, stop at a lease, collect what retires. -/
def collectRetired (removed changed : List (String × TrainerTensorsMetadata)) :
    List String → Store → Option (List (String × String)) × Store
  | [], s => (some [], s)
  | versionId :: versionIds, s =>
    let s := s.purgeLeases versionId
    if s.leaseSet versionId ≠ [] then (none, s)
    else
      let found := (retiredKeys s versionId removed changed).map fun key => (versionId, key)
      let r := collectRetired removed changed versionIds s
      (r.1.map (found ++ ·), r.2)

def Store.dropPublication (versionId key : String) : Store :=
  { s with
    shards := update s.shards versionId ((s.shards versionId).erase key)
    endpoints := update s.endpoints versionId
      (update (s.endpoints versionId) key none) }

def updateTrainerMeshScript (a : UpdateMeshArgs) (s : Store) : UpdateMeshOutcome × Store :=
  match s.meshes a.meshId with
  | none => (.notFound, s)
  | some mesh =>
    if ¬ covers mesh.workers a.workers then (.coverageMismatch, s)
    else if mesh.generation ≠ a.expectedGeneration then (.generationMismatch, s)
    else
      match a.workers.entries.findSome? fun e => checkMeshWorker s a.modelName a.workers e.1 with
      | some refusal => (.refused refusal, s)
      | none =>
        if unchangedMembers mesh.workers a.workers then (.unchanged, s)
        else
          match collectRetired (removedMembers mesh.workers a.workers)
            (changedMembers mesh.workers a.workers) (s.meshVersions a.meshId) s with
          | (none, s) => (.versionLeased, s)
          | (some retired, s) =>
            let s := retired.foldl (fun s p => s.dropPublication p.1 p.2) s
            (.updated, { s with
              meshes := update s.meshes a.meshId (some { mesh with
                workers := a.workers
                generation := a.expectedGeneration + 1
                pins := fun _ => none }) })

inductive DeleteMeshOutcome where
  | notFound
  | inUse
  | deleted
  deriving DecidableEq

/-- The loop over the linked versions: each must be releasing, without publications and leases. -/
def checkRetired : List String → Store → Bool × Store
  | [], s => (true, s)
  | versionId :: versionIds, s =>
    let s := s.purgeLeases versionId
    if (s.versions versionId).map (·.state) ≠ some .releasing ∨ (s.shards versionId).entries ≠ [] ∨
        s.leaseSet versionId ≠ [] then (false, s)
    else checkRetired versionIds s

def deleteTrainerMeshScript (meshId : String) (s : Store) : DeleteMeshOutcome × Store :=
  match s.meshes meshId with
  | none => (.notFound, s)
  | some _ =>
    match checkRetired (s.meshVersions meshId) s with
    | (false, s) => (.inUse, s)
    | (true, s) => (.deleted, { s with
        meshes := update s.meshes meshId none
        meshVersions := update s.meshVersions meshId [] })

/-! ## Versions -/

inductive CreateVersionOutcome where
  | existing (uid : String)
  | collision
  | meshNotFound
  | meshModelMismatch
  | meshGenerationMissing
  | created
  deriving DecidableEq

structure CreateVersionArgs where
  uid : String
  modelName : String
  idempotencyKey : String
  payloadFormat : Int32
  baseVersionId : String
  s3Uri : String
  state : Int32
  trainerMeshId : String
  versionNumber : Option Int64
  deriving DecidableEq

variable (a : CreateVersionArgs)

def CreateVersionArgs.version (generation : ℕ) : WeightVersion where
  uid := a.uid
  modelName := a.modelName
  idempotencyKey := a.idempotencyKey
  payloadFormat := a.payloadFormat
  baseVersionId := a.baseVersionId
  s3Uri := a.s3Uri
  initialState := a.state
  state := .ofCode a.state
  trainerMeshId := a.trainerMeshId
  trainerMeshGeneration := generation
  versionNumber := a.versionNumber

/-- The generation a new version is stamped with. -/
def meshGeneration : Except CreateVersionOutcome ℕ :=
  if a.trainerMeshId = "" then .ok 0
  else
    match s.meshes a.trainerMeshId with
    | none => .error .meshNotFound
    | some mesh =>
      if mesh.modelName ≠ a.modelName then .error .meshModelMismatch
      else if mesh.generation = 0 then .error .meshGenerationMissing
      else .ok mesh.generation

def createWeightVersionScript (s : Store) : CreateVersionOutcome × Store :=
  let requestKey := idempotencyKey a.modelName a.idempotencyKey
  match s.versionRequests requestKey with
  | some existing => (.existing existing, s)
  | none =>
    if (s.versions a.uid).isSome then (.collision, s)
    else
      match meshGeneration s a with
      | .error o => (o, s)
      | .ok generation => (.created, { s with
          versions := update s.versions a.uid (some (a.version generation))
          meshVersions := if a.trainerMeshId = "" then s.meshVersions else
            update s.meshVersions a.trainerMeshId
              ((s.meshVersions a.trainerMeshId).insert a.uid)
          versionRequests := update s.versionRequests requestKey (some a.uid) })

inductive UpdateStateOutcome where
  | versionNotFound
  | invalidTransition
  | ok
  deriving DecidableEq

def Store.setState (version : WeightVersion) (state : WeightVersionState) : Store :=
  { s with versions := update s.versions versionId (some { version with state }) }

def updateWeightVersionStateScript (target : WeightVersionState) (s : Store) : UpdateStateOutcome × Store :=
  match s.versions versionId with
  | none => (.versionNotFound, s)
  | some version =>
    if version.state = target then (.ok, s)
    else
      let s3Ready := version.state = .staging ∧ target = .ready ∧ version.s3Uri ≠ ""
      let releasing := (version.state = .staging ∨ version.state = .ready) ∧ target = .releasing
      if ¬ s3Ready ∧ ¬ releasing then (.invalidTransition, s)
      else (.ok, s.setState versionId version target)

/-! ## Publications -/

inductive CreateShardRefusal where
  | versionNotFound
  | workerNotFound
  | modelMismatch
  | versionNotWritable
  | meshNotFound
  | meshGenerationMissing
  | meshGenerationMismatch
  | workerNotTrainer
  | workerNotInMesh
  | workerEndpointMismatch
  | shardConflict
  | stableMetadataMismatch
  deriving DecidableEq

/-- A member whose shard is published: from the mesh's endpoint, by a live trainer of the model. -/
def publishes (versionId modelName workerId : String) (m : TrainerTensorsMetadata) : Bool :=
  let key := publicationKey workerId m.logicalShardId
  ((s.shards versionId).lookup key).isSome && s.endpoints versionId key = some m.metadataEndpoint &&
    (s.workers workerId).any fun r =>
      r.refitEndpoint = m.metadataEndpoint ∧ r.modelName = modelName ∧ r.role = .trainer

/-- The counting loop: the shards present so far, and how many. -/
def countCovered (versionId modelName : String) (workers : Members) : ℕ :=
  (workers.entries.foldl (fun (acc : List String × ℕ) e =>
    if publishes s versionId modelName e.1 e.2 ∧ e.2.logicalShardId ∉ acc.1 then
      (e.2.logicalShardId :: acc.1, acc.2 + 1)
    else acc) ([], 0)).2

def Store.publish (meshId : String) (mesh : TrainerMesh) (shard : WeightVersionShard) : Store :=
  let key := publicationKey shard.workerId shard.logicalShardId
  { s with
    meshes := update s.meshes meshId (some { mesh with
      pins := update mesh.pins key (some shard.stableMetadataDigest) })
    shards := update s.shards shard.versionId ((s.shards shard.versionId).insert key shard)
    endpoints := update s.endpoints shard.versionId
      (update (s.endpoints shard.versionId) key (some shard.metadataEndpoint)) }

/-- The checks of `create_weight_version_shard.lua`, in its order. -/
def checkShard (modelName meshId : String) (shard : WeightVersionShard) (s : Store) :
    Except CreateShardRefusal (WeightVersion × TrainerMesh) := do
  let version ← found (s.versions shard.versionId) .versionNotFound
  let r ← found (s.workers shard.workerId) .workerNotFound
  ensure (r.modelName = modelName) .modelMismatch
  ensure (version.state = .staging ∨ version.state = .ready) .versionNotWritable
  ensure (version.s3Uri = "") .versionNotWritable
  let mesh ← found (s.meshes meshId) .meshNotFound
  ensure (version.trainerMeshGeneration ≠ 0) .meshGenerationMissing
  ensure (version.trainerMeshGeneration = mesh.generation) .meshGenerationMismatch
  ensure (r.role = .trainer) .workerNotTrainer
  let m ← found (mesh.workers.lookup shard.workerId) .workerNotInMesh
  ensure (m.logicalShardId = shard.logicalShardId) .workerNotInMesh
  ensure (m.metadataEndpoint = shard.metadataEndpoint ∧ r.refitEndpoint = shard.metadataEndpoint)
    .workerEndpointMismatch
  let key := publicationKey shard.workerId shard.logicalShardId
  ensure (((s.shards shard.versionId).lookup key).all (· = shard)) .shardConflict
  ensure ((mesh.pins key).all (· = shard.stableMetadataDigest)) .stableMetadataMismatch
  return (version, mesh)

/-- `create_weight_version_shard.lua`: a refusal, or the state of the version. -/
def createWeightVersionShardScript (modelName meshId : String) (shard : WeightVersionShard)
    (s : Store) : Except CreateShardRefusal WeightVersionState × Store :=
  match checkShard modelName meshId shard s with
  | .error refusal => (.error refusal, s)
  | .ok (version, mesh) =>
    let s := s.publish meshId mesh shard
    if countCovered s shard.versionId modelName mesh.workers = mesh.logicalShards.length then
      (.ok .ready, s.setState shard.versionId version .ready)
    else (.ok version.state, s)

inductive DeleteShardOutcome where
  | versionNotFound
  | workerNotFound
  | shardNotFound
  | shardConflict
  | versionLeased
  | deleted
  deriving DecidableEq

def deleteWeightVersionShardScript (versionId workerId key : String) (encoded : WeightVersionShard)
    (s : Store) : DeleteShardOutcome × Store :=
  if (s.versions versionId).isNone then (.versionNotFound, s)
  else if (s.workers workerId).isNone then (.workerNotFound, s)
  else
    match (s.shards versionId).lookup key with
    | none => (.shardNotFound, s)
    | some current =>
      if current ≠ encoded then (.shardConflict, s)
      else
        let s := s.purgeLeases versionId
        if s.leaseSet versionId ≠ [] then (.versionLeased, s)
        else (.deleted, s.dropPublication versionId key)

/-! ## Leases -/

inductive RegisterLeaseOutcome where
  | versionNotFound
  | workerNotFound
  | workerNotGenerator
  | modelMismatch
  | leaseConflict
  | versionNotLeaseable
  | ok (expiresAt : ℕ)
  deriving DecidableEq

structure RegisterLeaseArgs where
  leaseId : String
  versionId : String
  workerId : String
  ttl : ℕ
  deriving DecidableEq

/-- Write a lease hash with its TTL, and its entry in the sorted set. -/
def Store.putLease (l : VersionLease) : Store :=
  { s with
    leases := update s.leases (leaseKey l.versionId l.leaseId) (some l)
    leaseSet := update s.leaseSet l.versionId
      ((s.leaseSet l.versionId).zadd l.expiresAt l.leaseId) }

def registerVersionLeaseScript (a : RegisterLeaseArgs) (s : Store) : RegisterLeaseOutcome × Store :=
  match s.versions a.versionId, s.workers a.workerId with
  | none, _ => (.versionNotFound, s)
  | some _, none => (.workerNotFound, s)
  | some version, some r =>
    if r.role ≠ .generator then (.workerNotGenerator, s)
    else if r.modelName ≠ version.modelName then (.modelMismatch, s)
    else
      let refusal : Option RegisterLeaseOutcome :=
        match s.lease (leaseKey a.versionId a.leaseId) with
        | some l =>
          if ¬ (l.leaseId = a.leaseId ∧ l.versionId = a.versionId ∧ l.workerId = a.workerId) then
            some .leaseConflict
          else if version.state ≠ .ready ∧ version.state ≠ .releasing then some .versionNotLeaseable
          else none
        | none => if version.state ≠ .ready then some .versionNotLeaseable else none
      match refusal with
      | some o => (o, s)
      | none =>
        (.ok (s.now + a.ttl), s.putLease ⟨a.leaseId, a.versionId, a.workerId, s.now + a.ttl⟩)

inductive DeleteLeaseOutcome where
  | notFound
  | leaseConflict
  | deleted
  deriving DecidableEq

def deleteVersionLeaseScript (leaseId versionId workerId : String) (s : Store) :
    DeleteLeaseOutcome × Store :=
  let forgotten : Store := { s with
    leaseSet := update s.leaseSet versionId ((s.leaseSet versionId).zrem leaseId) }
  match s.lease (leaseKey versionId leaseId) with
  | none => (.notFound, forgotten)
  | some l =>
    if ¬ (l.leaseId = leaseId ∧ l.versionId = versionId ∧ l.workerId = workerId) then
      (.leaseConflict, s)
    else (.deleted, { forgotten with
      leases := update s.leases (leaseKey versionId leaseId) none })

end ModelExpress.Refit
