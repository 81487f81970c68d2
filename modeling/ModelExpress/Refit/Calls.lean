/-
  ModelExpress refit control plane — calls, events and runs.

  Other calls may run between the reads and the script, so a `World` keeps the keyspaces of the
  past, and a call says how many steps ago each read was made.  `Event` is all that can happen;
  ids drawn from UUIDs and the outcome of the network check of the bindings come with it.
-/
import ModelExpress.Lib.Run
import ModelExpress.Refit.Scripts

namespace ModelExpress.Refit

open Checks

/-! ## Replies -/

structure MeshReply where
  meshId : String
  modelName : String
  generation : ℕ
  workers : Members
  deriving DecidableEq

def TrainerMesh.reply (mesh : TrainerMesh) : MeshReply :=
  ⟨mesh.meshId, mesh.modelName, mesh.generation, mesh.workers⟩

inductive Reply where
  | environment
  | refused (status : Status)
  | worker (expiresAt : ℕ)
  | mesh (mesh : MeshReply)
  | meshDeleted
  | version (version : WeightVersion)
  | shard (shard : WeightVersionShard) (version : WeightVersion)
  | lease (lease : VersionLease)
  | deleted (deleted : Bool)
  deriving DecidableEq

def Reply.error (e : RefitBackendError) : Reply := .refused (backendStatus e)

def Reply.ofRead {α : Type} (reply : α → Reply) : Except RefitBackendError α → Reply
  | .ok a => reply a
  | .error e => .error e

def prepared {α : Type} (x : Except Status α) (s : Store) (call : α → Reply × Store) : Reply × Store :=
  match x with
  | .ok a => call a
  | .error status => (.refused status, s)

def fromBackend {α : Type} (x : Except RefitBackendError α) : Except Status α := x.mapError backendStatus

def quoted (text : String) : String :=
  "\"" ++ String.ofList (text.toList.flatMap fun c =>
    if c = '"' ∨ c = '\\' then ['\\', c] else [c]) ++ "\""

/-! ## Reads -/

variable (s : Store)

def getTrainerMesh (meshId : String) : Except RefitBackendError TrainerMesh :=
  match s.meshes meshId with
  | none => .error (.notFound ("trainer mesh " ++ quoted meshId ++ " was not found"))
  | some mesh => .ok mesh

def getWeightVersion (uid : String) : Except RefitBackendError WeightVersion :=
  match s.versions uid with
  | none => .error (.notFound ("weight version UID " ++ quoted uid ++ " was not found"))
  | some version => .ok version

def getLease (versionId leaseId : String) : Except RefitBackendError VersionLease :=
  match s.lease (leaseKey versionId leaseId) with
  | none => .error (.notFound ("version lease " ++ quoted leaseId ++ " was not found"))
  | some lease => .ok lease

def validateTrainerMeshWorkers (modelName : String) (workers : Members) : Except RefitBackendError Unit :=
  forM workers.entries fun e =>
    ensure ((s.workers e.1).any fun r => r.workerId = e.1 ∧ r.modelName = modelName ∧
        r.role = .trainer ∧ r.refitEndpoint = e.2.metadataEndpoint)
      (.failedPrecondition ("mesh worker " ++ quoted e.1 ++
        " requires an active trainer registration for the model and binding endpoint"))

variable (request : CreateTrainerMeshRequest)

def findTrainerMeshForRequest : Except RefitBackendError (Option TrainerMesh) :=
  match s.meshRequests (meshIdempotencyKey request.modelName request.idempotencyKey) with
  | none => .ok none
  | some existingId =>
    match s.meshes existingId with
    | none => .error (.alreadyExists "idempotency_key belongs to a deleted TrainerMesh")
    | some existing =>
      if existing.modelName ≠ request.modelName ∨ ¬ existing.initialWorkers.same request.workers then
        .error (.alreadyExists "idempotency_key was already used for a different TrainerMesh")
      else .ok (some existing)

/-! ## Workers -/

def registerWorker (request : RegisterWorkerRequest) (s : Store) : Reply × Store :=
  prepared (validateRegisterWorker request) s fun worker =>
    match registerWorkerScript ⟨worker.workerId, .ofCode worker.role, worker.modelName,
      worker.refitEndpoint⟩ (request.ttlSeconds.toNat * 1000) s with
    | (.conflict, s) =>
      (.error (.alreadyExists "worker_id is already registered with different metadata"), s)
    | (.ok expiresAt, s) => (.worker expiresAt, s)

/-! ## Meshes -/

def createMeshArgs (meshId : String) : CreateMeshArgs where
  meshId := meshId
  modelName := request.modelName
  requestKey := meshIdempotencyKey request.modelName request.idempotencyKey
  logicalShards := request.workers.logicalShards
  workers := request.workers

/-- The attempts of the backend's `create_trainer_mesh`, one for each id drawn. -/
def createMeshAttempts (request : CreateTrainerMeshRequest) : List String → Store → Reply × Store
  | [], s => (.error (.resourceExhausted "could not allocate a unique trainer mesh ID"), s)
  | meshId :: meshIds, s =>
    match createTrainerMeshScript (createMeshArgs request meshId) s with
    | (.created, s) => (.ofRead (fun mesh => .mesh mesh.reply) (getTrainerMesh s meshId), s)
    | (.existing _, s) =>
      (.ofRead (fun found => found.elim
          (.error (.internal "mesh idempotency key disappeared")) fun mesh => .mesh mesh.reply)
        (findTrainerMeshForRequest s request), s)
    | (.refused _, s) => (.error (.failedPrecondition
        "mesh workers require active trainer registrations for the model"), s)
    | (.collision, s) => createMeshAttempts request meshIds s

/-- `create_trainer_mesh` up to the attempts; a mesh found for the request is the answer. -/
def prepareCreateMesh (atFind atWorkers : Store)
    (bindings : Except Status Unit) : Except Status (Option TrainerMesh) := do
  validateCreateMesh request
  match ← fromBackend (findTrainerMeshForRequest atFind request) with
  | some mesh => return some mesh
  | none => do
    fromBackend (validateTrainerMeshWorkers atWorkers request.modelName request.workers)
    bindings
    return none

def createTrainerMesh (atFind atWorkers : Store)
    (bindings : Except Status Unit) (drawn : List String) (s : Store) : Reply × Store :=
  prepared (prepareCreateMesh request atFind atWorkers bindings) s fun
    | some mesh => (.mesh mesh.reply, s)
    | none => createMeshAttempts request (drawn.take 5) s

/-- `update_trainer_mesh` up to the script: the arguments it runs with. -/
def prepareUpdateMesh (request : UpdateTrainerMeshRequest) (atMesh atWorkers atBackend : Store)
    (bindings : Except Status Unit) : Except Status UpdateMeshArgs := do
  validateUpdateMesh request
  let current ← fromBackend (getTrainerMesh atMesh request.meshId)
  ensure (current.generation = request.expectedGeneration.toNat)
    ⟨.failedPrecondition, "trainer mesh generation changed"⟩
  fromBackend (validateTrainerMeshWorkers atWorkers current.modelName request.workers)
  bindings
  let current ← fromBackend (getTrainerMesh atBackend request.meshId)
  ensure (current.generation = request.expectedGeneration.toNat)
    (backendStatus (.failedPrecondition "trainer mesh generation changed"))
  return ⟨request.meshId, request.expectedGeneration.toNat, request.workers, current.modelName⟩

def updateTrainerMesh (request : UpdateTrainerMeshRequest) (atMesh atWorkers atBackend : Store)
    (bindings : Except Status Unit) (s : Store) : Reply × Store :=
  prepared (prepareUpdateMesh request atMesh atWorkers atBackend bindings) s fun a =>
    let r := updateTrainerMeshScript a s
    (match r.1 with
      | .updated | .unchanged => .ofRead (fun mesh => .mesh mesh.reply) (getTrainerMesh r.2 a.meshId)
      | .coverageMismatch =>
        .error (.invalidArgument "mesh update must preserve logical shard coverage")
      | .notFound => .error (.notFound "trainer mesh was not found")
      | .generationMismatch => .error (.failedPrecondition "trainer mesh generation changed")
      | .refused _ => .error (.failedPrecondition
          "new mesh worker must have an active trainer registration for the model")
      | .versionLeased => .error (.failedPrecondition ("cannot change trainer mesh generation " ++
          "while a linked version has an active lease")), r.2)

def deleteTrainerMesh (meshId : String) (s : Store) : Reply × Store :=
  prepared (required meshId "mesh_id") s fun _ =>
    let r := deleteTrainerMeshScript meshId s
    (match r.1 with
      | .deleted => .meshDeleted
      | .notFound => .error (.notFound "trainer mesh was not found")
      | .inUse => .error (.failedPrecondition
          "trainer mesh still has active weight versions or resources"), r.2)

/-! ## Versions -/

variable (request : CreateWeightVersionRequest)

def createVersionArgs (uid : String) : CreateVersionArgs where
  uid := uid
  modelName := request.modelName
  idempotencyKey := request.idempotencyKey
  payloadFormat := request.payloadFormat
  baseVersionId := request.baseVersionId.getD ""
  s3Uri := request.objectStorage.elim "" (·.uri)
  state := request.state
  trainerMeshId := request.trainerMeshId.getD ""
  versionNumber := request.versionNumber

def optional (text : String) : Option String := if text = "" then none else some text

/-- The version was created by a request like this one. -/
def WeightVersion.sameRequest (existing : WeightVersion) (request : CreateWeightVersionRequest) : Bool :=
  existing.modelName = request.modelName ∧ existing.payloadFormat = request.payloadFormat ∧
    optional existing.baseVersionId = request.baseVersionId ∧
    (optional existing.s3Uri).map (fun uri => ⟨uri, 1⟩) = request.objectStorage ∧
    optional existing.trainerMeshId = request.trainerMeshId ∧
    existing.versionNumber = request.versionNumber ∧ existing.initialState = request.state

/-- How the backend's `create_weight_version` answers a request whose key is taken. -/
def existingVersion (existingUid : String) (s : Store) : Except RefitBackendError WeightVersion := do
  ensure (request.uid.all (· = existingUid))
    (.alreadyExists "idempotency_key was already used for a different WeightVersion")
  let existing ← getWeightVersion s existingUid
  ensure (existing.sameRequest request)
    (.alreadyExists "idempotency_key was already used for a different WeightVersion")
  return existing

/-- The attempts of the backend's `create_weight_version`, one for each id. -/
def createVersionAttempts (request : CreateWeightVersionRequest) : List String → Store → Reply × Store
  | [], s => (.error (.resourceExhausted "could not allocate a unique weight version ID"), s)
  | uid :: uids, s =>
    match createWeightVersionScript (createVersionArgs request uid) s with
    | (.created, s) => (.ofRead .version (getWeightVersion s uid), s)
    | (.existing existingUid, s) => (.ofRead .version (existingVersion request existingUid s), s)
    | (.meshNotFound, s) => (.error (.notFound "trainer mesh was not found"), s)
    | (.meshModelMismatch, s) =>
      (.error (.failedPrecondition "trainer mesh and weight version model_name differ"), s)
    | (.meshGenerationMissing, s) =>
      (.error (.failedPrecondition "trainer mesh is missing a positive generation"), s)
    | (.collision, s) =>
      if request.uid.isSome then
        (.error (.alreadyExists ("weight version UID " ++ quoted uid ++ " already exists")), s)
      else createVersionAttempts request uids s

def prepareCreateVersion (atBase : Store) : Except Status Unit := do
  let payloadFormat ← validateCreateVersion request
  forM (request.baseVersionId.toList.filter fun _ => payloadFormat = .xorDelta) fun baseVersionId => do
    let base ← fromBackend (getWeightVersion atBase baseVersionId)
    ensure (base.modelName = request.modelName ∧ base.state = .ready) ⟨.failedPrecondition,
      "XOR_DELTA base version must be READY and have the same model_name"⟩

def createWeightVersion (atBase : Store) (drawn : List String) (s : Store) : Reply × Store :=
  prepared (prepareCreateVersion request atBase) s fun _ =>
    createVersionAttempts request (request.uid.elim (drawn.take 5) ([·])) s

def transitionWeightVersionState (uid : String) (state : WeightVersionState) (s : Store) :
    Reply × Store :=
  let r := updateWeightVersionStateScript uid state s
  (match r.1 with
    | .ok => .ofRead .version (getWeightVersion r.2 uid)
    | .versionNotFound => .error (.notFound "weight version was not found")
    | .invalidTransition =>
      .error (.failedPrecondition "weight version state transition is not allowed"), r.2)

/-- `update_weight_version_state` up to the script. -/
def prepareUpdateState (request : UpdateWeightVersionStateRequest) (atVersion : Store) :
    Except Status WeightVersionState := do
  let state ← validateUpdateState request
  let version ← fromBackend (getWeightVersion atVersion request.uid)
  ensure (version.trainerMeshId = "")
    (backendStatus (.failedPrecondition "mesh-backed weight version state is managed by MX"))
  return state

def updateWeightVersionState (request : UpdateWeightVersionStateRequest) (atVersion : Store)
    (s : Store) : Reply × Store :=
  prepared (prepareUpdateState request atVersion) s fun state =>
    transitionWeightVersionState request.uid state s

def deleteWeightVersion (uid : String) (s : Store) : Reply × Store :=
  prepared (required uid "uid") s fun _ => transitionWeightVersionState uid .releasing s

/-! ## Publications -/

/-- `create_weight_version_shard` up to the script: the shard and the version read. -/
def prepareCreateShard (request : Option WeightVersionShard) (atVersion : Store) :
    Except Status (WeightVersionShard × WeightVersion) := do
  let shard ← validateCreateShard request
  let version ← fromBackend (getWeightVersion atVersion shard.versionId)
  return (shard, version)

def CreateShardRefusal.error : CreateShardRefusal → RefitBackendError
  | .versionNotFound => .notFound "weight version was not found"
  | .workerNotFound => .failedPrecondition "worker registration is missing or expired"
  | .modelMismatch => .failedPrecondition "worker and weight version model_name differ"
  | .meshNotFound => .failedPrecondition "trainer mesh is missing"
  | .meshGenerationMissing | .meshGenerationMismatch => .failedPrecondition
      ("weight version trainer_mesh_generation does not match the current mesh; " ++
        "create a new version")
  | .workerNotTrainer | .workerNotInMesh | .workerEndpointMismatch =>
    .failedPrecondition "worker is not an active trainer member of this logical shard"
  | .stableMetadataMismatch =>
    .failedPrecondition "trainer stable metadata changed within the current mesh generation"
  | .versionNotWritable => .failedPrecondition "weight version does not accept shard publication"
  | .shardConflict =>
    .alreadyExists "worker and logical_shard_id already published different metadata"

def createWeightVersionShard (request : Option WeightVersionShard) (atVersion : Store) (s : Store) :
    Reply × Store :=
  prepared (prepareCreateShard request atVersion) s fun (shard, version) =>
    let r := createWeightVersionShardScript version.modelName version.trainerMeshId shard s
    (match r.1 with
      | .error refusal => .error refusal.error
      | .ok state => .shard shard { version with state }, r.2)

/-- `delete_weight_version_shard` up to the script: the publication read. -/
def prepareDeleteShard (request : DeleteWeightVersionShardRequest) (atShard : Store) :
    Except Status WeightVersionShard := do
  validateDeleteShard request
  match (atShard.shards request.versionId).lookup
    (publicationKey request.workerId request.logicalShardId) with
  | none => .error (backendStatus (.notFound "weight version shard not found"))
  | some shard => do
    ensure (shard.workerId = request.workerId)
      (backendStatus (.failedPrecondition "only the publishing worker can delete its shard"))
    return shard

def deleteWeightVersionShard (request : DeleteWeightVersionShardRequest) (atShard : Store)
    (s : Store) : Reply × Store :=
  prepared (prepareDeleteShard request atShard) s fun encoded =>
    let r := deleteWeightVersionShardScript request.versionId request.workerId
      (publicationKey request.workerId request.logicalShardId) encoded s
    (match r.1 with
      | .deleted => .deleted true
      | .versionNotFound => .error (.notFound "weight version was not found")
      | .workerNotFound => .error (.failedPrecondition "worker registration is missing or expired")
      | .shardNotFound => .error (.notFound "weight version shard not found")
      | .shardConflict => .error (.failedPrecondition
          "weight version shard changed while it was being deleted")
      | .versionLeased => .error (.failedPrecondition "weight version has an active lease"), r.2)

/-! ## Leases -/

def prepareRegisterLease (request : RegisterVersionLeaseRequest) (atVersion : Store) :
    Except Status Unit := do
  validateRegisterLease request
  let _ ← fromBackend (getWeightVersion atVersion request.versionId)

variable (sha256 : List UInt8 → List UInt8)

def registerVersionLease (request : RegisterVersionLeaseRequest) (atVersion : Store) (s : Store) : Reply × Store :=
  prepared (prepareRegisterLease request atVersion) s fun _ =>
    let id := leaseId sha256 request.versionId request.workerId
    let r := registerVersionLeaseScript
      ⟨id, request.versionId, request.workerId, request.ttlSeconds.toNat * 1000⟩ s
    (match r.1 with
      | .ok _ => .ofRead .lease (getLease r.2 request.versionId id)
      | .versionNotFound => .error (.notFound "weight version was not found")
      | .versionNotLeaseable => .error (.failedPrecondition
          "weight version does not accept this lease registration")
      | .workerNotFound => .error (.failedPrecondition "worker registration is missing or expired")
      | .workerNotGenerator => .error (.failedPrecondition
          "only a generator worker can hold a version lease")
      | .modelMismatch => .error (.failedPrecondition "worker and weight version model_name differ")
      | .leaseConflict => .error (.alreadyExists
          "version lease ID is already used by a different worker"), r.2)

def deleteVersionLease (request : DeleteVersionLeaseRequest) (s : Store) : Reply × Store :=
  prepared (validateDeleteLease request) s fun _ =>
    let r := deleteVersionLeaseScript request.leaseId request.versionId request.workerId s
    (match r.1 with
      | .deleted => .deleted true
      | .notFound => .deleted false
      | .leaseConflict => .error (.failedPrecondition
          "version lease is owned by a different worker"), r.2)

/-! ## Events and runs -/

abbrev Instant := ℕ

inductive Event where
  | tick (elapsed : ℕ)
  | expireWorker (workerId : String)
  | reorder (meshId : String) (versionIds : List String)
  | registerWorker (request : RegisterWorkerRequest)
  | createTrainerMesh (request : CreateTrainerMeshRequest) (atFind atWorkers : Instant)
      (bindings : Except Status Unit) (drawn : List String)
  | updateTrainerMesh (request : UpdateTrainerMeshRequest) (atMesh atWorkers atBackend : Instant)
      (bindings : Except Status Unit)
  | deleteTrainerMesh (meshId : String)
  | createWeightVersion (request : CreateWeightVersionRequest) (atBase : Instant)
      (drawn : List String)
  | updateWeightVersionState (request : UpdateWeightVersionStateRequest) (atVersion : Instant)
  | deleteWeightVersion (uid : String)
  | createWeightVersionShard (request : Option WeightVersionShard) (atVersion : Instant)
  | deleteWeightVersionShard (request : DeleteWeightVersionShardRequest) (atShard : Instant)
  | registerVersionLease (request : RegisterVersionLeaseRequest) (atVersion : Instant)
  | deleteVersionLease (request : DeleteVersionLeaseRequest)

/-- The keyspace and, latest first, the keyspaces before it. -/
structure World where
  store : Store
  past : List Store

def World.init : World := ⟨Store.empty, []⟩

def World.seen (w : World) (i : Instant) : Store := (w.store :: w.past).getD i w.store

def World.call (w : World) : Event → Reply × Store
  | .tick elapsed => (.environment, { w.store with now := w.store.now + elapsed })
  | .expireWorker workerId =>
    (.environment, { w.store with workers := Function.update w.store.workers workerId none })
  | .reorder meshId versionIds =>
    if versionIds.Perm (w.store.meshVersions meshId) then
      (.environment, { w.store with
        meshVersions := Function.update w.store.meshVersions meshId versionIds })
    else (.environment, w.store)
  | .registerWorker request => registerWorker request w.store
  | .createTrainerMesh request atFind atWorkers bindings drawn =>
    createTrainerMesh request (w.seen atFind) (w.seen atWorkers) bindings drawn w.store
  | .updateTrainerMesh request atMesh atWorkers atBackend bindings =>
    updateTrainerMesh request (w.seen atMesh) (w.seen atWorkers) (w.seen atBackend) bindings w.store
  | .deleteTrainerMesh meshId => deleteTrainerMesh meshId w.store
  | .createWeightVersion request atBase drawn =>
    createWeightVersion request (w.seen atBase) drawn w.store
  | .updateWeightVersionState request atVersion =>
    updateWeightVersionState request (w.seen atVersion) w.store
  | .deleteWeightVersion uid => deleteWeightVersion uid w.store
  | .createWeightVersionShard request atVersion =>
    createWeightVersionShard request (w.seen atVersion) w.store
  | .deleteWeightVersionShard request atShard =>
    deleteWeightVersionShard request (w.seen atShard) w.store
  | .registerVersionLease request atVersion =>
    registerVersionLease sha256 request (w.seen atVersion) w.store
  | .deleteVersionLease request => deleteVersionLease request w.store

def World.next (w : World) (e : Event) : World :=
  ⟨(w.call sha256 e).2, w.store :: w.past⟩

def run (es : List Event) : World :=
  Run.run (World.next sha256) World.init es

end ModelExpress.Refit
