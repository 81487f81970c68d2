/-
  ModelExpress refit control plane — request validation (`refit/service.rs`).
-/
import ModelExpress.Collective.Validate
import ModelExpress.Refit.Types

namespace ModelExpress.Refit

open Checks
open Collective (isBlank isWhitespace)

/-! ## Field checks -/

def required (value field : String) : Except Status Unit :=
  ensure (¬ isBlank value) (.invalidArgument s!"{field} is required")

def validateTtl (ttlSeconds : UInt32) : Except Status Unit :=
  ensure (ttlSeconds ≠ 0) (.invalidArgument "ttl_seconds must be greater than zero")

def validateMeshMembers (workers : Members) : Except Status Unit := do
  ensure (workers.entries ≠ []) (.invalidArgument "workers must not be empty")
  forM workers.entries fun entry => do
    required entry.1 "workers worker_id"
    required entry.2.logicalShardId "logical_shard_id"
    required entry.2.metadataEndpoint "metadata_endpoint"

def validateS3Uri (uri : String) : Except Status Unit :=
  if '?' ∈ uri.toList ∨ '#' ∈ uri.toList then
    .error (.invalidArgument "object_storage.uri must not contain a query or fragment")
  else
    match uri.toList with
    | 's' :: '3' :: ':' :: '/' :: '/' :: location =>
      match location.span (· ≠ '/') with
      | (_, []) => .error (.invalidArgument "object_storage.uri must include a bucket and key")
      | (bucket, _ :: key) =>
        ensure (¬ (bucket.all isWhitespace ∨ key.all isWhitespace ∨ key.head? = some '/'))
          (.invalidArgument "object_storage.uri must include a bucket and key")
    | _ => .error (.invalidArgument "object_storage.uri must use the s3:// scheme")

/-! ## Versions -/

variable (request : CreateWeightVersionRequest)

def validatePayloadFormat : Except Status WeightPayloadFormat :=
  match WeightPayloadFormat.ofCode request.payloadFormat with
  | .fullTensor => do
    ensure (request.baseVersionId = none)
      (.invalidArgument "base_version_id must be omitted for FULL_TENSOR")
    return .fullTensor
  | .xorDelta => do
    ensure (request.baseVersionId ≠ none)
      (.invalidArgument "base_version_id is required for XOR_DELTA")
    return .xorDelta
  | .fullHfCheckpoint => do
    ensure (request.baseVersionId = none)
      (.invalidArgument "base_version_id must be omitted for FULL_HF_CHECKPOINT")
    ensure (request.objectStorage.any fun source => ObjectStorageType.ofCode source.storageType = .s3)
      (.invalidArgument "FULL_HF_CHECKPOINT requires S3 object_storage")
    return .fullHfCheckpoint
  | .unspecified => .error (.invalidArgument "payload_format must be specified")

def validatePublication : Except Status Unit := do
  forM request.uid.toList fun uid => required uid "uid"
  forM request.trainerMeshId.toList fun meshId => required meshId "trainer_mesh_id"
  let state := WeightVersionState.ofCode request.state
  match request.objectStorage with
  | some objectStorage => do
    ensure (ObjectStorageType.ofCode objectStorage.storageType = .s3)
      (.invalidArgument "only S3 object storage is currently supported")
    required objectStorage.uri "object_storage.uri"
    validateS3Uri objectStorage.uri
    ensure (request.trainerMeshId = none)
      (.invalidArgument "trainer_mesh_id must be omitted for S3 publication")
    ensure (state = .staging ∨ state = .ready) (.invalidArgument "S3 state must be STAGING or READY")
  | none => do
    ensure (state = .staging) (.invalidArgument "worker-sharded state must be STAGING")
    ensure (request.trainerMeshId ≠ none)
      (.invalidArgument "trainer_mesh_id is required for worker publication")

/-- The checks of `create_weight_version` on the request alone. -/
def validateCreateVersion : Except Status WeightPayloadFormat := do
  required request.modelName "model_name"
  required request.idempotencyKey "idempotency_key"
  let payloadFormat ← validatePayloadFormat request
  validatePublication request
  return payloadFormat

/-- The checks of `create_trainer_mesh` on the request alone. -/
def validateCreateMesh (request : CreateTrainerMeshRequest) : Except Status Unit := do
  required request.modelName "model_name"
  required request.idempotencyKey "idempotency_key"
  validateMeshMembers request.workers

/-- The checks of `update_trainer_mesh` on the request alone. -/
def validateUpdateMesh (request : UpdateTrainerMeshRequest) : Except Status Unit := do
  required request.meshId "mesh_id"
  validateMeshMembers request.workers

def validateRegisterWorker (request : RegisterWorkerRequest) : Except Status WorkerRegistration := do
  match request.worker with
  | none => .error (.invalidArgument "worker is required")
  | some worker => do
    required worker.workerId "worker.worker_id"
    required worker.modelName "worker.model_name"
    ensure (WorkerRole.ofCode worker.role ≠ .unspecified)
      (.invalidArgument "worker.role must be specified")
    validateTtl request.ttlSeconds
    return worker

def validateUpdateState (request : UpdateWeightVersionStateRequest) :
    Except Status WeightVersionState := do
  required request.uid "uid"
  let state := WeightVersionState.ofCode request.state
  ensure (state ≠ .unspecified) (.invalidArgument "state must be specified")
  return state

def validateCreateShard (shard : Option WeightVersionShard) : Except Status WeightVersionShard := do
  match shard with
  | none => .error (.invalidArgument "shard is required")
  | some shard => do
    required shard.versionId "shard.version_id"
    required shard.logicalShardId "shard.logical_shard_id"
    required shard.workerId "shard.worker_id"
    required shard.stableMetadataDigest "shard.stable_metadata_digest"
    required shard.metadataEndpoint "shard.metadata_endpoint"
    return shard

def validateDeleteShard (request : DeleteWeightVersionShardRequest) : Except Status Unit := do
  required request.versionId "version_id"
  required request.logicalShardId "logical_shard_id"
  required request.workerId "worker_id"

def validateRegisterLease (request : RegisterVersionLeaseRequest) : Except Status Unit := do
  required request.versionId "version_id"
  required request.workerId "worker_id"
  validateTtl request.ttlSeconds

def validateDeleteLease (request : DeleteVersionLeaseRequest) : Except Status Unit := do
  required request.versionId "version_id"
  required request.leaseId "lease_id"
  required request.workerId "worker_id"

/-! ## What an accepted version satisfies -/

/-- The storage of an accepted version: S3, or a mesh. -/
inductive Backed (request : CreateWeightVersionRequest) : Prop
  | s3 (source : ObjectStorageSource) (hsource : request.objectStorage = some source)
      (huri : source.uri ≠ "") (hmesh : request.trainerMeshId = none)
      (hstate : WeightVersionState.ofCode request.state = .staging ∨
        WeightVersionState.ofCode request.state = .ready)
  | mesh (meshId : String) (hsource : request.objectStorage = none)
      (hmesh : request.trainerMeshId = some meshId) (hid : meshId ≠ "")
      (hstate : WeightVersionState.ofCode request.state = .staging)

theorem ne_empty_of_not_isBlank {s : String} (h : ¬ isBlank s = true) : s ≠ "" := by
  rintro rfl
  exact h rfl

variable {request : CreateWeightVersionRequest}

theorem validatePublication_ok {u : Unit} (h : validatePublication request = .ok u) : Backed request := by
  simp only [validatePublication, bind_eq_ok, forM_eq_ok, required, ensure_eq_ok] at h
  obtain ⟨-, -, -, hmesh, h⟩ := h
  cases hsource : request.objectStorage with
  | some source =>
    simp only [hsource, bind_eq_ok, ensure_eq_ok] at h
    obtain ⟨-, -, -, huri, -, -, -, hnone, hstate⟩ := h
    exact .s3 source hsource (ne_empty_of_not_isBlank huri) hnone hstate
  | none =>
    simp only [hsource, bind_eq_ok, ensure_eq_ok] at h
    obtain ⟨-, hstate, hsome⟩ := h
    obtain ⟨meshId, hid⟩ := Option.ne_none_iff_exists'.1 hsome
    exact .mesh meshId hsource hid (ne_empty_of_not_isBlank (hmesh meshId (by simp [hid]))) hstate

theorem validateCreateVersion_ok
    {payloadFormat : WeightPayloadFormat} (h : validateCreateVersion request = .ok payloadFormat) :
    Backed request := by
  simp only [validateCreateVersion, bind_eq_ok] at h
  obtain ⟨-, -, -, -, _, -, _, hpub, -⟩ := h
  exact validatePublication_ok hpub

end ModelExpress.Refit
