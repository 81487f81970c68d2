/-
  ModelExpress refit control plane — the messages (`refit.proto`) and the errors
  of the service.

  Protobuf enums arrive as `i32`; a number outside the enum reads as the
  unspecified value.  The workers of a mesh are a map from worker ids, kept as an
  association list with every key once.
-/
import Mathlib.Algebra.Group.Nat.Defs
import Mathlib.Data.List.AList

namespace ModelExpress.Refit

/-! ## Enumerations -/

inductive WorkerRole where
  | unspecified
  | trainer
  | generator
  deriving DecidableEq

variable (code : Int32)

def WorkerRole.ofCode : WorkerRole :=
  if code = 1 then .trainer else if code = 2 then .generator else .unspecified

inductive WeightPayloadFormat where
  | unspecified
  | fullTensor
  | xorDelta
  | fullHfCheckpoint
  deriving DecidableEq

def WeightPayloadFormat.ofCode : WeightPayloadFormat :=
  if code = 1 then .fullTensor
  else if code = 2 then .xorDelta
  else if code = 3 then .fullHfCheckpoint
  else .unspecified

inductive WeightVersionState where
  | unspecified
  | staging
  | ready
  | releasing
  deriving DecidableEq

def WeightVersionState.ofCode : WeightVersionState :=
  if code = 1 then .staging
  else if code = 2 then .ready
  else if code = 3 then .releasing
  else .unspecified

inductive ObjectStorageType where
  | unspecified
  | s3
  | azure
  | gcs
  deriving DecidableEq

def ObjectStorageType.ofCode : ObjectStorageType :=
  if code = 1 then .s3
  else if code = 2 then .azure
  else if code = 3 then .gcs
  else .unspecified

/-! ## Messages -/

structure WorkerRegistration where
  workerId : String
  role : Int32
  modelName : String
  refitEndpoint : String
  deriving DecidableEq

structure RegisterWorkerRequest where
  worker : Option WorkerRegistration
  ttlSeconds : UInt32
  deriving DecidableEq

structure TrainerTensorsMetadata where
  logicalShardId : String
  metadataEndpoint : String
  deriving DecidableEq

abbrev Members := AList fun _ : String => TrainerTensorsMetadata

structure CreateTrainerMeshRequest where
  modelName : String
  idempotencyKey : String
  workers : Members
  deriving DecidableEq

structure UpdateTrainerMeshRequest where
  meshId : String
  expectedGeneration : UInt64
  workers : Members
  deriving DecidableEq

structure ObjectStorageSource where
  uri : String
  storageType : Int32
  deriving DecidableEq

structure CreateWeightVersionRequest where
  modelName : String
  idempotencyKey : String
  payloadFormat : Int32
  baseVersionId : Option String
  objectStorage : Option ObjectStorageSource
  state : Int32
  uid : Option String
  trainerMeshId : Option String
  versionNumber : Option Int64
  deriving DecidableEq

structure UpdateWeightVersionStateRequest where
  uid : String
  state : Int32
  deriving DecidableEq

structure WeightVersionShard where
  versionId : String
  logicalShardId : String
  workerId : String
  stableMetadataDigest : String
  metadataEndpoint : String
  versionMetadataDigest : String
  deriving DecidableEq

structure DeleteWeightVersionShardRequest where
  versionId : String
  logicalShardId : String
  workerId : String
  deriving DecidableEq

structure RegisterVersionLeaseRequest where
  versionId : String
  workerId : String
  ttlSeconds : UInt32
  deriving DecidableEq

structure DeleteVersionLeaseRequest where
  versionId : String
  leaseId : String
  workerId : String
  deriving DecidableEq

/-! ## Errors -/

inductive RefitBackendError where
  | invalidArgument (message : String)
  | notFound (message : String)
  | failedPrecondition (message : String)
  | alreadyExists (message : String)
  | resourceExhausted (message : String)
  | internal (message : String)
  | unavailable (message : String)
  deriving DecidableEq

inductive Code where
  | invalidArgument
  | notFound
  | failedPrecondition
  | alreadyExists
  | resourceExhausted
  | internal
  | unavailable
  deriving DecidableEq

structure Status where
  code : Code
  message : String
  deriving DecidableEq

def Status.invalidArgument (message : String) : Status := ⟨.invalidArgument, message⟩

def backendStatus : RefitBackendError → Status
  | .invalidArgument message => ⟨.invalidArgument, message⟩
  | .notFound message => ⟨.notFound, message⟩
  | .failedPrecondition message => ⟨.failedPrecondition, message⟩
  | .alreadyExists message => ⟨.alreadyExists, message⟩
  | .resourceExhausted message => ⟨.resourceExhausted, message⟩
  | .internal message => ⟨.internal, message⟩
  | .unavailable message => ⟨.unavailable, "Refit metadata backend error: " ++ message⟩

end ModelExpress.Refit
