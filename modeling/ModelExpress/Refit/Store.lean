/-
  ModelExpress refit control plane — the Redis keyspace.

  A version has its leases twice: one hash per lease, which Redis drops when its TTL is
  reached, and a sorted set of lease ids by expiry, from which the scripts purge.  One clock,
  `now`, is read by every script and by the TTLs: a lease hash exists while
  `now < expiresAt`.  Worker registrations expire by an event of their own.
-/
import Mathlib.Data.List.Dedup
import ModelExpress.Lib.Assoc
import ModelExpress.Lib.Text
import ModelExpress.Collective.GroupId
import ModelExpress.Refit.Validate

namespace ModelExpress.Refit

open Text
open Collective (bytes byteLe hexEncode)

/-! ## Keys -/

def publicationKey (workerId logicalShardId : String) : String :=
  decimal workerId.utf8ByteSize ++ ":" ++ workerId ++ logicalShardId

def leaseKey (versionId leaseId : String) : String :=
  s!"mx:refit:version:lease:{versionId}:{leaseId}"

def idempotencyKey (modelName requestKey : String) : String :=
  s!"mx:refit:version-request:{modelName}:{requestKey}"

def meshIdempotencyKey (modelName requestKey : String) : String :=
  s!"mx:refit:trainer-mesh-request:{modelName}:{requestKey}"

/-- `lease_id`: the first four bytes of the digest, in hex. -/
def leaseId (sha256 : List UInt8 → List UInt8) (versionId workerId : String) : String :=
  hexEncode ((sha256 (bytes versionId ++ [0] ++ bytes workerId)).take 4)

theorem publicationKey_inj {w s w' s' : String} (h : publicationKey w s = publicationKey w' s') :
    w = w' ∧ s = s' := lengthFramed_inj h

/-! ## Records -/

structure Registration where
  workerId : String
  role : WorkerRole
  modelName : String
  refitEndpoint : String
  deriving DecidableEq

structure TrainerMesh where
  meshId : String
  modelName : String
  generation : ℕ
  logicalShards : List String
  workers : Members
  initialWorkers : Members
  /-- The `stable_metadata:` fields, by publication key. -/
  pins : String → Option String

/-- The version hash; an absent base, storage uri or mesh is the empty text. -/
structure WeightVersion where
  uid : String
  modelName : String
  idempotencyKey : String
  payloadFormat : Int32
  baseVersionId : String
  s3Uri : String
  initialState : Int32
  state : WeightVersionState
  trainerMeshId : String
  trainerMeshGeneration : ℕ
  versionNumber : Option Int64
  deriving DecidableEq

structure VersionLease where
  leaseId : String
  versionId : String
  workerId : String
  expiresAt : ℕ
  deriving DecidableEq

/-! ## Sorted sets -/

abbrev SortedSet := List (String × ℕ)

def SortedSet.zadd (score : ℕ) (member : String) (z : SortedSet) : SortedSet :=
  (member, score) :: z.filter (·.1 ≠ member)

def SortedSet.zrem (member : String) (z : SortedSet) : SortedSet := z.filter (·.1 ≠ member)

def SortedSet.purge (now : ℕ) (z : SortedSet) : SortedSet := z.filter (now < ·.2)

section
variable {z : SortedSet} {now score : ℕ} {member : String} {m : String × ℕ}

@[simp] theorem SortedSet.mem_zadd : m ∈ z.zadd score member ↔ m = (member, score) ∨ m ∈ z ∧ m.1 ≠ member := by
  simp [zadd]

@[simp] theorem SortedSet.mem_zrem : m ∈ z.zrem member ↔ m ∈ z ∧ m.1 ≠ member := by
  simp [zrem]

@[simp] theorem SortedSet.mem_purge : m ∈ z.purge now ↔ m ∈ z ∧ now < m.2 := by
  simp [purge]

end

/-! ## The keyspace -/

abbrev Publications := AList fun _ : String => WeightVersionShard

structure Store where
  now : ℕ
  workers : String → Option Registration
  meshes : String → Option TrainerMesh
  meshVersions : String → List String
  meshRequests : String → Option String
  versions : String → Option WeightVersion
  versionRequests : String → Option String
  shards : String → Publications
  endpoints : String → String → Option String
  leases : String → Option VersionLease
  leaseSet : String → SortedSet

def Store.empty : Store where
  now := 0
  workers := fun _ => none
  meshes := fun _ => none
  meshVersions := fun _ => []
  meshRequests := fun _ => none
  versions := fun _ => none
  versionRequests := fun _ => none
  shards := fun _ => ∅
  endpoints := fun _ _ => none
  leases := fun _ => none
  leaseSet := fun _ => []

/-- A lease hash, if its TTL has not been reached. -/
def Store.lease (s : Store) (key : String) : Option VersionLease :=
  (s.leases key).filter fun l => s.now < l.expiresAt

theorem Store.lease_eq_some {s : Store} {key : String} {l : VersionLease} :
    s.lease key = some l ↔ s.leases key = some l ∧ s.now < l.expiresAt := by
  simp [lease, Option.filter_eq_some_iff]

/-- Drop the expired leases of a version from its sorted set. -/
def Store.purgeLeases (s : Store) (versionId : String) : Store :=
  { s with leaseSet := Function.update s.leaseSet versionId ((s.leaseSet versionId).purge s.now) }

/-! ## Mesh members -/

variable (workers : Members)

def Members.shardIds : List String :=
  workers.entries.map (·.2.logicalShardId)

/-- The distinct logical shards, sorted: the `BTreeSet` of `create_trainer_mesh`. -/
def Members.logicalShards : List String :=
  (workers.shardIds.dedup).insertionSort byteLe

def Members.same (a b : Members) : Bool := decide (a.entries.Perm b.entries)

theorem Members.nodup_logicalShards : workers.logicalShards.Nodup :=
  (List.perm_insertionSort _ _).nodup_iff.2 (List.nodup_dedup _)

end ModelExpress.Refit
