/-
  ModelExpress collective refit — the messages of the control plane
  (`refit_collective.proto`) and the two error types of the server.

  Protobuf enums arrive as `i32` and are read with `try_from(..)`; a number
  outside the enum reads as the unspecified value.  Fixed-width fields keep
  their width (`u32` lane ids and ordinals, `u64` epochs of requests), bytes are
  lists of `UInt8`.
-/
import Mathlib.Algebra.Group.Nat.Defs
import Mathlib.Data.List.AList

namespace ModelExpress.Collective

/-! ## Enumerations -/

inductive CollectiveRole where
  | unspecified
  | trainer
  | generator
  deriving DecidableEq

def CollectiveRole.ofCode (code : Int32) : CollectiveRole :=
  if code = 1 then .trainer else if code = 2 then .generator else .unspecified

inductive LaneKind where
  | unspecified
  | reshard
  | broadcast
  deriving DecidableEq

def LaneKind.ofCode? (code : Int32) : Option LaneKind :=
  if code = 0 then some .unspecified
  else if code = 1 then some .reshard
  else if code = 2 then some .broadcast
  else none

def LaneKind.code : LaneKind → Int32
  | .unspecified => 0
  | .reshard => 1
  | .broadcast => 2

inductive CollectiveGroupState where
  | forming
  | ready
  deriving DecidableEq

inductive CollectiveTransferState where
  | pending
  | running
  | complete
  | failed
  | aborted
  deriving DecidableEq

/-- `COMPLETE`, `FAILED` and `ABORTED`: the states a report cannot change. -/
def CollectiveTransferState.terminal : CollectiveTransferState → Bool
  | .complete | .failed | .aborted => true
  | .pending | .running => false

/-! ## Messages -/

structure LaneSpec where
  laneId : UInt32
  kind : Int32
  trainerSlots : List String
  generatorSlots : List String
  deriving DecidableEq

structure CollectiveGroupSpec where
  modelName : String
  expectedTrainerSlots : List String
  expectedGeneratorSlots : List String
  lanes : List LaneSpec
  deriving DecidableEq

structure PlanSource where
  workerId : String
  endpoint : String
  digest : String
  deriving DecidableEq

def PlanSource.default : PlanSource := ⟨"", "", ""⟩

structure JoinCollectiveGroupRequest where
  spec : Option CollectiveGroupSpec
  slotId : String
  workerId : String
  role : Int32
  indexInRole : UInt32
  planDigest : String
  planSource : Option PlanSource
  deriving DecidableEq

structure PublishGroupBootstrapRequest where
  groupId : String
  epoch : UInt64
  laneId : UInt32
  workerId : String
  ncclUniqueId : List UInt8
  deriving DecidableEq

structure CreateCollectiveTransferRequest where
  spec : Option CollectiveGroupSpec
  versionId : String
  idempotencyKey : String
  expectedEpoch : UInt64
  deriving DecidableEq

structure ReportCollectiveTransferRequest where
  operationId : String
  groupId : String
  epoch : UInt64
  workerId : String
  succeeded : Bool
  message : String
  deriving DecidableEq

/-! ## Errors -/

inductive CollectiveBackendError where
  | invalidArgument (message : String)
  | notFound (message : String)
  | failedPrecondition (message : String)
  | alreadyExists (message : String)
  | internal (message : String)
  | unavailable (message : String)
  deriving DecidableEq

inductive Code where
  | invalidArgument
  | notFound
  | failedPrecondition
  | alreadyExists
  | internal
  | unavailable
  deriving DecidableEq

structure Status where
  code : Code
  message : String
  deriving DecidableEq

def Status.invalidArgument (message : String) : Status := ⟨.invalidArgument, message⟩

def backendStatus : CollectiveBackendError → Status
  | .invalidArgument message => ⟨.invalidArgument, message⟩
  | .notFound message => ⟨.notFound, message⟩
  | .failedPrecondition message => ⟨.failedPrecondition, message⟩
  | .alreadyExists message => ⟨.alreadyExists, message⟩
  | .internal message => ⟨.internal, message⟩
  | .unavailable message =>
    ⟨.unavailable, "Collective metadata backend error: " ++ message⟩

end ModelExpress.Collective
