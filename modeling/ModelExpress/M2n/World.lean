/-
  ModelExpress NCCL M2N refit — what a refit client does to the outside, and its state.

  Every call is logged with whether it returned; what it answers is the parameter `World`,
  which knows everything that was called before.
-/
import ModelExpress.Lib.Effects
import ModelExpress.M2n.Half

namespace ModelExpress.M2n

/-! ## Calls and answers -/

structure LaneKey where
  groupId : String
  epoch : ℕ
  laneId : ℕ
  deriving DecidableEq

inductive Act where
  -- engine
  | capture
  | parameterNames
  | localParams
  | startNewRound (version : String)
  | install (group : ℕ)
  | finish
  | engineCleanup
  -- control plane, and the check that the libraries are there before it
  | requireM2n
  | join
  | publishBootstrap (laneId : ℕ)
  | awaitReady
  | checkCurrent
  | bindTransfer (operation version : String)
  | report (operation : String) (succeeded : Bool)
  | closeRendezvous
  -- communicators; `epochMove`: the lane is dropped because the epoch moved
  | createLane (key : LaneKey)
  | settle
  | barrier
  | abort (key : LaneKey) (epochMove : Bool)
  -- transfers
  | m2nInit
  | quiesce
  | m2nDestroy
  | checkDeadline
  | reshard (group : ℕ) (entry : ParamPlan)
  | wait (group : ℕ)
  | drain
  | broadcast (param : MiscParam)
  -- a value of the environment of the process
  | readDepth
  -- what a call of the client names
  | named (version : String)
  /-- all reshards of a layer group have been enqueued -/
  | issued (group : ℕ)
  deriving DecidableEq

/-- A call and whether it returned. -/
structure Event where
  act : Act
  ok : Bool
  deriving DecidableEq

inductive Raised where
  | error
  /-- a gRPC error that says nothing about whether the call landed -/
  | transient
  | timeout
  | wedged
  deriving DecidableEq

inductive LaneKind where
  | reshard
  | broadcast
  | unspecified
  deriving DecidableEq

structure LaneMembership where
  laneId : ℕ
  kind : LaneKind
  rankInLane : ℕ
  worldSize : ℕ
  deriving DecidableEq

structure Membership where
  groupId : String
  epoch : ℕ
  lanes : List LaneMembership
  isBootstrapLeader : Bool
  deriving DecidableEq

/-- A lane of a READY group. -/
structure ReadyLane where
  laneId : ℕ
  participants : List (String × String)
  uniqueId : String
  deriving DecidableEq

/-- The outside.  `answer` is what a call raises, if it does; the other fields are what the calls return. -/
structure World where
  answer : List Event → Act → Option Raised
  plan : List Event → ReshardPlan
  parameterNames : List Event → List String
  localParams : List Event → List String
  membership : List Event → Membership
  ready : List Event → List ReadyLane
  /-- the operation has been ended by another participant -/
  ended : List Event → Bool
  depth : List Event → ℕ

/-! ## The client -/

inductive Role where
  | trainer
  | generator
  deriving DecidableEq

structure Config where
  role : Role
  trainerSlots : List String
  generatorSlots : List String
  sourcePartitionCount : ℕ
  slotId : String
  workerId : String
  deriving DecidableEq

structure LaneInfo where
  rank : ℕ
  worldSize : ℕ
  uniqueId : String
  deriving DecidableEq

structure HalfState where
  half : Half
  groupId : String
  epoch : ℕ
  /-- it has an M2N handle -/
  handle : Bool := false
  closed : Bool := false
  pendingMisc : Bool := false
  groupsRun : List ℕ := []
  inFlight : List ℕ := []
  deriving DecidableEq

structure Client where
  /-- publisher or loader -/
  engine : Bool := false
  /-- the partition of a trainer -/
  sourcePartition : ℕ := 0
  expected : Option (List String) := none
  groupings : Option (List (List String)) := none
  /-- set together with the digest -/
  plan : Option ReshardPlan := none
  membership : Option Membership := none
  half : Option HalfState := none
  roundStarted : Bool := false
  reportPending : Bool := false
  version : Option String := none
  operationId : Option String := none
  roundMembership : Option Membership := none
  wedged : Bool := false
  unfinished : List ℕ := []
  pipelineDepth : ℕ := 1
  lanes : List (LaneKey × LaneInfo) := []
  trace : List Event := []
  deriving DecidableEq

abbrev Refit := EStateM Raised Client

def Client.log (s : Client) (act : Act) (ok : Bool) : Client := { s with trace := s.trace ++ [⟨act, ok⟩] }

def check {ε α : Type} : Except ε α → Refit α
  | .ok a => pure a
  | .error _ => throw .error

def require {α : Type} : Option α → Refit α
  | some a => pure a
  | none => throw .error

section
variable (world : World)

def call (act : Act) : Refit Unit := do
  match world.answer (← get).trace act with
  | none => modify (·.log act true)
  | some e =>
    modify (·.log act false)
    throw e

/-! ## The communicator cache -/

def abortKeys (epochMove : Bool) : List LaneKey → Refit Bool
  | [] => pure false
  | key :: keys => do
    modify fun s => { s with lanes := s.lanes.filter (·.1 ≠ key) }
    let hung ← tryCatch (do call world (.abort key epochMove); pure false) fun _ => pure true
    let rest ← abortKeys epochMove keys
    return hung || rest

def cacheAbortGroup (groupId : String) : Refit Unit := do
  let keys := ((← get).lanes.map (·.1)).filter (·.groupId = groupId)
  if ← abortKeys world false keys then throw .wedged

def invalidateEpoch (groupId : String) (epoch : ℕ) : Refit Unit := do
  let stale := ((← get).lanes.map (·.1)).filter fun key => key.groupId = groupId ∧ key.epoch ≠ epoch
  if ← abortKeys world true stale then throw .wedged

def createLane (key : LaneKey) (info : LaneInfo) : Refit Unit := do
  match (← get).lanes.lookup key with
  | some existing => if existing = info then pure () else throw .error
  | none =>
    call world (.createLane key)
    modify fun s => { s with lanes := s.lanes ++ [(key, info)] }

end

end ModelExpress.M2n
