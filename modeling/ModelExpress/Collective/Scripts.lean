/-
  ModelExpress collective refit — the six Redis scripts (`backend/redis/scripts/*.lua`).

  Each script is one function on the data its keys name; Redis runs it atomically.  A script
  that is refused after it has written returns the written state, as in the source: join sweeps
  lapsed participants before it checks the incoming slot against the others.
-/
import ModelExpress.Collective.Store

namespace ModelExpress.Collective

open Text Function

/-! ## `join_collective_group.lua` -/

structure JoinArgs where
  groupId : String
  modelName : String
  lanes : List Lane
  expectedTotal : UInt32
  slotId : String
  workerId : String
  role : CollectiveRole
  indexInRole : UInt32
  planDigest : String
  planSource : PlanSource
  expectedTrainerSlots : String
  expectedGeneratorSlots : String

variable (a : JoinArgs)

def JoinArgs.laneIds : List UInt32 := a.lanes.map (·.laneId)

inductive JoinOutcome where
  | unexpectedSlot
  | unregistered
  | invalidPlanSource
  | corruptParticipant
  | conflictingAssignment
  | duplicateRank
  | duplicateWorker
  | ok (epoch : ℕ) (state : CollectiveGroupState)
  deriving DecidableEq

def containsSlot (list target : String) : Bool := target ∈ split '\n' list

variable (workers : Workers)

def joinPrecheck (a : JoinArgs) : Option JoinOutcome :=
  let expectedSlots :=
    if a.role.text = "TRAINER" then a.expectedTrainerSlots else a.expectedGeneratorSlots
  if ¬ containsSlot expectedSlots a.slotId then some .unexpectedSlot
  else if ¬ registrationMatches workers a.workerId a.role.text a.modelName then some .unregistered
  else if a.planSource.workerId ≠ "" ∧ (a.role.text ≠ "TRAINER" ∨ decimal a.indexInRole.toNat ≠ "0" ∨
      a.planSource.workerId ≠ a.workerId) then some .invalidPlanSource
  else none

def createdRoot : Root where
  groupId := a.groupId
  modelName := a.modelName
  lanes := encodeLanes a.lanes
  expectedTotal := a.expectedTotal
  expectedTrainerSlots := a.expectedTrainerSlots
  expectedGeneratorSlots := a.expectedGeneratorSlots
  planDigest := a.planDigest
  epoch := 1
  state := .forming
  planSource := .default

def createGroup (c : Cell) : Cell :=
  let c := abortStaleOps
    { c with group := ({ c.group with participants := ∅, digests := ∅ } : Group).clearLanes a.laneIds }
  { c with group := { c.group with root := some (createdRoot a) } }

/-- The slot's own record: one immutable role and ordinal. -/
def slotConflict (g : Group) : Option JoinOutcome :=
  match g.participants.lookup a.slotId with
  | none => none
  | some record =>
    match parseParticipant record with
    | none => some .corruptParticipant
    | some p =>
      if p.role ≠ a.role.text ∨ p.index ≠ decimal a.indexInRole.toNat then some .conflictingAssignment
      else none

def replacedWorker (g : Group) : Option String :=
  match (g.participants.lookup a.slotId).bind parseParticipant with
  | some p => if p.workerId ≠ a.workerId then some p.workerId else none
  | none => none

def releaseReplaced (g : Group) : Group :=
  match replacedWorker a g with
  | some workerId => g.releaseSource workerId
  | none => g

def recordConflict (entry : (_ : String) × String) : Option JoinOutcome :=
  if entry.1 = a.slotId then none
  else
    match parseParticipant entry.2 with
    | none => some .corruptParticipant
    | some p =>
      if p.role = a.role.text ∧ p.index = decimal a.indexInRole.toNat then some .duplicateRank
      else if p.workerId = a.workerId then some .duplicateWorker
      else none

def rankConflict (g : Group) : Option JoinOutcome :=
  g.participants.entries.findSome? (recordConflict a)

def putParticipant (epoch : ℕ) (g : Group) : Group :=
  let record := (admitted a.workerId a.role a.indexInRole epoch).record
  { g with
    participants := g.participants.insert a.slotId record
    digests := g.digests.insert a.slotId a.planDigest }

def admitWorker (a : JoinArgs) (epoch : ℕ) (g : Group) : JoinOutcome × Group :=
  let g := putParticipant a epoch g
  let g := if a.planSource.workerId ≠ "" then
      g.mapRoot fun root => { root with planSource := a.planSource }
    else g
  let state := readinessState
    (evaluateReadiness workers g a.laneIds a.expectedTotal.toNat epoch (some a.modelName))
  (.ok epoch state, g.setState state)

def bumpJoin (c : Cell) : Cell :=
  abortStaleOps { c with group :=
    (c.group.advance a.laneIds).mapRoot fun root => { root with planDigest := a.planDigest } }

def joinScript (a : JoinArgs) (c : Cell) : JoinOutcome × Cell :=
  match joinPrecheck workers a with
  | some outcome => (outcome, c)
  | none =>
    match c.group.root with
    | none =>
      let c := createGroup a c
      let r := admitWorker workers a 1 c.group
      (r.1, { c with group := r.2 })
    | some root =>
      let bump := needsEpochBump c.group a.laneIds root.epoch
      let swept := sweepExpired workers a.modelName c.group
      match slotConflict a swept.1 with
      | some outcome => (outcome, { c with group := swept.1 })
      | none =>
        let replaced := replacedWorker a swept.1
        let g := releaseReplaced a swept.1
        match rankConflict a g with
        | some outcome => (outcome, { c with group := g })
        | none =>
          let changed := (bump && (swept.2 || replaced.isSome)) || decide (root.planDigest ≠ a.planDigest)
          let c := { c with group := g }
          let c := if changed then bumpJoin a c else c
          let r := admitWorker workers a (if changed then root.epoch + 1 else root.epoch) c.group
          (r.1, { c with group := r.2 })

/-! ## `refresh_collective_group.lua` -/

inductive RefreshOutcome where
  | notFound
  | ok (epoch : ℕ) (state : CollectiveGroupState)
  deriving DecidableEq

variable (laneIds : List UInt32)

def refreshScript (c : Cell) : RefreshOutcome × Cell :=
  match c.group.root with
  | none => (.notFound, c)
  | some root =>
    let bump := needsEpochBump c.group laneIds root.epoch
    let swept := sweepExpired workers root.modelName c.group
    let changed := bump && swept.2
    let c := { c with group := swept.1 }
    let c := if changed then abortStaleOps { c with group := c.group.advance laneIds } else c
    let epoch := if changed then root.epoch + 1 else root.epoch
    let state := readinessState
      (evaluateReadiness workers c.group laneIds root.expectedTotal.toNat epoch none)
    (.ok epoch state, { c with group := c.group.setState state })

/-! ## `publish_group_bootstrap.lua` -/

structure PublishArgs where
  epoch : ℕ
  laneId : UInt32
  workerId : String
  ncclUniqueId : String
  leaderSlot : String

inductive PublishOutcome where
  | notFound
  | stale (epoch : ℕ)
  | notLeader
  | conflict
  | ok (epoch : ℕ) (state : CollectiveGroupState)
  deriving DecidableEq

/-- The caller is the live rank-0 participant, admitted at this epoch. -/
def isLeader (root : Root) (a : PublishArgs) (g : Group) : Bool :=
  ((g.participants.lookup a.leaderSlot).bind parseParticipant).any fun p =>
    p.workerId = a.workerId ∧ toNumber p.joinedEpoch = some root.epoch ∧
      registrationMatches workers p.workerId p.role root.modelName

def stampLane (a : PublishArgs) (g : Group) : Group :=
  if stamped g a.epoch a.laneId then g
  else { g with lanes := update g.lanes a.laneId (some ⟨a.ncclUniqueId, a.epoch, a.workerId⟩) }

def publishScript (a : PublishArgs) (g : Group) : PublishOutcome × Group :=
  match g.root with
  | none => (.notFound, g)
  | some root =>
    if a.epoch ≠ root.epoch then (.stale root.epoch, g)
    else if ¬ isLeader workers root a g then (.notLeader, g)
    else if (g.lanes a.laneId).any fun lane => lane.bootstrapEpoch = root.epoch ∧
        (lane.publishedBy ≠ a.workerId ∨ lane.ncclUniqueId ≠ a.ncclUniqueId) then (.conflict, g)
    else
      let g := stampLane a g
      let state := readinessState
        (evaluateReadiness workers g laneIds root.expectedTotal.toNat root.epoch (some root.modelName))
      (.ok root.epoch state, g.setState state)

/-! ## `create_collective_transfer.lua` -/

structure CreateArgs where
  operationId : String
  groupId : String
  versionId : String
  modelName : String
  idempotencyKey : String
  requestKey : String
  expectedEpoch : ℕ

inductive CreateOutcome where
  | created
  | existing (operationId : String)
  | collision
  | noGroup
  | notReady (epoch : ℕ) (state : CollectiveGroupState)
  | busy (operationId : String)
  deriving DecidableEq

def inFlight (ops : Operations) (epoch : ℕ) (id : String) : Bool :=
  (ops id).any fun op => !op.state.terminal && decide (op.epoch = epoch)

variable (a : CreateArgs)

def CreateArgs.operation (epoch : ℕ) : Operation :=
  ⟨a.groupId, epoch, a.versionId, a.modelName, a.idempotencyKey, .pending, ""⟩

def openTransfer (epoch : ℕ) (s : Store) : Store :=
  let g := s.groups a.groupId
  { s with
    ops := update s.ops a.operationId (some (a.operation epoch))
    requests := update s.requests a.requestKey (some a.operationId)
    groups := update s.groups a.groupId { g with activeOps := g.activeOps.insert a.operationId } }

def createFresh (s : Store) : CreateOutcome × Store :=
  if (s.ops a.operationId).isSome then (.collision, s)
  else
    match (s.groups a.groupId).root with
    | none => (.noGroup, s)
    | some root =>
      if root.state ≠ .ready ∨ root.epoch ≠ a.expectedEpoch then (.notReady root.epoch root.state, s)
      else
        match (s.groups a.groupId).activeOps.find? (inFlight s.ops root.epoch) with
        | some id => (.busy id, s)
        | none => (.created, openTransfer a root.epoch s)

def createScript (s : Store) : CreateOutcome × Store :=
  match s.requests a.requestKey with
  | none => createFresh a s
  | some id =>
    if (s.ops id).isSome then (.existing id, s)
    -- an orphaned reservation is deleted
    else createFresh a { s with requests := update s.requests a.requestKey none }

/-! ## `report_collective_transfer.lua` -/

structure ReportArgs where
  operationId : String
  groupId : String
  epoch : ℕ
  workerId : String
  succeeded : Bool
  message : String

inductive ReportOutcome where
  | notFound
  | wrongGroup
  | opStale (epoch : ℕ)
  | stale (epoch : ℕ)
  | notReady
  | notAdmitted
  | ok (state : CollectiveTransferState)
  deriving DecidableEq

def reportable (epoch : ℕ) (record : String) : Bool :=
  (parseParticipant record).any fun p =>
    toNumber p.joinedEpoch = some epoch ∧ (workers p.workerId).isSome

def heldBy (workerId record : String) : Bool :=
  (parseParticipant record).any fun p => p.workerId = workerId

/-- Write an operation's new state; `SREM` it from its group's active set if that is terminal. -/
def settle (a : ReportArgs) (op : Operation) (s : Store) : Store :=
  let g := s.groups a.groupId
  { s with
    ops := update s.ops a.operationId (some op)
    groups := if op.state.terminal then
        update s.groups a.groupId { g with activeOps := g.activeOps.filter (· ≠ a.operationId) }
      else s.groups }

def failGroup (groupId : String) (laneIds : List UInt32) (s : Store) : Store :=
  { s with groups := update s.groups groupId ((s.groups groupId).advance laneIds) }

def recordReport (a : ReportArgs) (op : Operation) (root : Root) (s : Store) : ReportOutcome × Store :=
  let reported := insert a.workerId (s.reported a.operationId)
  let s := { s with reported := update s.reported a.operationId reported }
  if ¬ a.succeeded then
    (.ok .failed, failGroup a.groupId laneIds
      (settle a { op with state := .failed, failureMessage := a.message } s))
  else if reported.card = root.expectedTotal.toNat then
    (.ok .complete, settle a { op with state := .complete } s)
  else (.ok .running, settle a { op with state := .running } s)

def reportScript (a : ReportArgs) (s : Store) : ReportOutcome × Store :=
  match s.ops a.operationId with
  | none => (.notFound, s)
  | some op =>
    if op.groupId ≠ a.groupId then (.wrongGroup, s)
    else if op.epoch ≠ a.epoch then (.opStale op.epoch, s)
    else if op.state.terminal then (.ok op.state, s)
    else
      match (s.groups a.groupId).root with
      | none => (.stale 0, s)
      | some root =>
        let participants := (s.groups a.groupId).participants.entries
        if root.epoch ≠ a.epoch then (.stale root.epoch, s)
        else if root.state ≠ .ready then (.notReady, s)
        else if ¬ participants.all fun e => reportable s.workers a.epoch e.2 then (.notReady, s)
        else if ¬ participants.any fun e => heldBy a.workerId e.2 then (.notAdmitted, s)
        else recordReport laneIds a op root s

/-! ## `delete_collective_transfer.lua` -/

inductive DeleteOutcome where
  | notFound
  | notTerminal
  | deleted
  deriving DecidableEq

def deleteScript (operationId requestKey groupId : String) (s : Store) : DeleteOutcome × Store :=
  match s.ops operationId with
  | none => (.notFound, s)
  | some op =>
    if ¬ op.state.terminal then (.notTerminal, s)
    else
      let g := s.groups groupId
      (.deleted, { s with
        ops := update s.ops operationId none
        reported := update s.reported operationId ∅
        requests := if s.requests requestKey = some operationId then
          update s.requests requestKey none else s.requests
        groups := update s.groups groupId
          { g with activeOps := g.activeOps.filter (· ≠ operationId) } })

end ModelExpress.Collective
