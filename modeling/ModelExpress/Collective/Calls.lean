/-
  ModelExpress collective refit — calls, events and runs.

  Publish and report take lanes and leader slot from a group view read before; both are
  functions of `lanes`, which never changes, so they are computed from the root the script
  sees.  A `Deployment` fixes the hash function and the declarations that reach the servers, on
  which the hash does not collide.
-/
import ModelExpress.Lib.Run
import ModelExpress.Collective.Scripts

namespace ModelExpress.Collective

open Text Function

/-! ## Replies -/

structure Membership where
  groupId : String
  epoch : ℕ
  assignments : List Assignment
  state : CollectiveGroupState
  isBootstrapLeader : Bool
  deriving DecidableEq

inductive Reply where
  | environment
  | refused (status : Status)
  | membership (membership : Membership)
  | group (epoch : ℕ) (state : CollectiveGroupState)
  | transfer (operationId : String) (operation : Operation)
  deriving DecidableEq

def Reply.isRefused : Reply → Bool
  | .refused _ => true
  | _ => false

def Reply.error (e : CollectiveBackendError) : Reply := .refused (backendStatus e)

def groupNotFound (groupId : String) : CollectiveBackendError :=
  .notFound s!"collective group {groupId} was not found"

def transferNotFound (operationId : String) : CollectiveBackendError :=
  .notFound s!"collective transfer {operationId} was not found"

def CollectiveGroupState.text : CollectiveGroupState → String
  | .forming => "FORMING"
  | .ready => "READY"

/-! ## Join -/

variable (sha256 : List UInt8 → List UInt8)

def joinArgs (spec : CollectiveGroupSpec) (layout : LaneLayout)
    (role : CollectiveRole) (request : JoinCollectiveGroupRequest) : JoinArgs where
  groupId := groupIdFor sha256 spec
  modelName := spec.modelName
  lanes := layout.lanes
  expectedTotal := saturateU32 (layout.trainerCount.toNat + layout.generatorCount.toNat)
  slotId := request.slotId
  workerId := request.workerId
  role := role
  indexInRole := request.indexInRole
  planDigest := request.planDigest
  planSource := request.planSource.getD .default
  expectedTrainerSlots := join '\n' spec.expectedTrainerSlots
  expectedGeneratorSlots := join '\n' spec.expectedGeneratorSlots

def joinReply (a : JoinArgs) (assignments : List Assignment) (isBootstrapLeader : Bool) :
    JoinOutcome → Reply
  | .unexpectedSlot =>
    .error (.invalidArgument s!"slot {a.slotId} is not expected for role {a.role.text}")
  | .unregistered =>
    .error (.failedPrecondition s!"worker {a.workerId} has no live matching registration")
  | .invalidPlanSource => .error (.invalidArgument ("only a live trainer at index 0 may advertise a " ++
      "plan source, and only under its own worker_id"))
  | .conflictingAssignment =>
    .error (.alreadyExists s!"slot {a.slotId} is already bound to a different role or ordinal")
  | .duplicateRank =>
    .error (.alreadyExists s!"another slot already owns {a.role.text} index {a.indexInRole}")
  | .duplicateWorker =>
    .error (.alreadyExists s!"worker {a.workerId} is already admitted under another slot")
  | .corruptParticipant =>
    .error (.internal "collective group contains a malformed participant record")
  | .ok epoch state => .membership ⟨a.groupId, epoch, assignments, state, isBootstrapLeader⟩

def Store.onGroup {α : Type} (s : Store) (groupId : String) (script : Cell → α × Cell) : α × Store :=
  let r := script ⟨s.groups groupId, s.ops⟩
  (r.1, { s with groups := update s.groups groupId r.2.group, ops := r.2.ops })

def joinCall (request : JoinCollectiveGroupRequest) (s : Store) : Reply × Store :=
  match validateJoin request with
  | .error status => (.refused status, s)
  | .ok (spec, role) =>
    match layoutFor spec with
    | .error e => (.error e, s)
    | .ok layout =>
      match layout.assign request.slotId with
      | .error e => (.error (.invalidArgument e.message), s)
      | .ok assignments =>
        let a := joinArgs sha256 spec layout role request
        let r := s.onGroup a.groupId (joinScript s.workers a)
        (joinReply a assignments (layout.isBootstrapLeader request.slotId) r.1, r.2)

/-! ## Refresh and publish -/

def refreshCall (groupId : String) (s : Store) : Reply × Store :=
  match (s.groups groupId).root with
  | none => (.error (groupNotFound groupId), s)
  | some root =>
    match decodeLanes root.lanes with
    | .error e => (.error e, s)
    | .ok lanes =>
      let r := s.onGroup groupId (refreshScript s.workers (lanes.map (·.laneId)))
      (match r.1 with
        | .notFound => .error (groupNotFound groupId)
        | .ok epoch state => .group epoch state, r.2)

def leaderSlot (lanes : List Lane) (laneId : UInt32) : Option String :=
  (lanes.find? (·.laneId = laneId)).bind (·.slotsInRankOrder.head?)

variable (request : PublishGroupBootstrapRequest)

def publishArgs (leader : String) : PublishArgs where
  epoch := request.epoch.toNat
  laneId := request.laneId
  workerId := request.workerId
  ncclUniqueId := hexEncode request.ncclUniqueId
  leaderSlot := leader

def publishReply : PublishOutcome → Reply
  | .notFound => .error (groupNotFound request.groupId)
  | .stale current => .error (.failedPrecondition
      s!"bootstrap for epoch {request.epoch} was rejected; the group is at epoch {current}")
  | .notLeader => .error (.failedPrecondition
      s!"worker {request.workerId} is not the live rank-0 participant for lane {request.laneId}")
  | .conflict => .error (.alreadyExists
      s!"lane {request.laneId} already has a different bootstrap for epoch {request.epoch}")
  | .ok epoch state => .group epoch state

def publishCall (s : Store) : Reply × Store :=
  match validatePublish request with
  | .error status => (.refused status, s)
  | .ok () =>
    let g := s.groups request.groupId
    match g.root with
    | none => (.error (groupNotFound request.groupId), s)
    | some root =>
      match decodeLanes root.lanes with
      | .error e => (.error e, s)
      | .ok lanes =>
        match leaderSlot lanes request.laneId with
        | none => (.error (.invalidArgument
            s!"lane {request.laneId} is not declared by this group"), s)
        | some leader =>
          if leader ∉ g.participants then
            (.error (.failedPrecondition
              s!"lane {request.laneId} has no admitted rank-0 participant"), s)
          else
            let r := publishScript s.workers (lanes.map (·.laneId)) (publishArgs request leader) g
            (publishReply request r.1,
              { s with groups := update s.groups request.groupId r.2 })

/-! ## Transfers -/

def operationIdempotencyKey (modelName requestKey : String) : String :=
  s!"mx:refitc:op-request:{(bytes modelName).length}:{modelName}{requestKey}"

def createArgs (spec : CollectiveGroupSpec)
    (request : CreateCollectiveTransferRequest) (operationId : String) : CreateArgs where
  operationId := operationId
  groupId := groupIdFor sha256 spec
  versionId := request.versionId
  modelName := spec.modelName
  idempotencyKey := request.idempotencyKey
  requestKey := operationIdempotencyKey spec.modelName request.idempotencyKey
  expectedEpoch := request.expectedEpoch.toNat

def readTransfer (s : Store) (operationId : String) : Reply :=
  match s.ops operationId with
  | some op => .transfer operationId op
  | none => .error (transferNotFound operationId)

def existingReply (a : CreateArgs) (s : Store) (operationId : String) : Reply :=
  match s.ops operationId with
  | none => .error (transferNotFound operationId)
  | some op =>
    if op.groupId = a.groupId ∧ op.versionId = a.versionId ∧ op.modelName = a.modelName ∧
        op.idempotencyKey = a.idempotencyKey then .transfer operationId op
    else .error (.alreadyExists "idempotency_key was already used for a different collective transfer")

def createReply (a : CreateArgs) (s : Store) : CreateOutcome → Reply
  | .created => readTransfer s a.operationId
  | .existing id => existingReply a s id
  | .collision => .error (.internal "generated operation id already exists")
  | .noGroup =>
    .error (.failedPrecondition "no collective group has formed for this membership yet")
  | .notReady epoch state => .error (.failedPrecondition
      (s!"collective group {a.groupId} is {state.text} at epoch {epoch}, not READY at " ++
        s!"the expected epoch {a.expectedEpoch}; no transfer was created"))
  | .busy id => .error (.failedPrecondition
      (s!"collective transfer {id} is still in flight at this group epoch; " ++
        "it must complete, fail or be aborted before another is created"))

/-- `create_collective_transfer`; the operation id is the one the server generates. -/
def createCall (request : CreateCollectiveTransferRequest) (operationId : String) (s : Store) : Reply × Store :=
  match validateCreate request with
  | .error status => (.refused status, s)
  | .ok spec =>
    match layoutFor spec with
    | .error e => (.error e, s)
    | .ok _ =>
      let a := createArgs sha256 spec request operationId
      let r := createScript a s
      (createReply a r.2 r.1, r.2)

variable (request : ReportCollectiveTransferRequest)

def reportArgs : ReportArgs where
  operationId := request.operationId
  groupId := request.groupId
  epoch := request.epoch.toNat
  workerId := request.workerId
  succeeded := request.succeeded
  message := request.message

def reportReply (s : Store) : ReportOutcome → Reply
  | .notFound => .error (transferNotFound request.operationId)
  | .wrongGroup =>
    .error (.invalidArgument "the report names a different group than the operation")
  | .opStale epoch => .error (.failedPrecondition
      s!"report for epoch {request.epoch} does not match the operation epoch {epoch}")
  | .stale current => .error (.failedPrecondition
      s!"report for epoch {request.epoch} was rejected; the group is at epoch {current}")
  | .notReady => .error (.failedPrecondition
      s!"collective group {request.groupId} is not READY for reports")
  | .notAdmitted => .error (.failedPrecondition
      s!"worker {request.workerId} is not an admitted generation of this group")
  | .ok _ => readTransfer s request.operationId

def reportCall (s : Store) : Reply × Store :=
  match validateReport request with
  | .error status => (.refused status, s)
  | .ok () =>
    match (s.groups request.groupId).root with
    | none => (.error (groupNotFound request.groupId), s)
    | some root =>
      match decodeLanes root.lanes with
      | .error e => (.error e, s)
      | .ok lanes =>
        let r := reportScript (lanes.map (·.laneId)) (reportArgs request) s
        (reportReply request r.2 r.1, r.2)

def deleteCall (operationId : String) (s : Store) : Reply × Store :=
  match required operationId "operation_id" with
  | .error status => (.refused status, s)
  | .ok () =>
    match s.ops operationId with
    | none => (.error (transferNotFound operationId), s)
    | some op =>
      if ¬ op.state.terminal then
        (.error (.failedPrecondition s!"collective transfer {operationId} is not terminal"), s)
      else
        let r := deleteScript operationId
          (operationIdempotencyKey op.modelName op.idempotencyKey) op.groupId s
        (.transfer operationId op, r.2)

/-! ## Events and runs -/

inductive Event where
  /-- a registration is written, refreshed or expires -/
  | register (workerId : String) (registration : Option Registration)
  /-- a reservation reaches its TTL -/
  | expireRequest (requestKey : String)
  /-- Redis lists a group's hashes in another order -/
  | rehash (groupId : String) (participants digests : Hash)
  | join (request : JoinCollectiveGroupRequest)
  | refresh (groupId : String)
  | publish (request : PublishGroupBootstrapRequest)
  | create (request : CreateCollectiveTransferRequest) (operationId : String)
  | report (request : ReportCollectiveTransferRequest)
  | delete (operationId : String)

def rehash (g : Group) (participants digests : Hash) : Group :=
  if participants.entries.Perm g.participants.entries ∧ digests.entries.Perm g.digests.entries then
    { g with participants := participants, digests := digests }
  else g

def step (s : Store) : Event → Reply × Store
  | .register workerId registration =>
    (.environment, { s with workers := update s.workers workerId registration })
  | .expireRequest requestKey =>
    (.environment, { s with requests := update s.requests requestKey none })
  | .rehash groupId participants digests =>
    (.environment, { s with
      groups := update s.groups groupId (rehash (s.groups groupId) participants digests) })
  | .join request => joinCall sha256 request s
  | .refresh groupId => refreshCall groupId s
  | .publish request => publishCall request s
  | .create request operationId => createCall sha256 request operationId s
  | .report request => reportCall request s
  | .delete operationId => deleteCall operationId s

def Event.specs : Event → List CollectiveGroupSpec
  | .join request => request.spec.toList
  | .create request _ => request.spec.toList
  | _ => []

/-- The hash function and the declarations that reach the servers, decoded from messages within the
    size limit.  The truncated hash does not collide on them. -/
structure Deployment where
  sha256 : List UInt8 → List UInt8
  specs : Set CollectiveGroupSpec
  decoded : ∀ spec ∈ specs, withinMessage spec
  collisionFree : ∀ a ∈ specs, ∀ b ∈ specs, groupIdFor sha256 a = groupIdFor sha256 b →
    groupIdInput a = groupIdInput b

namespace Deployment
variable (D : Deployment)

/-- The events of a deployment declare its memberships only. -/
def Event : Type := { e : Collective.Event // ∀ spec ∈ e.specs, spec ∈ D.specs }

def next (s : Store) (e : D.Event) : Store := (step D.sha256 s e.1).2

def run (es : List D.Event) : Store := Run.run D.next Store.empty es

end Deployment

end ModelExpress.Collective
