/-
  ModelExpress NCCL M2N refit — the refit clients (`collective/client.py`) and the transfers
  of their halves (`collective/backend.py`).

  The hooks, the reshard and the wait for an earlier window of one entry are one call.
  `Client.perform` is one call of the owner of the client, which may raise; a run is the state
  after a list of calls.
-/
import ModelExpress.Lib.Run
import ModelExpress.M2n.World

namespace ModelExpress.M2n

section
variable (world : World) (config : Config)

/-! ## The half -/

def theHalf : Refit HalfState := do require (← get).half

def modifyHalf (f : HalfState → HalfState) : Refit Unit := modify fun s => { s with half := s.half.map f }

def releaseHandle : Refit Unit := do
  if (← theHalf).handle then
    modifyHalf ({ · with handle := false })
    try
      call world .quiesce
      call world .m2nDestroy
    catch _ => pure ()

def abortHalf : Refit Unit := do
  releaseHandle world
  modifyHalf ({ · with closed := true })
  try cacheAbortGroup world (← theHalf).groupId
  finally modifyHalf ({ · with inFlight := [] })

def failDeadline : Refit Unit := do
  abortHalf world
  throw .timeout

/-- A step of a transfer, which may run into the deadline. -/
def transferStep (act : Act) : Refit Unit :=
  tryCatch (call world act) fun e => if e = .timeout then failDeadline world else throw e

/-- `start_weight_update` of the half: `_ensure_m2n_handle`, then `_begin_transfer`. -/
def startHalf : Refit Unit := do
  let h ← theHalf
  if h.closed then throw .error
  unless h.handle do
    call world .m2nInit
    modifyHalf ({ · with handle := true })
  modifyHalf ({ · with pendingMisc := true, groupsRun := [], inFlight := [] })

def claimGroup (group : ℕ) : Refit (List ParamPlan) := do
  let h ← theHalf
  let entries ← check (h.half.claimGroup h.groupsRun group)
  modifyHalf fun h => { h with groupsRun := h.groupsRun ++ [group] }
  return entries

def requireLane (laneId : ℕ) : Refit Unit := do
  let h ← theHalf
  if (⟨h.groupId, h.epoch, laneId⟩ : LaneKey) ∈ (← get).lanes.map (·.1) then pure () else throw .error

def submitEntries (group : ℕ) : List ParamPlan → Refit Unit
  | [] => pure ()
  | entry :: entries => do
    transferStep world (.reshard group entry)
    submitEntries group entries

def submitLayerGroup (group : ℕ) (entries : List ParamPlan) : Refit Unit := do
  transferStep world .checkDeadline
  let ordered := submissionOrder entries
  if ordered = [] then pure ()
  else
    if ¬ (← theHalf).handle then throw .error
    forM ordered fun entry => requireLane entry.partitionId
    submitEntries world group ordered

def publishHalf (group : ℕ) : Refit Unit := do
  submitLayerGroup world group (← claimGroup group)

def issueWeights (group : ℕ) : Refit Unit := do
  submitLayerGroup world group (← claimGroup group)
  modify (·.log (.issued group) true)
  modifyHalf fun h => { h with inFlight := h.inFlight ++ [group] }

def waitWeights (group : ℕ) : Refit Unit := do
  if group ∉ (← theHalf).inFlight then throw .error
  modifyHalf fun h => { h with inFlight := h.inFlight.erase group }
  transferStep world (.wait group)

def broadcastMisc : List MiscParam → Refit Unit
  | [] => pure ()
  | param :: params => do
    transferStep world (.broadcast param)
    broadcastMisc params

/-- `finish_weight_update` of the half: every group has run, the lanes are drained, the misc parameters are
    broadcast. -/
def finishHalf (broadcastLane : ℕ) : Refit Unit := do
  let h ← theHalf
  check (h.half.requireEveryGroup h.groupsRun)
  if h.pendingMisc then
    transferStep world .drain
    requireLane broadcastLane
    broadcastMisc world h.half.plan.misc
    transferStep world .drain
    modifyHalf ({ · with pendingMisc := false })

/-! ## Rounds -/

def resetRound : Refit Unit := modify fun s => { s with
  roundStarted := false, version := none, operationId := none, roundMembership := none, reportPending := false,
  unfinished := [] }

def report (succeeded : Bool) : Refit Unit := do
  let s ← get
  let operation ← require s.operationId
  discard (require s.roundMembership)
  call world (.report operation succeeded)

/-- Abort the half, if there is one; whether a communicator wedged. -/
def abortCurrent : Refit Bool := do
  if (← get).half.isSome then tryCatch (do abortHalf world; pure false) fun e => pure (decide (e = .wedged))
  else pure false

/-- Report that the bound round failed, as well as possible. -/
def reportFailure : Refit Unit := do
  if (← get).operationId.isSome then tryCatch (report world false) fun _ => pure ()

/-- `_fail_round`: abort, report the failure, reset; it raises only a wedge. -/
def failRound (cause : Raised) : Refit Unit := do
  let wedged ← abortCurrent world
  reportFailure world
  resetRound
  if wedged ∨ cause = .wedged then
    modify ({ · with wedged := true })
    throw .wedged

def failOpenRound : Refit Unit := do
  if (← get).operationId.isSome then failRound world .error

def abortGroup (groupId : String) : Refit Unit :=
  tryCatch (cacheAbortGroup world groupId) fun e => do
    modify ({ · with wedged := true })
    throw e

def closeHalf : Refit Unit := do
  if (← get).half.isSome then releaseHandle world
  modify ({ · with half := none })

def releaseEngine : Refit Unit := do
  if ¬ (← get).wedged then call world .engineCleanup

variable (version : String)

def requireRound : Refit Unit := do
  let s ← get
  if s.half.isNone then throw .error
  if ¬ s.roundStarted then throw .error
  if s.reportPending then throw .error
  if s.version ≠ some version then throw .error
  modify (·.log (.named version) true)

def bindOperation (version operation : String) : Refit Unit := do
  let s ← get
  if s.reportPending then throw .error
  if s.roundStarted then throw .error
  let membership ← require s.membership
  call world .checkCurrent
  call world (.bindTransfer operation version)
  modify ({ · with operationId := some operation, roundMembership := some membership })

/-- A part of a bound round: if it raises, the round has failed. -/
def inRound (x : Refit Unit) : Refit Unit :=
  tryCatch x fun e => do
    failRound world e
    throw e

def startWeightUpdate (version operation : String) : Refit Unit := do
  let s ← get
  if s.half.isNone then throw .error
  if ¬ s.engine then throw .error
  bindOperation world version operation
  inRound world do
    call world (.startNewRound version)
    startHalf world
  match config.role with
  | .trainer => pure ()
  | .generator =>
    modify ({ · with unfinished := [] })
    call world .readDepth
    let depth := world.depth (← get).trace
    -- the value must be positive
    if depth = 0 then throw .error
    modify ({ · with pipelineDepth := depth })
  modify ({ · with roundStarted := true, version := some version })

def publishWeights (group : ℕ) : Refit Unit := do
  requireRound version
  inRound world (publishHalf world group)

def installOldest : Refit Unit := do
  match (← get).unfinished with
  | [] => throw .error
  | group :: rest =>
    modify ({ · with unfinished := rest })
    waitWeights world group
    call world (.install group)

/-- Install the oldest group as long as at least `limit` of them are waiting; at most `n` times. -/
def installWhile (limit : ℕ) : ℕ → Refit Unit
  | 0 => pure ()
  | n + 1 => do
    if limit ≤ (← get).unfinished.length then
      installOldest world
      installWhile limit n

def updateWeights (group : ℕ) : Refit Unit := do
  requireRound version
  if ¬ (← get).engine then throw .error
  inRound world do
    issueWeights world group
    modify fun s => { s with unfinished := s.unfinished ++ [group] }
    let s ← get
    installWhile world s.pipelineDepth (s.unfinished.length + 1)

/-- The attempts of `_report_success`, as many as are left. -/
def reportAttempts : ℕ → Refit Unit
  | 0 => pure ()
  | n + 1 =>
    tryCatch (do report world true; pure true) (fun e => do
      if e ≠ .transient then
        resetRound
        throw e
      if n = 0 then
        modify ({ · with reportPending := true })
        throw e
      pure false) >>= fun delivered =>
    if delivered then do
      let ended := world.ended (← get).trace
      resetRound
      if ended then throw .error
    else reportAttempts n

def reportSuccess : Refit Unit := reportAttempts world 3

def retryReport : Refit Unit := do
  if ¬ (← get).reportPending then throw .error
  reportSuccess world

variable (membership : Membership)

def Membership.broadcastLane : Option LaneMembership :=
  membership.lanes.find? fun lane => lane.kind = .broadcast

/-- `finish_weight_update`; a generator installs what is outstanding first. -/
def finishWeightUpdate (operation : Option String) : Refit Unit := do
  requireRound version
  let s ← get
  if config.role = .generator ∧ ¬ s.engine then throw .error
  if operation.isSome ∧ operation ≠ s.operationId then throw .error
  inRound world do
    if config.role = .generator then installWhile world 1 (← get).unfinished.length
    let membership ← require (← get).membership
    let lane ← require membership.broadcastLane
    finishHalf world lane.laneId
    if config.role = .generator then call world .finish
  reportSuccess world

/-! ## Joining -/

structure LaneDeclaration where
  laneId : ℕ
  kind : LaneKind
  trainerSlots : List String
  generatorSlots : List String
  deriving DecidableEq

def LaneDeclaration.slotsInRankOrder (lane : LaneDeclaration) : List String :=
  lane.trainerSlots ++ lane.generatorSlots

def Config.declaredLanes : Option (List LaneDeclaration) :=
  let count := config.sourcePartitionCount
  if count = 0 ∨ config.trainerSlots.length % count ≠ 0 then none
  else
    let perLane := config.trainerSlots.length / count
    some ((List.range count).map (fun partition =>
        ⟨partition, .reshard, (config.trainerSlots.drop (partition * perLane)).take perLane, config.generatorSlots⟩) ++
      [⟨count, .broadcast, config.trainerSlots, config.generatorSlots⟩])

/-- The parameters that the plan must cover: those given, or those the engine names. -/
def expectedNames : Refit (List String) := do
  match (← get).expected with
  | some names => pure names
  | none =>
    call world .parameterNames
    return world.parameterNames (← get).trace

def checkGroupings (plan : ReshardPlan) : Refit Unit := do
  match (← get).groupings with
  | none => pure ()
  | some groupings => check (validateLayerGroups plan groupings)

def captureEngine : Refit Unit := do
  call world .capture
  let plan := world.plan (← get).trace
  if plan.sourcePartitionCount ≠ config.sourcePartitionCount then throw .error
  check (validateCoverage plan (← expectedNames world))
  checkGroupings plan
  modify ({ · with plan := some plan })

def sameIds (a b : List ℕ) : Prop := (∀ x ∈ a, x ∈ b) ∧ ∀ x ∈ b, x ∈ a

instance (a b : List ℕ) : Decidable (sameIds a b) := inferInstanceAs (Decidable (_ ∧ _))

/-- What `_join_and_bootstrap` checks of the membership it gets. -/
def checkMembership (declared : List LaneDeclaration) (membership : Membership) : Refit Unit := do
  let expectedReshard := (declared.filter fun lane =>
    lane.kind = .reshard ∧ config.slotId ∈ lane.slotsInRankOrder).map (·.laneId)
  let actualReshard := (membership.lanes.filter (·.kind = .reshard)).map (·.laneId)
  if ¬ sameIds actualReshard expectedReshard then throw .error
  let broadcast ← require membership.broadcastLane
  if broadcast.laneId ≠ config.sourcePartitionCount then throw .error

/-- The bootstrap leader publishes an id for each lane of which it is rank 0. -/
def publishBootstraps : Refit Unit := do
  if membership.isBootstrapLeader then
    forM (membership.lanes.filter fun lane => lane.kind = .reshard ∧ lane.rankInLane = 0) fun lane =>
      call world (.publishBootstrap lane.laneId)
    let broadcast ← require membership.broadcastLane
    if broadcast.rankInLane = 0 then call world (.publishBootstrap broadcast.laneId)

/-- `await_ready`, and what is checked of the group: this worker holds its slot and no lane is missing. -/
def awaitGroup (declared : List LaneDeclaration) : Refit (List ReadyLane) := do
  call world .awaitReady
  let lanes := world.ready (← get).trace
  let holders := ((lanes.flatMap (·.participants)).filter (·.1 = config.slotId)).map (·.2)
  if holders = [] ∨ ∃ holder ∈ holders, holder ≠ config.workerId then throw .error
  if ∃ lane ∈ declared, lane.laneId ∉ lanes.map (·.laneId) then throw .error
  return lanes

def createMine (record : ReadyLane) (laneId : ℕ) : Refit Unit :=
  match membership.lanes.find? (·.laneId = laneId) with
  | none => pure ()
  | some mine =>
    createLane world ⟨membership.groupId, membership.epoch, laneId⟩ ⟨mine.rankInLane, mine.worldSize, record.uniqueId⟩

/-- One lane of the bootstrap: the communicator, then the barrier of the whole group. -/
def bootstrapLane (ready : List ReadyLane) (laneId : ℕ) : Refit Unit := do
  -- of two records of a lane the later one counts
  createMine world membership (← require (ready.reverse.find? (·.laneId = laneId))) laneId
  call world .settle
  let broadcast ← require membership.broadcastLane
  if (⟨membership.groupId, membership.epoch, broadcast.laneId⟩ : LaneKey) ∉ (← get).lanes.map (·.1) then throw .error
  call world .barrier

/-- After a failed bootstrap the group is aborted and the rendezvous closed. -/
def failBootstrap (cause : Raised) : Refit Unit := do
  try abortGroup world membership.groupId
  finally
    modify ({ · with membership := none })
    tryCatch (call world .closeRendezvous) fun _ => pure ()
  throw cause

/-- The lanes of the group that was joined before, if it is another one, are aborted. -/
def leaveGroup (groupId : String) : Refit Unit := do
  match (← get).membership with
  | none => pure ()
  | some previous => if previous.groupId ≠ groupId then abortGroup world previous.groupId

def joinAndBootstrap : Refit Membership := do
  discard (require (← get).plan)
  call world .requireM2n
  failOpenRound world
  let declared ← require config.declaredLanes
  call world .join
  let membership := world.membership (← get).trace
  checkMembership config declared membership
  closeHalf world
  leaveGroup world membership.groupId
  invalidateEpoch world membership.groupId membership.epoch
  publishBootstraps world membership
  let ready ← awaitGroup world config declared
  let broadcast ← require membership.broadcastLane
  let laneOrder := broadcast.laneId :: (declared.filter (·.kind = .reshard)).map (·.laneId)
  tryCatch (forM laneOrder (bootstrapLane world membership ready)) (failBootstrap world membership)
  modify ({ · with membership := some membership })
  return membership

/-- The partition of which the half issues the reshards; a generator issues all. -/
def activePartition (s : Client) : Option ℕ :=
  match config.role with
  | .trainer => some s.sourcePartition
  | .generator => none

def buildHalf (plan : ReshardPlan) (specs : List String) (membership : Membership) : Refit Unit := do
  let half ← check (Half.new plan specs (activePartition config (← get)))
  modify ({ · with half := some { half, groupId := membership.groupId, epoch := membership.epoch } })
  let half ← check (half.setupLayerGroups (← get).groupings)
  modifyHalf ({ · with half })

def computePlan : Refit Unit := do
  if ¬ (← get).engine then throw .error
  captureEngine world config
  let plan ← require (← get).plan
  call world .localParams
  let specs := world.localParams (← get).trace
  let s ← get
  let required := (plan.bulk.filter fun entry => Takes (activePartition config s) entry.partitionId).map (·.name) ++
    plan.misc.map (·.name)
  check (resolveSpecs specs required)
  let membership ← joinAndBootstrap world config
  tryCatch (buildHalf config plan specs membership) fun e => do
    abortGroup world membership.groupId
    modify ({ · with membership := none, half := none })
    throw e

/-! ## The life of a client -/

def setupLayerGroups (groupings : Option (List (List String))) : Refit Unit := do
  if (← get).membership.isSome then throw .error
  modify ({ · with groupings })

/-- `initialize`; a trainer names its partition, which must be the one its slot is on. -/
def initializeEngine (sourcePartition : ℕ) (expected : Option (List String)) : Refit Unit := do
  if config.role = .trainer then
    if config.sourcePartitionCount ≤ sourcePartition then throw .error
    let declared ← require config.declaredLanes
    let own ← require (declared.find? fun lane => lane.kind = .reshard ∧ config.slotId ∈ lane.trainerSlots)
    if own.laneId ≠ sourcePartition then throw .error
  modify ({ · with engine := true, sourcePartition, expected })
  captureEngine world config

def abortJoined : Refit Unit := do
  match (← get).membership with
  | none => pure ()
  | some membership => abortGroup world membership.groupId

def cleanupBase : Refit Unit := do
  if (← get).wedged then throw .wedged
  failOpenRound world
  closeHalf world
  abortJoined world
  modify ({ · with membership := none, half := none })
  resetRound

def cleanup : Refit Unit := do
  let held := (← get).engine
  modify ({ · with engine := false })
  try cleanupBase world
  finally
    if held then releaseEngine world

inductive Call where
  | setupLayerGroups (groupings : Option (List (List String)))
  | initializeEngine (sourcePartition : ℕ) (expected : Option (List String))
  | computePlan
  | start (version operation : String)
  | publish (version : String) (group : ℕ)
  | update (version : String) (group : ℕ)
  | finish (version : String) (operation : Option String)
  | retryReport
  | cleanup
  deriving DecidableEq

def Call.perform : Call → Refit Unit
  | .setupLayerGroups groupings => M2n.setupLayerGroups groupings
  | .initializeEngine sourcePartition expected => M2n.initializeEngine world config sourcePartition expected
  | .computePlan => M2n.computePlan world config
  | .start version operation => startWeightUpdate world config version operation
  | .publish version group => if config.role = .trainer then publishWeights world version group else throw .error
  | .update version group => if config.role = .generator then updateWeights world version group else throw .error
  | .finish version operation => finishWeightUpdate world config version operation
  | .retryReport => M2n.retryReport world
  | .cleanup => M2n.cleanup world

def afterCalls (calls : List Call) (s : Client) : Client :=
  Run.run (fun s (c : Call) => Effects.final (c.perform world config) s) s calls

end

end ModelExpress.M2n
