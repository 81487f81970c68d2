/-
  ModelExpress collective refit — the view of a group.
-/
import ModelExpress.Collective.Calls

namespace ModelExpress.Collective

open Text Checks

/-! ## Messages -/

structure CollectiveParticipant where
  slotId : String
  workerId : String
  role : CollectiveRole
  indexInRole : UInt32
  rankInLane : UInt32
  joinedEpoch : UInt64
  deriving DecidableEq

structure CollectiveLane where
  laneId : UInt32
  kind : LaneKind
  worldSize : UInt32
  ncclUniqueId : List UInt8
  bootstrapEpoch : ℕ
  participants : List CollectiveParticipant
  deriving DecidableEq

structure CollectiveGroup where
  groupId : String
  modelName : String
  epoch : ℕ
  state : CollectiveGroupState
  lanes : List CollectiveLane
  planSource : Option PlanSource
  planDigest : String
  expectedTrainerSlots : List String
  expectedGeneratorSlots : List String
  disagreeingSlots : List String
  deriving DecidableEq

/-! ## Participants -/

def participantFromRecord (slotId record : String) :
    Except CollectiveBackendError CollectiveParticipant := do
  let parts := split '|' record
  let workerId := parts.getD 0 ""
  let role ← match parts.getD 1 "" with
    | "TRAINER" => .ok CollectiveRole.trainer
    | "GENERATOR" => .ok CollectiveRole.generator
    | other => .error (.internal s!"unknown participant role {other}")
  let indexInRole ← (parseUnsigned (2 ^ 32) (parts.getD 2 "")).mapError
    fun error => .internal s!"invalid participant index: {error}"
  let joinedEpoch ← (parseUnsigned (2 ^ 64) (parts.getD 3 "")).mapError
    fun error => .internal s!"invalid participant epoch: {error}"
  ensure (parts.length ≤ 4) (.internal "participant record has extra fields")
  .ok ⟨slotId, workerId, role, UInt32.ofNat indexInRole, 0, UInt64.ofNat joinedEpoch⟩

abbrev LaneParticipants := UInt32 → List CollectiveParticipant

variable (layout : LaneLayout) (placed : LaneParticipants)

/-- One turn of the placing loop: the participant joins every lane its slot is assigned to. -/
def placeParticipant (slotId record : String) : Except CollectiveBackendError LaneParticipants := do
  let participant ← participantFromRecord slotId record
  let assignments ← (layout.assign slotId).mapError fun error =>
    .internal s!"stored participant {slotId} has an invalid lane assignment: {error.message}"
  .ok (assignments.foldl (fun placed a =>
    if a.laneId ∈ layout.lanes.map (·.laneId) then
      Function.update placed a.laneId
        (placed a.laneId ++ [{ participant with rankInLane := a.rankInLane }])
    else placed) placed)

/-- The placing loop, and the sort by rank after it. -/
def placeParticipants (records : Hash) : Except CollectiveBackendError LaneParticipants := do
  let placed ← records.entries.foldlM (fun placed e => placeParticipant layout placed e.1 e.2)
    (fun _ => [])
  .ok fun laneId => (placed laneId).insertionSort fun a b => a.rankInLane ≤ b.rankInLane

/-! ## Bootstraps -/

def hexDigit (b : UInt8) : Option UInt8 :=
  if 48 ≤ b ∧ b ≤ 57 then some (b - 48)
  else if 97 ≤ b ∧ b ≤ 102 then some (b - 87)
  else if 65 ≤ b ∧ b ≤ 70 then some (b - 55)
  else none

def hexPair (a b : UInt8) : Option UInt8 :=
  if a = 43 then hexDigit b
  else (hexDigit a).bind fun x => (hexDigit b).map fun y => 16 * x + y

/-- The bytes that a byte may be followed by in UTF-8, as the first of a longer sequence. -/
def continues (a b : UInt8) : Bool :=
  if 0xC2 ≤ a ∧ a ≤ 0xDF then 0x80 ≤ b ∧ b ≤ 0xBF
  else if a = 0xE0 then 0xA0 ≤ b ∧ b ≤ 0xBF
  else if a = 0xED then 0x80 ≤ b ∧ b ≤ 0x9F
  else if 0xE1 ≤ a ∧ a ≤ 0xEF then 0x80 ≤ b ∧ b ≤ 0xBF
  else if a = 0xF0 then 0x90 ≤ b ∧ b ≤ 0xBF
  else if 0xF1 ≤ a ∧ a ≤ 0xF3 then 0x80 ≤ b ∧ b ≤ 0xBF
  else if a = 0xF4 then 0x80 ≤ b ∧ b ≤ 0x8F
  else false

def utf8Error (a b : UInt8) : Option String :=
  if a < 0x80 then
    if b < 0x80 then none
    else if 0xC2 ≤ b ∧ b ≤ 0xF4 then some "incomplete utf-8 byte sequence from index 1"
    else some "invalid utf-8 sequence of 1 bytes from index 1"
  else if ¬ continues a b then some "invalid utf-8 sequence of 1 bytes from index 0"
  else if a ≤ 0xDF then none
  else some "incomplete utf-8 byte sequence from index 0"

def hexPairs : List UInt8 → Except CollectiveBackendError (List UInt8)
  | a :: b :: rest => do
    match utf8Error a b with
      | some error => .error (.internal s!"invalid bootstrap identifier: {error}")
      | none => .ok ()
    let byte ← match hexPair a b with
      | some byte => .ok byte
      | none => .error (.internal "invalid bootstrap identifier: invalid digit found in string")
    let bytes ← hexPairs rest
    .ok (byte :: bytes)
  | _ => .ok []

def hexDecode (text : String) : Except CollectiveBackendError (List UInt8) := do
  ensure ((bytes text).length % 2 = 0) (.internal "bootstrap identifier is not valid hex")
  hexPairs (bytes text)

def laneView (lane : Lane) (hash : Option LaneHash) : Except CollectiveBackendError CollectiveLane := do
  let ncclUniqueId ← match hash with
    | some hash => hexDecode hash.ncclUniqueId
    | none => .ok []
  .ok ⟨lane.laneId, lane.kind, lane.worldSize, ncclUniqueId,
    (hash.map (·.bootstrapEpoch)).getD 0, placed lane.laneId⟩

/-- The lanes of the view, from the lane hashes in declared order. -/
def laneViews (hashes : List (Option LaneHash)) : Except CollectiveBackendError (List CollectiveLane) :=
  (layout.lanes.zip hashes).mapM fun e => laneView placed e.1 e.2

/-! ## The group -/

def storedLayout (root : Root) : Except CollectiveBackendError LaneLayout := do
  let lanes ← decodeLanes root.lanes
  (LaneLayout.new lanes (splitSlots root.expectedTrainerSlots)
    (splitSlots root.expectedGeneratorSlots)).mapError fun error => .internal error.message

/-- The slots whose digest is not the group's, sorted. -/
def disagreeingSlots (planDigest : String) (reported : Hash) : List String :=
  sortSlots ((reported.entries.filter fun e => e.2 ≠ planDigest).map (·.1))

def groupView (groupId : String) (root : Root) (lanes : List CollectiveLane) (reported : Hash) :
    CollectiveGroup where
  groupId := groupId
  modelName := root.modelName
  epoch := root.epoch
  state := root.state
  lanes := lanes
  planSource := if root.planSource.workerId = "" then none else some root.planSource
  planDigest := root.planDigest
  expectedTrainerSlots := splitSlots root.expectedTrainerSlots
  expectedGeneratorSlots := splitSlots root.expectedGeneratorSlots
  disagreeingSlots := disagreeingSlots root.planDigest reported

/-- The view of a group whose hashes are all read at one instant. -/
def readAt (groupId : String) (g : Group) : Except CollectiveBackendError CollectiveGroup :=
  match g.root with
  | none => .error (groupNotFound groupId)
  | some root => do
    let layout ← storedLayout root
    let placed ← placeParticipants layout g.participants
    let lanes ← laneViews layout placed (layout.lanes.map fun lane => g.lanes lane.laneId)
    .ok (groupView groupId root lanes g.digests)

end ModelExpress.Collective
