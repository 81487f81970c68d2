/-
  ModelExpress NCCL M2N refit — the communicator cache and its teardown (`collective/comm.py`).

  The clients log an abort as one call; this is what the call does.  Time is exact, and any amount of it
  passes before the clock is read.
-/
import Mathlib.Algebra.Order.Ring.Rat
import Mathlib.Data.List.AList
import ModelExpress.M2n.World

namespace ModelExpress.M2n.Comm

/-! ## Time -/

/-- How the abort of a handle goes, and how long it takes. -/
inductive Abort where
  | returns (after : ℚ≥0)
  | raises (after : ℚ≥0)
  | never

/-- What an abort raises is swallowed in its thread. -/
def Abort.after : Abort → Option ℚ≥0
  | returns t | raises t => some t
  | never => none

/-- The process a cache lives in. -/
structure Process (Handle : Type) where
  abortTimeout : ℚ
  /-- `envs.py` refuses other values -/
  pos : 0 < abortTimeout
  /-- the time that passes before the `n`-th reading of the clock -/
  delay : ℕ → ℚ≥0
  /-- the handle has a method `abort` -/
  abortable : Handle → Bool
  abort : ℕ → Handle → Abort

structure Launch where
  start : ℚ
  stop : Option ℚ

structure Run where
  now : ℚ
  reads : ℕ := 0
  waited : ℚ := 0
  launches : List Launch := []

variable {Handle : Type} (process : Process Handle)

def monotonic (run : Run) : Run :=
  { run with now := run.now + process.delay run.reads, reads := run.reads + 1 }

/-- `_run_bounded`, and whether the abort ended in time. -/
def runBounded (comm : Handle) (timeout : ℚ) (run : Run) : Bool × Run :=
  let after := (process.abort run.launches.length comm).after
  let wait := after.elim timeout fun t => min t timeout
  (after.any fun t => t ≤ timeout,
    { run with
      now := run.now + wait
      waited := run.waited + wait
      launches := run.launches ++ [⟨run.now, after.map fun t : ℚ≥0 => run.now + t⟩] })

/-! ## Lanes -/

structure LaneCommunicator (Handle : Type) where
  comm : Handle
  control : Option Handle
  aborted : Bool := false
  wedged : Bool := false
  wedged_aborted : wedged → aborted

structure CommunicatorWedgedError where
  groupId : Option String := none
  epoch : Option ℕ := none
  laneId : Option ℕ := none
  timeoutS : ℚ

def LaneCommunicator.handle (lane : LaneCommunicator Handle) : Except String Handle :=
  if lane.aborted then
    .error <| "this communicator was aborted; a new one must be bootstrapped " ++
      "against a fresh epoch before the lane can be used again"
  else .ok lane.comm

/-- The loop of `LaneCommunicator.abort`, and whether it left the lane wedged. -/
def abortHandles (deadline : ℚ) : List (Option Handle) → Run → Bool × Run
  | [], run => (false, run)
  | comm :: comms, run =>
    match comm.filter process.abortable with
    | none => abortHandles deadline comms run
    | some comm =>
      let run := monotonic process run
      if deadline - run.now ≤ 0 then (true, run)
      else
        let (returned, run) := runBounded process comm (deadline - run.now) run
        if returned then abortHandles deadline comms run else (true, run)

def LaneCommunicator.abort (lane : LaneCommunicator Handle) (deadline? : Option ℚ) (run : Run) :
    Option CommunicatorWedgedError × LaneCommunicator Handle × Run :=
  if lane.aborted then (none, lane, run)
  else
    let (deadline, run) := match deadline? with
      | some deadline => (deadline, run)
      | none => ((monotonic process run).now + process.abortTimeout, monotonic process run)
    let (overran, run) := abortHandles process deadline [some lane.comm, lane.control] run
    let wedged := lane.wedged || overran
    (if wedged then some { timeoutS := process.abortTimeout } else none,
      { lane with aborted := true, wedged := wedged, wedged_aborted := fun _ => rfl }, run)

/-! ## The cache -/

abbrev Lanes (Handle : Type) := AList fun _ : LaneKey => LaneCommunicator Handle

/-- The loop of `_abort_keys`; `removed` are the lanes it popped, as it left them. -/
structure Teardown (Handle : Type) where
  lanes : Lanes Handle
  removed : List (LaneKey × LaneCommunicator Handle) := []
  wedged : Option CommunicatorWedgedError := none
  run : Run

def abortKey (deadline? : Option ℚ) (t : Teardown Handle) (key : LaneKey) : Teardown Handle :=
  match t.lanes.lookup key with
  | none => t
  | some lane =>
    let (error, lane, run) := lane.abort process deadline? t.run
    let error := error.map fun e =>
      { e with groupId := some key.groupId, epoch := some key.epoch, laneId := e.laneId <|> some key.laneId }
    { lanes := t.lanes.erase key, removed := t.removed ++ [(key, lane)], wedged := t.wedged <|> error, run }

/-- The clock is only read for a deadline when there are keys. -/
def startRun (now : ℚ) (keys : List LaneKey) : Run :=
  if keys.isEmpty then { now } else monotonic process { now }

def abortKeys (lanes : Lanes Handle) (now : ℚ) (keys : List LaneKey) : Teardown Handle :=
  let run := startRun process now keys
  let deadline? := if keys.isEmpty then none else some (run.now + process.abortTimeout)
  keys.foldl (abortKey process deadline?) { lanes, run }

def dropLanes (lanes : Lanes Handle) (now : ℚ) (keys : List LaneKey) :
    Except CommunicatorWedgedError ℕ × Teardown Handle :=
  let t := abortKeys process lanes now keys
  (t.wedged.elim (.ok keys.length) .error, t)

def invalidateEpoch (lanes : Lanes Handle) (now : ℚ) (groupId : String) (epoch : ℕ) :
    Except CommunicatorWedgedError ℕ × Teardown Handle :=
  dropLanes process lanes now (lanes.keys.filter fun key => key.groupId = groupId ∧ key.epoch ≠ epoch)

def abortGroup (lanes : Lanes Handle) (now : ℚ) (groupId : String) :
    Except CommunicatorWedgedError ℕ × Teardown Handle :=
  dropLanes process lanes now (lanes.keys.filter fun key => key.groupId = groupId)

/-! ## One budget -/

/-- What holds of a teardown that began at `began`. -/
structure InBudget (began : ℚ) (run : Run) : Prop where
  passed : began + run.waited ≤ run.now
  waited : run.waited ≤ process.abortTimeout
  started : ∀ launch ∈ run.launches, launch.start < began + process.abortTimeout
  alone : run.launches.Pairwise fun earlier later => ∃ stop ∈ earlier.stop, stop ≤ later.start
  /-- an abort that is still running has used the budget up -/
  spent : began + process.abortTimeout ≤ run.now ∨ ∀ launch ∈ run.launches, ∃ stop ∈ launch.stop, stop ≤ run.now

variable {process} {began : ℚ} {run : Run}

theorem InBudget.monotonic (h : InBudget process began run) : InBudget process began (monotonic process run) := by
  have hle : run.now ≤ (Comm.monotonic process run).now := le_add_of_nonneg_right (process.delay run.reads).2
  refine ⟨h.passed.trans hle, h.waited, h.started, h.alone, h.spent.imp hle.trans' fun hstop launch hl => ?_⟩
  obtain ⟨stop, hs, hnow⟩ := hstop launch hl
  exact ⟨stop, hs, hnow.trans hle⟩

theorem InBudget.runBounded (h : InBudget process began run) (comm : Handle)
    (hnow : run.now < began + process.abortTimeout) :
    InBudget process began (runBounded process comm (began + process.abortTimeout - run.now) run).2 := by
  -- the budget is not used up, so every abort launched before has ended
  have hstop := h.spent.resolve_left hnow.not_ge
  obtain ⟨hpassed, -, hstarted, halone, -⟩ := h
  unfold Comm.runBounded
  cases (process.abort run.launches.length comm).after with
  | none => constructor <;> simp only [List.pairwise_append, List.forall_mem_append] <;> grind
  | some t =>
    have ht : (0 : ℚ) ≤ t := NNRat.cast_nonneg t
    constructor <;> simp only [List.pairwise_append, List.forall_mem_append, List.forall_mem_singleton,
      Option.map_some, Option.mem_some_iff, exists_eq_left'] <;> grind

theorem InBudget.abortHandles (comms : List (Option Handle)) : ∀ {run}, InBudget process began run →
    InBudget process began (abortHandles process (began + process.abortTimeout) comms run).2 := by
  induction comms with
  | nil => exact id
  | cons comm comms ih =>
    intro run h
    unfold Comm.abortHandles
    cases comm.filter process.abortable with
    | none => exact ih h
    | some comm =>
      dsimp only
      split_ifs with hspent
      · exact h.monotonic
      all_goals have hrun := h.monotonic.runBounded comm (sub_pos.mp (not_le.mp hspent))
      exacts [ih hrun, hrun]

/-! ## Every lane -/

variable (process) in
/-- The lanes of `keys` have been torn down, and `raised` says whether that is reported as a wedge. -/
structure TearsDown (began : ℚ) (lanes : Lanes Handle) (keys : List LaneKey) (t : Teardown Handle)
    (raised : Prop) : Prop where
  inBudget : InBudget process began t.run
  lookup : ∀ key, t.lanes.lookup key = if key ∈ keys then none else lanes.lookup key
  removed : ∀ key, key ∈ t.removed.map (·.1) ↔ key ∈ keys ∧ key ∈ lanes
  unusable : ∀ entry ∈ t.removed, ∃ message, entry.2.handle = .error message
  raises : raised ↔ ∃ entry ∈ t.removed, entry.2.wedged ∧ ∀ lane ∈ lanes.lookup entry.1, ¬ lane.wedged

variable {lanes : Lanes Handle} {done : List LaneKey} {t : Teardown Handle}

theorem abort_spec (lane : LaneCommunicator Handle) (h : InBudget process began run) :
    let r := lane.abort process (some (began + process.abortTimeout)) run
    InBudget process began r.2.2 ∧ r.2.1.aborted ∧ (r.1.isSome ↔ r.2.1.wedged ∧ ¬ lane.wedged) := by
  unfold LaneCommunicator.abort
  split_ifs with ha
  · exact ⟨h, ha, by simp⟩
  · have hw : lane.wedged = false := Bool.eq_false_iff.mpr fun hw => ha (lane.wedged_aborted hw)
    refine ⟨h.abortHandles _, rfl, ?_⟩
    simp [hw, apply_ite Option.isSome]

theorem TearsDown.abortKey (h : TearsDown process began lanes done t t.wedged.isSome) (key : LaneKey) :
    let t := abortKey process (some (began + process.abortTimeout)) t key
    TearsDown process began lanes (done ++ [key]) t t.wedged.isSome := by
  have hkey := h.lookup key
  have hmem : key ∈ lanes ↔ (lanes.lookup key).isSome := AList.lookup_isSome.symm
  unfold Comm.abortKey
  cases hlane : t.lanes.lookup key with
  | none =>
    refine ⟨h.inBudget, fun k => ?_, fun k => ?_, h.unusable, h.raises⟩
    · have := h.lookup k
      grind
    · have := h.removed k
      grind
  | some lane =>
    obtain ⟨hbudget, haborted, herror⟩ := abort_spec lane h.inBudget
    refine ⟨hbudget, fun k => ?_, fun k => ?_, ?_, ?_⟩
    · have := h.lookup k
      have := AList.lookup_erase key t.lanes
      grind [AList.lookup_erase_ne]
    · have := h.removed k
      grind
    · exact List.forall_mem_append.mpr ⟨h.unusable, List.forall_mem_singleton.mpr ⟨_, if_pos haborted⟩⟩
    · have hwas : lanes.lookup key = some lane := by grind
      simp [Option.isSome_or, h.raises, herror, hwas, or_and_right, exists_or]

theorem TearsDown.foldl (keys : List LaneKey) :
    ∀ {done t}, TearsDown process began lanes done t t.wedged.isSome →
      let t := keys.foldl (Comm.abortKey process (some (began + process.abortTimeout))) t
      TearsDown process began lanes (done ++ keys) t t.wedged.isSome := by
  induction keys with
  | nil => simp
  | cons key keys ih =>
    intro done t h
    simpa using ih (h.abortKey key)

/-- `r` is what a call at `now` gives that tears the lanes of `keys` down. -/
def TornDown (process : Process Handle) (lanes : Lanes Handle) (now : ℚ) (keys : List LaneKey)
    (r : Except CommunicatorWedgedError ℕ × Teardown Handle) : Prop :=
  TearsDown process (startRun process now keys).now lanes keys r.2 (∃ error, r.1 = .error error)

theorem dropLanes_tornDown (process : Process Handle) (lanes : Lanes Handle) (now : ℚ) (keys : List LaneKey) :
    TornDown process lanes now keys (dropLanes process lanes now keys) := by
  let t : Teardown Handle := { lanes, run := startRun process now keys }
  have hinit : TearsDown process t.run.now lanes [] t t.wedged.isSome := by
    refine ⟨?_, by simp [t], by simp [t], by simp [t], by simp [t]⟩
    simp only [t, startRun]
    split_ifs <;> exact ⟨by simp [monotonic], process.pos.le, nofun, .nil, .inr nofun⟩
  have h : TearsDown process t.run.now lanes keys (abortKeys process lanes now keys)
      (abortKeys process lanes now keys).wedged.isSome := by
    cases keys with
    | nil => exact hinit
    | cons key keys => exact hinit.foldl (key :: keys)
  refine { h with raises := Iff.trans ?_ h.raises }
  unfold dropLanes
  dsimp only
  cases (abortKeys process lanes now keys).wedged <;> simp

/-- Tearing lanes down is complete and takes one budget, whatever their aborts do. -/
theorem teardown_bounded (process : Process Handle) (lanes : Lanes Handle) (now : ℚ) (groupId : String) :
    TornDown process lanes now (lanes.keys.filter fun key => key.groupId = groupId)
        (abortGroup process lanes now groupId) ∧
      ∀ epoch, TornDown process lanes now (lanes.keys.filter fun key => key.groupId = groupId ∧ key.epoch ≠ epoch)
        (invalidateEpoch process lanes now groupId epoch) :=
  ⟨dropLanes_tornDown .., fun _ => dropLanes_tornDown ..⟩

end ModelExpress.M2n.Comm
