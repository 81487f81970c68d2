/-
  ModelExpress collective refit — the Redis keyspace and the helpers the group scripts share
  (`scripts/common.lua`).

  A script that works on one group reads and writes a `Cell`: that group and the operations
  table.  Hashes are association lists whose order carries no meaning.
-/
import Mathlib.Data.Finset.Card
import ModelExpress.Lib.Assoc
import ModelExpress.Collective.Codec

namespace ModelExpress.Collective

open Text List

/-! ## Records -/

/-- A worker's TTL-bound registration, as the scripts read it. -/
structure Registration where
  workerId : String
  role : String
  modelName : String
  deriving DecidableEq

abbrev Workers := String → Option Registration

structure Root where
  groupId : String
  modelName : String
  lanes : String
  expectedTotal : UInt32
  expectedTrainerSlots : String
  expectedGeneratorSlots : String
  planDigest : String
  epoch : ℕ
  state : CollectiveGroupState
  planSource : PlanSource
  deriving DecidableEq

structure LaneHash where
  ncclUniqueId : String
  bootstrapEpoch : ℕ
  publishedBy : String
  deriving DecidableEq

abbrev Hash := AList fun _ : String => String

structure Group where
  root : Option Root
  participants : Hash
  digests : Hash
  lanes : UInt32 → Option LaneHash
  activeOps : List String

def Group.empty : Group := ⟨none, ∅, ∅, fun _ => none, []⟩

structure Operation where
  groupId : String
  epoch : ℕ
  versionId : String
  modelName : String
  idempotencyKey : String
  state : CollectiveTransferState
  failureMessage : String
  deriving DecidableEq

abbrev Operations := String → Option Operation

structure Cell where
  group : Group
  ops : Operations

structure Store where
  workers : Workers
  groups : String → Group
  ops : Operations
  reported : String → Finset String
  requests : String → Option String

def Store.empty : Store := ⟨fun _ => none, fun _ => .empty, fun _ => none, fun _ => ∅, fun _ => none⟩

/-! ## Updates -/

def Group.mapRoot (g : Group) (f : Root → Root) : Group := { g with root := g.root.map f }

def Group.setState (g : Group) (state : CollectiveGroupState) : Group :=
  g.mapRoot fun root => { root with state := state }

def Group.releaseSource (g : Group) (workerId : String) : Group :=
  g.mapRoot fun root =>
    if root.planSource.workerId = workerId then { root with planSource := .default } else root

def Group.drop (g : Group) (slot : String) : Group :=
  { g with participants := g.participants.erase slot, digests := g.digests.erase slot }

def Group.clearLanes (g : Group) (laneIds : List UInt32) : Group :=
  { g with lanes := fun i => if i ∈ laneIds then none else g.lanes i }

/-- Move to the next epoch: `FORMING`, no plan source, no lanes. -/
def Group.advance (g : Group) (laneIds : List UInt32) : Group :=
  (g.mapRoot fun root =>
    { root with epoch := root.epoch + 1, state := .forming, planSource := .default }).clearLanes laneIds

/-! ## `common.lua` -/

def registrationMatches (workers : Workers) (workerId role modelName : String) : Bool :=
  (workers workerId).any fun r =>
    r.workerId = workerId ∧ r.role = (if role = "TRAINER" then "1" else "2") ∧ r.modelName = modelName

def abortMessage : String := "group epoch advanced before the transfer completed"

def Operation.abort (op : Operation) : Operation :=
  if op.state.terminal then op else { op with state := .aborted, failureMessage := abortMessage }

def abortOp (c : Cell) (id : String) : Cell :=
  { group := { c.group with activeOps := c.group.activeOps.filter (· ≠ id) }
    ops := match c.ops id with
      | some op => Function.update c.ops id (some op.abort)
      | none => c.ops }

def abortStaleOps (c : Cell) : Cell := c.group.activeOps.foldl abortOp c

def stamped (g : Group) (epoch : ℕ) (laneId : UInt32) : Bool :=
  (g.lanes laneId).any fun lane => lane.bootstrapEpoch = epoch

def anyLaneBootstrapped (g : Group) (laneIds : List UInt32) (epoch : ℕ) : Bool :=
  laneIds.any (stamped g epoch)

def needsEpochBump (g : Group) (laneIds : List UInt32) (epoch : ℕ) : Bool :=
  g.root.any (fun root => root.state = .ready) || anyLaneBootstrapped g laneIds epoch

/-- What `evaluate_readiness` asks of one participant record. -/
def participantReady (workers : Workers) (epoch : ℕ) (modelName : Option String) (record : String) :
    Bool :=
  (parseParticipant record).any fun p =>
    toNumber p.joinedEpoch = some epoch ∧
      modelName.all fun model => registrationMatches workers p.workerId p.role model

def evaluateReadiness (workers : Workers) (g : Group) (laneIds : List UInt32) (expected epoch : ℕ)
    (modelName : Option String) : Bool :=
  decide (g.participants.entries.length = expected) &&
    g.participants.entries.all (fun e => participantReady workers epoch modelName e.2) &&
    laneIds.all (stamped g epoch) &&
    decide (g.digests.entries.length = expected) &&
    g.digests.entries.all (fun e => g.root.any fun root => e.2 = root.planDigest)

def readinessState (ready : Bool) : CollectiveGroupState := if ready then .ready else .forming

/-- The record parses and its worker still has a matching registration. -/
def live (workers : Workers) (modelName record : String) : Bool :=
  (parseParticipant record).any fun p => registrationMatches workers p.workerId p.role modelName

/-- One turn of the sweep: a record that is not live is dropped with its digest, and with the plan
    source it serves. -/
def sweepRecord (workers : Workers) (modelName : String) (acc : Group × Bool)
    (entry : (_ : String) × String) : Group × Bool :=
  if live workers modelName entry.2 then acc
  else
    let g := acc.1.drop entry.1
    (match parseParticipant entry.2 with
      | some p => g.releaseSource p.workerId
      | none => g, true)

/-- The sweep over the participants; the flag says whether any record was dropped. -/
def sweepExpired (workers : Workers) (modelName : String) (g : Group) : Group × Bool :=
  g.participants.entries.foldl (sweepRecord workers modelName) (g, false)

/-! ## What the updates leave alone -/

section Frame
variable (g : Group) (f : Root → Root)

@[simp] theorem mapRoot_root : (g.mapRoot f).root = g.root.map f := rfl

@[simp] theorem advance_activeOps (laneIds : List UInt32) :
    (g.advance laneIds).activeOps = g.activeOps := rfl

end Frame

/-! ## Aborting -/

theorem Operation.abort_of_terminal {op : Operation} (h : op.state.terminal = true) : op.abort = op :=
  if_pos h

theorem Operation.abort_terminal (op : Operation) : op.abort.state.terminal = true := by
  unfold Operation.abort
  split_ifs with h
  · exact h
  · rfl

theorem abortOp_ops (c : Cell) (id i : String) :
    (abortOp c id).ops i = if i = id then (c.ops i).map Operation.abort else c.ops i := by
  by_cases hi : i = id
  · subst hi
    cases hop : c.ops i with
    | none | some op => simp [abortOp, hop]
  · cases hop : c.ops id with
    | none | some op => simp [abortOp, hop, hi]

theorem foldl_abortOp (l : List String) (c : Cell) :
    (l.foldl abortOp c).group = { c.group with activeOps := c.group.activeOps.filter (· ∉ l) } ∧
      ∀ i, (l.foldl abortOp c).ops i = if i ∈ l then (c.ops i).map Operation.abort else c.ops i := by
  induction l generalizing c with
  | nil => simp
  | cons id l ih =>
    obtain ⟨hg, ho⟩ := ih (abortOp c id)
    rw [foldl_cons]
    refine ⟨?_, fun i => ?_⟩
    · rw [hg]
      simp only [abortOp, filter_filter, mem_cons, not_or, Bool.decide_and]
      congr 1
      exact filter_congr fun x _ => by simp [Bool.and_comm]
    · rw [ho, abortOp_ops]
      by_cases hi : i = id
      · subst hi
        simp only [if_true, mem_cons, true_or]
        split_ifs
        · cases c.ops i with
          | none => rfl
          | some op => simp [Operation.abort_of_terminal op.abort_terminal]
        · rfl
      · simp only [hi, if_false, mem_cons, false_or]

@[simp] theorem abortStaleOps_group (c : Cell) :
    (abortStaleOps c).group = { c.group with activeOps := [] } := by
  have hnil : c.group.activeOps.filter (· ∉ c.group.activeOps) = [] :=
    filter_eq_nil_iff.2 fun x hx => by simp [hx]
  rw [abortStaleOps, (foldl_abortOp _ c).1, hnil]

/-! ## The sweep -/

/-- `plan_source_*` set to the empty string. -/
def Root.clearSource (root : Root) : Root := { root with planSource := .default }

theorem releaseSource_root (g : Group) (workerId : String) :
    ((g.releaseSource workerId).root = g.root ∧
        ∀ root, g.root = some root → root.planSource.workerId ≠ workerId) ∨
      (g.releaseSource workerId).root = g.root.map Root.clearSource := by
  cases hr : g.root with
  | none => left; simp [Group.releaseSource, hr]
  | some root =>
    by_cases hw : root.planSource.workerId = workerId
    · right; simp [Group.releaseSource, hr, hw, Root.clearSource]
    · left; simp [Group.releaseSource, hr, hw]

/-- What a sweep that drops the slots `dropped`, held by the workers `owners`, does to a group. -/
structure Swept (g g' : Group) (dropped owners : String → Prop) : Prop where
  lanes : g'.lanes = g.lanes
  activeOps : g'.activeOps = g.activeOps
  kept : ∀ slot, ¬ dropped slot → g'.participants.lookup slot = g.participants.lookup slot ∧
    g'.digests.lookup slot = g.digests.lookup slot
  gone : ∀ slot, dropped slot → g'.participants.lookup slot = none ∧ g'.digests.lookup slot = none
  root : (g'.root = g.root ∧ ∀ root, g.root = some root → ¬ owners root.planSource.workerId) ∨
    g'.root = g.root.map Root.clearSource

variable {g : Group} {b : Bool}

section Sweep
variable (workers : Workers) (modelName : String)

theorem sweepRecord_drop {e : (_ : String) × String} (h : live workers modelName e.2 = false) :
    ∃ g', sweepRecord workers modelName (g, b) e = (g', true) ∧
      Swept g g' (· = e.1) fun w => ∃ p, parseParticipant e.2 = some p ∧ p.workerId = w := by
  have hkept : ∀ slot, ¬ slot = e.1 → (g.drop e.1).participants.lookup slot = g.participants.lookup slot ∧
      (g.drop e.1).digests.lookup slot = g.digests.lookup slot :=
    fun slot hs => ⟨AList.lookup_erase_ne hs, AList.lookup_erase_ne hs⟩
  have hgone : ∀ slot, slot = e.1 → (g.drop e.1).participants.lookup slot = none ∧
      (g.drop e.1).digests.lookup slot = none := by
    rintro slot rfl
    exact ⟨AList.lookup_erase _ _, AList.lookup_erase _ _⟩
  rw [sweepRecord, if_neg (by simp [h])]
  cases hp : parseParticipant e.2 with
  | none =>
    refine ⟨g.drop e.1, rfl, rfl, rfl, hkept, hgone, Or.inl ⟨rfl, ?_⟩⟩
    rintro root - ⟨p, hp', -⟩
    cases hp'
  | some p =>
    refine ⟨(g.drop e.1).releaseSource p.workerId, rfl, rfl, rfl, hkept, hgone, ?_⟩
    rcases releaseSource_root (g.drop e.1) p.workerId with ⟨hr, hw⟩ | hr
    · refine Or.inl ⟨hr, ?_⟩
      rintro root hroot ⟨p', hp', hw'⟩
      cases hp'
      exact hw root hroot hw'.symm
    · exact Or.inr hr

theorem foldl_sweepRecord (l : List ((_ : String) × String)) (g : Group) (b : Bool) :
    ∃ g', l.foldl (sweepRecord workers modelName) (g, b) =
        (g', b || l.any fun e => !live workers modelName e.2) ∧
      Swept g g' (fun slot => ∃ e ∈ l, e.1 = slot ∧ live workers modelName e.2 = false)
        (fun w => ∃ e ∈ l, live workers modelName e.2 = false ∧
          ∃ p, parseParticipant e.2 = some p ∧ p.workerId = w) := by
  induction l generalizing g b with
  | nil => exact ⟨g, by simp, rfl, rfl, fun _ _ => ⟨rfl, rfl⟩, by simp, by simp⟩
  | cons e l ih =>
    rw [foldl_cons]
    by_cases hl : live workers modelName e.2 = true
    · rw [sweepRecord, if_pos hl]
      obtain ⟨g', hg', hs⟩ := ih g b
      refine ⟨g', by simp [hg', hl], ?_⟩
      simpa [hl] using hs
    · rw [Bool.not_eq_true] at hl
      obtain ⟨g₁, hg₁, h₁⟩ := sweepRecord_drop workers modelName hl (g := g) (b := b)
      rw [hg₁]
      obtain ⟨g', hg', h₂⟩ := ih g₁ true
      refine ⟨g', by simp [hg', hl], h₂.lanes.trans h₁.lanes, h₂.activeOps.trans h₁.activeOps, ?_, ?_, ?_⟩
      · intro slot hn
        rw [exists_mem_cons_iff, not_or, not_and] at hn
        have hne : ¬ slot = e.1 := fun he => hn.1 he.symm hl
        rw [(h₂.kept slot hn.2).1, (h₂.kept slot hn.2).2]
        exact h₁.kept slot hne
      · intro slot hd
        by_cases hd₂ : ∃ e ∈ l, e.1 = slot ∧ live workers modelName e.2 = false
        · exact h₂.gone slot hd₂
        · rw [exists_mem_cons_iff] at hd
          rw [(h₂.kept slot hd₂).1, (h₂.kept slot hd₂).2]
          exact h₁.gone slot ((hd.resolve_right hd₂).1.symm)
      · rcases h₁.root with ⟨hr₁, hw₁⟩ | hr₁
        · rcases h₂.root with ⟨hr₂, hw₂⟩ | hr₂
          · refine Or.inl ⟨hr₂.trans hr₁, fun root hroot => ?_⟩
            rw [exists_mem_cons_iff, not_or]
            exact ⟨fun ⟨_, hp⟩ => hw₁ root hroot hp, hw₂ root (hr₁.trans hroot)⟩
          · exact Or.inr (hr₂.trans (by rw [hr₁]))
        · refine Or.inr ?_
          rcases h₂.root with ⟨hr₂, -⟩ | hr₂
          · exact hr₂.trans hr₁
          · rw [hr₂, hr₁, Option.map_map]; rfl

def Group.lapsed (g : Group) (slot : String) : Prop :=
  ∃ record, g.participants.lookup slot = some record ∧ live workers modelName record = false

def Group.lapsedWorker (g : Group) (workerId : String) : Prop :=
  ∃ slot record p, g.participants.lookup slot = some record ∧ live workers modelName record = false ∧
    parseParticipant record = some p ∧ p.workerId = workerId

theorem sweepExpired_swept (g : Group) : Swept g (sweepExpired workers modelName g).1
    (g.lapsed workers modelName) (g.lapsedWorker workers modelName) := by
  obtain ⟨g', hg', hs⟩ := foldl_sweepRecord workers modelName g.participants.entries g false
  rw [sweepExpired, hg']
  have hd : ∀ slot, (∃ e ∈ g.participants.entries, e.1 = slot ∧ live workers modelName e.2 = false) ↔
      g.lapsed workers modelName slot := by
    intro slot
    rw [Assoc.exists_entries]
    exact ⟨fun ⟨_, r, hl, he, h⟩ => ⟨r, he ▸ hl, h⟩, fun ⟨r, hl, h⟩ => ⟨slot, r, hl, rfl, h⟩⟩
  have hw : ∀ w, (∃ e ∈ g.participants.entries, live workers modelName e.2 = false ∧
      ∃ p, parseParticipant e.2 = some p ∧ p.workerId = w) ↔ g.lapsedWorker workers modelName w := by
    intro w
    rw [Assoc.exists_entries]
    exact ⟨fun ⟨s, r, hl, h, p, hp⟩ => ⟨s, r, p, hl, h, hp⟩,
      fun ⟨s, r, p, hl, h, hp⟩ => ⟨s, r, hl, h, p, hp⟩⟩
  simpa only [hd, hw] using hs

theorem sweepExpired_dropped :
    (sweepExpired workers modelName g).2 = true ↔ ∃ slot, g.lapsed workers modelName slot := by
  obtain ⟨g', hg', -⟩ := foldl_sweepRecord workers modelName g.participants.entries g false
  rw [sweepExpired, hg']
  simp only [Bool.false_or, any_eq_true, Bool.not_eq_true', Assoc.exists_entries, Group.lapsed]

end Sweep

/-! ## Readiness -/

theorem stamped_iff {epoch : ℕ} {laneId : UInt32} :
    stamped g epoch laneId = true ↔ ∃ lane, g.lanes laneId = some lane ∧ lane.bootstrapEpoch = epoch := by
  simp [stamped, Option.any_eq_true]

theorem readinessState_eq_ready : readinessState b = .ready ↔ b = true := by
  cases b <;> simp [readinessState]

/-- The conditions of `evaluate_readiness`, by lookups. -/
structure Readiness (workers : Workers) (g : Group) (root : Root) (laneIds : List UInt32)
    (expected epoch : ℕ) (modelName : Option String) : Prop where
  admitted : g.participants.entries.length = expected
  ready : ∀ slot record, g.participants.lookup slot = some record →
    participantReady workers epoch modelName record = true
  lanes : ∀ i ∈ laneIds, stamped g epoch i = true
  reported : g.digests.entries.length = expected
  agree : ∀ slot digest, g.digests.lookup slot = some digest → digest = root.planDigest

theorem evaluateReadiness_iff {workers : Workers} {root : Root} (hr : g.root = some root)
    {laneIds : List UInt32} {expected epoch : ℕ} {modelName : Option String} :
    evaluateReadiness workers g laneIds expected epoch modelName = true ↔
      Readiness workers g root laneIds expected epoch modelName := by
  simp only [evaluateReadiness, Bool.and_eq_true, decide_eq_true_eq, all_eq_true, hr,
    Option.any_some, Assoc.forall_entries]
  exact ⟨fun ⟨⟨⟨⟨h₁, h₂⟩, h₃⟩, h₄⟩, h₅⟩ => ⟨h₁, h₂, h₃, h₄, h₅⟩,
    fun ⟨h₁, h₂, h₃, h₄, h₅⟩ => ⟨⟨⟨⟨h₁, h₂⟩, h₃⟩, h₄⟩, h₅⟩⟩

end ModelExpress.Collective
