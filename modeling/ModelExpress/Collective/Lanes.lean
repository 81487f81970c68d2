/-
  ModelExpress collective refit — lane membership and rank assignment
  (`refit_collective/lanes.rs`).

  `placeLanes` is the outer loop of `LaneLayout::new` and `placeSlots` the inner one; the hash
  sets and maps of the source are lists.
-/
import ModelExpress.Collective.Types
import ModelExpress.Lib.Checks

namespace ModelExpress.Collective

open Checks List

def saturateU32 (n : ℕ) : UInt32 :=
  if n < 2 ^ 32 then UInt32.ofNat n else UInt32.ofNat (2 ^ 32 - 1)

theorem saturateU32_toNat {n : ℕ} (h : n < 2 ^ 32) : (saturateU32 n).toNat = n := by
  rw [saturateU32, if_pos h, UInt32.toNat_ofNat']
  exact Nat.mod_eq_of_lt h

structure Assignment where
  laneId : UInt32
  kind : LaneKind
  rankInLane : UInt32
  worldSize : UInt32
  deriving DecidableEq

structure Lane where
  laneId : UInt32
  kind : LaneKind
  trainerSlots : List String
  generatorSlots : List String
  deriving DecidableEq

/-- Trainers take the low ranks, generators follow. -/
def Lane.slotsInRankOrder (lane : Lane) : List String := lane.trainerSlots ++ lane.generatorSlots

def Lane.worldSize (lane : Lane) : UInt32 :=
  saturateU32 (lane.trainerSlots.length + lane.generatorSlots.length)

inductive LaneError where
  | noLanes
  | noTrainers
  | noGenerators
  | duplicateLaneId (laneId : UInt32)
  | unspecifiedLaneKind (laneId : UInt32)
  | unknownSlot (laneId : UInt32) (slotId role : String)
  | duplicateSlotInLane (laneId : UInt32) (slotId : String)
  | unassignedSlot (slotId : String)
  | multipleBroadcastLanes (found : ℕ)
  | unknownParticipant (slotId : String)
  | noTrainerSlotInLane (laneId : UInt32)
  deriving DecidableEq

def LaneError.message : LaneError → String
  | .noLanes => "a collective group must declare at least one lane"
  | .noTrainers => "expected_trainer_slots must not be empty"
  | .noGenerators => "expected_generator_slots must not be empty"
  | .duplicateLaneId laneId => s!"lane_id {laneId} is declared more than once"
  | .unspecifiedLaneKind laneId => s!"lane {laneId} declares kind LANE_KIND_UNSPECIFIED"
  | .unknownSlot laneId slotId role =>
    s!"lane {laneId} declares slot {slotId}, which is not an expected {role} slot"
  | .duplicateSlotInLane laneId slotId => s!"lane {laneId} declares slot {slotId} more than once"
  | .unassignedSlot slotId => s!"slot {slotId} is expected but is on no declared lane"
  | .multipleBroadcastLanes found => s!"at most one broadcast lane may be declared; found {found}"
  | .unknownParticipant slotId => s!"slot {slotId} is not a member of this group"
  | .noTrainerSlotInLane laneId =>
    s!"lane {laneId} declares no trainer slot; rank 0 of a lane must be a trainer"

/-- `by_slot`: the assignments a slot holds, in declared lane order. -/
abbrev SlotIndex := AList fun _ : String => List Assignment

structure LaneLayout where
  lanes : List Lane
  bySlot : SlotIndex
  trainerCount : UInt32
  generatorCount : UInt32

def checkKnown (laneId : UInt32) (known : List String) (role : String) (slots : List String) :
    Except LaneError Unit :=
  forM slots fun slotId => ensure (slotId ∈ known) (.unknownSlot laneId slotId role)

/-- The inner loop: give each slot of the lane the rank of its position. -/
def placeSlots (lane : Lane) :
    ℕ → List String → SlotIndex → List String → Except LaneError SlotIndex
  | _, _, bySlot, [] => .ok bySlot
  | rank, seen, bySlot, slotId :: rest => do
    ensure (slotId ∉ seen) (.duplicateSlotInLane lane.laneId slotId)
    let assignment : Assignment := ⟨lane.laneId, lane.kind, saturateU32 rank, lane.worldSize⟩
    placeSlots lane (rank + 1) (slotId :: seen)
      (bySlot.insert slotId ((bySlot.lookup slotId).getD [] ++ [assignment])) rest

def placeLanes (trainers generators : List String) :
    List UInt32 → SlotIndex → List Lane → Except LaneError SlotIndex
  | _, bySlot, [] => .ok bySlot
  | seen, bySlot, lane :: rest => do
    ensure (lane.laneId ∉ seen) (.duplicateLaneId lane.laneId)
    ensure (lane.kind ≠ .unspecified) (.unspecifiedLaneKind lane.laneId)
    ensure (lane.trainerSlots ≠ []) (.noTrainerSlotInLane lane.laneId)
    checkKnown lane.laneId trainers "trainer" lane.trainerSlots
    checkKnown lane.laneId generators "generator" lane.generatorSlots
    let bySlot ← placeSlots lane 0 [] bySlot lane.slotsInRankOrder
    placeLanes trainers generators (lane.laneId :: seen) bySlot rest

def LaneLayout.new (lanes : List Lane) (trainers generators : List String) :
    Except LaneError LaneLayout := do
  ensure (trainers ≠ []) .noTrainers
  ensure (generators ≠ []) .noGenerators
  ensure (lanes ≠ []) .noLanes
  let broadcast := lanes.countP (·.kind = .broadcast)
  ensure (broadcast ≤ 1) (.multipleBroadcastLanes broadcast)
  let bySlot ← placeLanes trainers generators [] ∅ lanes
  -- a slot on no lane would wait on a communicator it was never placed in
  forM (trainers ++ generators) fun slotId => ensure (slotId ∈ bySlot) (.unassignedSlot slotId)
  .ok ⟨lanes, bySlot, saturateU32 trainers.length, saturateU32 generators.length⟩

def LaneLayout.assign (layout : LaneLayout) (slotId : String) :
    Except LaneError (List Assignment) :=
  match layout.bySlot.lookup slotId with
  | some assignments => .ok assignments
  | none => .error (.unknownParticipant slotId)

def LaneLayout.isBootstrapLeader (layout : LaneLayout) (slotId : String) : Bool :=
  match layout.bySlot.lookup slotId with
  | some assignments => assignments.any (·.rankInLane = 0)
  | none => false

/-! ## What a built layout satisfies -/

structure LaneOk (trainers generators : List String) (lane : Lane) : Prop where
  kind : lane.kind ≠ .unspecified
  trainers_ne : lane.trainerSlots ≠ []
  trainers_sub : ∀ s ∈ lane.trainerSlots, s ∈ trainers
  generators_sub : ∀ s ∈ lane.generatorSlots, s ∈ generators
  nodup : lane.slotsInRankOrder.Nodup

structure LayoutOk (lanes : List Lane) (trainers generators : List String) : Prop where
  lanes_ne : lanes ≠ []
  ids_nodup : (lanes.map (·.laneId)).Nodup
  lane : ∀ lane ∈ lanes, LaneOk trainers generators lane
  covered : ∀ s ∈ trainers ++ generators, ∃ lane ∈ lanes, s ∈ lane.slotsInRankOrder

theorem placeSlots_ok {lane : Lane} :
    ∀ {rank : ℕ} {seen : List String} {bySlot bySlot' : SlotIndex} {slots : List String},
      placeSlots lane rank seen bySlot slots = .ok bySlot' →
      slots.Nodup ∧ (∀ s ∈ slots, s ∉ seen) ∧ ∀ s, s ∈ bySlot' ↔ s ∈ slots ∨ s ∈ bySlot
  | _, _, _, _, [], h => by
    simp only [placeSlots, Except.ok.injEq] at h
    subst h; simp
  | rank, seen, bySlot, bySlot', slotId :: rest, h => by
    simp only [placeSlots, bind_eq_ok, ensure_eq_ok] at h
    obtain ⟨-, hs, h⟩ := h
    obtain ⟨hn, hd, hi⟩ := placeSlots_ok h
    refine ⟨nodup_cons.2 ⟨fun hm => hd _ hm (mem_cons_self ..), hn⟩, ?_, fun s => ?_⟩
    · intro s hm
      rcases mem_cons.1 hm with rfl | hm
      · exact hs
      · exact fun h' => hd s hm (mem_cons_of_mem _ h')
    · rw [hi, AList.mem_insert, mem_cons]; tauto

variable {trainers generators : List String} {layout : LaneLayout}

theorem placeLanes_ok :
    ∀ {seen : List UInt32} {bySlot bySlot' : SlotIndex} {lanes : List Lane},
      placeLanes trainers generators seen bySlot lanes = .ok bySlot' →
      (lanes.map (·.laneId)).Nodup ∧ (∀ lane ∈ lanes, lane.laneId ∉ seen) ∧
      (∀ lane ∈ lanes, LaneOk trainers generators lane) ∧
      ∀ s, s ∈ bySlot' ↔ (∃ lane ∈ lanes, s ∈ lane.slotsInRankOrder) ∨ s ∈ bySlot
  | _, _, _, [], h => by
    simp only [placeLanes, Except.ok.injEq] at h
    subst h; simp
  | seen, bySlot, bySlot', lane :: rest, h => by
    simp only [placeLanes, bind_eq_ok, ensure_eq_ok, checkKnown, forM_eq_ok] at h
    obtain ⟨-, hs, -, hk, -, ht, -, hkt, -, hkg, _, hp, h⟩ := h
    obtain ⟨hn, -, hi⟩ := placeSlots_ok hp
    obtain ⟨hns, hd, hok, hi'⟩ := placeLanes_ok h
    refine ⟨?_, ?_, ?_, fun s => ?_⟩
    · refine nodup_cons.2 ⟨fun hm => ?_, hns⟩
      obtain ⟨l, hl, he⟩ := mem_map.1 hm
      exact hd l hl (by rw [he]; exact mem_cons_self ..)
    · intro l hl
      rcases mem_cons.1 hl with rfl | hl
      · exact hs
      · exact fun h' => hd l hl (mem_cons_of_mem _ h')
    · intro l hl
      rcases mem_cons.1 hl with rfl | hl
      · exact ⟨hk, ht, hkt, hkg, hn⟩
      · exact hok l hl
    · rw [hi', hi, exists_mem_cons_iff, or_assoc, or_left_comm]

theorem LaneLayout.new_ok {lanes : List Lane} (h : LaneLayout.new lanes trainers generators = .ok layout) :
    LayoutOk lanes trainers generators ∧ layout.lanes = lanes ∧
      layout.trainerCount = saturateU32 trainers.length ∧
      layout.generatorCount = saturateU32 generators.length ∧
      ∀ s ∈ trainers ++ generators, s ∈ layout.bySlot := by
  simp only [LaneLayout.new, bind_eq_ok, ensure_eq_ok, forM_eq_ok] at h
  obtain ⟨-, -, -, -, -, hl, -, -, _, hp, -, hc, h⟩ := h
  cases h
  obtain ⟨hn, -, hok, hi⟩ := placeLanes_ok hp
  refine ⟨⟨hl, hn, hok, fun s hs => ?_⟩, rfl, rfl, rfl, hc⟩
  rcases (hi s).1 (hc s hs) with h | h
  · exact h
  · exact absurd h (AList.notMem_empty s)

theorem LaneLayout.assign_ok {slotId : String} (h : slotId ∈ layout.bySlot) :
    ∃ assignments, layout.assign slotId = .ok assignments := by
  obtain ⟨a, ha⟩ := Option.isSome_iff_exists.1 (AList.lookup_isSome.2 h)
  exact ⟨a, by simp [assign, ha]⟩

end ModelExpress.Collective
