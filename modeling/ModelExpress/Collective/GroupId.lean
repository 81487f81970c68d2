/-
  ModelExpress collective refit — the identity of a group (`group_id_for`). The marker between the two slot
  lists is `0x01`, and a slot that starts with it can be read either way (`RoleShift`).
-/
import Mathlib.Data.Prod.Lex
import ModelExpress.Lib.Framing
import ModelExpress.Collective.Validate

namespace ModelExpress.Collective

open Framing

def leBytes (x : UInt32) : List UInt8 :=
  [x.toUInt8, (x >>> 8).toUInt8, (x >>> 16).toUInt8, (x >>> 24).toUInt8]

def laneKey (lane : LaneSpec) : ℕ ×ₗ ℤ := toLex (lane.laneId.toNat, lane.kind.toInt)

def sortLanes (lanes : List LaneSpec) : List LaneSpec :=
  lanes.insertionSort fun a b => laneKey a ≤ laneKey b

/-- Every slot followed by a zero byte. -/
def slotsInput (slots : List String) : List UInt8 := slots.flatMap fun slot => bytes slot ++ [0]

/-- One lane: id, kind, slots in rank order, the marker `2`. -/
def laneInput (lane : LaneSpec) : List UInt8 :=
  leBytes lane.laneId ++ leBytes lane.kind.toUInt32 ++
    slotsInput (lane.trainerSlots ++ lane.generatorSlots) ++ [2]

variable (spec : CollectiveGroupSpec)

/-- The bytes `group_id_for` hashes. -/
def groupIdInput : List UInt8 :=
  bytes spec.modelName ++ [0] ++ (sortLanes spec.lanes).flatMap laneInput ++ [0] ++
    slotsInput (sortSlots spec.expectedTrainerSlots) ++ [1] ++
    slotsInput (sortSlots spec.expectedGeneratorSlots)

def hexByte (b : UInt8) : List Char :=
  [Nat.digitChar (b.toNat / 16), Nat.digitChar (b.toNat % 16)]

def hexEncode (bs : List UInt8) : String := String.ofList (bs.flatMap hexByte)

/-- `group_id_for`: the first sixteen bytes of the digest, in hex. -/
def groupIdFor (sha256 : List UInt8 → List UInt8) (spec : CollectiveGroupSpec) : String :=
  hexEncode ((sha256 (groupIdInput spec)).take 16)

/-! ## Accepted declarations -/

def lanesFromSpec : List Lane :=
  spec.lanes.map fun lane =>
    ⟨lane.laneId, (LaneKind.ofCode? lane.kind).getD .unspecified, lane.trainerSlots,
      lane.generatorSlots⟩

def layoutFor : Except CollectiveBackendError LaneLayout :=
  (LaneLayout.new (lanesFromSpec spec) spec.expectedTrainerSlots spec.expectedGeneratorSlots).mapError
    fun error => .invalidArgument error.message

/-- The declaration passes `validate_spec` and `LaneLayout::new`. -/
def Accepted : Prop :=
  validateSpec (some spec) = .ok spec ∧ (layoutFor spec).isOk = true

def CollectiveGroupSpec.slots : List String :=
  spec.expectedTrainerSlots ++ spec.expectedGeneratorSlots

def LaneSpec.slots (lane : LaneSpec) : List String := lane.trainerSlots ++ lane.generatorSlots

/-- The two declarations name the same membership, in whatever order. -/
structure SameMembership (a b : CollectiveGroupSpec) : Prop where
  modelName : a.modelName = b.modelName
  trainers : ∀ s, s ∈ a.expectedTrainerSlots ↔ s ∈ b.expectedTrainerSlots
  generators : ∀ s, s ∈ a.expectedGeneratorSlots ↔ s ∈ b.expectedGeneratorSlots
  lanes : ∀ lane, lane ∈ a.lanes ↔ lane ∈ b.lanes

/-- The same lanes, up to which of a lane's slots are trainers. -/
def SameRanks (a b : CollectiveGroupSpec) : Prop :=
  ∀ i k slots, (∃ lane ∈ a.lanes, lane.laneId = i ∧ lane.kind = k ∧ lane.slots = slots) ↔
    ∃ lane ∈ b.lanes, lane.laneId = i ∧ lane.kind = k ∧ lane.slots = slots

/-- The slot id of `n` bytes `0x01`. -/
def soh (n : ℕ) : String := String.ofList (List.replicate n '\x01')

/-- `b` declares the membership of `a`, except that the slot `soh (n + 1)` is a trainer in `b` and a
    generator in `a`; every trainer of `a` is a run of fewer than `n` bytes `0x01`, and `soh n` is
    the shortest such run among the generators. -/
structure RoleShift (n : ℕ) (a b : CollectiveGroupSpec) : Prop where
  modelName : a.modelName = b.modelName
  lanes : SameRanks a b
  trainers : ∀ s, s ∈ b.expectedTrainerSlots ↔ s ∈ a.expectedTrainerSlots ∨ s = soh (n + 1)
  generators : ∀ s, s ∈ a.expectedGeneratorSlots ↔ s ∈ b.expectedGeneratorSlots ∨ s = soh (n + 1)
  shorter : ∀ s ∈ a.expectedTrainerSlots, ∃ j < n, s = soh j
  least : soh n ∈ b.expectedGeneratorSlots ∧ ∀ j < n, soh j ∉ b.expectedGeneratorSlots

theorem slotsInput_eq (slots : List String) : slotsInput slots = body 0 (slots.map bytes) := by
  simp [slotsInput, body, List.flatMap_map]

theorem leBytes_inj {x y : UInt32} (h : leBytes x = leBytes y) : x = y := by
  simp only [leBytes, List.cons.injEq, and_true] at h
  obtain ⟨h₀, h₁, h₂, h₃⟩ := h
  have e₀ := congrArg UInt8.toNat h₀
  have e₁ := congrArg UInt8.toNat h₁
  have e₂ := congrArg UInt8.toNat h₂
  have e₃ := congrArg UInt8.toNat h₃
  simp only [UInt32.toNat_toUInt8, UInt32.toNat_shiftRight, Nat.shiftRight_eq_div_pow,
    UInt32.reduceToNat, Nat.reduceMod, Nat.reducePow] at e₀ e₁ e₂ e₃
  have hx := x.toNat_lt
  have hy := y.toNat_lt
  refine UInt32.toNat_inj.1 ?_
  omega

end ModelExpress.Collective
