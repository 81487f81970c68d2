/-
  ModelExpress collective refit — request validation (`refit_collective/service.rs`).

  Strings are compared by their UTF-8 bytes, as Rust orders `String`.
-/
import Mathlib.Data.List.Sort
import Mathlib.Data.List.Lex
import ModelExpress.Collective.Lanes

namespace ModelExpress.Collective

open Checks List

/-! ## Strings as bytes -/

def bytes (s : String) : List UInt8 := s.toUTF8.data.toList

def byteLe (a b : String) : Prop := (bytes a).map UInt8.toNat ≤ (bytes b).map UInt8.toNat

instance : DecidableRel byteLe := fun a b =>
  inferInstanceAs (Decidable ((bytes a).map UInt8.toNat ≤ (bytes b).map UInt8.toNat))

def sortSlots (slots : List String) : List String := slots.insertionSort byteLe

def isWhitespace (c : Char) : Bool :=
  (0x9 ≤ c.toNat && c.toNat ≤ 0xD) || c.toNat == 0x20 || c.toNat == 0x85 || c.toNat == 0xA0 ||
  c.toNat == 0x1680 || (0x2000 ≤ c.toNat && c.toNat ≤ 0x200A) || c.toNat == 0x2028 ||
  c.toNat == 0x2029 || c.toNat == 0x202F || c.toNat == 0x205F || c.toNat == 0x3000

def isBlank (value : String) : Bool := value.toList.all isWhitespace

/-! ## Field checks -/

def required (value field : String) : Except Status Unit :=
  ensure (¬ isBlank value) (.invalidArgument s!"{field} is required")

def slotDelimiters : List Char := ['\x00', '\n', '\r', '|', ',']

def debugChar (c : Char) : String :=
  if c = '\x00' then "'\\0'" else if c = '\n' then "'\\n'" else if c = '\r' then "'\\r'"
  else "'" ++ c.toString ++ "'"

/-- `delimiter_free`: the first delimiter of the list that occurs is named. -/
def delimiterFree (value field : String) (delimiters : List Char) : Except Status Unit :=
  forM delimiters fun delimiter => ensure (delimiter ∉ value.toList)
    (.invalidArgument s!"{field} must not contain the reserved delimiter {debugChar delimiter}")

/-- `has_duplicates`: sort, then compare neighbours. -/
def hasDuplicates (slots : List String) : Bool :=
  let sorted := sortSlots slots
  (sorted.zip sorted.tail).any fun pair => pair.1 = pair.2

def validateSlots (field : String) (slots : List String) : Except Status Unit :=
  forM slots fun slot => do
    required slot field
    delimiterFree slot field slotDelimiters

def validateSpec (spec : Option CollectiveGroupSpec) : Except Status CollectiveGroupSpec :=
  match spec with
  | none => .error (.invalidArgument "spec is required")
  | some spec => do
    required spec.modelName "spec.model_name"
    delimiterFree spec.modelName "spec.model_name" ['\x00']
    ensure (spec.expectedTrainerSlots ≠ [])
      (.invalidArgument "spec.expected_trainer_slots must not be empty")
    ensure (spec.expectedGeneratorSlots ≠ [])
      (.invalidArgument "spec.expected_generator_slots must not be empty")
    ensure (spec.lanes ≠ []) (.invalidArgument "spec.lanes must declare at least one lane")
    ensure (¬ hasDuplicates spec.expectedTrainerSlots)
      (.invalidArgument "spec.expected_trainer_slots must not contain duplicates")
    ensure (¬ hasDuplicates spec.expectedGeneratorSlots)
      (.invalidArgument "spec.expected_generator_slots must not contain duplicates")
    validateSlots "spec.expected_trainer_slots" spec.expectedTrainerSlots
    validateSlots "spec.expected_generator_slots" spec.expectedGeneratorSlots
    ensure (∀ slot ∈ spec.expectedTrainerSlots, slot ∉ spec.expectedGeneratorSlots)
      (.invalidArgument "trainer and generator slot namespaces must not overlap")
    .ok spec

/-- The checks `join_collective_group` makes on an advertised plan source. -/
def validatePlanSource (request : JoinCollectiveGroupRequest) (role : CollectiveRole)
    (source : PlanSource) : Except Status Unit := do
  required source.workerId "plan_source.worker_id"
  required source.endpoint "plan_source.endpoint"
  required source.digest "plan_source.digest"
  ensure (source.digest = request.planDigest)
    (.invalidArgument "plan_source.digest must match plan_digest")
  ensure (source.workerId = request.workerId)
    (.invalidArgument "plan_source.worker_id must match worker_id")
  ensure (role = .trainer ∧ request.indexInRole = 0)
    (.invalidArgument "only trainer index_in_role 0 may advertise plan_source")

def validateJoin (request : JoinCollectiveGroupRequest) :
    Except Status (CollectiveGroupSpec × CollectiveRole) := do
  let spec ← validateSpec request.spec
  required request.slotId "slot_id"
  required request.workerId "worker_id"
  required request.planDigest "plan_digest"
  delimiterFree request.slotId "slot_id" slotDelimiters
  delimiterFree request.workerId "worker_id" ['\x00', '|']
  let role := CollectiveRole.ofCode request.role
  ensure (role ≠ .unspecified) (.invalidArgument "role must be specified")
  forM request.planSource.toList (validatePlanSource request role)
  .ok (spec, role)

def ncclUniqueIdBytes : ℕ := 128

def validatePublish (request : PublishGroupBootstrapRequest) : Except Status Unit := do
  required request.groupId "group_id"
  required request.workerId "worker_id"
  ensure (request.epoch ≠ 0) (.invalidArgument "epoch must be the group's current epoch")
  ensure (request.ncclUniqueId.length = ncclUniqueIdBytes)
    (.invalidArgument (s!"nccl_unique_id must be {ncclUniqueIdBytes} bytes, got " ++
      toString request.ncclUniqueId.length))

def validateCreate (request : CreateCollectiveTransferRequest) :
    Except Status CollectiveGroupSpec := do
  let spec ← validateSpec request.spec
  required request.versionId "version_id"
  required request.idempotencyKey "idempotency_key"
  ensure (request.expectedEpoch ≠ 0) (.invalidArgument
    "expected_epoch is required: name the READY group epoch to transfer at")
  .ok spec

def validateReport (request : ReportCollectiveTransferRequest) : Except Status Unit := do
  required request.operationId "operation_id"
  required request.groupId "group_id"
  required request.workerId "worker_id"
  ensure (request.epoch ≠ 0)
    (.invalidArgument "epoch must be the epoch the operation was admitted against")
  ensure (request.succeeded ∨ ¬ isBlank request.message)
    (.invalidArgument "message is required for a failed report")

def maxMessageSize : ℕ := 100 * 1024 * 1024

/-- The declaration fits the message it was decoded from. -/
def withinMessage (spec : CollectiveGroupSpec) : Prop :=
  spec.expectedTrainerSlots.length + spec.expectedGeneratorSlots.length ≤ maxMessageSize

/-! ## Bytes of checked strings -/

theorem bytes_eq (s : String) : bytes s = s.toList.flatMap String.utf8EncodeChar := by
  rw [bytes, String.toUTF8_eq_toByteArray, ← String.utf8Encode_toList, utf8Encode,
    data_toByteArray]

variable {a b s slot : String} {slots : List String}

theorem bytes_inj (h : bytes a = bytes b) : a = b :=
  String.toByteArray_inj.1 (ByteArray.ext (Array.toList_inj.1 h))

theorem zero_notMem_utf8EncodeChar {c : Char} (h : c ≠ '\x00') : (0 : UInt8) ∉ String.utf8EncodeChar c := by
  have h0 : c.val.toNat ≠ 0 := fun h' => h (Char.ext (UInt32.toNat_inj.1 h'))
  have hne : ∀ n, 0 < n → n < 256 → (0 : UInt8) ≠ UInt8.ofNat n := fun n h₁ h₂ he => by
    have := congrArg UInt8.toNat he
    rw [UInt8.toNat_ofNat', Nat.mod_eq_of_lt h₂] at this
    exact absurd this (by simp; omega)
  unfold String.utf8EncodeChar
  simp only
  split_ifs <;> simp only [mem_cons, not_mem_nil, or_false, not_or]
  · exact hne _ (by omega) (by omega)
  · exact ⟨hne _ (by omega) (by omega), hne _ (by omega) (by omega)⟩
  · exact ⟨hne _ (by omega) (by omega), hne _ (by omega) (by omega), hne _ (by omega) (by omega)⟩
  · exact ⟨hne _ (by omega) (by omega), hne _ (by omega) (by omega), hne _ (by omega) (by omega),
      hne _ (by omega) (by omega)⟩

theorem zero_notMem_bytes (h : '\x00' ∉ s.toList) : (0 : UInt8) ∉ bytes s := by
  rw [bytes_eq, mem_flatMap]
  rintro ⟨c, hc, h0⟩
  exact zero_notMem_utf8EncodeChar (fun he => h (he ▸ hc)) h0

theorem bytes_ne_nil (h : ¬ isBlank s) : bytes s ≠ [] := by
  intro h'
  have : s = "" := bytes_inj (b := "") h'
  subst this
  exact h rfl

instance : Std.Total byteLe := ⟨fun _ _ => le_total _ _⟩

instance : IsTrans String byteLe := ⟨fun _ _ _ h₁ h₂ => le_trans h₁ h₂⟩

theorem byteLe_antisymm (h₁ : byteLe a b) (h₂ : byteLe b a) : a = b :=
  bytes_inj (map_injective_iff.2 (fun _ _ => UInt8.toNat_inj.1) (le_antisymm h₁ h₂))

theorem sortSlots_perm (slots : List String) : (sortSlots slots).Perm slots :=
  perm_insertionSort _ _

theorem sortSlots_sorted (slots : List String) : (sortSlots slots).Pairwise byteLe :=
  pairwise_insertionSort _ _

theorem nodup_of_neighbours : ∀ {l : List String}, l.Pairwise byteLe →
    (l.zip l.tail).any (fun pair => pair.1 = pair.2) = false → l.Nodup
  | [], _, _ => nodup_nil
  | [a], _, _ => nodup_singleton a
  | a :: b :: l, hs, h => by
    simp only [tail_cons, zip_cons_cons, any_cons, Bool.or_eq_false_iff,
      decide_eq_false_iff_not] at h
    obtain ⟨ha, hs⟩ := pairwise_cons.1 hs
    refine nodup_cons.2 ⟨fun hm => ?_, nodup_of_neighbours hs h.2⟩
    rcases mem_cons.1 hm with he | hm
    · exact h.1 he
    · exact h.1 (byteLe_antisymm (ha b (mem_cons_self ..)) ((pairwise_cons.1 hs).1 a hm))

theorem nodup_of_not_hasDuplicates (h : ¬ hasDuplicates slots) : slots.Nodup :=
  (sortSlots_perm slots).nodup_iff.1
    (nodup_of_neighbours (sortSlots_sorted slots) (Bool.eq_false_iff.2 h))

/-! ## What a checked declaration satisfies -/

/-- A name the stored encodings can carry: not blank, none of the delimiters in it. -/
structure SlotOk (slot : String) : Prop where
  nonblank : ¬ isBlank slot
  free : ∀ c ∈ slotDelimiters, c ∉ slot.toList

structure SpecOk (spec : CollectiveGroupSpec) : Prop where
  model_nonblank : ¬ isBlank spec.modelName
  model_free : '\x00' ∉ spec.modelName.toList
  trainers_ne : spec.expectedTrainerSlots ≠ []
  generators_ne : spec.expectedGeneratorSlots ≠ []
  trainers_nodup : spec.expectedTrainerSlots.Nodup
  generators_nodup : spec.expectedGeneratorSlots.Nodup
  slot : ∀ s ∈ spec.expectedTrainerSlots ++ spec.expectedGeneratorSlots, SlotOk s
  disjoint : ∀ s ∈ spec.expectedTrainerSlots, s ∉ spec.expectedGeneratorSlots

theorem validateSlots_ok {field : String} (h : validateSlots field slots = .ok ()) : ∀ s ∈ slots, SlotOk s := by
  simp only [validateSlots, forM_eq_ok, bind_eq_ok, required, delimiterFree, ensure_eq_ok] at h
  intro s hs
  obtain ⟨-, h₁, h₂⟩ := h s hs
  exact ⟨h₁, h₂⟩

theorem validateSpec_ok {spec : Option CollectiveGroupSpec} {s : CollectiveGroupSpec}
    (h : validateSpec spec = .ok s) : spec = some s ∧ SpecOk s := by
  cases spec with
  | none => cases h
  | some s' =>
    simp only [validateSpec, bind_eq_ok, required, delimiterFree, ensure_eq_ok, forM_eq_ok,
      mem_singleton, forall_eq] at h
    obtain ⟨-, hm, -, hf, -, hte, -, hge, -, -, -, ht, -, hg, ⟨⟩, hst, ⟨⟩, hsg, -, hd, h⟩ := h
    cases h
    refine ⟨rfl, hm, hf, hte, hge, nodup_of_not_hasDuplicates ht, nodup_of_not_hasDuplicates hg, ?_, hd⟩
    intro s hs
    rcases mem_append.1 hs with hs | hs
    · exact validateSlots_ok hst s hs
    · exact validateSlots_ok hsg s hs

theorem SpecOk.slots_nodup {spec : CollectiveGroupSpec} (h : SpecOk spec) :
    (spec.expectedTrainerSlots ++ spec.expectedGeneratorSlots).Nodup :=
  nodup_append.2 ⟨h.trainers_nodup, h.generators_nodup,
    fun s hs _ ht he => h.disjoint s hs (he ▸ ht)⟩

theorem SlotOk.bytes_ne (h : SlotOk slot) : bytes slot ≠ [] :=
  bytes_ne_nil h.nonblank

theorem SlotOk.zero_notMem (h : SlotOk slot) : (0 : UInt8) ∉ bytes slot :=
  zero_notMem_bytes (h.free _ (by decide))

end ModelExpress.Collective
