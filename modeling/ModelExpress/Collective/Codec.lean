/-
  ModelExpress collective refit — the texts kept in the group hashes.
-/
import ModelExpress.Lib.Text
import ModelExpress.Collective.Identity

namespace ModelExpress.Collective

open Text Checks List

/-! ## Declared lanes -/

def splitCsv (text : String) : List String := if text = "" then [] else split ',' text

def splitSlots (text : String) : List String := if text = "" then [] else split '\n' text

def encodeLane (lane : Lane) : String :=
  join '|' [decimal lane.laneId.toNat, toString lane.kind.code.toInt, join ',' lane.trainerSlots,
    join ',' lane.generatorSlots]

def encodeLanes (lanes : List Lane) : String := join '\n' (lanes.map encodeLane)

def parseI32 (text : String) : Except String Int32 :=
  match text.toList with
  | '-' :: cs =>
    if cs = [] then .error "invalid digit found in string"
    else match parseDigits (2 ^ 31 + 1) 0 cs with
      | .ok n => .ok (Int32.ofInt (-n))
      | .error e =>
        .error (if e = "invalid digit found in string" then e
          else "number too small to fit in target type")
  | _ => (parseUnsigned (2 ^ 31) text).map fun n => Int32.ofInt n

def decodeLane (line : String) : Except CollectiveBackendError Lane := do
  let parts := split '|' line
  let laneId ← (parseUnsigned (2 ^ 32) (parts.getD 0 "")).mapError
    fun error => .internal s!"invalid stored lane_id: {error}"
  let kindCode ← (parseI32 (parts.getD 1 "")).mapError
    fun error => .internal s!"invalid stored lane kind: {error}"
  let kind ← match LaneKind.ofCode? kindCode with
    | some kind => .ok kind
    | none => .error (.internal s!"unknown stored lane kind {kindCode}")
  let trainerSlots := splitCsv (parts.getD 2 "")
  let generatorSlots := splitCsv (parts.getD 3 "")
  ensure (parts.length ≤ 4) (.internal "stored lane record has extra fields")
  .ok ⟨UInt32.ofNat laneId, kind, trainerSlots, generatorSlots⟩

def decodeLanes (text : String) : Except CollectiveBackendError (List Lane) :=
  if text = "" then .ok [] else (split '\n' text).mapM decodeLane

theorem SlotOk.notMem {slot : String} (h : SlotOk slot) {c : Char} (hc : c ∈ slotDelimiters) :
    c ∉ slot.toList := h.free c hc

theorem SlotOk.ne_empty {slot : String} (h : SlotOk slot) : slot ≠ "" := by
  rintro rfl
  exact h.nonblank rfl

variable {slots : List String} {lane : Lane}

theorem splitCsv_join (h : ∀ s ∈ slots, SlotOk s) : splitCsv (join ',' slots) = slots := by
  by_cases hne : slots = []
  · subst hne; rfl
  · rw [splitCsv, if_neg (join_ne_empty hne fun s hs => (h s hs).ne_empty),
      split_join hne fun s hs => (h s hs).notMem (by decide)]

theorem splitSlots_join (h : ∀ s ∈ slots, SlotOk s) : splitSlots (join '\n' slots) = slots := by
  by_cases hne : slots = []
  · subst hne; rfl
  · rw [splitSlots, if_neg (join_ne_empty hne fun s hs => (h s hs).ne_empty),
      split_join hne fun s hs => (h s hs).notMem (by decide)]

theorem parseI32_code (kind : LaneKind) : parseI32 (toString kind.code.toInt) = .ok kind.code := by
  cases kind <;> rfl

theorem ofCode?_code (kind : LaneKind) : LaneKind.ofCode? kind.code = some kind := by
  cases kind <;> rfl

theorem encodeLane_fields (h : ∀ s ∈ lane.slotsInRankOrder, SlotOk s) {d : Char} (hd : d = '|' ∨ d = '\n') :
    ∀ p ∈ [decimal lane.laneId.toNat, toString lane.kind.code.toInt, join ',' lane.trainerSlots,
      join ',' lane.generatorSlots], d ∉ p.toList := by
  have hslots : ∀ slots : List String, (∀ s ∈ slots, SlotOk s) → d ∉ (join ',' slots).toList := by
    intro _ hs
    rcases hd with rfl | rfl
    · exact notMem_join (by decide) fun s hm => (hs s hm).notMem (by decide)
    · exact notMem_join (by decide) fun s hm => (hs s hm).notMem (by decide)
  intro p hp
  simp only [mem_cons, not_mem_nil, or_false] at hp
  rcases hp with rfl | rfl | rfl | rfl
  · rcases hd with rfl | rfl
    · exact notMem_decimal (by decide)
    · exact notMem_decimal (by decide)
  · rcases hd with rfl | rfl
    · cases lane.kind <;> decide
    · cases lane.kind <;> decide
  · exact hslots _ fun s hs => h s (mem_append_left _ hs)
  · exact hslots _ fun s hs => h s (mem_append_right _ hs)

theorem decodeLane_encodeLane (h : ∀ s ∈ lane.slotsInRankOrder, SlotOk s) :
    decodeLane (encodeLane lane) = .ok lane := by
  have hsplit : split '|' (encodeLane lane) = [decimal lane.laneId.toNat,
      toString lane.kind.code.toInt, join ',' lane.trainerSlots, join ',' lane.generatorSlots] :=
    split_join (by simp) (encodeLane_fields h (Or.inl rfl))
  have ht := splitCsv_join fun s hs => h s (mem_append_left _ hs)
  have hg := splitCsv_join fun s hs => h s (mem_append_right _ hs)
  have hid := parseUnsigned_decimal lane.laneId.toNat_lt
  simp only [decodeLane, hsplit, getD_cons_zero, getD_cons_succ, ht, hg, hid, parseI32_code,
    ofCode?_code, Except.mapError, bind, Except.bind, ensure, length_cons, length_nil,
    UInt32.ofNat_toNat]
  rfl

theorem mapM_eq_ok {α β ε : Type} {f : α → Except ε β} {g : β → α} :
    ∀ {l : List β}, (∀ b ∈ l, f (g b) = .ok b) → (l.map g).mapM f = .ok l
  | [], _ => rfl
  | b :: l, h => by
    rw [map_cons, mapM_cons, h b (mem_cons_self ..),
      mapM_eq_ok fun b' hb' => h b' (mem_cons_of_mem _ hb')]
    rfl

theorem encodeLane_ne_empty (lane : Lane) : encodeLane lane ≠ "" := by
  intro h
  have hl := congrArg String.toList h
  simp [encodeLane, join, intercalate] at hl

theorem decodeLanes_encodeLanes {lanes : List Lane}
    (h : ∀ lane ∈ lanes, ∀ s ∈ lane.slotsInRankOrder, SlotOk s) :
    decodeLanes (encodeLanes lanes) = .ok lanes := by
  by_cases hne : lanes = []
  · subst hne; rfl
  · have hlines : lanes.map encodeLane ≠ [] := by simpa using hne
    have hempty : encodeLanes lanes ≠ "" := by
      refine join_ne_empty hlines fun p hp => ?_
      obtain ⟨lane, -, rfl⟩ := mem_map.1 hp
      exact encodeLane_ne_empty lane
    have hfree : ∀ p ∈ lanes.map encodeLane, '\n' ∉ p.toList := by
      intro p hp
      obtain ⟨lane, hm, rfl⟩ := mem_map.1 hp
      exact notMem_join (by decide) (encodeLane_fields (h lane hm) (Or.inr rfl))
    rw [decodeLanes, if_neg hempty, encodeLanes, split_join hlines hfree]
    exact mapM_eq_ok fun lane hm => decodeLane_encodeLane (h lane hm)

/-! ## Participants -/

def CollectiveRole.text : CollectiveRole → String
  | .trainer => "TRAINER"
  | .generator => "GENERATOR"
  | .unspecified => ""

structure Participant where
  workerId : String
  role : String
  index : String
  joinedEpoch : String
  deriving DecidableEq

def Participant.record (p : Participant) : String :=
  join '|' [p.workerId, p.role, p.index, p.joinedEpoch]

/-- `parse_participant`: exactly four fields. -/
def parseParticipant (record : String) : Option Participant :=
  match split '|' record with
  | [workerId, role, index, joinedEpoch] => some ⟨workerId, role, index, joinedEpoch⟩
  | _ => none

def admitted (workerId : String) (role : CollectiveRole) (index : UInt32) (epoch : ℕ) : Participant :=
  ⟨workerId, role.text, decimal index.toNat, decimal epoch⟩

theorem parseParticipant_admitted {workerId : String} (h : '|' ∉ workerId.toList)
    (role : CollectiveRole) (index : UInt32) (epoch : ℕ) :
    parseParticipant (admitted workerId role index epoch).record =
      some (admitted workerId role index epoch) := by
  rw [parseParticipant, Participant.record, split_join (by simp)]
  intro _ hf
  simp only [admitted, mem_cons, not_mem_nil, or_false] at hf
  rcases hf with rfl | rfl | rfl | rfl
  · exact h
  · cases role <;> decide
  · exact notMem_decimal (by decide)
  · exact notMem_decimal (by decide)

end ModelExpress.Collective
