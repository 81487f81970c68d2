/-
  ModelExpress collective refit — the ranks of a lane.
-/
import ModelExpress.Collective.Invariant
import ModelExpress.Collective.View

namespace ModelExpress.Collective

open Checks Text Framing List LaneLayout

def Lane.place (slotId : String) (lane : Lane) : Option Assignment :=
  if slotId ∈ lane.slotsInRankOrder then
    some ⟨lane.laneId, lane.kind, saturateU32 (lane.slotsInRankOrder.idxOf slotId), lane.worldSize⟩
  else none

variable {seen slots : List String} {slotId s : String} {bySlot bySlot' : SlotIndex} {layout : LaneLayout} {rank : ℕ}

section
variable {lane : Lane} {lanes : List Lane} {trainers generators : List String} {slotId : String}

theorem placeSlots_lookup (h : placeSlots lane rank seen bySlot slots = .ok bySlot') :
    (bySlot'.lookup slotId).getD [] = (bySlot.lookup slotId).getD [] ++ if slotId ∈ slots then
      [⟨lane.laneId, lane.kind, saturateU32 (rank + slots.idxOf slotId), lane.worldSize⟩] else [] := by
  induction slots generalizing rank seen bySlot with
  | nil =>
    simp only [placeSlots, Except.ok.injEq] at h
    simp [h]
  | cons first rest ih =>
    obtain ⟨hnodup, -⟩ := placeSlots_ok h
    simp only [placeSlots, bind_eq_ok, ensure_eq_ok] at h
    obtain ⟨-, -, h⟩ := h
    rw [ih h]
    by_cases hs : slotId = first
    · subst hs
      simp [(nodup_cons.1 hnodup).1]
    · rw [AList.lookup_insert_ne hs, idxOf_cons_ne _ (Ne.symm hs)]
      simp [hs, Nat.add_assoc, Nat.add_comm 1]

theorem placeLanes_lookup {seen : List UInt32} (h : placeLanes trainers generators seen bySlot lanes = .ok bySlot') :
    (bySlot'.lookup slotId).getD [] = (bySlot.lookup slotId).getD [] ++ lanes.filterMap (·.place slotId) := by
  induction lanes generalizing seen bySlot with
  | nil =>
    simp only [placeLanes, Except.ok.injEq] at h
    simp [h]
  | cons lane lanes ih =>
    simp only [placeLanes, bind_eq_ok] at h
    obtain ⟨-, -, -, -, -, -, -, -, -, -, _, hp, h⟩ := h
    rw [ih h, placeSlots_lookup hp, append_assoc, Nat.zero_add]
    by_cases hs : slotId ∈ lane.slotsInRankOrder <;> simp [Lane.place, hs]

theorem LaneLayout.new_assign (h : LaneLayout.new lanes trainers generators = .ok layout)
    (hs : slotId ∈ trainers ++ generators) : layout.assign slotId = .ok (lanes.filterMap (·.place slotId)) := by
  simp only [new, bind_eq_ok, ensure_eq_ok, forM_eq_ok] at h
  obtain ⟨-, -, -, -, -, -, -, -, bySlot, hp, -, hc, h⟩ := h
  cases h
  obtain ⟨_, ha⟩ := Option.isSome_iff_exists.1 (AList.lookup_isSome.2 (hc slotId hs))
  have hlookup : (bySlot.lookup slotId).getD [] = _ := placeLanes_lookup hp
  simp only [ha, Option.getD_some, AList.lookup_empty, Option.getD_none, nil_append] at hlookup
  simp only [assign, ha, hlookup]

end

/-! ## The client's mirror -/

def LaneKind.name : LaneKind → String
  | .reshard => "RESHARD"
  | .broadcast => "BROADCAST"
  | .unspecified => "UNSPECIFIED"

structure LaneMembership where
  laneId : ℕ
  kind : String
  rankInLane : ℕ
  worldSize : ℕ
  deriving DecidableEq

def Lane.membership (slotId : String) (lane : Lane) : Option LaneMembership :=
  if slotId ∈ lane.slotsInRankOrder then some ⟨lane.laneId.toNat, lane.kind.name,
    lane.slotsInRankOrder.idxOf slotId, lane.slotsInRankOrder.length⟩ else none

def walkLanes (slotId : String) : List UInt32 → List Lane → Except String (List LaneMembership)
  | _, [] => .ok []
  | seen, lane :: lanes => do
    ensure (lane.laneId ∉ seen) s!"lane_id {lane.laneId} is declared more than once"
    ensure (lane.kind ≠ .unspecified) s!"unsupported lane kind '{lane.kind.name}'"
    ensure lane.slotsInRankOrder.Nodup s!"lane {lane.laneId} declares a slot more than once"
    let memberships ← walkLanes slotId (lane.laneId :: seen) lanes
    .ok ((lane.membership slotId).toList ++ memberships)

def expectedAssignments (lanes : List Lane) (slotId : String) : Except String (List LaneMembership × Bool) := do
  ensure (lanes ≠ []) "at least one lane must be declared"
  let memberships ← walkLanes slotId [] lanes
  ensure (lanes.countP (·.kind = .broadcast) ≤ 1) "at most one broadcast lane may be declared"
  ensure (memberships ≠ []) s!"slot '{slotId}' is on none of the declared lanes"
  .ok (memberships, memberships.any (·.rankInLane = 0))

def Assignment.membership (a : Assignment) : LaneMembership :=
  ⟨a.laneId.toNat, a.kind.name, a.rankInLane.toNat, a.worldSize.toNat⟩

/-- A dict by lane id: a later membership replaces an earlier one. -/
def byLane (memberships : List LaneMembership) (laneId : ℕ) : Option LaneMembership :=
  memberships.reverse.find? (·.laneId = laneId)

def validateAssignments (response : Collective.Membership) (expected : List LaneMembership) (expectedLeader : Bool) :
    Except String (List LaneMembership) := do
  ensure (response.groupId ≠ "" ∧ 0 < response.epoch) "MX returned an invalid collective group identity or epoch"
  let actual := response.assignments.map Assignment.membership
  ensure ((actual.map (·.laneId)).Nodup ∧
      ∀ m ∈ actual ++ expected, byLane actual m.laneId = byLane expected m.laneId)
    "MX returned lane assignments that disagree with the client-side rank mirror"
  ensure (response.isBootstrapLeader = expectedLeader)
    "MX returned a bootstrap-leader flag that disagrees with the client-side rank mirror"
  .ok actual

/-! ## Ranks -/

def LaneLayout.Gives (layout : LaneLayout) (laneId : UInt32) (slotId : String) (a : Assignment) : Prop :=
  ∃ assignments, layout.assign slotId = .ok assignments ∧ a ∈ assignments ∧ a.laneId = laneId

structure LaneRanks (layout : LaneLayout) (expected : List String) (lane : Lane) : Prop where
  size : lane.worldSize.toNat = lane.slotsInRankOrder.length
  /-- The slots of the lane and the ranks below its world size are in bijection. -/
  bijective : ∃ rank : String → ℕ,
    Set.BijOn rank {s | s ∈ lane.slotsInRankOrder} (Set.Iio lane.worldSize.toNat) ∧
    (∀ s ∈ expected, ∀ a, layout.Gives lane.laneId s a ↔ s ∈ lane.slotsInRankOrder ∧
      a = ⟨lane.laneId, lane.kind, UInt32.ofNat (rank s), lane.worldSize⟩) ∧
    ∀ s ∈ lane.slotsInRankOrder, s ∈ lane.trainerSlots ↔ rank s < lane.trainerSlots.length
  leader : ∃ s ∈ lane.trainerSlots, ∃ a, layout.Gives lane.laneId s a ∧ a.rankInLane = 0

section
variable {lane : Lane} {lanes : List Lane} {trainers generators : List String} {layout : LaneLayout}

theorem saturateU32_eq {n : ℕ} (h : n < 2 ^ 32) : saturateU32 n = UInt32.ofNat n := if_pos h

theorem LaneRanks.of_new (h : LaneLayout.new lanes trainers generators = .ok layout) (hm : lane ∈ lanes)
    (hsize : lane.slotsInRankOrder.length < 2 ^ 32) : LaneRanks layout (trainers ++ generators) lane := by
  obtain ⟨hok, -⟩ := new_ok h
  have hlane := hok.lane lane hm
  have hworld : lane.worldSize.toNat = lane.slotsInRankOrder.length := by
    rw [Lane.worldSize, saturateU32_toNat (by simpa [Lane.slotsInRankOrder] using hsize), Lane.slotsInRankOrder,
      length_append]
  have hgives : ∀ s ∈ trainers ++ generators, ∀ a, layout.Gives lane.laneId s a ↔ s ∈ lane.slotsInRankOrder ∧
      a = ⟨lane.laneId, lane.kind, UInt32.ofNat (lane.slotsInRankOrder.idxOf s), lane.worldSize⟩ := by
    intro s hs a
    have hrank : s ∈ lane.slotsInRankOrder →
        saturateU32 (lane.slotsInRankOrder.idxOf s) = UInt32.ofNat (lane.slotsInRankOrder.idxOf s) := fun hmem =>
      saturateU32_eq ((idxOf_lt_length_of_mem hmem).trans hsize)
    simp only [LaneLayout.Gives, new_assign h hs, Except.ok.injEq, exists_eq_left', mem_filterMap]
    constructor
    · rintro ⟨⟨l, hl, hp⟩, hid⟩
      obtain ⟨hmem, rfl⟩ : s ∈ l.slotsInRankOrder ∧ _ = a := by simpa [Lane.place] using hp
      obtain rfl : l = lane := inj_on_of_nodup_map hok.ids_nodup hl hm hid
      exact ⟨hmem, by rw [hrank hmem]⟩
    · rintro ⟨hmem, rfl⟩
      exact ⟨⟨lane, hm, by rw [Lane.place, if_pos hmem, hrank hmem]⟩, rfl⟩
  refine ⟨hworld, ⟨lane.slotsInRankOrder.idxOf, ⟨fun s hs => ?_, fun s hs s' hs' he => ?_, fun k hk => ?_⟩, hgives,
    fun s hs => ?_⟩, ?_⟩
  · exact hworld ▸ idxOf_lt_length_of_mem hs
  · exact (idxOf_inj hs).1 he
  · have hk : k < lane.slotsInRankOrder.length := hworld ▸ hk
    exact ⟨lane.slotsInRankOrder[k], getElem_mem hk, hlane.nodup.idxOf_getElem k hk⟩
  · simp only [Lane.slotsInRankOrder, idxOf_append]
    split_ifs with ht
    · simpa [ht] using idxOf_lt_length_of_mem ht
    · simp [ht]
  · obtain ⟨s, rest, ht⟩ := exists_cons_of_ne_nil hlane.trainers_ne
    have hs : s ∈ lane.trainerSlots := by simp [ht]
    refine ⟨s, hs, _, (hgives s (mem_append_left _ (hlane.trainers_sub s hs)) _).2
      ⟨mem_append_left _ hs, rfl⟩, ?_⟩
    simp [Lane.slotsInRankOrder, ht]

/-! ## Agreement with the client -/

theorem walkLanes_eq {seen : List UInt32} (hnodup : (lanes.map (·.laneId)).Nodup)
    (hseen : ∀ lane ∈ lanes, lane.laneId ∉ seen) (hok : ∀ lane ∈ lanes, LaneOk trainers generators lane) :
    walkLanes slotId seen lanes = .ok (lanes.filterMap (·.membership slotId)) := by
  induction lanes generalizing seen with
  | nil => rfl
  | cons lane lanes ih =>
    obtain ⟨hnew, hnodup⟩ := nodup_cons.1 hnodup
    have hlane := hok lane mem_cons_self
    have hrest : ∀ l ∈ lanes, l.laneId ∉ lane.laneId :: seen := by
      intro l hl hmem
      obtain he | hmem := mem_cons.1 hmem
      · exact hnew (mem_map.2 ⟨l, hl, he⟩)
      · exact hseen l (mem_cons_of_mem _ hl) hmem
    simp only [walkLanes, bind_eq_ok, ensure_eq_ok]
    refine ⟨(), hseen lane mem_cons_self, (), hlane.kind, (), hlane.nodup, _,
      ih hnodup hrest fun l hl => hok l (mem_cons_of_mem _ hl), ?_⟩
    cases h : lane.membership slotId <;> simp [h]

theorem place_membership (slotId : String) (hsize : lane.slotsInRankOrder.length < 2 ^ 32) :
    (lane.place slotId).map Assignment.membership = lane.membership slotId := by
  unfold Lane.place Lane.membership
  split_ifs with hs
  · have hlength : lane.trainerSlots.length + lane.generatorSlots.length < 2 ^ 32 := by
      simpa [Lane.slotsInRankOrder] using hsize
    rw [Option.map_some, Assignment.membership, saturateU32_toNat ((idxOf_lt_length_of_mem hs).trans hsize),
      Lane.worldSize, saturateU32_toNat hlength, Lane.slotsInRankOrder, length_append]
  · rfl

theorem broadcast_le (h : LaneLayout.new lanes trainers generators = .ok layout) :
    lanes.countP (·.kind = .broadcast) ≤ 1 := by
  simp only [new, bind_eq_ok, ensure_eq_ok] at h
  obtain ⟨-, -, -, -, -, -, -, hb, -⟩ := h
  exact hb

/-- What the layout answers for the expected slots, and what the client expects. -/
structure RanksAgree (layout : LaneLayout) (lanes : List Lane) (expected : List String) : Prop where
  lane : ∀ lane ∈ lanes, LaneRanks layout expected lane
  placed : ∀ s ∈ expected, ∃ lane ∈ lanes, ∃ a, layout.Gives lane.laneId s a
  leader : ∀ s, layout.isBootstrapLeader s = true ↔ ∃ laneId a, layout.Gives laneId s a ∧ a.rankInLane = 0
  client : ∀ s ∈ expected, ∃ assignments, layout.assign s = .ok assignments ∧
    expectedAssignments lanes s = .ok (assignments.map Assignment.membership, layout.isBootstrapLeader s) ∧
    ∀ groupId epoch state, groupId ≠ "" → 0 < epoch →
      validateAssignments ⟨groupId, epoch, assignments, state, layout.isBootstrapLeader s⟩
        (assignments.map Assignment.membership) (layout.isBootstrapLeader s) =
          .ok (assignments.map Assignment.membership)

/-- **Ranks are positions, and both sides compute the same ones**, when the slots of a lane
    can be counted in 32 bits. -/
theorem ranks_agree (h : LaneLayout.new lanes trainers generators = .ok layout)
    (hsize : ∀ lane ∈ lanes, lane.slotsInRankOrder.length < 2 ^ 32) :
    RanksAgree layout lanes (trainers ++ generators) where
  lane lane hm := .of_new h hm (hsize lane hm)
  placed s hs := by
    obtain ⟨lane, hm, hmem⟩ := (new_ok h).1.covered s hs
    obtain ⟨-, ⟨rank, -, hgives, -⟩, -⟩ := LaneRanks.of_new h hm (hsize lane hm)
    exact ⟨lane, hm, _, (hgives s hs _).2 ⟨hmem, rfl⟩⟩
  leader s := by
    unfold isBootstrapLeader LaneLayout.Gives assign
    cases layout.bySlot.lookup s <;> simp
  client s hs := by
    obtain ⟨hok, -⟩ := new_ok h
    have hassign := new_assign h hs
    have hleader : layout.isBootstrapLeader s = (lanes.filterMap (·.place s)).any (·.rankInLane = 0) := by
      unfold assign at hassign
      unfold isBootstrapLeader
      cases hl : layout.bySlot.lookup s <;> simp_all
    have hmembers : (lanes.filterMap (·.place s)).map Assignment.membership = lanes.filterMap (·.membership s) := by
      rw [map_filterMap]
      exact filterMap_congr fun lane hm => place_membership s (hsize lane hm)
    have hplaced : lanes.filterMap (·.place s) ≠ [] := by
      obtain ⟨lane, hm, hmem⟩ := hok.covered s hs
      exact ne_nil_of_mem (mem_filterMap.2 ⟨lane, hm, if_pos hmem⟩)
    refine ⟨_, hassign, ?_, fun _ _ _ hid hepoch => ?_⟩
    · simp only [expectedAssignments, bind_eq_ok, ensure_eq_ok]
      refine ⟨(), hok.lanes_ne, _, walkLanes_eq hok.ids_nodup (by simp) hok.lane, (), broadcast_le h, (), ?_, ?_⟩
      · rw [← hmembers]
        simpa using hplaced
      · rw [← hmembers, hleader, any_map]
        refine congrArg Except.ok (Prod.ext rfl (any_congr rfl fun a => ?_))
        exact decide_eq_decide.2 (UInt32.toNat_inj (b := 0))
    · simp only [validateAssignments, bind_eq_ok, ensure_eq_ok]
      refine ⟨(), ⟨hid, hepoch⟩, (), ⟨?_, by simp⟩, (), trivial, trivial⟩
      rw [map_map, List.Nodup, pairwise_map, pairwise_filterMap]
      refine (pairwise_map.1 hok.ids_nodup).imp fun hne a ha a' ha' he => hne ?_
      obtain ⟨-, rfl⟩ : _ ∧ _ = a := by simpa [Lane.place] using ha
      obtain ⟨-, rfl⟩ : _ ∧ _ = a' := by simpa [Lane.place] using ha'
      exact UInt32.toNat_inj.1 he

theorem ranks_agree_pair : ∃ layout, LaneLayout.new (lanesFromSpec pairDeclared) ["t0", "t1"] ["g0"] = .ok layout ∧
    RanksAgree layout (lanesFromSpec pairDeclared) (["t0", "t1"] ++ ["g0"]) := by
  refine ⟨_, rfl, ranks_agree rfl ?_⟩
  decide

end

/-! ## A lane that cannot be counted -/

theorem neighbours_of_nodup : ∀ {l : List String}, l.Nodup →
    (l.zip l.tail).any (fun pair => pair.1 = pair.2) = false
  | [], _ => rfl
  | [_], _ => rfl
  | a :: b :: l, h => by
    obtain ⟨ha, h⟩ := nodup_cons.1 h
    have hne : a ≠ b := fun he => ha (he ▸ mem_cons_self)
    simpa [hne] using neighbours_of_nodup h

theorem not_hasDuplicates (h : slots.Nodup) : ¬ hasDuplicates slots := by
  simp [hasDuplicates, neighbours_of_nodup ((sortSlots_perm slots).nodup_iff.2 h)]

theorem placeSlots_total {lane : Lane} (h : slots.Nodup) (hseen : ∀ s ∈ slots, s ∉ seen) :
    ∃ bySlot', placeSlots lane rank seen bySlot slots = .ok bySlot' := by
  induction slots generalizing rank seen bySlot with
  | nil => exact ⟨bySlot, rfl⟩
  | cons first rest ih =>
    obtain ⟨hfirst, hrest⟩ := nodup_cons.1 h
    simp only [placeSlots, bind_eq_ok, ensure_eq_ok]
    obtain ⟨bySlot', hp⟩ := ih hrest (fun s hs hmem => by
      obtain rfl | hmem := mem_cons.1 hmem
      · exact hfirst hs
      · exact hseen s (mem_cons_of_mem _ hs) hmem)
    exact ⟨bySlot', (), hseen first mem_cons_self, hp⟩

def manySlots (n : ℕ) : List String := (List.range n).map fun i => soh (i + 1)

def wideSpec (n : ℕ) : CollectiveGroupSpec where
  modelName := "m"
  expectedTrainerSlots := ["t"]
  expectedGeneratorSlots := manySlots n
  lanes := [⟨0, 1, ["t"], manySlots n⟩]

section
variable {n : ℕ}

theorem toList_of_mem_manySlots (h : s ∈ manySlots n) : ∃ i, s.toList = List.replicate (i + 1) '\x01' := by
  obtain ⟨i, -, rfl⟩ := mem_map.1 h
  exact ⟨i, String.toList_ofList⟩

theorem slotOk_manySlots (h : s ∈ manySlots n) : SlotOk s ∧ s ≠ "t" := by
  obtain ⟨i, hi⟩ := toList_of_mem_manySlots h
  refine ⟨⟨?_, fun c hc hmem => ?_⟩, ?_⟩
  · simp [isBlank, hi, replicate_succ, isWhitespace]
  · rw [hi] at hmem
    rw [eq_of_mem_replicate hmem] at hc
    exact absurd hc (by decide)
  · rintro rfl
    have hc := congrArg (head? ·) hi
    simp [replicate_succ] at hc

theorem nodup_manySlots (n : ℕ) : (manySlots n).Nodup := by
  refine nodup_range.map fun i j h => ?_
  simpa [soh] using congrArg (·.toList.length) h

theorem wideSpec_valid (hn : n ≠ 0) : validateSpec (some (wideSpec n)) = .ok (wideSpec n) := by
  have hslots : manySlots n ≠ [] := by simpa [manySlots] using hn
  have hmodel : ¬ isBlank (wideSpec n).modelName ∧ '\x00' ∉ (wideSpec n).modelName.toList := by
    simp [wideSpec, isBlank, isWhitespace]
  simp only [validateSpec, validateSlots, required, delimiterFree, bind_eq_ok, ensure_eq_ok, forM_eq_ok]
  refine ⟨(), hmodel.1, (), by simpa using hmodel.2, (), cons_ne_nil _ _, (), hslots, (), cons_ne_nil _ _, (),
    not_hasDuplicates (nodup_singleton _), (), not_hasDuplicates (nodup_manySlots n), (),
    fun s hs => ⟨(), ?_, ?_⟩, (), fun s hs => ⟨(), ?_, ?_⟩, (), ?_, trivial⟩
  · rw [mem_singleton.1 hs]
    simp [isBlank, isWhitespace]
  · rw [mem_singleton.1 hs]
    simp [slotDelimiters]
  · exact (slotOk_manySlots hs).1.nonblank
  · exact (slotOk_manySlots hs).1.free
  · intro s hs hmem
    exact (slotOk_manySlots hmem).2 (mem_singleton.1 hs)

theorem wideSpec_layout (hn : n ≠ 0) : ∃ layout, LaneLayout.new (lanesFromSpec (wideSpec n)) ["t"] (manySlots n) =
    .ok layout := by
  have hslots : manySlots n ≠ [] := by simpa [manySlots] using hn
  have hnodup : ("t" :: manySlots n).Nodup :=
    nodup_cons.2 ⟨fun hmem => (slotOk_manySlots hmem).2 rfl, nodup_manySlots n⟩
  obtain ⟨bySlot, hp⟩ : ∃ bySlot, placeSlots ⟨0, .reshard, ["t"], manySlots n⟩ 0 [] ∅ ("t" :: manySlots n) =
    .ok bySlot := placeSlots_total hnodup (by simp)
  have hindex := (placeSlots_ok hp).2.2
  simp only [new, lanesFromSpec, wideSpec, map_cons, map_nil, placeLanes, checkKnown, bind_eq_ok,
    ensure_eq_ok, forM_eq_ok]
  refine ⟨_, (), by decide, (), hslots, (), cons_ne_nil _ _, (), countP_le_length, bySlot, ⟨(), by simp, (), by decide, (),
    cons_ne_nil _ _, (), fun s hs => hs, (), fun s hs => hs, bySlot, hp, rfl⟩, (), fun s hs => ?_, rfl⟩
  exact (hindex s).2 (.inl hs)

/-- A declaration that passes every check, with more slots than its lane can count. -/
theorem wide_lane_miscounted : ∃ spec layout, validateSpec (some spec) = .ok spec ∧
    LaneLayout.new (lanesFromSpec spec) spec.expectedTrainerSlots spec.expectedGeneratorSlots = .ok layout ∧
    ¬ RanksAgree layout (lanesFromSpec spec) spec.slots := by
  obtain ⟨n, hn⟩ : ∃ n, 2 ^ 32 ≤ n := ⟨_, le_refl _⟩
  have hpos : n ≠ 0 := by omega
  obtain ⟨layout, hl⟩ := wideSpec_layout hpos
  refine ⟨wideSpec n, layout, wideSpec_valid hpos, hl, fun h => ?_⟩
  have hsize := (h.lane ⟨0, .reshard, ["t"], manySlots n⟩ mem_cons_self).size
  have hlt := (Lane.worldSize ⟨0, .reshard, ["t"], manySlots n⟩).toNat_lt
  rw [hsize] at hlt
  simp [Lane.slotsInRankOrder, manySlots] at hlt
  omega

end

/-! ## The stored layout -/

section
variable {a b : CollectiveGroupSpec}

def placeFace (slotId : String) (f : UInt32 × Int32 × List String) : Option Assignment :=
  if slotId ∈ f.2.2 then some ⟨f.1, (LaneKind.ofCode? f.2.1).getD .unspecified, saturateU32 (f.2.2.idxOf slotId),
    saturateU32 f.2.2.length⟩ else none

theorem faces_perm (ha : DeclOk a) (hb : DeclOk b) (h : groupIdInput a = groupIdInput b) :
    (a.lanes.map LaneSpec.face).Perm (b.lanes.map LaneSpec.face) := by
  rw [groupIdInput_eq_wire, groupIdInput_eq_wire] at h
  obtain ⟨-, hrest⟩ := split_first (zero_notMem_bytes ha.model_free) (zero_notMem_bytes hb.model_free) h
  obtain ⟨hlanes, -⟩ := ha.groupWire.readings hb.groupWire hrest
  rw [wireLanes_eq_map, wireLanes_eq_map] at hlanes
  have hfaces := map_injective_iff.2 (fun _ _ => faceWire_inj) hlanes
  have hsorted : ∀ lanes : List LaneSpec, (sortLanes lanes).Perm lanes := perm_insertionSort _
  exact (((hsorted a.lanes).map _).symm.trans (.of_eq hfaces)).trans ((hsorted b.lanes).map _)

theorem mem_slots_iff (h : DeclOk a) : s ∈ a.slots ↔ ∃ f ∈ a.lanes.map LaneSpec.face, s ∈ f.2.2 := by
  simp only [mem_map, exists_exists_and_eq_and]
  exact ⟨h.covered s, fun ⟨lane, hm, hs⟩ => h.slots_sub hm s hs⟩

theorem layoutFor_assign (h : layoutFor a = .ok layout) (hs : s ∈ a.slots) :
    layout.assign s = .ok ((a.lanes.map LaneSpec.face).filterMap (placeFace s)) := by
  rw [new_assign (mapError_eq_ok.1 h) hs, lanesFromSpec, filterMap_map, filterMap_map]
  refine congrArg _ (filterMap_congr fun lane _ => ?_)
  simp [Lane.place, placeFace, LaneSpec.face, LaneSpec.slots, Lane.slotsInRankOrder, Lane.worldSize]

/-- **The stored texts give every slot the assignments that each joiner computes from its own
    declaration**, in whatever order it declares its lanes. -/
theorem stored_layout_agrees (sha256 : List UInt8 → List UInt8) {layout : LaneLayout} (role : CollectiveRole)
    (request : JoinCollectiveGroupRequest) (ha : Accepted a) (hl : layoutFor a = .ok layout) :
    ∃ stored, storedLayout (createdRoot (joinArgs sha256 a layout role request)) = .ok stored ∧
      ∀ b layout', Accepted b → layoutFor b = .ok layout' → groupIdFor sha256 a = groupIdFor sha256 b →
        (groupIdFor sha256 a = groupIdFor sha256 b → groupIdInput a = groupIdInput b) → ∀ s ∈ a.slots,
          ∃ assignments assignments', stored.assign s = .ok assignments ∧ layout'.assign s = .ok assignments' ∧
            assignments.Perm assignments' := by
  have hok := ha.ok
  have hnew : new (lanesFromSpec a) a.expectedTrainerSlots a.expectedGeneratorSlots = .ok layout :=
    mapError_eq_ok.1 hl
  refine ⟨layout, ?_, fun b _ hb hl' hid hfree s hs => ?_⟩
  · have ht : splitSlots (join '\n' a.expectedTrainerSlots) = a.expectedTrainerSlots :=
      splitSlots_join fun s hs => hok.slot s (mem_append_left _ hs)
    have hg : splitSlots (join '\n' a.expectedGeneratorSlots) = a.expectedGeneratorSlots :=
      splitSlots_join fun s hs => hok.slot s (mem_append_right _ hs)
    have hlanes : decodeLanes (encodeLanes layout.lanes) = .ok (lanesFromSpec a) := by
      rw [(new_ok hnew).2.1, decodeLanes_encodeLanes (slotsInRankOrder_ok hok)]
    simp only [storedLayout, createdRoot, joinArgs, hlanes, ht, hg, bind, Except.bind, hnew]
    rfl
  · have hfaces := faces_perm hok hb.ok (hfree hid)
    have hs' : s ∈ b.slots := by
      rw [mem_slots_iff hb.ok]
      obtain ⟨f, hf, hs⟩ := (mem_slots_iff hok).1 hs
      exact ⟨f, hfaces.mem_iff.1 hf, hs⟩
    exact ⟨_, _, layoutFor_assign hl hs, layoutFor_assign hl' hs', hfaces.filterMap _⟩

theorem stored_layout_agrees_reordered : ∃ (stored layout' : LaneLayout) (assignments assignments' : List Assignment),
    layoutFor pairReordered = .ok layout' ∧ stored.assign "t1" = .ok assignments ∧
      layout'.assign "t1" = .ok assignments' ∧ assignments.Perm assignments' := by
  obtain ⟨layout, hl⟩ : ∃ layout, layoutFor pairDeclared = .ok layout := ⟨_, rfl⟩
  obtain ⟨layout', hl'⟩ : ∃ layout', layoutFor pairReordered = .ok layout' := ⟨_, rfl⟩
  obtain ⟨stored, -, h⟩ := stored_layout_agrees id .trainer ⟨some pairDeclared, "t0", "w", 1, 0, "d", none⟩
    ⟨by decide, by decide⟩ hl
  obtain ⟨assignments, assignments', h⟩ := h pairReordered layout' ⟨by decide, by decide⟩ hl' (by decide)
    (fun _ => by decide) "t1" (by decide)
  exact ⟨stored, layout', assignments, assignments', hl', h⟩

end

end ModelExpress.Collective
