/-
  ModelExpress collective refit — when two declarations write the same bytes.
-/
import ModelExpress.Collective.Wire

namespace ModelExpress.Collective

open Framing Checks List LaneSpec

/-! ## The wire parts of a declaration -/

def laneWire (lane : LaneSpec) : LaneWire :=
  (leBytes lane.laneId ++ leBytes lane.kind.toUInt32, lane.slots.map bytes)

variable (spec : CollectiveGroupSpec)

def wireLanes : List LaneWire := (sortLanes spec.lanes).map laneWire

def wireTrainers : List (List UInt8) :=
  (sortSlots spec.expectedTrainerSlots).map bytes

def wireGenerators : List (List UInt8) :=
  (sortSlots spec.expectedGeneratorSlots).map bytes

theorem groupIdInput_eq_wire : groupIdInput spec = bytes spec.modelName ++ 0 ::
      (wire (wireLanes spec) ++ 0 :: (body 0 (wireTrainers spec) ++ 1 :: body 0 (wireGenerators spec))) := by
  have hl : (sortLanes spec.lanes).flatMap laneInput = wire (wireLanes spec) := by
    rw [wire, wireLanes, flatMap_map]
    refine flatMap_congr fun lane _ => ?_
    simp [laneInput, laneWire, slotsInput_eq, slots]
  simp [groupIdInput, hl, slotsInput_eq, wireTrainers, wireGenerators]

variable {s : String} {slots : List String}

theorem mem_sortSlots : s ∈ sortSlots slots ↔ s ∈ slots :=
  (sortSlots_perm slots).mem_iff

variable {lane : LaneSpec} {spec : CollectiveGroupSpec} {f g : UInt32 × Int32 × List String} {w : List UInt8} {n : ℕ}

theorem mem_sortLanes {lanes : List LaneSpec} :
    lane ∈ sortLanes lanes ↔ lane ∈ lanes :=
  (perm_insertionSort _ lanes).mem_iff

theorem sortSlots_wordLt (h : slots.Nodup) : ((sortSlots slots).map bytes).Pairwise wordLt := by
  have hn : (sortSlots slots).Nodup := (sortSlots_perm slots).nodup_iff.2 h
  refine pairwise_map.2 (((sortSlots_sorted slots).and hn).imp ?_)
  rintro a b ⟨hle, hne⟩
  exact lt_of_le_of_ne hle fun he => hne (byteLe_antisymm hle (le_of_eq he.symm))

theorem mem_map_bytes {l : List String} : bytes s ∈ l.map bytes ↔ s ∈ l := by
  rw [mem_map]
  exact ⟨fun ⟨t, ht, he⟩ => bytes_inj he ▸ ht, fun h => ⟨s, h, rfl⟩⟩

/-! ## Accepted declarations -/

/-- What an accepted declaration satisfies, in its own terms. -/
structure DeclOk (spec : CollectiveGroupSpec) : Prop extends SpecOk spec where
  ids_nodup : (spec.lanes.map (·.laneId)).Nodup
  kind : ∀ lane ∈ spec.lanes, lane.kind = 1 ∨ lane.kind = 2
  leader : ∀ lane ∈ spec.lanes, lane.trainerSlots ≠ []
  trainers_sub : ∀ lane ∈ spec.lanes, ∀ s ∈ lane.trainerSlots, s ∈ spec.expectedTrainerSlots
  generators_sub : ∀ lane ∈ spec.lanes, ∀ s ∈ lane.generatorSlots, s ∈ spec.expectedGeneratorSlots
  lane_nodup : ∀ lane ∈ spec.lanes, lane.slots.Nodup
  covered : ∀ s ∈ spec.slots, ∃ lane ∈ spec.lanes, s ∈ lane.slots

theorem kind_of_specified {code : Int32} (h : (LaneKind.ofCode? code).getD .unspecified ≠ .unspecified) :
    code = 1 ∨ code = 2 := by
  unfold LaneKind.ofCode? at h
  split_ifs at h with h₀ h₁ h₂
  · exact absurd rfl h
  · exact Or.inl h₁
  · exact Or.inr h₂
  · exact absurd rfl h

theorem layoutFor_ok {layout : LaneLayout} (hs : SpecOk spec) (h : layoutFor spec = .ok layout) : DeclOk spec := by
  obtain ⟨⟨-, hids, hlane, hcov⟩, -⟩ := LaneLayout.new_ok (mapError_eq_ok.1 h)
  have hl : ∀ lane ∈ spec.lanes, LaneOk spec.expectedTrainerSlots spec.expectedGeneratorSlots
      ⟨lane.laneId, (LaneKind.ofCode? lane.kind).getD .unspecified, lane.trainerSlots,
        lane.generatorSlots⟩ := fun lane hm => hlane _ (mem_map_of_mem hm)
  refine ⟨hs, ?_, fun lane hm => kind_of_specified (hl lane hm).kind,
    fun lane hm => (hl lane hm).trainers_ne, fun lane hm => (hl lane hm).trainers_sub,
    fun lane hm => (hl lane hm).generators_sub, fun lane hm => (hl lane hm).nodup, fun s hm => ?_⟩
  · rw [lanesFromSpec, map_map] at hids
    exact hids
  · obtain ⟨l, hlm, hsm⟩ := hcov s hm
    obtain ⟨lane, hm, rfl⟩ := mem_map.1 hlm
    exact ⟨lane, hm, hsm⟩

theorem Accepted.ok (h : Accepted spec) : DeclOk spec := by
  obtain ⟨hv, hl⟩ := h
  cases hlay : layoutFor spec with
  | error e => simp [hlay, Except.isOk, Except.toBool] at hl
  | ok => exact layoutFor_ok (validateSpec_ok hv).2 hlay

namespace DeclOk

variable {spec a b : CollectiveGroupSpec}

theorem slots_sub (h : DeclOk spec) (hm : lane ∈ spec.lanes) : ∀ s ∈ lane.slots, s ∈ spec.slots := by
  intro s hs
  rcases mem_append.1 hs with hs | hs
  · exact mem_append_left _ (h.trainers_sub lane hm s hs)
  · exact mem_append_right _ (h.generators_sub lane hm s hs)

theorem isWord (h : DeclOk spec) (hs : s ∈ spec.slots) : IsWord 0 (bytes s) :=
  ⟨(h.slot s hs).bytes_ne, (h.slot s hs).zero_notMem⟩

theorem mem_wire_slots : w ∈ wireTrainers spec ++ wireGenerators spec ↔ ∃ s ∈ spec.slots, bytes s = w := by
  simp only [wireTrainers, wireGenerators, CollectiveGroupSpec.slots, mem_append, mem_map,
    mem_sortSlots, or_and_right, exists_or]

theorem isLaneWire (h : DeclOk spec) (hm : lane ∈ spec.lanes) : IsLaneWire (laneWire lane) := by
  refine ⟨?_, ?_, ?_⟩
  · rcases h.kind lane hm with hk | hk
    · exact ⟨_, _, _, _, 1, by decide, by rw [laneWire, hk]; rfl⟩
    · exact ⟨_, _, _, _, 2, by decide, by rw [laneWire, hk]; rfl⟩
  · simp [laneWire, slots, h.leader lane hm]
  · intro w hw
    obtain ⟨s, hs, rfl⟩ := mem_map.1 hw
    exact h.isWord (h.slots_sub hm s hs)

theorem groupWire (h : DeclOk spec) : GroupWire (wireLanes spec) (wireTrainers spec) (wireGenerators spec) := by
  have hlanes : ∀ x ∈ wireLanes spec, ∃ lane ∈ spec.lanes, laneWire lane = x := fun x hx => by
    obtain ⟨lane, hm, he⟩ := mem_map.1 hx
    exact ⟨lane, mem_sortLanes.1 hm, he⟩
  refine ⟨?_, ?_, ?_, ?_, ?_, ?_, ?_, sortSlots_wordLt h.trainers_nodup,
    sortSlots_wordLt h.generators_nodup⟩
  · rintro x hx
    obtain ⟨lane, hm, rfl⟩ := hlanes x hx
    exact h.isLaneWire hm
  · rintro x hx
    obtain ⟨lane, hm, rfl⟩ := hlanes x hx
    exact (h.lane_nodup lane hm).map fun _ _ => bytes_inj
  · rintro x hx s hs
    obtain ⟨lane, hm, rfl⟩ := hlanes x hx
    obtain ⟨t, ts, ht⟩ := exists_cons_of_ne_nil (h.leader lane hm)
    have hst : bytes t = s := by simpa [laneWire, slots, ht] using hs
    subst hst
    exact mem_map_bytes.2 (mem_sortSlots.2 (h.trainers_sub lane hm t (ht ▸ mem_cons_self ..)))
  · intro w hw
    obtain ⟨s, hs, rfl⟩ := mem_wire_slots.1 hw
    exact h.isWord hs
  · intro he
    have := congrArg length he
    simp only [wireGenerators, length_map, (sortSlots_perm _).length_eq, length_nil,
      length_eq_zero_iff] at this
    exact h.generators_ne this
  · intro w
    rw [mem_wire_slots]
    constructor
    · rintro ⟨s, hs, rfl⟩
      obtain ⟨lane, hm, hsl⟩ := h.covered s hs
      exact ⟨laneWire lane, mem_map_of_mem (mem_sortLanes.2 hm), mem_map_of_mem hsl⟩
    · rintro ⟨x, hx, hw⟩
      obtain ⟨lane, hm, rfl⟩ := hlanes x hx
      obtain ⟨s, hs, rfl⟩ := mem_map.1 hw
      exact ⟨s, h.slots_sub hm s hs, rfl⟩
  · intro w hw hg
    obtain ⟨s, hs, rfl⟩ := mem_map.1 hw
    exact h.disjoint s (mem_sortSlots.1 hs) (mem_sortSlots.1 (mem_map_bytes.1 hg))

end DeclOk

/-! ## The wire parts determine the declaration -/

theorem eq_of_wordLt_sorted {l l' : List (List UInt8)} (h : l.Pairwise wordLt)
    (h' : l'.Pairwise wordLt) (hm : ∀ w, w ∈ l ↔ w ∈ l') : l = l' := by
  have hp : l.Perm l' := (perm_ext_iff_of_nodup (h.imp wordLt.ne) (h'.imp wordLt.ne)).2 hm
  exact hp.eq_of_pairwise (fun _ _ _ _ h₁ h₂ => (h₁.asymm h₂).elim) h h'

theorem wireSlots_eq_iff {l l' : List String} (h : l.Nodup) (h' : l'.Nodup) :
    (sortSlots l).map bytes = (sortSlots l').map bytes ↔ ∀ s, s ∈ l ↔ s ∈ l' := by
  constructor
  · intro he s
    rw [← mem_sortSlots, ← mem_map_bytes, he, mem_map_bytes, mem_sortSlots]
  · intro hm
    refine eq_of_wordLt_sorted (sortSlots_wordLt h) (sortSlots_wordLt h') fun w => ?_
    simp only [mem_map, mem_sortSlots, hm]

def LaneSpec.face (lane : LaneSpec) : UInt32 × Int32 × List String :=
  (lane.laneId, lane.kind, lane.slots)

def faceWire (f : UInt32 × Int32 × List String) : LaneWire :=
  (leBytes f.1 ++ leBytes f.2.1.toUInt32, f.2.2.map bytes)

theorem faceWire_inj (h : faceWire f = faceWire g) : f = g := by
  obtain ⟨i, k, l⟩ := f
  obtain ⟨i', k', l'⟩ := g
  simp only [faceWire, Prod.mk.injEq] at h
  obtain ⟨hi, hk⟩ := append_inj h.1 rfl
  have hl : l = l' := map_injective_iff.2 (fun _ _ => bytes_inj) h.2
  have hk' : k = k' := by
    cases k
    cases k'
    exact congrArg Int32.ofUInt32 (leBytes_inj hk)
  rw [leBytes_inj hi, hk', hl]

theorem wireLanes_eq_map : wireLanes spec = ((sortLanes spec.lanes).map LaneSpec.face).map faceWire := by
  rw [map_map]
  rfl

theorem mem_faces {i : UInt32} {k : Int32} : (i, k, slots) ∈ (sortLanes spec.lanes).map LaneSpec.face ↔
      ∃ lane ∈ spec.lanes, lane.laneId = i ∧ lane.kind = k ∧ lane.slots = slots := by
  simp only [mem_map, mem_sortLanes, face, Prod.mk.injEq]

namespace DeclOk

variable {a b : CollectiveGroupSpec}

theorem face_inj (h : DeclOk a)
    (hf : f ∈ (sortLanes a.lanes).map LaneSpec.face) (hg : g ∈ (sortLanes a.lanes).map LaneSpec.face)
    (hi : f.1 = g.1) : f = g := by
  obtain ⟨x, hx, rfl⟩ := mem_map.1 hf
  obtain ⟨y, hy, rfl⟩ := mem_map.1 hg
  rw [inj_on_of_nodup_map h.ids_nodup (mem_sortLanes.1 hx) (mem_sortLanes.1 hy) hi]

theorem faces_nodup (h : DeclOk a) : ((sortLanes a.lanes).map LaneSpec.face).Nodup := by
  have hp : ((sortLanes a.lanes).map (·.laneId)).Nodup :=
    ((perm_insertionSort _ a.lanes).map _).nodup_iff.2 h.ids_nodup
  refine List.Nodup.of_map Prod.fst ?_
  rw [map_map]
  exact hp

theorem faces_sorted : ((sortLanes a.lanes).map LaneSpec.face).Pairwise
    fun f g => (toLex (f.1.toNat, f.2.1.toInt) : ℕ ×ₗ ℤ) ≤ toLex (g.1.toNat, g.2.1.toInt) :=
  pairwise_map.2 (pairwise_insertionSort (fun x y => laneKey x ≤ laneKey y) a.lanes)

theorem wireLanes_eq_iff (ha : DeclOk a) (hb : DeclOk b) : wireLanes a = wireLanes b ↔ SameRanks a b := by
  rw [wireLanes_eq_map, wireLanes_eq_map]
  constructor
  · intro he i k slots
    rw [← mem_faces, ← mem_faces, map_injective_iff.2 (fun _ _ => faceWire_inj) he]
  · intro hs
    have hm : ∀ f, f ∈ (sortLanes a.lanes).map face ↔
        f ∈ (sortLanes b.lanes).map face := by
      rintro ⟨i, k, slots⟩
      rw [mem_faces, mem_faces]
      exact hs i k slots
    have hp := (perm_ext_iff_of_nodup ha.faces_nodup hb.faces_nodup).2 hm
    congr 1
    refine hp.eq_of_pairwise (fun f g hf hg h₁ h₂ => ?_) faces_sorted faces_sorted
    -- equal keys have equal lane ids, and a lane id is declared once
    have hk := congrArg (fun p : ℕ ×ₗ ℤ => (ofLex p).1) (le_antisymm h₁ h₂)
    exact ha.face_inj hf ((hm g).2 hg) (UInt32.toNat_inj.1 hk)

theorem trainerSlots_eq (h : DeclOk a) (hm : lane ∈ a.lanes) :
    lane.trainerSlots = lane.slots.filter (· ∈ a.expectedTrainerSlots) ∧
      lane.generatorSlots = lane.slots.filter (· ∉ a.expectedTrainerSlots) := by
  have ht := h.trainers_sub lane hm
  have hg : ∀ s ∈ lane.generatorSlots, s ∉ a.expectedTrainerSlots :=
    fun s hs hst => h.disjoint s hst (h.generators_sub lane hm s hs)
  rw [slots, filter_append, filter_append]
  constructor
  · rw [filter_eq_self.2 (by simpa using ht), filter_eq_nil_iff.2 (by simpa using hg),
      append_nil]
  · rw [filter_eq_nil_iff.2 (by simpa using ht), filter_eq_self.2 (by simpa using hg),
      nil_append]

theorem lanes_sub (ha : DeclOk a) (hb : DeclOk b) (hl : SameRanks a b)
    (ht : ∀ s, s ∈ a.expectedTrainerSlots ↔ s ∈ b.expectedTrainerSlots) : ∀ lane ∈ a.lanes, lane ∈ b.lanes := by
  intro lane hm
  obtain ⟨lane', hm', hi, hk, hs⟩ := (hl _ _ _).1 ⟨lane, hm, rfl, rfl, rfl⟩
  obtain ⟨ht₁, hg₁⟩ := ha.trainerSlots_eq hm
  obtain ⟨ht₂, hg₂⟩ := hb.trainerSlots_eq hm'
  have he : lane = lane' := by
    cases lane
    cases lane'
    simp only [mk.injEq] at *
    refine ⟨hi.symm, hk.symm, ?_, ?_⟩
    · rw [ht₁, ht₂, hs]; simp only [ht]
    · rw [hg₁, hg₂, hs]; simp only [ht]
  exact he ▸ hm'

end DeclOk

/-! ## Shifted roles -/

theorem bytes_soh (n : ℕ) : bytes (soh n) = ones n := by
  rw [bytes_eq, soh, String.toList_ofList]
  induction n with
  | zero => rfl
  | succ n ih => rw [replicate_succ, flatMap_cons, ih]; rfl

theorem bytes_eq_ones : bytes s = ones n ↔ s = soh n := by
  rw [← bytes_soh]
  exact ⟨bytes_inj, fun h => by rw [h]⟩

variable {spec : CollectiveGroupSpec}

theorem mem_wireTrainers : w ∈ wireTrainers spec ↔ ∃ s ∈ spec.expectedTrainerSlots, bytes s = w := by
  simp only [wireTrainers, mem_map, mem_sortSlots]

theorem mem_wireGenerators : w ∈ wireGenerators spec ↔ ∃ s ∈ spec.expectedGeneratorSlots, bytes s = w := by
  simp only [wireGenerators, mem_map, mem_sortSlots]

theorem soh_mem_generators : ones n ∈ wireGenerators spec ↔ soh n ∈ spec.expectedGeneratorSlots := by
  simp only [mem_wireGenerators, bytes_eq_ones, exists_eq_right]

namespace RoleShift

variable {n : ℕ} {a b : CollectiveGroupSpec}

theorem not_same (ha : DeclOk a) (h : RoleShift n a b) : ¬ SameMembership a b := fun hs =>
  ha.disjoint (soh (n + 1)) ((hs.trainers _).2 ((h.trainers _).2 (Or.inr rfl)))
    ((h.generators _).2 (Or.inr rfl))

theorem wireTrainers_eq (ha : DeclOk a) (hb : DeclOk b) (h : RoleShift n a b) :
    wireTrainers b = wireTrainers a ++ [ones (n + 1)] := by
  refine eq_of_wordLt_sorted hb.groupWire.trainers_sorted ?_ fun w => ?_
  · refine pairwise_append.2 ⟨ha.groupWire.trainers_sorted, pairwise_singleton _ _, ?_⟩
    rintro u hu v hv
    obtain ⟨s, hs, rfl⟩ := mem_wireTrainers.1 hu
    obtain ⟨j, hj, rfl⟩ := h.shorter s hs
    rw [mem_singleton.1 hv, bytes_soh]
    exact ones_lt (by omega)
  · simp only [mem_append, mem_singleton, mem_wireTrainers, h.trainers, or_and_right,
      exists_or, exists_eq_left, bytes_soh, eq_comm (a := ones (n + 1))]

theorem wireGenerators_eq (ha : DeclOk a) (hb : DeclOk b) (h : RoleShift n a b) :
    ∃ rest, wireGenerators b = ones n :: rest ∧ wireGenerators a = ones n :: ones (n + 1) :: rest := by
  have hsort := hb.groupWire.generators_sorted
  have hn : ones n ∈ wireGenerators b := soh_mem_generators.2 h.least.1
  have hword := hb.groupWire.generators_word
  have hno : ones (n + 1) ∉ wireGenerators b := fun hm =>
    hb.disjoint (soh (n + 1)) ((h.trainers _).2 (Or.inr rfl)) (soh_mem_generators.1 hm)
  have hmem : ∀ w, w ∈ wireGenerators a ↔ w ∈ wireGenerators b ∨ w = ones (n + 1) := fun w => by
    simp only [mem_wireGenerators, h.generators, or_and_right, exists_or, exists_eq_left, bytes_soh,
      eq_comm (a := ones (n + 1))]
  have hleast : ∀ j < n, ones j ∉ wireGenerators b :=
    fun j hj hm => h.least.2 j hj (soh_mem_generators.1 hm)
  obtain ⟨g, rest, hg⟩ := exists_cons_of_ne_nil (ne_nil_of_mem hn)
  rw [hg] at hsort hn hword hno hmem hleast
  obtain ⟨hg₁, hrest⟩ := pairwise_cons.1 hsort
  -- the generators of `b` start with the run of `n`: a smaller one would be a shorter run
  have hgn : g = ones n := by
    rcases mem_cons.1 hn with he | hm
    · exact he.symm
    · obtain ⟨j, hj, rfl⟩ := eq_ones_of_lt (hword g (mem_cons_self ..)).free (hg₁ _ hm)
      exact absurd (mem_cons_self ..) (hleast j hj)
  subst hgn
  have hlt : ∀ w ∈ rest, wordLt (ones (n + 1)) w := by
    intro w hw
    rcases lt_trichotomy ((ones (n + 1)).map UInt8.toNat) (w.map UInt8.toNat) with hl | he | hl
    · exact hl
    · have := map_injective_iff.2 (fun _ _ => UInt8.toNat_inj.1) he
      exact absurd (mem_cons_of_mem _ (this ▸ hw)) hno
    · obtain ⟨j, hj, rfl⟩ := eq_ones_of_lt (hword w (mem_cons_of_mem _ hw)).free hl
      rcases Nat.lt_or_eq_of_le (Nat.lt_succ_iff.1 hj) with hj | rfl
      · exact ((hg₁ _ hw).asymm (ones_lt hj)).elim
      · exact ((hg₁ _ hw).ne rfl).elim
  refine ⟨rest, hg, eq_of_wordLt_sorted ha.groupWire.generators_sorted ?_ fun w => ?_⟩
  · refine pairwise_cons.2 ⟨?_, pairwise_cons.2 ⟨hlt, hrest⟩⟩
    intro w hw
    rcases mem_cons.1 hw with rfl | hw
    · exact ones_lt (Nat.lt_succ_self n)
    · exact hg₁ w hw
  · rw [hmem, mem_cons, mem_cons, mem_cons]
    tauto

theorem groupIdInput_eq (ha : DeclOk a) (hb : DeclOk b) (h : RoleShift n a b) :
    groupIdInput a = groupIdInput b := by
  obtain ⟨rest, hgb, hga⟩ := h.wireGenerators_eq ha hb
  rw [groupIdInput_eq_wire, groupIdInput_eq_wire, h.modelName, (ha.wireLanes_eq_iff hb).2 h.lanes,
    h.wireTrainers_eq ha hb, hga, hgb]
  simp [body, ones_succ]

end RoleShift

variable {a b : CollectiveGroupSpec}

theorem roleShift_of_shifted (ha : DeclOk a) (hb : DeclOk b)
    (hm : a.modelName = b.modelName) (hX : wireLanes a = wireLanes b)
    (hs : Shifted (wireTrainers a) (wireGenerators a) (wireTrainers b) (wireGenerators b)) :
    ∃ n, RoleShift n a b := by
  obtain ⟨n, rest, hU, hG, hG'⟩ := ha.groupWire.shifted (hX ▸ hb.groupWire) hs
  have hsT : (wireTrainers a ++ [ones (n + 1)]).Pairwise wordLt := hU ▸ hb.groupWire.trainers_sorted
  have hsG : (ones n :: rest).Pairwise wordLt := hG' ▸ hb.groupWire.generators_sorted
  refine ⟨n, hm, (ha.wireLanes_eq_iff hb).1 hX, fun s => ?_, fun s => ?_, fun s hs => ?_, ?_, ?_⟩
  · have hw : bytes s ∈ wireTrainers b ↔ bytes s ∈ wireTrainers a ∨ bytes s = ones (n + 1) := by
      rw [hU, mem_append, mem_singleton]
    rwa [bytes_eq_ones, wireTrainers, mem_map_bytes, mem_sortSlots, wireTrainers, mem_map_bytes,
      mem_sortSlots] at hw
  · have hw : bytes s ∈ wireGenerators a ↔ bytes s ∈ wireGenerators b ∨ bytes s = ones (n + 1) := by
      rw [hG, hG', mem_cons, mem_cons, mem_cons]
      tauto
    rwa [bytes_eq_ones, wireGenerators, mem_map_bytes, mem_sortSlots, wireGenerators, mem_map_bytes,
      mem_sortSlots] at hw
  · have hsU : bytes s ∈ wireTrainers a := mem_map_bytes.2 (mem_sortSlots.2 hs)
    have hlt := (pairwise_append.1 hsT).2.2 _ hsU _ (mem_singleton_self _)
    obtain ⟨j, hj, hbj⟩ := eq_ones_of_lt (ha.groupWire.trainers_word _ hsU).free hlt
    have hjn : j ≠ n := by
      rintro rfl
      exact ha.groupWire.disjoint _ hsU (hbj ▸ hG ▸ mem_cons_self ..)
    exact ⟨j, by omega, bytes_eq_ones.1 hbj⟩
  · exact soh_mem_generators.1 (hG' ▸ mem_cons_self ..)
  · intro j hj hmem
    have hin := soh_mem_generators.2 hmem
    rw [hG'] at hin
    rcases mem_cons.1 hin with he | hin
    · exact (ones_lt hj).ne he
    · exact ((pairwise_cons.1 hsG).1 _ hin).asymm (ones_lt hj)

/-! ## Group identity -/

theorem sameMembership_of_wire (ha : DeclOk a) (hb : DeclOk b)
    (hm : a.modelName = b.modelName) (hX : wireLanes a = wireLanes b)
    (hU : wireTrainers a = wireTrainers b) (hG : wireGenerators a = wireGenerators b) : SameMembership a b := by
  have ht := (wireSlots_eq_iff ha.trainers_nodup hb.trainers_nodup).1 hU
  have hl := (ha.wireLanes_eq_iff hb).1 hX
  refine ⟨hm, ht, (wireSlots_eq_iff ha.generators_nodup hb.generators_nodup).1 hG, fun lane => ?_⟩
  exact ⟨ha.lanes_sub hb hl ht lane,
    hb.lanes_sub ha (fun i k slots => (hl i k slots).symm) (fun s => (ht s).symm) lane⟩

theorem SameMembership.groupIdInput_eq (ha : DeclOk a) (hb : DeclOk b)
    (h : SameMembership a b) : groupIdInput a = groupIdInput b := by
  have hX : wireLanes a = wireLanes b :=
    (ha.wireLanes_eq_iff hb).2 fun i k _ => by simp only [h.lanes]
  rw [groupIdInput_eq_wire, groupIdInput_eq_wire, h.modelName, hX, wireTrainers, wireGenerators,
    (wireSlots_eq_iff ha.trainers_nodup hb.trainers_nodup).2 h.trainers,
    (wireSlots_eq_iff ha.generators_nodup hb.generators_nodup).2 h.generators]
  rfl

/-- **When two accepted declarations write the same bytes.** -/
theorem groupIdInput_eq_iff (ha : DeclOk a) (hb : DeclOk b) :
    groupIdInput a = groupIdInput b ↔
      SameMembership a b ∨ (∃ n, RoleShift n a b) ∨ ∃ n, RoleShift n b a := by
  constructor
  · intro he
    rw [groupIdInput_eq_wire, groupIdInput_eq_wire] at he
    obtain ⟨hm, hrest⟩ := split_first (zero_notMem_bytes ha.model_free)
      (zero_notMem_bytes hb.model_free) he
    have hm := bytes_inj hm
    obtain ⟨hX, ⟨hU, hG⟩ | hs | hs⟩ := ha.groupWire.readings hb.groupWire hrest
    · exact Or.inl (sameMembership_of_wire ha hb hm hX hU hG)
    · exact Or.inr (Or.inl (roleShift_of_shifted ha hb hm hX hs))
    · exact Or.inr (Or.inr (roleShift_of_shifted hb ha hm.symm hX.symm hs))
  · rintro (h | ⟨n, h⟩ | ⟨n, h⟩)
    · exact h.groupIdInput_eq ha hb
    · exact h.groupIdInput_eq ha hb
    · exact (h.groupIdInput_eq hb ha).symm

/-- **Group identity is faithful up to shifted roles**: equal bytes mean equal membership exactly
    when neither declaration is a shift of the other. -/
theorem groupIdInput_faithful_iff {a b : CollectiveGroupSpec} (ha : Accepted a) (hb : Accepted b) :
    (groupIdInput a = groupIdInput b ↔ SameMembership a b) ↔
      ¬ ((∃ n, RoleShift n a b) ∨ ∃ n, RoleShift n b a) := by
  rw [groupIdInput_eq_iff ha.ok hb.ok]
  constructor
  · rintro h (⟨n, hs⟩ | ⟨n, hs⟩)
    · exact hs.not_same ha.ok (h.1 (Or.inr (Or.inl ⟨n, hs⟩)))
    · have hsame := h.1 (Or.inr (Or.inr ⟨n, hs⟩))
      exact hs.not_same hb.ok ⟨hsame.modelName.symm, fun s => (hsame.trainers s).symm,
        fun s => (hsame.generators s).symm, fun l => (hsame.lanes l).symm⟩
  · intro h
    exact ⟨fun h' => h'.resolve_right h, Or.inl⟩

def boundaryBefore : CollectiveGroupSpec where
  modelName := "m"
  expectedTrainerSlots := ["\x01"]
  expectedGeneratorSlots := ["\x01\x01", "\x01\x01\x01"]
  lanes := [⟨0, 1, ["\x01"], ["\x01\x01\x01", "\x01\x01"]⟩]

def boundaryAfter : CollectiveGroupSpec where
  modelName := "m"
  expectedTrainerSlots := ["\x01", "\x01\x01\x01"]
  expectedGeneratorSlots := ["\x01\x01"]
  lanes := [⟨0, 1, ["\x01", "\x01\x01\x01"], ["\x01\x01"]⟩]

/-- Two accepted declarations with different trainers and the same bytes. -/
theorem groupIdInput_boundary_collides :
    Accepted boundaryBefore ∧ Accepted boundaryAfter ∧
      groupIdInput boundaryBefore = groupIdInput boundaryAfter ∧
      ¬ SameMembership boundaryBefore boundaryAfter := by
  refine ⟨⟨by decide, by decide⟩, ⟨by decide, by decide⟩, by decide, fun h => ?_⟩
  exact absurd ((h.trainers "\x01\x01\x01").2 (by decide)) (by decide)

def pairDeclared : CollectiveGroupSpec where
  modelName := "m"
  expectedTrainerSlots := ["t0", "t1"]
  expectedGeneratorSlots := ["g0"]
  lanes := [⟨0, 1, ["t0", "t1"], ["g0"]⟩, ⟨1, 2, ["t1"], ["g0"]⟩]

def pairReordered : CollectiveGroupSpec where
  modelName := "m"
  expectedTrainerSlots := ["t1", "t0"]
  expectedGeneratorSlots := ["g0"]
  lanes := [⟨1, 2, ["t1"], ["g0"]⟩, ⟨0, 1, ["t0", "t1"], ["g0"]⟩]

theorem groupIdInput_faithful_iff_reordered :
    Accepted pairDeclared ∧ Accepted pairReordered ∧
      ((groupIdInput pairDeclared = groupIdInput pairReordered ↔
          SameMembership pairDeclared pairReordered) ↔
        ¬ ((∃ n, RoleShift n pairDeclared pairReordered) ∨
          ∃ n, RoleShift n pairReordered pairDeclared)) :=
  have ha : Accepted pairDeclared := ⟨by decide, by decide⟩
  have hb : Accepted pairReordered := ⟨by decide, by decide⟩
  ⟨ha, hb, groupIdInput_faithful_iff ha hb⟩

end ModelExpress.Collective
