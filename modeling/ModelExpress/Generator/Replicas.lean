/-
  ModelExpress generator — which replicas of the trainer slots are tried (`inference/source/trainer.py`).
-/
import ModelExpress.Lib.Checks

namespace ModelExpress.Generator

open Checks List

section
variable {ρ σ κ : Type}

/-- `_SlotReplicas`; `tried` are the replicas that `resolve` was called for. -/
structure SlotReplicas (ρ σ : Type) where
  tried : List ρ
  pending : List ρ
  usable : List σ

variable (resolve : ρ → Option σ)

/-- The loop of `usable`. -/
def resolveUntil (index : ℕ) (tried : List ρ) (usable : List σ) : List ρ → SlotReplicas ρ σ
  | [] => ⟨tried, [], usable⟩
  | shard :: pending =>
    if usable.length ≤ index then resolveUntil index (tried ++ [shard]) (usable ++ (resolve shard).toList) pending
    else ⟨tried, shard :: pending, usable⟩

/-- `usable` -/
def SlotReplicas.get (index : ℕ) (s : SlotReplicas ρ σ) : Option σ × SlotReplicas ρ σ :=
  let s := resolveUntil resolve index s.tried s.usable s.pending
  (s.usable[index]?, s)

/-- The source of one slot for the candidate `offset`; `none` if the slot has none. -/
def SlotReplicas.choose (offset : ℕ) (s : SlotReplicas ρ σ) : Option σ × SlotReplicas ρ σ :=
  match s.get resolve offset with
  | (some source, s) => (some source, s)
  | (none, s) => if s.usable.length = 0 then (none, s) else s.get resolve (offset % s.usable.length)

def selectSources (offset : ℕ) : List (SlotReplicas ρ σ) → Option (List σ) × List (SlotReplicas ρ σ)
  | [] => (some [], [])
  | s :: slots =>
    match s.choose resolve offset with
    | (none, s) => (none, s :: slots)
    | (some source, s) =>
      let (selected, slots) := selectSources offset slots
      (selected.map (source :: ·), s :: slots)

/-- `_candidate_sets`: what it yields, and the slots at the end.  The consumer puts each selection that is
    yielded into `seen`; `key` is the slot and the worker of a source. -/
def candidateSets [DecidableEq κ] (key : σ → κ) :
    ℕ → ℕ → List (SlotReplicas ρ σ) → List (List κ) → Option (List (List σ) × List (SlotReplicas ρ σ))
  | 0, _, _, _ => none
  | fuel + 1, offset, slots, seen =>
    match selectSources resolve offset slots with
    | (none, slots) => some ([], slots)
    | (some selected, slots) =>
      let fresh := if selected.map key ∈ seen then [] else [selected]
      let deepest := (slots.map (·.usable.length)).max?.getD 1
      if slots.all (·.pending.isEmpty) ∧ deepest ≤ offset + 1 then some (fresh, slots)
      else (candidateSets key fuel (offset + 1) slots (fresh.map (·.map key) ++ seen)).map fun r => (fresh ++ r.1, r.2)

variable {resolve} {shards : List ρ} {s : SlotReplicas ρ σ} {index offset : ℕ}

structure SlotReplicas.Of (resolve : ρ → Option σ) (shards : List ρ) (s : SlotReplicas ρ σ) : Prop where
  split : s.tried ++ s.pending = shards
  usable : s.usable = s.tried.filterMap resolve

def SlotReplicas.Reaches (index : ℕ) (s : SlotReplicas ρ σ) : Prop := index < s.usable.length ∨ s.pending = []

theorem resolveUntil_spec (resolve : ρ → Option σ) (index : ℕ) (tried pending : List ρ) :
    (resolveUntil resolve index tried (tried.filterMap resolve) pending).Of resolve (tried ++ pending) ∧
      (resolveUntil resolve index tried (tried.filterMap resolve) pending).Reaches index := by
  induction pending generalizing tried with
  | nil => exact ⟨⟨rfl, rfl⟩, Or.inr rfl⟩
  | cons shard _ ih =>
    rw [resolveUntil]
    split_ifs with hlt
    · have hone : (resolve shard).toList = [shard].filterMap resolve := by
        cases h : resolve shard <;> simp [h]
      rw [hone, ← filterMap_append, append_cons]
      exact ih _
    · exact ⟨⟨rfl, rfl⟩, Or.inl (Nat.lt_of_not_le hlt)⟩

namespace SlotReplicas

theorem Of.get (h : s.Of resolve shards) (index : ℕ) :
    (s.get resolve index).2.Of resolve shards ∧ (s.get resolve index).2.Reaches index := by
  have hspec := resolveUntil_spec resolve index s.tried s.pending
  rwa [← h.usable, h.split] at hspec

theorem Of.filterMap (h : s.Of resolve shards) : shards.filterMap resolve = s.usable ++ s.pending.filterMap resolve := by
  rw [h.usable, ← filterMap_append, h.split]

end SlotReplicas

/-- The replicas of a slot that can be resolved, in turn. -/
def cycled (resolve : ρ → Option σ) (offset : ℕ) (shards : List ρ) : Option σ :=
  (shards.filterMap resolve)[offset % (shards.filterMap resolve).length]?

theorem SlotReplicas.Of.choose (h : s.Of resolve shards) (offset : ℕ) :
    (s.choose resolve offset).1 = cycled resolve offset shards ∧ (s.choose resolve offset).2.Of resolve shards ∧
      (s.choose resolve offset).2.Reaches offset := by
  obtain ⟨hof, hreach⟩ := h.get offset
  have hfst : (s.get resolve offset).1 = (s.get resolve offset).2.usable[offset]? := rfl
  unfold SlotReplicas.choose cycled
  rcases hget : s.get resolve offset with ⟨_ | _, s'⟩
  · rw [hget] at hof hreach hfst
    have hpending : s'.pending = [] := hreach.resolve_left (Nat.not_lt_of_le (getElem?_eq_none_iff.1 hfst.symm))
    have husable : s'.usable = shards.filterMap resolve := by simp [hof.filterMap, hpending]
    dsimp only
    split_ifs with hzero
    · rw [← husable, length_eq_zero_iff.1 hzero]
      exact ⟨rfl, hof, hreach⟩
    · have hsame : s'.get resolve (offset % s'.usable.length) = (s'.usable[offset % s'.usable.length]?, s') := by
        obtain ⟨_, _, _⟩ := s'
        obtain rfl := hpending
        rfl
      rw [hsame, ← husable]
      exact ⟨rfl, hof, hreach⟩
  · rw [hget] at hof hreach hfst
    obtain ⟨hlt, -⟩ := List.getElem?_eq_some_iff.1 hfst.symm
    refine ⟨?_, hof, hreach⟩
    rw [hof.filterMap, length_append, Nat.mod_eq_of_lt (Nat.lt_add_right _ hlt), getElem?_append_left hlt]
    exact hfst

abbrev Candidate (resolve : ρ → Option σ) (offset : ℕ) (groups : List (List ρ)) (y : List σ) : Prop :=
  List.Forall₂ (fun shards x => cycled resolve offset shards = some x) groups y

abbrev Slots (resolve : ρ → Option σ) (groups : List (List ρ)) (slots : List (SlotReplicas ρ σ)) : Prop :=
  List.Forall₂ (SlotReplicas.Of resolve) groups slots

variable {slots : List (SlotReplicas ρ σ)} {groups : List (List ρ)}

theorem selectSources_spec (h : Slots resolve groups slots) (offset : ℕ) :
    ∃ slots', Slots resolve groups slots' ∧
      ((selectSources resolve offset slots = (none, slots') ∧ ∃ shards ∈ groups, shards.filterMap resolve = []) ∨
        ∃ y, selectSources resolve offset slots = (some y, slots') ∧ (∀ s ∈ slots', s.Reaches offset) ∧
          Candidate resolve offset groups y) := by
  induction h with
  | nil => exact ⟨[], .nil, Or.inr ⟨[], rfl, by simp, .nil⟩⟩
  | @cons shards s _ _ hs hslots ih =>
    obtain ⟨hchoose, hof, hreach⟩ := hs.choose offset
    rw [selectSources]
    generalize s.choose resolve offset = chosen at hchoose hof hreach ⊢
    obtain ⟨_ | source, s'⟩ := chosen
    · refine ⟨_, .cons hof hslots, Or.inl ⟨rfl, shards, mem_cons_self, ?_⟩⟩
      by_contra hne
      have hlt := Nat.mod_lt offset (length_pos_iff.2 hne)
      exact absurd (getElem?_eq_none_iff.1 hchoose.symm) (Nat.not_le_of_lt hlt)
    · obtain ⟨_, hslots', ⟨heq, hfailed⟩ | ⟨y, heq, hall, hy⟩⟩ := ih
      · exact ⟨_, .cons hof hslots', Or.inl ⟨by simp [heq], exists_mem_cons_of_exists hfailed⟩⟩
      · exact ⟨_, .cons hof hslots', Or.inr ⟨source :: y, by simp [heq], forall_mem_cons.2 ⟨hreach, hall⟩,
          .cons hchoose.symm hy⟩⟩

theorem deepest_le {n : ℕ} : (slots.map (·.usable.length)).max?.getD 1 ≤ n + 1 ↔ ∀ s ∈ slots, s.usable.length ≤ n + 1 := by
  rcases h : (slots.map (·.usable.length)).max? with _ | m
  · rw [max?_eq_none_iff, map_eq_nil_iff] at h
    simp [h]
  · rw [h, Option.getD_some, max?_le_iff h]
    simp

variable [DecidableEq κ]

/-- What is yielded from the candidate `offset` on. -/
structure Yields (resolve : ρ → Option σ) (key : σ → κ) (groups : List (List ρ)) (offset : ℕ) (seen : List (List κ))
    (ys : List (List σ)) : Prop where
  sound : ∀ y ∈ ys, ∃ k, Candidate resolve k groups y
  nodup : (ys.map (·.map key)).Nodup
  fresh : ∀ y ∈ ys, y.map key ∉ seen
  covers : (∀ shards ∈ groups, shards.filterMap resolve ≠ []) → ∀ k, offset ≤ k →
    (k = 0 ∨ ∃ shards ∈ groups, k < (shards.filterMap resolve).length) →
    ∃ y, Candidate resolve k groups y ∧ y.map key ∈ ys.map (·.map key) ++ seen

theorem Yields.step {key : σ → κ} {seen : List (List κ)} {ys : List (List σ)} {y : List σ}
    (hy : Candidate resolve offset groups y)
    (h : Yields resolve key groups (offset + 1)
      ((if y.map key ∈ seen then [] else [y]).map (·.map key) ++ seen) ys) :
    Yields resolve key groups offset seen ((if y.map key ∈ seen then [] else [y]) ++ ys) := by
  split_ifs at h ⊢ with hseen
  · refine ⟨h.sound, h.nodup, h.fresh, fun hne k hk hlt => ?_⟩
    rcases Nat.eq_or_lt_of_le hk with rfl | hk
    · exact ⟨y, hy, mem_append_right _ hseen⟩
    · exact h.covers hne k hk hlt
  · refine ⟨forall_mem_cons.2 ⟨⟨offset, hy⟩, h.sound⟩, nodup_cons.2 ⟨?_, h.nodup⟩,
      forall_mem_cons.2 ⟨hseen, fun y' hy' => ?_⟩, fun hne k hk hlt => ?_⟩
    · intro hmem
      obtain ⟨y', hy', heq⟩ := mem_map.1 hmem
      exact h.fresh y' hy' (by simp [heq])
    · exact fun hmem => h.fresh y' hy' (mem_append_right _ hmem)
    · rcases Nat.eq_or_lt_of_le hk with rfl | hk
      · exact ⟨y, hy, by simp⟩
      · obtain ⟨y', hy', hmem⟩ := h.covers hne k hk hlt
        exact ⟨y', hy', by simpa [or_left_comm] using hmem⟩

theorem SlotReplicas.Of.length_le {bound : ℕ} (h : s.Of resolve shards) (hle : shards.length ≤ bound) :
    s.usable.length ≤ bound := by
  rw [← h.split, length_append] at hle
  rw [h.usable]
  exact Nat.le_trans (length_filterMap_le _ _) (Nat.le_of_add_right_le hle)

theorem candidateSets_spec (key : σ → κ) (offset : ℕ) (seen : List (List κ)) {bound fuel : ℕ}
    (h : Slots resolve groups slots)
    (hbound : ∀ shards ∈ groups, shards.length ≤ bound) (hfuel : bound - offset < fuel) :
    ∃ ys slots', candidateSets resolve key fuel offset slots seen = some (ys, slots') ∧
      Slots resolve groups slots' ∧ Yields resolve key groups offset seen ys := by
  induction fuel generalizing offset slots seen with
  | zero => omega
  | succ fuel ih =>
    obtain ⟨slots', hslots', ⟨heq, shards, hshards, hnil⟩ | ⟨y, heq, hreach, hy⟩⟩ := selectSources_spec h offset
    · exact ⟨[], slots', by rw [candidateSets, heq], hslots',
        ⟨by simp, nodup_nil, by simp, fun hne => absurd hnil (hne shards hshards)⟩⟩
    rw [candidateSets, heq]
    by_cases hstop : slots'.all (·.pending.isEmpty) ∧ (slots'.map (·.usable.length)).max?.getD 1 ≤ offset + 1
    · refine ⟨_, slots', if_pos hstop, hslots', ?_⟩
      rw [all_eq_true, deepest_le] at hstop
      have hdone : Yields resolve key groups (offset + 1)
          ((if y.map key ∈ seen then [] else [y]).map (·.map key) ++ seen) [] := by
        refine ⟨by simp, nodup_nil, by simp, fun _ k hk hlt => ?_⟩
        obtain ⟨shards, hshards, hlt⟩ := hlt.resolve_left (by omega)
        obtain ⟨s, hs, hof⟩ := exists_of_mem_right hslots'.flip hshards
        have hle := hstop.2 s hs
        rw [SlotReplicas.Of.filterMap hof, isEmpty_iff.1 (hstop.1 s hs), filterMap_nil, append_nil] at hlt
        omega
      simpa using hdone.step hy
    · dsimp only
      rw [if_neg hstop]
      have hlt : offset < bound := by
        have hle : ∀ s ∈ slots', s.usable.length ≤ bound := by
          intro s hs
          obtain ⟨shards, hshards, hof⟩ := exists_of_mem_right hslots' hs
          exact hof.length_le (hbound shards hshards)
        rw [all_eq_true, deepest_le, not_and_or] at hstop
        push Not at hstop
        obtain ⟨s, hs, hpending⟩ | ⟨s, hs, _⟩ := hstop
        · have hlt := (hreach s hs).resolve_right (by simpa using hpending)
          exact Nat.lt_of_lt_of_le hlt (hle s hs)
        · have := hle s hs
          omega
      obtain ⟨ys, slots'', hys, hslots'', hyields⟩ := ih (offset + 1) _ hslots' (by omega)
      rw [hys]
      exact ⟨_, slots'', rfl, hslots'', hyields.step hy⟩

/-- **Replica selection.**  `_candidate_sets` ends.  Every candidate it yields has a resolved replica of each slot,
    and no selection is yielded twice.  It yields one iff every slot has a replica that can be resolved, and then
    every such replica is in a candidate.  No replica is resolved twice. -/
theorem replicas_selected (resolve : ρ → Option σ) (key : σ → κ) (groups : List (List ρ)) :
    ∃ n, ∀ fuel ≥ n, ∃ ys slots,
      candidateSets resolve key fuel 0 (groups.map fun shards => ⟨[], shards, []⟩) [] = some (ys, slots) ∧
      (∀ y ∈ ys, List.Forall₂ (fun shards x => ∃ shard ∈ shards, resolve shard = some x) groups y) ∧
      (ys.map (·.map key)).Nodup ∧
      (ys ≠ [] ↔ ∀ shards ∈ groups, ∃ shard ∈ shards, (resolve shard).isSome) ∧
      (ys ≠ [] → ∀ (i : ℕ) shards, groups[i]? = some shards → ∀ shard ∈ shards, ∀ x, resolve shard = some x →
        ∃ y ∈ ys, (y.map key)[i]? = some (key x)) ∧
      List.Forall₂ (fun shards s => s.tried <+: shards) groups slots := by
  refine ⟨groups.flatten.length + 1, fun fuel _ => ?_⟩
  have hinit : Slots resolve groups (groups.map fun shards => ⟨[], shards, []⟩) :=
    forall₂_map_right_iff.2 (forall₂_same.2 fun _ _ => ⟨rfl, rfl⟩)
  obtain ⟨ys, slots, heq, hslots, hys⟩ := candidateSets_spec key 0 [] hinit
    (fun shards hshards => (sublist_flatten_of_mem hshards).length_le) (by omega : _ < fuel)
  have hsome : ∀ {shards : List ρ}, shards.filterMap resolve ≠ [] ↔ ∃ shard ∈ shards, (resolve shard).isSome := by
    simp [Option.isSome_iff_ne_none]
  have hcycled : ∀ {k shards x}, cycled resolve k shards = some x → ∃ shard ∈ shards, resolve shard = some x :=
    fun h => mem_filterMap.1 (mem_of_getElem? h)
  have hcover := fun (hall : ∀ shards ∈ groups, ∃ shard ∈ shards, (resolve shard).isSome) k =>
    hys.covers (fun shards hshards => hsome.2 (hall shards hshards)) k (Nat.zero_le k)
  have hiff : ys ≠ [] ↔ ∀ shards ∈ groups, ∃ shard ∈ shards, (resolve shard).isSome := by
    constructor
    · intro hne shards hshards
      obtain ⟨y, hy⟩ := exists_mem_of_ne_nil ys hne
      obtain ⟨k, hk⟩ := hys.sound y hy
      obtain ⟨x, -, hx⟩ := exists_of_mem_right hk.flip hshards
      obtain ⟨shard, hshard, hx⟩ := hcycled hx
      exact ⟨shard, hshard, by simp [hx]⟩
    · rintro hall rfl
      obtain ⟨y, -, hy⟩ := hcover hall 0 (Or.inl rfl)
      simp at hy
  refine ⟨ys, slots, heq, fun y hy => ?_, hys.nodup, hiff, fun hne i shards hi shard hshard x hx => ?_, ?_⟩
  · obtain ⟨k, hk⟩ := hys.sound y hy
    exact hk.imp fun _ _ => hcycled
  · obtain ⟨j, hj, hx⟩ := getElem_of_mem (mem_filterMap.2 ⟨shard, hshard, hx⟩)
    obtain ⟨y, hy, hmem⟩ := hcover (hiff.1 hne) j (Or.inr ⟨shards, mem_of_getElem? hi, hj⟩)
    obtain ⟨y', hy', hkey⟩ := mem_map.1 (by simpa using hmem)
    refine ⟨y', hy', ?_⟩
    obtain ⟨hlt, rfl⟩ := List.getElem?_eq_some_iff.1 hi
    have hget := (forall₂_iff_get.1 hy).2 i hlt (hy.length_eq ▸ hlt)
    rw [cycled, get_eq_getElem, Nat.mod_eq_of_lt hj, getElem?_eq_getElem hj, hx] at hget
    rw [hkey, getElem?_map, getElem?_eq_getElem (hy.length_eq ▸ hlt), Option.some.inj hget]
    rfl
  · exact hslots.imp fun _ s h => ⟨s.pending, h.split⟩

end

end ModelExpress.Generator
