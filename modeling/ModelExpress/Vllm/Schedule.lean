/-
  ModelExpress vLLM installer — what a compiled schedule says of a recorded list of copies.
-/
import ModelExpress.Vllm.Targets

namespace ModelExpress.Vllm

open Checks List Buckets

/-- The schedule fits a recorded list of copies; `group` are the layers that are finished with a
    layer, and `last` is the copy after which they are. -/
structure Scheduled (targets : InstallTargets) (overlapGroups : List (List String)) (copies : List String)
    (schedule : ReplaySchedule) (group : LayerInstallPlan → List LayerInstallPlan) (last : LayerInstallPlan → ℕ) : Prop where
  total : schedule.totalCopies = copies.length
  writer : ∀ i name, copies[i]? = some name → ∃ owner ∈ targets.owners, targets.byName name = some owner ∧ i ≤ last owner
  mem_group : ∀ owner ∈ targets.owners, ∀ other, other ∈ group owner ↔
    other ∈ targets.owners ∧ Joined targets overlapGroups owner other
  nodup : ∀ owner, (group owner).Nodup
  same : ∀ owner ∈ targets.owners, ∀ other ∈ group owner, group other = group owner ∧ last other = last owner
  groupOf : ∀ owner ∈ targets.owners, schedule.groupOf owner = some (group owner)
  final : ∀ owner ∈ targets.owners, ∃ name writer, copies[last owner]? = some name ∧ targets.byName name = some writer ∧
    writer ∈ group owner
  ready : ∀ i name writer, copies[i]? = some name → targets.byName name = some writer →
    schedule.readyAt i = if last writer = i then [group writer] else []

variable {group : List LayerInstallPlan} {name : String}

section
variable {targets : InstallTargets} {overlapGroups : List (List String)} {copies : List String}

theorem readyAt_eq {schedule : ReplaySchedule} {groups : List (List LayerInstallPlan)} {ending : List LayerInstallPlan → ℕ}
    (h : schedule.ready = groups.foldl (fun ready group => Buckets.push (ending group) group ready) []) (i : ℕ) :
    schedule.readyAt i = groups.filter (ending · = i) := by
  rw [ReplaySchedule.readyAt, h, foldl_push ending fun group => group]
  have hkeys : (((distinct (groups.map ending)).map fun k => (k, (groups.filter (ending · = k)).map fun group => group)).map
      Prod.fst).Nodup := by
    rw [map_map]
    simpa [Function.comp_def] using nodup_distinct (groups.map ending)
  by_cases hi : i ∈ groups.map ending
  · have hlookup := (Assoc.lookup_iff_mem hkeys).2 (mem_map.2 ⟨i, mem_distinct.2 hi, rfl⟩)
    rw [hlookup, Option.getD_some, map_id']
  · have hnone : groups.filter (ending · = i) = [] := by
      refine filter_eq_nil_iff.2 fun group hgroup hend => hi ?_
      exact mem_map.2 ⟨group, hgroup, by simpa using hend⟩
    rw [hnone]
    cases hlookup : lookup i _ with
    | none => rfl
    | some =>
      obtain ⟨k, hk, heq⟩ := mem_map.1 ((Assoc.lookup_iff_mem hkeys).1 hlookup)
      rw [Prod.mk.injEq] at heq
      exact absurd (mem_distinct.1 (heq.1 ▸ hk)) hi

theorem exists_lookup_lastWrites (h : name ∈ copies) : name ∈ lastWrites copies := by
  induction copies using reverseRecOn with
  | nil => cases h
  | append_singleton copies c ih =>
    rw [Assoc.mem_iff_lookup]
    by_cases hname : name = c
    · exact ⟨_, by rw [lookup_lastWrites_append, if_pos hname]⟩
    · have hmem : name ∈ copies := (mem_append.1 h).resolve_right fun hc => hname (mem_singleton.1 hc)
      obtain ⟨i, hi⟩ := Assoc.mem_iff_lookup.1 (ih hmem)
      exact ⟨i, by rw [lookup_lastWrites_append, if_neg hname, hi]⟩

theorem filter_eq_ite {ι : Type} {l : List ι} {p : ι → Prop} [DecidablePred p] {a : ι} (hl : l.Nodup) (ha : a ∈ l)
    (hunique : ∀ b ∈ l, p b → b = a) : l.filter (p ·) = if p a then [a] else [] := by
  split_ifs with hpa
  · refine perm_singleton.1 ((perm_ext_iff_of_nodup (hl.filter _) (nodup_singleton a)).2 fun b => ?_)
    rw [mem_filter, mem_singleton]
    constructor
    · exact fun hb => hunique b hb.1 (of_decide_eq_true hb.2)
    · rintro rfl
      exact ⟨ha, decide_eq_true hpa⟩
  · refine filter_eq_nil_iff.2 fun b hb hpb => hpa ?_
    have hpb := of_decide_eq_true hpb
    exact hunique b hb hpb ▸ hpb

def rootGroup (targets : InstallTargets) (ρ : LayerInstallPlan → LayerInstallPlan) (owner : LayerInstallPlan) :
    List LayerInstallPlan :=
  targets.owners.filter (ρ · = ρ owner)

section
variable {ρ : LayerInstallPlan → LayerInstallPlan} {a b : LayerInstallPlan} {groups : List (List LayerInstallPlan)}

theorem mem_rootGroup : b ∈ rootGroup targets ρ a ↔ b ∈ targets.owners ∧ ρ b = ρ a := by
  rw [rootGroup, mem_filter, decide_eq_true_eq]

theorem rootGroup_congr (h : ρ a = ρ b) : rootGroup targets ρ a = rootGroup targets ρ b := by
  rw [rootGroup, rootGroup, h]

variable (hgroups : groups = (Buckets.distinct (targets.owners.map ρ)).map fun r => targets.owners.filter (ρ · = r))
include hgroups

theorem mem_groups : group ∈ groups ↔ ∃ owner ∈ targets.owners, group = rootGroup targets ρ owner := by
  rw [hgroups, mem_map]
  simp only [mem_distinct, mem_map]
  constructor
  · rintro ⟨_, ⟨owner, howner, rfl⟩, rfl⟩
    exact ⟨owner, howner, rfl⟩
  · rintro ⟨owner, howner, rfl⟩
    exact ⟨ρ owner, ⟨owner, howner, rfl⟩, rfl⟩

theorem group_eq (hgroup : group ∈ groups) (ha : a ∈ group) : group = rootGroup targets ρ a := by
  obtain ⟨_, -, rfl⟩ := (mem_groups hgroups).1 hgroup
  exact rootGroup_congr (mem_rootGroup.1 ha).2.symm

theorem nodup_groups : groups.Nodup := by
  rw [hgroups]
  refine List.Nodup.map_on (fun r hr r' _ heq => ?_) (nodup_distinct _)
  obtain ⟨owner, howner, rfl⟩ := mem_map.1 (mem_distinct.1 hr)
  have hmem : owner ∈ targets.owners.filter (ρ · = ρ owner) := mem_filter.2 ⟨howner, by simp⟩
  rw [heq] at hmem
  simpa using (mem_filter.1 hmem).2

theorem find_group (ha : a ∈ targets.owners) : groups.find? (a ∈ ·) = some (rootGroup targets ρ a) := by
  have hself : a ∈ rootGroup targets ρ a := mem_rootGroup.2 ⟨ha, rfl⟩
  cases hfind : groups.find? (a ∈ ·) with
  | none =>
    have hnone := find?_eq_none.1 hfind _ ((mem_groups hgroups).2 ⟨a, ha, rfl⟩)
    exact absurd (decide_eq_true hself) hnone
  | some group =>
    have hmem : a ∈ group := by simpa using find?_some hfind
    rw [group_eq hgroups (mem_of_find?_eq_some hfind) hmem]

end

theorem Sound.exists_writer (h : Sound targets) (hname : name ∈ targets.keys) :
    ∃ writer ∈ targets.owners, targets.byName name = some writer ∧ ∃ q ∈ writer.parameters, q.canonical = name := by
  obtain ⟨writer, hwriter, q, hq, hqname, hcanonical⟩ := mem_keys.1 hname
  exact ⟨writer, hwriter, h.byName_iff.2 ⟨hwriter, q, hq, hqname, hcanonical⟩, q, hq, hcanonical⟩

variable (overlapGroups) in
theorem exists_scheduled (h : Sound targets) (hkeys : ∀ name ∈ copies, name ∈ targets.keys)
    (hcover : ∀ name ∈ targets.keys, name ∈ copies) :
    ∃ schedule group last, ReplaySchedule.compile targets overlapGroups (lastWrites copies) copies.length = .ok schedule ∧
      schedule.lastWrites = lastWrites copies ∧ Scheduled targets overlapGroups copies schedule group last := by
  obtain ⟨ρ, hρ, hgroups⟩ := UnionFind.connectedGroups_eq targets.owners (targets.links overlapGroups)
  rw [distinct_of_nodup h.nodup_owners] at hgroups
  generalize hall : UnionFind.connectedGroups targets.owners (targets.links overlapGroups) = groups at hgroups
  have hjoined : ∀ a b, ρ a = ρ b ↔ Joined targets overlapGroups a b := by
    intro a b
    rw [hρ, UnionFind.Connected, Joined]
    simp only [h.links_iff]
  -- every parameter is written
  have hcanonical : ∀ owner ∈ targets.owners, ∀ q ∈ owner.parameters, q.canonical ∈ targets.keys := by
    intro owner howner q hq
    obtain ⟨q', hq', hname⟩ := h.canonical q (mem_flatMap.2 ⟨owner, howner, hq⟩)
    obtain ⟨owner', howner', hq'⟩ := mem_flatMap.1 hq'
    exact mem_keys.2 ⟨owner', howner', q', hq', hname⟩
  have htable : ∀ owner ∈ targets.owners, ∀ q ∈ owner.parameters, q.canonical ∈ lastWrites copies := fun owner howner q hq =>
    exists_lookup_lastWrites (hcover _ (hcanonical owner howner q hq))
  have hmembers : ∀ group ∈ groups, group ≠ [] ∧ ∀ owner ∈ group, owner ∈ targets.owners := by
    intro group hgroup
    obtain ⟨owner, howner, rfl⟩ := (mem_groups hgroups).1 hgroup
    exact ⟨ne_nil_of_mem (mem_rootGroup.2 ⟨howner, rfl⟩), fun o ho => (mem_rootGroup.1 ho).1⟩
  let ending := fun group => ((groupEnd (lastWrites copies) group).toOption).getD 0
  have hending : ∀ group ∈ groups, groupEnd (lastWrites copies) group = .ok (ending group) := by
    intro group hgroup
    obtain ⟨e, he⟩ := exists_groupEnd fun owner howner => htable owner ((hmembers group hgroup).2 owner howner)
    simp only [ending, he]
    rfl
  have hspec := fun group hgroup => groupEnd_spec (hending group hgroup) (hmembers group hgroup).1
    fun owner howner => h.nonempty owner ((hmembers group hgroup).2 owner howner)
  have hself : ∀ owner ∈ targets.owners, rootGroup targets ρ owner ∈ groups := fun owner howner =>
    (mem_groups hgroups).2 ⟨owner, howner, rfl⟩
  -- the last copy to a group is made to one of its layers
  have hfinal : ∀ group ∈ groups, ∃ name writer, copies[ending group]? = some name ∧ targets.byName name = some writer ∧
      writer ∈ group := by
    intro group hgroup
    obtain ⟨owner, howner, q, hq, hlookup⟩ := (hspec group hgroup).1
    have hmem := (hmembers group hgroup).2 owner howner
    obtain ⟨writer, hwriter, hbyName, -⟩ := h.exists_writer (hcanonical owner hmem q hq)
    obtain ⟨-, q', hq', -, hsame⟩ := h.byName_iff.1 hbyName
    refine ⟨q.canonical, writer, (lookup_lastWrites.1 hlookup).1, hbyName, ?_⟩
    rw [group_eq hgroups hgroup howner, mem_rootGroup]
    exact ⟨hwriter, ((hjoined owner writer).2 (.rel _ _ ⟨hmem, hwriter, q, hq, q', hq', .inl hsame.symm⟩)).symm⟩
  refine ⟨⟨lastWrites copies, copies.length, groups, (groups.foldl (fun ready group => push (ending group) group ready) [])⟩,
    rootGroup targets ρ, fun owner => ending (rootGroup targets ρ owner), ?_, rfl, ?_⟩
  · obtain ⟨lasts, hlasts⟩ := exists_mapM fun owner howner => exists_lastOf (htable owner howner)
    have hzip : (groups.map ending).zip groups = groups.map fun group => (ending group, group) := by
      have hself := zip_map' (f := ending) (g := fun group => group) (l := groups)
      rwa [map_id'] at hself
    simp only [ReplaySchedule.compile, bind_eq_ok, hall]
    refine ⟨lasts, hlasts, _, mapM_ok_map hending, ?_⟩
    rw [hzip, foldl_map]
    rfl
  · refine ⟨rfl, ?_, ?_, ?_, ?_, ?_, ?_, ?_⟩
    · intro i name hi
      obtain ⟨writer, hwriter, hbyName, q, hq, rfl⟩ := h.exists_writer (hkeys name (mem_of_getElem? hi))
      refine ⟨writer, hwriter, hbyName, ?_⟩
      obtain ⟨w, hw, hlookup⟩ := (hspec _ (hself writer hwriter)).2 writer (mem_rootGroup.2 ⟨hwriter, rfl⟩) q hq
      exact Nat.le_trans ((lookup_lastWrites.1 hlookup).2 i hi) hw
    · intro owner howner other
      rw [mem_rootGroup, ← hjoined, eq_comm (a := ρ other)]
    · exact fun owner => h.nodup_owners.filter _
    · intro owner howner other hother
      have hsame : rootGroup targets ρ other = rootGroup targets ρ owner := rootGroup_congr (mem_rootGroup.1 hother).2
      exact ⟨hsame, by rw [hsame]⟩
    · exact fun owner howner => find_group hgroups howner
    · exact fun owner howner => hfinal _ (hself owner howner)
    · intro i name writer hi hbyName
      have hwriter := (h.byName_iff.1 hbyName).1
      rw [readyAt_eq rfl, filter_eq_ite (nodup_groups hgroups) (hself writer hwriter)]
      intro group hgroup hend
      obtain ⟨name', writer', hname', hbyName', hmem⟩ := hfinal group hgroup
      obtain rfl : name = name' := Option.some.inj (hi.symm.trans (hend ▸ hname'))
      obtain rfl : writer = writer' := Option.mem_unique hbyName hbyName'
      exact group_eq hgroups hgroup hmem

end

end ModelExpress.Vllm
