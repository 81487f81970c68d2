/-
  ModelExpress vLLM installer — the steps of a replay that follows its schedule.
-/
import ModelExpress.Lib.Blocks
import ModelExpress.Vllm.Schedule

namespace ModelExpress.Vllm

open Blocks List Option Event

section
variable (targets : InstallTargets) (copies : List String) (group : LayerInstallPlan → List LayerInstallPlan)
  (last : LayerInstallPlan → ℕ)

def writerAt (i : ℕ) : Option LayerInstallPlan := copies[i]?.bind targets.byName

/-- Some earlier copy goes to the group of the layer. -/
def Begun (k : ℕ) (owner : LayerInstallPlan) : Prop := ∃ i < k, ∃ writer, writerAt targets copies i = some writer ∧ writer ∈ group owner

instance (k : ℕ) (owner : LayerInstallPlan) : Decidable (Begun targets copies group k owner) :=
  decidable_of_iff (∃ i < k, ((writerAt targets copies i).any fun writer => writer ∈ group owner) = true) (by
    refine exists_congr fun i => and_congr_right fun _ => ?_
    simp [Option.any_eq_true])

def block (i : ℕ) : List Event :=
  match writerAt targets copies i with
  | none => []
  | some writer =>
    (if Begun targets copies group i writer then [] else (group writer).map .begin) ++
      .write i writer :: if last writer = i then [.finish (group writer)] else []

def timeline (k : ℕ) : List Event := (List.range k).flatMap (block targets copies group last)

end

section
variable {targets : InstallTargets} {overlapGroups : List (List String)} {copies : List String} {schedule : ReplaySchedule}
  {group : LayerInstallPlan → List LayerInstallPlan} {last : LayerInstallPlan → ℕ}

variable {owner : LayerInstallPlan} {k : ℕ}

theorem begun_succ : Begun targets copies group (k + 1) owner ↔
    Begun targets copies group k owner ∨ ∃ writer, writerAt targets copies k = some writer ∧ writer ∈ group owner := by
  constructor
  · rintro ⟨i, hi, hwriter⟩
    rcases Nat.lt_succ_iff_lt_or_eq.1 hi with hi | rfl
    · exact .inl ⟨i, hi, hwriter⟩
    · exact .inr hwriter
  · rintro (⟨i, hi, hwriter⟩ | hwriter)
    · exact ⟨i, Nat.lt_succ_of_lt hi, hwriter⟩
    · exact ⟨k, Nat.lt_succ_self k, hwriter⟩

section
variable (h : Scheduled targets overlapGroups copies schedule group last)
include h

theorem Scheduled.self_mem (howner : owner ∈ targets.owners) : owner ∈ group owner :=
  (h.mem_group owner howner owner).2 ⟨howner, .refl _⟩

variable {other : LayerInstallPlan}

section
variable (howner : owner ∈ targets.owners)
include howner

theorem Scheduled.mem_owners (hother : other ∈ group owner) :
    other ∈ targets.owners :=
  ((h.mem_group owner howner other).1 hother).1

theorem Scheduled.mem_comm (hother : other ∈ targets.owners) : other ∈ group owner ↔ owner ∈ group other := by
  constructor
  · intro hmem
    rw [(h.same owner howner other hmem).1]
    exact h.self_mem howner
  · intro hmem
    rw [(h.same other hother owner hmem).1]
    exact h.self_mem hother

theorem Scheduled.mem_of_last {writer : LayerInstallPlan}
    (hwriter : writerAt targets copies (last owner) = some writer) : writer ∈ group owner := by
  obtain ⟨name, writer', hname, hbyName, hmem⟩ := h.final owner howner
  rw [writerAt, hname] at hwriter
  obtain rfl : writer' = writer := mem_unique hbyName hwriter
  exact hmem

theorem Scheduled.begun_congr
    (hother : other ∈ group owner) : Begun targets copies group k other ↔ Begun targets copies group k owner := by
  rw [Begun, Begun, (h.same owner howner other hother).1]

end

end

end

variable {g : List LayerInstallPlan} {T₁ T₂ : List Event}

section
variable {targets : InstallTargets} {overlapGroups : List (List String)} {copies : List String} {schedule : ReplaySchedule}
  {group : LayerInstallPlan → List LayerInstallPlan} {last : LayerInstallPlan → ℕ} {i j k : ℕ}
  {owner writer : LayerInstallPlan}

theorem begin_mem_block : Event.begin owner ∈ block targets copies group last i ↔
    ∃ writer, writerAt targets copies i = some writer ∧ ¬ Begun targets copies group i writer ∧ owner ∈ group writer := by
  rw [block]
  cases hwriter : writerAt targets copies i with
  | none => simp
  | some =>
    simp only [some.injEq, exists_eq_left']
    split_ifs <;> simp_all

theorem write_mem_block : Event.write j owner ∈ block targets copies group last i ↔
    j = i ∧ writerAt targets copies i = some owner := by
  rw [block]
  cases hwriter : writerAt targets copies i with
  | none => simp
  | some =>
    rw [some.injEq]
    dsimp only
    split_ifs <;> simp [eq_comm]

theorem finish_mem_block : Event.finish g ∈ block targets copies group last i ↔
    ∃ writer, writerAt targets copies i = some writer ∧ last writer = i ∧ g = group writer := by
  rw [block]
  cases hwriter : writerAt targets copies i with
  | none => simp
  | some =>
    simp only [some.injEq, exists_eq_left']
    split_ifs <;> simp_all

theorem nodup_block (h : Scheduled targets overlapGroups copies schedule group last) (i : ℕ) :
    (block targets copies group last i).Nodup := by
  rw [block]
  cases hwriter : writerAt targets copies i with
  | none => exact nodup_nil
  | some writer =>
    have hbegin : ((group writer).map begin).Nodup := (h.nodup writer).map fun a b hab => begin.inj hab
    dsimp only
    split_ifs <;> simp [nodup_append, hbegin]

theorem exists_first (h : Begun targets copies group k owner) : ∃ i < k, ∃ writer, writerAt targets copies i = some writer ∧
    writer ∈ group owner ∧ ¬ Begun targets copies group i owner := by
  induction k with
  | zero =>
    obtain ⟨i, hi, -⟩ := h
    cases hi
  | succ k ih =>
    by_cases hk : Begun targets copies group k owner
    · obtain ⟨i, hi, hfirst⟩ := ih hk
      exact ⟨i, Nat.lt_succ_of_lt hi, hfirst⟩
    · obtain ⟨writer, hwriter, hmem⟩ := (begun_succ.1 h).resolve_left hk
      exact ⟨k, Nat.lt_succ_self k, writer, hwriter, hmem, hk⟩

section
variable (h : Scheduled targets overlapGroups copies schedule group last)
include h

theorem Scheduled.writer_mem (hwriter : writerAt targets copies i = some writer) :
    writer ∈ targets.owners ∧ i ≤ last writer ∧ i < copies.length := by
  rw [writerAt, bind_eq_some_iff] at hwriter
  obtain ⟨name, hname, hbyName⟩ := hwriter
  obtain ⟨writer', hwriter', hbyName', hle⟩ := h.writer i name hname
  obtain rfl : writer' = writer := mem_unique hbyName' hbyName
  exact ⟨hwriter', hle, (List.getElem?_eq_some_iff.1 hname).1⟩

section
variable (howner : owner ∈ targets.owners)
include howner

theorem Scheduled.begun : Begun targets copies group copies.length owner := by
  obtain ⟨name, writer, hname, hbyName, hmem⟩ := h.final owner howner
  exact ⟨last owner, (List.getElem?_eq_some_iff.1 hname).1, writer, by rw [writerAt, hname]; exact hbyName, hmem⟩

theorem Scheduled.begin_mem_block : Event.begin owner ∈ block targets copies group last i ↔
    ∃ writer, writerAt targets copies i = some writer ∧ writer ∈ group owner ∧ ¬ Begun targets copies group i owner := by
  rw [Vllm.begin_mem_block]
  refine exists_congr fun _ => and_congr_right fun hwriter => ?_
  have hmem := (h.writer_mem hwriter).1
  rw [and_comm, ← h.mem_comm howner hmem]
  exact and_congr_right fun hg => by rw [h.begun_congr howner hg]

theorem Scheduled.count_begin :
    (timeline targets copies group last copies.length).count (.begin owner) = 1 := by
  obtain ⟨i, hi, writer, hwriter, hmem, hfirst⟩ := exists_first (h.begun howner)
  have hblock := (h.begin_mem_block howner).2 ⟨writer, hwriter, hmem, hfirst⟩
  -- no other copy is the first to the group
  have hother : ∀ j, j ≠ i → begin owner ∉ block targets copies group last j := by
    intro j hj hmem'
    obtain ⟨writer', hwriter', hg, hfirst'⟩ := (h.begin_mem_block howner).1 hmem'
    rcases Nat.lt_or_gt_of_ne hj with hlt | hlt
    · exact hfirst ⟨j, hlt, writer', hwriter', hg⟩
    · exact hfirst' ⟨i, hlt, writer, hwriter, hmem⟩
  rw [timeline, range_split hi]
  refine count_flatMap_eq_one (count_eq_one_of_mem (nodup_block h i) hblock) (fun j hj => hother j ?_) fun j hj => hother j ?_
  · exact Nat.ne_of_lt (mem_range.1 hj)
  · obtain ⟨d, -, rfl⟩ := mem_map.1 hj
    omega

end

theorem Scheduled.begin_before
    (hT : timeline targets copies group last copies.length = T₁ ++ .write i owner :: T₂) : .begin owner ∈ T₁ := by
  obtain ⟨l₁, a, l₂, A, B, hrange, hblock, rfl, rfl⟩ := flatMap_eq_append_cons hT
  have hwrite : write i owner ∈ block targets copies group last a := by
    rw [hblock]
    exact mem_append_right _ (mem_cons_self ..)
  obtain ⟨rfl, hwriter⟩ := write_mem_block.1 hwrite
  obtain ⟨-, rfl, -⟩ := range_eq_append_cons hrange
  have howner := (h.writer_mem hwriter).1
  by_cases hbegun : Begun targets copies group i owner
  · obtain ⟨j, hj, hfirst⟩ := exists_first hbegun
    exact mem_append_left _ (mem_flatMap.2 ⟨j, mem_range.2 hj, (h.begin_mem_block howner).2 hfirst⟩)
  · refine mem_append_right _ ?_
    have hshape : (group owner).map begin ++ .write i owner ::
        (if last owner = i then [.finish (group owner)] else []) = A ++ .write i owner :: B := by
      rw [← hblock, block, hwriter]
      simp only [if_neg hbegun]
    have hsplit := (append_cons_inj_of_notMem ?_ ?_).1 hshape
    · rw [← hsplit.1]
      exact mem_map_of_mem (h.self_mem howner)
    · simp
    · split_ifs <;> simp

theorem Scheduled.count_finish (howner : owner ∈ targets.owners) :
    (timeline targets copies group last copies.length).count (.finish (group owner)) = 1 := by
  obtain ⟨name, writer, hname, hbyName, hmem⟩ := h.final owner howner
  have hwriter : writerAt targets copies (last owner) = some writer := by rw [writerAt, hname]; exact hbyName
  obtain ⟨hgroup, hlast⟩ := h.same owner howner writer hmem
  have hblock : finish (group owner) ∈ block targets copies group last (last owner) :=
    finish_mem_block.2 ⟨writer, hwriter, hlast, hgroup.symm⟩
  have hother : ∀ j, j ≠ last owner → finish (group owner) ∉ block targets copies group last j := by
    intro j hj hmem'
    obtain ⟨writer', hwriter', hlast', hgroup'⟩ := finish_mem_block.1 hmem'
    have hin : owner ∈ group writer' := hgroup' ▸ h.self_mem howner
    exact hj (hlast'.symm.trans (h.same writer' (h.writer_mem hwriter').1 owner hin).2.symm)
  rw [timeline, range_split (h.writer_mem hwriter).2.2]
  refine count_flatMap_eq_one (count_eq_one_of_mem (nodup_block h _) hblock) (fun j hj => hother j ?_) fun j hj => hother j ?_
  · exact Nat.ne_of_lt (mem_range.1 hj)
  · obtain ⟨d, -, rfl⟩ := mem_map.1 hj
    omega

theorem Scheduled.finish_after (hT : timeline targets copies group last copies.length = T₁ ++ .finish g :: T₂) :
    (∃ A i writer, T₁ = A ++ [.write i writer] ∧ writer ∈ g) ∧ ∀ i writer, .write i writer ∈ T₂ → writer ∉ g := by
  obtain ⟨l₁, i, l₂, A, B, hrange, hblock, rfl, rfl⟩ := flatMap_eq_append_cons hT
  have hfinish : finish g ∈ block targets copies group last i := by
    rw [hblock]
    exact mem_append_right _ (mem_cons_self ..)
  obtain ⟨writer, hwriter, hlast, rfl⟩ := finish_mem_block.1 hfinish
  obtain ⟨hmem, -, -⟩ := h.writer_mem hwriter
  have hshape : ((if Begun targets copies group i writer then [] else (group writer).map begin) ++ [.write i writer]) ++
      .finish (group writer) :: [] = A ++ .finish (group writer) :: B := by
    rw [← hblock, block, hwriter]
    simp [if_pos hlast]
  have hsplit := (append_cons_inj_of_notMem ?_ ?_).1 hshape
  · refine ⟨⟨l₁.flatMap (block targets copies group last) ++
        if Begun targets copies group i writer then [] else (group writer).map begin, i, writer, ?_, h.self_mem hmem⟩, ?_⟩
    · rw [← hsplit.1, append_assoc]
    · intro j later hlater hin
      rw [← hsplit.2.2, nil_append] at hlater
      obtain ⟨j', hj', hlater⟩ := mem_flatMap.1 hlater
      obtain ⟨rfl, hlater⟩ := write_mem_block.1 hlater
      have hlt := (range_eq_append_cons hrange).2.2 _ hj'
      have hle := (h.writer_mem hlater).2.1
      rw [(h.same writer hmem later hin).2] at hle
      omega
  · split_ifs <;> simp
  · simp

end

end

end ModelExpress.Vllm
