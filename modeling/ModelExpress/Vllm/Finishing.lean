/-
  ModelExpress vLLM installer — source replay finishes every layer at the right time.
-/
import ModelExpress.Vllm.Timeline

namespace ModelExpress.Vllm

open Checks List

/-! ## One copy -/

variable {plan : InstallExecution} {planGeneration metadata k : ℕ} {group : List LayerInstallPlan}
  {writes : List (ℕ × String)} {batch : SourceReplayBatch} {owner : LayerInstallPlan}

section
variable {engine : List Event → Event → Bool} (hengine : ∀ trace event, engine trace event = true)
include hengine

theorem perform_eq (plan : InstallExecution) (event : Event) :
    plan.perform engine event = .ok { plan with trace := plan.trace ++ [event] } := by
  simp only [InstallExecution.perform, bind_eq_ok, ensure_eq_ok, exists_const]
  exact ⟨hengine _ _, rfl⟩

theorem foldlM_beginPending (hnodup : group.Nodup) (plan : InstallExecution)
    (hnew : ∀ owner ∈ group, owner ∉ plan.replayStarted) :
    group.foldlM (beginPending engine) plan =
      .ok { plan with replayStarted := plan.replayStarted ++ group, trace := plan.trace ++ group.map .begin } := by
  induction group generalizing plan with
  | nil => simp [pure, Except.pure]
  | cons owner group ih =>
    obtain ⟨howner, hgroup⟩ := nodup_cons.1 hnodup
    have hbegin : beginPending engine plan owner = .ok { plan with
        replayStarted := plan.replayStarted ++ [owner], trace := plan.trace ++ [.begin owner] } := by
      rw [beginPending, if_neg (hnew owner (mem_cons_self ..)), beginSourceOwner, perform_eq hengine]
      rfl
    rw [foldlM_cons, hbegin]
    refine (ih hgroup _ fun other hother hstarted => ?_).trans ?_
    · rcases mem_append.1 hstarted with hold | hself
      · exact hnew other (mem_cons_of_mem _ hother) hold
      · exact howner (mem_singleton.1 hself ▸ hother)
    · simp

theorem finishSourceGroup_eq (hstarted : ∀ owner ∈ group, owner ∈ plan.replayStarted) :
    finishSourceGroup engine plan group = .ok { plan with
      replayStarted := plan.replayStarted.filter (· ∉ group)
      installed := plan.installed ++ group.flatMap fun owner => owner.parameters.map (·.canonical)
      trace := plan.trace ++ [.finish group] } := by
  simp only [finishSourceGroup, bind_eq_ok, ensure_eq_ok, exists_const, perform_eq hengine, Except.ok.injEq, exists_eq_left']
  exact ⟨hstarted, rfl⟩

end

section
variable {targets : InstallTargets} {overlapGroups : List (List String)} {copies : List String} {schedule : ReplaySchedule}
  {group : LayerInstallPlan → List LayerInstallPlan} {last : LayerInstallPlan → ℕ}
  {engine : List Event → Event → Bool}

structure Following (targets : InstallTargets) (copies : List String) (group : LayerInstallPlan → List LayerInstallPlan)
    (last : LayerInstallPlan → ℕ) (k : ℕ) (plan : InstallExecution) : Prop where
  sameTargets : plan.targets = targets
  next : plan.replayNext = k
  trace : plan.trace = timeline targets copies group last k
  started : ∀ owner, owner ∈ plan.replayStarted ↔ owner ∈ targets.owners ∧ Begun targets copies group k owner ∧ k ≤ last owner

theorem following_new (targets : InstallTargets) (schedule : Option ReplaySchedule) :
    Following targets copies group last 0 (newInstallExecution targets schedule) where
  sameTargets := rfl
  next := rfl
  trace := rfl
  started owner := by simp [newInstallExecution, Begun]

section
variable {plan : InstallExecution} {k : ℕ} (h : Scheduled targets overlapGroups copies schedule group last)
  (hengine : ∀ trace event, engine trace event = true) (hplan : Following targets copies group last k plan)
include h hengine hplan

theorem beginGroup_spec {writer : LayerInstallPlan} (hwriter : writer ∈ targets.owners) (hle : k ≤ last writer) :
    ∃ started, beginGroup engine schedule plan writer = .ok { plan with
        replayStarted := started
        trace := plan.trace ++ if Begun targets copies group k writer then [] else (group writer).map .begin } ∧
      ∀ owner, owner ∈ started ↔ owner ∈ plan.replayStarted ∨ owner ∈ group writer := by
  have hsame : ∀ owner ∈ group writer, owner ∈ plan.replayStarted ↔ Begun targets copies group k writer := by
    intro owner howner
    rw [hplan.started, h.begun_congr hwriter howner, (h.same writer hwriter owner howner).2]
    exact ⟨fun hs => hs.2.1, fun hb => ⟨h.mem_owners hwriter howner, hb, hle⟩⟩
  have hself := h.self_mem hwriter
  by_cases hbegun : Begun targets copies group k writer
  · refine ⟨plan.replayStarted, ?_, fun owner => ?_⟩
    · rw [beginGroup, if_pos ((hsame writer hself).2 hbegun), if_pos hbegun, append_nil]
      rfl
    · exact ⟨.inl, fun ho => ho.elim id fun hg => (hsame owner hg).2 hbegun⟩
  · refine ⟨plan.replayStarted ++ group writer, ?_, fun owner => mem_append⟩
    rw [beginGroup, if_neg (mt (hsame writer hself).1 hbegun), if_neg hbegun, h.groupOf writer hwriter]
    exact foldlM_beginPending hengine (h.nodup writer) plan fun owner howner => mt (hsame owner howner).1 hbegun

theorem applyWrite_spec {name : String} (hk : copies[k]? = some name) :
    ∃ plan', applyWrite engine schedule plan (k, name) = .ok plan' ∧ Following targets copies group last (k + 1) plan' ∧
      plan'.schedule = plan.schedule ∧ plan'.replayMetadata = plan.replayMetadata := by
  obtain ⟨writer, hwriter, hbyName, hle⟩ := h.writer k name hk
  have hwriterAt : writerAt targets copies k = some writer := by
    rw [writerAt, hk]
    exact hbyName
  obtain ⟨_, hbegin, hstarted⟩ := beginGroup_spec h hengine hplan hwriter hle
  have hlt : k < schedule.totalCopies := h.total ▸ (List.getElem?_eq_some_iff.1 hk).1
  have hready := h.ready k name writer hk hbyName
  -- a group that ends here is that of the writer
  have hend : ∀ owner ∈ targets.owners, last owner = k → owner ∈ group writer := by
    rintro owner howner rfl
    exact (h.mem_comm howner hwriter).1 (h.mem_of_last howner hwriterAt)
  have hbegun : ∀ owner ∈ targets.owners, Begun targets copies group (k + 1) owner ↔
      Begun targets copies group k owner ∨ owner ∈ group writer := by
    intro owner howner
    rw [begun_succ, hwriterAt, ← h.mem_comm howner hwriter]
    simp
  have hblock : timeline targets copies group last (k + 1) = plan.trace ++
      ((if Begun targets copies group k writer then [] else (group writer).map .begin) ++
        .write k writer :: if last writer = k then [.finish (group writer)] else []) := by
    rw [timeline, range_succ, flatMap_append, flatMap_singleton, ← timeline, hplan.trace, block, hwriterAt]
  have hgroup : ∀ owner ∈ group writer, owner ∈ targets.owners ∧ last owner = last writer := fun owner howner =>
    ⟨h.mem_owners hwriter howner, (h.same writer hwriter owner howner).2⟩
  rw [applyWrite]
  simp only [bind_eq_ok, ensure_eq_ok, exists_const, found_eq_ok, hplan.sameTargets, hbyName, Option.some.injEq,
    exists_eq_left', hbegin, Except.ok.injEq, perform_eq hengine, hready]
  by_cases hlast : last writer = k
  · -- the group is finished
    simp only [if_pos hlast] at hblock ⊢
    rw [foldlM_cons, finishSourceGroup_eq hengine fun owner howner => (hstarted owner).2 (.inr howner)]
    refine ⟨_, ⟨⟨hplan.next.symm, hlt⟩, rfl⟩, ⟨rfl, by rw [hplan.next], ?_, fun owner => ?_⟩, rfl, rfl⟩
    · rw [hblock]
      simp
    · simp only [mem_filter, hstarted, decide_not, Bool.not_eq_true', decide_eq_false_iff_not]
      rw [hplan.started]
      constructor
      · rintro ⟨⟨howner, hb, hk⟩ | hmem, hnot⟩
        · exact ⟨howner, (hbegun owner howner).2 (.inl hb), Nat.lt_of_le_of_ne hk fun hkl => hnot (hend owner howner hkl.symm)⟩
        · exact absurd hmem hnot
      · rintro ⟨howner, hb, hk⟩
        have hnot : owner ∉ group writer := fun hmem => by
          have := (hgroup owner hmem).2
          omega
        exact ⟨.inl ⟨howner, ((hbegun owner howner).1 hb).resolve_right hnot, Nat.le_of_succ_le hk⟩, hnot⟩
  · simp only [if_neg hlast] at hblock ⊢
    refine ⟨_, ⟨⟨hplan.next.symm, hlt⟩, rfl⟩, ⟨rfl, by rw [hplan.next], ?_, fun owner => ?_⟩, rfl, rfl⟩
    · rw [hblock]
      simp
    · rw [hstarted, hplan.started]
      constructor
      · rintro (⟨howner, hb, hk⟩ | hmem)
        · refine ⟨howner, (hbegun owner howner).2 (.inl hb), Nat.lt_of_le_of_ne hk fun hkl => hlast ?_⟩
          rw [← (hgroup owner (hend owner howner hkl.symm)).2, hkl]
        · obtain ⟨howner, _⟩ := hgroup owner hmem
          exact ⟨howner, (hbegun owner howner).2 (.inr hmem), by omega⟩
      · rintro ⟨howner, hb, hk⟩
        exact ((hbegun owner howner).1 hb).imp_left fun hb => ⟨howner, hb, Nat.le_of_succ_le hk⟩

/-! ## Batches -/

/-- Writes with consecutive indices from `k` on, to the parameters of the recorded list. -/
def InOrder (copies : List String) : ℕ → List (ℕ × String) → Prop
  | _, [] => True
  | k, write :: writes => write.1 = k ∧ copies[k]? = some write.2 ∧ InOrder copies (k + 1) writes

omit h hengine hplan in
theorem inOrder_append {ws ws' : List (ℕ × String)} :
    InOrder copies k (ws ++ ws') ↔ InOrder copies k ws ∧ InOrder copies (k + ws.length) ws' := by
  induction ws generalizing k with
  | nil => simp [InOrder]
  | cons w ws ih =>
    rw [cons_append, InOrder, InOrder, ih, length_cons, Nat.add_right_comm, Nat.add_assoc]
    simp only [and_assoc]

theorem applyWrites_spec (hwrites : InOrder copies k writes) :
    ∃ plan', writes.foldlM (applyWrite engine schedule) plan = .ok plan' ∧
      Following targets copies group last (k + writes.length) plan' ∧
      plan'.schedule = plan.schedule ∧ plan'.replayMetadata = plan.replayMetadata := by
  induction writes generalizing k plan with
  | nil => exact ⟨plan, rfl, hplan, rfl, rfl⟩
  | cons write writes ih =>
    obtain ⟨rfl, hname, hrest⟩ := hwrites
    obtain ⟨plan₁, hstep, hplan₁, hschedule₁, hmetadata₁⟩ := applyWrite_spec h hengine hplan hname
    obtain ⟨plan₂, hrun, hplan₂, hschedule₂, hmetadata₂⟩ := ih hplan₁ hrest
    refine ⟨plan₂, ?_, ?_, hschedule₂.trans hschedule₁, hmetadata₂.trans hmetadata₁⟩
    · rw [foldlM_cons, bind_eq_ok]
      exact ⟨plan₁, hstep, hrun⟩
    · rw [length_cons, Nat.add_comm writes.length, ← Nat.add_assoc]
      exact hplan₂

end

/-- A batch of the complete plan `metadata` for a recorded list of copies. -/
structure BatchOf (copies : List String) (planGeneration metadata : ℕ) (batch : SourceReplayBatch) : Prop where
  writes : batch.writes ≠ []
  metadata : batch.metadata = metadata
  parameterNames : ∀ name, name ∈ batch.parameterNames ↔ name ∈ copies
  lastWrites : batch.lastWrites = lastWrites copies
  totalCopies : batch.totalCopies = copies.length
  generation : ∀ generation, batch.generation = some generation → generation = planGeneration

/-- The schedule of an execution is known, or will be compiled with the first batch. -/
structure Bound (metadata : ℕ) (schedule : ReplaySchedule) (plan : InstallExecution) : Prop where
  schedule : plan.schedule = some schedule ∨ plan.schedule = none ∧ plan.replayMetadata = none
  metadata : plan.replayMetadata = none ∨ plan.replayMetadata = some metadata

section
variable (h : Scheduled targets overlapGroups copies schedule group last)
include h

section
variable (hcompile : ReplaySchedule.compile targets overlapGroups (lastWrites copies) copies.length = .ok schedule)
  (htable : schedule.lastWrites = lastWrites copies) (hkeys : ∀ name, name ∈ copies ↔ name ∈ targets.keys)
  (hengine : ∀ trace event, engine trace event = true)
include hcompile htable hkeys hengine

theorem applySourceBatch_spec
    (hbatch : BatchOf copies planGeneration metadata batch) (hwrites : InOrder copies k batch.writes)
    (hplan : Following targets copies group last k plan) (hbound : Bound metadata schedule plan) :
    ∃ plan', applySourceBatch engine planGeneration overlapGroups plan batch = .ok plan' ∧
      Following targets copies group last (k + batch.writes.length) plan' ∧ Bound metadata schedule plan' ∧
      plan'.schedule = some schedule := by
  have hschedule : batchSchedule overlapGroups plan batch = .ok schedule := by
    rw [batchSchedule]
    cases hmetadata : plan.replayMetadata with
    | none =>
      have hfor : scheduleFor overlapGroups plan batch = .ok schedule := by
        rw [scheduleFor]
        rcases hbound.schedule with hsome | ⟨hnone, -⟩
        · rw [hsome]
          rfl
        · rw [hnone, hplan.sameTargets, hbatch.lastWrites, hbatch.totalCopies]
          exact hcompile
      simp only [bindMetadata, bind_eq_ok, ensure_eq_ok, exists_const, hfor, Except.ok.injEq, exists_eq_left', htable,
        hbatch.lastWrites, hplan.sameTargets, hbatch.parameterNames, hkeys]
      exact ⟨⟨fun _ h => h, fun _ h => h⟩, List.Perm.refl _, rfl⟩
    | some known =>
      have hknown : metadata = known := by
        rcases hbound.metadata with hnone | hsome
        · cases hmetadata.symm.trans hnone
        · exact (Option.mem_unique hmetadata hsome).symm
      have hsome : plan.schedule = some schedule := by
        refine hbound.schedule.resolve_right fun hnone => ?_
        rw [hmetadata] at hnone
        cases hnone.2
      simp only [bind_eq_ok, ensure_eq_ok, exists_const, found_eq_ok]
      exact ⟨hbatch.metadata.trans hknown, hsome⟩
  have hplan' : Following targets copies group last k
      { plan with schedule := some schedule, replayMetadata := some batch.metadata } :=
    ⟨hplan.sameTargets, hplan.next, hplan.trace, hplan.started⟩
  obtain ⟨plan', hrun, hfollows, hsome, hmetadata⟩ := applyWrites_spec h hengine hplan' hwrites
  refine ⟨plan', ?_, hfollows, ⟨.inl hsome, .inr ?_⟩, hsome⟩
  · simp only [applySourceBatch, bind_eq_ok, ensure_eq_ok, exists_const, hschedule, Except.ok.injEq, exists_eq_left']
    exact ⟨hbatch.generation, ⟨hbatch.totalCopies.trans h.total.symm, hbatch.writes⟩, hrun⟩
  · rw [hmetadata, hbatch.metadata]

theorem applyBatches_spec {batches : List SourceReplayBatch}
    (hbatches : ∀ batch ∈ batches, BatchOf copies planGeneration metadata batch)
    (hwrites : InOrder copies k (batches.flatMap (·.writes)))
    (hplan : Following targets copies group last k plan) (hbound : Bound metadata schedule plan) :
    ∃ plan', batches.foldlM (applySourceBatch engine planGeneration overlapGroups) plan = .ok plan' ∧
      Following targets copies group last (k + (batches.flatMap (·.writes)).length) plan' ∧
      (plan'.schedule = some schedule ∨ batches = [] ∧ plan' = plan) := by
  induction batches generalizing k plan with
  | nil => exact ⟨plan, rfl, hplan, .inr ⟨rfl, rfl⟩⟩
  | cons batch _ ih =>
    rw [flatMap_cons, inOrder_append] at hwrites
    obtain ⟨plan₁, hstep, hplan₁, hbound₁, hsome₁⟩ := applySourceBatch_spec h hcompile htable hkeys hengine
      (hbatches batch (mem_cons_self ..)) hwrites.1 hplan hbound
    obtain ⟨plan₂, hrun, hplan₂, hsome₂⟩ := ih (fun b hb => hbatches b (mem_cons_of_mem _ hb)) hwrites.2 hplan₁ hbound₁
    refine ⟨plan₂, ?_, ?_, .inl ?_⟩
    · rw [foldlM_cons, bind_eq_ok]
      exact ⟨plan₁, hstep, hrun⟩
    · rw [flatMap_cons, length_append, ← Nat.add_assoc]
      exact hplan₂
    · rcases hsome₂ with hsome₂ | ⟨-, rfl⟩
      exacts [hsome₂, hsome₁]

end

end

end

/-! ## Writes that are not in order -/

section
variable {engine : List Event → Event → Bool} {schedule : ReplaySchedule} {plan plan' : InstallExecution}

theorem perform_next {event : Event} (h : plan.perform engine event = .ok plan') : plan'.replayNext = plan.replayNext := by
  simp only [InstallExecution.perform, bind_eq_ok, ensure_eq_ok, exists_const, pure_eq_ok] at h
  rw [← h.2]

theorem beginPending_next (h : beginPending engine plan owner = .ok plan') : plan'.replayNext = plan.replayNext := by
  rw [beginPending] at h
  split_ifs at h
  · rw [← Except.ok.inj h]
  · simp only [beginSourceOwner, bind_eq_ok, pure_eq_ok] at h
    obtain ⟨_, hperform, rfl⟩ := h
    have hnext := perform_next hperform
    exact hnext

theorem beginGroup_next (h : beginGroup engine schedule plan owner = .ok plan') :
    plan'.replayNext = plan.replayNext := by
  rw [beginGroup] at h
  split_ifs at h
  · rw [← Except.ok.inj h]
  · rw [bind_eq_ok] at h
    obtain ⟨_, -, hgroup⟩ := h
    exact foldlM_invariant (P := fun s => s.replayNext = plan.replayNext)
      (fun _ _ s s' hs hstep => (beginPending_next hstep).trans hs) rfl hgroup

theorem finishSourceGroup_next (h : finishSourceGroup engine plan group = .ok plan') :
    plan'.replayNext = plan.replayNext := by
  simp only [finishSourceGroup, bind_eq_ok, pure_eq_ok] at h
  obtain ⟨-, -, _, hperform, rfl⟩ := h
  have hnext := perform_next hperform
  exact hnext

theorem applyWrite_next {write : ℕ × String} (h : applyWrite engine schedule plan write = .ok plan') :
    write.1 = plan.replayNext ∧ plan'.replayNext = plan.replayNext + 1 := by
  simp only [applyWrite, bind_eq_ok, ensure_eq_ok, exists_const] at h
  obtain ⟨⟨hindex, -⟩, _, -, _, hbegin, plan₂, hwrite, hready⟩ := h
  refine ⟨hindex, ?_⟩
  rw [← beginGroup_next hbegin, ← perform_next hwrite]
  exact foldlM_invariant (P := fun s => s.replayNext = plan₂.replayNext + 1)
    (fun _ _ s s' hs hstep => (finishSourceGroup_next hstep).trans hs) rfl hready

theorem applyWrites_next (h : writes.foldlM (applyWrite engine schedule) plan = .ok plan') :
    writes.map Prod.fst = List.range' plan.replayNext writes.length := by
  induction writes generalizing plan with
  | nil => rfl
  | cons _ _ ih =>
    rw [foldlM_cons, bind_eq_ok] at h
    obtain ⟨_, hstep, hrest⟩ := h
    obtain ⟨hindex, hnext⟩ := applyWrite_next hstep
    rw [map_cons, ih hrest, hnext, hindex, length_cons, range'_succ]

end

/-! ## Source replay -/

/-- Every layer is begun once, before its first write, and with its group finished once, between the
    last write to the group and the next write. -/
structure OnTime (targets : InstallTargets) (overlapGroups : List (List String)) (copies : List String) (trace : List Event) :
    Prop where
  written : ∀ i owner, .write i owner ∈ trace ↔ writerAt targets copies i = some owner
  begun : ∀ owner ∈ targets.owners, trace.count (.begin owner) = 1
  begun_before : ∀ T₁ T₂ i owner, trace = T₁ ++ .write i owner :: T₂ → .begin owner ∈ T₁
  finished : ∀ owner ∈ targets.owners, ∃ g, (∀ other, other ∈ g ↔ other ∈ targets.owners ∧ Joined targets overlapGroups owner other) ∧
    trace.count (.finish g) = 1 ∧ ∀ g', .finish g' ∈ trace → owner ∈ g' → g' = g
  finished_after : ∀ T₁ T₂ g, trace = T₁ ++ .finish g :: T₂ →
    (∃ A i writer, T₁ = A ++ [.write i writer] ∧ writer ∈ g) ∧ ∀ i writer, .write i writer ∈ T₂ → writer ∉ g

section
variable {targets : InstallTargets} {overlapGroups : List (List String)} {copies : List String} {schedule : ReplaySchedule}
  {group : LayerInstallPlan → List LayerInstallPlan} {last : LayerInstallPlan → ℕ}

theorem Scheduled.onTime (h : Scheduled targets overlapGroups copies schedule group last) :
    OnTime targets overlapGroups copies (timeline targets copies group last copies.length) where
  written i owner := by
    rw [timeline, mem_flatMap]
    constructor
    · rintro ⟨j, -, hmem⟩
      obtain ⟨rfl, hwriter⟩ := write_mem_block.1 hmem
      exact hwriter
    · intro hwriter
      exact ⟨i, mem_range.2 (h.writer_mem hwriter).2.2, write_mem_block.2 ⟨rfl, hwriter⟩⟩
  begun owner howner := h.count_begin howner
  begun_before T₁ T₂ i owner hT := h.begin_before hT
  finished owner howner := by
    refine ⟨group owner, h.mem_group owner howner, h.count_finish howner, fun g hg hmem => ?_⟩
    obtain ⟨i, -, hblock⟩ := mem_flatMap.1 hg
    obtain ⟨writer, hwriter, -, rfl⟩ := finish_mem_block.1 hblock
    exact (h.same writer (h.writer_mem hwriter).1 owner hmem).1.symm
  finished_after T₁ T₂ g hT := h.finish_after hT

theorem inOrder_zipIdx (done copies : List String) : InOrder (done ++ copies) done.length ((copies.zipIdx done.length).map Prod.swap) := by
  induction copies generalizing done with
  | nil => trivial
  | cons name _ ih =>
    refine ⟨rfl, by simp, ?_⟩
    have ih := ih (done ++ [name])
    rwa [append_assoc, singleton_append, length_append, length_singleton] at ih

theorem length_recorded (copies : List String) : (copies.zipIdx.map Prod.swap).length = copies.length := by simp

theorem finishSourceReplay_iff (h : Scheduled targets overlapGroups copies schedule group last)
    (hplan : Following targets copies group last k plan) (hschedule : plan.schedule = some schedule) :
    finishSourceReplay plan = .ok () ↔ k = copies.length := by
  simp only [finishSourceReplay, hschedule, bind_eq_ok, found_eq_ok, Option.some.injEq, exists_eq_left', ensure_eq_ok,
    hplan.next, h.total]
  refine ⟨And.left, fun hk => ⟨hk, eq_nil_iff_forall_not_mem.2 fun owner howner => ?_⟩⟩
  obtain ⟨hmem, -, hle⟩ := (hplan.started owner).1 howner
  obtain ⟨name, -, hname, -⟩ := h.final owner hmem
  have hlt := (List.getElem?_eq_some_iff.1 hname).1
  omega

end

/-- **Source replay finishes each layer at the right time**, however the recorded list is cut into batches.
    All batches are applied, with a trace that is `OnTime`; the replay is accepted iff these were all, and a
    batch whose writes are not the next ones is refused. -/
theorem source_replay_on_time (plan : EngineInstallPlan) (bufferNames copies : List String)
    (hcopies : ∀ name, name ∈ copies ↔ name ∈ (plan.bindTargets bufferNames).keys) (captured : Option ReplaySchedule)
    (hcaptured : ∀ schedule, captured = some schedule → ReplaySchedule.compile (plan.bindTargets bufferNames)
      plan.overlapGroups (lastWrites copies) copies.length = .ok schedule)
    (hstart : captured = none → copies ≠ []) (engine : List Event → Event → Bool)
    (hengine : ∀ trace event, engine trace event = true) (planGeneration metadata : ℕ) (batches : List SourceReplayBatch)
    (hbatches : ∀ batch ∈ batches, BatchOf copies planGeneration metadata batch)
    (hcut : batches.flatMap (·.writes) = copies.zipIdx.map Prod.swap) :
    (∃ final, batches.foldlM (applySourceBatch engine planGeneration plan.overlapGroups)
        (newInstallExecution (plan.bindTargets bufferNames) captured) = .ok final ∧
      OnTime (plan.bindTargets bufferNames) plan.overlapGroups copies final.trace) ∧
    ∀ done rest, batches = done ++ rest →
      ∃ state, done.foldlM (applySourceBatch engine planGeneration plan.overlapGroups)
          (newInstallExecution (plan.bindTargets bufferNames) captured) = .ok state ∧
        (finishSourceReplay state = .ok () ↔ rest = []) ∧
        ∀ batch, batch.writes.map Prod.fst ≠ List.range' (done.flatMap (·.writes)).length batch.writes.length →
          ∃ e, applySourceBatch engine planGeneration plan.overlapGroups state batch = .error e := by
  obtain ⟨schedule, group, last, hcompile, htable, h⟩ := exists_scheduled plan.overlapGroups
    (sound_bindTargets plan bufferNames) (fun name => (hcopies name).1) fun name => (hcopies name).2
  have hbound : Bound metadata schedule (newInstallExecution (plan.bindTargets bufferNames) captured) := by
    refine ⟨?_, .inl rfl⟩
    cases captured with
    | none => exact .inr ⟨rfl, rfl⟩
    | some known => exact .inl (congrArg some (Except.ok.inj ((hcaptured known rfl).symm.trans hcompile)))
  have hrun : ∀ done rest, batches = done ++ rest → ∃ state,
      done.foldlM (applySourceBatch engine planGeneration plan.overlapGroups)
        (newInstallExecution (plan.bindTargets bufferNames) captured) = .ok state ∧
      Following (plan.bindTargets bufferNames) copies group last (done.flatMap (·.writes)).length state ∧
      (state.schedule = some schedule ∨
        done = [] ∧ state = newInstallExecution (plan.bindTargets bufferNames) captured) := by
    rintro done rest rfl
    have horder : InOrder copies 0 ((done ++ rest).flatMap (·.writes)) := by
      rw [hcut]
      exact inOrder_zipIdx [] copies
    rw [flatMap_append, inOrder_append] at horder
    have hspec := applyBatches_spec h hcompile htable hcopies hengine
      (fun batch hbatch => hbatches batch (mem_append_left _ hbatch)) horder.1 (following_new _ captured) hbound
    rwa [Nat.zero_add] at hspec
  refine ⟨?_, fun done rest hdone => ?_⟩
  · obtain ⟨final, hfinal, hfollows, -⟩ := hrun batches [] (append_nil batches).symm
    refine ⟨final, hfinal, ?_⟩
    rw [hfollows.trace, hcut, length_recorded]
    exact h.onTime
  · obtain ⟨state, hstate, hfollows, hschedule⟩ := hrun done rest hdone
    refine ⟨state, hstate, ?_, fun batch hbatch => ?_⟩
    · -- what remains to be written
      have hlength : (done.flatMap (·.writes)).length + (rest.flatMap (·.writes)).length = copies.length := by
        rw [← length_append, ← flatMap_append, ← hdone, hcut, length_recorded]
      have hrest : rest = [] ↔ (rest.flatMap (·.writes)).length = 0 := by
        rw [length_eq_zero_iff, flatMap_eq_nil_iff]
        refine ⟨fun hnil batch hbatch => ?_, fun hempty => eq_nil_iff_forall_not_mem.2 fun batch hbatch => ?_⟩
        · rw [hnil] at hbatch
          cases hbatch
        · exact (hbatches batch (hdone ▸ mem_append_right _ hbatch)).writes (hempty batch hbatch)
      have hiff : (done.flatMap (·.writes)).length = copies.length ↔ rest = [] := by
        rw [hrest]
        omega
      by_cases hsome : state.schedule = some schedule
      · rw [finishSourceReplay_iff h hfollows hsome, hiff]
      · obtain ⟨rfl, rfl⟩ := hschedule.resolve_left hsome
        obtain ⟨hnone, -⟩ := hbound.schedule.resolve_left hsome
        rw [finishSourceReplay, hnone, ← hiff]
        refine ⟨fun hok => (by cases hok), fun hzero => absurd ?_ (hstart hnone)⟩
        exact length_eq_zero_iff.1 hzero.symm
    · cases happly : applySourceBatch engine planGeneration plan.overlapGroups state batch with
      | error e => exact ⟨e, rfl⟩
      | ok =>
        simp only [applySourceBatch, bind_eq_ok, ensure_eq_ok, exists_const] at happly
        obtain ⟨-, _, -, -, hwrites⟩ := happly
        have hnext := applyWrites_next hwrites
        rw [hfollows.next] at hnext
        exact absurd hnext hbatch

def tiedPlan : EngineInstallPlan where
  inputs := [⟨"embed", [⟨"embed.weight", "weight", 0, false⟩]⟩, ⟨"norm", [⟨"norm.weight", "weight", 1, false⟩]⟩,
    ⟨"head", [⟨"head.weight", "weight", 0, false⟩, ⟨"head.bias", "bias", 2, false⟩]⟩]
  overlapGroups := []
  names := by decide

def tiedCopies : List String := ["embed.weight", "norm.weight", "embed.weight", "head.bias"]

def tiedBatch (writes : List (ℕ × String)) : SourceReplayBatch :=
  ⟨writes, 7, tiedCopies, lastWrites tiedCopies, 4, none⟩

theorem source_replay_on_time_tied :
    (∃ final, [tiedBatch [(0, "embed.weight")], tiedBatch [(1, "norm.weight"), (2, "embed.weight"), (3, "head.bias")]].foldlM
        (applySourceBatch (fun _ _ => true) 0 []) (newInstallExecution (tiedPlan.bindTargets []) none) = .ok final ∧
      OnTime (tiedPlan.bindTargets []) [] tiedCopies final.trace) := by
  have hcopies : ∀ name, name ∈ tiedCopies ↔ name ∈ (tiedPlan.bindTargets []).keys := by
    have hkeys : (tiedPlan.bindTargets []).keys = ["embed.weight", "norm.weight", "head.bias"] := by decide
    intro name
    rw [hkeys, tiedCopies]
    simp only [mem_cons, not_mem_nil, or_false]
    tauto
  have hbatch : ∀ writes, writes ≠ [] → BatchOf tiedCopies 0 7 (tiedBatch writes) := fun _ hwrites =>
    ⟨hwrites, rfl, fun _ => Iff.rfl, rfl, rfl, fun _ h => by cases h⟩
  refine (source_replay_on_time tiedPlan [] tiedCopies hcopies none (fun _ h => by cases h) (fun _ => by decide)
    (fun _ _ => true) (fun _ _ => rfl) 0 7 _ ?_ rfl).1
  intro _ hmem
  rcases mem_cons.1 hmem with rfl | hmem
  · exact hbatch _ (by decide)
  · obtain rfl := mem_singleton.1 hmem
    exact hbatch _ (by decide)

end ModelExpress.Vllm
