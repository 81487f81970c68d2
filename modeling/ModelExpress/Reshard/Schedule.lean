/-
  ModelExpress reshard receiver — bounded schedules.
-/
import ModelExpress.Reshard.Bounded
import ModelExpress.Reshard.Coverage

namespace ModelExpress.Reshard

open Checks Buckets Batching List

/-! ## Arenas -/

section
variable {κ δ C P : Type} (itemsize : δ → ℕ)

def StreamingBatch.slots (batch : StreamingBatch κ C P δ) : List Slot :=
  let carved := carveBounded itemsize batch
  carved.1.map Prod.snd ++ carved.2.1.map Prod.snd ++ carved.2.2.map Prod.snd

/-- A batch that fits the budget, with its buffers apart from each other. -/
structure StreamingBatch.Fits (batch : StreamingBatch κ C P δ) (budget : ℕ) : Prop where
  nbytes_le : batch.nbytes ≤ budget
  disjoint : (batch.slots itemsize).Pairwise fun a b => a.stop ≤ b.start
  aligned : ∀ s ∈ batch.slots itemsize, 256 ∣ s.start
  inside : ∀ s ∈ batch.slots itemsize, s.stop ≤ batch.nbytes

variable {itemsize}

theorem mem_carveLayout {offset : ℕ} {layout : StagingLayout κ δ} {s : Slot}
    (h : s ∈ (carveLayout itemsize offset layout).map Prod.snd) :
    offset ≤ s.start ∧ s.stop ≤ offset + layoutBytes itemsize layout ∧ (256 ∣ offset → 256 ∣ s.start) := by
  simp only [carveLayout, map_map, mem_map] at h
  obtain ⟨x, hx, rfl⟩ := h
  exact mem_carve (by decide) hx

theorem pairwise_carveLayout (offset : ℕ) (layout : StagingLayout κ δ) :
    ((carveLayout itemsize offset layout).map Prod.snd).Pairwise fun a b => a.stop ≤ b.start := by
  rw [carveLayout, map_map, pairwise_map]
  exact pairwise_carve (by decide) offset layout.entries

theorem fits_of_nbytes {batch : StreamingBatch κ C P δ} {budget : ℕ}
    (hbytes : batch.nbytes = batch.layouts.nbytes itemsize) (hle : batch.nbytes ≤ budget) :
    batch.Fits itemsize budget := by
  have hmem : ∀ s, s ∈ batch.slots itemsize ↔
      s ∈ (carveLayout itemsize 0 batch.layouts.recv).map Prod.snd ∨
      s ∈ (carveLayout itemsize (layoutBytes itemsize batch.layouts.recv) batch.layouts.convert).map Prod.snd ∨
      s ∈ (carveLayout itemsize (layoutBytes itemsize batch.layouts.recv + layoutBytes itemsize batch.layouts.convert)
        batch.layouts.full).map Prod.snd := by
    intro s
    simp only [StreamingBatch.slots, carveBounded, mem_append, or_assoc]
  have hrecv : 256 ∣ layoutBytes itemsize batch.layouts.recv := dvd_extent _
  have hconvert : 256 ∣ layoutBytes itemsize batch.layouts.convert := dvd_extent _
  rw [StagingLayouts.nbytes] at hbytes
  refine ⟨hle, ?_, fun s hs => ?_, fun s hs => ?_⟩
  · simp only [StreamingBatch.slots, carveBounded]
    refine pairwise_append.2 ⟨pairwise_append.2 ⟨pairwise_carveLayout .., pairwise_carveLayout ..,
      fun a ha b hb => ?_⟩, pairwise_carveLayout .., fun a ha b hb => ?_⟩
    · have h₁ := (mem_carveLayout ha).2.1
      have h₂ := (mem_carveLayout hb).1
      omega
    · have h₂ := (mem_carveLayout hb).1
      rcases mem_append.1 ha with ha | ha
      all_goals
        have h₁ := (mem_carveLayout ha).2.1
        omega
  · rcases (hmem s).1 hs with hs | hs | hs
    · exact (mem_carveLayout hs).2.2 (Nat.dvd_zero _)
    · exact (mem_carveLayout hs).2.2 hrecv
    · exact (mem_carveLayout hs).2.2 (Nat.dvd_add hrecv hconvert)
  · rcases (hmem s).1 hs with hs | hs | hs
    all_goals
      have h₁ := (mem_carveLayout hs).2.1
      omega

end

/-! ## Modules -/

variable {verify : Bool} {α : Type}

section
variable {Op δ : Type}

section
variable (parameterLayout : StagingLayout String δ)

theorem moduleGroups_perm : ((moduleGroups parameterLayout).flatMap Prod.snd).Perm parameterLayout.entries := by
  simpa [moduleGroups] using perm_foldl_push (fun e => moduleOf e.1) id parameterLayout.entries

theorem nodupKeys_flatMap :
    ((moduleGroups parameterLayout).flatMap Prod.snd).NodupKeys :=
  ((moduleGroups_perm parameterLayout).map Sigma.fst).nodup_iff.2 parameterLayout.nodupKeys

end

/-- The buffers of two batches have different names. -/
structure StagingLayouts.Apart (a b : StagingLayouts String δ) : Prop where
  recv : ∀ k ∈ b.recv, k ∉ a.recv
  convert : ∀ k ∈ b.convert, k ∉ a.convert
  full : ∀ k ∈ b.full, k ∉ a.full

variable {itemsize : δ → ℕ} {replay : Replay Op} {sources : Sources δ} {maxSegmentsPerCopy : ℕ}
variable {maxStagingBytes : ℕ} {settings : StagingSettings} {capture : CaptureResult Op δ} {batch : ModuleBatch Op δ}

structure ModuleOf (itemsize : δ → ℕ) (budget : ℕ) (entries : List (Sigma fun _ : String => List ℕ × δ))
    (batch : ModuleBatch Op δ) : Prop where
  recv : batch.layouts.recv.entries = entries
  convert : ∀ k ∈ batch.layouts.convert, k ∈ batch.layouts.recv
  nbytes : batch.nbytes = batch.layouts.nbytes itemsize
  nbytes_le : batch.nbytes ≤ budget

theorem moduleBatch_ok [DecidableEq δ] {complete : LogicalTransferPlan Op δ} {module : String}
    {entries : List (Sigma fun _ : String => List ℕ × δ)} (hentries : entries.NodupKeys)
    (h : moduleBatch itemsize replay sources maxSegmentsPerCopy maxStagingBytes settings capture complete module
      (Assoc.extend ∅ entries) = .ok batch) :
    ModuleOf itemsize maxStagingBytes entries batch := by
  simp only [moduleBatch, bind_eq_ok, mapError_eq_ok, ensure_eq_ok, exists_const, pure_eq_ok] at h
  obtain ⟨plan, hplan, -, -, hle, rfl⟩ := h
  have hrecv : (Assoc.extend ∅ entries : StagingLayout String δ).entries = entries := by
    rw [Assoc.entries_extend (fun a _ => AList.notMem_empty a) hentries, AList.empty_entries, nil_append]
  refine ⟨hrecv, fun k hk => ?_, rfl, hle⟩
  -- a conversion is one of a copy into the module
  have hkeys : k ∈ (plan.converts.map fun c => (⟨c.paramName, c.destShape, c.srcDtype⟩ :
      Sigma fun _ : String => List ℕ × δ)).keys := by
    simpa using Assoc.mem_extend.1 hk
  rw [keys, map_map] at hkeys
  obtain ⟨v, hv, rfl⟩ := mem_map.1 hkeys
  obtain ⟨c, src, hc, -, hname⟩ := (planWith_ok hplan).converts_of_mem hv
  have hmem := (mem_filter.1 hc.1).2
  rw [← hname] at hmem
  exact of_decide_eq_true hmem

variable {batches : List (ModuleBatch Op δ)} {parameterLayout : StagingLayout String δ}

theorem boundedModules_ok [DecidableEq δ] {sourceSlots : Option (String → Option String)}
    (h : boundedModules itemsize replay sources maxSegmentsPerCopy sourceSlots verify maxStagingBytes settings capture
      parameterLayout = .ok batches) :
    List.Forall₂ (fun g batch => ModuleOf itemsize maxStagingBytes g.2 batch) (moduleGroups parameterLayout)
      batches := by
  simp only [boundedModules, bind_eq_ok, mapError_eq_ok, ensure_eq_ok, exists_const, pure_eq_ok] at h
  obtain ⟨-, _, -, -, -, -, _, hbatches, -, rfl⟩ := h
  have hall := mapM_eq_ok.1 hbatches
  clear hbatches
  have hnodup := nodupKeys_flatMap parameterLayout
  generalize moduleGroups parameterLayout = groups at hall hnodup
  induction hall with
  | nil => exact .nil
  | @cons _ _ _ _ hg _ ih =>
    rw [flatMap_cons, List.NodupKeys, keys, map_append, nodup_append] at hnodup
    exact .cons (moduleBatch_ok hnodup.1 hg) (ih hnodup.2.1)

theorem recv_perm
    (h : List.Forall₂ (fun g batch => ModuleOf itemsize maxStagingBytes g.2 batch) (moduleGroups parameterLayout)
      batches) :
    (batches.flatMap (·.layouts.recv.entries)).Perm parameterLayout.entries := by
  have heq : batches.flatMap (·.layouts.recv.entries) = (moduleGroups parameterLayout).flatMap Prod.snd := by
    generalize moduleGroups parameterLayout = groups at h
    induction h with
    | nil => rfl
    | cons hg _ ih => rw [flatMap_cons, flatMap_cons, hg.recv, ih]
  rw [heq]
  exact moduleGroups_perm parameterLayout

/-! ## Packing -/

theorem recv_pairwise (h : (batches.flatMap (·.layouts.recv.entries)).Perm parameterLayout.entries) :
    batches.Pairwise fun a b => ∀ k ∈ b.layouts.recv, k ∉ a.layouts.recv := by
  have hnodup : (batches.flatMap (·.layouts.recv.keys)).Nodup := by
    have hkeys := (h.map Sigma.fst).nodup_iff.2 parameterLayout.nodupKeys
    rwa [map_flatMap] at hkeys
  refine (nodup_flatMap.1 hnodup).2.imp fun {a b} hab k hb ha => ?_
  exact hab ha hb

structure Packs (itemsize : δ → ℕ) (group : List (ModuleBatch Op δ)) (batch : ModuleBatch Op δ) : Prop where
  copies : batch.capture.copies = group.flatMap (·.capture.copies)
  segments : batch.transferPlan.segments = group.flatMap (·.transferPlan.segments)
  converts : batch.transferPlan.converts = group.flatMap (·.transferPlan.converts)
  fullPulls : batch.transferPlan.fullPulls = group.flatMap (·.transferPlan.fullPulls)
  recv : batch.layouts.recv.entries = group.flatMap (·.layouts.recv.entries)
  nbytes : batch.nbytes = (group.map (·.nbytes)).sum
  layouts : batch.layouts.nbytes itemsize = (group.map fun b => b.layouts.nbytes itemsize).sum

theorem mergeLayout_ok {κ : Type} [DecidableEq κ] {layout incoming : StagingLayout κ δ}
    (h : ∀ k ∈ incoming, k ∉ layout) : ∃ merged, mergeLayout layout incoming = .ok merged ∧
      merged.entries = layout.entries ++ incoming.entries := by
  refine ⟨Assoc.extend layout incoming.entries, ?_, Assoc.entries_extend h incoming.nodupKeys⟩
  simp only [mergeLayout, bind_eq_ok, ensure_eq_ok, exists_const]
  exact ⟨h, rfl⟩

theorem mergeLayouts_ok {group : List (ModuleBatch Op δ)} {acc : StagingLayouts String δ}
    (hacc : ∀ b ∈ group, acc.Apart b.layouts) (hgroup : group.Pairwise fun a b => a.layouts.Apart b.layouts) :
    ∃ layouts, group.foldlM (fun layouts batch => mergeLayouts layouts batch.layouts) acc = .ok layouts ∧
      layouts.recv.entries = acc.recv.entries ++ group.flatMap (·.layouts.recv.entries) ∧
      layouts.nbytes itemsize = acc.nbytes itemsize + (group.map fun b => b.layouts.nbytes itemsize).sum := by
  induction group generalizing acc with
  | nil => exact ⟨acc, rfl, by simp, by simp⟩
  | cons b group ih =>
    rw [pairwise_cons] at hgroup
    have hb := hacc b (mem_cons_self ..)
    obtain ⟨recv, hrecv, hrecv'⟩ := mergeLayout_ok hb.recv
    obtain ⟨convert, hconvert, hconvert'⟩ := mergeLayout_ok hb.convert
    obtain ⟨full, hfull, hfull'⟩ := mergeLayout_ok hb.full
    have hnot : ∀ {κ : Type} {l a b : StagingLayout κ δ} {k}, l.entries = a.entries ++ b.entries → k ∉ a → k ∉ b →
        k ∉ l := by
      intro κ l a b k h ha hb
      show k ∉ l.entries.keys
      rw [h, keys, map_append, mem_append]
      exact not_or.2 ⟨ha, hb⟩
    have hbytes : ∀ {κ : Type} {l a b : StagingLayout κ δ}, l.entries = a.entries ++ b.entries →
        layoutBytes itemsize l = layoutBytes itemsize a + layoutBytes itemsize b := by
      intro κ l a b h
      rw [layoutBytes, h, extent_append]
      rfl
    have hapart : ∀ c ∈ group, (⟨recv, convert, full⟩ : StagingLayouts String δ).Apart c.layouts := by
      intro c hc
      have hac := hacc c (mem_cons_of_mem _ hc)
      have hbc := hgroup.1 c hc
      exact ⟨fun k hk => hnot hrecv' (hac.recv k hk) (hbc.recv k hk),
        fun k hk => hnot hconvert' (hac.convert k hk) (hbc.convert k hk),
        fun k hk => hnot hfull' (hac.full k hk) (hbc.full k hk)⟩
    obtain ⟨layouts, hl, hlrecv, hlbytes⟩ := ih hapart hgroup.2
    refine ⟨layouts, ?_, ?_, ?_⟩
    · rw [foldlM_cons, bind_eq_ok]
      refine ⟨⟨recv, convert, full⟩, ?_, hl⟩
      simp only [mergeLayouts, bind_eq_ok]
      exact ⟨recv, hrecv, convert, hconvert, full, hfull, rfl⟩
    · rw [hlrecv, hrecv', flatMap_cons, append_assoc]
    · rw [hlbytes, StagingLayouts.nbytes, hbytes hrecv', hbytes hconvert', hbytes hfull', map_cons,
        sum_cons, StagingLayouts.nbytes, StagingLayouts.nbytes]
      omega

theorem mergeCurrent_ok {group : List (ModuleBatch Op δ)} (hne : group ≠ [])
    (hgroup : group.Pairwise fun a b => a.layouts.Apart b.layouts) :
    ∃ batch, mergeCurrent group = .ok [batch] ∧ Packs itemsize group batch := by
  have hempty : ∀ b ∈ group, (⟨∅, ∅, ∅⟩ : StagingLayouts String δ).Apart b.layouts := fun b _ =>
    ⟨fun k _ => AList.notMem_empty k, fun k _ => AList.notMem_empty k, fun k _ => AList.notMem_empty k⟩
  obtain ⟨layouts, hl, hrecv, hbytes⟩ := mergeLayouts_ok hempty hgroup
  cases group with
  | nil => exact absurd rfl hne
  | cons first rest =>
    refine ⟨⟨⟨(first :: rest).flatMap (·.capture.copies), [], 0⟩,
      mergePlans first.transferPlan ((first :: rest).map (·.transferPlan)), layouts,
      ((first :: rest).map (·.nbytes)).sum⟩, ?_, ?_⟩
    · simp only [mergeCurrent, mergeBatches, bind_eq_ok, pure_eq_ok]
      exact ⟨_, ⟨layouts, hl, rfl⟩, rfl⟩
    · exact ⟨rfl, flatMap_map .., flatMap_map .., flatMap_map .., hrecv, rfl, by
        rw [hbytes]
        exact Nat.zero_add _⟩

/-- What the packing loop has collected, and when a module joins. -/
def packAdd (s : ℕ × List String) (batch : ModuleBatch Op δ) : ℕ × List String :=
  (s.1 + batch.nbytes, s.2 ++ batch.layouts.full.keys)

def PackFits (budget : ℕ) (s : ℕ × List String) (batch : ModuleBatch Op δ) : Prop :=
  ¬ (budget < s.1 + batch.nbytes ∨ ∃ q ∈ s.2, q ∈ batch.layouts.full)

instance (budget : ℕ) (s : ℕ × List String) (batch : ModuleBatch Op δ) : Decidable (PackFits budget s batch) :=
  inferInstanceAs (Decidable (¬ _))

theorem packFrom_ok (h : ∀ b ∈ batches, b.nbytes ≤ maxStagingBytes)
    {Q : List (ModuleBatch Op δ) → ModuleBatch Op δ → Prop} {current : List (ModuleBatch Op δ)} {s : ℕ × List String}
    (hmerge : ∀ g ∈ cut packAdd (0, []) (PackFits maxStagingBytes) current s batches,
      ∃ b, mergeCurrent g.1 = .ok [b] ∧ Q g.1 b) :
    ∃ packed, packFrom maxStagingBytes current s.1 s.2 batches = .ok packed ∧
      List.Forall₂ (fun g b => Q g.1 b) (cut packAdd (0, []) (PackFits maxStagingBytes) current s batches) packed := by
  induction batches generalizing current s with
  | nil =>
    rw [cut] at hmerge ⊢
    rw [packFrom]
    split_ifs at hmerge ⊢ with hnil
    · exact ⟨[], by rw [isEmpty_iff.1 hnil]; rfl, .nil⟩
    · obtain ⟨b, hb, hq⟩ := hmerge _ (mem_singleton_self _)
      exact ⟨[b], hb, .cons hq .nil⟩
  | cons b _ ih =>
    have hb := h b (mem_cons_self ..)
    have ih := @ih fun c hc => h c (mem_cons_of_mem _ hc)
    rw [cut] at hmerge ⊢
    rw [packFrom]
    simp only [bind_eq_ok, ensure_eq_ok, exists_const, hb, true_and]
    by_cases hfit : ¬ current.isEmpty ∧ (maxStagingBytes < s.1 + b.nbytes ∨ ∃ q ∈ s.2, q ∈ b.layouts.full)
    · -- the group is closed, and the module starts the next one
      have hcut : ¬ current.isEmpty ∧ ¬ PackFits maxStagingBytes s b := ⟨hfit.1, not_not.2 hfit.2⟩
      rw [if_pos hcut] at hmerge ⊢
      obtain ⟨m, hm, hq⟩ := hmerge _ (mem_cons_self ..)
      obtain ⟨packed, hpacked, hall⟩ := ih fun g hg => hmerge g (mem_cons_of_mem _ hg)
      refine ⟨m :: packed, ?_, .cons hq hall⟩
      simp only [packAdd, Nat.zero_add, nil_append] at hpacked
      simp only [if_pos hfit, bind_eq_ok, pure_eq_ok]
      exact ⟨[m], hm, packed, hpacked, rfl⟩
    · have hcut : ¬ (¬ current.isEmpty ∧ ¬ PackFits maxStagingBytes s b) :=
        fun hc => hfit ⟨hc.1, not_not.1 hc.2⟩
      rw [if_neg hcut] at hmerge ⊢
      obtain ⟨packed, hpacked, hall⟩ := ih hmerge
      exact ⟨packed, by rw [if_neg hfit]; exact hpacked, hall⟩

/-- A group of modules that are packed together, with what the loop has accumulated. -/
structure PackedGroup (budget : ℕ) (group : List (ModuleBatch Op δ)) (s : ℕ × List String) : Prop where
  bytes : s.1 = (group.map (·.nbytes)).sum
  bytes_le : s.1 ≤ budget
  sources : s.2 = group.flatMap (·.layouts.full.keys)
  full : group.Pairwise fun a b => ∀ k ∈ b.layouts.full, k ∉ a.layouts.full

theorem PackedGroup.join {group : List (ModuleBatch Op δ)} {s : ℕ × List String}
    (h : PackedGroup maxStagingBytes group s) (hfit : PackFits maxStagingBytes s batch) :
    PackedGroup maxStagingBytes (group ++ [batch]) (packAdd s batch) := by
  simp only [PackFits, not_or, Nat.not_lt, not_exists, not_and] at hfit
  refine ⟨by simp [packAdd, h.bytes], hfit.1, by simp [packAdd, h.sources], ?_⟩
  refine pairwise_append.2 ⟨h.full, pairwise_singleton .., fun b hb c hc k hk hkb => ?_⟩
  obtain rfl := mem_singleton.1 hc
  exact hfit.2 k (h.sources ▸ mem_flatMap.2 ⟨b, hb, hkb⟩) hk

theorem pack_ok (itemsize : δ → ℕ) (hle : ∀ b ∈ batches, b.nbytes ≤ maxStagingBytes)
    (hconvert : ∀ b ∈ batches, ∀ k ∈ b.layouts.convert, k ∈ b.layouts.recv)
    (hrecv : batches.Pairwise fun a b => ∀ k ∈ b.layouts.recv, k ∉ a.layouts.recv) :
    ∃ packed groups, packBoundedBatches maxStagingBytes batches = .ok packed ∧ groups.flatten = batches ∧
      List.Forall₂ (fun g b => Packs itemsize g b ∧ (g.map (·.nbytes)).sum ≤ maxStagingBytes) groups packed := by
  have hflat : ((cut packAdd (0, []) (PackFits maxStagingBytes) [] (0, []) batches).map Prod.fst).flatten = batches :=
    flatten_cut [] (0, []) batches
  have hgroups : ∀ g ∈ cut packAdd (0, []) (PackFits maxStagingBytes) [] (0, []) batches,
      g.1 ≠ [] ∧ PackedGroup maxStagingBytes g.1 g.2 := by
    refine cut_invariant (fun a ha => ?_) (fun g s a _ hg hfit => hg.join hfit) (fun _ => rfl)
      fun hne => absurd rfl hne
    exact ⟨by simp [packAdd], by simpa [packAdd] using hle a ha, by simp [packAdd], pairwise_singleton ..⟩
  have hmerge : ∀ g ∈ cut packAdd (0, []) (PackFits maxStagingBytes) [] (0, []) batches, ∃ b,
      mergeCurrent g.1 = .ok [b] ∧ Packs itemsize g.1 b ∧ (g.1.map (·.nbytes)).sum ≤ maxStagingBytes := by
    intro g hg
    obtain ⟨hne, hpacked⟩ := hgroups g hg
    have hsub : g.1.Sublist batches := hflat ▸ sublist_flatten_of_mem (mem_map_of_mem hg)
    -- the batches of the group have no buffer name in common
    have hapart : g.1.Pairwise fun a b => a.layouts.Apart b.layouts := by
      refine pairwise_iff_forall_sublist.2 fun {a b} hab => ?_
      have ha : a ∈ batches := (hab.trans hsub).subset (mem_cons_self ..)
      have hb : b ∈ batches := (hab.trans hsub).subset (mem_cons_of_mem _ (mem_singleton_self _))
      have hr := pairwise_iff_forall_sublist.1 (hrecv.sublist hsub) hab
      exact ⟨hr, fun k hk hka => hr k (hconvert b hb k hk) (hconvert a ha k hka),
        pairwise_iff_forall_sublist.1 hpacked.full hab⟩
    obtain ⟨b, hb, hpacks⟩ := mergeCurrent_ok hne hapart
    exact ⟨b, hb, hpacks, hpacked.bytes ▸ hpacked.bytes_le⟩
  obtain ⟨packed, hpacked, hall⟩ := packFrom_ok
    (Q := fun g b => Packs itemsize g b ∧ (g.map (·.nbytes)).sum ≤ maxStagingBytes) hle hmerge
  exact ⟨packed, _, hpacked, hflat, forall₂_map_left_iff.2 hall⟩

end

/-! ## Source replay -/

section
variable {Op δ : Type} [DecidableEq δ] {itemsize : δ → ℕ} {replay : Replay Op} {supported stops : Op → Bool}
variable {sources : Sources δ} {sourceIndices : String → Option (List ℕ)} {maxSegmentsPerCopy : ℕ}
variable {maxStagingBytes : Option ℕ}

theorem planReplayCopy_ok {copy : RecordedCopy Op δ} {index : ℕ} {o : Option (ReplayPull Op δ)}
    (h : planReplayCopy replay supported stops sources sourceIndices maxSegmentsPerCopy maxStagingBytes verify copy
      index = .ok o) (hsrc : copy.srcName ∈ sources) :
    ∃ pull, o = some pull ∧ pull.copyIndices = [index] ∧ pull.key.index = index := by
  obtain ⟨_, hsource⟩ := Assoc.mem_iff_lookup.1 hsrc
  simp only [planReplayCopy, hsource, planLocalReplay, bind_eq_ok, found_eq_ok, ensure_eq_ok, exists_const, pure_eq_ok] at h
  obtain ⟨_, -, pull, ⟨-, _, -, exact, -, _, -, rfl⟩, -, rfl⟩ := h
  exact ⟨_, rfl, rfl, rfl⟩

theorem planSourceReplay_ok {capture : ReplayCapture Op δ} {buffers : List SourceBuffer} {plan : ReplayPlan Op δ}
    (h : planSourceReplay replay supported stops sources sourceIndices maxSegmentsPerCopy maxStagingBytes capture
      buffers verify = .ok plan) (hfallback : plan.fallback = []) :
    plan.fullPulls.map (fun p => (p.copyIndices, p.key.index)) =
      (List.range capture.copies.length).map fun i => ([i], i) := by
  simp only [planSourceReplay, bind_eq_ok, ensure_eq_ok, exists_const, pure_eq_ok] at h
  obtain ⟨-, pulls, hpulls, rfl⟩ := h
  have hsources : ∀ c ∈ capture.copies, c.srcName ∈ sources := by
    intro c hc
    by_contra hsrc
    have hmem : c.srcName ∈ ((capture.copies.map RecordedCopy.srcName).filter (· ∉ sources)).foldl mark
        (distinct capture.unsupported) :=
      ((foldl_mark _ _).1 _).2 (Or.inr (mem_filter.2 ⟨mem_map_of_mem hc, decide_eq_true hsrc⟩))
    exact eq_nil_iff_forall_not_mem.1 hfallback _ hmem
  have hall := mapM_eq_ok.1 hpulls
  -- by induction over the copies, with the index of the first
  have hmap : ∀ (copies : List (RecordedCopy Op δ)) (k : ℕ) pulls, (∀ c ∈ copies, c.srcName ∈ sources) →
      List.Forall₂ (fun c o => planReplayCopy replay supported stops sources sourceIndices maxSegmentsPerCopy
        maxStagingBytes verify c.1 c.2 = .ok o) (copies.zipIdx k) pulls →
      pulls.reduceOption.map (fun p => (p.copyIndices, p.key.index)) =
        (range' k copies.length).map fun i => ([i], i) := by
    intro copies
    induction copies with
    | nil =>
      intro k pulls _ hall
      obtain rfl := forall₂_nil_left_iff.1 hall
      rfl
    | cons c _ ih =>
      intro k pulls hsrc hall
      rw [zipIdx_cons] at hall
      obtain ⟨o, pulls', ho, hrest, rfl⟩ := forall₂_cons_left_iff.1 hall
      obtain ⟨pull, rfl, hindices, hkey⟩ := planReplayCopy_ok ho (hsrc c (mem_cons_self ..))
      rw [reduceOption_cons_of_some, map_cons, hindices, hkey,
        ih (k + 1) pulls' (fun d hd => hsrc d (mem_cons_of_mem _ hd)) hrest]
      rfl
  rw [hmap capture.copies 0 pulls hsources hall, range_eq_range']

end

section
variable {Op δ : Type}

/-- A schedule of modules: every parameter is in one batch, every batch fits the budget, and packing
    keeps all this and the order of what is copied and read. -/
structure ModuleSchedule (itemsize : δ → ℕ) (budget : ℕ) (parameterLayout : StagingLayout String δ)
    (batches : List (ModuleBatch Op δ)) : Prop where
  parameters : (batches.flatMap (·.layouts.recv.entries)).Perm parameterLayout.entries
  fits : ∀ b ∈ batches, b.Fits itemsize budget
  packs : ∃ packed, packBoundedBatches budget batches = .ok packed ∧
    packed.flatMap (·.capture.copies) = batches.flatMap (·.capture.copies) ∧
    packed.flatMap (·.transferPlan.segments) = batches.flatMap (·.transferPlan.segments) ∧
    packed.flatMap (·.transferPlan.converts) = batches.flatMap (·.transferPlan.converts) ∧
    packed.flatMap (·.transferPlan.fullPulls) = batches.flatMap (·.transferPlan.fullPulls) ∧
    (packed.flatMap (·.layouts.recv.entries)).Perm parameterLayout.entries ∧
    ∀ b ∈ packed, b.Fits itemsize budget

/-- A schedule of recorded copies: they are in the batches once and in order, and every batch fits
    the budget. -/
structure ReplaySchedule (itemsize : δ → ℕ) (budget : ℕ) (copies : List (RecordedCopy Op δ))
    (batches : List (ReplayBatch Op δ)) : Prop where
  indices : batches.flatMap (fun b => b.transferPlan.fullPulls.flatMap (·.copyIndices)) = List.range copies.length
  copies : batches.flatMap (·.capture.copies) = copies
  fits : ∀ b ∈ batches, b.Fits itemsize budget

variable {itemsize : δ → ℕ} {replay : Replay Op} {sources : Sources δ} {maxSegmentsPerCopy : ℕ}
variable {sourceSlots : Option (String → Option String)} {verify : Bool} {maxStagingBytes : ℕ}
variable {settings : StagingSettings} {parameterLayout : StagingLayout String δ} {capture : ReplayCapture Op δ}

theorem flatMap_packs {f : ModuleBatch Op δ → List α} {groups : List (List (ModuleBatch Op δ))}
    {packed : List (ModuleBatch Op δ)} (h : List.Forall₂ (fun g b => f b = g.flatMap f) groups packed) :
    packed.flatMap f = groups.flatten.flatMap f := by
  induction h with
  | nil => rfl
  | cons hg _ ih => rw [flatMap_cons, hg, ih, flatten_cons, flatMap_append]

theorem boundedModules_schedule [DecidableEq δ] {capture : CaptureResult Op δ} {batches : List (ModuleBatch Op δ)}
    (h : boundedModules itemsize replay sources maxSegmentsPerCopy sourceSlots verify maxStagingBytes settings capture
      parameterLayout = .ok batches) : ModuleSchedule itemsize maxStagingBytes parameterLayout batches := by
  have hof := boundedModules_ok h
  have hmem : ∀ b ∈ batches, ∃ entries, ModuleOf itemsize maxStagingBytes entries b := by
    intro b hb
    obtain ⟨g, -, hg⟩ := exists_of_mem_right hof hb
    exact ⟨g.2, hg⟩
  choose! entries hmem using hmem
  have hperm := recv_perm hof
  refine ⟨hperm, fun b hb => fits_of_nbytes (hmem b hb).nbytes (hmem b hb).nbytes_le, ?_⟩
  obtain ⟨packed, _, hpacked, hflat, hall⟩ := pack_ok itemsize (fun b hb => (hmem b hb).nbytes_le)
    (fun b hb => (hmem b hb).convert) (recv_pairwise hperm)
  refine ⟨packed, hpacked, ?_, ?_, ?_, ?_, ?_, fun b hb => ?_⟩
  · rw [flatMap_packs (hall.imp fun _ _ hg => hg.1.copies), hflat]
  · rw [flatMap_packs (hall.imp fun _ _ hg => hg.1.segments), hflat]
  · rw [flatMap_packs (hall.imp fun _ _ hg => hg.1.converts), hflat]
  · rw [flatMap_packs (hall.imp fun _ _ hg => hg.1.fullPulls), hflat]
  · rw [flatMap_packs (hall.imp fun _ _ hg => hg.1.recv), hflat]
    exact hperm
  · obtain ⟨g, hg, hpacks, hsum⟩ := exists_of_mem_right hall hb
    have hsizes : g.map (·.nbytes) = g.map fun b => b.layouts.nbytes itemsize :=
      map_congr_left fun b hb => (hmem b (hflat ▸ mem_flatten.2 ⟨g, hg, hb⟩)).nbytes
    exact fits_of_nbytes (by rw [hpacks.nbytes, hpacks.layouts, hsizes]) (hpacks.nbytes ▸ hsum)

theorem replayBatch_ok {complete : ReplayPlan Op δ} {pulls : List (ReplayPull Op δ)}
    {nbytes : ℕ} {batch : ReplayBatch Op δ} (h : replayBatch capture complete pulls nbytes = .ok batch)
    (hkeys : (pulls.map (·.key)).Nodup) (hbytes : nbytes = (pulls.map (pullBytes itemsize)).sum) :
    batch.transferPlan.fullPulls = pulls ∧ batch.nbytes = nbytes ∧ batch.nbytes = batch.layouts.nbytes itemsize ∧
      List.Forall₂ (fun i c => capture.copies[i]? = some c) (pulls.flatMap (·.copyIndices)) batch.capture.copies := by
  simp only [replayBatch, bind_eq_ok, pure_eq_ok] at h
  obtain ⟨_, hcopies, rfl⟩ := h
  refine ⟨rfl, rfl, ?_, (mapM_eq_ok.1 hcopies).imp fun _ _ hc => found_eq_ok.1 hc⟩
  have hnodup : (pulls.map fun p => (⟨p.key, p.globalShape, p.dtype⟩ :
      Sigma fun _ : ReplayKey => List ℕ × δ)).NodupKeys := by
    rwa [List.NodupKeys, keys, map_map]
  show nbytes = 0 + 0 + extent ..
  rw [Assoc.entries_extend (fun a _ => AList.notMem_empty a) hnodup, hbytes, extent, AList.empty_entries,
    nil_append, map_map, Nat.zero_add]
  rfl

theorem eq_of_forall₂_range {l l' : List α}
    (h : List.Forall₂ (fun i a => l[i]? = some a) (List.range l.length) l') : l' = l := by
  have hlen := h.length_eq
  rw [length_range] at hlen
  refine ext_getElem hlen.symm fun i hi hi' => ?_
  have hi'' : i < (range l.length).length := by rwa [length_range]
  have hget := h.get hi'' hi
  simp only [get_eq_getElem, getElem_range] at hget
  exact (Option.some.inj ((getElem?_eq_getElem hi').symm.trans hget)).symm

theorem boundedReplay_schedule [DecidableEq δ] {supported stops : Op → Bool} {batches : List (ReplayBatch Op δ)}
    (h : boundedReplay itemsize replay sources maxSegmentsPerCopy sourceSlots verify maxStagingBytes settings supported
      stops capture parameterLayout = .ok batches) :
    ReplaySchedule itemsize maxStagingBytes capture.copies batches := by
  simp only [boundedReplay, bind_eq_ok, mapError_eq_ok, ensure_eq_ok, forM_eq_ok, exists_const, pure_eq_ok] at h
  obtain ⟨-, complete, hplan, _, hvalid, -, hsizes, batches, hbatches, -, rfl⟩ := h
  simp only [planReplay, bind_eq_ok] at hplan
  obtain ⟨_, -, hplan⟩ := hplan
  simp only [validateReplay, bind_eq_ok, ensure_eq_ok] at hvalid
  obtain ⟨_, -, -, -, -, hfallback⟩ := hvalid
  have hpulls := planSourceReplay_ok hplan hfallback
  have hindices : complete.fullPulls.flatMap (·.copyIndices) = range capture.copies.length := by
    have hfst := congrArg (map Prod.fst) hpulls
    rw [map_map, map_map] at hfst
    rw [flatMap_def, show complete.fullPulls.map (·.copyIndices) = _ from hfst]
    simp [Function.comp_def, ← flatMap_def]
  have hkeys : (complete.fullPulls.map (·.key)).Nodup := by
    have hsnd := congrArg (map Prod.snd) hpulls
    rw [map_map, map_map] at hsnd
    refine List.Nodup.of_map ReplayKey.index ?_
    rw [map_map, show complete.fullPulls.map (ReplayKey.index ∘ (·.key)) = _ from hsnd]
    simpa [Function.comp_def] using nodup_range
  have hall := mapM_eq_ok.1 hbatches
  clear hbatches
  have hflat : ((cut (addPull itemsize) 0 (PullFits itemsize maxStagingBytes) [] 0 complete.fullPulls).map
      Prod.fst).flatten = complete.fullPulls := flatten_cut [] 0 complete.fullPulls
  have hgroups : ∀ g ∈ cut (addPull itemsize) 0 (PullFits itemsize maxStagingBytes) [] 0 complete.fullPulls,
      g.1 ≠ [] ∧ g.2 = (g.1.map (pullBytes itemsize)).sum ∧ g.2 ≤ maxStagingBytes := by
    refine cut_invariant (P := fun g s => s = (g.map (pullBytes itemsize)).sum ∧ s ≤ maxStagingBytes)
      (fun a ha => ?_) (fun g s a _ hg hfit => ?_) (fun _ => rfl) fun hne => absurd rfl hne
    · simpa [addPull] using hsizes a ha
    · exact ⟨by simp [addPull, hg.1], hfit⟩
  generalize cut (addPull itemsize) 0 (PullFits itemsize maxStagingBytes) [] 0 complete.fullPulls = groups
    at hall hflat hgroups
  -- the batch of a group
  have hbatch : List.Forall₂ (fun (g : List (ReplayPull Op δ) × ℕ) (batch : ReplayBatch Op δ) =>
      batch.transferPlan.fullPulls = g.1 ∧ batch.Fits itemsize maxStagingBytes ∧
      List.Forall₂ (fun i c => capture.copies[i]? = some c) (g.1.flatMap (·.copyIndices)) batch.capture.copies)
      groups batches := by
    refine forall₂_iff_zip.2 ⟨hall.length_eq, fun {g batch} hzip => ?_⟩
    have hg : g ∈ groups := (of_mem_zip hzip).1
    obtain ⟨-, hsum, hle⟩ := hgroups g hg
    have hsub : g.1.Sublist complete.fullPulls := hflat ▸ sublist_flatten_of_mem (mem_map_of_mem hg)
    obtain ⟨hfull, hn, hbytes, hcopies⟩ := replayBatch_ok ((forall₂_iff_zip.1 hall).2 hzip)
      (hkeys.sublist (hsub.map _)) hsum
    exact ⟨hfull, fits_of_nbytes hbytes (hn ▸ hle), hcopies⟩
  refine ⟨?_, ?_, fun b hb => ?_⟩
  · rw [← hindices, ← hflat]
    clear hall hflat hgroups
    induction hbatch with
    | nil => rfl
    | cons hb _ ih => rw [flatMap_cons, hb.1, ih, map_cons, flatten_cons, flatMap_append]
  · have hcopies : List.Forall₂ (fun i c => capture.copies[i]? = some c) (range capture.copies.length)
        (batches.flatMap (·.capture.copies)) := by
      rw [← hindices, ← hflat]
      clear hall hflat hgroups
      induction hbatch with
      | nil => exact .nil
      | cons hb _ ih =>
        rw [flatMap_cons, map_cons, flatten_cons, flatMap_append]
        exact rel_append hb.2.2 ih
    exact eq_of_forall₂_range hcopies
  · obtain ⟨g, -, hb⟩ := exists_of_mem_right hbatch hb
    exact hb.2.1

end

/-- **Bounded staging schedules**: every parameter, or recorded copy, is in one batch, and packing keeps the
    order of copies and reads. Every batch fits the budget, and its buffers lie apart in an arena of its
    size, from multiples of 256 bytes on. -/
theorem bounded_schedule {Op δ : Type} [DecidableEq δ] (itemsize : δ → ℕ) (replay : Replay Op)
    (supported stops : Op → Bool) (sources : Sources δ) (maxSegmentsPerCopy : ℕ)
    (sourceSlots : Option (String → Option String)) (verify : Bool) (maxStagingBytes : ℕ)
    (settings : StagingSettings) (parameterLayout : StagingLayout String δ) :
    (∀ (capture : CaptureResult Op δ) batches, boundedModules itemsize replay sources maxSegmentsPerCopy sourceSlots
        verify maxStagingBytes settings capture parameterLayout = .ok batches →
      ModuleSchedule itemsize maxStagingBytes parameterLayout batches) ∧
    ∀ (capture : ReplayCapture Op δ) batches, boundedReplay itemsize replay sources maxSegmentsPerCopy sourceSlots
        verify maxStagingBytes settings supported stops capture parameterLayout = .ok batches →
      ReplaySchedule itemsize maxStagingBytes capture.copies batches :=
  ⟨fun _ _ h => boundedModules_schedule h, fun _ _ h => boundedReplay_schedule h⟩

section

def pairLayout : StagingLayout String Unit := AList.singleton "p" ([2], ())

def pairShards : List Shard := [⟨[0], [2], "s", 1⟩]

def pairBatch : ModuleBatch Op Unit where
  capture := wholeCapture
  transferPlan := wholePlan
  layouts := ⟨pairLayout, ∅, ∅⟩
  nbytes := 256

def pairReplay : ReplayCapture Op Unit := ⟨[wholeCopy], [], 0, none, ∅⟩

def pairPull : ReplayPull Op Unit where
  key := ⟨"w", "p", 0⟩
  globalShape := [2]
  dtype := ()
  elsize := 1
  segments := [⟨0, 0, "p", 0, 2⟩]
  copies := [wholeCopy]
  copyIndices := [0]
  exactDescriptorCount := 1
  exactBytes := 2

def pairReplayBatch : ReplayBatch Op Unit where
  capture := pairReplay
  transferPlan := ⟨[⟨"s", "w", [0], [2]⟩], [pairPull], [], false, ["p"], AList.singleton "p" 0, 1, none, 1, 2⟩
  layouts := ⟨∅, ∅, AList.singleton ⟨"w", "p", 0⟩ ([2], ())⟩
  nbytes := 256

set_option maxRecDepth 2000 in
theorem bounded_schedule_pair :
    (boundedModules (fun _ => 1) replayOps (pairSources pairShards) 1 none false 256 ⟨none, 1⟩ wholeCapture pairLayout =
        .ok [pairBatch] ∧ ModuleSchedule (fun _ => 1) 256 pairLayout [pairBatch]) ∧
      boundedReplay (fun _ => 1) replayOps (pairSources pairShards) 1 none false 256 ⟨none, 1⟩ (fun _ => true)
        (fun _ => false) pairReplay pairLayout = .ok [pairReplayBatch] ∧
      ReplaySchedule (fun _ => 1) 256 [wholeCopy] [pairReplayBatch] := by
  obtain ⟨hmodules, hreplay⟩ := bounded_schedule (fun _ => 1) replayOps (fun _ => true) (fun _ => false)
    (pairSources pairShards) 1 none false 256 ⟨none, 1⟩ pairLayout
  have hm : boundedModules (fun _ => 1) replayOps (pairSources pairShards) 1 none false 256 ⟨none, 1⟩ wholeCapture
      pairLayout = .ok [pairBatch] := rfl
  have hr : boundedReplay (fun _ => 1) replayOps (pairSources pairShards) 1 none false 256 ⟨none, 1⟩ (fun _ => true)
      (fun _ => false) pairReplay pairLayout = .ok [pairReplayBatch] := rfl
  exact ⟨⟨hm, hmodules _ _ hm⟩, hr, hreplay _ _ hr⟩

end

end ModelExpress.Reshard
