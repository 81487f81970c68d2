/-
  ModelExpress staged transfer — the descriptors of a plan (`bind_transfer` of `transfer_plan.py`) and
  their cache (`_DescriptorCache` of `nixl_staged_transfer.py`).

  The cache binds the reads of a slot once per worker and puts the descriptors at the positions of
  the reads.
-/
import ModelExpress.Lib.Writes
import ModelExpress.Reshard.TransferPlan

namespace ModelExpress.Reshard

open Checks Buckets List Function LogicalTransferPlan

/-! ## Binding -/

structure ReadDescriptor where
  session : String
  srcAddr : ℕ
  dstAddr : ℕ
  nbytes : ℕ
  deriving DecidableEq

/-- `"recv"`, `"full"` and `"convert"`. -/
inductive Landing where
  | recv | full | convert
  deriving DecidableEq

abbrev PlannedRead := Landing × LogicalRead

structure PhysicalTransferPlan where
  segments : List ReadDescriptor
  fullPulls : List (List ReadDescriptor)
  converts : List (List ReadDescriptor)
  fallback : List String

def PhysicalTransferPlan.descriptors (plan : PhysicalTransferPlan) : List ReadDescriptor :=
  plan.segments ++ (plan.fullPulls ++ plan.converts).flatten

section
variable {Op δ : Type} (resolveSource : SourceBuffer → String × ℕ) (resolveDestination : Landing → String → ℕ)

def bindRead (buffers : List SourceBuffer) (kind : Landing) (read : LogicalRead) :
    Except PlanError ReadDescriptor := do
  let buffer ← found buffers[read.sourceBuffer]?
    (.value s!"source buffer index out of range: {read.sourceBuffer}")
  let (session, address) := resolveSource buffer
  return ⟨session, address + read.srcByte, resolveDestination kind read.paramName + read.dstByte, read.nbytes⟩

/-- `bind_transfer`. The resolvers are functions, so that an answer is not kept for its next use. -/
def bindTransfer (plan : LogicalTransferPlan Op δ) : Except PlanError PhysicalTransferPlan := do
  let bind (kind : Landing) (reads : List LogicalRead) :=
    reads.mapM (bindRead resolveSource resolveDestination plan.sourceBuffers kind)
  return ⟨← bind .recv plan.segments, ← plan.fullPulls.mapM fun p => bind .full p.segments,
    ← plan.converts.mapM fun p => bind .convert p.segments, plan.fallback⟩

end

/-! ## The cache -/

section
variable {Op δ : Type} (plan : LogicalTransferPlan Op δ)

/-- The reads of a plan with their landings, in the order of the descriptors. -/
def LogicalTransferPlan.reads : List PlannedRead :=
  plan.segments.map (.recv, ·) ++ (plan.fullPulls.flatMap fun p => p.segments.map (.full, ·)) ++
    plan.converts.flatMap fun p => p.segments.map (.convert, ·)

def LogicalTransferPlan.slot (read : LogicalRead) : String :=
  (plan.sourceBuffers[read.sourceBuffer]?.map SourceBuffer.sourceSlotId).getD ""

/-- The plan with the reads of one slot. -/
def LogicalTransferPlan.ofSlot (slot : String) : LogicalTransferPlan Op δ :=
  let select (segments : List LogicalRead) := segments.filter fun read => plan.slot read = slot
  { plan with
    segments := select plan.segments
    fullPulls := plan.fullPulls.map fun p => { p with segments := select p.segments }
    converts := plan.converts.map fun p => { p with segments := select p.segments } }

structure Group (Op δ : Type) where
  slot : String
  plan : LogicalTransferPlan Op δ
  indices : List ℕ

/-- The descriptors of the reads of a slot, bound to a worker. -/
abbrev Replicas := String × String → Option (List ReadDescriptor)

structure DescriptorCache (Op δ : Type) where
  groups : List (Group Op δ)
  replicas : Replicas
  lastSelection : Option (List (String × String))
  lastDescriptors : List (Option ReadDescriptor)

def DescriptorCache.forPlan : Except PlanError (DescriptorCache Op δ) := do
  ensure (∀ read ∈ plan.reads, read.2.sourceBuffer < plan.sourceBuffers.length) .index
  let positions := plan.reads.zipIdx.foldl (fun ps e => push (plan.slot e.1.2) e.2 ps) []
  return ⟨positions.map fun p => ⟨p.1, plan.ofSlot p.1, p.2⟩, fun _ => none, none, []⟩

variable (workers : String → String) (bindGroup : LogicalTransferPlan Op δ → Except PlanError (List ReadDescriptor))

/-- The loop of `bind` over the selection. The replicas are what a failure leaves behind. -/
def fill : List (Group Op δ) → Replicas → (ℕ → Option ReadDescriptor) → Bool →
    Except PlanError ((ℕ → Option ReadDescriptor) × Bool) × Replicas
  | [], replicas, descriptors, reused => (.ok (descriptors, reused), replicas)
  | group :: groups, replicas, descriptors, reused =>
    let identity := (group.slot, workers group.slot)
    match (replicas identity).elim (bindGroup group.plan) .ok with
    | .error e => (.error e, replicas)
    | .ok bound =>
      let replicas' := update replicas identity (some bound)
      if group.indices.length = bound.length then
        fill groups replicas' (Writes.apply (group.indices.zip (bound.map some)) descriptors)
          (reused && (replicas identity).isSome)
      else (.error (.value "zip() arguments have different lengths"), replicas')

/-- `bind`, with the worker of every slot. -/
def DescriptorCache.bind (cache : DescriptorCache Op δ) :
    Except PlanError (List (Option ReadDescriptor) × Bool) × DescriptorCache Op δ :=
  let selection := cache.groups.map fun group => (group.slot, workers group.slot)
  if cache.lastSelection = some selection then (.ok (cache.lastDescriptors, true), cache)
  else
    match fill workers bindGroup cache.groups cache.replicas (fun _ => none) true with
    | (.error e, replicas) => (.error e, { cache with replicas })
    | (.ok (descriptors, reused), replicas) =>
      let descriptors := (range (cache.groups.map fun group => group.indices.length).sum).map descriptors
      (.ok (descriptors, reused), ⟨cache.groups, replicas, some selection, descriptors⟩)

/-- The reads of a slot with their positions. -/
def LogicalTransferPlan.positions (slot : String) : List (PlannedRead × ℕ) :=
  plan.reads.zipIdx.filter fun e => plan.slot e.1.2 = slot

def LogicalTransferPlan.group (slot : String) : Group Op δ :=
  ⟨slot, plan.ofSlot slot, (plan.positions slot).map Prod.snd⟩

def LogicalTransferPlan.slots : List String := distinct (plan.reads.zipIdx.map fun e => plan.slot e.1.2)

end

/-! ## The reads of a slot -/

theorem mapM_flatMap {ι α β γ : Type} (f : α → Except PlanError β) (g : γ → α) (segments : ι → List γ) (l : List ι) :
    (l.flatMap fun p => (segments p).map g).mapM f =
      flatten <$> l.mapM fun p => (segments p).mapM fun read => f (g read) := by
  induction l with
  | nil => rfl
  | cons p l ih => simp [mapM_append, ih, comp_def]

variable {replicas : Replicas}

section
variable {Op δ : Type} {plan : LogicalTransferPlan Op δ} {slot : String} {cache : DescriptorCache Op δ}

theorem reads_ofSlot : (plan.ofSlot slot).reads = (plan.positions slot).map Prod.fst := by
  have hfilter : (plan.ofSlot slot).reads = plan.reads.filter fun read => plan.slot read.2 = slot := by
    simp only [ofSlot, reads, filter_append, filter_flatMap, flatMap_map, filter_map]
    rfl
  rw [hfilter]
  conv_lhs => rw [← zipIdx_map_fst 0 plan.reads, filter_map]
  rfl

theorem mem_positions {e : PlannedRead × ℕ} :
    e ∈ plan.positions slot ↔ plan.reads[e.2]? = some e.1 ∧ plan.slot e.1.2 = slot := by
  rw [positions, mem_filter, mem_zipIdx_iff_getElem?, decide_eq_true_eq]

theorem slot_mem_slots {read : PlannedRead} (h : read ∈ plan.reads) : plan.slot read.2 ∈ plan.slots := by
  obtain ⟨i, hi⟩ := mem_iff_getElem?.1 h
  exact mem_distinct.2 (mem_map.2 ⟨(read, i), mem_zipIdx_iff_getElem?.2 hi, rfl⟩)

theorem sum_length_groups :
    ((plan.slots.map plan.group).map fun group => group.indices.length).sum = plan.reads.length := by
  have hperm := (perm_foldl_push (fun e => plan.slot e.1.2) Prod.snd plan.reads.zipIdx).length_eq
  rw [foldl_push, length_flatMap, map_map, length_map, length_zipIdx] at hperm
  rw [map_map]
  exact hperm

/-! ## Binding through the cache -/

-- the descriptor of a read for a selection
variable {β : (String → String) → PlannedRead → ReadDescriptor} {w : String → String}

variable (plan β) in
/-- The descriptor depends on the worker of the slot of the read only. -/
def BySlot : Prop := ∀ read w w', w (plan.slot read.2) = w' (plan.slot read.2) → β w read = β w' read

variable (plan β) in
/-- The replicas are the descriptors of the reads of their slot. -/
def Known (replicas : Replicas) : Prop :=
  ∀ slot w bound, replicas (slot, w slot) = some bound → bound = (plan.ofSlot slot).reads.map (β w)

theorem Known.update (hβ : BySlot plan β) (h : Known plan β replicas) :
    Known plan β (update replicas (slot, w slot) (some ((plan.ofSlot slot).reads.map (β w)))) := by
  intro slot' w' bound hbound
  by_cases hne : (slot', w' slot') = (slot, w slot)
  · obtain ⟨rfl, hw⟩ := Prod.ext_iff.1 hne
    rw [hne, update_self] at hbound
    cases hbound
    simp only [reads_ofSlot, map_map]
    refine map_congr_left fun e he => hβ _ _ _ ?_
    obtain ⟨-, rfl⟩ := mem_positions.1 he
    exact hw.symm
  · rw [update_of_ne hne] at hbound
    exact h slot' w' bound hbound

variable (plan) in
/-- The writes of the descriptors of a slot. -/
def slotWrites (f : PlannedRead → ReadDescriptor) (slot : String) : List (ℕ × Option ReadDescriptor) :=
  (plan.positions slot).map fun e => (e.2, some (f e.1))

variable {bindGroup : LogicalTransferPlan Op δ → Except PlanError (List ReadDescriptor)}

theorem fill_spec (hβ : BySlot plan β)
    (hgroup : ∀ slot, bindGroup (plan.ofSlot slot) = .ok ((plan.ofSlot slot).reads.map (β w))) (slots : List String)
    (hknown : Known plan β replicas) (descriptors : ℕ → Option ReadDescriptor) (reused : Bool) :
    ∃ b replicas', Known plan β replicas' ∧ fill w bindGroup (slots.map plan.group) replicas descriptors reused =
      (.ok (Writes.apply (slots.flatMap (slotWrites plan (β w))) descriptors, b), replicas') := by
  induction slots generalizing replicas descriptors reused with
  | nil => exact ⟨reused, replicas, hknown, rfl⟩
  | cons slot slots ih =>
    have hbound : (replicas (slot, w slot)).elim (bindGroup (plan.ofSlot slot)) .ok =
        .ok ((plan.ofSlot slot).reads.map (β w)) := by
      cases hr : replicas (slot, w slot) with
      | none => exact hgroup slot
      | some bound => exact congrArg Except.ok (hknown slot w bound hr)
    have hlength : ((plan.positions slot).map Prod.snd).length = ((plan.ofSlot slot).reads.map (β w)).length := by
      simp [reads_ofSlot]
    have hzip : ((plan.positions slot).map Prod.snd).zip (((plan.ofSlot slot).reads.map (β w)).map some) =
        slotWrites plan (β w) slot := by
      rw [reads_ofSlot, map_map, map_map, zip_map']
      rfl
    simp only [map_cons, fill, group, hbound, if_pos hlength, hzip, flatMap_cons, Writes.apply_append]
    exact ih (hknown.update hβ) _ _

theorem apply_slotWrites (f : PlannedRead → ReadDescriptor) :
    (range plan.reads.length).map (Writes.apply (plan.slots.flatMap (slotWrites plan f)) fun _ => none) =
      plan.reads.map (some ∘ f) := by
  refine ext_getElem (by simp) fun i hi _ => ?_
  rw [getElem_map, getElem_map, getElem_range]
  have hread := getElem?_eq_getElem (l := plan.reads) (i := i) (by simpa using hi)
  refine Writes.apply_of_mem (mem_flatMap.2 ⟨_, slot_mem_slots (mem_of_getElem? hread), mem_map.2
    ⟨(_, i), mem_positions.2 ⟨hread, rfl⟩, rfl⟩⟩) (fun d hd => ?_) _
  obtain ⟨slot, -, hd⟩ := mem_flatMap.1 hd
  obtain ⟨e, he, heq⟩ := mem_map.1 hd
  cases heq
  rw [Option.some.inj ((mem_positions.1 he).1.symm.trans hread)]
  rfl

variable (plan β) in
/-- What holds of the cache of a plan after any bindings. -/
structure Transparent (cache : DescriptorCache Op δ) : Prop where
  groups : cache.groups = plan.slots.map plan.group
  known : Known plan β cache.replicas
  last : ∀ w, cache.lastSelection = some (cache.groups.map fun group => (group.slot, w group.slot)) →
    cache.lastDescriptors = plan.reads.map (some ∘ β w)

theorem Transparent.bind (hβ : BySlot plan β)
    (hgroup : ∀ slot, bindGroup (plan.ofSlot slot) = .ok ((plan.ofSlot slot).reads.map (β w)))
    (h : Transparent plan β cache) :
    Transparent plan β (cache.bind w bindGroup).2 ∧
      ∃ b, (cache.bind w bindGroup).1 = .ok (plan.reads.map (some ∘ β w), b) := by
  obtain ⟨hgroups, hknown, hlast⟩ := h
  obtain ⟨b, _, hknown', hfill⟩ := fill_spec hβ hgroup plan.slots hknown (fun _ => none) true
  rw [hgroups] at hlast
  unfold DescriptorCache.bind
  simp only [hgroups, sum_length_groups, hfill, apply_slotWrites]
  split_ifs with hsel
  · exact ⟨⟨hgroups, hknown, hgroups ▸ hlast⟩, true, by rw [hlast w hsel]⟩
  · refine ⟨⟨rfl, hknown', fun w' h => map_congr_left fun read hread => congrArg some (hβ read w w' ?_)⟩, b, rfl⟩
    exact (Prod.ext_iff.1 (map_inj_left.1 (Option.some.inj h) _ (mem_map_of_mem (slot_mem_slots hread)))).2

end

section
variable {Op δ : Type} (resolve : String → SourceBuffer → String × ℕ) (resolveDestination : Landing → String → ℕ)
variable (workers : String → String)

/-- The descriptors of a plan for a selection, where a worker resolves a buffer always the same way. -/
def bindFor (plan : LogicalTransferPlan Op δ) : Except PlanError (List ReadDescriptor) :=
  PhysicalTransferPlan.descriptors <$>
    bindTransfer (fun buffer => resolve (workers buffer.sourceSlotId) buffer) resolveDestination plan

def bindAll (cache : DescriptorCache Op δ) (selections : List (String → String)) : DescriptorCache Op δ :=
  selections.foldl (fun cache workers => (cache.bind workers (bindFor resolve resolveDestination workers)).2) cache

variable {plan : LogicalTransferPlan Op δ} {cache : DescriptorCache Op δ}

/-- **Caching is transparent**: whatever was bound before, `bind` returns the descriptors of the whole plan
    for its selection, in their order. -/
theorem descriptor_cache_transparent (h : DescriptorCache.forPlan plan = .ok cache)
    (selections : List (String → String)) :
    ∃ bound reused, bindFor resolve resolveDestination workers plan = .ok bound ∧
      ((bindAll resolve resolveDestination cache selections).bind workers
        (bindFor resolve resolveDestination workers)).1 = .ok (bound.map some, reused) := by
  simp only [DescriptorCache.forPlan, bind_eq_ok, ensure_eq_ok, pure_eq_ok, exists_const,
    foldl_push (fun e : PlannedRead × ℕ => plan.slot e.1.2) Prod.snd, map_map] at h
  obtain ⟨hrange, rfl⟩ := h
  let β (w : String → String) (read : PlannedRead) : ReadDescriptor :=
    let source := (plan.sourceBuffers[read.2.sourceBuffer]?.map fun b => resolve (w (plan.slot read.2)) b).getD ("", 0)
    ⟨source.1, source.2 + read.2.srcByte, resolveDestination read.1 read.2.paramName + read.2.dstByte, read.2.nbytes⟩
  have hβ : BySlot plan β := fun read w w' hw => by simp only [β, hw]
  have hbind : ∀ w (part : LogicalTransferPlan Op δ), part.sourceBuffers = plan.sourceBuffers →
      (∀ read ∈ part.reads, read ∈ plan.reads) → bindFor resolve resolveDestination w part = .ok (part.reads.map (β w)) := by
    intro w part hpart hreads
    have hdescriptors : bindFor resolve resolveDestination w part = part.reads.mapM fun read =>
        bindRead (fun buffer => resolve (w buffer.sourceSlotId) buffer) resolveDestination part.sourceBuffers read.1 read.2 := by
      simp [bindFor, bindTransfer, reads, PhysicalTransferPlan.descriptors, mapM_append, mapM_flatMap, comp_def]
    refine hdescriptors.trans (mapM_ok_map fun read hread => ?_)
    have hb := getElem?_eq_getElem (hrange read (hreads read hread))
    simp only [bindRead, β, slot, hpart, hb]
    rfl
  have hslot : ∀ slot, ∀ read ∈ (plan.ofSlot slot).reads, read ∈ plan.reads := by
    intro slot read hread
    obtain ⟨e, he, rfl⟩ := mem_map.1 (reads_ofSlot ▸ hread)
    exact mem_of_getElem? (mem_positions.1 he).1
  have hstep : ∀ w {cache}, Transparent plan β cache → _ := fun w _ =>
    Transparent.bind hβ fun slot => hbind w (plan.ofSlot slot) rfl (hslot slot)
  have hrun : ∀ cache, Transparent plan β cache → Transparent plan β (bindAll resolve resolveDestination cache selections) := by
    unfold bindAll
    induction selections with
    | nil => exact fun _ h => h
    | cons w _ ih => exact fun _ h => ih _ (hstep w h).1
  have hstart : Transparent plan β ⟨plan.slots.map plan.group, fun _ => none, none, []⟩ :=
    ⟨rfl, fun _ _ _ h => (by cases h), fun _ h => (by cases h)⟩
  obtain ⟨-, reused, hreused⟩ := hstep workers (hrun _ hstart)
  exact ⟨_, reused, hbind workers plan rfl fun _ h => h, hreused.trans (by rw [map_map])⟩

end

/-- Two slots whose reads alternate. -/
def alternating : LogicalTransferPlan Unit Unit :=
  ⟨[⟨"a", "x", [0], [8]⟩, ⟨"b", "x", [8], [8]⟩], [⟨0, 0, "p", 0, 4⟩, ⟨1, 0, "p", 4, 4⟩, ⟨0, 4, "q", 0, 4⟩], [],
    [⟨"r", [4], (), [⟨1, 4, "r", 0, 4⟩]⟩], [], [], 4, 16, false⟩

/-- The slots are bound to one worker first, then each to one of its own. -/
theorem descriptor_cache_transparent_alternating : ∃ cache, DescriptorCache.forPlan alternating = .ok cache ∧
    ∃ bound reused, bindFor (fun worker _ => (worker, 64)) (fun _ _ => 0) id alternating = .ok bound ∧
      ((bindAll (fun worker _ => (worker, 64)) (fun _ _ => 0) cache [fun _ => "a"]).bind id
        (bindFor (fun worker _ => (worker, 64)) (fun _ _ => 0) id)).1 = .ok (bound.map some, reused) :=
  ⟨_, rfl, descriptor_cache_transparent _ _ _ rfl _⟩

end ModelExpress.Reshard
