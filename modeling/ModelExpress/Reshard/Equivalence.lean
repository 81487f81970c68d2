/-
  ModelExpress reshard receiver — the result does not depend on the plan.
-/
import ModelExpress.Reshard.Delivery
import ModelExpress.Reshard.SourceTable

namespace ModelExpress.Reshard

open Checks Strided Writes List

section
variable {Op δ : Type}

/-- No two destination elements are at one place. -/
def DisjointDestinations (copies : List (RecordedCopy Op δ)) : Prop :=
  ∀ c ∈ copies, ∀ c' ∈ copies, ∀ j ∈ indices c.destShape, ∀ j' ∈ indices c'.destShape,
    c.paramName = c'.paramName → c.destOffset + dot j c.destStride = c'.destOffset + dot j' c'.destStride →
      c = c' ∧ j = j'

section
variable [DecidableEq δ] (replay : Replay Op) (sources : Sources δ)
variable (sourceIndices : String → Option (List ℕ))

/-- The reads of exactly the slice of a copy, into its parameter. -/
def exactCopyReads (copy : RecordedCopy Op δ) : Except PlanError (List LogicalRead) := do
  let src ← found (sources.lookup copy.srcName) (.key copy.srcName)
  let bufferIndices ← found (sourceIndices copy.srcName) (.key copy.srcName)
  planPull replay copy src.globalShape src.dtype src.elsize src.shards bufferIndices

def exactReads (capture : CaptureResult Op δ) : Except PlanError (List LogicalRead) := do
  let reads ← capture.copies.mapM (exactCopyReads replay sources sourceIndices)
  return reads.flatten

end

end

variable {segments reads : List LogicalRead}

section
variable {Op δ β : Type} {torch : Torch Op δ β} {sources : Sources δ}
variable {buffers : ℕ → ℕ → β} {full : String → ℕ → β} {layout : Layout δ} {capture : CaptureResult Op δ}
  {c : RecordedCopy Op δ}

theorem place_unique (hrec : ∀ c ∈ capture.copies, Recorded layout c)
    (hdisj : DisjointDestinations capture.copies) {c' : RecordedCopy Op δ} (hc : c ∈ capture.copies)
    (hc' : c' ∈ capture.copies) {j j' : List ℕ} (hj : j ∈ indices c.destShape) (hj' : j' ∈ indices c'.destShape)
    {itemsize : δ → ℕ} {b b' : ℕ} (hb : b < itemsize c.destDtype) (hb' : b' < itemsize c'.destDtype)
    (h : (c.paramName, (c.destOffset + dot j c.destStride) * itemsize c.destDtype + b) =
      (c'.paramName, (c'.destOffset + dot j' c'.destStride) * itemsize c'.destDtype + b')) :
    c = c' ∧ j = j' ∧ b = b' := by
  obtain ⟨hname, haddr⟩ := Prod.mk.inj h
  -- both have the dtype of the parameter
  obtain ⟨_, hshape, -⟩ := hrec c hc
  obtain ⟨_, hshape', -⟩ := hrec c' hc'
  have hdtype : c.destDtype = c'.destDtype := by
    rw [hname, hshape'] at hshape
    exact (Prod.mk.inj (Option.some.inj hshape)).2.symm
  rw [← hdtype] at haddr hb'
  obtain ⟨hplace, rfl⟩ := mul_add_inj hb hb' haddr
  obtain ⟨rfl, rfl⟩ := hdisj c hc c' hc' j hj j' hj' hname hplace
  exact ⟨rfl, rfl, rfl⟩

theorem delivers_functional (hrec : ∀ c ∈ capture.copies, Recorded layout c)
    (hdisj : DisjointDestinations capture.copies) (a : String × ℕ) (y y' : β)
    (h : ∃ c ∈ capture.copies, Delivers torch sources full c (a, y))
    (h' : ∃ c ∈ capture.copies, Delivers torch sources full c (a, y')) : y = y' := by
  obtain ⟨c, hc, src, v, hsrc, hv, j, hj, b, hb, heq⟩ := h
  obtain ⟨c', hc', src', v', hsrc', hv', j', hj', b', hb', heq'⟩ := h'
  obtain ⟨rfl, rfl⟩ := Prod.mk.inj heq
  obtain ⟨haddr, rfl⟩ := Prod.mk.inj heq'
  obtain ⟨rfl, rfl, rfl⟩ := place_unique hrec hdisj hc hc' hj hj' hb hb' haddr
  cases hsrc.symm.trans hsrc'
  cases hv.symm.trans hv'
  rfl

variable [DecidableEq δ] {sourceIndices : String → Option (List ℕ)} {replay : Replay Op}

theorem exactCopyReads_eq_ok : exactCopyReads replay sources sourceIndices c = .ok segments ↔
      planCopy replay sources sourceIndices c = .ok (.exact segments) := by
  simp only [exactCopyReads, bind_eq_ok, found_eq_ok, planCopy_exact, PullOf]
  constructor
  · rintro ⟨src, hsrc, bufferIndices, hidx, hpull⟩
    exact ⟨src, bufferIndices, hsrc, hidx, (planPull_ok hpull).1, hpull⟩
  · rintro ⟨src, bufferIndices, hsrc, hidx, -, hpull⟩
    exact ⟨src, hsrc, bufferIndices, hidx, hpull⟩

theorem exactReads_ok (h : exactReads replay sources sourceIndices capture = .ok reads) :
    (∀ c ∈ capture.copies, ∃ segments, planCopy replay sources sourceIndices c = .ok (.exact segments)) ∧
      ∀ r, r ∈ reads ↔ ∃ c ∈ capture.copies, ∃ segments,
        planCopy replay sources sourceIndices c = .ok (.exact segments) ∧ r ∈ segments := by
  simp only [exactReads, bind_eq_ok, pure_eq_ok] at h
  obtain ⟨_, hparts, rfl⟩ := h
  constructor
  · intro c hc
    obtain ⟨segments, -, hsegments⟩ := exists_mem_of_mapM hparts hc
    exact ⟨segments, exactCopyReads_eq_ok.1 hsegments⟩
  · intro r
    simp only [mem_flatten, mem_of_mapM hparts, exactCopyReads_eq_ok]
    constructor
    · rintro ⟨segments, ⟨c, hc, hex⟩, hr⟩
      exact ⟨c, hc, segments, hex, hr⟩
    · rintro ⟨c, hc, segments, hex, hr⟩
      exact ⟨segments, ⟨c, hc, hex⟩, hr⟩

theorem indicesIn_sourceTable {sourceSlots : Option (String → Option String)}
    {table : SourceTable} (htable : sourceTable sources sourceSlots capture = .ok table)
    (hpart : ∀ q src, sources.lookup q = some src → Partitioned src)

    (h : planCopy replay sources (table.indices.lookup ·) c = .ok (.exact segments)) :
    indicesIn table.buffers c.srcName = table.indices.lookup c.srcName := by
  obtain ⟨src, _, hsrc, hidx, -, hpull⟩ := planCopy_exact.1 h
  obtain ⟨-, v, box, perm, hp⟩ := planPull_ok hpull
  have hpos := sourceTable_positions htable c.srcName
  rw [hidx, Option.getD_some] at hpos
  -- the source has an element, so it has a shard
  obtain ⟨i, hi⟩ := exists_mem_of_ne_nil _ (mt indices_eq_nil.1 (viewToBoxPerm_ok hp.boxPerm).2)
  obtain ⟨sh, hsh, -⟩ := (hpart _ _ hsrc).covers i hi
  have hlen := length_pos_of_mem hsh
  rw [← hp.length] at hlen
  rw [hidx, ← hpos]
  rw [← hpos] at hlen
  exact if_neg fun hempty => ne_nil_of_length_pos hlen (isEmpty_iff.1 hempty)

section
variable {sourceIndices : String → Option (List ℕ)}
variable (hitem : ∀ q src, sources.lookup q = some src → src.elsize = torch.itemsize src.dtype)
variable (hpart : ∀ q src, sources.lookup q = some src → Partitioned src)
include hitem hpart

theorem exactReads_makes (hfull : ∀ q, Holding sources sourceIndices buffers (full q) q)
    (h : exactReads torch.replay sources sourceIndices capture = .ok reads) :
    Makes (fun w => ∃ c ∈ capture.copies, Delivers torch sources full c w)
      fun recv => (.ok (executeReads buffers reads recv) : Except PlanError (Memory β)) := by
  obtain ⟨hexact, hmem⟩ := exactReads_ok h
  refine makes_apply fun w => ?_
  simp only [readWrites, mem_flatMap, hmem]
  constructor
  · rintro ⟨r, ⟨c, hc, segments, hex, hr⟩, hw⟩
    exact ⟨c, hc, (exact_writes hitem hpart hex (hfull _) w).1 (mem_flatMap.2 ⟨r, hr, hw⟩)⟩
  · rintro ⟨c, hc, hw⟩
    obtain ⟨segments, hex⟩ := hexact c hc
    obtain ⟨r, hr, hw⟩ := mem_flatMap.1 ((exact_writes hitem hpart hex (hfull _) w).2 hw)
    exact ⟨r, ⟨c, hc, segments, hex, hr⟩, hw⟩

theorem stageAll_makes (hnil : ∀ g, torch.replay [] g = .ok (.view (contiguousView g)))
    (hready : ∀ c ∈ capture.copies, Ready torch sources sourceIndices buffers full layout c)
    {complete : LogicalTransferPlan Op δ}
    (hindices : ∀ c ∈ capture.copies, indicesIn complete.sourceBuffers c.srcName = sourceIndices c.srcName)
    {captures : List (CaptureResult Op δ)} {groupSegments : ℕ} {plans : List (LogicalTransferPlan Op δ)}
    (hsplit : ∀ c, c ∈ capture.copies ↔ ∃ g ∈ captures, c ∈ g.copies)
    (hplans : planTransferGroups torch.replay sources groupSegments captures complete = .ok plans)
    {runs : List (Execution Op δ β)}
    (hruns : (runs.map fun r => (r.capture, r.plan)).Perm (captures.zip plans)) :
    Makes (fun w => ∃ c ∈ capture.copies, Delivers torch sources full c w) (stageAll torch layout buffers runs) := by
  have hall := mapM_eq_ok.1 hplans
  -- the group and the plan of a run
  have hrun : ∀ run ∈ runs, run.capture ∈ captures ∧ PlanOf torch.replay sources
      (indicesIn complete.sourceBuffers) complete.verifyFullSources run.capture run.plan := by
    intro run hr
    have hzip : (run.capture, run.plan) ∈ captures.zip plans :=
      hruns.mem_iff.1 (mem_map.2 ⟨run, hr, rfl⟩)
    exact ⟨(of_mem_zip hzip).1, planWith_ok ((forall₂_iff_zip.1 hall).2 hzip)⟩
  have hready' : ∀ g ∈ captures, ∀ c ∈ g.copies,
      Ready torch sources (indicesIn complete.sourceBuffers) buffers full layout c := by
    intro g hg c hc
    have hcc := (hsplit c).2 ⟨g, hg, hc⟩
    have hr := hready c hcc
    have hidx := hindices c hcc
    obtain ⟨segments, hex⟩ := hr.exact
    refine ⟨⟨segments, by rw [planCopy_congr rfl hidx, hex]⟩, hr.view, hr.recorded, fun src bufferIndices hsrc h => ?_⟩
    exact hr.holds src bufferIndices hsrc (hidx ▸ h)
  have hmake := makes_foldlM (l := runs) (f := fun recv run => run.stage torch layout buffers recv)
    (P := fun run w => ∃ c ∈ run.capture.copies, Delivers torch sources full c w) fun run hr =>
      stage_makes hitem hpart hnil (hrun run hr).2 (hready' _ (hrun run hr).1) rfl
  refine hmake.of_iff fun w => ?_
  constructor
  · rintro ⟨run, hr, c, hc, hw⟩
    exact ⟨c, (hsplit c).2 ⟨_, (hrun run hr).1, hc⟩, hw⟩
  · rintro ⟨c, hc, hw⟩
    obtain ⟨g, hg, hcg⟩ := (hsplit c).1 hc
    -- every group is run
    obtain ⟨p, hp⟩ : ∃ p, (g, p) ∈ captures.zip plans := by
      obtain ⟨k, hk⟩ := mem_iff_getElem?.1 hg
      have hlt : k < plans.length := hall.length_eq ▸ (List.getElem?_eq_some_iff.1 hk).1
      exact ⟨plans[k], mem_iff_getElem?.2
        ⟨k, getElem?_zip_eq_some.2 ⟨hk, getElem?_eq_getElem hlt⟩⟩⟩
    obtain ⟨run, hr, heq⟩ := mem_map.1 (hruns.mem_iff.2 hp)
    obtain ⟨rfl, -⟩ := Prod.mk.inj heq
    exact ⟨run, hr, c, hcg, hw⟩

end

end

/-- **The result does not depend on the plan.** Executing the plan of `plan_transfer`, its reads in any
    order, leaves the receive buffers as the exact reads of all copies do; so do the plans of any groups of
    the copies, executed in any order. -/
theorem stage_eq_exactReads {Op δ β : Type} [DecidableEq δ] {torch : Torch Op δ β} {sources : Sources δ}
    (buffers : ℕ → ℕ → β) {layout : Layout δ} {capture : CaptureResult Op δ}
    {sourceSlots : Option (String → Option String)} {verify : Bool} {maxSegmentsPerCopy : ℕ}
    {table : SourceTable} {plan : LogicalTransferPlan Op δ} {reads : List LogicalRead}
    (hnil : ∀ g, torch.replay [] g = .ok (.view (contiguousView g)))
    (hitem : ∀ q src, sources.lookup q = some src → src.elsize = torch.itemsize src.dtype)
    (hpart : ∀ q src, sources.lookup q = some src → Partitioned src)
    (hviews : ∀ c ∈ capture.copies, ViewChain torch c.opChain)
    (hrec : ∀ c ∈ capture.copies, Recorded layout c) (hdisj : DisjointDestinations capture.copies)
    (htable : sourceTable sources sourceSlots capture = .ok table)
    (hreads : exactReads torch.replay sources (table.indices.lookup ·) capture = .ok reads)
    (hplan : planTransfer torch.replay sources maxSegmentsPerCopy sourceSlots verify capture = .ok plan) :
    (∀ run : Execution Op δ β, run.capture = capture → run.plan = plan → ∀ recv,
      run.stage torch layout buffers recv = .ok (executeReads buffers reads recv)) ∧
    ∀ (captures : List (CaptureResult Op δ)) (groupSegments : ℕ) (plans : List (LogicalTransferPlan Op δ)),
      (∀ c, c ∈ capture.copies ↔ ∃ g ∈ captures, c ∈ g.copies) →
      planTransferGroups torch.replay sources groupSegments captures plan = .ok plans →
      ∀ runs : List (Execution Op δ β), (runs.map fun r => (r.capture, r.plan)).Perm (captures.zip plans) →
        ∀ recv, stageAll torch layout buffers runs recv = .ok (executeReads buffers reads recv) := by
  simp only [planTransfer, htable, bind_eq_ok, Except.ok.injEq, exists_eq_left'] at hplan
  obtain ⟨hexact, -⟩ := exactReads_ok hreads
  obtain ⟨full, hfull⟩ := exists_holding hpart (table.indices.lookup ·) buffers
  have hready : ∀ c ∈ capture.copies, Ready torch sources (table.indices.lookup ·) buffers full layout c :=
    fun c hc => ⟨hexact c hc, hviews c hc, hrec c hc, hfull _⟩
  have hmake := exactReads_makes hitem hpart hfull hreads
  constructor
  · intro run _ hrun recv
    exact (stage_makes hitem hpart hnil (planWith_ok hplan) hready hrun).eq hmake
      (delivers_functional hrec hdisj) recv
  · intro _ _ _ hsplit hplans runs hruns recv
    have hindices : ∀ c ∈ capture.copies,
        indicesIn plan.sourceBuffers c.srcName = table.indices.lookup c.srcName := by
      intro c hc
      obtain ⟨_, hex⟩ := hexact c hc
      rw [planWith_sourceBuffers hplan, indicesIn_sourceTable htable hpart hex]
    exact (stageAll_makes hitem hpart hnil hready hindices hsplit hplans hruns).eq hmake
      (delivers_functional hrec hdisj) recv

section

def halvesSource : SourceInfo Unit where
  globalShape := [2, 2]
  dtype := ()
  elsize := 1
  shards := [⟨[0, 0], [1, 2], "a", 1⟩, ⟨[1, 0], [1, 2], "b", 1⟩]

def halvesSources : Sources Unit := AList.singleton "w" halvesSource

theorem square_rank : ([2, 1] : List ℕ).length = ([2, 2] : List ℕ).length := rfl

def turnedCopy : RecordedCopy Op Unit := ⟨"w", [.t], "p", 0, [2, 2], [2, 1], (), square_rank⟩

def plainCopy : RecordedCopy Op Unit := ⟨"w", [], "q", 0, [2, 2], [2, 1], (), square_rank⟩

def halvesCapture : CaptureResult Op Unit := ⟨[turnedCopy, plainCopy], [], 0⟩

def halvesTable : SourceTable := ⟨[⟨"a", "w", [0, 0], [1, 2]⟩, ⟨"b", "w", [1, 0], [1, 2]⟩], [("w", [0, 1])]⟩

def halvesPlan : LogicalTransferPlan Op Unit where
  sourceBuffers := halvesTable.buffers
  segments := []
  fallback := []
  converts := []
  fullPulls := [⟨"w", [2, 2], (), 1, [⟨0, 0, "w", 0, 2⟩, ⟨1, 0, "w", 2, 2⟩], [turnedCopy, plainCopy]⟩]
  unboundedSources := []
  exactDescriptorCount := 6
  exactBytes := 8
  verifyFullSources := false

def halvesReads : List LogicalRead :=
  [⟨0, 0, "p", 0, 1⟩, ⟨0, 1, "p", 2, 1⟩, ⟨1, 0, "p", 1, 1⟩, ⟨1, 1, "p", 3, 1⟩, ⟨0, 0, "q", 0, 2⟩, ⟨1, 0, "q", 2, 2⟩]

def turnedPlan : LogicalTransferPlan Op Unit :=
  { halvesPlan with
    fullPulls := [⟨"w", [2, 2], (), 1, [⟨0, 0, "w", 0, 2⟩, ⟨1, 0, "w", 2, 2⟩], [turnedCopy]⟩]
    exactDescriptorCount := 4
    exactBytes := 4 }

def plainPlan : LogicalTransferPlan Op Unit :=
  { halvesPlan with
    segments := [⟨0, 0, "q", 0, 2⟩, ⟨1, 0, "q", 2, 2⟩]
    fullPulls := []
    exactDescriptorCount := 2
    exactBytes := 4 }

def halvesBuffers (k i : ℕ) : ℕ := 2 * k + i + 1

def halvesLayout : Layout Unit := fun name => if name = "p" ∨ name = "q" then some ([2, 2], ()) else none

def inOrder (capture : CaptureResult Op Unit) (plan : LogicalTransferPlan Op Unit) : Execution Op Unit ℕ where
  capture := capture
  plan := plan
  recvReads := plan.segments
  fullReads := plan.fullPulls.flatMap (·.segments)
  convertReads := plan.converts.flatMap (·.segments)
  full := fun _ => 0
  convert := fun _ => 0
  recv_perm := .refl _
  full_perm := .refl _
  convert_perm := .refl _

def byteTorch : Torch Op Unit ℕ := viewTorch (fun _ => 1) fun _ _ x => x

theorem halves_partitioned (q : String) (src : SourceInfo Unit) (h : halvesSources.lookup q = some src) :
    Partitioned src := by
  obtain ⟨-, rfl⟩ := Assoc.lookup_singleton.1 h
  refine ⟨by decide, by decide, fun i hi k k' sh sh' hk hk' => ?_⟩
  rcases k with _ | _ | k <;> rcases k' with _ | _ | k' <;> cases hk <;> cases hk'
  · exact fun _ _ => rfl
  · revert i
    decide
  · revert i
    decide
  · exact fun _ _ => rfl

theorem stage_halves :
    planTransfer replayOps halvesSources 1 none false halvesCapture = .ok halvesPlan ∧
      (inOrder halvesCapture halvesPlan).stage byteTorch halvesLayout halvesBuffers (fun _ => 0) =
        .ok (executeReads halvesBuffers halvesReads fun _ => 0) ∧
      stageAll byteTorch halvesLayout halvesBuffers
          [inOrder ⟨[plainCopy], [], 0⟩ plainPlan, inOrder ⟨[turnedCopy], [], 0⟩ turnedPlan] (fun _ => 0) =
        .ok (executeReads halvesBuffers halvesReads fun _ => 0) := by
  have hplan : planTransfer byteTorch.replay halvesSources 1 none false halvesCapture = .ok halvesPlan := rfl
  have htable : sourceTable halvesSources none halvesCapture = .ok halvesTable := rfl
  have hreads : exactReads byteTorch.replay halvesSources (halvesTable.indices.lookup ·) halvesCapture =
      .ok halvesReads := rfl
  have hgroups : planTransferGroups byteTorch.replay halvesSources 2 [⟨[turnedCopy], [], 0⟩, ⟨[plainCopy], [], 0⟩]
      halvesPlan = .ok [turnedPlan, plainPlan] := rfl
  have hitem : ∀ q src, halvesSources.lookup q = some src → src.elsize = byteTorch.itemsize src.dtype := by
    intro q src hsrc
    rw [← (Assoc.lookup_singleton.1 hsrc).2]
    rfl
  have hviews : ∀ c ∈ halvesCapture.copies, ViewChain byteTorch c.opChain := by
    intro c hc
    refine viewChain_ops ?_
    revert c
    simp [halvesCapture, turnedCopy, plainCopy]
  have hrec : ∀ c ∈ halvesCapture.copies, Recorded halvesLayout c := by
    simp only [halvesCapture, forall_mem_cons, not_mem_nil, false_imp_iff, implies_true, and_true]
    exact ⟨⟨[2, 2], rfl, by decide⟩, [2, 2], rfl, by decide⟩
  have hdisj : DisjointDestinations halvesCapture.copies := by
    intro c hc c' hc' j hj j' hj' hname haddr
    have hinj : ∀ j ∈ indices [2, 2], ∀ j' ∈ indices [2, 2], 0 + dot j [2, 1] = 0 + dot j' [2, 1] → j = j' := by
      decide
    simp only [halvesCapture, mem_cons, not_mem_nil, or_false] at hc hc'
    rcases hc with rfl | rfl <;> rcases hc' with rfl | rfl
    · exact ⟨rfl, hinj j hj j' hj' haddr⟩
    · simp [turnedCopy, plainCopy] at hname
    · simp [turnedCopy, plainCopy] at hname
    · exact ⟨rfl, hinj j hj j' hj' haddr⟩
  obtain ⟨hwhole, hsplit⟩ := stage_eq_exactReads halvesBuffers (fun _ => rfl) hitem
    halves_partitioned hviews hrec hdisj htable hreads hplan
  refine ⟨hplan, hwhole _ rfl rfl _, hsplit _ 2 _ (fun c => ?_) hgroups _ ?_ _⟩
  · simp [halvesCapture]
  · exact List.Perm.swap ..

end

end ModelExpress.Reshard
