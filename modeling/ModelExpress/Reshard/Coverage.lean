/-
  ModelExpress reshard planner — what a complete plan writes.
-/
import ModelExpress.Reshard.FullPull
import ModelExpress.Reshard.Plans
import ModelExpress.Reshard.Staging

namespace ModelExpress.Reshard

open Checks Strided

/-! ## Bytes that are written -/

section
variable {Op δ : Type}

/-- The byte `x` of the parameter belongs to a destination element of the copy, for elements of
    `e` bytes. -/
def RecordedCopy.HasByte (c : RecordedCopy Op δ) (e x : ℕ) : Prop :=
  ∃ j ∈ indices c.destShape, ∃ b < e, x = (c.destOffset + dot j c.destStride) * e + b

def FullPullSource.Filled (f : FullPullSource Op δ) : Prop :=
  ∀ x < f.globalShape.prod * f.elsize, ∃ r ∈ f.segments, r.Covers x

def ConvertSource.Filled (v : ConvertSource δ) (itemsize : δ → ℕ) : Prop :=
  ∀ x < v.destShape.prod * itemsize v.srcDtype, ∃ r ∈ v.segments, r.Covers x

variable (itemsize : δ → ℕ) (capture : CaptureResult Op δ) (plan : LogicalTransferPlan Op δ) (p : String) (x : ℕ) in
/-- The plan writes the byte `x` of the parameter `p`: by a read; by the replay of a copy from a
    full pull that the reads fill; or by the cast of conversion buffers that the reads fill. -/
inductive Written : Prop
  | read {r : LogicalRead} : r ∈ plan.segments → r.paramName = p → r.Covers x → Written
  | replay {f : FullPullSource Op δ} {c : RecordedCopy Op δ} : f ∈ plan.fullPulls → f.Filled → c ∈ f.copies →
      c.paramName = p → c.HasByte (itemsize c.destDtype) x → Written
  | cast {c : RecordedCopy Op δ} : conversionCopy capture p = some c → c.HasByte (itemsize c.destDtype) x →
      (∃ v ∈ plan.converts, v.paramName = p) →
      (∀ v ∈ plan.converts, v.paramName = p → v.Filled itemsize) → Written

/-! ## Bytes that are supplied -/

/-- The source element that the copy needs at `j` lies in a published shard. -/
def Published (replay : Replay Op) (src : SourceInfo δ) (c : RecordedCopy Op δ) (j : List ℕ) : Prop :=
  ∃ v i, replay c.opChain src.globalShape = .ok (.view v) ∧ i ∈ indices src.globalShape ∧
    dot i (rowMajor src.globalShape) = v.offset + dot j v.stride ∧ ∃ sh ∈ src.shards, InBox i sh.box

def WhollyPublished (src : SourceInfo δ) : Prop :=
  ∀ i ∈ indices src.globalShape, ∃ sh ∈ src.shards, InBox i sh.box

def Converts (sources : Sources δ) (verify : Bool) (capture : CaptureResult Op δ) (c : RecordedCopy Op δ)
    (src : SourceInfo δ) : Prop :=
  c ∈ capture.copies ∧ sources.lookup c.srcName = some src ∧ ¬ Staged sources verify capture c.srcName ∧
    src.dtype ≠ c.destDtype

variable (replay : Replay Op) (itemsize : δ → ℕ) (sources : Sources δ) (verify : Bool) (capture : CaptureResult Op δ)
  (p : String) (x : ℕ) in
/-- What was recorded and published supplies the byte `x` of the parameter `p`: a copy needs a
    published element there; or a copy goes there whose source is staged as a whole and wholly
    published; or the copy that conversions of `p` are cast to goes there, and all elements the
    converted copies of `p` need are published. -/
inductive Supplied : Prop
  | element {c : RecordedCopy Op δ} {src : SourceInfo δ} {j : List ℕ} {b : ℕ} : c ∈ capture.copies →
      c.paramName = p → sources.lookup c.srcName = some src → ¬ Staged sources verify capture c.srcName →
      src.dtype = c.destDtype → j ∈ indices c.destShape → b < itemsize c.destDtype →
      x = (c.destOffset + dot j c.destStride) * itemsize c.destDtype + b → Published replay src c j →
      Supplied
  | staged {c : RecordedCopy Op δ} {src : SourceInfo δ} : c ∈ capture.copies → c.paramName = p →
      sources.lookup c.srcName = some src → Staged sources verify capture c.srcName →
      WhollyPublished src → c.HasByte (itemsize c.destDtype) x → Supplied
  | cast {c : RecordedCopy Op δ} : conversionCopy capture p = some c → c.HasByte (itemsize c.destDtype) x →
      (∃ c src, Converts sources verify capture c src ∧ c.paramName = p) →
      (∀ c src, Converts sources verify capture c src → c.paramName = p →
        ∀ j ∈ indices c.destShape, Published replay src c j) → Supplied

end

/-! ## Both agree -/

section
variable {Op δ : Type} [DecidableEq δ] {replay : Replay Op} {sources : Sources δ} {itemsize : δ → ℕ}
variable {sourceIndices : String → Option (List ℕ)} {verify : Bool} {capture : CaptureResult Op δ}
variable {plan : LogicalTransferPlan Op δ}

variable (hitem : ∀ q src, sources.lookup q = some src → src.elsize = itemsize src.dtype)

variable {src : SourceInfo δ} {c : RecordedCopy Op δ} {bufferIndices : List ℕ} {f : FullPullSource Op δ}
  {v : ConvertSource δ}

omit [DecidableEq δ] in
theorem Pull.published_iff {d : RecordedCopy Op δ} {reads : List LogicalRead} {v : View} {box : Box} {perm : List ℕ}
    (h : Pull replay d src.globalShape src.elsize src.shards bufferIndices reads v box perm)
    (hchain : d.opChain = c.opChain) {j : List ℕ} (hj : j ∈ indices v.shape) :
    Published replay src c j ↔ ∃ sh ∈ src.shards, InBox (sourceIndex box perm j) sh.box := by
  constructor
  · rintro ⟨v', i, hv, hi, haddr, hin⟩
    obtain rfl : v = v' := by simpa [← hchain, h.view] using hv
    obtain rfl : sourceIndex box perm j = i :=
      dot_rowMajor_inj (h.boxOf.mem_indices hj) hi (by rw [h.boxOf.address hj, haddr])
    exact hin
  · intro hin
    exact ⟨v, _, by rw [← hchain, h.view], h.boxOf.mem_indices hj, h.boxOf.address hj, hin⟩

include hitem

theorem exact_covers_iff {segments : List LogicalRead} (hsrc : sources.lookup c.srcName = some src)
    (h : planCopy replay sources sourceIndices c = .ok (.exact segments)) (x : ℕ) :
    (∃ r ∈ segments, r.Covers x) ↔ ∃ j ∈ indices c.destShape, Published replay src c j ∧
      ∃ b < itemsize c.destDtype, x = (c.destOffset + dot j c.destStride) * itemsize c.destDtype + b := by
  obtain ⟨src', _, hsrc', -, hdtype, hpull⟩ := planCopy_exact.1 h
  cases hsrc.symm.trans hsrc'
  obtain ⟨-, v, box, perm, hp⟩ := planPull_ok hpull
  rw [hp.covers_iff, hp.shape, ← hdtype, ← hitem _ _ hsrc]
  refine exists_congr fun j => and_congr_right fun hj => ?_
  rw [hp.published_iff rfl hj]

theorem convert_filled_iff (hpos : ∀ d, 0 < itemsize d)
    (hsrc : sources.lookup c.srcName = some src) (h : planCopy replay sources sourceIndices c = .ok (.convert v)) :
    v.Filled itemsize ↔ ∀ j ∈ indices c.destShape, Published replay src c j := by
  obtain ⟨src', _, _, hsrc', -, -, hpull, rfl⟩ := planCopy_convert.1 h
  cases hsrc.symm.trans hsrc'
  obtain ⟨-, v, box, perm, hp⟩ := planPull_ok hpull
  have hfilled := hp.filled_iff rfl (rowMajorStrides_eq _) (hitem _ _ hsrc ▸ hpos _)
  rw [hitem _ _ hsrc] at hfilled
  refine hfilled.trans (forall₂_congr fun j hj => ?_)
  rw [hp.published_iff (c := c) rfl (hp.shape ▸ hj)]

omit hitem in
theorem FullPullOf.of_rows (h : FullPullOf replay sources sourceIndices verify capture f src bufferIndices)
    (hst : ¬ Staged sources verify capture f.srcName) :
    f.Filled ∧ WhollyPublished src ∧
      ∀ c ∈ f.copies, ∃ segments, planCopy replay sources sourceIndices c = .ok (.exact segments) := by
  rcases h.segments with ⟨-, hsegments, hexact⟩ | ⟨hst', -⟩
  · obtain ⟨n, ns, hrows⟩ := fullPullSegments_ok hsegments
    refine ⟨fun x hx => ?_, fun i hi => hrows.covered hi, hexact⟩
    rw [h.shape, h.elsize] at hx
    exact hrows.filled hx
  · exact absurd hst' hst

theorem FullPullOf.filled_iff (h : FullPullOf replay sources sourceIndices verify capture f src bufferIndices)
    (hnil : ∀ g, replay [] g = .ok (.view (contiguousView g))) (hpos : ∀ d, 0 < itemsize d)
    (hst : Staged sources verify capture f.srcName) : f.Filled ↔ WhollyPublished src := by
  rcases h.segments with ⟨hst', -⟩ | ⟨-, hpull⟩
  · exact absurd hst hst'
  · obtain ⟨-, v, box, perm, hp⟩ := planPull_ok hpull
    rw [FullPullSource.Filled, h.shape, h.elsize]
    obtain rfl := hp.view_identity (hnil _)
    refine (hp.filled_iff rfl (rowMajorStrides_eq _) (hitem _ _ h.lookup ▸ hpos _)).trans (forall₂_congr fun i hi => ?_)
    rw [hp.boxOf.sourceIndex_contiguous hi]

section
variable (hplan : PlanOf replay sources sourceIndices verify capture plan)
include hplan

omit hitem in
theorem PlanOf.converts_of_mem (hv : v ∈ plan.converts) : ∃ c src, Converts sources verify capture c src ∧
      planCopy replay sources sourceIndices c = .ok (.convert v) ∧ v.paramName = c.paramName := by
  obtain ⟨c, hc, hcv, hnot⟩ := (hplan.mem_converts v).1 hv
  obtain ⟨src, _, _, hsrc, -, hdtype, -, rfl⟩ := planCopy_convert.1 hcv
  exact ⟨c, src, ⟨hc, hsrc, fun hst => hnot (hplan.staged c hc hst), hdtype⟩, hcv, rfl⟩

omit hitem in
theorem PlanOf.mem_of_converts (hfallback : plan.fallback = []) (h : Converts sources verify capture c src) :
    ∃ v ∈ plan.converts, planCopy replay sources sourceIndices c = .ok (.convert v) ∧
      v.paramName = c.paramName := by
  obtain ⟨hc, hsrc, hst, hdtype⟩ := h
  have hnot : ∀ segments, planCopy replay sources sourceIndices c ≠ .ok (.exact segments) := by
    intro segments hex
    obtain ⟨src', -, hsrc', -, heq, -⟩ := planCopy_exact.1 hex
    cases hsrc.symm.trans hsrc'
    exact hdtype heq
  have hnotPulled : ¬ Pulled plan c := by
    rintro ⟨f, hf, hcf⟩
    obtain ⟨src', _, hfull⟩ := hplan.fullPulls f hf
    obtain ⟨segments, hex⟩ := (hfull.of_rows ((hfull.copies c hcf).2 ▸ hst)).2.2 c hcf
    exact hnot segments hex
  rcases hplan.planned hfallback c hc with hp | ⟨segments, hex⟩ | ⟨v, hv⟩
  · exact absurd hp hnotPulled
  · exact absurd hex (hnot segments)
  · refine ⟨v, (hplan.mem_converts v).2 ⟨c, hc, hv, hnotPulled⟩, hv, ?_⟩
    obtain ⟨_, _, _, -, -, -, -, rfl⟩ := planCopy_convert.1 hv
    rfl

variable (hfallback : plan.fallback = []) (hnil : ∀ g, replay [] g = .ok (.view (contiguousView g)))
variable (hpos : ∀ d, 0 < itemsize d) {p : String} {x : ℕ}
include hfallback hnil hpos

theorem PlanOf.supplied_of_written (h : Written itemsize capture plan p x) :
    Supplied replay itemsize sources verify capture p x := by
  cases h with
  | @read r hr hp hx =>
    obtain ⟨c, hc, segments, hex, hnot, hrc⟩ := (hplan.mem_segments r).1 hr
    obtain ⟨src, bufferIndices, hsrc, -, hdtype, hpull⟩ := planCopy_exact.1 hex
    obtain ⟨j, hj, hpub, b, hb, rfl⟩ := (exact_covers_iff hitem hsrc hex x).1 ⟨r, hrc, hx⟩
    obtain ⟨-, _, _, _, hp'⟩ := planPull_ok hpull
    exact .element hc ((hp'.paramName_of_mem hrc).symm.trans hp) hsrc
      (fun hst => hnot (hplan.staged c hc hst)) hdtype hj hb rfl hpub
  | @replay f c hf hfilled hcf hp hx =>
    obtain ⟨src, _, hfull⟩ := hplan.fullPulls f hf
    obtain ⟨hc, hname⟩ := hfull.copies c hcf
    by_cases hst : Staged sources verify capture f.srcName
    · exact .staged hc hp (hname ▸ hfull.lookup) (hname ▸ hst)
        ((hfull.filled_iff hitem hnil hpos hst).1 hfilled) hx
    · -- pulled by rows: the copy is exact, and all elements are published
      obtain ⟨-, hpub, hexact⟩ := hfull.of_rows hst
      obtain ⟨_, hex⟩ := hexact c hcf
      obtain ⟨src', _, hsrc', -, hdtype, hpull⟩ := planCopy_exact.1 hex
      obtain ⟨-, v, box, perm, hp'⟩ := planPull_ok hpull
      obtain ⟨j, hj, b, hb, rfl⟩ := hx
      obtain rfl : src = src' := by
        rw [hname, hfull.lookup] at hsrc'
        exact Option.some.inj hsrc'
      have hjv : j ∈ indices v.shape := hp'.shape ▸ hj
      exact .element hc hp hsrc' (hname ▸ hst) hdtype hj hb rfl
        ((hp'.published_iff rfl hjv).2 (hpub _ (hp'.boxOf.mem_indices hjv)))
  | @cast c hc hx hv hall =>
    refine .cast hc hx ?_ fun c' src hc' hp => ?_
    · obtain ⟨v, hv, hp⟩ := hv
      obtain ⟨c', src, hc', -, hname⟩ := hplan.converts_of_mem hv
      exact ⟨c', src, hc', hname ▸ hp⟩
    · obtain ⟨v, hv, hcv, hname⟩ := hplan.mem_of_converts hfallback hc'
      exact (convert_filled_iff hitem hpos hc'.2.1 hcv).1 (hall v hv (hname.trans hp))

theorem PlanOf.written_of_supplied (h : Supplied replay itemsize sources verify capture p x) :
    Written itemsize capture plan p x := by
  cases h with
  | @element c src j b hc hp hsrc hst hdtype hj hb hx hpub =>
    subst hp
    by_cases hpulled : Pulled plan c
    · obtain ⟨f, hf, hcf⟩ := hpulled
      obtain ⟨src', bufferIndices, hfull⟩ := hplan.fullPulls f hf
      exact .replay hf (hfull.of_rows ((hfull.copies c hcf).2 ▸ hst)).1 hcf rfl ⟨j, hj, b, hb, hx⟩
    rcases hplan.planned hfallback c hc with hp | ⟨segments, hex⟩ | ⟨v, hv⟩
    · exact absurd hp hpulled
    · obtain ⟨r, hr, hcov⟩ := (exact_covers_iff hitem hsrc hex x).2 ⟨j, hj, hpub, b, hb, hx⟩
      obtain ⟨_, _, -, -, -, hpull⟩ := planCopy_exact.1 hex
      obtain ⟨-, _, _, _, hp'⟩ := planPull_ok hpull
      exact .read ((hplan.mem_segments r).2 ⟨c, hc, segments, hex, hpulled, hr⟩) (hp'.paramName_of_mem hr) hcov
    · obtain ⟨src', _, _, hsrc', -, hne, -, -⟩ := planCopy_convert.1 hv
      cases hsrc.symm.trans hsrc'
      exact absurd hdtype hne
  | @staged c src hc hp hsrc hst hpub hx =>
    obtain ⟨f, hf, hcf⟩ := hplan.staged c hc hst
    obtain ⟨src', _, hfull⟩ := hplan.fullPulls f hf
    have hname := (hfull.copies c hcf).2
    obtain rfl : src = src' := by
      rw [hname, hfull.lookup] at hsrc
      exact (Option.some.inj hsrc).symm
    exact .replay hf ((hfull.filled_iff hitem hnil hpos (hname ▸ hst)).2 hpub) hcf hp hx
  | @cast c hc hx hsome hall =>
    refine .cast hc hx ?_ fun v hv hp => ?_
    · obtain ⟨c', src, hc', hp⟩ := hsome
      obtain ⟨v, hv, -, hname⟩ := hplan.mem_of_converts hfallback hc'
      exact ⟨v, hv, hname.trans hp⟩
    · obtain ⟨c', src, hc', hcv, hname⟩ := hplan.converts_of_mem hv
      exact (convert_filled_iff hitem hpos hc'.2.1 hcv).2 (hall c' src hc' (hname.symm.trans hp))

/-- **A byte is written iff it is supplied**, for a plan without fallback. -/
theorem PlanOf.written_iff :
    Written itemsize capture plan p x ↔ Supplied replay itemsize sources verify capture p x :=
  ⟨hplan.supplied_of_written hitem hfallback hnil hpos, hplan.written_of_supplied hitem hfallback hnil hpos⟩

end

omit [DecidableEq δ] hitem in
theorem validateComplete_ok {parameters : List String} (h : validateComplete capture parameters plan = .ok ()) :
    plan.fallback = [] := by
  simp only [validateComplete, ensure_eq_ok] at h
  exact h.2.2.2

end

/-- **What an accepted plan writes**: every destination byte of every recorded copy is written iff it is
    supplied, that is, the shards have what the copies need there. -/
theorem complete_iff {Op δ : Type} [DecidableEq δ] {replay : Replay Op} {sources : Sources δ} {itemsize : δ → ℕ}
    {maxSegmentsPerCopy : ℕ} {sourceSlots : Option (String → Option String)} {verify : Bool}
    {capture : CaptureResult Op δ} {parameters : List String} {plan : LogicalTransferPlan Op δ}
    (hnil : ∀ g, replay [] g = .ok (.view (contiguousView g))) (hpos : ∀ d, 0 < itemsize d)
    (hitem : ∀ q src, sources.lookup q = some src → src.elsize = itemsize src.dtype)
    (hplan : planTransfer replay sources maxSegmentsPerCopy sourceSlots verify capture = .ok plan)
    (hvalid : validateComplete capture parameters plan = .ok ()) :
    (∀ c ∈ capture.copies, ∀ x, c.HasByte (itemsize c.destDtype) x →
      Written itemsize capture plan c.paramName x) ↔
    ∀ c ∈ capture.copies, ∀ x, c.HasByte (itemsize c.destDtype) x →
      Supplied replay itemsize sources verify capture c.paramName x := by
  simp only [planTransfer, bind_eq_ok] at hplan
  obtain ⟨_, -, hplan⟩ := hplan
  exact forall₂_congr fun c _ => forall₂_congr fun x _ =>
    (planWith_ok hplan).written_iff hitem (validateComplete_ok hvalid) hnil hpos

section

theorem wholeCopy_rank : ([1] : List ℕ).length = ([2] : List ℕ).length := rfl

def wholeCopy : RecordedCopy Op Unit where
  srcName := "w"
  opChain := []
  paramName := "p"
  destOffset := 0
  destShape := [2]
  destStride := [1]
  destDtype := ()
  rank := wholeCopy_rank

def wholeCapture : CaptureResult Op Unit := ⟨[wholeCopy], [], 0⟩

def pairSources (shards : List Shard) : Sources Unit := AList.singleton "w" ⟨[2], (), 1, shards⟩

def wholePlan : LogicalTransferPlan Op Unit where
  sourceBuffers := [⟨"s", "w", [0], [2]⟩]
  segments := [⟨0, 0, "p", 0, 2⟩]
  fallback := []
  converts := []
  fullPulls := []
  unboundedSources := []
  exactDescriptorCount := 1
  exactBytes := 2
  verifyFullSources := false

theorem complete_wholeShard :
    planTransfer replayOps (pairSources [⟨[0], [2], "s", 1⟩]) 1 none false wholeCapture = .ok wholePlan ∧
      validateComplete wholeCapture ["p"] wholePlan = .ok () ∧
      ∀ x, wholeCopy.HasByte 1 x → Written (fun _ => 1) wholeCapture wholePlan "p" x := by
  have hplan : planTransfer replayOps (pairSources [⟨[0], [2], "s", 1⟩]) 1 none false wholeCapture =
      .ok wholePlan := rfl
  have hvalid : validateComplete wholeCapture ["p"] wholePlan = .ok () := rfl
  have hlookup : (pairSources [⟨[0], [2], "s", 1⟩]).lookup "w" = some ⟨[2], (), 1, [⟨[0], [2], "s", 1⟩]⟩ := rfl
  have hitem : ∀ q src, (pairSources [⟨[0], [2], "s", 1⟩]).lookup q = some src → src.elsize = 1 := by
    intro q src hsrc
    rw [← (Assoc.lookup_singleton.1 hsrc).2]
  refine ⟨hplan, hvalid, fun x hx => (complete_iff (fun _ => rfl) (fun _ => Nat.one_pos) hitem hplan hvalid).2
    (fun c hc x hx => ?_) wholeCopy (List.mem_singleton_self _) x hx⟩
  cases List.mem_singleton.1 hc
  obtain ⟨j, hj, b, hb, rfl⟩ := hx
  refine .element hc rfl hlookup (fun hst => Bool.false_ne_true hst.1) rfl hj hb rfl
    ⟨contiguousView [2], j, rfl, hj, (Nat.zero_add _).symm, _, List.mem_singleton_self _, ?_⟩
  exact inBox_zero.2 hj

/-- Without a shard nothing is read, and the plan is accepted all the same. -/
theorem unpublished_accepted :
    ∃ plan, planTransfer replayOps (pairSources []) 1 none false wholeCapture = .ok plan ∧
      validateComplete wholeCapture ["p"] plan = .ok () ∧ wholeCopy.HasByte 1 0 ∧
      ¬ Written (fun _ => 1) wholeCapture plan "p" 0 := by
  refine ⟨⟨[], [], [], [], [], [], 0, 0, false⟩, rfl, rfl, ⟨[0], by decide, 0, by decide, rfl⟩, fun h => ?_⟩
  cases h with
  | read hr => cases hr
  | replay hf => cases hf
  | cast _ _ hv =>
    obtain ⟨v, hv, -⟩ := hv
    cases hv

end

end ModelExpress.Reshard
