/-
  ModelExpress reshard receiver — conversions.
-/
import ModelExpress.Reshard.Coverage
import ModelExpress.Reshard.Equivalence

namespace ModelExpress.Reshard

open Checks Strided Writes List

section
variable {Op δ β : Type} {torch : Torch Op δ β} {sources : Sources δ}
variable {sourceIndices : String → Option (List ℕ)} {buffers : ℕ → ℕ → β} {full : String → ℕ → β}
variable {verify : Bool} {capture : CaptureResult Op δ} {plan : LogicalTransferPlan Op δ} {layout : Layout δ}

/-- The copy that conversions of a parameter are cast to can take the conversion buffer, and a
    converted copy that has elements is that copy. -/
def Addressed (sources : Sources δ) (verify : Bool) (capture : CaptureResult Op δ)
    (plan : LogicalTransferPlan Op δ) : Prop :=
  ∀ c src, Converts sources verify capture c src → ∃ last buffer,
    conversionCopy capture c.paramName = some last ∧ convertLayout plan c.paramName = some buffer ∧
    Broadcasts buffer.1 last.destShape ∧ (0 ∉ c.destShape → last = c)

variable {c : RecordedCopy Op δ} {p : String}

theorem conversionCopy_mem (h : conversionCopy capture p = some c) :
    c ∈ capture.copies ∧ c.paramName = p :=
  ⟨mem_reverse.1 (mem_of_find?_eq_some h), by simpa using find?_some h⟩

theorem exists_conversionCopy (hc : c ∈ capture.copies) :
    ∃ last, conversionCopy capture c.paramName = some last := by
  refine Option.isSome_iff_exists.1 (find?_isSome.2 ⟨c, mem_reverse.2 hc, ?_⟩)
  exact decide_eq_true rfl

theorem convertLayout_mem {buffer : List ℕ × δ} (h : convertLayout plan p = some buffer) :
    ∃ v ∈ plan.converts, v.paramName = p ∧ buffer = (v.destShape, v.srcDtype) := by
  obtain ⟨v, hv, rfl⟩ := Option.map_eq_some_iff.1 h
  exact ⟨v, mem_reverse.1 (mem_of_find?_eq_some hv), by simpa using find?_some hv, rfl⟩

variable [DecidableEq δ] {v : ConvertSource δ} {src : SourceInfo δ}

/-- The writes of the copies that are converted, on the way or from a full pull, are in the receive
    buffers. -/
def ConvertedStaged (torch : Torch Op δ β) (sources : Sources δ) (full : String → ℕ → β)
    (capture : CaptureResult Op δ) (recv : Memory β) : Prop :=
  ∀ c ∈ capture.copies, ∀ src, sources.lookup c.srcName = some src → src.dtype ≠ c.destDtype →
    ∀ w, Casts torch sources full c w → recv w.1 = w.2

theorem planCopy_staged {replay : Replay Op} (hsrc : sources.lookup c.srcName = some src)
    (h : planCopy replay sources sourceIndices c = .ok (.convert v)) :
      v = ⟨c.paramName, c.destShape, src.dtype, v.segments⟩ ∧
      planCopy replay sources sourceIndices (c.staged src.dtype) = .ok (.exact v.segments) ∧
      ∃ view, replay c.opChain src.globalShape = .ok (.view view) ∧ c.destShape = view.shape := by
  obtain ⟨src', bufferIndices, _, hsrc', hidx, -, hpull, rfl⟩ := planCopy_convert.1 h
  cases hsrc.symm.trans hsrc'
  obtain ⟨-, view, box, perm, hp⟩ := planPull_ok hpull
  exact ⟨rfl, planCopy_exact.2 ⟨src, bufferIndices, hsrc, hidx, rfl, hpull⟩, view, hp.view, hp.shape⟩

/-! ## The conversion buffer -/

section
variable (hitem : ∀ q src, sources.lookup q = some src → src.elsize = torch.itemsize src.dtype)
variable (hpart : ∀ q src, sources.lookup q = some src → Partitioned src)
variable (hplan : PlanOf torch.replay sources sourceIndices verify capture plan)
variable (hfull : ∀ q, Holding sources sourceIndices buffers (full q) q)
variable {order : List LogicalRead} (horder : order.Perm (plan.converts.flatMap (·.segments))) (m : Memory β)
include hitem hpart hplan hfull horder

theorem converted_bytes (hv : v ∈ plan.converts)
    (hcv : planCopy torch.replay sources sourceIndices c = .ok (.convert v))
    (hone : ∀ c' src', Converts sources verify capture c' src' → c'.paramName = c.paramName →
      0 ∉ c'.destShape → c' = c) (hsrc : sources.lookup c.srcName = some src) {view : View}
    (hview : torch.replay c.opChain src.globalShape = .ok (.view view)) {j : List ℕ} (hj : j ∈ indices c.destShape)
    {b : ℕ} (hb : b < torch.itemsize src.dtype) :
    executeReads buffers order m (c.paramName, dot j (rowMajor c.destShape) * torch.itemsize src.dtype + b) =
      full c.srcName ((view.offset + dot j view.stride) * torch.itemsize src.dtype + b) := by
  -- the writes of the reads of a conversion
  have hwrites : ∀ c' src' v', sources.lookup c'.srcName = some src' →
      planCopy torch.replay sources sourceIndices c' = .ok (.convert v') → ∀ w,
      w ∈ readWrites buffers v'.segments ↔ Delivers torch sources full (c'.staged src'.dtype) w := by
    intro c' src' v' hsrc' hcv' w
    exact exact_writes hitem hpart (planCopy_staged hsrc' hcv').2.1 (hfull _) w
  have hstride : ∀ (c' : RecordedCopy Op δ) (j : List ℕ),
      0 + dot j (rowMajorStrides c'.destShape) = dot j (rowMajor c'.destShape) := by
    intro c' j
    rw [rowMajorStrides_eq, Nat.zero_add]
  have hmem : ((c.paramName, dot j (rowMajor c.destShape) * torch.itemsize src.dtype + b),
      full c.srcName ((view.offset + dot j view.stride) * torch.itemsize src.dtype + b)) ∈
        readWrites buffers order := by
    rw [mem_readWrites_perm buffers horder]
    obtain ⟨r, hr, hw⟩ := mem_flatMap.1 ((hwrites c src v hsrc hcv (_, _)).2
      ⟨src, view, hsrc, hview, j, hj, b, hb, rfl⟩)
    refine mem_flatMap.2 ⟨r, mem_flatMap.2 ⟨v, hv, hr⟩, ?_⟩
    rw [← hstride]
    exact hw
  refine apply_of_mem hmem (fun y hy => ?_) m
  rw [mem_readWrites_perm buffers horder] at hy
  obtain ⟨r, hr, hw⟩ := mem_flatMap.1 hy
  obtain ⟨v', hv', hr⟩ := mem_flatMap.1 hr
  obtain ⟨c', src', hc', hcv', -⟩ := hplan.converts_of_mem hv'
  obtain ⟨src₁, view', hsrc₁, hview', j', hj', b', hb', heq⟩ :=
    (hwrites c' src' v' hc'.2.1 hcv' _).1 (mem_flatMap.2 ⟨r, hr, hw⟩)
  obtain ⟨haddr, rfl⟩ := Prod.mk.inj heq
  obtain ⟨hname, haddr⟩ := Prod.mk.inj haddr
  -- it is a conversion of the same copy
  have hne : 0 ∉ c'.destShape := fun h0 => by
    rw [show (c'.staged src'.dtype).destShape = c'.destShape from rfl, indices_eq_nil.2 h0] at hj'
    cases hj'
  obtain rfl := hone c' src' hc' hname.symm hne
  cases hsrc.symm.trans hc'.2.1
  obtain rfl : src = src₁ := by
    have hlookup : sources.lookup c'.srcName = some src₁ := hsrc₁
    simpa [hsrc] using hlookup
  obtain rfl : view = view' := by
    have hreplay : torch.replay c'.opChain src.globalShape = .ok (.view view') := hview'
    simpa [hview] using hreplay
  have haddr' : dot j (rowMajor c'.destShape) * torch.itemsize src.dtype + b =
      (0 + dot j' (rowMajorStrides c'.destShape)) * torch.itemsize src.dtype + b' := haddr
  rw [hstride] at haddr'
  obtain ⟨hdot, rfl⟩ := mul_add_inj hb hb' haddr'
  obtain rfl := dot_rowMajor_inj hj hj' hdot
  rfl

variable (hcast : CastsElements torch) (hrec : ∀ c ∈ capture.copies, Recorded layout c)
variable (haddr : Addressed sources verify capture plan)
include hcast hrec haddr

theorem castConvert_makes (hv : v ∈ plan.converts) :
    Makes (fun w => ∃ last, conversionCopy capture v.paramName = some last ∧ Casts torch sources full last w)
      fun recv => castConvert torch layout capture plan (executeReads buffers order m) recv v := by
  obtain ⟨c, src, hc, -, hname⟩ := hplan.converts_of_mem hv
  obtain ⟨last, buffer, hlast, hbuffer, hbroad, -⟩ := haddr c src hc
  rw [← hname] at hlast hbuffer
  obtain ⟨hlastmem, hlastname⟩ := conversionCopy_mem hlast
  let x := bufferTensor torch (executeReads buffers order m) v.paramName buffer.1 buffer.2
  refine ⟨copyWrites torch last last.destDtype x, fun w => ?_, fun recv => ?_⟩
  · suffices hsuff : w ∈ copyWrites torch last last.destDtype x ↔ Casts torch sources full last w by
      rw [hsuff]
      constructor
      · exact fun hw => ⟨last, hlast, hw⟩
      · rintro ⟨last', hlast', hw⟩
        cases hlast.symm.trans hlast'
        exact hw
    by_cases h0 : 0 ∈ last.destShape
    · -- no elements, no writes
      have hnil := indices_eq_nil.2 h0
      simp [copyWrites, Casts, hnil]
    -- the buffer has elements, so it is the one of the copy
    obtain ⟨v', hv', hname', rfl⟩ := convertLayout_mem hbuffer
    obtain ⟨c', src', hc', hcv', hname''⟩ := hplan.converts_of_mem hv'
    have hall : ∀ d srcd, Converts sources verify capture d srcd → d.paramName = v.paramName →
        0 ∉ d.destShape → last = d := by
      intro d srcd hd hdname hne
      obtain ⟨_, _, hlast', -, -, hsame⟩ := haddr d srcd hd
      rw [hdname, hlast] at hlast'
      rw [Option.some.inj hlast', hsame hne]
    obtain ⟨hv'eq, -, view, hview, hshape⟩ := planCopy_staged hc'.2.1 hcv'
    have hbroad' : Broadcasts c'.destShape last.destShape := by
      rw [hv'eq] at hbroad
      exact hbroad
    obtain rfl := hall c' src' hc' (hname''.symm.trans hname') (hbroad'.zero_notMem h0)
    have hone : ∀ d srcd, Converts sources verify capture d srcd → d.paramName = last.paramName →
        0 ∉ d.destShape → d = last :=
      fun d srcd hd hdname hne => (hall d srcd hd (hdname.trans hlastname) hne).symm
    -- element by element, the buffer has what the view addresses
    have hbyte : ∀ j ∈ indices last.destShape, ∀ b < torch.itemsize last.destDtype,
        torch.castTo last.destDtype x.dtype (x.tensor.get (broadcastIndex x.tensor.shape j)) b =
          torch.castTo last.destDtype src'.dtype (sliceElement torch src'.dtype (full last.srcName) view j) b := by
      intro j hj b hb
      have hx : x = bufferTensor torch (executeReads buffers order m) last.paramName last.destShape src'.dtype := by
        show bufferTensor _ _ _ v'.destShape v'.srcDtype = _
        rw [hv'eq, hlastname]
      rw [hx]
      show torch.castTo last.destDtype src'.dtype _ b = _
      rw [Torch.castTo, if_neg hc'.2.2.2, Torch.castTo, if_neg hc'.2.2.2]
      refine hcast _ _ _ _ (fun b hb => ?_) b hb
      show executeReads buffers order m (last.paramName, dot (broadcastIndex last.destShape j) (rowMajor last.destShape) *
        torch.itemsize src'.dtype + b) = _
      rw [broadcastIndex_self hj, sliceElement, ← hshape, broadcastIndex_self hj]
      exact converted_bytes hitem hpart hplan hfull horder m hv' hcv' hone hc'.2.1 hview hj hb
    simp only [copyWrites, mem_flatMap, mem_map, mem_range]
    constructor
    · rintro ⟨j, hj, b, hb, rfl⟩
      exact ⟨src', view, hc'.2.1, hview, j, hj, b, hb, by rw [hbyte j hj b hb]⟩
    · rintro ⟨_, _, hsrc₁, hview', j, hj, b, hb, rfl⟩
      cases hc'.2.1.symm.trans hsrc₁
      cases hview.symm.trans hview'
      exact ⟨j, hj, b, hb, by rw [hbyte j hj b hb]⟩
  · simp only [castConvert, copyInto, bind_eq_ok, found_eq_ok, ensure_eq_ok, exists_const, pure_eq_ok]
    exact ⟨last, hlast, _, destination_of_recorded (hrec last hlastmem), buffer, hbuffer, hbroad, rfl⟩

end

theorem castConvert_frame (hrec : ∀ c ∈ capture.copies, Recorded layout c)
    {convert recv recv' : Memory β} {x : ℕ}
    (hfree : ∀ last, conversionCopy capture p = some last → ¬ last.HasByte (torch.itemsize last.destDtype) x)
    (h : castConvert torch layout capture plan convert recv v = .ok recv') : recv' (p, x) = recv (p, x) := by
  simp only [castConvert, copyInto, bind_eq_ok, found_eq_ok, ensure_eq_ok, exists_const, pure_eq_ok] at h
  obtain ⟨last, hlast, _, htarget, _, -, -, rfl⟩ := h
  obtain ⟨hmem, hname⟩ := conversionCopy_mem hlast
  rw [destination_of_recorded (hrec last hmem)] at htarget
  cases htarget
  refine apply_of_notMem (fun y hy => ?_) recv
  simp only [copyWrites, mem_flatMap, mem_map, mem_range] at hy
  obtain ⟨j, hj, b, hb, heq⟩ := hy
  obtain ⟨haddr, -⟩ := Prod.mk.inj heq
  obtain ⟨rfl, rfl⟩ := Prod.mk.inj haddr
  rw [← hname] at hlast
  exact hfree last hlast ⟨j, hj, b, hb, rfl⟩

end

section
variable {Op δ β : Type} [DecidableEq δ] {torch : Torch Op δ β} {sources : Sources δ}
variable {sourceIndices : String → Option (List ℕ)} {verify : Bool} {capture : CaptureResult Op δ}
variable {plan : LogicalTransferPlan Op δ} {layout : Layout δ} {c : RecordedCopy Op δ}

theorem Converts.not_direct {replay : Replay Op} (hplan : PlanOf replay sources sourceIndices verify capture plan)
    (hfallback : plan.fallback = []) {src : SourceInfo δ} (h : Converts sources verify capture c src) :
    ¬ (Pulled plan c ∨ ∃ segments, planCopy replay sources sourceIndices c = .ok (.exact segments)) := by
  obtain ⟨v, hv, hcv, -⟩ := hplan.mem_of_converts hfallback h
  rintro (hp | ⟨segments, hex⟩)
  · obtain ⟨f, hf, hcf⟩ := hp
    obtain ⟨src', _, hof⟩ := hplan.fullPulls f hf
    obtain ⟨_, hex⟩ := (hof.of_rows ((hof.copies c hcf).2 ▸ h.2.2.1)).2.2 c hcf
    cases hcv.symm.trans hex
  · cases hcv.symm.trans hex

section
variable (hnil : ∀ g, torch.replay [] g = .ok (.view (contiguousView g)))
variable (hitem : ∀ q src, sources.lookup q = some src → src.elsize = torch.itemsize src.dtype)
variable (hpart : ∀ q src, sources.lookup q = some src → Partitioned src)
variable (hcast : CastsElements torch) (hviews : ∀ c ∈ capture.copies, ViewChain torch c.opChain)
variable (hslices : ∀ c ∈ capture.copies, Sliced torch sources c)
variable (hrec : ∀ c ∈ capture.copies, Recorded layout c) (hdisj : DisjointDestinations capture.copies)
variable (hplan : PlanOf torch.replay sources sourceIndices verify capture plan) (hfallback : plan.fallback = [])
include hnil hitem hpart hcast hviews hslices hrec hdisj hplan hfallback

omit hnil hitem hpart hdisj hplan hfallback in
theorem replayable (hc : c ∈ capture.copies) : Replayable torch sources layout c := by
  refine ⟨hviews c hc, hrec c hc, hslices c hc, fun src _ x y hxy b hb => ?_⟩
  unfold Torch.castTo
  split_ifs with hd
  · exact hxy b (hd ▸ hb)
  · exact hcast _ _ x y hxy b hb

omit hnil hitem hpart hcast hviews hslices hplan hfallback in
theorem casts_functional {full : String → ℕ → β} (a : String × ℕ) (y y' : β)
    (h : ∃ c ∈ capture.copies, Casts torch sources full c (a, y))
    (h' : ∃ c ∈ capture.copies, Casts torch sources full c (a, y')) : y = y' := by
  obtain ⟨c, hc, src, v, hsrc, hv, j, hj, b, hb, heq⟩ := h
  obtain ⟨c', hc', src', v', hsrc', hv', j', hj', b', hb', heq'⟩ := h'
  obtain ⟨rfl, rfl⟩ := Prod.mk.inj heq
  obtain ⟨haddr, rfl⟩ := Prod.mk.inj heq'
  obtain ⟨rfl, rfl, rfl⟩ := place_unique hrec hdisj hc hc' hj hj' hb hb' haddr
  cases hsrc.symm.trans hsrc'
  cases hv.symm.trans hv'
  rfl

theorem staged_of_addressed (haddr : Addressed sources verify capture plan) {run : Execution Op δ β}
    (hcapture : run.capture = capture) (hrun : run.plan = plan) (buffers : ℕ → ℕ → β) (recv : Memory β) :
    ∃ recv', run.stage torch layout buffers recv = .ok recv' ∧ ∀ full : String → ℕ → β,
      (∀ q, Holding sources sourceIndices buffers (full q) q) → ConvertedStaged torch sources full capture recv' := by
  obtain ⟨full₀, hfull₀⟩ := exists_holding hpart sourceIndices buffers
  -- the writes of the run, for whatever the sources hold
  have hmakes : ∀ full : String → ℕ → β, (∀ q, Holding sources sourceIndices buffers (full q) q) →
      Makes (fun w => (∃ c ∈ capture.copies, (Pulled plan c ∨ ∃ segments,
          planCopy torch.replay sources sourceIndices c = .ok (.exact segments)) ∧ Casts torch sources full c w) ∨
        ∃ v ∈ plan.converts, ∃ last, conversionCopy capture v.paramName = some last ∧
          Casts torch sources full last w) (run.stage torch layout buffers) := by
    intro full hfull
    have hdirect := reconstruct_makes hitem hpart hnil hplan
      (fun c hc _ => replayable hcast hviews hslices hrec hc) (fun c _ => hfull c.srcName) (hrun ▸ run.recv_perm)
      (hrun ▸ run.full_perm) run.full
    have hconv := makes_foldlM (l := plan.converts)
      (f := castConvert torch layout capture plan (executeReads buffers run.convertReads run.convert)) fun v hv =>
        castConvert_makes hitem hpart hplan hfull (hrun ▸ run.convert_perm) run.convert hcast hrec haddr hv
    refine (hdirect.bind hconv).congr fun recv => ?_
    rw [Execution.stage, completeStage, hcapture, hrun]
  obtain ⟨ws, -, hstage⟩ := hmakes full₀ hfull₀
  refine ⟨_, hstage recv, fun full hfull c hc src hsrc hdtype w hw => ?_⟩
  obtain ⟨ws', hws', hstage'⟩ := hmakes full hfull
  have hmemory : Writes.apply ws recv = Writes.apply ws' recv :=
    Except.ok.inj ((hstage recv).symm.trans (hstage' recv))
  rw [hmemory]
  have hmem : w ∈ ws' := by
    refine (hws' w).2 ?_
    by_cases hst : Staged sources verify capture c.srcName
    · exact Or.inl ⟨c, hc, Or.inl (hplan.staged c hc hst), hw⟩
    · have hconv : Converts sources verify capture c src := ⟨hc, hsrc, hst, hdtype⟩
      obtain ⟨v, hv, -, hname⟩ := hplan.mem_of_converts hfallback hconv
      obtain ⟨last, _, hlast, -, -, hsame⟩ := haddr c src hconv
      obtain ⟨-, -, -, -, j, hj, -⟩ := id hw
      have hne : 0 ∉ c.destShape := mt indices_eq_nil.2 (ne_nil_of_mem hj)
      exact Or.inr ⟨v, hv, last, hname ▸ hlast, hsame hne ▸ hw⟩
  refine apply_of_mem hmem (fun y hy => ?_) recv
  -- any write there is one of the same copy
  obtain ⟨c', hc', hw'⟩ : ∃ c' ∈ capture.copies, Casts torch sources full c' (w.1, y) := by
    rcases (hws' _).1 hy with ⟨c', hc', -, hw'⟩ | ⟨v, -, last, hlast, hw'⟩
    · exact ⟨c', hc', hw'⟩
    · exact ⟨last, (conversionCopy_mem hlast).1, hw'⟩
  exact casts_functional hrec hdisj w.1 y w.2 ⟨c', hc', hw'⟩ ⟨c, hc, hw⟩

theorem addressed_of_staged [Nontrivial β] (hpos : ∀ d, 0 < torch.itemsize d)
    (h : ∀ run : Execution Op δ β, run.capture = capture → run.plan = plan → ∀ (buffers : ℕ → ℕ → β) recv,
      ∃ recv', run.stage torch layout buffers recv = .ok recv' ∧ ∀ full : String → ℕ → β,
        (∀ q, Holding sources sourceIndices buffers (full q) q) →
          ConvertedStaged torch sources full capture recv') :
    Addressed sources verify capture plan := by
  intro c src hconv
  obtain ⟨hc, hsrc, hst, hdtype⟩ := id hconv
  obtain ⟨y, y', hyy'⟩ := exists_pair_ne β
  obtain ⟨last, hlast⟩ := exists_conversionCopy hc
  obtain ⟨v, hv, hcv, hname⟩ := hplan.mem_of_converts hfallback hconv
  let run : Execution Op δ β := ⟨capture, plan, plan.segments, plan.fullPulls.flatMap (·.segments),
    plan.converts.flatMap (·.segments), fun _ => y, fun _ => y, .refl _, .refl _, .refl _⟩
  let buffers : ℕ → ℕ → β := fun _ _ => y
  -- the parts of a run
  have hparts : ∀ recv, ∃ recv₁ recv', plan.fullPulls.foldlM (replayFull torch layout plan
        (executeReads buffers run.fullReads run.full)) (executeReads buffers run.recvReads recv) = .ok recv₁ ∧
      plan.converts.foldlM (castConvert torch layout capture plan
        (executeReads buffers run.convertReads run.convert)) recv₁ = .ok recv' ∧
      ∀ full : String → ℕ → β, (∀ q, Holding sources sourceIndices buffers (full q) q) →
        ConvertedStaged torch sources full capture recv' := by
    intro recv
    obtain ⟨recv', hrun, hall⟩ := h run rfl rfl buffers recv
    simp only [Execution.stage, completeStage, bind_eq_ok] at hrun
    obtain ⟨recv₁, h₁, h₂⟩ := hrun
    exact ⟨recv₁, recv', h₁, h₂, hall⟩
  -- the casts of a run succeed, so there is a buffer that fits
  obtain ⟨buffer, hbuffer, hbroad⟩ : ∃ buffer, convertLayout plan c.paramName = some buffer ∧
      Broadcasts buffer.1 last.destShape := by
    obtain ⟨recv₁, recv', -, h₂, -⟩ := hparts fun _ => y
    obtain ⟨s, s', hs⟩ := exists_step_of_foldlM h₂ hv
    simp only [castConvert, copyInto, bind_eq_ok, found_eq_ok, ensure_eq_ok, exists_const] at hs
    obtain ⟨last', hlast', _, -, buffer, hbuffer, hbroad, -⟩ := hs
    rw [hname] at hlast' hbuffer
    cases hlast.symm.trans hlast'
    exact ⟨buffer, hbuffer, hbroad⟩
  refine ⟨last, buffer, hlast, hbuffer, hbroad, fun hne => ?_⟩
  by_contra hlastne
  -- the first byte of an element of the copy keeps what it was
  obtain ⟨j, hj⟩ := exists_mem_of_ne_nil _ (mt indices_eq_nil.1 hne)
  obtain ⟨full, hfull⟩ := exists_holding hpart sourceIndices buffers
  obtain ⟨view, hview, -⟩ := hslices c hc src hsrc
  let a : String × ℕ := (c.paramName, (c.destOffset + dot j c.destStride) * torch.itemsize c.destDtype + 0)
  have hkeep : ∀ recv : Memory β, recv a = torch.castTo c.destDtype src.dtype
      (sliceElement torch src.dtype (full c.srcName) view j) 0 := by
    intro recv
    obtain ⟨recv₁, recv', h₁, h₂, hall⟩ := hparts recv
    have hstaged : recv' a = torch.castTo c.destDtype src.dtype
        (sliceElement torch src.dtype (full c.srcName) view j) 0 :=
      hall full hfull c hc src hsrc hdtype (a, _) ⟨src, view, hsrc, hview, j, hj, 0, hpos _, rfl⟩
    rw [← hstaged]
    -- not written by a cast
    have hcasts : recv' a = recv₁ a := by
      refine foldlM_invariant (P := fun s => s a = recv₁ a) (fun v hv s s' hs hstep => ?_) rfl h₂
      rw [← hs]
      refine castConvert_frame hrec (fun _ hlast' => ?_) hstep
      cases hlast.symm.trans hlast'
      rintro ⟨j', hj', b, hb, haddr⟩
      obtain ⟨hmem, hlastname⟩ := conversionCopy_mem hlast
      refine hlastne (place_unique hrec hdisj hmem hc hj' hj hb (hpos _) ?_).1
      rw [hlastname, haddr]
    -- nor by a read or a replay
    obtain ⟨ws, hws, hdirect⟩ := reconstruct_makes hitem hpart hnil hplan
      (fun c hc _ => replayable hcast hviews hslices hrec hc) (fun c _ => hfull c.srcName) run.recv_perm
      run.full_perm run.full
    obtain rfl := Except.ok.inj ((hdirect recv).symm.trans h₁)
    rw [hcasts]
    refine (apply_of_notMem (fun z hz => ?_) recv).symm
    obtain ⟨c', hc', hplanned, _, _, _, _, j', hj', b, hb, heq⟩ := (hws _).1 hz
    obtain ⟨rfl, -, -⟩ := place_unique hrec hdisj hc hc' hj hj' (hpos _) hb (Prod.mk.inj heq).1
    exact hconv.not_direct hplan hfallback hplanned
  exact hyy' ((hkeep fun _ => y).trans (hkeep fun _ => y').symm)

end

end

/-- **When conversions are staged correctly**: whatever the sources and the buffers hold, in whatever order
    the reads complete, iff every conversion finds its own copy by the name of the parameter. -/
theorem conversions_iff {Op δ β : Type} [DecidableEq δ] [Nontrivial β] {torch : Torch Op δ β} {sources : Sources δ}
    {layout : Layout δ} {capture : CaptureResult Op δ} {sourceSlots : Option (String → Option String)}
    {verify : Bool} {maxSegmentsPerCopy : ℕ} {parameters : List String} {table : SourceTable}
    {plan : LogicalTransferPlan Op δ}
    (hnil : ∀ g, torch.replay [] g = .ok (.view (contiguousView g))) (hpos : ∀ d, 0 < torch.itemsize d)
    (hitem : ∀ q src, sources.lookup q = some src → src.elsize = torch.itemsize src.dtype)
    (hpart : ∀ q src, sources.lookup q = some src → Partitioned src) (hcast : CastsElements torch)
    (hviews : ∀ c ∈ capture.copies, ViewChain torch c.opChain)
    (hslices : ∀ c ∈ capture.copies, Sliced torch sources c)
    (hrec : ∀ c ∈ capture.copies, Recorded layout c) (hdisj : DisjointDestinations capture.copies)
    (htable : sourceTable sources sourceSlots capture = .ok table)
    (hplan : planTransfer torch.replay sources maxSegmentsPerCopy sourceSlots verify capture = .ok plan)
    (hvalid : validateComplete capture parameters plan = .ok ()) :
    (∀ run : Execution Op δ β, run.capture = capture → run.plan = plan → ∀ (buffers : ℕ → ℕ → β) recv,
      ∃ recv', run.stage torch layout buffers recv = .ok recv' ∧ ∀ full : String → ℕ → β,
        (∀ q, Holding sources (table.indices.lookup ·) buffers (full q) q) →
          ConvertedStaged torch sources full capture recv') ↔
      Addressed sources verify capture plan := by
  simp only [planTransfer, htable, bind_eq_ok, Except.ok.injEq, exists_eq_left'] at hplan
  have hof := planWith_ok hplan
  have hfallback := validateComplete_ok hvalid
  constructor
  · exact addressed_of_staged hnil hitem hpart hcast hviews hslices hrec hdisj hof hfallback hpos
  · intro haddr run hcapture hrun buffers recv
    exact staged_of_addressed hnil hitem hpart hcast hviews hslices hrec hdisj hof hfallback haddr hcapture hrun
      buffers recv

section

def servedSource : SourceInfo Bool := ⟨[2], false, 1, [⟨[0], [2], "s", 1⟩]⟩

def servedSources : Sources Bool := AList.singleton "w" servedSource

def servedLayout : Layout Bool := fun name => if name = "p" then some ([2], true) else none

def servedTorch : Torch Op Bool ℕ := viewTorch (fun _ => 1) fun _ _ x => x

def servedTable : SourceTable := ⟨[⟨"s", "w", [0], [2]⟩], [("w", [0])]⟩

theorem servedCopy_rank : ([1] : List ℕ).length = ([2] : List ℕ).length := rfl

theorem servedHalf_rank : ([1] : List ℕ).length = ([1] : List ℕ).length := rfl

def servedCopy : RecordedCopy Op Bool := ⟨"w", [], "p", 0, [2], [1], true, servedCopy_rank⟩

def lowerCopy : RecordedCopy Op Bool := ⟨"w", [.narrow 0 0 1], "p", 0, [1], [1], true, servedHalf_rank⟩

def upperCopy : RecordedCopy Op Bool := ⟨"w", [.narrow 0 1 1], "p", 1, [1], [1], true, servedHalf_rank⟩

def servedPlan (converts : List (ConvertSource Bool)) : LogicalTransferPlan Op Bool where
  sourceBuffers := servedTable.buffers
  segments := []
  fallback := []
  converts := converts
  fullPulls := []
  unboundedSources := []
  exactDescriptorCount := converts.length
  exactBytes := 2
  verifyFullSources := false

def wholeConverts : List (ConvertSource Bool) := [⟨"p", [2], false, [⟨0, 0, "p", 0, 2⟩]⟩]

def halfConverts : List (ConvertSource Bool) :=
  [⟨"p", [1], false, [⟨0, 0, "p", 0, 1⟩]⟩, ⟨"p", [1], false, [⟨0, 1, "p", 0, 1⟩]⟩]

def servedRun (copies : List (RecordedCopy Op Bool)) (converts : List (ConvertSource Bool)) :
    Execution Op Bool ℕ where
  capture := ⟨copies, [], 0⟩
  plan := servedPlan converts
  recvReads := []
  fullReads := []
  convertReads := converts.flatMap (·.segments)
  full := fun _ => 0
  convert := fun _ => 0
  recv_perm := .refl _
  full_perm := .refl _
  convert_perm := .refl _

def servedBuffers (_ i : ℕ) : ℕ := 2 * i + 5

theorem served_partitioned (q : String) (src : SourceInfo Bool) (h : servedSources.lookup q = some src) :
    Partitioned src := by
  obtain ⟨-, rfl⟩ := Assoc.lookup_singleton.1 h
  refine ⟨by decide, by decide, fun i hi k k' sh sh' hk hk' _ _ => ?_⟩
  have hlt := (List.getElem?_eq_some_iff.1 hk).1
  have hlt' := (List.getElem?_eq_some_iff.1 hk').1
  have hlen : servedSource.shards.length = 1 := rfl
  omega

theorem served_holding (q : String) :
    Holding servedSources (servedTable.indices.lookup ·) servedBuffers (servedBuffers 0) q := by
  intro src _ hsrc hidx k sh hk
  obtain ⟨rfl, rfl⟩ := Assoc.lookup_singleton.1 hsrc
  cases hidx
  rcases k with _ | k <;> cases hk
  intro i hi hin b hb
  obtain rfl : b = 0 := Nat.lt_one_iff.1 hb
  revert i
  decide

theorem conversion_whole :
    planTransfer replayOps servedSources 1 none false ⟨[servedCopy], [], 0⟩ = .ok (servedPlan wholeConverts) ∧
      ∃ recv, (servedRun [servedCopy] wholeConverts).stage servedTorch servedLayout servedBuffers (fun _ => 0) =
        .ok recv ∧ recv ("p", 0) = 5 ∧ recv ("p", 1) = 7 := by
  have hplan : planTransfer servedTorch.replay servedSources 1 none false ⟨[servedCopy], [], 0⟩ =
      .ok (servedPlan wholeConverts) := rfl
  have hlookup : servedSources.lookup "w" = some servedSource := rfl
  have hsrc : ∀ q src, servedSources.lookup q = some src → src = servedSource :=
    fun q src h => (Assoc.lookup_singleton.1 h).2.symm
  have hone : ∀ c ∈ (⟨[servedCopy], [], 0⟩ : CaptureResult Op Bool).copies, c = servedCopy :=
    fun c hc => mem_singleton.1 hc
  have hvalid : validateComplete ⟨[servedCopy], [], 0⟩ ["p"] (servedPlan wholeConverts) = .ok () := rfl
  have htable : sourceTable servedSources none ⟨[servedCopy], [], 0⟩ = .ok servedTable := rfl
  have hviews : ∀ c ∈ [servedCopy], ViewChain servedTorch c.opChain :=
    fun c hc => hone c hc ▸ viewChain_ops (by decide)
  have hslices : ∀ c ∈ [servedCopy], Sliced servedTorch servedSources c := by
    intro c hc src h
    obtain rfl := hone c hc
    obtain rfl := hsrc _ src h
    exact ⟨contiguousView [2], rfl, by decide, by decide⟩
  have hrec : ∀ c ∈ [servedCopy], Recorded servedLayout c :=
    fun c hc => hone c hc ▸ ⟨[2], rfl, by decide⟩
  have hiff := conversions_iff (fun _ => rfl) (fun _ => Nat.one_pos) (fun q src h => hsrc q src h ▸ rfl)
    served_partitioned (fun _ _ x y h b hb => h b hb) hviews hslices hrec (by unfold DisjointDestinations; decide)
    htable hplan hvalid
  have haddr : Addressed servedSources false ⟨[servedCopy], [], 0⟩ (servedPlan wholeConverts) := by
    rintro c src ⟨hc, -⟩
    obtain rfl := hone c hc
    exact ⟨servedCopy, ([2], false), rfl, rfl, by decide, fun _ => rfl⟩
  obtain ⟨recv, hrun, hstaged⟩ := hiff.2 haddr (servedRun [servedCopy] wholeConverts) rfl rfl servedBuffers fun _ => 0
  have hat := hstaged (fun _ => servedBuffers 0) served_holding servedCopy (mem_singleton_self _) servedSource
    hlookup Bool.false_ne_true
  refine ⟨hplan, recv, hrun, hat (("p", 0), 5) ?_, hat (("p", 1), 7) ?_⟩
  · exact ⟨servedSource, contiguousView [2], rfl, rfl, [0], by decide, 0, Nat.one_pos, rfl⟩
  · exact ⟨servedSource, contiguousView [2], rfl, rfl, [1], by decide, 0, Nat.one_pos, rfl⟩

/-- Of two halves that are converted, the first is lost: its place keeps what it held. -/
theorem halved_lost :
    (∀ q src, servedSources.lookup q = some src → Partitioned src) ∧
      DisjointDestinations [lowerCopy, upperCopy] ∧
      planTransfer replayOps servedSources 1 none false ⟨[lowerCopy, upperCopy], [], 0⟩ =
        .ok (servedPlan halfConverts) ∧
      validateComplete ⟨[lowerCopy, upperCopy], [], 0⟩ ["p"] (servedPlan halfConverts) = .ok () ∧
      ∃ recv, (servedRun [lowerCopy, upperCopy] halfConverts).stage servedTorch servedLayout servedBuffers
          (fun _ => 0) = .ok recv ∧ recv ("p", 0) = 0 ∧
        Casts servedTorch servedSources (fun _ => servedBuffers 0) lowerCopy (("p", 0), 5) := by
  refine ⟨served_partitioned, ?_, rfl, rfl, _, rfl, rfl, ⟨servedSource, ⟨0, [1], [1], rfl⟩, rfl, rfl, [0], by decide, 0, Nat.one_pos, rfl⟩⟩
  unfold DisjointDestinations
  decide

end

end ModelExpress.Reshard
