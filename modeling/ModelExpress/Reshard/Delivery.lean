/-
  ModelExpress reshard receiver — what the execution of a plan writes: however a copy is executed, it makes
  the same writes (`Delivers`). What a chain of views does to a tensor is an assumption about PyTorch
  (`ViewChain`).
-/
import ModelExpress.Reshard.Chains
import ModelExpress.Reshard.FullPull
import ModelExpress.Reshard.Plans
import ModelExpress.Reshard.Staging

namespace ModelExpress.Reshard

open Checks Strided Writes List

/-! ## What is assumed -/

section
variable {Op δ β : Type} (torch : Torch Op δ β)

/-- A chain of view operations: on a tensor, it returns the elements that its view addresses and
    leaves the tensor as it is. -/
def ViewChain (chain : List Op) : Prop :=
  ∀ (g : List ℕ) (v : View) (dtype : δ) (full : ℕ → ℕ → β), torch.replay chain g = .ok (.view v) →
    ∃ x, torch.replayOn chain ⟨dtype, sourceTensor g full⟩ = .ok (⟨dtype, x⟩, ⟨dtype, sourceTensor g full⟩) ∧
      x.shape = v.shape ∧ ∀ j ∈ indices v.shape, x.get j = full (v.offset + dot j v.stride)

/-- The copy has a slice: its chain makes a view of the source, and the view can be broadcast to the
    destination. -/
def Sliced (sources : Sources δ) (c : RecordedCopy Op δ) : Prop :=
  ∀ src, sources.lookup c.srcName = some src → ∃ v, torch.replay c.opChain src.globalShape = .ok (.view v) ∧
    Broadcasts v.shape c.destShape ∧ ∀ j ∈ indices v.shape, v.offset + dot j v.stride < src.globalShape.prod

/-- A cast looks at the bytes of its element only. -/
def CastsElements : Prop :=
  ∀ (dtype target : δ) (x y : ℕ → β), (∀ b < torch.itemsize dtype, x b = y b) → ∀ b < torch.itemsize target,
    torch.cast dtype target x b = torch.cast dtype target y b

/-- The shards are a partition of the source: every element lies in exactly one. -/
structure Partitioned (src : SourceInfo δ) : Prop where
  elsize : ∀ sh ∈ src.shards, sh.elsize = src.elsize
  covers : ∀ i ∈ indices src.globalShape, ∃ sh ∈ src.shards, InBox i sh.box
  disjoint : ∀ i ∈ indices src.globalShape, ∀ (k k' : ℕ) (sh sh' : Shard), src.shards[k]? = some sh →
    src.shards[k']? = some sh' → InBox i sh.box → InBox i sh'.box → k = k'

/-- The destination of the copy is a view of the buffer of its parameter. -/
def Recorded (layout : Layout δ) (c : RecordedCopy Op δ) : Prop :=
  ∃ shape, layout c.paramName = some (shape, c.destDtype) ∧
    ∀ j ∈ indices c.destShape, c.destOffset + dot j c.destStride < shape.prod

end

/-! ## The bytes of the sources -/

variable {bufferIndices : List ℕ}

section
variable {Op δ β : Type} {sources : Sources δ} {sourceIndices : String → Option (List ℕ)}
variable {buffers : ℕ → ℕ → β} {src : SourceInfo δ}

/-- The buffers of the shards of `q` hold the parts of a tensor with the bytes `full`. -/
def Holding (sources : Sources δ) (sourceIndices : String → Option (List ℕ)) (buffers : ℕ → ℕ → β)
    (full : ℕ → β) (q : String) : Prop :=
  ∀ src bufferIndices, sources.lookup q = some src → sourceIndices q = some bufferIndices →
    ∀ (k : ℕ) (sh : Shard), src.shards[k]? = some sh →
      sh.Holds src.globalShape src.elsize (buffers (bufferIndices.getD k 0)) full

def ByteAt (src : SourceInfo δ) (bufferIndices : List ℕ) (buffers : ℕ → ℕ → β) (a : ℕ) (y : β) : Prop :=
  ∃ (k : ℕ) (sh : Shard) (i : List ℕ) (b : ℕ), src.shards[k]? = some sh ∧ i ∈ indices src.globalShape ∧
    InBox i sh.box ∧ b < src.elsize ∧ a = dot i (rowMajor src.globalShape) * src.elsize + b ∧
    y = buffers (bufferIndices.getD k 0)
      (dot (i.zipWith (· - ·) sh.shardOffset) (rowMajor sh.shape) * src.elsize + b)

theorem Partitioned.byteAt_unique (h : Partitioned src) {a : ℕ}
    {y y' : β} (hy : ByteAt src bufferIndices buffers a y) (hy' : ByteAt src bufferIndices buffers a y') :
    y = y' := by
  obtain ⟨k, sh, i, b, hk, hi, hin, hb, haddr, rfl⟩ := hy
  obtain ⟨k', sh', i', b', hk', hi', hin', hb', haddr', rfl⟩ := hy'
  obtain ⟨hdot, rfl⟩ := mul_add_inj hb hb' (haddr.symm.trans haddr')
  obtain rfl := dot_rowMajor_inj hi hi' hdot
  obtain rfl := h.disjoint i hi k k' sh sh' hk hk' hin hin'
  cases hk.symm.trans hk'
  rfl

theorem Partitioned.exists_holds (h : Partitioned src) (bufferIndices : List ℕ)
    (buffers : ℕ → ℕ → β) : ∃ full : ℕ → β, ∀ (k : ℕ) (sh : Shard), src.shards[k]? = some sh →
      sh.Holds src.globalShape src.elsize (buffers (bufferIndices.getD k 0)) full := by
  have hbyte : ∀ a, ∃ y, ∀ y', ByteAt src bufferIndices buffers a y' → y' = y := by
    intro a
    by_cases hex : ∃ y, ByteAt src bufferIndices buffers a y
    · obtain ⟨y, hy⟩ := hex
      exact ⟨y, fun y' hy' => h.byteAt_unique hy' hy⟩
    · exact ⟨buffers 0 0, fun y' hy' => absurd ⟨y', hy'⟩ hex⟩
  choose full hfull using hbyte
  exact ⟨full, fun k sh hk i hi hin b hb => hfull _ _ ⟨k, sh, i, b, hk, hi, hin, hb, rfl, rfl⟩⟩

theorem exists_holding (hpart : ∀ q src, sources.lookup q = some src → Partitioned src)
    (sourceIndices : String → Option (List ℕ)) (buffers : ℕ → ℕ → β) :
    ∃ full : String → ℕ → β, ∀ q, Holding sources sourceIndices buffers (full q) q := by
  have hall : ∀ q, ∃ full : ℕ → β, Holding sources sourceIndices buffers full q := by
    intro q
    cases hsrc : sources.lookup q with
    | none => exact ⟨fun _ => buffers 0 0, fun src _ h => by simp [hsrc] at h⟩
    | some src =>
      obtain ⟨full, hfull⟩ := (hpart q src hsrc).exists_holds ((sourceIndices q).getD []) buffers
      refine ⟨full, fun src' _ hsrc' hidx => ?_⟩
      cases hsrc.symm.trans hsrc'
      simpa [hidx] using hfull
  choose full hfull using hall
  exact ⟨full, hfull⟩

end

/-! ## The writes of a copy -/

variable {segments order : List LogicalRead}

section
variable {Op δ β : Type} [DecidableEq δ] {torch : Torch Op δ β} {sources : Sources δ}
variable {sourceIndices : String → Option (List ℕ)} {buffers : ℕ → ℕ → β} {full : String → ℕ → β}
variable {verify : Bool} {capture : CaptureResult Op δ} {plan : LogicalTransferPlan Op δ} {layout : Layout δ}
  {c : RecordedCopy Op δ}

/-- The writes of a copy: the bytes of the elements its view addresses. -/
def Delivers (torch : Torch Op δ β) (sources : Sources δ) (full : String → ℕ → β) (c : RecordedCopy Op δ)
    (w : (String × ℕ) × β) : Prop :=
  ∃ src v, sources.lookup c.srcName = some src ∧ torch.replay c.opChain src.globalShape = .ok (.view v) ∧
    ∃ j ∈ indices c.destShape, ∃ b < torch.itemsize c.destDtype,
      w = ((c.paramName, (c.destOffset + dot j c.destStride) * torch.itemsize c.destDtype + b),
        full c.srcName ((v.offset + dot j v.stride) * torch.itemsize c.destDtype + b))

/-- The element of the source that goes to the destination element `j`, in the dtype of the source. -/
def sliceElement (torch : Torch Op δ β) (dtype : δ) (full : ℕ → β) (v : View) (j : List ℕ) (b : ℕ) : β :=
  full ((v.offset + dot (broadcastIndex v.shape j) v.stride) * torch.itemsize dtype + b)

/-- The writes of a copy of any dtype: the bytes of the elements of its slice, cast to the dtype of
    the destination. -/
def Casts (torch : Torch Op δ β) (sources : Sources δ) (full : String → ℕ → β) (c : RecordedCopy Op δ)
    (w : (String × ℕ) × β) : Prop :=
  ∃ src v, sources.lookup c.srcName = some src ∧ torch.replay c.opChain src.globalShape = .ok (.view v) ∧
    ∃ j ∈ indices c.destShape, ∃ b < torch.itemsize c.destDtype,
      w = ((c.paramName, (c.destOffset + dot j c.destStride) * torch.itemsize c.destDtype + b),
        torch.castTo c.destDtype src.dtype (sliceElement torch src.dtype (full c.srcName) v j) b)

theorem casts_iff_delivers
    (h : planCopy torch.replay sources sourceIndices c = .ok (.exact segments)) (w : (String × ℕ) × β) :
    Casts torch sources full c w ↔ Delivers torch sources full c w := by
  obtain ⟨src, _, hsrc, -, hdtype, hpull⟩ := planCopy_exact.1 h
  obtain ⟨-, v, box, perm, hp⟩ := planPull_ok hpull
  have hbyte : ∀ j ∈ indices c.destShape, ∀ b,
      torch.castTo c.destDtype src.dtype (sliceElement torch src.dtype (full c.srcName) v j) b =
        full c.srcName ((v.offset + dot j v.stride) * torch.itemsize c.destDtype + b) := by
    intro j hj b
    rw [Torch.castTo, if_pos hdtype, sliceElement, broadcastIndex_self (hp.shape ▸ hj), hdtype]
  refine exists₂_congr fun src' v' => and_congr_right fun hsrc' => and_congr_right fun hv' => ?_
  cases hsrc.symm.trans hsrc'
  cases hp.view.symm.trans hv'
  refine exists_congr fun j => and_congr_right fun hj => ?_
  simp only [hbyte j hj]

variable (hitem : ∀ q src, sources.lookup q = some src → src.elsize = torch.itemsize src.dtype)
variable (hpart : ∀ q src, sources.lookup q = some src → Partitioned src)
include hitem hpart

theorem exact_writes (h : planCopy torch.replay sources sourceIndices c = .ok (.exact segments))
    (hfull : Holding sources sourceIndices buffers (full c.srcName) c.srcName) (w : (String × ℕ) × β) :
    w ∈ readWrites buffers segments ↔ Delivers torch sources full c w := by
  obtain ⟨src, bufferIndices, hsrc, hidx, hdtype, hpull⟩ := planCopy_exact.1 h
  obtain ⟨-, v, box, perm, hp⟩ := planPull_ok hpull
  have hholds := hfull src bufferIndices hsrc hidx
  have hsize : src.elsize = torch.itemsize c.destDtype := by rw [hitem _ _ hsrc, hdtype]
  rw [hp.mem_readWrites (hpart _ _ hsrc).elsize]
  constructor
  · rintro ⟨k, sh, hk, j, hj, hin, b, hb, rfl⟩
    refine ⟨src, v, hsrc, hp.view, j, hp.shape ▸ hj, b, hsize ▸ hb, ?_⟩
    rw [hholds k sh hk _ (hp.boxOf.mem_indices hj) hin b hb, hp.boxOf.address hj, hsize]
  · rintro ⟨src', v', hsrc', hv', j, hj, b, hb, rfl⟩
    cases hsrc.symm.trans hsrc'
    cases hp.view.symm.trans hv'
    rw [hp.shape] at hj
    rw [← hsize] at hb
    obtain ⟨sh, hsh, hin⟩ := (hpart _ _ hsrc).covers _ (hp.boxOf.mem_indices hj)
    obtain ⟨k, hk⟩ := mem_iff_getElem?.1 hsh
    refine ⟨k, sh, hk, j, hj, hin, b, hb, ?_⟩
    rw [hholds k sh hk _ (hp.boxOf.mem_indices hj) hin b hb, hp.boxOf.address hj, hsize]

/-! ## Full pulls -/

section
variable (hnil : ∀ g, torch.replay [] g = .ok (.view (contiguousView g)))
include hnil

variable {f : FullPullSource Op δ} {src : SourceInfo δ}

omit hitem in
theorem FullPullOf.mem_readWrites
    (h : FullPullOf torch.replay sources sourceIndices verify capture f src bufferIndices)
    {w : (String × ℕ) × β} :
    w ∈ readWrites buffers f.segments ↔ ∃ k sh, src.shards[k]? = some sh ∧ ∃ i ∈ indices src.globalShape,
      InBox i sh.box ∧ ∃ b < src.elsize,
        w = ((f.srcName, dot i (rowMajor src.globalShape) * src.elsize + b),
          buffers (bufferIndices.getD k 0)
            (dot (i.zipWith (· - ·) sh.shardOffset) (rowMajor sh.shape) * src.elsize + b)) := by
  rcases h.segments with ⟨-, hsegments, -⟩ | ⟨-, hpull⟩
  · obtain ⟨n, ns, hrows⟩ := fullPullSegments_ok hsegments
    exact hrows.mem_readWrites
  · obtain ⟨-, v, box, perm, hp⟩ := planPull_ok hpull
    obtain rfl := hp.view_identity (hnil _)
    rw [hp.mem_readWrites (hpart _ _ h.lookup).elsize]
    refine exists_congr fun k => exists_congr fun sh => and_congr_right fun _ => exists_congr fun i =>
      and_congr_right fun hi => ?_
    rw [hp.boxOf.sourceIndex_contiguous hi]
    simp [identityCopy]

variable (hplan : PlanOf torch.replay sources sourceIndices verify capture plan)
include hplan

omit hitem in
theorem staged_bytes (hf : f ∈ plan.fullPulls) (hsrc : sources.lookup f.srcName = some src)
    (hfull : Holding sources sourceIndices buffers (full f.srcName) f.srcName)
    (horder : order.Perm (plan.fullPulls.flatMap (·.segments))) (m : Memory β) {i : List ℕ}
    (hi : i ∈ indices src.globalShape) {b : ℕ} (hb : b < src.elsize) :
    executeReads buffers order m (f.srcName, dot i (rowMajor src.globalShape) * src.elsize + b) =
      full f.srcName (dot i (rowMajor src.globalShape) * src.elsize + b) := by
  -- the writes of all full pulls
  have hmem : ∀ w, w ∈ readWrites buffers order ↔
      ∃ f ∈ plan.fullPulls, w ∈ readWrites buffers f.segments := by
    intro w
    rw [mem_readWrites_perm buffers horder]
    simp only [readWrites, mem_flatMap]
    constructor
    · rintro ⟨r, ⟨f, hf, hr⟩, hw⟩
      exact ⟨f, hf, r, hr, hw⟩
    · rintro ⟨f, hf, r, hr, hw⟩
      exact ⟨r, ⟨f, hf, hr⟩, hw⟩
  refine apply_of_mem ((hmem _).2 ⟨f, hf, ?_⟩) (fun y hy => ?_) m
  · obtain ⟨src', bufferIndices, hof⟩ := hplan.fullPulls f hf
    cases hsrc.symm.trans hof.lookup
    obtain ⟨sh, hsh, hin⟩ := (hpart _ _ hsrc).covers i hi
    obtain ⟨k, hk⟩ := mem_iff_getElem?.1 hsh
    refine (hof.mem_readWrites hpart hnil).2 ⟨k, sh, hk, i, hi, hin, b, hb, ?_⟩
    rw [hfull src bufferIndices hsrc hof.buffers k sh hk i hi hin b hb]
  · obtain ⟨f', hf', hy⟩ := (hmem _).1 hy
    obtain ⟨src', bufferIndices, hof⟩ := hplan.fullPulls f' hf'
    obtain ⟨k, sh, hk, i', hi', hin, b', hb', heq⟩ := (hof.mem_readWrites hpart hnil).1 hy
    obtain ⟨haddr, rfl⟩ := Prod.mk.inj heq
    obtain ⟨hname, haddr⟩ := Prod.mk.inj haddr
    obtain rfl : src = src' := by
      have hlookup := hof.lookup
      rw [← hname, hsrc] at hlookup
      exact Option.some.inj hlookup
    rw [hname] at hfull
    rw [haddr, hname]
    exact hfull src bufferIndices hof.lookup hof.buffers k sh hk i' hi' hin b' hb'

omit hitem hpart hnil in
theorem fullLayout_eq (hf : f ∈ plan.fullPulls) (hsrc : sources.lookup f.srcName = some src) :
    fullLayout plan f.srcName = some (src.globalShape, src.dtype) := by
  unfold fullLayout
  cases hfind : plan.fullPulls.reverse.find? fun g => g.srcName = f.srcName with
  | none =>
    have hne := find?_eq_none.1 hfind f (mem_reverse.2 hf)
    simp at hne
  | some g =>
    obtain ⟨src', _, hof⟩ := hplan.fullPulls g (mem_reverse.1 (mem_of_find?_eq_some hfind))
    have hname : g.srcName = f.srcName := by simpa using find?_some hfind
    obtain rfl : src = src' := by
      have hlookup := hof.lookup
      rw [hname, hsrc] at hlookup
      exact Option.some.inj hlookup
    rw [Option.map_some, hof.shape, hof.dtype]

end

/-! ## Replays -/

structure Ready (torch : Torch Op δ β) (sources : Sources δ) (sourceIndices : String → Option (List ℕ))
    (buffers : ℕ → ℕ → β) (full : String → ℕ → β) (layout : Layout δ) (c : RecordedCopy Op δ) : Prop where
  exact : ∃ segments, planCopy torch.replay sources sourceIndices c = .ok (.exact segments)
  view : ViewChain torch c.opChain
  recorded : Recorded layout c
  holds : Holding sources sourceIndices buffers (full c.srcName) c.srcName

/-- What is known of a copy that is replayed from its source. -/
structure Replayable (torch : Torch Op δ β) (sources : Sources δ) (layout : Layout δ) (c : RecordedCopy Op δ) :
    Prop where
  view : ViewChain torch c.opChain
  recorded : Recorded layout c
  sliced : Sliced torch sources c
  cast : ∀ src, sources.lookup c.srcName = some src → ∀ x y : ℕ → β,
    (∀ b < torch.itemsize src.dtype, x b = y b) → ∀ b < torch.itemsize c.destDtype,
      torch.castTo c.destDtype src.dtype x b = torch.castTo c.destDtype src.dtype y b

variable {c : RecordedCopy Op δ}

omit hitem hpart in
theorem Ready.replayable
    (h : Ready torch sources sourceIndices buffers full layout c) : Replayable torch sources layout c := by
  obtain ⟨_, hex⟩ := h.exact
  obtain ⟨src, _, hsrc, -, hdtype, hpull⟩ := planCopy_exact.1 hex
  obtain ⟨-, v, box, perm, hp⟩ := planPull_ok hpull
  refine ⟨h.view, h.recorded, fun src' hsrc' => ?_, fun src' hsrc' x y hxy b hb => ?_⟩
  · cases hsrc.symm.trans hsrc'
    refine ⟨v, hp.view, hp.shape ▸ broadcasts_refl _, fun j hj => ?_⟩
    rw [← hp.boxOf.address hj]
    exact dot_rowMajor_lt (hp.boxOf.mem_indices hj)
  · cases hsrc.symm.trans hsrc'
    rw [Torch.castTo, Torch.castTo, if_pos hdtype, if_pos hdtype]
    exact hxy b (hdtype ▸ hb)

omit [DecidableEq δ] hitem hpart in
theorem destination_of_recorded (h : Recorded layout c) : destination layout c = .ok c.destDtype := by
  obtain ⟨_, hlayout, hinside⟩ := h
  simp only [destination, bind_eq_ok, found_eq_ok, ensure_eq_ok, exists_const, pure_eq_ok]
  exact ⟨_, hlayout, hinside, rfl⟩

omit hpart in
theorem replayCopy_makes {src : SourceInfo δ} {m : Memory β}
    (h : Replayable torch sources layout c) (hsrc : sources.lookup c.srcName = some src)
    (hstaged : ∀ i ∈ indices src.globalShape, ∀ b < src.elsize,
      m (c.srcName, dot i (rowMajor src.globalShape) * src.elsize + b) =
        full c.srcName (dot i (rowMajor src.globalShape) * src.elsize + b)) :
    let staged := bufferTensor torch m c.srcName src.globalShape src.dtype
    (∀ recv s, replayCopy torch layout (staged, recv) c = .ok s → s.1 = staged) ∧
      Makes (Casts torch sources full c) fun recv => (replayCopy torch layout (staged, recv) c).map Prod.snd := by
  intro staged
  obtain ⟨v, hv, hbroad, hinside⟩ := h.sliced src hsrc
  obtain ⟨x, hx, hshape, hget⟩ := h.view _ v src.dtype _ hv
  -- the step as a whole
  have hstep : ∀ recv, replayCopy torch layout (staged, recv) c =
      .ok (staged, Writes.apply (copyWrites torch c c.destDtype ⟨src.dtype, x⟩) recv) := by
    intro recv
    simp only [replayCopy, copyInto, bind_eq_ok, ensure_eq_ok, exists_const, pure_eq_ok]
    exact ⟨_, destination_of_recorded h.recorded, _, hx, _, ⟨hshape ▸ hbroad, rfl⟩, rfl⟩
  refine ⟨fun recv s hs => ?_, copyWrites torch c c.destDtype ⟨src.dtype, x⟩, fun w => ?_, fun recv => ?_⟩
  · rw [hstep] at hs
    cases hs
    rfl
  · -- element by element, the staged source has what the view addresses
    have hbyte : ∀ j ∈ indices c.destShape, ∀ b < torch.itemsize c.destDtype,
        torch.castTo c.destDtype src.dtype (x.get (broadcastIndex x.shape j)) b =
          torch.castTo c.destDtype src.dtype (sliceElement torch src.dtype (full c.srcName) v j) b := by
      intro j hj
      refine h.cast src hsrc _ _ fun b hb => ?_
      have hj' := broadcastIndex_mem_indices hbroad hj
      obtain ⟨i, hi, haddr⟩ := exists_dot_rowMajor (hinside _ hj')
      rw [hshape, hget _ hj', sliceElement, ← haddr, ← hitem _ _ hsrc]
      exact hstaged i hi b (hitem _ _ hsrc ▸ hb)
    simp only [copyWrites, mem_flatMap, mem_map, mem_range]
    constructor
    · rintro ⟨j, hj, b, hb, rfl⟩
      exact ⟨src, v, hsrc, hv, j, hj, b, hb, by rw [hbyte j hj b hb]⟩
    · rintro ⟨src', v', hsrc', hv', j, hj, b, hb, rfl⟩
      cases hsrc.symm.trans hsrc'
      cases hv.symm.trans hv'
      exact ⟨j, hj, b, hb, by rw [hbyte j hj b hb]⟩
  · exact congrArg (Except.map Prod.snd) (hstep recv)

/-! ## Executing a plan -/

section
variable (hnil : ∀ g, torch.replay [] g = .ok (.view (contiguousView g)))
variable (hplan : PlanOf torch.replay sources sourceIndices verify capture plan)
include hnil hplan

section
variable (hcopies : ∀ c ∈ capture.copies, Pulled plan c → Replayable torch sources layout c)
variable (hfull : ∀ c ∈ capture.copies, Holding sources sourceIndices buffers (full c.srcName) c.srcName)
include hcopies hfull

theorem replayFull_makes {f : FullPullSource Op δ} (hf : f ∈ plan.fullPulls)
    (horder : order.Perm (plan.fullPulls.flatMap (·.segments))) (m : Memory β) :
    Makes (fun w => ∃ c ∈ f.copies, Casts torch sources full c w)
      fun recv => replayFull torch layout plan (executeReads buffers order m) recv f := by
  obtain ⟨src, _, hof⟩ := hplan.fullPulls f hf
  have hcopy : ∀ c ∈ f.copies, (∀ recv s, replayCopy torch layout
      (bufferTensor torch (executeReads buffers order m) f.srcName src.globalShape src.dtype, recv) c = .ok s →
        s.1 = bufferTensor torch (executeReads buffers order m) f.srcName src.globalShape src.dtype) ∧
      Makes (Casts torch sources full c) fun recv => (replayCopy torch layout
        (bufferTensor torch (executeReads buffers order m) f.srcName src.globalShape src.dtype, recv) c).map
          Prod.snd := by
    intro c hc
    obtain ⟨hcc, hname⟩ := hof.copies c hc
    have hholds := hfull c hcc
    rw [hname] at hholds
    rw [← hname]
    refine replayCopy_makes hitem (hcopies c hcc ⟨f, hf, hc⟩) (hname ▸ hof.lookup) fun i hi b hb => ?_
    rw [hname]
    exact staged_bytes hpart hnil hplan hf hof.lookup hholds horder m hi hb
  refine (makes_foldlM fun c hc => (hcopy c hc).2).congr fun recv => ?_
  refine Eq.trans ?_ (foldlM_snd (fun c hc => (hcopy c hc).1) recv)
  rw [replayFull, fullLayout_eq hplan hf hof.lookup]
  rfl

theorem reconstruct_makes {recvReads fullReads : List LogicalRead} (hrecv : recvReads.Perm plan.segments)
    (hreads : fullReads.Perm (plan.fullPulls.flatMap (·.segments))) (m : Memory β) :
    Makes (fun w => ∃ c ∈ capture.copies, (Pulled plan c ∨ ∃ segments,
        planCopy torch.replay sources sourceIndices c = .ok (.exact segments)) ∧ Casts torch sources full c w)
      fun recv => plan.fullPulls.foldlM (replayFull torch layout plan (executeReads buffers fullReads m))
        (executeReads buffers recvReads recv) := by
  have hdirect : Makes (fun w => ∃ c ∈ capture.copies, ¬ Pulled plan c ∧ (∃ segments,
      planCopy torch.replay sources sourceIndices c = .ok (.exact segments)) ∧ Casts torch sources full c w)
      fun recv => (.ok (executeReads buffers recvReads recv) : Except PlanError (Memory β)) := by
    refine makes_apply fun w => ?_
    rw [mem_readWrites_perm buffers hrecv]
    simp only [readWrites, mem_flatMap, hplan.mem_segments]
    constructor
    · rintro ⟨r, ⟨c, hc, segments, hex, hnot, hr⟩, hw⟩
      refine ⟨c, hc, hnot, ⟨segments, hex⟩, (casts_iff_delivers hex w).2 ?_⟩
      exact (exact_writes hitem hpart hex (hfull c hc) w).1 (mem_flatMap.2 ⟨r, hr, hw⟩)
    · rintro ⟨c, hc, hnot, ⟨segments, hex⟩, hw⟩
      obtain ⟨r, hr, hw⟩ := mem_flatMap.1
        ((exact_writes hitem hpart hex (hfull c hc) w).2 ((casts_iff_delivers hex w).1 hw))
      exact ⟨r, ⟨c, hc, segments, hex, hnot, hr⟩, hw⟩
  have hpulled : Makes (fun w => ∃ f ∈ plan.fullPulls, ∃ c ∈ f.copies, Casts torch sources full c w)
      (plan.fullPulls.foldlM (replayFull torch layout plan (executeReads buffers fullReads m))) :=
    makes_foldlM fun f hf => replayFull_makes hitem hpart hnil hplan hcopies hfull hf hreads m
  refine (hdirect.bind hpulled).of_iff fun w => ?_
  constructor
  · rintro (⟨c, hc, -, hex, hw⟩ | ⟨f, hf, c, hc, hw⟩)
    · exact ⟨c, hc, Or.inr hex, hw⟩
    · obtain ⟨_, _, hof⟩ := hplan.fullPulls f hf
      exact ⟨c, (hof.copies c hc).1, Or.inl ⟨f, hf, hc⟩, hw⟩
  · rintro ⟨c, hc, hcases, hw⟩
    by_cases hp : Pulled plan c
    · obtain ⟨f, hf, hcf⟩ := hp
      exact Or.inr ⟨f, hf, c, hcf, hw⟩
    · exact Or.inl ⟨c, hc, hp, hcases.resolve_left hp, hw⟩

end

section
variable (hready : ∀ c ∈ capture.copies, Ready torch sources sourceIndices buffers full layout c)
include hready

omit hitem hpart hnil in
theorem converts_eq_nil : plan.converts = [] := by
  refine eq_nil_iff_forall_not_mem.2 fun v hv => ?_
  obtain ⟨c, hc, hconv, -⟩ := (hplan.mem_converts v).1 hv
  obtain ⟨_, hex⟩ := (hready c hc).exact
  cases hconv.symm.trans hex

/-- **The execution of a plan** makes the writes of its copies. -/
theorem stage_makes {run : Execution Op δ β} (hrun : run.plan = plan) :
    Makes (fun w => ∃ c ∈ capture.copies, Delivers torch sources full c w)
      (run.stage torch layout buffers) := by
  have hmakes := reconstruct_makes hitem hpart hnil hplan (fun c hc _ => (hready c hc).replayable)
    (fun c hc => (hready c hc).holds) (hrun ▸ run.recv_perm) (hrun ▸ run.full_perm) run.full
  refine (hmakes.of_iff fun w => exists_congr fun c => and_congr_right fun hc => ?_).congr fun recv => ?_
  · obtain ⟨segments, hex⟩ := (hready c hc).exact
    rw [casts_iff_delivers hex]
    exact and_iff_right (Or.inr ⟨segments, hex⟩)
  · simp only [Execution.stage, completeStage, hrun, converts_eq_nil hplan hready, foldlM_nil, bind_pure]

end

end

end

/-! ## The modelled operations -/

section
variable {δ β : Type} [Zero β]

/-- PyTorch with the view operations of `Op`, for elements of `itemsize` bytes. -/
def viewTorch (itemsize : δ → ℕ) (cast : δ → δ → (ℕ → β) → ℕ → β) : Torch Op δ β where
  itemsize := itemsize
  replay := replayOps
  replayOn chain x := do
    ensure (.zero_ ∉ chain) .torch
    match ← applyChain chain x.tensor with
    | .tensor y => return (⟨x.dtype, y⟩, x)
    | .tuple _ => throw .torch
  cast := cast

theorem viewChain_ops {itemsize : δ → ℕ} {cast : δ → δ → (ℕ → β) → ℕ → β} {chain : List Op}
    (h : .zero_ ∉ chain) : ViewChain (viewTorch itemsize cast) chain := by
  intro g v _ full hv
  obtain ⟨x, hx, hreads⟩ := reads_applyChain hv full
  refine ⟨x, ?_, hreads.shape, fun j hj => hreads.get j hj h⟩
  simp only [viewTorch, bind_eq_ok, ensure_eq_ok, exists_const]
  exact ⟨h, _, hx, rfl⟩

end

end ModelExpress.Reshard
