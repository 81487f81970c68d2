/-
  ModelExpress reshard planner — what the reads of a pull transfer.
-/
import ModelExpress.Lib.Writes
import ModelExpress.Reshard.Slices

namespace ModelExpress.Reshard

open Checks Strided List

/-! ## Executing reads -/

abbrev Memory (β : Type) := String × ℕ → β

section
variable {β : Type} (buffers : ℕ → ℕ → β)

def LogicalRead.writes (r : LogicalRead) : List ((String × ℕ) × β) :=
  (List.range r.nbytes).map fun k => ((r.paramName, r.dstByte + k), buffers r.sourceBuffer (r.srcByte + k))

def readWrites (reads : List LogicalRead) : List ((String × ℕ) × β) :=
  reads.flatMap (·.writes buffers)

theorem mem_readWrites_perm {reads reads' : List LogicalRead} (h : reads.Perm reads') {w : (String × ℕ) × β} :
    w ∈ readWrites buffers reads ↔ w ∈ readWrites buffers reads' := (h.flatMap_right _).mem_iff

def executeReads (reads : List LogicalRead) (m : Memory β) : Memory β :=
  Writes.apply (readWrites buffers reads) m

/-- `buffer` is the row-major buffer of the shard of a tensor with the bytes `full`. -/
def Shard.Holds (sh : Shard) (globalShape : List ℕ) (elsize : ℕ) (buffer full : ℕ → β) : Prop :=
  ∀ i ∈ indices globalShape, InBox i sh.box → ∀ b < elsize,
    buffer (dot (i.zipWith (· - ·) sh.shardOffset) (rowMajor sh.shape) * elsize + b) =
      full (dot i (rowMajor globalShape) * elsize + b)

end

def LogicalRead.Covers (r : LogicalRead) (x : ℕ) : Prop := r.dstByte ≤ x ∧ x < r.dstByte + r.nbytes

variable {x : ℕ} {r : LogicalRead} {β : Type} {run : ElementRun} {buffers : ℕ → ℕ → β}

theorem covers_run {e d n : ℕ} (hd : r.dstByte = d * e) (hn : r.nbytes = n * e) :
    r.Covers x ↔ ∃ t < n, ∃ b < e, x = (d + t) * e + b := by
  rw [LogicalRead.Covers, hd, hn]
  constructor
  · rintro ⟨hle, hlt⟩
    obtain ⟨t, ht, b, hb, heq⟩ := lt_mul_iff.1 (show x - d * e < n * e by omega)
    exact ⟨t, ht, b, hb, by rw [Nat.add_mul]; omega⟩
  · rintro ⟨t, ht, b, hb, rfl⟩
    have hlt := lt_mul_iff.2 ⟨t, ht, b, hb, rfl⟩
    rw [Nat.add_mul]
    omega

theorem mem_writes_run {e s d n : ℕ}
    (hs : r.srcByte = s * e) (hd : r.dstByte = d * e) (hn : r.nbytes = n * e) {w : (String × ℕ) × β} :
    w ∈ r.writes buffers ↔ ∃ t < n, ∃ b < e,
      w = ((r.paramName, (d + t) * e + b), buffers r.sourceBuffer ((s + t) * e + b)) := by
  simp only [LogicalRead.writes, mem_map, mem_range, hs, hd, hn]
  constructor
  · rintro ⟨i, hi, rfl⟩
    obtain ⟨t, ht, b, hb, rfl⟩ := lt_mul_iff.1 hi
    exact ⟨t, ht, b, hb, by rw [Nat.add_mul d, Nat.add_mul s, Nat.add_assoc, Nat.add_assoc]⟩
  · rintro ⟨t, ht, b, hb, rfl⟩
    exact ⟨t * e + b, lt_mul_iff.2 ⟨t, ht, b, hb, rfl⟩, by
      rw [Nat.add_mul d, Nat.add_mul s, Nat.add_assoc, Nat.add_assoc]⟩

/-! ## The runs of a shard -/

section
variable {Op δ : Type} {replay : Replay Op} {copy : RecordedCopy Op δ}
variable {globalShape : List ℕ} {srcDtype : δ} {elsize : ℕ} {shards : List Shard} {bufferIndices : List ℕ}
variable {reads : List LogicalRead} {v : View} {box : Box} {perm : List ℕ}

/-- A run of the overlap of the `k`-th shard with the needed box. -/
def HasRun (copy : RecordedCopy Op δ) (box : Box) (perm : List ℕ) (shards : List Shard) (k : ℕ)
    (sh : Shard) (run : ElementRun) : Prop :=
  shards[k]? = some sh ∧ sh.shardOffset.length = sh.shape.length ∧
    ∃ overlap, intersect box sh.box = .ok (some overlap) ∧
      run ∈ pairedRuns overlap sh.shardOffset (rowMajor sh.shape) (corner box)
        (scatter (List.replicate box.length 0) perm copy.destStride)

variable {k y : ℕ} {sh : Shard} {w : (String × ℕ) × β}

/-! ## The reads of a pull -/

def readOf (copy : RecordedCopy Op δ) (elsize : ℕ) (bufferIndices : List ℕ) (k : ℕ) (sh : Shard)
    (run : ElementRun) : LogicalRead :=
  ⟨bufferIndices.getD k 0, run.src * sh.elsize, copy.paramName, (copy.destOffset + run.dst) * elsize,
    run.len * elsize⟩

/-- What a successful plan is made of: the copy reads the view `v`, which is a box of the
    source, and the reads are those of the runs of all shards. -/
structure Pull (replay : Replay Op) (copy : RecordedCopy Op δ) (globalShape : List ℕ) (elsize : ℕ)
    (shards : List Shard) (bufferIndices : List ℕ) (reads : List LogicalRead) (v : View) (box : Box)
    (perm : List ℕ) : Prop where
  view : replay copy.opChain globalShape = .ok (.view v)
  boxPerm : viewToBoxPerm v globalShape = .ok (box, perm)
  shape : copy.destShape = v.shape
  length : bufferIndices.length = shards.length
  ranks : ∀ sh ∈ shards, sh.shardOffset.length = sh.shape.length ∧ ∃ o, intersect box sh.box = .ok o
  mem_reads : ∀ r, r ∈ reads ↔ ∃ k sh run, HasRun copy box perm shards k sh run ∧
    r = readOf copy elsize bufferIndices k sh run

theorem pullRegion_eq_ok {needed : Box} {strides : List ℕ} {o : Option Region} :
    pullRegion needed strides sh k = .ok o ↔ sh.shardOffset.length = sh.shape.length ∧
      ∃ overlap, intersect needed sh.box = .ok overlap ∧
        o = overlap.map fun c => ⟨k, sh, c, corner needed, strides⟩ := by
  simp only [pullRegion, bind_eq_ok, ensure_eq_ok, exists_const, pure_eq_ok,
    eq_comm (b := o)]

theorem planPull_ok [DecidableEq δ]
    (h : planPull replay copy globalShape srcDtype elsize shards bufferIndices = .ok reads) :
    srcDtype = copy.destDtype ∧
      ∃ v box perm, Pull replay copy globalShape elsize shards bufferIndices reads v box perm := by
  simp only [planPull, pullRegions, bind_eq_ok, ensure_eq_ok, exists_const, pure_eq_ok, Prod.exists, resolveSlice_eq_ok] at h
  obtain ⟨hlen, _, ⟨hdtype, box, _, ⟨v, perm, hv, hbox, hshape, rfl⟩, _, hfound, rfl⟩, rfl⟩ := h
  refine ⟨hdtype, v, box, perm, hv, hbox, hshape, hlen, fun sh hsh => ?_, fun r => ?_⟩
  · obtain ⟨k, hk⟩ := mem_iff_getElem?.1 hsh
    obtain ⟨o, -, ho⟩ := exists_mem_of_mapM hfound
      (mem_zipIdx_iff_getElem? (x := (sh, k)).2 hk)
    obtain ⟨hrank, c, hc, -⟩ := pullRegion_eq_ok.1 ho
    exact ⟨hrank, c, hc⟩
  · simp only [mem_flatMap, reduceOption_mem_iff, mem_of_mapM hfound, Prod.exists,
      mem_zipIdx_iff_getElem?, pullRegion_eq_ok, Region.reads, mem_map, rowMajorStrides_eq,
      HasRun, (viewToBoxPerm_ok hbox).1.length]
    constructor
    · rintro ⟨_, ⟨sh, k, hk, hrank, o, ho, hregion⟩, run, hrun, rfl⟩
      obtain ⟨c, rfl, rfl⟩ := Option.map_eq_some_iff.1 hregion.symm
      exact ⟨k, sh, run, ⟨hk, hrank, c, ho, hrun⟩, rfl⟩
    · rintro ⟨k, sh, run, ⟨hk, hrank, c, ho, hrun⟩, rfl⟩
      exact ⟨_, ⟨sh, k, hk, hrank, some c, ho, rfl⟩, run, hrun, rfl⟩

theorem exists_planPull [DecidableEq δ] (elsize : ℕ) (hv : replay copy.opChain globalShape = .ok (.view v))
    (hbox : viewToBoxPerm v globalShape = .ok (box, perm)) (hshape : copy.destShape = v.shape)
    (hdtype : srcDtype = copy.destDtype) (hlen : bufferIndices.length = shards.length)
    (hrank : ∀ sh ∈ shards, sh.shardOffset.length = globalShape.length ∧ sh.shape.length = globalShape.length) :
    ∃ reads, planPull replay copy globalShape srcDtype elsize shards bufferIndices = .ok reads := by
  have hregions : ∃ regions, shards.zipIdx.mapM (fun sh => pullRegion box
      (scatter (replicate globalShape.length 0) perm copy.destStride) sh.1 sh.2) = .ok regions := by
    refine exists_mapM fun sh hsh => ?_
    obtain ⟨hoff, hsh⟩ := hrank sh.1 (mem_of_getElem? (mem_zipIdx_iff_getElem?.1 hsh))
    have hsame : sh.1.shardOffset.length = sh.1.shape.length := hoff.trans hsh.symm
    obtain ⟨o, ho⟩ := intersect_of_length (a := box) (b := sh.1.box)
      ((viewToBoxPerm_ok hbox).1.length.trans (hoff.symm.trans (length_boxAt hsame).symm))
    exact ⟨_, pullRegion_eq_ok.2 ⟨hsame, o, ho, rfl⟩⟩
  obtain ⟨regions, hregions⟩ := hregions
  simp only [planPull, pullRegions, bind_eq_ok, ensure_eq_ok, exists_const, pure_eq_ok, Prod.exists, resolveSlice_eq_ok]
  exact ⟨_, hlen, _, ⟨hdtype, box, _, ⟨v, perm, hv, hbox, hshape, rfl⟩, regions, hregions, rfl⟩, rfl⟩

/-! ## Bytes -/

theorem mem_runElements : (x, y) ∈ runElements run ↔ ∃ t < run.len, x = run.src + t ∧ y = run.dst + t := by
  simp only [runElements, mem_map, mem_range, Prod.mk.injEq, eq_comm (b := x), eq_comm (b := y)]

theorem mem_writes_readOf (hel : sh.elsize = elsize) :
    w ∈ (readOf copy elsize bufferIndices k sh run).writes buffers ↔
      ∃ x y, (x, y) ∈ runElements run ∧ ∃ b < elsize,
        w = ((copy.paramName, (copy.destOffset + y) * elsize + b),
          buffers (bufferIndices.getD k 0) (x * elsize + b)) := by
  rw [mem_writes_run (s := run.src) (d := copy.destOffset + run.dst) (congrArg (run.src * ·) hel) rfl rfl]
  simp only [mem_runElements]
  constructor
  · rintro ⟨t, ht, b, hb, rfl⟩
    exact ⟨_, _, ⟨t, ht, rfl, rfl⟩, b, hb, by rw [← Nat.add_assoc]; rfl⟩
  · rintro ⟨_, _, ⟨t, ht, rfl, rfl⟩, b, hb, rfl⟩
    exact ⟨t, ht, b, hb, by rw [← Nat.add_assoc]; rfl⟩

namespace Pull
variable (h : Pull replay copy globalShape elsize shards bufferIndices reads v box perm)
include h

theorem boxOf : BoxOf v globalShape box perm := (viewToBoxPerm_ok h.boxPerm).1

theorem mem_runs (hk : shards[k]? = some sh) :
    (∃ run, HasRun copy box perm shards k sh run ∧ (x, y) ∈ runElements run) ↔
      ∃ j ∈ indices v.shape, InBox (sourceIndex box perm j) sh.box ∧
        x = dot ((sourceIndex box perm j).zipWith (· - ·) sh.shardOffset) (rowMajor sh.shape) ∧
        y = dot j copy.destStride := by
  obtain ⟨hrank, o, ho⟩ := h.ranks sh (mem_of_getElem? hk)
  have hbox := h.boxOf
  -- the runs of one overlap
  have hruns : ∀ c, intersect box sh.box = .ok (some c) →
      ((∃ run ∈ pairedRuns c sh.shardOffset (rowMajor sh.shape) (corner box)
        (scatter (replicate box.length 0) perm copy.destStride), (x, y) ∈ runElements run) ↔
      ∃ j ∈ indices v.shape, InBox (sourceIndex box perm j) c ∧
        x = dot ((sourceIndex box perm j).zipWith (· - ·) sh.shardOffset) (rowMajor sh.shape) ∧
        y = dot j copy.destStride) := by
    intro c hc
    obtain ⟨hlo, hlo'⟩ := intersect_corner hc
    have hlen : c.length = box.length := by simpa [corner] using hlo.length_eq.symm
    have hlen' : sh.shape.length = c.length := by
      simpa [corner, length_boxAt hrank, hrank, Shard.box] using hlo'.length_eq
    rw [Shard.box, corner_boxAt hrank] at hlo'
    rw [mem_pairedRuns (by simpa using hlen') (by simp [hlen]) hlo' hlo]
    constructor
    · rintro ⟨i, hi, rfl, rfl⟩
      obtain ⟨j, hj, rfl⟩ := hbox.inBox_iff.1 ((intersect_ok hc i).1 ⟨c, rfl, hi⟩).1
      exact ⟨j, hj, hi, rfl, by rw [hbox.length, hbox.dest hj (copy.rank.trans (by rw [h.shape]))]⟩
    · rintro ⟨j, hj, hi, rfl, rfl⟩
      exact ⟨_, hi, rfl, by rw [hbox.length, hbox.dest hj (copy.rank.trans (by rw [h.shape]))]⟩
  constructor
  · rintro ⟨run, ⟨-, -, c, hc, hrun⟩, hxy⟩
    obtain ⟨j, hj, hi, hx, hy⟩ := (hruns c hc).1 ⟨run, hrun, hxy⟩
    exact ⟨j, hj, ((intersect_ok hc _).1 ⟨c, rfl, hi⟩).2, hx, hy⟩
  · rintro ⟨j, hj, hi, hx, hy⟩
    obtain ⟨c, rfl, hic⟩ := (intersect_ok ho _).2 ⟨hbox.inBox hj, hi⟩
    obtain ⟨run, hrun, hxy⟩ := (hruns c ho).2 ⟨j, hj, hic, hx, hy⟩
    exact ⟨run, ⟨hk, hrank, c, ho, hrun⟩, hxy⟩

theorem mem_readWrites (hel : ∀ sh ∈ shards, sh.elsize = elsize) :
    w ∈ readWrites buffers reads ↔ ∃ k sh, shards[k]? = some sh ∧ ∃ j ∈ indices v.shape,
      InBox (sourceIndex box perm j) sh.box ∧ ∃ b < elsize,
        w = ((copy.paramName, (copy.destOffset + dot j copy.destStride) * elsize + b),
          buffers (bufferIndices.getD k 0)
            (dot ((sourceIndex box perm j).zipWith (· - ·) sh.shardOffset) (rowMajor sh.shape) * elsize + b)) := by
  simp only [readWrites, mem_flatMap, h.mem_reads]
  constructor
  · rintro ⟨_, ⟨k, sh, run, hrun, rfl⟩, hw⟩
    have hk := hrun.1
    obtain ⟨x, y, hxy, b, hb, rfl⟩ := (mem_writes_readOf (hel sh (mem_of_getElem? hk))).1 hw
    obtain ⟨j, hj, hin, rfl, rfl⟩ := (h.mem_runs hk).1 ⟨run, hrun, hxy⟩
    exact ⟨k, sh, hk, j, hj, hin, b, hb, rfl⟩
  · rintro ⟨k, sh, hk, j, hj, hin, b, hb, rfl⟩
    obtain ⟨run, hrun, hxy⟩ := (h.mem_runs hk).2 ⟨j, hj, hin, rfl, rfl⟩
    exact ⟨_, ⟨k, sh, run, hrun, rfl⟩,
      (mem_writes_readOf (hel sh (mem_of_getElem? hk))).2 ⟨_, _, hxy, b, hb, rfl⟩⟩

theorem paramName_of_mem (hr : r ∈ reads) : r.paramName = copy.paramName := by
  obtain ⟨k, sh, run, -, rfl⟩ := (h.mem_reads r).1 hr
  rfl

theorem covers_iff : (∃ r ∈ reads, r.Covers x) ↔ ∃ j ∈ indices v.shape,
    (∃ sh ∈ shards, InBox (sourceIndex box perm j) sh.box) ∧
      ∃ b < elsize, x = (copy.destOffset + dot j copy.destStride) * elsize + b := by
  simp only [h.mem_reads]
  constructor
  · rintro ⟨_, ⟨k, sh, run, hrun, rfl⟩, hcov⟩
    obtain ⟨t, ht, b, hb, rfl⟩ := (covers_run rfl rfl).1 hcov
    obtain ⟨j, hj, hin, -, hy⟩ := (h.mem_runs hrun.1).1 ⟨run, hrun, mem_runElements.2 ⟨t, ht, rfl, rfl⟩⟩
    exact ⟨j, hj, ⟨sh, mem_of_getElem? hrun.1, hin⟩, b, hb, by rw [Nat.add_assoc copy.destOffset, hy]⟩
  · rintro ⟨j, hj, ⟨sh, hsh, hin⟩, b, hb, rfl⟩
    obtain ⟨k, hk⟩ := mem_iff_getElem?.1 hsh
    obtain ⟨run, hrun, hxy⟩ := (h.mem_runs hk).2 ⟨j, hj, hin, rfl, rfl⟩
    obtain ⟨t, ht, -, hy⟩ := mem_runElements.1 hxy
    refine ⟨_, ⟨k, sh, run, hrun, rfl⟩, (covers_run rfl rfl).2 ⟨t, ht, b, hb, ?_⟩⟩
    rw [hy, Nat.add_assoc copy.destOffset]

theorem filled_iff (hoffset : copy.destOffset = 0) (hstride : copy.destStride = rowMajor copy.destShape)
    (he : 0 < elsize) : (∀ x < copy.destShape.prod * elsize, ∃ r ∈ reads, r.Covers x) ↔
      ∀ j ∈ indices copy.destShape, ∃ sh ∈ shards, InBox (sourceIndex box perm j) sh.box := by
  have hcov : ∀ x, (∃ r ∈ reads, r.Covers x) ↔ ∃ j ∈ indices copy.destShape,
      (∃ sh ∈ shards, InBox (sourceIndex box perm j) sh.box) ∧
        ∃ b < elsize, x = dot j (rowMajor copy.destShape) * elsize + b := by
    intro x
    rw [h.covers_iff, ← h.shape, hoffset, hstride]
    simp only [Nat.zero_add]
  constructor
  · intro hall j hj
    -- the first byte of the element
    obtain ⟨j', hj', hin, b, hb, heq⟩ := (hcov _).1 (hall (dot j (rowMajor copy.destShape) * elsize + 0)
      (lt_mul_iff.2 ⟨_, dot_rowMajor_lt hj, 0, he, rfl⟩))
    obtain rfl : j = j' := dot_rowMajor_inj hj hj' (mul_add_inj he hb heq).1
    exact hin
  · intro hall x hx
    obtain ⟨a, ha, b, hb, rfl⟩ := lt_mul_iff.1 hx
    obtain ⟨j, hj, rfl⟩ := exists_dot_rowMajor ha
    exact (hcov _).2 ⟨j, hj, hall j hj, b, hb, rfl⟩

theorem read_inside (hel : ∀ sh ∈ shards, sh.elsize = elsize) (hr : r ∈ reads) :
    ∃ (k : ℕ) (sh : Shard), shards[k]? = some sh ∧ bufferIndices[k]? = some r.sourceBuffer ∧
      ∀ i < r.nbytes, r.srcByte + i < sh.shape.prod * elsize := by
  obtain ⟨k, sh, run, hrun, rfl⟩ := (h.mem_reads r).1 hr
  have hk := hrun.1
  obtain ⟨hlt, -⟩ := List.getElem?_eq_some_iff.1 hk
  refine ⟨k, sh, hk, ?_, fun i hi => ?_⟩
  · rw [← h.length] at hlt
    simp [readOf, hlt]
  · obtain ⟨t, ht, b, hb, rfl⟩ := lt_mul_iff.1 hi
    obtain ⟨j, -, hin, hx, -⟩ := (h.mem_runs hk).1 ⟨run, hrun, mem_runElements.2 ⟨t, ht, rfl, rfl⟩⟩
    have hrank := (h.ranks sh (mem_of_getElem? hk)).1
    have hlt : run.src + t < sh.shape.prod := hx ▸ dot_rowMajor_lt (sub_mem_indices hrank hin)
    refine lt_mul_iff.2 ⟨_, hlt, b, hb, ?_⟩
    simp only [readOf, hel sh (mem_of_getElem? hk), Nat.add_mul, Nat.add_assoc]

end Pull

/-- **Pulls are exact.** The reads of `planPull`, in any order, put every element of the view where the
    destination has it, write nothing else, and stay inside the buffers. -/
theorem pull_exact [DecidableEq δ] {β : Type} {full : ℕ → β} {buffers : ℕ → ℕ → β}
    (hview : replay copy.opChain globalShape = .ok (.view v))
    (haccept : viewToBoxPerm v globalShape = .ok (box, perm))
    (hshape : copy.destShape = v.shape) (hdtype : srcDtype = copy.destDtype)
    (hinj : ∀ j ∈ indices v.shape, ∀ j' ∈ indices v.shape,
      dot j copy.destStride = dot j' copy.destStride → j = j')
    (hlen : bufferIndices.length = shards.length)
    (hrank : ∀ sh ∈ shards, sh.shardOffset.length = globalShape.length ∧ sh.shape.length = globalShape.length)
    (hel : ∀ sh ∈ shards, sh.elsize = elsize) (hcover : ∀ i, InBox i box → ∃ sh ∈ shards, InBox i sh.box)
    (hholds : ∀ (k : ℕ) (sh : Shard), shards[k]? = some sh →
      sh.Holds globalShape elsize (buffers (bufferIndices.getD k 0)) full) :
    ∃ reads, planPull replay copy globalShape srcDtype elsize shards bufferIndices = .ok reads ∧
      (∀ order, order.Perm reads → ∀ m : Memory β,
        (∀ j ∈ indices v.shape, ∀ b < elsize,
          executeReads buffers order m
              (copy.paramName, (copy.destOffset + dot j copy.destStride) * elsize + b) =
            full ((v.offset + dot j v.stride) * elsize + b)) ∧
        ∀ a, (∀ j ∈ indices v.shape, ∀ b < elsize,
            a ≠ (copy.paramName, (copy.destOffset + dot j copy.destStride) * elsize + b)) →
          executeReads buffers order m a = m a) ∧
      ∀ r ∈ reads, ∃ (k : ℕ) (sh : Shard), shards[k]? = some sh ∧ bufferIndices[k]? = some r.sourceBuffer ∧
        ∀ i < r.nbytes, r.srcByte + i < sh.shape.prod * elsize := by
  obtain ⟨reads, hreads⟩ := exists_planPull elsize hview haccept hshape hdtype hlen hrank
  obtain ⟨-, v', box', perm', hpull⟩ := planPull_ok hreads
  cases hview.symm.trans hpull.view
  obtain ⟨rfl, rfl⟩ : box = box' ∧ perm = perm' := by simpa [haccept] using hpull.boxPerm
  refine ⟨reads, hreads, fun order horder m => ?_, fun r hr => hpull.read_inside hel hr⟩
  -- the writes of the reads, in any order
  have hwrites : ∀ w, w ∈ readWrites buffers order ↔ ∃ j ∈ indices v.shape, ∃ b < elsize,
      w = ((copy.paramName, (copy.destOffset + dot j copy.destStride) * elsize + b),
        full ((v.offset + dot j v.stride) * elsize + b)) := by
    intro w
    rw [mem_readWrites_perm buffers horder, hpull.mem_readWrites hel]
    constructor
    · rintro ⟨k, sh, hk, j, hj, hin, b, hb, rfl⟩
      refine ⟨j, hj, b, hb, ?_⟩
      rw [hholds k sh hk _ (hpull.boxOf.mem_indices hj) hin b hb, hpull.boxOf.address hj]
    · rintro ⟨j, hj, b, hb, rfl⟩
      obtain ⟨sh, hsh, hin⟩ := hcover _ (hpull.boxOf.inBox hj)
      obtain ⟨k, hk⟩ := mem_iff_getElem?.1 hsh
      refine ⟨k, sh, hk, j, hj, hin, b, hb, ?_⟩
      rw [hholds k sh hk _ (hpull.boxOf.mem_indices hj) hin b hb, hpull.boxOf.address hj]
  constructor
  · intro j hj b hb
    refine Writes.apply_of_mem ((hwrites _).2 ⟨j, hj, b, hb, rfl⟩) (fun x hx => ?_) m
    obtain ⟨j', hj', b', hb', heq⟩ := (hwrites _).1 hx
    obtain ⟨haddr, hx⟩ := Prod.mk.inj heq
    obtain ⟨hsum, rfl⟩ := mul_add_inj hb hb' (Prod.mk.inj haddr).2
    rw [hx, hinj j hj j' hj' (Nat.add_left_cancel hsum)]
  · intro a ha
    refine Writes.apply_of_notMem (fun x hx => ?_) m
    obtain ⟨j, hj, b, hb, heq⟩ := (hwrites _).1 hx
    exact ha j hj b hb (congrArg Prod.fst heq)

end

section

theorem transposedColumns_rank : ([2, 1] : List ℕ).length = ([2, 2] : List ℕ).length := rfl

def transposedColumns : RecordedCopy Unit Unit where
  srcName := "w"
  opChain := [()]
  paramName := "p"
  destOffset := 0
  destShape := [2, 2]
  destStride := [2, 1]
  destDtype := ()
  rank := transposedColumns_rank

def transposedView : View := ⟨1, [2, 2], [1, 3], rfl⟩

def transposedReplay : Replay Unit := fun _ _ => .ok (.view transposedView)

def rowShards : List Shard := [⟨[0, 0], [1, 3], "a", 2⟩, ⟨[1, 0], [1, 3], "b", 2⟩]

def rowBuffers (k i : ℕ) : ℕ := 6 * k + i

theorem rowShards_hold (k : ℕ) (sh : Shard) (hk : rowShards[k]? = some sh) :
    sh.Holds [2, 3] 2 (rowBuffers ([0, 1].getD k 0)) fun i => i := by
  rcases k with _ | _ | k
  · cases hk
    show ∀ i ∈ indices [2, 3], _
    decide
  · cases hk
    show ∀ i ∈ indices [2, 3], _
    decide
  · cases hk

theorem pull_exact_transposed :
    ∃ reads, planPull transposedReplay transposedColumns [2, 3] () 2 rowShards [0, 1] = .ok reads ∧
      ∀ j ∈ indices [2, 2], ∀ b < 2,
        executeReads rowBuffers reads (fun _ => 0) ("p", dot j [2, 1] * 2 + b) =
          (1 + dot j [1, 3]) * 2 + b := by
  have hview : transposedReplay transposedColumns.opChain [2, 3] = .ok (.view transposedView) := rfl
  have haccept : viewToBoxPerm transposedView [2, 3] = .ok ([(0, 2), (1, 3)], [1, 0]) := rfl
  have hcover : ∀ i, InBox i [(0, 2), (1, 3)] → ∃ sh ∈ rowShards, InBox i sh.box := by
    intro i hi
    obtain ⟨j, hj, rfl⟩ := inBox_iff.1 hi
    revert j
    decide
  obtain ⟨reads, hreads, hexec, -⟩ := pull_exact hview haccept rfl rfl (by decide) rfl (by decide)
    (by decide) hcover rowShards_hold
  refine ⟨reads, hreads, fun j hj b hb => ?_⟩
  simpa [transposedColumns, transposedView] using (hexec reads (.refl _) fun _ => 0).1 j hj b hb

end

end ModelExpress.Reshard
