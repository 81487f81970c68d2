/-
  ModelExpress reshard planner — the accounting of a pull (`pull_metrics` of `slice_plan.py`).
-/
import Mathlib.Algebra.BigOperators.Ring.List
import ModelExpress.Reshard.Pull

namespace ModelExpress.Reshard

open Checks Strided List

/-- The number of indices that lie in two boxes of one rank. -/
def overlapVolume (a b : Box) : ℕ := (a.zipWith (fun x y => min x.2 y.2 - max x.1 y.1) b).prod

theorem intersect_volume {a b : Box} {o : Option Box} (h : intersect a b = .ok o) :
    overlapVolume a b = o.elim 0 fun c => (sizes c).prod := by
  induction a, b using intersect.induct generalizing o with
  | case1 =>
    cases h
    rfl
  | case2 a as b bs hle =>
    rw [intersect, if_pos hle] at h
    cases h
    simp [overlapVolume, Nat.sub_eq_zero_of_le hle]
  | case3 a as b bs hlt ih =>
    rw [intersect, if_neg hlt, bind_eq_ok] at h
    obtain ⟨rest, hrest, h⟩ := h
    cases h
    have hvol : overlapVolume (a :: as) (b :: bs) = (min a.2 b.2 - max a.1 b.1) * overlapVolume as bs := by
      simp [overlapVolume]
    rw [hvol, ih hrest]
    cases rest <;> simp [sizes]
  | case4 => simp [intersect] at h

theorem prod_mergeRuns (ns ss ds : List ℕ) {p : ℕ} (runLen : ℕ) (hp : p ≤ ns.length) :
    (ns.take (mergeRuns ns ss ds p runLen).1).prod * (mergeRuns ns ss ds p runLen).2 = (ns.take p).prod * runLen := by
  induction p generalizing runLen with
  | zero => rfl
  | succ p ih =>
    rw [mergeRuns]
    split_ifs
    · rw [ih _ (Nat.le_of_succ_le hp), take_succ_eq_append_getElem hp, prod_append, prod_singleton,
        getD_eq_getElem?_getD, getElem?_eq_getElem hp, Option.getD_some]
      ring
    · rfl

theorem length_indices (ns : List ℕ) : (indices ns).length = ns.prod := by
  simpa using congrArg length (map_dot_rowMajor ns)

section
variable {Op δ : Type} {copy : RecordedCopy Op δ} {elsize : ℕ} {bufferIndices : List ℕ} (r : Region)

def Region.runShape : ℕ × ℕ := pairedRunShape r.overlap (rowMajorStrides r.shard.shape) r.destStrides

theorem Region.map_nbytes : (r.reads copy elsize bufferIndices).map LogicalRead.nbytes =
    List.replicate ((sizes r.overlap).take r.runShape.1).prod (r.runShape.2 * elsize) := by
  rw [reads, map_map, pairedRuns, ← runShape]
  split_ifs with hp
  · simp [hp]
  · rw [map_map]
    refine eq_replicate_iff.2 ⟨by simp [length_indices], fun n hn => ?_⟩
    obtain ⟨idx, -, rfl⟩ := mem_map.1 hn
    rfl

theorem Region.length_reads :
    (r.reads copy elsize bufferIndices).length = ((sizes r.overlap).take r.runShape.1).prod := by
  rw [← length_map LogicalRead.nbytes, r.map_nbytes, length_replicate]

theorem Region.bytes :
    ((sizes r.overlap).take r.runShape.1).prod * r.runShape.2 * elsize = elsize * (sizes r.overlap).prod := by
  have hlen : (sizes r.overlap).length = r.overlap.length := length_map _
  have h := prod_mergeRuns (sizes r.overlap) (rowMajorStrides r.shard.shape) r.destStrides 1 hlen.ge
  rw [← hlen, take_length, mul_one, hlen] at h
  rw [runShape, pairedRunShape, h, mul_comm]

theorem sum_pullRegions {needed : Box} {destStrides : List ℕ} {l : List (Shard × ℕ)} {found : List (Option Region)}
    (h : l.mapM (fun sh => pullRegion needed destStrides sh.1 sh.2) = .ok found) :
    (found.reduceOption.map fun r => (sizes r.overlap).prod).sum =
      (l.map fun sh => overlapVolume needed sh.1.box).sum := by
  have hall := mapM_eq_ok.1 h
  clear h
  induction hall with
  | nil => rfl
  | @cons _ _ _ _ hsh _ ih =>
    simp only [pullRegion, bind_eq_ok, ensure_eq_ok, exists_const, pure_eq_ok] at hsh
    obtain ⟨-, overlap, hoverlap, rfl⟩ := hsh
    rw [map_cons, sum_cons, intersect_volume hoverlap, ← ih]
    cases overlap <;> simp

variable [DecidableEq δ]

/-- **Descriptor accounting**: `pull_metrics` raises when `plan_pull` does, and counts its reads and their
    bytes; these are the bytes of the overlaps of the needed box with the shards. -/
theorem metrics_match_plan (replay : Replay Op) (copy : RecordedCopy Op δ) (globalShape : List ℕ) (srcDtype : δ)
    (elsize : ℕ) (shards : List Shard) (bufferIndices : List ℕ) :
    ((∃ reads, planPull replay copy globalShape srcDtype elsize shards bufferIndices = .ok reads) ↔
      bufferIndices.length = shards.length ∧
        ∃ m, pullMetrics replay copy globalShape srcDtype elsize shards = .ok m) ∧
    ∀ reads m, planPull replay copy globalShape srcDtype elsize shards bufferIndices = .ok reads →
      pullMetrics replay copy globalShape srcDtype elsize shards = .ok m →
      m = (reads.length, (reads.map LogicalRead.nbytes).sum) ∧
        ∃ needed strides, resolveSlice replay copy globalShape = .ok (needed, strides) ∧
          m.2 = elsize * (shards.map fun sh => overlapVolume needed sh.box).sum := by
  simp only [planPull, pullMetrics, bind_eq_ok, ensure_eq_ok, exists_const, pure_eq_ok]
  refine ⟨⟨?_, ?_⟩, ?_⟩
  · rintro ⟨_, hlen, regions, hregions, -⟩
    exact ⟨hlen, _, regions, hregions, rfl⟩
  · rintro ⟨hlen, _, regions, hregions, -⟩
    exact ⟨_, hlen, regions, hregions, rfl⟩
  rintro _ _ ⟨-, _, hregions, rfl⟩ ⟨_, hregions', rfl⟩
  obtain rfl := Except.ok.inj (hregions.symm.trans hregions')
  simp only [map_map]
  refine ⟨congrArg₂ Prod.mk ?_ ?_, ?_⟩
  · rw [length_flatMap]
    exact congrArg sum (map_congr_left fun r _ => r.length_reads.symm)
  · rw [map_flatMap, flatMap, sum_flatten, map_map]
    refine congrArg sum (map_congr_left fun r _ => ?_)
    simp [r.map_nbytes, Region.runShape, mul_assoc]
  · simp only [pullRegions, bind_eq_ok, ensure_eq_ok, exists_const, pure_eq_ok] at hregions
    obtain ⟨-, ⟨needed, strides⟩, hresolve, _, hfound, rfl⟩ := hregions
    refine ⟨needed, strides, hresolve, ?_⟩
    have hshards : shards.map (fun sh => overlapVolume needed sh.box) =
        shards.zipIdx.map fun sh => overlapVolume needed sh.1.box := by
      conv_lhs => rw [← zipIdx_map_fst 0 shards, map_map]
      rfl
    rw [hshards, ← sum_pullRegions hfound, ← sum_map_mul_left]
    exact congrArg sum (map_congr_left fun r _ => r.bytes)

end

theorem metrics_match_plan_transposed :
    ∃ reads, planPull transposedReplay transposedColumns [2, 3] () 2 rowShards [0, 1] = .ok reads ∧
      pullMetrics transposedReplay transposedColumns [2, 3] () 2 rowShards = .ok (4, 8) ∧ reads.length = 4 := by
  obtain ⟨hraises, hcount⟩ := metrics_match_plan transposedReplay transposedColumns [2, 3] () 2 rowShards [0, 1]
  obtain ⟨reads, hreads⟩ := hraises.2 ⟨rfl, _, rfl⟩
  exact ⟨reads, hreads, rfl, (congrArg Prod.fst (hcount reads (4, 8) hreads rfl).1).symm⟩

end ModelExpress.Reshard
