/-
  ModelExpress reshard planner — what slice resolution and intersection compute.
-/
import ModelExpress.Reshard.SlicePlan

namespace ModelExpress.Reshard

open Checks Strided List

/-! ## Views as boxes -/

def sourceIndex (box : Box) (perm j : List ℕ) : List ℕ :=
  (corner box).zipWith (· + ·) (scatter (List.replicate box.length 0) perm j)

/-- The strided view `v` of a row-major tensor consists of the indices of `box`, its
    dimension `d` walking the dimension `perm[d]` of the tensor. -/
structure BoxOf (v : View) (globalShape : List ℕ) (box : Box) (perm : List ℕ) : Prop where
  nodup : perm.Nodup
  lt : ∀ s ∈ perm, s < box.length
  rank : perm.length = v.shape.length
  sizes_eq : sizes box = scatter (List.replicate box.length 1) perm v.shape
  inside : List.Forall₂ (fun b n => b.2 ≤ n) box globalShape
  offset : dot (corner box) (rowMajor globalShape) = v.offset
  stride : ∀ j ∈ indices v.shape, dot j (gather perm (rowMajor globalShape)) = dot j v.stride

variable {remaining perm gstrides globalShape strides ns ss ds : List ℕ} {box a b overlap : Box}
  {dims : List (Option ℕ)} {v : View}

theorem assignRemaining_ok (h : assignRemaining dims remaining = .ok perm) :
    List.Forall₂ (fun o s => o = some s ∨ o = none ∧ s ∈ remaining) dims perm := by
  induction dims, remaining using assignRemaining.induct generalizing perm with
  | case1 =>
    cases h
    exact .nil
  | case2 _ _ _ ih =>
    simp only [assignRemaining, bind_eq_ok, pure_eq_ok] at h
    obtain ⟨perm, h, rfl⟩ := h
    exact .cons (Or.inl rfl) (ih h)
  | case3 _ _ _ ih =>
    simp only [assignRemaining, bind_eq_ok, pure_eq_ok] at h
    obtain ⟨perm, h, rfl⟩ := h
    refine .cons (Or.inr ⟨rfl, mem_cons_self ..⟩) ((ih h).imp fun o s' => ?_)
    exact Or.imp_right fun hs => ⟨hs.1, mem_cons_of_mem _ hs.2⟩
  | case4 => cases h

theorem strideDim_ok {n stride : ℕ} {o : Option ℕ} (h : strideDim gstrides n stride = .ok o) :
    n = 1 ∧ o = none ∨ ∃ s, o = some s ∧ gstrides[s]? = some stride := by
  unfold strideDim at h
  split_ifs at h with hn
  · cases h
    exact Or.inl ⟨hn, rfl⟩
  · cases hs : gstrides.idxOf? stride with
    | none => simp [hs] at h
    | some s =>
      obtain ⟨hlt, hget, -⟩ := idxOf?_eq_some_iff.1 hs
      simp only [hs, Except.ok.injEq] at h
      exact Or.inr ⟨s, h.symm, List.getElem?_eq_some_iff.2 ⟨hlt, hget⟩⟩

/-- A dimension of the view has the stride of its source dimension, unless its extent is one. -/
def HasStride (gstrides : List ℕ) (d : ℕ × ℕ) (s : ℕ) : Prop :=
  s < gstrides.length ∧ (d.1 = 1 ∨ gstrides[s]? = some d.2)

theorem hasStride_of_dims {ds : List (ℕ × ℕ)} (hrem : ∀ s ∈ remaining, s < gstrides.length)
    (hdims : List.Forall₂ (fun d o => strideDim gstrides d.1 d.2 = .ok o) ds dims)
    (hperm : List.Forall₂ (fun o s => o = some s ∨ o = none ∧ s ∈ remaining) dims perm) :
    List.Forall₂ (HasStride gstrides) ds perm := by
  induction hdims generalizing perm with
  | nil =>
    cases hperm
    exact .nil
  | cons hd _ ih =>
    obtain _ | ⟨ho, hrest⟩ := hperm
    refine .cons ?_ (ih hrest)
    rcases strideDim_ok hd with ⟨hone, rfl⟩ | ⟨s, rfl, hs⟩
    · rcases ho with ho | ⟨-, hmem⟩
      · cases ho
      · exact ⟨hrem _ hmem, Or.inl hone⟩
    · rcases ho with ho | ⟨ho, -⟩
      · cases ho
        exact ⟨(List.getElem?_eq_some_iff.1 hs).1, Or.inr hs⟩
      · cases ho

theorem dot_gather_of_hasStride {shape stride j : List ℕ} (hlen : stride.length = shape.length)
    (h : List.Forall₂ (HasStride gstrides) (shape.zip stride) perm) (hj : j ∈ indices shape) :
    dot j (gather perm gstrides) = dot j stride := by
  induction shape generalizing stride perm j with
  | nil => simp [length_eq_zero_iff.1 (length_of_mem_indices hj)]
  | cons n shape ih =>
    obtain ⟨st, _, rfl⟩ := exists_cons_of_length_eq_add_one hlen
    obtain _ | ⟨⟨hlt, hs⟩, hrest⟩ := h
    obtain _ | ⟨hjn, hj⟩ := mem_indices.1 hj
    simp only [gather, map_cons, dot_cons]
    congr 1
    · rcases hs with hone | hs
      · -- an extent of one leaves only the coordinate zero
        obtain rfl : n = 1 := hone
        simp [Nat.lt_one_iff.1 hjn]
      · simp [hs]
    · exact ih (Nat.succ.inj hlen) hrest (mem_indices.2 hj)

theorem viewToBoxPerm_ok (h : viewToBoxPerm v globalShape = .ok (box, perm)) :
    BoxOf v globalShape box perm ∧ 0 ∉ globalShape := by
  simp only [viewToBoxPerm, bind_eq_ok, ensure_eq_ok, mapM_eq_ok, exists_const, pure_eq_ok, Prod.mk.injEq, rowMajorStrides_eq] at h
  obtain ⟨-, dims, hdims, perm, hperm, hnodup, hpos, hinside, hoffset, rfl, rfl⟩ := h
  have hstride := hasStride_of_dims
    (fun s hs => by simpa using mem_range.1 (mem_filter.1 hs).1) hdims (assignRemaining_ok hperm)
  have hlo : ((rowMajor globalShape).zipWith (fun g n => v.offset / g % n) globalShape).length =
      globalShape.length := by simp
  have hlen := hlo.trans (by simp : globalShape.length =
    (scatter (replicate globalShape.length 1) perm v.shape).length)
  have hbox := (length_boxAt hlen).trans hlo
  refine ⟨⟨hnodup, fun s hs => ?_, ?_, ?_, hinside, ?_, fun j hj => ?_⟩, hpos⟩
  · obtain ⟨d, -, hlt, -⟩ := exists_of_mem_right hstride hs
    simpa [hbox] using hlt
  · simpa [v.rank] using hstride.length_eq.symm
  · rw [sizes_boxAt hlen, hbox]
  · rw [corner_boxAt hlen, hoffset]
  · exact dot_gather_of_hasStride v.rank hstride hj

section
variable {Op δ : Type} {replay : Replay Op}

theorem replayView_eq_ok {opChain : List Op} :
    replayView replay opChain globalShape = .ok v ↔ replay opChain globalShape = .ok (.view v) := by
  simp only [replayView, bind_eq_ok]
  constructor
  · rintro ⟨r, hr, hv⟩
    cases r with
    | view v' =>
      cases hv
      exact hr
    | copied | tuple => cases hv
  · intro h
    exact ⟨_, h, rfl⟩

theorem resolveSlice_eq_ok {copy : RecordedCopy Op δ} : resolveSlice replay copy globalShape = .ok (box, strides) ↔
      ∃ v perm, replay copy.opChain globalShape = .ok (.view v) ∧
        viewToBoxPerm v globalShape = .ok (box, perm) ∧ copy.destShape = v.shape ∧
        strides = scatter (List.replicate globalShape.length 0) perm copy.destStride := by
  simp only [resolveSlice, bind_eq_ok, ensure_eq_ok, exists_const, replayView_eq_ok, pure_eq_ok, Prod.mk.injEq, Prod.exists]
  constructor
  · rintro ⟨v, hv, box', perm, hbox, hshape, rfl, rfl⟩
    exact ⟨v, perm, hv, hbox, hshape, rfl⟩
  · rintro ⟨v, perm, hv, hbox, hshape, rfl⟩
    exact ⟨v, hv, box, perm, hbox, hshape, rfl, rfl⟩

end

namespace BoxOf
variable {v : View} {globalShape : List ℕ} {box : Box} {perm j : List ℕ} (h : BoxOf v globalShape box perm)
include h

theorem length : box.length = globalShape.length := h.inside.length_eq

theorem address (hj : j ∈ indices v.shape) :
    dot (sourceIndex box perm j) (rowMajor globalShape) = v.offset + dot j v.stride := by
  have hlen : perm.length = j.length := h.rank.trans (length_of_mem_indices hj).symm
  rw [sourceIndex, dot_add (by simp [corner]), h.offset,
    dot_scatter_zero h.nodup h.lt hlen (by simp [h.length]), h.stride j hj]

theorem inBox_iff {i : List ℕ} : InBox i box ↔ ∃ j ∈ indices v.shape, i = sourceIndex box perm j := by
  simp only [Strided.inBox_iff, h.sizes_eq, mem_indices_scatter h.nodup h.lt h.rank]
  constructor
  · rintro ⟨_, ⟨j, hj, rfl⟩, rfl⟩
    exact ⟨j, hj, rfl⟩
  · rintro ⟨j, hj, rfl⟩
    exact ⟨_, ⟨j, hj, rfl⟩, rfl⟩

section
variable (hj : j ∈ indices v.shape)
include hj

theorem inBox : InBox (sourceIndex box perm j) box :=
  h.inBox_iff.2 ⟨j, hj, rfl⟩

theorem mem_indices : sourceIndex box perm j ∈ indices globalShape := by
  refine Strided.mem_indices.2 ?_
  have hin := h.inBox hj
  have hle := h.inside
  generalize sourceIndex box perm j = i at hin
  clear h hj
  induction hin generalizing globalShape with
  | nil =>
    cases hle
    exact .nil
  | cons hi _ ih =>
    obtain _ | ⟨hb, hrest⟩ := hle
    exact .cons (hi.2.trans_le hb) (ih hrest)

theorem dest (hs : strides.length = v.shape.length) :
    dot ((sourceIndex box perm j).zipWith (· - ·) (corner box))
      (scatter (List.replicate globalShape.length 0) perm strides) = dot j strides := by
  have hlen : perm.length = j.length := h.rank.trans (length_of_mem_indices hj).symm
  have hsub : (sourceIndex box perm j).zipWith (· - ·) (corner box) =
      scatter (replicate box.length 0) perm j := by
    refine ext_getElem (by simp [sourceIndex, corner]) fun d h₁ h₂ => ?_
    simp [sourceIndex]
  rw [hsub, dot_scatter_zero h.nodup h.lt hlen (by simp [h.length]),
    gather_scatter h.nodup (by simpa [h.length] using h.lt) (h.rank.trans hs.symm)]

end

end BoxOf

/-! ## Overlaps -/

theorem intersect_ok {o : Option Box} (h : intersect a b = .ok o) (i : List ℕ) :
    (∃ c, o = some c ∧ InBox i c) ↔ InBox i a ∧ InBox i b := by
  induction a generalizing b o i with
  | nil =>
    cases b with
    | nil =>
      cases h
      simp
    | cons y b => cases h
  | cons x a ih =>
    cases b with
    | nil => cases h
    | cons y b =>
      rw [intersect] at h
      cases i with
      | nil =>
        split_ifs at h with hdisj
        · cases h
          simp
        · simp only [bind_eq_ok, pure_eq_ok] at h
          obtain ⟨o, -, rfl⟩ := h
          simp
      | cons i is =>
        simp only [inBox_cons]
        split_ifs at h with hdisj
        · cases h
          simp only [reduceCtorEq, false_and, exists_false, false_iff]
          omega
        · simp only [bind_eq_ok, pure_eq_ok] at h
          obtain ⟨o, ho, rfl⟩ := h
          simp only [Option.map_eq_some_iff, exists_exists_and_eq_and, inBox_cons]
          constructor
          · rintro ⟨c, hc, hi, his⟩
            obtain ⟨h₁, h₂⟩ := (ih ho is).1 ⟨c, hc, his⟩
            exact ⟨⟨by omega, h₁⟩, by omega, h₂⟩
          · rintro ⟨⟨hia, h₁⟩, hib, h₂⟩
            obtain ⟨c, hc, his⟩ := (ih ho is).2 ⟨h₁, h₂⟩
            exact ⟨c, hc, by omega, his⟩

theorem intersect_of_length (h : a.length = b.length) : ∃ o, intersect a b = .ok o := by
  induction a generalizing b with
  | nil =>
    rw [length_eq_zero_iff.1 h.symm]
    exact ⟨_, rfl⟩
  | cons x a ih =>
    obtain ⟨y, b, rfl⟩ := exists_cons_of_length_eq_add_one h.symm
    obtain ⟨o, ho⟩ := ih (Nat.succ.inj h)
    rw [intersect]
    split_ifs
    · exact ⟨_, rfl⟩
    · exact ⟨_, by rw [ho]; rfl⟩

theorem intersect_corner {c : Box} (h : intersect a b = .ok (some c)) :
    List.Forall₂ (· ≤ ·) (corner a) (corner c) ∧ List.Forall₂ (· ≤ ·) (corner b) (corner c) := by
  induction a generalizing b c with
  | nil =>
    cases b with
    | nil =>
      cases h
      simp [corner]
    | cons y b => cases h
  | cons x a ih =>
    cases b with
    | nil => cases h
    | cons y b =>
      rw [intersect] at h
      split_ifs at h with hdisj
      · cases h
      · simp only [bind_eq_ok, pure_eq_ok, Option.map_eq_some_iff] at h
        obtain ⟨o, ho, c, rfl, rfl⟩ := h
        obtain ⟨h₁, h₂⟩ := ih ho
        exact ⟨.cons (le_max_left ..) h₁, .cons (le_max_right ..) h₂⟩

/-! ## Runs -/

/-- The offsets of the elements of a run in the source and in the destination. -/
def runElements (run : ElementRun) : List (ℕ × ℕ) :=
  (List.range run.len).map fun t => (run.src + t, run.dst + t)

/-- From the dimension `p` on, the strides are the row-major strides of the sizes, and a run has
    the elements of these dimensions. -/
structure Merged (sizes srcStrides dstStrides : List ℕ) (p runLen : ℕ) : Prop where
  le : p ≤ sizes.length
  run : runLen = (sizes.drop p).prod
  src : srcStrides.drop p = rowMajor (sizes.drop p)
  dst : dstStrides.drop p = rowMajor (sizes.drop p)

theorem mergeRuns_merged (p runLen : ℕ) (h : Merged ns ss ds p runLen) :
    Merged ns ss ds (mergeRuns ns ss ds p runLen).1 (mergeRuns ns ss ds p runLen).2 := by
  induction p generalizing runLen with
  | zero => exact h
  | succ p ih =>
    rw [mergeRuns]
    split_ifs with hs
    · have hp := h.le
      have hsizes : ns.drop p = ns[p] :: ns.drop (p + 1) := drop_eq_getElem_cons hp
      obtain ⟨hps, hs'⟩ := List.getElem?_eq_some_iff.1 hs.1
      obtain ⟨hpd, hd'⟩ := List.getElem?_eq_some_iff.1 hs.2
      refine ih _ ⟨Nat.le_of_succ_le hp, ?_, ?_, ?_⟩
      · rw [hsizes, prod_cons, h.run, getD_eq_getElem?_getD, getElem?_eq_getElem hp,
          Option.getD_some, Nat.mul_comm]
      · rw [drop_eq_getElem_cons hps, hsizes, rowMajor, hs', h.src, h.run]
      · rw [drop_eq_getElem_cons hpd, hsizes, rowMajor, hd', h.dst, h.run]
    · exact h

theorem flatMap_runs {p runLen : ℕ} (h : Merged ns ss ds p runLen) (src dst : ℕ) :
    ((indices (ns.take p)).map fun idx => ⟨src + dot idx ss, dst + dot idx ds, runLen⟩).flatMap runElements =
      (indices ns).map fun e => (src + dot e ss, dst + dot e ds) := by
  conv_rhs => rw [← take_append_drop p ns, indices_append, map_flatMap]
  rw [flatMap_map]
  refine flatMap_congr fun a ha => ?_
  have hlen : a.length = p := by simpa [h.le] using length_of_mem_indices ha
  calc runElements ⟨src + dot a ss, dst + dot a ds, runLen⟩
      = (range (ns.drop p).prod).map fun t => (src + dot a ss + t, dst + dot a ds + t) := by
        rw [runElements, h.run]
    _ = ((indices (ns.drop p)).map (a ++ ·)).map fun e => (src + dot e ss, dst + dot e ds) := by
        rw [← map_dot_rowMajor, map_map, map_map]
        refine map_congr_left fun b _ => ?_
        simp only [Function.comp_apply, dot_append, hlen, h.src, h.dst, Nat.add_assoc]

variable {srcOrigin ss dstOrigin ds : List ℕ}

theorem flatMap_pairedRuns (hs : ss.length = overlap.length) (hd : ds.length = overlap.length) :
    (pairedRuns overlap srcOrigin ss dstOrigin ds).flatMap runElements =
      (indices (sizes overlap)).map fun e =>
        (dot ((corner overlap).zipWith (· - ·) srcOrigin) ss + dot e ss,
          dot ((corner overlap).zipWith (· - ·) dstOrigin) ds + dot e ds) := by
  have hlen : (sizes overlap).length = overlap.length := length_map _
  have hm : Merged (sizes overlap) ss ds overlap.length 1 :=
    ⟨hlen.ge, by simp [← hlen], by simp [← hlen, hs, rowMajor], by simp [← hlen, hd, rowMajor]⟩
  have hshape : Merged (sizes overlap) ss ds (pairedRunShape overlap ss ds).1
      (pairedRunShape overlap ss ds).2 := mergeRuns_merged _ _ hm
  rw [← flatMap_runs hshape, pairedRuns]
  by_cases hp : (pairedRunShape overlap ss ds).1 = 0
  · -- one run is the case of no outer dimension
    simp [hp, indices]
  · simp [hp]

theorem mem_pairedRuns {x y : ℕ} (hs : ss.length = overlap.length) (hd : ds.length = overlap.length)
    (hsrc : List.Forall₂ (· ≤ ·) srcOrigin (corner overlap))
    (hdst : List.Forall₂ (· ≤ ·) dstOrigin (corner overlap)) :
    (∃ run ∈ pairedRuns overlap srcOrigin ss dstOrigin ds, (x, y) ∈ runElements run) ↔
      ∃ i, InBox i overlap ∧ x = dot (i.zipWith (· - ·) srcOrigin) ss ∧
        y = dot (i.zipWith (· - ·) dstOrigin) ds := by
  have haddr : ∀ {origin strides e : List ℕ}, e ∈ indices (sizes overlap) →
      List.Forall₂ (· ≤ ·) origin (corner overlap) →
      dot (((corner overlap).zipWith (· + ·) e).zipWith (· - ·) origin) strides =
        dot ((corner overlap).zipWith (· - ·) origin) strides + dot e strides := by
    intro _ _ e he ho
    have hlen : e.length = overlap.length := by simpa [sizes] using length_of_mem_indices he
    rw [sub_corner_add hlen ho, dot_add (by simp [ho.length_eq, hlen, corner])]
  rw [← mem_flatMap, flatMap_pairedRuns hs hd, mem_map]
  simp only [inBox_iff]
  constructor
  · rintro ⟨e, he, hxy⟩
    cases hxy
    exact ⟨_, ⟨e, he, rfl⟩, (haddr he hsrc).symm, (haddr he hdst).symm⟩
  · rintro ⟨_, ⟨e, he, rfl⟩, rfl, rfl⟩
    exact ⟨e, he, by rw [haddr he hsrc, haddr he hdst]⟩

end ModelExpress.Reshard
