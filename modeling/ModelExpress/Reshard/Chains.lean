/-
  ModelExpress reshard planner — recorded op chains and what they mean.
-/
import ModelExpress.Reshard.Ops
import ModelExpress.Reshard.Slices

namespace ModelExpress.Reshard

open Checks Strided List

/-! ## Basic views -/

namespace BasicView
variable {b : BasicView} {v : View} {j : List ℕ}

theorem argIndex_mem {shape : List ℕ} (h : b.Fits shape) (hj : j ∈ indices (b.resultShape shape)) :
    b.argIndex j ∈ indices shape := by
  cases b with
  | narrow => exact modify_mem_indices h.2 hj
  | select d i => exact insertIdx_mem_indices h hj
  | permute =>
    obtain ⟨hlen, hnodup, hlt⟩ := h
    rw [argIndex, hlen]
    exact scatter_mem_indices hlen hnodup hlt hj
  | unsqueeze d => exact eraseIdx_mem_indices h hj

theorem address (h : b.Fits v.shape) (hj : j ∈ indices (b.resultShape v.shape)) :
    b.resultOffset v + dot j (b.resultStride v) = v.offset + dot (b.argIndex j) v.stride := by
  have hlen := length_of_mem_indices hj
  cases b with
  | narrow d s l =>
    have hd : d < j.length := by
      rw [hlen, resultShape, length_set]
      exact h.1
    rw [argIndex, dot_modify hd, resultOffset, resultStride]
    ring
  | select d i =>
    have hd : d < v.shape.length := by
      by_contra hge
      have hzero : v.shape.getD d 0 = 0 := by simp [getElem?_eq_none (Nat.le_of_not_lt hge)]
      exact Nat.not_lt_zero i (hzero ▸ h)
    rw [resultShape, length_eraseIdx_of_lt hd] at hlen
    rw [argIndex, dot_insertIdx (by omega), resultOffset, resultStride]
    ring
  | permute =>
    obtain ⟨hdims, hnodup, hlt⟩ := h
    rw [argIndex, hdims, dot_scatter_zero hnodup hlt (by simpa [resultShape] using hlen.symm) v.rank]
    rfl
  | unsqueeze d =>
    rw [argIndex, dot_eraseIdx h v.rank hj]
    rfl

end BasicView

/-! ## Running a chain on a view and on the elements -/

variable {r a : Value View} {bs : List BasicView} {chain : List Op} {v v' : View} {op : Op}

section
variable {α : Type} [Zero α] {full : ℕ → α}

/-- The elements of `x` are those that `v` addresses in the storage `full`; or zero, if
    `zeroed`. -/
structure Reads (full : ℕ → α) (zeroed : Prop) (v : View) (x : Tensor α) : Prop where
  shape : x.shape = v.shape
  get : ∀ j ∈ indices v.shape, ¬ zeroed → x.get j = full (v.offset + dot j v.stride)
  zero : ∀ j ∈ indices v.shape, zeroed → x.get j = 0

variable {x : Tensor α}

theorem Reads.basic {zeroed : Prop} {b : BasicView} (h : Reads full zeroed v x)
    (hb : applyBasic v b = .ok v') : ∃ x', applyBasic x b = .ok x' ∧ Reads full zeroed v' x' := by
  unfold applyBasic at hb
  split_ifs at hb with hfits
  cases hb
  have hfits' : b.Fits v.shape := hfits
  refine ⟨_, if_pos (show b.Fits x.shape by rwa [h.shape]), ?_, fun j hj hz => ?_, fun j hj hz => ?_⟩
  · show b.resultShape x.shape = b.resultShape v.shape
    rw [h.shape]
  · show x.get (b.argIndex j) = full (b.resultOffset v + dot j (b.resultStride v))
    rw [h.get _ (b.argIndex_mem hfits' hj) hz, b.address hfits' hj]
  · exact h.zero _ (b.argIndex_mem hfits' hj) hz

inductive Reads.Values (full : ℕ → α) (zeroed : Prop) : Value View → Value (Tensor α) → Prop
  | tensor {v : View} {x : Tensor α} : Reads full zeroed v x → Values full zeroed (.tensor v) (.tensor x)
  | tuple {vs : List View} {xs : List (Tensor α)} :
      List.Forall₂ (Reads full zeroed) vs xs → Values full zeroed (.tuple vs) (.tuple xs)

theorem Reads.foldlM {zeroed : Prop} (h : Reads full zeroed v x) (hv : bs.foldlM applyBasic v = .ok v') :
    ∃ x', bs.foldlM applyBasic x = .ok x' ∧ Reads full zeroed v' x' := by
  induction bs generalizing v x with
  | nil =>
    cases hv
    exact ⟨x, rfl, h⟩
  | cons b bs ih =>
    rw [foldlM_cons, bind_eq_ok] at hv
    obtain ⟨v₁, hb, hv⟩ := hv
    obtain ⟨x₁, hx₁, h₁⟩ := h.basic hb
    obtain ⟨x', hx', h'⟩ := ih h₁ hv
    exact ⟨x', by rw [foldlM_cons, bind_eq_ok]; exact ⟨x₁, hx₁, hx'⟩, h'⟩

variable {v : View} {b : Value (Tensor α)}

theorem Reads.mapM {zeroed : Prop} {vs : List View}
    (h : Reads full zeroed v x) (hv : bs.mapM (applyBasic v) = .ok vs) :
    ∃ xs, bs.mapM (applyBasic x) = .ok xs ∧ List.Forall₂ (Reads full zeroed) vs xs := by
  rw [mapM_eq_ok] at hv
  induction hv with
  | nil => exact ⟨[], rfl, .nil⟩
  | cons hb _ ih =>
    obtain ⟨x₁, hx₁, h₁⟩ := h.basic hb
    obtain ⟨xs, hxs, hall⟩ := ih
    exact ⟨x₁ :: xs, mapM_eq_ok.2 (.cons hx₁ (mapM_eq_ok.1 hxs)), .cons h₁ hall⟩

theorem Reads.lowered {zeroed : Prop} {l : Lowered} (h : Reads full zeroed v x) (hr : applyLowered v l = .ok r) :
    ∃ r', applyLowered x l = .ok r' ∧ Reads.Values full zeroed r r' := by
  cases l with
  | one bs =>
    simp only [applyLowered, bind_eq_ok, pure_eq_ok] at hr ⊢
    obtain ⟨v', hv', rfl⟩ := hr
    obtain ⟨x', hx', h'⟩ := h.foldlM hv'
    exact ⟨_, ⟨x', hx', rfl⟩, .tensor h'⟩
  | many bs =>
    simp only [applyLowered, bind_eq_ok, pure_eq_ok] at hr ⊢
    obtain ⟨vs, hvs, rfl⟩ := hr
    obtain ⟨xs, hxs, hall⟩ := h.mapM hvs
    exact ⟨_, ⟨xs, hxs, rfl⟩, .tuple hall⟩

theorem Reads.zeroed {zeroed : Prop} (h : Reads full zeroed v x) :
    Reads full True v (Tensorial.zero x) :=
  ⟨h.shape, fun _ _ hz => absurd trivial hz, fun _ _ _ => rfl⟩

theorem apply_tensor {T : Type} [Tensorial T] {x : T} (h : op ≠ .zero_) :
    Op.apply (.tensor x) op = op.lower (Tensorial.shape x) >>= applyLowered x := by
  cases op with
  | zero_ => exact absurd rfl h
  | _ => rfl

theorem Reads.Values.apply {zeroed : Prop} (h : Values full zeroed a b) (hr : Op.apply a op = .ok r) :
    ∃ r', Op.apply b op = .ok r' ∧ Values full (zeroed ∨ op = .zero_) r r' := by
  by_cases hop : op = .zero_
  · subst hop
    cases h with
    | tensor h =>
      cases hr
      rw [eq_true (Or.inr rfl : zeroed ∨ Op.zero_ = Op.zero_)]
      exact ⟨_, rfl, .tensor h.zeroed⟩
    | tuple h => cases hr
  · rw [show (zeroed ∨ op = .zero_) = zeroed from propext (or_iff_left hop)]
    cases h with
    | @tensor v x h =>
      rw [apply_tensor hop, bind_eq_ok] at hr
      obtain ⟨l, hl, hr⟩ := hr
      obtain ⟨r', hr', hvals⟩ := h.lowered hr
      -- the arguments are checked against the shape only
      have hl' : op.lower x.shape = .ok l := by
        rw [h.shape]
        exact hl
      refine ⟨r', ?_, hvals⟩
      rw [apply_tensor hop, bind_eq_ok]
      exact ⟨l, hl', hr'⟩
    | @tuple vs xs h =>
      -- only an index or a slice of a tuple is a link
      rcases op with _ | _ | (⟨i | ⟨_, stop⟩ | _ | _⟩ | _) | _ | _ | _ | _ | _ | _ | _ | _ | _ | _ | _
      all_goals first | cases hr | skip
      · simp only [Op.apply, bind_eq_ok, found_eq_ok, pure_eq_ok] at hr ⊢
        obtain ⟨k, hk, v, hv, rfl⟩ := hr
        obtain ⟨hlt, rfl⟩ := List.getElem?_eq_some_iff.1 hv
        have hlt' : k < xs.length := h.length_eq ▸ hlt
        refine ⟨_, ⟨k, h.length_eq ▸ hk, xs[k], getElem?_eq_getElem hlt', rfl⟩, .tensor ?_⟩
        exact (forall₂_iff_get.1 h).2 k hlt hlt'
      · refine ⟨_, rfl, .tuple ?_⟩
        rw [← h.length_eq]
        exact forall₂_take _ (forall₂_drop _ h)

theorem reads_foldlM {zeroed : Prop} (h : Reads.Values full zeroed a b) (hr : chain.foldlM Op.apply a = .ok r) :
    ∃ r', chain.foldlM Op.apply b = .ok r' ∧ Reads.Values full (zeroed ∨ .zero_ ∈ chain) r r' := by
  induction chain generalizing a b zeroed with
  | nil =>
    cases hr
    exact ⟨b, rfl, by simpa using h⟩
  | cons op chain ih =>
    rw [foldlM_cons, bind_eq_ok] at hr
    obtain ⟨a₁, ha₁, hr⟩ := hr
    obtain ⟨b₁, hb₁, h₁⟩ := h.apply ha₁
    obtain ⟨r', hr', h'⟩ := ih h₁ hr
    refine ⟨r', by rw [foldlM_cons, bind_eq_ok]; exact ⟨b₁, hb₁, hr'⟩, ?_⟩
    rwa [mem_cons, eq_comm (b := op), ← or_assoc]

theorem reads_applyChain {globalShape : List ℕ} (hv : replayOps chain globalShape = .ok (.view v)) (full : ℕ → α) :
    ∃ x, applyChain chain (sourceTensor globalShape full) = .ok (.tensor x) ∧
      Reads full (.zero_ ∈ chain) v x := by
  have hinit : Reads full False (contiguousView globalShape) (sourceTensor globalShape full) :=
    ⟨rfl, fun j _ _ => by simp [sourceTensor, contiguousView], fun _ _ hz => absurd hz not_false⟩
  simp only [replayOps, bind_eq_ok] at hv
  obtain ⟨r, hr, hv⟩ := hv
  obtain ⟨r', hr', hvals⟩ := reads_foldlM (.tensor hinit) hr
  rw [false_or] at hvals
  cases hvals with
  | tensor h =>
    cases hv
    exact ⟨_, hr', h⟩
  | tuple h => cases hv

/-! ## What a resolved slice means -/

section
variable {δ : Type} {copy : RecordedCopy Op δ} {globalShape : List ℕ} {box : Box} {strides : List ℕ}

/-- In the box, in the order of `perm`, stand the elements of the tensor that the chain makes of
    the source with the elements `full`. -/
def Resolves (copy : RecordedCopy Op δ) (globalShape : List ℕ) (box : Box) (perm : List ℕ) (full : ℕ → α) :
    Prop :=
  ∃ x, applyChain copy.opChain (sourceTensor globalShape full) = .ok (.tensor x) ∧
    x.shape = copy.destShape ∧
    ∀ j ∈ indices copy.destShape, x.get j = full (dot (sourceIndex box perm j) (rowMajor globalShape))

/-- **An accepted chain means what it recorded iff it does not zero**, or the copy has no element. The box
    holds, in the order of a permutation of the dimensions, the elements of the tensor the chain makes of
    the source. -/
theorem resolves_iff [Nontrivial α] (h : resolveSlice replayOps copy globalShape = .ok (box, strides)) :
    ∃ perm, strides = scatter (List.replicate globalShape.length 0) perm copy.destStride ∧
      (∀ i, InBox i box ↔ ∃ j ∈ indices copy.destShape, i = sourceIndex box perm j) ∧
      (∀ j ∈ indices copy.destShape,
        dot ((sourceIndex box perm j).zipWith (· - ·) (corner box)) strides = dot j copy.destStride) ∧
      ((∀ full : ℕ → α, Resolves copy globalShape box perm full) ↔
        .zero_ ∉ copy.opChain ∨ 0 ∈ copy.destShape) := by
  obtain ⟨v, perm, hv, hbox, hshape, rfl⟩ := resolveSlice_eq_ok.1 h
  have hb := (viewToBoxPerm_ok hbox).1
  refine ⟨perm, rfl, fun i => by rw [hshape, hb.inBox_iff], fun j hj => ?_, ?_⟩
  · exact hb.dest (hshape ▸ hj) (copy.rank.trans (by rw [hshape]))
  constructor
  · intro hall
    by_contra hcon
    obtain ⟨hzero, hpos⟩ : .zero_ ∈ copy.opChain ∧ 0 ∉ copy.destShape := by
      simpa [not_or] using hcon
    -- a source of one nonzero element everywhere, and an index of the destination
    obtain ⟨y, hy⟩ := exists_ne (0 : α)
    obtain ⟨j, hj⟩ := exists_mem_of_ne_nil _ (mt indices_eq_nil.1 hpos)
    obtain ⟨x, hx, -, hget⟩ := hall fun _ => y
    obtain ⟨x', hx', hreads⟩ := reads_applyChain hv fun _ => y
    cases hx.symm.trans hx'
    exact hy ((hget j hj).symm.trans (hreads.zero j (hshape ▸ hj) hzero))
  · intro hcond full
    obtain ⟨x, hx, hreads⟩ := reads_applyChain hv full
    refine ⟨x, hx, hreads.shape.trans hshape.symm, fun j hj => ?_⟩
    rcases hcond with hzero | hempty
    · rw [hreads.get j (hshape ▸ hj) hzero, hb.address (hshape ▸ hj)]
    · rw [indices_eq_nil.2 hempty] at hj
      cases hj

end

end

section

theorem narrowedTranspose_rank : ([2, 1] : List ℕ).length = ([2, 2] : List ℕ).length := rfl

def narrowedTranspose : RecordedCopy Op Unit where
  srcName := "w"
  opChain := [.transpose 0 1, .narrow 0 1 2]
  paramName := "p"
  destOffset := 0
  destShape := [2, 2]
  destStride := [2, 1]
  destDtype := ()
  rank := narrowedTranspose_rank

theorem resolves_narrowedTranspose :
    resolveSlice replayOps narrowedTranspose [2, 3] = .ok ([(0, 2), (1, 3)], [1, 2]) ∧
      ∃ perm, ∀ full : ℕ → ℕ, Resolves narrowedTranspose [2, 3] [(0, 2), (1, 3)] perm full := by
  have h : resolveSlice replayOps narrowedTranspose [2, 3] = .ok ([(0, 2), (1, 3)], [1, 2]) := rfl
  obtain ⟨perm, -, -, -, hiff⟩ := resolves_iff (α := ℕ) h
  exact ⟨h, perm, hiff.2 (Or.inl (by decide))⟩

theorem zeroedCopy_rank : ([1] : List ℕ).length = ([2] : List ℕ).length := rfl

def zeroedCopy : RecordedCopy Op Unit where
  srcName := "w"
  opChain := [.zero_]
  paramName := "p"
  destOffset := 0
  destShape := [2]
  destStride := [1]
  destDtype := ()
  rank := zeroedCopy_rank

/-- It is accepted and resolves to the elements of the source, not to zeros. -/
theorem zeroedCopy_reads_source :
    resolveSlice replayOps zeroedCopy [2] = .ok ([(0, 2)], [1]) ∧
      (∃ x, applyChain zeroedCopy.opChain (sourceTensor [2] fun _ => 1) = .ok (.tensor x) ∧ x.get [0] = 0) ∧
      ∀ perm, ¬ Resolves zeroedCopy [2] [(0, 2)] perm fun _ => 1 := by
  refine ⟨rfl, ⟨_, rfl, rfl⟩, fun perm => ?_⟩
  rintro ⟨x, hx, -, hget⟩
  cases hx
  exact absurd (hget [0] (by decide)) Nat.zero_ne_one

end

end ModelExpress.Reshard
