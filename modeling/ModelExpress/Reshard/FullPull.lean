/-
  ModelExpress reshard planner — full pulls.
-/
import ModelExpress.Reshard.Ops
import ModelExpress.Reshard.Pull
import ModelExpress.Reshard.TransferPlan

namespace ModelExpress.Reshard

open Checks Strided List

variable {is : List ℕ} {start rows r : ℕ} {β : Type} {buffers : ℕ → ℕ → β} {w : (String × ℕ) × β}

section
variable {Op δ : Type} {q : String} {src : SourceInfo δ} {bufferIndices : List ℕ} {segments : List LogicalRead}
variable {n : ℕ} {ns : List ℕ}

structure HasRows (ns : List ℕ) (sh : Shard) (start rows : ℕ) : Prop where
  offset : sh.shardOffset = start :: List.replicate ns.length 0
  shape : sh.shape = rows :: ns

theorem HasRows.unique {sh : Shard} {start' rows' : ℕ} (h : HasRows ns sh start rows)
    (h' : HasRows ns sh start' rows') : start' = start ∧ rows' = rows :=
  ⟨(cons.inj (h'.offset.symm.trans h.offset)).1, (cons.inj (h'.shape.symm.trans h.shape)).1⟩

def rowsRead (q : String) (ns : List ℕ) (elsize bufferIndex start rows : ℕ) : LogicalRead :=
  ⟨bufferIndex, 0, q, start * ns.prod * elsize, rows * ns.prod * elsize⟩

theorem fullPullRows_ok (hshape : src.globalShape = n :: ns) {ordered : List (ℕ × Shard)} {next : ℕ}
    (h : fullPullRows q src ordered next = .ok segments) :
    next ≤ n ∧
      (∀ x ∈ ordered, ∃ start rows, HasRows ns x.2 start rows ∧ start + rows ≤ n) ∧
      (∀ row, next ≤ row → row < n → ∃ x ∈ ordered, ∃ start rows, HasRows ns x.2 start rows ∧
        start ≤ row ∧ row < start + rows) ∧
      ∀ r, r ∈ segments ↔ ∃ x ∈ ordered, ∃ start rows, HasRows ns x.2 start rows ∧
        r = rowsRead q ns src.elsize x.1 start rows := by
  induction ordered generalizing next segments with
  | nil =>
    simp only [fullPullRows, hshape, headD_cons, bind_eq_ok, ensure_eq_ok, exists_const, pure_eq_ok] at h
    obtain ⟨rfl, rfl⟩ := h
    exact ⟨le_rfl, by simp, fun row h₁ h₂ => absurd h₁ (not_le.2 h₂), by simp⟩
  | cons x _ ih =>
    obtain ⟨_, sh⟩ := x
    simp only [fullPullRows, hshape, tail_cons, length_cons, bind_eq_ok, ensure_eq_ok, exists_const,
      pure_eq_ok] at h
    obtain ⟨⟨hrank, hoffset⟩, ⟨htail, hzero⟩, hstart, rest, hrest, rfl⟩ := h
    obtain ⟨rows, tail, hsh⟩ := exists_cons_of_length_eq_add_one hrank
    obtain ⟨start, _, hoff⟩ := exists_cons_of_length_eq_add_one hoffset
    rw [hsh, tail_cons] at htail
    rw [hoff, tail_cons] at hzero
    rw [hoff, length_cons] at hoffset
    rw [hoff, headD_cons] at hstart
    subst htail hstart
    have hrows : HasRows tail sh start rows :=
      ⟨by rw [hoff, eq_replicate_iff.2 ⟨Nat.succ.inj hoffset, hzero⟩], hsh⟩
    rw [hsh, headD_cons] at hrest
    obtain ⟨hle, hall, hcov, hmem⟩ := ih hrest
    refine ⟨by omega, ?_, fun row h₁ h₂ => ?_, fun r => ?_⟩
    · exact forall_mem_cons.2 ⟨⟨start, rows, hrows, hle⟩, hall⟩
    · rcases Nat.lt_or_ge row (start + rows) with hlt | hge
      · exact ⟨_, mem_cons_self .., start, rows, hrows, h₁, hlt⟩
      · obtain ⟨x, hx, hcov⟩ := hcov row hge h₂
        exact ⟨x, mem_cons_of_mem _ hx, hcov⟩
    · simp only [mem_cons, hmem, hoff, hsh, headD_cons, exists_eq_or_imp]
      refine or_congr ?_ Iff.rfl
      constructor
      · rintro rfl
        exact ⟨start, rows, hrows, rfl⟩
      · rintro ⟨_, _, h', rfl⟩
        obtain ⟨rfl, rfl⟩ := hrows.unique h'
        rfl

structure RowPull (q : String) (src : SourceInfo δ) (bufferIndices : List ℕ) (segments : List LogicalRead)
    (n : ℕ) (ns : List ℕ) : Prop where
  shape : src.globalShape = n :: ns
  length : bufferIndices.length = src.shards.length
  rows : ∀ sh ∈ src.shards, ∃ start rows, HasRows ns sh start rows ∧ start + rows ≤ n
  covers : ∀ row < n, ∃ sh ∈ src.shards, ∃ start rows, HasRows ns sh start rows ∧
    start ≤ row ∧ row < start + rows
  mem_segments : ∀ r, r ∈ segments ↔ ∃ k sh, src.shards[k]? = some sh ∧ ∃ start rows,
    HasRows ns sh start rows ∧ r = rowsRead q ns src.elsize (bufferIndices.getD k 0) start rows

theorem fullPullSegments_ok (h : fullPullSegments q src bufferIndices = .ok segments) :
    ∃ n ns, RowPull q src bufferIndices segments n ns := by
  simp only [fullPullSegments, bind_eq_ok, ensure_eq_ok, exists_const] at h
  obtain ⟨hne, hlen, -, h⟩ := h
  obtain ⟨n, ns, hshape⟩ := exists_cons_of_ne_nil hne
  obtain ⟨-, hall, hcov, hmem⟩ := fullPullRows_ok hshape h
  simp only [mem_insertionSort] at hall hcov hmem
  -- the shards with their buffers, by position
  have hzip : ∀ x : ℕ × Shard, x ∈ bufferIndices.zip src.shards ↔
      ∃ k, src.shards[k]? = some x.2 ∧ bufferIndices.getD k 0 = x.1 := by
    intro x
    rw [mem_iff_getElem?]
    refine exists_congr fun k => ?_
    rw [getElem?_zip_eq_some, and_comm, getD_eq_getElem?_getD]
    refine and_congr_right fun hk => ?_
    have hlt : k < bufferIndices.length := hlen ▸ (List.getElem?_eq_some_iff.1 hk).1
    rw [getElem?_eq_getElem hlt, Option.getD_some, Option.some.injEq]
  have hin : ∀ sh ∈ src.shards, ∃ x ∈ bufferIndices.zip src.shards, x.2 = sh := by
    intro sh hsh
    obtain ⟨k, hk⟩ := mem_iff_getElem?.1 hsh
    exact ⟨(bufferIndices.getD k 0, sh), (hzip _).2 ⟨k, hk, rfl⟩, rfl⟩
  refine ⟨n, ns, hshape, hlen, fun sh hsh => ?_, fun row hrow => ?_, fun r => ?_⟩
  · obtain ⟨x, hx, rfl⟩ := hin sh hsh
    exact hall x hx
  · obtain ⟨x, hx, hrows⟩ := hcov row (Nat.zero_le _) hrow
    exact ⟨x.2, of_mem_zip hx |>.2, hrows⟩
  · rw [hmem]
    constructor
    · rintro ⟨x, hx, start, rows, hrows, rfl⟩
      obtain ⟨k, hk, hidx⟩ := (hzip x).1 hx
      exact ⟨k, x.2, hk, start, rows, hrows, by rw [hidx]⟩
    · rintro ⟨k, sh, hk, start, rows, hrows, rfl⟩
      exact ⟨(bufferIndices.getD k 0, sh), (hzip _).2 ⟨k, hk, rfl⟩, start, rows, hrows, rfl⟩

namespace HasRows
variable {sh : Shard} {start rows : ℕ} (h : HasRows ns sh start rows)
include h

theorem inBox_iff (his : is ∈ indices ns) : InBox (r :: is) sh.box ↔ start ≤ r ∧ r < start + rows := by
  rw [Shard.box, h.offset, h.shape, boxAt, zipWith_cons_cons, zip_cons_cons, inBox_cons]
  exact and_iff_left (inBox_zero.2 his)

theorem dot_sub (his : is ∈ indices ns) : dot ((r :: is).zipWith (· - ·) sh.shardOffset) (rowMajor sh.shape) =
      (r - start) * ns.prod + dot is (rowMajor ns) := by
  rw [h.offset, h.shape, zipWith_cons_cons, sub_zero (length_of_mem_indices his), rowMajor, dot_cons]

end HasRows

theorem lt_rows_iff (start : ℕ) {t : ℕ} : t < rows * ns.prod ↔ ∃ r, (start ≤ r ∧ r < start + rows) ∧
    ∃ is ∈ indices ns, t = (r - start) * ns.prod + dot is (rowMajor ns) := by
  rw [lt_mul_iff]
  constructor
  · rintro ⟨r, hr, y, hy, rfl⟩
    obtain ⟨is, his, rfl⟩ := exists_dot_rowMajor hy
    exact ⟨start + r, by omega, is, his, by rw [Nat.add_sub_cancel_left]⟩
  · rintro ⟨r, hr, is, his, rfl⟩
    exact ⟨r - start, by omega, _, dot_rowMajor_lt his, rfl⟩

namespace RowPull
variable (h : RowPull q src bufferIndices segments n ns)
include h

theorem dot_row (hle : start ≤ r) : dot (r :: is) (rowMajor src.globalShape) =
      start * ns.prod + ((r - start) * ns.prod + dot is (rowMajor ns)) := by
  rw [h.shape, rowMajor, dot_cons, ← Nat.add_assoc, ← Nat.add_mul, Nat.add_sub_cancel' hle]

theorem covered {i : List ℕ} (hi : i ∈ indices src.globalShape) : ∃ sh ∈ src.shards, InBox i sh.box := by
  rw [h.shape] at hi
  obtain _ | ⟨hr, his⟩ := mem_indices.1 hi
  obtain ⟨sh, hsh, _, rows, hrows, hin⟩ := h.covers _ hr
  exact ⟨sh, hsh, (hrows.inBox_iff (mem_indices.2 his)).2 hin⟩

theorem filled {x : ℕ} (hx : x < src.globalShape.prod * src.elsize) : ∃ r ∈ segments, r.Covers x := by
  obtain ⟨a, ha, b, hb, rfl⟩ := lt_mul_iff.1 hx
  obtain ⟨i, hi, rfl⟩ := exists_dot_rowMajor ha
  obtain ⟨sh, hsh, hin⟩ := h.covered hi
  obtain ⟨k, hk⟩ := mem_iff_getElem?.1 hsh
  obtain ⟨start, rows, hrows, -⟩ := h.rows sh hsh
  rw [h.shape] at hi
  obtain _ | ⟨hr, his⟩ := mem_indices.1 hi
  have hlt := (hrows.inBox_iff (mem_indices.2 his)).1 hin
  refine ⟨_, (h.mem_segments _).2 ⟨k, sh, hk, start, rows, hrows, rfl⟩, (covers_run rfl rfl).2
    ⟨_, (lt_rows_iff start).2 ⟨_, hlt, _, mem_indices.2 his, rfl⟩, b, hb, ?_⟩⟩
  rw [h.dot_row hlt.1]

theorem mem_readWrites :
    w ∈ readWrites buffers segments ↔ ∃ k sh, src.shards[k]? = some sh ∧ ∃ i ∈ indices src.globalShape,
      InBox i sh.box ∧ ∃ b < src.elsize,
        w = ((q, dot i (rowMajor src.globalShape) * src.elsize + b),
          buffers (bufferIndices.getD k 0)
            (dot (i.zipWith (· - ·) sh.shardOffset) (rowMajor sh.shape) * src.elsize + b)) := by
  simp only [readWrites, mem_flatMap, h.mem_segments]
  constructor
  · rintro ⟨_, ⟨k, sh, hk, start, rows, hrows, rfl⟩, hw⟩
    obtain ⟨t, ht, b, hb, rfl⟩ := (mem_writes_run (Nat.zero_mul _).symm rfl rfl).1 hw
    obtain ⟨r, hr, is, his, rfl⟩ := (lt_rows_iff start).1 ht
    obtain ⟨start', rows', hrows', hle⟩ := h.rows sh (mem_of_getElem? hk)
    obtain ⟨rfl, rfl⟩ := hrows.unique hrows'
    refine ⟨k, sh, hk, r :: is, ?_, (hrows.inBox_iff his).2 hr, b, hb, ?_⟩
    · rw [h.shape]
      exact mem_indices.2 (.cons (by omega) (mem_indices.1 his))
    · rw [hrows.dot_sub his, h.dot_row hr.1, Nat.zero_add]
      rfl
  · rintro ⟨k, sh, hk, i, hi, hin, b, hb, rfl⟩
    rw [h.shape] at hi
    obtain _ | ⟨hr, his⟩ := mem_indices.1 hi
    obtain ⟨start, rows, hrows, -⟩ := h.rows sh (mem_of_getElem? hk)
    rename_i r is
    have hlt := (hrows.inBox_iff (mem_indices.2 his)).1 hin
    refine ⟨_, ⟨k, sh, hk, start, rows, hrows, rfl⟩, (mem_writes_run (Nat.zero_mul _).symm rfl rfl).2
      ⟨_, (lt_rows_iff start).2 ⟨r, hlt, is, mem_indices.2 his, rfl⟩, b, hb, ?_⟩⟩
    rw [hrows.dot_sub (mem_indices.2 his), h.dot_row hlt.1, Nat.zero_add]
    rfl

end RowPull

/-! ## The copy that changes nothing -/

section
variable {replay : Replay Op} {reads : List LogicalRead} {v : View} {box : Box} {perm : List ℕ}

theorem BoxOf.sourceIndex_contiguous {globalShape : List ℕ}
    (h : BoxOf (contiguousView globalShape) globalShape box perm) {j : List ℕ} (hj : j ∈ indices globalShape) :
    sourceIndex box perm j = j := by
  refine dot_rowMajor_inj (h.mem_indices hj) hj ?_
  rw [h.address hj]
  exact Nat.zero_add _

namespace Pull
variable (hnil : replay [] src.globalShape = .ok (.view (contiguousView src.globalShape)))
variable (h : Pull replay (identityCopy q src) src.globalShape src.elsize src.shards bufferIndices reads v box perm)
include hnil h

theorem view_identity : v = contiguousView src.globalShape := by
  have hview := h.view
  rw [show (identityCopy q src : RecordedCopy Op δ).opChain = [] from rfl, hnil] at hview
  cases hview
  rfl

end Pull

end

end

end ModelExpress.Reshard
