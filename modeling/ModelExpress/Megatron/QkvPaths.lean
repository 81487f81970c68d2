/-
  ModelExpress Megatron trainer — two ways to read a fused QKV tensor (`engines/megatron/aliases.py`).

  When the heads divide across the ranks, every rank holds whole KV groups, and its own counts of heads give what the
  global ones give.
-/
import ModelExpress.Megatron.Accepted

namespace ModelExpress.Megatron

open Checks Strided List Option QkvLayout

/-- A QKV tensor of which each of `size` ranks holds as many groups; `own` is the layout of the rows of one. -/
structure WholeGroups (item : TensorSpec) (own : QkvLayout) (size rank : ℕ) : Prop where
  names : item.hfNames.length = 3
  interleave : item.extras.lookup "qkv_interleave" = some "by_head"
  headDim : item.number "head_dim" = .ok own.headDim
  heads : item.number "num_heads" = .ok (size * own.qHeads)
  kvHeads : item.number "num_kv_heads" = .ok (size * own.kvHeads)
  headsLocal : item.number "num_heads_local" = .ok own.qHeads
  kvHeadsLocal : item.number "num_kv_heads_local" = .ok own.kvHeads
  geometry : 0 < own.headDim ∧ 0 < own.qHeads ∧ 0 < own.kvHeads ∧ own.kvHeads ∣ own.qHeads
  shape : ∃ trailing, item.tensor.shape = own.totalRows :: trailing ∧ item.globalShape = size * own.totalRows :: trailing
  slice : item.placementKind = .shard ∧ item.shardAxis = some 0 ∧
    item.localShardRange = some (rank * own.totalRows, (rank + 1) * own.totalRows)
  rank_lt : rank < size

/-- The layout of the rows of all ranks. -/
def QkvLayout.times (own : QkvLayout) (size : ℕ) : QkvLayout := ⟨own.headDim, size * own.qHeads, size * own.kvHeads⟩

variable {own : QkvLayout} {size rank : ℕ} {projection : Projection}

theorem qRowsPerGroup_times (hrank : rank < size) : (own.times size).qRowsPerGroup = own.qRowsPerGroup := by
  rw [qRowsPerGroup, QkvLayout.times, Nat.mul_div_mul_left _ _ (by omega), qRowsPerGroup]

/-- The bands leave no row out. -/
theorem sum_overlaps {lo hi : ℕ} (h : lo ≤ hi) :
    (own.bands.map fun band => min hi (band.start + band.rows) - max lo band.start).sum = min hi own.totalRows - lo := by
  rw [bands, totalRows]
  generalize own.kvHeads = n
  induction n with
  | zero => simp
  | succ n ih =>
    rw [range_succ, flatMap_append, map_append, sum_append, ih, Nat.succ_mul]
    have hnext : ∀ a r, min hi a - lo + (min hi (a + r) - max lo a) = min hi (a + r) - lo := by omega
    simp [band, bandStart, bandRows, groupRows, ← Nat.add_assoc, hnext, Nat.two_mul]

/-- What both ways give for a projection. -/
def ownGroups (own : QkvLayout) (agentName : String) (t : Tensor) (rank : ℕ) (projection : Projection) : List PublishedShard :=
  (List.range own.kvHeads).map fun i =>
    ⟨agentName, t.device, t.dataPtr + (i * own.groupRows + own.bandStart projection) * t.strides.getD 0 0 * t.elsize,
      unitAt t.shape.length 0 ((rank * own.kvHeads + i) * own.bandRows projection), t.shape.set 0 (own.bandRows projection)⟩

theorem shards_times (agentName : String) (t : Tensor) (hrank : rank < size) (hpos : 0 < own.bandRows projection) :
    ((own.times size).bands.filter (·.projection = projection)).filterMap
      (·.shard t agentName (rank * own.totalRows) ((rank + 1) * own.totalRows)) = ownGroups own agentName t rank projection := by
  have hband : ∀ group, (own.times size).band group projection = own.band group projection := by
    intro group
    simp only [band, bandStart, bandRows, groupRows, qRowsPerGroup_times hrank]
    rfl
  have hend : own.bandStart projection + own.bandRows projection ≤ own.groupRows := by
    cases projection <;> simp only [bandStart, bandRows, groupRows] <;> omega
  obtain ⟨k, rfl⟩ := Nat.exists_eq_add_of_lt hrank
  have hsplit : (rank + k + 1) * own.kvHeads = rank * own.kvHeads + own.kvHeads + k * own.kvHeads := by ring
  have hhi : (rank + 1) * own.totalRows = rank * own.kvHeads * own.groupRows + own.kvHeads * own.groupRows := by
    rw [totalRows]
    ring
  rw [filter_bands, filterMap_map, show (own.times (rank + k + 1)).kvHeads = _ from hsplit, range_add, range_add,
    filterMap_append, filterMap_append, filterMap_map, filterMap_map, hhi, totalRows, ← Nat.mul_assoc]
  simp only [Function.comp_def, hband]
  generalize hlo : rank * own.kvHeads * own.groupRows = lo
  -- the groups of the ranks before and after have no row in the interval
  have hbefore : ∀ group ∈ List.range (rank * own.kvHeads),
      (own.band group projection).shard t agentName lo (lo + own.kvHeads * own.groupRows) = none := by
    intro group hgroup
    have hle : (group + 1) * own.groupRows ≤ rank * own.kvHeads * own.groupRows := Nat.mul_le_mul_right _ (mem_range.1 hgroup)
    rw [Nat.succ_mul] at hle
    exact if_neg (by simp only [band]; omega)
  have hafter : ∀ i ∈ List.range (k * own.kvHeads), (own.band (rank * own.kvHeads + own.kvHeads + i) projection).shard t agentName
      lo (lo + own.kvHeads * own.groupRows) = none := by
    intro i _
    exact if_neg (by simp only [band, Nat.add_mul, hlo]; omega)
  rw [filterMap_eq_nil_iff.2 hbefore, filterMap_eq_nil_iff.2 hafter, nil_append, append_nil, ownGroups, ← filterMap_eq_map]
  refine filterMap_congr fun i hi => ?_
  have hle : (i + 1) * own.groupRows ≤ own.kvHeads * own.groupRows := Nat.mul_le_mul_right _ (mem_range.1 hi)
  rw [Nat.succ_mul] at hle
  have hown : own.band (rank * own.kvHeads + i) projection = ⟨projection, lo + (i * own.groupRows + own.bandStart projection),
      own.bandRows projection, (rank * own.kvHeads + i) * own.bandRows projection⟩ := by
    simp only [band, Nat.add_mul, hlo, Nat.add_assoc]
  have hin : lo + (i * own.groupRows + own.bandStart projection) + own.bandRows projection ≤
      lo + own.kvHeads * own.groupRows := by
    omega
  simp [hown, QkvBand.shard, hin, hpos, Tensor.narrow]

/-- **The two ways to read a QKV tensor agree**, if each rank holds whole groups. -/
theorem qkv_paths_agree {item : TensorSpec} (h : WholeGroups item own size rank) (agentName : String) :
    ∃ aliases, buildLegacyQkvAliases item agentName = .ok aliases ∧ buildGlobalQkvAliases item agentName = .ok aliases := by
  obtain ⟨trailing, hshape, hglobal⟩ := h.shape
  obtain ⟨hdim, hq, hkv, hdvd⟩ := h.geometry
  obtain ⟨hkind, haxis, hrange⟩ := h.slice
  have hrank := h.rank_lt
  have hpos : 0 < own.totalRows := Nat.mul_pos hkv (by rw [groupRows]; omega)
  have hin : rank * own.totalRows < (rank + 1) * own.totalRows ∧ (rank + 1) * own.totalRows ≤ size * own.totalRows ∧
      (rank + 1) * own.totalRows - rank * own.totalRows = own.totalRows := by
    have hle : (rank + 1) * own.totalRows ≤ size * own.totalRows := Nat.mul_le_mul_right _ hrank
    rw [Nat.succ_mul] at hle ⊢
    omega
  refine ⟨(item.hfNames.zip [Projection.q, .k, .v]).map fun part =>
    { name := part.1, dtype := item.tensor.dtype, elsize := item.tensor.elsize,
      fullShape := item.tensor.shape.set 0 (own.destinationRows part.2 * size),
      shards := ownGroups own agentName item.tensor rank part.2 }, ?_, ?_⟩
  · have hplace : sourceRankAndSize item 0 = .ok (rank, size) := by
      simp [sourceRankAndSize, hshape, hglobal, hkind, hrange, hin, hpos, ensure]
    simp only [buildLegacyQkvAliases, h.headDim, h.headsLocal, h.kvHeadsLocal, hplace, hshape, head?_cons, bind_eq_ok,
      ensure_eq_ok, pure_eq_ok, exists_const, Except.ok.injEq, some.injEq, exists_eq_left']
    refine ⟨⟨hkv, hdvd⟩, Nat.mul_comm .., map_congr_left fun part _ => ?_⟩
    simp only [ownGroups, Tensor.narrow, hshape, set_set, Nat.add_mul, Nat.add_assoc]
  · have hlayout : readQkvLayout item = .ok (own.times size) := by
      simp [readQkvLayout, h.interleave, h.headDim, h.heads, h.kvHeads, ensure, hdim, hq, hkv, Nat.zero_lt_of_lt hrank,
        Nat.mul_dvd_mul_left _ hdvd, QkvLayout.times]
    have hinterval : qkvSourceInterval item = .ok (rank * own.totalRows, (rank + 1) * own.totalRows) := by
      simp [qkvSourceInterval, hshape, hglobal, hkind, haxis, hrange, hin, ensure]
    have htotal : (own.times size).totalRows = size * own.totalRows := by
      rw [totalRows, groupRows, qRowsPerGroup_times hrank, totalRows, groupRows, ← Nat.mul_assoc]
      rfl
    have hrows : ∀ projection, 0 < own.bandRows projection := by
      have hper : 0 < own.qRowsPerGroup := Nat.mul_pos (Nat.div_pos (Nat.le_of_dvd hq hdvd) hkv) hdim
      rintro (_ | _ | _)
      exacts [hper, hdim, hdim]
    simp only [buildGlobalQkvAliases, hlayout, hinterval, htotal, sum_overlaps hin.1.le, shards_times _ _ hrank (hrows _),
      bind_eq_ok, ensure_eq_ok, pure_eq_ok, exists_const, Except.ok.injEq, exists_eq_left', hshape, hglobal, head?_cons,
      some.injEq, min_eq_left hin.2.1, hin.2.2]
    refine ⟨rfl, trivial, trivial, ?_⟩
    rw [← filterMap_eq_map]
    refine filterMap_congr fun part _ => ?_
    have hsome : ownGroups own agentName item.tensor rank part.2 ≠ [] := by
      simp only [ownGroups, ne_eq, map_eq_nil_iff, range_eq_nil]
      omega
    have hdest : (own.times size).destinationRows part.2 = own.destinationRows part.2 * size := by
      cases part.2 <;> simp only [destinationRows, QkvLayout.times] <;> ring
    simp [projectionTensor, hsome, hdest, hshape]

theorem qkv_paths_agree_two : ∃ item : TensorSpec, item.localShardRange = some (8, 16) ∧ ∃ aliases,
    buildLegacyQkvAliases item "agent" = .ok aliases ∧ buildGlobalQkvAliases item "agent" = .ok aliases :=
  ⟨⟨"qkv", ⟨"F32", 4, [8], [1], 100, 0⟩, .qkvColumn, ["q", "k", "v"], [16], .shard, some 0, some (8, 16),
    [("qkv_interleave", "by_head"), ("head_dim", "2"), ("num_heads", "4"), ("num_kv_heads", "2"), ("num_heads_local", "2"),
      ("num_kv_heads_local", "1")]⟩, rfl, qkv_paths_agree (show WholeGroups _ ⟨2, 2, 1⟩ 2 1 from
    ⟨rfl, rfl, rfl, rfl, rfl, rfl, rfl, by decide, ⟨[], rfl, rfl⟩, ⟨rfl, rfl, rfl⟩, by decide⟩) "agent"⟩

end ModelExpress.Megatron
