/-
  ModelExpress Megatron trainer — what a publication that succeeds consists of.
-/
import ModelExpress.Megatron.Publication

namespace ModelExpress.Megatron

open Checks Strided List Option QkvLayout

/-! ## Roles and names -/

variable {ndim e : ℕ} {role : Role}

theorem roleForMapping_cases {mapping : Mapping} (h : roleForMapping mapping ndim = .ok role) :
    (mapping.inherits "QKVMapping" = true ∧ mapping.isExpert = false ∧ role = .qkvColumn) ∨
    (mapping.inherits "QKVMapping" = false ∧ mapping.inherits "GatedMLPMapping" = true ∧
      (role = .gatedMlpColumn ∨ role = .expertColumn)) ∨
    (mapping.inherits "QKVMapping" = false ∧ mapping.inherits "GatedMLPMapping" = false ∧ role ≠ .qkvColumn ∧
      role ≠ .gatedMlpColumn) := by
  have hcolumn : mapping.columnRole ≠ .qkvColumn ∧ mapping.columnRole ≠ .gatedMlpColumn := by
    rw [Mapping.columnRole]
    split_ifs <;> decide
  have hrow : mapping.rowRole ndim ≠ .qkvColumn ∧ mapping.rowRole ndim ≠ .gatedMlpColumn := by
    rw [Mapping.rowRole]
    split_ifs <;> decide
  rw [roleForMapping] at h
  split at h
  case isTrue hq =>
    simp only [bind_eq_ok, ensure_eq_ok, exists_const, pure_eq_ok] at h
    exact .inl ⟨hq, h.1, h.2.2.symm⟩
  case isFalse hq =>
    replace hq := Bool.eq_false_iff.2 hq
    split at h
    case isTrue hg =>
      refine .inr (.inl ⟨hq, hg, ?_⟩)
      split_ifs at h <;> simp only [pure_eq_ok] at h
      · exact .inr h.symm
      · exact .inl h.symm
    case isFalse hg =>
      refine .inr (.inr ⟨hq, Bool.eq_false_iff.2 hg, ?_⟩)
      -- every other class has one of three roles
      suffices hrole : role = mapping.columnRole ∨ role = mapping.rowRole ndim ∨ role = .replicated by
        rcases hrole with rfl | rfl | rfl
        exacts [hcolumn, hrow, by decide]
      split_ifs at h <;>
        simp only [bind_eq_ok, ensure_eq_ok, exists_const, pure_eq_ok, reduceCtorEq, and_false] at h <;>
        simp [h]

theorem mapM_found {f : String → Option String} {e : String → PublicationError} {keys names : List String}
    (h : keys.mapM (fun key => found (f key) (e key)) = .ok names) : names = keys.filterMap f := by
  induction keys generalizing names with
  | nil =>
    obtain rfl : [] = names := Except.ok.inj h
    rfl
  | cons _ _ ih =>
    rw [mapM_cons] at h
    simp only [bind_eq_ok, found_eq_ok, pure_eq_ok] at h
    obtain ⟨name, hname, rest, hrest, rfl⟩ := h
    rw [filterMap_cons_some hname, ih hrest]

variable {config : TransformerConfig} {ns : List ℕ} {p : Parallel} {task : Task} {t : Tensor}

theorem taskLayout_eq_ok
    {layout : List String × Extras × Option ℕ} (hrole : roleForMapping task.mapping ndim = .ok role)
    (h : taskLayout config p task.mapping role t = .ok layout) : layout.1 = task.hfNames ∧ layout.2.2 = role.axis := by
  rcases roleForMapping_cases hrole with ⟨hq, -, rfl⟩ | ⟨hq, hg, hrole⟩ | ⟨hq, hg, hqkv, _⟩
  · simp only [taskLayout, bind_eq_ok, pure_eq_ok] at h
    obtain ⟨names, hnames, rows, -, _, -, rfl⟩ := h
    exact ⟨by rw [Task.hfNames, if_pos hq]; exact mapM_found hnames, rfl⟩
  · have hnames : ∀ names, ["gate", "up"].mapM (fun key => found (task.mapping.hfParam.entries.lookup key)
        (PublicationError.missingHfParam key)) = .ok names → names = task.hfNames := by
      intro names hnames
      rw [Task.hfNames, if_neg (by simp [hq]), if_pos hg]
      exact mapM_found hnames
    rcases hrole with rfl | rfl <;>
      simp only [taskLayout, hg, if_true, bind_eq_ok, pure_eq_ok] at h <;>
      obtain ⟨names, hn, rfl⟩ := h <;>
      exact ⟨hnames names hn, rfl⟩
  · have hnames : task.hfNames = [task.mapping.hfParam.text] := by
      rw [Task.hfNames, if_neg (by simp [hq]), if_neg (by simp [hg])]
    rw [hnames]
    cases role <;> simp_all [taskLayout, Role.axis, pure, Except.pure] <;> simp [← h]

/-! ## Specifications -/

/-- The specification of the tensor that a rank holds for a task. -/
structure Placed (config : TransformerConfig) (p : Parallel) (task : Task) (t : Tensor) (role : Role) (spec : TensorSpec) :
    Prop where
  tensor : spec.tensor = t
  sameRole : spec.role = role
  layout : taskLayout config p task.mapping role t = .ok (spec.hfNames, spec.extras, role.axis)
  nodup : spec.hfNames.Nodup
  positive : 0 ∉ spec.globalShape
  placed : (role.axis = none ∧ p.rank task.mapping = 0 ∧ spec.placementKind = .replicate ∧ spec.shardAxis = none ∧
      spec.localShardRange = none ∧ spec.globalShape = t.shape) ∨
    ∃ axis e, role.axis = some axis ∧ t.shape[axis]? = some e ∧ spec.placementKind = .shard ∧ spec.shardAxis = some axis ∧
      spec.localShardRange = some (p.rank task.mapping * e, (p.rank task.mapping + 1) * e) ∧
      spec.globalShape = t.shape.set axis (e * p.size task.mapping)

theorem TensorSpec.check_eq_ok {spec : TensorSpec} (h : spec.check = .ok ()) : spec.hfNames.Nodup ∧ 0 ∉ spec.globalShape := by
  simp only [TensorSpec.check, bind_eq_ok, ensure_eq_ok, exists_const] at h
  exact ⟨h.2.1, h.2.2.1.2⟩

theorem taskSpec_eq_ok {o : Option TensorSpec}
    (h : taskSpec config p ⟨task.globalParamName, task.mapping, some t⟩ = .ok o) :
    ∃ role, roleForMapping task.mapping t.shape.length = .ok role ∧
      ((o = none ∧ role.axis = none ∧ p.rank task.mapping ≠ 0) ∨ ∃ spec, o = some spec ∧ Placed config p task t role spec) := by
  simp only [taskSpec, bind_eq_ok] at h
  obtain ⟨role, hrole, ⟨_, _, axis⟩, hlayout, h⟩ := h
  obtain ⟨-, haxis⟩ := taskLayout_eq_ok hrole hlayout
  obtain rfl : axis = role.axis := haxis
  refine ⟨role, hrole, ?_⟩
  cases haxis : role.axis with
  | none =>
    simp only [haxis] at h hlayout
    split_ifs at h with hp
    · simp only [pure_eq_ok] at h
      exact .inl ⟨h.symm, rfl, hp⟩
    · simp only [bind_eq_ok, pure_eq_ok, exists_eq_left'] at h
      obtain ⟨_, hcheck, rfl⟩ := h
      obtain ⟨hnodup, hpositive⟩ := TensorSpec.check_eq_ok hcheck
      exact .inr ⟨_, rfl, rfl, rfl, haxis ▸ hlayout, hnodup, hpositive, .inl ⟨haxis, not_not.1 hp, rfl, rfl, rfl, rfl⟩⟩
  | some axis =>
    simp only [haxis, bind_eq_ok, found_eq_ok, pure_eq_ok] at h hlayout
    obtain ⟨e, he, _, rfl, _, hcheck, rfl⟩ := h
    obtain ⟨hnodup, hpositive⟩ := TensorSpec.check_eq_ok hcheck
    exact .inr ⟨_, rfl, rfl, rfl, haxis ▸ hlayout, hnodup, hpositive, .inr ⟨axis, e, haxis, he, rfl, rfl, rfl, rfl⟩⟩

/-! ## What a rank publishes for a task -/

/-- The HF tensors with these names and shapes of which there are shards. -/
def aliasesOf (t : Tensor) (names : List String) (parts : List (List ℕ × List PublishedShard)) : List PublishedTensor :=
  (names.zip parts).filterMap fun item =>
    if item.2.2 = [] then none
    else some { name := item.1, dtype := t.dtype, elsize := t.elsize, fullShape := item.2.1, shards := item.2.2 }

/-- A tensor that is the slab of a rank along an axis. -/
def slab (agentName : String) (t : Tensor) (rank axis : ℕ) : PublishedShard :=
  ⟨agentName, t.device, t.dataPtr, unitAt t.shape.length axis (rank * t.shape.getD axis 0), t.shape⟩

def gatedShards (agentName : String) (t : Tensor) (rank : ℕ) : List (List PublishedShard) :=
  [false, true].map fun up => [slab agentName (t.narrow 0 (gatedBand t.shape up).offset (t.shape.getD 0 0 / 2)) rank 0]

/-- The rows of a projection among those of a rank. -/
def qkvShards (layout : QkvLayout) (agentName : String) (t : Tensor) (rank : ℕ) (projection : Projection) :
    List PublishedShard :=
  (List.range layout.kvHeads).filterMap fun group =>
    (layout.band group projection).shard t agentName (rank * t.shape.getD 0 0) ((rank + 1) * t.shape.getD 0 0)

/-- The shards of a rank in each HF tensor of a task. -/
def ownShards (config : TransformerConfig) (agentName : String) (mapping : Mapping) (role : Role) (t : Tensor) (rank : ℕ) :
    List (List PublishedShard) :=
  match role with
  | .qkvColumn => [Projection.q, .k, .v].map (qkvShards config.layout agentName t rank)
  | .gatedMlpColumn => gatedShards agentName t rank
  | .expertColumn => if mapping.inherits "GatedMLPMapping" then gatedShards agentName t rank else [[slab agentName t rank 0]]
  | .column => [[slab agentName t rank 0]]
  | .row | .expertRow => [[slab agentName t rank 1]]
  | .replicated => [[slab agentName t 0 0]]

def ownParts (config : TransformerConfig) (p : Parallel) (agentName : String) (task : Task) (role : Role) (t : Tensor) :
    List (List ℕ × List PublishedShard) :=
  ((hfParts config (p.size task.mapping) task.mapping role t.shape).map (·.fullShape)).zip
    (ownShards config agentName task.mapping role t (p.rank task.mapping))

/-- What is known of a tensor whose task was accepted. -/
structure Fits (config : TransformerConfig) (p : Parallel) (mapping : Mapping) (role : Role) (t : Tensor) : Prop where
  contiguous : t.isContiguous = true
  nonempty : 0 ∉ t.shape
  axis : ∀ axis, role.axis = some axis → axis < t.shape.length
  gated : role = .gatedMlpColumn ∨ (role = .expertColumn ∧ mapping.inherits "GatedMLPMapping" = true) →
    2 ∣ t.shape.getD 0 0 ∧ ∀ up, (t.narrow 0 (gatedBand t.shape up).offset (t.shape.getD 0 0 / 2)).isContiguous = true
  heads : role = .qkvColumn → (0 < config.numAttentionHeads ∧ 0 < config.numQueryGroups ∧ 0 < config.kvChannels ∧
    config.numQueryGroups ∣ config.numAttentionHeads) ∧ config.layout.totalRows = t.shape.getD 0 0 * p.size mapping

/-- The heads fall into groups. -/
abbrev TransformerConfig.Divides (config : TransformerConfig) : Prop :=
  0 < config.numAttentionHeads ∧ 0 < config.numQueryGroups ∧ 0 < config.kvChannels ∧
    config.numQueryGroups ∣ config.numAttentionHeads

section
variable {config : TransformerConfig} {p : Parallel} {task : Task} {t : Tensor} {role : Role} {spec : TensorSpec}
  {agentName : String} {aliases : List PublishedTensor}

variable {axis : ℕ} {name : String} {fullShape : List ℕ} {a : PublishedTensor}

theorem oneShard_eq_ok {lo hi : ℕ} (h : oneShard name agentName t fullShape (some (axis, some (lo, hi))) = .ok a) :
    a = ⟨name, t.dtype, t.elsize, fullShape, [⟨agentName, t.device, t.dataPtr, unitAt t.shape.length axis lo, t.shape⟩]⟩ := by
  simp only [oneShard, bind_eq_ok, found_eq_ok, ensure_eq_ok, pure_eq_ok, exists_const] at h
  obtain ⟨_, hrange, _, -, -, _, rfl, rfl⟩ := h
  obtain rfl := some.inj hrange
  rfl

theorem oneShard_none_eq_ok (h : oneShard name agentName t fullShape none = .ok a) : t.shape = fullShape ∧
      a = ⟨name, t.dtype, t.elsize, fullShape, [slab agentName t 0 0]⟩ := by
  simp only [oneShard, bind_eq_ok, ensure_eq_ok, pure_eq_ok, exists_const] at h
  obtain ⟨hshape, _, rfl, rfl⟩ := h
  exact ⟨hshape, by simp [slab]⟩

variable {n : ℕ}

theorem oneShard_slab {rank : ℕ} (hrank : rank < n)
    (he : t.shape.getD axis 0 = e) (h : oneShard name agentName t fullShape
      (if 1 < n then some (axis, some (rank * e, (rank + 1) * e)) else none) = .ok a) :
    a = ⟨name, t.dtype, t.elsize, fullShape, [slab agentName t rank axis]⟩ := by
  split_ifs at h with hn
  · rw [oneShard_eq_ok h, slab, he]
  · obtain rfl : rank = 0 := by omega
    rw [(oneShard_none_eq_ok h).2]
    simp [slab]

theorem zero_notMem_of_set (he : ns[axis]? = some e) (h : 0 ∉ ns.set axis (e * n)) : 0 ∉ ns := by
  intro hmem
  obtain ⟨i, hi⟩ := mem_iff_getElem?.1 hmem
  refine h (mem_iff_getElem?.2 ⟨i, ?_⟩)
  rw [getElem?_set]
  split_ifs with hia hlt
  · subst hia
    obtain rfl : e = 0 := mem_unique he hi
    rw [Nat.zero_mul]
  · subst hia
    exact absurd (List.getElem?_eq_some_iff.1 he).1 hlt
  · exact hi

section
variable (h : Placed config p task t role spec)
include h

theorem Placed.nonempty : 0 ∉ t.shape := by
  have hpositive := h.positive
  rcases h.placed with ⟨-, -, -, -, -, hglobal⟩ | ⟨axis, e, -, he, -, -, -, hglobal⟩
  · exact hglobal ▸ hpositive
  · exact zero_notMem_of_set he (hglobal ▸ hpositive)

theorem Placed.axis_lt (haxis : role.axis = some axis) : axis < t.shape.length := by
  rcases h.placed with ⟨hnone, -⟩ | ⟨axis', e, haxis', he, -⟩
  · cases haxis.symm.trans hnone
  · obtain rfl : axis = axis' := mem_unique haxis haxis'
    exact (List.getElem?_eq_some_iff.1 he).1

theorem Placed.sharded (haxis : role.axis = some axis) :
    t.shape[axis]? = some (t.shape.getD axis 0) ∧ spec.placementKind = .shard ∧ spec.shardAxis = some axis ∧
      spec.localShardRange = some (p.rank task.mapping * t.shape.getD axis 0, (p.rank task.mapping + 1) * t.shape.getD axis 0) ∧
      spec.globalShape = t.shape.set axis (t.shape.getD axis 0 * p.size task.mapping) := by
  rcases h.placed with ⟨hnone, -⟩ | ⟨axis', e, haxis', he, hkind, hshard, hrange, hglobal⟩
  · cases haxis.symm.trans hnone
  · obtain rfl : axis = axis' := mem_unique haxis haxis'
    have hgetD : t.shape.getD axis 0 = e := by rw [getD_eq_getElem?_getD, he, getD_some]
    rw [hgetD]
    exact ⟨he, hkind, hshard, hrange, hglobal⟩

end

theorem getD_pos (hns : 0 ∉ ns) (haxis : axis < ns.length) : 0 < ns.getD axis 0 := by
  rw [getD_eq_getElem?_getD, getElem?_eq_getElem haxis, getD_some]
  exact Nat.pos_of_ne_zero fun h => hns (h ▸ getElem_mem haxis)

section
variable (h : Placed config p task t role spec)
include h

theorem itemAliases_plain (hqkv : role ≠ .qkvColumn)
    (hnames : spec.hfNames = [name]) (ha : itemAliases agentName spec = .ok aliases) :
    t.isContiguous = true ∧
      (role.axis = none → aliases = [⟨name, t.dtype, t.elsize, t.shape, [slab agentName t 0 0]⟩]) ∧
      (∀ axis, role.axis = some axis → aliases = [⟨name, t.dtype, t.elsize,
        t.shape.set axis (t.shape.getD axis 0 * p.size task.mapping), [slab agentName t (p.rank task.mapping) axis]⟩]) := by
  simp only [itemAliases, h.tensor, h.sameRole, hqkv, hnames, if_false, length_singleton, OfNat.one_ne_ofNat, and_false,
    bind_eq_ok, ensure_eq_ok, exists_const, pure_eq_ok] at ha
  obtain ⟨hc, a, ha, rfl⟩ := ha
  refine ⟨hc, ?_, ?_⟩
  · intro haxis
    rcases h.placed with ⟨-, -, hkind, hshard, -, hglobal⟩ | ⟨axis, e, haxis', -⟩
    · rw [hkind, hshard, hglobal] at ha
      rw [(oneShard_none_eq_ok ha).2]
    · cases haxis.symm.trans haxis'
  · intro axis haxis
    obtain ⟨-, hkind, hshard, hrange, hglobal⟩ := h.sharded haxis
    rw [hkind, hshard, hrange, hglobal] at ha
    rw [oneShard_eq_ok ha, slab]

theorem Placed.sourceRankAndSize_eq (haxis : role.axis = some axis)
    {place : ℕ × ℕ} (hs : sourceRankAndSize spec axis = .ok place) : place = (p.rank task.mapping, p.size task.mapping) := by
  obtain ⟨he, hkind, -, hrange, hglobal⟩ := h.sharded haxis
  have hlt := h.axis_lt haxis
  have hpos : 0 < t.shape.getD axis 0 := getD_pos h.nonempty hlt
  have hglobalExtent : spec.globalShape[axis]? = some (t.shape.getD axis 0 * p.size task.mapping) := by
    rw [hglobal, getElem?_set_self hlt]
  simp only [sourceRankAndSize, h.tensor, hkind, hrange, he, hglobalExtent, reduceCtorEq, if_false, bind_eq_ok, found_eq_ok,
    ensure_eq_ok, exists_const, pure_eq_ok, some.injEq, exists_eq_left'] at hs
  rw [← hs.2.2.2, Nat.mul_div_cancel _ hpos, Nat.mul_div_cancel_left _ hpos]

theorem itemAliases_gated (hrole : role = .gatedMlpColumn ∨ role = .expertColumn)
    (hrank : p.rank task.mapping < p.size task.mapping) {gate up : String} (hnames : spec.hfNames = [gate, up])
    (ha : itemAliases agentName spec = .ok aliases) :
    t.isContiguous = true ∧ 2 ∣ t.shape.getD 0 0 ∧
      (∀ second, (t.narrow 0 (gatedBand t.shape second).offset (t.shape.getD 0 0 / 2)).isContiguous = true) ∧
      aliases = aliasesOf t [gate, up] (((gatedParts t.shape (p.size task.mapping)).map (·.fullShape)).zip
        (gatedShards agentName t (p.rank task.mapping))) := by
  have haxis : role.axis = some 0 := by rcases hrole with rfl | rfl <;> rfl
  have hqkv : role ≠ .qkvColumn := by rcases hrole with rfl | rfl <;> decide
  obtain ⟨he, _, hshard, _, _⟩ := h.sharded haxis
  simp only [itemAliases, h.tensor, h.sameRole, hqkv, hrole, hnames, if_false, if_true, length_cons, length_nil,
    Nat.zero_add, Nat.reduceAdd, and_self, bind_eq_ok, ensure_eq_ok, exists_const, buildGatedAliases, hshard,
    getD_some, he, found_eq_ok, some.injEq, exists_eq_left', zip_cons_cons, zip_nil_right,
    mapM_cons, mapM_nil, pure_eq_ok] at ha
  obtain ⟨hc, -, -, htwo, ⟨hgate, hup⟩, _, hplace, _, _, -, -, a, ha, _, ⟨b, hb, rfl⟩, rfl⟩ := ha
  obtain rfl := h.sourceRankAndSize_eq haxis hplace
  refine ⟨hc, htwo, ?_, ?_⟩
  · rintro (_ | _)
    exacts [hgate, hup]
  · have hhalf : ∀ start, (t.narrow 0 start (t.shape.getD 0 0 / 2)).shape.getD 0 0 = t.shape.getD 0 0 / 2 := by
      intro _
      simp [Tensor.narrow, h.axis_lt haxis]
    rw [oneShard_slab hrank (hhalf _) ha, oneShard_slab hrank (hhalf _) hb]
    rfl

end

theorem QkvLayout.filter_bands (layout : QkvLayout) (projection : Projection) :
    layout.bands.filter (·.projection = projection) = (List.range layout.kvHeads).map (layout.band · projection) := by
  have hgroup : ∀ group, ([Projection.q, .k, .v].map (layout.band group)).filter (·.projection = projection) =
      [layout.band group projection] := by
    intro _
    cases projection <;> rfl
  rw [bands, filter_flatMap]
  simp only [hgroup]
  exact (map_eq_flatMap ..).symm

theorem qkvDescriptorExtras_eq_ok {rows : ℕ} {extras : Extras} (h : qkvDescriptorExtras config n rows = .ok extras) :
    config.Divides ∧ rows = (config.numAttentionHeads + 2 * config.numQueryGroups) * config.kvChannels ∧
    extras.lookup "head_dim" = some (Text.decimal config.kvChannels) ∧
    extras.lookup "num_heads" = some (Text.decimal config.numAttentionHeads) ∧
    extras.lookup "num_kv_heads" = some (Text.decimal config.numQueryGroups) := by
  simp only [qkvDescriptorExtras, bind_eq_ok, ensure_eq_ok, exists_const] at h
  obtain ⟨⟨-, hheads⟩, hrows, h⟩ := h
  refine ⟨hheads, hrows, ?_⟩
  split_ifs at h <;>
    obtain rfl := Except.ok.inj h <;>
    exact ⟨rfl, rfl, rfl⟩

theorem totalRows_layout (h : config.numQueryGroups ∣ config.numAttentionHeads) :
    config.layout.totalRows = (config.numAttentionHeads + 2 * config.numQueryGroups) * config.kvChannels := by
  obtain ⟨m, hm⟩ := h
  rcases Nat.eq_zero_or_pos config.numQueryGroups with h0 | hpos
  · simp [totalRows, TransformerConfig.layout, hm, h0]
  · simp only [totalRows, groupRows, qRowsPerGroup, TransformerConfig.layout, hm,
      Nat.mul_div_cancel_left _ hpos]
    ring

theorem itemAliases_qkv (h : Placed config p task t .qkvColumn spec) (hexpert : task.mapping.isExpert = false)
    (ha : itemAliases agentName spec = .ok aliases) :
    t.isContiguous = true ∧ config.Divides ∧ config.layout.totalRows = t.shape.getD 0 0 * p.size task.mapping ∧
      aliases = aliasesOf t spec.hfNames (ownParts config p agentName task .qkvColumn t) := by
  have haxis : Role.qkvColumn.axis = some 0 := rfl
  obtain ⟨he, hkind, hshard, hrange, hglobal⟩ := h.sharded haxis
  have hglobalRows : spec.globalShape[0]? = some (t.shape.getD 0 0 * p.size task.mapping) := by
    rw [hglobal, getElem?_set_self (h.axis_lt rfl)]
  have hlayout := h.layout
  simp only [taskLayout, bind_eq_ok, found_eq_ok, he, some.injEq, exists_eq_left', pure_eq_ok, Prod.mk.injEq] at hlayout
  obtain ⟨_, -, _, hextras, -, rfl, -⟩ := hlayout
  obtain ⟨hheads, hrows, hd, hq, hkv⟩ := qkvDescriptorExtras_eq_ok hextras
  simp only [itemAliases, h.tensor, h.sameRole, if_true, buildQkvAliases, hq, hkv, isSome_some, buildGlobalQkvAliases,
    bind_eq_ok, ensure_eq_ok, exists_const, pure_eq_ok] at ha
  obtain ⟨hc, -, -, _, hread, -, -, _, hinterval, -, rfl⟩ := ha
  simp only [readQkvLayout, TensorSpec.number, hd, hq, hkv, bind_eq_ok, ensure_eq_ok, found_eq_ok, some.injEq,
    exists_eq_left', Text.toNumber_decimal, exists_const, pure_eq_ok] at hread
  obtain rfl : config.layout = _ := hread.2.2
  simp only [qkvSourceInterval, h.tensor, he, hglobalRows, hkind, hshard, hrange, bind_eq_ok, found_eq_ok, ensure_eq_ok,
    exists_const, some.injEq, exists_eq_left', pure_eq_ok] at hinterval
  obtain ⟨-, -, rfl⟩ := hinterval
  have hsize : p.size task.mapping = p.tensorParallelSize := by simp [Parallel.size, hexpert]
  refine ⟨hc, hheads, ?_, ?_⟩
  · rw [totalRows_layout hheads.2.2.2, hsize, hrows]
  · have hparts : ownParts config p agentName task .qkvColumn t = [Projection.q, .k, .v].map fun projection =>
        (t.shape.set 0 (config.layout.destinationRows projection),
          qkvShards config.layout agentName t (p.rank task.mapping) projection) := rfl
    rw [aliasesOf, hparts, zip_map_right, filterMap_map]
    simp only [filter_bands, filterMap_map]
    rfl

theorem itemAliases_eq (hrole : roleForMapping task.mapping t.shape.length = .ok role)
    (h : Placed config p task t role spec) (hrank : p.rank task.mapping < p.size task.mapping)
    (ha : itemAliases agentName spec = .ok aliases) :
    Fits config p task.mapping role t ∧ aliases = aliasesOf t task.hfNames (ownParts config p agentName task role t) := by
  obtain ⟨hnames, -⟩ := taskLayout_eq_ok hrole h.layout
  simp only at hnames
  rcases roleForMapping_cases hrole with ⟨hq, hexpert, rfl⟩ | ⟨hq, hg, hgated⟩ | ⟨hq, hg, hqkv, hgated⟩
  · obtain ⟨hc, hheads, htotal, haliases⟩ := itemAliases_qkv h hexpert ha
    refine ⟨⟨hc, h.nonempty, fun axis => h.axis_lt, ?_, fun _ => ⟨hheads, htotal⟩⟩, hnames ▸ haliases⟩
    rintro (hr | ⟨hr, -⟩) <;> cases hr
  · have hlength : spec.hfNames.length = 2 := by
      have hlayout := h.layout
      rcases hgated with rfl | rfl <;>
        simp only [taskLayout, hg, if_true, bind_eq_ok, pure_eq_ok, Prod.mk.injEq] at hlayout <;>
        obtain ⟨_, hn, rfl, -⟩ := hlayout <;>
        exact (mapM_eq_ok.1 hn).length_eq.symm
    obtain ⟨gate, up, hboth⟩ := length_eq_two.1 hlength
    obtain ⟨hc, htwo, hhalves, haliases⟩ := itemAliases_gated h hgated hrank hboth ha
    refine ⟨⟨hc, h.nonempty, fun axis => h.axis_lt, fun _ => ⟨htwo, hhalves⟩, ?_⟩, ?_⟩
    · rintro rfl
      rcases hgated with hr | hr <;> cases hr
    · rw [← hnames, hboth, haliases]
      rcases hgated with rfl | rfl
      · rfl
      · simp only [ownParts, hfParts, ownShards, hg, if_true]
  · have hname : spec.hfNames = [task.mapping.hfParam.text] := by
      rw [hnames, Task.hfNames, if_neg (by simp [hq]), if_neg (by simp [hg])]
    obtain ⟨hc, hnone, hsome⟩ := itemAliases_plain h hqkv hname ha
    refine ⟨⟨hc, h.nonempty, fun axis => h.axis_lt, ?_, fun hr => absurd hr hqkv⟩, ?_⟩
    · rintro (hr | ⟨-, hr⟩)
      · exact absurd hr hgated
      · cases hg.symm.trans hr
    · rw [← hnames, hname]
      cases role with
      | qkvColumn => exact absurd rfl hqkv
      | gatedMlpColumn => exact absurd rfl hgated
      | expertColumn =>
        rw [hsome 0 rfl]
        simp [aliasesOf, ownParts, hfParts, ownShards, hg, wholePart]
      | column | row | expertRow =>
        rw [hsome _ rfl]
        rfl
      | replicated =>
        rw [hnone rfl]
        rfl

end

end ModelExpress.Megatron
