/-
  ModelExpress Megatron trainer — publication is exact.
-/
import ModelExpress.Megatron.Accepted

namespace ModelExpress.Megatron

open Checks Strided Interleave List Option QkvLayout

/-! ## What a rank publishes -/

variable {names : List String} {a : PublishedTensor} {name : String} {ns : List ℕ} {ι κ : Type} {role : Role}
  {lo hi : ℕ} {l : List ι}

section
variable {α : Type}

def Rank.aliases (config : TransformerConfig) (r : Rank α) (task : Task) (k : ℕ) : List PublishedTensor :=
  match r.weight k with
  | none => []
  | some t => match roleForMapping task.mapping t.shape.length with
    | .error _ => []
    | .ok role =>
      if role.axis = none ∧ r.place task ≠ 0 then []
      else aliasesOf t task.hfNames (ownParts config r.parallel r.agentName task role t)

variable {config : TransformerConfig} {r : Rank α} {tasks : List Task} {task : Task} {k : ℕ} {t : Tensor}
  {published : List PublishedTensor}

/-- A task whose tensor was accepted, or left to the first rank. -/
structure Accepted (config : TransformerConfig) (r : Rank α) (task : Task) (t : Tensor) (role : Role) : Prop where
  roleFor : roleForMapping task.mapping t.shape.length = .ok role
  fits : (role.axis = none ∧ r.place task ≠ 0) ∨ Fits config r.parallel task.mapping role t

theorem aliases_none (h : r.weight k = none) : r.aliases config task k = [] := by
  rw [Rank.aliases, h]

theorem aliases_some (h : r.weight k = some t) (hrole : roleForMapping task.mapping t.shape.length = .ok role) :
    r.aliases config task k = if role.axis = none ∧ r.place task ≠ 0 then []
      else aliasesOf t task.hfNames (ownParts config r.parallel r.agentName task role t) := by
  simp only [Rank.aliases, h, hrole]

theorem Placed.replicated {p : Parallel} {spec : TensorSpec} (h : Placed config p task t role spec)
    (haxis : role.axis = none) : p.rank task.mapping = 0 := by
  rcases h.placed with ⟨-, hrank, -⟩ | ⟨axis, e, haxis', -⟩
  · exact hrank
  · cases haxis.symm.trans haxis'

theorem task_published (hrank : r.place task < r.parallel.size task.mapping) {o : Option TensorSpec}
    (h : taskSpec config r.parallel ⟨task.globalParamName, task.mapping, r.weight k⟩ = .ok o) :
    (o = none → r.aliases config task k = []) ∧
      (∀ spec aliases, o = some spec → itemAliases r.agentName spec = .ok aliases → r.aliases config task k = aliases) ∧
      ∀ t, r.weight k = some t → (∀ spec, o = some spec → ∃ aliases, itemAliases r.agentName spec = .ok aliases) →
        ∃ role, Accepted config r task t role := by
  cases hw : r.weight k with
  | none =>
    rw [hw] at h
    obtain rfl : none = o := Except.ok.inj h
    exact ⟨fun _ => aliases_none hw, nofun, nofun⟩
  | some t =>
    rw [hw] at h
    obtain ⟨role, hrole, ⟨rfl, haxis, hplace⟩ | ⟨spec, rfl, hplaced⟩⟩ := taskSpec_eq_ok h
    · refine ⟨fun _ => ?_, nofun, ?_⟩
      · rw [aliases_some hw hrole, if_pos ⟨haxis, hplace⟩]
      · rintro _ ⟨⟩ -
        exact ⟨role, hrole, .inl ⟨haxis, hplace⟩⟩
    · refine ⟨nofun, ?_, ?_⟩
      · rintro _ aliases ⟨⟩ ha
        rw [aliases_some hw hrole, if_neg fun hnot => hnot.2 (hplaced.replicated hnot.1)]
        exact (itemAliases_eq hrole hplaced hrank ha).2.symm
      · rintro _ ⟨⟩ hitem
        obtain ⟨_, ha⟩ := hitem spec rfl
        exact ⟨role, hrole, .inr (itemAliases_eq hrole hplaced hrank ha).1⟩

theorem publish_eq (h : publish config r.parallel (r.conversionTasks tasks) r.agentName = .ok published) :
    published = tasks.zipIdx.flatMap (fun item => r.aliases config item.1 item.2) ∧
      (∀ task, r.place task < r.parallel.size task.mapping) ∧
      ∀ task k t, tasks[k]? = some task → r.weight k = some t → ∃ role, Accepted config r task t role := by
  simp only [publish, buildMegatronTensorSpecs, buildHfAliases, bind_eq_ok, ensure_eq_ok, exists_const, pure_eq_ok, Rank.conversionTasks, mapM_map] at h
  obtain ⟨_, ⟨hrank, hexpert, os, hos, -, rfl⟩, rs, hrs, rfl⟩ := h
  have hplace : ∀ task, r.place task < r.parallel.size task.mapping := by
    intro task
    rw [Rank.place, Parallel.rank, Parallel.size]
    split_ifs
    exacts [hexpert, hrank]
  refine ⟨flatten_of_mapM (mapM_eq_ok.1 hos) hrs ?_, hplace, ?_⟩
  · rintro ⟨task, k⟩ - o ho
    obtain ⟨hnone, hsome, -⟩ := task_published (hplace task) ho
    exact ⟨hnone, hsome⟩
  · intro task k t htask ht
    have hmem : (task, k) ∈ tasks.zipIdx := mem_zipIdx_iff_getElem?.2 (by simpa using htask)
    obtain ⟨o, ho, hspec⟩ := exists_mem_of_mapM hos hmem
    refine (task_published (hplace task) hspec).2.2 t ht ?_
    rintro spec rfl
    obtain ⟨aliases, -, ha⟩ := exists_mem_of_mapM hrs (mem_filterMap.2 ⟨_, ho, rfl⟩)
    exact ⟨aliases, ha⟩

/-! ## Shards by name -/

variable {parts : List (List ℕ × List PublishedShard)}

theorem name_mem_of_mem_aliasesOf (h : a ∈ aliasesOf t names parts) : a.name ∈ names := by
  obtain ⟨⟨name, part⟩, hmem, ha⟩ := mem_filterMap.1 h
  dsimp only at ha
  split_ifs at ha
  obtain rfl := some.inj ha
  exact (of_mem_zip hmem).1

theorem aliasesOf_cons (name : String) (names : List String) (part : List ℕ × List PublishedShard)
    (parts : List (List ℕ × List PublishedShard)) : aliasesOf t (name :: names) (part :: parts) =
      (if part.2 = [] then [] else [⟨name, t.dtype, t.elsize, part.1, part.2⟩]) ++ aliasesOf t names parts := by
  rw [aliasesOf, zip_cons_cons, filterMap_cons]
  split_ifs <;> rfl

theorem filter_aliasesOf {j : ℕ}
    {part : List ℕ × List PublishedShard} (hnames : names.Nodup) (hname : names[j]? = some name) (hpart : parts[j]? = some part) :
    (aliasesOf t names parts).filter (·.name = name) =
      if part.2 = [] then [] else [⟨name, t.dtype, t.elsize, part.1, part.2⟩] := by
  induction names generalizing parts j with
  | nil => cases hname
  | cons n names ih =>
    cases parts with
    | nil => cases hpart
    | cons q parts =>
      obtain ⟨hn, hnodup⟩ := nodup_cons.1 hnames
      cases j with
      | zero =>
        obtain rfl : n = name := some.inj hname
        obtain rfl : q = part := some.inj hpart
        have hrest : (aliasesOf t names parts).filter (·.name = n) = [] := by
          refine filter_eq_nil_iff.2 fun a ha hname => hn ?_
          rw [← of_decide_eq_true hname]
          exact name_mem_of_mem_aliasesOf ha
        rw [aliasesOf_cons, filter_append, hrest, append_nil]
        split_ifs <;> simp
      | succ j =>
        have hne : n ≠ name := fun h => hn (h ▸ mem_of_getElem? hname)
        rw [aliasesOf_cons, filter_append, ih hnodup hname hpart]
        split_ifs <;> simp [hne]

theorem name_mem_of_mem_aliases (h : a ∈ r.aliases config task k) : a.name ∈ task.hfNames := by
  rw [Rank.aliases] at h
  split at h
  · cases h
  · split at h
    · cases h
    · split_ifs at h
      · cases h
      · exact name_mem_of_mem_aliasesOf h

theorem filter_published (hnames : (tasks.flatMap Task.hfNames).Nodup) (htask : tasks[k]? = some task)
    (hname : name ∈ task.hfNames) (n : ℕ) :
    ((tasks.zipIdx n).flatMap fun item => r.aliases config item.1 item.2).filter (·.name = name) =
      (r.aliases config task (n + k)).filter (·.name = name) := by
  induction tasks generalizing n k with
  | nil => cases htask
  | cons first tasks ih =>
    obtain ⟨-, hrest, hdisjoint⟩ := nodup_append'.1 (flatMap_cons ▸ hnames)
    rw [zipIdx_cons, flatMap_cons, filter_append]
    cases k with
    | zero =>
      obtain rfl : first = task := some.inj htask
      refine append_right_eq_self.2 (filter_eq_nil_iff.2 ?_)
      intro a ha hname'
      obtain ⟨⟨other, i⟩, hother, ha⟩ := mem_flatMap.1 ha
      have hmem : other ∈ tasks := fst_mem_of_mem_zipIdx hother
      have ha := name_mem_of_mem_aliases ha
      rw [of_decide_eq_true hname'] at ha
      exact hdisjoint hname (mem_flatMap.2 ⟨other, hmem, ha⟩)
    | succ k =>
      have hmem : task ∈ tasks := mem_of_getElem? htask
      have hfirst : (r.aliases config first n).filter (·.name = name) = [] := by
        refine filter_eq_nil_iff.2 fun a ha hname' => ?_
        have ha := name_mem_of_mem_aliases ha
        rw [of_decide_eq_true hname'] at ha
        exact hdisjoint ha (mem_flatMap.2 ⟨task, hmem, hname⟩)
      rw [hfirst, nil_append, ih hrest htask, Nat.add_right_comm, Nat.add_assoc]

end

/-! ## Exactness of one task -/

def Rank.shardsOf {α : Type} (config : TransformerConfig) (r : Rank α) (task : Task) (j : ℕ) (role : Role) (t : Tensor) :
    List PublishedShard :=
  if role.axis = none ∧ r.place task ≠ 0 then []
  else (ownShards config r.agentName task.mapping role t (r.place task)).getD j []

section
variable {α : Type} {config : TransformerConfig} {group : List (Rank α)} {task : Task} {k : ℕ} {role : Role}
  {global : MegatronTensor α} {tensor : Rank α → Tensor} {n : ℕ}

/-- A group of ranks that hold the slices of a tensor. -/
structure Slices (config : TransformerConfig) (group : List (Rank α)) (task : Task) (role : Role) (global : MegatronTensor α)
    (tensor : Rank α → Tensor) (n : ℕ) : Prop where
  places : (group.map fun r => r.place task).Perm (List.range n)
  size : ∀ r ∈ group, r.parallel.size task.mapping = n
  holds : ∀ r ∈ group, HoldsSlice r global role (r.place task) (tensor r)

/-- What the ranks of a group publish of one HF tensor of a task. -/
def groupPieces (config : TransformerConfig) (group : List (Rank α)) (task : Task) (j : ℕ) (role : Role)
    (tensor : Rank α → Tensor) : List (Piece α) :=
  group.flatMap fun r => (r.shardsOf config task j role (tensor r)).map (⟨r.memory, (tensor r).elsize, ·⟩)

variable {axis : ℕ}

theorem set_getD_self (h : axis < ns.length) : ns.set axis (ns.getD axis 0) = ns := by
  rw [getD_eq_getElem?_getD, getElem?_eq_getElem h, getD_some, set_getElem_self]

theorem zero_notMem_set (axis : ℕ) {e : ℕ} (h : 0 ∉ ns) (he : 0 < e) : 0 ∉ ns.set axis e := by
  intro hmem
  rcases mem_or_eq_of_mem_set hmem with hmem | rfl
  · exact h hmem
  · exact absurd he (Nat.lt_irrefl 0)

theorem source_add {band : Band} {row period : ℕ} (hw : 0 < band.width) (hrow : row < band.width) :
    band.source (row + period * band.width) = row + band.offset + period * band.period := by
  have hdiv : (row + period * band.width) / band.width = period := (Band.div_iff hw).2 (by omega)
  rw [Band.source_of_div hdiv, Band.start]
  omega

section
variable (h : Slices config group task role global tensor n)
include h

theorem Slices.exact_whole (haxis : role.axis = some axis)
    (hlt : axis < global.sliceShape.length) (hpos : 0 ∉ global.sliceShape) :
    Exact (group.map fun r => ⟨r.memory, (tensor r).elsize, slab r.agentName (tensor r) (r.place task) axis⟩)
      (global.sliceShape.set axis (global.sliceShape.getD axis 0 * n)) global.element := by
  have hself := set_getD_self hlt
  refine exact_slabs hlt (getD_pos hpos hlt) h.places ?_ ?_ ?_
  · intro r hr
    rw [slab, (h.holds r hr).shape]
  · intro r hr
    rw [slab, (h.holds r hr).shape, hself]
  · intro r hr js hj
    have hr := h.holds r hr
    rw [hself, ← hr.shape] at hj
    have hread := hr.slice js hj
    rw [Tensor.dot_strides hr.contiguous (hr.shape ▸ hpos) hj] at hread
    refine hread.trans ?_
    rw [haxis, globalIndex, hr.shape]

theorem Slices.exact_half (haxis : role.axis = some 0)
    (hlt : 0 < global.sliceShape.length) (hpos : 0 ∉ global.sliceShape) (htwo : 2 ∣ global.sliceShape.getD 0 0) (up : Bool)
    (hc : ∀ r ∈ group, ((tensor r).narrow 0 (gatedBand (tensor r).shape up).offset ((tensor r).shape.getD 0 0 / 2)).isContiguous
      = true) :
    Exact (group.map fun r => ⟨r.memory, (tensor r).elsize, slab r.agentName
        ((tensor r).narrow 0 (gatedBand (tensor r).shape up).offset ((tensor r).shape.getD 0 0 / 2)) (r.place task) 0⟩)
      (global.sliceShape.set 0 (global.sliceShape.getD 0 0 / 2 * n))
      fun is => global.element (is.modify 0 (gatedBand global.sliceShape up).source) := by
  have hrows := getD_pos hpos hlt
  have hhalf : 0 < global.sliceShape.getD 0 0 / 2 := by omega
  have hset := zero_notMem_set 0 hpos hhalf
  refine exact_slabs hlt hhalf h.places ?_ ?_ ?_
  · intro r hr
    rw [slab, Tensor.narrow, (h.holds r hr).shape]
    simp [hlt]
  · intro r hr
    rw [slab, Tensor.narrow, (h.holds r hr).shape]
  · intro r hr js hj
    have hcr := hc r hr
    have hr := h.holds r hr
    have hoffset : (gatedBand global.sliceShape up).offset + global.sliceShape.getD 0 0 / 2 ≤ global.sliceShape.getD 0 0 := by
      cases up <;> simp only [gatedBand, if_true, Bool.false_eq_true, if_false] <;> omega
    have hread := hr.read_narrow 0 (gatedBand (tensor r).shape up).offset ((tensor r).shape.getD 0 0 / 2) (hr.shape ▸ hlt)
      (hr.shape ▸ hoffset) hcr (hr.shape ▸ hset) (hr.shape ▸ hj)
    refine hread.trans ?_
    have hrow := getD_lt hlt hj
    cases js with
    | nil => simp [haxis, globalIndex]
    | cons row js =>
      have hsource : (gatedBand global.sliceShape up).source (row + r.place task * (global.sliceShape.getD 0 0 / 2)) =
          row + (gatedBand global.sliceShape up).offset + r.place task * global.sliceShape.getD 0 0 :=
        source_add hhalf hrow
      simp only [haxis, globalIndex, modify_zero_cons, hr.shape, hsource]

theorem Slices.exact_replicated (haxis : role.axis = none) (hn : 0 < n) (hpos : 0 ∉ global.sliceShape) :
    Exact (group.filterMap fun r => if r.place task = 0 then
        some ⟨r.memory, (tensor r).elsize, slab r.agentName (tensor r) 0 0⟩ else none) global.sliceShape global.element := by
  have hpiece : ∀ r ∈ group, ∀ p : Piece α, (if r.place task = 0 then
      some ⟨r.memory, (tensor r).elsize, slab r.agentName (tensor r) 0 0⟩ else none) = some p →
      r.place task = 0 ∧ p = ⟨r.memory, (tensor r).elsize, slab r.agentName (tensor r) 0 0⟩ := by
    intro r hr p hp
    split_ifs at hp with hplace
    exact ⟨hplace, (some.inj hp).symm⟩
  refine exact_of_label (fun r => r.place task) (fun _ => 0) (nodup_places h.places) ?_ ?_ ?_
  · intro r hr p hp is
    obtain ⟨hplace, rfl⟩ := hpiece r hr p hp
    rw [hplace, PublishedShard.box, slab, Nat.zero_mul, unitAt_zero_right, inBox_zero, (h.holds r hr).shape]
    simp
  · intro is his
    obtain ⟨r, hr, hplace⟩ := exists_place h.places hn
    exact ⟨r, hr, hplace, by simp [hplace]⟩
  · intro r hr p hp js hj
    obtain ⟨_, rfl⟩ := hpiece r hr p hp
    have hr := h.holds r hr
    have hread := hr.slice js hj
    have hlength : js.length = (tensor r).shape.length := length_of_mem_indices hj
    rw [Tensor.dot_strides hr.contiguous (hr.shape ▸ hpos) hj] at hread
    refine hread.trans ?_
    rw [haxis, globalIndex, slab, Nat.zero_mul, unitAt_zero_right, ← hlength, zipWith_replicate_zero]

end

variable {t : Tensor} {r : Rank α}

theorem QkvBand.shard_eq_some {band : QkvBand} {agentName : String} {shard : PublishedShard} :
    band.shard t agentName lo hi = some shard ↔ max lo band.start < min hi (band.start + band.rows) ∧
      shard = ⟨agentName, t.device,
        (t.narrow 0 (max lo band.start - lo) (min hi (band.start + band.rows) - max lo band.start)).dataPtr,
        unitAt t.shape.length 0 (band.destinationStart + (max lo band.start - band.start)),
        t.shape.set 0 (min hi (band.start + band.rows) - max lo band.start)⟩ := by
  rw [QkvBand.shard]
  split_ifs with hmeets
  · rw [some.injEq, eq_comm]
    exact ⟨fun h => ⟨hmeets, h⟩, And.right⟩
  · exact ⟨fun h => (by cases h), fun h => absurd h.1 hmeets⟩

theorem interleaved_facts (hheads : config.Divides) (projection : Projection) :
    0 < config.layout.bandRows projection ∧
      config.layout.bandStart projection + config.layout.bandRows projection ≤ config.layout.groupRows ∧
      config.layout.destinationRows projection = config.layout.kvHeads * config.layout.bandRows projection := by
  obtain ⟨hq, hkv, hd, m, hm⟩ := hheads
  have hm0 : 0 < m := Nat.pos_of_ne_zero fun h => by simp [hm, h] at hq
  cases projection <;>
    simp only [bandRows, bandStart, groupRows, qRowsPerGroup,
      destinationRows, TransformerConfig.layout, hm, Nat.mul_div_cancel_left m hkv]
  · exact ⟨Nat.mul_pos hm0 hd, by omega, Nat.mul_assoc ..⟩
  · exact ⟨hd, by omega, trivial⟩
  · exact ⟨hd, by omega, trivial⟩

theorem Tensor.isContiguous_narrow (hc : t.isContiguous = true) (hpos : 0 ∉ t.shape) (start length : ℕ)
    (hl : 0 < length) (hle : length ≤ t.shape.getD 0 0) : (t.narrow 0 start length).isContiguous = true := by
  rw [Tensor.isContiguous, decide_eq_false hpos, Bool.false_or] at hc
  rw [Tensor.isContiguous, Tensor.narrow, contiguous_set_zero hc hl hle, Bool.or_true]

theorem HoldsSlice.read_band {p : ℕ} (band : Band) (g : ℕ)
    (h : HoldsSlice r global role p t) (haxis : role.axis = some 0) (hlt : 0 < t.shape.length) (hpos : 0 ∉ t.shape)
    (hw : 0 < band.width) (hlo : lo = p * t.shape.getD 0 0) (hhi : hi = lo + t.shape.getD 0 0)
    (hmeets : max lo (band.start g) < min hi (band.start g + band.width)) {js : List ℕ}
    (hj : js ∈ indices (t.shape.set 0 (min hi (band.start g + band.width) - max lo (band.start g)))) :
    r.memory ((t.narrow 0 (max lo (band.start g) - lo) (min hi (band.start g + band.width) - max lo (band.start g))).dataPtr +
        t.elsize * dot js (rowMajor (t.shape.set 0 (min hi (band.start g + band.width) - max lo (band.start g))))) =
      global.element (((unitAt t.shape.length 0 (g * band.width + (max lo (band.start g) - band.start g))).zipWith (· + ·)
        js).modify 0 band.source) := by
  have hlength : js.length = t.shape.length := by simpa using length_of_mem_indices hj
  have hrow := getD_lt hlt hj
  generalize hmx : max lo (band.start g) = mx at *
  generalize hmn : min hi (band.start g + band.width) = mn at *
  have hcontiguous := Tensor.isContiguous_narrow h.contiguous hpos (mx - lo) (mn - mx) (by omega) (by omega)
  rw [h.read_narrow 0 _ _ hlt (by omega) hcontiguous (zero_notMem_set 0 hpos (by omega)) hj, ← hlength, unitAt_add, haxis, globalIndex]
  congr 1
  cases js with
  | nil => rfl
  | cons row js =>
    simp only [getD_cons_zero] at hrow
    have hdiv : (row + (g * band.width + (mx - band.start g))) / band.width = g := (Band.div_iff hw).2 (by omega)
    simp only [modify_zero_cons, cons.injEq, and_true]
    rw [Band.source_of_div hdiv]
    omega

theorem Slices.exact_projection (h : Slices config group task .qkvColumn global tensor n)
    (hlt : 0 < global.sliceShape.length) (hpos : 0 ∉ global.sliceShape) (hheads : config.Divides)
    (htotal : config.layout.totalRows = global.sliceShape.getD 0 0 * n) (projection : Projection) :
    Exact (group.flatMap fun r => (qkvShards config.layout r.agentName (tensor r) (r.place task) projection).map fun shard =>
        ⟨r.memory, (tensor r).elsize, shard⟩)
      (global.sliceShape.set 0 (config.layout.destinationRows projection))
      fun is => global.element (is.modify 0 (config.layout.interleaved projection).source) := by
  obtain ⟨hw, hfit, hrows⟩ := interleaved_facts hheads projection
  have hl := getD_pos hpos hlt
  simp only [qkvShards, map_filterMap]
  rw [hrows]
  have hband : ∀ g, (config.layout.band g projection).start = (config.layout.interleaved projection).start g := fun _ => rfl
  refine exact_bands (config.layout.interleaved projection) (l := global.sliceShape.getD 0 0)
    (length_pos_iff.1 hlt) hw hfit hl (htotal.trans (Nat.mul_comm ..)) h.places ?_ ?_ ?_
  · intro r hr g p hp
    obtain ⟨shard, hshard, rfl⟩ := map_eq_some_iff.1 hp
    rw [(h.holds r hr).shape] at hshard
    obtain ⟨hmeets, rfl⟩ := QkvBand.shard_eq_some.1 hshard
    exact ⟨hmeets, by rw [(h.holds r hr).shape]; rfl, by rw [(h.holds r hr).shape]; rfl⟩
  · intro r hr g hmeets
    rw [isSome_map, (h.holds r hr).shape]
    exact isSome_iff_exists.2 ⟨_, QkvBand.shard_eq_some.2 ⟨hmeets, rfl⟩⟩
  · intro r hr g hg p hp js hj
    obtain ⟨_, hshard, rfl⟩ := map_eq_some_iff.1 hp
    obtain ⟨hmeets, rfl⟩ := QkvBand.shard_eq_some.1 hshard
    have hr := h.holds r hr
    exact hr.read_band (config.layout.interleaved projection) g rfl (hr.shape ▸ hlt) (hr.shape ▸ hpos) hw rfl
      (Nat.succ_mul ..) hmeets hj

variable {j : ℕ}

theorem getD_map {x : ι} (h : l[j]? = some x) (g : ι → κ) (d : κ) : (l.map g).getD j d = g x := by
  rw [getD_eq_getElem?_getD, getElem?_map, h]
  rfl

theorem shardsOf_sharded (haxis : role.axis = some axis) :
    r.shardsOf config task j role t = (ownShards config r.agentName task.mapping role t (r.place task)).getD j [] := by
  rw [Rank.shardsOf, if_neg (by simp [haxis])]

theorem groupPieces_eq {f : Rank α → PublishedShard} (haxis : role.axis = some axis)
    (h : ∀ r ∈ group, (ownShards config r.agentName task.mapping role (tensor r) (r.place task)).getD j [] = [f r]) :
    groupPieces config group task j role tensor = group.map fun r => ⟨r.memory, (tensor r).elsize, f r⟩ := by
  rw [groupPieces, map_eq_flatMap]
  refine flatMap_congr fun r hr => ?_
  rw [shardsOf_sharded haxis, h r hr]
  rfl

variable {part : Part}

section
variable (h : Slices config group task role global tensor n)
include h

theorem exact_whole_part (haxis : role.axis = some axis)
    (hlt : axis < global.sliceShape.length) (hpos : 0 ∉ global.sliceShape)
    (hpart : [wholePart global.sliceShape n axis][j]? = some part)
    (hown : ∀ r ∈ group, ownShards config r.agentName task.mapping role (tensor r) (r.place task) =
      [[slab r.agentName (tensor r) (r.place task) axis]]) :
    Exact (groupPieces config group task j role tensor) part.fullShape fun is => global.element (part.source is) := by
  cases j with
  | succ j => cases hpart
  | zero =>
    obtain rfl := some.inj hpart
    rw [groupPieces_eq haxis fun r hr => by rw [hown r hr]; rfl]
    exact h.exact_whole haxis hlt hpos

theorem exact_gated_part (haxis : role.axis = some 0)
    (hlt : 0 < global.sliceShape.length) (hpos : 0 ∉ global.sliceShape)
    (hfits : ∀ r ∈ group, 2 ∣ (tensor r).shape.getD 0 0 ∧ ∀ up, ((tensor r).narrow 0 (gatedBand (tensor r).shape up).offset
      ((tensor r).shape.getD 0 0 / 2)).isContiguous = true) (hn : 0 < n)
    (hpart : (gatedParts global.sliceShape n)[j]? = some part)
    (hown : ∀ r ∈ group, ownShards config r.agentName task.mapping role (tensor r) (r.place task) =
      gatedShards r.agentName (tensor r) (r.place task)) :
    Exact (groupPieces config group task j role tensor) part.fullShape fun is => global.element (part.source is) := by
  rw [gatedParts, getElem?_map] at hpart
  obtain ⟨up, hup, rfl⟩ := map_eq_some_iff.1 hpart
  obtain ⟨first, hfirst, -⟩ := exists_place h.places hn
  rw [groupPieces_eq haxis fun r hr => by rw [hown r hr, gatedShards, getD_map hup]]
  exact h.exact_half haxis hlt hpos ((h.holds first hfirst).shape ▸ (hfits first hfirst).1) up fun r hr => (hfits r hr).2 up

theorem Slices.exact (hn : 0 < n)
    (hfits : ∀ r ∈ group, (role.axis = none ∧ r.place task ≠ 0) ∨ Fits config r.parallel task.mapping role (tensor r))
    (hpart : (hfParts config n task.mapping role global.sliceShape)[j]? = some part) :
    Exact (groupPieces config group task j role tensor) part.fullShape fun is => global.element (part.source is) := by
  obtain ⟨first, hfirst, hplace⟩ := exists_place h.places hn
  have hfit := (hfits first hfirst).resolve_left fun hnot => hnot.2 hplace
  have hshape := (h.holds first hfirst).shape
  have hpos : 0 ∉ global.sliceShape := hshape ▸ hfit.nonempty
  have hlt : ∀ axis, role.axis = some axis → axis < global.sliceShape.length := hshape ▸ hfit.axis
  have hall : ∀ axis, role.axis = some axis → ∀ r ∈ group, Fits config r.parallel task.mapping role (tensor r) := by
    intro axis haxis r hr
    refine (hfits r hr).resolve_left fun hnot => ?_
    rw [haxis] at hnot
    cases hnot.1
  cases role with
  | qkvColumn =>
    rw [hfParts, getElem?_map] at hpart
    obtain ⟨projection, hprojection, rfl⟩ := map_eq_some_iff.1 hpart
    obtain ⟨hheads, htotal⟩ := hfit.heads rfl
    have hshards : ∀ r : Rank α, r.shardsOf config task j .qkvColumn (tensor r) =
        qkvShards config.layout r.agentName (tensor r) (r.place task) projection := by
      intro r
      rw [shardsOf_sharded rfl, ownShards, getD_map hprojection]
    simp only [groupPieces, hshards]
    refine h.exact_projection (hlt 0 rfl) hpos hheads ?_ projection
    rw [htotal, hshape, h.size first hfirst]
  | gatedMlpColumn =>
    exact exact_gated_part h rfl (hlt 0 rfl) hpos (fun r hr => (hall 0 rfl r hr).gated (.inl rfl)) hn hpart fun _ _ => rfl
  | expertColumn =>
    rw [hfParts] at hpart
    split_ifs at hpart with hg
    · exact exact_gated_part h rfl (hlt 0 rfl) hpos (fun r hr => (hall 0 rfl r hr).gated (.inr ⟨rfl, hg⟩)) hn hpart
        fun _ _ => if_pos hg
    · exact exact_whole_part h rfl (hlt 0 rfl) hpos hpart fun _ _ => if_neg hg
  | column => exact exact_whole_part h rfl (hlt 0 rfl) hpos hpart fun _ _ => rfl
  | row | expertRow => exact exact_whole_part h rfl (hlt 1 rfl) hpos hpart fun _ _ => rfl
  | replicated =>
    cases j with
    | succ j => cases hpart
    | zero =>
      obtain rfl := some.inj hpart
      have hpieces : groupPieces config group task 0 .replicated tensor = group.filterMap fun r => if r.place task = 0 then
            some ⟨r.memory, (tensor r).elsize, slab r.agentName (tensor r) 0 0⟩ else none := by
        rw [groupPieces, filterMap_eq_flatMap_toList]
        refine flatMap_congr fun r hr => ?_
        rw [Rank.shardsOf]
        split_ifs with hnot hzero hzero
        · exact absurd hzero hnot.2
        · rfl
        · rfl
        · exact absurd ⟨rfl, hzero⟩ hnot
      rw [hpieces]
      exact h.exact_replicated rfl hn hpos

end

end

/-! ## All ranks -/

section
variable {α : Type} {config : TransformerConfig} {tasks : List Task} {r : Rank α} {task : Task} {k j : ℕ} {role : Role}
  {t : Tensor} {published : List PublishedTensor} {name : String}

theorem exists_hfPart (config : TransformerConfig) {ndim : ℕ} (hrole : roleForMapping task.mapping ndim = .ok role) (hname : task.hfNames[j]? = some name)
    (n : ℕ) (shape : List ℕ) : ∃ part, (hfParts config n task.mapping role shape)[j]? = some part := by
  have hj : j < task.hfNames.length := (List.getElem?_eq_some_iff.1 hname).1
  suffices hle : task.hfNames.length ≤ (hfParts config n task.mapping role shape).length from
    ⟨_, getElem?_eq_getElem (Nat.lt_of_lt_of_le hj hle)⟩
  rcases roleForMapping_cases hrole with ⟨hq, -, rfl⟩ | ⟨hq, hg, hrole⟩ | ⟨hq, hg, hqkv, _⟩
  · rw [Task.hfNames, if_pos hq]
    exact length_filterMap_le ..
  · rw [Task.hfNames, if_neg (by simp [hq]), if_pos hg]
    rcases hrole with rfl | rfl
    · exact length_filterMap_le ..
    · rw [hfParts, if_pos hg]
      exact length_filterMap_le ..
  · rw [Task.hfNames, if_neg (by simp [hq]), if_neg (by simp [hg])]
    cases role <;> simp_all [hfParts]

theorem filter_of_publish (hnames : (tasks.flatMap Task.hfNames).Nodup)
    (h : publish config r.parallel (r.conversionTasks tasks) r.agentName = .ok published) (htask : tasks[k]? = some task)
    (hname : task.hfNames[j]? = some name) :
    (r.weight k = none → published.filter (·.name = name) = []) ∧
    ∀ t, r.weight k = some t → ∀ role, roleForMapping task.mapping t.shape.length = .ok role →
      ∀ part, (hfParts config (r.parallel.size task.mapping) task.mapping role t.shape)[j]? = some part →
        published.filter (·.name = name) = if r.shardsOf config task j role t = [] then []
          else [⟨name, t.dtype, t.elsize, part.fullShape, r.shardsOf config task j role t⟩] := by
  have hnodup : task.hfNames.Nodup := (nodup_flatMap.1 hnames).1 task (mem_of_getElem? htask)
  rw [(publish_eq h).1, filter_published hnames htask (mem_of_getElem? hname) 0, Nat.zero_add]
  refine ⟨fun hw => by rw [aliases_none hw, filter_nil], ?_⟩
  intro t hw role hrole part hpart
  rw [aliases_some hw hrole, Rank.shardsOf]
  by_cases hnot : role.axis = none ∧ r.place task ≠ 0
  · rw [if_pos hnot, if_pos hnot, if_pos rfl, filter_nil]
  · rw [if_neg hnot, if_neg hnot]
    have hj : j < (ownShards config r.agentName task.mapping role t (r.place task)).length := by
      have hlength : (ownShards config r.agentName task.mapping role t (r.place task)).length =
          (hfParts config (r.parallel.size task.mapping) task.mapping role t.shape).length := by
        cases role <;> simp only [ownShards, hfParts] <;> try rfl
        split_ifs <;> rfl
      rw [hlength]
      exact (List.getElem?_eq_some_iff.1 hpart).1
    have hown : (ownParts config r.parallel r.agentName task role t)[j]? = some (part.fullShape,
        (ownShards config r.agentName task.mapping role t (r.place task)).getD j []) := by
      rw [ownParts, getElem?_zip_eq_some, getElem?_map, hpart, getD_eq_getElem?_getD]
      refine ⟨rfl, ?_⟩
      rw [← Rank.place, getElem?_eq_getElem hj]
      rfl
    exact filter_aliasesOf hnodup hname hown

theorem flatMap_filter {p : ι → Bool} {f : ι → List κ} (h : ∀ a ∈ l, p a = false → f a = []) :
    l.flatMap f = (l.filter p).flatMap f := by
  induction l with
  | nil => rfl
  | cons a l ih =>
    have ih := ih fun b hb => h b (mem_cons_of_mem _ hb)
    rw [flatMap_cons, filter_cons, ih]
    split_ifs with hp
    · rw [flatMap_cons]
    · rw [h a (mem_cons_self ..) (Bool.eq_false_iff.2 hp), nil_append]

/-- The ranks of a trainer hold the slices of its tensors, and all of them publish. -/
structure Publication (config : TransformerConfig) (tensorParallelSize expertTensorParallelSize : ℕ) (tasks : List Task)
    (ranks : List (Rank α)) (global : ℕ → MegatronTensor α) (published : Rank α → List PublishedTensor) : Prop where
  /-- an HF name names one tensor -/
  names : (tasks.flatMap Task.hfNames).Nodup
  sizes : 0 < tensorParallelSize ∧ 0 < expertTensorParallelSize
  parallel : ∀ r ∈ ranks, r.parallel.tensorParallelSize = tensorParallelSize ∧
    r.parallel.expertTensorParallelSize = expertTensorParallelSize
  slices : ∀ r ∈ ranks, ∀ k task t role, tasks[k]? = some task → r.weight k = some t →
    roleForMapping task.mapping t.shape.length = .ok role → HoldsSlice r (global k) role (r.place task) t
  publishes : ∀ r ∈ ranks, publish config r.parallel (r.conversionTasks tasks) r.agentName = .ok (published r)

/-- The number of slices of the tensor of a task. -/
def Task.slices (task : Task) (tensorParallelSize expertTensorParallelSize : ℕ) : ℕ :=
  if task.mapping.isExpert then expertTensorParallelSize else tensorParallelSize

section
variable {tensorParallelSize expertTensorParallelSize : ℕ} {ranks : List (Rank α)} {global : ℕ → MegatronTensor α}
  {published : Rank α → List PublishedTensor}

section
variable (h : Publication config tensorParallelSize expertTensorParallelSize tasks ranks global published)
include h

theorem Publication.size_eq (hr : r ∈ ranks) (task : Task) :
    r.parallel.size task.mapping = task.slices tensorParallelSize expertTensorParallelSize := by
  rw [Parallel.size, Task.slices, (h.parallel r hr).1, (h.parallel r hr).2]

theorem Publication.accepted (hr : r ∈ ranks) (htask : tasks[k]? = some task) (hw : r.weight k = some t) :
    ∃ role, roleForMapping task.mapping (global k).sliceShape.length = .ok role ∧ Accepted config r task t role ∧
      HoldsSlice r (global k) role (r.place task) t := by
  obtain ⟨role, haccepted⟩ := (publish_eq (h.publishes r hr)).2.2 task k t htask hw
  have hholds := h.slices r hr k task t role htask hw haccepted.roleFor
  exact ⟨role, hholds.shape ▸ haccepted.roleFor, haccepted, hholds⟩

end

/-- **Publication is exact**: the ranks that publish an HF tensor agree on its type and shape,
their shards are disjoint and cover it, and the memory of each shard holds the elements of
its box, when the tensor of the task is held once by every place of its group. -/
theorem publication_exact (h : Publication config tensorParallelSize expertTensorParallelSize tasks ranks global published)
    (htask : tasks[k]? = some task)
    (hholders : ((ranks.filter fun r => (r.weight k).isSome).map fun r => r.place task).Perm
      (List.range (task.slices tensorParallelSize expertTensorParallelSize)))
    (hname : task.hfNames[j]? = some name) :
    ∃ role part, roleForMapping task.mapping (global k).sliceShape.length = .ok role ∧
      (hfParts config (task.slices tensorParallelSize expertTensorParallelSize) task.mapping role
        (global k).sliceShape)[j]? = some part ∧
      (∀ r ∈ ranks, ∀ a ∈ published r, a.name = name → a.dtype = (global k).dtype ∧ a.fullShape = part.fullShape) ∧
      Exact (pieces published ranks name) part.fullShape fun is => (global k).element (part.source is) := by
  have hn : 0 < task.slices tensorParallelSize expertTensorParallelSize := by
    rw [Task.slices]
    split_ifs
    exacts [h.sizes.2, h.sizes.1]
  obtain ⟨_, hfirst, -⟩ := exists_place hholders hn
  obtain ⟨hfirst, hsome⟩ := mem_filter.1 hfirst
  obtain ⟨t₀, ht₀⟩ := isSome_iff_exists.1 hsome
  obtain ⟨role, hrole, -⟩ := h.accepted hfirst htask ht₀
  obtain ⟨part, hpart⟩ := exists_hfPart config hrole hname (task.slices tensorParallelSize expertTensorParallelSize)
    (global k).sliceShape
  -- every other holder has the same role
  have haccepted : ∀ r ∈ ranks, ∀ t, r.weight k = some t → Accepted config r task t role ∧
      HoldsSlice r (global k) role (r.place task) t := by
    intro r hr t hw
    obtain ⟨role', hrole', haccepted⟩ := h.accepted hr htask hw
    obtain rfl : role = role' := Except.ok.inj (hrole.symm.trans hrole')
    exact haccepted
  have hfilter : ∀ r ∈ ranks, ∀ t, r.weight k = some t → (published r).filter (·.name = name) =
      if r.shardsOf config task j role t = [] then []
      else [⟨name, t.dtype, t.elsize, part.fullShape, r.shardsOf config task j role t⟩] := by
    intro r hr t hw
    obtain ⟨haccepted, hholds⟩ := haccepted r hr t hw
    refine (filter_of_publish h.names (h.publishes r hr) htask hname).2 t hw role haccepted.roleFor part ?_
    rw [hholds.shape, h.size_eq hr]
    exact hpart
  have hnone : ∀ r ∈ ranks, r.weight k = none → (published r).filter (·.name = name) = [] := fun r hr =>
    (filter_of_publish h.names (h.publishes r hr) htask hname).1
  refine ⟨role, part, hrole, hpart, ?_, ?_⟩
  · intro r hr a ha haname
    have ha : a ∈ (published r).filter (·.name = name) := mem_filter.2 ⟨ha, by simpa using haname⟩
    cases hw : r.weight k with
    | none =>
      rw [hnone r hr hw] at ha
      cases ha
    | some t =>
      rw [hfilter r hr t hw] at ha
      split_ifs at ha
      · cases ha
      · obtain rfl := mem_singleton.1 ha
        exact ⟨(haccepted r hr t hw).2.dtype, rfl⟩
  · have hholds : ∀ {r}, r ∈ ranks.filter (fun r => (r.weight k).isSome) → r ∈ ranks ∧ ∃ t, r.weight k = some t :=
      fun hr => (mem_filter.1 hr).imp_right isSome_iff_exists.1
    have hslices : Slices config (ranks.filter fun r => (r.weight k).isSome) task role (global k)
        (fun r => (r.weight k).getD t₀) (task.slices tensorParallelSize expertTensorParallelSize) := by
      refine ⟨hholders, ?_, ?_⟩
      · intro r hr
        exact h.size_eq (mem_filter.1 hr).1 task
      · intro r hr
        obtain ⟨hr, t, hw⟩ := hholds hr
        rw [hw]
        exact (haccepted r hr t hw).2
    have hpieces : pieces published ranks name = groupPieces config (ranks.filter fun r => (r.weight k).isSome) task j role
        fun r => (r.weight k).getD t₀ := by
      rw [pieces, groupPieces, flatMap_filter (p := fun r => (r.weight k).isSome)]
      · refine flatMap_congr fun r hr => ?_
        obtain ⟨hr, t, hw⟩ := hholds hr
        rw [hfilter r hr t hw, hw, getD_some]
        split_ifs with hempty
        · rw [hempty]
          rfl
        · exact flatMap_singleton ..
      · intro r hr hempty
        rw [hnone r hr (by simpa using hempty)]
        rfl
    rw [hpieces]
    refine hslices.exact hn ?_ hpart
    intro r hr
    obtain ⟨hr, t, hw⟩ := hholds hr
    rw [hw]
    exact (haccepted r hr t hw).1.fits

def halfRank (place : ℕ) : Rank ℕ where
  parallel := ⟨2, place, 1, 0⟩
  agentName := "trainer"
  weight k := if k = 0 then some ⟨"torch.bfloat16", 1, [2], [1], 100, 0⟩ else none
  memory a := 2 * place + (a - 100)

def qkvTask : Task := ⟨"decoder.linear_qkv.bias", ⟨["QKVMapping"], false,
  ⟨"", [("q", "q_proj.bias"), ("k", "k_proj.bias"), ("v", "v_proj.bias")]⟩, false, ""⟩⟩

def twoHeads : TransformerConfig := ⟨2, 1, 1⟩

def fusedBias : MegatronTensor ℕ := ⟨"torch.bfloat16", 1, [2], fun is => is.getD 0 0⟩

def halfPublished (r : Rank ℕ) : List PublishedTensor :=
  (publish twoHeads r.parallel (r.conversionTasks [qkvTask]) r.agentName).toOption.getD []

theorem publication_halves : Publication twoHeads 2 1 [qkvTask] [halfRank 0, halfRank 1] (fun _ => fusedBias) halfPublished where
  names := by decide
  sizes := by decide
  parallel := by decide
  slices := by
    intro r hr k task t role htask hw hrole
    cases k with
    | succ k => cases htask
    | zero =>
      obtain rfl : qkvTask = task := some.inj htask
      have hcases : r = halfRank 0 ∨ r = halfRank 1 := by simpa using hr
      rcases hcases with rfl | rfl <;>
        obtain rfl := some.inj hw <;>
        obtain rfl := Except.ok.inj hrole <;>
        exact ⟨by decide, rfl, rfl, rfl, by decide⟩
  publishes := by
    intro r hr
    have hcases : r = halfRank 0 ∨ r = halfRank 1 := by simpa using hr
    rcases hcases with rfl | rfl <;> rfl

theorem publication_exact_halves : ∃ role part, roleForMapping qkvTask.mapping 1 = .ok role ∧
    (hfParts twoHeads 2 qkvTask.mapping role [2])[1]? = some part ∧
    (∀ r ∈ [halfRank 0, halfRank 1], ∀ a ∈ halfPublished r, a.name = "k_proj.bias" →
      a.dtype = "torch.bfloat16" ∧ a.fullShape = part.fullShape) ∧
    Exact (pieces halfPublished [halfRank 0, halfRank 1] "k_proj.bias") part.fullShape fun is => fusedBias.element (part.source is) :=
  publication_exact publication_halves (k := 0) rfl (by decide) rfl

end

end

end ModelExpress.Megatron
