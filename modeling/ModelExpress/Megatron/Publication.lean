/-
  ModelExpress Megatron trainer — what the ranks of a group publish together.
-/
import ModelExpress.Lib.Interleave
import ModelExpress.Megatron.Selection

namespace ModelExpress.Megatron

open Strided Interleave List

/-! ## Ranks and what they hold -/

/-- A conversion task, apart from the tensor that a rank holds for it. -/
structure Task where
  globalParamName : String
  mapping : Mapping

/-- A rank, the tensors it holds by the position of their task, and the elements in its memory by address. -/
structure Rank (α : Type) where
  parallel : Parallel
  agentName : String
  weight : ℕ → Option Tensor
  memory : ℕ → α

def Rank.conversionTasks {α : Type} (r : Rank α) (tasks : List Task) : List ConversionTask :=
  tasks.zipIdx.map fun (task, k) => ⟨task.globalParamName, task.mapping, r.weight k⟩

/-- The place of a rank in the group over which the tensor of a task is cut, and the size of that group. -/
def Rank.place {α : Type} (r : Rank α) (task : Task) : ℕ := r.parallel.rank task.mapping

/-- A global Megatron tensor; all of its slices have one shape. -/
structure MegatronTensor (α : Type) where
  dtype : String
  elsize : ℕ
  sliceShape : List ℕ
  element : List ℕ → α

def Role.axis : Role → Option ℕ
  | .replicated => none
  | .row | .expertRow => some 1
  | _ => some 0

variable (shape : List ℕ)

/-- An index of the slice of rank `p`, as an index of the global tensor. -/
def globalIndex (axis : Option ℕ) (p : ℕ) (is : List ℕ) : List ℕ :=
  match axis with
  | none => is
  | some axis => is.modify axis (· + p * shape.getD axis 0)

/-- The tensor is a contiguous slice of the global tensor, as it lies in the memory of the rank. -/
structure HoldsSlice {α : Type} (r : Rank α) (global : MegatronTensor α) (role : Role) (p : ℕ) (t : Tensor) : Prop where
  contiguous : t.isContiguous = true
  shape : t.shape = global.sliceShape
  dtype : t.dtype = global.dtype
  elsize : t.elsize = global.elsize
  slice : ∀ is ∈ indices t.shape,
    r.memory (t.dataPtr + t.elsize * dot is t.strides) = global.element (globalIndex t.shape role.axis p is)

/-! ## HF tensors -/

def Task.hfNames (task : Task) : List String :=
  if task.mapping.inherits "QKVMapping" then ["q", "k", "v"].filterMap fun key => task.mapping.hfParam.entries.lookup key
  else if task.mapping.inherits "GatedMLPMapping" then ["gate", "up"].filterMap fun key => task.mapping.hfParam.entries.lookup key
  else [task.mapping.hfParam.text]

/-- An HF tensor: its shape, and where its elements are in the global Megatron tensor. -/
structure Part where
  fullShape : List ℕ
  source : List ℕ → List ℕ

def bandPart (rows : ℕ) (band : Band) : Part where
  fullShape := shape.set 0 rows
  source is := is.modify 0 band.source

def wholePart (n : ℕ) (axis : ℕ) : Part where
  fullShape := shape.set axis (shape.getD axis 0 * n)
  source is := is

def gatedBand (up : Bool) : Band where
  width := shape.getD 0 0 / 2
  period := shape.getD 0 0
  offset := if up then shape.getD 0 0 / 2 else 0

def TransformerConfig.layout (config : TransformerConfig) : QkvLayout :=
  ⟨config.kvChannels, config.numAttentionHeads, config.numQueryGroups⟩

/-- The query rows, the K head or the V head of every KV group. -/
def QkvLayout.interleaved (layout : QkvLayout) (projection : Projection) : Band where
  width := layout.bandRows projection
  period := layout.groupRows
  offset := layout.bandStart projection

def gatedParts (n : ℕ) : List Part :=
  [false, true].map fun up => bandPart shape (shape.getD 0 0 / 2 * n) (gatedBand shape up)

/-- The HF tensors of a task whose slices have a shape and are held by `n` ranks. -/
def hfParts (config : TransformerConfig) (n : ℕ) (mapping : Mapping) (role : Role) (shape : List ℕ) : List Part :=
  match role with
  | .qkvColumn => [Projection.q, .k, .v].map fun projection =>
      bandPart shape (config.layout.destinationRows projection) (config.layout.interleaved projection)
  | .gatedMlpColumn => gatedParts shape n
  | .expertColumn => if mapping.inherits "GatedMLPMapping" then gatedParts shape n else [wholePart shape n 0]
  | .column => [wholePart shape n 0]
  | .row | .expertRow => [wholePart shape n 1]
  | .replicated => [⟨shape, id⟩]

/-! ## Exactness -/

/-- A shard that is published, and the memory it lies in. -/
structure Piece (α : Type) where
  memory : ℕ → α
  elsize : ℕ
  shard : PublishedShard

def Piece.read {α : Type} (piece : Piece α) (js : List ℕ) : α :=
  piece.memory (piece.shard.addr + piece.elsize * dot js (rowMajor piece.shard.shape))

/-- The pieces are the HF tensor, each of its elements once. -/
structure Exact {α : Type} (pieces : List (Piece α)) (fullShape : List ℕ) (element : List ℕ → α) : Prop where
  disjoint : pieces.Pairwise fun a b => ∀ is, InBox is a.shard.box → ¬ InBox is b.shard.box
  cover : ∀ is, is ∈ indices fullShape ↔ ∃ piece ∈ pieces, InBox is piece.shard.box
  reads : ∀ piece ∈ pieces, ∀ js ∈ indices piece.shard.shape,
    piece.read js = element (piece.shard.shardOffset.zipWith (· + ·) js)

def pieces {α : Type} (published : Rank α → List PublishedTensor) (group : List (Rank α)) (name : String) :
    List (Piece α) :=
  group.flatMap fun r => ((published r).filter (·.name = name)).flatMap fun t => t.shards.map fun shard =>
    ⟨r.memory, t.elsize, shard⟩

theorem exact_of_label {α ι κ : Type} {keys : List ι} {piece : ι → Option (Piece α)} {fullShape : List ℕ}
    {element : List ℕ → α} (key : ι → κ) (label : List ℕ → κ) (hkeys : (keys.map key).Nodup)
    (hbox : ∀ i ∈ keys, ∀ p, piece i = some p → ∀ is, InBox is p.shard.box ↔ is ∈ indices fullShape ∧ label is = key i)
    (hcover : ∀ is ∈ indices fullShape, ∃ i ∈ keys, key i = label is ∧ (piece i).isSome)
    (hreads : ∀ i ∈ keys, ∀ p, piece i = some p → ∀ js ∈ indices p.shard.shape,
      p.read js = element (p.shard.shardOffset.zipWith (· + ·) js)) :
    Exact (keys.filterMap piece) fullShape element where
  disjoint := by
    refine pairwise_filterMap.2 ?_
    have hdistinct := pairwise_map.1 hkeys
    refine hdistinct.imp_of_mem fun {i j} hi hj hne p hp q hq is hip hiq => hne ?_
    exact ((hbox i hi p hp is).1 hip).2.symm.trans ((hbox j hj q hq is).1 hiq).2
  cover is := by
    constructor
    · intro his
      obtain ⟨i, hi, hkey, hsome⟩ := hcover is his
      obtain ⟨p, hp⟩ := Option.isSome_iff_exists.1 hsome
      exact ⟨p, mem_filterMap.2 ⟨i, hi, hp⟩, (hbox i hi p hp is).2 ⟨his, hkey.symm⟩⟩
    · rintro ⟨p, hp, his⟩
      obtain ⟨i, hi, hpi⟩ := mem_filterMap.1 hp
      exact ((hbox i hi p hpi is).1 his).1
  reads p hp := by
    obtain ⟨i, hi, hpi⟩ := mem_filterMap.1 hp
    exact hreads i hi p hpi

/-! ## Reading slices -/

variable {js shape : List ℕ}

section
variable {α : Type} {r : Rank α} {global : MegatronTensor α} {role : Role} {p : ℕ} {t : Tensor}

theorem Tensor.dot_strides (hc : t.isContiguous = true) (hshape : 0 ∉ t.shape) (hj : js ∈ indices t.shape) :
    dot js t.strides = dot js (rowMajor t.shape) := by
  rw [Tensor.isContiguous, decide_eq_false hshape, Bool.false_or] at hc
  exact dot_contiguous hc hj

theorem HoldsSlice.read_narrow (h : HoldsSlice r global role p t) (axis start length : ℕ) (haxis : axis < t.shape.length)
    (hfit : start + length ≤ t.shape.getD axis 0) (hpart : (t.narrow axis start length).isContiguous = true)
    (hpos : 0 ∉ t.shape.set axis length) (hj : js ∈ indices (t.shape.set axis length)) :
    r.memory ((t.narrow axis start length).dataPtr + t.elsize * dot js (rowMajor (t.shape.set axis length))) =
      global.element (globalIndex t.shape role.axis p (js.modify axis (· + start))) := by
  have hlength : js.length = t.shape.length := by simpa using length_of_mem_indices hj
  rw [← h.slice _ (modify_mem_indices hfit hj), dot_modify (by rw [hlength]; exact haxis)]
  have hdot : dot js t.strides = dot js (rowMajor (t.shape.set axis length)) :=
    Tensor.dot_strides (t := t.narrow axis start length) hpart hpos hj
  rw [hdot]
  congr 1
  simp only [Tensor.narrow]
  ring

end

/-! ## Slabs and bands -/

section
variable {α : Type} {group : List (Rank α)} {place : Rank α → ℕ} {n : ℕ} {element : List ℕ → α}

section
variable (hplaces : (group.map place).Perm (List.range n))
include hplaces

theorem exists_place {p : ℕ} (hp : p < n) : ∃ r ∈ group, place r = p :=
  mem_map.1 (hplaces.mem_iff.2 (mem_range.2 hp))

theorem place_lt {r : Rank α} (hr : r ∈ group) : place r < n :=
  mem_range.1 (hplaces.mem_iff.1 (mem_map_of_mem hr))

theorem nodup_places : (group.map place).Nodup :=
  hplaces.nodup_iff.2 nodup_range

end

theorem getD_lt {ns is : List ℕ} {axis m : ℕ} (haxis : axis < ns.length) (h : is ∈ indices (ns.set axis m)) :
    is.getD axis 0 < m := by
  obtain ⟨hlength, hlt⟩ := mem_indices_iff_getElem?.1 h
  have haxis' : axis < is.length := by simpa [hlength] using haxis
  refine hlt axis _ m ?_ (by simp [haxis])
  rw [getD_eq_getElem?_getD, getElem?_eq_getElem haxis', Option.getD_some]

theorem exact_slabs {axis e : ℕ} {piece : Rank α → Piece α}
    (haxis : axis < shape.length) (he : 0 < e) (hplaces : (group.map place).Perm (List.range n))
    (hoffset : ∀ r ∈ group, (piece r).shard.shardOffset = unitAt shape.length axis (place r * e))
    (hshape : ∀ r ∈ group, (piece r).shard.shape = shape.set axis e)
    (hreads : ∀ r ∈ group, ∀ js ∈ indices (shape.set axis e), (piece r).read js = element (js.modify axis (· + place r * e))) :
    Exact (group.map piece) (shape.set axis (e * n)) element := by
  rw [← filterMap_eq_map]
  refine exact_of_label place (fun is => is.getD axis 0 / e) (nodup_places hplaces) ?_ ?_ ?_
  · intro r hr p hp is
    obtain rfl : piece r = p := Option.some.inj hp
    have hfit : place r * e + e ≤ e * n := by
      rw [← Nat.succ_mul, Nat.mul_comm e]
      exact Nat.mul_le_mul_right _ (place_lt hplaces hr)
    rw [PublishedShard.box, hoffset r hr, hshape r hr, inBox_slab haxis hfit, Nat.div_eq_iff he]
    exact and_congr_right fun _ => by omega
  · intro is his
    have hlt : is.getD axis 0 / e < n := Nat.div_lt_of_lt_mul (getD_lt haxis his)
    obtain ⟨r, hr, hplace⟩ := exists_place hplaces hlt
    exact ⟨r, hr, hplace, rfl⟩
  · intro r hr p hp js hj
    obtain rfl : piece r = p := Option.some.inj hp
    rw [hshape r hr] at hj
    have hlength : js.length = shape.length := by simpa using length_of_mem_indices hj
    rw [hreads r hr js hj, hoffset r hr, ← hlength, unitAt_add]

/-- The rows of a band in one period that a rank with the rows from `lo` to `hi` publishes. -/
structure BandPiece (band : Band) (shape : List ℕ) (period lo hi : ℕ) (shard : PublishedShard) : Prop where
  meets : max lo (band.start period) < min hi (band.start period + band.width)
  offset : shard.shardOffset = unitAt shape.length 0 (period * band.width + (max lo (band.start period) - band.start period))
  shape : shard.shape = shape.set 0 (min hi (band.start period + band.width) - max lo (band.start period))

/-- **Windows on a band**: the ranks of a group hold windows of `l` rows, cut along the periods of the band. -/
theorem exact_bands (band : Band) {periods l : ℕ} {piece : Rank α → ℕ → Option (Piece α)}
    (hshape : shape ≠ []) (hw : 0 < band.width) (hfit : band.offset + band.width ≤ band.period)
    (hl : 0 < l) (htotal : periods * band.period = n * l) (hplaces : (group.map place).Perm (List.range n))
    (hpiece : ∀ r ∈ group, ∀ g p, piece r g = some p → BandPiece band shape g (place r * l) ((place r + 1) * l) p.shard)
    (hsome : ∀ r ∈ group, ∀ g, max (place r * l) (band.start g) < min ((place r + 1) * l) (band.start g + band.width) →
      (piece r g).isSome)
    (hreads : ∀ r ∈ group, ∀ g < periods, ∀ p, piece r g = some p → ∀ js ∈ indices p.shard.shape,
      p.read js = element (p.shard.shardOffset.zipWith (· + ·) js)) :
    Exact (group.flatMap fun r => (List.range periods).filterMap (piece r)) (shape.set 0 (periods * band.width)) element := by
  have hpairs : (group.flatMap fun r => (range periods).filterMap (piece r)) =
      (group.flatMap fun r => (range periods).map (Prod.mk r)).filterMap fun i => piece i.1 i.2 := by
    rw [filterMap_flatMap]
    simp only [filterMap_map]
    rfl
  have hmem : ∀ i : Rank α × ℕ, i ∈ (group.flatMap fun r => (range periods).map (Prod.mk r)) ↔ i.1 ∈ group ∧ i.2 < periods := by
    rintro ⟨r, g⟩
    simp only [mem_flatMap, mem_map, mem_range, Prod.mk.injEq]
    constructor
    · rintro ⟨_, hr, _, hg, rfl, rfl⟩
      exact ⟨hr, hg⟩
    · rintro ⟨hr, hg⟩
      exact ⟨r, hr, g, hg, rfl, rfl⟩
  have hlength : 0 < shape.length := length_pos_iff.2 hshape
  have hwindow : ∀ p row : ℕ, p * l ≤ band.source row ∧ band.source row < (p + 1) * l ↔ band.source row / l = p := by
    intro p row
    rw [Nat.div_eq_iff hl, Nat.succ_mul]
    omega
  rw [hpairs]
  refine exact_of_label (fun i => (place i.1, i.2))
    (fun is => (band.source (is.getD 0 0) / l, is.getD 0 0 / band.width)) ?_ ?_ ?_ ?_
  · -- a rank and a period determine each other's places in the list
    have hmap : (group.flatMap fun r => (range periods).map (Prod.mk r)).map (fun i => (place i.1, i.2)) =
        (group.map place).product (range periods) := by
      simp [product, map_flatMap, flatMap_map, Function.comp_def]
    rw [hmap]
    exact (nodup_places hplaces).product nodup_range
  · rintro ⟨r, g⟩ hi p hp is
    obtain ⟨hr, hg⟩ := (hmem _).1 hi
    have h := hpiece r hr g p hp
    have hend : g * band.width + band.width ≤ periods * band.width := by
      rw [← Nat.succ_mul]
      exact Nat.mul_le_mul_right _ hg
    have hmeets := h.meets
    have hin : g * band.width + (max (place r * l) (band.start g) - band.start g) +
        (min ((place r + 1) * l) (band.start g + band.width) - max (place r * l) (band.start g)) ≤ periods * band.width := by
      omega
    rw [PublishedShard.box, h.offset, h.shape, inBox_slab hlength hin, Band.mem_window hw hmeets]
    refine and_congr_right fun _ => ?_
    rw [hwindow, Prod.mk.injEq]
    exact and_comm
  · intro is his
    have hrow := getD_lt hlength his
    have hperiod : is.getD 0 0 / band.width < periods := Nat.div_lt_of_lt_mul (by rwa [Nat.mul_comm])
    have hsource : band.source (is.getD 0 0) < n * l := htotal ▸ Band.source_lt hw hfit hrow
    have hplace : band.source (is.getD 0 0) / l < n := Nat.div_lt_of_lt_mul (by rwa [Nat.mul_comm])
    obtain ⟨r, hr, hrp⟩ := exists_place hplaces hplace
    refine ⟨(r, is.getD 0 0 / band.width), (hmem _).2 ⟨hr, hperiod⟩, by rw [hrp], hsome r hr _ ?_⟩
    obtain ⟨hlo, hhi⟩ := (hwindow (place r) _).2 hrp.symm
    exact Band.meets hw rfl hlo hhi
  · rintro ⟨r, g⟩ hi p hp js hj
    obtain ⟨hr, hg⟩ := (hmem _).1 hi
    exact hreads r hr g hg p hp js hj

end

end ModelExpress.Megatron
