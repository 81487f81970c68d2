/-
  ModelExpress generator — which tensors a chain of deltas changes (`_delta_changes` of
  `inference/receiver.py`, `engines/vllm/surgical.py`).
-/
import ModelExpress.Lib.Text

namespace ModelExpress.Generator

open List Option

/-- `DeltaChange`: the tensors that a delta names. -/
structure DeltaChange where
  baseVersion : String
  version : String
  tensorNames : List String
  deriving DecidableEq

/-- What the store has recorded of how a version is made. -/
structure Chain where
  fullVersion : String
  deltas : List String
  deriving DecidableEq

/-! ## Recording a lineage -/

section
variable (index : String → Option (List String))

/-- One change per delta; `index delta` is `none` unless its one index can be read and is an XOR index. -/
def changesFrom (base : String) : List String → Option (List DeltaChange)
  | [] => some []
  | delta :: deltas => do
    let names ← index delta
    let rest ← changesFrom delta deltas
    return ⟨base, delta, names⟩ :: rest

/-- `_delta_changes`: nothing is known as soon as one index is not. -/
def deltaChanges (surgical : Bool) (chain : Option Chain) : List DeltaChange :=
  match surgical, chain with
  | true, some chain => (changesFrom index chain.fullVersion chain.deltas).getD []
  | _, _ => []

end

/-- Each change starts from the version that the one before it makes. -/
def Linked (base : String) : List DeltaChange → Prop
  | [] => True
  | change :: changes => change.baseVersion = base ∧ Linked change.version changes

section
variable {β : Type} (contents : String → String → β)

/-- The two versions of the change differ in the tensors it names only. -/
def DeltaChange.Covers (change : DeltaChange) : Prop :=
  ∀ name ∉ change.tensorNames, contents change.version name = contents change.baseVersion name

/-- The index of every delta names every tensor in which it differs from the version before it. -/
def Chain.NamesDifferences (index : String → Option (List String)) (chain : Chain) : Prop :=
  ∀ step ∈ (chain.fullVersion :: chain.deltas).zip chain.deltas, ∀ names, index step.2 = some names →
    ∀ name ∉ names, contents step.2 name = contents step.1 name

end

section
variable {β : Type} {contents : String → String → β} {index : String → Option (List String)}

variable {base : String} {deltas : List String} {changes : List DeltaChange}

theorem changesFrom_cons {delta : String} (h : changesFrom index base (delta :: deltas) = some changes) :
    ∃ names rest, index delta = some names ∧ changesFrom index delta deltas = some rest ∧
      changes = ⟨base, delta, names⟩ :: rest := by
  rw [changesFrom] at h
  obtain ⟨names, hnames, h⟩ := bind_eq_some_iff.1 h
  obtain ⟨rest, hrest, h⟩ := bind_eq_some_iff.1 h
  exact ⟨names, rest, hnames, hrest, (some.inj h).symm⟩

theorem changesFrom_linked (h : changesFrom index base deltas = some changes) : Linked base changes := by
  induction deltas generalizing base changes with
  | nil =>
    obtain rfl : [] = changes := some.inj h
    trivial
  | cons _ _ ih =>
    obtain ⟨_, rest, -, hrest, rfl⟩ := changesFrom_cons h
    exact ⟨rfl, ih hrest⟩

theorem changesFrom_covers (h : changesFrom index base deltas = some changes)
    (hnames : Chain.NamesDifferences contents index ⟨base, deltas⟩) : ∀ change ∈ changes, change.Covers contents := by
  induction deltas generalizing base changes with
  | nil =>
    obtain rfl : [] = changes := some.inj h
    simp
  | cons delta _ ih =>
    obtain ⟨names, rest, hindex, hrest, rfl⟩ := changesFrom_cons h
    intro change hchange
    rcases mem_cons.1 hchange with rfl | hchange
    · exact hnames (base, delta) (mem_cons_self ..) names hindex
    · exact ih hrest (fun step hstep => hnames step (mem_cons_of_mem _ hstep)) change hchange

structure Lineage (contents : String → String → β) (changes : List DeltaChange) : Prop where
  linked : ∃ base, Linked base changes
  covers : ∀ change ∈ changes, change.Covers contents

theorem lineage_nil : Lineage contents [] := ⟨⟨"", trivial⟩, by simp⟩

theorem lineage_deltaChanges {surgical : Bool} {chain : Option Chain}
    (hnames : ∀ c, chain = some c → c.NamesDifferences contents index) :
    Lineage contents (deltaChanges index surgical chain) := by
  rw [deltaChanges.eq_def]
  split
  case h_1 chain =>
    cases hchanges : changesFrom index chain.fullVersion chain.deltas with
    | none => exact lineage_nil
    | some => exact ⟨⟨_, changesFrom_linked hchanges⟩, changesFrom_covers hchanges (hnames chain rfl)⟩
  case h_2 => exact lineage_nil

end

/-! ## What has changed since the version that is live -/

/-- The names from the first change on that starts from the live version. -/
def namesFrom (live : String) : List DeltaChange → Option (List String)
  | [] => none
  | change :: changes =>
    if change.baseVersion = live then some ((change :: changes).flatMap DeltaChange.tensorNames)
    else namesFrom live changes

def changedSince (lineage : List DeltaChange) (live : Option String) (target : String) : Option (List String) :=
  match live with
  | none => none
  | some live => if lineage.getLast?.map DeltaChange.version = some target then namesFrom live lineage else none

variable {names : List String} {name : String}

section
variable {β : Type} {contents : String → String → β} {changes : List DeltaChange} {base target live : String}

theorem Linked.agree (hlinked : Linked base changes) (hcovers : ∀ change ∈ changes, change.Covers contents)
    (hlast : changes.getLast?.map DeltaChange.version = some target)
    (hname : name ∉ changes.flatMap DeltaChange.tensorNames) : contents target name = contents base name := by
  induction changes generalizing base with
  | nil => simp at hlast
  | cons change changes ih =>
    obtain ⟨rfl, hlinked⟩ := hlinked
    rw [flatMap_cons, mem_append, not_or] at hname
    have hfirst := hcovers change (mem_cons_self ..) name hname.1
    cases changes with
    | nil =>
      obtain rfl : change.version = target := by simpa using hlast
      exact hfirst
    | cons =>
      rw [getLast?_cons_cons] at hlast
      have hrest := ih hlinked (fun c hc => hcovers c (mem_cons_of_mem _ hc)) hlast hname.2
      exact hrest.trans hfirst

theorem namesFrom_sound (hlinked : Linked base changes) (hcovers : ∀ change ∈ changes, change.Covers contents)
    (hlast : changes.getLast?.map DeltaChange.version = some target)
    (h : namesFrom live changes = some names) (hname : name ∉ names) :
    contents target name = contents live name := by
  induction changes generalizing base with
  | nil => simp [namesFrom] at h
  | cons _ changes ih =>
    rw [namesFrom] at h
    split_ifs at h with hlive
    · obtain rfl := some.inj h
      obtain rfl : base = live := hlinked.1.symm.trans hlive
      exact hlinked.agree hcovers hlast hname
    · cases changes with
      | nil => simp [namesFrom] at h
      | cons =>
        rw [getLast?_cons_cons] at hlast
        exact ih hlinked.2 (fun c hc => hcovers c (mem_cons_of_mem _ hc)) hlast h

/-- **Outside of the names, the target agrees with the live version.** -/
theorem changedSince_sound (hlineage : Lineage contents changes) {live : Option String}
    (h : changedSince changes live target = some names) :
    ∃ version, live = some version ∧ ∀ name ∉ names, contents target name = contents version name := by
  obtain ⟨base, hlinked⟩ := hlineage.linked
  cases live with
  | none => simp [changedSince] at h
  | some version =>
    simp only [changedSince] at h
    split_ifs at h with hlast
    exact ⟨version, rfl, fun name hname => namesFrom_sound hlinked hlineage.covers hlast h hname⟩

end

/-! ## Modules -/

/-- How an engine packs the parts of a module, in the order of its modules; `decimal` are the digits of `\d`. -/
structure Packing where
  modules : List (String × List String)
  decimal : Char → Bool

def defaultPacked : List (String × List String) :=
  [("qkv_proj", ["q_proj", "k_proj", "v_proj"]), ("gate_up_proj", ["gate_proj", "up_proj"]),
    ("fused_qkv_a_proj", ["q_a_proj", "kv_a_proj_with_mqa"])]

variable (packing : Packing)

/-- The module that a part is packed into; a later entry replaces an earlier one. -/
def Packing.fused (leaf : String) : String :=
  let parts := (defaultPacked ++ packing.modules).flatMap fun m => m.2.map fun part => (part, m.1)
  (parts.reverse.lookup leaf).getD leaf

/-- `_EXPERT`: one expert of a module stands for all of its experts. -/
def Packing.withoutExpert (parts : List String) : List String :=
  match parts.reverse with
  | leaf :: number :: "experts" :: parent :: rest =>
    if leaf ≠ "" ∧ number ≠ "" ∧ number.toList.all packing.decimal then (parent :: rest).reverse ++ ["experts"]
    else parts
  | _ => parts

def Packing.moduleKey (name : String) : String :=
  let parts := packing.withoutExpert (Text.split '.' name).dropLast
  let parent := Text.join '.' parts.dropLast
  let leaf := packing.fused (parts.getLast?.getD "")
  if parent = "" then leaf else parent ++ "." ++ leaf

/-- `module_groups`: every tensor of a module that a changed tensor is loaded into; `none` is its `ValueError`. -/
def Packing.moduleGroups (changed names : List String) : Option (List String) :=
  if changed ⊆ names then
    let keys := changed.map packing.moduleKey
    some (names.filter fun name => packing.moduleKey name ∈ keys)
  else none

theorem Packing.subset_moduleGroups {packing : Packing} {changed group : List String}
    (h : packing.moduleGroups changed names = some group) : changed ⊆ group := by
  rw [Packing.moduleGroups] at h
  split_ifs at h with hsub
  obtain rfl := some.inj h
  intro name hname
  exact mem_filter.2 ⟨hsub hname, by simpa using ⟨name, hname, rfl⟩⟩

example : Packing.moduleKey ⟨[], Char.isDigit⟩ "model.layers.0.mlp.experts.7.up_proj.weight" = "model.layers.0.mlp.experts" := by
  decide

end ModelExpress.Generator
