/-
  ModelExpress client — memory registered with NIXL (`NixlTransferManager`, `nixl_transfer.py`).

  The agent is part of the state: its handles are numbers, and `live` has the regions of every
  registration that has not been released.  A call of the agent that raises changes nothing.
-/
import Mathlib.Data.List.Sort
import ModelExpress.Lib.Assoc
import ModelExpress.Lib.Buckets
import ModelExpress.Lib.Checks
import ModelExpress.Lib.Run

namespace ModelExpress.Nixl

open Checks List Assoc

structure Region where
  start : ℕ
  stop : ℕ
  deriving DecidableEq

def Region.Covers (r q : Region) : Prop := r.start ≤ q.start ∧ q.stop ≤ r.stop

instance (r q : Region) : Decidable (r.Covers q) := inferInstanceAs (Decidable (_ ∧ _))

/-- What is read of a tensor: `data_ptr()`, its size in bytes and `is_contiguous()`. -/
structure Tensor where
  addr : ℕ
  size : ℕ
  contiguous : Bool
  deriving DecidableEq

namespace Tensor

def region (t : Tensor) : Region := ⟨t.addr, t.addr + t.size⟩

def HasMemoryRange (t : Tensor) : Prop := 0 < t.size ∧ t.addr ≠ 0

instance (t : Tensor) : Decidable t.HasMemoryRange := inferInstanceAs (Decidable (_ ∧ _))

def Covered (t : Tensor) (regions : List Region) : Prop := ∃ r ∈ regions, r.Covers t.region

instance (t : Tensor) (regions : List Region) : Decidable (t.Covered regions) :=
  inferInstanceAs (Decidable (∃ r ∈ regions, r.Covers t.region))

end Tensor

/-- A tensor under its name; the address and the size are what its `TensorDescriptor` has. -/
abbrev Named := Σ _ : String, Tensor

abbrev Tensors := AList fun _ : String => Tensor

structure Registration where
  handle : ℕ
  region : Region
  deriving DecidableEq

structure Manager where
  tensors : Tensors := ∅
  descriptors : List Named := []
  registeredMemory : List ℕ := []
  baseRanges : List Region := []
  appended : AList fun _ : String => Option Registration := ∅
  /-- The agent: the registrations that have not been released, and the next handle. -/
  live : List (ℕ × List Region) := []
  next : ℕ := 0

inductive Raised where
  | notContiguous (name : String)
  | otherAddress (name : String)
  | stopIteration
  | agent
  deriving DecidableEq

inductive AgentCall where
  | registerMemory
  | deregisterMemory (handle : ℕ)
  | getAgentMetadata
  deriving DecidableEq

/-! ## The first registration -/

/-- What is registered first: with pool registration the allocations of the tensors, which
    `driver` gives by their addresses, or else the tensors. -/
def firstRegions (driver : Option (ℕ → Region)) (registrable : List Named) : List Region :=
  match driver with
  | some addressRange => Buckets.distinct (registrable.map fun e => addressRange e.2.addr)
  | none => registrable.map (·.2.region)

/-- `register_tensors` on a new manager, when the agent does not raise. -/
def registerTensors (driver : Option (ℕ → Region)) (tensors : Tensors) : Except Raised Manager := do
  forM tensors.entries fun e => ensure (e.2.HasMemoryRange → e.2.contiguous = true) (.notContiguous e.1)
  let regions := firstRegions driver (tensors.entries.filter (·.2.HasMemoryRange))
  if regions = [] then return { tensors, descriptors := tensors.entries }
  return {
    tensors
    descriptors := tensors.entries
    registeredMemory := [0]
    baseRanges := regions
    live := [(0, regions)]
    next := 1 }

/-! ## Appending tensors -/

def newTensors (known : Tensors) : List Named → Except Raised (List Named)
  | [] => .ok []
  | e :: rest =>
    match known.lookup e.1 with
    | some existing => if existing.addr = e.2.addr then newTensors known rest else .error (.otherAddress e.1)
    | none => do
      ensure (e.2.contiguous = true) (.notContiguous e.1)
      return e :: (← newTensors known rest)

variable {raises : AgentCall → Bool} {r : Region}

namespace Manager

variable (m : Manager)

def existing : List Registration := m.appended.entries.filterMap (·.2)

/-- `new_ranges`: maximal uncovered ranges, the largest tensors first. -/
def newRanges (new : List Named) : List Region :=
  ((new.map (·.2)).insertionSort fun a b => b.size ≤ a.size).foldl (fun ranges t =>
    if 0 < t.size ∧ ¬ t.Covered m.baseRanges ∧ ¬ t.Covered (m.existing.map (·.region)) ∧
      ¬ t.Covered ranges then ranges ++ [t.region] else ranges) []

/-- The registration of an appended tensor; a new one will have the next handle. -/
def assign (ranges : List Region) (e : Named) : Except Raised (Σ _ : String, Option Registration) :=
  if e.2.size = 0 ∨ e.2.Covered m.baseRanges then .ok ⟨e.1, none⟩
  else match m.existing.find? (·.region.Covers e.2.region) with
    | some registration => .ok ⟨e.1, some registration⟩
    | none => do
      let region ← found (ranges.find? (·.Covers e.2.region)) .stopIteration
      return ⟨e.1, some ⟨m.next, region⟩⟩

def keep (ranges : List Region) : Manager :=
  if ranges = [] then m
  else { m with
    live := m.live ++ [(m.next, ranges)]
    registeredMemory := m.registeredMemory ++ [m.next]
    next := m.next + 1 }

/-- The end of `register_additional_tensors`; `raises` says which calls of the agent raise. -/
def appendNew (raises : AgentCall → Bool) (ranges : List Region) (new : List Named)
    (registrations : List (Σ _ : String, Option Registration)) : Manager × Except Raised Unit :=
  if ranges ≠ [] ∧ raises .registerMemory = true then (m, .error .agent)
  else if raises .getAgentMetadata = true then
    if ranges = [] then (m, .error .agent)
    else if raises (.deregisterMemory m.next) = true then (m.keep ranges, .error .agent)
    -- registered, and released again
    else ({ m with next := m.next + 1 }, .error .agent)
  else
    ({ m.keep ranges with
        tensors := Assoc.extend m.tensors new
        descriptors := m.descriptors ++ new
        appended := Assoc.extend m.appended registrations }, .ok ())

def registerAdditionalTensors (raises : AgentCall → Bool) (tensors : Tensors) : Manager × Except Raised Unit :=
  match newTensors m.tensors tensors.entries with
  | .error e => (m, .error e)
  | .ok [] => (m, .ok ())
  | .ok new =>
    match new.mapM (m.assign (m.newRanges new)) with
    | .error e => (m, .error e)
    | .ok registrations => m.appendNew raises (m.newRanges new) new registrations

/-! ## Removing tensors -/

def without {β : String → Type} (d : AList β) (names : List String) : AList β :=
  ⟨d.entries.filter (·.1 ∉ names), d.nodupKeys.sublist List.filter_sublist⟩

def releaseAll (raises : AgentCall → Bool) : List ℕ → Manager → Manager × Bool
  | [], m => (m, false)
  | handle :: rest, m =>
    if raises (.deregisterMemory handle) = true then (m, true)
    else releaseAll raises rest { m with
      live := m.live.filter (·.1 ≠ handle)
      registeredMemory := m.registeredMemory.filter (· ≠ handle) }

/-- Remove names that were appended, with the registrations that no other name has. -/
def dropNames (raises : AgentCall → Bool) (removed : List String) : Manager × Except Raised Unit :=
  let handles := Buckets.distinct (removed.filterMap fun name => (m.appended.lookup name).join.map (·.handle))
  let appended := without m.appended removed
  let remaining := appended.entries.filterMap (·.2.map (·.handle))
  match releaseAll raises (handles.filter (· ∉ remaining)) { m with appended } with
  | (m', true) => (m', .error .agent)
  | (m', false) =>
    ({ m' with
        tensors := without m.tensors removed
        descriptors := m.descriptors.filter (·.1 ∉ removed) },
      if raises .getAgentMetadata = true then .error .agent else .ok ())

/-- `deregister_tensors`; the names are listed in the order in which the set of them is iterated. -/
def deregisterTensors (raises : AgentCall → Bool) (names : List String) : Manager × Except Raised Unit :=
  if (names.filter (· ∈ m.appended)).dedup = [] then (m, .ok ())
  else m.dropNames raises (names.filter (· ∈ m.appended)).dedup

inductive Event where
  | registerAdditional (raises : AgentCall → Bool) (tensors : Tensors)
  | deregister (raises : AgentCall → Bool) (names : List String)

def step : Event → Manager
  | .registerAdditional raises tensors => (m.registerAdditionalTensors raises tensors).1
  | .deregister raises names => (m.deregisterTensors raises names).1

/-! ## The invariant -/

/-- The registration under the handle has not been released, and has the region. -/
def Backs (handle : ℕ) (r : Region) : Prop := ∃ regions, (handle, regions) ∈ m.live ∧ r ∈ regions

/-- The catalog is covered by memory that is registered, and the manager holds all registrations. -/
structure Backed : Prop where
  covered : ∀ e ∈ m.descriptors, e.2.HasMemoryRange → ∃ p ∈ m.live, e.2.Covered p.2
  named : m.descriptors = m.tensors.entries
  held : m.live.map Prod.fst = m.registeredMemory

structure Ok : Prop where
  named : m.descriptors = m.tensors.entries
  held : m.live.map Prod.fst = m.registeredMemory
  fresh : ∀ p ∈ m.live, p.1 < m.next
  known : ∀ e ∈ m.appended.entries, e.1 ∈ m.tensors
  /-- The first registration belongs to no appended name. -/
  base : ∀ r ∈ m.baseRanges, ∃ handle, m.Backs handle r ∧
    ∀ reg ∈ m.existing, reg.handle ≠ handle
  appended : ∀ reg ∈ m.existing, m.Backs reg.handle reg.region
  covered : ∀ e ∈ m.tensors.entries, e.2.HasMemoryRange → e.2.Covered m.baseRanges ∨
    ∃ reg, ⟨e.1, some reg⟩ ∈ m.appended.entries ∧ reg.region.Covers e.2.region

variable {m}

theorem mem_existing {reg : Registration} :
    reg ∈ m.existing ↔ ∃ name, ⟨name, some reg⟩ ∈ m.appended.entries := by
  simp [existing]

theorem Ok.backed (h : m.Ok) : m.Backed := by
  refine ⟨fun e he hrange => ?_, h.named, h.held⟩
  rw [h.named] at he
  rcases h.covered e he hrange with ⟨r, hr, hcovers⟩ | ⟨reg, hreg, hcovers⟩
  · obtain ⟨_, ⟨regions, hlive, hmem⟩, -⟩ := h.base r hr
    exact ⟨_, hlive, r, hmem, hcovers⟩
  · obtain ⟨_, hlive, hmem⟩ := h.appended reg (mem_existing.2 ⟨_, hreg⟩)
    exact ⟨_, hlive, reg.region, hmem, hcovers⟩

/-! ## Every call keeps it -/

theorem newTensors_ok {known : Tensors} {l new : List Named} (h : newTensors known l = .ok new) :
    new.Sublist l ∧ ∀ e ∈ new, e.1 ∉ known := by
  induction l generalizing new with
  | nil => cases h; simp
  | cons e l ih =>
    simp only [newTensors] at h
    split at h
    · split_ifs at h
      exact ⟨(ih h).1.cons _, (ih h).2⟩
    · next hnone =>
      simp only [bind_eq_ok, ensure_eq_ok] at h
      obtain ⟨-, -, rest, hrest, heq⟩ := h
      cases heq
      obtain ⟨hsub, hnew⟩ := ih hrest
      exact ⟨hsub.cons_cons _, forall_mem_cons.2 ⟨AList.lookup_eq_none.1 hnone, hnew⟩⟩

section
variable {ranges : List Region} {e : Named} {new : List Named} {a : Σ _ : String, Option Registration}
  {registrations : List (Σ _ : String, Option Registration)}

theorem assign_ok (h : m.assign ranges e = .ok a) : a.1 = e.1 ∧
    (a.2 = none → e.2.size = 0 ∨ e.2.Covered m.baseRanges) ∧
    ∀ reg, a.2 = some reg → reg.region.Covers e.2.region ∧
      (reg ∈ m.existing ∨ reg.handle = m.next ∧ reg.region ∈ ranges) := by
  unfold assign at h
  split_ifs at h with hnone
  · cases h
    simp [hnone]
  · split at h
    · next existing hfind =>
      cases h
      have hcovers := find?_some hfind
      simpa using ⟨by simpa using hcovers, .inl (mem_of_find?_eq_some hfind)⟩
    · simp only [bind_eq_ok, found_eq_ok] at h
      obtain ⟨_, hfind, heq⟩ := h
      cases heq
      have hcovers := find?_some hfind
      simpa using ⟨by simpa using hcovers, .inr (mem_of_find?_eq_some hfind)⟩

theorem keys_of_assign (h : new.mapM (m.assign ranges) = .ok registrations) : registrations.keys = new.keys := by
  replace h := mapM_eq_ok.1 h
  induction h with
  | nil => rfl
  | cons hhead _ ih => rw [keys_cons, keys_cons, (assign_ok hhead).1, ih]

theorem Backs.keep {handle : ℕ} (h : m.Backs handle r) : (m.keep ranges).Backs handle r := by
  obtain ⟨regions, hlive, hr⟩ := h
  refine ⟨regions, ?_, hr⟩
  unfold Manager.keep
  split_ifs <;> simp [hlive]

theorem keep_backs (h : r ∈ ranges) : (m.keep ranges).Backs m.next r := by
  rw [keep, if_neg (ne_nil_of_mem h)]
  exact ⟨ranges, by simp, h⟩

theorem Ok.keep (h : m.Ok) (ranges : List Region) : (m.keep ranges).Ok := by
  have hbacks : ∀ {handle r}, m.Backs handle r → (m.keep ranges).Backs handle r := fun h => h.keep
  unfold Manager.keep at *
  split_ifs with hnil
  · exact h
  · rw [if_neg hnil] at hbacks
    refine ⟨h.named, by simp [h.held], ?_, h.known, fun r hr => ?_, fun reg hreg => hbacks (h.appended reg hreg), h.covered⟩
    · exact forall_mem_append.2 ⟨fun p hp => (h.fresh p hp).trans (Nat.lt_succ_self _), by simp⟩
    · obtain ⟨handle, hback, hother⟩ := h.base r hr
      exact ⟨handle, hbacks hback, hother⟩

theorem keep_frame : (m.keep ranges).baseRanges = m.baseRanges := by
  unfold keep
  split_ifs <;> rfl

theorem Ok.append (h : m.Ok) (hnodup : new.NodupKeys) (hnew : ∀ e ∈ new, e.1 ∉ m.tensors)
    (hassign : new.mapM (m.assign ranges) = .ok registrations) :
    Ok { m.keep ranges with
      tensors := Assoc.extend m.tensors new
      descriptors := m.descriptors ++ new
      appended := Assoc.extend m.appended registrations } := by
  have hkeys := keys_of_assign hassign
  have htensors : (extend m.tensors new).entries = m.tensors.entries ++ new :=
    entries_extend (forall_mem_map.2 hnew) hnodup
  have happended : (extend m.appended registrations).entries = m.appended.entries ++ registrations := by
    refine entries_extend (fun name hname hmem => ?_) (by rwa [List.NodupKeys, hkeys])
    rw [hkeys] at hname
    obtain ⟨e, he, rfl⟩ := mem_map.1 hname
    obtain ⟨e', he', heq⟩ := mem_map.1 hmem
    exact hnew e he (heq ▸ h.known e' he')
  have hexisting : ∀ {reg}, reg ∈ (extend m.appended registrations).entries.filterMap (·.2) →
      reg ∈ m.existing ∨ reg.handle = m.next ∧ reg.region ∈ ranges := by
    intro reg hreg
    rw [happended, filterMap_append, mem_append] at hreg
    rcases hreg with hreg | hreg
    · exact .inl hreg
    · obtain ⟨a, ha, hsome⟩ := mem_filterMap.1 hreg
      obtain ⟨e, -, he⟩ := (mem_of_mapM hassign).1 ha
      exact ((assign_ok he).2.2 reg hsome).2
  have hok := h.keep ranges
  refine ⟨by simp only [htensors, h.named], hok.held, hok.fresh, fun e he => ?_, fun r hr => ?_, fun reg hreg => ?_, ?_⟩
  · rw [happended, mem_append] at he
    rcases he with he | he
    · exact mem_extend.2 (.inl (h.known e he))
    · exact mem_extend.2 (.inr (hkeys ▸ mem_map_of_mem he))
  · obtain ⟨handle, hback, hother⟩ := h.base r (keep_frame ▸ hr)
    refine ⟨handle, hback.keep, fun reg hreg => ?_⟩
    rcases hexisting hreg with hreg | ⟨hhandle, -⟩
    · exact hother reg hreg
    · obtain ⟨_, hlive, -⟩ := hback
      rw [hhandle]
      exact (h.fresh _ hlive).ne'
  · rcases hexisting hreg with hreg | ⟨hhandle, hregion⟩
    · exact (h.appended reg hreg).keep
    · rw [hhandle]
      exact keep_backs hregion
  · simp only [htensors, happended, mem_append, keep_frame]
    rintro e (he | he) hrange
    · rcases h.covered e he hrange with hbase | ⟨reg, hreg, hcovers⟩
      · exact .inl hbase
      · exact .inr ⟨reg, .inl hreg, hcovers⟩
    · obtain ⟨⟨name, o⟩, hmem, ha⟩ := exists_mem_of_mapM hassign he
      obtain ⟨rfl, hnone, hsome⟩ := assign_ok ha
      cases o with
      | none => exact .inl ((hnone rfl).resolve_left hrange.1.ne')
      | some reg => exact .inr ⟨reg, .inr hmem, (hsome reg rfl).1⟩

end

theorem Ok.registerAdditional (h : m.Ok) (raises : AgentCall → Bool) (tensors : Tensors) :
    (m.registerAdditionalTensors raises tensors).1.Ok := by
  unfold registerAdditionalTensors
  split
  · exact h
  · exact h
  · next new _ hnew =>
    obtain ⟨hsub, hfresh⟩ := newTensors_ok hnew
    split
    · exact h
    · next registrations hassign =>
      unfold appendNew
      split_ifs
      · exact h
      · exact h
      · exact h.keep _
      · exact ⟨h.named, h.held, fun p hp => (h.fresh p hp).trans (Nat.lt_succ_self _), h.known, h.base, h.appended,
          h.covered⟩
      · exact h.append (tensors.nodupKeys.sublist hsub) hfresh hassign

theorem releaseAll_eq (hraises : ∀ handle, raises (.deregisterMemory handle) = false)
    (handles : List ℕ) (m : Manager) : releaseAll raises handles m = ({ m with
      live := m.live.filter (·.1 ∉ handles)
      registeredMemory := m.registeredMemory.filter (· ∉ handles) }, false) := by
  induction handles generalizing m with
  | nil => simp [releaseAll]
  | cons _ _ ih => simp [releaseAll, hraises, ih, filter_filter, Bool.and_comm]

theorem Ok.remove (h : m.Ok) {removed : List String} {handles : List ℕ}
    (hused : ∀ handle ∈ handles, ∃ reg ∈ m.existing, reg.handle = handle)
    (hfree : ∀ name reg, ⟨name, some reg⟩ ∈ m.appended.entries → name ∉ removed → reg.handle ∉ handles) :
    Ok { m with
      appended := without m.appended removed
      live := m.live.filter (·.1 ∉ handles)
      registeredMemory := m.registeredMemory.filter (· ∉ handles)
      tensors := without m.tensors removed
      descriptors := m.descriptors.filter (·.1 ∉ removed) } := by
  have hback : ∀ {handle r}, m.Backs handle r → handle ∉ handles →
      ∃ regions, (handle, regions) ∈ m.live.filter (·.1 ∉ handles) ∧ r ∈ regions := by
    rintro handle r ⟨regions, hlive, hr⟩ hnot
    exact ⟨regions, mem_filter.2 ⟨hlive, by simpa using hnot⟩, hr⟩
  have hkept : ∀ {e : Σ _ : String, Option Registration}, e ∈ (without m.appended removed).entries ↔
      e ∈ m.appended.entries ∧ e.1 ∉ removed := by simp [without]
  refine ⟨by simp only [h.named, without], ?_, fun p hp => h.fresh p (mem_filter.1 hp).1, fun e he => ?_,
    fun r hr => ?_, fun reg hreg => ?_, fun e he hrange => ?_⟩
  · rw [← h.held, filter_map]
    rfl
  · obtain ⟨he, hnot⟩ := hkept.1 he
    obtain ⟨t, ht, heq⟩ := mem_map.1 (h.known e he)
    exact mem_map.2 ⟨t, mem_filter.2 ⟨ht, by simpa [heq] using hnot⟩, heq⟩
  · obtain ⟨handle, hb, hother⟩ := h.base r hr
    have hnot : handle ∉ handles := by
      intro hmem
      obtain ⟨reg, hreg, heq⟩ := hused handle hmem
      exact hother reg hreg heq
    refine ⟨handle, hback hb hnot, fun reg hreg => hother reg ?_⟩
    obtain ⟨name, hreg⟩ := mem_existing.1 hreg
    exact mem_existing.2 ⟨name, (hkept.1 hreg).1⟩
  · obtain ⟨name, hreg⟩ := mem_existing.1 hreg
    obtain ⟨hreg, hnot⟩ := hkept.1 hreg
    exact hback (h.appended reg (mem_existing.2 ⟨name, hreg⟩)) (hfree name reg hreg hnot)
  · obtain ⟨he, hnot⟩ := mem_filter.1 he
    rcases h.covered e he hrange with hbase | ⟨reg, hreg, hcovers⟩
    · exact .inl hbase
    · exact .inr ⟨reg, hkept.2 ⟨hreg, by simpa using hnot⟩, hcovers⟩

theorem Ok.deregister (h : m.Ok)
    (hraises : ∀ handle, raises (.deregisterMemory handle) = false) (names : List String) :
    (m.deregisterTensors raises names).1.Ok := by
  unfold deregisterTensors
  split_ifs
  · exact h
  · simp only [dropNames, releaseAll_eq hraises]
    refine h.remove (fun _ hmem => ?_) fun name reg hreg hnot hmem => ?_
    · obtain ⟨name, -, hreg⟩ := mem_filterMap.1 (Buckets.mem_distinct.1 (mem_filter.1 hmem).1)
      obtain ⟨reg, hjoin, heq⟩ := Option.map_eq_some_iff.1 hreg
      exact ⟨reg, mem_existing.2 ⟨name, AList.mem_lookup_iff.1 (Option.join_eq_some_iff.1 hjoin)⟩, heq⟩
    · have hremaining := (mem_filter.1 hmem).2
      simp only [decide_eq_true_eq] at hremaining
      refine hremaining (mem_filterMap.2 ⟨⟨name, some reg⟩, ?_, rfl⟩)
      exact mem_filter.2 ⟨hreg, decide_eq_true hnot⟩

/-- While tensors are deregistered, no release raises. -/
def Event.Releases : Event → Prop
  | .registerAdditional .. => True
  | .deregister raises _ => ∀ handle, raises (.deregisterMemory handle) = false

end Manager

open Manager

variable {driver : Option (ℕ → Region)} {tensors : Tensors} {m : Manager}

theorem registerTensors_ok (h : registerTensors driver tensors = .ok m)
    (hdriver : ∀ addressRange ∈ driver, ∀ e ∈ tensors.entries, (addressRange e.2.addr).Covers e.2.region) : m.Ok := by
  have hcovered : ∀ e ∈ tensors.entries, e.2.HasMemoryRange →
      e.2.Covered (firstRegions driver (tensors.entries.filter (·.2.HasMemoryRange))) := by
    intro e he hrange
    have hmem : e ∈ tensors.entries.filter (·.2.HasMemoryRange) := mem_filter.2 ⟨he, by simpa using hrange⟩
    cases driver with
    | none => exact ⟨e.2.region, mem_map_of_mem hmem, le_rfl, le_rfl⟩
    | some addressRange =>
      exact ⟨_, Buckets.mem_distinct.2 (mem_map_of_mem hmem), hdriver addressRange rfl e he⟩
  simp only [registerTensors, bind_eq_ok] at h
  obtain ⟨-, -, h⟩ := h
  split_ifs at h with hnil
  · cases h
    refine ⟨rfl, rfl, by simp, fun _ he => absurd he not_mem_nil, by simp, by simp [existing], fun e he hrange => ?_⟩
    simpa [hnil, Tensor.Covered] using hcovered e he hrange
  · cases h
    refine ⟨rfl, rfl, by simp, fun _ he => absurd he not_mem_nil, fun r hr => ?_, by simp [existing],
      fun e he hrange => .inl (hcovered e he hrange)⟩
    exact ⟨0, ⟨_, mem_singleton_self _, hr⟩, by simp [existing]⟩

/-- **Registered memory covers the catalog** after every call, if no release raises while
    tensors are deregistered.  The driver gives for an address an allocation that holds the
    tensor there. -/
theorem catalog_backed (h : registerTensors driver tensors = .ok m)
    (hdriver : ∀ addressRange ∈ driver, ∀ e ∈ tensors.entries, (addressRange e.2.addr).Covers e.2.region)
    (es : List Event) (hes : ∀ e ∈ es, e.Releases) : (Run.run step m es).Backed := by
  refine Ok.backed (Run.history_of_mem (Q := fun _ => Ok) (registerTensors_ok h hdriver) ?_ hes)
  intro es e he hok
  cases e with
  | registerAdditional raises tensors => exact hok.registerAdditional raises tensors
  | deregister _ names => exact hok.deregister he names

def oneTensor : Tensors := AList.singleton "w" ⟨100, 10, true⟩

def appendAt (name : String) (addr : ℕ) : Event :=
  .registerAdditional (fun _ => false) (AList.singleton name ⟨addr, 10, true⟩)

theorem catalog_backed_shared : ∃ m, registerTensors none oneTensor = .ok m ∧
    (Run.run step m [appendAt "a" 200, appendAt "b" 200, .deregister (fun _ => false) ["a"]]).Backed := by
  refine ⟨_, rfl, (@catalog_backed none oneTensor _ rfl (by simp) _ ?_)⟩
  simp [Event.Releases, appendAt]

/-- The first of two registrations is released and the second release raises: the catalog still
    has both names. -/
theorem released_still_named : ∃ m, registerTensors none oneTensor = .ok m ∧
    ¬ (Run.run step m [appendAt "a" 200, appendAt "b" 300,
      .deregister (fun call => call = .deregisterMemory 2) ["a", "b"]]).Backed := by
  refine ⟨_, rfl, fun h => ?_⟩
  have hcovered := h.covered ⟨"a", 200, 10, true⟩ (by decide) (by decide)
  revert hcovered
  decide

end ModelExpress.Nixl
