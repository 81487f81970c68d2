/-
  ModelExpress client — buffers of artifact chunks (`NixlArtifactChunkManager`,
  `metadata/artifact_transfer.py`). Sections that hold the lock are one step, and so is each write of a read
  that is under way.
-/
import Mathlib.Data.List.Nodup
import Mathlib.Data.List.Perm.Basic
import ModelExpress.Lib.Run

namespace ModelExpress.Worker

open Run List Option

structure Chunk where
  chunkIndex : ℕ
  fileIndex : ℕ
  fileOffset : ℕ
  length : ℕ
  deriving DecidableEq

structure Manifest where
  chunkSize : ℕ
  files : List String
  deriving DecidableEq

/-- `_ArtifactChunkLease`, with the bytes that were read for it. -/
structure Lease where
  artifactId : String
  chunk : Chunk
  slot : ℕ
  expiresAt : ℤ
  data : List UInt8
  deriving DecidableEq

inductive Working where
  | reserving (artifactId : String) (manifest : Manifest) (chunk : Chunk)
  | reading (artifactId path : String) (chunk : Chunk) (slot : ℕ)
  | leasing (artifactId : String) (chunk : Chunk) (slot : ℕ) (data : List UInt8)
  | returning (slot : ℕ)
  | ended (message : Option String)
  deriving DecidableEq

def Working.slot? : Working → Option ℕ
  | reading _ _ _ slot | leasing _ _ slot _ | returning slot => some slot
  | reserving .. | ended _ => none

structure Manager where
  maxBuffers : ℕ
  leaseTtlSeconds : ℤ
  bufferSize : ℕ
  slots : List (List UInt8)
  freeSlots : List ℕ
  leases : List (String × Lease)
  calls : List Working
  deriving DecidableEq

inductive Step where
  | prepare (manifest : Manifest) (artifactId : String) (chunk : Chunk)
  /-- `_reserve_slot`; if it has to register the buffers, it gets so many. -/
  | reserve (i : ℕ) (now : ℤ) (registered : ℕ)
  | write (i : ℕ) (bytes : List UInt8)
  | read (i : ℕ) (file : List UInt8)
  | fail (i : ℕ)
  | lease (i : ℕ) (leaseId : String) (now : ℤ)
  | release (leaseId : String) (now : ℤ)
  | giveBack (i : ℕ)
  deriving DecidableEq

namespace Manager

def init (maxBuffers : ℕ) (leaseTtlSeconds : ℤ) : Manager := ⟨maxBuffers, leaseTtlSeconds, 0, [], [], [], []⟩

def refusal (manifest : Manifest) (chunk : Chunk) : Option String :=
  if manifest.files.length ≤ chunk.fileIndex then
    some s!"chunk {chunk.chunkIndex} references missing file_index {chunk.fileIndex}"
  else if chunk.length = 0 then some s!"chunk {chunk.chunkIndex} has zero length"
  else if manifest.chunkSize < chunk.length then
    some s!"chunk {chunk.chunkIndex} length {chunk.length} exceeds manifest chunk_size {manifest.chunkSize}"
  else none

variable (s : Manager)

def expire (now : ℤ) : Manager :=
  { s with
    leases := s.leases.filter (now < ·.2.expiresAt)
    freeSlots := s.freeSlots ++ (s.leases.filter (¬ now < ·.2.expiresAt)).map (·.2.slot) }

def register (chunkSize registered : ℕ) : Manager :=
  if s.slots = [] then
    let n := min registered s.maxBuffers
    { s with
      bufferSize := chunkSize
      slots := List.replicate n (List.replicate chunkSize 0)
      freeSlots := s.freeSlots ++ List.range n }
  else s

/-- `_reserve_slot`: the slot, or why there is none. -/
def reserve (now : ℤ) (chunkSize registered : ℕ) : Manager × Except String ℕ :=
  let s := s.expire now
  if s.slots ≠ [] ∧ s.bufferSize < chunkSize then
    (s, .error s!"artifact chunk size {chunkSize} exceeds registered buffer size {s.bufferSize}")
  else
    let t := s.register chunkSize registered
    if s.slots = [] ∧ registered < s.maxBuffers then (t, .error "register_dram_buffer")
    else
      match t.freeSlots.getLast? with
      | none => (t, .error "all artifact transfer buffers are currently leased")
      | some slot => ({ t with freeSlots := t.freeSlots.dropLast }, .ok slot)

def put (i : ℕ) (call : Working) : Manager := { s with calls := s.calls.set i call }

def fill (slot : ℕ) (bytes : List UInt8) : Manager :=
  { s with slots := s.slots.modify slot fun buffer => bytes ++ buffer.drop bytes.length }

def setLease (leaseId : String) (lease : Lease) : Manager :=
  { s with leases := s.leases.filter (·.1 ≠ leaseId) ++ [(leaseId, lease)] }

def step : Step → Manager
  | .prepare manifest artifactId chunk =>
    { s with calls := s.calls ++ [match refusal manifest chunk with
      | some message => .ended (some message)
      | none => .reserving artifactId manifest chunk] }
  | .reserve i now registered =>
    match s.calls[i]? with
    | some (.reserving artifactId manifest chunk) =>
      match s.reserve now manifest.chunkSize registered with
      | (s, .ok slot) => s.put i (.reading artifactId (manifest.files.getD chunk.fileIndex "") chunk slot)
      | (s, .error message) => s.put i (.ended (some message))
    | _ => s
  | .write i bytes =>
    match s.calls[i]? with
    | some (.reading _ _ chunk slot) => if bytes.length ≤ chunk.length then s.fill slot bytes else s
    | _ => s
  | .read i file =>
    match s.calls[i]? with
    | some (.reading artifactId _ chunk slot) =>
      let data := (file.drop chunk.fileOffset).take chunk.length
      if data.length = chunk.length then (s.fill slot data).put i (.leasing artifactId chunk slot data)
      else (s.fill slot data).put i (.returning slot)
    | _ => s
  | .fail i =>
    match s.calls[i]? with
    | some (.reading _ _ _ slot) => s.put i (.returning slot)
    | _ => s
  | .lease i leaseId now =>
    match s.calls[i]? with
    | some (.leasing artifactId chunk slot data) =>
      (s.setLease leaseId ⟨artifactId, chunk, slot, now + s.leaseTtlSeconds, data⟩).put i (.ended none)
    | _ => s
  | .release leaseId now =>
    let s := s.expire now
    match s.leases.find? (·.1 = leaseId) with
    | some lease =>
      { s with leases := s.leases.filter (·.1 ≠ leaseId), calls := s.calls ++ [.returning lease.2.slot] }
    | none => s
  | .giveBack i =>
    match s.calls[i]? with
    | some (.returning slot) => { s with freeSlots := s.freeSlots ++ [slot] }.put i (.ended none)
    | _ => s

/-! ## One place for a slot -/

/-- The free slots, those of the leases, and those that calls hold. -/
def held : List ℕ :=
  s.freeSlots ++ s.leases.map (·.2.slot) ++ s.calls.filterMap Working.slot?

def content (slot length : ℕ) : List UInt8 := (s.slots.getD slot []).take length

structure Exclusive (s : Manager) : Prop where
  nodup : s.held.Nodup
  bound : ∀ slot ∈ s.held, slot < s.slots.length
  leased : ∀ lease ∈ s.leases, s.content lease.2.slot lease.2.chunk.length = lease.2.data
  read : ∀ artifactId chunk slot data, .leasing artifactId chunk slot data ∈ s.calls →
    s.content slot chunk.length = data

variable {s s' : Manager} {i slot : ℕ} {call call' : Working}

theorem Exclusive.init (maxBuffers : ℕ) (leaseTtlSeconds : ℤ) : Exclusive (init maxBuffers leaseTtlSeconds) where
  nodup := List.nodup_nil
  bound := by simp [held, Manager.init]
  leased := by simp [Manager.init]
  read := by simp [Manager.init]

theorem Exclusive.keep (h : Exclusive s) (hslots : s'.slots = s.slots)
    (hheld : ∀ slot, s'.held.count slot ≤ s.held.count slot)
    (hleased : ∀ lease ∈ s'.leases, s.content lease.2.slot lease.2.chunk.length = lease.2.data)
    (hread : ∀ artifactId chunk slot data, .leasing artifactId chunk slot data ∈ s'.calls →
      s.content slot chunk.length = data) : Exclusive s' := by
  have hcontent : s'.content = s.content := by
    funext slot length
    rw [content, content, hslots]
  refine ⟨?_, fun slot hslot => ?_, hcontent ▸ hleased, hcontent ▸ hread⟩
  · exact nodup_iff_count_le_one.2 fun slot => (hheld slot).trans (nodup_iff_count_le_one.1 h.nodup slot)
  · rw [hslots]
    exact h.bound slot (count_pos_iff.1 ((count_pos_iff.2 hslot).trans_le (hheld slot)))

theorem count_put (hi : s.calls[i]? = some call) (call' : Working) (slot : ℕ) :
    (s.put i call').held.count slot + call.slot?.toList.count slot =
      s.held.count slot + call'.slot?.toList.count slot := by
  obtain ⟨hlt, rfl⟩ := List.getElem?_eq_some_iff.1 hi
  have hnew := ((set_perm_cons_eraseIdx hlt call').filterMap Working.slot?).count_eq slot
  have hold := ((getElem_cons_eraseIdx_perm hlt).filterMap Working.slot?).count_eq slot
  simp only [held, put, count_append, hnew, ← hold]
  cases hc : s.calls[i].slot? <;> cases hc' : call'.slot? <;>
    simp only [filterMap_cons, hc, hc', toList, count_cons, count_nil] <;> omega

theorem Exclusive.goOn (h : Exclusive s) (hi : s.calls[i]? = some call) (hslots : s'.slots = s.slots)
    (hcalls : s'.calls = s.calls)
    (hheld : ∀ x, s'.freeSlots.count x + (s'.leases.map (·.2.slot)).count x + call'.slot?.toList.count x ≤
      s.freeSlots.count x + (s.leases.map (·.2.slot)).count x + call.slot?.toList.count x)
    (hleased : ∀ lease ∈ s'.leases, s.content lease.2.slot lease.2.chunk.length = lease.2.data)
    (hread : ∀ artifactId chunk slot data, call' = .leasing artifactId chunk slot data →
      s.content slot chunk.length = data) : Exclusive (s'.put i call') := by
  refine h.keep hslots (fun x => ?_) hleased fun artifactId chunk slot data hcall => ?_
  · have hput := count_put (hcalls ▸ hi) call' x
    have := hheld x
    simp only [held, count_append, hcalls] at hput ⊢
    omega
  · rw [Manager.put, hcalls] at hcall
    rcases mem_or_eq_of_mem_set hcall with hcall | rfl
    · exact h.read artifactId chunk slot data hcall
    · exact hread _ _ _ _ rfl

theorem Exclusive.put (h : Exclusive s) (hi : s.calls[i]? = some call)
    (hslot : call'.slot? = call.slot? ∨ call'.slot? = none)
    (hread : ∀ artifactId chunk slot data, call' = .leasing artifactId chunk slot data →
      s.content slot chunk.length = data) : Exclusive (s.put i call') :=
  h.goOn hi rfl rfl (fun x => by rcases hslot with hslot | hslot <;> simp [hslot]) h.leased hread

theorem mem_held (hi : s.calls[i]? = some call) (hslot : call.slot? = some slot) : slot ∈ s.held :=
  mem_append_right _ (mem_filterMap.2 ⟨call, mem_of_getElem? hi, hslot⟩)

theorem Exclusive.ne_of_held (h : Exclusive s) (hi : s.calls[i]? = some call) (hslot : call.slot? = some slot) :
    (∀ lease ∈ s.leases, lease.2.slot ≠ slot) ∧ ∀ call' ∈ s.calls, call' ≠ call → call'.slot? ≠ some slot := by
  have hone := nodup_iff_count_le_one.1 h.nodup slot
  have hput := count_put hi (.ended none) slot
  rw [hslot] at hput
  simp only [Working.slot?, toList, count_singleton_self, count_nil] at hput
  -- the slot is nowhere once the call has given it up
  have hnone : slot ∉ (s.put i (.ended none)).held := count_eq_zero.1 (by omega)
  refine ⟨fun lease hlease heq => hnone ?_, fun _ hcall' hne heq => hnone ?_⟩
  · exact mem_append_left _ (mem_append_right _ (mem_map.2 ⟨lease, hlease, heq⟩))
  · obtain ⟨j, hj⟩ := getElem?_of_mem hcall'
    have hji : i ≠ j := by
      rintro rfl
      exact hne (mem_unique hj hi)
    exact mem_held ((getElem?_set_ne hji).trans hj) heq

theorem content_fill_ne {slot' : ℕ} (hne : slot' ≠ slot) (bytes : List UInt8) (length : ℕ) :
    (s.fill slot bytes).content slot' length = s.content slot' length := by
  simp [content, fill, getD_eq_getElem?_getD, Ne.symm hne]

section
variable (h : Exclusive s)
include h

theorem Exclusive.fill {artifactId path : String} {chunk : Chunk}
    (hi : s.calls[i]? = some (.reading artifactId path chunk slot)) (bytes : List UInt8) :
    Exclusive (s.fill slot bytes) where
  nodup := h.nodup
  bound slot' hslot' := by
    rw [Manager.fill, length_modify]
    exact h.bound slot' hslot'
  leased lease hlease := by
    rw [content_fill_ne ((h.ne_of_held hi rfl).1 lease hlease)]
    exact h.leased lease hlease
  read artifactId' chunk' slot' data hcall := by
    have hne := (h.ne_of_held hi rfl).2 _ hcall (by simp)
    rw [content_fill_ne fun heq => hne (congrArg some heq)]
    exact h.read artifactId' chunk' slot' data hcall

theorem Exclusive.expire (now : ℤ) : Exclusive (s.expire now) := by
  refine h.keep rfl (fun slot => ?_) (fun lease hlease => h.leased lease (mem_of_mem_filter hlease)) h.read
  have hsplit := ((filter_append_perm (fun lease : String × Lease => now < lease.2.expiresAt) s.leases).map
    (·.2.slot)).count_eq slot
  simp only [map_append, count_append] at hsplit
  simp only [held, Manager.expire, count_append, decide_not]
  omega

theorem Exclusive.register (chunkSize registered : ℕ) : Exclusive (s.register chunkSize registered) := by
  unfold Manager.register
  split_ifs with hnone
  · -- before the buffers are registered no slot is anywhere
    have hempty : s.held = [] := eq_nil_iff_forall_not_mem.2 fun slot hslot => by
      simpa [hnone] using h.bound slot hslot
    obtain ⟨hfree, hleases, hcalls⟩ : s.freeSlots = [] ∧ s.leases = [] ∧ ∀ call ∈ s.calls, call.slot? = none := by
      simpa [held] using hempty
    have hcalls' : s.calls.filterMap Working.slot? = [] := filterMap_eq_nil_iff.2 hcalls
    refine ⟨?_, ?_, by simp [hleases], fun _ _ slot data hcall => ?_⟩
    · simpa [held, hfree, hleases, hcalls'] using nodup_range
    · simp [held, hfree, hleases, hcalls']
    · cases hcalls _ hcall
  · exact h

theorem Exclusive.pop (hlast : s.freeSlots.getLast? = some slot) (hi : s.calls[i]? = some call)
    (artifactId path : String) (chunk : Chunk) :
    Exclusive ({ s with freeSlots := s.freeSlots.dropLast }.put i (.reading artifactId path chunk slot)) := by
  refine h.goOn hi rfl rfl (fun x => ?_) h.leased (by simp)
  obtain ⟨free, hfree⟩ := getLast?_eq_some_iff.1 hlast
  simp only [hfree, dropLast_concat, count_append, Working.slot?, toList]
  omega

theorem Exclusive.reserve (hi : s.calls[i]? = some call) (now : ℤ) (chunkSize registered : ℕ) :
    match s.reserve now chunkSize registered with
    | (s, .ok slot) => ∀ artifactId path chunk, Exclusive (s.put i (.reading artifactId path chunk slot))
    | (s, .error message) => Exclusive (s.put i (.ended (some message))) := by
  have hexpired := h.expire now
  have hregistered := hexpired.register chunkSize registered
  have hcalls : ((s.expire now).register chunkSize registered).calls = s.calls := by
    unfold Manager.register
    split_ifs <;> rfl
  fun_cases Manager.reserve s now chunkSize registered
  case case1 => exact hexpired.put hi (.inr rfl) (by simp)
  case case4 hlast => exact hregistered.pop hlast (hcalls ▸ hi)
  all_goals exact hregistered.put (hcalls ▸ hi) (.inr rfl) (by simp)

theorem Exclusive.setLease {artifactId : String} {chunk : Chunk} {data : List UInt8}
    (hi : s.calls[i]? = some (.leasing artifactId chunk slot data)) (leaseId : String) (expiresAt : ℤ) :
    Exclusive ((s.setLease leaseId ⟨artifactId, chunk, slot, expiresAt, data⟩).put i (.ended none)) := by
  refine h.goOn hi rfl rfl (fun x => ?_) (fun lease hlease => ?_) (by simp)
  · have hkept := ((s.leases.filter_sublist (p := (·.1 ≠ leaseId))).map (·.2.slot)).count_le x
    simp only [Manager.setLease, count_append, map_append, map_cons, map_nil, Working.slot?, toList, count_nil]
    omega
  · rcases mem_append.1 hlease with hlease | hlease
    · exact h.leased lease (mem_of_mem_filter hlease)
    · obtain rfl := mem_singleton.1 hlease
      exact h.read _ _ _ _ (mem_of_getElem? hi)

theorem Exclusive.drop {leaseId : String} {lease : String × Lease} (hfind : s.leases.find? (·.1 = leaseId) = some lease) :
    Exclusive { s with leases := s.leases.filter (·.1 ≠ leaseId), calls := s.calls ++ [.returning lease.2.slot] } := by
  refine h.keep rfl (fun x => ?_) (fun lease hlease => h.leased lease (mem_of_mem_filter hlease)) (by simpa using h.read)
  -- the lease is one of those that the filter drops
  have hsplit := ((filter_append_perm (fun lease : String × Lease => lease.1 ≠ leaseId) s.leases).map
    (·.2.slot)).count_eq x
  have hdropped : lease ∈ s.leases.filter fun lease => !decide (lease.1 ≠ leaseId) :=
    mem_filter.2 ⟨mem_of_find?_eq_some hfind, by simpa using find?_some hfind⟩
  have hone : [lease.2.slot].count x ≤ _ :=
    (singleton_sublist.2 (mem_map_of_mem (f := fun lease => lease.2.slot) hdropped)).count_le x
  simp only [map_append, count_append] at hsplit
  simp only [held, count_append, filterMap_append, filterMap_cons, Working.slot?, filterMap_nil]
  omega

theorem Exclusive.step (e : Step) : Exclusive (s.step e) := by
  fun_cases Manager.step s e
  case case1 =>
    split
    all_goals
      refine h.keep rfl (fun slot => ?_) h.leased (by simpa using h.read)
      simp [held, filterMap_cons, Working.slot?]
  case case2 i now n _ manifest _ hi _ _ hreserve =>
    have hreserved := h.reserve hi now manifest.chunkSize n
    rw [hreserve] at hreserved
    exact hreserved _ _ _
  case case3 i now n _ manifest _ hi _ _ hreserve =>
    have hreserved := h.reserve hi now manifest.chunkSize n
    rw [hreserve] at hreserved
    exact hreserved
  case case5 hi _ => exact h.fill hi _
  case case8 slot hi data hlength =>
    refine (h.fill hi data).put hi (.inl rfl) ?_
    rintro _ _ _ _ ⟨⟩
    rw [← hlength]
    simp [content, Manager.fill, getD_eq_getElem?_getD, h.bound slot (mem_held hi rfl)]
  case case9 hi _ _ => exact (h.fill hi _).put hi (.inl rfl) (by simp)
  case case11 hi => exact h.put hi (.inl rfl) (by simp)
  case case13 hi => exact h.setLease hi _ _
  case case15 hfind => exact (h.expire _).drop hfind
  case case16 => exact h.expire _
  case case17 hi =>
    refine h.goOn hi rfl rfl (fun x => ?_) h.leased (by simp)
    simp only [count_append, Working.slot?, toList, count_nil]
    omega
  all_goals exact h

end

/-! ## How long a lease stands -/

/-- The step neither releases nor replaces the lease, and its clock is before the lease's end. -/
def Spares (leaseId : String) (expiresAt : ℤ) : Step → Prop
  | .reserve _ now _ => now < expiresAt
  | .lease _ leaseId' _ => leaseId' ≠ leaseId
  | .release leaseId' now => leaseId' ≠ leaseId ∧ now < expiresAt
  | _ => True

theorem mem_leases_step {lease : String × Lease} {e : Step} (h : lease ∈ s.leases)
    (hspares : Spares lease.1 lease.2.expiresAt e) : lease ∈ (s.step e).leases := by
  have hexpire : ∀ {now}, now < lease.2.expiresAt → lease ∈ (s.expire now).leases := fun hnow =>
    mem_filter.2 ⟨h, decide_eq_true hnow⟩
  have hregister : ∀ {t : Manager} {chunkSize registered}, lease ∈ t.leases →
      lease ∈ (t.register chunkSize registered).leases := by
    intro t chunkSize registered ht
    unfold Manager.register
    split_ifs <;> exact ht
  have hreserve : ∀ now chunkSize registered, now < lease.2.expiresAt →
      lease ∈ (s.reserve now chunkSize registered).1.leases := by
    intro now chunkSize registered hnow
    fun_cases Manager.reserve s now chunkSize registered
    case case1 => exact hexpire hnow
    all_goals exact hregister (hexpire hnow)
  revert hspares
  fun_cases Manager.step s e <;> intro hspares
  case case2 now n _ manifest _ _ _ _ heq | case3 now n _ manifest _ _ _ _ heq =>
    have hreserved := hreserve now manifest.chunkSize n hspares
    rw [heq] at hreserved
    exact hreserved
  case case13 => exact mem_append_left _ (mem_filter.2 ⟨h, decide_eq_true (Ne.symm hspares)⟩)
  case case15 => exact mem_filter.2 ⟨hexpire hspares.2, decide_eq_true (Ne.symm hspares.1)⟩
  case case16 => exact hexpire hspares.2
  all_goals exact h

end Manager

end ModelExpress.Worker
