/-
  ModelExpress client — releasing chunks of artifacts (`ReleaseArtifactChunk`, `metadata/worker_server.py`).

  The sources of a worker share a chunk manager.  Of their manifests, only the artifact ids are read.
-/
import ModelExpress.Lib.Checks
import ModelExpress.Worker.ChunkLeases

namespace ModelExpress.Worker

open Checks Run List Manager

inductive StatusCode where
  | failedPrecondition
  | invalidArgument
  | notFound
  deriving DecidableEq

structure ArtifactSource where
  manifests : List String
  hasChunkManager : Bool
  deriving DecidableEq

structure ReleaseRequest where
  mxSourceId : String
  artifactId : String
  leaseId : String

abbrev Answered := Except (StatusCode × String)

section
variable (sources : List (String × ArtifactSource)) (request : ReleaseRequest)

/-- `_select_artifact_source`, without the manifest. -/
def selectArtifactSource : Answered (String × String × Bool) := do
  let (mxSourceId, source) ←
    if sources = [] then pure (request.mxSourceId, ⟨[], false⟩)
    else if request.mxSourceId ≠ "" then do
      let source ← found (sources.lookup request.mxSourceId)
        (.failedPrecondition, s!"artifact mx_source_id not available: {request.mxSourceId}")
      pure (request.mxSourceId, source)
    else match sources with
      | [source] => pure source
      | _ => .error (.invalidArgument, "mx_source_id is required when multiple artifact sources are available")
  ensure (source.manifests ≠ []) (.notFound, "artifact manifest is not available for this worker")
  ensure (request.artifactId = "" → source.manifests.length = 1)
    (.invalidArgument, "artifact_id is required when multiple artifact manifests are available")
  let artifactId := if request.artifactId = "" then source.manifests.headD "" else request.artifactId
  ensure (artifactId ∈ source.manifests) (.failedPrecondition, s!"artifact_id not available: {artifactId}")
  return (mxSourceId, artifactId, source.hasChunkManager)

/-- `NixlArtifactChunkManager.release`: without a lease there is no slot to give back. -/
def Manager.release (s : Manager) (leaseId : String) (now : ℤ) : Manager × Option (String × Chunk) :=
  ((s.step (.release leaseId now)).step (.giveBack s.calls.length),
    ((s.expire now).leases.find? (·.1 = leaseId)).map fun lease => (lease.2.artifactId, lease.2.chunk))

def releaseArtifactChunk (s : Manager) (now : ℤ) : Manager × Answered (String × String × Chunk) :=
  match selectArtifactSource sources request with
  | .error e => (s, .error e)
  | .ok (_, _, false) =>
    (s, .error (.failedPrecondition, "artifact chunk transfer is not enabled for this worker"))
  | .ok (mxSourceId, artifactId, true) =>
    ((s.release request.leaseId now).1, do
      let (released, chunk) ← found (s.release request.leaseId now).2
        (.notFound, s!"artifact chunk lease not found: {request.leaseId}")
      ensure (released = artifactId) (.failedPrecondition, s!"artifact_id mismatch for lease {request.leaseId}")
      return (mxSourceId, artifactId, chunk))

/-- The lease is held, and its slot is not free. -/
def Manager.Holds (s : Manager) (lease : String × Lease) : Prop := lease ∈ s.leases ∧ lease.2.slot ∉ s.freeSlots

/-- A refused release leaves all leases whose time has not passed, and any release those of other artifacts. -/
structure Spared (s : Manager) (now : ℤ) : Prop where
  refused : ∀ e, (releaseArtifactChunk sources request s now).2 = .error e → ∀ lease ∈ s.leases, now < lease.2.expiresAt →
    (releaseArtifactChunk sources request s now).1.Holds lease
  others : ∀ mxSourceId artifactId manager, selectArtifactSource sources request = .ok (mxSourceId, artifactId, manager) →
    ∀ lease ∈ s.leases, now < lease.2.expiresAt → lease.2.artifactId ≠ artifactId →
      (releaseArtifactChunk sources request s now).1.Holds lease

end

section
variable {sources : List (String × ArtifactSource)} {request : ReleaseRequest} {s : Manager} {now : ℤ}
  {lease : String × Lease} {leaseId : String}

theorem Manager.Exclusive.holds (h : Exclusive s) (hlease : lease ∈ s.leases) : s.Holds lease := by
  refine ⟨hlease, fun hfree => ?_⟩
  have hnodup := (nodup_append.1 h.nodup).1
  exact (nodup_append.1 hnodup).2.2 _ hfree _ (mem_map_of_mem hlease) rfl

theorem Manager.leases_giveBack (s : Manager) (i : ℕ) : (s.step (.giveBack i)).leases = s.leases := by
  dsimp only [Manager.step]
  split <;> rfl

/-- The answer is about a lease of that id, and none is held any more. -/
theorem Manager.release_of_mem (hlease : lease ∈ s.leases) (hnow : now < lease.2.expiresAt) (hid : lease.1 = leaseId) :
    lease ∉ (s.release leaseId now).1.leases ∧ ∃ lease' ∈ s.leases, lease'.1 = leaseId ∧ now < lease'.2.expiresAt ∧
      (s.release leaseId now).2 = some (lease'.2.artifactId, lease'.2.chunk) := by
  have hmem : lease ∈ (s.expire now).leases := mem_filter.2 ⟨hlease, decide_eq_true hnow⟩
  dsimp only [Manager.release]
  rw [leases_giveBack]
  cases hfind : (s.expire now).leases.find? (·.1 = leaseId) with
  | none => exact absurd hid (by simpa using find?_eq_none.1 hfind lease hmem)
  | some lease' =>
    obtain ⟨hlease', hnow'⟩ := mem_filter.1 (mem_of_find?_eq_some hfind)
    refine ⟨?_, lease', hlease', by simpa using find?_some hfind, of_decide_eq_true hnow', rfl⟩
    simp only [Manager.step, hfind]
    simp [hid]

theorem Manager.Exclusive.holds_unless (h : Exclusive s) (hlease : lease ∈ s.leases) (hnow : now < lease.2.expiresAt)
    (hne : ∀ mxSourceId artifactId, selectArtifactSource sources request = .ok (mxSourceId, artifactId, true) →
      lease.1 ≠ request.leaseId) : (releaseArtifactChunk sources request s now).1.Holds lease := by
  unfold releaseArtifactChunk
  split
  · exact h.holds hlease
  · exact h.holds hlease
  · rename_i hselect
    have hother := (hne _ _ hselect).symm
    exact ((h.step _).step _).holds (mem_leases_step (mem_leases_step hlease ⟨hother, hnow⟩) trivial)

/-- **When a refused release is harmless**: exactly if the lease that is released is of the artifact that is named. -/
theorem refused_release_harmless_iff (maxBuffers : ℕ) (leaseTtlSeconds : ℤ) (es : List Step) :
    Spared sources request (run step (init maxBuffers leaseTtlSeconds) es) now ↔
      ∀ mxSourceId artifactId, selectArtifactSource sources request = .ok (mxSourceId, artifactId, true) →
        ∀ lease ∈ (run step (init maxBuffers leaseTtlSeconds) es).leases, lease.1 = request.leaseId →
          now < lease.2.expiresAt → lease.2.artifactId = artifactId := by
  have hex : Exclusive (run step (init maxBuffers leaseTtlSeconds) es) :=
    invariant (Exclusive.init maxBuffers leaseTtlSeconds) (fun s e h => h.step e) _
  generalize run step (init maxBuffers leaseTtlSeconds) es = s at hex
  constructor
  · intro h mxSourceId artifactId hselect lease hlease hid hnow
    by_contra hne
    have hheld := (h.others mxSourceId artifactId true hselect lease hlease hnow hne).1
    simp only [releaseArtifactChunk, hselect] at hheld
    exact (release_of_mem hlease hnow hid).1 hheld
  · intro h
    refine ⟨fun e he lease hlease hnow => ?_, fun mxSourceId artifactId manager hselect lease hlease hnow hne => ?_⟩
    · refine hex.holds_unless hlease hnow fun mxSourceId artifactId hselect hid => ?_
      obtain ⟨-, lease', hlease', hid', hnow', hanswer⟩ := release_of_mem hlease hnow hid
      have hsame := h _ _ hselect lease' hlease' hid' hnow'
      have hok : (releaseArtifactChunk sources request s now).2 = .ok (mxSourceId, artifactId, lease'.2.chunk) := by
        simp [releaseArtifactChunk, hselect, hanswer, hsame, ensure]
      cases hok.symm.trans he
    · refine hex.holds_unless hlease hnow fun mxSourceId' artifactId' hselect' hid => hne ?_
      cases hselect.symm.trans hselect'
      exact h _ _ hselect lease hlease hid hnow

/-- The lease of `a` is gone, though the request is for `b` and fails. -/
theorem other_lease_released : ∃ s : Manager,
    s = run step (init 1 10) [.prepare ⟨1, ["f"]⟩ "a" ⟨0, 0, 0, 1⟩, .reserve 0 0 1, .read 0 [7], .lease 0 "l" 1] ∧
    s.leases.map Prod.fst = ["l"] ∧
    ∃ t, releaseArtifactChunk [("s", ⟨["a", "b"], true⟩)] ⟨"", "b", "l"⟩ s 2 =
      (t, .error (.failedPrecondition, "artifact_id mismatch for lease l")) ∧ t.leases = [] ∧ t.freeSlots = [0] :=
  ⟨_, rfl, rfl, _, rfl, rfl, rfl⟩

end

end ModelExpress.Worker
