/-
  ModelExpress refit control plane — when a version becomes ready.
-/
import ModelExpress.Lib.Tally
import ModelExpress.Refit.Invariant

namespace ModelExpress.Refit

open List Option

variable {sha256 : List UInt8 → List UInt8} {s s' : Store} {e : Event} {reply : Reply}

/-! ## Coverage -/

/-- A worker covers its shard on a version: it is a member of the mesh for the shard, has published the
    shard from the mesh's endpoint, and is registered now as a trainer of the model at that endpoint. -/
def Covers (s : Store) (v modelName : String) (mesh : TrainerMesh) (shardId workerId : String) : Prop :=
  (∃ m, mesh.workers.lookup workerId = some m ∧ m.logicalShardId = shardId ∧
    s.endpoints v (publicationKey workerId shardId) = some m.metadataEndpoint ∧
    ∃ r, s.workers workerId = some r ∧ r.modelName = modelName ∧ r.role = .trainer ∧
      r.refitEndpoint = m.metadataEndpoint) ∧
  ∃ p, (s.shards v).lookup (publicationKey workerId shardId) = some p ∧
    p.versionId = v ∧ p.workerId = workerId ∧ p.logicalShardId = shardId

def Covered (s : Store) (v modelName : String) (mesh : TrainerMesh) : Prop :=
  ∀ shardId ∈ mesh.logicalShards, ∃ workerId, Covers s v modelName mesh shardId workerId

def Keyed (shards : String → Publications) : Prop :=
  ∀ {v key p}, (shards v).lookup key = some p →
    key = publicationKey p.workerId p.logicalShardId ∧ p.versionId = v

theorem PublicationsOk.keyed (h : PublicationsOk s) : Keyed s.shards :=
  fun hp => ⟨(h.published hp).key_eq, (h.published hp).version_eq⟩

variable {mesh : TrainerMesh}

theorem publishes_iff (hp : Keyed s.shards) {v modelName workerId : String}
    {m : TrainerTensorsMetadata} (hm : mesh.workers.lookup workerId = some m) :
    publishes s v modelName workerId m = true ↔ Covers s v modelName mesh m.logicalShardId workerId := by
  simp only [publishes, Bool.and_eq_true, decide_eq_true_eq, Option.any_eq_true,
    isSome_iff_exists]
  constructor
  · rintro ⟨⟨⟨p, hl⟩, hend⟩, r, hr, hre, hrm, hrr⟩
    obtain ⟨hkey, hv⟩ := hp hl
    obtain ⟨hw, hs⟩ := publicationKey_inj hkey
    exact ⟨⟨m, hm, rfl, hend, r, hr, hrm, hrr, hre⟩, p, hl, hv, hw.symm, hs.symm⟩
  · rintro ⟨⟨m', hm', -, hend, r, hr, hrm, hrr, hre⟩, p, hl, -, -, -⟩
    cases hm.symm.trans hm'
    exact ⟨⟨⟨p, hl⟩, hend⟩, r, hr, hre, hrm, hrr⟩

theorem countCovered_iff (hp : Keyed s.shards) (hm : MeshOk mesh)
    (v modelName : String) : countCovered s v modelName mesh.workers = mesh.logicalShards.length ↔
      Covered s v modelName mesh := by
  have hcount : countCovered s v modelName mesh.workers =
      Tally.count (fun e => publishes s v modelName e.1 e.2 = true) (·.2.logicalShardId)
        mesh.workers.entries := rfl
  rw [hcount, Tally.count_eq_length_iff _ _ hm.nodup]
  · refine forall₂_congr fun _ _ => ?_
    rw [Assoc.exists_entries]
    constructor
    · rintro ⟨workerId, m, hl, hpub, rfl⟩
      exact ⟨workerId, (publishes_iff hp hl).1 hpub⟩
    · rintro ⟨workerId, hcov⟩
      obtain ⟨m, hl, rfl, -⟩ := hcov.1
      exact ⟨workerId, m, hl, (publishes_iff hp hl).2 hcov, rfl⟩
  · intro e he _
    exact (hm.named _).2 (mem_map.2 ⟨e, he, rfl⟩)

/-! ## One step -/

theorem stateAfter_eq_ready {shard : WeightVersionShard} {version : WeightVersion}
    (hp : Keyed (s.publish version.trainerMeshId mesh shard).shards) (hm : MeshOk mesh) :
    stateAfter s shard version mesh = .ready ↔ version.state = .ready ∨
      Covered (s.publish version.trainerMeshId mesh shard) shard.versionId version.modelName mesh := by
  unfold stateAfter
  rw [← countCovered_iff hp hm]
  split_ifs with hcov
  · exact ⟨fun _ => Or.inr hcov, fun _ => rfl⟩
  · exact ⟨Or.inl, fun h => h.resolve_right hcov⟩

def MovesToReady (s : Store) (v : String) (version' : WeightVersion) : Prop :=
  version'.state = .ready ∧ ∀ version, s.versions v = some version → version.state ≠ .ready

structure Completes (s s' : Store) (e : Event) (reply : Reply) (v : String) (version' : WeightVersion) :
    Prop where
  publish : ∃ shard atVersion, e = .createWeightVersionShard (some shard) atVersion ∧
    shard.versionId = v ∧ reply = .shard shard version'
  staging : ∃ version, s.versions v = some version ∧ version.state = .staging
  covered : ∃ mesh, s'.meshes version'.trainerMeshId = some mesh ∧
    Covered s' v version'.modelName mesh

theorem Change.movesToReady_iff (hc : Change sha256 s e reply s') (hlinks : LinksOk s)
    (hmeshes : ∀ {id m}, s.meshes id = some m → MeshOk m) (hkeyed : Keyed s'.shards) {v : String}
    {version' : WeightVersion} (hv : s'.versions v = some version') (hmesh : version'.trainerMeshId ≠ "") :
    MovesToReady s v version' ↔ Completes s s' e reply v version' := by
  constructor
  · rintro ⟨hready, hnot⟩
    cases hc with
    | versionCreated _ _ _ hback =>
      rcases Assoc.update_cases (f := s.versions) hv with ⟨rfl, heq⟩ | ⟨-, hold⟩
      · cases heq
        cases hback with
        | s3 _ _ _ hnone =>
          exact absurd (by simp [CreateVersionArgs.version, createVersionArgs, hnone]) hmesh
        | mesh _ _ _ _ hstate => cases hstate.symm.trans hready
      · exact absurd hready (hnot _ hold)
    | advanced _ _ _ _ hold ha =>
      rcases Assoc.update_cases (f := s.versions) hv with ⟨rfl, heq⟩ | ⟨-, hold'⟩
      · cases heq
        rcases ha with ⟨-, -, huri⟩ | ⟨-, hrel⟩
        · exact absurd ((hlinks.stored hold).2 huri) hmesh
        · cases hrel.symm.trans hready
      · exact absurd hready (hnot _ hold')
    | published shard version mesh ha =>
      rcases Assoc.update_cases (f := s.versions) hv with ⟨rfl, heq⟩ | ⟨-, hold⟩
      · cases heq
        have hstate := hnot version ha.stored
        refine ⟨⟨shard, _, rfl, rfl, rfl⟩,
          ⟨version, ha.stored, ha.writable.resolve_right hstate⟩, _, Function.update_self .., ?_⟩
        exact ((stateAfter_eq_ready hkeyed (hmeshes ha.standing)).1 hready).resolve_left hstate
      · exact absurd hready (hnot _ hold)
    | _ => exact absurd hready (hnot _ hv)
  · rintro ⟨⟨_, _, rfl, rfl, rfl⟩, ⟨_, hold, hstaging⟩, _, hm', hcov⟩
    cases hc with
    | answered he | advanced _ _ _ he => cases he
    | published _ version₁ mesh ha =>
      cases hold.symm.trans ha.stored
      obtain rfl := some.inj (hm'.symm.trans (Function.update_self ..))
      refine ⟨(stateAfter_eq_ready hkeyed (hmeshes ha.standing)).2 (Or.inr hcov), fun _ h₁ => ?_⟩
      cases hold.symm.trans h₁
      simp [hstaging]

/-! ## Whole runs -/

/-- The mesh was created by this request, and ever since it stands and its workers name the shards of
    the request. -/
def BornWith (sha256 : List UInt8 → List UInt8) (es : List Event) (meshId : String) : Prop :=
  ∃ es₁ es₂ request atFind atWorkers bindings drawn,
    es = es₁ ++ .createTrainerMesh request atFind atWorkers bindings drawn :: es₂ ∧
    (run sha256 es₁).store.meshes meshId = none ∧
    ∀ es', es' <+: es₂ → ∃ mesh, (run sha256
        (es₁ ++ .createTrainerMesh request atFind atWorkers bindings drawn :: es')).store.meshes meshId =
          some mesh ∧
      ∀ shardId, shardId ∈ mesh.workers.shardIds ↔ shardId ∈ request.workers.shardIds

theorem TrainerMesh.Evolves.shardIds {m m' : TrainerMesh} (h : m.Evolves m') (shardId : String) :
    shardId ∈ m'.workers.shardIds ↔ shardId ∈ m.workers.shardIds := by
  cases h with
  | pinned => exact Iff.rfl
  | replaced _ hcov => exact hcov shardId

theorem run_snoc (es : List Event) (e : Event) :
    run sha256 (es ++ [e]) = (run sha256 es).next sha256 e := Run.run_snoc ..

theorem bornWith_run (es : List Event) {meshId : String}
    (h : (run sha256 es).store.meshes meshId = some mesh) : BornWith sha256 es meshId := by
  induction es using reverseRecOn generalizing mesh with
  | nil => cases h
  | append_singleton es e ih =>
    rw [run_snoc] at h
    have hc : Change sha256 _ e _ _ := (invariant_run sha256 es).change e
    rcases hc.mesh_origin h with ⟨m, hm, hev⟩ | ⟨request, i, j, bindings, drawn, rfl, hfree, rfl⟩
    · obtain ⟨es₁, es₂, request, i, j, bindings, drawn, rfl, hfree, hall⟩ := ih hm
      refine ⟨es₁, es₂ ++ [e], request, i, j, bindings, drawn, by simp, hfree, fun es' hp => ?_⟩
      rcases prefix_concat_iff.1 hp with rfl | hp
      · obtain ⟨m₀, hm₀, hsame⟩ := hall es₂ (prefix_refl _)
        cases hm.symm.trans hm₀
        refine ⟨mesh, ?_, fun shardId => (hev.shardIds shardId).trans (hsame shardId)⟩
        rw [← cons_append, ← append_assoc, run_snoc]
        exact h
      · exact hall es' hp
    · refine ⟨es, [], request, i, j, bindings, drawn, rfl, hfree, fun es' hp => ?_⟩
      obtain rfl := prefix_nil.1 hp
      refine ⟨(createMeshArgs request meshId).mesh, ?_, fun _ => Iff.rfl⟩
      rw [run_snoc]
      exact h

structure RefitReadiness (sha256 : List UInt8 → List UInt8) : Prop where
  /-- A mesh that stands was created by a request of the run, and at every moment since then its
      workers name the logical shards of that request. -/
  shards : ∀ es meshId mesh, (run sha256 es).store.meshes meshId = some mesh →
    BornWith sha256 es meshId ∧
    ∀ shardId, shardId ∈ mesh.logicalShards ↔ shardId ∈ mesh.workers.shardIds
  /-- A mesh-backed version moves to READY exactly in the publish step that completes it. -/
  ready : ∀ es e v version, (run sha256 (es ++ [e])).store.versions v = some version →
    version.trainerMeshId ≠ "" → (MovesToReady (run sha256 es).store v version ↔
      Completes (run sha256 es).store (run sha256 (es ++ [e])).store e
        ((run sha256 es).call sha256 e).1 v version)

/-- **Refit readiness is sound.** -/
theorem refit_readiness (sha256 : List UInt8 → List UInt8) : RefitReadiness sha256 where
  shards es meshId mesh hm := ⟨bornWith_run es hm, ((invariant_run sha256 es).meshes hm).named⟩
  ready es e v version hv hmesh := by
    have hinv := invariant_run sha256 es
    have hinv' := invariant_run sha256 (es ++ [e])
    rw [run_snoc] at hv hinv' ⊢
    exact (hinv.change e).movesToReady_iff hinv.links hinv.meshes hinv'.publications.keyed hv hmesh

def oneTrainer : List Event :=
  [.registerWorker ⟨some ⟨"trainer", 1, "model", "host:1"⟩, 60⟩,
    .createTrainerMesh ⟨"model", "mesh-key", AList.singleton "trainer" ⟨"shard", "host:1"⟩⟩ 0 0 (.ok ())
      ["mesh"],
    .createWeightVersion ⟨"model", "version-key", 1, none, none, 1, some "v1", some "mesh", none⟩ 0 [],
    .createWeightVersionShard (some ⟨"v1", "shard", "trainer", "digest", "host:1", ""⟩) 0]

example : ((run id (oneTrainer.take 3)).store.versions "v1").map (·.state) = some .staging ∧
    ((run id oneTrainer).store.versions "v1").map (·.state) = some .ready := by
  decide +kernel

end ModelExpress.Refit
