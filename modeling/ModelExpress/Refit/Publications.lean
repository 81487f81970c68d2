/-
  ModelExpress refit control plane — publications and the generations of a mesh.
-/
import ModelExpress.Refit.Leases

namespace ModelExpress.Refit

open List Function Option

variable {sha256 : List UInt8 → List UInt8} {s s' : Store} {e : Event} {reply : Reply} {v : String}

/-! ## Membership -/

variable {i : Instant} {version : WeightVersion}

theorem Change.update_keeps_iff {request : UpdateTrainerMeshRequest} {j k : Instant} {bindings : Except Status Unit}
    (hc : Change sha256 s (.updateTrainerMesh request i j k bindings) reply s') (hlinks : LinksOk s)
    (hp : PublicationsOk s) (hp' : PublicationsOk s') {key : String} {p : WeightVersionShard}
    (hl : (s.shards v).lookup key = some p) {mesh' : TrainerMesh}
    (hv : s.versions v = some version) (hm' : s'.meshes version.trainerMeshId = some mesh') :
    (s'.shards v).lookup key = some p ↔
      mesh'.workers.lookup p.workerId = some ⟨p.logicalShardId, p.metadataEndpoint⟩ := by
  constructor
  · intro hl'
    obtain ⟨-, -, -, version', m, hv', -, hm, hmember⟩ := hp'.published hl'
    obtain ⟨_, hv''⟩ := hc.precedes v version hv
    cases hv'.symm.trans hv''
    cases hm.symm.trans hm'
    exact hmember
  · intro hsame
    cases hc with
    | advanced _ _ _ he => cases he
    | meshUpdated _ mesh hu =>
      rw [hu.shards, if_neg]
      · exact hl
      · rintro ⟨hmem, hret⟩
        obtain ⟨hkey, -, hend, version', m, hv', -, hm, hmember⟩ := hp.published hl
        cases hv.symm.trans hv'
        obtain ⟨-, _, -, hv'', hid⟩ := hlinks.standing hmem
        cases hv.symm.trans hv''
        rw [hid] at hm hm'
        cases hu.standing.symm.trans hm
        simp only [update_self, some.injEq] at hm'
        subst hm'
        exact (retired_iff hl hkey hend hmember).1 hret hsame
    | _ => exact hl

structure PublicationsFollow (sha256 : List UInt8 → List UInt8) : Prop where
  /-- A stored publication is that of a member: same shard, and the index has the member's endpoint. -/
  member : ∀ es v key p, ((run sha256 es).store.shards v).lookup key = some p →
    key = publicationKey p.workerId p.logicalShardId ∧
    ∃ version mesh m, (run sha256 es).store.versions v = some version ∧
      (run sha256 es).store.meshes version.trainerMeshId = some mesh ∧
      mesh.workers.lookup p.workerId = some m ∧ m.logicalShardId = p.logicalShardId ∧
      (run sha256 es).store.endpoints v key = some m.metadataEndpoint
  /-- An update of a mesh keeps a publication iff its worker is still a member for the same shard at
      the same endpoint. -/
  update : ∀ es request i j k bindings v key p version mesh,
    ((run sha256 es).store.shards v).lookup key = some p →
    (run sha256 es).store.versions v = some version →
    (run sha256 (es ++ [.updateTrainerMesh request i j k bindings])).store.meshes
      version.trainerMeshId = some mesh →
    (((run sha256 (es ++ [.updateTrainerMesh request i j k bindings])).store.shards v).lookup key = some p ↔
      mesh.workers.lookup p.workerId = some ⟨p.logicalShardId, p.metadataEndpoint⟩)

/-- **Publications follow the membership of the mesh.** -/
theorem publications_follow_membership (sha256 : List UInt8 → List UInt8) : PublicationsFollow sha256 where
  member es v key p hl := by
    obtain ⟨hkey, -, hend, version, mesh, hv, -, hm, hmember⟩ :=
      (invariant_run sha256 es).publications.published hl
    exact ⟨hkey, version, mesh, _, hv, hm, hmember, rfl, hend⟩
  update es request i j k bindings v key p version mesh hl hv hm := by
    have hinv := invariant_run sha256 es
    have hinv' := invariant_run sha256 (es ++ [.updateTrainerMesh request i j k bindings])
    rw [run_snoc] at hm hinv' ⊢
    exact (hinv.change _).update_keeps_iff hinv.links hinv.publications hinv'.publications hl hv hm

/-! ## Generations -/

/-- The event is an accepted publication, on this version while its mesh was this one. -/
structure Accepts (sha256 : List UInt8 → List UInt8) (w : World) (e : Event)
    (shard : WeightVersionShard) (version : WeightVersion) (mesh : TrainerMesh) : Prop where
  request : ∃ atVersion, e = .createWeightVersionShard (some shard) atVersion
  reply : ∃ version', (w.call sha256 e).1 = .shard shard version'
  stored : w.store.versions shard.versionId = some version
  standing : w.store.meshes version.trainerMeshId = some mesh

def Pinned (s : Store) (meshId : String) (shard : WeightVersionShard) (generation : ℕ) : Prop :=
  ∃ m, s.meshes meshId = some m ∧ (generation < m.generation ∨ generation = m.generation ∧
    m.pins (publicationKey shard.workerId shard.logicalShardId) = some shard.stableMetadataDigest)

variable {shard : WeightVersionShard}

theorem Change.accepted {version' : WeightVersion}
    (hc : Change sha256 s (.createWeightVersionShard (some shard) i) (.shard shard version') s') :
    ∃ version mesh, Accepted version.modelName version.trainerMeshId shard s version mesh ∧
      Pinned s' version.trainerMeshId shard mesh.generation := by
  cases hc with
  | answered he | advanced _ _ _ he => cases he
  | published _ version mesh ha =>
    exact ⟨version, mesh, ha, _, update_self .., Or.inr ⟨rfl, update_self ..⟩⟩

variable {w : World} {mesh : TrainerMesh}

theorem Invariant.accepts (h : Invariant w) (ha : Accepts sha256 w e shard version mesh) :
    Accepted version.modelName version.trainerMeshId shard w.store version mesh ∧
      Pinned (w.next sha256 e).store version.trainerMeshId shard mesh.generation := by
  obtain ⟨⟨i, rfl⟩, ⟨_, hreply⟩, hv, hm⟩ := ha
  have hc : Change sha256 w.store _ _ (w.next sha256 _).store :=
    h.change (.createWeightVersionShard (some shard) i)
  rw [hreply] at hc
  obtain ⟨_, _, ha₁, hpin⟩ := hc.accepted
  cases hv.symm.trans ha₁.stored
  cases hm.symm.trans ha₁.standing
  exact ⟨ha₁, hpin⟩

theorem Change.pinned (hc : Change sha256 s e reply s') {meshId : String}
    {generation : ℕ} (h : Pinned s meshId shard generation) (hstands : s'.meshes meshId ≠ none) :
    Pinned s' meshId shard generation := by
  obtain ⟨m, hm, hpin⟩ := h
  rcases hc.mesh_evolves hm with ⟨m', hm', hev⟩ | ⟨hnone, -, -⟩
  swap
  · exact absurd hnone hstands
  rcases hpin with hlt | ⟨rfl, hpin⟩
  · exact ⟨m', hm', Or.inl (hlt.trans_le hev.generation_le)⟩
  cases hc with
  | meshCreated _ _ hfree =>
    exact ⟨m, Assoc.update_fresh hfree hm, Or.inr ⟨rfl, hpin⟩⟩
  | meshUpdated request mesh hu =>
    by_cases hid : meshId = request.meshId
    · subst hid
      cases hm.symm.trans hu.standing
      exact ⟨_, update_self .., Or.inl (Nat.lt_succ_self _)⟩
    · exact ⟨m, (update_of_ne hid ..).trans hm, Or.inr ⟨rfl, hpin⟩⟩
  | meshDeleted meshId' =>
    by_cases hid : meshId = meshId'
    · subst hid
      exact absurd (update_self ..) hstands
    · exact ⟨m, (update_of_ne hid ..).trans hm, Or.inr ⟨rfl, hpin⟩⟩
  | published shard' version mesh ha =>
    by_cases hid : meshId = version.trainerMeshId
    · subst hid
      cases hm.symm.trans ha.standing
      refine ⟨_, update_self .., Or.inr ⟨rfl, ?_⟩⟩
      -- an accepted publication under the same key repeats the pinned digest
      by_cases hkey : publicationKey shard.workerId shard.logicalShardId =
          publicationKey shard'.workerId shard'.logicalShardId
      · rw [hkey] at hpin ⊢
        rw [ha.pinned _ hpin]
        exact update_self ..
      · exact (update_of_ne hkey ..).trans hpin
    · exact ⟨m, (update_of_ne hid ..).trans hm, Or.inr ⟨rfl, hpin⟩⟩
  | _ => exact ⟨m, hm, Or.inr ⟨rfl, hpin⟩⟩

/-- The version can no longer be published to: it is releasing, or its mesh has moved on. -/
def Outdated (s : Store) (v : String) : Prop :=
  ∃ version, s.versions v = some version ∧ (version.state = .releasing ∨
    version.trainerMeshId ≠ "" ∧ ∃ m, s.meshes version.trainerMeshId = some m ∧
      version.trainerMeshGeneration < m.generation)

theorem Invariant.outdated (h : Invariant w) (e : Event) (ho : Outdated w.store v) :
    Outdated (w.next sha256 e).store v := by
  have hc : Change sha256 w.store e _ _ := h.change e
  obtain ⟨version, hv, hr | ⟨hmesh, m, hm, hlt⟩⟩ := ho
  · obtain ⟨version', hv', hr'⟩ := hc.releasing ⟨version, hv, hr⟩
    exact ⟨version', hv', Or.inl hr'⟩
  · have hreleased (hd : w.store.Drained v) : Outdated (w.next sha256 e).store v := by
      obtain ⟨version', hv', hr'⟩ := hc.releasing hd.releasing
      exact ⟨version', hv', Or.inl hr'⟩
    rcases h.links.linked hv hmesh with ⟨hmem, -⟩ | hd
    · rcases hc.mesh_evolves hm with ⟨m', hm', hev⟩ | ⟨-, -, hall⟩
      · obtain ⟨_, hv'⟩ := hc.precedes v version hv
        exact ⟨_, hv', Or.inr ⟨hmesh, m', hm', hlt.trans_le hev.generation_le⟩⟩
      · exact hreleased (hall v hmem)
    · exact hreleased hd

theorem Invariant.publication_refused (h : Invariant w) (ho : Outdated w.store shard.versionId) :
    ∃ status, (w.call sha256 (.createWeightVersionShard (some shard) i)).1 = .refused status := by
  have hc : Change sha256 w.store (.createWeightVersionShard (some shard) i) _ _ := h.change _
  generalize (w.next sha256 _).store = s' at hc
  generalize (w.call sha256 _).1 = reply at hc ⊢
  obtain ⟨_, hv, ho⟩ := ho
  cases hc with
  | refused status | purged status => exact ⟨status, rfl⟩
  | answered he | advanced _ _ _ he => cases he
  | published _ _ _ ha =>
    cases hv.symm.trans ha.stored
    rcases ho with hr | ⟨-, m, hm, hlt⟩
    · rcases ha.writable with hs | hs <;> cases hr.symm.trans hs
    · cases hm.symm.trans ha.standing
      exact absurd ha.generation hlt.ne

structure StableMetadata (sha256 : List UInt8 → List UInt8) : Prop where
  /-- A publication is accepted only for a version of the mesh's generation. -/
  generation : ∀ es e shard version mesh, Accepts sha256 (run sha256 es) e shard version mesh →
    version.trainerMeshGeneration = mesh.generation
  /-- Two accepted publications of one worker for one shard, in one generation of a mesh that stands
      all the while, carry the same digest. -/
  digest : ∀ es₁ e₁ es₂ e₂ shard₁ version₁ mesh₁ shard₂ version₂ mesh₂, es₁ ++ [e₁] <+: es₂ →
    Accepts sha256 (run sha256 es₁) e₁ shard₁ version₁ mesh₁ →
    Accepts sha256 (run sha256 es₂) e₂ shard₂ version₂ mesh₂ →
    version₁.trainerMeshId = version₂.trainerMeshId → mesh₁.generation = mesh₂.generation →
    (∀ es, es₁ <+: es → es <+: es₂ → (run sha256 es).store.meshes version₁.trainerMeshId ≠ none) →
    shard₁.workerId = shard₂.workerId → shard₁.logicalShardId = shard₂.logicalShardId →
    shard₁.stableMetadataDigest = shard₂.stableMetadataDigest
  /-- Once the mesh is past the generation of a version, every publication on it is refused. -/
  fenced : ∀ es₁ es₂ v version mesh, es₁ <+: es₂ →
    (run sha256 es₁).store.versions v = some version → version.trainerMeshId ≠ "" →
    (run sha256 es₁).store.meshes version.trainerMeshId = some mesh →
    version.trainerMeshGeneration < mesh.generation →
    ∀ shard i, shard.versionId = v →
      ∃ status, ((run sha256 es₂).call sha256 (.createWeightVersionShard (some shard) i)).1 =
        .refused status

theorem pinned_run {es₁ es : List Event} {e : Event}
    (ha : Accepts sha256 (run sha256 es₁) e shard version mesh) (hstands : ∀ es', es' <+: es →
      (run sha256 (es₁ ++ [e] ++ es')).store.meshes version.trainerMeshId ≠ none) :
    Pinned (run sha256 (es₁ ++ [e] ++ es)).store version.trainerMeshId shard mesh.generation := by
  induction es using reverseRecOn with
  | nil =>
    rw [append_nil, run_snoc]
    exact ((invariant_run sha256 es₁).accepts ha).2
  | append_singleton es e' ih =>
    have hpin := ih fun es' hp => hstands es' (hp.trans (prefix_append ..))
    have hlast := hstands _ (prefix_refl _)
    rw [← append_assoc, run_snoc] at hlast ⊢
    exact ((invariant_run sha256 _).change e').pinned hpin hlast

/-- **Within one generation of a mesh the stable metadata does not change.** -/
theorem stable_metadata (sha256 : List UInt8 → List UInt8) : StableMetadata sha256 where
  generation es e shard version mesh ha := ((invariant_run sha256 es).accepts ha).1.generation
  digest := by
    intro es₁ e₁ es₂ e₂ shard₁ version₁ mesh₁ _ _ _ hp ha₁ ha₂ hid hgen hstands hw hs
    obtain ⟨es, rfl⟩ := hp
    have hpinned : Pinned (run sha256 (es₁ ++ [e₁] ++ es)).store version₁.trainerMeshId shard₁
        mesh₁.generation := pinned_run ha₁ fun es' hp' =>
      hstands _ ((prefix_append ..).trans (prefix_append ..))
        ((prefix_append_right_inj _).2 hp')
    obtain ⟨m, hm, hpin⟩ := hpinned
    have hacc := ((invariant_run sha256 _).accepts ha₂).1
    rw [hid] at hm
    cases hm.symm.trans hacc.standing
    rcases hpin with hlt | ⟨-, hpin⟩
    · omega
    · rw [hw, hs] at hpin
      exact hacc.pinned _ hpin
  fenced es₁ es₂ v version mesh hp hv hmesh hm hlt shard i hshard := by
    subst hshard
    have hout := Run.stable (P := fun w => Invariant w ∧ Outdated w.store shard.versionId)
      (fun _ e hw => ⟨hw.1.next e, hw.1.outdated e hw.2⟩) hp
      ⟨invariant_run sha256 es₁, version, hv, Or.inr ⟨hmesh, mesh, hm, hlt⟩⟩
    exact hout.1.publication_refused hout.2

end ModelExpress.Refit
