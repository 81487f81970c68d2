/-
  ModelExpress refit control plane — what a lease protects, and how versions end.
-/
import ModelExpress.Refit.Readiness

namespace ModelExpress.Refit

open Function Option WeightVersionState

variable {sha256 : List UInt8 → List UInt8} {s s' s'' : Store} {e : Event} {reply : Reply} {v : String}

/-! ## Protection -/

theorem Change.publication_kept (hc : Change sha256 s e reply s') (h : PublicationsOk s) {key : String}
    {p : WeightVersionShard} (hp : (s.shards v).lookup key = some p) :
    (s'.shards v).lookup key = some p ∧ s'.endpoints v key = s.endpoints v key ∨ s.Unleased v := by
  rcases hc.publication_fate v key with ⟨hold, hend⟩ | ⟨-, -, hu⟩ | ⟨_, _, _, _, ha, rfl, rfl, hnew, hend, -⟩
  · exact Or.inl ⟨hold.trans hp, hend⟩
  · exact Or.inr hu
  · -- the repeated publication is the stored one
    obtain rfl := ha.repeated p hp
    exact Or.inl ⟨hnew, hend.trans (h.published hp).endpoint.symm⟩

/-- The publications of a version and its mesh, if it has one, are as they were. -/
structure Protected (s s' : Store) (v : String) : Prop where
  shards : ∀ {key p}, (s.shards v).lookup key = some p → (s'.shards v).lookup key = some p
  endpoints : ∀ {key endpoint}, s.endpoints v key = some endpoint → s'.endpoints v key = some endpoint
  mesh : ∀ {version m}, s.versions v = some version → version.trainerMeshId ≠ "" →
    s.meshes version.trainerMeshId = some m →
    ∃ m', s'.meshes version.trainerMeshId = some m' ∧ m'.workers = m.workers ∧
      m'.generation = m.generation

theorem Protected.refl (s : Store) (v : String) : Protected s s v :=
  ⟨id, id, fun _ _ hm => ⟨_, hm, rfl, rfl⟩⟩

theorem Protected.trans (hp : s.Precedes s') (h : Protected s s' v) (h' : Protected s' s'' v) :
    Protected s s'' v where
  shards hk := h'.shards (h.shards hk)
  endpoints hk := h'.endpoints (h.endpoints hk)
  mesh hv hmesh hm := by
    obtain ⟨_, hv'⟩ := hp _ _ hv
    obtain ⟨m', hm', hw, hg⟩ := h.mesh hv hmesh hm
    obtain ⟨m'', hm'', hw', hg'⟩ := h'.mesh hv' hmesh hm'
    exact ⟨m'', hm'', hw'.trans hw, hg'.trans hg⟩

variable {version : WeightVersion}

theorem LinksOk.linked_of_leased (h : LinksOk s) (hl : LeasesOk s)
    (hv : s.versions v = some version) (hmesh : version.trainerMeshId ≠ "") (hleased : s.Leased v) :
    s.Linked v version := by
  rcases h.linked hv hmesh with hlink | hd
  · exact hlink
  · exact absurd hleased (hl.not_leased hd.unleased)

variable {w : World}

theorem Invariant.protects (h : Invariant w) (e : Event) (hl : w.store.Leased v) :
    Protected w.store (w.next sha256 e).store v := by
  have hc : Change sha256 w.store e _ _ := h.change e
  have hnot : ¬ w.store.Unleased v := fun hu => h.leases.not_leased hu hl
  have hkept {key p} (hp : (w.store.shards v).lookup key = some p) :=
    (hc.publication_kept h.publications hp).resolve_right hnot
  refine ⟨fun hp => (hkept hp).1, fun {key endpoint} hend => ?_, fun {version m} hv hmesh hm => ?_⟩
  · cases hp : (w.store.shards v).lookup key with
    | none => cases (h.publications.indexed hp).symm.trans hend
    | some p => exact (hkept hp).2.trans hend
  · obtain ⟨hmem, -⟩ := h.links.linked_of_leased h.leases hv hmesh hl
    rcases hc.mesh_fate hm with ⟨pins, hm'⟩ | ⟨_, hu, -⟩ | ⟨-, -, hall⟩
    · exact ⟨_, hm', rfl, rfl⟩
    · exact absurd (hu.unleased v hmem) hnot
    · exact absurd (hall v hmem).unleased hnot

/-- Every event of the interval is taken while the version is leased. -/
def LeasedAlong (sha256 : List UInt8 → List UInt8) (v : String) (es₁ es₂ : List Event) : Prop :=
  Run.Along (World.next sha256) (run sha256 es₁) (fun w _ => w.store.Leased v) es₂

variable {es₁ es₂ : List Event} {state : WeightVersionState}

theorem protected_of_leasedAlong (h : LeasedAlong sha256 v es₁ es₂) :
    Protected (run sha256 es₁).store (run sha256 (es₁ ++ es₂)).store v := by
  have hall : Invariant (run sha256 (es₁ ++ es₂)) ∧
      (run sha256 es₁).store.Precedes (run sha256 (es₁ ++ es₂)).store ∧
      Protected (run sha256 es₁).store (run sha256 (es₁ ++ es₂)).store v := by
    rw [run, Run.run_append]
    refine Run.invariant_along (P := fun w => Invariant w ∧ (run sha256 es₁).store.Precedes w.store ∧
      Protected (run sha256 es₁).store w.store v)
      ⟨invariant_run sha256 es₁, .refl _, .refl _ v⟩ ?_ h
    rintro w e hl ⟨hinv, hpre, hprot⟩
    exact ⟨hinv.next e, hpre.trans (hinv.change e).precedes, hprot.trans hpre (hinv.protects e hl)⟩
  exact hall.2.2

/-- **While a version is leased, its publications, their endpoints and its mesh do not change.** -/
theorem lease_protection {es₁ es₂ : List Event} (h₁ : (run sha256 es₁).store.Leased v)
    (h : LeasedAlong sha256 v es₁ es₂) :
    Protected (run sha256 es₁).store (run sha256 (es₁ ++ es₂)).store v ∧
    ∀ version, (run sha256 es₁).store.versions v = some version → version.trainerMeshId ≠ "" →
      ∃ m m', (run sha256 es₁).store.meshes version.trainerMeshId = some m ∧
        (run sha256 (es₁ ++ es₂)).store.meshes version.trainerMeshId = some m' ∧
        m'.workers = m.workers ∧ m'.generation = m.generation := by
  have hinv := invariant_run sha256 es₁
  have hprot := protected_of_leasedAlong h
  refine ⟨hprot, fun _ hv hmesh => ?_⟩
  obtain ⟨-, m, hm, -⟩ := hinv.links.linked_of_leased hinv.leases hv hmesh h₁
  obtain ⟨m', hm', hsame⟩ := hprot.mesh hv hmesh hm
  exact ⟨m, m', hm, hm', hsame⟩

def leaseTaken : List Event := oneTrainer ++
  [.registerWorker ⟨some ⟨"generator", 2, "model", ""⟩, 60⟩, .registerVersionLease ⟨"v1", "generator", 60⟩ 0]

def attempts : List Event :=
  [.deleteWeightVersion "v1",
    .deleteWeightVersionShard ⟨"v1", "shard", "trainer"⟩ 0,
    .expireWorker "trainer",
    .registerWorker ⟨some ⟨"trainer", 1, "model", "host:2"⟩, 60⟩,
    .updateTrainerMesh ⟨"mesh", 1, AList.singleton "trainer" ⟨"shard", "host:2"⟩⟩ 0 0 0 (.ok ()),
    .deleteTrainerMesh "mesh",
    .tick 1000]

def holdsLease (w : World) : Bool := (w.store.lease (leaseKey "v1" "76310067")).any (·.versionId = "v1")

theorem leased_of_holdsLease (h : holdsLease w = true) : w.store.Leased "v1" := by
  simp only [holdsLease, any_eq_true, Store.lease_eq_some, decide_eq_true_eq] at h
  obtain ⟨l, ⟨hl, hlt⟩, hv⟩ := h
  exact ⟨_, l, hl, hv, hlt⟩

theorem lease_protection_taken : (run id leaseTaken).store.Leased "v1" ∧
    LeasedAlong id "v1" leaseTaken attempts ∧
    Protected (run id leaseTaken).store (run id (leaseTaken ++ attempts)).store "v1" := by
  have h₁ : (run id leaseTaken).store.Leased "v1" := leased_of_holdsLease (by decide +kernel)
  have h : LeasedAlong id "v1" leaseTaken attempts :=
    Run.along_of_check (fun w _ => holdsLease w) (fun _ _ => leased_of_holdsLease) (by decide +kernel)
  exact ⟨h₁, h, (lease_protection h₁ h).1⟩

/-! ## Lifecycle -/

/-- The place of a state in STAGING, READY, RELEASING. -/
def WeightVersionState.rank : WeightVersionState → ℕ
  | .unspecified => 0
  | .staging => 1
  | .ready => 2
  | .releasing => 3

theorem WeightVersionState.rank_pos : 0 < state.rank ↔ state ≠ .unspecified := by
  cases state <;> simp [rank]

/-- The version is still there, with the same fields, in the same state or a later one. -/
def Forward (s s' : Store) : Prop :=
  ∀ v version, s.versions v = some version → ∃ state, s'.versions v = some { version with state } ∧
    version.state.rank ≤ state.rank

theorem Forward.refl (s : Store) : Forward s s := fun _ version hv => ⟨version.state, hv, le_rfl⟩

theorem Forward.trans (h : Forward s s') (h' : Forward s' s'') : Forward s s'' := by
  intro v version hv
  obtain ⟨_, hv', hle⟩ := h v version hv
  obtain ⟨state', hv'', hle'⟩ := h' v _ hv'
  exact ⟨state', hv'', hle.trans hle'⟩

theorem forward_setState (hv : s.versions v = some version) (hle : version.state.rank ≤ state.rank) :
    Forward s (s.setState v version state) := by
  intro v' version' hv'
  by_cases h : v' = v
  · subst h
    cases hv.symm.trans hv'
    exact ⟨state, update_self .., hle⟩
  · exact ⟨version'.state, (update_of_ne h ..).trans hv', le_rfl⟩

theorem Advances.rank_le {target : WeightVersionState}
    (h : Advances version target) : version.state.rank ≤ target.rank := by
  rcases h with ⟨hs, rfl, -⟩ | ⟨hs | hs, rfl⟩ <;> simp [hs, rank]

theorem Accepted.rank_le {shard : WeightVersionShard} {modelName meshId : String}
    {mesh : TrainerMesh} (h : Accepted modelName meshId shard s version mesh) :
    version.state.rank ≤ (stateAfter s shard version mesh).rank := by
  unfold stateAfter
  split_ifs
  · rcases h.writable with hs | hs <;> simp [hs, rank]
  · exact le_rfl

theorem Change.forward (hc : Change sha256 s e reply s') : Forward s s' := by
  cases hc with
  | versionCreated _ _ _ _ hfree =>
    exact fun v version hv => ⟨version.state, Assoc.update_fresh hfree hv, le_rfl⟩
  | advanced _ _ _ _ hv ha => exact forward_setState hv ha.rank_le
  | published shard version mesh ha =>
    exact forward_setState (s := s.publish version.trainerMeshId mesh shard) ha.stored ha.rank_le
  | _ => exact .refl _

theorem Change.specified (hc : Change sha256 s e reply s')
    (h : ∀ {v version}, s.versions v = some version → version.state ≠ .unspecified) {version' : WeightVersion}
    (hv : s'.versions v = some version') : version'.state ≠ .unspecified := by
  rcases hc.version_origin hv with ⟨version, hold, -⟩ | ⟨_, _, _, _, -, hback, -, -, rfl⟩
  · obtain ⟨_, hv', hle⟩ := hc.forward v version hold
    cases hv.symm.trans hv'
    exact rank_pos.1 ((rank_pos.2 (h hold)).trans_le hle)
  · cases hback with
    | s3 _ _ _ _ hstate =>
      rcases hstate with hs | hs <;> simp [CreateVersionArgs.version, createVersionArgs, hs]
    | mesh _ _ _ _ hstate => simp [CreateVersionArgs.version, createVersionArgs, hstate]

theorem specified_run (es : List Event)
    (hv : (run sha256 es).store.versions v = some version) : version.state ≠ .unspecified := by
  induction es using List.reverseRecOn generalizing v version with
  | nil => cases hv
  | append_singleton es e ih =>
    rw [run_snoc] at hv
    exact ((invariant_run sha256 es).change e).specified ih hv

theorem forward_run (hp : es₁ <+: es₂) : Forward (run sha256 es₁).store (run sha256 es₂).store := by
  obtain ⟨es, rfl⟩ := hp
  induction es using List.reverseRecOn with
  | nil => rw [List.append_nil]; exact .refl _
  | append_singleton es e ih =>
    rw [← List.append_assoc, run_snoc]
    exact ih.trans ((invariant_run sha256 (es₁ ++ es)).change e).forward

def Drains (s : Store) (v : String) : Prop :=
  (∃ version, s.versions v = some version ∧ version.state = .releasing) ∧ ¬ s.Leased v

theorem Invariant.drains (h : Invariant w) (e : Event) (hd : Drains w.store v) :
    Drains (w.next sha256 e).store v := by
  have hc : Change sha256 w.store e _ _ := h.change e
  obtain ⟨_, hv, hr⟩ := hd.1
  have h' : Invariant (w.next sha256 e) := h.next e
  refine ⟨hc.releasing hd.1, h'.leases.not_leased ?_⟩
  exact hc.unleased h.leases hv hr (h.leases.unleased hd.2)

theorem Invariant.lease_refused (h : Invariant w) {request : RegisterVersionLeaseRequest}
    {i : Instant} (hd : Drains w.store request.versionId) :
    ∃ status, (w.call sha256 (.registerVersionLease request i)).1 = .refused status := by
  have hc : Change sha256 w.store (.registerVersionLease request i) _ _ := h.change _
  generalize (w.next sha256 _).store = s' at hc
  generalize (w.call sha256 _).1 = reply at hc ⊢
  obtain ⟨⟨_, hv, hr⟩, hnot⟩ := hd
  cases hc with
  | refused status | purged status => exact ⟨status, rfl⟩
  | answered he | advanced _ _ _ he => cases he
  | leased _ _ hv' hl =>
    cases hv.symm.trans hv'
    rcases hl.ready_or_leased with hready | hleased
    · cases hr.symm.trans hready
    · exact absurd hleased hnot

theorem drains_run (hp : es₁ <+: es₂) (h : Drains (run sha256 es₁).store v) :
    Drains (run sha256 es₂).store v :=
  (Run.stable (P := fun w => Invariant w ∧ Drains w.store v)
    (fun _ e hw => ⟨hw.1.next e, hw.1.drains e hw.2⟩) hp ⟨invariant_run sha256 es₁, h⟩).2

structure VersionLifecycle (sha256 : List UInt8 → List UInt8) : Prop where
  /-- The state is STAGING, READY or RELEASING, and only moves forward; nothing else changes. -/
  forward : ∀ es₁ es₂ v version, es₁ <+: es₂ → (run sha256 es₁).store.versions v = some version →
    version.state ≠ .unspecified ∧
    ∃ state, (run sha256 es₂).store.versions v = some { version with state } ∧
      version.state.rank ≤ state.rank
  /-- Without a storage uri, only an accepted publication makes a version ready. -/
  published : ∀ es e v version, (run sha256 (es ++ [e])).store.versions v = some version →
    version.s3Uri = "" → MovesToReady (run sha256 es).store v version →
    ∃ shard atVersion, e = .createWeightVersionShard (some shard) atVersion ∧ shard.versionId = v ∧
      ((run sha256 es).call sha256 e).1 = .shard shard version
  /-- Once a version is releasing without a lease, it has none ever after, and every request for one
      is refused. -/
  drained : ∀ es₁ es₂ v, es₁ <+: es₂ → Drains (run sha256 es₁).store v →
    ¬ (run sha256 es₂).store.Leased v ∧
    ∀ request i, request.versionId = v → ∃ status,
      ((run sha256 es₂).call sha256 (.registerVersionLease request i)).1 = .refused status

/-- **Versions move forward and drain.** -/
theorem version_lifecycle (sha256 : List UInt8 → List UInt8) : VersionLifecycle sha256 where
  forward es₁ es₂ v version hp hv := ⟨specified_run es₁ hv, forward_run hp v version hv⟩
  published es e v version hv huri hmoves := by
    have hinv := invariant_run sha256 es
    have hinv' := invariant_run sha256 (es ++ [e])
    have hmesh : version.trainerMeshId ≠ "" := fun h => (hinv'.links.stored hv).1 h huri
    rw [run_snoc] at hv hinv'
    exact (((hinv.change e).movesToReady_iff hinv.links hinv.meshes hinv'.publications.keyed hv
      hmesh).1 hmoves).publish
  drained es₁ es₂ v hp hd := by
    have hd' := drains_run hp hd
    refine ⟨hd'.2, fun _ i hv => ?_⟩
    subst hv
    exact (invariant_run sha256 es₂).lease_refused hd'

/-- In RELEASING the holder renews; when the lease has run out it no longer can. -/
example : let released := leaseTaken ++ [.deleteWeightVersion "v1"]
    let renewal : Event := .registerVersionLease ⟨"v1", "generator", 60⟩ 0
    holdsLease (run id (released ++ [renewal])) = true ∧
    ((run id (released ++ [.tick 60000])).call id renewal).1 = .error (.failedPrecondition
      "weight version does not accept this lease registration") := by
  decide +kernel

/-- **A mesh outlives the versions that use it.** -/
theorem meshes_outlive_versions (es : List Event) : ¬ ∃ v, ∃ version ∈ (run sha256 es).store.versions v,
    version.trainerMeshId ≠ "" ∧ version.state ≠ .releasing ∧
      (run sha256 es).store.meshes version.trainerMeshId = none := by
  rintro ⟨v, version, hv, hmesh, hstate, hgone⟩
  rcases (invariant_run sha256 es).links.linked hv hmesh with ⟨-, m, hm, -⟩ | ⟨⟨_, hv', hdone⟩, -⟩
  · cases hgone.symm.trans hm
  · cases hv.symm.trans hv'
    exact hstate hdone

end ModelExpress.Refit
