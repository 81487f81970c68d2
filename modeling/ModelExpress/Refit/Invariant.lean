/-
  ModelExpress refit control plane — what holds after every run.
-/
import ModelExpress.Refit.Steps

namespace ModelExpress.Refit

open List Function Assoc Store

variable {sha256 : List UInt8 → List UInt8} {s s' : Store} {e : Event} {reply : Reply}

/-! ## The past -/

variable {version : WeightVersion} {v : String} {leaseSet : String → SortedSet}

theorem Store.precedes_setState {state : WeightVersionState}
    (hv : s.versions v = some version) : s.Precedes (s.setState v version state) := by
  intro v' version' hv'
  by_cases h : v' = v
  · subst h
    cases hv.symm.trans hv'
    exact ⟨state, update_self ..⟩
  · exact ⟨version'.state, (update_of_ne h ..).trans hv'⟩

theorem Store.setState_origin {version' : WeightVersion} {u : String} {state : WeightVersionState}
    (hu : s.versions u = some version) (hv : (s.setState u version state).versions v = some version') :
    ∃ old, s.versions v = some old ∧ version' = { old with state := version'.state } := by
  rcases update_cases (f := s.versions) hv with ⟨rfl, heq⟩ | ⟨-, hold⟩
  · cases heq
    exact ⟨version, hu, rfl⟩
  · exact ⟨version', hold, rfl⟩

theorem Change.precedes (h : Change sha256 s e reply s') : s.Precedes s' := by
  cases h with
  | versionCreated _ _ _ _ hfree =>
    exact fun v version hv => ⟨version.state, update_fresh hfree hv⟩
  | advanced _ _ _ _ hv => exact precedes_setState hv
  | published _ _ _ ha => exact precedes_setState (s := s.publish _ _ _) ha.stored
  | _ => exact .refl _

/-! ## Leases -/

/-- The lease hashes and the sorted sets agree on what is in the future. -/
structure LeasesOk (s : Store) : Prop where
  listed : ∀ {key l}, s.lease key = some l →
    key = leaseKey l.versionId l.leaseId ∧ (l.leaseId, l.expiresAt) ∈ s.leaseSet l.versionId
  active : ∀ {v m}, m ∈ s.leaseSet v → s.now < m.2 →
    ∃ l, s.lease (leaseKey v m.1) = some l ∧ l.leaseId = m.1 ∧ l.versionId = v ∧ l.expiresAt = m.2

/-- Some lease on the version has neither expired nor been deleted. -/
def Store.Leased (s : Store) (v : String) : Prop :=
  ∃ key l, s.leases key = some l ∧ l.versionId = v ∧ s.now < l.expiresAt

variable {leaseId workerId meshId w id : String} {m m' : TrainerMesh}

section
variable (h : LeasesOk s)
include h

theorem LeasesOk.not_leased (hu : s.Unleased v) : ¬ s.Leased v := by
  rintro ⟨key, l, hl, rfl, hlt⟩
  have hmem := (h.listed (lease_eq_some.2 ⟨hl, hlt⟩)).2
  exact absurd (hu _ hmem) (by simpa using hlt)

theorem LeasesOk.unleased (hv : ¬ s.Leased v) : s.Unleased v := by
  intro m hm
  by_contra hlt
  obtain ⟨l, hl, -, hlv, -⟩ := h.active hm (by omega)
  rw [lease_eq_some] at hl
  exact hv ⟨_, l, hl.1, hlv, hl.2⟩

theorem LeasesOk.purged (hp : Purged s leaseSet) : LeasesOk { s with leaseSet } where
  listed := by
    intro key l hl
    obtain ⟨hkey, hmem⟩ := h.listed hl
    exact ⟨hkey, hp.kept (lease_eq_some.1 hl).2 hmem⟩
  active hm hlt := h.active (hp.sub hm) hlt

theorem LeasesOk.tick (elapsed : ℕ) : LeasesOk { s with now := s.now + elapsed } where
  listed := by
    intro key l hl
    rw [lease_eq_some] at hl
    exact h.listed (lease_eq_some.2 ⟨hl.1, lt_of_le_of_lt (Nat.le_add_right ..) hl.2⟩)
  active := by
    intro v m hm hlt
    obtain ⟨l, hl, hid, hv, hexp⟩ := h.active hm (lt_of_le_of_lt (Nat.le_add_right ..) hlt)
    exact ⟨l, lease_eq_some.2 ⟨(lease_eq_some.1 hl).1, hexp ▸ hlt⟩, hid, hv, hexp⟩

section
variable {leases : String → Option VersionLease}
  (hown : ∀ l, s.lease (leaseKey v leaseId) = some l → l.leaseId = leaseId ∧ l.versionId = v)
  (hsame : ∀ key, key ≠ leaseKey v leaseId → leases key = s.leases key)
include hown hsame

theorem LeasesOk.rewrite {entries : SortedSet}
    (hnew : ∀ l, leases (leaseKey v leaseId) = some l → s.now < l.expiresAt → l.leaseId = leaseId ∧ l.versionId = v)
    (hentries : ∀ m, s.now < m.2 → (m ∈ entries ↔ m ∈ s.leaseSet v ∧ m.1 ≠ leaseId ∨
      ∃ l, leases (leaseKey v leaseId) = some l ∧ (leaseId, l.expiresAt) = m)) :
    LeasesOk { s with leases, leaseSet := Function.update s.leaseSet v entries } where
  listed := by
    intro key l hl
    obtain ⟨hl, hlt⟩ := lease_eq_some.1 hl
    by_cases hkey : key = leaseKey v leaseId
    · subst hkey
      obtain ⟨rfl, rfl⟩ := hnew l hl hlt
      refine ⟨rfl, ?_⟩
      simp only [update_self]
      exact (hentries _ hlt).2 (Or.inr ⟨l, hl, rfl⟩)
    · obtain ⟨hkey', hmem⟩ := h.listed (lease_eq_some.2 ⟨(hsame key hkey).symm.trans hl, hlt⟩)
      refine ⟨hkey', ?_⟩
      by_cases hv : l.versionId = v
      · have hid : l.leaseId ≠ leaseId := fun hid => hkey (by rw [hkey', hv, hid])
        simp only [hv, update_self]
        exact (hentries _ hlt).2 (Or.inl ⟨hv ▸ hmem, hid⟩)
      · simpa only [update_of_ne hv] using hmem
  active := by
    intro v' m hm hlt
    -- an entry of the future that is still listed is not the one under the key just written
    have hold : m ∈ s.leaseSet v' → (v' = v → m.1 ≠ leaseId) → ∃ l,
        Store.lease { s with leases, leaseSet := Function.update s.leaseSet v entries } (leaseKey v' m.1) = some l ∧
          l.leaseId = m.1 ∧ l.versionId = v' ∧ l.expiresAt = m.2 := by
      intro hmem hne
      obtain ⟨l, hl, hid, hv, hexp⟩ := h.active hmem hlt
      refine ⟨l, lease_eq_some.2 ⟨(hsame _ ?_).trans (lease_eq_some.1 hl).1, (lease_eq_some.1 hl).2⟩, hid, hv, hexp⟩
      intro hkey
      obtain ⟨hid', hv'⟩ := hown l (hkey ▸ hl)
      exact hne (hv.symm.trans hv') (hid.symm.trans hid')
    rcases of_update (P := (m ∈ ·)) hm with ⟨rfl, hm'⟩ | ⟨hv, hm⟩
    · rcases (hentries m hlt).1 hm' with ⟨hmem, hne⟩ | ⟨l, hl, rfl⟩
      · exact hold hmem fun _ => hne
      · obtain ⟨hid, hv⟩ := hnew l hl hlt
        exact ⟨l, lease_eq_some.2 ⟨hl, hlt⟩, hid, hv, rfl⟩
    · exact hold hm fun h => absurd h hv

theorem LeasesOk.zrem (hgone : ∀ l, leases (leaseKey v leaseId) = some l → ¬ s.now < l.expiresAt) :
    LeasesOk { s with leases, leaseSet := Function.update s.leaseSet v ((s.leaseSet v).zrem leaseId) } := by
  refine h.rewrite hown hsame (fun l hl hlt => absurd hlt (hgone l hl)) fun m hlt => ?_
  rw [SortedSet.mem_zrem]
  refine (or_iff_left ?_).symm
  rintro ⟨l, hl, rfl⟩
  exact hgone l hl hlt

end

theorem LeasesOk.putLease {n : VersionLease}
    (hown : ∀ l, s.lease (leaseKey n.versionId n.leaseId) = some l →
      l.leaseId = n.leaseId ∧ l.versionId = n.versionId) : LeasesOk (s.putLease n) := by
  refine h.rewrite hown (fun key hkey => update_of_ne hkey ..) ?_ ?_
  · intro l hl _
    cases (update_self ..).symm.trans hl
    exact ⟨rfl, rfl⟩
  · intro m _
    simp [SortedSet.mem_zadd, or_comm, eq_comm]

end

theorem Leaseable.owned (h : Leaseable s version v leaseId workerId) (l : VersionLease)
    (hl : s.lease (leaseKey v leaseId) = some l) : l.leaseId = leaseId ∧ l.versionId = v := by
  rcases h with ⟨hnone, -⟩ | ⟨l', hl', hid, hv, -⟩
  · cases hnone.symm.trans hl
  · rw [hl'] at hl
    cases hl
    exact ⟨hid, hv⟩

theorem Change.leasesOk (hc : Change sha256 s e reply s') (h : LeasesOk s) : LeasesOk s' := by
  cases hc with
  | purged _ _ hp => exact h.purged hp
  | tick elapsed => exact h.tick elapsed
  | meshUpdated _ _ hu => exact ⟨(h.purged hu.purged).listed, (h.purged hu.purged).active⟩
  | meshDeleted _ _ hp | dropped _ hp => exact ⟨(h.purged hp).listed, (h.purged hp).active⟩
  | leased _ _ _ hl => exact h.putLease hl.owned
  | forgotten _ hnone =>
    refine h.zrem (by simp [hnone]) (fun _ _ => rfl) fun l hl hlt => ?_
    rw [lease_eq_some.2 ⟨hl, hlt⟩] at hnone
    cases hnone
  | released _ _ hl hid hv =>
    refine h.zrem (fun l' hl' => ?_) (fun key hkey => update_of_ne hkey ..) (by simp)
    cases hl.symm.trans hl'
    exact ⟨hid, hv⟩
  | _ => exact ⟨h.listed, h.active⟩

/-! ## Drained versions -/

theorem Leaseable.ready_or_leased
    (h : Leaseable s version v leaseId workerId) : version.state = .ready ∨ s.Leased v := by
  rcases h with ⟨-, hready⟩ | ⟨l, hl, -, hv, -⟩
  · exact Or.inl hready
  · rw [lease_eq_some] at hl
    exact Or.inr ⟨_, l, hl.1, hv, hl.2⟩

theorem Store.Unleased.purge (h : s.Unleased v)
    (hp : Purged s leaseSet) : Store.Unleased { s with leaseSet } v := fun m hm => h m (hp.sub hm)

theorem Store.Unleased.zrem {v' : String} (h : s.Unleased v) : ∀ m ∈
    Function.update s.leaseSet v' ((s.leaseSet v').zrem leaseId) v, m.2 ≤ s.now := by
  intro m hm
  rcases of_update (P := (m ∈ ·)) hm with ⟨rfl, hm⟩ | ⟨-, hm⟩
  · exact h m (SortedSet.mem_zrem.1 hm).1
  · exact h m hm

section
variable (hc : Change sha256 s e reply s')
include hc

theorem Change.unleased (hl : LeasesOk s)
    (hv : s.versions v = some version) (hr : version.state = .releasing) (hu : s.Unleased v) : s'.Unleased v := by
  cases hc with
  | purged _ _ hp => exact hu.purge hp
  | tick => exact fun m hm => le_trans (hu m hm) (Nat.le_add_right ..)
  | meshUpdated _ _ h => exact hu.purge h.purged
  | meshDeleted _ _ hp | dropped _ hp => exact hu.purge hp
  | leased request _ hv' hle =>
    intro m hm
    by_cases hsame : v = request.versionId
    · subst hsame
      cases hv.symm.trans hv'
      rcases hle.ready_or_leased with hready | hleased
      · cases hr.symm.trans hready
      · exact absurd hleased (hl.not_leased hu)
    · simp only [putLease, update_of_ne hsame] at hm
      exact hu m hm
  | forgotten | released => exact hu.zrem
  | _ => exact hu

theorem Change.releasing (h : ∃ version, s.versions v = some version ∧ version.state = .releasing) :
    ∃ version, s'.versions v = some version ∧ version.state = .releasing := by
  obtain ⟨version, hv, hr⟩ := h
  cases hc with
  | versionCreated _ _ _ _ hfree =>
    exact ⟨version, update_fresh hfree hv, hr⟩
  | advanced _ _ _ _ hv' ha =>
    refine ⟨version, (update_of_ne ?_ ..).trans hv, hr⟩
    rintro rfl
    cases hv.symm.trans hv'
    rcases ha with ⟨hs, -⟩ | ⟨hs | hs, -⟩ <;> rw [hr] at hs <;> cases hs
  | published _ _ _ ha =>
    refine ⟨version, (update_of_ne ?_ ..).trans hv, hr⟩
    rintro rfl
    cases hv.symm.trans ha.stored
    rcases ha.writable with hs | hs <;> rw [hr] at hs <;> cases hs
  | _ => exact ⟨version, hv, hr⟩

theorem Change.publication_fate (v key : String) :
    (s'.shards v).lookup key = (s.shards v).lookup key ∧ s'.endpoints v key = s.endpoints v key ∨
    (s'.shards v).lookup key = none ∧ s'.endpoints v key = none ∧ s.Unleased v ∨
    ∃ p version mesh pins, Accepted version.modelName version.trainerMeshId p s version mesh ∧
      v = p.versionId ∧ key = publicationKey p.workerId p.logicalShardId ∧
      (s'.shards v).lookup key = some p ∧ s'.endpoints v key = some p.metadataEndpoint ∧
      s'.meshes version.trainerMeshId = some { mesh with pins } := by
  cases hc with
  | meshUpdated _ _ hu =>
    simp only [hu.shards, hu.endpoints]
    split_ifs with hret
    · exact Or.inr (Or.inl ⟨rfl, rfl, hu.unleased v hret.1⟩)
    · exact Or.inl ⟨rfl, rfl⟩
  | published shard version mesh ha =>
    simp only [setState, publish]
    by_cases hv : v = shard.versionId
    · subst hv
      rw [update_self, update_self]
      by_cases hk : key = publicationKey shard.workerId shard.logicalShardId
      · subst hk
        exact Or.inr (Or.inr ⟨_, version, mesh, _, ha, rfl, rfl, AList.lookup_insert _,
          update_self .., update_self ..⟩)
      · exact Or.inl ⟨AList.lookup_insert_ne hk, update_of_ne hk ..⟩
    · rw [update_of_ne hv, update_of_ne hv]
      exact Or.inl ⟨rfl, rfl⟩
  | dropped _ _ hu =>
    rw [lookup_dropPublication, endpoints_dropPublication]
    split_ifs with heq
    · cases heq
      exact Or.inr (Or.inl ⟨rfl, rfl, hu⟩)
    · exact Or.inl ⟨rfl, rfl⟩
  | _ => exact Or.inl ⟨rfl, rfl⟩

theorem Change.unpublished {key : String} (hr : ∃ version, s.versions v = some version ∧ version.state = .releasing)
    (h : (s.shards v).lookup key = none) : (s'.shards v).lookup key = none := by
  rcases hc.publication_fate v key with ⟨hold, -⟩ | ⟨hnone, -⟩ | ⟨_, _, _, _, ha, rfl, -⟩
  · exact hold.trans h
  · exact hnone
  · obtain ⟨_, hv, hr⟩ := hr
    cases hv.symm.trans ha.stored
    rcases ha.writable with hs | hs <;> rw [hr] at hs <;> cases hs

theorem Change.drained (hl : LeasesOk s) (h : s.Drained v) : s'.Drained v := by
  obtain ⟨_, hv, hr⟩ := h.releasing
  exact ⟨hc.releasing h.releasing, fun key => hc.unpublished h.releasing (h.unpublished key),
    hc.unleased hl hv hr h.unleased⟩

/-! ## Where versions and meshes come from -/

theorem Change.version_origin {version' : WeightVersion} (hv : s'.versions v = some version') :
    (∃ version, s.versions v = some version ∧ version' = { version with state := version'.state }) ∨
    ∃ request atBase drawn generation, e = .createWeightVersion request atBase drawn ∧
      Backed request ∧ s.versions v = none ∧
      meshGeneration s (createVersionArgs request v) = .ok generation ∧
      version' = (createVersionArgs request v).version generation := by
  cases hc with
  | versionCreated request uid generation hback hfree hgen =>
    rcases update_cases (f := s.versions) hv with ⟨rfl, heq⟩ | ⟨-, hold⟩
    · cases heq
      exact Or.inr ⟨request, _, _, generation, rfl, hback, hfree, hgen, rfl⟩
    · exact Or.inl ⟨version', hold, rfl⟩
  | advanced _ _ _ _ hold => exact Or.inl (setState_origin hold hv)
  | published _ _ _ ha => exact Or.inl (setState_origin (s := s.publish _ _ _) ha.stored hv)
  | _ => exact Or.inl ⟨version', hv, rfl⟩

inductive TrainerMesh.Evolves (m : TrainerMesh) : TrainerMesh → Prop
  | pinned (pins : String → Option String) : m.Evolves { m with pins }
  | replaced (workers : Members)
      (hcov : ∀ shardId, shardId ∈ workers.shardIds ↔ shardId ∈ m.workers.shardIds) :
      m.Evolves (m.replaced workers)

theorem Change.mesh_origin (hm : s'.meshes id = some m') : (∃ m, s.meshes id = some m ∧ m.Evolves m') ∨
    ∃ request atFind atWorkers bindings drawn,
      e = .createTrainerMesh request atFind atWorkers bindings drawn ∧ s.meshes id = none ∧
      m' = (createMeshArgs request id).mesh := by
  cases hc with
  | meshCreated request _ hfree =>
    rcases update_cases (f := s.meshes) hm with ⟨rfl, heq⟩ | ⟨-, hold⟩
    · cases heq
      exact Or.inr ⟨request, _, _, _, _, rfl, hfree, rfl⟩
    · exact Or.inl ⟨m', hold, .pinned _⟩
  | meshUpdated _ mesh hu =>
    rcases update_cases (f := s.meshes) hm with ⟨rfl, heq⟩ | ⟨-, hold⟩
    · cases heq
      exact Or.inl ⟨mesh, hu.standing, .replaced _ hu.coverage⟩
    · exact Or.inl ⟨m', hold, .pinned _⟩
  | meshDeleted =>
    rcases update_cases (f := s.meshes) hm with ⟨-, heq⟩ | ⟨-, hold⟩
    · cases heq
    · exact Or.inl ⟨m', hold, .pinned _⟩
  | published _ _ mesh ha =>
    rcases update_cases (f := s.meshes) hm with ⟨rfl, heq⟩ | ⟨-, hold⟩
    · cases heq
      exact Or.inl ⟨mesh, ha.standing, .pinned _⟩
    · exact Or.inl ⟨m', hold, .pinned _⟩
  | _ => exact Or.inl ⟨m', hm, .pinned _⟩

theorem Change.mesh_fate (hm : s.meshes id = some m) : (∃ pins, s'.meshes id = some { m with pins }) ∨
    (∃ workers, MeshUpdate s id m workers s'.shards s'.endpoints s'.leaseSet ∧
      s'.meshes id = some (m.replaced workers)) ∨
    s'.meshes id = none ∧ s'.meshVersions id = [] ∧ ∀ v ∈ s.meshVersions id, s.Drained v := by
  cases hc with
  | meshCreated _ _ hfree =>
    exact Or.inl ⟨m.pins, update_fresh hfree hm⟩
  | meshUpdated request mesh hu =>
    by_cases h : id = request.meshId
    · subst h
      cases hm.symm.trans hu.standing
      exact Or.inr (Or.inl ⟨request.workers, hu, update_self ..⟩)
    · exact Or.inl ⟨m.pins, (update_of_ne h ..).trans hm⟩
  | meshDeleted meshId _ _ hall =>
    by_cases h : id = meshId
    · subst h
      exact Or.inr (Or.inr ⟨update_self .., update_self .., hall⟩)
    · exact Or.inl ⟨m.pins, (update_of_ne h ..).trans hm⟩
  | published _ version _ ha =>
    by_cases h : id = version.trainerMeshId
    · subst h
      cases hm.symm.trans ha.standing
      exact Or.inl ⟨_, update_self ..⟩
    · exact Or.inl ⟨m.pins, (update_of_ne h ..).trans hm⟩
  | _ => exact Or.inl ⟨m.pins, hm⟩

theorem Change.mesh_evolves (hm : s.meshes id = some m) : (∃ m', s'.meshes id = some m' ∧ m.Evolves m') ∨
    s'.meshes id = none ∧ s'.meshVersions id = [] ∧ ∀ v ∈ s.meshVersions id, s.Drained v := by
  rcases hc.mesh_fate hm with ⟨pins, hm'⟩ | ⟨workers, hu, hm'⟩ | hgone
  · exact Or.inl ⟨_, hm', .pinned pins⟩
  · exact Or.inl ⟨_, hm', .replaced workers hu.coverage⟩
  · exact Or.inr hgone

end

/-! ## Meshes -/

/-- The workers of a mesh name its logical shards, no more and no fewer. -/
structure MeshOk (m : TrainerMesh) : Prop where
  positive : 0 < m.generation
  nodup : m.logicalShards.Nodup
  named : ∀ shardId, shardId ∈ m.logicalShards ↔ shardId ∈ m.workers.shardIds

theorem MeshOk.evolves (h : MeshOk m) (he : m.Evolves m') : MeshOk m' := by
  cases he with
  | pinned => exact ⟨h.positive, h.nodup, h.named⟩
  | replaced _ hcov =>
    exact ⟨Nat.succ_pos _, h.nodup, fun x => (h.named x).trans (hcov x).symm⟩

theorem MeshOk.created (request : CreateTrainerMeshRequest) (meshId : String) :
    MeshOk (createMeshArgs request meshId).mesh :=
  ⟨Nat.one_pos, request.workers.nodup_logicalShards, fun _ => by
    rw [createMeshArgs, CreateMeshArgs.mesh, Members.logicalShards, List.mem_insertionSort, List.mem_dedup]⟩

theorem Change.meshOk (hc : Change sha256 s e reply s') (h : ∀ {id m}, s.meshes id = some m → MeshOk m)
    (hm : s'.meshes id = some m') : MeshOk m' := by
  rcases hc.mesh_origin hm with ⟨m, hold, hev⟩ | ⟨request, _, _, _, _, -, -, rfl⟩
  · exact (h hold).evolves hev
  · exact .created request id

/-! ## Links between versions and meshes -/

def Store.Linked (s : Store) (v : String) (version : WeightVersion) : Prop :=
  v ∈ s.meshVersions version.trainerMeshId ∧ ∃ m, s.meshes version.trainerMeshId = some m ∧
    version.trainerMeshGeneration ≤ m.generation

/-- A version lives in S3, or is linked to its mesh until it is drained. -/
structure LinksOk (s : Store) : Prop where
  standing : ∀ {id v}, v ∈ s.meshVersions id →
    ∃ m version, s.meshes id = some m ∧ s.versions v = some version ∧ version.trainerMeshId = id
  stored : ∀ {v version}, s.versions v = some version →
    (version.trainerMeshId = "" ↔ version.s3Uri ≠ "")
  linked : ∀ {v version}, s.versions v = some version → version.trainerMeshId ≠ "" →
    s.Linked v version ∨ s.Drained v

theorem meshGeneration_ok {a : CreateVersionArgs} {generation : ℕ}
    (h : meshGeneration s a = .ok generation) (hmesh : a.trainerMeshId ≠ "") :
    ∃ m, s.meshes a.trainerMeshId = some m ∧ m.modelName = a.modelName ∧ m.generation = generation := by
  rw [meshGeneration, if_neg hmesh] at h
  cases hm : s.meshes a.trainerMeshId with
  | none => simp [hm] at h
  | some m =>
    simp only [hm] at h
    split_ifs at h with hmodel hzero
    cases h
    exact ⟨m, rfl, not_not.1 hmodel, rfl⟩

theorem Backed.stored {request : CreateWeightVersionRequest} (h : Backed request) (uid : String) :
    (createVersionArgs request uid).trainerMeshId = "" ↔ (createVersionArgs request uid).s3Uri ≠ "" := by
  cases h with
  | s3 _ hsource huri hmesh => simp [createVersionArgs, hsource, hmesh, huri]
  | mesh _ hsource hmesh hid => simp [createVersionArgs, hsource, hmesh, hid]

theorem TrainerMesh.Evolves.generation_le (h : m.Evolves m') : m.generation ≤ m'.generation := by
  cases h with
  | pinned => exact Nat.le_refl _
  | replaced => exact Nat.le_succ _

section
variable (hc : Change sha256 s e reply s')
include hc

theorem Change.created_linked (hfree : s.versions v = none) (hv : s'.versions v = some version)
    (hmesh : version.trainerMeshId ≠ "") : s'.Linked v version := by
  cases hc with
  | versionCreated _ _ _ _ _ hgen =>
    rcases update_cases (f := s.versions) hv with ⟨rfl, heq⟩ | ⟨-, hold⟩
    · cases heq
      obtain ⟨m, hm, -, hgen⟩ := meshGeneration_ok hgen hmesh
      refine ⟨?_, m, hm, hgen.ge⟩
      simp only [CreateVersionArgs.version] at hmesh ⊢
      rw [if_neg hmesh, update_self]
      exact mem_insert_self
    · cases hfree.symm.trans hold
  | advanced _ _ _ _ hold =>
    obtain ⟨old, hold, -⟩ := setState_origin hold hv
    cases hfree.symm.trans hold
  | published _ _ _ ha =>
    obtain ⟨old, hold, -⟩ := setState_origin (s := s.publish _ _ _) ha.stored hv
    cases hfree.symm.trans hold
  | _ => cases hfree.symm.trans hv

theorem Change.meshVersions_origin
    (h : v ∈ s'.meshVersions meshId) : v ∈ s.meshVersions meshId ∨
    ∃ version, s.versions v = none ∧ s'.versions v = some version ∧ version.trainerMeshId = meshId ∧
      meshId ≠ "" := by
  cases hc with
  | reordered _ _ hp =>
    rcases of_update (P := (v ∈ ·)) h with ⟨rfl, h'⟩ | ⟨-, h⟩
    · exact Or.inl (hp.mem_iff.1 h')
    · exact Or.inl h
  | meshDeleted =>
    obtain ⟨-, ⟨⟩⟩ | ⟨-, h⟩ := of_update (P := (v ∈ ·)) h
    exact Or.inl h
  | versionCreated _ _ _ _ hfree =>
    dsimp only at h
    split_ifs at h with hmesh
    · exact Or.inl h
    · rcases of_update (P := (v ∈ ·)) h with ⟨rfl, h'⟩ | ⟨-, h⟩
      · rcases mem_insert_iff.1 h' with rfl | h
        · exact Or.inr ⟨_, hfree, update_self .., rfl, hmesh⟩
        · exact Or.inl h
      · exact Or.inl h
  | _ => exact Or.inl h

theorem Change.meshVersions_fate
    (h : v ∈ s.meshVersions meshId) : v ∈ s'.meshVersions meshId ∨ s'.meshes meshId = none := by
  cases hc with
  | reordered meshId' _ hp =>
    by_cases hid : meshId = meshId'
    · subst hid
      simp only [update_self]
      exact Or.inl (hp.mem_iff.2 h)
    · simp only [update_of_ne hid]
      exact Or.inl h
  | meshDeleted meshId' =>
    by_cases hid : meshId = meshId'
    · subst hid
      exact Or.inr (update_self ..)
    · simp only [update_of_ne hid]
      exact Or.inl h
  | versionCreated request uid =>
    refine Or.inl ?_
    dsimp only
    split_ifs with hmesh
    · exact h
    · by_cases hid : meshId = (createVersionArgs request uid).trainerMeshId
      · subst hid
        rw [update_self]
        exact mem_insert_of_mem h
      · rwa [update_of_ne hid]
  | _ => exact Or.inl h

theorem Change.linked (hl : LeasesOk s)
    (h : s.Linked v version) : s'.Linked v version ∨ s'.Drained v := by
  obtain ⟨hmem, m, hm, hle⟩ := h
  rcases hc.mesh_evolves hm with ⟨m', hm', hev⟩ | ⟨-, -, hall⟩
  · rcases hc.meshVersions_fate hmem with hmem' | hnone
    · exact Or.inl ⟨hmem', m', hm', hle.trans hev.generation_le⟩
    · cases hnone.symm.trans hm'
  · exact Or.inr (hc.drained hl (hall v hmem))

theorem Change.linksOk (hl : LeasesOk s) (h : LinksOk s) : LinksOk s' where
  standing := by
    intro _ v hv
    rcases hc.meshVersions_origin hv with hold | ⟨version, hfree, hversion, rfl, hmesh⟩
    · obtain ⟨m, version, hm, hversion, hid⟩ := h.standing hold
      obtain ⟨_, hversion'⟩ := hc.precedes v version hversion
      rcases hc.mesh_evolves hm with ⟨m', hm', -⟩ | ⟨-, hempty, -⟩
      · exact ⟨m', _, hm', hversion', hid⟩
      · rw [hempty] at hv
        cases hv
    · obtain ⟨-, m, hm, -⟩ := hc.created_linked hfree hversion hmesh
      exact ⟨m, version, hm, hversion, rfl⟩
  stored := by
    intro v version' hv
    rcases hc.version_origin hv with ⟨version, hold, heq⟩ | ⟨_, _, _, g, -, hback, -, -, rfl⟩
    · have hstored := h.stored hold
      rwa [heq]
    · exact hback.stored v
  linked := by
    intro v _ hv hmesh
    rcases hc.version_origin hv with ⟨_, hold, heq⟩ | ⟨_, _, _, _, -, -, hfree, -, -⟩
    · rw [heq] at hmesh ⊢
      rcases h.linked hold hmesh with hlink | hdrained
      · exact hc.linked hl hlink
      · exact Or.inr (hc.drained hl hdrained)
    · exact Or.inl (hc.created_linked hfree hv hmesh)

end

/-! ## Publications -/

/-- A publication stands under its own key, from the endpoint it was published from, and its worker is
    a member of the version's mesh for that shard and that endpoint. -/
structure Publication (s : Store) (v key : String) (p : WeightVersionShard) : Prop where
  key_eq : key = publicationKey p.workerId p.logicalShardId
  version_eq : p.versionId = v
  endpoint : s.endpoints v key = some p.metadataEndpoint
  member : ∃ version mesh, s.versions v = some version ∧ version.trainerMeshId ≠ "" ∧
    s.meshes version.trainerMeshId = some mesh ∧
    mesh.workers.lookup p.workerId = some ⟨p.logicalShardId, p.metadataEndpoint⟩

structure PublicationsOk (s : Store) : Prop where
  published : ∀ {v key p}, (s.shards v).lookup key = some p → Publication s v key p
  indexed : ∀ {v key}, (s.shards v).lookup key = none → s.endpoints v key = none

section Retired
variable {v key : String} {old replacement : Members} {p : WeightVersionShard} {m : TrainerTensorsMetadata}

theorem mem_removedMembers : (w, m) ∈ removedMembers old replacement ↔ old.lookup w = some m ∧
      ∀ current, replacement.lookup w = some current → current.logicalShardId ≠ m.logicalShardId := by
  simp only [removedMembers, mem_filter, mem_map, exists_entries]
  constructor
  · rintro ⟨⟨w', m', hl, heq⟩, hall⟩
    cases heq
    exact ⟨hl, fun current hc => by simpa [hc] using hall⟩
  · rintro ⟨hl, hall⟩
    refine ⟨⟨w, m, hl, rfl⟩, ?_⟩
    cases hr : replacement.lookup w with
    | none => rfl
    | some current => simpa using hall current hr

theorem mem_changedMembers : (w, m) ∈ changedMembers old replacement ↔
      replacement.lookup w = some m ∧ old.lookup w ≠ some m := by
  simp only [changedMembers, mem_filter, mem_map, exists_entries]
  constructor
  · rintro ⟨⟨w', m', hl, heq⟩, hne⟩
    cases heq
    exact ⟨hl, by simpa using hne⟩
  · rintro ⟨hl, hne⟩
    exact ⟨⟨w, m, hl, rfl⟩, by simpa using hne⟩

theorem mem_retiredKeys {removed changed : List (String × TrainerTensorsMetadata)} :
    key ∈ retiredKeys s v removed changed ↔ ((s.shards v).lookup key).isSome ∧
      ((∃ e ∈ removed, key = publicationKey e.1 e.2.logicalShardId) ∨
      ∃ e ∈ changed, key = publicationKey e.1 e.2.logicalShardId ∧
        s.endpoints v key ≠ some e.2.metadataEndpoint) := by
  simp only [retiredKeys, mem_append, mem_filter, mem_map, decide_eq_true_eq]
  constructor
  · rintro (⟨⟨e, he, rfl⟩, hsome⟩ | ⟨e, ⟨he, hsome, hne⟩, rfl⟩)
    · exact ⟨hsome, Or.inl ⟨e, he, rfl⟩⟩
    · exact ⟨hsome, Or.inr ⟨e, he, rfl, hne⟩⟩
  · rintro ⟨hsome, ⟨e, he, rfl⟩ | ⟨e, he, rfl, hne⟩⟩
    · exact Or.inl ⟨⟨e, he, rfl⟩, hsome⟩
    · exact Or.inr ⟨e, ⟨he, hsome, hne⟩, rfl⟩

theorem retired_iff (hp : (s.shards v).lookup key = some p)
    (hkey : key = publicationKey p.workerId p.logicalShardId)
    (hend : s.endpoints v key = some p.metadataEndpoint)
    (hold : old.lookup p.workerId = some ⟨p.logicalShardId, p.metadataEndpoint⟩) :
    key ∈ retiredKeys s v (removedMembers old replacement) (changedMembers old replacement) ↔
      replacement.lookup p.workerId ≠ some ⟨p.logicalShardId, p.metadataEndpoint⟩ := by
  rw [mem_retiredKeys]
  constructor
  · rintro ⟨-, ⟨⟨w, m⟩, he, hk⟩ | ⟨⟨w, m⟩, he, hk, hne⟩⟩ hnew
    · -- the worker was removed or re-sharded
      obtain ⟨rfl, hshard⟩ := publicationKey_inj (hkey.symm.trans hk)
      exact (mem_removedMembers.1 he).2 _ hnew hshard
    · -- the worker is new under this shard, or was re-addressed
      obtain ⟨rfl, hshard⟩ := publicationKey_inj (hkey.symm.trans hk)
      exact (mem_changedMembers.1 he).2 (hold.trans (hnew.symm.trans (mem_changedMembers.1 he).1))
  · intro hne
    refine ⟨by simp [hp], ?_⟩
    by_cases hshard : ∃ m, replacement.lookup p.workerId = some m ∧ m.logicalShardId = p.logicalShardId
    · obtain ⟨m, hm, hshard⟩ := hshard
      refine Or.inr ⟨(p.workerId, m), mem_changedMembers.2 ⟨hm, ?_⟩, by rw [hkey, hshard], ?_⟩
      · rw [hold, ← hm]
        exact hne.symm
      · intro heq
        have hep := Option.mem_unique hend heq
        rw [hm, ← hshard, hep] at hne
        exact hne rfl
    · refine Or.inl ⟨(p.workerId, ⟨p.logicalShardId, p.metadataEndpoint⟩), mem_removedMembers.2
        ⟨hold, fun current hc hs => hshard ⟨current, hc, hs⟩⟩, hkey⟩

end Retired

variable {v key : String} {p : WeightVersionShard} {w : World}

theorem Change.publicationsOk (hc : Change sha256 s e reply s') (hlinks : LinksOk s)
    (h : PublicationsOk s) : PublicationsOk s' where
  indexed := by
    intro v key hp
    rcases hc.publication_fate v key with ⟨hold, hend⟩ | ⟨-, hend, -⟩ | ⟨_, _, _, _, -, -, -, hnew, -⟩
    · exact hend.trans (h.indexed (hold.symm.trans hp))
    · exact hend
    · cases hnew.symm.trans hp
  published := by
    intro v key p hp
    rcases hc.publication_fate v key with ⟨hold, hend⟩ | ⟨hnone, -⟩ |
      ⟨_, version, mesh, pins, ha, rfl, rfl, hnew, hend, hm'⟩
    · replace hold := hold.symm.trans hp
      obtain ⟨hkey, hversion, hendpoint, version, mesh, hv, hmesh, hm, hmember⟩ := h.published hold
      refine ⟨hkey, hversion, hend.trans hendpoint, ?_⟩
      obtain ⟨state, hv'⟩ := hc.precedes v version hv
      obtain ⟨hlink, -⟩ := (hlinks.linked hv hmesh).resolve_right fun hd => by
        rw [hd.unpublished] at hold
        cases hold
      rcases hc.mesh_fate hm with ⟨pins, hm'⟩ | ⟨_, hu, hm'⟩ | ⟨-, -, hall⟩
      · exact ⟨_, _, hv', hmesh, hm', hmember⟩
      · refine ⟨_, _, hv', hmesh, hm', ?_⟩
        -- the update has kept it, so the worker is the same member
        by_contra hne
        have hret := (retired_iff hold hkey hendpoint hmember).2 hne
        rw [hu.shards, if_pos ⟨hlink, hret⟩] at hp
        cases hp
      · rw [(hall v hlink).unpublished] at hold
        cases hold
    · cases hnone.symm.trans hp
    · cases hnew.symm.trans hp
      have hmesh : version.trainerMeshId ≠ "" := fun hempty =>
        (hlinks.stored ha.stored).1 hempty ha.unstored
      obtain ⟨_, hv'⟩ := hc.precedes _ version ha.stored
      exact ⟨rfl, rfl, hend, _, _, hv', hmesh, hm', ha.member⟩

/-! ## The invariant -/

structure Invariant (w : World) : Prop where
  recent : w.Recent
  leases : LeasesOk w.store
  meshes : ∀ {id m}, w.store.meshes id = some m → MeshOk m
  links : LinksOk w.store
  publications : PublicationsOk w.store

theorem invariant_init : Invariant World.init where
  recent := by simp [World.Recent, World.init]
  leases := by constructor <;> intro _ _ h <;> cases h
  meshes := by intro _ _ h; cases h
  links := by constructor <;> intro _ _ h <;> cases h
  publications := ⟨(by intro _ _ _ h; cases h), fun _ => rfl⟩

theorem Invariant.change (h : Invariant w) (e : Event) :
    Change sha256 w.store e (w.call sha256 e).1 (w.next sha256 e).store :=
  World.call_change sha256 h.recent e

theorem Invariant.next (h : Invariant w) (e : Event) : Invariant (w.next sha256 e) := by
  have hc : Change sha256 w.store e _ _ := h.change e
  refine ⟨?_, hc.leasesOk h.leases, hc.meshOk h.meshes, hc.linksOk h.leases h.links,
    hc.publicationsOk h.links h.publications⟩
  intro p hp
  rcases mem_cons.1 hp with rfl | hp
  · exact hc.precedes
  · exact (h.recent p hp).trans hc.precedes

theorem invariant_run (sha256 : List UInt8 → List UInt8) (es : List Event) :
    Invariant (run sha256 es) :=
  Run.invariant invariant_init (fun _ e h => h.next e) es

end ModelExpress.Refit
