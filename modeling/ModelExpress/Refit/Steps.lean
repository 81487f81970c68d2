/-
  ModelExpress refit control plane — what one event can do.
-/
import ModelExpress.Refit.Calls

namespace ModelExpress.Refit

open Checks List Function Store

/-! ## Loops over the linked versions -/

/-- Only expired leases were dropped from the sorted sets. -/
structure Purged (s : Store) (leaseSet : String → SortedSet) : Prop where
  sub : ∀ {v m}, m ∈ leaseSet v → m ∈ s.leaseSet v
  kept : ∀ {v m}, s.now < m.2 → m ∈ s.leaseSet v → m ∈ leaseSet v

def Store.Unleased (s : Store) (v : String) : Prop := ∀ m ∈ s.leaseSet v, m.2 ≤ s.now

theorem Purged.refl (s : Store) : Purged s s.leaseSet := ⟨id, fun _ => id⟩

theorem purged_purgeLeases (s : Store) (v : String) : Purged s (s.purgeLeases v).leaseSet := by
  constructor
  · intro v' m hm
    rcases Assoc.of_update (P := (m ∈ ·)) hm with ⟨rfl, hm⟩ | ⟨-, hm⟩
    · exact (SortedSet.mem_purge.1 hm).1
    · exact hm
  · intro v' m hlt hm
    by_cases hv : v' = v
    · subst hv
      simp only [purgeLeases, update_self, SortedSet.mem_purge]
      exact ⟨hm, hlt⟩
    · simpa only [purgeLeases, update_of_ne hv] using hm

variable {s atMesh atBackend : Store}

theorem Purged.trans {s' : Store} {leaseSet : String → SortedSet} (h : Purged s s'.leaseSet)
    (hn : s'.now = s.now) (h' : Purged s' leaseSet) : Purged s leaseSet :=
  ⟨fun hm => h.sub (h'.sub hm), fun hlt hm => h'.kept (hn ▸ hlt) (h.kept hlt hm)⟩

variable {v meshId : String}

theorem unleased_of_purge (h : (s.purgeLeases v).leaseSet v = []) : s.Unleased v := by
  intro m hm
  by_contra hlt
  have hmem := (purged_purgeLeases s v).kept (by omega) hm
  rw [h] at hmem
  cases hmem

theorem Store.Unleased.of_purged {ls : String → SortedSet} (h : Purged s ls)
    (hu : Store.Unleased { s with leaseSet := ls } v) : s.Unleased v := by
  intro m hm
  by_contra hlt
  exact hlt (hu m (h.kept (by omega) hm))

theorem collectRetired_spec (removed changed : List (String × TrainerTensorsMetadata)) :
    ∀ (vs : List String) (s : Store), ∃ ls, (collectRetired removed changed vs s).2 =
        { s with leaseSet := ls } ∧ Purged s ls ∧
      ∀ retired, (collectRetired removed changed vs s).1 = some retired →
        (∀ v ∈ vs, s.Unleased v) ∧
        ∀ p, p ∈ retired ↔ p.1 ∈ vs ∧ p.2 ∈ retiredKeys s p.1 removed changed := by
  intro vs
  induction vs with
  | nil =>
    intro s
    refine ⟨s.leaseSet, rfl, .refl s, fun retired h => ?_⟩
    cases h
    simp
  | cons v vs ih =>
    intro s
    by_cases hv : (s.purgeLeases v).leaseSet v = []
    · obtain ⟨ls, hs, hp, hret⟩ := ih (s.purgeLeases v)
      refine ⟨ls, ?_, (purged_purgeLeases s v).trans rfl hp, fun retired h => ?_⟩
      · simp only [collectRetired, if_neg (not_not.2 hv), hs]
        rfl
      · simp only [collectRetired, if_neg (not_not.2 hv), Option.map_eq_some_iff] at h
        obtain ⟨rest, hrest, rfl⟩ := h
        obtain ⟨hfree, hmem⟩ := hret rest hrest
        refine ⟨?_, fun p => ?_⟩
        · intro v' hv'
          rcases mem_cons.1 hv' with rfl | hv'
          · exact unleased_of_purge hv
          · exact .of_purged (purged_purgeLeases s v) (hfree v' hv')
        · rw [mem_append, mem_map, hmem p, mem_cons]
          constructor
          · rintro (⟨key, hkey, rfl⟩ | ⟨hp, hkey⟩)
            · exact ⟨Or.inl rfl, hkey⟩
            · exact ⟨Or.inr hp, hkey⟩
          · rintro ⟨hp | hp, hkey⟩
            · exact Or.inl ⟨p.2, hp ▸ hkey, by rw [← hp]⟩
            · exact Or.inr ⟨hp, hkey⟩
    · refine ⟨(s.purgeLeases v).leaseSet, ?_, purged_purgeLeases s v, fun _ h => ?_⟩
      · simp only [collectRetired, if_pos hv]
        rfl
      · simp only [collectRetired, if_pos hv] at h
        cases h

/-- A version nothing is left of: releasing, without publications, without a lease in the future. -/
structure Store.Drained (s : Store) (v : String) : Prop where
  releasing : ∃ version, s.versions v = some version ∧ version.state = .releasing
  unpublished : ∀ key, (s.shards v).lookup key = none
  unleased : s.Unleased v

theorem checkRetired_spec : ∀ (vs : List String) (s : Store), ∃ ls, (checkRetired vs s).2 =
      { s with leaseSet := ls } ∧ Purged s ls ∧
    ((checkRetired vs s).1 = true → ∀ v ∈ vs, s.Drained v) := by
  intro vs
  induction vs with
  | nil =>
    intro s
    exact ⟨s.leaseSet, rfl, .refl s, by simp⟩
  | cons v vs ih =>
    intro s
    by_cases hv : (s.versions v).map (·.state) ≠ some .releasing ∨ (s.shards v).entries ≠ [] ∨
        (s.purgeLeases v).leaseSet v ≠ []
    · have hstop : checkRetired (v :: vs) s = (false, s.purgeLeases v) := if_pos hv
      refine ⟨(s.purgeLeases v).leaseSet, by rw [hstop]; rfl, purged_purgeLeases s v, fun h => ?_⟩
      rw [hstop] at h
      cases h
    · have hgo : checkRetired (v :: vs) s = checkRetired vs (s.purgeLeases v) := if_neg hv
      obtain ⟨ls, hs, hp, hall⟩ := ih (s.purgeLeases v)
      refine ⟨ls, by rw [hgo, hs]; rfl, (purged_purgeLeases s v).trans rfl hp, fun h => ?_⟩
      rw [hgo] at h
      push Not at hv
      obtain ⟨hstate, hshards, hleases⟩ := hv
      intro v' hv'
      rcases mem_cons.1 hv' with rfl | hv'
      · refine ⟨by simpa using hstate, fun key => ?_, unleased_of_purge hleases⟩
        rw [AList.lookup, hshards]
        rfl
      · obtain ⟨hrel, hpub, hun⟩ := hall h v' hv'
        exact ⟨hrel, hpub, .of_purged (purged_purgeLeases s v) hun⟩

/-! ## Dropped publications -/

section
variable (s : Store) (w k v key : String)

theorem lookup_dropPublication : ((s.dropPublication w k).shards v).lookup key =
    if (v, key) = (w, k) then none else (s.shards v).lookup key := by
  rcases eq_or_ne v w with rfl | hv <;> rcases eq_or_ne key k with rfl | hk <;>
    simp [dropPublication, AList.lookup_erase_ne, *]

theorem endpoints_dropPublication : (s.dropPublication w k).endpoints v key =
    if (v, key) = (w, k) then none else s.endpoints v key := by
  rcases eq_or_ne v w with rfl | hv <;> rcases eq_or_ne key k with rfl | hk <;> simp [dropPublication, *]

end

theorem dropPublications_spec (retired : List (String × String)) (s : Store) :
    ∃ shards endpoints, retired.foldl (fun s p => s.dropPublication p.1 p.2) s =
        { s with shards, endpoints } ∧
      (∀ v key, (shards v).lookup key =
        if (v, key) ∈ retired then none else (s.shards v).lookup key) ∧
      ∀ v key, endpoints v key = if (v, key) ∈ retired then none else s.endpoints v key := by
  induction retired generalizing s with
  | nil => exact ⟨s.shards, s.endpoints, rfl, by simp, by simp⟩
  | cons p retired ih =>
    obtain ⟨shards, endpoints, heq, hsh, hep⟩ := ih (s.dropPublication p.1 p.2)
    refine ⟨shards, endpoints, by rw [foldl_cons, heq]; rfl, fun v key => ?_, fun v key => ?_⟩
    · rw [hsh, lookup_dropPublication]
      by_cases hmem : (v, key) ∈ retired <;> by_cases hp : (v, key) = p <;> simp [hmem, hp]
    · rw [hep, endpoints_dropPublication]
      by_cases hmem : (v, key) ∈ retired <;> by_cases hp : (v, key) = p <;> simp [hmem, hp]

/-! ## Accepted publications -/

structure Accepted (modelName meshId : String) (shard : WeightVersionShard) (s : Store)
    (version : WeightVersion) (mesh : TrainerMesh) : Prop where
  stored : s.versions shard.versionId = some version
  worker : ∃ r, s.workers shard.workerId = some r ∧ r.modelName = modelName ∧ r.role = .trainer ∧
    r.refitEndpoint = shard.metadataEndpoint
  writable : version.state = .staging ∨ version.state = .ready
  unstored : version.s3Uri = ""
  standing : s.meshes meshId = some mesh
  stamped : version.trainerMeshGeneration ≠ 0
  generation : version.trainerMeshGeneration = mesh.generation
  member : mesh.workers.lookup shard.workerId = some ⟨shard.logicalShardId, shard.metadataEndpoint⟩
  repeated : ∀ p, (s.shards shard.versionId).lookup
    (publicationKey shard.workerId shard.logicalShardId) = some p → p = shard
  pinned : ∀ d, mesh.pins (publicationKey shard.workerId shard.logicalShardId) = some d →
    d = shard.stableMetadataDigest

variable {shard : WeightVersionShard} {version : WeightVersion} {request : CreateWeightVersionRequest} {w : World}

theorem checkShard_ok {modelName : String} {mesh : TrainerMesh}
    (h : checkShard modelName meshId shard s = .ok (version, mesh)) :
    Accepted modelName meshId shard s version mesh := by
  simp only [checkShard, bind_eq_ok, found_eq_ok, ensure_eq_ok, exists_const, pure_eq_ok] at h
  obtain ⟨_, hv, r, hw, hmodel, hstate, huri, _, hm, hzero, hgen, hrole, m, hl, hshard, hend,
    hrep, hpin, heq⟩ := h
  cases heq
  refine ⟨hv, ⟨r, hw, hmodel, hrole, hend.2⟩, hstate, huri, hm, hzero, hgen, ?_, ?_, ?_⟩
  · rw [hl, ← hshard, ← hend.1]
  · intro p hp
    simpa [hp] using hrep
  · intro d hd
    simpa [hd] using hpin

/-! ## Reads of the past -/

/-- Every version of the earlier keyspace is still there, and only its state may differ. -/
def Store.Precedes (p s : Store) : Prop :=
  ∀ v version, p.versions v = some version → ∃ state, s.versions v = some { version with state }

/-- The keyspaces of the past precede the present one. -/
def World.Recent (w : World) : Prop := ∀ p ∈ w.past, p.Precedes w.store

theorem Store.Precedes.refl (s : Store) : s.Precedes s := fun _ version h => ⟨version.state, h⟩

theorem Store.Precedes.trans {p q : Store} (h : p.Precedes q) (h' : q.Precedes s) : p.Precedes s := by
  intro v version hv
  obtain ⟨_, hq⟩ := h v version hv
  obtain ⟨state', hs⟩ := h' v _ hq
  exact ⟨state', hs⟩

theorem World.Recent.seen (h : w.Recent) (i : Instant) : (w.seen i).Precedes w.store := by
  unfold World.seen
  rw [getD_eq_getElem?_getD]
  cases hi : (w.store :: w.past)[i]? with
  | none => exact .refl _
  | some p =>
    rcases mem_cons.1 (mem_of_getElem? hi) with rfl | hp
    · exact .refl _
    · exact h p hp

/-! ## The changes -/

def CreateMeshArgs.mesh (a : CreateMeshArgs) : TrainerMesh where
  meshId := a.meshId
  modelName := a.modelName
  generation := 1
  logicalShards := a.logicalShards
  workers := a.workers
  initialWorkers := a.workers
  pins := fun _ => none

def TrainerMesh.replaced (mesh : TrainerMesh) (workers : Members) : TrainerMesh :=
  { mesh with workers, generation := mesh.generation + 1, pins := fun _ => none }

/-- The update of a membership deletes this publication. -/
def Retires (s : Store) (meshId : String) (old replacement : Members) (v key : String) : Prop :=
  v ∈ s.meshVersions meshId ∧
    key ∈ retiredKeys s v (removedMembers old replacement) (changedMembers old replacement)

instance (s : Store) (meshId : String) (old replacement : Members) (v key : String) :
    Decidable (Retires s meshId old replacement v key) := inferInstanceAs (Decidable (_ ∧ _))

/-- What an update of a mesh has checked, and what it deletes. -/
structure MeshUpdate (s : Store) (meshId : String) (mesh : TrainerMesh) (workers : Members)
    (shards : String → Publications) (endpoints : String → String → Option String)
    (leaseSet : String → SortedSet) : Prop where
  standing : s.meshes meshId = some mesh
  coverage : ∀ shardId, shardId ∈ workers.shardIds ↔ shardId ∈ mesh.workers.shardIds
  unleased : ∀ v ∈ s.meshVersions meshId, s.Unleased v
  shards : ∀ v key, (shards v).lookup key =
    if Retires s meshId mesh.workers workers v key then none else (s.shards v).lookup key
  endpoints : ∀ v key, endpoints v key =
    if Retires s meshId mesh.workers workers v key then none else s.endpoints v key
  purged : Purged s leaseSet

/-- The transitions `update_weight_version_state.lua` makes. -/
def Advances (version : WeightVersion) (target : WeightVersionState) : Prop :=
  (version.state = .staging ∧ target = .ready ∧ version.s3Uri ≠ "") ∨
  ((version.state = .staging ∨ version.state = .ready) ∧ target = .releasing)

def stateAfter (s : Store) (shard : WeightVersionShard) (version : WeightVersion) (mesh : TrainerMesh) :
    WeightVersionState :=
  if countCovered (s.publish version.trainerMeshId mesh shard) shard.versionId version.modelName
    mesh.workers = mesh.logicalShards.length then .ready else version.state

def Leaseable (s : Store) (version : WeightVersion) (versionId leaseId workerId : String) : Prop :=
  (s.lease (leaseKey versionId leaseId) = none ∧ version.state = .ready) ∨
  ∃ l, s.lease (leaseKey versionId leaseId) = some l ∧ l.leaseId = leaseId ∧
    l.versionId = versionId ∧ l.workerId = workerId ∧
    (version.state = .ready ∨ version.state = .releasing)

def Event.Rereads : Event → Prop
  | .createTrainerMesh .. | .updateTrainerMesh .. | .createWeightVersion ..
  | .updateWeightVersionState .. | .deleteWeightVersion .. => True
  | _ => False

/-- The calls that move a version by `update_weight_version_state.lua`. -/
def Event.Moves (v : String) : Event → Prop
  | .updateWeightVersionState request _ => request.uid = v
  | .deleteWeightVersion uid => uid = v
  | _ => False

theorem Event.Moves.rereads {e : Event} (h : e.Moves v) : e.Rereads := by
  cases e with
  | updateWeightVersionState | deleteWeightVersion => trivial
  | _ => cases h

variable (sha256 : List UInt8 → List UInt8) (s : Store) in
inductive Change : Event → Reply → Store → Prop
  | refused {e} (status : Status) : Change e (.refused status) s
  | purged {e} (status : Status) (leaseSet : String → SortedSet) (hp : Purged s leaseSet) :
      Change e (.refused status) { s with leaseSet }
  | answered {e reply} (he : e.Rereads) : Change e reply s
  | tick (elapsed : ℕ) :
      Change (.tick elapsed) .environment { s with now := s.now + elapsed }
  | expired (workerId : String) : Change (.expireWorker workerId) .environment
      { s with workers := update s.workers workerId none }
  | unordered (meshId : String) (versionIds : List String) :
      Change (.reorder meshId versionIds) .environment s
  | reordered (meshId : String) (versionIds : List String)
      (hp : versionIds.Perm (s.meshVersions meshId)) :
      Change (.reorder meshId versionIds) .environment
        { s with meshVersions := update s.meshVersions meshId versionIds }
  | registered (request : RegisterWorkerRequest) (r : Registration) (expiresAt : ℕ) :
      Change (.registerWorker request) (.worker expiresAt)
        { s with workers := update s.workers r.workerId (some r) }
  | meshCreated {atFind atWorkers bindings drawn reply} (request : CreateTrainerMeshRequest)
      (meshId : String) (hfree : s.meshes meshId = none) :
      Change (.createTrainerMesh request atFind atWorkers bindings drawn) reply
        { s with
          meshes := update s.meshes meshId (some (createMeshArgs request meshId).mesh)
          meshRequests := update s.meshRequests
            (meshIdempotencyKey request.modelName request.idempotencyKey) (some meshId) }
  | meshUpdated {atMesh atWorkers atBackend bindings reply shards endpoints leaseSet}
      (request : UpdateTrainerMeshRequest) (mesh : TrainerMesh)
      (h : MeshUpdate s request.meshId mesh request.workers shards endpoints leaseSet) :
      Change (.updateTrainerMesh request atMesh atWorkers atBackend bindings) reply
        { s with
          meshes := update s.meshes request.meshId (some (mesh.replaced request.workers))
          shards, endpoints, leaseSet }
  | meshDeleted (meshId : String) (leaseSet : String → SortedSet) (hp : Purged s leaseSet)
      (hall : ∀ v ∈ s.meshVersions meshId, s.Drained v) :
      Change (.deleteTrainerMesh meshId) .meshDeleted
        { s with
          meshes := update s.meshes meshId none
          meshVersions := update s.meshVersions meshId []
          leaseSet }
  | versionCreated {atBase drawn reply} (request : CreateWeightVersionRequest) (uid : String)
      (generation : ℕ)
      (hback : Backed request) (hfree : s.versions uid = none)
      (hgen : meshGeneration s (createVersionArgs request uid) = .ok generation) :
      Change (.createWeightVersion request atBase drawn) reply
        { s with
          versions := update s.versions uid
            (some ((createVersionArgs request uid).version generation))
          meshVersions := if (createVersionArgs request uid).trainerMeshId = "" then s.meshVersions else
            update s.meshVersions (createVersionArgs request uid).trainerMeshId
              ((s.meshVersions (createVersionArgs request uid).trainerMeshId).insert uid)
          versionRequests := update s.versionRequests
            (idempotencyKey request.modelName request.idempotencyKey) (some uid) }
  | advanced {e reply} (v : String) (version : WeightVersion) (target : WeightVersionState)
      (he : e.Moves v) (hv : s.versions v = some version) (ha : Advances version target) :
      Change e reply (s.setState v version target)
  | published {atVersion} (shard : WeightVersionShard) (version : WeightVersion) (mesh : TrainerMesh)
      (ha : Accepted version.modelName version.trainerMeshId shard s version mesh) :
      Change (.createWeightVersionShard (some shard) atVersion)
        (.shard shard { version with state := stateAfter s shard version mesh })
        ((s.publish version.trainerMeshId mesh shard).setState shard.versionId version
          (stateAfter s shard version mesh))
  | dropped {atShard leaseSet} (request : DeleteWeightVersionShardRequest) (hp : Purged s leaseSet)
      (hu : s.Unleased request.versionId) :
      Change (.deleteWeightVersionShard request atShard) (.deleted true)
        (Store.dropPublication { s with leaseSet } request.versionId
          (publicationKey request.workerId request.logicalShardId))
  | leased {atVersion reply} (request : RegisterVersionLeaseRequest) (version : WeightVersion)
      (hv : s.versions request.versionId = some version)
      (hl : Leaseable s version request.versionId
        (leaseId sha256 request.versionId request.workerId) request.workerId) :
      Change (.registerVersionLease request atVersion) reply
        (s.putLease ⟨leaseId sha256 request.versionId request.workerId, request.versionId,
          request.workerId, s.now + request.ttlSeconds.toNat * 1000⟩)
  | forgotten (request : DeleteVersionLeaseRequest)
      (hnone : s.lease (leaseKey request.versionId request.leaseId) = none) :
      Change (.deleteVersionLease request) (.deleted false)
        { s with
          leaseSet := update s.leaseSet request.versionId
            ((s.leaseSet request.versionId).zrem request.leaseId) }
  | released (request : DeleteVersionLeaseRequest) (l : VersionLease)
      (hl : s.lease (leaseKey request.versionId request.leaseId) = some l)
      (hid : l.leaseId = request.leaseId) (hv : l.versionId = request.versionId) :
      Change (.deleteVersionLease request) (.deleted true)
        { s with
          leases := update s.leases (leaseKey request.versionId request.leaseId) none
          leaseSet := update s.leaseSet request.versionId
            ((s.leaseSet request.versionId).zrem request.leaseId) }

/-- A call that gives this reply and this keyspace. -/
abbrev Changes (sha256 : List UInt8 → List UInt8) (s : Store) (e : Event) (r : Reply × Store) : Prop :=
  Change sha256 s e r.1 r.2

/-! ## Every event is one of the changes -/

section
variable {sha256 : List UInt8 → List UInt8} {s : Store} {e : Event}

theorem Change.ofPrepared {α : Type} {x : Except Status α} {call : α → Reply × Store}
    (h : ∀ a, x = .ok a → Changes sha256 s e (call a)) : Changes sha256 s e (prepared x s call) := by
  cases hx : x with
  | error status => exact .refused status
  | ok a => exact h a hx

theorem registerWorker_change (request : RegisterWorkerRequest) :
    Changes sha256 s (.registerWorker request) (registerWorker request s) := by
  refine .ofPrepared fun worker _ => ?_
  unfold registerWorkerScript
  split
  next h =>
    dsimp only at h
    split_ifs at h <;> cases h
    exact .refused _
  next h =>
    dsimp only at h
    split_ifs at h <;> cases h
    exact .registered request ⟨worker.workerId, .ofCode worker.role, worker.modelName,
      worker.refitEndpoint⟩ _

theorem createTrainerMeshScript_cases (a : CreateMeshArgs) (s : Store) :
    (∃ o, createTrainerMeshScript a s = (o, s)) ∨ s.meshes a.meshId = none ∧
      createTrainerMeshScript a s = (.created, { s with
        meshes := update s.meshes a.meshId (some a.mesh)
        meshRequests := update s.meshRequests a.requestKey (some a.meshId) }) := by
  fun_cases createTrainerMeshScript a s
  case case4 hfree _ => exact Or.inr ⟨by simpa using hfree, rfl⟩
  all_goals exact Or.inl ⟨_, rfl⟩

variable {bindings : Except Status Unit} {drawn : List String}

theorem createMeshAttempts_change {request : CreateTrainerMeshRequest} {atFind atWorkers : Instant}
    (meshIds : List String) : Changes sha256 s (.createTrainerMesh request atFind atWorkers bindings drawn)
      (createMeshAttempts request meshIds s) := by
  induction meshIds with
  | nil => exact .refused _
  | cons meshId _ ih =>
    unfold createMeshAttempts
    rcases createTrainerMeshScript_cases (createMeshArgs request meshId) s with ⟨o, ho⟩ | ⟨hfree, ho⟩
    · rw [ho]
      cases o with
      | existing => exact .answered trivial
      | collision => exact ih
      | refused => exact .refused _
      | created => exact .answered trivial
    · rw [ho]
      exact .meshCreated request meshId hfree

variable {i : Instant} {atWorkers : Store}

theorem createTrainerMesh_change {request : CreateTrainerMeshRequest} {j : Instant} {atFind : Store} :
    Changes sha256 s (.createTrainerMesh request i j bindings drawn)
      (createTrainerMesh request atFind atWorkers bindings drawn s) := by
  refine .ofPrepared fun found _ => ?_
  cases found with
  | some => exact .answered trivial
  | none => exact createMeshAttempts_change _

theorem covers_iff {old replacement : Members} (h : covers old replacement = true) (shardId : String) :
    shardId ∈ replacement.shardIds ↔ shardId ∈ old.shardIds := by
  simp only [covers, Bool.and_eq_true, all_eq_true, decide_eq_true_eq] at h
  exact ⟨h.1 shardId, h.2 shardId⟩

theorem updateTrainerMeshScript_cases (a : UpdateMeshArgs) (s : Store) :
    (∃ o, o ≠ .updated ∧ o ≠ .versionLeased ∧ updateTrainerMeshScript a s = (o, s)) ∨
    (∃ leaseSet, Purged s leaseSet ∧
      updateTrainerMeshScript a s = (.versionLeased, { s with leaseSet })) ∨
    ∃ mesh shards endpoints leaseSet,
      MeshUpdate s a.meshId mesh a.workers shards endpoints leaseSet ∧
      updateTrainerMeshScript a s = (.updated, { s with
        meshes := update s.meshes a.meshId (some (mesh.replaced a.workers))
        shards, endpoints, leaseSet }) := by
  have hspec := fun mesh : TrainerMesh => collectRetired_spec (removedMembers mesh.workers a.workers)
    (changedMembers mesh.workers a.workers) (s.meshVersions a.meshId) s
  fun_cases updateTrainerMeshScript a s
  case case6 mesh _ _ _ _ _ s' hc =>
    obtain ⟨ls, hs, hp, -⟩ := hspec mesh
    rw [hc] at hs
    cases hs
    exact Or.inr (Or.inl ⟨ls, hp, rfl⟩)
  case case7 mesh hmesh hcov hgen _ _ retired s₁ hc s' =>
    obtain ⟨ls, hs, hp, hret⟩ := hspec mesh
    rw [hc] at hs hret
    cases hs
    obtain ⟨hfree, hmem⟩ := hret retired rfl
    obtain ⟨shards, endpoints, heq, hsh, hep⟩ := dropPublications_spec retired { s with leaseSet := ls }
    refine Or.inr (Or.inr ⟨mesh, shards, endpoints, ls, ⟨hmesh, covers_iff (not_not.1 hcov), hfree, ?_, ?_, hp⟩, ?_⟩)
    · intro v key
      rw [hsh]
      exact if_congr (hmem (v, key)) rfl rfl
    · intro v key
      rw [hep]
      exact if_congr (hmem (v, key)) rfl rfl
    · rw [TrainerMesh.replaced, not_not.1 hgen, show s' = _ from heq]
  all_goals exact Or.inl ⟨_, by simp, by simp, rfl⟩

theorem updateTrainerMesh_change {request : UpdateTrainerMeshRequest} {j k : Instant} :
    Changes sha256 s (.updateTrainerMesh request i j k bindings)
      (updateTrainerMesh request atMesh atWorkers atBackend bindings s) := by
  refine .ofPrepared fun a ha => ?_
  rcases updateTrainerMeshScript_cases a s with ⟨o, -, -, ho⟩ | ⟨ls, hp, ho⟩ | ⟨mesh, sh, ep, ls, hu, ho⟩
  · simp only [ho]
    exact .answered trivial
  · simp only [ho]
    exact .purged _ ls hp
  · simp only [ho]
    simp only [prepareUpdateMesh, bind_eq_ok] at ha
    obtain ⟨-, -, _, -, -, -, -, -, -, -, _, -, -, -, ha⟩ := ha
    cases ha
    exact .meshUpdated request mesh hu

theorem deleteTrainerMesh_change (meshId : String) :
    Changes sha256 s (.deleteTrainerMesh meshId) (deleteTrainerMesh meshId s) := by
  refine .ofPrepared fun _ _ => ?_
  obtain ⟨ls, hs, hp, hall⟩ := checkRetired_spec (s.meshVersions meshId) s
  fun_cases deleteTrainerMeshScript meshId s
  case case1 => exact .refused _
  case case2 _ _ s' hc =>
    rw [hc] at hs
    cases hs
    exact .purged _ ls hp
  case case3 _ _ s' hc =>
    rw [hc] at hs hall
    cases hs
    exact .meshDeleted meshId ls hp (hall rfl)

/-! ### Versions -/

theorem createWeightVersionScript_cases (a : CreateVersionArgs) (s : Store) :
    (∃ o, createWeightVersionScript a s = (o, s)) ∨
    ∃ generation, s.versions a.uid = none ∧ meshGeneration s a = .ok generation ∧
      createWeightVersionScript a s = (.created, { s with
        versions := update s.versions a.uid (some (a.version generation))
        meshVersions := if a.trainerMeshId = "" then s.meshVersions else
          update s.meshVersions a.trainerMeshId
            ((s.meshVersions a.trainerMeshId).insert a.uid)
        versionRequests := update s.versionRequests
          (idempotencyKey a.modelName a.idempotencyKey) (some a.uid) }) := by
  fun_cases createWeightVersionScript a s
  case case4 hfree generation hgen => exact Or.inr ⟨generation, by simpa using hfree, hgen, rfl⟩
  all_goals exact Or.inl ⟨_, rfl⟩

theorem createVersionAttempts_change {atBase : Instant} (hback : Backed request) (uids : List String) :
    Changes sha256 s (.createWeightVersion request atBase drawn) (createVersionAttempts request uids s) := by
  induction uids with
  | nil => exact .refused _
  | cons uid uids ih =>
    unfold createVersionAttempts
    rcases createWeightVersionScript_cases (createVersionArgs request uid) s with
      ⟨o, ho⟩ | ⟨generation, hfree, hgen, ho⟩
    · rw [ho]
      cases o with
      | existing => exact .answered trivial
      | collision =>
        by_cases hu : request.uid.isSome
        · simp only [if_pos hu]
          exact .refused _
        · simp only [if_neg hu]
          exact ih
      | meshNotFound | meshModelMismatch | meshGenerationMissing => exact .refused _
      | created => exact .answered trivial
    · rw [ho]
      exact .versionCreated request uid generation hback hfree hgen

theorem createWeightVersion_change {atBase : Store} : Changes sha256 s (.createWeightVersion request i drawn)
      (createWeightVersion request atBase drawn s) := by
  refine .ofPrepared fun _ hok => ?_
  simp only [prepareCreateVersion, bind_eq_ok] at hok
  obtain ⟨_, hvalid, -⟩ := hok
  exact createVersionAttempts_change (validateCreateVersion_ok hvalid) _

theorem transition_change {target : WeightVersionState} (he : e.Moves v) :
    Changes sha256 s e (transitionWeightVersionState v target s) := by
  unfold transitionWeightVersionState
  fun_cases updateWeightVersionStateScript v target s
  case case2 => exact .answered he.rereads
  case case4 version hv _ _ _ hbad => exact .advanced v version target he hv (by rw [Advances]; tauto)
  all_goals exact .refused _

/-! ### Publications -/

theorem getWeightVersion_eq_ok : getWeightVersion s v = .ok version ↔ s.versions v = some version := by
  unfold getWeightVersion
  cases s.versions v <;> simp

variable {atVersion : Store} {request : Option WeightVersionShard}

theorem prepareCreateShard_ok {read : WeightVersion} (h : prepareCreateShard request atVersion = .ok (shard, read)) :
    request = some shard ∧ atVersion.versions shard.versionId = some read := by
  simp only [prepareCreateShard, bind_eq_ok, fromBackend, mapError_eq_ok, getWeightVersion_eq_ok] at h
  obtain ⟨_, hvalid, _, hread, heq⟩ := h
  cases heq
  refine ⟨?_, hread⟩
  cases request with
  | none => cases hvalid
  | some =>
    simp only [validateCreateShard, bind_eq_ok] at hvalid
    obtain ⟨-, -, -, -, -, -, -, -, -, -, heq⟩ := hvalid
    cases heq
    rfl

theorem createWeightVersionShard_change (hp : atVersion.Precedes s) :
    Changes sha256 s (.createWeightVersionShard request i) (createWeightVersionShard request atVersion s) := by
  refine .ofPrepared fun (shard, read) hok => ?_
  obtain ⟨rfl, hread⟩ := prepareCreateShard_ok hok
  unfold createWeightVersionShardScript
  dsimp only
  cases hc : checkShard read.modelName read.trainerMeshId shard s with
  | error => exact .refused _
  | ok accepted =>
    obtain ⟨version, mesh⟩ := accepted
    have ha := checkShard_ok hc
    -- the version read earlier differs from the one found now by its state only
    obtain ⟨state, hnow⟩ := hp _ _ hread
    obtain rfl : version = { read with state } := Option.mem_unique ha.stored hnow
    have hch : Change sha256 s (.createWeightVersionShard (some shard) i) _ _ :=
      .published shard { read with state } mesh ha
    unfold stateAfter at hch
    dsimp only at hch ⊢
    split_ifs at hch ⊢ with hcov
    · exact hch
    · have hself : update s.versions shard.versionId (some { read with state }) = s.versions := by
        rw [← ha.stored, update_eq_self]
      simpa only [Store.setState, Store.publish, hself] using hch

theorem deleteWeightVersionShard_change {request : DeleteWeightVersionShardRequest}
    {atShard : Store} : Changes sha256 s (.deleteWeightVersionShard request i)
      (deleteWeightVersionShard request atShard s) := by
  refine .ofPrepared fun encoded _ => ?_
  fun_cases deleteWeightVersionShardScript request.versionId request.workerId
    (publicationKey request.workerId request.logicalShardId) encoded s
  case case5 => exact .purged _ _ (purged_purgeLeases s _)
  case case6 hlease => exact .dropped request (purged_purgeLeases s _) (unleased_of_purge (not_not.1 hlease))
  all_goals exact .refused _

/-! ### Leases -/

theorem registerVersionLeaseScript_cases (a : RegisterLeaseArgs) (s : Store) :
    (∃ o, (∀ n, o ≠ .ok n) ∧ registerVersionLeaseScript a s = (o, s)) ∨
    ∃ version, s.versions a.versionId = some version ∧
      Leaseable s version a.versionId a.leaseId a.workerId ∧
      registerVersionLeaseScript a s = (.ok (s.now + a.ttl),
        s.putLease ⟨a.leaseId, a.versionId, a.workerId, s.now + a.ttl⟩) := by
  fun_cases registerVersionLeaseScript a s
  case case5 version r _ hv _ _ refusal o ho =>
    refine Or.inl ⟨o, ?_, rfl⟩
    rintro n rfl
    simp only [refusal] at ho
    split at ho <;> split_ifs at ho <;> cases ho
  case case6 version r _ hv _ _ refusal ho =>
    refine Or.inr ⟨version, hv, ?_, rfl⟩
    cases hl : s.lease (leaseKey a.versionId a.leaseId) with
    | none =>
      simp only [refusal, hl] at ho
      split_ifs at ho with hready
      exact Or.inl ⟨hl, not_not.1 hready⟩
    | some l =>
      simp only [refusal, hl] at ho
      split_ifs at ho with hsame hstate
      obtain ⟨hid, hversion, hworker⟩ := hsame
      exact Or.inr ⟨l, hl, hid, hversion, hworker, or_iff_not_and_not.2 hstate⟩
  all_goals exact Or.inl ⟨_, by simp, rfl⟩

theorem registerVersionLease_change {request : RegisterVersionLeaseRequest}
    : Changes sha256 s (.registerVersionLease request i) (registerVersionLease sha256 request atVersion s) := by
  refine .ofPrepared fun _ _ => ?_
  rcases registerVersionLeaseScript_cases ⟨leaseId sha256 request.versionId request.workerId,
    request.versionId, request.workerId, request.ttlSeconds.toNat * 1000⟩ s with
    ⟨o, hne, ho⟩ | ⟨version, hv, hl, ho⟩
  · simp only [ho]
    cases o with
    | ok n => exact absurd rfl (hne n)
    | _ => exact .refused _
  · simp only [ho]
    exact .leased request version hv hl

theorem deleteVersionLease_change (request : DeleteVersionLeaseRequest) :
    Changes sha256 s (.deleteVersionLease request) (deleteVersionLease request s) := by
  refine .ofPrepared fun _ _ => ?_
  fun_cases deleteVersionLeaseScript request.leaseId request.versionId request.workerId s
  case case1 _ hl => exact .forgotten request hl
  case case2 => exact .refused _
  case case3 _ l hl hsame => exact .released request l hl (not_not.1 hsame).1 (not_not.1 hsame).2.1

end

/-- **Everything one event can do to a keyspace whose past precedes it.** -/
theorem World.call_change (sha256 : List UInt8 → List UInt8) (hw : w.Recent) (e : Event) :
    Change sha256 w.store e (w.call sha256 e).1 (w.call sha256 e).2 := by
  cases e with
  | tick elapsed => exact .tick elapsed
  | expireWorker workerId => exact .expired workerId
  | reorder meshId versionIds =>
    by_cases hp : versionIds.Perm (w.store.meshVersions meshId)
    · rw [show w.call sha256 (.reorder meshId versionIds) = _ from if_pos hp]
      exact .reordered meshId versionIds hp
    · rw [show w.call sha256 (.reorder meshId versionIds) = _ from if_neg hp]
      exact .unordered meshId versionIds
  | registerWorker request => exact registerWorker_change request
  | createTrainerMesh => exact createTrainerMesh_change
  | updateTrainerMesh => exact updateTrainerMesh_change
  | deleteTrainerMesh meshId => exact deleteTrainerMesh_change meshId
  | createWeightVersion => exact createWeightVersion_change
  | updateWeightVersionState | deleteWeightVersion => exact .ofPrepared fun _ _ => transition_change rfl
  | createWeightVersionShard _ i => exact createWeightVersionShard_change (hw.seen i)
  | deleteWeightVersionShard => exact deleteWeightVersionShard_change
  | registerVersionLease => exact registerVersionLease_change
  | deleteVersionLease request => exact deleteVersionLease_change request

end ModelExpress.Refit
