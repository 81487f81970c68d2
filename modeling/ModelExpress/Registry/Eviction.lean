/-
  ModelExpress server — cache eviction (`cache.rs`), on the Redis registry.

  A cycle lists the records, selects `DOWNLOADED` ones and evicts them one by one, in steps
  between which requests and download tasks go on.
-/
import ModelExpress.Registry.EntryKey
import ModelExpress.Registry.SingleFlight

namespace ModelExpress.Registry

open Run List Option

/-! ## Selection -/

inductive EvictionReason where
  | timeThreshold
  | countLimit
  deriving DecidableEq

structure EvictionCandidate where
  modelName : String
  reason : EvictionReason
  deriving DecidableEq

/-- `LruConfig`; the threshold in nanoseconds. -/
structure LruConfig where
  unusedThreshold : ℤ
  maxModels : Option ℕ
  deriving DecidableEq

def Evicting.minInstant : ℤ := -8334601228800 * 1000000000

/-- From the earliest instant of the library to the latest. -/
def utcSpan : ℤ := 16544868105600 * 1000000000 - 1

/-- The instants from `minUtc`, the earliest of the library, on. -/
def IsInstant (minUtc t : ℤ) : Prop := minUtc ≤ t ∧ t ≤ minUtc + utcSpan

instance (minUtc t : ℤ) : Decidable (IsInstant minUtc t) := inferInstanceAs (Decidable (_ ∧ _))

/-- `is_time_expired`. -/
def isTimeExpired (minUtc : ℤ) (now : ℕ) (threshold : ℤ) (model : ModelRecord) : Bool :=
  let cutoffTime : ℤ := if IsInstant minUtc (now - threshold) then now - threshold else now
  model.lastUsedAt < cutoffTime

def pushCountLimit (candidates : List EvictionCandidate) (model : ModelRecord) : List EvictionCandidate :=
  if candidates.any (·.modelName = model.modelName) then candidates
  else candidates ++ [⟨model.modelName, .countLimit⟩]

def selectForEviction (minUtc : ℤ) (now : ℕ) (config : LruConfig) (models : List ModelRecord) : List EvictionCandidate :=
  let downloadedModels := models.filter (·.status = .downloaded)
  let expired := (downloadedModels.filter (isTimeExpired minUtc now config.unusedThreshold)).map
    fun model => ⟨model.modelName, .timeThreshold⟩
  match config.maxModels with
  | none => expired
  | some maxModels =>
    let sortedModels := downloadedModels.insertionSort fun a b => a.lastUsedAt ≤ b.lastUsedAt
    (sortedModels.take (downloadedModels.length - maxModels)).foldl pushCountLimit expired

section
variable {candidates : List EvictionCandidate} {sorted downloaded : List ModelRecord} {expired : ModelRecord → Bool}

theorem filter_eq_take (h : sorted.Pairwise fun a b => expired b = true → expired a = true) :
    sorted.filter expired = sorted.take (sorted.countP expired) := by
  induction h with
  | nil => rfl
  | @cons m ms hm _ ih =>
    by_cases hexpired : expired m = true
    · simp [hexpired, ih]
    · have hnone : ∀ x ∈ ms, ¬ expired x = true := fun x hx hx' => hexpired (hm x hx hx')
      simp [hexpired, filter_eq_nil_iff.2 hnone, countP_eq_zero.2 hnone]

/-- What a selection out of the downloaded records has to be. -/
structure LeastRecent (expired : ModelRecord → Bool) (maxModels : Option ℕ) (models : List ModelRecord)
    (names : List String) : Prop where
  nodup : names.Nodup
  listed : ∀ name ∈ names, ∃ m ∈ models, m.modelName = name
  recent : ∀ m ∈ models, m.modelName ∉ names → ∀ m' ∈ models, m'.modelName ∈ names → m'.lastUsedAt ≤ m.lastUsedAt
  aged : ∀ m ∈ models, expired m = true → m.modelName ∈ names
  limit : ∀ limit ∈ maxModels, (models.filter (·.modelName ∉ names)).length ≤ limit
  least : names.length ≤ max (models.countP expired) (maxModels.elim 0 (models.length - ·))

/-- The two rules together take the front of the sorted records. -/
theorem LeastRecent.select {maxModels : Option ℕ} {names : List String} (hperm : sorted.Perm downloaded)
    (hsorted : sorted.Pairwise fun a b => a.lastUsedAt ≤ b.lastUsedAt)
    (hexpired : ∀ a b, a.lastUsedAt ≤ b.lastUsedAt → expired b = true → expired a = true)
    (hnodup : (downloaded.map (·.modelName)).Nodup) (hnames : names.Nodup)
    (hmem : ∀ name, name ∈ names ↔ name ∈ (downloaded.filter expired).map (·.modelName) ∨
      name ∈ (sorted.take (maxModels.elim 0 (downloaded.length - ·))).map (·.modelName)) :
    LeastRecent expired maxModels downloaded names := by
  obtain ⟨n, hn⟩ : ∃ n, n = max (downloaded.countP expired) (maxModels.elim 0 (downloaded.length - ·)) := ⟨_, rfl⟩
  have hfront : ∀ name, name ∈ names ↔ name ∈ (sorted.take n).map (·.modelName) := by
    intro name
    rw [hmem, ← ((hperm.filter expired).map _).mem_iff, filter_eq_take (hsorted.imp (hexpired _ _)), hperm.countP_eq, hn]
    -- one of the two is the front of the other
    rcases le_total (downloaded.countP expired) (maxModels.elim 0 (downloaded.length - ·)) with hle | hle
    · rw [max_eq_right hle]
      exact or_iff_right_of_imp fun h => map_subset _ (take_subset_take_left _ hle) h
    · rw [max_eq_left hle]
      exact or_iff_left_of_imp fun h => map_subset _ (take_subset_take_left _ hle) h
  have hdrop : ∀ m ∈ downloaded, m.modelName ∉ names → m ∈ sorted.drop n := by
    intro m hm hname
    rw [← hperm.mem_iff, ← take_append_drop n sorted, mem_append] at hm
    exact hm.resolve_left fun h => hname ((hfront _).2 (mem_map_of_mem h))
  refine ⟨hnames, ?_, ?_, ?_, ?_, ?_⟩
  · intro name hname
    obtain ⟨m, hm, rfl⟩ := mem_map.1 ((hfront _).1 hname)
    exact ⟨m, hperm.mem_iff.1 (mem_of_mem_take hm), rfl⟩
  · intro m hm hname m' hm' hname'
    obtain ⟨x, hx, hxname⟩ := mem_map.1 ((hfront _).1 hname')
    obtain rfl := inj_on_of_nodup_map hnodup (hperm.mem_iff.1 (mem_of_mem_take hx)) hm' hxname
    rw [← take_append_drop n sorted, pairwise_append] at hsorted
    exact hsorted.2.2 x hx m (hdrop m hm hname)
  · intro m hm hold
    exact (hmem _).2 (Or.inl (mem_map_of_mem (mem_filter.2 ⟨hm, hold⟩)))
  · intro _ hlimit
    have hlength : (downloaded.filter (·.modelName ∉ names)).length ≤ (sorted.drop n).length := by
      refine (subperm_of_subset (hnodup.of_map.filter _) fun m hm => ?_).length_le
      rw [mem_filter, decide_eq_true_eq] at hm
      exact hdrop m hm.1 hm.2
    rw [length_drop, hperm.length_eq, hn, mem_def.1 hlimit, elim_some] at hlength
    omega
  · have hlength := (subperm_of_subset hnames fun name hname => (hfront name).1 hname).length_le
    rw [length_map] at hlength
    exact hn ▸ hlength.trans (length_take_le _ _)

end

/-- The entries of the same model and tenant that outlive this one. -/
def survivors (entryKey : String) (siblings : List ModelRecord) : List EntryKey :=
  ((siblings.filter (·.modelName ≠ entryKey)).map fun sibling => EntryKey.parse sibling.modelName).filter fun other =>
    other.modelName = (EntryKey.parse entryKey).modelName ∧ other.tenant = (EntryKey.parse entryKey).tenant

def snapshotStillReferenced (key : EntryKey) (survivors : List EntryKey) : Bool :=
  survivors.any fun other => other.revision = key.revision || other.revision.isNone || key.revision.isNone

/-- `delete_revision` of `evict_model`: the whole model, nothing, or one revision. -/
def deleteRevision (entryKey : String) (siblings : List ModelRecord) : Option (Option String) :=
  if survivors entryKey siblings = [] then some none
  else if snapshotStillReferenced (EntryKey.parse entryKey) (survivors entryKey siblings) then none
  else some (EntryKey.parse entryKey).revision

/-! ## The cycle -/

/-- Where the cycle goes on; `pending` are the candidates after the one at hand. -/
inductive Cycle where
  | listing
  /-- `evict_model` of the next candidate: `get_model_record`. -/
  | looking (pending : List String)
  /-- The record is there: the second `get_models_by_last_used`. -/
  | comparing (entryKey : String) (provider : ModelProvider) (pending : List String)
  /-- The provider deletes the files of a revision, if it has to. -/
  | deletingFiles (entryKey : String) (provider : ModelProvider) (revision : Option (Option String)) (pending : List String)
  | deletingRecord (entryKey : String) (pending : List String)
  deriving DecidableEq

/-- The candidates that are not settled. -/
def Cycle.candidates : Cycle → List String
  | listing => []
  | looking pending => pending
  | comparing entryKey _ pending | deletingFiles entryKey _ _ pending | deletingRecord entryKey pending =>
    entryKey :: pending

structure Evicting where
  servers : Servers
  cycle : Cycle

inductive EvictingEvent where
  | server (e : ServerEvent)
  /-- The cycle goes on.  `keys` is what `SCAN` returns, if the step lists; `link` is what becomes of its registry call or
      of the deletion of files. -/
  | cycle (now : Moment) (keys : List String) (link : Link)
  deriving DecidableEq

namespace Evicting

variable (uuid : ℕ → String) (minUtc : ℤ) (config : LruConfig)

/-- A step of the cycle.  A candidate that fails is logged and left. -/
def stepCycle (s : Evicting) (now : Moment) (keys : List String) (link : Link) : Evicting :=
  match s.cycle with
  | .listing =>
    let selected := selectForEviction minUtc now.utc config (Redis.getModelsByLastUsed s.servers.ks keys)
    { s with cycle := .looking (if link = .answered then selected.map (·.modelName) else []) }
  | .looking [] => s
  | .looking (entryKey :: pending) =>
    match Redis.getModelRecord s.servers.ks entryKey with
    | .ok (some record) =>
      { s with cycle := if link = .answered then .comparing entryKey record.provider pending else .looking pending }
    | _ => { s with cycle := .looking pending }
  | .comparing entryKey provider pending =>
    let revision := deleteRevision entryKey (Redis.getModelsByLastUsed s.servers.ks keys)
    { s with
      cycle := if link = .answered then .deletingFiles entryKey provider revision pending else .looking pending }
  | .deletingFiles entryKey _ revision pending =>
    { s with
      cycle := if revision.isNone ∨ link = .answered then .deletingRecord entryKey pending else .looking pending }
  | .deletingRecord entryKey pending =>
    { servers := { s.servers with ks := (s.servers.ks.perform now link (some (.deleteModel entryKey))).1 }
      cycle := .looking pending }

def step (s : Evicting) : EvictingEvent → Evicting
  | .server e => { s with servers := s.servers.step uuid e }
  | .cycle now keys link => s.stepCycle minUtc config now keys link

/-- A cycle begins, on a registry with any content. -/
def begin (ks : Keyspace) : Evicting := ⟨.idle ks, .listing⟩

def deletes (s : Evicting) : EvictingEvent → List String
  | .server _ => []
  | .cycle _ _ link =>
    match s.cycle with
    | .deletingRecord entryKey _ => if link = .down then [] else candidateKeys entryKey
    | _ => []

end Evicting

/-! ## A record that is downloaded stays so -/

/-- `set_status`, which no request and no task calls. -/
def Call.Sets (call : Call) : Prop := ∃ name p status message, call = .setStatus name p status message

namespace Redis

/-- Nothing lies at the key, or a downloaded record. -/
def Settled (ks : Keyspace) (key : String) : Prop := ks.get key = .empty ∨ (ks.get key).status = some .downloaded

instance (ks : Keyspace) (key : String) : Decidable (Settled ks key) := inferInstanceAs (Decidable (_ ∨ _))

variable {ks : Keyspace} {key key' : String} {now : Moment} {provider : ModelProvider} {claimId : String} {ttl : ℕ}
  {status : ModelStatus}

theorem settled_del (h : Settled ks key) (keys : List String) : Settled (ks.del keys) key := by
  unfold Settled
  rw [Keyspace.get_del]
  split_ifs
  · exact .inl rfl
  · exact h

theorem get_claimExisting (hne : key ≠ key') :
    (claimExisting now provider claimId ttl ks key' status).1.get key = ks.get key := by
  unfold claimExisting
  split_ifs
  · rfl
  · rfl
  · exact Keyspace.get_put_of_ne hne

section
variable (h : (ks.get key).status = some .downloaded)
include h

theorem settled_put {hash : Hash} (hother : (ks.get key').status ≠ some .downloaded) : Settled (ks.put key' hash) key := by
  have hne : key ≠ key' := by
    rintro rfl
    exact hother h
  refine .inr ?_
  rw [Keyspace.get_put_of_ne hne]
  exact h

theorem settled_touch (keys : List String) : Settled (touchScript now ks keys) key := by
  unfold touchScript
  split
  · refine .inr ?_
    rw [Keyspace.get_put]
    split_ifs with hkey
    · rw [← hkey]
      exact h
    · exact h
  · exact .inr h

theorem settled_claimExisting (hstatus : (ks.get key').status = some status) :
    Settled (claimExisting now provider claimId ttl ks key' status).1 key := by
  unfold claimExisting
  split_ifs with hdownloading hheld
  · exact .inr h
  · exact .inr h
  · refine settled_put h ?_
    rw [hstatus, not_not.1 hdownloading]
    simp

theorem settled_claim (legacy : String) :
    Settled (claimScript now provider claimId ttl ks key' legacy).1 key := by
  fun_cases claimScript now provider claimId ttl ks key' legacy
  case case1 hstatus => exact settled_claimExisting h hstatus
  case case2 hstatus _ _ _ =>
    -- the legacy record is moved to `key'`; it may be the one at `key`
    have hne : key ≠ key' := by
      rintro rfl
      cases hstatus.symm.trans h
    unfold Settled
    rw [get_claimExisting hne, Keyspace.get_put]
    split_ifs with hkey
    · exact .inl rfl
    · rw [Keyspace.get_put_of_ne hne]
      exact .inr h
  all_goals exact settled_put h (by simp [*])

theorem settled_retry : Settled (retryScript now provider claimId ttl ks key').1 key := by
  unfold retryScript
  split_ifs with herror
  · exact .inr h
  · exact settled_put h (by rw [not_not.1 herror]; simp)

theorem settled_refresh : Settled (refreshScript now claimId ttl ks key').1 key := by
  unfold refreshScript
  split_ifs with hdownloading howned
  · exact .inr h
  · exact .inr h
  · exact settled_put h (by rw [not_not.1 hdownloading]; simp)

theorem settled_finish {message : Option String} :
    Settled (finishScript now provider claimId status message ks key').1 key := by
  unfold finishScript
  split_ifs with hdownloading howned
  · exact .inr h
  · exact .inr h
  · exact settled_put h (by rw [not_not.1 hdownloading]; simp)

theorem step_downloaded (now : Moment) {call : Call} (hcall : ¬ call.Sets) : Settled (step ks now call).1 key := by
  cases call with
  | setStatus => exact absurd ⟨_, _, _, _, rfl⟩ hcall
  | touchModel => exact settled_touch h _
  | deleteModel => exact settled_del (.inr h) _
  | tryClaimForDownload => exact settled_claim h _
  | tryResetErrorForRetry => exact settled_retry h
  | refreshDownloadClaim => exact settled_refresh h
  | finishDownloadClaim => exact settled_finish h

end

end Redis

theorem Servers.call_not_sets {uuid : ℕ → String} {s : Servers} {act : Act} {call : Call}
    (h : s.call uuid act = some call) : ¬ call.Sets := by
  rintro ⟨_, _, _, _, rfl⟩
  cases act with
  | request =>
    obtain ⟨r, -, hcall⟩ := bind_eq_some_iff.1 h
    unfold Request.call at hcall
    split at hcall <;> cases hcall
  | task =>
    obtain ⟨d, -, hcall⟩ := bind_eq_some_iff.1 h
    unfold Download.call at hcall
    split at hcall <;> cases hcall
  | start | ended => cases h

namespace Evicting

variable {uuid : ℕ → String} {minUtc : ℤ} {config : LruConfig} {s : Evicting} {e : EvictingEvent} {key : String}

theorem step_downloaded (h : (s.servers.ks.get key).status = some .downloaded) :
    Redis.Settled (s.step uuid minUtc config e).servers.ks key := by
  have hperform : ∀ now link call, ¬ call.Sets → Redis.Settled (s.servers.ks.perform now link (some call)).1 key := by
    intro now link call hcall
    cases link with
    | answered | lost => exact Redis.step_downloaded h now hcall
    | down => exact .inr h
  cases e with
  | server e =>
    show Redis.Settled (s.servers.step uuid e).ks key
    rw [Servers.step_ks]
    cases hcall : s.servers.call uuid e.act with
    | none => exact .inr h
    | some => exact hperform _ _ _ (Servers.call_not_sets hcall)
  | cycle now keys link =>
    show Redis.Settled (s.stepCycle minUtc config now keys link).servers.ks key
    unfold stepCycle
    split
    case h_6 => exact hperform _ _ _ (by simp [Call.Sets])
    case h_3 => split <;> exact .inr h
    all_goals exact .inr h

theorem candidates_step (hcycle : s.cycle ≠ .listing) {k : String}
    (hk : k ∈ (s.step uuid minUtc config e).cycle.candidates) : k ∈ s.cycle.candidates := by
  cases e with
  | server e => exact hk
  | cycle now keys link =>
    replace hk : k ∈ (s.stepCycle minUtc config now keys link).cycle.candidates := hk
    unfold stepCycle at hk
    cases hstate : s.cycle with
    | listing => exact absurd hstate hcycle
    | looking pending =>
      cases pending with
      | nil => simp [hstate, Cycle.candidates] at hk
      | cons =>
        simp only [hstate] at hk
        split at hk <;> dsimp only at hk <;> (try split_ifs at hk) <;> simp_all [Cycle.candidates]
    | comparing | deletingFiles =>
      simp only [hstate] at hk
      split_ifs at hk <;> simp_all [Cycle.candidates]
    | deletingRecord =>
      simp only [hstate] at hk
      exact mem_cons_of_mem _ hk

variable (uuid minUtc config) in
/-- What a step must meet.  Where an entry is selected, nothing but downloaded records lies under its keys; and while it
    is a candidate, no record that is not downloaded comes under them. -/
@[mk_iff]
structure Undisturbed (s : Evicting) (e : EvictingEvent) : Prop where
  selection : s.cycle = .listing → ∀ k ∈ (s.step uuid minUtc config e).cycle.candidates, ∀ key ∈ candidateKeys k,
    Redis.Settled s.servers.ks key
  arrivals : ∀ k ∈ s.cycle.candidates, ∀ key ∈ candidateKeys k, s.servers.ks.get key = .empty →
    Redis.Settled (s.step uuid minUtc config e).servers.ks key

/-- Under the keys of the candidates lie downloaded records only. -/
def Clean (s : Evicting) : Prop := ∀ k ∈ s.cycle.candidates, ∀ key ∈ candidateKeys k, Redis.Settled s.servers.ks key

theorem Clean.step (h : s.Clean) (he : Undisturbed uuid minUtc config s e) : (s.step uuid minUtc config e).Clean := by
  intro k hk key hkey
  by_cases hcycle : s.cycle = .listing
  · have hsettled := he.selection hcycle k hk key hkey
    cases e with
    | server e =>
      replace hk : k ∈ s.cycle.candidates := hk
      rw [hcycle] at hk
      cases hk
    | cycle now keys link =>
      -- a listing only reads
      show Redis.Settled (s.stepCycle minUtc config now keys link).servers.ks key
      simp only [stepCycle, hcycle]
      exact hsettled
  · have hmem := candidates_step hcycle hk
    rcases h k hmem key hkey with hempty | hdownloaded
    · exact he.arrivals k hmem key hkey hempty
    · exact step_downloaded hdownloaded

theorem mem_deletes (h : key ∈ s.deletes e) : ∃ k, k ∈ s.cycle.candidates ∧ key ∈ candidateKeys k := by
  unfold deletes at h
  split at h
  · cases h
  · split at h
    · rename_i entryKey pending hcycle
      split_ifs at h
      · cases h
      · rw [hcycle]
        exact ⟨entryKey, mem_cons_self .., h⟩
    · cases h

/-- **Eviction deletes downloaded records only**, as long as nothing else lies under the keys of a selected entry, then or
    later. -/
theorem eviction_spares_downloads {ks : Keyspace} {events : List EvictingEvent}
    (h : Along (Evicting.step uuid minUtc config) (begin ks) (Undisturbed uuid minUtc config) events) :
    Along (Evicting.step uuid minUtc config) (begin ks)
      (fun s e => ∀ key ∈ s.deletes e, s.servers.ks.get key ≠ .empty → (s.servers.ks.get key).status = some .downloaded)
      events := by
  intro pre e hpre key hkey hexists
  have hclean : (run (Evicting.step uuid minUtc config) (begin ks) pre).Clean := by
    refine invariant_along ?_ (fun s e he hs => hs.step he) (h.restrict ((prefix_append pre [e]).trans hpre))
    rintro k ⟨⟩
  refine (mem_deletes hkey).elim fun k hk => (hclean k hk.1 key hk.2).resolve_left hexists

def weekly : LruConfig := ⟨604800 * 1000000000, none⟩

def ran : List EvictingEvent → Evicting := run (Evicting.step Servers.serial minInstant weekly) (begin ∅)

def downloaded : List EvictingEvent :=
  ([.start Servers.anyTarget, .request 0 false .answered, .request 0 false .answered, .ended 0 none,
    .task 0 .answered].map Servers.atZero).map .server

def later : Moment := ⟨691200 * 1000000000, (691200, 0)⟩

def goOn : EvictingEvent := .cycle later [Servers.anyTarget.key] .answered

def unused : List EvictingEvent := downloaded ++ [goOn, goOn, goOn, goOn, goOn]

/-- A request comes when the files have been deleted: it clears the record, claims the entry again and spawns a download;
    then the cycle deletes the record. -/
def asked : List EvictingEvent :=
  downloaded ++ [goOn, goOn, goOn, goOn] ++
    ([.start Servers.anyTarget, .request 1 false .answered, .request 1 false .answered, .request 1 false .answered,
      .request 1 false .answered, .request 1 false .answered].map fun act => .server ⟨later, act⟩)

instance : Decidable (Undisturbed uuid minUtc config s e) := decidable_of_iff' _ (undisturbed_iff ..)

theorem unused_spares : Along (Evicting.step Servers.serial minInstant weekly) (begin ∅)
      (fun s e => ∀ key ∈ s.deletes e, s.servers.ks.get key ≠ .empty → (s.servers.ks.get key).status = some .downloaded)
      unused ∧
    (ran unused).servers.ks.get Servers.anyTarget.key = .empty :=
  ⟨eviction_spares_downloads (along_of_check (fun s e => decide (Undisturbed Servers.serial minInstant weekly s e))
    (fun _ _ h => of_decide_eq_true h) (by decide +kernel)), by decide +kernel⟩

/-- The cycle deletes the record of a running download. -/
theorem asked_not_spared :
    Servers.anyTarget.key ∈ (ran asked).deletes goOn ∧
      ((ran asked).servers.ks.get Servers.anyTarget.key).status = some .downloading ∧ (ran asked).servers.Running 1 := by
  decide +kernel

/-! ## Records of several providers -/

/-- The provider whose files are deleted next. -/
def filesOf : Cycle → Option ModelProvider
  | .deletingFiles _ provider (some _) _ => some provider
  | _ => none

/-- Every record under the name is complete and lies at the key of its provider. -/
structure Filed (ks : Keyspace) (name : String) : Prop where
  legacy : ks.get (legacyModelKey name) = .empty
  provider : ∀ p, ks.get (modelKey p name) ≠ .empty →
    (Redis.recordFromHash name (ks.get (modelKey p name))).map (·.provider) = some p

theorem Filed.getModelRecord {ks : Keyspace} {name : String} {p : ModelProvider} (h : Filed ks name)
    (hp : ks.get (modelKey p name) ≠ .empty) :
    ∃ record, Redis.getModelRecord ks name = .ok (some record) ∧ ks.get (modelKey record.provider name) ≠ .empty := by
  unfold Redis.getModelRecord
  cases hfind : (candidateKeys name).find? fun key => ks.get key ≠ .empty with
  | none => simpa [hp] using find?_eq_none.1 hfind _ (modelKey_mem_candidateKeys p name)
  | some found =>
    have hfound : ks.get found ≠ .empty := by simpa using find?_some hfind
    rcases mem_append.1 (mem_of_find?_eq_some hfind) with hmem | hmem
    · obtain ⟨q, -, rfl⟩ := mem_map.1 hmem
      obtain ⟨record, hrecord, rfl⟩ := map_eq_some_iff.1 (h.provider q hfound)
      exact ⟨record, by simp [hrecord], hfound⟩
    · rw [mem_singleton.1 hmem] at hfound
      exact absurd h.legacy hfound

/-- **An eviction respects the providers exactly if no other one has a record** under the name: it deletes the files of the
    first provider that has one, and every provider's record. -/
theorem eviction_respects_providers_iff {s : Evicting} {name : String} {pending : List String} {p : ModelProvider}
    (hcycle : s.cycle = .looking (name :: pending)) (hfiled : Filed s.servers.ks name)
    (hp : s.servers.ks.get (modelKey p name) ≠ .empty) (now : ℕ → Moment) (keys : ℕ → List String) :
    let go := fun i => EvictingEvent.cycle (now i) (keys i) .answered
    ((∀ q ∈ filesOf (run (step uuid minUtc config) s [go 0, go 1]).cycle, q = p) ∧
      ∀ key, (run (step uuid minUtc config) s [go 0, go 1, go 2, go 3]).servers.ks.get key =
        if key = modelKey p name then .empty else s.servers.ks.get key) ↔
      ∀ q, q ≠ p → s.servers.ks.get (modelKey q name) = .empty := by
  obtain ⟨record, hrecord, hfirst⟩ := hfiled.getModelRecord hp
  intro go
  have hfiles : (run (step uuid minUtc config) s [go 0, go 1]).cycle =
      .deletingFiles name record.provider (deleteRevision name (Redis.getModelsByLastUsed s.servers.ks (keys 1))) pending := by
    simp [go, run, step, stepCycle, hcycle, hrecord]
  have hdeleted : (run (step uuid minUtc config) s [go 0, go 1, go 2, go 3]).servers.ks =
      s.servers.ks.del (candidateKeys name) := by
    simp [go, run, step, stepCycle, hcycle, hrecord, Keyspace.perform, Redis.step]
  rw [hfiles, hdeleted]
  constructor
  · rintro ⟨-, hkept⟩ q hq
    have hkept := hkept (modelKey q name)
    rwa [Keyspace.get_del, if_pos (modelKey_mem_candidateKeys q name), if_neg fun h => hq (modelKey_inj h).1, eq_comm] at hkept
  · intro halone
    refine ⟨fun q hq => ?_, fun key => ?_⟩
    · have hq : q = record.provider := by
        unfold filesOf at hq
        split at hq <;> simp_all
      exact hq.trans (by_contra fun hne => hfirst (halone _ hne))
    · rw [Keyspace.get_del]
      split_ifs with hmem hself hself
      · rfl
      · rcases mem_append.1 hmem with hmem | hmem
        · obtain ⟨q, -, rfl⟩ := mem_map.1 hmem
          exact (halone q fun h => hself (congrArg (modelKey · name) h)).symm
        · rw [mem_singleton.1 hmem, hfiled.legacy]
      · exact absurd (hself ▸ modelKey_mem_candidateKeys p name) hmem
      · rfl

def hashOf (p : ModelProvider) (status : ModelStatus) : Hash := ⟨some status, some p, some 0, some 0, none, none, none⟩

def onS3 : Keyspace := (∅ : Keyspace).put (modelKey .s3 "m") (hashOf .s3 .downloaded)

theorem onS3_respected :
    (run (step Servers.serial minInstant weekly) ⟨.idle onS3, .looking ["m"]⟩ [goOn, goOn]).cycle =
      .deletingFiles "m" .s3 (some none) [] ∧
    ∀ key, (run (step Servers.serial minInstant weekly) ⟨.idle onS3, .looking ["m"]⟩ [goOn, goOn, goOn, goOn]).servers.ks.get
      key = if key = modelKey .s3 "m" then .empty else onS3.get key := by
  refine ⟨by decide +kernel, ((eviction_respects_providers_iff rfl ⟨by decide, ?_⟩ (by decide) (fun _ => later)
    fun _ => [Servers.anyTarget.key]).2 ?_).2⟩
  · rintro (_ | _ | _ | _) <;> decide
  · rintro (_ | _ | _ | _) <;> decide

def shared : Keyspace := onS3.put (modelKey .huggingFace "m") (hashOf .huggingFace .downloading)

/-- The record of S3 is selected; the files and the record of a running download from the Hub go. -/
theorem shared_not_respected : let ran := run (step Servers.serial minInstant weekly) (begin shared)
    let go : EvictingEvent := .cycle later [modelKey .s3 "m", modelKey .huggingFace "m"] .answered
    (shared.get (modelKey .huggingFace "m")).status = some .downloading ∧ (ran [go]).cycle = .looking ["m"] ∧
      filesOf (ran [go, go, go]).cycle = some .huggingFace ∧
      (ran [go, go, go, go, go]).servers.ks.get (modelKey .huggingFace "m") = .empty := by
  decide +kernel

end Evicting

end ModelExpress.Registry
