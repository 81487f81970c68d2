/-
  ModelExpress server — only the owner of a claim finishes it (Kubernetes).
-/
import ModelExpress.Lib.Tenure
import ModelExpress.Registry.Kubernetes

namespace ModelExpress.Registry.Kubernetes

open Run List

/-- What a step does to the claim of the resource. -/
inductive Deed where
  /-- A fresh claim, or a retry. -/
  | granted (claimId : String) (lease : ℕ)
  /-- A takeover from the claim `old`, by a check at `checkedAt` on the replica's clock. -/
  | tookOver (claimId : String) (lease : ℕ) (old : Option String) (replica leaseDuration checkedAt : ℕ)
  | refreshed (claimId : String) (lease : ℕ)
  | finished (claimId : String)
  deriving DecidableEq

/-- What a step did, and when by every clock. -/
structure Happening where
  clock : ℕ → ℕ
  deed : Option Deed

namespace Happening

/-- The id of a successful claim, takeover or retry. -/
def grant? (h : Happening) : Option String :=
  match h.deed with
  | some (.granted claimId _) | some (.tookOver claimId ..) => some claimId
  | _ => none

def lease? (h : Happening) : Option (String × ℕ) :=
  match h.deed with
  | some (.granted claimId lease) | some (.tookOver claimId lease ..) | some (.refreshed claimId lease) =>
    some (claimId, lease)
  | _ => none

def refreshed? (h : Happening) : Option String :=
  match h.deed with
  | some (.refreshed claimId _) => some claimId
  | _ => none

def finished? (h : Happening) : Option String :=
  match h.deed with
  | some (.finished claimId) => some claimId
  | _ => none

def ends (h : Happening) : Bool := h.finished?.isSome

end Happening

variable (s : Cluster)

namespace Cluster

/-- What the next step of a job does to the claim. -/
def jobDeed (e : Event) (r : Running) : Option Deed :=
  match r.progress, r.job with
  | .claiming read fresh checkedAt, .claim claimId leaseDuration =>
    (claimPatch s.cr claimId e.utc e.lease read).map fun _ =>
      if fresh then .granted claimId e.lease
      else .tookOver claimId e.lease read.fingerprint.claimId r.replica leaseDuration checkedAt
  | .patching, .retry claimId _ => (retryPatch s.cr claimId e.utc e.lease).map fun _ => .granted claimId e.lease
  | .patching, .refresh claimId _ => (refreshPatch s.cr claimId e.utc e.lease).map fun _ => .refreshed claimId e.lease
  | .patching, .finish claimId status message =>
    (finishPatch s.cr claimId e.utc status message).map fun _ => .finished claimId
  | _, _ => none

def deed (e : Event) : Option Deed :=
  match e.act with
  | .start .. => none
  | .go i => s.jobs[i]?.bind (s.jobDeed e)

def happenings : List Event → List Happening := trace step (fun s e => ⟨e.clock, s.deed e⟩) s

def owner : Option String := (s.cr.bind Resource.status).bind Status.claimId

def held : Option (String × ℕ) :=
  (s.cr.bind Resource.status).bind fun status => status.claimId.bind fun claimId =>
    status.leaseExpiresAt.map fun lease => (claimId, lease)

end Cluster

/-! ## What the resource, the jobs and the replicas know -/

open Happening Tenure Option

/-- The lease of the fingerprint was written at least `ahead` before `time` on the replica's clock. -/
def Seen (hs : List Happening) (replica time ahead : ℕ) (fingerprint : Fingerprint) : Prop :=
  ∀ claimId ∈ fingerprint.claimId, ∃ lease ∈ fingerprint.leaseExpiresAt,
    ∃ h ∈ hs, h.lease? = some (claimId, lease) ∧ h.clock replica + ahead ≤ time

/-- What was read is what the resource is, if the version is still the same; and its lease was written. -/
structure Knows (hs : List Happening) (s : Cluster) (read : Resource) : Prop where
  version : read.version ≤ s.writes
  same : ∀ cr ∈ s.cr, cr.version = read.version → cr = read
  lease : ∀ claimId ∈ read.fingerprint.claimId, ∃ lease ∈ read.fingerprint.leaseExpiresAt,
    ∃ h ∈ hs, h.lease? = some (claimId, lease)

def Progress.read? : Progress → Option Resource
  | checking read _ | claiming read _ _ => some read
  | _ => none

/-- What a job has read, and what its check found. -/
structure JobKnows (hs : List Happening) (s : Cluster) (r : Running) : Prop where
  read : ∀ read ∈ r.progress.read?, Knows hs s read
  due : ∀ read checkedAt claimId leaseDuration, r.progress = .claiming read false checkedAt →
    r.job = .claim claimId leaseDuration → Seen hs r.replica checkedAt leaseDuration read.fingerprint

/-- The resource's claim and lease are what the steps left. -/
structure ResourceTold (hs : List Happening) (s : Cluster) : Prop where
  owner : s.owner = Tenure.current Happening.grant? Happening.ends hs
  held : s.held = Tenure.current Happening.lease? Happening.ends hs
  leased : s.held.map Prod.fst = s.owner

structure Told (hs : List Happening) (s : Cluster) : Prop where
  resource : ResourceTold hs s
  version : ∀ cr ∈ s.cr, cr.version ≤ s.writes
  jobs : ∀ r ∈ s.jobs, JobKnows hs s r
  observed : ∀ replica, ∀ o ∈ s.observations replica, Seen hs replica o.observedAt 0 o.fingerprint

variable {lease leaseDuration : ℕ} {observation : Option Observation} {claimUninitialized : Bool}
  {pre post : List Happening} {cr : Resource}

section
variable {hs : List Happening} {s : Cluster} {h : Happening} {replica time ahead : ℕ} {fingerprint : Fingerprint}
  {read : Resource} {r : Running}

theorem Seen.snoc (hseen : Seen hs replica time ahead fingerprint) : Seen (hs ++ [h]) replica time ahead fingerprint := by
  intro claimId hid
  obtain ⟨lease, hlease, g, hg, hgives, hclock⟩ := hseen claimId hid
  exact ⟨lease, hlease, g, mem_append_left _ hg, hgives, hclock⟩

variable {s' : Cluster}

theorem Knows.seen (hknows : Knows hs s read) (hclock : ∀ h ∈ hs, h.clock replica ≤ time) :
    Seen hs replica time 0 read.fingerprint := by
  intro claimId hid
  obtain ⟨lease, hlease, g, hg, hgives⟩ := hknows.lease claimId hid
  exact ⟨lease, hlease, g, hg, hgives, hclock g hg⟩

theorem seen_of_expired (leaseDuration : ℕ) (hclock : ∀ h ∈ hs, h.clock replica ≤ time)
    (hobserved : ∀ o ∈ observation, Seen hs replica o.observedAt 0 o.fingerprint) (hknows : Knows hs s read) :
    Seen hs replica (leaseObservationExpired observation read.fingerprint time leaseDuration).1.observedAt 0
        (leaseObservationExpired observation read.fingerprint time leaseDuration).1.fingerprint ∧
      ((leaseObservationExpired observation read.fingerprint time leaseDuration).2 = true →
        Seen hs replica time leaseDuration read.fingerprint) := by
  have hnew : Seen hs replica time 0 read.fingerprint ∧ (decide (leaseDuration = 0) = true →
      Seen hs replica time leaseDuration read.fingerprint) := by
    refine ⟨hknows.seen hclock, fun hzero => ?_⟩
    rw [of_decide_eq_true hzero]
    exact hknows.seen hclock
  cases observation with
  | none => exact hnew
  | some o =>
    have hold := hobserved o rfl
    unfold leaseObservationExpired
    dsimp only
    split_ifs with hsame
    · refine ⟨hold, fun hexpired => ?_⟩
      rw [← hsame]
      intro claimId hid
      obtain ⟨lease, hlease, g, hg, hgives, _⟩ := hold claimId hid
      have hdue := of_decide_eq_true hexpired
      have hnow := hclock g hg
      exact ⟨lease, hlease, g, hg, hgives, by omega⟩
    · exact hnew

def Later (s s' : Cluster) : Prop :=
  (s'.cr = s.cr ∧ s'.writes = s.writes) ∨ ∃ status, s'.cr = some ⟨s.writes + 1, status⟩ ∧ s'.writes = s.writes + 1

theorem Knows.later (hknows : Knows hs s read) (hlater : Later s s') : Knows (hs ++ [h]) s' read := by
  have hle := hknows.version
  refine ⟨?_, fun cr hmem hversion => ?_, fun claimId hid => ?_⟩
  · rcases hlater with ⟨-, _⟩ | ⟨status, -, _⟩ <;> omega
  · rcases hlater with ⟨hcr, -⟩ | ⟨_, hcr, -⟩
    · exact hknows.same cr (hcr ▸ hmem) hversion
    · cases hcr.symm.trans hmem
      dsimp only at hversion
      omega
  · obtain ⟨lease, hlease, g, hg, hgives⟩ := hknows.lease claimId hid
    exact ⟨lease, hlease, g, mem_append_left _ hg, hgives⟩

theorem JobKnows.later (hknows : JobKnows hs s r) (hlater : Later s s') : JobKnows (hs ++ [h]) s' r where
  read read hread := (hknows.read read hread).later hlater
  due read checkedAt claimId leaseDuration hprogress hjob := (hknows.due read checkedAt claimId leaseDuration hprogress hjob).snoc

theorem JobKnows.blank (hblank : r.progress.read? = none) : JobKnows hs s r where
  read read hread := by
    rw [hblank] at hread
    cases hread
  due read checkedAt claimId leaseDuration hprogress := by
    rw [hprogress] at hblank
    cases hblank

theorem JobKnows.checking {job : Job} (hknows : Knows hs s read) :
    JobKnows hs s ⟨replica, job, .checking read claimUninitialized⟩ where
  read := by
    rintro _ ⟨⟩
    exact hknows
  due := by
    rintro _ _ _ _ ⟨⟩

theorem Told.next (htold : Told hs s) (hlater : Later s s') (hresource : ResourceTold (hs ++ [h]) s')
    (hjobs : ∀ r ∈ s'.jobs, r ∈ s.jobs ∨ JobKnows (hs ++ [h]) s' r)
    (hobserved : ∀ replica, ∀ o ∈ s'.observations replica,
      o ∈ s.observations replica ∨ Seen (hs ++ [h]) replica o.observedAt 0 o.fingerprint) : Told (hs ++ [h]) s' where
  resource := hresource
  version cr hcr := by
    rcases hlater with ⟨heq, hwrites⟩ | ⟨_, heq, hwrites⟩
    · rw [hwrites]
      exact htold.version cr (heq ▸ hcr)
    · cases heq.symm.trans hcr
      exact hwrites.ge
  jobs r hr := (hjobs r hr).elim (fun hmem => (htold.jobs r hmem).later hlater) id
  observed replica o ho := (hobserved replica o ho).elim (fun hmem => (htold.observed replica o hmem).snoc) id

theorem ResourceTold.idle (hresource : ResourceTold hs s) (howner : s'.owner = s.owner)
    (hheld : s'.held = s.held) (hdeed : h.deed = none) : ResourceTold (hs ++ [h]) s' where
  owner := by simp [howner, hresource.owner, current_snoc, grant?, ends, finished?, hdeed]
  held := by simp [hheld, hresource.held, current_snoc, lease?, ends, finished?, hdeed]
  leased := by rw [howner, hheld, hresource.leased]

variable {claimId : String}

theorem ResourceTold.granted (howner : s'.owner = some claimId)
    (hheld : s'.held = some (claimId, lease)) (hgrant : h.grant? = some claimId)
    (hlease : h.lease? = some (claimId, lease)) : ResourceTold (hs ++ [h]) s' where
  owner := by rw [howner, current_snoc_of_gives hgrant]
  held := by rw [hheld, current_snoc_of_gives hlease]
  leased := by rw [howner, hheld, map_some]

theorem ResourceTold.refreshed (hresource : ResourceTold hs s)
    (hbefore : s.owner = some claimId) (howner : s'.owner = some claimId) (hheld : s'.held = some (claimId, lease))
    (hdeed : h.deed = some (.refreshed claimId lease)) : ResourceTold (hs ++ [h]) s' where
  owner := by simp [howner, ← hbefore, hresource.owner, current_snoc, grant?, ends, finished?, hdeed]
  held := by simp [hheld, current_snoc, lease?, hdeed]
  leased := by rw [howner, hheld, map_some]

theorem ResourceTold.finished (howner : s'.owner = none) (hheld : s'.held = none)
    (hdeed : h.deed = some (.finished claimId)) : ResourceTold (hs ++ [h]) s' where
  owner := by simp [howner, current_snoc, grant?, ends, finished?, hdeed]
  held := by simp [hheld, current_snoc, lease?, ends, finished?, hdeed]
  leased := by rw [howner, hheld, map_none]

theorem ResourceTold.current (hresource : ResourceTold hs s) (hcr : s.cr = some cr)
    (hid : cr.fingerprint.claimId = some claimId) :
    ∃ lease, cr.fingerprint.leaseExpiresAt = some lease ∧
      Tenure.current Happening.lease? Happening.ends hs = some (claimId, lease) := by
  cases hstatus : cr.status with
  | none => simp [Resource.fingerprint, hstatus, Status.empty] at hid
  | some status =>
    have hid' : status.claimId = some claimId := by simpa [Resource.fingerprint, hstatus] using hid
    have hleased := hresource.leased
    have hheld := hresource.held
    simp only [Cluster.owner, Cluster.held, hcr, hstatus, bind_some, hid'] at hleased hheld
    obtain ⟨pair, hpair, -⟩ := map_eq_some_iff.1 hleased
    obtain ⟨lease, hlease, rfl⟩ := map_eq_some_iff.1 hpair
    exact ⟨lease, by simpa [Resource.fingerprint, hstatus] using hlease, hheld.symm.trans hpair⟩

theorem Told.knows (htold : Told hs s) (hcr : s.cr = some cr) : Knows hs s cr where
  version := htold.version cr hcr
  same cr' hcr' _ := Option.mem_unique hcr' hcr
  lease claimId hid := by
    obtain ⟨lease, hlease, hcurrent⟩ := htold.resource.current hcr hid
    exact ⟨lease, hlease, exists_gives hcurrent⟩

/-! ## Steps -/

theorem observed_update {observations : ℕ → Option Observation}
    (hnew : ∀ o ∈ observation, o ∈ observations replica ∨ Seen hs replica o.observedAt 0 o.fingerprint) (replica' : ℕ)
    {o : Observation} (ho : o ∈ Function.update observations replica observation replica') :
    o ∈ observations replica' ∨ Seen hs replica' o.observedAt 0 o.fingerprint := by
  by_cases hsame : replica' = replica
  · subst hsame
    rw [Function.update_self] at ho
    exact hnew o ho
  · rw [Function.update_of_ne hsame] at ho
    exact .inl ho

variable {i : ℕ} {progress : Progress} {observation : Option Observation} {status : Option Status}

theorem Told.advance (htold : Told hs s) (hdeed : h.deed = none) (hjob : JobKnows hs s { r with progress })
    (hobservation : ∀ o ∈ observation,
      o ∈ s.observations r.replica ∨ Seen (hs ++ [h]) r.replica o.observedAt 0 o.fingerprint) :
    Told (hs ++ [h]) ((s.observe r.replica observation).advance i r progress) := by
  have hlater : Later s ((s.observe r.replica observation).advance i r progress) := .inl ⟨rfl, rfl⟩
  refine htold.next hlater (htold.resource.idle rfl rfl hdeed) (fun r' hr' => ?_) (fun replica o ho => ?_)
  · rcases mem_or_eq_of_mem_set hr' with hmem | rfl
    · exact .inl hmem
    · exact .inr (hjob.later hlater)
  · exact observed_update hobservation replica ho

variable (s replica) in
theorem Cluster.observe_self : s.observe replica (s.observations replica) = s := by
  unfold observe
  rw [Function.update_eq_self]

section
variable (htold : Told hs s)
include htold

theorem Told.advance_read (hdeed : h.deed = none) (hjob : JobKnows hs s { r with progress }) :
    Told (hs ++ [h]) (s.advance i r progress) := by
  rw [← s.observe_self r.replica]
  exact htold.advance hdeed hjob fun o ho => .inl ho

theorem Told.advance_blank (hdeed : h.deed = none) (hblank : progress.read? = none) :
    Told (hs ++ [h]) (s.advance i r progress) :=
  htold.advance_read hdeed (.blank hblank)

theorem Told.written
    (hresource : ResourceTold (hs ++ [h]) (((s.write status).observe r.replica observation).advance i r progress))
    (hjob : ∀ read ∈ progress.read?, read = ⟨s.writes + 1, none⟩ ∧ status = none)
    (hprogress : ∀ read checkedAt, progress ≠ .claiming read false checkedAt)
    (hobservation : ∀ o ∈ observation, o ∈ s.observations r.replica) :
    Told (hs ++ [h]) (((s.write status).observe r.replica observation).advance i r progress) := by
  have hlater : Later s (((s.write status).observe r.replica observation).advance i r progress) :=
    .inr ⟨status, rfl, rfl⟩
  refine htold.next hlater hresource (fun r' hr' => ?_) (fun replica o ho => ?_)
  · rcases mem_or_eq_of_mem_set hr' with hmem | rfl
    · exact .inl hmem
    · refine .inr ⟨fun read hread => ?_, fun read checkedAt _ _ hclaiming => absurd hclaiming (hprogress read checkedAt)⟩
      obtain ⟨rfl, rfl⟩ := hjob read hread
      refine ⟨Nat.le_refl _, fun cr hcr _ => (some.inj hcr).symm, ?_⟩
      rintro _ ⟨⟩
  · exact observed_update (fun o ho => .inl (hobservation o ho)) replica ho

theorem Told.answered {answer : Answer}
    (hresource : ResourceTold (hs ++ [h]) (((s.write status).observe r.replica observation).advance i r (.returned answer)))
    (hobservation : ∀ o ∈ observation, o ∈ s.observations r.replica) :
    Told (hs ++ [h]) (((s.write status).observe r.replica observation).advance i r (.returned answer)) :=
  htold.written hresource (by rintro _ ⟨⟩) (by rintro _ _ ⟨⟩) hobservation

end

variable {e : Event}

theorem Told.stepCheck (htold : Told hs s) (hclock : ∀ h ∈ hs, ∀ replica, h.clock replica ≤ e.clock replica)
    (hdeed : h.deed = none) (hjob : r.job = .claim claimId leaseDuration) (hknows : Knows hs s read) :
    Told (hs ++ [h]) (s.stepCheck e i r leaseDuration read claimUninitialized) := by
  unfold Cluster.stepCheck
  dsimp only
  split_ifs with hcurrent hfresh hexpired
  · refine htold.advance hdeed (.blank rfl) ?_
    rintro o ⟨⟩
  · refine htold.advance_read hdeed ⟨?_, ?_⟩
    · rintro _ ⟨⟩
      exact hknows
    · rintro _ _ _ _ ⟨⟩
  · obtain ⟨hseen, hdue⟩ := seen_of_expired leaseDuration (fun h hh => hclock h hh r.replica) (htold.observed r.replica) hknows
    refine htold.advance hdeed ⟨?_, ?_⟩ ?_
    · rintro _ ⟨⟩
      exact hknows
    · rintro _ _ _ _ ⟨⟩ hsame
      cases hjob.symm.trans hsame
      exact hdue hexpired
    · rintro o ⟨⟩
      exact .inr hseen.snoc
  · obtain ⟨hseen, -⟩ := seen_of_expired leaseDuration (fun h hh => hclock h hh r.replica) (htold.observed r.replica) hknows
    refine htold.advance hdeed (.blank rfl) ?_
    rintro o ⟨⟩
    exact .inr hseen.snoc

/-! ## Patches -/

section
variable {cr : Option Resource} {claimId : String} {utc lease : ℕ} {patched : Status}

theorem claimPatch_eq_some (hpatch : claimPatch cr claimId utc lease read = some patched) :
    (∃ cr', cr = some cr' ∧ cr'.version = read.version) ∧ patched.claimId = some claimId ∧
      patched.leaseExpiresAt = some lease := by
  revert hpatch
  fun_cases claimPatch cr claimId utc lease read <;> rintro ⟨⟩
  all_goals exact ⟨⟨_, rfl, by simp_all⟩, rfl, rfl⟩

theorem retryPatch_eq_some (hpatch : retryPatch cr claimId utc lease = some patched) :
    patched.claimId = some claimId ∧ patched.leaseExpiresAt = some lease := by
  revert hpatch
  fun_cases retryPatch cr claimId utc lease <;> rintro ⟨⟩
  exact ⟨rfl, rfl⟩

theorem refreshPatch_eq_some (hpatch : refreshPatch cr claimId utc lease = some patched) :
    (cr.bind Resource.status).bind Status.claimId = some claimId ∧ patched.claimId = some claimId ∧
      patched.leaseExpiresAt = some lease := by
  revert hpatch
  fun_cases refreshPatch cr claimId utc lease <;> rintro ⟨⟩
  simp_all

theorem finishPatch_eq_some {outcome : ModelStatus} {message : Option String}
    (hpatch : finishPatch cr claimId utc outcome message = some patched) :
    (cr.bind Resource.status).bind Status.claimId = some claimId ∧ patched.claimId = none ∧
      patched.leaseExpiresAt = none := by
  revert hpatch
  fun_cases finishPatch cr claimId utc outcome message <;> rintro ⟨⟩
  simp_all

theorem touchPatch_eq_some (hpatch : touchPatch cr utc = some patched) :
    patched.claimId = (cr.bind Resource.status).bind Status.claimId ∧
      patched.leaseExpiresAt = (cr.bind Resource.status).bind Status.leaseExpiresAt := by
  obtain ⟨cr', rfl, rfl⟩ := map_eq_some_iff.1 hpatch
  cases hstatus : cr'.status <;> simp [hstatus, Status.empty]

variable (s) in
theorem Cluster.held_written (hid : patched.claimId = some claimId) (hexpires : patched.leaseExpiresAt = some lease) :
    (((s.write (some patched)).observe replica observation).advance i r progress).held = some (claimId, lease) := by
  simp [held, advance, observe, write, hid, hexpires]

end

section
variable (htold : Told hs s)
include htold

theorem Told.stay (hdeed : h.deed = none) : Told (hs ++ [h]) s :=
  htold.next (.inl ⟨rfl, rfl⟩) (htold.resource.idle rfl rfl hdeed) (fun _ hr => .inl hr) (fun _ _ ho => .inl ho)

section
variable (hclock : ∀ h ∈ hs, ∀ replica, h.clock replica ≤ e.clock replica)
include hclock

theorem Told.stepJob
    (hr : s.jobs[i]? = some r) : Told (hs ++ [⟨e.clock, s.jobDeed e r⟩]) (s.stepJob e i r) := by
  have hjob := htold.jobs r (mem_of_getElem? hr)
  unfold Cluster.stepJob Cluster.jobDeed
  cases hprogress : r.progress with
  | getting =>
    dsimp only
    refine htold.advance_read rfl ?_
    cases hkind : r.job with
    | claim =>
      unfold Cluster.afterGet
      cases hcr : s.cr with
      | none => exact .blank rfl
      | some cr => exact .checking (htold.knows hcr)
    | retry | touch =>
      refine .blank ?_
      unfold Cluster.afterGet
      split_ifs <;> rfl
    | refresh | finish => exact .blank rfl
  | creating =>
    dsimp only
    cases hcr : s.cr with
    | none =>
      rw [← (s.write none).observe_self r.replica]
      refine htold.written (htold.resource.idle ?_ ?_ rfl) ?_ ?_ ?_
      · simp [Cluster.owner, Cluster.advance, Cluster.observe, Cluster.write, hcr]
      · simp [Cluster.held, Cluster.advance, Cluster.observe, Cluster.write, hcr]
      · rintro _ ⟨⟩
        exact ⟨rfl, rfl⟩
      · rintro _ _ ⟨⟩
      · exact fun o ho => ho
    | some cr => exact htold.advance_blank rfl rfl
  | regetting =>
    dsimp only
    cases hcr : s.cr with
    | none => exact htold.advance_blank rfl rfl
    | some cr => exact htold.advance_read rfl (.checking (htold.knows hcr))
  | checking read =>
    have hknows := hjob.read read (by rw [hprogress]; rfl)
    cases hkind : r.job with
    | claim => exact htold.stepCheck hclock rfl hkind hknows
    | _ => exact htold.stay rfl
  | claiming read fresh =>
    cases hkind : r.job with
    | claim claimId =>
      dsimp only
      cases hpatch : claimPatch s.cr claimId e.utc e.lease read with
      | none => exact htold.advance_blank rfl rfl
      | some =>
        obtain ⟨-, hid, hexpires⟩ := claimPatch_eq_some hpatch
        refine htold.answered (.granted hid (s.held_written hid hexpires) ?_ ?_) (by rintro _ ⟨⟩)
        · cases fresh <;> rfl
        · cases fresh <;> rfl
    | _ => exact htold.stay rfl
  | rereading => exact htold.advance_blank rfl rfl
  | patching =>
    dsimp only
    cases hkind : r.job with
    | claim => exact htold.advance_blank rfl rfl
    | retry claimId =>
      dsimp only [Cluster.patch]
      cases hpatch : retryPatch s.cr claimId e.utc e.lease with
      | none => exact htold.advance_blank rfl rfl
      | some =>
        obtain ⟨hid, hexpires⟩ := retryPatch_eq_some hpatch
        dsimp only [map_some]
        exact htold.answered (.granted hid (s.held_written hid hexpires) rfl rfl) (by rintro _ ⟨⟩)
    | refresh claimId =>
      dsimp only [Cluster.patch]
      cases hpatch : refreshPatch s.cr claimId e.utc e.lease with
      | none => exact htold.advance_blank rfl rfl
      | some =>
        obtain ⟨hbefore, hid, hexpires⟩ := refreshPatch_eq_some hpatch
        dsimp only [map_some]
        exact htold.answered (htold.resource.refreshed hbefore hid (s.held_written hid hexpires) rfl) fun o ho => ho
    | finish claimId status message =>
      dsimp only [Cluster.patch]
      cases hpatch : finishPatch s.cr claimId e.utc status message with
      | none => exact htold.advance_blank rfl rfl
      | some =>
        obtain ⟨-, hid, hexpires⟩ := finishPatch_eq_some hpatch
        dsimp only [map_some]
        refine htold.answered (.finished hid ?_ rfl) (by rintro _ ⟨⟩)
        simp [Cluster.held, Cluster.advance, Cluster.observe, Cluster.write, hid]
    | touch =>
      dsimp only [Cluster.patch]
      cases hpatch : touchPatch s.cr e.utc with
      | none => exact htold.advance_blank rfl rfl
      | some =>
        obtain ⟨hid, hexpires⟩ := touchPatch_eq_some hpatch
        dsimp only
        refine htold.answered (htold.resource.idle hid ?_ rfl) fun o ho => ho
        simp only [Cluster.held, Cluster.advance, Cluster.observe, Cluster.write, bind_some, hid, hexpires]
        cases s.cr.bind Resource.status <;> rfl
  | returned | failed => exact htold.stay rfl

theorem Told.step : Told (hs ++ [⟨e.clock, s.deed e⟩]) (s.step e) := by
  unfold Cluster.step Cluster.deed
  cases e.act with
  | start _ job =>
    refine htold.next (.inl ⟨rfl, rfl⟩) (htold.resource.idle rfl rfl rfl) (fun r hr => ?_) (fun _ _ ho => .inl ho)
    rcases mem_append.1 hr with hr | hr
    · exact .inl hr
    · rw [mem_singleton.1 hr]
      exact .inr (.blank (by cases job <;> rfl))
  | go i =>
    dsimp only
    cases hr : s.jobs[i]? with
    | none => exact htold.stay rfl
    | some r => exact htold.stepJob hclock hr

end

end

theorem Cluster.map_clock_happenings {es : List Event} : (s.happenings es).map Happening.clock = es.map Event.clock := by
  induction es generalizing s with
  | nil => rfl
  | cons e es ih => exact congrArg (e.clock :: ·) ih

end

def Forward (es : List Event) : Prop := (es.map Event.clock).Pairwise fun c c' => ∀ replica, c replica ≤ c' replica

namespace Cluster

variable {cr : Option Resource} {writes : ℕ} {es : List Event}

theorem clock_le {s : Cluster} (hforward : Forward es) {g h : Happening}
    (heq : s.happenings es = pre ++ h :: post) (hg : g ∈ pre) (replica : ℕ) : g.clock replica ≤ h.clock replica := by
  rw [Forward, ← map_clock_happenings (s := s), pairwise_map, heq] at hforward
  exact (pairwise_append.1 hforward).2.2 g hg h mem_cons_self replica

section
variable (hclaim : (cr.bind Resource.status).bind Status.claimId = none)
include hclaim

theorem told_run (hversion : ∀ r ∈ cr, r.version ≤ writes)
    (hforward : Forward es) : Told ((idle cr writes).happenings es) (run step (idle cr writes) es) := by
  induction es using reverseRecOn with
  | nil =>
    have hheld : (idle cr writes).held = none := by
      unfold held
      change Option.bind (cr.bind Resource.status) _ = none
      cases hstatus : cr.bind Resource.status with
      | none => rfl
      | some status =>
        rw [hstatus] at hclaim
        rw [bind_some, show status.claimId = none from hclaim, bind_none]
    refine ⟨⟨hclaim, ?_, ?_⟩, hversion, ?_, ?_⟩
    · exact hheld
    · exact (congrArg (Option.map Prod.fst) hheld).trans hclaim.symm
    · rintro _ ⟨⟩
    · rintro _ _ ⟨⟩
  | append_singleton es e ih =>
    have hbefore : Forward es := by
      rw [Forward, map_append] at hforward
      exact (pairwise_append.1 hforward).1
    have hsnoc : (idle cr writes).happenings (es ++ [e]) = _ := trace_snoc
    rw [hsnoc, run_snoc]
    exact (ih hbefore).step fun h hh => clock_le hforward hsnoc hh

theorem told_before (hversion : ∀ r ∈ cr, r.version ≤ writes) (hforward : Forward es) {h : Happening}
    (heq : (idle cr writes).happenings es = pre ++ h :: post) :
    ∃ s e, Told pre s ∧ h = ⟨e.clock, deed s e⟩ := by
  obtain ⟨_, e, _, rfl, rfl, rfl⟩ := trace_eq_append_cons heq
  rw [Forward, map_append] at hforward
  exact ⟨_, e, told_run hclaim hversion (pairwise_append.1 hforward).1, rfl⟩

end

/-! ## What a deed needs -/

section
variable {s : Cluster} {e : Event} {r : Running} {claimId : String} {lease : ℕ}

theorem exists_jobDeed {d : Deed} (hdeed : s.deed e = some d) : ∃ r ∈ s.jobs, s.jobDeed e r = some d := by
  unfold deed at hdeed
  split at hdeed
  · cases hdeed
  · obtain ⟨r, hr, hjob⟩ := bind_eq_some_iff.1 hdeed
    exact ⟨r, mem_of_getElem? hr, hjob⟩

theorem owner_of_refreshed (hdeed : s.deed e = some (.refreshed claimId lease)) : s.owner = some claimId := by
  obtain ⟨r, -, hjob⟩ := exists_jobDeed hdeed
  revert hjob
  fun_cases jobDeed s e r <;> simp
  · split_ifs <;> simp
  · rintro _ hpatch rfl -
    exact (refreshPatch_eq_some hpatch).1

theorem owner_of_finished (hdeed : s.deed e = some (.finished claimId)) : s.owner = some claimId := by
  obtain ⟨r, -, hjob⟩ := exists_jobDeed hdeed
  revert hjob
  fun_cases jobDeed s e r <;> simp
  · split_ifs <;> simp
  · rintro _ hpatch rfl
    exact (finishPatch_eq_some hpatch).1

/-- **A takeover is by a check of what the resource still is.** -/
theorem due_of_tookOver {hs : List Happening} (htold : Told hs s) {old : String} {replica checkedAt : ℕ}
    (hdeed : s.deed e = some (.tookOver claimId lease (some old) replica leaseDuration checkedAt)) :
    ∃ lease₀, Tenure.current Happening.lease? Happening.ends hs = some (old, lease₀) ∧
      ∃ h ∈ hs, h.lease? = some (old, lease₀) ∧ h.clock replica + leaseDuration ≤ checkedAt := by
  obtain ⟨r, hr, hjob⟩ := exists_jobDeed hdeed
  unfold jobDeed at hjob
  split at hjob
  · rename_i read fresh checked claimId' duration hprogress hkind
    obtain ⟨patched, hpatch, heq⟩ := map_eq_some_iff.1 hjob
    split_ifs at heq with hfresh
    obtain ⟨rfl, rfl, hold, rfl, rfl, rfl⟩ := Deed.tookOver.inj heq
    obtain ⟨⟨cr', hcr, hsame⟩, -, -⟩ := claimPatch_eq_some hpatch
    have hknows := htold.jobs r hr
    obtain rfl := (hknows.read read (by rw [hprogress]; rfl)).same cr' hcr hsame
    obtain ⟨lease₀, hlease₀, hcurrent⟩ := htold.resource.current hcr hold
    rw [Bool.not_eq_true] at hfresh
    subst hfresh
    obtain ⟨lease₁, hlease₁, h, hh, hgives, hclock⟩ := hknows.due cr' _ _ _ hprogress hkind old hold
    obtain rfl : lease₀ = lease₁ := mem_unique hlease₀ hlease₁
    exact ⟨lease₀, hcurrent, h, hh, hgives, hclock⟩
  iterate 3 obtain ⟨_, -, ⟨⟩⟩ := map_eq_some_iff.1 hjob
  cases hjob

end

/-- **Download fencing**: a refresh or finish succeeds only for the latest successful claim, takeover or
    retry, which is finished at most once; and a takeover succeeds only if no refresh of the old claim took
    effect during the last lease duration, on the replica's clock, before the check that its patch follows. -/
theorem kubernetes_download_fencing (hclaim : (cr.bind Resource.status).bind Status.claimId = none)
    (hversion : ∀ r ∈ cr, r.version ≤ writes) (hforward : Forward es)
    (hgrants : (((idle cr writes).happenings es).filterMap Happening.grant?).Nodup)
    (hleases : (((idle cr writes).happenings es).filterMap Happening.lease?).Nodup) :
    (∀ pre h post claimId, (idle cr writes).happenings es = pre ++ h :: post →
      h.refreshed? = some claimId ∨ h.finished? = some claimId →
      ∃ before claim after, pre = before ++ claim :: after ∧ claim.grant? = some claimId ∧
        ∀ h' ∈ after, h'.grant? = none ∧ h'.finished? = none) ∧
    (((idle cr writes).happenings es).filterMap Happening.finished?).Nodup ∧
    (∀ pre h post claimId lease old replica leaseDuration checkedAt,
      (idle cr writes).happenings es = pre ++ h :: post →
      h.deed = some (.tookOver claimId lease (some old) replica leaseDuration checkedAt) →
      ∀ g ∈ pre, g.refreshed? = some old → g.clock replica + leaseDuration ≤ checkedAt) := by
  have hcurrent : ∀ pre h post claimId, (idle cr writes).happenings es = pre ++ h :: post →
      h.refreshed? = some claimId ∨ h.finished? = some claimId →
      current grant? ends pre = some claimId := by
    intro pre h post claimId heq hused
    obtain ⟨s, e, htold, rfl⟩ := told_before hclaim hversion hforward heq
    rw [← htold.resource.owner]
    rcases hused with hused | hused
    · unfold refreshed? at hused
      split at hused
      · cases hused
        exact owner_of_refreshed ‹_›
      · cases hused
    · unfold finished? at hused
      split at hused
      · cases hused
        exact owner_of_finished ‹_›
      · cases hused
  refine ⟨?_, ?_, ?_⟩
  · intro pre h post claimId heq hused
    obtain ⟨before, claim, after, rfl, hgrant, hafter⟩ := current_eq_some_iff.1 (hcurrent pre h post claimId heq hused)
    refine ⟨before, claim, after, rfl, hgrant, fun h' hh' => ⟨(hafter h' hh').1, ?_⟩⟩
    have hends := (hafter h' hh').2
    rwa [ends, isSome_eq_false_iff, isNone_iff_eq_none] at hends
  · refine nodup_closes (fun h hh => ?_) (fun pre h post c heq hc => hcurrent pre h post c heq (.inr hc)) hgrants
    refine ⟨?_, hh⟩
    unfold finished? at hh
    split at hh
    · simp only [grant?, *]
    · cases hh
  · intro pre h post _ lease old replica _ _ heq hdeed g hg hrefreshed
    obtain ⟨s, e, htold, rfl⟩ := told_before hclaim hversion hforward heq
    obtain ⟨_, hlast, h₀, hh₀, hgives, hclock⟩ := due_of_tookOver htold hdeed
    have hnodup : (pre.filterMap lease?).Nodup := by
      rw [heq] at hleases
      exact hleases.sublist ((sublist_append_left pre _).filterMap _)
    have hlease : g.lease?.isSome := by
      revert hrefreshed
      unfold refreshed? lease?
      split <;> simp_all
    -- the lease that was seen is the last one, so that the refresh is not after it
    obtain ⟨pre', _, rfl, hbefore | rfl⟩ := eq_or_mem_before hnodup hlast hh₀ hgives hg hlease
    · rw [append_assoc] at heq
      have hle := clock_le hforward heq hbefore replica
      omega
    · exact hclock

/-- No takeover follows a read by less than a lease duration after a refresh of the old claim. -/
def SparesUntilRead (es : List Event) : Prop :=
  ∀ pre get mid patch post i read uninitialized claimId lease old replica leaseDuration checkedAt,
    es = pre ++ get :: mid ++ patch :: post → get.act = .go i → patch.act = .go i →
    (run step s (pre ++ [get])).jobs[i]?.map Running.progress = some (.checking read uninitialized) →
    deed (run step s (pre ++ get :: mid)) patch = some (.tookOver claimId lease (some old) replica leaseDuration checkedAt) →
    ∀ g ∈ s.happenings pre, g.refreshed? = some old → g.clock replica + leaseDuration ≤ get.clock replica

def moment (m : ℕ × ℕ × Act) : Event := ⟨fun _ => m.1, m.1, m.2.1, m.2.2⟩

theorem forward_moments {ms : List (ℕ × ℕ × Act)} (h : ms.Pairwise fun m m' => m.1 ≤ m'.1) : Forward (ms.map moment) := by
  rw [Forward, List.map_map, pairwise_map]
  exact h.imp fun hle _ => hle

def slowCheck : List (ℕ × ℕ × Act) :=
  [(0, 0, .start 0 (.claim "owner" 30)), (1, 0, .go 0), (1, 0, .go 0), (2, 0, .go 0), (3, 33, .go 0),
   (9, 0, .start 0 (.refresh "owner" 30)), (9, 39, .go 1),
   (10, 0, .start 1 (.claim "waiter" 30)), (10, 0, .go 2), (10, 0, .go 2),
   (15, 0, .start 1 (.claim "waiter" 30)), (15, 0, .go 3), (41, 0, .go 3), (41, 71, .go 3)]

theorem slowCheck_spared : (⟨fun _ => 9, some (.refreshed "owner" 39)⟩ : Happening).clock 1 + 30 ≤ 41 :=
  have hclaim : (Option.bind (none : Option Resource) Resource.status).bind Status.claimId = none := rfl
  have hversion : ∀ r ∈ (none : Option Resource), r.version ≤ 0 := by rintro _ ⟨⟩
  have hforward : Forward (slowCheck.map moment) := forward_moments (by decide)
  (kubernetes_download_fencing hclaim hversion hforward (by decide +kernel) (by decide +kernel)).2.2
    ((idle none 0).happenings ((slowCheck.take 13).map moment))
    ⟨fun _ => 41, some (.tookOver "waiter" 71 (some "owner") 1 30 41)⟩ [] "waiter" 71 "owner" 1 30 41 rfl rfl
    _ (mem_of_getElem? (i := 6) rfl) rfl

/-- The owner's refresh at 9 is within the lease duration before the read at 15. -/
theorem slowCheck_not_spared_until_read :
    (idle none 0).owner = none ∧ Forward (slowCheck.map moment) ∧
      (((idle none 0).happenings (slowCheck.map moment)).filterMap Happening.grant?).Nodup ∧
      (((idle none 0).happenings (slowCheck.map moment)).filterMap Happening.lease?).Nodup ∧
      ¬ SparesUntilRead (idle none 0) (slowCheck.map moment) := by
  refine ⟨rfl, forward_moments (by decide), by decide +kernel, by decide +kernel, fun hspares => ?_⟩
  have hle := hspares ((slowCheck.take 11).map moment) (moment (15, 0, .go 3)) [moment (41, 0, .go 3)]
    (moment (41, 71, .go 3)) [] 3
    ⟨3, some ⟨some .downloading, some 3, some 9, some (some "Starting download..."), some "owner", some 39⟩⟩
    false "waiter" 71 "owner" 1 30 41 rfl rfl rfl (by decide +kernel) (by decide +kernel)
    ⟨fun _ => 9, some (.refreshed "owner" 39)⟩ (mem_of_getElem? (i := 6) rfl) rfl
  exact absurd hle (by decide)

end Cluster

end ModelExpress.Registry.Kubernetes
