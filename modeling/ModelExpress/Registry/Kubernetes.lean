/-
  ModelExpress server — the Kubernetes backend of the model registry (`registry/backend/kubernetes.rs`), on
  one provider-scoped resource. The API calls of all replicas interleave, so a `Job` remembers what it has
  read (`Progress`).
-/
import ModelExpress.Lib.Run
import ModelExpress.Registry.Types

namespace ModelExpress.Registry.Kubernetes

inductive PhaseText where
  | downloading
  | downloaded
  | error
  | other (text : String)
  deriving DecidableEq

def statusFromPhase : Option PhaseText → ModelStatus
  | some .downloading => .downloading
  | some .downloaded => .downloaded
  | some .error => .error
  | some (.other text) => if text = "" then .downloading else .error
  | none => .downloading

def phaseFromStatus : ModelStatus → PhaseText
  | .downloading => .downloading
  | .downloaded => .downloaded
  | .error => .error

/-- `ModelCacheEntryStatus`; the message may be there and `null`. -/
structure Status where
  phase : Option PhaseText
  createdAt : Option ℕ
  lastUsedAt : Option ℕ
  message : Option (Option String)
  claimId : Option String
  leaseExpiresAt : Option ℕ
  deriving DecidableEq

def Status.empty : Status := ⟨none, none, none, none, none, none⟩

structure Resource where
  version : ℕ
  status : Option Status
  deriving DecidableEq

structure Fingerprint where
  claimId : Option String
  leaseExpiresAt : Option ℕ
  deriving DecidableEq

def Resource.fingerprint (cr : Resource) : Fingerprint :=
  ⟨(cr.status.getD .empty).claimId, (cr.status.getD .empty).leaseExpiresAt⟩

structure Observation where
  fingerprint : Fingerprint
  observedAt : ℕ
  deriving DecidableEq

def leaseObservationExpired (observation : Option Observation) (fingerprint : Fingerprint) (now leaseDuration : ℕ) :
    Observation × Bool :=
  match observation with
  | some observation =>
    if observation.fingerprint = fingerprint then (observation, leaseDuration ≤ now - observation.observedAt)
    else (⟨fingerprint, now⟩, leaseDuration = 0)
  | none => (⟨fingerprint, now⟩, leaseDuration = 0)

/-! ## Patches

The status that a patch leaves, or `none` if the API server rejects it. -/

section
variable (cr : Option Resource) (claimId : String) (utc lease : ℕ)

/-- The patch of `try_claim_existing`, on what it has read. -/
def claimPatch (read : Resource) : Option Status :=
  match cr with
  | none => none
  | some cr =>
    if cr.version ≠ read.version then none
    else if read.status = none then
      some ⟨some .downloading, some utc, some utc, some (some "Starting download..."), some claimId, some lease⟩
    else
      match cr.status with
      | none => none
      | some status =>
        if status.phase ≠ some .downloading then none
        else some { status with
          claimId := some claimId
          leaseExpiresAt := some lease
          message := some (some "Taking over expired download lease...")
          lastUsedAt := some utc }

/-- The patch of `try_reset_error_for_retry`; `replace` needs the field. -/
def retryPatch : Option Status :=
  match cr.bind Resource.status with
  | none => none
  | some status =>
    if status.phase ≠ some .error ∨ status.message = none ∨ status.lastUsedAt = none then none
    else some { status with
      phase := some .downloading
      message := some (some "Retrying download...")
      lastUsedAt := some utc
      claimId := some claimId
      leaseExpiresAt := some lease }

def refreshPatch : Option Status :=
  match cr.bind Resource.status with
  | none => none
  | some status =>
    if status.phase ≠ some .downloading ∨ status.claimId ≠ some claimId then none
    else some { status with leaseExpiresAt := some lease, lastUsedAt := some utc }

def finishPatch (outcome : ModelStatus) (message : Option String) : Option Status :=
  match cr.bind Resource.status with
  | none => none
  | some status =>
    if status.phase ≠ some .downloading ∨ status.claimId ≠ some claimId then none
    else some { status with
      phase := some (phaseFromStatus outcome)
      message := some message
      lastUsedAt := some utc
      claimId := none
      leaseExpiresAt := none }

/-- The merge patch of `touch_model`; it makes a status where there is none. -/
def touchPatch : Option Status := cr.map fun cr => { cr.status.getD .empty with lastUsedAt := some utc }

end

/-! ## Jobs -/

inductive Job where
  | claim (claimId : String) (leaseDuration : ℕ)
  | retry (claimId : String) (leaseDuration : ℕ)
  | refresh (claimId : String) (leaseDuration : ℕ)
  | finish (claimId : String) (status : ModelStatus) (message : Option String)
  | touch
  deriving DecidableEq

inductive Progress where
  | getting
  /-- There was no resource, nor a legacy one: `create`. -/
  | creating
  /-- Another replica has created it: `get_cr` again. -/
  | regetting
  /-- `try_claim_existing` up to its patch. -/
  | checking (read : Resource) (claimUninitialized : Bool)
  /-- The claim's patch; `checkedAt` is the clock at the check. -/
  | claiming (read : Resource) (fresh : Bool) (checkedAt : ℕ)
  /-- The patch was rejected: `get_cr` for the answer. -/
  | rereading
  | patching
  | returned (answer : Answer)
  | failed (message : String)
  deriving DecidableEq

structure Running where
  replica : ℕ
  job : Job
  progress : Progress
  deriving DecidableEq

def Job.start : Job → Progress
  | claim .. | retry .. | touch => .getting
  | refresh .. | finish .. => .patching

structure Cluster where
  cr : Option Resource
  writes : ℕ
  observations : ℕ → Option Observation
  jobs : List Running

inductive Act where
  | start (replica : ℕ) (job : Job)
  | go (i : ℕ)
  deriving DecidableEq

structure Event where
  clock : ℕ → ℕ
  utc : ℕ
  lease : ℕ
  act : Act

namespace Cluster

variable (s : Cluster)

def write (status : Option Status) : Cluster :=
  { s with cr := some ⟨s.writes + 1, status⟩, writes := s.writes + 1 }

def advance (i : ℕ) (r : Running) (progress : Progress) : Cluster :=
  { s with jobs := s.jobs.set i { r with progress } }

def observe (replica : ℕ) (observation : Option Observation) : Cluster :=
  { s with observations := Function.update s.observations replica observation }

def afterGet : Job → Progress
  | .claim .. =>
    match s.cr with
    | some cr => .checking cr false
    | none => .creating
  | .retry .. =>
    if (s.cr.bind Resource.status).bind Status.phase = some .error then .patching else .returned (.won false)
  | .touch => if s.cr.isSome then .patching else .returned .done
  | .refresh .. | .finish .. => .patching

def stepCheck (e : Event) (i : ℕ) (r : Running) (leaseDuration : ℕ) (read : Resource)
    (claimUninitialized : Bool) : Cluster :=
  let current := statusFromPhase (read.status.bind Status.phase)
  if current ≠ .downloading then (s.observe r.replica none).advance i r (.returned (.claim (.alreadyExists current)))
  else if read.status = none ∧ claimUninitialized = true then s.advance i r (.claiming read true (e.clock r.replica))
  else
    let (observation, expired) :=
      leaseObservationExpired (s.observations r.replica) read.fingerprint (e.clock r.replica) leaseDuration
    (s.observe r.replica (some observation)).advance i r
      (if expired then .claiming read false (e.clock r.replica) else .returned (.claim (.alreadyExists .downloading)))

/-- The patch of a job that does not claim, and the answers for a patch that is applied and one that is rejected. -/
def patch (e : Event) : Job → Option Status × Progress × Progress
  | .retry claimId _ => (retryPatch s.cr claimId e.utc e.lease, .returned (.won true), .returned (.won false))
  | .refresh claimId _ => (refreshPatch s.cr claimId e.utc e.lease, .returned (.won true), .returned (.won false))
  | .finish claimId status message =>
    (finishPatch s.cr claimId e.utc status message, .returned (.won true), .returned (.won false))
  | .touch => (touchPatch s.cr e.utc, .returned .done, .failed "not found")
  -- a claim's patch is conditioned on what it has read
  | .claim .. => (none, .rereading, .rereading)

/-- A job that has written as the owner forgets its observation. -/
def forgets : Job → Bool
  | .retry .. | .finish .. => true
  | .claim .. | .refresh .. | .touch => false

def stepJob (e : Event) (i : ℕ) (r : Running) : Cluster :=
  match r.progress, r.job with
  | .getting, job => s.advance i r (s.afterGet job)
  | .creating, _ =>
    match s.cr with
    | none => (s.write none).advance i r (.checking ⟨s.writes + 1, none⟩ true)
    | some _ => s.advance i r .regetting
  | .regetting, _ =>
    match s.cr with
    | some cr => s.advance i r (.checking cr false)
    | none => s.advance i r (.failed "ModelCacheEntry disappeared between 409 and GET")
  | .checking read claimUninitialized, .claim _ leaseDuration => s.stepCheck e i r leaseDuration read claimUninitialized
  | .claiming read fresh _, .claim claimId _ =>
    match claimPatch s.cr claimId e.utc e.lease read with
    | some status =>
      ((s.write (some status)).observe r.replica none).advance i r
        (.returned (.claim (if fresh then .claimed else .tookOver)))
    | none => s.advance i r .rereading
  | .rereading, _ =>
    let current := ((s.cr.bind Resource.status).map fun status => statusFromPhase status.phase).getD .downloading
    s.advance i r (.returned (.claim (.alreadyExists current)))
  | .patching, job =>
    match s.patch e job with
    | (some status, answer, _) =>
      ((s.write (some status)).observe r.replica (if forgets job then none else s.observations r.replica)).advance i r answer
    | (none, _, answer) => s.advance i r answer
  | _, _ => s

def step (e : Event) : Cluster :=
  match e.act with
  | .start replica job => { s with jobs := s.jobs ++ [⟨replica, job, job.start⟩] }
  | .go i =>
    match s.jobs[i]? with
    | some r => s.stepJob e i r
    | none => s

def idle (cr : Option Resource) (writes : ℕ) : Cluster := ⟨cr, writes, fun _ => none, []⟩

end Cluster

end ModelExpress.Registry.Kubernetes
