/-
  ModelExpress server — the in-memory backend of the model registry
  (`registry/backend/memory.rs`).

  Two tables under one lock: the records, and the leases of the downloads.  `maxUtc` is the
  last instant that `chrono::DateTime<Utc>` represents; a lease that would end after it
  ends at once.
-/
import Mathlib.Algebra.Ring.Nat
import Mathlib.Data.List.AList
import ModelExpress.Registry.Types

namespace ModelExpress.Registry.Memory

structure DownloadLease where
  claimId : String
  expiresAt : ℕ
  deriving DecidableEq

structure State where
  models : AList fun _ : String => ModelRecord
  leases : AList fun _ : String => DownloadLease

def State.new : State := ⟨∅, ∅⟩

/-- `TimeDelta::from_std` takes at most `i64::MAX` milliseconds. -/
def maxTimeDelta : ℕ := (2 ^ 63 - 1) * 1000000

section
variable (maxUtc : ℕ)

def leaseDeadline (now duration : ℕ) : ℕ :=
  if duration ≤ maxTimeDelta ∧ now + duration ≤ maxUtc then now + duration else now

variable (s : State) (now : ℕ) (name : String) (provider : ModelProvider)

def setStatus (status : ModelStatus) (message : Option String) : State where
  models := s.models.insert name <|
    match s.models.lookup name with
    | some record => { record with provider, status, message, lastUsedAt := now }
    | none => { modelName := name, provider, status, createdAt := now, lastUsedAt := now, message }
  leases := if status ≠ .downloading then s.leases.erase name else s.leases

def touchModel : State :=
  match s.models.lookup name with
  | some record => { s with models := s.models.insert name { record with lastUsedAt := now } }
  | none => s

def deleteModel : State := ⟨s.models.erase name, s.leases.erase name⟩

variable (claimId : String)

def tryClaimForDownload (duration : ℕ) : State × ClaimOutcome :=
  let lease : DownloadLease := ⟨claimId, leaseDeadline maxUtc now duration⟩
  let expired := (s.leases.lookup name).all fun lease => lease.expiresAt ≤ now
  match s.models.lookup name with
  | some existing =>
    if existing.status = .downloading ∧ expired then
      ({ models := s.models.insert name { existing with
          provider
          lastUsedAt := now
          message := some "Taking over expired download lease..." }
         leases := s.leases.insert name lease }, .tookOver)
    else (s, .alreadyExists existing.status)
  | none =>
    ({ models := s.models.insert name {
        modelName := name, provider, status := .downloading, createdAt := now, lastUsedAt := now, message := none }
       leases := s.leases.insert name lease }, .claimed)

def tryResetErrorForRetry (duration : ℕ) : State × Bool :=
  match s.models.lookup name with
  | some record =>
    if record.status = .error then
      ({ models := s.models.insert name { record with
          provider
          status := .downloading
          message := some "Retrying download..."
          lastUsedAt := now }
         leases := s.leases.insert name ⟨claimId, leaseDeadline maxUtc now duration⟩ }, true)
    else (s, false)
  | none => (s, false)

/-- The test that `refresh_download_claim` and `finish_download_claim` begin with; what they then write to. -/
def owned (name claimId : String) : Option (ModelRecord × DownloadLease) := do
  let record ← s.models.lookup name
  let lease ← s.leases.lookup name
  if lease.claimId = claimId ∧ record.status = .downloading then some (record, lease) else none

def refreshDownloadClaim (duration : ℕ) : State × Bool :=
  match owned s name claimId with
  | some (record, lease) =>
    ({ models := s.models.insert name { record with provider, lastUsedAt := now }
       leases := s.leases.insert name { lease with expiresAt := leaseDeadline maxUtc now duration } }, true)
  | none => (s, false)

def finishDownloadClaim (status : ModelStatus) (message : Option String) : State × Bool :=
  match owned s name claimId with
  | some (record, _) =>
    ({ models := s.models.insert name { record with provider, status, message, lastUsedAt := now }
       leases := s.leases.erase name }, true)
  | none => (s, false)

def step : Call → State × Answer
  | .setStatus name provider status message => (setStatus s now name provider status message, .done)
  | .touchModel name => (touchModel s now name, .done)
  | .deleteModel name => (deleteModel s name, .done)
  | .tryClaimForDownload name provider claimId duration =>
    (tryClaimForDownload maxUtc s now name provider claimId duration).map id .claim
  | .tryResetErrorForRetry name provider claimId duration =>
    (tryResetErrorForRetry maxUtc s now name provider claimId duration).map id .won
  | .refreshDownloadClaim name provider claimId duration =>
    (refreshDownloadClaim maxUtc s now name provider claimId duration).map id .won
  | .finishDownloadClaim name provider claimId status message =>
    (finishDownloadClaim s now name provider claimId status message).map id .won

end

def getModelRecord (s : State) (name : String) : Option ModelRecord := s.models.lookup name

def getStatus (s : State) (name : String) : Option ModelStatus := (getModelRecord s name).map (·.status)

end ModelExpress.Registry.Memory
