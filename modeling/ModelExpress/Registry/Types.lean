/-
  ModelExpress server — the model registry: records, outcomes and calls.

  A backend implements the `RegistryBackend` trait; `Call` lists the trait's writing calls,
  `Answer` what they return.

  Instants are `chrono::DateTime<Utc>` in nanoseconds, durations are `std::time::Duration` in
  nanoseconds.
-/
import Mathlib.Data.Nat.Notation

namespace ModelExpress.Registry

inductive ModelStatus where
  | downloading
  | downloaded
  | error
  deriving DecidableEq

inductive ModelProvider where
  | huggingFace
  | ngc
  | gcs
  | s3
  deriving DecidableEq

structure ModelRecord where
  modelName : String
  provider : ModelProvider
  status : ModelStatus
  createdAt : ℕ
  lastUsedAt : ℕ
  message : Option String
  deriving DecidableEq

inductive ClaimOutcome where
  | claimed
  | tookOver
  | alreadyExists (status : ModelStatus)
  deriving DecidableEq

inductive Call where
  | setStatus (modelName : String) (provider : ModelProvider) (status : ModelStatus) (message : Option String)
  | touchModel (modelName : String)
  | deleteModel (modelName : String)
  | tryClaimForDownload (modelName : String) (provider : ModelProvider) (claimId : String) (leaseDuration : ℕ)
  | tryResetErrorForRetry (modelName : String) (provider : ModelProvider) (claimId : String) (leaseDuration : ℕ)
  | refreshDownloadClaim (modelName : String) (provider : ModelProvider) (claimId : String) (leaseDuration : ℕ)
  | finishDownloadClaim (modelName : String) (provider : ModelProvider) (claimId : String) (status : ModelStatus)
      (message : Option String)
  deriving DecidableEq

namespace Call

def modelName : Call → String
  | setStatus name .. | touchModel name | deleteModel name | tryClaimForDownload name .. | tryResetErrorForRetry name ..
  | refreshDownloadClaim name .. | finishDownloadClaim name .. => name

/-- The provider a call is made with; a touch and a delete name the model only. -/
def provider? : Call → Option ModelProvider
  | setStatus _ provider .. | tryClaimForDownload _ provider .. | tryResetErrorForRetry _ provider ..
  | refreshDownloadClaim _ provider .. | finishDownloadClaim _ provider .. => some provider
  | touchModel _ | deleteModel _ => none

def leaseDuration? : Call → Option ℕ
  | tryClaimForDownload _ _ _ duration | tryResetErrorForRetry _ _ _ duration | refreshDownloadClaim _ _ _ duration =>
    some duration
  | setStatus .. | touchModel _ | deleteModel _ | finishDownloadClaim .. => none

end Call

inductive Answer where
  | done
  | claim (outcome : ClaimOutcome)
  | won (won : Bool)
  deriving DecidableEq

end ModelExpress.Registry
