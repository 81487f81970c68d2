/-
  ModelExpress server — the Redis backend of the model registry (`registry/backend/redis.rs`).

  A record is one hash at `mx:model:{provider}:{model_name}`; records of releases before
  0.5.0 lie at `mx:model:{model_name}` and are moved by the first claim that finds them.
  Each call is one script and runs without interruption.  A key without fields does not
  exist, so an absent key reads as the empty hash.
-/
import Mathlib.Algebra.Ring.Nat
import Mathlib.Data.List.AList
import Mathlib.Data.List.Sort
import ModelExpress.Lib.Text
import ModelExpress.Registry.Types

namespace ModelExpress.Registry

/-! ## Keys -/

def providerStr : ModelProvider → String
  | .huggingFace => "HuggingFace"
  | .ngc => "Ngc"
  | .gcs => "Gcs"
  | .s3 => "S3"

def allProviders : List ModelProvider := [.huggingFace, .ngc, .gcs, .s3]

def modelKey (provider : ModelProvider) (modelName : String) : String :=
  "mx:model:" ++ providerStr provider ++ ":" ++ modelName

def legacyModelKey (modelName : String) : String := "mx:model:" ++ modelName

def candidateKeys (modelName : String) : List String :=
  allProviders.map (modelKey · modelName) ++ [legacyModelKey modelName]

/-! ## Hashes and the keyspace -/

structure Hash where
  status : Option ModelStatus
  provider : Option ModelProvider
  createdAt : Option ℕ
  lastUsedAt : Option ℕ
  message : Option String
  claimId : Option String
  leaseExpiresAt : Option ℕ
  deriving DecidableEq

def Hash.empty : Hash := ⟨none, none, none, none, none, none, none⟩

abbrev Keyspace := AList fun _ : String => Hash

namespace Keyspace

variable (ks : Keyspace)

def get (key : String) : Hash := (ks.lookup key).getD .empty

def put (key : String) (hash : Hash) : Keyspace :=
  if hash = .empty then ks.erase key else ks.insert key hash

@[simp] theorem get_put (key key' : String) (hash : Hash) :
    (ks.put key hash).get key' = if key' = key then hash else ks.get key' := by
  unfold put get
  split_ifs with hempty hkey hkey
  · rw [hkey, AList.lookup_erase, hempty]
    rfl
  · rw [AList.lookup_erase_ne hkey]
  · rw [hkey, AList.lookup_insert]
    rfl
  · rw [AList.lookup_insert_ne hkey]

theorem get_put_self (key : String) (hash : Hash) : (ks.put key hash).get key = hash := by simp

theorem get_put_of_ne {ks : Keyspace} {key key' : String} {hash : Hash} (h : key' ≠ key) :
    (ks.put key hash).get key' = ks.get key' := by
  simp [h]

def del (keys : List String) : Keyspace := keys.foldl (fun ks key => ks.put key .empty) ks

@[simp] theorem get_del (keys : List String) (key : String) :
    (ks.del keys).get key = if key ∈ keys then .empty else ks.get key := by
  unfold del
  induction keys generalizing ks with
  | nil => simp
  | cons k keys ih =>
    rw [List.foldl_cons, ih, get_put]
    by_cases hkey : key = k <;> by_cases hkeys : key ∈ keys <;> simp [hkey, hkeys]

end Keyspace

/-! ## The scripts -/

structure Moment where
  utc : ℕ
  /-- `TIME` of the server: seconds and microseconds. -/
  time : ℕ × ℕ
  deriving DecidableEq

def Moment.ms (now : Moment) : ℕ := now.time.1 * 1000 + now.time.2 / 1000

def leaseDurationMillis (duration : ℕ) : ℕ := min (duration / 1000000) (2 ^ 64 - 1)

section
variable (now : Moment) (provider : ModelProvider) (claimId : String) (leaseTtlMs : ℕ) (ks : Keyspace) (key : String)

/-- `claim_existing` of `CLAIM_LUA`. -/
def claimExisting (status : ModelStatus) : Keyspace × ClaimOutcome :=
  if status ≠ .downloading then (ks, .alreadyExists status)
  else if (ks.get key).leaseExpiresAt.any (now.ms < ·) then (ks, .alreadyExists status)
  else
    (ks.put key { ks.get key with
        provider := some provider
        lastUsedAt := some now.utc
        message := some "Taking over expired download lease..."
        claimId := some claimId
        leaseExpiresAt := some (now.ms + leaseTtlMs) }, .tookOver)

/-- The last part of `CLAIM_LUA`: populate the fields. -/
def claimFresh : Keyspace × ClaimOutcome :=
  (ks.put key { ks.get key with
      status := some .downloading
      provider := some provider
      createdAt := some now.utc
      lastUsedAt := some now.utc
      message := some "Starting download..."
      claimId := some claimId
      leaseExpiresAt := some (now.ms + leaseTtlMs) }, .claimed)

def claimScript (key legacy : String) : Keyspace × ClaimOutcome :=
  match (ks.get key).status with
  | some existing => claimExisting now provider claimId leaseTtlMs ks key existing
  | none =>
    match (ks.get legacy).status with
    | some legacyStatus =>
      if (ks.get legacy).provider = some provider then
        -- `RENAME`
        claimExisting now provider claimId leaseTtlMs ((ks.put key (ks.get legacy)).put legacy .empty) key legacyStatus
      else claimFresh now provider claimId leaseTtlMs ks key
    | none => claimFresh now provider claimId leaseTtlMs ks key

def retryScript : Keyspace × Bool :=
  if (ks.get key).status ≠ some .error then (ks, false)
  else
    (ks.put key { ks.get key with
        status := some .downloading
        provider := some provider
        lastUsedAt := some now.utc
        message := some "Retrying download..."
        claimId := some claimId
        leaseExpiresAt := some (now.ms + leaseTtlMs) }, true)

def refreshScript : Keyspace × Bool :=
  if (ks.get key).status ≠ some .downloading then (ks, false)
  else if (ks.get key).claimId ≠ some claimId then (ks, false)
  else
    (ks.put key { ks.get key with
        leaseExpiresAt := some (now.ms + leaseTtlMs)
        lastUsedAt := some now.utc }, true)

def finishScript (status : ModelStatus) (message : Option String) (ks : Keyspace) (key : String) : Keyspace × Bool :=
  if (ks.get key).status ≠ some .downloading then (ks, false)
  else if (ks.get key).claimId ≠ some claimId then (ks, false)
  else
    (ks.put key { ks.get key with
        status := some status
        provider := some provider
        lastUsedAt := some now.utc
        message := message
        claimId := none
        leaseExpiresAt := none }, true)

def setStatusScript (status : ModelStatus) (message : Option String) (ks : Keyspace) (key : String) : Keyspace :=
  ks.put key { ks.get key with
    status := some status
    provider := some provider
    lastUsedAt := some now.utc
    message := message
    createdAt := (ks.get key).createdAt <|> some now.utc
    claimId := if status = .downloading then (ks.get key).claimId else none
    leaseExpiresAt := if status = .downloading then (ks.get key).leaseExpiresAt else none }

/-- `TOUCH_LUA`: the first key that exists. -/
def touchScript (keys : List String) : Keyspace :=
  match keys.find? fun key => ks.get key ≠ .empty with
  | some key => ks.put key { ks.get key with lastUsedAt := some now.utc }
  | none => ks

end

/-! ## The backend -/

namespace Redis

variable (ks : Keyspace)

def step (now : Moment) : Call → Keyspace × Answer
  | .setStatus name provider status message =>
    (setStatusScript now provider status message ks (modelKey provider name), .done)
  | .touchModel name => (touchScript now ks (candidateKeys name), .done)
  | .deleteModel name => (ks.del (candidateKeys name), .done)
  | .tryClaimForDownload name provider claimId duration =>
    (claimScript now provider claimId (leaseDurationMillis duration) ks (modelKey provider name)
      (legacyModelKey name)).map id .claim
  | .tryResetErrorForRetry name provider claimId duration =>
    (retryScript now provider claimId (leaseDurationMillis duration) ks (modelKey provider name)).map id .won
  | .refreshDownloadClaim name provider claimId duration =>
    (refreshScript now claimId (leaseDurationMillis duration) ks (modelKey provider name)).map id .won
  | .finishDownloadClaim name provider claimId status message =>
    (finishScript now provider claimId status message ks (modelKey provider name)).map id .won

/-- `get_status`: of the first candidate key that has one. -/
def getStatus (name : String) : Option ModelStatus :=
  (candidateKeys name).findSome? fun key => (ks.get key).status

/-- `record_from_hash`; `none` if a field is missing. -/
def recordFromHash (name : String) (hash : Hash) : Option ModelRecord := do
  return {
    modelName := name
    provider := ← hash.provider
    status := ← hash.status
    createdAt := ← hash.createdAt
    lastUsedAt := ← hash.lastUsedAt
    message := hash.message }

inductive RecordError where
  | missingField
  deriving DecidableEq

/-- `get_model_record`: from the first candidate key that exists. -/
def getModelRecord (name : String) : Except RecordError (Option ModelRecord) :=
  match (candidateKeys name).find? fun key => ks.get key ≠ .empty with
  | some key => ((recordFromHash name (ks.get key)).elim (.error .missingField) fun record => .ok (some record))
  | none => .ok none

def modelNameFromKey (key : String) : Option String := do
  let rest ← Text.after? "mx:model:".toList key.toList
  return String.ofList ((allProviders.findSome? fun p => Text.after? ((providerStr p).toList ++ [':']) rest).getD rest)

/-- `get_models_by_last_used` without a limit.  `keys` is what `SCAN` returned, each key once. -/
def getModelsByLastUsed (keys : List String) : List ModelRecord :=
  (keys.filterMap fun key =>
    if ks.get key = .empty then none
    else (modelNameFromKey key).bind fun name => recordFromHash name (ks.get key)).insertionSort
      fun a b => a.lastUsedAt ≤ b.lastUsedAt

end Redis

end ModelExpress.Registry
