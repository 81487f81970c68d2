/-
  ModelExpress server — what a registry keeps for one model.
-/
import ModelExpress.Registry.Memory
import ModelExpress.Registry.Redis

namespace ModelExpress.Registry

open List Option

/-- Who fills the record, and until when nobody else may. -/
structure Claim where
  claimId : String
  expiresAt : ℕ
  deriving DecidableEq

structure Entry where
  provider : ModelProvider
  status : ModelStatus
  createdAt : ℕ
  lastUsedAt : ℕ
  claim : Option Claim
  deriving DecidableEq

namespace Entry

/-- The claim belongs to `claimId` and its download is under way. -/
def OwnedBy (claimId : String) (e : Entry) : Prop :=
  e.status = .downloading ∧ e.claim.any fun claim => claim.claimId = claimId

instance (claimId : String) (e : Entry) : Decidable (e.OwnedBy claimId) := inferInstanceAs (Decidable (_ ∧ _))

/-- Nobody is filling the record, or not in time. -/
def Abandoned (ms : ℕ) (e : Entry) : Prop := e.status = .downloading ∧ e.claim.all fun claim => claim.expiresAt ≤ ms

instance (ms : ℕ) (e : Entry) : Decidable (e.Abandoned ms) := inferInstanceAs (Decidable (_ ∧ _))

/-- What a call does to the entry of its model at the instant `utc`, leases being counted from `ms`. -/
def step (utc ms : ℕ) (entry : Option Entry) : Call → Option Entry × Answer
  | .setStatus _ provider status _ =>
    (some {
      provider, status
      createdAt := (entry.map createdAt).getD utc
      lastUsedAt := utc
      claim := if status = .downloading then entry.bind claim else none }, .done)
  | .touchModel _ => (entry.map fun e => { e with lastUsedAt := utc }, .done)
  | .deleteModel _ => (none, .done)
  | .tryClaimForDownload _ provider claimId duration =>
    let granted : Claim := ⟨claimId, ms + leaseDurationMillis duration⟩
    match entry with
    | none =>
      (some { provider, status := .downloading, createdAt := utc, lastUsedAt := utc, claim := some granted },
        .claim .claimed)
    | some e =>
      if e.Abandoned ms then
        (some { e with provider, lastUsedAt := utc, claim := some granted }, .claim .tookOver)
      else (entry, .claim (.alreadyExists e.status))
  | .tryResetErrorForRetry _ provider claimId duration =>
    match entry with
    | none => (entry, .won false)
    | some e =>
      if e.status = .error then
        (some { e with
          provider
          status := .downloading
          lastUsedAt := utc
          claim := some ⟨claimId, ms + leaseDurationMillis duration⟩ }, .won true)
      else (entry, .won false)
  | .refreshDownloadClaim _ _ claimId duration =>
    match entry with
    | none => (entry, .won false)
    | some e =>
      if e.OwnedBy claimId then
        (some { e with lastUsedAt := utc, claim := some ⟨claimId, ms + leaseDurationMillis duration⟩ }, .won true)
      else (entry, .won false)
  | .finishDownloadClaim _ provider claimId status _ =>
    match entry with
    | none => (entry, .won false)
    | some e =>
      if e.OwnedBy claimId then (some { e with provider, status, lastUsedAt := utc, claim := none }, .won true)
      else (entry, .won false)

end Entry

/-! ## Keys -/

variable {p p' : ModelProvider}

theorem providerStr_inj (h : providerStr p = providerStr p') : p = p' := by
  revert h
  cases p <;> cases p' <;> decide

theorem notMem_providerStr (p : ModelProvider) : ':' ∉ (providerStr p).toList := by
  cases p <;> decide

theorem toList_modelKey (p : ModelProvider) (name : String) :
    (modelKey p name).toList = "mx:model:".toList ++ ((providerStr p).toList ++ ':' :: name.toList) := by
  simp [modelKey]

theorem modelKey_inj {name name' : String} (h : modelKey p name = modelKey p' name') : p = p' ∧ name = name' := by
  have hlist := congrArg String.toList h
  rw [toList_modelKey, toList_modelKey] at hlist
  -- the provider has no colon, so the first one ends it
  obtain ⟨hprovider, hname⟩ :=
    Framing.split_first (notMem_providerStr p) (notMem_providerStr p') (append_cancel_left hlist)
  exact ⟨providerStr_inj (String.toList_inj.1 hprovider), String.toList_inj.1 hname⟩

theorem modelKey_ne_legacyModelKey (p : ModelProvider) (name : String) : modelKey p name ≠ legacyModelKey name := by
  intro h
  have hlength := congrArg String.length h
  simp only [modelKey, legacyModelKey, String.length_append] at hlength
  have hcolon : ":".length = 1 := rfl
  omega

theorem modelKey_mem_candidateKeys (p : ModelProvider) (name : String) : modelKey p name ∈ candidateKeys name := by
  refine mem_append_left _ (mem_map_of_mem (f := (modelKey · name)) ?_)
  cases p <;> decide

theorem legacyModelKey_mem_candidateKeys (name : String) : legacyModelKey name ∈ candidateKeys name :=
  mem_append_right _ (mem_singleton_self _)

/-! ## The Redis scripts -/

/-- The hash has the fields of the entry, whatever its message. -/
def Hash.Is (hash : Hash) : Option Entry → Prop
  | none => hash = .empty
  | some e =>
    hash.status = some e.status ∧ hash.provider = some e.provider ∧ hash.createdAt = some e.createdAt ∧
      hash.lastUsedAt = some e.lastUsedAt ∧ hash.claimId = e.claim.map (·.claimId) ∧
      hash.leaseExpiresAt = e.claim.map (·.expiresAt)

variable {e : Entry} {entry' : Option Entry}

namespace Redis

/-- The entry lies at the key of its provider, and no legacy record is in the way. -/
structure Scoped (ks : Keyspace) (provider : ModelProvider) (name : String) (entry : Option Entry) : Prop where
  is : (ks.get (modelKey provider name)).Is entry
  legacy : ks.get (legacyModelKey name) = .empty

/-- The entry lies at the key of its provider; no other candidate key exists. -/
structure Holds (ks : Keyspace) (provider : ModelProvider) (name : String) (entry : Option Entry) : Prop where
  is : (ks.get (modelKey provider name)).Is entry
  alone : ∀ key ∈ candidateKeys name, key ≠ modelKey provider name → ks.get key = .empty

variable {ks : Keyspace} {provider : ModelProvider} {name : String} {entry : Option Entry}

theorem Holds.scoped (h : Holds ks provider name entry) : Scoped ks provider name entry where
  is := h.is
  legacy := h.alone _ (legacyModelKey_mem_candidateKeys name) (modelKey_ne_legacyModelKey provider name).symm

theorem Holds.find?_exists (h : Holds ks provider name entry) :
    ((candidateKeys name).find? fun key => ks.get key ≠ .empty) =
      if ks.get (modelKey provider name) = .empty then none else some (modelKey provider name) := by
  split_ifs with hempty
  · refine find?_eq_none.2 fun key hkey => ?_
    by_cases hself : key = modelKey provider name
    · simp [hself, hempty]
    · simp [h.alone key hkey hself]
  · cases hfind : (candidateKeys name).find? fun key => ks.get key ≠ .empty with
    | none =>
      have hself := find?_eq_none.1 hfind _ (modelKey_mem_candidateKeys provider name)
      simp [hempty] at hself
    | some key =>
      have hkey := find?_some hfind
      by_contra hne
      have hne : key ≠ modelKey provider name := fun heq => hne (congrArg some heq)
      simp [h.alone key (mem_of_find?_eq_some hfind) hne] at hkey

/-- The scripts wrote to the key of the model only, and leave it with `entry`. -/
structure Follows (ks ks' : Keyspace) (provider : ModelProvider) (name : String) (entry : Option Entry) : Prop where
  is : (ks'.get (modelKey provider name)).Is entry
  frame : ∀ key, key ≠ modelKey provider name → ks'.get key = ks.get key

theorem follows_put {hash : Hash} (h : hash.Is (some e)) :
    Follows ks (ks.put (modelKey provider name) hash) provider name (some e) where
  is := by rwa [Keyspace.get_put_self]
  frame _ hne := Keyspace.get_put_of_ne hne

theorem Scoped.follows {ks' : Keyspace} (h : Scoped ks provider name entry)
    (hf : Follows ks ks' provider name entry') : Scoped ks' provider name entry' where
  is := hf.is
  legacy := (hf.frame _ (modelKey_ne_legacyModelKey provider name).symm).trans h.legacy

theorem Scoped.empty (h : Scoped ks provider name none) : ks.get (modelKey provider name) = .empty := h.is

theorem Scoped.stays (h : Scoped ks provider name entry) : Follows ks ks provider name entry := ⟨h.is, fun _ _ => rfl⟩

/-- The call does on the keyspace what it does to the entry. -/
def Implements (ks : Keyspace) (now : Moment) (provider : ModelProvider) (name : String) (entry : Option Entry)
    (call : Call) : Prop :=
  Follows ks (step ks now call).1 provider name (Entry.step now.utc now.ms entry call).1 ∧
    (step ks now call).2 = (Entry.step now.utc now.ms entry call).2

section
variable (now : Moment) (claimId : String) (duration : ℕ) (status : ModelStatus) (message : Option String)
  (h : Scoped ks provider name entry)
include h

theorem setStatus_implements : Implements ks now provider name entry (.setStatus name provider status message) := by
  dsimp only [Implements, step, setStatusScript]
  refine ⟨follows_put ?_, rfl⟩
  cases entry with
  | none =>
    simp only [h.empty, Hash.empty, Hash.Is]
    split_ifs <;> simp
  | some e =>
    obtain ⟨-, -, hcreated, -, hclaim, hlease⟩ := h.is
    simp only [hcreated, hclaim, hlease, Hash.Is]
    split_ifs <;> simp

theorem tryClaimForDownload_implements :
    Implements ks now provider name entry (.tryClaimForDownload name provider claimId duration) := by
  cases entry with
  | none =>
    simp only [Implements, step, Prod.map, id, claimScript, h.empty, h.legacy, Hash.empty, claimFresh]
    exact ⟨follows_put ⟨rfl, rfl, rfl, rfl, rfl, rfl⟩, rfl⟩
  | some e =>
    obtain ⟨hstatus, -, hcreated, -, -, hlease⟩ := h.is
    have hheld : (ks.get (modelKey provider name)).leaseExpiresAt.any (now.ms < ·) = true ↔
        ¬ e.claim.all (fun claim => claim.expiresAt ≤ now.ms) = true := by
      cases hc : e.claim <;> simp [hlease, hc]
    simp only [Implements, step, Prod.map, id, claimScript, hstatus, claimExisting, Entry.step]
    by_cases habandoned : e.Abandoned now.ms
    · have hdownloading := habandoned.1
      rw [if_neg (not_not.2 hdownloading), if_neg (mt hheld.1 (not_not.2 habandoned.2)), if_pos habandoned]
      dsimp only
      refine ⟨follows_put ?_, rfl⟩
      exact ⟨rfl, rfl, hcreated, rfl, rfl, rfl⟩
    · rw [if_neg habandoned]
      split_ifs with hdownloading hany
      · exact ⟨h.stays, rfl⟩
      · exact ⟨h.stays, rfl⟩
      · exact absurd ⟨not_not.1 hdownloading, not_not.1 (mt hheld.2 hany)⟩ habandoned

theorem tryResetErrorForRetry_implements :
    Implements ks now provider name entry (.tryResetErrorForRetry name provider claimId duration) := by
  cases entry with
  | none =>
    rw [Implements, step, retryScript, h.empty]
    exact ⟨h.stays, rfl⟩
  | some e =>
    obtain ⟨hstatus, -, hcreated, -, -, -⟩ := h.is
    simp only [Implements, step, Prod.map, id, retryScript, hstatus, ne_eq, some.injEq, Entry.step]
    split_ifs with herror
    · dsimp only
      refine ⟨follows_put ?_, rfl⟩
      exact ⟨rfl, rfl, hcreated, rfl, rfl, rfl⟩
    · exact ⟨h.stays, rfl⟩

theorem owned_iff (he : entry = some e) : (ks.get (modelKey provider name)).status = some .downloading ∧
      (ks.get (modelKey provider name)).claimId = some claimId ↔ e.OwnedBy claimId := by
  subst he
  obtain ⟨hstatus, -, -, -, hclaim, -⟩ := h.is
  rw [hstatus, hclaim, Entry.OwnedBy]
  cases e.claim <;> simp

/-- The checks at the head of both scripts. -/
theorem ite_owned (he : entry = some e) (x y : Keyspace × Bool) :
    (if (ks.get (modelKey provider name)).status ≠ some .downloading then y
      else if (ks.get (modelKey provider name)).claimId ≠ some claimId then y else x) =
        if e.OwnedBy claimId then x else y := by
  simp only [← owned_iff claimId h he]
  split_ifs <;> simp_all

theorem refreshDownloadClaim_implements :
    Implements ks now provider name entry (.refreshDownloadClaim name provider claimId duration) := by
  cases entry with
  | none =>
    rw [Implements, step, refreshScript, h.empty]
    exact ⟨h.stays, rfl⟩
  | some e =>
    obtain ⟨hstatus, hprovider, hcreated, -, -, -⟩ := h.is
    simp only [Implements, step, Prod.map, id, refreshScript, ite_owned claimId h rfl, Entry.step]
    split_ifs with howns
    · have hc := ((owned_iff claimId h rfl).2 howns).2
      exact ⟨follows_put ⟨hstatus, hprovider, hcreated, rfl, hc, rfl⟩, rfl⟩
    · exact ⟨h.stays, rfl⟩

theorem finishDownloadClaim_implements :
    Implements ks now provider name entry (.finishDownloadClaim name provider claimId status message) := by
  cases entry with
  | none =>
    rw [Implements, step, finishScript, h.empty]
    exact ⟨h.stays, rfl⟩
  | some e =>
    obtain ⟨-, -, hcreated, -, -, -⟩ := h.is
    simp only [Implements, step, Prod.map, id, finishScript, ite_owned claimId h rfl, Entry.step]
    split_ifs with howns
    · dsimp only
      refine ⟨follows_put ?_, rfl⟩
      exact ⟨rfl, rfl, hcreated, rfl, rfl, rfl⟩
    · exact ⟨h.stays, rfl⟩

end

theorem touchScript_follows (now : Moment) (h : Holds ks provider name entry) :
    Follows ks (touchScript now ks (candidateKeys name)) provider name
      (Entry.step now.utc now.ms entry (.touchModel name)).1 := by
  rw [touchScript, h.find?_exists]
  cases entry with
  | none =>
    rw [if_pos h.scoped.empty]
    exact h.scoped.stays
  | some e =>
    obtain ⟨hstatus, hprovider, hcreated, -, hclaim, hlease⟩ := h.is
    have hexists : ks.get (modelKey provider name) ≠ .empty := fun hempty => by simp [hempty, Hash.empty] at hstatus
    rw [if_neg hexists]
    exact follows_put ⟨hstatus, hprovider, hcreated, rfl, hclaim, hlease⟩

theorem del_follows (h : Holds ks provider name entry) : Follows ks (ks.del (candidateKeys name)) provider name none where
  is := by
    rw [Keyspace.get_del, if_pos (modelKey_mem_candidateKeys provider name)]
    rfl
  frame key hne := by
    rw [Keyspace.get_del]
    split_ifs with hkey
    · exact (h.alone key hkey hne).symm
    · rfl

variable {call : Call}

theorem Scoped.implements (now : Moment) (h : Scoped ks provider name entry) (hname : call.modelName = name)
    (hprovider : call.provider? = some provider) : Implements ks now provider name entry call := by
  subst hname
  cases call <;> cases hprovider
  case setStatus.refl => exact setStatus_implements now _ _ h
  case tryClaimForDownload.refl => exact tryClaimForDownload_implements now _ _ h
  case tryResetErrorForRetry.refl => exact tryResetErrorForRetry_implements now _ _ h
  case refreshDownloadClaim.refl => exact refreshDownloadClaim_implements now _ _ h
  case finishDownloadClaim.refl => exact finishDownloadClaim_implements now _ _ _ h

theorem provider?_cases (hname : call.modelName = name) (hprovider : ∀ p ∈ call.provider?, p = provider) :
    call.provider? = some provider ∨ call = .touchModel name ∨ call = .deleteModel name := by
  cases hp : call.provider? with
  | some p =>
    obtain rfl := hprovider p hp
    exact .inl rfl
  | none =>
    subst hname
    cases call <;> simp [Call.provider?, Call.modelName] at hp ⊢

/-- **The scripts implement the entry**: a call on the model, with its provider. -/
theorem step_follows (now : Moment) (h : Holds ks provider name entry) (hname : call.modelName = name)
    (hprovider : ∀ p ∈ call.provider?, p = provider) : Implements ks now provider name entry call := by
  rcases provider?_cases hname hprovider with hkeyed | rfl | rfl
  · exact h.scoped.implements now hname hkeyed
  · exact ⟨touchScript_follows now h, rfl⟩
  · exact ⟨del_follows h, rfl⟩

/-- The same for the key of one provider, whatever lies at the keys of the others; a touch may go to one of these. -/
theorem Scoped.step (now : Moment) (h : Scoped ks provider name entry) (hname : call.modelName = name)
    (hprovider : ∀ p ∈ call.provider?, p = provider) (htouch : call ≠ .touchModel name) :
    Scoped (Redis.step ks now call).1 provider name (Entry.step now.utc now.ms entry call).1 ∧
      (Redis.step ks now call).2 = (Entry.step now.utc now.ms entry call).2 := by
  rcases provider?_cases hname hprovider with hkeyed | rfl | rfl
  · obtain ⟨hfollows, hanswer⟩ := h.implements now hname hkeyed
    exact ⟨h.follows hfollows, hanswer⟩
  · exact absurd rfl htouch
  · refine ⟨⟨?_, ?_⟩, rfl⟩
    · show ((ks.del (candidateKeys name)).get (modelKey provider name)).Is none
      rw [Keyspace.get_del, if_pos (modelKey_mem_candidateKeys provider name)]
      rfl
    · show (ks.del (candidateKeys name)).get (legacyModelKey name) = .empty
      rw [Keyspace.get_del, if_pos (legacyModelKey_mem_candidateKeys name)]

theorem Holds.status (h : Holds ks provider name entry) : getStatus ks name = entry.map (·.status) := by
  have hfind : getStatus ks name = (ks.get (modelKey provider name)).status := by
    cases hfind : getStatus ks name with
    | none =>
      exact (findSome?_eq_none_iff.1 hfind _ (modelKey_mem_candidateKeys provider name)).symm
    | some =>
      obtain ⟨key, hkey, hstatus⟩ := exists_of_findSome?_eq_some hfind
      by_cases hself : key = modelKey provider name
      · rw [← hself, hstatus]
      · simp [h.alone key hkey hself, Hash.empty] at hstatus
  rw [hfind]
  cases entry with
  | none => rw [h.scoped.empty]; rfl
  | some e => exact h.is.1

theorem Holds.record (h : Holds ks provider name entry) :
    ∃ record, getModelRecord ks name = .ok record ∧
      record.map (fun r => (r.provider, r.status, r.createdAt, r.lastUsedAt)) =
        entry.map fun e => (e.provider, e.status, e.createdAt, e.lastUsedAt) := by
  rw [getModelRecord, h.find?_exists]
  cases entry with
  | none =>
    rw [if_pos h.scoped.empty]
    exact ⟨none, rfl, rfl⟩
  | some e =>
    obtain ⟨hstatus, hprovider, hcreated, hused, -, -⟩ := h.is
    have hexists : ks.get (modelKey provider name) ≠ .empty := fun hempty => by simp [hempty, Hash.empty] at hstatus
    rw [if_neg hexists]
    simp [recordFromHash, hstatus, hprovider, hcreated, hused]

end Redis

/-! ## The in-memory tables -/

namespace Memory

def described (r : ModelRecord) : ModelProvider × ModelStatus × ℕ × ℕ := (r.provider, r.status, r.createdAt, r.lastUsedAt)

/-- The tables have the entry's record and lease under the name. -/
def Holds (s : State) (name : String) : Option Entry → Prop
  | none => s.models.lookup name = none ∧ s.leases.lookup name = none
  | some e =>
    (∃ r, s.models.lookup name = some r ∧ described r = (e.provider, e.status, e.createdAt, e.lastUsedAt)) ∧
      s.leases.lookup name = e.claim.map fun claim => ⟨claim.claimId, claim.expiresAt * 1000000⟩

/-- The call wrote under its name only, and leaves it with `entry`. -/
structure Follows (s s' : State) (name : String) (entry : Option Entry) : Prop where
  holds : Holds s' name entry
  models : ∀ name', name' ≠ name → s'.models.lookup name' = s.models.lookup name'
  leases : ∀ name', name' ≠ name → s'.leases.lookup name' = s.leases.lookup name'

variable {maxUtc ms duration : ℕ} {s : State} {name : String} {entry : Option Entry}

theorem Holds.stays (h : Holds s name entry) : Follows s s name entry := ⟨h, fun _ _ => rfl, fun _ _ => rfl⟩

theorem Follows.other {s' : State} {name' : String} (h : Follows s s' name entry)
    (hne : name' ≠ name) (h' : Holds s name' entry') : Holds s' name' entry' := by
  cases entry' with
  | none => exact ⟨(h.models name' hne).trans h'.1, (h.leases name' hne).trans h'.2⟩
  | some e =>
    obtain ⟨⟨r, hr, heq⟩, hlease⟩ := h'
    exact ⟨⟨r, (h.models name' hne).trans hr, heq⟩, (h.leases name' hne).trans hlease⟩

variable {e : Entry} {r : ModelRecord}

section
variable (hr : described r = (e.provider, e.status, e.createdAt, e.lastUsedAt))
include hr

theorem follows_insert {claim : Claim} (hclaim : e.claim = some claim)
    {lease : DownloadLease} (hlease : lease = ⟨claim.claimId, claim.expiresAt * 1000000⟩) :
    Follows s ⟨s.models.insert name r, s.leases.insert name lease⟩ name (some e) where
  holds := ⟨⟨r, AList.lookup_insert s.models, hr⟩, by rw [AList.lookup_insert, hclaim, hlease]; rfl⟩
  models _ hne := AList.lookup_insert_ne hne
  leases _ hne := AList.lookup_insert_ne hne

theorem follows_erase (hclaim : e.claim = none) :
    Follows s ⟨s.models.insert name r, s.leases.erase name⟩ name (some e) where
  holds := ⟨⟨r, AList.lookup_insert s.models, hr⟩, by rw [AList.lookup_erase, hclaim]; rfl⟩
  models _ hne := AList.lookup_insert_ne hne
  leases _ hne := AList.lookup_erase_ne hne

theorem follows_record
    (hlease : s.leases.lookup name = e.claim.map fun claim => ⟨claim.claimId, claim.expiresAt * 1000000⟩) :
    Follows s ⟨s.models.insert name r, s.leases⟩ name (some e) where
  holds := ⟨⟨r, AList.lookup_insert s.models, hr⟩, hlease⟩
  models _ hne := AList.lookup_insert_ne hne
  leases _ _ := rfl

end

/-- A lease of whole milliseconds that ends within the range of the instants. -/
@[mk_iff]
structure Measured (maxUtc ms duration : ℕ) : Prop where
  whole : 1000000 ∣ duration
  delta : duration ≤ maxTimeDelta
  utc : ms * 1000000 + duration ≤ maxUtc

instance (maxUtc ms duration : ℕ) : Decidable (Measured maxUtc ms duration) :=
  decidable_of_iff' _ (measured_iff ..)

theorem Measured.leaseDeadline (h : Measured maxUtc ms duration) :
    leaseDeadline maxUtc (ms * 1000000) duration = (ms + leaseDurationMillis duration) * 1000000 := by
  obtain ⟨_, rfl⟩ := h.whole
  have hmax := h.delta
  rw [maxTimeDelta] at hmax
  rw [Memory.leaseDeadline, if_pos ⟨h.delta, h.utc⟩, leaseDurationMillis, Nat.mul_div_cancel_left _ (by decide)]
  omega

theorem described_eq (h : described r = (e.provider, e.status, e.createdAt, e.lastUsedAt)) :
    r.provider = e.provider ∧ r.status = e.status ∧ r.createdAt = e.createdAt ∧ r.lastUsedAt = e.lastUsedAt := by
  simpa [described] using h

/-- The call does on the tables what it does to the entry. -/
def Implements (maxUtc : ℕ) (s : State) (ms : ℕ) (name : String) (entry : Option Entry) (call : Call) : Prop :=
  Follows s (step maxUtc s (ms * 1000000) call).1 name (Entry.step (ms * 1000000) ms entry call).1 ∧
    (step maxUtc s (ms * 1000000) call).2 = (Entry.step (ms * 1000000) ms entry call).2

section
variable (claimId : String) (provider : ModelProvider) (status : ModelStatus) (message : Option String)
  (h : Holds s name entry)
include h

theorem setStatus_implements : Implements maxUtc s ms name entry (.setStatus name provider status message) := by
  refine ⟨?_, rfl⟩
  cases entry with
  | none =>
    simp only [step, setStatus, h.1, Entry.step]
    by_cases hstatus : status = .downloading
    · rw [if_neg (not_not.2 hstatus), if_pos hstatus]
      exact follows_record rfl h.2
    · rw [if_pos hstatus, if_neg hstatus]
      exact follows_erase rfl rfl
  | some e =>
    obtain ⟨⟨r, hr, hdesc⟩, hlease⟩ := h
    obtain ⟨-, -, hcreated, -⟩ := described_eq hdesc
    simp only [step, setStatus, hr, Entry.step]
    by_cases hstatus : status = .downloading
    · rw [if_neg (not_not.2 hstatus), if_pos hstatus]
      refine follows_record ?_ hlease
      simp [described, hcreated]
    · rw [if_pos hstatus, if_neg hstatus]
      refine follows_erase ?_ rfl
      simp [described, hcreated]

theorem touchModel_implements : Implements maxUtc s ms name entry (.touchModel name) := by
  refine ⟨?_, rfl⟩
  cases entry with
  | none =>
    simp only [step, touchModel, h.1]
    exact Holds.stays h
  | some e =>
    obtain ⟨⟨r, hr, hdesc⟩, hlease⟩ := h
    obtain ⟨hprovider, hstatus, hcreated, -⟩ := described_eq hdesc
    simp only [step, touchModel, hr]
    refine follows_record ?_ hlease
    simp [described, hprovider, hstatus, hcreated]

omit h in
theorem deleteModel_follows : Follows s (deleteModel s name) name none where
  holds := ⟨AList.lookup_erase .., AList.lookup_erase ..⟩
  models _ hne := AList.lookup_erase_ne hne
  leases _ hne := AList.lookup_erase_ne hne

theorem tryClaimForDownload_implements (hd : Measured maxUtc ms duration) :
    Implements maxUtc s ms name entry (.tryClaimForDownload name provider claimId duration) := by
  cases entry with
  | none =>
    simp only [Implements, step, tryClaimForDownload, h.1, Entry.step, hd.leaseDeadline]
    exact ⟨follows_insert rfl rfl rfl, rfl⟩
  | some e =>
    have hstays := Holds.stays h
    obtain ⟨⟨r, hr, hdesc⟩, hlease⟩ := h
    obtain ⟨-, hstatus, hcreated, -⟩ := described_eq hdesc
    have hexpired : ((s.leases.lookup name).all fun lease => lease.expiresAt ≤ ms * 1000000) =
        e.claim.all fun claim => claim.expiresAt ≤ ms := by
      rw [hlease]
      cases e.claim with
      | none => rfl
      | some claim =>
        have hiff : claim.expiresAt * 1000000 ≤ ms * 1000000 ↔ claim.expiresAt ≤ ms := by omega
        rw [map_some, all_some, all_some]
        exact decide_eq_decide.2 hiff
    simp only [Implements, step, tryClaimForDownload, hr, hexpired, hstatus, Entry.step, hd.leaseDeadline]
    by_cases habandoned : e.Abandoned ms
    · rw [if_pos habandoned, if_pos (show _ ∧ _ from habandoned)]
      refine ⟨follows_insert ?_ rfl rfl, rfl⟩
      simp [described, hcreated]
    · rw [if_neg habandoned, if_neg (show ¬ (_ ∧ _) from habandoned)]
      exact ⟨hstays, rfl⟩

theorem tryResetErrorForRetry_implements (hd : Measured maxUtc ms duration) :
    Implements maxUtc s ms name entry (.tryResetErrorForRetry name provider claimId duration) := by
  cases entry with
  | none =>
    simp only [Implements, step, tryResetErrorForRetry, h.1, Entry.step]
    exact ⟨Holds.stays h, rfl⟩
  | some e =>
    have hstays := Holds.stays h
    obtain ⟨⟨r, hr, hdesc⟩, _⟩ := h
    obtain ⟨-, hstatus, hcreated, -⟩ := described_eq hdesc
    simp only [Implements, step, tryResetErrorForRetry, hr, hstatus, Entry.step, hd.leaseDeadline]
    split_ifs with herror
    · refine ⟨follows_insert ?_ rfl rfl, rfl⟩
      simp [described, hcreated]
    · exact ⟨hstays, rfl⟩

theorem owned_eq (he : entry = some e) :
    (e.OwnedBy claimId → ∃ r lease, owned s name claimId = some (r, lease) ∧
      described r = (e.provider, e.status, e.createdAt, e.lastUsedAt) ∧ lease.claimId = claimId) ∧
    (¬ e.OwnedBy claimId → owned s name claimId = none) := by
  subst he
  obtain ⟨⟨r, hr, hdesc⟩, hlease⟩ := h
  obtain ⟨-, hstatus, -, -⟩ := described_eq hdesc
  cases hclaim : e.claim with
  | none => simp [owned, hr, hlease, hclaim, Entry.OwnedBy]
  | some =>
    simp only [owned, hr, hlease, hclaim, hstatus, Entry.OwnedBy, map_some, bind_eq_bind, bind_some,
      any_some, decide_eq_true_eq]
    constructor
    · rintro ⟨hdownloading, hid⟩
      rw [if_pos ⟨hid, hdownloading⟩]
      exact ⟨r, _, rfl, hdesc, hid⟩
    · intro hnot
      exact if_neg fun hand => hnot ⟨hand.2, hand.1⟩

omit h in
theorem owned_none (h : Holds s name none) : owned s name claimId = none := by
  simp [owned, h.1]

theorem refreshDownloadClaim_implements (hprovider : ∀ e ∈ entry, e.provider = provider) (hd : Measured maxUtc ms duration) :
    Implements maxUtc s ms name entry (.refreshDownloadClaim name provider claimId duration) := by
  cases entry with
  | none =>
    simp only [Implements, step, refreshDownloadClaim, owned_none claimId h, Entry.step]
    exact ⟨Holds.stays h, rfl⟩
  | some e =>
    obtain ⟨howned, hnot⟩ := owned_eq claimId h rfl
    simp only [Implements, step, refreshDownloadClaim, Entry.step, hd.leaseDeadline]
    by_cases howns : e.OwnedBy claimId
    · obtain ⟨r, _, heq, hdesc, hid⟩ := howned howns
      obtain ⟨-, hstatus, hcreated, -⟩ := described_eq hdesc
      rw [if_pos howns, heq]
      refine ⟨follows_insert ?_ rfl ?_, rfl⟩
      · simp [described, hstatus, hcreated, hprovider e rfl]
      · simp [hid]
    · rw [if_neg howns, hnot howns]
      exact ⟨Holds.stays h, rfl⟩

theorem finishDownloadClaim_implements :
    Implements maxUtc s ms name entry (.finishDownloadClaim name provider claimId status message) := by
  cases entry with
  | none =>
    simp only [Implements, step, finishDownloadClaim, owned_none claimId h, Entry.step]
    exact ⟨Holds.stays h, rfl⟩
  | some e =>
    obtain ⟨howned, hnot⟩ := owned_eq claimId h rfl
    simp only [Implements, step, finishDownloadClaim, Entry.step]
    by_cases howns : e.OwnedBy claimId
    · obtain ⟨r, _, heq, hdesc, hid⟩ := howned howns
      obtain ⟨-, -, hcreated, -⟩ := described_eq hdesc
      rw [if_pos howns, heq]
      refine ⟨follows_erase ?_ rfl, rfl⟩
      simp [described, hcreated]
    · rw [if_neg howns, hnot howns]
      exact ⟨Holds.stays h, rfl⟩

/-- **The tables implement the entry**: a call on the model, with its provider, at a whole millisecond. -/
theorem step_follows {call : Call} (hname : call.modelName = name)
    (hprovider : ∀ p ∈ call.provider?, ∀ e ∈ entry, e.provider = p)
    (hd : ∀ duration ∈ call.leaseDuration?, Measured maxUtc ms duration) : Implements maxUtc s ms name entry call := by
  subst hname
  cases call with
  | setStatus => exact setStatus_implements _ _ _ h
  | touchModel => exact touchModel_implements h
  | deleteModel => exact ⟨deleteModel_follows, rfl⟩
  | tryClaimForDownload => exact tryClaimForDownload_implements _ _ h (hd _ rfl)
  | tryResetErrorForRetry => exact tryResetErrorForRetry_implements _ _ h (hd _ rfl)
  | refreshDownloadClaim => exact refreshDownloadClaim_implements _ _ h (hprovider _ rfl) (hd _ rfl)
  | finishDownloadClaim => exact finishDownloadClaim_implements _ _ _ _ h

end

end Memory

end ModelExpress.Registry
