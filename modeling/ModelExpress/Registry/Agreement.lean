/-
  ModelExpress server — the in-memory and the Redis backend agree.
-/
import ModelExpress.Lib.Run
import ModelExpress.Registry.Entry

namespace ModelExpress.Registry

open Run List Function Option Memory

structure Tick where
  ms : ℕ
  call : Call
  deriving DecidableEq

/-- The moment at which the shared clock shows `ms`. -/
def Moment.whole (ms : ℕ) : Moment := ⟨ms * 1000000, (ms / 1000, ms % 1000 * 1000)⟩

@[simp] theorem Moment.whole_ms (ms : ℕ) : (Moment.whole ms).ms = ms := by
  simp only [Moment.ms, Moment.whole]
  omega

@[simp] theorem Moment.whole_utc (ms : ℕ) : (Moment.whole ms).utc = ms * 1000000 := rfl

namespace Memory

def answer (maxUtc : ℕ) (s : State) (t : Tick) : Answer := (step maxUtc s (t.ms * 1000000) t.call).2

def after (maxUtc : ℕ) : List Tick → State := run (fun s t => (step maxUtc s (t.ms * 1000000) t.call).1) .new

end Memory

namespace Redis

def answer (ks : Keyspace) (t : Tick) : Answer := (step ks (.whole t.ms) t.call).2

def after : List Tick → Keyspace := run (fun ks t => (step ks (.whole t.ms) t.call).1) ∅

/-- No call finds a record at its model's legacy key. -/
def NoLegacy : List Tick → Prop :=
  Along (fun ks t => (step ks (.whole t.ms) t.call).1) ∅ fun ks t => ks.get (legacyModelKey t.call.modelName) = .empty

end Redis

section
variable {provider : String → ModelProvider} {maxUtc : ℕ} {s : Memory.State} {ks : Keyspace}

/-- Every name has one entry in both, and its hash lies at the key of its provider. -/
structure Paired (provider : String → ModelProvider) (s : Memory.State) (ks : Keyspace)
    (entries : String → Option Entry) : Prop where
  memory : ∀ name, Memory.Holds s name (entries name)
  redis : ∀ name, (ks.get (modelKey (provider name) name)).Is (entries name)
  alone : ∀ name p, p ≠ provider name → ks.get (modelKey p name) = .empty
  provided : ∀ name, ∀ e ∈ entries name, e.provider = provider name

theorem Paired.empty : Paired provider .new ∅ fun _ => none where
  memory _ := ⟨rfl, rfl⟩
  redis _ := rfl
  alone _ _ _ := rfl
  provided _ _ he := by cases he

variable {name : String}

theorem mem_candidateKeys {key : String} :
    key ∈ candidateKeys name ↔ (∃ p, key = modelKey p name) ∨ key = legacyModelKey name := by
  have hall : ∀ p, p ∈ allProviders := fun p => by cases p <;> decide
  simp [candidateKeys, hall, eq_comm]

variable {entries : String → Option Entry}

theorem Paired.holds (h : Paired provider s ks entries)
    (hlegacy : ks.get (legacyModelKey name) = .empty) : Redis.Holds ks (provider name) name (entries name) where
  is := h.redis name
  alone key hkey hne := by
    rcases mem_candidateKeys.1 hkey with ⟨p, rfl⟩ | rfl
    · exact h.alone name p fun heq => hne (heq ▸ rfl)
    · exact hlegacy

theorem Entry.step_provider {utc ms : ℕ} {entry : Option Entry} {p : ModelProvider} {call : Call}
    (hcall : ∀ q ∈ call.provider?, q = p) (hentry : ∀ e ∈ entry, e.provider = p) :
    ∀ e ∈ (Entry.step utc ms entry call).1, e.provider = p := by
  fun_cases Entry.step utc ms entry call
  case case2 =>
    rintro e he
    obtain ⟨e', he', rfl⟩ := map_eq_some_iff.1 he
    exact hentry e' he'
  case case3 => rintro e ⟨⟩
  case case1 | case4 | case5 | case8 | case14 =>
    rintro e ⟨⟩
    exact hcall _ rfl
  case case11 e₀ _ =>
    rintro e ⟨⟩
    exact hentry e₀ rfl
  all_goals exact hentry

/-- A call of the run: its model's provider, and a lease that both backends can count. -/
@[mk_iff]
structure Tick.Fits (provider : String → ModelProvider) (maxUtc : ℕ) (t : Tick) : Prop where
  provider : ∀ p ∈ t.call.provider?, p = provider t.call.modelName
  lease : ∀ duration ∈ t.call.leaseDuration?, Memory.Measured maxUtc t.ms duration

instance (provider : String → ModelProvider) (maxUtc : ℕ) (t : Tick) : Decidable (t.Fits provider maxUtc) :=
  decidable_of_iff' _ (Tick.fits_iff ..)

theorem Paired.step (h : Paired provider s ks entries) {t : Tick}
    (ht : t.Fits provider maxUtc) (hlegacy : ks.get (legacyModelKey t.call.modelName) = .empty) :
    Memory.answer maxUtc s t = Redis.answer ks t ∧
      ∃ entries', Paired provider (Memory.step maxUtc s (t.ms * 1000000) t.call).1
        (Redis.step ks (.whole t.ms) t.call).1 entries' := by
  let name := t.call.modelName
  have hholds := h.holds hlegacy
  have hprovided : ∀ p ∈ t.call.provider?, ∀ e ∈ entries name, e.provider = p := by
    intro p hp e he
    rw [ht.provider p hp]
    exact h.provided name e he
  obtain ⟨hmem, hmemAnswer⟩ := step_follows (h.memory name) rfl hprovided ht.lease
  obtain ⟨hredis, hredisAnswer⟩ := Redis.step_follows (.whole t.ms) hholds rfl ht.provider
  rw [Moment.whole_ms, Moment.whole_utc] at hredis hredisAnswer
  refine ⟨hmemAnswer.trans hredisAnswer.symm,
    update entries name (Entry.step (t.ms * 1000000) t.ms (entries name) t.call).1, ?_, ?_, ?_, ?_⟩
  · intro name'
    by_cases hname : name' = name
    · rw [hname, update_self]
      exact hmem.holds
    · rw [update_of_ne hname]
      exact hmem.other hname (h.memory name')
  · intro name'
    by_cases hname : name' = name
    · rw [hname, update_self]
      exact hredis.is
    · rw [update_of_ne hname, hredis.frame _ fun heq => hname (modelKey_inj heq).2]
      exact h.redis name'
  · intro name' p hp
    rw [hredis.frame]
    · exact h.alone name' p hp
    · intro heq
      obtain ⟨rfl, rfl⟩ := modelKey_inj heq
      exact hp rfl
  · intro name'
    by_cases hname : name' = name
    · rw [hname, update_self]
      exact Entry.step_provider ht.provider (h.provided name)
    · rw [update_of_ne hname]
      exact h.provided name'

theorem paired_after {calls : List Tick} (hfits : ∀ t ∈ calls, t.Fits provider maxUtc) (hlegacy : Redis.NoLegacy calls) :
    ∃ entries, Paired provider (Memory.after maxUtc calls) (Redis.after calls) entries := by
  induction calls using reverseRecOn with
  | nil => exact ⟨_, Paired.empty⟩
  | append_singleton calls t ih =>
    obtain ⟨_, h⟩ := ih (fun t ht => hfits t (mem_append_left _ ht))
      (hlegacy.restrict (prefix_append calls [t]))
    rw [Memory.after, Redis.after, run_snoc, run_snoc]
    exact (h.step (hfits t (by simp)) hlegacy.last).2

theorem Paired.reads (h : Paired provider s ks entries) (hlegacy : ks.get (legacyModelKey name) = .empty) :
    Memory.getStatus s name = Redis.getStatus ks name ∧
      ∃ record, Redis.getModelRecord ks name = .ok record ∧
        (Memory.getModelRecord s name).map Memory.described = record.map Memory.described := by
  have hholds := h.holds hlegacy
  obtain ⟨record, hrecord, hfields⟩ := hholds.record
  have hmem := h.memory name
  have hsame : (getModelRecord s name).map described =
      (entries name).map fun e => (e.provider, e.status, e.createdAt, e.lastUsedAt) := by
    cases hentry : entries name with
    | none =>
      rw [hentry] at hmem
      rw [getModelRecord, hmem.1]
      rfl
    | some e =>
      rw [hentry] at hmem
      obtain ⟨⟨r, hr, hdesc⟩, -⟩ := hmem
      rw [getModelRecord, hr, map_some, hdesc, map_some]
  refine ⟨?_, record, hrecord, hsame.trans hfields.symm⟩
  rw [hholds.status, getStatus]
  have hstatus := congrArg (Option.map fun d : ModelProvider × ModelStatus × ℕ × ℕ => d.2.1) hsame
  rw [Option.map_map, Option.map_map] at hstatus
  exact hstatus

/-- **The backends agree**: the same answer to every call, and after every step the same status, provider, creation time
    and last use of every model. -/
theorem backends_agree {calls : List Tick} (hfits : ∀ t ∈ calls, t.Fits provider maxUtc) (hlegacy : Redis.NoLegacy calls) :
    (∀ pre t, pre ++ [t] <+: calls → Memory.answer maxUtc (Memory.after maxUtc pre) t = Redis.answer (Redis.after pre) t) ∧
    ∀ pre, pre <+: calls → ∀ name, (Redis.after pre).get (legacyModelKey name) = .empty →
      Memory.getStatus (Memory.after maxUtc pre) name = Redis.getStatus (Redis.after pre) name ∧
      ∃ record, Redis.getModelRecord (Redis.after pre) name = .ok record ∧
        (Memory.getModelRecord (Memory.after maxUtc pre) name).map Memory.described = record.map Memory.described := by
  have hpaired : ∀ pre, pre <+: calls → ∃ entries, Paired provider (after maxUtc pre) (Redis.after pre) entries :=
    fun pre hpre => paired_after (fun t ht => hfits t (hpre.subset ht)) (hlegacy.restrict hpre)
  constructor
  · intro pre t hpre
    obtain ⟨entries, h⟩ := hpaired pre ((prefix_append pre [t]).trans hpre)
    exact (h.step (hfits t (hpre.subset (by simp))) (hlegacy pre t hpre)).1
  · intro pre hpre name hname
    obtain ⟨_, h⟩ := hpaired pre hpre
    exact h.reads hname

end

def downloadedAndEvicted : List Tick :=
  [⟨0, .tryClaimForDownload "org/model" .huggingFace "owner" 30000000000⟩,
   ⟨10000, .refreshDownloadClaim "org/model" .huggingFace "owner" 30000000000⟩,
   ⟨35000, .tryClaimForDownload "org/model" .huggingFace "waiter" 30000000000⟩,
   ⟨50000, .tryClaimForDownload "org/model" .huggingFace "waiter" 30000000000⟩,
   ⟨60000, .finishDownloadClaim "org/model" .huggingFace "waiter" .downloaded none⟩,
   ⟨70000, .touchModel "org/model"⟩,
   ⟨80000, .deleteModel "org/model"⟩]

theorem downloadedAndEvicted_agree :
    Memory.answer (10 ^ 18) (Memory.after (10 ^ 18) (downloadedAndEvicted.take 3))
        ⟨50000, .tryClaimForDownload "org/model" .huggingFace "waiter" 30000000000⟩ =
      Redis.answer (Redis.after (downloadedAndEvicted.take 3))
        ⟨50000, .tryClaimForDownload "org/model" .huggingFace "waiter" 30000000000⟩ := by
  have hfits : ∀ t ∈ downloadedAndEvicted, t.Fits (fun _ => .huggingFace) (10 ^ 18) := by decide +kernel
  have hlegacy : Redis.NoLegacy downloadedAndEvicted :=
    along_of_check (fun ks t => ks.get (legacyModelKey t.call.modelName) = .empty) (fun _ _ h => of_decide_eq_true h)
      (by decide +kernel)
  exact (backends_agree hfits hlegacy).1 _ _ ⟨downloadedAndEvicted.drop 4, rfl⟩

def fractionalClaims : List Tick :=
  [⟨0, .tryClaimForDownload "org/model" .huggingFace "owner" 1500000⟩,
   ⟨1, .tryClaimForDownload "org/model" .huggingFace "waiter" 1500000⟩]

/-- The leases are in range and no legacy record exists, but Redis hands the download over and the tables do not. -/
theorem fraction_separates :
    (∀ t ∈ fractionalClaims, t.call.provider? = some .huggingFace ∧
      ∀ duration ∈ t.call.leaseDuration?, duration ≤ Memory.maxTimeDelta ∧ t.ms * 1000000 + duration ≤ 10 ^ 18) ∧
    Redis.NoLegacy fractionalClaims ∧
    ∃ pre t, pre ++ [t] <+: fractionalClaims ∧
      Memory.answer (10 ^ 18) (Memory.after (10 ^ 18) pre) t = .claim (.alreadyExists .downloading) ∧
      Redis.answer (Redis.after pre) t = .claim .tookOver := by
  refine ⟨?_, ?_, fractionalClaims.take 1, ⟨1, .tryClaimForDownload "org/model" .huggingFace "waiter" 1500000⟩, ?_⟩
  · decide +kernel
  · exact along_of_check (fun ks t => ks.get (legacyModelKey t.call.modelName) = .empty)
      (fun _ _ h => of_decide_eq_true h) (by decide +kernel)
  · exact ⟨prefix_refl _, by decide +kernel, by decide +kernel⟩

end ModelExpress.Registry
