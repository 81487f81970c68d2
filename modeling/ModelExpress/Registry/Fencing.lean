/-
  ModelExpress server — only the owner of a claim finishes it (Redis).
-/
import ModelExpress.Lib.Run
import ModelExpress.Lib.Tenure
import ModelExpress.Registry.Entry

namespace ModelExpress.Registry

open Run Tenure Option

structure Event where
  now : Moment
  call : Call
  answer : Answer
  deriving DecidableEq

namespace Event

variable (e : Event)

def grant? : Option String :=
  match e.call, e.answer with
  | .tryClaimForDownload _ _ claimId _, .claim .claimed => some claimId
  | .tryClaimForDownload _ _ claimId _, .claim .tookOver => some claimId
  | .tryResetErrorForRetry _ _ claimId _, .won true => some claimId
  | _, _ => none

def lease? : Option ℕ :=
  match e.call, e.answer with
  | .tryClaimForDownload _ _ _ duration, .claim .claimed => some (e.now.ms + leaseDurationMillis duration)
  | .tryClaimForDownload _ _ _ duration, .claim .tookOver => some (e.now.ms + leaseDurationMillis duration)
  | .tryResetErrorForRetry _ _ _ duration, .won true => some (e.now.ms + leaseDurationMillis duration)
  | .refreshDownloadClaim _ _ _ duration, .won true => some (e.now.ms + leaseDurationMillis duration)
  | _, _ => none

def finished : Bool :=
  match e.call, e.answer with
  | .finishDownloadClaim .., .won true => true
  | _, _ => false

/-- What ends a claim: a successful finish, a terminal status, a delete. -/
def ends : Bool :=
  e.finished ||
    match e.call with
    | .setStatus _ _ status _ => status ≠ .downloading
    | .deleteModel _ => true
    | _ => false

def used? : Option String :=
  match e.call, e.answer with
  | .refreshDownloadClaim _ _ claimId _, .won true => some claimId
  | .finishDownloadClaim _ _ claimId _ _, .won true => some claimId
  | _, _ => none

def tookOver : Bool := e.answer = .claim .tookOver

end Event

/-! ## What the entry says of the events -/

/-- The entry's claim is what the events left: its owner and the end of its lease. -/
structure Told (es : List Event) (entry : Option Entry) : Prop where
  owner : (entry.bind Entry.claim).map Claim.claimId = Tenure.current Event.grant? Event.ends es
  lease : (entry.bind Entry.claim).map Claim.expiresAt = Tenure.current Event.lease? Event.ends es
  downloading : ∀ e ∈ entry, e.claim.isSome → e.status = .downloading

variable {entry' : Option Entry} {claimId : String} {e : Entry}

section
variable {es : List Event} {entry : Option Entry} {now : Moment} {call : Call} {event : Event}

theorem Told.idle (h : Told es entry) (hgrant : event.grant? = none)
    (hlease : event.lease? = none) (hends : event.ends = false)
    (hclaim : entry'.bind Entry.claim = entry.bind Entry.claim)
    (hdownloading : ∀ e ∈ entry', e.claim.isSome → e.status = .downloading) : Told (es ++ [event]) entry' where
  owner := by rw [current_snoc_of_neither hgrant hends, hclaim, h.owner]
  lease := by rw [current_snoc_of_neither hlease hends, hclaim, h.lease]
  downloading := hdownloading

theorem Told.granted {claim : Claim} (hgrant : event.grant? = some claim.claimId)
    (hlease : event.lease? = some claim.expiresAt) (hclaim : e.claim = some claim)
    (hdownloading : e.status = .downloading) : Told (es ++ [event]) (some e) where
  owner := by rw [current_snoc_of_gives hgrant, bind_some, hclaim, map_some]
  lease := by rw [current_snoc_of_gives hlease, bind_some, hclaim, map_some]
  downloading := by
    rintro _ ⟨⟩ _
    exact hdownloading

theorem Told.ended (hgrant : event.grant? = none) (hlease : event.lease? = none) (hends : event.ends = true)
    (hclaim : entry'.bind Entry.claim = none) : Told (es ++ [event]) entry' where
  owner := by rw [current_snoc_of_ends hgrant hends, hclaim, map_none]
  lease := by rw [current_snoc_of_ends hlease hends, hclaim, map_none]
  downloading e he hsome := by
    rw [he, bind_some] at hclaim
    rw [hclaim] at hsome
    cases hsome

theorem Entry.OwnedBy.claim (h : e.OwnedBy claimId) : ∃ expiresAt, e.claim = some ⟨claimId, expiresAt⟩ := by
  cases hclaim : e.claim with
  | none => simp [OwnedBy, hclaim] at h
  | some claim =>
    obtain ⟨-, hid⟩ := h
    simp only [hclaim, any_some, decide_eq_true_eq] at hid
    exact ⟨claim.expiresAt, hid ▸ rfl⟩

theorem Told.step (h : Told es entry) (now : Moment) (call : Call) :
    Told (es ++ [⟨now, call, (Entry.step now.utc now.ms entry call).2⟩]) (Entry.step now.utc now.ms entry call).1 := by
  fun_cases Entry.step now.utc now.ms entry call
  case case1 _ _ status _ =>
    by_cases hstatus : status = .downloading
    · refine h.idle rfl rfl (by simp [Event.ends, Event.finished, hstatus]) (if_pos hstatus) ?_
      rintro _ ⟨⟩ _
      exact hstatus
    · exact .ended rfl rfl (by simp [Event.ends, Event.finished, hstatus]) (if_neg hstatus)
  case case2 =>
    refine h.idle rfl rfl rfl ?_ ?_
    · cases entry <;> rfl
    · intro e he hsome
      obtain ⟨e', he', rfl⟩ := map_eq_some_iff.1 he
      exact h.downloading e' he' hsome
  case case3 | case14 => exact .ended rfl rfl rfl rfl
  case case4 | case8 => exact .granted rfl rfl rfl rfl
  case case5 habandoned => exact .granted rfl rfl rfl habandoned.1
  case case11 howned =>
    -- the owner is the same, the lease is new
    obtain ⟨_, hclaim⟩ := howned.claim
    have howner := h.owner
    rw [bind_some, hclaim] at howner
    refine ⟨?_, (current_snoc_of_gives (show Event.lease? _ = some _ from rfl)).symm, ?_⟩
    · rw [current_snoc_of_neither rfl rfl]
      exact howner
    · rintro _ ⟨⟩ _
      exact howned.1
  all_goals exact h.idle rfl rfl rfl rfl h.downloading

theorem Told.used (h : Told es entry)
    (hused : Event.used? ⟨now, call, (Entry.step now.utc now.ms entry call).2⟩ = some claimId) :
    Tenure.current Event.grant? Event.ends es = some claimId := by
  have howner : ∀ e, entry = some e → e.OwnedBy claimId → current Event.grant? Event.ends es = some claimId := by
    rintro e rfl howned
    obtain ⟨_, hclaim⟩ := howned.claim
    rw [← h.owner, bind_some, hclaim, map_some]
  revert hused
  fun_cases Entry.step now.utc now.ms entry call
  case case11 | case14 =>
    rintro ⟨⟩
    exact howner _ rfl ‹_›
  all_goals rintro ⟨⟩

theorem Told.tookOver (h : Told es entry) {deadline : ℕ}
    (hover : Event.tookOver ⟨now, call, (Entry.step now.utc now.ms entry call).2⟩)
    (hlease : Tenure.current Event.lease? Event.ends es = some deadline) : deadline ≤ now.ms := by
  revert hover
  fun_cases Entry.step now.utc now.ms entry call
  case case5 habandoned =>
    intro
    rw [← h.lease, bind_some] at hlease
    obtain ⟨_, hclaim, rfl⟩ := map_eq_some_iff.1 hlease
    have hended := habandoned.2
    rw [hclaim, all_some, decide_eq_true_eq] at hended
    exact hended
  all_goals simp [Event.tookOver]

end

structure Timed where
  now : Moment
  call : Call
  deriving DecidableEq

namespace Redis

def ran (ks : Keyspace) : List Timed → Keyspace := run (fun ks t => (step ks t.now t.call).1) ks

def events (ks : Keyspace) : List Timed → List Event :=
  trace (fun ks t => (step ks t.now t.call).1) (fun ks t => ⟨t.now, t.call, (step ks t.now t.call).2⟩) ks

variable {ks : Keyspace} {provider : ModelProvider} {name : String} {calls : List Timed}

/-- The calls are on the model, with the provider; none is a touch. -/
def OnModel (provider : ModelProvider) (name : String) (call : Call) : Prop :=
  call.modelName = name ∧ (∀ p ∈ call.provider?, p = provider) ∧ call ≠ .touchModel name

instance (call : Call) : Decidable (OnModel provider name call) := inferInstanceAs (Decidable (_ ∧ _ ∧ _))

theorem told_ran (hks : Scoped ks provider name none) (hcalls : ∀ t ∈ calls, OnModel provider name t.call) :
    ∃ entry, Scoped (ran ks calls) provider name entry ∧ Told (events ks calls) entry := by
  induction calls using List.reverseRecOn with
  | nil =>
    refine ⟨none, hks, rfl, rfl, ?_⟩
    rintro _ ⟨⟩
  | append_singleton calls t ih =>
    obtain ⟨_, hscoped, htold⟩ := ih fun t ht => hcalls t (List.mem_append_left _ ht)
    obtain ⟨hname, hprovider, htouch⟩ := hcalls t (by simp)
    obtain ⟨hscoped', hanswer⟩ := hscoped.step t.now hname hprovider htouch
    rw [ran, run_snoc, events, trace_snoc]
    refine ⟨_, hscoped', ?_⟩
    have hstep := htold.step t.now t.call
    rw [← hanswer] at hstep
    exact hstep

theorem told_before (hks : Scoped ks provider name none) (hcalls : ∀ t ∈ calls, OnModel provider name t.call)
    {pre post : List Event} {e : Event} (h : events ks calls = pre ++ e :: post) :
    ∃ entry now call, Told pre entry ∧ e = ⟨now, call, (Entry.step now.utc now.ms entry call).2⟩ := by
  obtain ⟨_, t, _, rfl, rfl, rfl⟩ := trace_eq_append_cons h
  obtain ⟨entry, hscoped, htold⟩ := told_ran hks fun t ht => hcalls t (List.mem_append_left _ ht)
  obtain ⟨hname, hprovider, htouch⟩ := hcalls t (by simp)
  have hanswer := (hscoped.step t.now hname hprovider htouch).2
  exact ⟨entry, t.now, t.call, htold, hanswer ▸ rfl⟩

/-- **Download fencing**: a refresh or finish succeeds only for the latest successful claim, which is
    finished at most once, and a takeover does not succeed before the lease has ended. -/
theorem redis_download_fencing (hks : Scoped ks provider name none)
    (hcalls : ∀ t ∈ calls, OnModel provider name t.call) :
    (∀ pre e post claimId, events ks calls = pre ++ e :: post → e.used? = some claimId →
      ∃ before claim after, pre = before ++ claim :: after ∧ claim.grant? = some claimId ∧
        ∀ e' ∈ after, e'.grant? = none ∧ e'.ends = false) ∧
    (∀ pre f₁ mid f₂ post, events ks calls = pre ++ f₁ :: mid ++ f₂ :: post → f₁.finished → f₂.finished →
      ∃ claim ∈ mid, claim.grant? = f₂.used? ∧ claim.grant?.isSome) ∧
    (∀ pre g mid e post deadline, events ks calls = pre ++ g :: mid ++ e :: post → e.tookOver →
      g.lease? = some deadline → (∀ e' ∈ mid, e'.lease? = none ∧ e'.ends = false) → deadline ≤ e.now.ms) := by
  have hused : ∀ {pre e post claimId}, events ks calls = pre ++ e :: post → e.used? = some claimId →
      current Event.grant? Event.ends pre = some claimId := by
    intro pre e post claimId heq he
    obtain ⟨entry, now, call, htold, rfl⟩ := told_before hks hcalls heq
    exact htold.used he
  refine ⟨?_, ?_, ?_⟩
  · intro pre e post claimId heq he
    exact current_eq_some_iff.1 (hused heq he)
  · intro pre f₁ mid f₂ post heq h₁ h₂
    obtain ⟨claimId, hid⟩ : ∃ claimId, f₂.used? = some claimId := by
      revert h₂
      unfold Event.finished Event.used?
      split <;> simp_all
    have hends : f₁.ends = true := by simp [Event.ends, h₁]
    have hgrant : f₁.grant? = none := by
      revert h₁
      unfold Event.finished Event.grant?
      split <;> simp_all
    obtain ⟨claim, hmem, hclaim⟩ := exists_gives_of_ends hgrant hends (hused heq hid)
    exact ⟨claim, hmem, hclaim.trans hid.symm, hclaim ▸ rfl⟩
  · intro pre g mid e post _ heq hover hlease hmid
    obtain ⟨_, now, call, htold, rfl⟩ := told_before hks hcalls heq
    exact htold.tookOver hover (current_eq_some_iff.2 ⟨pre, g, mid, rfl, hlease, hmid⟩)

def takenOver : List Timed :=
  [⟨⟨0, (0, 0)⟩, .tryClaimForDownload "org/model" .huggingFace "owner" 30000000000⟩,
   ⟨⟨40000000000, (40, 0)⟩, .tryClaimForDownload "org/model" .huggingFace "waiter" 30000000000⟩,
   ⟨⟨50000000000, (50, 0)⟩, .finishDownloadClaim "org/model" .huggingFace "owner" .downloaded none⟩,
   ⟨⟨60000000000, (60, 0)⟩, .finishDownloadClaim "org/model" .huggingFace "waiter" .downloaded none⟩]

theorem takenOver_fenced :
    ∃ before claim after, events ∅ (takenOver.take 3) = before ++ claim :: after ∧ claim.grant? = some "waiter" ∧
      ∀ e' ∈ after, e'.grant? = none ∧ e'.ends = false :=
  have hks : Scoped ∅ .huggingFace "org/model" none := ⟨rfl, rfl⟩
  have hcalls : ∀ t ∈ takenOver, OnModel .huggingFace "org/model" t.call := by decide +kernel
  (redis_download_fencing hks hcalls).1 (events ∅ (takenOver.take 3))
    ⟨⟨60000000000, (60, 0)⟩, .finishDownloadClaim "org/model" .huggingFace "waiter" .downloaded none, .won true⟩ []
    "waiter" (by decide +kernel) (by decide +kernel)

end Redis

end ModelExpress.Registry
