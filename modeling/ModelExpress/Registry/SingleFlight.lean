/-
  ModelExpress server — at most one download of an entry runs.
-/
import Mathlib.Data.List.Perm.Basic
import ModelExpress.Registry.Downloads
import ModelExpress.Registry.Fencing

namespace ModelExpress.Registry

open Run List Option Function

def DownloadTarget.key (t : DownloadTarget) : String := modelKey t.provider t.entryKey

/-- The registry says that `claimId` is downloading the entry. -/
structure Recorded (ks : Keyspace) (t : DownloadTarget) (claimId : String) : Prop where
  status : (ks.get t.key).status = some .downloading
  claimId : (ks.get t.key).claimId = some claimId

def Call.Disturbs (claimId : String) : Call → Prop
  | setStatus .. | deleteModel _ => True
  | finishDownloadClaim _ _ id _ _ => id = claimId
  | _ => False

structure Call.On (t : DownloadTarget) (call : Call) : Prop where
  modelName : call.modelName = t.entryKey
  provider : ∀ p ∈ call.provider?, p = t.provider

variable {duration ttl i j : ℕ} {p provider : ModelProvider} {call : Call} {uuid : ℕ → String} {name id : String}
  {d : Download} {r : Request}

section
variable {ks : Keyspace} {t : DownloadTarget} {claimId : String} {now : Moment} {call : Call}

theorem Recorded.put {hash : Hash} (hstatus : hash.status = some .downloading) (hid : hash.claimId = some claimId) :
    Recorded (ks.put t.key hash) t claimId := by
  constructor <;> rwa [Keyspace.get_put_self]

theorem Recorded.touch (h : Recorded ks t claimId) (keys : List String) :
    Recorded (touchScript now ks keys) t claimId := by
  unfold touchScript
  split
  · rename_i key _
    by_cases hkey : t.key = key
    · subst hkey
      exact .put h.status h.claimId
    · constructor <;> rw [Keyspace.get_put_of_ne hkey]
      exacts [h.status, h.claimId]
  · exact h

theorem Event.grant?_claim {outcome : ClaimOutcome}
    (h : Event.grant? ⟨now, .tryClaimForDownload name p id duration, .claim outcome⟩ = some claimId) :
    id = claimId ∧ (outcome = .claimed ∨ outcome = .tookOver) := by
  cases outcome with
  | claimed => exact ⟨some.inj h, .inl rfl⟩
  | tookOver => exact ⟨some.inj h, .inr rfl⟩
  | alreadyExists => cases h

theorem Event.grant?_retry {won : Bool}
    (h : Event.grant? ⟨now, .tryResetErrorForRetry name p id duration, .won won⟩ = some claimId) :
    id = claimId ∧ won = true := by
  cases won with
  | true => exact ⟨some.inj h, rfl⟩
  | false => cases h

theorem Recorded.step (h : Recorded ks t claimId) (hlive : (ks.get t.key).leaseExpiresAt.any (now.ms < ·))
    (hcall : call.On t) (hdisturbs : ¬ call.Disturbs claimId) :
    Recorded (Redis.step ks now call).1 t claimId ∧
      Event.grant? ⟨now, call, (Redis.step ks now call).2⟩ = none := by
  obtain ⟨hname, hprovider⟩ := hcall
  cases call with
  | setStatus | deleteModel => exact absurd trivial hdisturbs
  | touchModel => exact ⟨h.touch _, rfl⟩
  | tryClaimForDownload name p other duration =>
    obtain rfl : p = t.provider := hprovider p rfl
    obtain rfl : name = t.entryKey := hname
    have hscript : claimScript now t.provider other (leaseDurationMillis duration) ks t.key (legacyModelKey t.entryKey) =
        (ks, .alreadyExists .downloading) := by
      simp [claimScript, claimExisting, h.status, hlive]
    have hstep : Redis.step ks now (.tryClaimForDownload t.entryKey t.provider other duration) =
        (ks, .claim (.alreadyExists .downloading)) := congrArg (Prod.map id Answer.claim) hscript
    rw [hstep]
    exact ⟨h, rfl⟩
  | tryResetErrorForRetry name p other duration =>
    obtain rfl : p = t.provider := hprovider p rfl
    obtain rfl : name = t.entryKey := hname
    have hscript : retryScript now t.provider other (leaseDurationMillis duration) ks t.key = (ks, false) := by
      simp [retryScript, h.status]
    have hstep : Redis.step ks now (.tryResetErrorForRetry t.entryKey t.provider other duration) = (ks, .won false) :=
      congrArg (Prod.map id Answer.won) hscript
    rw [hstep]
    exact ⟨h, rfl⟩
  | refreshDownloadClaim name p other duration =>
    obtain rfl : p = t.provider := hprovider p rfl
    obtain rfl : name = t.entryKey := hname
    refine ⟨?_, rfl⟩
    show Recorded (refreshScript now other (leaseDurationMillis duration) ks t.key).1 t claimId
    unfold refreshScript
    split_ifs
    · exact h
    · exact h
    · exact .put h.status h.claimId
  | finishDownloadClaim name p other status message =>
    obtain rfl : p = t.provider := hprovider p rfl
    obtain rfl : name = t.entryKey := hname
    have hid : (ks.get t.key).claimId ≠ some other := by
      rw [h.claimId]
      exact fun heq => hdisturbs (some.inj heq).symm
    have hscript : finishScript now t.provider other status message ks t.key = (ks, false) := by
      simp [finishScript, h.status, hid]
    have hstep : Redis.step ks now (.finishDownloadClaim t.entryKey t.provider other status message) = (ks, .won false) :=
      congrArg (Prod.map id Answer.won) hscript
    rw [hstep]
    exact ⟨h, rfl⟩

theorem Recorded.claimExisting {status : ModelStatus} (hstatus : (ks.get t.key).status = some status)
    (hgrant : (claimExisting now provider claimId ttl ks t.key status).2 = .claimed ∨
      (claimExisting now provider claimId ttl ks t.key status).2 = .tookOver) :
    Recorded (claimExisting now provider claimId ttl ks t.key status).1 t claimId := by
  unfold Registry.claimExisting at hgrant ⊢
  split_ifs at hgrant ⊢ with hdownloading hheld
  · simp at hgrant
  · simp at hgrant
  · refine .put ?_ rfl
    rw [← not_not.1 hdownloading]
    exact hstatus

theorem Recorded.claimFresh : Recorded (claimFresh now provider claimId ttl ks t.key).1 t claimId := by
  unfold Registry.claimFresh
  dsimp only
  exact .put rfl rfl

theorem Recorded.claimScript
    (hgrant : (claimScript now t.provider claimId ttl ks t.key (legacyModelKey t.entryKey)).2 = .claimed ∨
      (claimScript now t.provider claimId ttl ks t.key (legacyModelKey t.entryKey)).2 = .tookOver) :
    Recorded (claimScript now t.provider claimId ttl ks t.key (legacyModelKey t.entryKey)).1 t claimId := by
  revert hgrant
  fun_cases Registry.claimScript now t.provider claimId ttl ks t.key (legacyModelKey t.entryKey) <;> intro hgrant
  case case1 hstatus => exact .claimExisting hstatus hgrant
  case case2 hlegacy _ =>
    -- the legacy hash has been moved to the key
    refine .claimExisting ?_ hgrant
    have hne : t.key ≠ legacyModelKey t.entryKey := modelKey_ne_legacyModelKey t.provider t.entryKey
    rw [Keyspace.get_put_of_ne hne, Keyspace.get_put_self]
    exact hlegacy
  all_goals exact .claimFresh

theorem Recorded.granted (hcall : call.On t)
    (hgrant : Event.grant? ⟨now, call, (Redis.step ks now call).2⟩ = some claimId) :
    Recorded (Redis.step ks now call).1 t claimId := by
  obtain ⟨hname, hprovider⟩ := hcall
  cases call with
  | tryClaimForDownload name p =>
    obtain rfl : p = t.provider := hprovider p rfl
    obtain rfl : name = t.entryKey := hname
    obtain ⟨rfl, houtcome⟩ := Event.grant?_claim hgrant
    exact .claimScript houtcome
  | tryResetErrorForRetry name p id duration =>
    obtain rfl : p = t.provider := hprovider p rfl
    obtain rfl : name = t.entryKey := hname
    obtain ⟨rfl, hwon⟩ := Event.grant?_retry hgrant
    show Recorded (retryScript now t.provider id (leaseDurationMillis duration) ks t.key).1 t id
    replace hwon : (retryScript now t.provider id (leaseDurationMillis duration) ks t.key).2 = true := hwon
    unfold retryScript at hwon ⊢
    split_ifs at hwon ⊢
    dsimp only
    exact .put rfl rfl
  | _ => simp [Event.grant?] at hgrant

end

/-! ## Owners -/

def Phase.owner : Phase → Bool
  | announcing owner _ => owner
  | _ => false

section
variable {uuid : ℕ → String} {r : Request} {present : Bool} {answer : Option Answer}

def Phase.Takes (phase : Phase) (present : Bool) (answer : Option Answer) : Prop :=
  (phase.resume present answer).1.owner ∨ (phase.resume present answer).2.isSome

theorem Phase.Takes.claim {phase : Phase} (h : phase.Takes present answer)
    (hphase : phase = .polling ∨ ∃ attempt, phase = .claiming attempt) :
    answer = some (.claim .claimed) ∨ answer = some (.claim .tookOver) := by
  unfold Takes at h
  rcases hphase with rfl | ⟨_, rfl⟩ <;>
    rcases answer with _ | (_ | (_ | _ | (_ | _ | _)) | _) <;> simp_all [resume, owner]

theorem Phase.Takes.retry (h : Phase.retrying.Takes present answer) : answer = some (.won true) := by
  unfold Takes at h
  rcases answer with _ | (_ | _ | _) <;> simp_all [resume, owner]

theorem Request.granted_of_takes (h : r.phase.Takes present answer) :
    r.phase.owner ∨ ∃ call a, r.call uuid = some call ∧ answer = some a ∧
      ∀ now, Event.grant? ⟨now, call, a⟩ = some (uuid r.claimId) := by
  unfold Request.call
  cases hphase : r.phase with
  | claiming attempt =>
    rcases h.claim (.inr ⟨attempt, hphase⟩) with rfl | rfl <;> exact .inr ⟨_, _, rfl, rfl, fun _ => rfl⟩
  | polling =>
    rcases h.claim (.inl hphase) with rfl | rfl <;> exact .inr ⟨_, _, rfl, rfl, fun _ => rfl⟩
  | retrying =>
    rw [hphase] at h
    obtain rfl := h.retry
    exact .inr ⟨_, _, rfl, rfl, fun _ => rfl⟩
  | announcing =>
    rw [hphase] at h
    left
    simpa [Phase.Takes, Phase.resume, Phase.owner] using h
  | _ =>
    -- no other phase takes a claim
    rw [hphase, Phase.Takes, Phase.resume] at h
    try split_ifs at h
    all_goals simp [Phase.owner] at h

theorem Phase.resume_spawn {phase phase' : Phase} {retry : Bool}
    (h : phase.resume present answer = (phase', some retry)) : phase' = .polling := by
  unfold resume at h
  split at h
  all_goals try split at h
  all_goals try split at h
  all_goals simp_all

end

variable (answer : Option Answer)

theorem Download.resume_eq_or_stopped (d : Download) : d.resume answer = d ∨ (d.resume answer).state ≠ .running := by
  unfold resume
  split
  · split_ifs
    · exact .inr (by simp)
    · exact .inl rfl
  · exact .inr (by simp)
  · exact .inr (by simp)

@[simp] theorem Download.resume_claimId (d : Download) : (d.resume answer).claimId = d.claimId := by
  unfold resume
  split
  · split_ifs <;> rfl
  · rfl
  · rfl

@[simp] theorem Download.resume_target (d : Download) : (d.resume answer).target = d.target := by
  unfold resume
  split
  · split_ifs <;> rfl
  · rfl
  · rfl

theorem Request.call_on (h : r.call uuid = some call) : call.On r.target := by
  unfold Request.call at h
  split at h <;> cases h
  all_goals exact ⟨rfl, by simp [Call.provider?]⟩

theorem Download.call_on (h : d.call uuid = some call) : call.On d.target := by
  unfold Download.call at h
  split at h <;> cases h
  all_goals exact ⟨rfl, by simp [Call.provider?]⟩

namespace Servers

/-- The claim with the `n`th id has been won, and its download runs or is about to. -/
inductive Owns (s : Servers) : ℕ → Prop
  | request {r : Request} : r ∈ s.requests → r.phase.owner → s.Owns r.claimId
  | task {d : Download} : d ∈ s.downloads → d.state = .running → s.Owns d.claimId

variable {uuid : ℕ → String} {s : Servers} {e : ServerEvent} {n : ℕ}

theorem Owns.goOn {present : Bool} {answer : Option Answer}
    (h : (s.goOn i r (r.phase.resume present answer)).Owns n) :
    s.Owns n ∨ n = r.claimId ∧ r.phase.Takes present answer := by
  rcases hresume : r.phase.resume present answer with ⟨_, _ | _⟩
  · rw [hresume] at h
    cases h with
    | request hmem howner =>
      rcases mem_or_eq_of_mem_set hmem with hmem | rfl
      · exact .inl (.request hmem howner)
      · exact .inr ⟨rfl, .inl (by rwa [hresume])⟩
    | task hmem hrunning => exact .inl (.task hmem hrunning)
  · obtain rfl := Phase.resume_spawn hresume
    rw [hresume] at h
    cases h with
    | request hmem howner =>
      rcases mem_or_eq_of_mem_set hmem with hmem | rfl
      · exact .inl (.request hmem howner)
      · cases howner
    | task hmem hrunning =>
      rcases mem_append.1 hmem with hmem | hmem
      · exact .inl (.task hmem hrunning)
      · rw [mem_singleton.1 hmem]
        exact .inr ⟨rfl, .inr (by rw [hresume]; rfl)⟩

theorem Owns.set_task {ks : Keyspace} {d' : Download} (hd : s.downloads[j]? = some d)
    (hsame : d' = d ∨ d'.state ≠ .running) (h : Owns { s with ks, downloads := s.downloads.set j d' } n) : s.Owns n := by
  cases h with
  | request hmem howner => exact .request hmem howner
  | task hmem hrunning =>
    rcases mem_or_eq_of_mem_set hmem with hmem | rfl
    · exact .task hmem hrunning
    · obtain rfl := hsame.resolve_right (not_not.2 hrunning)
      exact .task (mem_of_getElem? hd) hrunning

theorem Owns.of_step (h : (step uuid s e).Owns n) :
    s.Owns n ∨ ∃ call, s.call uuid e.act = some call ∧ e.act.link = .answered ∧
      Event.grant? ⟨e.now, call, (Redis.step s.ks e.now call).2⟩ = some (uuid n) := by
  obtain ⟨_, -, hstep, -⟩ | ⟨i, _, r, hr, hcall, hstep⟩ | ⟨j, d, hd, -, hstep⟩ |
    ⟨j, d, _, hd, -, -, hstep⟩ | ⟨-, hstep⟩ := step_cases uuid s e
  all_goals rw [hstep] at h
  · left
    cases h with
    | request hmem howner =>
      rcases mem_append.1 hmem with hmem | hmem
      · exact .request hmem howner
      · rw [mem_singleton.1 hmem] at howner
        cases howner
    | task hmem hrunning => exact .task hmem hrunning
  · rcases h.goOn with h | ⟨rfl, htakes⟩
    · left
      cases h with
      | request hmem howner => exact .request hmem howner
      | task hmem hrunning => exact .task hmem hrunning
    · rcases Request.granted_of_takes htakes with howner | ⟨call, a, hrcall, hanswer, hgrant⟩
      · exact .inl (.request (mem_of_getElem? hr) howner)
      · rw [hrcall] at hanswer
        cases hlink : e.act.link with rw [hlink] at hanswer
        | answered =>
          obtain rfl := Option.some.inj hanswer
          exact .inr ⟨call, hcall.trans hrcall, rfl, hgrant e.now⟩
        | lost | down => cases hanswer
  · exact .inl (h.set_task hd (Download.resume_eq_or_stopped _ d))
  · exact .inl (h.set_task hd (.inr (by simp)))
  · exact .inl h

/-! ## Claim ids -/

def ids (s : Servers) : List ℕ := s.requests.map (·.claimId) ++ s.downloads.map (·.claimId)

theorem map_set_of_eq {α β : Type*} {f : α → β} {l : List α} {a b : α} (h : l[i]? = some a) (hf : f b = f a) :
    (l.set i b).map f = l.map f := by
  obtain ⟨hi, rfl⟩ := List.getElem?_eq_some_iff.1 h
  rw [map_set, hf, ← getElem_map f (h := by simpa using hi), set_getElem_self]

theorem perm_set_append {α : Type*} {l m : List α} {a b : α} (h : l[i]? = some a) :
    (l.set i b ++ (m ++ [a])).Perm (b :: (l ++ m)) := by
  obtain ⟨hi, rfl⟩ := List.getElem?_eq_some_iff.1 h
  have hmove : (m ++ [l[i]]).Perm (l[i] :: m) := perm_append_singleton _ _
  calc l.set i b ++ (m ++ [l[i]])
    _ |>.Perm (b :: l.eraseIdx i ++ l[i] :: m) := (set_perm_cons_eraseIdx hi b).append hmove
    _ |>.Perm (b :: (l[i] :: l.eraseIdx i ++ m)) := perm_middle.cons b
    _ |>.Perm (b :: (l ++ m)) := ((getElem_cons_eraseIdx_perm hi).append_right m).cons b

variable (uuid s e) in
theorem ids_step : (step uuid s e).ids.Perm s.ids ∧ (step uuid s e).issued = s.issued ∨
    (step uuid s e).ids.Perm (s.issued :: s.ids) ∧ (step uuid s e).issued = s.issued + 1 := by
  obtain ⟨_, -, hstep, -⟩ | ⟨i, present, r, hr, _, hstep⟩ | ⟨j, d, hd, -, hstep⟩ |
    ⟨j, d, _, hd, -, -, hstep⟩ | ⟨-, hstep⟩ := step_cases uuid s e
  all_goals rw [hstep]
  · right
    refine ⟨?_, rfl⟩
    simp only [ids, map_append, map_cons, map_nil, append_assoc]
    exact perm_middle
  · rw [stepRequest]
    rcases r.phase.resume present (s.ks.perform e.now e.act.link (r.call uuid)).2 with ⟨_, _ | _⟩
    · refine .inl ⟨.of_eq ?_, rfl⟩
      exact congrArg (· ++ _) (map_set_of_eq hr rfl)
    · refine .inr ⟨?_, rfl⟩
      simp only [ids, goOn, map_set, map_append, map_cons, map_nil]
      exact perm_set_append (by rw [getElem?_map, hr]; rfl)
  · refine .inl ⟨.of_eq ?_, rfl⟩
    exact congrArg (_ ++ ·) (map_set_of_eq hd (d.resume_claimId _))
  · refine .inl ⟨.of_eq ?_, rfl⟩
    exact congrArg (_ ++ ·) (map_set_of_eq hd rfl)
  · exact .inl ⟨.refl _, rfl⟩

variable (uuid) in
/-- What a step must meet.  Requests are for the one entry.  Whoever owns its claim is within the lease: that is, a running
    download refreshes in time, and a task is spawned in time.  And a record that is cleared is not a download's. -/
structure Orderly (t : DownloadTarget) (s : Servers) (e : ServerEvent) : Prop where
  target : ∀ target ∈ e.act.target?, target = t
  timely : ∀ n, s.Owns n → Recorded s.ks t (uuid n) → (s.ks.get t.key).leaseExpiresAt.any (e.now.ms < ·)
  tidy : s.call uuid e.act = some (.deleteModel t.entryKey) → (s.ks.get t.key).status ≠ some .downloading

def For (t : DownloadTarget) (s : Servers) : Prop :=
  (∀ r ∈ s.requests, r.target = t) ∧ ∀ d ∈ s.downloads, d.target = t

variable (uuid) in
/-- The invariant: ids are not reused, and the registry knows the owners. -/
structure Sound (t : DownloadTarget) (s : Servers) : Prop where
  entry : s.For t
  distinct : s.ids.Nodup
  issued : ∀ n ∈ s.ids, n < s.issued
  recorded : ∀ n, s.Owns n → Recorded s.ks t (uuid n)

variable {t : DownloadTarget}

theorem For.step (h : s.For t) (he : ∀ target ∈ e.act.target?, target = t) : (step uuid s e).For t := by
  obtain ⟨hrequests, hdownloads⟩ := h
  obtain ⟨target, -, hstep, hact⟩ | ⟨i, present, r, hr, -, hstep⟩ | ⟨j, d, hd, -, hstep⟩ |
    ⟨j, d, _, hd, -, -, hstep⟩ | ⟨-, hstep⟩ := step_cases uuid s e
  all_goals rw [hstep]
  · refine ⟨fun r hr => ?_, hdownloads⟩
    rcases mem_append.1 hr with hr | hr
    · exact hrequests r hr
    · rw [mem_singleton.1 hr]
      exact he target (hact ▸ rfl)
  · have htarget := hrequests r (mem_of_getElem? hr)
    rw [stepRequest]
    rcases r.phase.resume present (s.ks.perform e.now e.act.link (r.call uuid)).2 with ⟨_, _ | _⟩
    · refine ⟨fun r' hr' => ?_, hdownloads⟩
      rcases mem_or_eq_of_mem_set hr' with hr' | rfl
      exacts [hrequests r' hr', htarget]
    · refine ⟨fun r' hr' => ?_, fun d hd => ?_⟩
      · rcases mem_or_eq_of_mem_set hr' with hr' | rfl
        exacts [hrequests r' hr', htarget]
      · rcases mem_append.1 hd with hd | hd
        · exact hdownloads d hd
        · rw [mem_singleton.1 hd]
          exact htarget
  · refine ⟨hrequests, fun d' hd' => ?_⟩
    rcases mem_or_eq_of_mem_set hd' with hd' | rfl
    · exact hdownloads d' hd'
    · rw [Download.resume_target]
      exact hdownloads d (mem_of_getElem? hd)
  · refine ⟨hrequests, fun d' hd' => ?_⟩
    rcases mem_or_eq_of_mem_set hd' with hd' | rfl
    exacts [hdownloads d' hd', hdownloads d (mem_of_getElem? hd)]
  · exact ⟨hrequests, hdownloads⟩

theorem For.call_on (h : s.For t) {act : Act} (hcall : s.call uuid act = some call) : call.On t := by
  cases act with
  | request =>
    obtain ⟨r, hr, hcall⟩ := bind_eq_some_iff.1 hcall
    rw [← h.1 r (mem_of_getElem? hr)]
    exact Request.call_on hcall
  | task =>
    obtain ⟨d, hd, hcall⟩ := bind_eq_some_iff.1 hcall
    rw [← h.2 d (mem_of_getElem? hd)]
    exact Download.call_on hcall
  | start | ended => cases hcall

variable (uuid s e) in
theorem ids_fresh (h : s.ids.Nodup) (hissued : ∀ n ∈ s.ids, n < s.issued) :
    (step uuid s e).ids.Nodup ∧ ∀ n ∈ (step uuid s e).ids, n < (step uuid s e).issued := by
  rcases ids_step uuid s e with ⟨hperm, heq⟩ | ⟨hperm, heq⟩
  · rw [hperm.nodup_iff, heq]
    exact ⟨h, fun n hn => hissued n (hperm.mem_iff.1 hn)⟩
  · rw [hperm.nodup_iff, heq]
    refine ⟨nodup_cons.2 ⟨fun hmem => (hissued _ hmem).false, h⟩, fun n hn => ?_⟩
    rcases mem_cons.1 (hperm.mem_iff.1 hn) with rfl | hn
    · exact Nat.lt_succ_self _
    · exact (hissued n hn).trans (Nat.lt_succ_self _)

theorem Owns.ne_of_ended (hdistinct : s.ids.Nodup) (h : s.Owns n) (hd : d ∈ s.downloads)
    {failure : Option String} (hended : d.state = .ended failure) : d.claimId ≠ n := by
  obtain ⟨-, hdownloads, hdisjoint⟩ := nodup_append.1 hdistinct
  intro heq
  cases h with
  | request hmem => exact hdisjoint _ (mem_map_of_mem hmem) _ (mem_map_of_mem hd) heq.symm
  | task hmem hrunning =>
    obtain rfl := inj_on_of_nodup_map hdownloads hd hmem heq
    cases hended.symm.trans hrunning

theorem Sound.not_disturbs (huuid : Injective uuid) (h : Sound uuid t s) (he : Orderly uuid t s e)
    (howns : s.Owns n) (hcall : s.call uuid e.act = some call) : ¬ call.Disturbs (uuid n) := by
  have htidy : call ≠ .deleteModel t.entryKey := by
    rintro rfl
    exact he.tidy hcall (h.recorded n howns).status
  have hname := (h.entry.call_on hcall).modelName
  cases hact : e.act with
  | request =>
    rw [hact] at hcall
    obtain ⟨r, hr, hcall⟩ := bind_eq_some_iff.1 hcall
    unfold Request.call at hcall
    split at hcall <;> cases hcall
    all_goals first | exact id | exact absurd (congrArg Call.deleteModel hname) htidy
  | task j link =>
    rw [hact] at hcall
    obtain ⟨d, hd, hcall⟩ := bind_eq_some_iff.1 hcall
    unfold Download.call at hcall
    split at hcall <;> cases hcall
    · exact id
    · rename_i failure hended
      exact fun heq => howns.ne_of_ended h.distinct (mem_of_getElem? hd) hended (huuid heq)
  | start =>
    rw [hact] at hcall
    cases hcall
  | ended =>
    rw [hact] at hcall
    cases hcall

theorem Sound.step (huuid : Injective uuid) (h : Sound uuid t s) (he : Orderly uuid t s e) :
    Sound uuid t (step uuid s e) := by
  obtain ⟨hdistinct, hissued⟩ := ids_fresh uuid s e h.distinct h.issued
  refine ⟨h.entry.step he.target, hdistinct, hissued, fun n hn => ?_⟩
  rw [step_ks]
  rcases hn.of_step with howns | ⟨call, hcall, hlink, hgrant⟩
  · have hrecorded := h.recorded n howns
    cases hcall : s.call uuid e.act with
    | none => exact hrecorded
    | some =>
      have hstep := hrecorded.step (he.timely n howns hrecorded) (h.entry.call_on hcall) (h.not_disturbs huuid he howns hcall)
      cases e.act.link with
      | answered | lost => exact hstep.1
      | down => exact hrecorded
  · rw [hcall, hlink]
    exact .granted (h.entry.call_on hcall) hgrant

def Running (s : Servers) (j : ℕ) : Prop := s.downloads[j]?.map (·.state) = some .running

instance (s : Servers) (j : ℕ) : Decidable (s.Running j) := inferInstanceAs (Decidable (_ = _))

theorem Sound.running_unique (huuid : Injective uuid) (h : Sound uuid t s) (hi : s.Running i)
    (hj : s.Running j) : i = j := by
  obtain ⟨d, hd, hdrunning⟩ := map_eq_some_iff.1 hi
  obtain ⟨d', hd', hdrunning'⟩ := map_eq_some_iff.1 hj
  have hrecorded := h.recorded _ (.task (mem_of_getElem? hd) hdrunning)
  have hrecorded' := h.recorded _ (.task (mem_of_getElem? hd') hdrunning')
  have hid : d.claimId = d'.claimId :=
    huuid (mem_unique hrecorded.claimId hrecorded'.claimId)
  obtain ⟨-, hdistinct, -⟩ := nodup_append.1 h.distinct
  obtain ⟨hlt, -⟩ := List.getElem?_eq_some_iff.1 hd
  refine (getElem?_inj (by simpa using hlt) hdistinct).1 ?_
  rw [getElem?_map, getElem?_map, hd, hd', map_some, map_some, hid]

/-- **Single flight**: at no time do two tasks for the entry run, as long as owners are within their lease
    and no clear deletes a claim. -/
theorem single_flight (huuid : Injective uuid) {ks : Keyspace} {events : List ServerEvent}
    (h : Along (Servers.step uuid) (idle ks) (Orderly uuid t) events) {i j : ℕ} (hi : (ran uuid ks events).Running i)
    (hj : (ran uuid ks events).Running j) : i = j := by
  have hsound : Sound uuid t (ran uuid ks events) := by
    refine invariant_along ?_ (fun s e he hs => hs.step huuid he) h
    refine ⟨⟨by simp [idle], by simp [idle]⟩, nodup_nil, by simp [idle, ids], fun n hn => ?_⟩
    cases hn with
    | request hmem _ | task hmem _ => cases hmem
  exact hsound.running_unique huuid hi hj

def serial (n : ℕ) : String := String.ofList (List.replicate n '0')

theorem serial_injective : Injective serial := by
  intro m n h
  simpa [serial] using congrArg String.length h

def anyTarget : DownloadTarget := ⟨"org/model", .huggingFace⟩

def atZero (act : Act) : ServerEvent := ⟨⟨0, (0, 0)⟩, act⟩

def waiting : List ServerEvent :=
  [.start anyTarget, .request 0 false .answered, .request 0 false .answered, .start anyTarget,
    .request 1 false .answered, .request 1 false .answered, .task 0 .answered, .request 1 false .answered].map atZero

theorem waiting_single_flight :
    (ran serial ∅ waiting).Running 0 ∧ ∀ j, (ran serial ∅ waiting).Running j → 0 = j := by
  have horderly : Along (step serial) (idle ∅) (Orderly serial anyTarget) waiting :=
    along_of_check
      (fun s e => decide ((∀ target ∈ e.act.target?, target = anyTarget) ∧
        ((s.ks.get anyTarget.key).status = some .downloading →
          (s.ks.get anyTarget.key).leaseExpiresAt.any (e.now.ms < ·)) ∧
        (s.call serial e.act = some (.deleteModel anyTarget.entryKey) →
          (s.ks.get anyTarget.key).status ≠ some .downloading)))
      (fun s e h => (of_decide_eq_true h).elim fun htarget h => ⟨htarget, fun _ _ hrecorded => h.1 hrecorded.status, h.2⟩)
      (by decide +kernel)
  have hrunning : (ran serial ∅ waiting).Running 0 := by decide +kernel
  exact ⟨hrunning, fun j hj => single_flight serial_injective horderly hrunning hj⟩

/-- An entry is downloaded on one replica.  Two requests on replicas without its files find the record at once; the second
    clears it after the first has claimed the entry again. -/
def clearedTwice : List ServerEvent :=
  [.start anyTarget, .request 0 false .answered, .request 0 false .answered, .ended 0 none, .task 0 .answered,
    .start anyTarget, .start anyTarget, .request 1 false .answered, .request 2 false .answered,
    .request 1 false .answered, .request 2 false .answered,
    -- the first clears, claims and spawns
    .request 1 false .answered, .request 1 false .answered, .request 1 false .answered,
    -- and then the second
    .request 2 false .answered, .request 2 false .answered, .request 2 false .answered].map atZero

/-- Two tasks run, though no time has passed and every call was answered. -/
theorem clearedTwice_runs_twice :
    Injective serial ∧
    (∀ e ∈ clearedTwice, e.now.ms = 0 ∧ e.act.link = .answered ∧ ∀ target ∈ e.act.target?, target = anyTarget) ∧
    (ran serial ∅ clearedTwice).Running 1 ∧ (ran serial ∅ clearedTwice).Running 2 :=
  ⟨serial_injective, by decide +kernel, by decide +kernel, by decide +kernel⟩

end Servers

end ModelExpress.Registry
