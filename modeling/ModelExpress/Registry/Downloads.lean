/-
  ModelExpress server — `ensure_model_downloaded` and its download tasks (`services.rs`). A request stops
  between any two of its registry calls, so `Phase` is the place where it will go on; a step is one registry
  call, or a look at the files of the replica (`present`).
-/
import ModelExpress.Lib.Run
import ModelExpress.Registry.Redis

namespace ModelExpress.Registry

def downloadLeaseDuration : ℕ := 30 * 1000000000

def maxClaimAttempts : ℕ := 2

/-- What a request asks for: its entry key and its provider. -/
structure DownloadTarget where
  entryKey : String
  provider : ModelProvider
  deriving DecidableEq

inductive Phase where
  | claiming (attempt : ℕ)
  /-- The entry is `DOWNLOADED`: are its files here? -/
  | checking (attempt : ℕ)
  | clearing (attempt : ℕ)
  | retrying
  /-- The first update is sent; then the owner spawns the task. -/
  | announcing (owner retry : Bool)
  | polling
  | pollChecking
  | pollClearing
  /-- The files are here: the touch of `recorded_files_present`. -/
  | found
  | returned (status : ModelStatus)
  deriving DecidableEq

structure Request where
  target : DownloadTarget
  phase : Phase
  claimId : ℕ
  deriving DecidableEq

inductive DownloadState where
  | running
  /-- The download has ended, with an error or without, and is about to be published. -/
  | ended (failure : Option String)
  | stopped
  deriving DecidableEq

/-- A task of `spawn_download_task`. -/
structure Download where
  target : DownloadTarget
  retry : Bool
  claimId : ℕ
  state : DownloadState
  deriving DecidableEq

def Download.outcome (retry : Bool) : Option String → ModelStatus × Option String
  | none => (.downloaded, some "Model download completed successfully")
  | some e => (.error, some (if retry then "Download failed on retry: " ++ e else "Download failed: " ++ e))

section
variable (uuid : ℕ → String)

def Request.call (r : Request) : Option Call :=
  match r.phase with
  | .claiming _ | .polling =>
    some (.tryClaimForDownload r.target.entryKey r.target.provider (uuid r.claimId) downloadLeaseDuration)
  | .retrying =>
    some (.tryResetErrorForRetry r.target.entryKey r.target.provider (uuid r.claimId) downloadLeaseDuration)
  | .clearing _ | .pollClearing => some (.deleteModel r.target.entryKey)
  | .found => some (.touchModel r.target.entryKey)
  | .checking _ | .announcing .. | .pollChecking | .returned _ => none

/-- The registry call a task makes next: a heartbeat while it runs, then the end of its claim. -/
def Download.call (d : Download) : Option Call :=
  match d.state with
  | .running =>
    some (.refreshDownloadClaim d.target.entryKey d.target.provider (uuid d.claimId) downloadLeaseDuration)
  | .ended failure =>
    let (status, message) := outcome d.retry failure
    some (.finishDownloadClaim d.target.entryKey d.target.provider (uuid d.claimId) status message)
  | .stopped => none

end

/-- Where a request goes on after its step, and whether it spawns a task (`some retry`).  `answer` is `none` if the call
    failed.  A claim won in the wait loop is spawned at once, the one of the first loop after the update is sent. -/
def Phase.resume (present : Bool) (answer : Option Answer) : Phase → Phase × Option Bool
  | .claiming attempt =>
    match answer with
    | some (.claim .claimed) | some (.claim .tookOver) => (.announcing true false, none)
    | some (.claim (.alreadyExists .downloaded)) => (.checking attempt, none)
    | some (.claim (.alreadyExists .error)) => (.retrying, none)
    | some (.claim (.alreadyExists .downloading)) => (.announcing false false, none)
    | _ => (.returned .error, none)
  | .checking attempt =>
    if present then (.found, none)
    else if attempt ≥ maxClaimAttempts then (.returned .error, none)
    else (.clearing attempt, none)
  | .clearing attempt => (.claiming (attempt + 1), none)
  | .retrying =>
    match answer with
    | some (.won won) => (.announcing won true, none)
    | _ => (.returned .error, none)
  | .announcing owner retry => (.polling, if owner then some retry else none)
  | .polling =>
    match answer with
    | some (.claim .claimed) | some (.claim .tookOver) => (.polling, some false)
    | some (.claim (.alreadyExists .downloaded)) => (.pollChecking, none)
    | some (.claim (.alreadyExists .error)) => (.returned .error, none)
    | _ => (.polling, none)
  | .pollChecking => (if present then .found else .pollClearing, none)
  | .pollClearing => (if answer.isSome then .polling else .returned .error, none)
  | .found => (.returned .downloaded, none)
  | .returned status => (.returned status, none)

/-- A task after its registry call: a refused heartbeat stops it, one that fails is only logged. -/
def Download.resume (answer : Option Answer) (d : Download) : Download :=
  match d.state with
  | .running => if answer = some (.won false) then { d with state := .stopped } else d
  | .ended _ | .stopped => { d with state := .stopped }

structure Servers where
  ks : Keyspace
  issued : ℕ
  requests : List Request
  downloads : List Download

/-- What becomes of a registry call: it is answered, or it fails after or before it took effect. -/
inductive Link where
  | answered
  | lost
  | down
  deriving DecidableEq

inductive Act where
  | start (target : DownloadTarget)
  | request (i : ℕ) (present : Bool) (link : Link)
  | task (j : ℕ) (link : Link)
  | ended (j : ℕ) (failure : Option String)
  deriving DecidableEq

/-- What becomes of the registry call of the act. -/
def Act.link : Act → Link
  | request _ _ link | task _ link => link
  | start _ | ended .. => .answered

def Act.target? : Act → Option DownloadTarget
  | start target => some target
  | request .. | task .. | ended .. => none

structure ServerEvent where
  now : Moment
  act : Act
  deriving DecidableEq

/-- The keyspace and the answer after a call, if there is one. -/
def Keyspace.perform (ks : Keyspace) (now : Moment) (link : Link) : Option Call → Keyspace × Option Answer
  | some call =>
    match link with
    | .answered => ((Redis.step ks now call).1, some (Redis.step ks now call).2)
    | .lost => ((Redis.step ks now call).1, none)
    | .down => (ks, none)
  | none => (ks, none)

namespace Servers

variable (uuid : ℕ → String) (s : Servers)

/-- The `i`th request goes on in `phase`, and spawns a task if it has to; then it draws a new claim id. -/
def goOn (i : ℕ) (r : Request) : Phase × Option Bool → Servers
  | (phase, none) => { s with requests := s.requests.set i { r with phase } }
  | (phase, some retry) =>
    { s with
      issued := s.issued + 1
      requests := s.requests.set i { r with phase, claimId := s.issued }
      downloads := s.downloads ++ [⟨r.target, retry, r.claimId, .running⟩] }

def stepRequest (now : Moment) (i : ℕ) (present : Bool) (link : Link) (r : Request) : Servers :=
  let result := s.ks.perform now link (r.call uuid)
  { s with ks := result.1 }.goOn i r (r.phase.resume present result.2)

def stepTask (now : Moment) (j : ℕ) (link : Link) (d : Download) : Servers :=
  let result := s.ks.perform now link (d.call uuid)
  { s with ks := result.1, downloads := s.downloads.set j (d.resume result.2) }

def step (e : ServerEvent) : Servers :=
  match e.act with
  | .start target =>
    { s with issued := s.issued + 1, requests := s.requests ++ [⟨target, .claiming 1, s.issued⟩] }
  | .request i present link =>
    match s.requests[i]? with
    | some r => s.stepRequest uuid e.now i present link r
    | none => s
  | .task j link =>
    match s.downloads[j]? with
    | some d => s.stepTask uuid e.now j link d
    | none => s
  | .ended j failure =>
    match s.downloads[j]? with
    | some d =>
      if d.state = .running then { s with downloads := s.downloads.set j { d with state := .ended failure } } else s
    | none => s

def call : Act → Option Call
  | .request i _ _ => s.requests[i]?.bind (Request.call uuid)
  | .task j _ => s.downloads[j]?.bind (Download.call uuid)
  | .start _ | .ended .. => none

@[simp] theorem goOn_ks (i : ℕ) (r : Request) (result : Phase × Option Bool) : (s.goOn i r result).ks = s.ks := by
  obtain ⟨_, _ | _⟩ := result <;> rfl

theorem step_cases (e : ServerEvent) : (∃ target, s.call uuid e.act = none ∧
      step uuid s e = { s with issued := s.issued + 1, requests := s.requests ++ [⟨target, .claiming 1, s.issued⟩] } ∧
      e.act = .start target) ∨
    (∃ i present r, s.requests[i]? = some r ∧ s.call uuid e.act = r.call uuid ∧
      step uuid s e = s.stepRequest uuid e.now i present e.act.link r) ∨
    (∃ j d, s.downloads[j]? = some d ∧ s.call uuid e.act = d.call uuid ∧
      step uuid s e = s.stepTask uuid e.now j e.act.link d) ∨
    (∃ j d failure, s.downloads[j]? = some d ∧ d.state = .running ∧ s.call uuid e.act = none ∧
      step uuid s e = { s with downloads := s.downloads.set j { d with state := .ended failure } }) ∨
    (s.call uuid e.act = none ∧ step uuid s e = s) := by
  obtain ⟨now, act⟩ := e
  cases act with
  | start target => exact .inl ⟨target, rfl, rfl, rfl⟩
  | request i present =>
    cases hr : s.requests[i]? with
    | some r => exact .inr (.inl ⟨i, present, r, hr, by simp [call, hr], by simp [step, hr, Act.link]⟩)
    | none => exact .inr (.inr (.inr (.inr ⟨by simp [call, hr], by simp [step, hr]⟩)))
  | task j =>
    cases hd : s.downloads[j]? with
    | some d => exact .inr (.inr (.inl ⟨j, d, hd, by simp [call, hd], by simp [step, hd, Act.link]⟩))
    | none => exact .inr (.inr (.inr (.inr ⟨by simp [call, hd], by simp [step, hd]⟩)))
  | ended j failure =>
    cases hd : s.downloads[j]? with
    | some d =>
      by_cases hrunning : d.state = .running
      · exact .inr (.inr (.inr (.inl ⟨j, d, failure, hd, hrunning, rfl, by simp [step, hd, hrunning]⟩)))
      · exact .inr (.inr (.inr (.inr ⟨rfl, by simp [step, hd, hrunning]⟩)))
    | none => exact .inr (.inr (.inr (.inr ⟨rfl, by simp [step, hd]⟩)))

theorem step_ks (e : ServerEvent) : (step uuid s e).ks = (s.ks.perform e.now e.act.link (s.call uuid e.act)).1 := by
  obtain ⟨_, hcall, hstep, -⟩ | ⟨i, _, r, -, hcall, hstep⟩ | ⟨j, d, -, hcall, hstep⟩ | ⟨j, d, _, -, -, hcall, hstep⟩ |
    ⟨hcall, hstep⟩ := step_cases uuid s e
  · rw [hstep, hcall]
    rfl
  · rw [hstep, hcall, stepRequest, goOn_ks]
  · rw [hstep, hcall, stepTask]
  · rw [hstep, hcall]
    rfl
  · rw [hstep, hcall]
    rfl

def idle (ks : Keyspace) : Servers := ⟨ks, 0, [], []⟩

def ran (ks : Keyspace) : List ServerEvent → Servers := Run.run (step uuid) (idle ks)

end Servers

end ModelExpress.Registry
