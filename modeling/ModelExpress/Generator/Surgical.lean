/-
  ModelExpress generator — installing only what a delta changes (`engines/vllm/installer.py`).

  A peer transfer writes to the engine before the installer forgets the version that it
  remembers to be there: when its context raises, the overwritten version is remembered
  (`Overwrites`).
-/
import ModelExpress.Generator.Footprint
import ModelExpress.Lib.Run

namespace ModelExpress.Generator

open Effects List Option

section
variable {β : Type} (world : World (String → β)) (config : Config) (packing : Packing)

/-! ## The installer -/

variable (version : String)

/-- Loading tensors of a checkpoint gives these the values of the checkpoint. -/
def World.load (names : List String) (engine : String → β) : String → β :=
  fun name => if name ∈ names then world.weights version name else engine name

/-- A load of `names t` of the checkpoint, that may raise half way. -/
def loadTensors (names : List (Event (String → β)) → List String) : Updating (String → β) Unit :=
  callWith world (.install version) fun ok s =>
    { s with engine := if ok then world.load version (names s.trace) s.engine else world.junk s.trace }

def installCheckpoint : Updating (String → β) Unit :=
  loadTensors world version fun _ => world.tensors version

/-- `install_changed_tensors`: the modules that changed, and the rest when one of them stays incomplete. -/
def installChangedTensors (changed : List String) : Updating (String → β) Unit := do
  call world .indexCheckpoint
  match packing.moduleGroups changed (world.tensors version) with
  | none => throw .other
  | some names => loadTensors world version fun t => if world.incomplete t then world.tensors version else names

def loadCheckpoint (target : String) : Option (List String) → Updating (String → β) Unit
  | none => installCheckpoint world target
  | some changed => installChangedTensors world packing target changed

/-- `install`; nothing is assumed of what installed tensors of a trainer or of a peer are. -/
def install (update : SessionUpdate) : Updating (String → β) Unit := do
  let live := (← get).liveVersion
  modify fun s : State (String → β) => { s with liveVersion := none }
  match update.prepared with
  | .checkpoint target streaming deltaChanges =>
    loadCheckpoint world packing target
      (if streaming = false ∧ config.surgical then changedSince deltaChanges live target else none)
    modify fun s : State (String → β) => { s with liveVersion := some target }.log (.installed target) true
  | _ => callWith world (.install update.version) fun _ s => { s with engine := world.junk s.trace }

/-! ## Runs of a session -/

inductive SessionCall where
  | stage (version : String)
  | apply (i : ℕ)
  | release (i : ℕ)
  deriving DecidableEq

def SessionCall.perform : SessionCall → Updating (String → β) Unit
  | .stage version => do
    let _ ← Generator.stage world config version config.sourceOrder
  | .apply i => applyUpdate world (install world config packing) i
  | .release i => releaseUpdate world i

def afterSessionCall (s : State (String → β)) (c : SessionCall) : State (String → β) :=
  final (c.perform world config packing) s

/-- What is in the engine when its checkpoint is: every tensor of it has its value. -/
def Holds (engine : String → β) : Prop :=
  ∀ name ∈ world.tensors version, engine name = world.weights version name

/-- **Whenever the installation of a checkpoint returned, the checkpoint was in the engine.** -/
def Reproduced (s : State (String → β)) : Prop :=
  ∀ e ∈ s.trace, ∀ version, e.act = .installed version → Holds world version e.engine

def World.contents (version name : String) : Option β :=
  if name ∈ world.tensors version then some (world.weights version name) else none

/-- The index of a delta names every tensor in which the delta differs from its base. -/
def World.IndexesChanges : Prop :=
  ∀ t version chain, world.chain t version = some chain → chain.NamesDifferences world.contents (world.index t)

/-- The call starts a peer transfer into an engine whose version is remembered, and raises before the installer is called. -/
inductive Overwrites (s : State (String → β)) : SessionCall → Prop
  | apply {i : ℕ} {update : SessionUpdate} {s' : State (String → β)} {e : Raised} (hi : s.updates[i]? = some update)
      (hreleased : update.released = false) (happlied : update.applied = false) (hlive : s.liveVersion.isSome)
      (hraise : enterContext world update.prepared s = .error e s') (hengine : s'.engine ≠ s.engine) :
      Overwrites s (.apply i)

/-! ## The invariant -/

/-- Checkpoints have a lineage, and those installed were in the engine. -/
structure Recorded (s : State (String → β)) : Prop where
  reproduced : Reproduced world s
  lineage : ∀ update ∈ s.updates, ∀ target streaming changes, update.prepared = .checkpoint target streaming changes →
    Lineage world.contents changes

/-- Besides, the engine holds the version that is remembered. -/
structure Exact (s : State (String → β)) : Prop extends Recorded world s where
  live : ∀ version, s.liveVersion = some version → Holds world version s.engine

end

section
variable {β : Type} {world : World (String → β)} {config : Config} {packing : Packing} {s s' : State (String → β)}

variable {act : Act} {ok : Bool}

theorem reproduced_log (h : Reproduced world s)
    (hact : ∀ version, act = .installed version → Holds world version s.engine) : Reproduced world (s.log act ok) := by
  intro e he
  rcases mem_append.1 he with he | he
  · exact h e he
  · obtain rfl := mem_singleton.1 he
    exact hact

theorem reproduced_log_plain (h : Reproduced world s) (hact : ∀ version, act ≠ .installed version) :
    Reproduced world (s.log act ok) := reproduced_log h fun version heq => absurd heq (hact version)

theorem Act.ne_installed (h : act.plain = true) (version : String) : act ≠ .installed version := by
  rintro rfl
  cases h

def HasLineage (world : World (String → β)) (update : SessionUpdate) : Prop :=
  ∀ target streaming changes, update.prepared = .checkpoint target streaming changes → Lineage world.contents changes

theorem adds_lineage (hindex : world.IndexesChanges) : Adds world config (HasLineage world) := by
  intro _ _ _ hprepared target streaming changes hcheckpoint
  rcases hprepared target streaming changes hcheckpoint with rfl | ⟨t, rfl⟩
  · exact lineage_nil
  · exact lineage_deltaChanges fun chain hchain => hindex t target chain hchain

theorem recorded_framed : Framed (Aside (HasLineage world)) (Recorded world) := by
  intro s s' hstep hs
  cases hstep with
  | log hact => exact ⟨reproduced_log_plain hs.reproduced (Act.ne_installed hact), hs.lineage⟩
  | change h =>
    refine ⟨?_, fun update hupdate target streaming changes hprepared => ?_⟩
    · rw [Reproduced, h.trace]
      exact hs.reproduced
    · rcases h.added update hupdate with ⟨old, hold, hsame⟩ | hnew
      · exact hs.lineage old hold target streaming changes (hsame.symm.trans hprepared)
      · exact hnew target streaming changes hprepared

theorem exact_framed : Framed (Aside (HasLineage world)) (Exact world) := by
  intro s s' hstep hs
  refine ⟨recorded_framed s s' hstep hs.toRecorded, ?_⟩
  cases hstep with
  | log => exact hs.live
  | change h =>
    rw [h.live, h.engine]
    exact hs.live

/-! ## Loading -/

theorem holds_load_all (version : String) (engine : String → β) :
    Holds world version (world.load version (world.tensors version) engine) := by
  intro name hname
  rw [World.load, if_pos hname]

variable {target : String} {live : String} {changed : List String}

theorem holds_load_changed {engine : String → β} {names : List String}
    (hlive : Holds world live engine) (hsame : ∀ name ∉ changed, world.contents target name = world.contents live name)
    (hnames : changed ⊆ names) : Holds world target (world.load target names engine) := by
  intro name hname
  rw [World.load]
  split_ifs with hloaded
  · rfl
  · have hcontents := hsame name fun hchanged => hloaded (hnames hchanged)
    rw [World.contents, if_pos hname, World.contents] at hcontents
    split_ifs at hcontents with hold
    rw [hlive name hold, some.inj hcontents]

theorem loadTensors_spec (hs : Recorded world s) (hlive : s.liveVersion = none) {version : String}
    {names : List (Event (String → β)) → List String}
    (hload : ∀ t, Holds world version (world.load version (names t) s.engine)) :
    wp (loadTensors world version names) (fun _ s' => Recorded world s' ∧ Holds world version s'.engine)
      (fun _ s' => Exact world s') s := by
  have hlog : ∀ ok, Reproduced world (s.log (.install version) ok) :=
    fun ok => reproduced_log_plain hs.reproduced fun _ h => by cases h
  refine wp_callWith world ⟨⟨hlog true, hs.lineage⟩, hload _⟩ fun _ => ⟨⟨hlog false, hs.lineage⟩, fun version h => ?_⟩
  rw [show s.liveVersion = some version from h] at hlive
  cases hlive

theorem installChangedTensors_spec (hs : Exact world s) (hnone : s.liveVersion = none)
    (hlive : Holds world live s.engine)
    (hsame : ∀ name ∉ changed, world.contents target name = world.contents live name) :
    wp (installChangedTensors world packing target changed)
      (fun _ s' => Recorded world s' ∧ Holds world target s'.engine) (fun _ s' => Exact world s') s := by
  refine wp_bind.2 (wp_callWith world ?_ fun _ => exact_framed s _ (.log rfl) hs)
  have hs' : Exact world (s.log .indexCheckpoint true) := exact_framed s _ (.log rfl) hs
  cases hgroups : packing.moduleGroups changed (world.tensors target) with
  | none => exact hs'
  | some =>
    refine loadTensors_spec hs'.toRecorded hnone fun t => ?_
    split_ifs
    · exact holds_load_all target _
    · exact holds_load_changed hlive hsame (Packing.subset_moduleGroups hgroups)

variable {update : SessionUpdate}

theorem install_spec (hs : Recorded world s)
    (hlive : ∀ target streaming changes, update.prepared = .checkpoint target streaming changes →
      ∀ version, s.liveVersion = some version → Holds world version s.engine) (hlineage : HasLineage world update) :
    ends (install world config packing update) (Exact world) s := by
  refine wp_bind.2 (wp_get.2 (wp_bind.2 ((wp_modify _).2 ?_)))
  have hforgot : Exact world { s with liveVersion := none } :=
    ⟨⟨hs.reproduced, hs.lineage⟩, fun version h => by cases h⟩
  have hother : ends (callWith world (.install update.version) fun _ s => { s with engine := world.junk s.trace })
      (Exact world) { s with liveVersion := none } := by
    have hany : ∀ ok engine, Exact world { State.log { s with liveVersion := none } (.install update.version) ok with engine } :=
      fun ok _ => ⟨⟨reproduced_log_plain hs.reproduced fun _ h => (by cases h), hs.lineage⟩, fun version h => by cases h⟩
    exact wp_callWith world (hany _ _) fun _ => hany _ _
  cases hprepared : update.prepared with
  | engineTensors | streamingTensors | runtimeTensors id => exact hother
  | checkpoint target streaming changes =>
    have hremember : ∀ s' : State (String → β), Recorded world s' → Holds world target s'.engine →
        Exact world ({ s' with liveVersion := some target }.log (.installed target) true) := by
      refine fun s' hs' hholds => ⟨⟨reproduced_log hs'.reproduced fun version h => ?_, hs'.lineage⟩, fun version h => ?_⟩
      · obtain rfl := Act.installed.inj h
        exact hholds
      · obtain rfl := some.inj h
        exact hholds
    have hload : wp (loadCheckpoint world packing target (if streaming = false ∧ config.surgical = true then
        changedSince changes s.liveVersion target else none)) (fun _ s' => Recorded world s' ∧ Holds world target s'.engine)
        (fun _ => Exact world) { s with liveVersion := none } := by
      cases hchanged : if streaming = false ∧ config.surgical = true then changedSince changes s.liveVersion target else none with
      | none => exact loadTensors_spec hforgot.toRecorded rfl fun _ => holds_load_all target _
      | some =>
        rw [ite_eq_iff] at hchanged
        obtain ⟨-, hchanged⟩ | ⟨-, hnone⟩ := hchanged
        · obtain ⟨version, hversion, hsame⟩ := changedSince_sound (hlineage target streaming changes hprepared) hchanged
          exact installChangedTensors_spec hforgot rfl (hlive target streaming changes hprepared version hversion) hsame
        · cases hnone
    exact wp_bind.2 (hload.imp fun _ s' h => hremember s' h.1 h.2)

/-! ## Applying -/

theorem recalls_framed (live : Option String) :
    Framed (Aside (HasLineage world)) (fun s => Recorded world s ∧ s.liveVersion = live) := by
  rintro s s' hstep ⟨hs, hlive⟩
  refine ⟨recorded_framed s s' hstep hs, ?_⟩
  cases hstep with
  | log => exact hlive
  | change h => exact h.live.trans hlive

theorem recalls_enterContext (live : Option String) (prepared : PreparedArtifact) :
    Keeps (fun s => Recorded world s ∧ s.liveVersion = live) (fun _ s => Recorded world s ∧ s.liveVersion = live)
      (enterContext world prepared) := by
  have hcall : ∀ act : Act, act.plain = true → Keeps (fun s => Recorded world s ∧ s.liveVersion = live)
      (fun _ s => Recorded world s ∧ s.liveVersion = live) (call world act) :=
    fun act hact => aside_call world hact _ (recalls_framed live)
  have hread : ∀ f, Keeps (fun s => Recorded world s ∧ s.liveVersion = live)
      (fun _ s => Recorded world s ∧ s.liveVersion = live) (modifyRead f) :=
    fun f => keeps_modify fun s hs => ⟨⟨hs.1.reproduced, hs.1.lineage⟩, hs.2⟩
  have hreceive : Keeps (fun s => Recorded world s ∧ s.liveVersion = live)
      (fun _ s => Recorded world s ∧ s.liveVersion = live) (receivePeer world) := by
    intro s hs
    have hany : ∀ ok, Recorded world (s.log .receivePeer ok) :=
      fun ok => ⟨reproduced_log_plain hs.1.reproduced fun _ h => (by cases h), hs.1.lineage⟩
    refine wp_callWith world ?_ fun _ => ?_
    · split
      · exact ⟨⟨(hany true).reproduced, (hany true).lineage⟩, hs.2⟩
      · exact ⟨hany true, hs.2⟩
    · split
      · exact ⟨⟨(hany false).reproduced, (hany false).lineage⟩, hs.2⟩
      · exact ⟨hany false, hs.2⟩
  cases prepared with
  | engineTensors | streamingTensors | checkpoint => exact hcall _ rfl
  | runtimeTensors id =>
    refine keeps_get.bind fun s => ?_
    cases s.activeRead with
    | none => exact keeps_throw fun _ h => h
    | some =>
      have hrest := hreceive.tryFinally ((hcall .closeRead rfl).tryFinally (hread ({ · with leased := false })))
      refine Keeps.ite (fun _ => keeps_throw fun _ h => h) fun _ => Keeps.ite (fun _ => ?_) fun _ => hrest
      refine Keeps.ite (fun _ => keeps_throw fun _ h => h) fun _ => (hcall _ rfl).bind fun _ => ?_
      exact (hread _).bind fun _ => hrest

theorem exact_leaveContext (prepared : PreparedArtifact) :
    Keeps (Exact world) (fun _ => Exact world) (leaveContext world prepared) := by
  cases prepared with
  | runtimeTensors id => exact keeps_pure _
  | engineTensors => exact aside_call world rfl _ exact_framed
  | streamingTensors | checkpoint => exact aside_call world rfl _ exact_framed

variable {f : SessionUpdate → SessionUpdate} {i : ℕ}

theorem mem_modify {updates : List SessionUpdate}
    (h : update ∈ updates.modify i f) : ∃ old ∈ updates, update = old ∨ update = f old := by
  obtain ⟨j, hj⟩ := mem_iff_getElem?.1 h
  rw [getElem?_modify] at hj
  obtain ⟨old, hold, rfl⟩ := map_eq_some_iff.1 hj
  refine ⟨old, mem_of_getElem? hold, ?_⟩
  split_ifs
  · exact .inr rfl
  · exact .inl rfl

theorem Recorded.modifyUpdate (hs : Recorded world s) (i : ℕ)
    (hf : ∀ update, (f update).prepared = update.prepared) : Recorded world (s.modifyUpdate i f) := by
  refine ⟨hs.reproduced, fun _ hupdate target streaming changes hprepared => ?_⟩
  obtain ⟨old, hold, rfl | rfl⟩ := mem_modify hupdate
  · exact hs.lineage _ hold target streaming changes hprepared
  · exact hs.lineage old hold target streaming changes ((hf old).symm.trans hprepared)

theorem exact_modifyUpdate (i : ℕ) (hf : ∀ update, (f update).prepared = update.prepared) :
    Keeps (Exact world) (fun _ => Exact world) (modifyUpdate i f) :=
  keeps_modify fun _ hs => ⟨hs.toRecorded.modifyUpdate i hf, hs.live⟩

theorem installUpdate_exact (hs : Exact world s) (hlineage : HasLineage world update)
    (henter : ∀ e s', enterContext world update.prepared s = .error e s' → s.liveVersion.isSome → s'.engine = s.engine) :
    ends (installUpdate world (install world config packing) i update) (Exact world) s := by
  have hrecalls := recalls_enterContext s.liveVersion update.prepared s ⟨hs.toRecorded, rfl⟩
  refine wp_bind.2 ?_
  cases hcall : enterContext world update.prepared s with
  | error e s₁ =>
    rw [wp_of_error hcall] at hrecalls ⊢
    refine ⟨hrecalls.1, fun version hversion => ?_⟩
    rw [hrecalls.2] at hversion
    rw [henter e s₁ hcall (by simp [hversion])]
    exact hs.live version hversion
  | ok _ s₁ =>
    have hexact : ∀ target streaming changes, update.prepared = .checkpoint target streaming changes → Exact world s₁ :=
      fun _ _ _ hprepared => by
        rw [hprepared] at hcall
        exact (wp_of_ok hcall).1 (aside_call world rfl _ exact_framed s hs)
    rw [wp_of_ok hcall] at hrecalls ⊢
    refine wp_bind.2 ((wp_tryFinally _).2 (wp_bind.2 ((wp_modify _).2 ?_)))
    have hleave : ∀ s', Exact world s' → ends (leaveContext world update.prepared) (Exact world) s' :=
      fun s' h => exact_leaveContext update.prepared s' h
    have hstarted : Recorded world (s₁.modifyUpdate i ({ · with installationStarted := true })) :=
      hrecalls.1.modifyUpdate i fun _ => rfl
    refine (install_spec hstarted (fun target streaming changes hprepared => (hexact target streaming changes hprepared).live)
      hlineage).mono (fun _ s₂ h₂ => ?_) fun _ s₂ h₂ => hleave s₂ h₂
    refine (hleave s₂ h₂).imp fun _ s₃ h₃ => ?_
    exact exact_modifyUpdate (f := ({ · with applied := true })) i (fun _ => rfl) s₃ h₃

theorem exact_fenceUpdate (i : ℕ) (prepared : PreparedArtifact) :
    Keeps (Exact world) (fun _ => Exact world) (fenceUpdate world i prepared) := by
  refine keeps_get.bind fun s => Keeps.bind (exact_modifyUpdate (f := fun update =>
    { update with installationStarted := update.installationStarted || s.mutated prepared }) i fun _ => rfl) fun _ => ?_
  refine Keeps.bind (aside_theUpdate i _ exact_framed) fun _ => Keeps.ite (fun _ => ?_) fun _ => keeps_pure _
  exact Keeps.tryCatch (aside_call world rfl _ exact_framed) fun _ s h => h

theorem applyUpdate_exact (hs : Exact world s) (hover : ¬ Overwrites world s (.apply i)) :
    ends (applyUpdate world (install world config packing) i) (Exact world) s := by
  have hclose : ∀ leases primary, Keeps (Exact world) (fun _ => Exact world) (closeLease world leases primary) :=
    fun leases primary => aside_closeLease world leases primary _ exact_framed
  simp only [applyUpdate, theUpdate, wp_bind, wp_get]
  cases hi : s.updates[i]? with
  | none => exact hs
  | some update =>
    refine (wp_pure _).2 (wp_ite.2 ⟨fun _ => hs, fun hreleased => wp_ite.2 ⟨fun _ => hs, fun happlied => ?_⟩⟩)
    rw [Bool.not_eq_true] at hreleased happlied
    refine wp_bind.2 (wp_attempt.2 ((installUpdate_exact hs (hs.lineage update (mem_of_getElem? hi)) ?_).mono
      (fun _ s₁ h₁ => ?_) fun e s₁ h₁ => ?_))
    · intro e s' hraise hlive
      by_contra hengine
      exact hover (.apply hi hreleased happlied hlive hraise hengine)
    · exact wp_bind.2 (wp_ite.2 ⟨fun _ => hclose _ _ s₁ h₁, fun _ => h₁⟩)
    · refine wp_bind.2 ((exact_fenceUpdate i _ s₁ h₁).imp fun _ s₂ h₂ => ?_)
      refine wp_bind.2 (wp_ite.2 ⟨fun _ => wp_bind.2 ?_, fun _ => h₂⟩)
      exact (hclose _ _ s₂ h₂)

theorem exact_perform (hindex : world.IndexesChanges) (hs : Exact world s) {c : SessionCall} (hover : ¬ Overwrites world s c) :
    ends (c.perform world config packing) (Exact world) s := by
  cases c with
  | stage version =>
    refine wp_bind.2 ?_
    exact (aside_stage world config (adds_lineage hindex) version _ _ exact_framed s hs)
  | apply i => exact applyUpdate_exact hs hover
  | release i => exact aside_releaseUpdate world i _ exact_framed s hs

end

section
variable {β : Type} (world : World (String → β)) (config : Config) (packing : Packing)

def afterSessionCalls (calls : List SessionCall) (s : State (String → β)) : State (String → β) :=
  Run.run (afterSessionCall world config packing) s calls

structure NewSession (s : State (String → β)) : Prop where
  updates : s.updates = []
  live : s.liveVersion = none
  trace : s.trace = []

/-- **Surgical installs reproduce the target**, in every run in which no failed peer transfer overwrites a
remembered version. -/
theorem checkpoints_reproduced (hindex : world.IndexesChanges) {s : State (String → β)} (hs : NewSession s)
    {calls : List SessionCall}
    (h : Run.Along (afterSessionCall world config packing) s (fun s c => ¬ Overwrites world s c) calls) :
    Reproduced world (afterSessionCalls world config packing calls s) := by
  have hnew : Exact world s := by
    refine ⟨⟨?_, ?_⟩, ?_⟩
    · simp [Reproduced, hs.trace]
    · simp [hs.updates]
    · simp [hs.live]
  exact (Run.invariant_along hnew (fun _ _ hover hexact => wp.final (exact_perform hindex hexact hover)) h).reproduced

end

def deltaWorld : World (String → ℕ) where
  answer t act := match act with
    | .prepare version => if version ≠ "c" ∧ ¬ t.any (·.act = .resolveReplayChain version) then some .runtime else none
    | .receivePeer => some .rpc
    | _ => none
  weights version name := if version = "b" ∧ name = "x.weight" then 2 else 1
  junk _ _ := 0
  starts _ := true
  takes _ := false
  attempts _ := 1
  bases _ := []
  oneMethod _ := true
  blocked _ := false
  streamed _ := false
  chain _ version := if version = "b" then some ⟨"a", ["b"]⟩ else some ⟨version, []⟩
  index _ version := if version = "b" then some ["x.weight"] else none
  tensors _ := ["x.weight", "y.weight"]
  incomplete _ := false

def surgicalConfig : Config where
  sourceOrder := [.generator, .objectStorage]
  streaming := false
  replay := true
  publishes := false
  hasInitial := false
  surgical := true

def plainPacking : Packing := ⟨[], Char.isDigit⟩

def newEngine : State (String → ℕ) where
  engine _ := 0
  published := none
  servingVersionId := none
  ready := true

theorem indexesChanges_deltaWorld : deltaWorld.IndexesChanges := by
  intro t _ _ hchain step hstep names hnames name hname
  simp only [deltaWorld] at hchain hnames
  split_ifs at hchain with hversion
  · obtain rfl := some.inj hchain
    obtain rfl : step = ("a", "b") := by simpa using hstep
    obtain rfl : ["x.weight"] = names := by simpa using hnames
    have hx : name ≠ "x.weight" := by simpa using hname
    simp [World.contents, deltaWorld, hx]
  · obtain rfl := some.inj hchain
    simp at hstep

def entersContext (s : State (String → ℕ)) : SessionCall → Bool
  | .apply i => match s.updates[i]? with
    | some update => match enterContext deltaWorld update.prepared s with
      | .ok _ _ => true
      | .error _ _ => false
    | none => true
  | _ => true

/-- Version `a` and then the delta to `b`: one tensor is loaded, and both are there. -/
theorem checkpoints_reproduced_delta :
    deltaWorld.IndexesChanges ∧ NewSession newEngine ∧
      Reproduced deltaWorld (afterSessionCalls deltaWorld surgicalConfig plainPacking
        [.stage "a", .apply 0, .stage "b", .apply 1] newEngine) :=
  ⟨indexesChanges_deltaWorld, ⟨rfl, rfl, rfl⟩, checkpoints_reproduced _ _ _ indexesChanges_deltaWorld ⟨rfl, rfl, rfl⟩
    (Run.along_of_check entersContext (fun s c h => by
      rintro ⟨hi, -, -, -, hraise, -⟩
      simp [entersContext, hi, hraise] at h) rfl)⟩

def afterBrokenTransfer : State (String → ℕ) :=
  afterSessionCalls deltaWorld surgicalConfig plainPacking
    [.stage "a", .apply 0, .stage "c", .apply 1, .release 1, .stage "b", .apply 2] newEngine

/-- **The installation of `b` returns, and `y.weight` is what the transfer left.** -/
theorem broken_transfer_survives_delta :
    afterBrokenTransfer.liveVersion = some "b" ∧ afterBrokenTransfer.engine "x.weight" = 2 ∧
      afterBrokenTransfer.engine "y.weight" = 0 ∧ deltaWorld.weights "b" "y.weight" = 1 ∧
      ¬ Reproduced deltaWorld afterBrokenTransfer := by
  refine ⟨rfl, rfl, rfl, rfl, fun h => ?_⟩
  have hfind : afterBrokenTransfer.trace.find? (·.act = .installed "b") =
      some ⟨.installed "b", true, none, afterBrokenTransfer.engine⟩ := rfl
  have hy : (0 : ℕ) = 1 := h _ (mem_of_find?_eq_some hfind) "b" rfl "y.weight" (by simp [deltaWorld])
  cases hy

end ModelExpress.Generator
