/-
  ModelExpress generator — the weights that are advertised are those that are served.
-/
import ModelExpress.Generator.Client
import ModelExpress.Generator.Footprint

namespace ModelExpress.Generator

open Effects List Option

variable {W : Type} (world : World W) (config : Config) {c : Call}

def Event.Sound (e : Event W) : Prop :=
  (∀ version, e.published = some version → e.engine = world.weights version) ∧
    (e.act.writes = true → e.published = none)

structure Advertised (s : State W) : Prop where
  published : ∀ version, s.published = some version → s.engine = world.weights version
  serving : s.ready = true → ∀ version, s.servingVersionId = some version → s.engine = world.weights version
  sound : ∀ e ∈ s.trace, e.Sound world

/-- A client that has been initialised: nothing is staged, and what is served or published is in the engine. -/
structure Initial (s : State W) : Prop extends Advertised world s where
  handle : s.activeHandle = none
  unpublished : config.publishes = false → s.published = none

/-- The call installs an update and cannot give its lease back, while the engine serves other weights. -/
inductive Slips (s : State W) : Call → Prop
  | apply {handle : StagedWeightHandle} {i : ℕ} {update : SessionUpdate} {served : String} {s₁ s₂ s₃ : State W} {e : Raised}
      (hhandle : s.activeHandle = some handle) (hupdate : handle.update = some i) (hi : s.updates[i]? = some update)
      (hreleased : update.released = false) (hstarted : update.installationStarted = false)
      (happlied : update.applied = false) (hready : s.ready = true) (hserving : s.servingVersionId = some served)
      (hweights : world.weights served ≠ world.weights handle.versionId) (hunpublish : unpublish world config s = .ok () s₁)
      (hinstall : installUpdate world (installTarget world) i update s₁ = .ok () s₂)
      (hheld : ¬ (update.prepared = .streamingTensors ∧ world.blocked s₂.trace))
      (hclose : closeLease world update.lease false s₂ = .error e s₃) : Slips s (.apply handle.id)

/-! ## The invariant -/

/-- An active handle knows its update, and the engine holds what it has applied. -/
structure Served (s : State W) : Prop extends Advertised world s where
  unpublished : config.publishes = false → s.published = none
  handle : ∀ handle i, s.activeHandle = some handle → handle.update = some i → ∃ update, s.updates[i]? = some update ∧
    update.version = handle.versionId ∧ (update.applied = true → s.engine = world.weights update.version)

section
variable {world config} {P : SessionUpdate → Prop} {s s' : State W} {act : Act} {ok : Bool}

theorem Initial.served (h : Initial world config s) : Served world config s where
  toAdvertised := h.toAdvertised
  unpublished := h.unpublished
  handle handle i hhandle := by simp [h.handle] at hhandle

theorem sound_log (hsound : ∀ e ∈ s.trace, e.Sound world)
    (hpublished : ∀ version, s.published = some version → s.engine = world.weights version)
    (hact : act.writes = true → s.published = none) : ∀ e ∈ (s.log act ok).trace, e.Sound world := by
  intro e he
  rcases mem_append.1 he with he | he
  · exact hsound e he
  · obtain rfl := mem_singleton.1 he
    exact ⟨hpublished, hact⟩

theorem served_framed : Framed (Aside P) (Served world config : State W → Prop) := by
  intro s s' hstep hs
  cases hstep with
  | log hact =>
    refine ⟨⟨hs.published, hs.serving, sound_log hs.sound hs.published fun hwrites => ?_⟩, hs.unpublished, hs.handle⟩
    rw [Act.writes_of_plain hact] at hwrites
    cases hwrites
  | change h =>
    refine ⟨⟨?_, ?_, ?_⟩, ?_, ?_⟩
    · rw [h.published, h.engine]
      exact hs.published
    · rw [h.ready, h.serving, h.engine]
      exact hs.serving
    · rw [h.trace]
      exact hs.sound
    · rw [h.published]
      exact hs.unpublished
    · intro handle i hhandle hupdate
      obtain ⟨update, hi, hversion, happlied⟩ := hs.handle handle i (h.handle ▸ hhandle) hupdate
      obtain ⟨r, hr⟩ := h.kept i update hi
      exact ⟨_, hr, hversion, h.engine ▸ happlied⟩

end

/-! ## Staging and releasing -/

section
variable {world config}

theorem adds_any : Adds world config fun _ => True := fun _ _ _ _ => trivial

variable (world config)

theorem served_releaseStaged (handle : StagedWeightHandle) :
    Keeps (Served world config) (fun _ => Served world config) (releaseStaged world handle) := by
  have hclear : ∀ s, Served world config s →
      Served world config (if s.isReleased handle then { s with activeHandle := none } else s) := by
    intro s hs
    split_ifs
    · exact ⟨⟨hs.published, hs.serving, hs.sound⟩, hs.unpublished, fun _ _ hnone => by cases hnone⟩
    · exact hs
  intro s hs
  refine (wp_tryFinally _).2 ?_
  cases handle.update with
  | some i =>
    exact (aside_releaseUpdate (P := fun _ => True) world i _ served_framed s hs).mono (fun _ s' h => hclear s' h)
      fun _ s' h => hclear s' h
  | none => exact (wp_pure _).2 (hclear s hs)

theorem served_stageFresh (version : String) :
    Keeps (Served world config) (fun _ => Served world config) (stageFresh world config version) := by
  refine keeps_get.bind fun s₀ => Keeps.bind (aside_call (P := fun _ => True) world rfl _ served_framed) fun _ => ?_
  refine Keeps.ite (fun _ => keeps_modify fun s hs => ?_) fun _ s hs => wp_bind.2 ?_
  · refine ⟨⟨hs.published, hs.serving, hs.sound⟩, hs.unpublished, fun handle i hhandle hupdate => ?_⟩
    obtain rfl := some.inj hhandle
    cases hupdate
  · refine ((aside_stage world config adds_any version _ _ served_framed s hs).and
      (staged_stage world config version _ s)).mono (fun i s' h => ?_) fun _ _ h => h.1
    obtain ⟨hs', update, hi, hversion, happlied⟩ := h
    refine ⟨⟨hs'.published, hs'.serving, hs'.sound⟩, hs'.unpublished, fun _ j hhandle hupdate => ?_⟩
    obtain rfl := some.inj hhandle
    obtain rfl := some.inj hupdate
    exact ⟨update, hi, hversion, fun h => by rw [happlied] at h; cases h⟩

theorem served_stageWeight (version : String) :
    Keeps (Served world config) (fun _ => Served world config) (stageWeight world config version) := by
  refine keeps_get.bind fun s => ?_
  cases s.activeHandle with
  | none => exact served_stageFresh world config version
  | some handle =>
    refine Keeps.ite (fun _ => ?_) fun _ => Keeps.ite (fun _ => keeps_pure _) fun _ => keeps_throw fun _ h => h
    exact (served_releaseStaged world config handle).bind fun _ => served_stageFresh world config version

theorem served_release (id : ℕ) : Keeps (Served world config) (fun _ => Served world config) (release world id) := by
  refine keeps_get.bind fun s => ?_
  cases s.activeHandle with
  | none => exact keeps_pure _
  | some handle => exact Keeps.ite (fun _ => served_releaseStaged world config handle) fun _ => keeps_pure _

end

/-! ## Applying -/

/-- While an update is applied: nothing is published, and the client is as it was in `s₀`. -/
structure Applying (s₀ : State W) (i : ℕ) (version : String) (started applied : Bool) (s : State W) : Prop where
  published : s.published = none
  serving : s.servingVersionId = s₀.servingVersionId
  ready : s.ready = s₀.ready
  handle : s.activeHandle = s₀.activeHandle
  update : ∃ update, s.updates[i]? = some update ∧ update.version = version ∧ update.installationStarted = started ∧
    update.applied = applied
  sound : ∀ e ∈ s.trace, e.Sound world

section
variable {world config} {P : SessionUpdate → Prop} {s₀ s s' : State W} {i : ℕ} {version : String}
  {started applied : Bool} {w : W} {prepared : PreparedArtifact}

theorem Applying.log (h : Applying world s₀ i version started applied s) (act : Act) (ok : Bool) :
    Applying world s₀ i version started applied (s.log act ok) where
  published := h.published
  serving := h.serving
  ready := h.ready
  handle := h.handle
  update := h.update
  sound := sound_log h.sound (fun _ hp => by simp [h.published] at hp) fun _ => h.published

theorem applying_framed : Framed (Aside P) (fun s => Applying world s₀ i version started applied s ∧ s.engine = w) := by
  rintro s s' hstep ⟨hs, hengine⟩
  cases hstep with
  | log => exact ⟨hs.log _ _, hengine⟩
  | change h =>
    obtain ⟨update, hi, hversion, hstarted, happlied⟩ := hs.update
    obtain ⟨r, hr⟩ := h.kept i update hi
    refine ⟨⟨h.published.trans hs.published, h.serving.trans hs.serving, h.ready.trans hs.ready, h.handle.trans hs.handle,
      ⟨_, hr, hversion, hstarted, happlied⟩, ?_⟩, h.engine.trans hengine⟩
    rw [h.trace]
    exact hs.sound

section
variable (h : Applying world s₀ i version started applied s)
include h

theorem Applying.modifyUpdate {f : SessionUpdate → SessionUpdate}
    {started' applied' : Bool} (hf : ∀ u : SessionUpdate, u.installationStarted = started → u.applied = applied →
      (f u).version = u.version ∧ (f u).installationStarted = started' ∧ (f u).applied = applied') :
    Applying world s₀ i version started' applied' (s.modifyUpdate i f) := by
  obtain ⟨update, hi, hversion, hstarted, happlied⟩ := h.update
  obtain ⟨hv, hs, ha⟩ := hf update hstarted happlied
  refine ⟨h.published, h.serving, h.ready, h.handle, ⟨f update, ?_, hv.trans hversion, hs, ha⟩, h.sound⟩
  simp [State.modifyUpdate, hi]

theorem Applying.write (w : W) (read : Option PeerRead) :
    Applying world s₀ i version started applied { s with engine := w, activeRead := read } :=
  ⟨h.published, h.serving, h.ready, h.handle, h.update, h.sound⟩

end

variable (world) in
/-- Keeps on applying, and what has not been started has left the engine alone. -/
def Untold (s₀ : State W) (i : ℕ) (version : String) (prepared : PreparedArtifact) (w : W) (s : State W) : Prop :=
  ∃ started, Applying world s₀ i version started false s ∧ (started = true ∨ s.engine = w ∨ s.mutated prepared = true)

variable (world) in
/-- The same once it has been told whether a peer transfer was started. -/
def Failed (s₀ : State W) (i : ℕ) (version : String) (w : W) (s : State W) : Prop :=
  ∃ started, Applying world s₀ i version started false s ∧ (started = true ∨ s.engine = w)

theorem failed_framed : Framed (Aside P) (Failed world s₀ i version w) := by
  rintro s s' hstep ⟨started, hs, hstarted⟩
  obtain ⟨hs', hengine⟩ := applying_framed s s' hstep ⟨hs, rfl⟩
  exact ⟨started, hs', hengine ▸ hstarted⟩

end

section
variable {s₀ s : State W} {i : ℕ} {version : String} {started applied : Bool} {update : SessionUpdate}

section
variable (hs : Applying world s₀ i version started applied s)
include hs

theorem receive_spec {read : PeerRead} {id : ℕ} (hread : s.activeRead = some read) (hid : read.id = id) :
    wp (tryFinally (receivePeer world) (tryFinally (call world .closeRead) (modifyRead ({ · with leased := false }))))
      (fun _ => Applying world s₀ i version started applied)
      (fun _ s' => Applying world s₀ i version started applied s' ∧
        (s'.engine = s.engine ∨ s'.mutated (.runtimeTensors id) = true)) s := by
  let Q : State W → Prop := fun s' => Applying world s₀ i version started applied s' ∧
    (s'.engine = s.engine ∨ s'.mutated (.runtimeTensors id) = true)
  have hclose : Keeps Q (fun _ => Q) (tryFinally (call world .closeRead) (modifyRead ({ · with leased := false }))) := by
    have hlease : Keeps Q (fun _ => Q) (modifyRead ({ · with leased := false })) := by
      refine keeps_modify fun s' h => ⟨h.1.write _ _, h.2.imp_right fun hmutated => ?_⟩
      simp only [State.mutated] at hmutated ⊢
      cases hread' : s'.activeRead with
      | none => simp [hread'] at hmutated
      | some => simpa [hread'] using hmutated
    intro s' h
    refine (wp_tryFinally _).2 (wp_callWith world ?_ fun _ => ?_)
    · exact hlease _ ⟨h.1.log _ _, h.2⟩
    · exact hlease _ ⟨h.1.log _ _, h.2⟩
  have hreceived : ∀ ok, Q (if world.starts (s.log .receivePeer ok).trace then { s.log .receivePeer ok with
      engine := world.junk (s.log .receivePeer ok).trace,
      activeRead := (s.log .receivePeer ok).activeRead.map ({ · with transferStarted := true }) } else s.log .receivePeer ok) := by
    intro ok
    split_ifs
    · refine ⟨(hs.log _ _).write _ _, .inr ?_⟩
      simp [State.mutated, State.log, hread, hid]
    · exact ⟨hs.log _ _, .inl rfl⟩
  refine (wp_tryFinally _).2 (wp_callWith world ?_ fun _ => ?_)
  · exact (hclose _ (hreceived true)).imp fun _ _ h => h.1
  · exact (hclose _ (hreceived false))

theorem enterContext_spec (prepared : PreparedArtifact) :
    wp (enterContext world prepared) (fun _ => Applying world s₀ i version started applied)
      (fun _ s' => Applying world s₀ i version started applied s' ∧ (s'.engine = s.engine ∨ s'.mutated prepared = true)) s := by
  cases prepared with
  | engineTensors | streamingTensors | checkpoint =>
    have hcall : ends (call world .enterContext)
        (fun s' => Applying world s₀ i version started applied s' ∧ s'.engine = s.engine) s :=
      aside_call (P := fun _ => True) world rfl _ applying_framed s ⟨hs, rfl⟩
    exact hcall.mono (fun _ _ h => h.1) fun _ _ h => ⟨h.1, .inl h.2⟩
  | runtimeTensors id =>
    simp only [enterContext, wp_bind, wp_get]
    cases hread : s.activeRead with
    | none => exact ⟨hs, .inl rfl⟩
    | some read =>
      refine wp_ite.2 ⟨fun _ => ⟨hs, .inl rfl⟩, fun hid => ?_⟩
      rw [not_not] at hid
      refine wp_ite.2 ⟨fun _ => wp_ite.2 ⟨fun _ => ⟨hs, .inl rfl⟩, fun _ => ?_⟩, fun _ => receive_spec world hs hread hid⟩
      -- the read is taken anew
      refine wp_bind.2 (wp_callWith world (wp_bind.2 ?_) fun _ => ⟨hs.log _ _, .inl rfl⟩)
      have hread' : (s.log .preparePeerRead true).activeRead.map ({ · with leased := true }) = some { read with leased := true } := by
        simp [State.log, hread]
      exact receive_spec world ((hs.log .preparePeerRead true).write _ _) hread' hid

end

theorem installUpdate_spec (hs : Applying world s₀ i update.version false false s) :
    wp (installUpdate world (installTarget world) i update)
      (fun _ s' => Applying world s₀ i update.version true true s' ∧ s'.engine = world.weights update.version)
      (fun _ => Untold world s₀ i update.version update.prepared s.engine) s := by
  refine wp_bind.2 ((enterContext_spec world hs update.prepared).mono (fun _ s₁ h₁ => ?_) fun _ s₁ h₁ => ⟨false, h₁.1, .inr h₁.2⟩)
  refine wp_bind.2 ((wp_tryFinally _).2 (wp_bind.2 ?_))
  have h₂ : Applying world s₀ i update.version true false (s₁.modifyUpdate i ({ · with installationStarted := true })) :=
    h₁.modifyUpdate fun _ _ happlied => ⟨rfl, rfl, happlied⟩
  have hleave : ∀ w, Keeps (fun s => Applying world s₀ i update.version true false s ∧ s.engine = w)
      (fun _ s => Applying world s₀ i update.version true false s ∧ s.engine = w) (leaveContext world update.prepared) := by
    intro w
    cases update.prepared with
    | runtimeTensors id => exact keeps_pure _
    | engineTensors | streamingTensors | checkpoint =>
      exact aside_call (P := fun _ => True) world rfl _ applying_framed
  have hfailed : ∀ s', Applying world s₀ i update.version true false s' →
      Untold world s₀ i update.version update.prepared s.engine s' := fun _ h => ⟨true, h, .inl rfl⟩
  refine (wp_modify _).2 (wp_callWith world ?_ fun _ => ?_)
  · refine (hleave _ _ ⟨(h₂.log _ _).write _ _, rfl⟩).mono (fun _ _ h => ?_) fun _ _ h => hfailed _ h.1
    exact ⟨h.1.modifyUpdate fun _ hstarted _ => ⟨rfl, hstarted, rfl⟩, h.2⟩
  · exact (hleave _ _ ⟨(h₂.log _ _).write _ _, rfl⟩).mono (fun _ _ h => hfailed _ h.1) fun _ _ h => hfailed _ h.1

theorem fenceUpdate_spec {prepared : PreparedArtifact} {w : W} (hs : Untold world s₀ i version prepared w s) :
    wp (fenceUpdate world i prepared) (fun _ => Failed world s₀ i version w) (fun _ _ => False) s := by
  obtain ⟨started, hs, htold⟩ := hs
  have h₁ : Applying world s₀ i version (started || s.mutated prepared) false (s.modifyUpdate i fun update =>
      { update with installationStarted := update.installationStarted || s.mutated prepared }) :=
    hs.modifyUpdate fun _ hstarted happlied => ⟨rfl, by rw [hstarted], happlied⟩
  have hleft : Failed world s₀ i version w (s.modifyUpdate i fun update =>
      { update with installationStarted := update.installationStarted || s.mutated prepared }) := by
    refine ⟨_, h₁, ?_⟩
    rcases htold with rfl | hengine | hmutated
    · exact .inl rfl
    · exact .inr hengine
    · exact .inl (by rw [hmutated, Bool.or_true])
  obtain ⟨_, hi, -⟩ := h₁.update
  simp only [fenceUpdate, modifyUpdate, theUpdate, wp_bind, wp_get, wp_modify, hi, wp_pure]
  refine wp_ite.2 ⟨fun _ => (wp_tryCatch _).2 ?_, fun _ => hleft⟩
  exact (aside_call (P := fun _ => True) world rfl _ failed_framed _ hleft)

theorem applyUpdate_spec (hs : Applying world s₀ i update.version false false s) (hi : s.updates[i]? = some update)
    (hreleased : update.released = false) (happlied : update.applied = false) {C : Prop}
    (hslip : ∀ s₂ e s₃, installUpdate world (installTarget world) i update s = .ok () s₂ →
      ¬ (update.prepared = .streamingTensors ∧ world.blocked s₂.trace) → closeLease world update.lease false s₂ = .error e s₃ → C) :
    wp (applyUpdate world (installTarget world) i)
      (fun _ s' => Applying world s₀ i update.version true true s' ∧ s'.engine = world.weights update.version)
      (fun _ s' => Failed world s₀ i update.version s.engine s' ∨
        C ∧ Applying world s₀ i update.version true true s' ∧ s'.engine = world.weights update.version) s := by
  have hspec := installUpdate_spec world hs
  simp only [applyUpdate, theUpdate, wp_bind, wp_get, hi, wp_pure, hreleased, happlied, Bool.false_eq_true, if_false, wp_attempt]
  cases hinstall : installUpdate world (installTarget world) i update s with
  | ok _ s₂ =>
    rw [wp_of_ok hinstall] at hspec ⊢
    refine wp_ite.2 ⟨fun hheld => ?_, fun _ => hspec⟩
    have hclose := aside_closeLease (P := fun _ => True) world update.lease false _ applying_framed s₂ hspec
    cases hraise : closeLease world update.lease false s₂ with
    | ok => exact (wp_of_ok hraise).2 ((wp_of_ok hraise).1 hclose)
    | error e s₃ =>
      exact (wp_of_error hraise).2 (.inr ⟨hslip s₂ e s₃ hinstall hheld hraise, (wp_of_error hraise).1 hclose⟩)
  | error =>
    rw [wp_of_error hinstall] at hspec ⊢
    refine wp_bind.2 ((fenceUpdate_spec world hspec).mono (fun _ s₃ h₃ => ?_) fun _ _ => False.elim)
    refine wp_ite.2 ⟨fun _ => wp_bind.2 ?_, fun _ => .inl h₃⟩
    exact (aside_closeLease (P := fun _ => True) world update.lease true _ failed_framed s₃ h₃).mono (fun _ _ h => .inl h)
      fun _ _ h => .inl h

/-! ## The client -/

theorem unpublish_spec (hs : Served world config s) (hi : s.updates[i]? = some update)
    (hstarted : update.installationStarted = false) (happlied : update.applied = false) :
    wp (unpublish world config)
      (fun _ s' => Applying world s i update.version false false s' ∧ s'.engine = s.engine ∧ s'.updates = s.updates)
      (fun _ => Served world config) s := by
  have hsound : ∀ ok, ∀ e ∈ (s.log .unpublish ok).trace, e.Sound world :=
    fun ok => sound_log hs.sound hs.published fun h => by cases h
  have hupdate : ∃ u, s.updates[i]? = some u ∧ u.version = update.version ∧ u.installationStarted = false ∧
      u.applied = false := ⟨update, hi, rfl, hstarted, happlied⟩
  rw [unpublish]
  refine wp_ite.2 ⟨fun _ => ?_, fun hno => ?_⟩
  · refine wp_callWith world ⟨⟨rfl, rfl, rfl, rfl, hupdate, hsound true⟩, rfl, rfl⟩ fun _ => ?_
    split
    · exact ⟨⟨fun _ h => (by cases h), hs.serving, hsound false⟩, fun _ => rfl, hs.handle⟩
    · exact ⟨⟨hs.published, hs.serving, hsound false⟩, hs.unpublished, hs.handle⟩
  · exact ⟨⟨hs.unpublished (by simpa using hno), rfl, rfl, rfl, hupdate, hs.sound⟩, rfl, rfl⟩

theorem publish_spec (hs : Served world config s) {version : String} (hengine : s.engine = world.weights version) :
    wp (tryCatch (publish world config version) fun _ => pure ()) (fun _ => Served world config) (fun _ _ => False) s := by
  have hsound : ∀ ok, ∀ e ∈ (s.log (.publish version) ok).trace, e.Sound world :=
    fun ok => sound_log hs.sound hs.published fun h => by cases h
  refine (wp_tryCatch _).2 ?_
  rw [publish]
  refine wp_ite.2 ⟨fun hyes => ?_, fun _ => hs⟩
  have hpublished : ∀ ok, Served world config { s.log (.publish version) ok with published := some version } := by
    refine fun ok => ⟨⟨fun v hv => ?_, hs.serving, hsound ok⟩, fun hno => ?_, hs.handle⟩
    · rw [← some.inj hv]
      exact hengine
    · cases hno.symm.trans hyes
  refine wp_callWith world (hpublished true) fun _ => ?_
  show Served world config (ite _ _ _)
  split
  · exact hpublished false
  · exact ⟨⟨hs.published, hs.serving, hsound false⟩, hs.unpublished, hs.handle⟩

/-- The update of the active handle, which nothing has been done with. -/
structure Fresh (s : State W) (handle : StagedWeightHandle) (i : ℕ) (update : SessionUpdate) : Prop where
  active : s.activeHandle = some handle
  index : handle.update = some i
  known : s.updates[i]? = some update
  released : update.released = false
  started : update.installationStarted = false
  applied : update.applied = false

variable {handle : StagedWeightHandle} {s' : State W}

variable {world config} in
theorem Applying.settle (hfresh : s.activeHandle = some handle) (hi : handle.update = some i)
    (hhandle : version = handle.versionId) (hs : Applying world s i version started applied s') (happlied : applied = true → s'.engine = world.weights version)
    {serving : Option String} {ready : Bool}
    (hserving : ready = true → ∀ v, serving = some v → s'.engine = world.weights v) :
    Served world config { s' with servingVersionId := serving, ready := ready } := by
  refine ⟨⟨fun v hv => ?_, hserving, hs.sound⟩, fun _ => hs.published, fun handle' j hactive hj => ?_⟩
  · simp [hs.published] at hv
  · obtain rfl : handle = handle' := some.inj (hfresh.symm.trans (hs.handle.symm.trans hactive))
    obtain rfl : i = j := mem_unique hi hj
    obtain ⟨u, hu, hversion, -, hua⟩ := hs.update
    refine ⟨u, hu, hversion.trans hhandle, fun h => ?_⟩
    rw [hversion]
    exact happlied (hua.symm.trans h)

variable {world config} in
theorem Applying.installationFailed (hupdate : handle.update = some i)
    (hs : Applying world s i version started applied s') : s'.installationFailed handle = (started && !applied) := by
  obtain ⟨u, hu, -, hstarted, happlied⟩ := hs.update
  simp [State.installationFailed, hupdate, hu, hstarted, happlied]

theorem restore_spec (hs : Served world config s')
    (hserving : s.ready = true → ∀ v, s.servingVersionId = some v → s'.engine = world.weights v) :
    wp (restore world config s) (fun _ => Served world config) (fun _ _ => False) s' := by
  rw [restore.eq_def]
  cases hv : s.servingVersionId with
  | none => exact hs
  | some restored => exact wp_ite.2 ⟨fun hready => publish_spec world config hs (hserving hready restored hv), fun _ => hs⟩

theorem applyFresh_spec (hs : Served world config s) (hfresh : Fresh s handle i update)
    (hslip : ¬ Slips world config s (.apply handle.id)) :
    ends (applyFresh world config handle i) (Served world config) s := by
  obtain ⟨hactive, hupdate, hi, hreleased, hstarted, happlied⟩ := hfresh
  obtain ⟨u, hu, hversion, -⟩ := hs.handle handle i hactive hupdate
  obtain rfl : update = u := mem_unique hi hu
  rw [applyFresh]
  refine wp_bind.2 (wp_bind.2 ?_)
  have hunpublish := unpublish_spec world config hs hi hstarted happlied
  cases hcall : unpublish world config s with
  | error => exact (wp_of_error hcall).2 ((wp_of_error hcall).1 hunpublish)
  | ok =>
    rw [wp_of_ok hcall] at hunpublish ⊢
    obtain ⟨h₁, hengine, hupdates⟩ := hunpublish
    refine wp_bind.2 ((wp_tryCatch _).2 ((applyUpdate_spec world h₁ (hupdates ▸ hi) hreleased happlied
      (C := s.ready = true → ∀ v, s.servingVersionId = some v → world.weights v = world.weights handle.versionId) ?_).mono
        (fun _ s₂ h₂ => ?_) fun e s₂ h₂ => wp_bind.2 ?_))
    · -- otherwise this is a slip
      intro s₂ e s₃ hinstall hheld hclose hready _ hserving
      by_contra hweights
      exact hslip (.apply hactive hupdate hi hreleased hstarted happlied hready hserving hweights hcall hinstall hheld hclose)
    · obtain ⟨h₂, hengine₂⟩ := h₂
      have hnew : Served world config { s₂ with servingVersionId := some handle.versionId, ready := true } := by
        refine h₂.settle hactive hupdate hversion (fun _ => hengine₂) fun _ v hv => ?_
        rw [← some.inj hv, ← hversion]
        exact hengine₂
      exact (publish_spec world config hnew (hversion ▸ hengine₂)).mono (fun _ _ h => h) fun _ _ => False.elim
    · refine wp_get.2 ?_
      have hrestore : ∀ {Q : Unit → State W → Prop}, Served world config s₂ →
          (s.ready = true → ∀ v, s.servingVersionId = some v → s₂.engine = world.weights v) →
          wp (do restore world config s; throw e) Q (fun _ => Served world config) s₂ :=
        fun hs₂ hserving => wp_bind.2 ((restore_spec world config hs₂ hserving).mono (fun _ _ h => h) fun _ _ => False.elim)
      rcases h₂ with ⟨_, h₂, hfailed⟩ | ⟨hsame, h₂, hengine₂⟩
      · rw [h₂.installationFailed hupdate, Bool.not_false, Bool.and_true]
        refine wp_ite.2 ⟨fun hstarted => ?_, fun hstarted => ?_⟩
        · -- the engine may hold anything
          exact h₂.settle hactive hupdate hversion (fun h => by cases h) fun h => by cases h
        · have hserving : s.ready = true → ∀ v, s.servingVersionId = some v → s₂.engine = world.weights v := by
            rw [hfailed.resolve_left hstarted, hengine]
            exact hs.serving
          refine hrestore (h₂.settle hactive hupdate hversion (fun h => by cases h) ?_) hserving
          rw [h₂.ready, h₂.serving]
          exact hserving
      · rw [h₂.installationFailed hupdate]
        have hserving : s.ready = true → ∀ v, s.servingVersionId = some v → s₂.engine = world.weights v := by
          intro hready v hv
          rw [hengine₂, hversion, hsame hready v hv]
        refine wp_ite.2 ⟨fun h => (by cases h), fun _ => hrestore (h₂.settle hactive hupdate hversion (fun _ => hengine₂) ?_) hserving⟩
        rw [h₂.ready, h₂.serving]
        exact hserving

theorem served_perform (hs : Served world config s) (hslip : ¬ Slips world config s c) :
    ends (c.perform world config) (Served world config) s := by
  cases c with
  | stage version => exact served_stageWeight world config version s hs
  | release id => exact served_release world config id s hs
  | apply id =>
    refine wp_bind.2 (wp_get.2 ?_)
    cases hactive : s.activeHandle with
    | none => exact hs
    | some handle =>
      refine wp_ite.2 ⟨fun _ => hs, fun hid => ?_⟩
      obtain rfl : handle.id = id := not_not.1 hid
      dsimp only
      cases hupdate : handle.update with
      | none => exact hs
      | some i =>
        obtain ⟨update, hi, hversion, hengine⟩ := hs.handle handle i hactive hupdate
        simp only [theUpdate, wp_bind, wp_get, hi, wp_pure]
        refine wp_ite.2 ⟨fun _ => hs, fun hreleased => wp_ite.2 ⟨fun _ => hs, fun hstarted => wp_ite.2 ⟨fun happlied => ?_, fun happlied => ?_⟩⟩⟩
        · -- it has been installed before
          refine ⟨⟨hs.published, fun _ v hv => ?_, hs.sound⟩, hs.unpublished, hs.handle⟩
          rw [← some.inj hv, ← hversion]
          exact hengine happlied
        · rw [Bool.not_eq_true] at hreleased happlied
          have hstarted : update.installationStarted = false := by simpa [happlied] using hstarted
          exact applyFresh_spec world config hs ⟨hactive, hupdate, hi, hreleased, hstarted, happlied⟩ hslip

/-- **A call that slips leaves a `READY` engine with other weights than it is said to serve.** -/
theorem slip_not_advertised (hs : Served world config s) (hslip : Slips world config s c) :
    ¬ Advertised world (afterCall world config s c) := by
  cases hslip with
  | @apply handle i update served s₁ s₂ s₃ e hactive hupdate hi hreleased hstarted happlied hready hserving hweights hunpublish
      hinstall hheld hclose =>
    obtain ⟨u, hu, hversion, -⟩ := hs.handle handle i hactive hupdate
    obtain rfl : update = u := mem_unique hi hu
    have h₁ := (wp_of_ok hunpublish).1 (unpublish_spec world config hs hi hstarted happlied)
    have h₂ := (wp_of_ok hinstall).1 (installUpdate_spec world h₁.1)
    have h₃ := (wp_of_error hclose).1 (aside_closeLease (P := fun _ => True) world update.lease false _ applying_framed s₂ h₂)
    have happly : wp (applyUpdate world (installTarget world) i) (fun _ _ => False) (fun _ s' => s' = s₃) s₁ := by
      simp only [applyUpdate, theUpdate, wp_bind, wp_get, h₁.2.2, hi, wp_pure, hreleased, happlied, Bool.false_eq_true,
        if_false, wp_attempt, wp_of_ok hinstall]
      exact wp_ite.2 ⟨fun _ => (wp_of_error hclose).2 rfl, fun h => absurd hheld h⟩
    let Bad : State W → Prop := fun s' => s'.ready = true ∧ s'.servingVersionId = some served ∧
      s'.engine = world.weights handle.versionId
    have hbad : Bad s₃ := ⟨h₃.1.ready.trans hready, h₃.1.serving.trans hserving, by rw [h₃.2, hversion]⟩
    have hrestore : wp (restore world config s) (fun _ => Bad) (fun _ _ => False) s₃ := by
      simp only [restore, hserving, hready, if_true]
      refine (wp_tryCatch _).2 (wp_ite.2 ⟨fun _ => wp_callWith world hbad fun _ => ?_, fun _ => hbad⟩)
      show Bad (ite _ _ _)
      split <;> exact hbad
    have hcall : ends (applyFresh world config handle i) Bad s := by
      refine wp_bind.2 (wp_bind.2 ((wp_of_ok hunpublish).2 (wp_bind.2 ((wp_tryCatch _).2 (happly.mono (fun _ _ => False.elim) ?_)))))
      rintro e s' rfl
      refine wp_bind.2 (wp_get.2 ?_)
      rw [h₃.1.installationFailed hupdate]
      refine wp_ite.2 ⟨fun h => (by cases h), fun _ => wp_bind.2 (hrestore.mono (fun _ _ h => h) fun _ _ => False.elim)⟩
    obtain ⟨hready', hserving', hengine⟩ : Bad (afterCall world config s (.apply handle.id)) :=
      wp.final (x := applyWeight world config handle.id) (by
        simpa [applyWeight, theUpdate, wp_bind, hactive, hupdate, hi, hreleased, hstarted, happlied] using hcall)
    intro hadvertised
    exact hweights ((hadvertised.serving hready' served hserving').symm.trans hengine)

def afterCalls (calls : List Call) (s : State W) : State W := Run.run (afterCall world config) s calls

theorem served_afterCalls (hs : Initial world config s) {calls : List Call}
    (h : Run.Along (afterCall world config) s (fun s c => ¬ Slips world config s c) calls) :
    Served world config (afterCalls world config calls s) :=
  Run.invariant_along hs.served (fun _ _ hslip hserved => wp.final (served_perform world config hserved hslip)) h

/-- **Advertised weights are the served weights**, after every call, exactly in the runs in which no call slips. -/
theorem advertised_iff_no_slip (hs : Initial world config s) (calls : List Call) :
    (∀ pre, pre <+: calls → Advertised world (afterCalls world config pre s)) ↔
      Run.Along (afterCall world config) s (fun s c => ¬ Slips world config s c) calls := by
  constructor
  · intro h
    induction calls using reverseRecOn with
    | nil => exact .nil
    | append_singleton calls c ih =>
      have hcalls := ih fun pre hpre => h pre (hpre.trans (prefix_append calls [c]))
      refine hcalls.snoc fun hslip => slip_not_advertised world config (served_afterCalls world config hs hcalls) hslip ?_
      have hlast := h _ (prefix_refl _)
      rwa [afterCalls, Run.run_snoc] at hlast
  · intro h pre hpre
    exact (served_afterCalls world config hs (h.restrict hpre)).toAdvertised

end

def leaseOutage : World String where
  answer _ act := match act with
    | .deleteLease _ => some .rpc
    | _ => none
  weights version := version
  junk _ := "junk"
  starts _ := true
  takes _ := false
  attempts _ := 1
  bases _ := []
  oneMethod _ := true
  blocked _ := false
  streamed _ := false
  chain _ _ := none
  index _ _ := none
  tensors _ := []
  incomplete _ := false

def trainerConfig : Config where
  sourceOrder := [.trainer]
  streaming := false
  replay := false
  publishes := true
  hasInitial := false
  surgical := false

def servingA : State String where
  engine := "a"
  published := some "a"
  servingVersionId := some "a"
  ready := true

theorem initial_servingA : Initial leaseOutage trainerConfig servingA where
  published version h := Option.some.inj h
  serving _ version h := Option.some.inj h
  sound e he := by cases he
  handle := rfl
  unpublished h := by cases h

theorem advertised_iff_no_slip_servingA : Initial leaseOutage trainerConfig servingA ∧
    ((∀ pre, pre <+: [.stage "b", .apply 0] → Advertised leaseOutage (afterCalls leaseOutage trainerConfig pre servingA)) ↔
      Run.Along (afterCall leaseOutage trainerConfig) servingA (fun s c => ¬ Slips leaseOutage trainerConfig s c)
        [.stage "b", .apply 0]) :=
  ⟨initial_servingA, advertised_iff_no_slip _ _ initial_servingA _⟩

def afterOutage : State String := afterCalls leaseOutage trainerConfig [.stage "b", .apply 0] servingA

/-- **Version `b` is installed and then published as `a`**, which the `READY` engine is said to serve. -/
theorem lease_outage_publishes_old_version :
    afterOutage.published = some "a" ∧ afterOutage.ready = true ∧ afterOutage.servingVersionId = some "a" ∧
      afterOutage.engine = leaseOutage.weights "b" ∧ ¬ Advertised leaseOutage afterOutage := by
  refine ⟨rfl, rfl, rfl, rfl, fun h => ?_⟩
  have hengine : "b" = "a" := h.published "a" rfl
  exact absurd hengine (by decide)

end ModelExpress.Generator
