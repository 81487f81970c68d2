/-
  ModelExpress NCCL M2N refit — the buffers of the engine outlive a wedged communicator.
-/
import ModelExpress.M2n.Frame

namespace ModelExpress.M2n

open Effects List

/-! ## Wedges -/

def Wedged (t : List Event) : Prop := ∃ key epochMove, ⟨.abort key epochMove, false⟩ ∈ t

/-- The abort of a lane that was dropped because the epoch moved did not return. -/
def EpochWedged (t : List Event) : Prop := ∃ key, ⟨.abort key true, false⟩ ∈ t

/-- The engine cleans up only as long as no abort has wedged. -/
def Released (t : List Event) (e : Event) : Prop := e.act = .engineCleanup → ¬ Wedged t

/-- The engine has never been released after a wedge, and a wedge has been recorded unless `c` tells of it; `b` says
    whether one has been recorded. -/
structure Owed (c : Prop) (b : Bool) (s : Client) : Prop where
  recorded : s.wedged = b
  owed : EpochWedged s.trace ∨ (Throughout Released s.trace ∧ (Wedged s.trace → b = true ∨ c))

/-- Calls that neither abort a lane nor clean the engine up. -/
def Act.Steady : Act → Prop
  | .abort _ _ | .engineCleanup => False
  | _ => True

def Settled (s : Client) : Prop := Owed False s.wedged s

section
variable {s : Client} {c c' : Prop} {b : Bool} {act : Act} {ok : Bool} {t : List Event} {e : Event}

theorem wedged_snoc : Wedged (t ++ [e]) ↔ Wedged t ∨ ∃ key epochMove, e = ⟨.abort key epochMove, false⟩ := by
  simp only [Wedged, mem_append, mem_singleton, eq_comm, exists_or]

theorem EpochWedged.snoc (h : EpochWedged t) : EpochWedged (t ++ [e]) := by
  obtain ⟨key, hkey⟩ := h
  exact ⟨key, mem_append_left _ hkey⟩

theorem Owed.settled (h : Owed False b s) : Settled s := by
  rw [Settled, h.recorded]
  exact h

theorem Owed.mono (h : Owed c b s) (hc : c → c') : Owed c' b s := by
  refine ⟨h.recorded, h.owed.imp_right ?_⟩
  rintro ⟨hr, hw⟩
  exact ⟨hr, fun hwedged => (hw hwedged).imp_right hc⟩

theorem Owed.record {s' : Client} (h : Owed c b s) (ht : s'.trace = s.trace) (hw : s'.wedged = true) :
    Owed c' true s' := by
  refine ⟨hw, ?_⟩
  rw [ht]
  exact h.owed.imp_right fun hr => ⟨hr.1, fun _ => .inl rfl⟩

theorem Owed.log (h : Owed c b s) (ha : act.Steady) : Owed c b (s.log act ok) := by
  refine ⟨h.recorded, h.owed.imp (·.snoc) ?_⟩
  rintro ⟨hr, hw⟩
  refine ⟨throughout_snoc.2 ⟨hr, fun heq => ?_⟩, fun hwedged => ?_⟩
  · cases (heq : act = _)
    exact ha.elim
  · rcases wedged_snoc.1 hwedged with hwedged | ⟨key, _, heq⟩
    · exact hw hwedged
    · cases heq
      exact ha.elim

theorem Owed.abort (h : Owed c b s) (key : LaneKey) (epochMove ok : Bool) :
    Owed (c ∨ (ok = false ∧ epochMove = false)) b (s.log (.abort key epochMove) ok) := by
  refine ⟨h.recorded, ?_⟩
  rcases h.owed with h | ⟨hr, hw⟩
  · exact .inl h.snoc
  · by_cases hepoch : ok = false ∧ epochMove = true
    · obtain ⟨rfl, rfl⟩ := hepoch
      exact .inl ⟨key, mem_append_right _ (mem_singleton_self _)⟩
    · refine .inr ⟨throughout_snoc.2 ⟨hr, fun heq => by cases heq⟩, fun hwedged => ?_⟩
      rcases wedged_snoc.1 hwedged with hwedged | ⟨key', _, heq⟩
      · exact (hw hwedged).imp_right .inl
      · have hok : ok = false := congrArg Event.ok heq
        exact .inr (.inr ⟨hok, by simpa [hok] using hepoch⟩)

theorem Owed.unwedged (h : Owed False false s) (hw : Wedged s.trace) : EpochWedged s.trace := by
  rcases h.owed with h | ⟨-, hr⟩
  · exact h
  · simpa using hr hw

theorem Owed.cleanup (h : Owed False false s) : Owed False false (s.log .engineCleanup ok) := by
  refine ⟨h.recorded, h.owed.imp (·.snoc) ?_⟩
  rintro ⟨hr, hw⟩
  refine ⟨throughout_snoc.2 ⟨hr, fun _ hwedged => by simpa using hw hwedged⟩, fun hwedged => ?_⟩
  rcases wedged_snoc.1 hwedged with hwedged | ⟨key, _, heq⟩
  · exact hw hwedged
  · cases heq

end

/-! ## What each method does -/

/-- A wedge that is owed when the method raises is told of by what it raises: by an exception of `R`. -/
def Tells (R : Raised → Prop) {α : Type} (x : Refit α) : Prop :=
  ∀ c b, Keeps (Owed c b) (fun e => Owed (c ∨ R e) b) x

/-- Every wedge is recorded, whether the method returns or raises. -/
def Records {α : Type} (x : Refit α) : Prop := Keeps Settled (fun _ => Settled) x

section
variable {R : Raised → Prop} {α β : Type} {x : Refit α} {f : α → Refit β}

theorem tells_throw (e : Raised) : Tells R (throw e : Refit α) := fun _ _ => keeps_throw fun _ h => h.mono .inl

theorem tells_pure (a : α) : Tells R (pure a : Refit α) := fun _ _ => keeps_pure a

theorem tells_get : Tells R (get : Refit Client) := fun _ _ => keeps_get

theorem tells_modify {g : Client → Client} (hg : ∀ s, ((g s).trace, (g s).wedged) = (s.trace, s.wedged)) :
    Tells R (modify g) := by
  refine fun c b => keeps_modify fun s h => ?_
  obtain ⟨ht, hw⟩ := Prod.mk.inj (hg s)
  refine ⟨hw.trans h.recorded, ?_⟩
  rw [ht]
  exact h.owed

theorem Tells.bind (hx : Tells R x) (hf : ∀ a, Tells R (f a)) : Tells R (x >>= f) :=
  fun c b => (hx c b).bind fun a => hf a c b

theorem Tells.map (g : α → β) (hx : Tells R x) : Tells R (g <$> x) := fun c b => (hx c b).map g

theorem Tells.ite {p : Prop} [Decidable p] {y : Refit α} (hx : Tells R x) (hy : Tells R y) :
    Tells R (if p then x else y) := fun c b => Keeps.ite (fun _ => hx c b) fun _ => hy c b

theorem Tells.forM {γ : Type} {g : γ → Refit PUnit} {l : List γ} (h : ∀ a ∈ l, Tells R (g a)) : Tells R (forM l g) :=
  fun c b => Keeps.forM fun a ha => h a ha c b

theorem Tells.tryCatch {h : Raised → Refit α} (hx : Tells (fun _ => False) x) (hh : ∀ e, Tells R (h e)) :
    Tells R (tryCatch x h) :=
  fun c b => (hx c b).tryCatch fun e s hs => hh e c b s (hs.mono fun h => h.resolve_right id)

theorem owed_framed (c : Prop) (b : Bool) : Framed idle (Owed c b) := by
  refine framed_footprint (fun s act ok hact h => ?_) fun s s' hs h => ?_
  · refine h.log ?_
    cases act <;> trivial
  · obtain ⟨ht, -, hw⟩ := hs
    refine ⟨hw.trans h.recorded, ?_⟩
    rw [ht]
    exact h.owed

end

end ModelExpress.M2n

namespace Effects.Within

open ModelExpress.M2n

theorem tells {R : Raised → Prop} {α : Type} {x : Refit α} (hx : Within idle x) : Tells R x :=
  fun c b s hs => (hx _ (owed_framed c b) s hs).mono (fun _ _ h => h) fun _ _ h => h.mono .inl

end Effects.Within

namespace ModelExpress.M2n

open Effects

section
variable {R : Raised → Prop} {α β : Type} {x : Refit α} {f : α → Refit β}

theorem tells_require (o : Option α) : Tells R (require o) := (within_require o).tells

theorem tells_check {ε : Type} (o : Except ε α) : Tells R (check o) := (within_check o).tells

theorem Tells.records (hx : Tells (fun _ => False) x) : Records x :=
  fun s hs => (hx False s.wedged s hs).mono (fun _ _ h => h.settled) fun _ _ h => (h.mono fun h => h.elim id id).settled

theorem Records.bind (hx : Records x) (hf : ∀ a, Records (f a)) : Records (x >>= f) := Keeps.bind hx hf

theorem Records.ite {p : Prop} [Decidable p] {y : Refit α} (hx : Records x) (hy : Records y) :
    Records (if p then x else y) := Keeps.ite (fun _ => hx) fun _ => hy

theorem records_throw (e : Raised) : Records (throw e : Refit α) := (tells_throw e).records

theorem records_get_bind {f : Client → Refit β} (hf : ∀ s, Records (f s)) : Records (get >>= f) :=
  .bind tells_get.records hf

variable (world : World) (config : Config) {act : Act}

theorem tells_call (ha : act.Steady) : Tells R (call world act) := by
  intro c b s hs
  simp only [call, wp_bind, wp_get]
  cases world.answer s.trace act with
  | none => exact hs.log ha
  | some e => exact (hs.log ha).mono .inl

variable {s : Client} {b : Bool} {c : Prop}

theorem abortKeys_spec (epochMove : Bool) (keys : List LaneKey) (h : Owed c b s) :
    wp (abortKeys world epochMove keys) (fun hung => Owed (c ∨ (hung = true ∧ epochMove = false)) b)
      (fun _ _ => False) s := by
  induction keys generalizing c s with
  | nil => exact h.mono .inl
  | cons key keys ih =>
    simp only [abortKeys, call, wp_bind, wp_modify, wp_tryCatch, wp_get]
    have hkey : Owed c b { s with lanes := s.lanes.filter (·.1 ≠ key) } := ⟨h.recorded, h.owed⟩
    cases world.answer s.trace (.abort key epochMove) with
    | none =>
      have hlog := (hkey.abort key epochMove true).mono fun h => h.resolve_right (by simp)
      refine (ih hlog).mono (fun rest s' hs => ?_) fun _ _ => id
      exact hs.mono (Or.imp_right fun hrest => by simpa using hrest)
    | some e =>
      refine (ih (hkey.abort key epochMove false)).mono (fun rest s' hs => ?_) fun _ _ => id
      refine hs.mono ?_
      rintro ((hc | ⟨-, hepoch⟩) | ⟨-, hepoch⟩)
      · exact .inl hc
      · exact .inr ⟨rfl, hepoch⟩
      · exact .inr ⟨rfl, hepoch⟩

variable (groupId : String)

theorem cacheAbortGroup_spec (h : Owed c b s) :
    wp (cacheAbortGroup world groupId) (fun _ => Owed c b) (fun e s' => Owed True b s' ∧ e = .wedged) s := by
  refine wp_bind.2 ?_
  refine wp_bind.2 ((abortKeys_spec world false _ h).mono (fun hung s' h' => ?_) fun _ _ => False.elim)
  cases hung with
  | false => exact h'.mono fun h => h.resolve_right (by simp)
  | true => exact ⟨h'.mono fun _ => trivial, rfl⟩

theorem tells_cacheAbortGroup : Tells (· = .wedged) (cacheAbortGroup world groupId) :=
  fun _ _ _ hs => (cacheAbortGroup_spec world groupId hs).mono (fun _ _ h => h) fun _ _ h => h.1.mono fun _ => .inr h.2

theorem tells_invalidateEpoch (epoch : ℕ) : Tells R (invalidateEpoch world groupId epoch) := by
  refine fun c b s hs => wp_bind.2 ?_
  refine wp_bind.2 ((abortKeys_spec world true _ hs).mono (fun hung s' h => ?_) fun _ _ => False.elim)
  have h' : Owed c b s' := h.mono fun h => h.resolve_right (by simp)
  exact wp_ite.2 ⟨fun _ => h'.mono .inl, fun _ => h'⟩

theorem tells_abortHalf : Tells (· = .wedged) (abortHalf world) := by
  refine (idle_releaseHandle world).tells.bind fun _ => (idle_modifyHalf _).tells.bind fun _ => ?_
  have habort : Tells (· = .wedged) (do cacheAbortGroup world (← theHalf).groupId) :=
    idle_theHalf.tells.bind fun h => tells_cacheAbortGroup world h.groupId
  refine fun c b s hs => (wp_tryFinally _).2 ((habort c b s hs).mono (fun _ _ h => ?_) fun _ _ h => ?_)
  · exact ⟨h.recorded, h.owed⟩
  · exact ⟨h.recorded, h.owed⟩

theorem tells_failDeadline : Tells (· = .wedged) (failDeadline world) :=
  (tells_abortHalf world).bind fun _ => tells_throw _

theorem tells_transferStep (ha : act.Steady) : Tells (· = .wedged) (transferStep world act) :=
  .tryCatch (tells_call world ha) fun _ => .ite (tells_failDeadline world) (tells_throw _)

theorem tells_submitEntries (group : ℕ) (entries : List ParamPlan) :
    Tells (· = .wedged) (submitEntries world group entries) := by
  induction entries with
  | nil => exact tells_pure _
  | cons _ _ ih => exact (tells_transferStep world (by trivial)).bind fun _ => ih

theorem tells_submitLayerGroup (group : ℕ) (entries : List ParamPlan) :
    Tells (· = .wedged) (submitLayerGroup world group entries) := by
  refine (tells_transferStep world (by trivial)).bind fun _ => .ite (tells_pure _) ?_
  refine idle_theHalf.tells.bind fun _ => .ite (tells_throw _) ?_
  exact (Tells.forM fun _ _ => (idle_requireLane _).tells).bind fun _ => tells_submitEntries world _ _

theorem tells_issueWeights (group : ℕ) : Tells (· = .wedged) (issueWeights world group) := by
  refine (idle_claimGroup group).tells.bind fun _ => (tells_submitLayerGroup world _ _).bind fun _ => ?_
  refine .bind (fun c b => keeps_modify fun s hs => ?_) fun _ => (idle_modifyHalf _).tells
  exact hs.log trivial

theorem tells_waitWeights (group : ℕ) : Tells (· = .wedged) (waitWeights world group) := by
  refine idle_theHalf.tells.bind fun _ => .ite (tells_throw _) ?_
  exact (idle_modifyHalf _).tells.bind fun _ => tells_transferStep world (by trivial)

theorem tells_broadcastMisc (params : List MiscParam) : Tells (· = .wedged) (broadcastMisc world params) := by
  induction params with
  | nil => exact tells_pure _
  | cons _ _ ih => exact (tells_transferStep world (by trivial)).bind fun _ => ih

theorem tells_finishHalf (broadcastLane : ℕ) : Tells (· = .wedged) (finishHalf world broadcastLane) := by
  have hdrain : Tells (· = .wedged) (transferStep world .drain) := tells_transferStep world (by trivial)
  refine idle_theHalf.tells.bind fun _ => (tells_check _).bind fun _ => .ite ?_ (tells_pure _)
  refine hdrain.bind fun _ => (idle_requireLane _).tells.bind fun _ => (tells_broadcastMisc world _).bind fun _ => ?_
  exact hdrain.bind fun _ => (idle_modifyHalf _).tells

theorem tells_installOldest : Tells (· = .wedged) (installOldest world) := by
  refine tells_get.bind fun s => ?_
  cases s.unfinished with
  | nil => exact tells_throw _
  | cons group =>
    dsimp only
    refine .bind (tells_modify fun _ => rfl) fun _ => (tells_waitWeights world group).bind fun _ => ?_
    exact tells_call world (by trivial)

theorem tells_installWhile (limit n : ℕ) : Tells (· = .wedged) (installWhile world limit n) := by
  induction n with
  | zero => exact tells_pure _
  | succ n ih =>
    refine tells_get.bind fun _ => .ite ?_ (tells_pure _)
    exact (tells_installOldest world).bind fun _ => ih

/-! ## Rounds -/

theorem tells_resetRound : Tells R resetRound := tells_modify fun _ => rfl

theorem tells_report (succeeded : Bool) : Tells R (report world succeeded) := by
  refine tells_get.bind fun _ => (tells_require _).bind fun _ => ?_
  exact ((tells_require _).map _).bind fun _ => tells_call world (by trivial)

theorem abortCurrent_spec (h : Owed c b s) :
    wp (abortCurrent world) (fun wedged => Owed (c ∨ wedged = true) b) (fun _ _ => False) s := by
  refine wp_bind.2 (wp_ite.2 ⟨fun _ => (wp_tryCatch _).2 (wp_bind.2 ?_), fun _ => h.mono .inl⟩)
  refine (tells_abortHalf world c b s h).mono (fun _ s' h' => h'.mono .inl) fun e s' h' => ?_
  exact h'.mono (Or.imp_right fun he => decide_eq_true he)

theorem reportFailure_spec (h : Owed c b s) :
    wp (reportFailure world) (fun _ => Owed c b) (fun _ _ => False) s := by
  refine wp_bind.2 (wp_ite.2 ⟨fun _ => (wp_tryCatch _).2 ?_, fun _ => h⟩)
  exact (tells_report world false c b s h).mono (fun _ _ h' => h') fun e s' h' => h'.mono fun h' => h'.resolve_right id

/-- All is recorded on return; what is raised is a wedge, recorded as well. -/
abbrev Aborts (b : Bool) (x : Refit Unit) (s : Client) : Prop :=
  wp x (fun _ => Owed False b) (fun e s' => Owed False true s' ∧ e = .wedged) s

theorem failRound_spec (cause : Raised) (h : Owed (cause = .wedged) b s) : Aborts b (failRound world cause) s := by
  refine wp_bind.2 ((abortCurrent_spec world h).mono (fun _ s₁ h₁ => ?_) fun _ _ => False.elim)
  refine wp_bind.2 ((reportFailure_spec world h₁).mono (fun _ s₂ h₂ => ?_) fun _ _ => False.elim)
  refine wp_bind.2 (wp_ite.2 ⟨fun _ => ?_, fun hno => ?_⟩)
  · exact ⟨h₂.record rfl rfl, rfl⟩
  · exact ⟨h₂.recorded, (h₂.mono fun hc => hno hc.symm).owed⟩

theorem records_inRound {x : Refit Unit} (hx : Tells (· = .wedged) x) : Records (inRound world x) := by
  refine fun s hs => (wp_tryCatch _).2 ((hx False s.wedged s hs).mono (fun _ _ h => h.settled) fun e s' h => ?_)
  refine wp_bind.2 ((failRound_spec world e (h.mono fun h => h.resolve_left id)).mono ?_ ?_)
  · exact fun _ _ h' => h'.settled
  · exact fun _ _ h' => h'.1.settled

theorem abortGroup_spec (h : Owed False b s) : Aborts b (abortGroup world groupId) s := by
  refine (wp_tryCatch _).2 ((cacheAbortGroup_spec world groupId h).mono (fun _ _ h' => h') fun e s' h' => ?_)
  exact ⟨h'.1.record rfl rfl, h'.2⟩

theorem records_abortGroup : Records (abortGroup world groupId) :=
  fun _ hs => (abortGroup_spec world groupId hs).mono (fun _ _ h => h.settled) fun _ _ h => h.1.settled

theorem records_failRound : Records (failRound world .error) :=
  fun _ hs => (failRound_spec world .error (hs.mono False.elim)).mono (fun _ _ h => h.settled) fun _ _ h => h.1.settled

theorem closeHalf_spec (h : Owed c b s) :
    wp (closeHalf world) (fun _ => Owed c b) (fun _ _ => False) s := by
  have hrelease : Tells (fun _ => False) (do call world .quiesce; call world .m2nDestroy) :=
    (tells_call world (by trivial)).bind fun _ => tells_call world (by trivial)
  simp only [closeHalf, releaseHandle, theHalf, modifyHalf, wp_bind, wp_get, wp_ite, wp_modify]
  refine ⟨fun hsome => ?_, fun _ => ⟨h.recorded, h.owed⟩⟩
  obtain ⟨half, hhalf⟩ := Option.isSome_iff_exists.1 hsome
  simp only [hhalf, require, wp_pure, wp_tryCatch]
  refine ⟨fun _ => ?_, fun _ => ⟨h.recorded, h.owed⟩⟩
  refine (hrelease c b _ ?_).mono (fun _ _ h' => ⟨h'.recorded, h'.owed⟩) fun _ _ h' => ?_
  · exact ⟨h.recorded, h.owed⟩
  · exact ⟨h'.recorded, (h'.mono fun h => h.resolve_right id).owed⟩

variable (version : String)

theorem tells_requireRound : Tells R (requireRound version) := by
  refine tells_get.bind fun _ => .ite (tells_throw _) (.ite (tells_throw _) ?_)
  refine .ite (tells_throw _) (.ite (tells_throw _) fun c b => keeps_modify fun s hs => ?_)
  exact hs.log trivial

theorem tells_bindOperation (version operation : String) : Tells R (bindOperation world version operation) := by
  refine tells_get.bind fun _ => .ite (tells_throw _) (.ite (tells_throw _) ?_)
  refine (tells_require _).bind fun _ => (tells_call world (by trivial)).bind fun _ => ?_
  exact (tells_call world (by trivial)).bind fun _ => tells_modify fun _ => rfl

theorem tells_reportAttempts (n : ℕ) : Tells R (reportAttempts world n) := by
  induction n with
  | zero => exact tells_pure _
  | succ n ih =>
    refine .bind (.tryCatch ?_ fun e => ?_) fun _ => .ite ?_ ih
    · exact (tells_report world true).bind fun _ => tells_pure _
    · refine .ite (tells_resetRound.bind fun _ => tells_throw _) (.ite ?_ (tells_pure _))
      exact .bind (tells_modify fun _ => rfl) fun _ => tells_throw _
    · refine tells_get.bind fun _ => tells_resetRound.bind fun _ => ?_
      exact .ite (tells_throw _) (tells_pure _)

theorem records_start (version operation : String) : Records (startWeightUpdate world config version operation) := by
  refine records_get_bind fun _ => .ite (records_throw _) (.ite (records_throw _) ?_)
  refine (tells_bindOperation world version operation).records.bind fun _ => ?_
  refine (records_inRound world ?_).bind fun _ => ?_
  · exact (tells_call world (by trivial)).bind fun _ => (idle_startHalf world).tells
  · refine Tells.records ?_
    cases config.role with
    | trainer => exact tells_modify fun _ => rfl
    | generator =>
      refine .bind (tells_modify fun _ => rfl) fun _ => ?_
      refine (tells_call world (by trivial)).bind fun _ => ?_
      refine tells_get.bind fun _ => .ite (tells_throw _) ?_
      exact .bind (tells_modify fun _ => rfl) fun _ => tells_modify fun _ => rfl

theorem records_publish (group : ℕ) : Records (publishWeights world version group) := by
  refine (tells_requireRound version).records.bind fun _ => records_inRound world ?_
  exact (idle_claimGroup group).tells.bind fun _ => tells_submitLayerGroup world _ _

theorem records_update (group : ℕ) : Records (updateWeights world version group) := by
  refine (tells_requireRound version).records.bind fun _ => records_get_bind fun _ =>
    .ite (records_throw _) (records_inRound world ?_)
  refine (tells_issueWeights world group).bind fun _ => .bind (tells_modify fun _ => rfl) fun _ => ?_
  exact tells_get.bind fun _ => tells_installWhile world _ _

theorem records_finish (operation : Option String) : Records (finishWeightUpdate world config version operation) := by
  refine (tells_requireRound version).records.bind fun _ => records_get_bind fun _ =>
    .ite (records_throw _) (.ite (records_throw _) ?_)
  refine (records_inRound world ?_).bind fun _ => (tells_reportAttempts world 3).records
  have hrest : ∀ last : Refit Unit, Tells (· = .wedged) last → Tells (· = .wedged) (do
      let membership ← require (← get).membership
      let lane ← require membership.broadcastLane
      finishHalf world lane.laneId
      last) := fun last hlast =>
    tells_get.bind fun _ => (tells_require _).bind fun _ => (tells_require _).bind fun _ =>
      (tells_finishHalf world _).bind fun _ => hlast
  by_cases hrole : config.role = .generator
  · simp only [hrole, if_true]
    refine tells_get.bind fun _ => (tells_installWhile world _ _).bind fun _ => hrest _ ?_
    exact tells_call world (by trivial)
  · simp only [hrole, if_false]
    exact hrest _ (tells_pure _)

/-! ## Joining -/

theorem records_failBootstrap (membership : Membership) (cause : Raised) :
    Records (failBootstrap world membership cause) := by
  have hclose : Tells (fun _ => False) (do
      modify ({ · with membership := none })
      tryCatch (call world .closeRendezvous) fun _ => pure ()) :=
    .bind (tells_modify fun _ => rfl) fun _ =>
      .tryCatch (tells_call world (by trivial)) fun _ => tells_pure _
  refine .bind (fun s hs => (wp_tryFinally _).2 ?_) fun _ => records_throw _
  exact (records_abortGroup world membership.groupId s hs).mono (fun _ s' h => hclose.records s' h)
    fun _ s' h => hclose.records s' h

theorem records_failOpenRound : Records (failOpenRound world) :=
  records_get_bind fun _ => .ite (records_failRound world) (tells_pure _).records

theorem records_leaveGroup : Records (leaveGroup world groupId) := by
  refine records_get_bind fun s => ?_
  cases s.membership with
  | none => exact (tells_pure _).records
  | some => exact .ite (records_abortGroup world _) (tells_pure _).records

theorem records_joinAndBootstrap : Records (joinAndBootstrap world config) := by
  refine records_get_bind fun _ => ((tells_require _).map _).records.bind fun _ => ?_
  refine (tells_call world (by trivial)).records.bind fun _ => (records_failOpenRound world).bind fun _ => ?_
  refine (tells_require _).records.bind fun _ => (tells_call world (by trivial)).records.bind fun _ => ?_
  refine records_get_bind fun _ => (idle_checkMembership config _ _).tells.records.bind fun _ => ?_
  refine (idle_closeHalf world).tells.records.bind fun _ => (records_leaveGroup world _).bind fun _ => ?_
  refine (tells_invalidateEpoch world _ _).records.bind fun _ => (idle_publishBootstraps world _).tells.records.bind fun _ => ?_
  refine (idle_awaitGroup world config _).tells.records.bind fun _ => (tells_require _).records.bind fun _ => ?_
  refine Records.bind ?_ fun _ => Tells.records (Tells.bind (tells_modify fun _ => rfl) fun _ => tells_pure _)
  refine Keeps.tryCatch (Tells.records (Tells.forM fun laneId _ => (idle_bootstrapLane world _ _ laneId).tells)) ?_
  exact fun e => records_failBootstrap world _ e

theorem records_computePlan : Records (computePlan world config) := by
  refine records_get_bind fun _ => .ite (records_throw _) ?_
  refine (idle_captureEngine world config).tells.records.bind fun _ => records_get_bind fun _ => ?_
  refine (tells_require _).records.bind fun _ => (tells_call world (by trivial)).records.bind fun _ => ?_
  refine records_get_bind fun _ => records_get_bind fun _ => (tells_check _).records.bind fun _ => ?_
  refine (records_joinAndBootstrap world config).bind fun _ => ?_
  refine Keeps.tryCatch (idle_buildHalf config _ _ _).tells.records fun e => ?_
  refine Records.bind (records_abortGroup world _) fun _ => ?_
  exact Tells.records (Tells.bind (tells_modify fun _ => rfl) fun _ => tells_throw _)

/-! ## Cleanup -/

theorem cleanupBase_spec (h : Owed False b s) : Aborts false (cleanupBase world) s := by
  refine wp_bind.2 (wp_ite.2 ⟨fun hw => ⟨h.record rfl hw, rfl⟩, fun hw => ?_⟩)
  obtain rfl : b = false := by rw [← h.recorded]; simpa using hw
  have hopen : Aborts false (failOpenRound world) s :=
    wp_bind.2 (wp_ite.2 ⟨fun _ => failRound_spec world .error (h.mono False.elim), fun _ => h⟩)
  refine wp_bind.2 (hopen.mono (fun _ s₁ h₁ => ?_) fun _ _ => id)
  refine wp_bind.2 ((closeHalf_spec world h₁).mono (fun _ s₂ h₂ => ?_) fun _ _ => False.elim)
  have hjoined : Aborts false (abortJoined world) s₂ := by
    simp only [abortJoined, wp_bind, wp_get]
    cases s₂.membership with
    | none => exact h₂
    | some membership => exact abortGroup_spec world membership.groupId h₂
  refine wp_bind.2 (hjoined.mono (fun _ s₃ h₃ => ?_) fun _ _ => id)
  exact ⟨h₃.recorded, h₃.owed⟩

theorem cleanup_spec (h : Settled s) : wp (cleanup world)
      (fun _ s' => Settled s' ∧ (s.engine = true → Wedged s'.trace → EpochWedged s'.trace))
      (fun e s' => Settled s' ∧ (s.engine = true → Wedged s'.trace → EpochWedged s'.trace ∨ e = .wedged)) s := by
  have hbase : Aborts false (cleanupBase world) { s with engine := false } :=
    cleanupBase_spec world ⟨h.recorded, h.owed⟩
  simp only [cleanup, wp_bind, wp_get, wp_modify, wp_tryFinally]
  refine hbase.mono (fun _ s₁ h₁ => ?_) fun e s₁ h₁ => ?_
  · -- nothing has wedged, so the engine may clean up
    refine wp_ite.2 ⟨fun _ => ?_, fun _ => ⟨h₁.settled, fun _ hw => h₁.unwedged hw⟩⟩
    refine wp_bind.2 (wp_ite.2 ⟨fun _ => ?_, fun hno => absurd h₁.recorded (by simpa using hno)⟩)
    simp only [call, wp_bind, wp_get]
    cases world.answer s₁.trace .engineCleanup with
    | none => exact ⟨h₁.cleanup.settled, fun _ hw => h₁.cleanup.unwedged hw⟩
    | some e => exact ⟨h₁.cleanup.settled, fun _ hw => .inl (h₁.cleanup.unwedged hw)⟩
  · refine wp_ite.2 ⟨fun _ => ?_, fun _ => ⟨h₁.1.settled, fun _ _ => .inr h₁.2⟩⟩
    refine wp_bind.2 (wp_ite.2 ⟨fun hno => absurd h₁.1.recorded hno, fun _ => ?_⟩)
    exact ⟨h₁.1.settled, fun _ _ => .inr h₁.2⟩

theorem records_perform (call : Call) : Records (call.perform world config) := by
  cases call with
  | setupLayerGroups groupings => exact (idle_setupLayerGroups groupings).tells.records
  | initializeEngine => exact (idle_initializeEngine world config _ _).tells.records
  | computePlan => exact records_computePlan world config
  | start version operation => exact records_start world config version operation
  | publish version group => exact .ite (records_publish world version group) (records_throw _)
  | update version group => exact .ite (records_update world version group) (records_throw _)
  | finish version operation => exact records_finish world config version operation
  | retryReport =>
    exact (tells_get.bind fun _ => .ite (tells_throw _) (tells_reportAttempts world 3)).records
  | cleanup => exact fun _ hs => (cleanup_spec world hs).mono (fun _ _ h => h.1) fun _ _ h => h.1

theorem settled_afterCalls (calls : List Call) : Settled (afterCalls world config calls {}) := by
  have hinit : Settled {} := by
    refine ⟨rfl, .inr ⟨throughout_nil, ?_⟩⟩
    rintro ⟨key, _, hmem⟩
    cases hmem
  exact Run.invariant hinit (fun s c hs => (records_perform world config c s hs).final) calls

/-- **The buffers outlive a wedge**, as long as no abort that an epoch move asks for wedges: the engine never cleans
    up after an abort has wedged, and a cleanup with an engine then raises the wedge. -/
theorem engine_kept_after_wedge (calls : List Call)
    (hepoch : ∀ before, before <+: calls → ¬ EpochWedged (afterCalls world config before {}).trace) :
    Throughout Released (afterCalls world config calls {}).trace ∧
      ∀ before, before ++ [.cleanup] <+: calls → (afterCalls world config before {}).engine = true →
        Wedged (afterCalls world config (before ++ [.cleanup]) {}).trace →
          ∃ s, cleanup world (afterCalls world config before {}) = .error .wedged s := by
  constructor
  · rcases (settled_afterCalls world config calls).owed with h | h
    · exact absurd h (hepoch calls (List.prefix_refl _))
    · exact h.1
  · intro before hbefore hengine hwedged
    have hspec := cleanup_spec world (settled_afterCalls world config before)
    have hno := hepoch _ hbefore
    have hstate : afterCalls world config (before ++ [.cleanup]) {} =
        final (cleanup world) (afterCalls world config before {}) := Run.run_snoc ..
    rw [hstate] at hwedged hno
    rw [wp] at hspec
    rw [final] at hwedged hno
    cases hrun : cleanup world (afterCalls world config before {}) with
    | ok a s =>
      rw [hrun] at hspec hwedged hno
      exact absurd (hspec.2 hengine hwedged) hno
    | error e s =>
      rw [hrun] at hspec hwedged hno
      obtain rfl := (hspec.2 hengine hwedged).resolve_left hno
      exact ⟨s, rfl⟩

end

/-! A trainer alone with a generator, of a model without parameters; `hangs` says whether an abort hangs, of a lane
that is dropped because the epoch moved or of another one. -/

def loneConfig : Config where
  role := .trainer
  trainerSlots := ["t"]
  generatorSlots := ["g"]
  sourcePartitionCount := 1
  slotId := "t"
  workerId := "w"

def loneWorld (hangs : Bool → Bool) : World where
  answer _ act := match act with
    | .abort _ epochMove => if hangs epochMove then some .wedged else none
    | _ => none
  plan _ := {}
  parameterNames _ := []
  localParams _ := []
  membership t := {
    groupId := "group"
    epoch := t.countP (·.act = .join)
    lanes := [⟨0, .reshard, 0, 2⟩, ⟨1, .broadcast, 0, 2⟩]
    isBootstrapLeader := false }
  ready _ := [⟨0, [("t", "w")], "a"⟩, ⟨1, [("t", "w")], "b"⟩]
  ended _ := false
  depth _ := 1

def setUp : List Call := [.initializeEngine 0 (some []), .computePlan]

theorem cleanup_wedge_kept :
    ∃ s, cleanup (loneWorld not) (afterCalls (loneWorld not) loneConfig setUp {}) = .error .wedged s := by
  have hepoch : ∀ before, before <+: setUp ++ [.cleanup] →
      ¬ EpochWedged (afterCalls (loneWorld not) loneConfig before {}).trace := by
    have hfailed : ∀ before ∈ (setUp ++ [Call.cleanup]).inits, ∀ e ∈ (afterCalls (loneWorld not) loneConfig before {}).trace,
        e.ok = true ∨ e.act = .abort ⟨"group", 1, 0⟩ false ∨ e.act = .abort ⟨"group", 1, 1⟩ false := by
      decide
    rintro before hpre ⟨key, hkey⟩
    have hcases := hfailed before ((List.mem_inits _ _).2 hpre) _ hkey
    simp at hcases
  refine (engine_kept_after_wedge (loneWorld not) loneConfig (setUp ++ [.cleanup]) hepoch).2 setUp
    (List.prefix_refl _) rfl ⟨⟨"group", 1, 1⟩, false, ?_⟩
  decide

/-- The epoch moves, the abort of an old lane wedges in `compute_plan`, and the cleanup returns after the engine has
    freed its buffers. -/
theorem epoch_wedge_releases :
    ¬ Throughout Released (afterCalls (loneWorld id) loneConfig (setUp ++ [.computePlan, .cleanup]) {}).trace ∧
      (afterCalls (loneWorld id) loneConfig (setUp ++ [.computePlan]) {}).engine = true ∧
      Wedged (afterCalls (loneWorld id) loneConfig (setUp ++ [.computePlan]) {}).trace ∧
      ∃ s, cleanup (loneWorld id) (afterCalls (loneWorld id) loneConfig (setUp ++ [.computePlan]) {}) = .ok () s := by
  have hwedged : Wedged (afterCalls (loneWorld id) loneConfig (setUp ++ [.computePlan]) {}).trace :=
    ⟨⟨"group", 1, 1⟩, true, by decide⟩
  have hlast : (afterCalls (loneWorld id) loneConfig (setUp ++ [.computePlan]) {}).trace ++ [⟨.engineCleanup, true⟩] =
      (afterCalls (loneWorld id) loneConfig (setUp ++ [.computePlan, .cleanup]) {}).trace := by
    decide
  exact ⟨fun h => h _ _ ⟨[], (List.append_nil _).trans hlast⟩ rfl hwedged, rfl, hwedged, _, rfl⟩

end ModelExpress.M2n
