/-
  ModelExpress generator — what staging and releasing leave alone.
-/
import ModelExpress.Generator.Session

namespace ModelExpress.Generator

open Effects List

variable {W : Type} {update : SessionUpdate} {act : Act} {leases : List ℕ}

/-- Neither writes to the engine nor marks the end of an installation. -/
def Act.plain : Act → Bool
  | .receivePeer | .install _ | .installed _ => false
  | _ => true

theorem Act.writes_of_plain (h : act.plain = true) : act.writes = false := by
  cases act <;> first | rfl | cases h

/-- Everything is left alone but the leases, the peer read and the updates. -/
structure Agrees (P : SessionUpdate → Prop) (s s' : State W) : Prop where
  engine : s'.engine = s.engine
  published : s'.published = s.published
  serving : s'.servingVersionId = s.servingVersionId
  ready : s'.ready = s.ready
  handle : s'.activeHandle = s.activeHandle
  live : s'.liveVersion = s.liveVersion
  trace : s'.trace = s.trace
  kept : ∀ (i : ℕ) (update : SessionUpdate), s.updates[i]? = some update → ∃ r, s'.updates[i]? = some { update with released := r }
  added : ∀ update' ∈ s'.updates, (∃ update ∈ s.updates, update'.prepared = update.prepared) ∨ P update'

/-- The steps of staging and releasing; `P` says which updates may be added. -/
inductive Aside (P : SessionUpdate → Prop) (s : State W) : State W → Prop
  | log {act : Act} {ok : Bool} (hact : act.plain = true) : Aside P s (s.log act ok)
  | change {s' : State W} (h : Agrees P s s') : Aside P s s'

section
variable {P : SessionUpdate → Prop} {s s' : State W} {i : ℕ}

theorem Aside.other (hengine : s'.engine = s.engine) (hpublished : s'.published = s.published)
    (hserving : s'.servingVersionId = s.servingVersionId) (hready : s'.ready = s.ready)
    (hhandle : s'.activeHandle = s.activeHandle) (hlive : s'.liveVersion = s.liveVersion) (htrace : s'.trace = s.trace)
    (hupdates : s'.updates = s.updates) : Aside P s s' :=
  .change ⟨hengine, hpublished, hserving, hready, hhandle, hlive, htrace,
    fun i update h => ⟨update.released, by rw [hupdates, h]⟩, fun update' h => .inl ⟨update', hupdates ▸ h, rfl⟩⟩

theorem aside_add (h : P update) : Aside P s { s with updates := s.updates ++ [update] } := by
  refine .change ⟨rfl, rfl, rfl, rfl, rfl, rfl, rfl, fun i update' hi => ⟨update'.released, ?_⟩, fun update' hmem => ?_⟩
  · rw [List.getElem?_append_left (List.getElem?_eq_some_iff.1 hi).1, hi]
  · rcases mem_append.1 hmem with hold | hnew
    · exact .inl ⟨update', hold, rfl⟩
    · obtain rfl := mem_singleton.1 hnew
      exact .inr h

theorem aside_released : Aside P s (s.modifyUpdate i ({ · with released := true })) := by
  refine .change ⟨rfl, rfl, rfl, rfl, rfl, rfl, rfl, fun j update hj => ?_, fun _ hmem => .inl ?_⟩
  · simp only [State.modifyUpdate, getElem?_modify, hj, Option.map_eq_map, Option.map_some]
    split_ifs
    · exact ⟨true, rfl⟩
    · exact ⟨update.released, rfl⟩
  · obtain ⟨j, hj⟩ := mem_iff_getElem?.1 hmem
    simp only [State.modifyUpdate, getElem?_modify, Option.map_eq_map] at hj
    obtain ⟨update, hupdate, rfl⟩ := Option.map_eq_some_iff.1 hj
    refine ⟨update, mem_of_getElem? hupdate, ?_⟩
    split_ifs <;> rfl

end

section
variable (world : World W) (config : Config) {P : SessionUpdate → Prop}

theorem wp_callWith {effect : Bool → State W → State W} {Q : Unit → State W → Prop}
    {E : Raised → State W → Prop} {s : State W} (hok : Q () (effect true (s.log act true)))
    (herror : ∀ e, E e (effect false (s.log act false))) : wp (callWith world act effect) Q E s := by
  refine wp_bind.2 (wp_get.2 ?_)
  cases world.answer s.trace act with
  | none => exact hok
  | some e => exact herror e

theorem aside_call (hact : act.plain = true) : Within (Aside P) (call world act) := by
  intro I hI s hs
  exact wp_callWith world (hI _ _ (.log hact) hs) fun _ => hI _ _ (.log hact) hs

theorem aside_theUpdate (i : ℕ) : Within (Aside P) (theUpdate i : Updating W SessionUpdate) := by
  refine within_get.bind fun s => ?_
  cases s.updates[i]? with
  | none => exact within_throw _
  | some => exact within_pure _

/-! ## Leases -/

theorem aside_startLease (version : String) : Within (Aside P) (startLease world version) := by
  refine (aside_call world rfl).bind fun _ => within_get.bind fun _ => .bind (within_modify fun s => ?_) fun _ => within_pure _
  exact .other rfl rfl rfl rfl rfl rfl rfl rfl

theorem aside_closeVersionLease (lease : ℕ) : Within (Aside P) (closeVersionLease world lease) := by
  refine within_get.bind fun _ => .ite (within_pure _) ((aside_call world rfl).bind fun _ => within_modify fun s => ?_)
  exact .other rfl rfl rfl rfl rfl rfl rfl rfl

theorem aside_closeEach (leases : List ℕ) : Within (Aside P) (closeEach world leases) := by
  induction leases with
  | nil => exact within_pure _
  | cons lease _ ih =>
    refine .bind (.tryCatch ?_ fun _ => within_pure _) fun _ => ih.bind fun _ => within_pure _
    exact (aside_closeVersionLease world lease).bind fun _ => within_pure _

theorem aside_closeLease (leases : List ℕ) (primary : Bool) : Within (Aside P) (closeLease world leases primary) := by
  refine .tryCatch ((aside_closeEach world _).bind fun error => ?_) fun _ => .ite (within_pure _) (within_throw _)
  cases error with
  | none => exact within_pure _
  | some e => exact within_throw _

theorem aside_orCloseLease {α : Type} {x : Updating W α} (hx : Within (Aside P) x) :
    Within (Aside P) (orCloseLease world leases x) :=
  hx.tryCatch fun _ => (aside_closeLease world _ _).bind fun _ => within_throw _

/-! ## Staging -/

/-- A checkpoint carries no lineage, or the one that the store records for its version. -/
def Prepares (prepared : PreparedArtifact) : Prop :=
  ∀ target streaming changes, prepared = .checkpoint target streaming changes →
    changes = [] ∨ ∃ t, changes = deltaChanges (world.index t) config.surgical (world.chain t target)

theorem aside_prepareArtifact (version : String) (source : WeightSource) :
    Within (Aside P) (prepareArtifact world config version source) := by
  cases source with
  | generator =>
    refine within_get.bind fun _ => .ite (within_throw _) ?_
    refine (aside_call world rfl).bind fun _ => within_get.bind fun _ => .bind (within_modify fun s => ?_) fun _ => within_pure _
    exact .other rfl rfl rfl rfl rfl rfl rfl rfl
  | trainer => exact (aside_call world rfl).bind fun _ => within_pure _
  | objectStorage =>
    exact (aside_call world rfl).bind fun _ => within_get.bind fun _ => .ite (within_pure _) (within_pure _)

theorem prepareArtifact_returns (version : String) (source : WeightSource) :
    Returns (fun prepared _ => Prepares world config prepared) (prepareArtifact world config version source) := by
  cases source with
  | generator =>
    refine .bind fun _ => .ite (returns_throw _) (.bind fun _ => .bind fun _ => ?_)
    exact .bind fun _ s target streaming changes h => by cases h
  | trainer =>
    refine .bind fun _ s target streaming changes h => ?_
    split_ifs at h
  | objectStorage =>
    refine .bind fun _ => .bind fun s => .ite ?_ ?_
    · intro _ target streaming changes h
      cases h
      exact .inl rfl
    · intro _ _ _ _ h
      cases h
      exact .inr ⟨_, rfl⟩

theorem aside_recoverPreparation : Within (Aside P) (recoverPreparation world) :=
  (aside_call world rfl).tryCatch fun _ => within_throw _

theorem aside_prepareCandidates (version : String) (source : WeightSource) (n : ℕ) (last : Option Raised) :
    Within (Aside P) (prepareCandidates world config version source n last) := by
  induction n generalizing last with
  | zero => exact (aside_call world rfl).bind fun _ => within_throw _
  | succ n ih =>
    refine (aside_call world rfl).bind fun _ => (aside_prepareArtifact world config version source).attempt.bind fun outcome => ?_
    cases outcome with
    | ok => exact within_pure _
    | error e =>
      refine .ite (within_throw _) (.ite (.ite (within_throw _) ?_) (ih _))
      exact (aside_recoverPreparation world).bind fun _ => ih _

theorem prepareCandidates_returns (version : String) (source : WeightSource) (n : ℕ) (last : Option Raised) :
    Returns (fun prepared _ => Prepares world config prepared) (prepareCandidates world config version source n last) := by
  induction n generalizing last with
  | zero => exact .bind fun _ => returns_throw _
  | succ n ih =>
    refine .bind fun _ s => wp_bind.2 (wp_attempt.2 ((prepareArtifact_returns world config version source s).mono ?_ ?_))
    · exact fun _ _ h => h
    · intro e s' _
      exact Returns.ite (returns_throw _) (Returns.ite (Returns.ite (returns_throw _) (Returns.bind fun _ => ih _)) (ih _)) s'

theorem aside_addUpdate (h : P update) : Within (Aside P) (addUpdate update : Updating W ℕ) :=
  within_get.bind fun _ => .bind (within_modify fun _ => aside_add h) fun _ => within_pure _

def Adds (P : SessionUpdate → Prop) : Prop :=
  ∀ version prepared lease, Prepares world config prepared → P { version, prepared, lease }

variable (hP : Adds world config P)
include hP

theorem aside_stageOne (version : String) (source : WeightSource) :
    Within (Aside P) (stageOne world config version source) := by
  refine (aside_startLease world version).bind fun _ => aside_orCloseLease world (within_get.bind fun _ => ?_)
  exact (aside_prepareCandidates world config version source _ none).bindReturns
    (prepareCandidates_returns world config version source _ none) fun _ h => aside_addUpdate (hP _ _ _ h)

omit hP in
theorem aside_startLeases (versions : List String) (leases : List ℕ) :
    Within (Aside P) (startLeases world versions leases) := by
  induction versions generalizing leases with
  | nil => exact within_pure _
  | cons version _ ih =>
    exact (aside_orCloseLease world (aside_startLease world version)).bind fun _ => ih _

omit hP in
theorem aside_replayPlans (versions : List String) : Within (Aside P) (replayPlans world versions) := by
  induction versions with
  | nil => exact within_pure _
  | cons _ _ ih =>
    exact (aside_call world rfl).bind fun _ => within_get.bind fun _ => .ite (within_throw _) ih

theorem aside_stageReplayChain (bases : List String) (target : String) :
    Within (Aside P) (stageReplayChain world config bases target) := by
  refine .ite (aside_stageOne world config hP _ _) ((aside_startLeases world _ _).bind fun _ => aside_orCloseLease world ?_)
  refine (aside_replayPlans world _).bind fun _ => within_get.bind fun _ => .ite (within_throw _) ?_
  refine .bindReturns (A := Prepares world config) ?_ ?_ fun _ h => aside_addUpdate (hP _ _ _ h)
  · refine (aside_prepareArtifact world config _ _).tryCatch fun _ => ?_
    exact (aside_recoverPreparation world).bind fun _ => within_throw _
  · exact (prepareArtifact_returns world config _ _).tryCatch fun _ => .bind fun _ => returns_throw _

theorem aside_stageSource (version : String) (source : WeightSource) :
    Within (Aside P) (stageSource world config version source) := by
  cases source with
  | objectStorage =>
    refine .ite (within_throw _) ((aside_call world rfl).bind fun _ => within_get.bind fun _ => ?_)
    exact (Within.forM fun _ _ => aside_call world rfl).bind fun _ => aside_stageReplayChain world config hP _ _
  | trainer | generator => exact aside_stageOne world config hP _ _

theorem aside_stage (version : String) (sources : List WeightSource) :
    Within (Aside P) (stage world config version sources) := by
  induction sources with
  | nil => exact within_throw _
  | cons _ sources ih =>
    cases sources with
    | nil => exact aside_stageSource world config hP _ _
    | cons =>
      exact (aside_stageSource world config hP _ _).tryCatch fun _ => .ite (within_throw _) ih

end

/-! ## What staging returns -/

section
variable (world : World W) (config : Config)

/-- The update has been staged for the version, and not applied. -/
def Staged (version : String) (i : ℕ) (s : State W) : Prop :=
  ∃ update, s.updates[i]? = some update ∧ update.version = version ∧ update.applied = false

theorem staged_addUpdate (version : String) (prepared : PreparedArtifact) (lease : List ℕ) :
    Returns (Staged version) (addUpdate { version, prepared, lease } : Updating W ℕ) := by
  intro s
  exact ⟨_, getElem?_concat_length, rfl, rfl⟩

theorem staged_orCloseLease {version : String} {x : Updating W ℕ} (hx : Returns (Staged version) x) :
    Returns (Staged version) (orCloseLease world leases x) :=
  hx.tryCatch fun _ => .bind fun _ => returns_throw _

theorem staged_stageOne (version : String) (source : WeightSource) :
    Returns (Staged version) (stageOne world config version source) := by
  refine .bind fun _ => staged_orCloseLease world (.bind fun _ => .bind fun _ => ?_)
  exact staged_addUpdate _ _ _

theorem staged_stageSource (version : String) (source : WeightSource) :
    Returns (Staged version) (stageSource world config version source) := by
  cases source with
  | objectStorage =>
    refine .ite (returns_throw _) (.bind fun _ => .bind fun _ => .bind fun _ => ?_)
    refine .ite (staged_stageOne world config _ _) (.bind fun _ => staged_orCloseLease world ?_)
    refine .bind fun _ => .bind fun _ => .ite (returns_throw _) (.bind fun _ => ?_)
    exact staged_addUpdate _ _ _
  | trainer | generator => exact staged_stageOne world config _ _

theorem staged_stage (version : String) (sources : List WeightSource) :
    Returns (Staged version) (stage world config version sources) := by
  induction sources with
  | nil => exact returns_throw _
  | cons _ sources ih =>
    cases sources with
    | nil => exact staged_stageSource world config _ _
    | cons =>
      exact (staged_stageSource world config _ _).tryCatch fun _ => .ite (returns_throw _) ih

/-! ## Releasing -/

variable {P : SessionUpdate → Prop}

theorem aside_releaseMethod (prepared : PreparedArtifact) : Within (Aside P) (releaseMethod world prepared) := by
  cases prepared with
  | runtimeTensors id =>
    refine within_get.bind fun s => ?_
    cases s.activeRead with
    | none => exact within_throw _
    | some =>
      refine .ite (within_throw _) (.tryFinally (.ite (aside_call world rfl) (within_pure _)) (within_modify fun s => ?_))
      exact .other rfl rfl rfl rfl rfl rfl rfl rfl
  | engineTensors | streamingTensors | checkpoint => exact aside_call world rfl

theorem aside_releaseUpdate (i : ℕ) : Within (Aside P) (releaseUpdate world i) := by
  refine (aside_theUpdate i).bind fun _ => .ite (within_pure _) (within_get.bind fun _ => .ite (within_throw _) ?_)
  refine (aside_releaseMethod world _).attempt.bind fun outcome => ?_
  have hreleased : Within (Aside P) (modifyUpdate i ({ · with released := true }) : Updating W Unit) :=
    within_modify fun _ => aside_released
  cases outcome with
  | ok _ => exact hreleased.bind fun _ => aside_closeLease world _ _
  | error e => exact hreleased.bind fun _ => (aside_closeLease world _ _).bind fun _ => within_throw _

end

end ModelExpress.Generator
