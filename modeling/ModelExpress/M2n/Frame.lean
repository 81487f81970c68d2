/-
  ModelExpress NCCL M2N refit — what most methods of a client leave alone.
-/
import ModelExpress.M2n.Client

namespace ModelExpress.M2n

open Effects

/-- The steps of a method that may make the calls `acts`, and besides may change a state as `same` allows. -/
inductive Footprint (acts : Act → Prop) (same : Client → Client → Prop) (s : Client) : Client → Prop
  | log {act : Act} {ok : Bool} (hact : acts act) : Footprint acts same s (s.log act ok)
  | change {s' : Client} (hsame : same s s') : Footprint acts same s s'

section
variable {acts acts' : Act → Prop} {same same' : Client → Client → Prop} {α : Type}

theorem Footprint.mono {s s' : Client} (h : Footprint acts same s s') (ha : ∀ act, acts act → acts' act)
    (hs : ∀ s s', same s s' → same' s s') : Footprint acts' same' s s' := by
  cases h with
  | log hact => exact .log (ha _ hact)
  | change hsame => exact .change (hs _ _ hsame)

theorem framed_footprint {I : Client → Prop} (hlog : ∀ s act ok, acts act → I s → I (s.log act ok))
    (hchange : ∀ s s', same s s' → I s → I s') : Framed (Footprint acts same) I := by
  intro s s' h hs
  cases h with
  | log hact => exact hlog s _ _ hact hs
  | change hsame => exact hchange s s' hsame hs

end

end ModelExpress.M2n

namespace Effects.Framed

open ModelExpress.M2n

variable {acts : Act → Prop} {same : Client → Client → Prop} {I : Client → Prop} {s s' : Client}

theorem log (hI : Framed (Footprint acts same) I) {act : Act} {ok : Bool} (h : I s) (hact : acts act) :
    I (s.log act ok) := hI s _ (.log hact) h

theorem frame (hI : Framed (Footprint acts same) I) (h : I s) (hs : same s s') : I s' := hI s s' (.change hs) h

end Effects.Framed

namespace ModelExpress.M2n

open Effects

section
variable {α : Type} {R : Client → Client → Prop}

theorem within_require (o : Option α) : Within R (require o) := by
  cases o with
  | none => exact within_throw _
  | some a => exact within_pure a

theorem within_check {ε : Type} (o : Except ε α) : Within R (check o) := by
  cases o with
  | error e => exact within_throw _
  | ok a => exact within_pure a

theorem within_call (world : World) {act : Act} (ha : ∀ s ok, R s (s.log act ok)) :
    Within R (call world act) := by
  intro I hI s hs
  simp only [call, wp_bind, wp_get]
  cases world.answer s.trace act with
  | none => exact hI _ _ (ha s true) hs
  | some e => exact hI _ _ (ha s false) hs

end

/-! ## Idle methods -/

/-- Calls that neither belong to a round nor tear anything down. -/
def Act.Idle : Act → Prop
  | .bindTransfer .. | .issued _ | .wait _ | .install _ | .named _ | .report .. | .abort .. | .engineCleanup => False
  | _ => True

def Client.round (s : Client) : Bool × Bool × Option String × Option String × List ℕ × ℕ :=
  (s.roundStarted, s.reportPending, s.operationId, s.version, s.unfinished, s.pipelineDepth)

/-- The current round and the wedge are left alone. -/
def idle : Client → Client → Prop :=
  Footprint Act.Idle fun s s' => s'.trace = s.trace ∧ s'.round = s.round ∧ s'.wedged = s.wedged

section
variable (world : World) (config : Config)

/-! ## The half -/

theorem idle_theHalf : Within idle theHalf := within_get.bind fun _ => within_require _

theorem idle_modifyHalf (g : HalfState → HalfState) : Within idle (modifyHalf g) :=
  within_modify fun _ => .change ⟨rfl, rfl, rfl⟩

theorem idle_releaseHandle : Within idle (releaseHandle world) := by
  refine idle_theHalf.bind fun _ => .ite ?_ (within_pure _)
  refine (idle_modifyHalf _).bind fun _ => .tryCatch ?_ fun _ => within_pure _
  exact (within_call world fun _ _ => .log trivial).bind fun _ => within_call world fun _ _ => .log trivial

theorem idle_startHalf : Within idle (startHalf world) := by
  refine idle_theHalf.bind fun _ => .ite (within_throw _) ?_
  refine .ite (idle_modifyHalf _) ((within_call world fun _ _ => .log trivial).bind fun _ => ?_)
  exact (idle_modifyHalf _).bind fun _ => idle_modifyHalf _

theorem idle_claimGroup (group : ℕ) : Within idle (claimGroup group) :=
  idle_theHalf.bind fun _ => (within_check _).bind fun _ =>
    (idle_modifyHalf _).bind fun _ => within_pure _

theorem idle_requireLane (laneId : ℕ) : Within idle (requireLane laneId) :=
  idle_theHalf.bind fun _ => within_get.bind fun _ => .ite (within_pure _) (within_throw _)

theorem idle_closeHalf : Within idle (closeHalf world) := by
  have hdrop : Within idle (modify fun s => { s with half := none } : Refit Unit) :=
    within_modify fun _ => .change ⟨rfl, rfl, rfl⟩
  exact within_get.bind fun _ => .ite ((idle_releaseHandle world).bind fun _ => hdrop) hdrop

/-! ## Joining -/

theorem idle_expectedNames : Within idle (expectedNames world) := by
  refine within_get.bind fun s => ?_
  cases s.expected with
  | some => exact within_pure _
  | none => exact (within_call world fun _ _ => .log trivial).bind fun _ => within_get.bind fun _ => within_pure _

theorem idle_checkGroupings (plan : ReshardPlan) : Within idle (checkGroupings plan) := by
  refine within_get.bind fun s => ?_
  cases s.groupings with
  | none => exact within_pure _
  | some => exact within_check _

theorem idle_captureEngine : Within idle (captureEngine world config) := by
  refine (within_call world fun _ _ => .log trivial).bind fun _ => within_get.bind fun _ => ?_
  refine .ite (within_throw _) ((idle_expectedNames world).bind fun _ => ?_)
  refine (within_check _).bind fun _ => (idle_checkGroupings _).bind fun _ => ?_
  exact within_modify fun _ => .change ⟨rfl, rfl, rfl⟩

theorem idle_checkMembership (declared : List LaneDeclaration) (membership : Membership) :
    Within idle (checkMembership config declared membership) := by
  refine .ite (within_throw _) ((within_require _).bind fun _ => ?_)
  exact .ite (within_throw _) (within_pure _)

variable (membership : Membership)

theorem idle_publishBootstraps : Within idle (publishBootstraps world membership) := by
  refine .ite ?_ (within_pure _)
  refine (Within.forM fun _ _ => within_call world fun _ _ => .log trivial).bind fun _ => ?_
  exact (within_require _).bind fun _ => Within.ite (within_call world fun _ _ => .log trivial) (within_pure _)

theorem idle_awaitGroup (declared : List LaneDeclaration) : Within idle (awaitGroup world config declared) := by
  refine (within_call world fun _ _ => .log trivial).bind fun _ => within_get.bind fun _ => ?_
  exact .ite (within_throw _) (.ite (within_throw _) (within_pure _))

theorem idle_createMine (record : ReadyLane) (laneId : ℕ) :
    Within idle (createMine world membership record laneId) := by
  unfold createMine
  split
  · exact within_pure _
  · refine within_get.bind fun s => ?_
    cases s.lanes.lookup _ with
    | some => exact .ite (within_pure _) (within_throw _)
    | none => exact (within_call world fun _ _ => .log trivial).bind fun _ => within_modify fun _ => .change ⟨rfl, rfl, rfl⟩

theorem idle_bootstrapLane (ready : List ReadyLane) (laneId : ℕ) :
    Within idle (bootstrapLane world membership ready laneId) := by
  refine (within_require _).bind fun _ => (idle_createMine world _ _ _).bind fun _ => ?_
  refine (within_call world fun _ _ => .log trivial).bind fun _ => (within_require _).bind fun _ => ?_
  exact within_get.bind fun _ => .ite (within_throw _) (within_call world fun _ _ => .log trivial)

theorem idle_buildHalf (plan : ReshardPlan) (specs : List String) (membership : Membership) :
    Within idle (buildHalf config plan specs membership) := by
  refine within_get.bind fun _ => (within_check _).bind fun _ => ?_
  refine .bind (within_modify fun _ => .change ⟨rfl, rfl, rfl⟩) fun _ => ?_
  exact within_get.bind fun _ => (within_check _).bind fun _ => idle_modifyHalf _

theorem idle_setupLayerGroups (groupings : Option (List (List String))) :
    Within idle (setupLayerGroups groupings) :=
  within_get.bind fun _ => .ite (within_throw _) (within_modify fun _ => .change ⟨rfl, rfl, rfl⟩)

theorem idle_initializeEngine (sourcePartition : ℕ) (expected : Option (List String)) :
    Within idle (initializeEngine world config sourcePartition expected) := by
  have hset : Within idle (do
      modify ({ · with engine := true, sourcePartition, expected })
      captureEngine world config) :=
    .bind (within_modify fun _ => .change ⟨rfl, rfl, rfl⟩) fun _ => idle_captureEngine world config
  refine .ite (.ite (within_throw _) ?_) hset
  refine (within_require _).bind fun _ => (within_require _).bind fun _ => ?_
  exact .ite (within_throw _) hset

end

end ModelExpress.M2n
