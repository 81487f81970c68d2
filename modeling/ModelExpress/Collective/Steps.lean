/-
  ModelExpress collective refit — what one event can do to the keyspace.
-/
import ModelExpress.Collective.Outcomes

namespace ModelExpress.Collective

open Text Checks List Function

/-! ## Validated requests -/

structure JoinRequest (D : Deployment) (a : JoinArgs) (spec : CollectiveGroupSpec) : Prop where
  declared : spec ∈ D.specs
  decl : DeclOk spec
  groupId : a.groupId = groupIdFor D.sha256 spec
  modelName : a.modelName = spec.modelName
  lanes : a.lanes = lanesFromSpec spec
  expectedTotal : a.expectedTotal.toNat = spec.slots.length
  trainers : a.expectedTrainerSlots = join '\n' spec.expectedTrainerSlots
  generators : a.expectedGeneratorSlots = join '\n' spec.expectedGeneratorSlots
  role : a.role ≠ .unspecified
  worker_nonblank : ¬ isBlank a.workerId
  worker_free : '|' ∉ a.workerId.toList
  source_digest : a.planSource.workerId ≠ "" → a.planSource.digest = a.planDigest

structure CreateRequest (D : Deployment) (a : CreateArgs) (spec : CollectiveGroupSpec) : Prop where
  declared : spec ∈ D.specs
  decl : DeclOk spec
  groupId : a.groupId = groupIdFor D.sha256 spec
  modelName : a.modelName = spec.modelName
  requestKey : a.requestKey = operationIdempotencyKey spec.modelName a.idempotencyKey

structure JoinValid (request : JoinCollectiveGroupRequest) (spec : CollectiveGroupSpec)
    (role : CollectiveRole) : Prop where
  declared : request.spec = some spec
  ok : SpecOk spec
  worker_nonblank : ¬ isBlank request.workerId
  worker_free : '|' ∉ request.workerId.toList
  specified : role = CollectiveRole.ofCode request.role ∧ role ≠ .unspecified
  source : ∀ source ∈ request.planSource, source.digest = request.planDigest ∧
    source.workerId = request.workerId ∧ role = .trainer ∧ request.indexInRole = 0

variable {spec : CollectiveGroupSpec} {request : JoinCollectiveGroupRequest} {role : CollectiveRole}
  {layout : LaneLayout}

theorem validateJoin_ok (h : validateJoin request = .ok (spec, role)) : JoinValid request spec role := by
  simp only [validateJoin, bind_eq_ok, required, delimiterFree, ensure_eq_ok, forM_eq_ok,
    validatePlanSource, Except.ok.injEq, Prod.mk.injEq] at h
  obtain ⟨_, hspec, -, -, -, hw, -, -, -, -, -, hfree, -, hrole, -, hsrc, rfl, rfl⟩ := h
  obtain ⟨hs, hok⟩ := validateSpec_ok hspec
  refine ⟨hs, hok, hw, hfree _ (by simp), ⟨rfl, hrole⟩, fun source hmem => ?_⟩
  obtain ⟨-, -, -, -, -, -, -, hd, -, hw, hrole, hidx⟩ := hsrc source (by simpa using hmem)
  exact ⟨hd, hw, hrole, hidx⟩

theorem expectedTotal_eq (hl : layoutFor spec = .ok layout) (hm : withinMessage spec) :
    (saturateU32 (layout.trainerCount.toNat + layout.generatorCount.toNat)).toNat =
      spec.slots.length := by
  obtain ⟨-, -, ht, hg, -⟩ := LaneLayout.new_ok (mapError_eq_ok.1 hl)
  unfold withinMessage maxMessageSize at hm
  have ht' := saturateU32_toNat (n := spec.expectedTrainerSlots.length) (by omega)
  have hg' := saturateU32_toNat (n := spec.expectedGeneratorSlots.length) (by omega)
  rw [ht, hg, ht', hg', saturateU32_toNat (by omega), CollectiveGroupSpec.slots, length_append]

variable {D : Deployment}

theorem joinRequest_of_valid
    (hv : JoinValid request spec role) (hl : layoutFor spec = .ok layout) (hD : spec ∈ D.specs) :
    JoinRequest D (joinArgs D.sha256 spec layout role request) spec := by
  refine ⟨hD, layoutFor_ok hv.ok hl, rfl, rfl, ?_, expectedTotal_eq hl (D.decoded spec hD), rfl, rfl,
    hv.specified.2, hv.worker_nonblank, hv.worker_free, fun hs => ?_⟩
  · exact (LaneLayout.new_ok (mapError_eq_ok.1 hl)).2.1
  · simp only [joinArgs] at hs ⊢
    cases hsrc : request.planSource with
    | none => rw [hsrc] at hs; exact absurd rfl hs
    | some source => exact (hv.source source hsrc).1

def Prepares (sha256 : List UInt8 → List UInt8) (request : JoinCollectiveGroupRequest) (a : JoinArgs) :
    Prop :=
  ∃ spec role layout assignments, validateJoin request = .ok (spec, role) ∧
    layoutFor spec = .ok layout ∧ layout.assign request.slotId = .ok assignments ∧
    a = joinArgs sha256 spec layout role request

/-- The slots the join may take: those of its role. -/
def roleSlots (spec : CollectiveGroupSpec) (role : CollectiveRole) : List String :=
  if role.text = "TRAINER" then spec.expectedTrainerSlots else spec.expectedGeneratorSlots

variable {a : JoinArgs} {workers : Workers}

section
variable (h : JoinRequest D a spec)
include h

theorem JoinRequest.containsSlot_iff
    : containsSlot (if a.role.text = "TRAINER" then a.expectedTrainerSlots
      else a.expectedGeneratorSlots) a.slotId = true ↔ a.slotId ∈ roleSlots spec a.role := by
  have hsplit : ∀ {slots : List String}, slots ≠ [] → (∀ s ∈ slots, SlotOk s) →
      split '\n' (join '\n' slots) = slots := fun hne hs =>
    split_join hne fun s hm => (hs s hm).notMem (by decide)
  unfold containsSlot roleSlots
  rw [decide_eq_true_eq, h.trainers, h.generators]
  split_ifs with ht
  · rw [hsplit h.decl.trainers_ne fun s hs => h.decl.slot s (mem_append_left _ hs)]
  · rw [hsplit h.decl.generators_ne fun s hs => h.decl.slot s (mem_append_right _ hs)]

theorem JoinRequest.precheck_iff
    : joinPrecheck workers a = none ↔
      a.slotId ∈ roleSlots spec a.role ∧
      registrationMatches workers a.workerId a.role.text a.modelName = true ∧
      (a.planSource.workerId ≠ "" → a.role.text = "TRAINER" ∧ decimal a.indexInRole.toNat = "0" ∧
        a.planSource.workerId = a.workerId) := by
  rw [← h.containsSlot_iff]
  unfold joinPrecheck
  constructor
  · intro hpre
    simp only at hpre
    by_cases h₁ : containsSlot (if a.role.text = "TRAINER" then a.expectedTrainerSlots
      else a.expectedGeneratorSlots) a.slotId = true
    · by_cases h₂ : registrationMatches workers a.workerId a.role.text a.modelName = true
      · rw [if_neg (not_not.2 h₁), if_neg (not_not.2 h₂)] at hpre
        refine ⟨h₁, h₂, fun hs => ?_⟩
        by_contra hc
        rw [if_pos ⟨hs, (not_and_or.1 hc).imp_right not_and_or.1⟩] at hpre
        cases hpre
      · rw [if_neg (not_not.2 h₁), if_pos h₂] at hpre
        cases hpre
    · rw [if_pos h₁] at hpre
      cases hpre
  · rintro ⟨h₁, h₂, h₃⟩
    simp only
    rw [if_neg (not_not.2 h₁), if_neg (not_not.2 h₂), if_neg ?_]
    rintro ⟨hs, hc⟩
    obtain ⟨h₄, h₅, h₆⟩ := h₃ hs
    rcases hc with hc | hc | hc
    · exact hc h₄
    · exact hc h₅
    · exact hc h₆

theorem JoinRequest.slot_mem (hpre : joinPrecheck workers a = none) : a.slotId ∈ spec.slots := by
  have hm := (h.precheck_iff.1 hpre).1
  unfold roleSlots at hm
  split_ifs at hm
  · exact mem_append_left _ hm
  · exact mem_append_right _ hm

end

/-! ## Steps -/

variable (D : Deployment) (s : Store) in
inductive StoreStep : Event → Store → Prop
  | idle (e : Event) : StoreStep e s
  | register (workerId : String) (registration : Option Registration) :
      StoreStep (.register workerId registration)
        { s with workers := update s.workers workerId registration }
  | expireRequest (requestKey : String) :
      StoreStep (.expireRequest requestKey)
        { s with requests := update s.requests requestKey none }
  | rehash {groupId : String} {participants digests : Hash}
      (hp : participants.entries.Perm (s.groups groupId).participants.entries)
      (hd : digests.entries.Perm (s.groups groupId).digests.entries) :
      StoreStep (.rehash groupId participants digests) { s with
        groups := update s.groups groupId
          { s.groups groupId with participants := participants, digests := digests } }
  | join {request : JoinCollectiveGroupRequest} {spec : CollectiveGroupSpec} {a : JoinArgs}
      {o : JoinOutcome} {c : Cell} (hprep : Prepares D.sha256 request a) (hreq : JoinRequest D a spec)
      (hstep : JoinStep s.workers a ⟨s.groups a.groupId, s.ops⟩ (o, c)) :
      StoreStep (.join request)
        { s with groups := update s.groups a.groupId c.group, ops := c.ops }
  | refresh {groupId : String} {root : Root} {lanes : List Lane} {o : RefreshOutcome} {c : Cell}
      (hr : (s.groups groupId).root = some root) (hl : decodeLanes root.lanes = .ok lanes)
      (hstep : RefreshStep s.workers (lanes.map (·.laneId)) ⟨s.groups groupId, s.ops⟩ (o, c)) :
      StoreStep (.refresh groupId)
        { s with groups := update s.groups groupId c.group, ops := c.ops }
  | publish {request : PublishGroupBootstrapRequest} {root : Root} {lanes : List Lane}
      {leader : String} {o : PublishOutcome} {g : Group}
      (hr : (s.groups request.groupId).root = some root) (hl : decodeLanes root.lanes = .ok lanes)
      (hlead : leaderSlot lanes request.laneId = some leader)
      (hstep : PublishStep s.workers (lanes.map (·.laneId)) (publishArgs request leader)
        (s.groups request.groupId) (o, g)) :
      StoreStep (.publish request)
        { s with groups := update s.groups request.groupId g }
  | create {request : CreateCollectiveTransferRequest} {operationId : String}
      {spec : CollectiveGroupSpec} {a : CreateArgs} {o : CreateOutcome} {s' : Store}
      (hreq : CreateRequest D a spec) (hstep : CreateStep a s (o, s')) :
      StoreStep (.create request operationId) s'
  | report {request : ReportCollectiveTransferRequest} {root : Root} {lanes : List Lane}
      {o : ReportOutcome} {s' : Store} (hr : (s.groups request.groupId).root = some root)
      (hl : decodeLanes root.lanes = .ok lanes)
      (hstep : ReportStep (lanes.map (·.laneId)) (reportArgs request) s (o, s')) :
      StoreStep (.report request) s'
  | delete {operationId : String} {op : Operation} {o : DeleteOutcome} {s' : Store}
      (hop : s.ops operationId = some op)
      (hstep : DeleteStep operationId (operationIdempotencyKey op.modelName op.idempotencyKey)
        op.groupId s (o, s')) : StoreStep (.delete operationId) s'

section
variable {D : Deployment} (s : Store)

theorem joinCall_step (hD : ∀ spec ∈ request.spec.toList, spec ∈ D.specs) :
    StoreStep D s (.join request) (joinCall D.sha256 request s).2 := by
  fun_cases joinCall D.sha256 request s
  case case4 spec role hv layout hl assignments has a r =>
    have hvalid := validateJoin_ok hv
    exact .join ⟨spec, role, layout, assignments, hv, hl, has, rfl⟩
      (joinRequest_of_valid hvalid hl (hD spec (by simp [hvalid.declared]))) (joinScript_step s.workers _ _)
  all_goals exact .idle _

theorem refreshCall_step (groupId : String) : StoreStep D s (.refresh groupId) (refreshCall groupId s).2 := by
  fun_cases refreshCall groupId s
  case case3 root hr lanes hl r => exact .refresh hr hl (refreshScript_step s.workers _ _)
  all_goals exact .idle _

theorem publishCall_step (request : PublishGroupBootstrapRequest) :
    StoreStep D s (.publish request) (publishCall request s).2 := by
  fun_cases publishCall request s
  case case6 root hr lanes hl leader hlead hm r => exact .publish hr hl hlead (publishScript_step s.workers _ _ _)
  all_goals exact .idle _

theorem createCall_step {request : CreateCollectiveTransferRequest} (operationId : String)
    (hD : ∀ spec ∈ request.spec.toList, spec ∈ D.specs) :
    StoreStep D s (.create request operationId) (createCall D.sha256 request operationId s).2 := by
  fun_cases createCall D.sha256 request operationId s
  case case3 spec hv layout hl a r =>
    simp only [validateCreate, bind_eq_ok, Except.ok.injEq] at hv
    obtain ⟨spec', hspec, -, -, -, -, -, -, rfl⟩ := hv
    obtain ⟨hs, hok⟩ := validateSpec_ok hspec
    exact .create (a := createArgs D.sha256 spec' request operationId)
      ⟨hD spec' (by simp [hs]), layoutFor_ok hok hl, rfl, rfl, rfl⟩ (createScript_step _ s)
  all_goals exact .idle _

theorem reportCall_step (request : ReportCollectiveTransferRequest) :
    StoreStep D s (.report request) (reportCall request s).2 := by
  fun_cases reportCall request s
  case case4 root hr lanes hl r => exact .report hr hl (reportScript_step _ _ s)
  all_goals exact .idle _

theorem deleteCall_step (operationId : String) :
    StoreStep D s (.delete operationId) (deleteCall operationId s).2 := by
  fun_cases deleteCall operationId s
  case case4 op hop ht r => exact .delete hop (deleteScript_step _ _ _ s)
  all_goals exact .idle _

theorem next_step (e : D.Event) : StoreStep D s e.1 (D.next s e) := by
  obtain ⟨e, hD⟩ := e
  cases e with
  | register workerId registration => exact .register workerId registration
  | expireRequest requestKey => exact .expireRequest requestKey
  | rehash =>
    simp only [Deployment.next, step, rehash]
    split_ifs with h
    · exact .rehash h.1 h.2
    · rw [Function.update_eq_self]
      exact .idle _
  | join => exact joinCall_step s hD
  | refresh groupId => exact refreshCall_step s groupId
  | publish request => exact publishCall_step s request
  | create _ operationId => exact createCall_step s operationId hD
  | report request => exact reportCall_step s request
  | delete operationId => exact deleteCall_step s operationId

end

end ModelExpress.Collective
