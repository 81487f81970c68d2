/-
  ModelExpress collective refit — what is left behind by an epoch.
-/
import ModelExpress.Collective.Completion

namespace ModelExpress.Collective

open Checks

/-! ## Calls that name another epoch -/

variable {s : Store} {root : Root} {spec : CollectiveGroupSpec}

theorem publishCall_stale {request : PublishGroupBootstrapRequest}
    (hr : (s.groups request.groupId).root = some root) (he : request.epoch.toNat ≠ root.epoch) :
    (publishCall request s).1.isRefused = true ∧ (publishCall request s).2 = s := by
  unfold publishCall
  cases validatePublish request with
  | error => exact ⟨rfl, rfl⟩
  | ok u =>
    simp only [hr]
    cases hl : decodeLanes root.lanes with
    | error e => exact ⟨rfl, rfl⟩
    | ok lanes =>
      simp only
      cases leaderSlot lanes request.laneId with
      | none => exact ⟨rfl, rfl⟩
      | some leader =>
        simp only
        split_ifs with hm
        · have hscript : publishScript s.workers (lanes.map (·.laneId)) (publishArgs request leader)
              (s.groups request.groupId) = (.stale root.epoch, s.groups request.groupId) := by
            unfold publishScript
            simp only [hr]
            rw [if_pos (show (publishArgs request leader).epoch ≠ root.epoch from he)]
          rw [hscript]
          exact ⟨rfl, by rw [Function.update_eq_self]⟩
        · exact ⟨rfl, rfl⟩

theorem createFresh_stale {a : CreateArgs}
    (hr : (s.groups a.groupId).root = some root) (he : root.epoch ≠ a.expectedEpoch) :
    (createFresh a s).2 = s ∧ (createReply a s (createFresh a s).1).isRefused = true := by
  unfold createFresh
  by_cases hop : (s.ops a.operationId).isSome = true
  · rw [if_pos hop]
    exact ⟨rfl, rfl⟩
  · rw [if_neg hop]
    simp only [hr]
    rw [if_pos (Or.inr he)]
    exact ⟨rfl, rfl⟩

def Store.reservedFor (s : Store) (modelName idempotencyKey id : String) (op : Operation) : Prop :=
  s.requests (operationIdempotencyKey modelName idempotencyKey) = some id ∧ s.ops id = some op

theorem createCall_stale {sha256 : List UInt8 → List UInt8} {request : CreateCollectiveTransferRequest}
    (hinv : OpsInv s) (operationId : String)
    (hspec : request.spec = some spec) (hr : (s.groups (groupIdFor sha256 spec)).root = some root)
    (he : root.epoch ≠ request.expectedEpoch.toNat) :
    (createCall sha256 request operationId s).2 = s ∧
      ((createCall sha256 request operationId s).1.isRefused = true ∨
        ∃ id op, s.reservedFor spec.modelName request.idempotencyKey id op ∧
          (createCall sha256 request operationId s).1 = .transfer id op) := by
  unfold createCall
  cases hv : validateCreate request with
  | error => exact ⟨rfl, Or.inl rfl⟩
  | ok spec' =>
    obtain rfl : spec' = spec := by
      simp only [validateCreate, bind_eq_ok, Except.ok.injEq] at hv
      obtain ⟨_, hspec₁, -, -, -, -, -, -, rfl⟩ := hv
      exact Option.some.inj ((validateSpec_ok hspec₁).1.symm.trans hspec)
    simp only
    cases layoutFor spec' with
    | error e => exact ⟨rfl, Or.inl rfl⟩
    | ok =>
      simp only
      have ha : (createArgs sha256 spec' request operationId).requestKey =
          operationIdempotencyKey spec'.modelName request.idempotencyKey := rfl
      unfold createScript
      cases hk : s.requests (createArgs sha256 spec' request operationId).requestKey with
      | none =>
        obtain ⟨hs, hrefused⟩ := createFresh_stale (a := createArgs sha256 spec' request operationId) hr he
        simp only
        rw [hs]
        exact ⟨rfl, Or.inl hrefused⟩
      | some id =>
        -- the reservation leads to an operation, so nothing is cleaned up
        obtain ⟨op, hop, -⟩ := hinv.reserved _ id hk
        simp only [hop, Option.isSome_some, if_true]
        refine ⟨trivial, ?_⟩
        simp only [createReply, existingReply, hop]
        split_ifs
        · exact Or.inr ⟨id, op, ⟨ha ▸ hk, hop⟩, rfl⟩
        · exact Or.inl rfl

/-! ## Dead transfers -/

/-- The epoch of a group is over: nothing carries it, and no call can use it. -/
structure EpochOver (D : Deployment) (s : Store) (groupId : String) (epoch : ℕ) : Prop where
  past : ∃ root, (s.groups groupId).root = some root ∧ epoch < root.epoch
  lanes : ∀ i lane, (s.groups groupId).lanes i = some lane → lane.bootstrapEpoch ≠ epoch
  ready : ∀ root, (s.groups groupId).root = some root → root.state = .ready → root.epoch ≠ epoch
  publish : ∀ request : PublishGroupBootstrapRequest, request.groupId = groupId →
    request.epoch.toNat = epoch →
    (publishCall request s).1.isRefused = true ∧ (publishCall request s).2 = s
  create : ∀ (request : CreateCollectiveTransferRequest) (spec : CollectiveGroupSpec)
    (operationId : String), request.spec = some spec → groupIdFor D.sha256 spec = groupId →
    request.expectedEpoch.toNat = epoch → (createCall D.sha256 request operationId s).2 = s ∧
      ((createCall D.sha256 request operationId s).1.isRefused = true ∨
        ∃ id op, s.reservedFor spec.modelName request.idempotencyKey id op ∧
          (createCall D.sha256 request operationId s).1 = .transfer id op)

theorem epochOver_of_lt {D : Deployment} {groupId : String}
    {epoch : ℕ} (hinv : OpsInv s) (hr : (s.groups groupId).root = some root)
    (h : Present D groupId spec (s.groups groupId) root) (hlt : epoch < root.epoch) :
    EpochOver D s groupId epoch where
  past := ⟨root, hr, hlt⟩
  lanes := fun i lane hl => by
    have he := (h.shape.lanes i lane hl).2
    omega
  ready := fun _ hr' _ => by
    cases hr.symm.trans hr'
    omega
  publish := by
    rintro request rfl rfl
    exact publishCall_stale hr hlt.ne
  create := by
    rintro _ spec operationId hspec rfl rfl
    exact createCall_stale hinv operationId hspec hr hlt.ne'

/-- **The epoch of a failed or aborted transfer is over, from then on.** -/
theorem dead_transfer_fenced (D : Deployment) (es₁ es₂ : List D.Event) (hp : es₁ <+: es₂) (id : String)
    (op : Operation) (hop : (D.run es₁).ops id = some op) (hdead : op.state = .failed ∨ op.state = .aborted) :
    EpochOver D (D.run es₂) op.groupId op.epoch := by
  obtain ⟨root, hr, hplaced⟩ := (D.opsInv es₁).placed id op hop
  obtain ⟨spec, h⟩ := (D.groupInv es₁ op.groupId).present root hr
  obtain ⟨_, hr', h', hle⟩ := D.epoch_mono hp hr h
  exact epochOver_of_lt (D.opsInv es₂) hr' h' ((hplaced.past hdead).trans_le hle)

def pairFailed : List pairDeployment.Event :=
  pairFormed ++ [pairCreate "k" 1 "x", pairReport "x" "a" false]

def pairDead : Operation := ⟨pairId, 1, "v1", "m", "k", .failed, "lost"⟩

theorem dead_transfer_fenced_pair :
    (pairDeployment.run pairFailed).ops "x" = some pairDead ∧
    EpochOver pairDeployment
      (pairDeployment.run (pairFailed ++ [pairJoin "g0" "b" 2 0 none])) pairId 1 := by
  have hop : (pairDeployment.run pairFailed).ops "x" = some pairDead := by decide +kernel
  exact ⟨hop, dead_transfer_fenced pairDeployment pairFailed
    (pairFailed ++ [pairJoin "g0" "b" 2 0 none]) (List.prefix_append ..) "x" pairDead hop (Or.inl rfl)⟩

def pairRequest : CreateCollectiveTransferRequest := ⟨some pairSpec, "v1", "k", 1⟩

/-- That request is repeated: it is answered, not refused. -/
theorem create_replayed :
    (pairDeployment.run pairFailed).ops "x" = some pairDead ∧
    createCall pairDeployment.sha256 pairRequest "y" (pairDeployment.run pairFailed) =
      (.transfer "x" pairDead, pairDeployment.run pairFailed) ∧
    (Reply.transfer "x" pairDead).isRefused = false := by
  obtain ⟨root, hr, he, hop, hreply⟩ : ∃ root, ((pairDeployment.run pairFailed).groups
      (groupIdFor pairDeployment.sha256 pairSpec)).root = some root ∧ root.epoch = 2 ∧
      (pairDeployment.run pairFailed).ops "x" = some pairDead ∧
      (createCall pairDeployment.sha256 pairRequest "y" (pairDeployment.run pairFailed)).1 =
        .transfer "x" pairDead := exists_root_of_any (by decide +kernel)
  have hne : root.epoch ≠ pairRequest.expectedEpoch.toNat := by
    rw [he]
    decide
  have hspec : pairRequest.spec = some pairSpec := rfl
  have hsame := (createCall_stale (pairDeployment.opsInv pairFailed) "y" hspec hr hne).1
  generalize pairDeployment.run pairFailed = s at hop hreply hsame ⊢
  exact ⟨hop, Prod.ext hreply hsame, rfl⟩

/-! ## Refused joins -/

def Group.bootstrapped (g : Group) : Prop :=
  ∃ root, g.root = some root ∧ (root.state = .ready ∨ ∃ i, stamped g root.epoch i = true)

/-- The group, by lookups, and the operations are the same. -/
structure Unchanged (c c' : Cell) : Prop where
  group : Quiet c.group c'.group
  activeOps : c'.group.activeOps = c.group.activeOps
  ops : c'.ops = c.ops

def Drops (c c' : Cell) : Prop := ∃ slot, slot ∈ c.group.participants ∧ slot ∉ c'.group.participants

/-- The epoch has moved, the declared lanes are gone and the operations in flight are aborted. -/
structure Advanced (laneIds : List UInt32) (c c' : Cell) : Prop where
  epoch : ∃ root root', c.group.root = some root ∧ c'.group.root = some root' ∧ root.epoch < root'.epoch
  lanes : ∀ i ∈ laneIds, c'.group.lanes i = none
  ops : ∀ id ∈ c.group.activeOps, c'.ops id = (c.ops id).map Operation.abort

/-- The join changes nothing, or does not drop a participant of a bootstrapped group without moving
    its epoch. -/
def Harmless (workers : Workers) (a : JoinArgs) (c : Cell) : Prop :=
  Unchanged c (joinScript workers a c).2 ∨
    (Drops c (joinScript workers a c).2 ∧ c.group.bootstrapped →
      Advanced a.laneIds c (joinScript workers a c).2)

/-- The join passes the first checks, finds a lapsed participant in a bootstrapped group and conflicts
    with a live one. -/
structure SweptThenRefused (workers : Workers) (a : JoinArgs) (g : Group) : Prop where
  admissible : joinPrecheck workers a = none
  lapsed : ∃ slot, g.lapsed workers a.modelName slot
  conflict : Conflicts workers a g
  bootstrapped : g.bootstrapped

section
variable {workers : Workers} {a : JoinArgs} {c : Cell}

theorem Swept.drops {g g' : Group} {dropped owners : String → Prop} (h : Swept g g' dropped owners)
    {slot : String} (hm : slot ∈ g.participants) (hn : slot ∉ g'.participants) : dropped slot := by
  by_contra hd
  rw [Assoc.notMem_iff_lookup, (h.kept slot hd).1, ← Assoc.notMem_iff_lookup (s := g.participants)] at hn
  exact hn hm

theorem JoinStep.swept_of_refused {o : JoinOutcome} {c' : Cell} (h : JoinStep workers a c (o, c'))
    (ho : ∀ epoch state, o ≠ .ok epoch state) :
    (c' = c ∧ joinPrecheck workers a ≠ none) ∨ (joinPrecheck workers a = none ∧
      Conflicts workers a c.group ∧ c'.ops = c.ops ∧ (∃ root, c.group.root = some root) ∧
      Swept c.group c'.group (c.group.lapsed workers a.modelName)
        (c.group.lapsedWorker workers a.modelName)) := by
  cases h with
  | refused hpre =>
    left
    rw [hpre]
    exact ⟨rfl, Option.some_ne_none _⟩
  | created _ _ _ ha => exact absurd ha.outcome (ho _ _)
  | rejected hpre hr hc _ hs => exact Or.inr ⟨hpre, hc, rfl, ⟨_, hr⟩, hs⟩
  | joined _ _ _ _ _ _ ha | bumped _ _ _ _ _ _ ha => exact absurd ha.outcome (ho _ _)

theorem SweptThenRefused.not_harmless (h : SweptThenRefused workers a c.group)
    (ho : ∀ epoch state, (joinScript workers a c).1 ≠ .ok epoch state) : ¬ Harmless workers a c := by
  have hstep := joinScript_step workers a c
  unfold Harmless
  generalize joinScript workers a c = r at ho hstep ⊢
  obtain ⟨o, c'⟩ := r
  rcases hstep.swept_of_refused ho with ⟨-, hpre⟩ | ⟨-, -, -, ⟨root, hr⟩, hs⟩
  · exact absurd h.admissible hpre
  · obtain ⟨slot, hl⟩ := h.lapsed
    obtain ⟨record, hrec, -⟩ := id hl
    have hm : slot ∈ c.group.participants := Assoc.mem_iff_lookup.2 ⟨record, hrec⟩
    have hgone : slot ∉ c'.group.participants := Assoc.notMem_iff_lookup.2 (hs.gone slot hl).1
    rintro (hun | himp)
    · exact hgone (hun.group.mem.2 hm)
    · obtain ⟨_, _, hr₀, hr', hlt⟩ := (himp ⟨⟨slot, hm, hgone⟩, h.bootstrapped⟩).epoch
      have heq := hs.epoch_eq hr₀ hr'
      omega

/-- **A refused join is harmless unless it sweeps a bootstrapped group first.** -/
theorem refused_join_harmless_iff (workers : Workers) (a : JoinArgs) (c : Cell)
    (ho : ∀ epoch state, (joinScript workers a c).1 ≠ .ok epoch state) :
    Harmless workers a c ↔ ¬ SweptThenRefused workers a c.group := by
  refine ⟨fun hh h => h.not_harmless ho hh, fun hn => ?_⟩
  have hstep := joinScript_step workers a c
  unfold Harmless
  generalize joinScript workers a c = r at ho hstep ⊢
  obtain ⟨o, c'⟩ := r
  rcases hstep.swept_of_refused ho with ⟨rfl, -⟩ | ⟨hpre, hc, -, -, hs⟩
  · exact Or.inl ⟨.refl _, rfl, rfl⟩
  · right
    rintro ⟨⟨slot, hm, hgone⟩, hb⟩
    exact absurd ⟨hpre, ⟨slot, hs.drops hm hgone⟩, hc, hb⟩ hn

end

def pairMisplaced : JoinArgs where
  groupId := pairId
  modelName := "m"
  lanes := lanesFromSpec pairSpec
  expectedTotal := 2
  slotId := "t0"
  workerId := "a"
  role := .trainer
  indexInRole := 5
  planDigest := "d"
  planSource := .default
  expectedTrainerSlots := "t0"
  expectedGeneratorSlots := "g0"

def pairCell (es : List pairDeployment.Event) : Cell :=
  ⟨(pairDeployment.run es).groups pairId, (pairDeployment.run es).ops⟩

theorem conflictingAssignment_ne_ok (epoch : ℕ) (state : CollectiveGroupState) :
    JoinOutcome.conflictingAssignment ≠ .ok epoch state := by
  rintro ⟨⟩

theorem refused_join_harmless_iff_pair :
    (joinScript (pairDeployment.run pairFormed).workers pairMisplaced (pairCell pairFormed)).1 =
      .conflictingAssignment ∧
    (Harmless (pairDeployment.run pairFormed).workers pairMisplaced (pairCell pairFormed) ↔
      ¬ SweptThenRefused (pairDeployment.run pairFormed).workers pairMisplaced
        (pairCell pairFormed).group) := by
  have ho : (joinScript (pairDeployment.run pairFormed).workers pairMisplaced (pairCell pairFormed)).1 =
      .conflictingAssignment := by decide +kernel
  refine ⟨ho, refused_join_harmless_iff _ _ _ fun epoch state => ?_⟩
  rw [ho]
  exact conflictingAssignment_ne_ok epoch state

def pairExpired : List pairDeployment.Event := pairFormed ++ [pairRegister "b" none]

theorem refused_join_disturbs :
    (joinScript (pairDeployment.run pairExpired).workers pairMisplaced (pairCell pairExpired)).1 =
      .conflictingAssignment ∧
    ¬ Harmless (pairDeployment.run pairExpired).workers pairMisplaced (pairCell pairExpired) := by
  obtain ⟨root, hr, hst, ho, hpre, hlapsed, hslot⟩ : ∃ root,
      (pairCell pairExpired).group.root = some root ∧ root.state = .ready ∧
      (joinScript (pairDeployment.run pairExpired).workers pairMisplaced (pairCell pairExpired)).1 =
        .conflictingAssignment ∧
      joinPrecheck (pairDeployment.run pairExpired).workers pairMisplaced = none ∧
      (sweepExpired (pairDeployment.run pairExpired).workers "m" (pairCell pairExpired).group).2 = true ∧
      slotConflict pairMisplaced (sweepExpired (pairDeployment.run pairExpired).workers "m"
        (pairCell pairExpired).group).1 = some .conflictingAssignment :=
    exists_root_of_any (by decide +kernel)
  have hconflict : Conflicts (pairDeployment.run pairExpired).workers pairMisplaced
      (pairCell pairExpired).group := by
    by_contra hn
    have hnone := ((not_conflicts_iff (sweepExpired_swept _ _ _)).1 hn).1
    rw [show pairMisplaced.modelName = "m" from rfl, hslot] at hnone
    cases hnone
  refine ⟨ho, SweptThenRefused.not_harmless ⟨hpre, (sweepExpired_dropped _ _).1 hlapsed, hconflict,
    root, hr, Or.inl hst⟩ fun epoch state => ?_⟩
  rw [ho]
  exact conflictingAssignment_ne_ok epoch state

end ModelExpress.Collective
