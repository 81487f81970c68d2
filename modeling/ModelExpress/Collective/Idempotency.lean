/-
  ModelExpress collective refit — idempotent creation of transfers.
-/
import ModelExpress.Collective.Completion

namespace ModelExpress.Collective

open Text Function Option

/-! ## The reservation key -/

theorem operationIdempotencyKey_eq (modelName key : String) : operationIdempotencyKey modelName key =
    "mx:refitc:op-request:" ++ (decimal modelName.utf8ByteSize ++ ":" ++ modelName ++ key) := by
  unfold operationIdempotencyKey
  simp only [toString]
  rw [String.append_assoc, String.append_assoc, String.append_assoc, String.append_assoc,
    String.append_assoc]
  rfl

variable {key operationId : String}

/-! ## The interval -/

/-- The request passes validation, and these are the arguments its create script runs with. -/
def PreparesCreate (sha256 : List UInt8 → List UInt8) (request : CreateCollectiveTransferRequest)
    (operationId : String) (a : CreateArgs) : Prop :=
  ∃ spec layout, validateCreate request = .ok spec ∧ layoutFor spec = .ok layout ∧
    a = createArgs sha256 spec request operationId

variable {request : CreateCollectiveTransferRequest} {a : CreateArgs} {op : Operation} {D : Deployment} {e : D.Event}

theorem PreparesCreate.requestKey {sha256 : List UInt8 → List UInt8}
    (h : PreparesCreate sha256 request operationId a) :
    a.requestKey = operationIdempotencyKey a.modelName a.idempotencyKey := by
  obtain ⟨spec, _, -, -, rfl⟩ := h
  rfl

theorem PreparesCreate.next (h : PreparesCreate D.sha256 request operationId a)
    (he : e.1 = .create request operationId) (s : Store) : D.next s e = (createScript a s).2 := by
  obtain ⟨spec, _, hv, hl, rfl⟩ := h
  simp only [Deployment.next, he, step, createCall, hv, hl]

/-- The operation is the one this create opens, whatever became of it. -/
structure CreateArgs.Opened (a : CreateArgs) (op : Operation) : Prop where
  groupId : op.groupId = a.groupId
  epoch : op.epoch = a.expectedEpoch
  versionId : op.versionId = a.versionId
  modelName : op.modelName = a.modelName
  idempotencyKey : op.idempotencyKey = a.idempotencyKey

/-- The reservation of the create leads to its operation. -/
def Reserved (a : CreateArgs) (s : Store) : Prop :=
  s.requests a.requestKey = some a.operationId ∧ ∃ op, s.ops a.operationId = some op ∧ a.Opened op

/-- The step neither expires the reservation nor deletes the operation. -/
def Stands (D : Deployment) (a : CreateArgs) (s : Store) (e : D.Event) : Prop :=
  e.1 ≠ .expireRequest a.requestKey ∧ ((D.next s e).ops a.operationId).isSome = true

theorem Operation.abort_opened (h : a.Opened op) : a.Opened op.abort := by
  unfold Operation.abort
  split_ifs
  · exact h
  · exact ⟨h.groupId, h.epoch, h.versionId, h.modelName, h.idempotencyKey⟩

section
variable {D : Deployment} {s s' : Store} {e : Event} {a : CreateArgs}

theorem OpsStep.opened (h : OpsStep D s e s') {op' : Operation} (hop : s.ops a.operationId = some op)
    (ho : a.Opened op) (hop' : s'.ops a.operationId = some op') : a.Opened op' := by
  -- a report rewrites the state of its operation only
  have hreport : ∀ {r : ReportArgs} {op₁ op₂ : Operation} {root : Root}, Reporting r s op₁ root →
      (update s.ops r.operationId (some op₂)) a.operationId = some op' →
      (∀ a : CreateArgs, a.Opened op₁ → a.Opened op₂) → a.Opened op' := by
    intro r _ _ root hrep hup hsame
    rcases Assoc.update_cases hup with ⟨hid, ⟨⟩⟩ | ⟨-, hup⟩
    · obtain rfl := mem_unique (hid ▸ hop) hrep.stored
      exact hsame a ho
    · cases hop.symm.trans hup
      exact ho
  cases h with
  | same hops =>
    rw [hops, hop] at hop'
    cases hop'
    exact ho
  | fenced gid hops =>
    rw [hops] at hop'
    simp only [hop] at hop'
    split_ifs at hop'
    · cases hop'
      exact Operation.abort_opened ho
    · cases hop'
      exact ho
  | @created _ _ _ _ hnone _ _ _ hs' =>
    subst hs'
    obtain rfl := mem_unique hop' (Assoc.update_fresh hnone hop)
    exact ho
  | failed _ hrep hs' | counted _ hrep _ _ hs' =>
    subst hs'
    exact hreport hrep hop' fun a h => ⟨h.groupId, h.epoch, h.versionId, h.modelName, h.idempotencyKey⟩
  | @deleted _ _ _ _ _ hs' =>
    subst hs'
    obtain rfl := mem_unique hop (Assoc.of_update_none hop')
    exact ho

theorem StoreStep.requests (h : StoreStep D s e s') {id : String}
    (hk : s.requests key = some id) (hop : s.ops id = some op) (he : e ≠ .expireRequest key)
    (hstay : (s'.ops id).isSome = true) : s'.requests key = some id := by
  cases h with
  | idle | register => exact hk
  | expireRequest requestKey =>
    have hne : key ≠ requestKey := fun hkey => he (by rw [hkey])
    exact (update_of_ne hne ..).trans hk
  | rehash | join | refresh | publish => exact hk
  | @create _ _ _ _ _ _ _ hstep =>
    -- no create touches the key of an operation that exists
    cases hstep with
    | existing => exact hk
    | refused hr ho =>
      rcases hr with rfl | ⟨⟨id', hk', hnone⟩, rfl⟩
      · exact hk
      · refine (update_of_ne ?_ ..).trans hk
        rintro rfl
        cases hk.symm.trans hk'
        cases hop.symm.trans hnone
    | created hfree =>
      refine (update_of_ne ?_ ..).trans hk
      rintro rfl
      rw [hfree id hk] at hop
      cases hop
  | report hr hl hstep =>
    cases hstep with
    | idle | failed | complete | running => exact hk
  | @delete operationId _ _ _ _ hstep =>
    cases hstep with
    | idle => exact hk
    | deleted =>
      have hid : id ≠ operationId := by
        rintro rfl
        simp only [update_self, isSome_none, Bool.false_eq_true] at hstay
      simp only
      split_ifs with hown
      · refine (update_of_ne ?_ ..).trans hk
        rintro rfl
        exact hid (mem_unique hk hown)
      · exact hk

end

variable {a : CreateArgs} {s : Store}

theorem Reserved.next (h : Reserved a s) (he : Stands D a s e) : Reserved a (D.next s e) := by
  obtain ⟨hk, op, hop, ho⟩ := h
  have hstep := next_step s e
  obtain ⟨op', hop'⟩ := isSome_iff_exists.1 he.2
  exact ⟨hstep.requests hk hop he.1 he.2, op', hop', hstep.ops.opened hop ho hop'⟩

/-! ## The create script -/

theorem reserved_of_created (h : (createScript a s).1 = .created) : Reserved a (createScript a s).2 := by
  have hstep := createScript_step a s
  generalize createScript a s = r at h hstep ⊢
  cases hstep with
  | existing => cases h
  | refused hr ho => exact absurd h ho.1
  | created _ _ _ _ he =>
    exact ⟨update_self .., _, update_self .., rfl, he, rfl, rfl, rfl⟩

theorem Reserved.createScript {a a' : CreateArgs} (h : Reserved a s)
    (hkey : a'.requestKey = a.requestKey) : createScript a' s = (.existing a.operationId, s) := by
  obtain ⟨hk, op, hop, -⟩ := h
  simp [Collective.createScript, hkey, hk, hop]

def Store.reserve (s : Store) (key : String) (reservation : Option String) : Store :=
  { s with requests := Function.update s.requests key reservation }

theorem createFresh_reserve (a : CreateArgs) (s : Store) (hkey : key ≠ a.requestKey)
    (reservation : Option String) : createFresh a (s.reserve key reservation) =
      ((createFresh a s).1, (createFresh a s).2.reserve key reservation) := by
  have hgroup : (s.reserve key reservation).groups = s.groups := rfl
  have hops : (s.reserve key reservation).ops = s.ops := rfl
  rw [createFresh, hgroup, hops]
  fun_cases createFresh a s
  case case5 => simp only [*, openTransfer, Store.reserve, update_comm hkey]; simp
  all_goals simp only [*]; simp

theorem createScript_reserve (a : CreateArgs) (s : Store) (hkey : key ≠ a.requestKey)
    (reservation : Option String) : createScript a (s.reserve key reservation) =
      ((createScript a s).1, (createScript a s).2.reserve key reservation) := by
  have hsame : (s.reserve key reservation).requests a.requestKey = s.requests a.requestKey :=
    update_of_ne hkey.symm ..
  unfold createScript
  rw [hsame]
  cases hk : s.requests a.requestKey with
  | none => exact createFresh_reserve a s hkey reservation
  | some id =>
    simp only
    by_cases hid : (s.ops id).isSome = true
    · have hid' : ((s.reserve key reservation).ops id).isSome = true := hid
      rw [if_pos hid, if_pos hid']
    · have hid' : ¬ ((s.reserve key reservation).ops id).isSome = true := hid
      rw [if_neg hid, if_neg hid']
      have hcomm : (s.reserve key reservation).reserve a.requestKey none =
          (s.reserve a.requestKey none).reserve key reservation := by
        simp only [Store.reserve, update_comm hkey]
      change createFresh a ((s.reserve key reservation).reserve a.requestKey none) = _
      rw [hcomm]
      exact createFresh_reserve a (s.reserve a.requestKey none) hkey reservation

def CreateOutcome.refuses : CreateOutcome → Bool
  | .collision | .noGroup | .notReady .. | .busy _ => true
  | .created | .existing _ => false

/-- The operations, the active sets and the reservations of operations are the same. -/
structure Unspent (s s' : Store) : Prop where
  ops : s'.ops = s.ops
  groups : s'.groups = s.groups
  requests : ∀ key id, s.requests key = some id → (s.ops id).isSome = true → s'.requests key = some id

theorem unspent_of_refuses (h : (createScript a s).1.refuses = true) : Unspent s (createScript a s).2 := by
  have hstep := createScript_step a s
  generalize createScript a s = r at h hstep ⊢
  cases hstep with
  | existing => cases h
  | refused hr ho =>
    refine ⟨rfl, rfl, fun key id hk hid => ?_⟩
    rcases hr with rfl | ⟨⟨id', hk', hnone⟩, rfl⟩
    · exact hk
    · refine (update_of_ne ?_ ..).trans hk
      rintro rfl
      cases hk.symm.trans hk'
      rw [hnone] at hid
      cases hid
  | created => cases h

theorem OpsInv.createScript_refuses (hinv : OpsInv s)
    (h : (createScript a s).1.refuses = true) : (createScript a s).2 = s := by
  have hstep := createScript_step a s
  generalize createScript a s = r at h hstep ⊢
  cases hstep with
  | existing => cases h
  | refused hr ho =>
    rcases hr with rfl | ⟨⟨id, hk, hnone⟩, -⟩
    · rfl
    · obtain ⟨op, hop, -⟩ := hinv.reserved _ id hk
      cases hnone.symm.trans hop
  | created => cases h

/-- A create answers with the operation `id` as it is stored when the answer is read, or fails. -/
def Answers (a : CreateArgs) (id : String) (s : Store) : Prop :=
  (createReply a s (.existing id)).isRefused = true ∨
    ∃ op, s.ops id = some op ∧ createReply a s (.existing id) = .transfer id op

theorem answers_existing (a : CreateArgs) (id : String) (s : Store) : Answers a id s := by
  simp only [Answers, createReply, existingReply]
  cases hop : s.ops id with
  | none => exact Or.inl rfl
  | some op =>
    simp only
    split_ifs
    · exact Or.inr ⟨op, rfl, rfl⟩
    · exact Or.inl rfl

structure CreateIdempotent (D : Deployment) : Prop where
  /-- after a create that returned `CREATED`, as long as its reservation and its operation stand, a
      create with the same model and key opens nothing, and its answer, whenever it is read, is the
      first operation or a failure -/
  replayed : ∀ (es : List D.Event) (e : D.Event) (es' : List D.Event) request operationId a,
    e.1 = .create request operationId → PreparesCreate D.sha256 request operationId a →
    (createScript a (D.run es)).1 = .created →
    Run.Along D.next (D.run (es ++ [e])) (Stands D a) es' →
    (∃ op, (D.run (es ++ [e] ++ es')).ops a.operationId = some op ∧ a.Opened op) ∧
    ∀ request' operationId' a', PreparesCreate D.sha256 request' operationId' a' →
      a'.modelName = a.modelName → a'.idempotencyKey = a.idempotencyKey →
      createScript a' (D.run (es ++ [e] ++ es')) =
        (.existing a.operationId, D.run (es ++ [e] ++ es')) ∧
      ∀ es'', es ++ [e] ++ es' <+: es'' → Answers a' a.operationId (D.run es'')
  /-- a create does not see the reservation of another pair: whatever that is, the create does the
      same and leaves it as it is -/
  isolated : ∀ request operationId a request' operationId' a',
    PreparesCreate D.sha256 request operationId a → PreparesCreate D.sha256 request' operationId' a' →
    (a.modelName, a.idempotencyKey) ≠ (a'.modelName, a'.idempotencyKey) →
    ∀ s reservation, createScript a (s.reserve a'.requestKey reservation) =
      ((createScript a s).1, (createScript a s).2.reserve a'.requestKey reservation)
  /-- a refused create changes nothing, also where an orphaned reservation is in its way -/
  refused : ∀ a, (∀ s, (createScript a s).1.refuses = true → Unspent s (createScript a s).2) ∧
    ∀ es, (createScript a (D.run es)).1.refuses = true → (createScript a (D.run es)).2 = D.run es

/-- **Creating a transfer is idempotent.** -/
theorem create_idempotent (D : Deployment) : CreateIdempotent D where
  replayed := by
    intro es e es' request operationId a he ha hc hstands
    have hrun : D.run (es ++ [e]) = (createScript a (D.run es)).2 := by
      rw [Deployment.run, Run.run_snoc]
      exact ha.next he _
    have hres : Reserved a (D.run (es ++ [e] ++ es')) := by
      rw [Deployment.run, Run.run_append]
      refine Run.invariant_along ?_ (fun s e he h => h.next he) hstands
      change Reserved a (D.run (es ++ [e]))
      rw [hrun]
      exact reserved_of_created hc
    refine ⟨hres.2, fun request' operationId' a' ha' hm hk => ⟨hres.createScript ?_, fun es'' _ => ?_⟩⟩
    · rw [ha'.requestKey, ha.requestKey, hm, hk]
    · exact answers_existing _ _ _
  isolated := by
    intro _ _ a _ _ a' ha ha' hne s reservation
    refine createScript_reserve a s (fun hkey => hne ?_) reservation
    rw [ha.requestKey, ha'.requestKey, operationIdempotencyKey_eq, operationIdempotencyKey_eq] at hkey
    obtain ⟨hm, hk⟩ := lengthFramed_inj ((String.append_right_inj _).1 hkey)
    rw [hm, hk]
  refused := fun a => ⟨fun _ h => unspent_of_refuses h, fun es h => (D.opsInv es).createScript_refuses h⟩

def pairArgs (version key id : String) : CreateArgs :=
  createArgs pairDeployment.sha256 pairSpec ⟨some pairSpec, version, key, 1⟩ id

theorem pairArgs_prepared :
    PreparesCreate pairDeployment.sha256 ⟨some pairSpec, "v1", "k", 1⟩ "x" (pairArgs "v1" "k" "x") ∧
    PreparesCreate pairDeployment.sha256 ⟨some pairSpec, "v2", "k", 1⟩ "y" (pairArgs "v2" "k" "y") := by
  obtain ⟨layout, hl⟩ : ∃ layout, layoutFor pairSpec = .ok layout := ⟨_, rfl⟩
  obtain ⟨h₁, h₂⟩ : validateCreate ⟨some pairSpec, "v1", "k", 1⟩ = .ok pairSpec ∧
      validateCreate ⟨some pairSpec, "v2", "k", 1⟩ = .ok pairSpec := by decide +kernel
  exact ⟨⟨pairSpec, layout, h₁, hl, rfl⟩, ⟨pairSpec, layout, h₂, hl, rfl⟩⟩

theorem create_idempotent_pair :
    (createScript (pairArgs "v1" "k" "x") (pairDeployment.run pairFormed)).1 = .created ∧
    createScript (pairArgs "v2" "k" "y") (pairDeployment.run pairRunning) =
      (.existing "x", pairDeployment.run pairRunning) := by
  have hc : (createScript (pairArgs "v1" "k" "x") (pairDeployment.run pairFormed)).1 = .created := by
    decide +kernel
  have hstands : Run.Along pairDeployment.next (pairDeployment.run (pairFormed ++ [pairCreate "k" 1 "x"]))
      (Stands pairDeployment (pairArgs "v1" "k" "x")) [pairReport "x" "b" true] := by
    refine Run.Along.snoc .nil ⟨(fun h => nomatch h), ?_⟩
    decide +kernel
  obtain ⟨-, hreplay⟩ := (create_idempotent pairDeployment).replayed pairFormed (pairCreate "k" 1 "x")
    [pairReport "x" "b" true] _ _ _ rfl pairArgs_prepared.1 hc hstands
  exact ⟨hc, (hreplay _ _ _ pairArgs_prepared.2 rfl rfl).1⟩

end ModelExpress.Collective
