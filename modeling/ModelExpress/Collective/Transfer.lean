/-
  ModelExpress collective refit — transfer operations.
-/
import ModelExpress.Collective.Cohort

namespace ModelExpress.Collective

open List Function Assoc Option

/-! ## Steps of the operations -/

inductive OpsStep (D : Deployment) (s : Store) (e : Event) (s' : Store) : Prop
  /-- the operations are left alone, and every epoch is kept -/
  | same (hops : s'.ops = s.ops) (hrep : s'.reported = s.reported)
      (hreq : ∀ k id, s'.requests k = some id → s.requests k = some id)
      (hact : ∀ gid, (s'.groups gid).activeOps = (s.groups gid).activeOps)
      (hroot : ∀ gid root, (s.groups gid).root = some root →
        ∃ root', (s'.groups gid).root = some root' ∧ root'.epoch = root.epoch)
  /-- the epoch of a group moves, and its active operations are aborted -/
  | fenced (gid : String) (hops : Fenced ⟨s.groups gid, s.ops⟩ s'.ops) (hrep : s'.reported = s.reported)
      (hreq : s'.requests = s.requests) (hact : (s'.groups gid).activeOps = [])
      (hother : ∀ gid', gid' ≠ gid → s'.groups gid' = s.groups gid')
      (hroot : ∀ root, (s.groups gid).root = some root →
        ∃ root', (s'.groups gid).root = some root' ∧ root'.epoch = root.epoch + 1)
  | created {a : CreateArgs} {spec : CollectiveGroupSpec} {root : Root} (hreq : CreateRequest D a spec)
      (hop : s.ops a.operationId = none) (hr : (s.groups a.groupId).root = some root)
      (hready : root.state = .ready)
      (hbusy : ∀ id ∈ (s.groups a.groupId).activeOps, inFlight s.ops root.epoch id = false)
      (hs' : s' = openTransfer a root.epoch s)
  | failed {request : ReportCollectiveTransferRequest} {op : Operation} {root : Root} {lanes : List Lane}
      (he : e = .report request) (hrep : Reporting (reportArgs request) s op root)
      (hs' : s' = failGroup request.groupId (lanes.map (·.laneId)) (settle (reportArgs request)
        { op with state := .failed, failureMessage := request.message } (marked (reportArgs request) s)))
  | counted {request : ReportCollectiveTransferRequest} {op : Operation} {root : Root}
      {state : CollectiveTransferState} (he : e = .report request)
      (hrep : Reporting (reportArgs request) s op root) (ht : request.succeeded = true)
      (hstate : state = if (insert request.workerId (s.reported request.operationId)).card =
        root.expectedTotal.toNat then .complete else .running)
      (hs' : s' = settle (reportArgs request) { op with state := state } (marked (reportArgs request) s))
  | deleted {id : String} {op : Operation} (he : e = .delete id) (hop : s.ops id = some op)
      (ht : op.state.terminal = true)
      (hs' : s' = { s with
        ops := update s.ops id none
        reported := update s.reported id ∅
        requests := if s.requests (operationIdempotencyKey op.modelName op.idempotencyKey) = some id then
          update s.requests (operationIdempotencyKey op.modelName op.idempotencyKey) none
          else s.requests
        groups := update s.groups op.groupId { s.groups op.groupId with
          activeOps := (s.groups op.groupId).activeOps.filter (· ≠ id) } })

variable {laneIds : List UInt32} {gid : String} {c : Cell}

section
variable {D : Deployment} {s s' : Store} {e : Event}

variable {gid : String} {g : Group}

theorem OpsStep.of_group (hact : g.activeOps = (s.groups gid).activeOps)
    (hroot : ∀ root, (s.groups gid).root = some root →
      ∃ root', g.root = some root' ∧ root'.epoch = root.epoch) :
    OpsStep D s e { s with groups := update s.groups gid g } := by
  refine .same rfl rfl (fun _ _ h => h) (fun gid' => ?_) fun gid' root hr => ?_
  · by_cases hid : gid' = gid
    · subst hid
      simp only [update_self, hact]
    · simp only [update_of_ne hid]
  · by_cases hid : gid' = gid
    · subst hid
      simp only [update_self]
      exact hroot root hr
    · simp only [update_of_ne hid]
      exact ⟨root, hr, rfl⟩

theorem OpsStep.of_fence {ops : Operations} (hops : Fenced ⟨s.groups gid, s.ops⟩ ops) (hact : g.activeOps = [])
    (hroot : ∀ root, (s.groups gid).root = some root →
      ∃ root', g.root = some root' ∧ root'.epoch = root.epoch + 1) :
    OpsStep D s e { s with groups := update s.groups gid g, ops := ops } := by
  refine .fenced gid hops rfl rfl ?_ (fun gid' hid => update_of_ne hid ..) fun root hr => ?_
  · simp only [update_self, hact]
  · simp only [update_self]
    exact hroot root hr

theorem Swept.epoch_eq {g' : Group} {dropped owners : String → Prop} {root root' : Root}
    (h : Swept g g' dropped owners) (hr : g.root = some root) (hr' : g'.root = some root') :
    root'.epoch = root.epoch := by
  rcases h.root_some hr with ⟨h₁, -⟩ | h₁ <;> cases hr'.symm.trans h₁ <;> rfl

theorem JoinStep.ops {a : JoinArgs} {o : JoinOutcome}
    (h : JoinStep s.workers a ⟨s.groups a.groupId, s.ops⟩ (o, c)) :
    OpsStep D s e { s with groups := update s.groups a.groupId c.group, ops := c.ops } := by
  cases h with
  | refused => exact .of_group rfl fun root hr => ⟨root, hr, rfl⟩
  | created hpre hr hops ha =>
    refine .of_fence hops ha.activeOps fun root hr' => ?_
    rw [show (s.groups a.groupId).root = none from hr] at hr'
    cases hr'
  | rejected _ _ _ _ hs =>
    refine .of_group hs.activeOps fun root hr' => ?_
    rcases hs.root_some hr' with ⟨h₁, -⟩ | h₁
    · exact ⟨root, h₁, rfl⟩
    · exact ⟨root.clearSource, h₁, rfl⟩
  | joined _ _ _ _ hs hr₁ ha =>
    refine .of_group (ha.activeOps.trans hs.activeOps) fun root hr' => ⟨_, ha.stored, ?_⟩
    have he := hs.epoch_eq hr' hr₁
    rw [ha.fields]
    exact he
  | bumped _ hr _ _ _ hops ha =>
    refine .of_fence hops ha.activeOps fun root hr' => ⟨_, ha.stored, ?_⟩
    cases hr'.symm.trans hr
    rw [ha.fields]
    rfl

theorem RefreshStep.ops {o : RefreshOutcome} (h : RefreshStep s.workers laneIds ⟨s.groups gid, s.ops⟩ (o, c)) :
    OpsStep D s e { s with groups := update s.groups gid c.group, ops := c.ops } := by
  cases h with
  | notFound => exact .of_group rfl fun root hr => ⟨root, hr, rfl⟩
  | kept hr hn hs hr₁ hset =>
    refine .of_group (hset.activeOps.trans hs.activeOps) fun root hr' => ⟨_, hset.stored, ?_⟩
    have he := hs.epoch_eq hr' hr₁
    rw [hset.fields]
    exact he
  | bumped hr _ _ _ hops hset =>
    refine .of_fence hops hset.activeOps fun root hr' => ⟨_, hset.stored, ?_⟩
    cases hr'.symm.trans hr
    rw [hset.fields]
    rfl

theorem stampLane_activeOps (a : PublishArgs) (g : Group) :
    (stampLane a g).activeOps = g.activeOps := by unfold stampLane; split <;> rfl

theorem PublishStep.ops {a : PublishArgs} {o : PublishOutcome}
    (h : PublishStep s.workers laneIds a (s.groups gid) (o, g)) :
    OpsStep D s e { s with groups := update s.groups gid g } := by
  cases h with
  | notFound | stale | notLeader | conflict => exact .of_group rfl fun root hr => ⟨root, hr, rfl⟩
  | published hr he hl hset =>
    refine .of_group (hset.activeOps.trans (stampLane_activeOps ..)) fun root hr' => ⟨_, hset.stored, ?_⟩
    cases hr'.symm.trans hr
    rw [hset.fields]

theorem OpsStep.refl : OpsStep D s e s :=
  .same rfl rfl (fun _ _ h => h) (fun _ => rfl) fun _ root hr => ⟨root, hr, rfl⟩

/-- **What one event can do to the operations.** -/
theorem StoreStep.ops (h : StoreStep D s e s') : OpsStep D s e s' := by
  cases h with
  | idle => exact .refl
  | register => exact .same rfl rfl (fun _ _ h => h) (fun _ => rfl) fun _ root hr => ⟨root, hr, rfl⟩
  | expireRequest =>
    exact .same rfl rfl (fun k id h => of_update_none h) (fun _ => rfl) fun _ root hr => ⟨root, hr, rfl⟩
  | rehash => exact .of_group rfl fun root hr => ⟨root, hr, rfl⟩
  | join _ _ hstep | refresh _ _ hstep | publish _ _ _ hstep => exact hstep.ops
  | @create _ _ spec a _ _ hreq hstep =>
    cases hstep with
    | existing => exact .refl
    | refused hr ho =>
      refine .same rfl rfl (fun k id h => ?_) (fun _ => rfl) fun _ root hr => ⟨root, hr, rfl⟩
      rcases hr with rfl | ⟨-, rfl⟩
      · exact h
      · exact of_update_none h
    | created _ hop hr hready _ hbusy => exact .created hreq hop hr hready hbusy rfl
  | @report _ _ _ _ _ _ _ hstep =>
    cases hstep with
    | idle => exact .refl
    | failed hrep hf => exact .failed rfl hrep rfl
    | complete hrep ht hcard => exact .counted rfl hrep ht (if_pos hcard).symm rfl
    | running hrep ht hcard => exact .counted rfl hrep ht (if_neg hcard).symm rfl
  | delete hop hstep =>
    cases hstep with
    | idle => exact .refl
    | deleted hop' ht =>
      cases hop.symm.trans hop'
      exact .deleted rfl hop ht rfl

end

/-! ## The invariant -/

/-- Where an operation stands: in flight at the group's epoch, or done with it. -/
structure Placed (s : Store) (id : String) (op : Operation) (root : Root) : Prop where
  active : op.state.terminal = false → id ∈ (s.groups op.groupId).activeOps
  current : op.state.terminal = false → op.epoch = root.epoch
  past : op.state = .failed ∨ op.state = .aborted → op.epoch < root.epoch
  le : op.epoch ≤ root.epoch

structure OpsInv (s : Store) : Prop where
  placed : ∀ id op, s.ops id = some op → ∃ root, (s.groups op.groupId).root = some root ∧
    Placed s id op root
  owned : ∀ gid, ∀ id ∈ (s.groups gid).activeOps, ∃ op, s.ops id = some op ∧ op.groupId = gid ∧
    op.state.terminal = false
  single : ∀ gid, ∀ id ∈ (s.groups gid).activeOps, ∀ id' ∈ (s.groups gid).activeOps, id = id'
  reserved : ∀ k id, s.requests k = some id → ∃ op, s.ops id = some op ∧
    k = operationIdempotencyKey op.modelName op.idempotencyKey
  unreported : ∀ id, s.ops id = none → s.reported id = ∅

theorem opsInv_empty : OpsInv Store.empty where
  placed := by rintro id op ⟨⟩
  owned := fun gid id h => absurd h not_mem_nil
  single := fun gid id h => absurd h not_mem_nil
  reserved := by rintro k id ⟨⟩
  unreported := fun _ _ => rfl

section
variable {D : Deployment} {s s' : Store} {e : Event}

variable {op : Operation} {id : String}

theorem OpsInv.active_eq (h : OpsInv s) (hop : s.ops id = some op)
    (ht : op.state.terminal = false) {id' : String} (hid : id' ∈ (s.groups op.groupId).activeOps) :
    id' = id := by
  obtain ⟨root, -, hp⟩ := h.placed id op hop
  exact h.single op.groupId id' hid id (hp.active ht)

theorem OpsInv.active_fields (h : OpsInv s) (hid : id ∈ (s.groups gid).activeOps) (hop : s.ops id = some op) :
    op.groupId = gid ∧ op.state.terminal = false := by
  obtain ⟨op', hop', hfields⟩ := h.owned gid id hid
  exact mem_unique hop' hop ▸ hfields

variable {root : Root}

theorem Placed.congr {root' : Root} (h : Placed s id op root)
    (hact : (s'.groups op.groupId).activeOps = (s.groups op.groupId).activeOps)
    (he : root'.epoch = root.epoch) : Placed s' id op root' where
  active := by rw [hact]; exact h.active
  current := by rw [he]; exact h.current
  past := by rw [he]; exact h.past
  le := by rw [he]; exact h.le

theorem OpsInv.same (h : OpsInv s) (hops : s'.ops = s.ops) (hrep : s'.reported = s.reported)
    (hreq : ∀ k id, s'.requests k = some id → s.requests k = some id)
    (hact : ∀ gid, (s'.groups gid).activeOps = (s.groups gid).activeOps)
    (hroot : ∀ gid root, (s.groups gid).root = some root →
      ∃ root', (s'.groups gid).root = some root' ∧ root'.epoch = root.epoch) : OpsInv s' where
  placed := fun id op hop => by
    rw [hops] at hop
    obtain ⟨root, hr, hp⟩ := h.placed id op hop
    obtain ⟨root', hr', he⟩ := hroot _ root hr
    exact ⟨root', hr', hp.congr (hact _) he⟩
  owned := fun gid id hid => by
    rw [hact] at hid
    rw [hops]
    exact h.owned gid id hid
  single := fun gid => by rw [hact]; exact h.single gid
  reserved := fun k id hk => by
    rw [hops]
    exact h.reserved k id (hreq k id hk)
  unreported := fun id hid => by
    rw [hops] at hid
    rw [hrep]
    exact h.unreported id hid

theorem Operation.abort_fields (op : Operation) : op.abort.groupId = op.groupId ∧
    op.abort.epoch = op.epoch ∧ op.abort.modelName = op.modelName ∧
    op.abort.idempotencyKey = op.idempotencyKey := by
  unfold Operation.abort
  split_ifs
  · exact ⟨rfl, rfl, rfl, rfl⟩
  · exact ⟨rfl, rfl, rfl, rfl⟩

theorem OpsInv.fenced (h : OpsInv s) (hops : Fenced ⟨s.groups gid, s.ops⟩ s'.ops)
    (hrep : s'.reported = s.reported) (hreq : s'.requests = s.requests)
    (hact : (s'.groups gid).activeOps = []) (hother : ∀ gid', gid' ≠ gid → s'.groups gid' = s.groups gid')
    (hroot : ∀ root, (s.groups gid).root = some root →
      ∃ root', (s'.groups gid).root = some root' ∧ root'.epoch = root.epoch + 1) : OpsInv s' := by
  have hout : ∀ {gid' id}, gid' ≠ gid → id ∈ (s.groups gid').activeOps → id ∉ (s.groups gid).activeOps := by
    intro gid' id hne hid hid'
    obtain ⟨op, hop, hg, -⟩ := h.owned gid' id hid
    exact hne (hg.symm.trans (h.active_fields hid' hop).1)
  refine ⟨fun id op' hop' => ?_, fun gid' id hid => ?_, fun gid' id hid => ?_, fun k id hk => ?_,
    fun id hid => ?_⟩
  · rw [hops] at hop'
    simp only at hop'
    split_ifs at hop' with hid
    · -- an active operation is aborted, and the epoch leaves it behind
      obtain ⟨op, hop, hg, ht⟩ := h.owned gid id hid
      rw [hop] at hop'
      cases hop'
      obtain ⟨root, hr, hp⟩ := h.placed id op hop
      rw [hg] at hr
      obtain ⟨root', hr', he⟩ := hroot root hr
      obtain ⟨hg', hep, -⟩ := op.abort_fields
      have hlt : op.abort.epoch < root'.epoch := by rw [hep, hp.current ht, he]; omega
      refine ⟨root', by rw [hg', hg]; exact hr', fun hf => ?_, fun hf => ?_, fun _ => hlt, hlt.le⟩
      · cases op.abort_terminal.symm.trans hf
      · rw [op.abort_terminal] at hf
        cases hf
    · obtain ⟨root, hr, hp⟩ := h.placed id op' hop'
      by_cases hg : op'.groupId = gid
      · subst hg
        obtain ⟨root', hr', he⟩ := hroot root hr
        have hle := hp.le
        exact ⟨root', hr', fun hf => absurd (hp.active hf) hid, fun hf => absurd (hp.active hf) hid,
          fun hf => by rw [he]; exact (hp.past hf).trans (Nat.lt_succ_self _), by omega⟩
      · exact ⟨root, by rw [hother _ hg]; exact hr, hp.congr (by rw [hother _ hg]) rfl⟩
  · by_cases hg : gid' = gid
    · subst hg
      rw [hact] at hid
      cases hid
    · rw [hother _ hg] at hid
      obtain ⟨op, hop, hgop⟩ := h.owned gid' id hid
      refine ⟨op, ?_, hgop⟩
      rw [hops]
      simp only [hout hg hid, if_false, hop]
  · by_cases hg : gid' = gid
    · subst hg
      rw [hact] at hid
      cases hid
    · rw [hother _ hg] at hid ⊢
      exact h.single gid' id hid
  · rw [hreq] at hk
    obtain ⟨op, hop, hkey⟩ := h.reserved k id hk
    rw [hops]
    simp only [hop]
    split_ifs
    · obtain ⟨-, -, hm, hi⟩ := op.abort_fields
      exact ⟨op.abort, rfl, by rw [hm, hi]; exact hkey⟩
    · exact ⟨op, rfl, hkey⟩
  · rw [hrep]
    refine h.unreported id ?_
    rw [hops] at hid
    simp only at hid
    split_ifs at hid
    · simpa using hid
    · exact hid

theorem OpsInv.replace (h : OpsInv s) (op' : Operation)
    (root' : Root) (hop : s.ops id = some op) (ht : op.state.terminal = false)
    (hsame : op'.groupId = op.groupId ∧ op'.epoch = op.epoch ∧ op'.modelName = op.modelName ∧
      op'.idempotencyKey = op.idempotencyKey) (hops : s'.ops = update s.ops id (some op'))
    (hr : (s.groups op.groupId).root = some root) (hr' : (s'.groups op.groupId).root = some root')
    (hact : (s'.groups op.groupId).activeOps = if op'.state.terminal = true then
      (s.groups op.groupId).activeOps.filter (· ≠ id) else (s.groups op.groupId).activeOps)
    (hother : ∀ gid, gid ≠ op.groupId → s'.groups gid = s.groups gid)
    (hle : root.epoch ≤ root'.epoch) (hcur : op'.state.terminal = false → root'.epoch = root.epoch)
    (hpast : op'.state = .failed ∨ op'.state = .aborted → root.epoch < root'.epoch)
    (hreq : s'.requests = s.requests) (hrep : ∀ i, i ≠ id → s'.reported i = s.reported i) : OpsInv s' := by
  obtain ⟨hg, hep, hm, hk⟩ := hsame
  have hroot : ∀ {root₁}, (s.groups op.groupId).root = some root₁ → root₁ = root := fun hr₁ =>
    mem_unique hr₁ hr
  obtain ⟨_, hr₁, hp⟩ := h.placed id op hop
  obtain rfl := hroot hr₁
  have hmem : ∀ {i}, i ∈ (s'.groups op.groupId).activeOps → i ∈ (s.groups op.groupId).activeOps ∧
      (op'.state.terminal = true → i ≠ id) := by
    intro i hi
    rw [hact] at hi
    split_ifs at hi with hterm
    · exact ⟨(mem_filter.1 hi).1, fun _ => by simpa using (mem_filter.1 hi).2⟩
    · exact ⟨hi, fun hf => absurd hf hterm⟩
  refine ⟨fun i op₁ hop₁ => ?_, fun gid i hi => ?_, fun gid i hi i' hi' => ?_, fun k i hki => ?_,
    fun i hi => ?_⟩
  · rw [hops] at hop₁
    rcases update_cases hop₁ with ⟨rfl, ⟨⟩⟩ | ⟨hi, hop₁⟩
    · have hepoch := hp.current ht
      refine ⟨root', by rw [hg]; exact hr', fun hf => ?_, fun hf => ?_, fun hf => ?_, ?_⟩
      · rw [hg, hact, if_neg (by rw [hf]; exact Bool.false_ne_true)]
        exact hp.active ht
      · rw [hep, hepoch, hcur hf]
      · rw [hep, hepoch]
        exact hpast hf
      · rw [hep, hepoch]
        exact hle
    · obtain ⟨root₂, hr₂, hp₂⟩ := h.placed i op₁ hop₁
      by_cases hgid : op₁.groupId = op.groupId
      · -- every other operation of the group is terminal
        have hterm : ¬ op₁.state.terminal = false := fun hf =>
          hi (h.active_eq hop ht (hgid ▸ hp₂.active hf))
        rw [hgid] at hr₂
        obtain rfl := hroot hr₂
        exact ⟨root', by rw [hgid]; exact hr', fun hf => absurd hf hterm, fun hf => absurd hf hterm,
          fun hf => (hp₂.past hf).trans_le hle, hp₂.le.trans hle⟩
      · exact ⟨root₂, by rw [hother _ hgid]; exact hr₂, hp₂.congr (by rw [hother _ hgid]) rfl⟩
  · by_cases hgid : gid = op.groupId
    · subst hgid
      obtain ⟨hi, hne⟩ := hmem hi
      obtain rfl := h.active_eq hop ht hi
      have hterm : op'.state.terminal = false := by
        by_contra hf
        exact hne (by simpa using hf) rfl
      exact ⟨op', by rw [hops, update_self], hg, hterm⟩
    · rw [hother _ hgid] at hi
      obtain ⟨op₁, hop₁, hg₁, ht₁⟩ := h.owned gid i hi
      have hne : i ≠ id := by
        rintro rfl
        exact hgid (h.active_fields hi hop).1.symm
      exact ⟨op₁, by rw [hops, update_of_ne hne]; exact hop₁, hg₁, ht₁⟩
  · by_cases hgid : gid = op.groupId
    · subst hgid
      exact h.single _ i (hmem hi).1 i' (hmem hi').1
    · rw [hother _ hgid] at hi hi'
      exact h.single gid i hi i' hi'
  · rw [hreq] at hki
    obtain ⟨op₁, hop₁, hkey⟩ := h.reserved k i hki
    by_cases hi : i = id
    · subst hi
      cases hop.symm.trans hop₁
      exact ⟨op', by rw [hops, update_self], by rw [hm, hk]; exact hkey⟩
    · exact ⟨op₁, by rw [hops, update_of_ne hi]; exact hop₁, hkey⟩
  · rw [hops] at hi
    by_cases hid : i = id
    · subst hid
      rw [update_self] at hi
      cases hi
    · rw [update_of_ne hid] at hi
      rw [hrep i hid]
      exact h.unreported i hi

theorem openTransfer_root (a : CreateArgs) (epoch : ℕ) (s : Store) (gid : String) :
    ((openTransfer a epoch s).groups gid).root = (s.groups gid).root := by
  unfold openTransfer
  by_cases hg : gid = a.groupId
  · subst hg
    simp only [update_self]
  · simp only [update_of_ne hg]

theorem OpsInv.activeOps_eq_nil (h : OpsInv s) (hr : (s.groups gid).root = some root)
    (hbusy : ∀ id ∈ (s.groups gid).activeOps, inFlight s.ops root.epoch id = false) :
    (s.groups gid).activeOps = [] := by
  refine eq_nil_iff_forall_not_mem.2 fun id hid => ?_
  obtain ⟨op, hop, rfl, ht⟩ := h.owned gid id hid
  obtain ⟨_, hr', hp⟩ := h.placed id op hop
  cases hr'.symm.trans hr
  have hfl := hbusy id hid
  simp [inFlight, hop, ht, hp.current ht] at hfl

theorem OpsInv.created (h : OpsInv s) {a : CreateArgs}
    (hkey : a.requestKey = operationIdempotencyKey a.modelName a.idempotencyKey)
    (hop : s.ops a.operationId = none) (hr : (s.groups a.groupId).root = some root)
    (hbusy : ∀ id ∈ (s.groups a.groupId).activeOps, inFlight s.ops root.epoch id = false) :
    OpsInv (openTransfer a root.epoch s) := by
  have hnil := h.activeOps_eq_nil hr hbusy
  have hact : ∀ gid, ((openTransfer a root.epoch s).groups gid).activeOps =
      if gid = a.groupId then [a.operationId] else (s.groups gid).activeOps := by
    intro gid
    unfold openTransfer
    by_cases hg : gid = a.groupId
    · subst hg
      simp only [update_self, if_true, hnil]
      rfl
    · simp only [update_of_ne hg, hg, if_false]
  refine ⟨fun i op hi => ?_, fun gid i hi => ?_, fun gid i hi i' hi' => ?_, fun k i hk => ?_,
    fun i hi => ?_⟩
  · rw [openTransfer_root]
    rcases update_cases hi with ⟨rfl, ⟨⟩⟩ | ⟨-, hi⟩
    · refine ⟨root, hr, fun _ => ?_, fun _ => rfl, fun hf => ?_, le_rfl⟩
      · rw [hact, if_pos (show (a.operation root.epoch).groupId = a.groupId from rfl)]
        exact mem_singleton.2 rfl
      · rcases hf with hf | hf
        · cases hf
        · cases hf
    · obtain ⟨root₁, hr₁, hp⟩ := h.placed i op hi
      refine ⟨root₁, hr₁, fun hf => ?_, hp.current, hp.past, hp.le⟩
      have hmem := hp.active hf
      rw [hact]
      split_ifs with hg
      · rw [hg, hnil] at hmem
        cases hmem
      · exact hmem
  · rw [hact] at hi
    split_ifs at hi with hg
    · obtain rfl := mem_singleton.1 hi
      exact ⟨a.operation root.epoch, update_self .., hg.symm, rfl⟩
    · obtain ⟨op, hop', hgop⟩ := h.owned gid i hi
      exact ⟨op, update_fresh hop hop', hgop⟩
  · rw [hact] at hi hi'
    split_ifs at hi hi' with hg
    · rw [mem_singleton.1 hi, mem_singleton.1 hi']
    · exact h.single gid i hi i' hi'
  · rcases update_cases hk with ⟨rfl, ⟨⟩⟩ | ⟨-, hk⟩
    · exact ⟨a.operation root.epoch, update_self .., hkey⟩
    · obtain ⟨op, hop', hkop⟩ := h.reserved k i hk
      exact ⟨op, update_fresh hop hop', hkop⟩
  · by_cases hid : i = a.operationId
    · subst hid
      exact h.unreported _ hop
    · simp only [openTransfer, update_of_ne hid] at hi
      exact h.unreported i hi

theorem OpsInv.deleted (h : OpsInv s) (hop : s.ops id = some op)
    (ht : op.state.terminal = true) (hops : s'.ops = update s.ops id none)
    (hrep : s'.reported = update s.reported id ∅) (hreq : s'.requests =
      if s.requests (operationIdempotencyKey op.modelName op.idempotencyKey) = some id then
        update s.requests (operationIdempotencyKey op.modelName op.idempotencyKey) none else s.requests)
    (hroot : ∀ gid, (s'.groups gid).root = (s.groups gid).root)
    (hact : ∀ gid, (s'.groups gid).activeOps = (s.groups gid).activeOps) : OpsInv s' := by
  refine ⟨fun i op₁ hop₁ => ?_, fun gid i hi => ?_, fun gid => ?_, fun k i hk => ?_, fun i hi => ?_⟩
  · rw [hops] at hop₁
    obtain ⟨root, hr, hp⟩ := h.placed i op₁ (of_update_none hop₁)
    exact ⟨root, by rw [hroot]; exact hr, hp.congr (hact _) rfl⟩
  · rw [hact] at hi
    obtain ⟨op₁, hop₁, hg, ht₁⟩ := h.owned gid i hi
    have hne : i ≠ id := by
      rintro rfl
      cases ht.symm.trans (h.active_fields hi hop).2
    exact ⟨op₁, by rw [hops, update_of_ne hne]; exact hop₁, hg, ht₁⟩
  · rw [hact]
    exact h.single gid
  · have hk' : s.requests k = some i ∧ (k = operationIdempotencyKey op.modelName op.idempotencyKey → i ≠ id) := by
      rw [hreq] at hk
      split_ifs at hk with hres
      · obtain ⟨-, ⟨⟩⟩ | ⟨hkk, hk⟩ := update_cases hk
        exact ⟨hk, fun hkey => absurd hkey hkk⟩
      · refine ⟨hk, ?_⟩
        rintro rfl rfl
        exact hres hk
    obtain ⟨op₁, hop₁, hkey⟩ := h.reserved k i hk'.1
    have hne : i ≠ id := by
      rintro rfl
      exact hk'.2 (mem_unique hop hop₁ ▸ hkey) rfl
    exact ⟨op₁, by rw [hops, update_of_ne hne]; exact hop₁, hkey⟩
  · rw [hops] at hi
    rw [hrep]
    by_cases hid : i = id
    · subst hid
      rw [update_self]
    · rw [update_of_ne hid] at hi ⊢
      exact h.unreported i hi

theorem failGroup_self (request : ReportCollectiveTransferRequest) (laneIds : List UInt32)
    (ht : op.state.terminal = true) :
    (failGroup request.groupId laneIds (settle (reportArgs request) op
      (marked (reportArgs request) s))).groups request.groupId =
      { (s.groups request.groupId).advance laneIds with
        activeOps := (s.groups request.groupId).activeOps.filter (· ≠ request.operationId) } := by
  simp only [failGroup, settle, ht, if_true, update_self, reportArgs, marked]
  rfl

theorem OpsInv.step (h : OpsInv s) (hs : OpsStep D s e s') : OpsInv s' := by
  cases hs with
  | same hops hrep hreq hact hroot => exact h.same hops hrep hreq hact hroot
  | fenced gid hops hrep hreq hact hother hroot => exact h.fenced hops hrep hreq hact hother hroot
  | created hreq hop hr _ hbusy hs' =>
    subst hs'
    refine h.created ?_ hop hr hbusy
    rw [hreq.requestKey, hreq.modelName]
  | @failed request op root lanes he hrep hs' =>
    subst hs'
    have hg : op.groupId = request.groupId := hrep.group
    have hr : (s.groups request.groupId).root = some root := hrep.rooted
    refine h.replace { op with state := .failed, failureMessage := request.message } (advancedRoot root)
      hrep.stored hrep.nonterminal ⟨rfl, rfl, rfl, rfl⟩ rfl (hg ▸ hr) ?_ ?_ (fun gid hid => ?_)
      (Nat.le_succ _) (fun hf => by cases hf) (fun _ => Nat.lt_succ_self _) rfl fun i hi => update_of_ne hi ..
    · rw [hg, failGroup_self request _ rfl]
      exact advance_root hr (lanes.map (·.laneId))
    · rw [hg, failGroup_self request _ rfl]
      rfl
    · rw [hg] at hid
      simp only [failGroup, settle, CollectiveTransferState.terminal, if_true, reportArgs, marked,
        update_of_ne hid]
  | @counted request op root state he hrep ht hstate hs' =>
    subst hs'
    have hg : op.groupId = request.groupId := hrep.group
    have hr : (s.groups request.groupId).root = some root := hrep.rooted
    have hnot : ¬ (state = .failed ∨ state = .aborted) := by
      rw [hstate]
      split_ifs
      · simp
      · simp
    refine h.replace { op with state := state } root hrep.stored hrep.nonterminal ⟨rfl, rfl, rfl, rfl⟩ rfl
      (hg ▸ hr) ?_ ?_ (fun gid hid => ?_) le_rfl (fun _ => rfl) (fun hf => absurd hf hnot) rfl
      fun i hi => update_of_ne hi ..
    · obtain ⟨ids, hids⟩ := settle_groups (reportArgs request) { op with state := state }
        (marked (reportArgs request) s) op.groupId
      rw [hids, hg]
      exact hr
    · rw [hg]
      simp only [settle, reportArgs, marked]
      split_ifs
      · rw [update_self]
      · rfl
    · rw [hg] at hid
      simp only [settle, reportArgs, marked]
      split_ifs
      · rw [update_of_ne hid]
      · rfl
  | @deleted id op he hop ht hs' =>
    subst hs'
    refine h.deleted hop ht rfl rfl rfl (fun gid => ?_) fun gid => ?_
    · by_cases hg : gid = op.groupId
      · subst hg
        simp only [update_self]
      · simp only [update_of_ne hg]
    · by_cases hg : gid = op.groupId
      · subst hg
        simp only [update_self]
        refine filter_eq_self.2 fun i hi => ?_
        rw [decide_eq_true_eq]
        rintro rfl
        cases ht.symm.trans (h.active_fields hi hop).2
      · simp only [update_of_ne hg]

end

theorem Deployment.opsInv (D : Deployment) (es : List D.Event) : OpsInv (D.run es) :=
  Run.invariant opsInv_empty (fun s e h => h.step (next_step s e).ops) es

/-! ## Exclusivity -/

theorem OpsStep.terminal {D : Deployment} {s s' : Store} {e : Event} (h : OpsStep D s e s') {id : String}
    {op : Operation} (hop : s.ops id = some op) (ht : op.state.terminal = true) :
    s'.ops id = some op ∨ (e = .delete id ∧ s'.ops id = none) := by
  -- the operation a report writes to is in flight
  have hne : ∀ {a : ReportArgs} {op' : Operation} {root : Root}, Reporting a s op' root →
      id ≠ a.operationId := by
    rintro a op' root hrep rfl
    cases hop.symm.trans hrep.stored
    have hf := hrep.nonterminal
    cases ht.symm.trans hf
  cases h with
  | same hops => rw [hops]; exact Or.inl hop
  | fenced gid hops =>
    left
    rw [hops]
    simp only [hop]
    split_ifs
    · rw [map_some, Operation.abort_of_terminal ht]
    · rfl
  | @created _ _ _ _ hnone _ _ _ hs' =>
    subst hs'
    left
    refine (update_of_ne ?_ ..).trans hop
    rintro rfl
    cases hop.symm.trans hnone
  | failed _ hrep hs' | counted _ hrep _ _ hs' =>
    subst hs'
    exact Or.inl ((update_of_ne (hne hrep) ..).trans hop)
  | @deleted id' _ he _ _ hs' =>
    subst hs'
    by_cases hid : id = id'
    · subst hid
      exact Or.inr ⟨he, update_self ..⟩
    · exact Or.inl ((update_of_ne hid ..).trans hop)

/-- A group has at most one transfer in flight; it is active and of the group's epoch. -/
structure Exclusive (s : Store) : Prop where
  single : ∀ id id' op op', s.ops id = some op → s.ops id' = some op' → op.state.terminal = false →
    op'.state.terminal = false → op.groupId = op'.groupId → id = id'
  active : ∀ id op, s.ops id = some op → op.state.terminal = false →
    id ∈ (s.groups op.groupId).activeOps
  current : ∀ id op, s.ops id = some op → op.state.terminal = false →
    ∃ root, (s.groups op.groupId).root = some root ∧ op.epoch = root.epoch

theorem OpsInv.exclusive {s : Store} (h : OpsInv s) : Exclusive s := by
  refine ⟨fun id id' op op' hop hop' ht ht' hg => ?_, fun id op hop ht => ?_, fun id op hop ht => ?_⟩
  · obtain ⟨root, -, hp⟩ := h.placed id op hop
    exact h.active_eq hop' ht' (hg ▸ hp.active ht)
  · obtain ⟨root, -, hp⟩ := h.placed id op hop
    exact hp.active ht
  · obtain ⟨root, hr, hp⟩ := h.placed id op hop
    exact ⟨root, hr, hp.current ht⟩

/-- **Transfers are exclusive, and a terminal one is final**: it stays as it is until it is deleted. -/
theorem transfer_exclusive (D : Deployment) (es : List D.Event) :
    Exclusive (D.run es) ∧ ∀ es' id op, (D.run es).ops id = some op → op.state.terminal = true →
      (D.run (es ++ es')).ops id = some op ∨
      ∃ pre e, pre ++ [e] <+: es' ∧ e.1 = .delete id ∧ (D.run (es ++ pre)).ops id = some op ∧
        (D.run (es ++ pre ++ [e])).ops id = none := by
  refine ⟨(D.opsInv es).exclusive, fun es' id op hop ht => ?_⟩
  induction es' using reverseRecOn with
  | nil =>
    rw [append_nil]
    exact Or.inl hop
  | append_singleton es' e ih =>
    rcases ih with hop' | ⟨pre, e', hpre, he', h₁, h₂⟩
    · have hrun : D.run (es ++ (es' ++ [e])) = D.next (D.run (es ++ es')) e := by
        rw [← append_assoc]
        exact Run.run_snoc ..
      rcases (next_step (D.run (es ++ es')) e).ops.terminal hop' ht with hkeep | ⟨he, hdel⟩
      · left
        rw [hrun]
        exact hkeep
      · refine Or.inr ⟨es', e, prefix_refl _, he, hop', ?_⟩
        rw [append_assoc, hrun]
        exact hdel
    · exact Or.inr ⟨pre, e', hpre.trans (prefix_append ..), he', h₁, h₂⟩

end ModelExpress.Collective
