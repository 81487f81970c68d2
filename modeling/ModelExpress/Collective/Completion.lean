/-
  ModelExpress collective refit — completed transfers.
-/
import ModelExpress.Collective.Transfer

namespace ModelExpress.Collective

open List Function Assoc Option

/-! ## An operation in flight -/

variable {D : Deployment} {op' op : Operation} {s s' : Store} {id : String} {epoch : ℕ}

theorem OpsStep.inFlight {e : Event} (h : OpsStep D s e s') (hinv : OpsInv s) (hop' : s'.ops id = some op')
    (ht : op'.state.terminal = false) :
    (∃ op, s.ops id = some op ∧ op.state.terminal = false ∧ op'.groupId = op.groupId ∧
      op'.epoch = op.epoch ∧ (s'.reported id = s.reported id ∨ ∃ request root, e = .report request ∧
        request.operationId = id ∧ request.succeeded = true ∧
        Reporting (reportArgs request) s op root ∧
        s'.reported id = insert request.workerId (s.reported id))) ∨
    (s'.reported id = ∅ ∧ ∃ root, (s.groups op'.groupId).root = some root ∧ root.state = .ready ∧
      op'.epoch = root.epoch) := by
  cases h with
  | same hops hrep =>
    rw [hops] at hop'
    exact Or.inl ⟨op', hop', ht, rfl, rfl, Or.inl (by rw [hrep])⟩
  | fenced gid hops hrep =>
    rw [hops] at hop'
    simp only at hop'
    split_ifs at hop' with hid
    · obtain ⟨op, hop, rfl⟩ := map_eq_some_iff.1 hop'
      cases op.abort_terminal.symm.trans ht
    · exact Or.inl ⟨op', hop', ht, rfl, rfl, Or.inl (by rw [hrep])⟩
  | @created _ _ root _ hop hr hready _ hs' =>
    subst hs'
    rcases update_cases hop' with ⟨rfl, ⟨⟩⟩ | ⟨-, hop'⟩
    · exact Or.inr ⟨hinv.unreported _ hop, root, hr, hready, rfl⟩
    · exact Or.inl ⟨op', hop', ht, rfl, rfl, Or.inl rfl⟩
  | @failed _ _ _ _ _ _ hs' =>
    subst hs'
    rcases update_cases hop' with ⟨rfl, ⟨⟩⟩ | ⟨hid, hop'⟩
    · cases ht
    · exact Or.inl ⟨op', hop', ht, rfl, rfl, Or.inl (update_of_ne hid ..)⟩
  | @counted request op root _ he hrep hsucc _ hs' =>
    subst hs'
    rcases update_cases hop' with ⟨rfl, ⟨⟩⟩ | ⟨hid, hop'⟩
    · exact Or.inl ⟨op, hrep.stored, hrep.nonterminal, rfl, rfl, Or.inr ⟨request, root, he, rfl, hsucc,
        hrep, update_self ..⟩⟩
    · exact Or.inl ⟨op', hop', ht, rfl, rfl, Or.inl (update_of_ne hid ..)⟩
  | @deleted _ _ _ _ _ hs' =>
    subst hs'
    obtain ⟨-, ⟨⟩⟩ | ⟨hid, hop'⟩ := update_cases hop'
    exact Or.inl ⟨op', hop', ht, rfl, rfl, Or.inl (update_of_ne hid ..)⟩

/-- The run holds a report of success by the worker, for the operation at the epoch, that passed every
    check. -/
def Succeeded (D : Deployment) (es : List D.Event) (id workerId : String) (epoch : ℕ) : Prop :=
  ∃ pre e request op root, pre ++ [e] <+: es ∧ e.1 = .report request ∧ request.operationId = id ∧
    request.workerId = workerId ∧ request.succeeded = true ∧ request.epoch.toNat = epoch ∧
    Reporting (reportArgs request) (D.run pre) op root

theorem Succeeded.later {es₁ es₂ : List D.Event} {workerId : String}
    (h : Succeeded D es₁ id workerId epoch) (hp : es₁ <+: es₂) : Succeeded D es₂ id workerId epoch := by
  obtain ⟨pre, e, request, op, root, hpre, hrest⟩ := h
  exact ⟨pre, e, request, op, root, hpre.trans hp, hrest⟩

/-- The operation runs over a formed cohort, and those that reported are of it. -/
structure Transferring (D : Deployment) (es : List D.Event) (s : Store) (id : String) (op : Operation) :
    Prop where
  formed : ∃ spec root, (s.groups op.groupId).root = some root ∧
    Formed D op.groupId spec (s.groups op.groupId) root
  reported : ∀ w ∈ s.reported id, (∃ slot, (s.groups op.groupId).workerOf slot = some w) ∧
    Succeeded D es id w op.epoch

theorem Reporting.workerOf {a : ReportArgs} {root : Root}
    (h : Reporting a s op root) : ∃ slot, (s.groups a.groupId).workerOf slot = some a.workerId := by
  obtain ⟨slot, record, hr, hheld⟩ := h.admitted
  obtain ⟨p, hp, hw⟩ := (Option.any_eq_true ..).1 hheld
  rw [decide_eq_true_eq] at hw
  refine ⟨slot, ?_⟩
  rw [Group.workerOf, participant_eq_some.2 ⟨record, hr, hp⟩, map_some, hw]

theorem Deployment.transferring (D : Deployment) (es : List D.Event) :
    ∀ id op, (D.run es).ops id = some op → op.state.terminal = false → Undisturbed D op.groupId es →
      Transferring D es (D.run es) id op := by
  refine Run.history (P := fun es (s : Store) => ∀ id op, s.ops id = some op →
    op.state.terminal = false → Undisturbed D op.groupId es → Transferring D es s id op) ?_ ?_ es
  · rintro id op ⟨⟩
  · intro es e ih id op' hop' ht hok
    change ∀ id op, (D.run es).ops id = some op → _ at ih
    change (D.next (D.run es) e).ops id = some op' at hop'
    have hnext := next_step (D.run es) e
    have hinv := D.opsInv es
    have hes : es <+: es ++ [e] := prefix_append ..
    obtain ⟨root', hr', he'⟩ := (hinv.step hnext.ops).exclusive.current id op' hop' ht
    -- the epoch is the operation's before and after, so a formed cohort is kept
    have hkeep : ∀ {spec root}, ((D.run es).groups op'.groupId).root = some root →
        op'.epoch = root.epoch → Formed D op'.groupId spec ((D.run es).groups op'.groupId) root →
        Formed D op'.groupId spec ((D.next (D.run es) e).groups op'.groupId) root' ∧
          ((D.next (D.run es) e).groups op'.groupId).workerOf =
            ((D.run es).groups op'.groupId).workerOf := by
      intro spec root hr he hf
      obtain ⟨root₁, hr₁, -, hlt | ⟨-, hf₁, -, hw₁⟩⟩ := (hnext.group op'.groupId).formed hr hf hok.last
      · cases hr'.symm.trans hr₁
        omega
      · cases hr'.symm.trans hr₁
        exact ⟨hf₁, hw₁⟩
    rcases hnext.ops.inFlight hinv hop' ht with ⟨op, hop, htop, hg, hep, hrep⟩ | ⟨hrep, root, hr, hready, hep⟩
    · obtain ⟨⟨spec, root, hr, hf⟩, hreported⟩ := ih id op hop htop (hg ▸ hok.restrict hes)
      obtain ⟨_, hr₀, he₀⟩ := hinv.exclusive.current id op hop htop
      cases hr.symm.trans hr₀
      rw [← hg] at hr hf hreported
      obtain ⟨hf', hw'⟩ := hkeep hr (hep.trans he₀) hf
      refine ⟨⟨spec, root', hr', hf'⟩, fun w hw => ?_⟩
      change w ∈ (D.next (D.run es) e).reported id at hw
      change (∃ slot, ((D.next (D.run es) e).groups op'.groupId).workerOf slot = some w) ∧ _
      rw [hw', hep]
      rcases hrep with hrep | ⟨request, root₁, he, hid, hsucc, hrp, hrep⟩
      · rw [hrep] at hw
        obtain ⟨hslot, hs⟩ := hreported w hw
        exact ⟨hslot, hs.later hes⟩
      · rw [hrep, Finset.mem_insert] at hw
        rcases hw with rfl | hw
        · obtain ⟨slot, hslot⟩ := hrp.workerOf
          refine ⟨⟨slot, ?_⟩, es, e, request, op, root₁, prefix_refl _, he, hid, rfl, hsucc,
            hrp.epoch.symm, hrp⟩
          rw [hg, hrp.group]
          exact hslot
        · obtain ⟨hslot, hs⟩ := hreported w hw
          exact ⟨hslot, hs.later hes⟩
    · obtain ⟨spec, hf⟩ := D.ready_formed (hok.restrict hes) hr hready
      obtain ⟨hf', -⟩ := hkeep hr hep hf
      refine ⟨⟨spec, root', hr', hf'⟩, fun w hw => ?_⟩
      change w ∈ (D.next (D.run es) e).reported id at hw
      rw [hrep] at hw
      cases hw

theorem OpsStep.completes {e : Event} (h : OpsStep D s e s') (hop : s.ops id = some op) (hnot : op.state ≠ .complete)
    (hop' : s'.ops id = some op') (hc : op'.state = .complete) :
    ∃ request root, e = .report request ∧ request.operationId = id ∧ request.succeeded = true ∧
      Reporting (reportArgs request) s op root ∧
      (insert request.workerId (s.reported id)).card = root.expectedTotal.toNat ∧
      s'.reported id = insert request.workerId (s.reported id) ∧
      ∀ gid, Quiet (s.groups gid) (s'.groups gid) := by
  have habsurd : s'.ops id ≠ s.ops id := by
    intro heq
    rw [hop', hop] at heq
    cases heq
    exact hnot hc
  cases h with
  | same hops => exact absurd (by rw [hops]) habsurd
  | fenced gid hops =>
    rw [hops] at hop'
    simp only [hop] at hop'
    split_ifs at hop'
    · cases hop'
      unfold Operation.abort at hc
      split_ifs at hc
      · exact absurd hc hnot
    · cases hop'
      exact absurd hc hnot
  | @created _ _ _ _ hnone _ _ _ hs' =>
    subst hs'
    exact absurd ((update_fresh hnone hop).trans hop.symm) habsurd
  | @failed _ _ _ _ _ _ hs' =>
    subst hs'
    rcases update_cases hop' with ⟨rfl, ⟨⟩⟩ | ⟨hid, -⟩
    · cases hc
    · exact absurd (update_of_ne hid ..) habsurd
  | @counted request op₁ root state he hrep hsucc hstate hs' =>
    subst hs'
    rcases update_cases hop' with ⟨rfl, ⟨⟩⟩ | ⟨hid, -⟩
    · cases hop.symm.trans hrep.stored
      have hcard : (insert request.workerId (s.reported request.operationId)).card =
          root.expectedTotal.toNat := by
        by_contra hne
        rw [if_neg hne] at hstate
        rw [show state = .complete from hc] at hstate
        cases hstate
      exact ⟨request, root, he, rfl, hsucc, hrep, hcard, update_self ..,
        fun gid => settle_quiet _ _ (marked _ s) gid⟩
    · exact absurd (update_of_ne hid ..) habsurd
  | @deleted _ _ _ _ _ hs' =>
    subst hs'
    obtain ⟨-, ⟨⟩⟩ | ⟨hid, -⟩ := update_cases hop'
    exact absurd (update_of_ne hid ..) habsurd

def Group.workers (g : Group) (slots : List String) : Finset String := (slots.filterMap g.workerOf).toFinset

theorem Group.card_workers_le (g : Group) (slots : List String) :
    (g.workers slots).card ≤ slots.length :=
  (toFinset_card_le _).trans (length_filterMap_le ..)

theorem Shape.mem_workers {spec : CollectiveGroupSpec} {g : Group} (h : Shape spec epoch g)
    {w : String} : w ∈ g.workers spec.slots ↔ ∃ slot, g.workerOf slot = some w := by
  rw [Group.workers, List.mem_toFinset, mem_filterMap]
  constructor
  · rintro ⟨slot, -, hw⟩
    exact ⟨slot, hw⟩
  · rintro ⟨slot, hw⟩
    obtain ⟨p, hp, -⟩ := map_eq_some_iff.1 hw
    exact ⟨slot, h.slots slot (mem_of_participant hp), hw⟩

theorem Quiet.workerOf {g g' : Group} (h : Quiet g g') : g'.workerOf = g.workerOf := by
  funext slot
  rw [Group.workerOf, h.participant, Group.workerOf]

/-- **A completed transfer has been reported by exactly the admitted workers**, in every run before
    which no refused join has swept the formed group. -/
theorem completion_sound (D : Deployment) (es : List D.Event) (e : D.Event) (id : String)
    (op op' : Operation) (hop : (D.run es).ops id = some op) (hnot : op.state ≠ .complete)
    (hop' : (D.run (es ++ [e])).ops id = some op') (hc : op'.state = .complete)
    (hok : Undisturbed D op.groupId es) :
    ∃ root, ((D.run (es ++ [e])).groups op.groupId).root = some root ∧
      (∀ w, w ∈ (D.run (es ++ [e])).reported id ↔
        ∃ slot, ((D.run (es ++ [e])).groups op.groupId).workerOf slot = some w) ∧
      ((D.run (es ++ [e])).reported id).card = root.expectedTotal.toNat ∧
      ∀ w ∈ (D.run (es ++ [e])).reported id, Succeeded D (es ++ [e]) id w op.epoch := by
  have hrun : D.run (es ++ [e]) = D.next (D.run es) e := Run.run_snoc ..
  rw [hrun] at hop' ⊢
  obtain ⟨request, root, he, hid, hsucc, hrep, hcard, hreported, hq⟩ :=
    (next_step (D.run es) e).ops.completes hop hnot hop' hc
  obtain ⟨⟨spec, _, hr₁, hf⟩, hold⟩ := D.transferring es id op hop hrep.nonterminal hok
  have hr : ((D.run es).groups op.groupId).root = some root := by
    rw [hrep.group]
    exact hrep.rooted
  cases hr.symm.trans hr₁
  obtain ⟨slot₀, hslot₀⟩ := hrep.workerOf
  have hsub : insert request.workerId ((D.run es).reported id) ⊆
      ((D.run es).groups op.groupId).workers spec.slots := by
    intro w hw
    rw [hf.present.shape.mem_workers]
    rcases Finset.mem_insert.1 hw with rfl | hw
    · exact ⟨slot₀, by rw [hrep.group]; exact hslot₀⟩
    · exact (hold w hw).1
  -- the cohort has no more workers than were counted
  have heq : insert request.workerId ((D.run es).reported id) =
      ((D.run es).groups op.groupId).workers spec.slots := by
    refine Finset.eq_of_subset_of_card_le hsub ?_
    rw [hcard, hf.present.rooted.expectedTotal]
    exact Group.card_workers_le ..
  refine ⟨root, by rw [(hq _).root]; exact hr, fun w => ?_, by rw [hreported, hcard], fun w hw => ?_⟩
  · rw [hreported, heq, hf.present.shape.mem_workers, (hq _).workerOf]
  · rw [hreported] at hw
    rcases Finset.mem_insert.1 hw with rfl | hw
    · exact ⟨es, e, request, op, root, prefix_refl _, he, hid, rfl, hsucc, hrep.epoch.symm, hrep⟩
    · exact (hold w hw).2.later (prefix_append ..)

def pairCreate (key : String) (epoch : UInt64) (id : String) : pairDeployment.Event :=
  pairEvent (.create ⟨some pairSpec, "v1", key, epoch⟩ id) fun _ h => List.mem_singleton.1 h

def pairReport (id worker : String) (succeeded : Bool) : pairDeployment.Event :=
  pairEvent (.report ⟨id, pairId, 1, worker, succeeded, "lost"⟩) fun _ h => nomatch h

def pairRunning : List pairDeployment.Event :=
  pairFormed ++ [pairCreate "k" 1 "x", pairReport "x" "b" true]

def pairOperation : Operation := ⟨pairId, 1, "v1", "m", "k", .running, ""⟩

theorem completion_sound_pair :
    (pairDeployment.run pairRunning).ops "x" = some pairOperation ∧
    (pairDeployment.run (pairRunning ++ [pairReport "x" "a" true])).ops "x" =
      some { pairOperation with state := .complete } ∧
    Undisturbed pairDeployment pairId pairRunning ∧
    ∃ root, ((pairDeployment.run (pairRunning ++ [pairReport "x" "a" true])).groups pairId).root =
        some root ∧
      (∀ w, w ∈ (pairDeployment.run (pairRunning ++ [pairReport "x" "a" true])).reported "x" ↔
        ∃ slot, ((pairDeployment.run (pairRunning ++ [pairReport "x" "a" true])).groups
          pairId).workerOf slot = some w) ∧
      ((pairDeployment.run (pairRunning ++ [pairReport "x" "a" true])).reported "x").card =
        root.expectedTotal.toNat ∧
      ∀ w ∈ (pairDeployment.run (pairRunning ++ [pairReport "x" "a" true])).reported "x",
        Succeeded pairDeployment (pairRunning ++ [pairReport "x" "a" true]) "x" w 1 := by
  obtain ⟨hop, hop'⟩ : (pairDeployment.run pairRunning).ops "x" = some pairOperation ∧
      (pairDeployment.run (pairRunning ++ [pairReport "x" "a" true])).ops "x" =
        some { pairOperation with state := .complete } := by decide +kernel
  have hok : Undisturbed pairDeployment pairId pairRunning :=
    Run.along_of_check (lapseFree pairDeployment pairId)
      (fun s e h => not_disturbsFormed_of_lapseFree h) (by decide +kernel)
  have hnot : pairOperation.state ≠ .complete := by decide
  have hsound := completion_sound pairDeployment pairRunning (pairReport "x" "a" true) "x"
    pairOperation { pairOperation with state := .complete } hop hnot hop' rfl hok
  rw [show pairOperation.groupId = pairId from rfl, show pairOperation.epoch = 1 from rfl] at hsound
  exact ⟨hop, hop', hok, hsound⟩

def pairMiscounted : List pairDeployment.Event :=
  pairRunning ++ [pairRegister "b" none, pairJoin "t0" "a" 1 5 none,
    pairRegister "c" (some ⟨"c", "2", "m"⟩), pairJoin "g0" "c" 2 0 none]

theorem completion_unsound :
    ((pairDeployment.run pairMiscounted).ops "x").map (·.state) = some .running ∧
    ((pairDeployment.run (pairMiscounted ++ [pairReport "x" "a" true])).ops "x").map (·.state) =
      some .complete ∧
    "b" ∈ (pairDeployment.run (pairMiscounted ++ [pairReport "x" "a" true])).reported "x" ∧
    "c" ∉ (pairDeployment.run (pairMiscounted ++ [pairReport "x" "a" true])).reported "x" ∧
    ((pairDeployment.run (pairMiscounted ++ [pairReport "x" "a" true])).groups pairId).workerOf "g0" =
      some "c" := by
  decide +kernel

end ModelExpress.Collective
