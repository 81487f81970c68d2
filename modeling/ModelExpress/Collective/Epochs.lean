/-
  ModelExpress collective refit — what a step does to the epoch of a group.
-/
import ModelExpress.Collective.Invariant

namespace ModelExpress.Collective

open Text Option

/-! ## Joins that are refused after the sweep -/

/-- The join with arguments `a` passes the first checks, sweeps a lapsed participant and is then
    refused because of a live one. -/
structure Disturbing (D : Deployment) (workers : Workers) (groupId : String) (e : Event) (g : Group)
    (a : JoinArgs) : Prop where
  request : ∃ request, e = .join request ∧ Prepares D.sha256 request a
  target : a.groupId = groupId
  admissible : joinPrecheck workers a = none
  lapsed : ∃ slot, g.lapsed workers a.modelName slot
  conflict : Conflicts workers a g

def DisturbsReady (D : Deployment) (workers : Workers) (groupId : String) (e : Event) (g : Group) : Prop :=
  ∃ a root, Disturbing D workers groupId e g a ∧ g.root = some root ∧ root.state = .ready

/-- Such a join hits a group that is READY or has a lane stamped. -/
def DisturbsFormed (D : Deployment) (workers : Workers) (groupId : String) (e : Event) (g : Group) :
    Prop :=
  ∃ a root, Disturbing D workers groupId e g a ∧ g.root = some root ∧
    needsEpochBump g a.laneIds root.epoch = true

variable {laneIds : List UInt32} {spec : CollectiveGroupSpec} {g : Group} {workers : Workers} {epoch : ℕ}
  {root : Root} {groupId : String} {o : JoinOutcome} {D : Deployment} {a : JoinArgs}

theorem needsEpochBump_iff (hr : g.root = some root) : needsEpochBump g laneIds root.epoch = true ↔
      root.state = .ready ∨ ∃ i ∈ laneIds, stamped g root.epoch i = true := by
  simp [needsEpochBump, anyLaneBootstrapped, hr, List.any_eq_true]

theorem DisturbsReady.formed {e : Event}
    (h : DisturbsReady D workers groupId e g) : DisturbsFormed D workers groupId e g := by
  obtain ⟨a, root, hd, hr, hready⟩ := h
  exact ⟨a, root, hd, hr, (needsEpochBump_iff hr).2 (Or.inl hready)⟩

/-! ## Steps within one epoch -/

/-- A step that keeps the epoch; if `keep`, it also keeps the workers of the slots. -/
structure Stays (keep : Prop) (g : Group) (root : Root) (g' : Group) (root' : Root) : Prop where
  epoch : root'.epoch = root.epoch
  planDigest : root'.planDigest = root.planDigest
  lanes : ∀ i lane, g.lanes i = some lane → g'.lanes i = some lane
  digests : ∀ slot d, g'.digests.lookup slot = some d →
    g.digests.lookup slot = some d ∨ d = root.planDigest
  joined : ∀ slot p, g'.participant slot = some p →
    g.participant slot = some p ∨ toNumber p.joinedEpoch = some root.epoch
  held : keep → ∀ slot p, g.participant slot = some p →
    ∃ p', g'.participant slot = some p' ∧ p'.workerId = p.workerId

section
variable {keep : Prop} {spec spec' : CollectiveGroupSpec} {workers : Workers} {g g' g'' : Group}
  {root root' root'' : Root}

theorem Stays.trans (h : Stays keep g root g' root') (h' : Stays keep g' root' g'' root'') :
    Stays keep g root g'' root'' where
  epoch := h'.epoch.trans h.epoch
  planDigest := h'.planDigest.trans h.planDigest
  lanes := fun i lane hi => h'.lanes i lane (h.lanes i lane hi)
  digests := fun slot d hd => by
    rcases h'.digests slot d hd with hd | hd
    · exact h.digests slot d hd
    · exact Or.inr (hd.trans h.planDigest)
  joined := fun slot p hp => by
    rcases h'.joined slot p hp with hp | hp
    · exact h.joined slot p hp
    · exact Or.inr (hp.trans (by rw [h.epoch]))
  held := fun hk slot p hp => by
    obtain ⟨p₁, hp₁, hw₁⟩ := h.held hk slot p hp
    obtain ⟨p₂, hp₂, hw₂⟩ := h'.held hk slot p₁ hp₁
    exact ⟨p₂, hp₂, hw₂.trans hw₁⟩

theorem Quiet.stays (h : Quiet g g') : Stays keep g root g' root where
  epoch := rfl
  planDigest := rfl
  lanes := fun i lane hi => by rw [h.lanes]; exact hi
  digests := fun slot d hd => Or.inl (h.digests slot ▸ hd)
  joined := fun slot p hp => Or.inl (h.participant slot ▸ hp)
  held := fun _ slot p hp => ⟨p, by rw [h.participant]; exact hp, rfl⟩

theorem Swept.stays {modelName : String} {owners : String → Prop}
    (h : Swept g g' (g.lapsed workers modelName) owners) (hr : g.root = some root)
    (hr' : g'.root = some root') (hk : keep → ¬ ∃ slot, g.lapsed workers modelName slot) :
    Stays keep g root g' root' := by
  have hroot : root' = root ∨ root' = root.clearSource := by
    rcases h.root_some hr with ⟨h₁, -⟩ | h₁
    · rw [hr'] at h₁; cases h₁; exact Or.inl rfl
    · rw [hr'] at h₁; cases h₁; exact Or.inr rfl
  refine ⟨by rcases hroot with rfl | rfl <;> rfl, by rcases hroot with rfl | rfl <;> rfl,
    fun i lane hi => by rw [h.lanes]; exact hi, fun slot d hd => Or.inl ?_,
    fun slot p hp => Or.inl (h.participant_iff.1 hp).1, fun hkeep slot p hp => ⟨p, ?_, rfl⟩⟩
  · by_cases hl : g.lapsed workers modelName slot
    · rw [(h.gone slot hl).2] at hd
      cases hd
    · rw [(h.kept slot hl).2] at hd
      exact hd
  · rw [h.participant_eq (hk hkeep)]
    exact hp

theorem Admission.stays (h : Admission workers a epoch g root o g' root') (hw : '|' ∉ a.workerId.toList)
    (he : root.epoch = epoch) (hd : root.planDigest = a.planDigest)
    (hk : keep → ∀ p, g.participant a.slotId = some p → p.workerId = a.workerId) :
    Stays keep g root g' root' := by
  have hpart := h.participant hw
  refine ⟨by rw [h.fields], by rw [h.fields], fun i lane hi => by rw [h.lanes]; exact hi,
    fun slot d hdig => ?_, fun slot p hp => ?_, fun hkeep slot p hp => ?_⟩
  · rw [h.digests] at hdig
    split_ifs at hdig
    · cases hdig
      exact Or.inr hd.symm
    · exact Or.inl hdig
  · rw [hpart] at hp
    split_ifs at hp
    · cases hp
      right
      show toNumber (decimal epoch) = some root.epoch
      rw [toNumber_decimal, he]
    · exact Or.inl hp
  · by_cases hs : slot = a.slotId
    · subst hs
      exact ⟨_, by rw [hpart, if_pos rfl], (hk hkeep p hp).symm⟩
    · exact ⟨p, by rw [hpart, if_neg hs]; exact hp, rfl⟩

theorem Settled.stays {expected : ℕ} {modelName : Option String}
    (h : Settled workers laneIds expected epoch modelName g root g' root') : Stays keep g root g' root' := by
  have hpart : ∀ slot, g'.participant slot = g.participant slot := fun slot => by
    rw [Group.participant, h.participants, Group.participant]
  refine ⟨by rw [h.fields], by rw [h.fields], fun i lane hi => by rw [h.lanes]; exact hi,
    fun slot d hd => Or.inl (by rw [h.digests] at hd; exact hd),
    fun slot p hp => Or.inl (by rw [hpart] at hp; exact hp),
    fun _ slot p hp => ⟨p, by rw [hpart]; exact hp, rfl⟩⟩

theorem Shape.stamp_stays {a : PublishArgs} (h : Shape spec a.epoch g) :
    Stays keep g root (stampLane a g) root := by
  unfold stampLane
  split_ifs with hst
  · exact (Quiet.refl g).stays
  · refine ⟨rfl, rfl, fun i lane hi => ?_, fun _ _ hd => Or.inl hd, fun _ _ hp => Or.inl hp,
      fun _ slot p hp => ⟨p, hp, rfl⟩⟩
    by_cases hid : i = a.laneId
    · subst hid
      exact absurd (stamped_iff.2 ⟨lane, hi, (h.lanes _ lane hi).2⟩) hst
    · show Function.update g.lanes a.laneId _ i = some lane
      rw [Function.update_of_ne hid]
      exact hi

theorem Shape.clear_none (h : Shape spec epoch g)
    (hl : ∀ i ∈ spec.laneIds, i ∈ laneIds) (i : UInt32) : cleared laneIds g.lanes i = none := by
  unfold cleared
  split_ifs with hi
  · rfl
  · cases hlane : g.lanes i with
    | none => rfl
    | some lane => exact absurd (hl i (h.lanes i lane hlane).1) hi

/-! ## One step -/

variable {D : Deployment} {groupId : String} {e : Event}

theorem JoinStep.epochs {ops : Operations} {c : Cell}
    (h : Present D groupId spec g root) (hr : g.root = some root) (hreq : JoinRequest D a spec')
    (hid : a.groupId = groupId) (hstep : JoinStep workers a ⟨g, ops⟩ (o, c))
    (hk : keep → needsEpochBump g a.laneIds root.epoch = true)
    (hok : keep → joinPrecheck workers a = none → Conflicts workers a g →
      ¬ ∃ slot, g.lapsed workers a.modelName slot) :
    ∃ root', c.group.root = some root' ∧ (Stays keep g root c.group root' ∨
      (root'.epoch = root.epoch + 1 ∧ ∀ i, c.group.lanes i = none)) := by
  cases hstep with
  | refused => exact ⟨root, hr, Or.inl (Quiet.refl g).stays⟩
  | created hpre hn =>
    rw [show g.root = none from hn] at hr
    cases hr
  | rejected hpre hr' hc ho hs =>
    obtain ⟨root', hroot', -⟩ := h.swept hr hs fun _ hw => hw
    exact ⟨root', hroot', Or.inl (hs.stays hr hroot' fun hkeep => hok hkeep hpre hc)⟩
  | @joined _ root₀ root₁ root' g₁ _ _ hr' _ hn hs hr₁ ha =>
    obtain rfl : root₀ = root := mem_unique hr' hr
    -- the epoch is kept, so nobody lapsed or was replaced, and the digest is the group's
    have hsame : root₀.planDigest = a.planDigest := by
      by_contra hne
      exact hn (Or.inr hne)
    have hno : keep → (¬ ∃ slot, g.lapsed workers a.modelName slot) ∧
        ¬ ∃ w, Replaces workers a g w := fun hkeep =>
      not_or.1 fun hor => hn (Or.inl ⟨hk hkeep, hor⟩)
    have h₁ : Stays keep g root₀ g₁ root₁ := hs.stays hr hr₁ fun hkeep => (hno hkeep).1
    refine ⟨root', ha.stored, Or.inl (h₁.trans (ha.stays hreq.worker_free h₁.epoch
      (h₁.planDigest.trans hsame) fun hkeep p hp => ?_))⟩
    by_contra hne
    obtain ⟨record, hrec, hparse⟩ := participant_eq_some.1 hp
    obtain ⟨hrec, hlive⟩ := hs.lookup_iff.1 hrec
    exact (hno hkeep).2 ⟨p.workerId, record, p, hrec, hlive, hparse, rfl, hne⟩
  | @bumped _ root₀ root' g₁ g' _ _ hr' _ _ hs _ ha =>
    obtain rfl : root₀ = root := mem_unique hr' hr
    have hss := h.rooted.sameShape hreq hid
    refine ⟨root', ha.stored, Or.inr ⟨by rw [ha.fields]; rfl, fun i => ?_⟩⟩
    show g'.lanes i = none
    rw [ha.lanes]
    show cleared a.laneIds g₁.lanes i = none
    rw [hs.lanes]
    exact h.shape.clear_none (fun i hi => by rw [hreq.laneIds_eq]; exact hss.mem_laneIds hi) i

/-- **A step keeps the epoch or moves it by one and clears the lanes.** -/
theorem GroupStep.epochs (h : Present D groupId spec g root) (hr : g.root = some root)
    (hs : GroupStep D workers groupId e g g') : ∃ root', g'.root = some root' ∧
      (Stays (needsEpochBump g spec.laneIds root.epoch = true ∧ ¬ DisturbsFormed D workers groupId e g)
          g root g' root' ∨
        (root'.epoch = root.epoch + 1 ∧ ∀ i, g'.lanes i = none)) := by
  cases hs with
  | quiet hq => exact ⟨root, hq.root.trans hr, Or.inl hq.stays⟩
  | @join request a _ _ _ _ he hprep hreq hid hstep hg =>
    subst hg
    have hss := h.rooted.sameShape hreq hid
    have hbump : needsEpochBump g spec.laneIds root.epoch = true →
        needsEpochBump g a.laneIds root.epoch = true := by
      rw [needsEpochBump_iff hr, needsEpochBump_iff hr, hreq.laneIds_eq]
      exact Or.imp_right fun ⟨i, hi, hs⟩ => ⟨i, hss.mem_laneIds hi, hs⟩
    refine hstep.epochs h hr hreq hid (fun hkeep => hbump hkeep.1) fun hkeep hpre hc hl => ?_
    exact hkeep.2 ⟨a, root, ⟨⟨request, he, hprep⟩, hid, hpre, hl, hc⟩, hr, hbump hkeep.1⟩
  | refresh hr' hl hstep hg =>
    subst hg
    cases hr'.symm.trans hr
    rw [h.rooted.laneIds_eq hl] at hstep
    cases hstep with
    | notFound => exact ⟨_, hr, Or.inl (Quiet.refl g).stays⟩
    | kept hr'' hn hs hr₁ hset =>
      cases hr''.symm.trans hr
      exact ⟨_, hset.stored, Or.inl ((hs.stays hr hr₁ fun hkeep hl => hn ⟨hkeep.1, hl⟩).trans hset.stays)⟩
    | @bumped _ _ g₁ g' _ hr'' _ _ hs _ hset =>
      cases hr''.symm.trans hr
      refine ⟨_, hset.stored, Or.inr ⟨by rw [hset.fields]; rfl, fun i => ?_⟩⟩
      show g'.lanes i = none
      rw [hset.lanes]
      show cleared spec.laneIds g₁.lanes i = none
      rw [hs.lanes]
      exact h.shape.clear_none (fun _ hi => hi) i
  | @publish _ _ _ _ _ hr' _ _ hstep =>
    cases hr'.symm.trans hr
    cases hstep with
    | notFound | stale | notLeader | conflict => exact ⟨_, hr, Or.inl (Quiet.refl g).stays⟩
    | published hr'' he hlive hset =>
      cases hr''.symm.trans hr
      exact ⟨_, hset.stored, Or.inl ((he.symm ▸ h.shape : Shape spec _ g).stamp_stays.trans hset.stays)⟩
  | fail _ hr' hl _ hg =>
    cases hr'.symm.trans hr
    subst hg
    rw [h.rooted.laneIds_eq hl]
    exact ⟨advancedRoot _, advance_root hr spec.laneIds, Or.inr ⟨rfl, fun i => h.shape.clear_none (fun _ hi => hi) i⟩⟩

end

theorem GroupStep.epoch_le {e : Event} {g' : Group} {root' : Root}
    (hs : GroupStep D workers groupId e g g') (h : Present D groupId spec g root)
    (hr : g.root = some root) (hr' : g'.root = some root') : root.epoch ≤ root'.epoch := by
  obtain ⟨_, hr₁, hst | ⟨he, -⟩⟩ := hs.epochs h hr
  · cases hr'.symm.trans hr₁
    exact hst.epoch.ge
  · cases hr'.symm.trans hr₁
    omega

/-! ## Sealed and formed groups -/

def Group.workerOf (g : Group) (slot : String) : Option String := (g.participant slot).map (·.workerId)

def Group.ncclIdOf (g : Group) (laneId : UInt32) : Option String :=
  (g.lanes laneId).map (·.ncclUniqueId)

theorem DeclOk.exists_lane (h : DeclOk spec) : ∃ i, i ∈ spec.laneIds := by
  obtain ⟨slot, hs⟩ := List.exists_mem_of_ne_nil _ h.trainers_ne
  obtain ⟨lane, hl, -⟩ := h.covered slot (List.mem_append_left _ hs)
  exact ⟨lane.laneId, List.mem_map.2 ⟨lane, hl, rfl⟩⟩

section
variable {D : Deployment} {groupId : String} {spec : CollectiveGroupSpec} {keep : Prop} {g g' : Group}
  {root root' : Root}

theorem Sealed.needsEpochBump (h : Sealed spec root g) (hd : DeclOk spec) (hr : g.root = some root) :
    needsEpochBump g spec.laneIds root.epoch = true := by
  obtain ⟨i, hi⟩ := hd.exists_lane
  exact (needsEpochBump_iff hr).2 (Or.inr ⟨i, hi, h.lanes i hi⟩)

section
variable (h : Stays keep g root g' root')
include h

theorem Stays.sealed (hs : Sealed spec root g) : Sealed spec root' g' := by
  refine ⟨fun slot p hp => ?_, fun i hi => ?_, fun slot d hd => ?_⟩
  · rw [h.epoch]
    exact (h.joined slot p hp).elim (hs.joined slot p) id
  · obtain ⟨lane, hl, he⟩ := stamped_iff.1 (hs.lanes i hi)
    exact stamped_iff.2 ⟨lane, h.lanes i lane hl, he.trans h.epoch.symm⟩
  · rw [h.planDigest]
    exact (h.digests slot d hd).elim (hs.agree slot d) id

theorem Stays.lanes_eq (hs : Sealed spec root g) (hshape : Shape spec root'.epoch g') : g'.lanes = g.lanes := by
  funext i
  cases hl : g.lanes i with
  | some lane => exact h.lanes i lane hl
  | none =>
    cases hl' : g'.lanes i with
    | none => rfl
    | some lane =>
      obtain ⟨_, hlane', -⟩ := stamped_iff.1 (hs.lanes i (hshape.lanes i lane hl').1)
      cases hl.symm.trans hlane'

theorem Stays.full (hk : keep) (hf : Full spec g) (hshape : Shape spec root.epoch g) : Full spec g' := by
  intro slot hs
  obtain ⟨p, hp⟩ := hshape.parsed slot (hf slot hs)
  obtain ⟨p', hp', -⟩ := h.held hk slot p hp
  exact mem_of_participant hp'

theorem Stays.workerOf_eq (hk : keep) (hf : Full spec g)
    (hshape : Shape spec root.epoch g) (hshape' : Shape spec root'.epoch g') : g'.workerOf = g.workerOf := by
  funext slot
  unfold Group.workerOf
  by_cases hs : slot ∈ spec.slots
  · obtain ⟨p, hp⟩ := hshape.parsed slot (hf slot hs)
    obtain ⟨p', hp', hw⟩ := h.held hk slot p hp
    rw [hp, hp', map_some, map_some, hw]
  · have hnone : ∀ {g₁ : Group} {epoch : ℕ}, Shape spec epoch g₁ → g₁.participant slot = none := by
      intro g₁ _ h₁
      cases hp : g₁.participant slot with
      | none => rfl
      | some p => exact absurd (h₁.slots slot (mem_of_participant hp)) hs
    rw [hnone hshape, hnone hshape']

end

end

/-! ## Runs -/

namespace Deployment
variable (D : Deployment) {es₁ es₂ : List D.Event} {groupId : String} {spec : CollectiveGroupSpec}
  {root : Root}

theorem epoch_mono (hp : es₁ <+: es₂) (hr : ((D.run es₁).groups groupId).root = some root)
    (h : Present D groupId spec ((D.run es₁).groups groupId) root) :
    ∃ root', ((D.run es₂).groups groupId).root = some root' ∧
      Present D groupId spec ((D.run es₂).groups groupId) root' ∧ root.epoch ≤ root'.epoch := by
  refine Run.stable (P := fun s : Store => ∃ root', (s.groups groupId).root = some root' ∧
    Present D groupId spec (s.groups groupId) root' ∧ root.epoch ≤ root'.epoch) ?_ hp ⟨root, hr, h, le_rfl⟩
  rintro s e ⟨_, hr₁, h₁, hle⟩
  have hstep := (next_step s e).group groupId
  obtain ⟨root₂, hr₂, h₂⟩ := h₁.step hr₁ hstep
  exact ⟨root₂, hr₂, h₂, hle.trans (hstep.epoch_le h₁ hr₁ hr₂)⟩

/-- The epoch has moved since, or the lanes are those of the group that was sealed. -/
abbrev SealedSince (D : Deployment) (groupId : String) (spec : CollectiveGroupSpec) (root : Root) (g : Group) (s : Store) :
    Prop :=
  ∃ root', (s.groups groupId).root = some root' ∧ Present D groupId spec (s.groups groupId) root' ∧
    (root.epoch < root'.epoch ∨ (root'.epoch = root.epoch ∧ root'.planDigest = root.planDigest ∧
      Sealed spec root' (s.groups groupId) ∧ (s.groups groupId).lanes = g.lanes))

theorem sealed_later (hp : es₁ <+: es₂) (hr : ((D.run es₁).groups groupId).root = some root)
    (h : Present D groupId spec ((D.run es₁).groups groupId) root)
    (hs : Sealed spec root ((D.run es₁).groups groupId)) :
    SealedSince D groupId spec root ((D.run es₁).groups groupId) (D.run es₂) := by
  refine Run.stable (P := SealedSince D groupId spec root _) ?_ hp ⟨root, hr, h, Or.inr ⟨rfl, rfl, hs, rfl⟩⟩
  rintro s e ⟨_, hr₁, h₁, hcase⟩
  have hstep := (next_step s e).group groupId
  obtain ⟨root₂, hr₂, h₂⟩ := h₁.step hr₁ hstep
  refine ⟨root₂, hr₂, h₂, ?_⟩
  obtain ⟨_, hr₃, hst⟩ := hstep.epochs h₁ hr₁
  cases hr₂.symm.trans hr₃
  rcases hst with hst | ⟨he, -⟩
  · rcases hcase with hlt | ⟨he, hd, hsl, hl⟩
    · exact Or.inl (hst.epoch ▸ hlt)
    · exact Or.inr ⟨hst.epoch.trans he, hst.planDigest.trans hd, hst.sealed hsl,
        (hst.lanes_eq hsl h₂.shape).trans hl⟩
  · left
    rcases hcase with hlt | ⟨he', -⟩
    · omega
    · omega

/-- **Epochs never go back**, and the root of a group stays. -/
theorem epochs_monotone (es : List D.Event) (groupId : String) :
    Monotone fun n => ((D.run (es.take n)).groups groupId).root.elim 0 (·.epoch + 1) := by
  intro m n hle
  dsimp only
  cases hr : ((D.run (es.take m)).groups groupId).root with
  | none => exact Nat.zero_le _
  | some root =>
    obtain ⟨_, h⟩ := (D.groupInv _ groupId).present root hr
    obtain ⟨_, hr', -, hle⟩ := D.epoch_mono (List.take_prefix_take_left hle) hr h
    rw [hr']
    exact Nat.succ_le_succ hle

/-- **A worker holds at most one slot of a group.** -/
theorem one_slot_each (es : List D.Event) (groupId workerId : String) :
    {slot | ∃ p ∈ ((D.run es).groups groupId).participant slot, p.workerId = workerId}.Subsingleton := by
  rintro slot ⟨p, hp, rfl⟩ slot' ⟨p', hp', hw⟩
  cases hr : ((D.run es).groups groupId).root with
  | none => exact absurd (mem_of_participant hp) (((D.groupInv es groupId).absent hr).1 slot)
  | some root =>
    obtain ⟨_, h⟩ := (D.groupInv es groupId).present root hr
    exact h.shape.distinct slot slot' p p' hp hp' hw.symm

end Deployment

end ModelExpress.Collective
