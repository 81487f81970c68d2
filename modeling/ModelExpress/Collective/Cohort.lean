/-
  ModelExpress collective refit — what READY promises.
-/
import ModelExpress.Collective.Epochs

namespace ModelExpress.Collective

open Text List Assoc Option

/-! ## READY groups are full -/

section
variable {D : Deployment} {groupId : String} {spec spec' : CollectiveGroupSpec} {workers : Workers}
  {g g' : Group} {root root' : Root} {e : Event} {epoch epoch' : ℕ}

theorem Settled.full {laneIds : List UInt32} {expected : ℕ} {modelName : Option String}
    (h : Settled workers laneIds expected epoch modelName g root g' root') (hready : root'.state = .ready)
    (hs : Shape spec epoch' g') (he : expected = spec.slots.length) : Full spec g' :=
  (h.ready.1 hready).full hs he

theorem Admission.full {a : JoinArgs} {o : JoinOutcome}
    (h : Admission workers a epoch g root o g' root') (hready : root'.state = .ready)
    (hreq : JoinRequest D a spec') (hss : SameShape spec spec') (hd : DeclOk spec)
    (hs : Shape spec epoch' g') : Full spec g' :=
  (h.ready.1 hready).full hs
    (hreq.expectedTotal.trans (hss.length_slots hd hreq.decl).symm)

theorem Full.congr (h : Full spec g) (hm : ∀ slot, g'.participants.lookup slot = g.participants.lookup slot) :
    Full spec g' := by
  intro slot hs
  rw [mem_iff_lookup, hm, ← mem_iff_lookup (s := g.participants)]
  exact h slot hs

theorem GroupStep.full (h : Present D groupId spec g root) (hr : g.root = some root)
    (hs : GroupStep D workers groupId e g g') (h' : Present D groupId spec g' root')
    (hr' : g'.root = some root') (hok : ¬ DisturbsReady D workers groupId e g)
    (hf : root.state = .ready → Full spec g) (hready : root'.state = .ready) : Full spec g' := by
  cases hs with
  | quiet hq =>
    obtain rfl := some.inj ((hq.root.symm.trans hr').symm.trans hr)
    exact (hf hready).congr hq.participants
  | @join request a _ _ _ _ he hprep hreq hid hstep hg =>
    subst hg
    have hss := h.rooted.sameShape hreq hid
    cases hstep with
    | refused =>
      cases hr'.symm.trans hr
      exact hf hready
    | created hpre hn =>
      rw [show g.root = none from hn] at hr
      cases hr
    | rejected hpre hr'' hc ho hs =>
      -- the state is not recomputed: it was READY before, so nobody was swept
      obtain ⟨_, hr₁, -, -, hstate, -⟩ := h.swept hr hs fun _ hw => hw
      cases hr'.symm.trans hr₁
      rw [hstate] at hready
      refine (hf hready).congr fun slot => (hs.kept slot fun hl => ?_).1
      exact hok ⟨a, root, ⟨⟨request, he, hprep⟩, hid, hpre, ⟨slot, hl⟩, hc⟩, hr, hready⟩
    | joined _ _ _ _ _ _ ha | bumped _ _ _ _ _ _ ha =>
      cases hr'.symm.trans ha.stored
      exact ha.full hready hreq hss h.rooted.decl h'.shape
  | refresh _ _ hstep hg =>
    subst hg
    cases hstep with
    | notFound hn => rw [show g.root = none from hn] at hr; cases hr
    | kept hr'' _ _ _ hset | bumped hr'' _ _ _ _ hset =>
      cases hr''.symm.trans hr
      cases hr'.symm.trans hset.stored
      exact hset.full hready h'.shape h.rooted.expectedTotal
  | publish _ _ _ hstep =>
    cases hstep with
    | notFound hn => rw [hn] at hr; cases hr
    | stale | notLeader | conflict => obtain rfl := mem_unique hr' hr; exact hf hready
    | published hr'' _ _ hset =>
      cases hr''.symm.trans hr
      cases hr'.symm.trans hset.stored
      exact hset.full hready h'.shape h.rooted.expectedTotal
  | fail _ _ _ _ hg =>
    subst hg
    obtain rfl := mem_unique hr' (advance_root hr spec.laneIds)
    cases hready

theorem GroupStep.full_created (hs : GroupStep D workers groupId e g g') (hr : g.root = none)
    (h' : Present D groupId spec g' root') (hr' : g'.root = some root') (hready : root'.state = .ready) :
    Full spec g' := by
  cases hs with
  | quiet hq => rw [hq.root, hr] at hr'; cases hr'
  | join _ _ hreq hid hstep hg =>
    subst hg
    have hss := h'.rooted.sameShape hreq hid
    cases hstep with
    | refused => rw [hr] at hr'; cases hr'
    | created _ _ _ ha =>
      cases hr'.symm.trans ha.stored
      exact ha.full hready hreq hss h'.rooted.decl h'.shape
    | rejected _ hr'' | joined _ hr'' | bumped _ hr'' => rw [show g.root = _ from hr''] at hr; cases hr
  | refresh hr'' | publish hr'' | fail ids hr'' => rw [hr] at hr''; cases hr''

end

/-- No step of the run is a join that sweeps a READY group and is refused. -/
def ReadyUndisturbed (D : Deployment) (groupId : String) (es : List D.Event) : Prop :=
  Run.Along D.next Store.empty
    (fun s e => ¬ DisturbsReady D s.workers groupId e.1 (s.groups groupId)) es

variable {groupId : String} {root : Root}

theorem Deployment.ready_full (D : Deployment) {es : List D.Event}
    (hok : ReadyUndisturbed D groupId es) (hr : ((D.run es).groups groupId).root = some root) :
    ∃ spec, Present D groupId spec ((D.run es).groups groupId) root ∧
      (root.state = .ready → Full spec ((D.run es).groups groupId)) := by
  refine Run.invariant_along (P := fun s : Store => ∀ root, (s.groups groupId).root = some root →
    ∃ spec, Present D groupId spec (s.groups groupId) root ∧
      (root.state = .ready → Full spec (s.groups groupId))) ?_ ?_
    (Run.Along.and_invariant (I := fun s : Store => GroupInv D groupId (s.groups groupId)) hok
      fun es => D.groupInv es groupId) root hr
  · rintro root ⟨⟩
  · rintro s e ⟨hinv, hok⟩ ih root' hr'
    have hstep := (next_step s e).group groupId
    cases hr₀ : (s.groups groupId).root with
    | none =>
      obtain ⟨spec, h'⟩ := (hinv.step hstep).present root' hr'
      exact ⟨spec, h', hstep.full_created hr₀ h' hr'⟩
    | some root₀ =>
      obtain ⟨spec, h, hf⟩ := ih root₀ hr₀
      obtain ⟨_, hr₁, h₁⟩ := h.step hr₀ hstep
      cases hr₁.symm.trans hr'
      exact ⟨spec, h₁, hstep.full h hr₀ h₁ hr₁ hok hf⟩

/-- The cohort of a READY group is complete: what readers of the state rely on. -/
structure Complete (g : Group) (root : Root) : Prop where
  admitted : g.participants.entries.length = root.expectedTotal.toNat
  joined : ∀ slot record, g.participants.lookup slot = some record →
    ∃ p, parseParticipant record = some p ∧ toNumber p.joinedEpoch = some root.epoch
  lanes : ∃ lanes, decodeLanes root.lanes = .ok lanes ∧
    ∀ lane ∈ lanes, stamped g root.epoch lane.laneId = true
  digests : ∀ slot ∈ splitSlots root.expectedTrainerSlots ++ splitSlots root.expectedGeneratorSlots,
    g.digests.lookup slot = some root.planDigest

variable {spec : CollectiveGroupSpec} {D : Deployment}

theorem RootOf.splitSlots_eq (h : RootOf D groupId spec root) :
    splitSlots root.expectedTrainerSlots ++ splitSlots root.expectedGeneratorSlots = spec.slots := by
  rw [h.trainers, h.generators,
    splitSlots_join fun s hs => h.decl.slot s (mem_append_left _ hs),
    splitSlots_join fun s hs => h.decl.slot s (mem_append_right _ hs)]
  rfl

theorem complete_of_sealed {g : Group}
    (h : Present D groupId spec g root) (hs : Sealed spec root g) (hf : Full spec g) : Complete g root := by
  refine ⟨?_, fun slot record hr => ?_, ⟨_, h.rooted.decodeLanes_eq, fun lane hl => ?_⟩,
    fun slot hslot => ?_⟩
  · rw [h.rooted.expectedTotal]
    exact length_of_mem h.rooted.decl.slots_nodup fun slot =>
      ⟨h.shape.slots slot, hf slot⟩
  · obtain ⟨p, hp⟩ := h.shape.parsed slot (mem_iff_lookup.2 ⟨record, hr⟩)
    obtain ⟨_, hr', hparse⟩ := participant_eq_some.1 hp
    cases hr.symm.trans hr'
    exact ⟨p, hparse, hs.joined slot p hp⟩
  · refine hs.lanes lane.laneId ?_
    rw [← lanesFromSpec_laneIds]
    exact mem_map.2 ⟨lane, hl, rfl⟩
  · rw [h.rooted.splitSlots_eq] at hslot
    obtain ⟨d, hd⟩ := mem_iff_lookup.1 ((h.shape.digests slot).2 (hf slot hslot))
    rw [hd, hs.agree slot d hd]

/-- **READY means a complete cohort**, in every run whose joins into the READY group are not refused
    after a sweep. -/
theorem ready_complete (D : Deployment) (groupId : String) (es : List D.Event)
    (hok : ReadyUndisturbed D groupId es) (root : Root)
    (hr : ((D.run es).groups groupId).root = some root) (hready : root.state = .ready) :
    Complete ((D.run es).groups groupId) root := by
  obtain ⟨spec, h, hf⟩ := D.ready_full hok hr
  exact complete_of_sealed h (h.ready hready) (hf hready)

def lapseFree (D : Deployment) (groupId : String) (s : Store) (e : D.Event) : Bool :=
  match e.1 with
  | .join request =>
    request.spec.all fun spec => !(sweepExpired s.workers spec.modelName (s.groups groupId)).2
  | _ => true

theorem not_disturbsFormed_of_lapseFree {s : Store} {e : D.Event} (h : lapseFree D groupId s e = true) :
    ¬ DisturbsFormed D s.workers groupId e.1 (s.groups groupId) := by
  rintro ⟨a, root, ⟨⟨_, he, spec, role, _, _, hv, -, -, rfl⟩, -, -, hl, -⟩, -, -⟩
  have hspec := (validateJoin_ok hv).declared
  simp only [lapseFree, he, hspec, all_some, Bool.not_eq_true'] at h
  rw [(sweepExpired_dropped s.workers spec.modelName).2 hl] at h
  cases h

theorem ready_complete_formed : ReadyUndisturbed pairDeployment pairId pairFormed ∧ ∃ root,
    ((pairDeployment.run pairFormed).groups pairId).root = some root ∧ root.state = .ready ∧
      Complete ((pairDeployment.run pairFormed).groups pairId) root := by
  have hok : ReadyUndisturbed pairDeployment pairId pairFormed :=
    Run.along_of_check (lapseFree pairDeployment pairId)
      (fun s e h hd => not_disturbsFormed_of_lapseFree h hd.formed) (by decide +kernel)
  obtain ⟨root, hr, hs⟩ : ∃ root, ((pairDeployment.run pairFormed).groups pairId).root = some root ∧
      root.state = .ready := exists_root_of_any (by decide +kernel)
  exact ⟨hok, root, hr, hs, ready_complete pairDeployment pairId pairFormed hok root hr hs⟩

def pairSwept : List pairDeployment.Event :=
  pairFormed ++ [pairRegister "b" none, pairJoin "t0" "a" 1 5 none]

theorem ready_incomplete : ∃ root,
    ((pairDeployment.run pairSwept).groups pairId).root = some root ∧ root.state = .ready ∧
      ¬ Complete ((pairDeployment.run pairSwept).groups pairId) root := by
  obtain ⟨root, hr, hs, htotal, hlen⟩ : ∃ root,
      ((pairDeployment.run pairSwept).groups pairId).root = some root ∧ root.state = .ready ∧
      root.expectedTotal = 2 ∧
      ((pairDeployment.run pairSwept).groups pairId).participants.entries.length = 1 :=
    exists_root_of_any (by decide +kernel)
  refine ⟨root, hr, hs, fun hc => ?_⟩
  have hadm := hc.admitted
  rw [hlen, htotal] at hadm
  exact absurd hadm (by decide)

/-! ## One epoch, one cohort -/

/-- No step of the run is a join that sweeps a READY or bootstrapped group and is refused. -/
def Undisturbed (D : Deployment) (groupId : String) (es : List D.Event) : Prop :=
  Run.Along D.next Store.empty
    (fun s e => ¬ DisturbsFormed D s.workers groupId e.1 (s.groups groupId)) es

theorem Undisturbed.restrict {es₁ es₂ : List D.Event}
    (h : Undisturbed D groupId es₂) (hp : es₁ <+: es₂) : Undisturbed D groupId es₁ :=
  Run.Along.restrict h hp

theorem Undisturbed.ready {es : List D.Event} (h : Undisturbed D groupId es) : ReadyUndisturbed D groupId es :=
  Run.Along.mono h fun _ _ hn hd => hn hd.formed

/-- A full cohort over stamped lanes. -/
structure Formed (D : Deployment) (groupId : String) (spec : CollectiveGroupSpec) (g : Group)
    (root : Root) : Prop where
  present : Present D groupId spec g root
  closed : Sealed spec root g
  full : Full spec g

theorem GroupStep.formed {workers : Workers} {e : Event} {g g' : Group}
    (hs : GroupStep D workers groupId e g g') (hr : g.root = some root)
    (h : Formed D groupId spec g root) (hok : ¬ DisturbsFormed D workers groupId e g) :
    ∃ root', g'.root = some root' ∧ Present D groupId spec g' root' ∧ (root.epoch < root'.epoch ∨
      (root'.epoch = root.epoch ∧ Formed D groupId spec g' root' ∧ g'.lanes = g.lanes ∧
        g'.workerOf = g.workerOf)) := by
  obtain ⟨root', hr', h'⟩ := h.present.step hr hs
  refine ⟨root', hr', h', ?_⟩
  obtain ⟨_, hr₁, hst⟩ := hs.epochs h.present hr
  cases hr'.symm.trans hr₁
  rcases hst with hst | ⟨he, -⟩
  · have hkeep := And.intro (h.closed.needsEpochBump h.present.rooted.decl hr) hok
    exact Or.inr ⟨hst.epoch, ⟨h', hst.sealed h.closed, hst.full hkeep h.full h.present.shape⟩,
      hst.lanes_eq h.closed h'.shape, hst.workerOf_eq hkeep h.full h.present.shape h'.shape⟩
  · left
    omega

theorem Deployment.ready_formed (D : Deployment) {es : List D.Event} (hok : Undisturbed D groupId es)
    (hr : ((D.run es).groups groupId).root = some root) (hready : root.state = .ready) :
    ∃ spec, Formed D groupId spec ((D.run es).groups groupId) root := by
  obtain ⟨spec, h, hf⟩ := D.ready_full hok.ready hr
  exact ⟨spec, h, h.ready hready, hf hready⟩

/-- The epoch has moved since, or the group is the one that was formed. -/
abbrev FormedSince (D : Deployment) (groupId : String) (spec : CollectiveGroupSpec) (root : Root) (g : Group) (s : Store) :
    Prop :=
  ∃ root', (s.groups groupId).root = some root' ∧ Present D groupId spec (s.groups groupId) root' ∧
    (root.epoch < root'.epoch ∨ (root'.epoch = root.epoch ∧ Formed D groupId spec (s.groups groupId) root' ∧
      (s.groups groupId).lanes = g.lanes ∧ (s.groups groupId).workerOf = g.workerOf))

theorem Deployment.formed_later (D : Deployment) {es₁ es₂ : List D.Event}
    (hp : es₁ <+: es₂) (hok : Undisturbed D groupId es₂) (hr : ((D.run es₁).groups groupId).root = some root)
    (h : Formed D groupId spec ((D.run es₁).groups groupId) root) :
    FormedSince D groupId spec root ((D.run es₁).groups groupId) (D.run es₂) := by
  refine Run.later (P := FormedSince D groupId spec root _) ?_ hp hok ⟨root, hr, h.present, Or.inr ⟨rfl, h, rfl, rfl⟩⟩
  rintro s e hok ⟨_, hr₁, h₁, hlt | ⟨he, hf, hl, hw⟩⟩
  · have hstep := (next_step s e).group groupId
    obtain ⟨root₂, hr₂, h₂⟩ := h₁.step hr₁ hstep
    have hle := hstep.epoch_le h₁ hr₁ hr₂
    exact ⟨root₂, hr₂, h₂, Or.inl (hlt.trans_le hle)⟩
  · obtain ⟨root₂, hr₂, h₂, hlt | ⟨he₂, hf₂, hl₂, hw₂⟩⟩ := ((next_step s e).group groupId).formed hr₁ hf hok
    · exact ⟨root₂, hr₂, h₂, Or.inl (he ▸ hlt)⟩
    · exact ⟨root₂, hr₂, h₂, Or.inr ⟨he₂.trans he, hf₂, hl₂.trans hl, hw₂.trans hw⟩⟩

/-- **One epoch has one cohort**: from a READY moment on, the workers of the slots and the bootstrap
    ids of the lanes stay the same until the epoch moves. -/
theorem cohort_agreement (D : Deployment) (groupId : String) (es₁ es₂ : List D.Event) (hp : es₁ <+: es₂)
    (hok : Undisturbed D groupId es₂) (root₁ root₂ : Root) (h₁ : ((D.run es₁).groups groupId).root = some root₁)
    (h₂ : ((D.run es₂).groups groupId).root = some root₂) (hready : root₁.state = .ready)
    (he : root₁.epoch = root₂.epoch) :
    ((D.run es₁).groups groupId).workerOf = ((D.run es₂).groups groupId).workerOf ∧
      ((D.run es₁).groups groupId).ncclIdOf = ((D.run es₂).groups groupId).ncclIdOf := by
  obtain ⟨spec, h⟩ := D.ready_formed (hok.restrict hp) h₁ hready
  obtain ⟨_, hr', -, hcase⟩ := D.formed_later hp hok h₁ h
  cases hr'.symm.trans h₂
  rcases hcase with hlt | ⟨-, -, hl, hw⟩
  · omega
  · refine ⟨hw.symm, ?_⟩
    funext i
    rw [Group.ncclIdOf, Group.ncclIdOf, hl]

def pairRejoined : List pairDeployment.Event := pairFormed ++ [pairJoin "g0" "b" 2 0 none]

theorem cohort_agreement_rejoined : pairFormed <+: pairRejoined ∧
    Undisturbed pairDeployment pairId pairRejoined ∧ ∃ root₁ root₂,
      ((pairDeployment.run pairFormed).groups pairId).root = some root₁ ∧
      ((pairDeployment.run pairRejoined).groups pairId).root = some root₂ ∧ root₁.state = .ready ∧
      root₁.epoch = root₂.epoch ∧
      ((pairDeployment.run pairFormed).groups pairId).workerOf =
        ((pairDeployment.run pairRejoined).groups pairId).workerOf ∧
      ((pairDeployment.run pairFormed).groups pairId).ncclIdOf =
        ((pairDeployment.run pairRejoined).groups pairId).ncclIdOf := by
  have hp : pairFormed <+: pairRejoined := prefix_append ..
  have hok : Undisturbed pairDeployment pairId pairRejoined :=
    Run.along_of_check (lapseFree pairDeployment pairId)
      (fun s e h => not_disturbsFormed_of_lapseFree h) (by decide +kernel)
  obtain ⟨root₁, hr₁, hs₁, he₁⟩ : ∃ root, ((pairDeployment.run pairFormed).groups pairId).root = some root ∧
      root.state = .ready ∧ root.epoch = 1 := exists_root_of_any (by decide +kernel)
  obtain ⟨root₂, hr₂, he₂⟩ : ∃ root, ((pairDeployment.run pairRejoined).groups pairId).root = some root ∧
      root.epoch = 1 := exists_root_of_any (by decide +kernel)
  have he : root₁.epoch = root₂.epoch := he₁.trans he₂.symm
  exact ⟨hp, hok, root₁, root₂, hr₁, hr₂, hs₁, he, cohort_agreement pairDeployment pairId pairFormed
    pairRejoined hp hok root₁ root₂ hr₁ hr₂ hs₁ he⟩

def pairReplaced : List pairDeployment.Event :=
  pairSwept ++ [pairRegister "c" (some ⟨"c", "2", "m"⟩), pairJoin "g0" "c" 2 0 none]

theorem cohort_changes : pairFormed <+: pairReplaced ∧
    ((pairDeployment.run pairFormed).groups pairId).root.map (fun root => (root.state, root.epoch)) =
      some (.ready, 1) ∧
    ((pairDeployment.run pairReplaced).groups pairId).root.map (fun root => (root.state, root.epoch)) =
      some (.ready, 1) ∧
    ((pairDeployment.run pairFormed).groups pairId).workerOf "g0" = some "b" ∧
    ((pairDeployment.run pairReplaced).groups pairId).workerOf "g0" = some "c" := by
  refine ⟨?_, by decide +kernel⟩
  exact (prefix_append ..).trans (prefix_append ..)

end ModelExpress.Collective
