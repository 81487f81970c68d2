/-
  ModelExpress collective refit — a group recovers.
-/
import ModelExpress.Collective.Roster

namespace ModelExpress.Collective

open Text List Assoc Run
open Option hiding or_assoc

def Event.publishedLane : Event → Option UInt32
  | .publish request => some request.laneId
  | _ => none

def JoinedAt (g : Group) (epoch : ℕ) (slot : String) : Prop :=
  ∃ p, g.participant slot = some p ∧ toNumber p.joinedEpoch = some epoch

namespace Roster
variable {D : Deployment} {R : Roster D} {J J' : String → Prop} {g g' : Group} {s : Store} {slot : String}

/-! ## The second round -/

theorem Gathering.mem_slots (h : R.Gathering s J) (hm : slot ∈ (s.groups R.groupId).participants) :
    slot ∈ R.spec.slots := by
  cases hr : (s.groups R.groupId).root with
  | none => exact absurd hm ((h.inv.absent hr).1 slot)
  | some root =>
    obtain ⟨_, hp⟩ := h.inv.present root hr
    exact (sameShape hp.rooted).mem_slots hp.rooted.decl R.decl (hp.shape.slots slot hm)

theorem Gathering.not_lapsed (h : R.Gathering s (· ∈ R.spec.slots)) :
    ¬ ∃ slot, (s.groups R.groupId).lapsed s.workers R.spec.modelName slot := by
  rintro ⟨slot, record, hr, hl⟩
  have hs := h.mem_slots (mem_iff_lookup.2 ⟨record, hr⟩)
  obtain ⟨p, hp, hw⟩ := (h.held slot hs).worker
  obtain ⟨_, hr', hparse⟩ := participant_eq_some.1 hp
  cases hr.symm.trans hr'
  rw [Collective.live, hparse, any_some, hw, (h.regular.place slot p hp).1, h.live slot hs] at hl
  cases hl

/-- Every slot is held by its worker and those in `J` are of the group's epoch; the state is decided. -/
structure Assembled (R : Roster D) (s : Store) (root : Root) (J : String → Prop) : Prop where
  gathering : R.Gathering s (· ∈ R.spec.slots)
  stored : (s.groups R.groupId).root = some root
  joined : ∀ slot, J slot → JoinedAt (s.groups R.groupId) root.epoch slot
  decided : (∃ slot, J slot) → (∀ slot ∈ R.spec.slots, JoinedAt (s.groups R.groupId) root.epoch slot) →
    (∀ i ∈ R.spec.laneIds, stamped (s.groups R.groupId) root.epoch i = true) → root.state = .ready

variable {root : Root}

theorem Assembled.mono (h : R.Assembled s root J) (hJ : ∀ slot, J' slot → J slot) :
    R.Assembled s root J' :=
  ⟨h.gathering, h.stored, fun slot hs => h.joined slot (hJ slot hs),
    fun ⟨slot, hs⟩ => h.decided ⟨slot, hJ slot hs⟩⟩

theorem Gathering.readiness (h : R.Gathering s (· ∈ R.spec.slots))
    (hr : (s.groups R.groupId).root = some root) {laneIds : List UInt32} {expected : ℕ} {modelName : Option String}
    (hj : ∀ slot ∈ R.spec.slots, JoinedAt (s.groups R.groupId) root.epoch slot)
    (hl : ∀ i ∈ laneIds, stamped (s.groups R.groupId) root.epoch i = true)
    (he : expected = R.spec.slots.length) (hm : ∀ m ∈ modelName, m = R.spec.modelName) :
    Readiness s.workers (s.groups R.groupId) root laneIds expected root.epoch modelName := by
  obtain ⟨_, hp⟩ := h.inv.present root hr
  have hmem : ∀ slot, slot ∈ (s.groups R.groupId).participants ↔ slot ∈ R.spec.slots := by
    intro slot
    refine ⟨h.mem_slots, fun hs => ?_⟩
    obtain ⟨p, hpart, -⟩ := (h.held slot hs).worker
    exact mem_of_participant hpart
  refine ⟨?_, fun slot record hrec => ?_, hl, ?_, fun slot digest hd => ?_⟩
  · rw [he]
    exact length_of_mem R.decl.slots_nodup hmem
  · have hs := h.mem_slots (mem_iff_lookup.2 ⟨record, hrec⟩)
    obtain ⟨p, hpart, hjoined⟩ := hj slot hs
    obtain ⟨p', hpart', hw⟩ := (h.held slot hs).worker
    cases hpart.symm.trans hpart'
    obtain ⟨_, hrec', hparse⟩ := participant_eq_some.1 hpart
    cases hrec.symm.trans hrec'
    simp only [participantReady, hparse, any_some, decide_eq_true_eq]
    refine ⟨hjoined, (Option.all_eq_true ..).2 fun m hmm => ?_⟩
    rw [hm m hmm, hw, (h.regular.place slot p hpart).1]
    exact h.live slot hs
  · rw [he]
    exact length_of_mem R.decl.slots_nodup fun slot => (hp.shape.digests slot).trans (hmem slot)
  · have hs := (hmem slot).1 ((hp.shape.digests slot).1 (mem_iff_lookup.2 ⟨digest, hd⟩))
    obtain ⟨_, hr₁, hd₁⟩ := h.rooted slot hs
    cases hr.symm.trans hr₁
    rw [hd₁]
    exact mem_unique hd (h.held slot hs).digest

theorem Gathering.not_joinChanges (h : R.Gathering s (· ∈ R.spec.slots)) {a : JoinArgs}
    (ha : R.Args a slot) (hr : (s.groups R.groupId).root = some root) :
    ¬ JoinChanges s.workers a (s.groups R.groupId) root := by
  obtain ⟨_, hr₁, hd₁⟩ := h.rooted slot ha.expected
  cases hr.symm.trans hr₁
  rintro (⟨-, hl | ⟨w, record, p, hrec, -, hparse, rfl, hne⟩⟩ | hd)
  · rw [ha.request.modelName] at hl
    exact h.not_lapsed hl
  · obtain ⟨p', hp', hw⟩ := (h.held slot ha.expected).worker
    rw [ha.slotId] at hrec
    obtain rfl := some.inj (hp'.symm.trans (participant_eq_some.2 ⟨record, hrec, hparse⟩))
    exact hne (hw.trans ha.workerId.symm)
  · exact hd (hd₁.trans ha.planDigest.symm)

theorem stamped_congr {epoch : ℕ} (h : g'.lanes = g.lanes) (i : UInt32) :
    stamped g' epoch i = stamped g epoch i := by
  rw [stamped, h, stamped]

variable {e : D.Event}

theorem Assembled.join (h : R.Assembled s root J)
    {request : JoinCollectiveGroupRequest} (he : e.1 = .join request) (hj : R.Joins request slot) :
    (step D.sha256 s e.1).1.isRefused = false ∧
      ∃ root', R.Assembled (D.next s e) root' (fun x => J x ∨ x = slot) := by
  obtain ⟨hok, hgath, a, root', ha, hw, hadm⟩ := h.gathering.join he hj
  have hgath := hgath.mono fun x (hx : x ∈ R.spec.slots) => Or.inl hx
  obtain ⟨hepoch, _⟩ := hadm.stays root h.stored (h.gathering.not_joinChanges ha h.stored)
  have hd := hadm.others
  rw [ha.request.modelName, ha.slotId] at hd
  have hown := hadm.own
  rw [ha.slotId] at hown
  refine ⟨hok, root', hgath, hadm.stored, fun x hx => ?_, fun _ hall hst => hadm.ready.2 ?_⟩
  · by_cases hxs : x = slot
    · subst hxs
      exact ⟨_, hown, toNumber_decimal _⟩
    · obtain ⟨p, hp, hjoined⟩ := h.joined x (hx.resolve_right hxs)
      have hs := h.gathering.mem_slots (mem_of_participant hp)
      obtain ⟨hsame, -⟩ := (h.gathering.held x hs).redone hd h.gathering.live h.gathering.regular hs hxs
      exact ⟨p, hsame.trans hp, hepoch.symm ▸ hjoined⟩
  · rw [← hw]
    refine hgath.readiness hadm.stored hall (fun i hi => hst i ?_) ha.request.expectedTotal ?_
    · rwa [ha.request.laneIds_eq] at hi
    · rintro m ⟨⟩
      exact ha.request.modelName

theorem Assembled.background (h : R.Assembled s root J)
    (hb : R.Background e.1) : ∃ root', R.Assembled (D.next s e) root' J ∧ root'.epoch = root.epoch ∧
      ((D.next s e).groups R.groupId).lanes = (s.groups R.groupId).lanes := by
  have hgath := h.gathering.background hb
  obtain ⟨_, hq | ⟨_, _, root', hr, hl, hw, href⟩⟩ := hb.step h.gathering.live
  · have hjoined : ∀ {x}, JoinedAt ((D.next s e).groups R.groupId) root.epoch x ↔
        JoinedAt (s.groups R.groupId) root.epoch x := by
      intro x
      rw [JoinedAt, hq.participant, JoinedAt]
    refine ⟨root, ⟨hgath, hq.root.trans h.stored, fun x hx => hjoined.2 (h.joined x hx),
      fun hx hall hst => h.decided hx (fun x hs => hjoined.1 (hall x hs)) fun i hi => ?_⟩, rfl, hq.lanes⟩
    rw [← stamped_congr hq.lanes]
    exact hst i hi
  · cases h.stored.symm.trans hr
    obtain ⟨_, hp⟩ := h.gathering.inv.present root hr
    have hss := sameShape hp.rooted
    have hmodel : root.modelName = R.spec.modelName := hp.rooted.modelName.trans hss.modelName
    have hd := href.others
    have hnl := h.gathering.not_lapsed
    rw [← hmodel] at hnl
    obtain ⟨hepoch, hlanes⟩ := href.stays hnl
    rw [hmodel] at hd
    refine ⟨root', ⟨hgath, href.stored, fun x hx => ?_, fun _ hall hst => href.ready.2 ?_⟩, hepoch, hlanes⟩
    · obtain ⟨p, hpart, hjoined⟩ := h.joined x hx
      have hs := h.gathering.mem_slots (mem_of_participant hpart)
      obtain ⟨hsame, -⟩ := (h.gathering.held x hs).redone hd h.gathering.live h.gathering.regular hs id
      exact ⟨p, hsame.trans hpart, hepoch.symm ▸ hjoined⟩
    · rw [← hw]
      refine hgath.readiness href.stored hall (fun i hi => hst i (hss.mem_laneIds ?_)) ?_ (by rintro m ⟨⟩)
      · rwa [hp.rooted.laneIds_eq hl] at hi
      · rw [hp.rooted.expectedTotal, hss.length_slots hp.rooted.decl R.decl]

/-! ## The bootstraps -/

/-- The request is a publish by the rank-0 worker of its lane, and it passes validation. -/
structure Publishes (R : Roster D) (request : PublishGroupBootstrapRequest) (epoch : ℕ) : Prop where
  valid : validatePublish request = .ok ()
  groupId : request.groupId = R.groupId
  epoch : request.epoch.toNat = epoch
  leader : ∃ slot, leaderSlot (lanesFromSpec R.spec) request.laneId = some slot ∧
    request.workerId = R.worker slot

theorem leaderSlot_mem (h : DeclOk R.spec) {i : UInt32} (hl : leaderSlot (lanesFromSpec R.spec) i = some slot) :
    slot ∈ R.spec.slots := by
  obtain ⟨lane, hm, -, hs⟩ := (leaderSlot_iff h).1 hl
  exact h.slots_sub hm slot (mem_of_head? hs)

variable {request : PublishGroupBootstrapRequest}

theorem Assembled.isLeader (h : R.Assembled s root (· ∈ R.spec.slots)) (hs : slot ∈ R.spec.slots)
    (hw : request.workerId = R.worker slot) :
    isLeader s.workers root (publishArgs request slot) (s.groups R.groupId) = true := by
  obtain ⟨_, hp⟩ := h.gathering.inv.present root h.stored
  obtain ⟨p, hpart, hjoined⟩ := h.joined slot hs
  obtain ⟨p', hpart', hpw⟩ := (h.gathering.held slot hs).worker
  cases hpart.symm.trans hpart'
  have hlive := h.gathering.live slot hs
  rw [← hpw, ← (h.gathering.regular.place slot p hpart).1, ← (sameShape hp.rooted).modelName,
    ← hp.rooted.modelName] at hlive
  refine (Option.any_eq_true ..).2 ⟨p, hpart, ?_⟩
  rw [decide_eq_true_eq]
  exact ⟨hpw.trans hw.symm, hjoined, hlive⟩

theorem Publishes.call (hp : R.Publishes request root.epoch) (h : R.Assembled s root (· ∈ R.spec.slots))
    (hfresh : stamped (s.groups R.groupId) root.epoch request.laneId = false) :
    ∃ spec' leader root', RootOf D R.groupId spec' root ∧ (publishCall request s).1.isRefused = false ∧
      (publishCall request s).2.workers = s.workers ∧
      Settled s.workers spec'.laneIds root.expectedTotal.toNat root.epoch (some root.modelName)
        (stampLane (publishArgs request leader) (s.groups R.groupId)) root
        ((publishCall request s).2.groups R.groupId) root' := by
  obtain ⟨spec', hpres⟩ := h.gathering.inv.present root h.stored
  have hroot := hpres.rooted
  obtain ⟨leader, hlead, hw⟩ := hp.leader
  have hs := leaderSlot_mem R.decl hlead
  have hlead' := (sameShape hroot).symm.leaderSlot R.decl hroot.decl hlead
  obtain ⟨p, hpart, -⟩ := (h.gathering.held leader hs).worker
  have hstep := publishScript_step s.workers ((lanesFromSpec spec').map (·.laneId))
    (publishArgs request leader) (s.groups R.groupId)
  refine ⟨spec', leader, ?_⟩
  unfold publishCall
  simp only [hp.valid, hp.groupId, h.stored, hroot.decodeLanes_eq, hlead']
  rw [if_neg (not_not.2 (mem_of_participant hpart))]
  generalize publishScript s.workers ((lanesFromSpec spec').map (·.laneId))
    (publishArgs request leader) (s.groups R.groupId) = r at hstep ⊢
  simp only [Function.update_self]
  cases hstep with
  | notFound hr =>
    cases h.stored.symm.trans hr
  | stale hr he =>
    cases h.stored.symm.trans hr
    exact absurd hp.epoch he
  | notLeader hr he hl =>
    cases h.stored.symm.trans hr
    rw [h.isLeader hs hw] at hl
    cases hl
  | conflict hr he hl hb hc =>
    cases h.stored.symm.trans hr
    exact absurd (stamped_iff.2 ⟨_, hl, hb⟩) (Bool.eq_false_iff.1 hfresh)
  | published hr he hl hset =>
    cases h.stored.symm.trans hr
    rw [lanesFromSpec_laneIds] at hset
    exact ⟨_, hroot, rfl, trivial, hset⟩

theorem stampLane_digests (a : PublishArgs) (g : Group) : (stampLane a g).digests = g.digests := by
  unfold stampLane
  split <;> rfl

theorem stamped_stampLane {a : PublishArgs} (i : UInt32) :
    stamped (stampLane a g) a.epoch i = true ↔ stamped g a.epoch i = true ∨ i = a.laneId := by
  unfold stampLane
  split_ifs with hst
  · exact ⟨Or.inl, fun h => h.elim id fun h => h ▸ hst⟩
  · by_cases hi : i = a.laneId
    · subst hi
      simp [stamped]
    · simp [stamped, hi]

theorem Assembled.publish (h : R.Assembled s root (· ∈ R.spec.slots)) (he : e.1 = .publish request)
    (hp : R.Publishes request root.epoch) (hfresh : stamped (s.groups R.groupId) root.epoch request.laneId = false) :
    (step D.sha256 s e.1).1.isRefused = false ∧ ∃ root',
      R.Assembled (D.next s e) root' (· ∈ R.spec.slots) ∧ root'.epoch = root.epoch ∧
      ∀ i, stamped ((D.next s e).groups R.groupId) root.epoch i = true ↔
        stamped (s.groups R.groupId) root.epoch i = true ∨ i = request.laneId := by
  obtain ⟨_, leader, root', hroot, hok, hw, hset⟩ := hp.call h hfresh
  have hnext : D.next s e = (publishCall request s).2 := by rw [Deployment.next, he]; rfl
  rw [← hnext] at hw hset
  have hpart : ∀ x, ((D.next s e).groups R.groupId).participant x =
      (s.groups R.groupId).participant x := fun x => by
    rw [Group.participant, hset.participants, stampLane_participants, Group.participant]
  have hepoch : root'.epoch = root.epoch := by rw [hset.fields]
  have hd : Redone s.workers R.spec.modelName (fun _ => False) (s.groups R.groupId)
      ((D.next s e).groups R.groupId) := by
    refine ⟨fun x p _ hx => hpart x ▸ hx, fun x p _ hx _ => ⟨(hpart x).trans hx, ?_⟩⟩
    rw [hset.digests, stampLane_digests]
  have hgath : R.Gathering (D.next s e) (· ∈ R.spec.slots) := by
    refine h.gathering.redone (hw ▸ h.gathering.live) hd (fun _ _ hf => hf.elim) (fun _ hf => hf.elim)
      (fun _ hs => Or.inl hs) fun slot hs => ⟨root', hset.stored, ?_⟩
    · obtain ⟨_, hr₁, hd₁⟩ := h.gathering.rooted slot hs
      cases h.stored.symm.trans hr₁
      rw [hset.fields]
      exact hd₁
  have hss := sameShape hroot
  refine ⟨by rw [he]; exact hok, root', ⟨hgath, hset.stored, fun x hx => ?_,
    fun _ hall hst => hset.ready.2 ?_⟩, hepoch, fun i => ?_⟩
  · obtain ⟨p, hx, hjoined⟩ := h.joined x hx
    exact ⟨p, (hpart x).trans hx, hepoch.symm ▸ hjoined⟩
  · rw [← hw, ← hepoch]
    refine hgath.readiness hset.stored hall (fun i hi => hst i (hss.mem_laneIds hi)) ?_ ?_
    · rw [hroot.expectedTotal, hss.length_slots hroot.decl R.decl]
    · rintro m ⟨⟩
      exact hroot.modelName.trans hss.modelName
  · rw [stamped_congr hset.lanes, ← hp.epoch]
    exact stamped_stampLane (a := publishArgs request leader) i

def IsJoin (R : Roster D) (e : D.Event) (slot : String) : Prop :=
  ∃ request, e.1 = .join request ∧ R.Joins request slot

structure Round (R : Roster D) (es : List D.Event) : Prop where
  only : ∀ e ∈ es, R.Background e.1 ∨ ∃ slot, R.IsJoin e slot
  all : ∀ slot ∈ R.spec.slots, ∃ e ∈ es, R.IsJoin e slot

def publishedLanes (es : List D.Event) : List UInt32 := es.filterMap fun e => e.1.publishedLane

/-- Every lane that is not stamped with the epoch is published once, by its rank-0 worker. -/
structure Publication (R : Roster D) (g : Group) (epoch : ℕ) (es : List D.Event) : Prop where
  only : ∀ e ∈ es, R.Background e.1 ∨ ∃ request, e.1 = .publish request ∧
    R.Publishes request epoch ∧ stamped g epoch request.laneId = false
  once : (publishedLanes es).Nodup
  all : ∀ i ∈ R.spec.laneIds, stamped g epoch i = false → i ∈ publishedLanes es

def Accepts (R : Roster D) (s : Store) (e : D.Event) : Prop :=
  R.Background e.1 ∨ (step D.sha256 s e.1).1.isRefused = false

theorem IsJoin.eq {slot' : String} {request : JoinCollectiveGroupRequest}
    (h : R.IsJoin e slot') (he : e.1 = .join request) (hj : R.Joins request slot) : slot' = slot := by
  obtain ⟨_, he', hj'⟩ := h
  obtain rfl := Event.join.inj (he.symm.trans he')
  exact hj'.slotId.symm.trans hj.slotId

variable {es : List D.Event}

theorem joined_snoc {request : JoinCollectiveGroupRequest}
    (he : e.1 = .join request) (hj : R.Joins request slot) (x : String)
    (h : ∃ e' ∈ es ++ [e], R.IsJoin e' x) : (∃ e' ∈ es, R.IsJoin e' x) ∨ x = slot := by
  obtain ⟨e', hm, hx⟩ := h
  rcases mem_append.1 hm with hm | hm
  · exact Or.inl ⟨e', hm, hx⟩
  · obtain rfl := mem_singleton.1 hm
    exact Or.inr (hx.eq he hj)

theorem Background.joined_snoc (hb : R.Background e.1) (x : String)
    (h : ∃ e' ∈ es ++ [e], R.IsJoin e' x) : ∃ e' ∈ es, R.IsJoin e' x := by
  obtain ⟨e', hm, request, he, hj⟩ := h
  rcases mem_append.1 hm with hm | hm
  · exact ⟨e', hm, request, he, hj⟩
  · obtain rfl := mem_singleton.1 hm
    rw [he] at hb
    cases hb

theorem Gathering.round (h : R.Gathering s fun _ => False) (hr : R.Round es) :
    Run.Along D.next s R.Accepts es ∧ R.Gathering (Run.run D.next s es) (· ∈ R.spec.slots) := by
  have hrun : Run.Along D.next s R.Accepts es ∧
      R.Gathering (run D.next s es) fun x => ∃ e ∈ es, R.IsJoin e x := by
    refine history_of_mem (Q := fun es s' => Run.Along D.next s R.Accepts es ∧
      R.Gathering s' fun x => ∃ e ∈ es, R.IsJoin e x) ⟨.nil, h.mono ?_⟩ ?_ hr.only
    · rintro x ⟨e, hm, -⟩
      cases hm
    · rintro es e (hb | ⟨slot, _, he, hj⟩) ⟨halong, hgath⟩
      · exact ⟨halong.snoc (Or.inl hb), (hgath.background hb).mono hb.joined_snoc⟩
      · obtain ⟨hok, hgath', -⟩ := hgath.join he hj
        exact ⟨halong.snoc (Or.inr hok), hgath'.mono (joined_snoc he hj)⟩
  exact ⟨hrun.1, hrun.2.mono hr.all⟩

theorem Assembled.round (h : R.Gathering s (· ∈ R.spec.slots)) (hr : R.Round es) :
    Run.Along D.next s R.Accepts es ∧
      ∃ root, R.Assembled (Run.run D.next s es) root (· ∈ R.spec.slots) := by
  obtain ⟨slot₀, hs₀⟩ := exists_mem_of_ne_nil _ R.decl.trainers_ne
  obtain ⟨root₀, hr₀, -⟩ := h.rooted slot₀ (mem_append_left _ hs₀)
  have hrun : Run.Along D.next s R.Accepts es ∧
      ∃ root, R.Assembled (run D.next s es) root fun x => ∃ e ∈ es, R.IsJoin e x := by
    refine history_of_mem (Q := fun es s' => Run.Along D.next s R.Accepts es ∧
      ∃ root, R.Assembled s' root fun x => ∃ e ∈ es, R.IsJoin e x) ⟨.nil, root₀, h, hr₀, ?_, ?_⟩ ?_ hr.only
    · rintro x ⟨e, hm, -⟩
      cases hm
    · rintro ⟨x, e, hm, -⟩
      cases hm
    · rintro es e (hb | ⟨slot, _, he, hj⟩) ⟨halong, root, hass⟩
      · obtain ⟨root', hass', -⟩ := hass.background hb
        exact ⟨halong.snoc (Or.inl hb), root', hass'.mono hb.joined_snoc⟩
      · obtain ⟨hok, root', hass'⟩ := hass.join he hj
        exact ⟨halong.snoc (Or.inr hok), root', hass'.mono (joined_snoc he hj)⟩
  obtain ⟨halong, root, hass⟩ := hrun
  exact ⟨halong, root, hass.mono hr.all⟩

theorem Background.publishedLane {e : Event} (hb : R.Background e) : e.publishedLane = none := by
  cases hb <;> rfl

end Roster

end ModelExpress.Collective
