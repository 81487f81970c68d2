/-
  ModelExpress collective refit — the workers chosen for a group.
-/
import ModelExpress.Collective.Fencing

namespace ModelExpress.Collective

open Text Checks List Function Option

/-! ## Slots in their place -/

namespace CollectiveGroupSpec
variable (spec : CollectiveGroupSpec)

def roleOf (slot : String) : CollectiveRole :=
  if slot ∈ spec.expectedTrainerSlots then .trainer else .generator

def indexOf (slot : String) : ℕ := (roleSlots spec (spec.roleOf slot)).idxOf slot

variable {spec} {slot slot' : String}

theorem mem_roleSlots (h : slot ∈ spec.slots) : slot ∈ roleSlots spec (spec.roleOf slot) := by
  unfold roleOf
  split_ifs with ht
  · exact ht
  · exact (mem_append.1 h).resolve_left ht

theorem roleOf_eq_of_text (h : (spec.roleOf slot).text = (spec.roleOf slot').text) :
    spec.roleOf slot = spec.roleOf slot' := by
  unfold roleOf at h ⊢
  split_ifs at h ⊢
  · rfl
  · exact absurd h (by decide)
  · exact absurd h (by decide)
  · rfl

theorem eq_of_place (hs : slot ∈ spec.slots) (hr : (spec.roleOf slot).text = (spec.roleOf slot').text)
    (hi : spec.indexOf slot = spec.indexOf slot') : slot = slot' := by
  unfold indexOf at hi
  rw [← roleOf_eq_of_text hr] at hi
  exact (idxOf_inj (mem_roleSlots hs)).1 hi

end CollectiveGroupSpec

theorem leaderSlot_iff {spec : CollectiveGroupSpec} (h : DeclOk spec) {i : UInt32} {slot : String} :
    leaderSlot (lanesFromSpec spec) i = some slot ↔
      ∃ lane ∈ spec.lanes, lane.laneId = i ∧ lane.slots.head? = some slot := by
  have hfind : (lanesFromSpec spec).find? (·.laneId = i) = (spec.lanes.find? (·.laneId = i)).map
      fun lane => ⟨lane.laneId, (LaneKind.ofCode? lane.kind).getD .unspecified, lane.trainerSlots,
        lane.generatorSlots⟩ := find?_map ..
  rw [leaderSlot, hfind, bind_map]
  constructor
  · intro hl
    obtain ⟨lane, hf, hs⟩ := bind_eq_some_iff.1 hl
    exact ⟨lane, mem_of_find?_eq_some hf, by simpa using find?_some hf, hs⟩
  · rintro ⟨lane, hm, rfl, hs⟩
    cases hf : spec.lanes.find? (·.laneId = lane.laneId) with
    | none => exact absurd (decide_eq_true rfl) (find?_eq_none.1 hf lane hm)
    | some lane' =>
      have hid : lane'.laneId = lane.laneId := by simpa using find?_some hf
      obtain rfl := inj_on_of_nodup_map h.ids_nodup (mem_of_find?_eq_some hf) hm hid
      exact hs

theorem SameShape.leaderSlot {a b : CollectiveGroupSpec} (h : SameShape a b) (ha : DeclOk a)
    (hb : DeclOk b) {i : UInt32} {slot : String} (hl : leaderSlot (lanesFromSpec a) i = some slot) :
    Collective.leaderSlot (lanesFromSpec b) i = some slot := by
  obtain ⟨lane, hm, hid, hs⟩ := (leaderSlot_iff ha).1 hl
  obtain ⟨lane', hm', hid', -, hs'⟩ := (h.ranks _ _ _).1 ⟨lane, hm, hid, rfl, rfl⟩
  exact (leaderSlot_iff hb).2 ⟨lane', hm', hid', by rw [hs', hs]⟩

/-! ## What joins and refreshes keep -/

/-- Outside `touched`, no participant is new, and those with a matching registration stay. -/
structure Redone (workers : Workers) (modelName : String) (touched : String → Prop) (g g' : Group) :
    Prop where
  sub : ∀ slot p, ¬ touched slot → g'.participant slot = some p → g.participant slot = some p
  live : ∀ slot p, ¬ touched slot → g.participant slot = some p →
    registrationMatches workers p.workerId p.role modelName = true →
    g'.participant slot = some p ∧ g'.digests.lookup slot = g.digests.lookup slot

structure Admits (workers : Workers) (a : JoinArgs) (g g' : Group) (root' : Root) : Prop where
  stored : g'.root = some root'
  planDigest : root'.planDigest = a.planDigest
  others : Redone workers a.modelName (· = a.slotId) g g'
  own : g'.participant a.slotId = some (admitted a.workerId a.role a.indexInRole root'.epoch)
  digest : g'.digests.lookup a.slotId = some a.planDigest
  stays : ∀ root, g.root = some root → ¬ JoinChanges workers a g root →
    root'.epoch = root.epoch ∧ g'.lanes = g.lanes
  ready : root'.state = .ready ↔
    Readiness workers g' root' a.laneIds a.expectedTotal.toNat root'.epoch (some a.modelName)

structure Refreshes (workers : Workers) (laneIds : List UInt32) (g g' : Group) (root root' : Root) :
    Prop where
  stored : g'.root = some root'
  planDigest : root'.planDigest = root.planDigest
  others : Redone workers root.modelName (fun _ => False) g g'
  stays : (¬ ∃ slot, g.lapsed workers root.modelName slot) →
    root'.epoch = root.epoch ∧ g'.lanes = g.lanes
  ready : root'.state = .ready ↔
    Readiness workers g' root' laneIds root.expectedTotal.toNat root'.epoch none

variable {laneIds : List UInt32} {ops : Operations} {a : JoinArgs} {c : Cell}

section
variable {workers : Workers} {a : JoinArgs} {g g₁ g' : Group} {root root' : Root} {o : JoinOutcome}

theorem Quiet.redone (h : Quiet g g') (modelName : String) (touched : String → Prop) :
    Redone workers modelName touched g g' :=
  ⟨fun slot p _ hp => h.participant slot ▸ hp,
    fun slot p _ hp _ => ⟨by rw [h.participant]; exact hp, h.digests slot⟩⟩

theorem Swept.redone {modelName : String} {owners touched : String → Prop}
    (h : Swept g g' (g.lapsed workers modelName) owners) : Redone workers modelName touched g g' := by
  refine ⟨fun slot p _ hp => (h.participant_iff.1 hp).1, fun slot p _ hp hm => ?_⟩
  refine ⟨h.participant_iff.2 ⟨hp, hm⟩, (h.kept slot fun hl => ?_).2⟩
  obtain ⟨_, hr, hlive⟩ := hl
  obtain ⟨_, hr', hparse⟩ := participant_eq_some.1 hp
  cases hr.symm.trans hr'
  rw [live, hparse, any_some, hm] at hlive
  cases hlive

variable {epoch : ℕ}

section
variable (ha : Admission workers a epoch g₁ root o g' root')
include ha

theorem Admission.redone (hw : '|' ∉ a.workerId.toList) (h : Redone workers a.modelName (· = a.slotId) g g₁) :
    Redone workers a.modelName (· = a.slotId) g g' := by
  refine ⟨fun slot p hs hp => h.sub slot p hs ?_, fun slot p hs hp hm => ?_⟩
  · rw [ha.participant hw, if_neg hs] at hp
    exact hp
  · obtain ⟨hp₁, hd₁⟩ := h.live slot p hs hp hm
    rw [ha.participant hw, if_neg hs, ha.digests, if_neg hs]
    exact ⟨hp₁, hd₁⟩

theorem Admission.admits
    (hw : '|' ∉ a.workerId.toList) (he : root.epoch = epoch) (hd : root.planDigest = a.planDigest)
    (h : Redone workers a.modelName (· = a.slotId) g g₁)
    (hstays : ∀ root₀, g.root = some root₀ → ¬ JoinChanges workers a g root₀ →
      epoch = root₀.epoch ∧ g₁.lanes = g.lanes) : Admits workers a g g' root' := by
  have he' : root'.epoch = epoch := by
    rw [ha.fields]
    exact he
  refine ⟨ha.stored, by rw [ha.fields]; exact hd, ha.redone hw h, ?_, ?_, fun root₀ hr₀ hn => ?_, ?_⟩
  · rw [ha.participant hw, if_pos rfl, he']
  · rw [ha.digests, if_pos rfl]
  · obtain ⟨h₁, h₂⟩ := hstays root₀ hr₀ hn
    exact ⟨he'.trans h₁, ha.lanes.trans h₂⟩
  · rw [he']
    exact ha.ready

end

theorem JoinStep.admits (h : JoinStep workers a ⟨g, ops⟩ (o, c))
    (hpre : joinPrecheck workers a = none) (hc : ¬ Conflicts workers a g)
    (habs : g.root = none → ∀ slot, slot ∉ g.participants) (hw : '|' ∉ a.workerId.toList) :
    ∃ root', Admits workers a g c.group root' ∧ ∃ epoch state, o = .ok epoch state := by
  cases h with
  | refused hpre' =>
    cases hpre.symm.trans hpre'
  | created _ hr _ ha =>
    refine ⟨_, ha.admits hw rfl rfl ⟨fun slot p _ hp => ?_, fun slot p _ hp => ?_⟩ fun root₀ hr₀ => ?_,
      _, _, ha.outcome⟩
    · exact absurd (mem_of_participant hp) (AList.notMem_empty slot)
    · exact absurd (mem_of_participant hp) (habs hr slot)
    · rw [show g.root = none from hr] at hr₀
      cases hr₀
  | rejected _ _ hc' => exact absurd hc' hc
  | @joined _ root root₁ root' g₁ _ _ hr _ hn hs hr₁ ha =>
    have hd : root.planDigest = a.planDigest := by
      by_contra hne
      exact hn (Or.inr hne)
    have hst : Stays False g root g₁ root₁ := hs.stays hr hr₁ False.elim
    refine ⟨root', ha.admits hw hst.epoch (hst.planDigest.trans hd) hs.redone fun root₀ hr₀ _ => ?_,
      _, _, ha.outcome⟩
    cases hr.symm.trans hr₀
    exact ⟨rfl, hs.lanes⟩
  | @bumped _ root root' g₁ _ _ _ hr _ hch hs _ ha =>
    have hredone : Redone workers a.modelName (· = a.slotId) g
        ⟨some (bumpedRoot a root), g₁.participants, g₁.digests, cleared a.laneIds g₁.lanes, []⟩ :=
      ⟨hs.redone.sub, hs.redone.live⟩
    refine ⟨root', ha.admits hw rfl rfl hredone fun _ hr₀ hn => ?_, _, _, ha.outcome⟩
    cases hr.symm.trans hr₀
    exact absurd hch hn

theorem Settled.refreshes {root₁ : Root}
    (hset : Settled workers laneIds root.expectedTotal.toNat epoch none g₁ root₁ g' root')
    (he : root₁.epoch = epoch) (hd : root₁.planDigest = root.planDigest)
    (h : Redone workers root.modelName (fun _ => False) g g₁)
    (hstays : (¬ ∃ slot, g.lapsed workers root.modelName slot) →
      epoch = root.epoch ∧ g₁.lanes = g.lanes) : Refreshes workers laneIds g g' root root' := by
  have hpart : ∀ slot, g'.participant slot = g₁.participant slot := fun slot => by
    rw [Group.participant, hset.participants, Group.participant]
  have he' : root'.epoch = epoch := by
    rw [hset.fields]
    exact he
  refine ⟨hset.stored, by rw [hset.fields]; exact hd, ⟨fun slot p hs hp => ?_, fun slot p hs hp hm => ?_⟩,
    fun hn => ?_, by rw [he']; exact hset.ready⟩
  · exact h.sub slot p hs (hpart slot ▸ hp)
  · rw [hpart, hset.digests]
    exact h.live slot p hs hp hm
  · obtain ⟨h₁, h₂⟩ := hstays hn
    exact ⟨he'.trans h₁, hset.lanes.trans h₂⟩

theorem RefreshStep.refreshes {o : RefreshOutcome}
    (h : RefreshStep workers laneIds ⟨g, ops⟩ (o, c)) (hr : g.root = some root) :
    ∃ root', Refreshes workers laneIds g c.group root root' := by
  cases h with
  | notFound hn =>
    rw [show g.root = none from hn] at hr
    cases hr
  | @kept root₀ root₁ root' g₁ g' hr' hn hs hr₁ hset =>
    obtain rfl := mem_unique hr' hr
    have hst : Stays False g root₀ g₁ root₁ := hs.stays hr hr₁ False.elim
    exact ⟨root', hset.refreshes hst.epoch hst.planDigest hs.redone fun _ => ⟨rfl, hs.lanes⟩⟩
  | @bumped root₀ root' g₁ _ _ hr' _ hlap hs _ hset =>
    obtain rfl := mem_unique hr' hr
    have hredone : Redone workers root₀.modelName (fun _ => False) g ⟨some (advancedRoot root₀),
        g₁.participants, g₁.digests, cleared laneIds g₁.lanes, []⟩ := ⟨hs.redone.sub, hs.redone.live⟩
    exact ⟨root', hset.refreshes rfl rfl hredone fun hn => absurd hlap hn⟩

end

/-! ## The chosen workers -/

/-- A worker for every expected slot of a declaration, and the plan they agree on. -/
structure Roster (D : Deployment) where
  spec : CollectiveGroupSpec
  worker : String → String
  planDigest : String
  declared : spec ∈ D.specs
  accepted : Accepted spec
  distinct : ∀ slot ∈ spec.slots, ∀ slot' ∈ spec.slots, worker slot = worker slot' → slot = slot'

namespace Roster
variable {D : Deployment} (R : Roster D)

def groupId : String := groupIdFor D.sha256 R.spec

def Live (workers : Workers) : Prop := ∀ slot ∈ R.spec.slots,
  registrationMatches workers (R.worker slot) (R.spec.roleOf slot).text R.spec.modelName = true

/-- The stored participants were admitted with the role and the position of their slot, and no chosen
    worker is stored under another slot.  A stored role can only differ from the slot's if another
    declaration of the same group id expects the slot in the other role. -/
structure Regular (g : Group) : Prop where
  place : ∀ slot p, g.participant slot = some p →
    p.role = (R.spec.roleOf slot).text ∧ p.index = decimal (R.spec.indexOf slot)
  home : ∀ slot p, g.participant slot = some p → ∀ slot' ∈ R.spec.slots, p.workerId = R.worker slot' →
    slot = slot'

/-- The request is a join of the slot's worker, and it passes validation. -/
structure Joins (request : JoinCollectiveGroupRequest) (slot : String) : Prop where
  expected : slot ∈ R.spec.slots
  valid : validateJoin request = .ok (R.spec, R.spec.roleOf slot)
  slotId : request.slotId = slot
  workerId : request.workerId = R.worker slot
  index : request.indexInRole.toNat = R.spec.indexOf slot
  planDigest : request.planDigest = R.planDigest

/-- What may happen at any point of the sequence: the chosen workers stay registered. -/
inductive Background : Event → Prop
  | register (workerId : String) (registration : Option Registration)
      (h : ∀ workers, R.Live workers → R.Live (Function.update workers workerId registration)) :
      Background (.register workerId registration)
  | expireRequest (requestKey : String) : Background (.expireRequest requestKey)
  | rehash (groupId : String) (participants digests : Hash) :
      Background (.rehash groupId participants digests)
  | refresh (groupId : String) : Background (.refresh groupId)

/-- The slot is held by its worker, which has reported the plan. -/
structure Held (g : Group) (slot : String) : Prop where
  worker : ∃ p, g.participant slot = some p ∧ p.workerId = R.worker slot
  digest : g.digests.lookup slot = some R.planDigest

/-- The slots in `J` are held by their workers; the premises of the sequence still hold. -/
structure Gathering (s : Store) (J : String → Prop) : Prop where
  inv : GroupInv D R.groupId (s.groups R.groupId)
  live : R.Live s.workers
  regular : R.Regular (s.groups R.groupId)
  expected : ∀ slot, J slot → slot ∈ R.spec.slots
  held : ∀ slot, J slot → R.Held (s.groups R.groupId) slot
  rooted : ∀ slot, J slot → ∃ root, (s.groups R.groupId).root = some root ∧ root.planDigest = R.planDigest

variable {R} {workers : Workers} {touched J J' : String → Prop} {g g' : Group} {s : Store} {slot : String}

theorem decl (R : Roster D) : DeclOk R.spec := R.accepted.ok

theorem Gathering.mono (h : R.Gathering s J) (hJ : ∀ slot, J' slot → J slot) : R.Gathering s J' :=
  ⟨h.inv, h.live, h.regular, fun slot hs => h.expected slot (hJ slot hs),
    fun slot hs => h.held slot (hJ slot hs), fun slot hs => h.rooted slot (hJ slot hs)⟩

theorem sameShape {spec' : CollectiveGroupSpec} {root : Root} (h : RootOf D R.groupId spec' root) :
    SameShape spec' R.spec :=
  D.sameShape h.declared R.declared h.decl R.decl h.groupId.symm

/-! ## Slots that stay -/

theorem Held.redone (hh : R.Held g slot) (h : Redone workers R.spec.modelName touched g g')
    (hlive : R.Live workers) (hreg : R.Regular g) (hs : slot ∈ R.spec.slots) (hn : ¬ touched slot) :
    g'.participant slot = g.participant slot ∧ R.Held g' slot := by
  obtain ⟨p, hp, hw⟩ := hh.worker
  have hm : registrationMatches workers p.workerId p.role R.spec.modelName = true := by
    rw [hw, (hreg.place slot p hp).1]
    exact hlive slot hs
  obtain ⟨hp', hd'⟩ := h.live slot p hn hp hm
  exact ⟨hp'.trans hp.symm, ⟨p, hp', hw⟩, hd'.trans hh.digest⟩

theorem Regular.redone (hreg : R.Regular g) (h : Redone workers R.spec.modelName touched g g')
    (ht : ∀ slot p, touched slot → g'.participant slot = some p → slot ∈ R.spec.slots ∧
      p.workerId = R.worker slot ∧ p.role = (R.spec.roleOf slot).text ∧
      p.index = decimal (R.spec.indexOf slot)) : R.Regular g' := by
  refine ⟨fun slot p hp => ?_, fun slot p hp slot' hs' hw => ?_⟩
  · by_cases hts : touched slot
    · exact (ht slot p hts hp).2.2
    · exact hreg.place slot p (h.sub slot p hts hp)
  · by_cases hts : touched slot
    · obtain ⟨hs, hw', -⟩ := ht slot p hts hp
      exact R.distinct slot hs slot' hs' (hw'.symm.trans hw)
    · exact hreg.home slot p (h.sub slot p hts hp) slot' hs' hw

/-! ## One join -/

structure Args (R : Roster D) (a : JoinArgs) (slot : String) : Prop where
  expected : slot ∈ R.spec.slots
  request : JoinRequest D a R.spec
  slotId : a.slotId = slot
  workerId : a.workerId = R.worker slot
  role : a.role = R.spec.roleOf slot
  index : a.indexInRole.toNat = R.spec.indexOf slot
  planDigest : a.planDigest = R.planDigest
  source : a.planSource.workerId ≠ "" → a.role = .trainer ∧ a.indexInRole = 0 ∧
    a.planSource.workerId = a.workerId

theorem Args.precheck (ha : R.Args a slot) (hlive : R.Live workers) : joinPrecheck workers a = none := by
  refine ha.request.precheck_iff.2 ⟨?_, ?_, fun hs => ?_⟩
  · rw [ha.slotId, ha.role]
    exact CollectiveGroupSpec.mem_roleSlots ha.expected
  · rw [ha.workerId, ha.role, ha.request.modelName]
    exact hlive slot ha.expected
  · obtain ⟨hr, hi, hw⟩ := ha.source hs
    rw [hr, hi]
    exact ⟨rfl, by decide, hw⟩

theorem Args.not_conflicts (ha : R.Args a slot) (hreg : R.Regular g) : ¬ Conflicts workers a g := by
  rintro ⟨slot', record, p, hr, -, hparse, hc⟩
  have hp : g.participant slot' = some p := participant_eq_some.2 ⟨record, hr, hparse⟩
  obtain ⟨hrole, hindex⟩ := hreg.place slot' p hp
  rw [ha.slotId, ha.role, ha.index, ha.workerId, hrole, hindex] at hc
  split_ifs at hc with hs
  · subst hs
    exact hc.elim (fun h => h rfl) fun h => h rfl
  · rcases hc with ⟨hr', hi'⟩ | hw
    · exact hs (CollectiveGroupSpec.eq_of_place ha.expected hr'.symm (decimal_inj hi').symm).symm
    · exact hs (hreg.home slot' p hp slot ha.expected hw)

variable {request : JoinCollectiveGroupRequest}

theorem Joins.args (hj : R.Joins request slot) {layout : LaneLayout} (hl : layoutFor R.spec = .ok layout) :
    R.Args (joinArgs D.sha256 R.spec layout (R.spec.roleOf slot) request) slot := by
  have hv := validateJoin_ok hj.valid
  refine ⟨hj.expected, joinRequest_of_valid hv hl R.declared, hj.slotId, hj.workerId, rfl, hj.index,
    hj.planDigest, fun hs => ?_⟩
  simp only [joinArgs] at hs ⊢
  cases hsrc : request.planSource with
  | none => rw [hsrc] at hs; exact absurd rfl hs
  | some source =>
    obtain ⟨-, hw, hr, hi⟩ := hv.source source hsrc
    exact ⟨hr, hi, hw⟩

theorem Joins.call (hj : R.Joins request slot) (h : R.Gathering s J) : ∃ a root', R.Args a slot ∧
      (joinCall D.sha256 request s).1.isRefused = false ∧
      (joinCall D.sha256 request s).2.workers = s.workers ∧
      Admits s.workers a (s.groups R.groupId) ((joinCall D.sha256 request s).2.groups R.groupId) root' := by
  obtain ⟨layout, hl⟩ : ∃ layout, layoutFor R.spec = .ok layout := by
    have hok := R.accepted.2
    cases hl : layoutFor R.spec with
    | error e => rw [hl] at hok; cases hok
    | ok layout => exact ⟨layout, rfl⟩
  obtain ⟨_, has⟩ := LaneLayout.assign_ok
    ((LaneLayout.new_ok (mapError_eq_ok.1 hl)).2.2.2.2 request.slotId (hj.slotId ▸ hj.expected))
  have ha := hj.args hl
  have hstep := joinScript_step s.workers (joinArgs D.sha256 R.spec layout (R.spec.roleOf slot) request)
    ⟨s.groups R.groupId, s.ops⟩
  unfold joinCall
  simp only [hj.valid, hl, has, Store.onGroup]
  rw [show (joinArgs D.sha256 R.spec layout (R.spec.roleOf slot) request).groupId = R.groupId from rfl,
    update_self]
  generalize joinScript s.workers (joinArgs D.sha256 R.spec layout (R.spec.roleOf slot) request)
    ⟨s.groups R.groupId, s.ops⟩ = r at hstep ⊢
  obtain ⟨o, c⟩ := r
  obtain ⟨root', hadm, _, _, rfl⟩ := hstep.admits (ha.precheck h.live)
    (ha.not_conflicts h.regular) (fun hr => (h.inv.absent hr).1) ha.request.worker_free
  exact ⟨_, root', ha, rfl, trivial, hadm⟩

/-! ## Steps -/

variable {e : D.Event}

theorem Gathering.redone (h : R.Gathering s J) (hlive : R.Live (D.next s e).workers)
    (hd : Redone s.workers R.spec.modelName touched (s.groups R.groupId) ((D.next s e).groups R.groupId))
    (ht : ∀ slot p, touched slot → ((D.next s e).groups R.groupId).participant slot = some p →
      slot ∈ R.spec.slots ∧ p.workerId = R.worker slot ∧ p.role = (R.spec.roleOf slot).text ∧
      p.index = decimal (R.spec.indexOf slot))
    (hheld : ∀ slot, touched slot → J' slot → R.Held ((D.next s e).groups R.groupId) slot)
    (hJ : ∀ slot, J' slot → J slot ∨ touched slot ∧ slot ∈ R.spec.slots)
    (hroot : ∀ slot, J' slot → ∃ root, ((D.next s e).groups R.groupId).root = some root ∧
      root.planDigest = R.planDigest) : R.Gathering (D.next s e) J' := by
  refine ⟨h.inv.step ((next_step s e).group R.groupId), hlive, h.regular.redone hd ht,
    fun slot hs => (hJ slot hs).elim (h.expected slot) And.right, fun slot hs => ?_, hroot⟩
  by_cases hts : touched slot
  · exact hheld slot hts hs
  · have hj : J slot := (hJ slot hs).resolve_right fun hc => hts hc.1
    exact ((h.held slot hj).redone hd h.live h.regular (h.expected slot hj) hts).2

theorem Gathering.join (h : R.Gathering s J) (he : e.1 = .join request) (hj : R.Joins request slot) :
    (step D.sha256 s e.1).1.isRefused = false ∧
      R.Gathering (D.next s e) (fun x => J x ∨ x = slot) ∧
      ∃ a root', R.Args a slot ∧ (D.next s e).workers = s.workers ∧
        Admits s.workers a (s.groups R.groupId) ((D.next s e).groups R.groupId) root' := by
  obtain ⟨a, root', ha, hok, hw, hadm⟩ := hj.call h
  have hnext : D.next s e = (joinCall D.sha256 request s).2 := by rw [Deployment.next, he]; rfl
  rw [← hnext] at hw hadm
  refine ⟨by rw [he]; exact hok, ?_, a, root', ha, hw, hadm⟩
  have hd := hadm.others
  rw [ha.request.modelName, ha.slotId] at hd
  have hown := hadm.own
  have hdig := hadm.digest
  rw [ha.slotId] at hown hdig
  refine h.redone (hw ▸ h.live) hd ?_ ?_ (fun x hx => hx.imp_right fun hx => ⟨hx, hx ▸ ha.expected⟩)
    fun _ _ => ⟨root', hadm.stored, hadm.planDigest.trans ha.planDigest⟩
  · rintro x p rfl hp
    cases hown.symm.trans hp
    exact ⟨ha.expected, ha.workerId, congrArg CollectiveRole.text ha.role,
      congrArg decimal ha.index⟩
  · rintro x rfl -
    exact ⟨⟨_, hown, ha.workerId⟩, hdig.trans (congrArg _ ha.planDigest)⟩

theorem Background.step (hb : R.Background e.1) (hlive : R.Live s.workers) :
    R.Live (D.next s e).workers ∧ (Quiet (s.groups R.groupId) ((D.next s e).groups R.groupId) ∨
      ∃ root lanes root', (s.groups R.groupId).root = some root ∧ decodeLanes root.lanes = .ok lanes ∧
        (D.next s e).workers = s.workers ∧ Refreshes s.workers (lanes.map (·.laneId))
          (s.groups R.groupId) ((D.next s e).groups R.groupId) root root') := by
  obtain ⟨e, hD⟩ := e
  cases hb with
  | register _ _ h => exact ⟨h _ hlive, Or.inl (.refl _)⟩
  | expireRequest => exact ⟨hlive, Or.inl (.refl _)⟩
  | rehash groupId =>
    refine ⟨hlive, Or.inl ?_⟩
    simp only [Deployment.next, Collective.step]
    by_cases hid : R.groupId = groupId
    · subst hid
      rw [update_self, Collective.rehash]
      split_ifs with hp
      · exact ⟨rfl, fun _ => AList.perm_lookup hp.1, fun _ => AList.perm_lookup hp.2, rfl⟩
      · exact .refl _
    · rw [update_of_ne hid]
      exact .refl _
  | refresh groupId =>
    simp only [Deployment.next, Collective.step, refreshCall]
    cases hr : (s.groups groupId).root with
    | none => exact ⟨hlive, Or.inl (.refl _)⟩
    | some root =>
      simp only
      cases hl : decodeLanes root.lanes with
      | error err => exact ⟨hlive, Or.inl (.refl _)⟩
      | ok lanes =>
        refine ⟨hlive, ?_⟩
        simp only [Store.onGroup]
        by_cases hid : R.groupId = groupId
        · subst hid
          obtain ⟨root', href⟩ := (refreshScript_step s.workers (lanes.map (·.laneId))
            ⟨s.groups R.groupId, s.ops⟩).refreshes hr
          rw [update_self]
          exact Or.inr ⟨root, lanes, root', hr, hl, trivial, href⟩
        · rw [update_of_ne hid]
          exact Or.inl (.refl _)

theorem Gathering.background (h : R.Gathering s J) (hb : R.Background e.1) : R.Gathering (D.next s e) J := by
  obtain ⟨hlive, hq | ⟨root, _, root', hr, hl, hw, href⟩⟩ := hb.step h.live
  · refine h.redone hlive (hq.redone _ fun _ => False) (fun _ _ hf => hf.elim) (fun _ hf => hf.elim)
      (fun _ hs => Or.inl hs) fun slot hs => ?_
    rw [hq.root]
    exact h.rooted slot hs
  · obtain ⟨_, hp⟩ := h.inv.present root hr
    have hd := href.others
    rw [hp.rooted.modelName, (sameShape hp.rooted).modelName] at hd
    refine h.redone hlive hd (fun _ _ hf => hf.elim) (fun _ hf => hf.elim) (fun _ hs => Or.inl hs)
      fun slot hs => ⟨root', href.stored, href.planDigest.trans ?_⟩
    obtain ⟨_, hr₁, hd₁⟩ := h.rooted slot hs
    cases hr.symm.trans hr₁
    exact hd₁

end Roster

end ModelExpress.Collective
