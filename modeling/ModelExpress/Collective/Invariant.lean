/-
  ModelExpress collective refit — the invariant of a group.
-/
import ModelExpress.Collective.Groups

namespace ModelExpress.Collective

open Text Assoc AList Option

structure RootOf (D : Deployment) (groupId : String) (spec : CollectiveGroupSpec) (root : Root) :
    Prop where
  declared : spec ∈ D.specs
  decl : DeclOk spec
  groupId : groupId = groupIdFor D.sha256 spec
  modelName : root.modelName = spec.modelName
  lanes : root.lanes = encodeLanes (lanesFromSpec spec)
  expectedTotal : root.expectedTotal.toNat = spec.slots.length
  trainers : root.expectedTrainerSlots = join '\n' spec.expectedTrainerSlots
  generators : root.expectedGeneratorSlots = join '\n' spec.expectedGeneratorSlots

/-- The records of a group at `epoch`. -/
structure Shape (spec : CollectiveGroupSpec) (epoch : ℕ) (g : Group) : Prop where
  slots : ∀ slot ∈ g.participants, slot ∈ spec.slots
  digests : ∀ slot, slot ∈ g.digests ↔ slot ∈ g.participants
  parsed : ∀ slot ∈ g.participants, ∃ p, g.participant slot = some p
  distinct : ∀ slot slot' p p', g.participant slot = some p → g.participant slot' = some p' →
    p.workerId = p'.workerId → slot = slot'
  lanes : ∀ i lane, g.lanes i = some lane → i ∈ spec.laneIds ∧ lane.bootstrapEpoch = epoch

/-- What a READY group keeps even when participants are dropped. -/
structure Sealed (spec : CollectiveGroupSpec) (root : Root) (g : Group) : Prop where
  joined : ∀ slot p, g.participant slot = some p → toNumber p.joinedEpoch = some root.epoch
  lanes : ∀ i ∈ spec.laneIds, stamped g root.epoch i = true
  agree : ∀ slot digest, g.digests.lookup slot = some digest → digest = root.planDigest

def Full (spec : CollectiveGroupSpec) (g : Group) : Prop := ∀ slot ∈ spec.slots, slot ∈ g.participants

/-- The plan source is an admitted trainer 0 and serves the group's plan. -/
structure SourceOk (root : Root) (g : Group) : Prop where
  owner : ∃ slot p, g.participant slot = some p ∧ p.workerId = root.planSource.workerId ∧
    p.role = "TRAINER" ∧ p.index = "0"
  digest : root.planSource.digest = root.planDigest

/-- The invariant of a group whose root hash exists. -/
structure Present (D : Deployment) (groupId : String) (spec : CollectiveGroupSpec) (g : Group)
    (root : Root) : Prop where
  rooted : RootOf D groupId spec root
  shape : Shape spec root.epoch g
  ready : root.state = .ready → Sealed spec root g
  source : root.planSource.workerId ≠ "" → SourceOk root g

structure GroupInv (D : Deployment) (groupId : String) (g : Group) : Prop where
  absent : g.root = none → (∀ slot, slot ∉ g.participants) ∧ (∀ slot, slot ∉ g.digests) ∧
    g.lanes = fun _ => none
  present : ∀ root, g.root = some root → ∃ spec, Present D groupId spec g root

theorem groupInv_empty (D : Deployment) (groupId : String) : GroupInv D groupId Group.empty where
  absent := fun _ => ⟨AList.notMem_empty, AList.notMem_empty, rfl⟩
  present := by rintro root ⟨⟩

/-! ## Stored lanes -/

variable {spec : CollectiveGroupSpec}

theorem slotsInRankOrder_ok (h : DeclOk spec) :
    ∀ lane ∈ lanesFromSpec spec, ∀ s ∈ lane.slotsInRankOrder, SlotOk s := by
  intro lane hm s hs
  obtain ⟨l, hl, rfl⟩ := List.mem_map.1 hm
  exact h.slot s (h.slots_sub hl s hs)

variable {a : JoinArgs} {model : Option String} {lanes : List Lane} {ops : Operations} {expected : ℕ}
  {p : Participant} {o : JoinOutcome} {D : Deployment} {g : Group} {c : Cell}

namespace RootOf
variable {D : Deployment} {groupId : String} {spec spec' : CollectiveGroupSpec} {root : Root}

section
variable (h : RootOf D groupId spec root)
include h

theorem decodeLanes_eq : decodeLanes root.lanes = .ok (lanesFromSpec spec) := by
  rw [h.lanes, decodeLanes_encodeLanes (slotsInRankOrder_ok h.decl)]

theorem laneIds_eq (hl : decodeLanes root.lanes = .ok lanes) : lanes.map (·.laneId) = spec.laneIds := by
  cases h.decodeLanes_eq.symm.trans hl
  exact lanesFromSpec_laneIds spec

theorem congr {root' : Root} (hm : root'.modelName = root.modelName)
    (hl : root'.lanes = root.lanes) (he : root'.expectedTotal = root.expectedTotal)
    (ht : root'.expectedTrainerSlots = root.expectedTrainerSlots)
    (hg : root'.expectedGeneratorSlots = root.expectedGeneratorSlots) : RootOf D groupId spec root' :=
  ⟨h.declared, h.decl, h.groupId, hm.trans h.modelName, hl.trans h.lanes, by rw [he, h.expectedTotal],
    ht.trans h.trainers, hg.trans h.generators⟩

theorem sameShape (hreq : JoinRequest D a spec') (hid : a.groupId = groupId) : SameShape spec spec' :=
  D.sameShape h.declared hreq.declared h.decl hreq.decl
    (by rw [← h.groupId, ← hid, hreq.groupId])

end

end RootOf

theorem JoinRequest.laneIds_eq (h : JoinRequest D a spec) : a.laneIds = spec.laneIds := by
  rw [JoinArgs.laneIds, h.lanes, lanesFromSpec_laneIds]

/-! ## Preservation by the parts of a script -/

section
variable {spec : CollectiveGroupSpec} {epoch : ℕ} {root root' : Root} {g g' : Group}

theorem Shape.congr (h : Shape spec epoch g)
    (hp : ∀ slot, g'.participants.lookup slot = g.participants.lookup slot)
    (hd : ∀ slot, g'.digests.lookup slot = g.digests.lookup slot) (hl : g'.lanes = g.lanes) :
    Shape spec epoch g' := by
  have hmem : ∀ slot, slot ∈ g'.participants ↔ slot ∈ g.participants := fun slot => by
    rw [mem_iff_lookup, mem_iff_lookup, hp]
  have hpart : ∀ slot, g'.participant slot = g.participant slot := fun slot => by
    rw [Group.participant, hp, Group.participant]
  refine ⟨fun slot hs => h.slots slot ((hmem slot).1 hs), fun slot => ?_, fun slot hs => ?_, ?_, ?_⟩
  · rw [hmem, ← h.digests, mem_iff_lookup, mem_iff_lookup, hd]
  · rw [hpart]
    exact h.parsed slot ((hmem slot).1 hs)
  · intro slot slot' p p'
    rw [hpart, hpart]
    exact h.distinct slot slot' p p'
  · rw [hl]
    exact h.lanes

theorem Sealed.congr (h : Sealed spec root g)
    (hp : ∀ slot p, g'.participant slot = some p → g.participant slot = some p)
    (hd : ∀ slot d, g'.digests.lookup slot = some d → g.digests.lookup slot = some d)
    (hl : g'.lanes = g.lanes) (he : root'.epoch = root.epoch)
    (hdig : root'.planDigest = root.planDigest) : Sealed spec root' g' := by
  refine ⟨fun slot p hs => ?_, fun i hi => ?_, fun slot d hs => ?_⟩
  · rw [he]; exact h.joined slot p (hp slot p hs)
  · rw [he, stamped, hl]; exact h.lanes i hi
  · rw [hdig]; exact h.agree slot d (hd slot d hs)

theorem SourceOk.congr (h : SourceOk root g) (hp : ∀ slot, g'.participant slot = g.participant slot)
    (hs : root'.planSource = root.planSource) (hdig : root'.planDigest = root.planDigest) :
    SourceOk root' g' := by
  obtain ⟨⟨slot, p, hslot, hw⟩, hd⟩ := h
  exact ⟨⟨slot, p, by rw [hp]; exact hslot, by rw [hs]; exact hw⟩, by rw [hs, hdig]; exact hd⟩

variable {workers : Workers} {modelName : String} {owners : String → Prop}

section
variable (hs : Swept g g' (g.lapsed workers modelName) owners)
include hs

theorem Shape.swept (h : Shape spec epoch g) : Shape spec epoch g' := by
  refine ⟨fun slot hm => h.slots slot (hs.mem_participants hm), fun slot => ?_, fun slot hm => ?_, ?_, ?_⟩
  · by_cases hd : g.lapsed workers modelName slot
    · rw [mem_iff_lookup, mem_iff_lookup, (hs.gone slot hd).1, (hs.gone slot hd).2]
    · rw [mem_iff_lookup, mem_iff_lookup, (hs.kept slot hd).1, (hs.kept slot hd).2]
      simpa only [mem_iff_lookup] using h.digests slot
  · obtain ⟨record, hr⟩ := mem_iff_lookup.1 hm
    obtain ⟨p, hp, -⟩ := live_parse (hs.lookup_iff.1 hr).2
    exact ⟨p, participant_eq_some.2 ⟨record, hr, hp⟩⟩
  · intro slot slot' p p' hp hp'
    exact h.distinct slot slot' p p' (hs.participant_iff.1 hp).1 (hs.participant_iff.1 hp').1
  · rw [hs.lanes]
    exact h.lanes

theorem Sealed.swept (h : Sealed spec root g) (he : root'.epoch = root.epoch) (hdig : root'.planDigest = root.planDigest) :
    Sealed spec root' g' := by
  refine h.congr (fun slot p hp => (hs.participant_iff.1 hp).1) (fun slot d hd => ?_) hs.lanes he hdig
  by_cases hdr : g.lapsed workers modelName slot
  · rw [(hs.gone slot hdr).2] at hd
    cases hd
  · rwa [(hs.kept slot hdr).2] at hd

theorem SourceOk.swept (h : SourceOk root g) (hown : ∀ w, g.lapsedWorker workers modelName w → owners w)
    (hn : ¬ owners root.planSource.workerId) : SourceOk root g' := by
  obtain ⟨⟨slot, p, hp, hw, hrole, hidx⟩, hd⟩ := h
  refine ⟨⟨slot, p, ?_, hw, hrole, hidx⟩, hd⟩
  obtain ⟨record, hr, hparse⟩ := participant_eq_some.1 hp
  refine participant_eq_some.2 ⟨record, hs.lookup_iff.2 ⟨hr, ?_⟩, hparse⟩
  by_contra hl
  exact hn (hown _ ⟨slot, record, p, hr, by simpa using hl, hparse, hw⟩)

end

variable {laneIds : List UInt32}

theorem Shape.clear (h : Shape spec epoch g)
    (hl : ∀ i ∈ spec.laneIds, i ∈ laneIds) (epoch' : ℕ) (r : Option Root) (ids : List String) :
    Shape spec epoch' ⟨r, g.participants, g.digests, cleared laneIds g.lanes, ids⟩ := by
  refine ⟨h.slots, h.digests, h.parsed, h.distinct, fun i lane hi => ?_⟩
  simp only [cleared] at hi
  split_ifs at hi with hm
  exact absurd (hl i (h.lanes i lane hi).1) hm

theorem Readiness.sealed (h : Readiness workers g root laneIds expected root.epoch model)
    (hl : ∀ i ∈ spec.laneIds, i ∈ laneIds) : Sealed spec root g := by
  refine ⟨fun slot p hp => ?_, fun i hi => h.lanes i (hl i hi), h.agree⟩
  obtain ⟨record, hr, hparse⟩ := participant_eq_some.1 hp
  have hready := h.ready slot record hr
  simp only [participantReady, hparse, any_some, decide_eq_true_eq] at hready
  exact hready.1

theorem Readiness.full {epoch' : ℕ}
    (h : Readiness workers g root laneIds expected epoch' model) (hs : Shape spec epoch g)
    (he : expected = spec.slots.length) : Full spec g :=
  mem_of_length hs.slots (h.admitted.trans he)

end

/-! ## Admission -/

section
variable {D : Deployment} {groupId : String} {spec spec' : CollectiveGroupSpec} {workers : Workers}
  {a : JoinArgs} {g g' : Group} {root root' : Root} {o : JoinOutcome} {epoch : ℕ}
  {owners : String → Prop}

section
variable (hs : Swept g g' (g.lapsed workers a.modelName) owners)
include hs

theorem worker_free_of_not_conflicts (hc : ¬ Conflicts workers a g) {slot : String} (hne : slot ≠ a.slotId)
    (hp : g'.participant slot = some p) : p.workerId ≠ a.workerId := by
  obtain ⟨record, hr, hparse⟩ := participant_eq_some.1 hp
  obtain ⟨hr, hl⟩ := hs.lookup_iff.1 hr
  intro hw
  exact hc ⟨slot, record, p, hr, hl, hparse, by rw [if_neg hne]; exact Or.inr hw⟩

theorem held_of_not_conflicts (hc : ¬ Conflicts workers a g) (hp : g'.participant a.slotId = some p) :
    p.role = a.role.text ∧ p.index = decimal a.indexInRole.toNat := by
  obtain ⟨record, hr, hparse⟩ := participant_eq_some.1 hp
  obtain ⟨hr, hl⟩ := hs.lookup_iff.1 hr
  by_contra hn
  exact hc ⟨a.slotId, record, p, hr, hl, hparse, by rw [if_pos rfl]; exact not_and_or.1 hn⟩

end

section
variable (ha : Admission workers a epoch g root o g' root')
include ha

section
variable (hreq : JoinRequest D a spec')
include hreq

section
variable (hpre : joinPrecheck workers a = none)
include hpre

theorem Admission.shape (hss : SameShape spec spec') (hd : DeclOk spec) (h : Shape spec epoch g)
    (hfree : ∀ slot p, slot ≠ a.slotId → g.participant slot = some p → p.workerId ≠ a.workerId) :
    Shape spec epoch g' := by
  have hpart := ha.participant hreq.worker_free
  refine ⟨fun slot hm => ?_, fun slot => ?_, fun slot hm => ?_, ?_, ?_⟩
  · rcases ha.mem.1 hm with rfl | hm
    · exact hss.symm.mem_slots hreq.decl hd (hreq.slot_mem hpre)
    · exact h.slots slot hm
  · rw [ha.mem, ha.mem_digests, h.digests]
  · rw [hpart]
    split_ifs with hs
    · exact ⟨_, rfl⟩
    · exact h.parsed slot ((ha.mem.1 hm).resolve_left hs)
  · intro slot slot' p p' hp hp' hw
    rw [hpart] at hp hp'
    split_ifs at hp hp' with hs hs' hs'
    · rw [hs, hs']
    · cases hp
      exact absurd hw.symm (hfree slot' p' hs' hp')
    · cases hp'
      exact absurd hw (hfree slot p hs hp)
    · exact h.distinct slot slot' p p' hp hp' hw
  · rw [ha.lanes]
    exact h.lanes

variable (hdig : root.planDigest = a.planDigest) (hsource : root.planSource.workerId ≠ "" → SourceOk root g)
  (hheld : root.planSource.workerId ≠ "" → ∀ p, g.participant a.slotId = some p → p.workerId = root.planSource.workerId →
    p.workerId = a.workerId ∧ p.role = a.role.text ∧ p.index = decimal a.indexInRole.toNat)
include hdig hsource hheld

theorem Admission.source : root'.planSource.workerId ≠ "" → SourceOk root' g' := by
  have hpart := ha.participant hreq.worker_free
  have hd' : root'.planDigest = root.planDigest := by rw [ha.fields]
  have hsrc : root'.planSource = if a.planSource.workerId ≠ "" then a.planSource else root.planSource :=
    by rw [ha.fields]
  intro hne
  by_cases hp : a.planSource.workerId ≠ ""
  · rw [if_pos hp] at hsrc
    obtain ⟨hrole, hidx, hw⟩ := (hreq.precheck_iff.1 hpre).2.2 hp
    refine ⟨⟨a.slotId, _, by rw [hpart, if_pos rfl], ?_, hrole, hidx⟩, ?_⟩
    · rw [hsrc]; exact hw.symm
    · rw [hsrc, hd', hdig]; exact hreq.source_digest hp
  · rw [if_neg hp] at hsrc
    rw [hsrc] at hne
    obtain ⟨⟨slot, p, hslot, hw, hrole, hidx⟩, hdigest⟩ := hsource hne
    refine ⟨?_, by rw [hsrc, hd']; exact hdigest⟩
    by_cases hs : slot = a.slotId
    · subst hs
      refine ⟨a.slotId, _, by rw [hpart, if_pos rfl], ?_⟩
      rw [hsrc, ← hw]
      obtain ⟨hw', hr', hi'⟩ := hheld hne p hslot hw
      exact ⟨hw'.symm, hr'.symm.trans hrole, hi'.symm.trans hidx⟩
    · exact ⟨slot, p, by rw [hpart, if_neg hs]; exact hslot, by rw [hsrc]; exact hw, hrole, hidx⟩

theorem Admission.present (hid : a.groupId = groupId)
    (hroot : RootOf D groupId spec root) (he : root.epoch = epoch) (h : Shape spec epoch g)
    (hfree : ∀ slot p, slot ≠ a.slotId → g.participant slot = some p → p.workerId ≠ a.workerId) :
    Present D groupId spec g' root' := by
  have hss := hroot.sameShape hreq hid
  have he' : root'.epoch = epoch := by rw [ha.fields]; exact he
  refine ⟨hroot.congr (by rw [ha.fields]) (by rw [ha.fields]) (by rw [ha.fields])
    (by rw [ha.fields]) (by rw [ha.fields]), ?_, fun hready => ?_,
    ha.source hreq hpre hdig hsource hheld⟩
  · rw [he']
    exact ha.shape hreq hpre hss hroot.decl h hfree
  · refine Readiness.sealed (he' ▸ ha.ready.1 hready) fun i hi => ?_
    rw [hreq.laneIds_eq]
    exact hss.mem_laneIds hi

end

end

end

end

/-! ## Preservation by a step of the group -/

theorem GroupInv.of_present {groupId : String}
    {root : Root} (hr : g.root = some root) (h : Present D groupId spec g root) : GroupInv D groupId g := by
  refine ⟨fun hn => ?_, fun _ hr' => ⟨spec, ?_⟩⟩
  · cases hr.symm.trans hn
  · rw [hr] at hr'
    cases hr'
    exact h

section
variable {D : Deployment} {groupId : String} {spec spec' : CollectiveGroupSpec} {workers : Workers}
  {g g' : Group} {root root' : Root} {owners : String → Prop} {e : Event}

theorem Present.quiet (h : Present D groupId spec g root) (hq : Quiet g g') :
    Present D groupId spec g' root where
  rooted := h.rooted
  shape := h.shape.congr hq.participants hq.digests hq.lanes
  ready := fun hready => (h.ready hready).congr (fun slot _ hp => hq.participant slot ▸ hp)
    (fun slot _ hd => hq.digests slot ▸ hd) hq.lanes rfl rfl
  source := fun hne => (h.source hne).congr hq.participant rfl rfl

theorem GroupInv.quiet (h : GroupInv D groupId g) (hq : Quiet g g') : GroupInv D groupId g' := by
  refine ⟨fun hn => ?_, fun root hr => ?_⟩
  · rw [hq.root] at hn
    obtain ⟨hp, hd, hl⟩ := h.absent hn
    refine ⟨fun slot hm => hp slot (hq.mem.1 hm), fun slot hm => hd slot ?_, hq.lanes.trans hl⟩
    rw [mem_iff_lookup, hq.digests] at hm
    exact mem_iff_lookup.2 hm
  · rw [hq.root] at hr
    obtain ⟨spec, hpres⟩ := h.present root hr
    exact ⟨spec, hpres.quiet hq⟩

theorem Present.swept (h : Present D groupId spec g root) (hr : g.root = some root) {modelName : String}
    (hs : Swept g g' (g.lapsed workers modelName) owners)
    (hown : ∀ w, g.lapsedWorker workers modelName w → owners w) :
    ∃ root', g'.root = some root' ∧ root'.epoch = root.epoch ∧ root'.planDigest = root.planDigest ∧
      root'.state = root.state ∧ Present D groupId spec g' root' ∧
      (root'.planSource.workerId ≠ "" → root'.planSource = root.planSource ∧
        ¬ owners root.planSource.workerId) := by
  rcases hs.root_some hr with ⟨hr', hn⟩ | hr'
  · exact ⟨root, hr', rfl, rfl, rfl, ⟨h.rooted, h.shape.swept hs, fun hready =>
      (h.ready hready).swept hs rfl rfl, fun hne => (h.source hne).swept hs hown hn⟩, fun _ => ⟨rfl, hn⟩⟩
  · refine ⟨root.clearSource, hr', rfl, rfl, rfl, ⟨h.rooted.congr rfl rfl rfl rfl rfl, h.shape.swept hs,
      fun hready => (h.ready hready).swept hs rfl rfl, fun hne => absurd rfl hne⟩, fun hne => absurd rfl hne⟩

theorem Settled.present {laneIds : List UInt32} {epoch : ℕ} {modelName : Option String}
    (hset : Settled workers laneIds expected epoch modelName g root g' root')
    (hl : ∀ i ∈ spec.laneIds, i ∈ laneIds) (hroot : RootOf D groupId spec root) (he : root.epoch = epoch)
    (h : Shape spec epoch g) (hsrc : root.planSource.workerId ≠ "" → SourceOk root g) :
    Present D groupId spec g' root' := by
  have he' : root'.epoch = epoch := by rw [hset.fields]; exact he
  have hsrc' : root'.planSource = root.planSource := by rw [hset.fields]
  refine ⟨hroot.congr (by rw [hset.fields]) (by rw [hset.fields]) (by rw [hset.fields])
    (by rw [hset.fields]) (by rw [hset.fields]), ?_,
    fun hready => (he' ▸ hset.ready.1 hready).sealed hl, fun hne => ?_⟩
  · rw [he']
    exact h.congr (fun slot => by rw [hset.participants]) (fun slot => by rw [hset.digests]) hset.lanes
  · refine (hsrc (hsrc' ▸ hne)).congr (fun slot => ?_) hsrc' (by rw [hset.fields])
    rw [Group.participant, hset.participants, Group.participant]

theorem leaderSlot_declared {laneId : UInt32} {leader : String}
    (h : leaderSlot lanes laneId = some leader) : laneId ∈ lanes.map (·.laneId) := by
  obtain ⟨lane, hf, -⟩ := bind_eq_some_iff.1 h
  have hid := List.find?_some hf
  exact List.mem_map.2 ⟨lane, List.mem_of_find?_eq_some hf, by simpa using hid⟩

theorem Shape.stamp {a : PublishArgs} (h : Shape spec a.epoch g) (hl : a.laneId ∈ spec.laneIds) :
    Shape spec a.epoch (stampLane a g) := by
  unfold stampLane
  split_ifs
  · exact h
  · refine ⟨h.slots, h.digests, h.parsed, h.distinct, fun i lane hi => ?_⟩
    simp only at hi
    by_cases hid : i = a.laneId
    · subst hid
      rw [Function.update_self] at hi
      cases hi
      exact ⟨hl, rfl⟩
    · rw [Function.update_of_ne hid] at hi
      exact h.lanes i lane hi

theorem stampLane_participants (a : PublishArgs) (g : Group) :
    (stampLane a g).participants = g.participants := by unfold stampLane; split <;> rfl

theorem createdRoot_rootOf (hreq : JoinRequest D a spec) (hid : a.groupId = groupId) :
    RootOf D groupId spec (createdRoot a) :=
  ⟨hreq.declared, hreq.decl, by rw [← hid, hreq.groupId], hreq.modelName,
    by rw [createdRoot, hreq.lanes], hreq.expectedTotal, hreq.trainers, hreq.generators⟩

theorem shape_created (a : JoinArgs) (laneIds : List UInt32) :
    Shape spec 1 ⟨some (createdRoot a), ∅, ∅, cleared laneIds fun _ => none, []⟩ := by
  refine ⟨fun slot hm => absurd hm (notMem_empty slot), fun slot =>
    iff_of_false (notMem_empty slot) (notMem_empty slot),
    fun slot hm => absurd hm (notMem_empty slot), fun slot _ p p' hp => ?_, fun i lane hi => ?_⟩
  · exact absurd (mem_of_participant hp) (notMem_empty slot)
  · simp [cleared] at hi

section
variable (h : Present D groupId spec g root)
include h

section
variable (hr : g.root = some root)
include hr

theorem Present.join (hreq : JoinRequest D a spec')
    (hid : a.groupId = groupId) (hstep : JoinStep workers a ⟨g, ops⟩ (o, c)) :
    ∃ root', c.group.root = some root' ∧ Present D groupId spec c.group root' := by
  cases hstep with
  | refused => exact ⟨root, hr, h⟩
  | created hpre hn =>
    rw [show g.root = none from hn] at hr
    cases hr
  | rejected _ _ _ _ hs =>
    obtain ⟨root', hroot', -, -, -, hp', -⟩ := h.swept hr hs fun _ hw => hw
    exact ⟨root', hroot', hp'⟩
  | @joined _ root₀ root₁ root' g₁ g' hpre hr' hc hn hs hr₁ ha =>
    obtain rfl : root₀ = root := mem_unique hr' hr
    obtain ⟨root₂, hr₂, he, hd, -, hp₂, hsrc⟩ := h.swept hr hs fun _ hw => Or.inl hw
    obtain rfl : root₁ = root₂ := mem_unique hr₁ hr₂
    have hdig : root₀.planDigest = a.planDigest := by
      by_contra hne
      exact hn (Or.inr hne)
    refine ⟨root', ha.stored, ha.present hreq hpre (hd.trans hdig) hp₂.source (fun hset p hpart hw => ?_) hid hp₂.rooted he
      (he ▸ hp₂.shape) fun slot p hne hp => worker_free_of_not_conflicts hs hc hne hp⟩
    refine ⟨?_, held_of_not_conflicts hs hc hpart⟩
    -- a holder other than the incoming worker is replaced, and its plan source cleared
    by_contra hne
    obtain ⟨record, hrec, hparse⟩ := participant_eq_some.1 hpart
    obtain ⟨hrec, hlive⟩ := hs.lookup_iff.1 hrec
    have hrep : Replaces workers a g p.workerId := ⟨record, p, hrec, hlive, hparse, rfl, hne⟩
    obtain ⟨hsame, hno⟩ := hsrc hset
    rw [hw, hsame] at hrep
    exact hno (Or.inr hrep)
  | @bumped _ root₀ root' _ _ _ hpre hr' hc _ hs _ ha =>
    obtain rfl : root₀ = root := mem_unique hr' hr
    obtain ⟨_, -, -, -, -, hp₂, -⟩ := h.swept hr hs fun _ hw => Or.inl hw
    have hss := h.rooted.sameShape hreq hid
    have hl : ∀ i ∈ spec.laneIds, i ∈ a.laneIds := fun i hi => by
      rw [hreq.laneIds_eq]; exact hss.mem_laneIds hi
    exact ⟨root', ha.stored, ha.present hreq hpre rfl (fun hne => absurd rfl hne) (fun hne => absurd rfl hne) hid
      (h.rooted.congr rfl rfl rfl rfl rfl) rfl (hp₂.shape.clear hl _ _ _)
      fun slot p hne hp => worker_free_of_not_conflicts hs hc hne hp⟩

theorem Present.refresh {o : RefreshOutcome} (hstep : RefreshStep workers spec.laneIds ⟨g, ops⟩ (o, c)) :
    ∃ root', c.group.root = some root' ∧ Present D groupId spec c.group root' := by
  cases hstep with
  | notFound => exact ⟨root, hr, h⟩
  | kept hr' hn hs hr₁ hset =>
    cases hr'.symm.trans hr
    obtain ⟨_, hr₂, he, -, -, hp₂, -⟩ := h.swept hr hs fun _ hw => hw
    cases hr₁.symm.trans hr₂
    exact ⟨_, hset.stored, hset.present (fun _ hi => hi) hp₂.rooted he (he ▸ hp₂.shape) hp₂.source⟩
  | bumped hr' _ _ hs _ hset =>
    cases hr'.symm.trans hr
    obtain ⟨_, -, -, -, -, hp₂, -⟩ := h.swept hr hs fun _ hw => hw
    exact ⟨_, hset.stored, hset.present (fun _ hi => hi) (h.rooted.congr rfl rfl rfl rfl rfl) rfl
      (hp₂.shape.clear (fun _ hi => hi) _ _ _) fun hne => absurd rfl hne⟩

theorem Present.publish {a : PublishArgs} {o : PublishOutcome} (hlane : a.laneId ∈ spec.laneIds)
    (hstep : PublishStep workers spec.laneIds a g (o, g')) :
    ∃ root', g'.root = some root' ∧ Present D groupId spec g' root' := by
  cases hstep with
  | notFound | stale | notLeader | conflict => exact ⟨root, hr, h⟩
  | published hr' he hlive hset =>
    cases hr'.symm.trans hr
    refine ⟨_, hset.stored, hset.present (fun _ hi => hi) h.rooted rfl ?_ fun hne => ?_⟩
    · rw [← he]
      exact (he.symm ▸ h.shape).stamp hlane
    · refine (h.source hne).congr (fun slot => ?_) rfl rfl
      rw [Group.participant, stampLane_participants, Group.participant]

theorem Present.fail (ids : List String) :
    ∃ root', ({ g.advance spec.laneIds with activeOps := ids } : Group).root = some root' ∧
      Present D groupId spec { g.advance spec.laneIds with activeOps := ids } root' := by
  refine ⟨advancedRoot root, ?_, h.rooted.congr rfl rfl rfl rfl rfl, ?_, fun hready => ?_,
    fun hne => absurd rfl hne⟩
  · exact advance_root hr spec.laneIds
  · exact h.shape.clear (fun _ hi => hi) _ _ _
  · cases hready

theorem Present.step (hs : GroupStep D workers groupId e g g') :
    ∃ root', g'.root = some root' ∧ Present D groupId spec g' root' := by
  cases hs with
  | quiet hq => exact ⟨root, hq.root.trans hr, h.quiet hq⟩
  | join _ _ hreq hid hstep hg => rw [hg]; exact h.join hr hreq hid hstep
  | refresh hr' hl hstep hg =>
    cases hr'.symm.trans hr
    rw [h.rooted.laneIds_eq hl] at hstep
    rw [hg]
    exact h.refresh hr hstep
  | publish hr' hl hlead hstep =>
    cases hr'.symm.trans hr
    have hlane := leaderSlot_declared hlead
    rw [h.rooted.laneIds_eq hl] at hstep hlane
    exact h.publish hr hlane hstep
  | fail ids hr' hl _ hg =>
    cases hr'.symm.trans hr
    rw [h.rooted.laneIds_eq hl] at hg
    rw [hg]
    exact h.fail hr ids

end

end

theorem Present.created {lanes : UInt32 → Option LaneHash}
    (hreq : JoinRequest D a spec) (hpre : joinPrecheck workers a = none) (hid : a.groupId = groupId)
    (hl : lanes = fun _ => none)
    (ha : Admission workers a 1 ⟨some (createdRoot a), ∅, ∅, cleared a.laneIds lanes, []⟩
      (createdRoot a) o g' root') : Present D groupId spec g' root' := by
  subst hl
  refine ha.present hreq hpre rfl (fun hne => absurd rfl hne) (fun hne => absurd rfl hne) hid (createdRoot_rootOf hreq hid) rfl
    (shape_created a _) fun slot p _ hp => ?_
  exact absurd (mem_of_participant hp) (notMem_empty slot)

theorem GroupInv.step (h : GroupInv D groupId g) (hs : GroupStep D workers groupId e g g') :
    GroupInv D groupId g' := by
  cases hr : g.root with
  | some root =>
    obtain ⟨spec, hp⟩ := h.present root hr
    obtain ⟨_, hr', hp'⟩ := hp.step hr hs
    exact .of_present hr' hp'
  | none =>
    cases hs with
    | quiet hq => exact h.quiet hq
    | join _ _ hreq hid hstep hg =>
      rw [hg]
      cases hstep with
      | refused => exact h
      | created hpre hn hops ha =>
        exact .of_present ha.stored (Present.created hreq hpre hid (h.absent hr).2.2 ha)
      | rejected _ hr' | joined _ hr' | bumped _ hr' => rw [show g.root = _ from hr'] at hr; cases hr
    | refresh hr' | publish hr' | fail ids hr' => rw [hr] at hr'; cases hr'

end

theorem Deployment.groupInv (D : Deployment) (es : List D.Event) (groupId : String) :
    GroupInv D groupId ((D.run es).groups groupId) :=
  Run.invariant (P := fun s : Store => GroupInv D groupId (s.groups groupId)) (groupInv_empty D groupId)
    (fun s e h => h.step ((next_step s e).group groupId)) es

/-! ## The plan source -/

/-- **A stored plan source is an admitted trainer 0 that serves the group's plan.** -/
theorem planSource_served (D : Deployment) (es : List D.Event) (groupId : String) (root : Root)
    (hr : ((D.run es).groups groupId).root = some root) (hs : root.planSource.workerId ≠ "") :
    (∃ slot p, ((D.run es).groups groupId).participant slot = some p ∧
      p.workerId = root.planSource.workerId ∧ p.role = "TRAINER" ∧ p.index = "0") ∧
      root.planSource.digest = root.planDigest := by
  obtain ⟨spec, hp⟩ := (D.groupInv es groupId).present root hr
  obtain ⟨howner, hdigest⟩ := hp.source hs
  exact ⟨howner, hdigest⟩

def pairSpec : CollectiveGroupSpec := ⟨"m", ["t0"], ["g0"], [⟨0, 2, ["t0"], ["g0"]⟩]⟩

def pairHash : List UInt8 :=
  [138, 167, 149, 79, 227, 106, 110, 117, 23, 32, 30, 143, 183, 56, 41, 142, 103, 122, 178, 157, 48,
    199, 68, 4, 60, 56, 97, 122, 150, 90, 32, 41]

def pairDeployment : Deployment where
  sha256 := fun _ => pairHash
  specs := {pairSpec}
  decoded := by
    rintro spec rfl
    unfold withinMessage
    decide
  collisionFree := by
    rintro a rfl b rfl -
    rfl

def pairId : String := "8aa7954fe36a6e7517201e8fb738298e"

def pairEvent (e : Event) (h : ∀ spec ∈ e.specs, spec = pairSpec) : pairDeployment.Event := ⟨e, h⟩

def pairJoin (slot worker : String) (role : Int32) (index : UInt32) (source : Option PlanSource) :
    pairDeployment.Event :=
  pairEvent (.join ⟨some pairSpec, slot, worker, role, index, "d", source⟩) fun _ h =>
    List.mem_singleton.1 h

def pairRegister (worker : String) (registration : Option Registration) : pairDeployment.Event :=
  pairEvent (.register worker registration) fun _ h => nomatch h

def pairPublish (epoch : UInt64) (worker : String) : pairDeployment.Event :=
  pairEvent (.publish ⟨pairId, epoch, 0, worker, List.replicate 128 9⟩) fun _ h => nomatch h

def pairFormed : List pairDeployment.Event :=
  [pairRegister "a" (some ⟨"a", "1", "m"⟩), pairRegister "b" (some ⟨"b", "2", "m"⟩),
    pairJoin "t0" "a" 1 0 (some ⟨"a", "a:1", "d"⟩), pairJoin "g0" "b" 2 0 none, pairPublish 1 "a"]

theorem exists_root_of_any {P : Root → Prop} [DecidablePred P]
    (h : g.root.any (fun root => decide (P root)) = true) : ∃ root, g.root = some root ∧ P root := by
  simpa [any_eq_true] using h

theorem planSource_served_formed : ∃ root,
    ((pairDeployment.run pairFormed).groups pairId).root = some root ∧ root.planSource.workerId ≠ "" ∧
    (∃ slot p, ((pairDeployment.run pairFormed).groups pairId).participant slot = some p ∧
      p.workerId = root.planSource.workerId ∧ p.role = "TRAINER" ∧ p.index = "0") ∧
      root.planSource.digest = root.planDigest := by
  obtain ⟨root, hr, hs⟩ : ∃ root, ((pairDeployment.run pairFormed).groups pairId).root = some root ∧
      root.planSource.workerId ≠ "" := exists_root_of_any (by decide +kernel)
  exact ⟨root, hr, hs, planSource_served pairDeployment pairFormed pairId root hr hs⟩

end ModelExpress.Collective
