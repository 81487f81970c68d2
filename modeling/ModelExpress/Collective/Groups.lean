/-
  ModelExpress collective refit — what one event can do to one group.
-/
import ModelExpress.Collective.Steps

namespace ModelExpress.Collective

open Function Assoc

/-! ## Steps of a group -/

/-- The same group by lookups; the active operations may differ. -/
structure Quiet (g g' : Group) : Prop where
  root : g'.root = g.root
  participants : ∀ slot, g'.participants.lookup slot = g.participants.lookup slot
  digests : ∀ slot, g'.digests.lookup slot = g.digests.lookup slot
  lanes : g'.lanes = g.lanes

theorem Quiet.refl (g : Group) : Quiet g g := ⟨rfl, fun _ => rfl, fun _ => rfl, rfl⟩

theorem Quiet.activeOps (g : Group) (ids : List String) : Quiet g { g with activeOps := ids } :=
  ⟨rfl, fun _ => rfl, fun _ => rfl, rfl⟩

inductive GroupStep (D : Deployment) (workers : Workers) (groupId : String) (e : Event) (g g' : Group) :
    Prop
  | quiet (h : Quiet g g')
  | join {request : JoinCollectiveGroupRequest} {a : JoinArgs} {spec : CollectiveGroupSpec}
      {ops : Operations} {o : JoinOutcome} {c : Cell} (he : e = .join request)
      (hprep : Prepares D.sha256 request a) (hreq : JoinRequest D a spec) (hid : a.groupId = groupId)
      (hstep : JoinStep workers a ⟨g, ops⟩ (o, c)) (hg : g' = c.group)
  | refresh {root : Root} {lanes : List Lane} {ops : Operations} {o : RefreshOutcome} {c : Cell}
      (hr : g.root = some root) (hl : decodeLanes root.lanes = .ok lanes)
      (hstep : RefreshStep workers (lanes.map (·.laneId)) ⟨g, ops⟩ (o, c)) (hg : g' = c.group)
  | publish {request : PublishGroupBootstrapRequest} {root : Root} {lanes : List Lane}
      {leader : String} {o : PublishOutcome} (hr : g.root = some root)
      (hl : decodeLanes root.lanes = .ok lanes) (hlead : leaderSlot lanes request.laneId = some leader)
      (hstep : PublishStep workers (lanes.map (·.laneId)) (publishArgs request leader) g (o, g'))
  | fail {root : Root} {lanes : List Lane} (ids : List String) (hr : g.root = some root)
      (hl : decodeLanes root.lanes = .ok lanes) (hready : root.state = .ready)
      (hg : g' = { g.advance (lanes.map (·.laneId)) with activeOps := ids })

variable {g' g : Group}

section
variable {D : Deployment} {s s' : Store} {e : Event}

theorem groupStep_update {groupId gid : String} (h : GroupStep D s.workers groupId e (s.groups groupId) g') :
    GroupStep D s.workers gid e (s.groups gid) (Function.update s.groups groupId g' gid) := by
  by_cases hid : gid = groupId
  · subst hid
    rw [update_self]
    exact h
  · rw [update_of_ne hid]
    exact .quiet (.refl _)

theorem settle_groups (a : ReportArgs) (op : Operation) (s : Store) (gid : String) :
    ∃ ids, (settle a op s).groups gid = { s.groups gid with activeOps := ids } := by
  unfold settle
  simp only
  split_ifs with ht
  · by_cases hid : gid = a.groupId
    · subst hid
      exact ⟨_, by rw [update_self]⟩
    · exact ⟨(s.groups gid).activeOps, by rw [update_of_ne hid]⟩
  · exact ⟨(s.groups gid).activeOps, rfl⟩

theorem settle_quiet (a : ReportArgs) (op : Operation) (s : Store) (gid : String) :
    Quiet (s.groups gid) ((settle a op s).groups gid) := by
  obtain ⟨ids, hids⟩ := settle_groups a op s gid
  rw [hids]
  exact .activeOps _ ids

theorem StoreStep.group (h : StoreStep D s e s') (gid : String) :
    GroupStep D s.workers gid e (s.groups gid) (s'.groups gid) := by
  cases h with
  | idle | register | expireRequest => exact .quiet (.refl _)
  | rehash hp hd =>
    exact groupStep_update (.quiet ⟨rfl, fun _ => AList.perm_lookup hp, fun _ => AList.perm_lookup hd, rfl⟩)
  | join hprep hreq hstep => exact groupStep_update (.join rfl hprep hreq rfl hstep rfl)
  | refresh hr hl hstep => exact groupStep_update (.refresh hr hl hstep rfl)
  | publish hr hl hlead hstep => exact groupStep_update (.publish hr hl hlead hstep)
  | create hreq hstep =>
    cases hstep with
    | existing | refused => exact .quiet (.refl _)
    | created => exact groupStep_update (.quiet (.activeOps _ _))
  | @report request root lanes o s' hr hl hstep =>
    cases hstep with
    | idle => exact .quiet (.refl _)
    | complete | running => exact .quiet (settle_quiet _ _ (marked _ s) gid)
    | @failed op root' hrep hf =>
      have hready : root.state = .ready := by
        have hroot : (s.groups request.groupId).root = some root' := hrep.rooted
        cases hr.symm.trans hroot
        exact hrep.ready
      by_cases hid : gid = request.groupId
      · subst hid
        obtain ⟨ids, hids⟩ := settle_groups (reportArgs request)
          { op with state := .failed, failureMessage := request.message }
          (marked (reportArgs request) s) request.groupId
        refine .fail ids hr hl hready ?_
        simp only [failGroup, reportArgs] at hids ⊢
        rw [update_self, hids]
        rfl
      · have hne : (failGroup (reportArgs request).groupId (lanes.map (·.laneId))
            (settle (reportArgs request) { op with state := .failed, failureMessage := request.message }
              (marked (reportArgs request) s))).groups gid =
            (settle (reportArgs request) { op with state := .failed, failureMessage := request.message }
              (marked (reportArgs request) s)).groups gid := update_of_ne hid ..
        rw [show (reportArgs request).message = request.message from rfl, hne]
        exact .quiet (settle_quiet _ _ (marked _ s) gid)
  | delete hop hstep =>
    cases hstep with
    | idle => exact .quiet (.refl _)
    | deleted => exact groupStep_update (.quiet (.activeOps _ _))

end

/-! ## Participants -/

def Group.participant (g : Group) (slot : String) : Option Participant :=
  (g.participants.lookup slot).bind parseParticipant

variable {slot : String} {p : Participant}

theorem participant_eq_some : g.participant slot = some p ↔
      ∃ record, g.participants.lookup slot = some record ∧ parseParticipant record = some p :=
  Option.bind_eq_some_iff

theorem mem_of_participant (h : g.participant slot = some p) : slot ∈ g.participants := by
  obtain ⟨record, hr, -⟩ := participant_eq_some.1 h
  exact mem_iff_lookup.2 ⟨record, hr⟩

theorem Quiet.participant (h : Quiet g g') (slot : String) : g'.participant slot = g.participant slot := by
  rw [Group.participant, h.participants, Group.participant]

theorem Quiet.mem (h : Quiet g g') : slot ∈ g'.participants ↔ slot ∈ g.participants := by
  rw [mem_iff_lookup, mem_iff_lookup, h.participants]

section
variable {workers : Workers} {modelName : String} {g g' : Group} {owners : String → Prop}

section
variable (h : Swept g g' (g.lapsed workers modelName) owners)
include h

theorem Swept.participant_iff
    : g'.participant slot = some p ↔ g.participant slot = some p ∧
      registrationMatches workers p.workerId p.role modelName = true := by
  rw [participant_eq_some, participant_eq_some]
  constructor
  · rintro ⟨record, hr, hp⟩
    obtain ⟨hr, hl⟩ := h.lookup_iff.1 hr
    obtain ⟨p', hp', hm⟩ := live_parse hl
    cases hp.symm.trans hp'
    exact ⟨⟨record, hr, hp⟩, hm⟩
  · rintro ⟨⟨record, hr, hp⟩, hm⟩
    exact ⟨record, h.lookup_iff.2 ⟨hr, by simp [live, hp, hm]⟩, hp⟩

theorem Swept.participant_eq (hn : ¬ ∃ slot, g.lapsed workers modelName slot) (slot : String) :
    g'.participant slot = g.participant slot := by
  rw [Group.participant, (h.kept slot fun hl => hn ⟨slot, hl⟩).1, Group.participant]

end

theorem Swept.mem_participants {dropped : String → Prop} (h : Swept g g' dropped owners)
    (hm : slot ∈ g'.participants) : slot ∈ g.participants := by
  obtain ⟨record, hr⟩ := mem_iff_lookup.1 hm
  by_cases hd : dropped slot
  · rw [(h.gone slot hd).1] at hr
    cases hr
  · rw [(h.kept slot hd).1] at hr
    exact mem_iff_lookup.2 ⟨record, hr⟩

variable {a : JoinArgs} {epoch : ℕ} {root root' : Root} {o : JoinOutcome}

section
variable (h : Admission workers a epoch g root o g' root')
include h

theorem Admission.participant
    (hw : '|' ∉ a.workerId.toList) (slot : String) : g'.participant slot =
      if slot = a.slotId then some (admitted a.workerId a.role a.indexInRole epoch)
      else g.participant slot := by
  rw [Group.participant, h.participants]
  split_ifs with hs
  · rw [Option.bind_some, parseParticipant_admitted hw]
  · rfl

theorem Admission.mem : slot ∈ g'.participants ↔ slot = a.slotId ∨ slot ∈ g.participants := by
  rw [mem_iff_lookup, h.participants, mem_iff_lookup]
  by_cases hs : slot = a.slotId
  · simp [hs]
  · simp [hs]

theorem Admission.mem_digests : slot ∈ g'.digests ↔ slot = a.slotId ∨ slot ∈ g.digests := by
  rw [mem_iff_lookup, h.digests, mem_iff_lookup]
  by_cases hs : slot = a.slotId
  · simp [hs]
  · simp [hs]

end

end

/-! ## One group, several declarations -/

def CollectiveGroupSpec.laneIds (spec : CollectiveGroupSpec) : List UInt32 := spec.lanes.map (·.laneId)

theorem lanesFromSpec_laneIds (spec : CollectiveGroupSpec) :
    (lanesFromSpec spec).map (·.laneId) = spec.laneIds := by
  rw [lanesFromSpec, List.map_map]
  rfl

/-- The same lanes and slots, up to the roles. -/
structure SameShape (a b : CollectiveGroupSpec) : Prop where
  modelName : a.modelName = b.modelName
  ranks : SameRanks a b

variable {b : CollectiveGroupSpec} {a : CollectiveGroupSpec}

section
variable (h : SameShape a b)
include h

theorem SameShape.symm : SameShape b a :=
  ⟨h.modelName.symm, fun i k slots => (h.ranks i k slots).symm⟩

theorem SameShape.mem_laneIds {i : UInt32} (hi : i ∈ a.laneIds) : i ∈ b.laneIds := by
  obtain ⟨lane, hm, rfl⟩ := List.mem_map.1 hi
  obtain ⟨lane', hm', hid, -, -⟩ := (h.ranks _ _ _).1 ⟨lane, hm, rfl, rfl, rfl⟩
  exact List.mem_map.2 ⟨lane', hm', hid⟩

theorem SameShape.mem_slots (ha : DeclOk a) (hb : DeclOk b) {s : String} (hs : s ∈ a.slots) : s ∈ b.slots := by
  obtain ⟨lane, hm, hsl⟩ := ha.covered s hs
  obtain ⟨_, hm', -, -, he⟩ := (h.ranks _ _ _).1 ⟨lane, hm, rfl, rfl, rfl⟩
  exact hb.slots_sub hm' s (he ▸ hsl)

theorem SameShape.length_slots (ha : DeclOk a)
    (hb : DeclOk b) : a.slots.length = b.slots.length :=
  ((List.perm_ext_iff_of_nodup ha.slots_nodup hb.slots_nodup).2 fun _ =>
    ⟨h.mem_slots ha hb, h.symm.mem_slots hb ha⟩).length_eq

end

theorem Deployment.sameShape (D : Deployment) (ha : a ∈ D.specs)
    (hb : b ∈ D.specs) (hda : DeclOk a) (hdb : DeclOk b)
    (h : groupIdFor D.sha256 a = groupIdFor D.sha256 b) : SameShape a b := by
  rcases (groupIdInput_eq_iff hda hdb).1 (D.collisionFree a ha b hb h) with hs | ⟨n, hs⟩ | ⟨n, hs⟩
  · exact ⟨hs.modelName, fun i k slots => by simp only [hs.lanes]⟩
  · exact ⟨hs.modelName, hs.lanes⟩
  · exact ⟨hs.modelName.symm, fun i k slots => (hs.lanes i k slots).symm⟩

end ModelExpress.Collective
