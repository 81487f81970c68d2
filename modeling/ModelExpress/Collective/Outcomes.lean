/-
  ModelExpress collective refit — what each script can do.
-/
import ModelExpress.Collective.Calls

namespace ModelExpress.Collective

open Text List Function

/-! ## After a sweep -/

variable {dropped owners : String → Prop} {root : Root} {slot record : String} {o : JoinOutcome} {g : Group}
  {c : Cell}

section
variable {workers : Workers} {modelName : String} {g g' : Group} {owners : String → Prop}

theorem Swept.lookup_iff (h : Swept g g' (g.lapsed workers modelName) owners) :
    g'.participants.lookup slot = some record ↔
      g.participants.lookup slot = some record ∧ live workers modelName record = true := by
  by_cases hl : g.lapsed workers modelName slot
  · rw [(h.gone slot hl).1]
    obtain ⟨r, hr, hf⟩ := hl
    constructor
    · rintro ⟨⟩
    · rintro ⟨hr', ht⟩
      cases hr.symm.trans hr'
      exact Bool.noConfusion (hf.symm.trans ht)
  · rw [(h.kept slot hl).1]
    refine ⟨fun hr => ⟨hr, ?_⟩, fun hr => hr.1⟩
    by_contra hf
    exact hl ⟨record, hr, by simpa using hf⟩

theorem live_parse (h : live workers modelName record = true) : ∃ p, parseParticipant record = some p ∧
      registrationMatches workers p.workerId p.role modelName = true := by
  simpa [live, Option.any_eq_true] using h

theorem releaseSource_swept (h : Swept g g' dropped owners) (workerId : String) :
    Swept g (g'.releaseSource workerId) dropped fun w => owners w ∨ w = workerId := by
  refine ⟨h.lanes, h.activeOps, h.kept, h.gone, ?_⟩
  rcases releaseSource_root g' workerId with ⟨hr, hw⟩ | hr
  · rcases h.root with ⟨hr₁, hw₁⟩ | hr₁
    · refine Or.inl ⟨hr.trans hr₁, fun root hroot => ?_⟩
      rintro (ho | ho)
      · exact hw₁ root hroot ho
      · exact hw root (hr₁.trans hroot) ho
    · exact Or.inr (hr.trans hr₁)
  · refine Or.inr ?_
    rcases h.root with ⟨hr₁, -⟩ | hr₁
    · rw [hr, hr₁]
    · rw [hr, hr₁, Option.map_map]; rfl

/-- Nothing was dropped and the plan source is not among the released: nothing changed by lookups. -/
theorem Swept.of_owners {owners' : String → Prop} (h : Swept g g' dropped owners)
    (ho : ∀ w, owners' w → owners w) : Swept g g' dropped owners' := by
  refine ⟨h.lanes, h.activeOps, h.kept, h.gone, ?_⟩
  rcases h.root with ⟨hr, hw⟩ | hr
  · exact Or.inl ⟨hr, fun root hroot hw' => hw root hroot (ho _ hw')⟩
  · exact Or.inr hr

end

/-! ## Join -/

section Join
variable (workers : Workers) (a : JoinArgs)

/-- A live record that stops the join: the slot is bound to another role or ordinal, or another slot
    has the incoming rank or the incoming worker. -/
def Conflicts (g : Group) : Prop :=
  ∃ slot record p, g.participants.lookup slot = some record ∧
    live workers a.modelName record = true ∧ parseParticipant record = some p ∧
    if slot = a.slotId then p.role ≠ a.role.text ∨ p.index ≠ decimal a.indexInRole.toNat
    else p.role = a.role.text ∧ p.index = decimal a.indexInRole.toNat ∨ p.workerId = a.workerId

def Replaces (g : Group) (workerId : String) : Prop :=
  ∃ record p, g.participants.lookup a.slotId = some record ∧ live workers a.modelName record = true ∧
    parseParticipant record = some p ∧ p.workerId = workerId ∧ workerId ≠ a.workerId

def JoinChanges (g : Group) (root : Root) : Prop :=
  (needsEpochBump g a.laneIds root.epoch = true ∧
    ((∃ slot, g.lapsed workers a.modelName slot) ∨ ∃ workerId, Replaces workers a g workerId)) ∨
  root.planDigest ≠ a.planDigest

/-- The group a worker is admitted to, and the group with the worker. -/
structure Admission (epoch : ℕ) (g : Group) (root : Root) (o : JoinOutcome) (g' : Group) (root' : Root) :
    Prop where
  stored : g'.root = some root'
  fields : root' = { root with
    planSource := if a.planSource.workerId ≠ "" then a.planSource else root.planSource
    state := root'.state }
  outcome : o = .ok epoch root'.state
  participants : ∀ slot, g'.participants.lookup slot = if slot = a.slotId then
    some (admitted a.workerId a.role a.indexInRole epoch).record else g.participants.lookup slot
  digests : ∀ slot, g'.digests.lookup slot = if slot = a.slotId then some a.planDigest
    else g.digests.lookup slot
  lanes : g'.lanes = g.lanes
  activeOps : g'.activeOps = g.activeOps
  ready : root'.state = .ready ↔
    Readiness workers g' root' a.laneIds a.expectedTotal.toNat epoch (some a.modelName)

theorem lookup_insert_eq {h : Hash} {k v : String} :
    (h.insert k v).lookup slot = if slot = k then some v else h.lookup slot := by
  by_cases hk : slot = k
  · rw [if_pos hk, hk, AList.lookup_insert]
  · rw [if_neg hk, AList.lookup_insert_ne hk]

theorem setState_readiness (g : Group) (root : Root) (hr : g.root = some root) (laneIds : List UInt32)
    (expected epoch : ℕ) (modelName : Option String) :
    ∃ state, state = readinessState (evaluateReadiness workers g laneIds expected epoch modelName) ∧
      (g.setState state).root = some { root with state := state } ∧
      (state = .ready ↔ Readiness workers (g.setState state) { root with state := state } laneIds
        expected epoch modelName) := by
  refine ⟨_, rfl, by rw [Group.setState, mapRoot_root, hr]; rfl, ?_⟩
  rw [readinessState_eq_ready, evaluateReadiness_iff hr]
  exact ⟨fun ⟨h₁, h₂, h₃, h₄, h₅⟩ => ⟨h₁, h₂, h₃, h₄, h₅⟩,
    fun ⟨h₁, h₂, h₃, h₄, h₅⟩ => ⟨h₁, h₂, h₃, h₄, h₅⟩⟩

theorem admitWorker_spec (epoch : ℕ) (g : Group) (root : Root) (hr : g.root = some root) :
    ∃ root', Admission workers a epoch g root (admitWorker workers a epoch g).1
      (admitWorker workers a epoch g).2 root' := by
  unfold admitWorker
  by_cases hp : a.planSource.workerId = ""
  · simp only [hp, ne_eq, not_true_eq_false, if_false]
    obtain ⟨state, hstate, hroot, hready⟩ := setState_readiness workers
      (putParticipant a epoch g) root hr a.laneIds a.expectedTotal.toNat epoch (some a.modelName)
    rw [← hstate]
    exact ⟨_, hroot, by simp [hp], rfl, fun _ => lookup_insert_eq, fun _ => lookup_insert_eq, rfl, rfl,
      hready⟩
  · simp only [hp, ne_eq, not_false_eq_true, if_true]
    obtain ⟨_, hstate, hroot, hready⟩ := setState_readiness workers
      ((putParticipant a epoch g).mapRoot fun root => { root with planSource := a.planSource })
      { root with planSource := a.planSource }
      (by rw [mapRoot_root, putParticipant, hr]; rfl) a.laneIds a.expectedTotal.toNat epoch
      (some a.modelName)
    rw [← hstate]
    exact ⟨_, hroot, by simp [hp], rfl, fun _ => lookup_insert_eq, fun _ => lookup_insert_eq, rfl, rfl,
      hready⟩

variable {workers a} {g g' : Group} {owners : String → Prop}

section
variable (h : Swept g g' (g.lapsed workers a.modelName) owners)
include h

theorem slotConflict_eq_none :
    slotConflict a g' = none ↔ ∀ record p, g.participants.lookup a.slotId = some record →
      live workers a.modelName record = true → parseParticipant record = some p →
      p.role = a.role.text ∧ p.index = decimal a.indexInRole.toNat := by
  unfold slotConflict
  cases hl : g'.participants.lookup a.slotId with
  | none =>
    refine ⟨fun _ record p hr hlive _ => ?_, fun _ => rfl⟩
    rw [h.lookup_iff.2 ⟨hr, hlive⟩] at hl
    cases hl
  | some record =>
    obtain ⟨hr, hlive⟩ := h.lookup_iff.1 hl
    obtain ⟨p, hp, -⟩ := live_parse hlive
    simp only [hp, ne_eq]
    constructor
    · intro hn _ p' hr' _ hp'
      rw [hr] at hr'; cases hr'
      rw [hp] at hp'; cases hp'
      by_contra hc
      rw [if_pos (not_and_or.1 hc)] at hn
      cases hn
    · intro hall
      rw [if_neg (by rw [← not_and_or, not_not]; exact hall record p hr hlive hp)]

theorem slotConflict_eq_some (ho : slotConflict a g' = some o) : o = .conflictingAssignment := by
  unfold slotConflict at ho
  cases hl : g'.participants.lookup a.slotId with
  | none => simp [hl] at ho
  | some =>
    obtain ⟨p, hp, -⟩ := live_parse (h.lookup_iff.1 hl).2
    simp only [hl, hp] at ho
    split_ifs at ho with hc
    · cases ho; rfl

theorem rankConflict_eq_none :
    rankConflict a g' = none ↔ ∀ slot record p, slot ≠ a.slotId →
      g.participants.lookup slot = some record → live workers a.modelName record = true →
      parseParticipant record = some p →
      ¬ (p.role = a.role.text ∧ p.index = decimal a.indexInRole.toNat) ∧ p.workerId ≠ a.workerId := by
  rw [rankConflict, findSome?_eq_none_iff, Assoc.forall_entries]
  constructor
  · intro hn slot record p hs hr hlive hp
    have hc := hn slot record (h.lookup_iff.2 ⟨hr, hlive⟩)
    simp only [recordConflict, hs, if_false, hp] at hc
    split_ifs at hc with h₁ h₂
    exact ⟨h₁, h₂⟩
  · intro hall slot record hr
    obtain ⟨hr, hlive⟩ := h.lookup_iff.1 hr
    obtain ⟨p, hp, -⟩ := live_parse hlive
    by_cases hs : slot = a.slotId
    · simp [recordConflict, hs]
    · obtain ⟨h₁, h₂⟩ := hall slot record p hs hr hlive hp
      simp only [recordConflict, hs, if_false, hp, h₁, h₂]

theorem rankConflict_eq_some (ho : rankConflict a g' = some o) : o = .duplicateRank ∨ o = .duplicateWorker := by
  obtain ⟨e, he, ho⟩ := exists_of_findSome?_eq_some ho
  obtain ⟨p, hp, -⟩ := live_parse (h.lookup_iff.1 (AList.mem_lookup_iff.2 he)).2
  simp only [recordConflict, hp] at ho
  split_ifs at ho with h₀ h₁ h₂
  · cases ho; exact Or.inl rfl
  · cases ho; exact Or.inr rfl

theorem not_conflicts_iff : ¬ Conflicts workers a g ↔ slotConflict a g' = none ∧ rankConflict a g' = none := by
  rw [slotConflict_eq_none h, rankConflict_eq_none h]
  constructor
  · intro hn
    refine ⟨fun record p hr hl hp => ?_, fun slot record p hs hr hl hp => ?_⟩
    · by_contra hc
      exact hn ⟨a.slotId, record, p, hr, hl, hp, by rw [if_pos rfl]; exact not_and_or.1 hc⟩
    · rw [← not_or]
      exact fun hc => hn ⟨slot, record, p, hr, hl, hp, by rw [if_neg hs]; exact hc⟩
  · rintro ⟨h₁, h₂⟩ ⟨slot, record, p, hr, hl, hp, hc⟩
    by_cases hs : slot = a.slotId
    · subst hs
      rw [if_pos rfl] at hc
      exact not_and_or.2 hc (h₁ record p hr hl hp)
    · rw [if_neg hs] at hc
      exact not_or.2 (h₂ slot record p hs hr hl hp) hc

theorem replacedWorker_eq_some
    {workerId : String} : replacedWorker a g' = some workerId ↔ Replaces workers a g workerId := by
  unfold replacedWorker
  constructor
  · intro hw
    split at hw
    next p hp =>
      obtain ⟨record, hr, hp⟩ := Option.bind_eq_some_iff.1 hp
      obtain ⟨hr, hl⟩ := h.lookup_iff.1 hr
      split_ifs at hw with hne
      cases hw
      exact ⟨record, p, hr, hl, hp, rfl, hne⟩
    next => cases hw
  · rintro ⟨_, p, hr, hl, hp, rfl, hne⟩
    rw [h.lookup_iff.2 ⟨hr, hl⟩, Option.bind_some, hp]
    simp only
    rw [if_pos hne]

end

@[simp] theorem releaseReplaced_participants (a : JoinArgs) (g : Group) :
    (releaseReplaced a g).participants = g.participants := by
  unfold releaseReplaced
  split <;> rfl

theorem releaseReplaced_swept
    (h : Swept g g' (g.lapsed workers a.modelName) (g.lapsedWorker workers a.modelName)) :
    Swept g (releaseReplaced a g') (g.lapsed workers a.modelName) fun w =>
      g.lapsedWorker workers a.modelName w ∨ Replaces workers a g w := by
  unfold releaseReplaced
  cases hw : replacedWorker a g' with
  | none =>
    refine h.of_owners fun w hw' => hw'.resolve_right fun hrep => ?_
    rw [(replacedWorker_eq_some h).2 hrep] at hw
    cases hw
  | some w =>
    refine (releaseSource_swept h w).of_owners fun w' hw' => hw'.imp_right fun hrep => ?_
    rw [(replacedWorker_eq_some h).2 hrep] at hw
    exact Option.some.inj hw

variable (workers a)

def bumpedRoot (root : Root) : Root :=
  { root with epoch := root.epoch + 1, planDigest := a.planDigest, state := .forming
              planSource := .default }

def Fenced (c : Cell) (ops : Operations) : Prop :=
  ∀ i, ops i = if i ∈ c.group.activeOps then (c.ops i).map Operation.abort else c.ops i

def cleared (laneIds : List UInt32) (lanes : UInt32 → Option LaneHash) : UInt32 → Option LaneHash :=
  fun i => if i ∈ laneIds then none else lanes i

inductive JoinStep (c : Cell) : JoinOutcome × Cell → Prop
  | refused {o : JoinOutcome} (hpre : joinPrecheck workers a = some o) : JoinStep c (o, c)
  | created {o : JoinOutcome} {g' : Group} {root' : Root} {ops : Operations}
      (hpre : joinPrecheck workers a = none) (hr : c.group.root = none) (hops : Fenced c ops)
      (ha : Admission workers a 1 ⟨some (createdRoot a), ∅, ∅, cleared a.laneIds c.group.lanes, []⟩
        (createdRoot a) o g' root') : JoinStep c (o, ⟨g', ops⟩)
  | rejected {o : JoinOutcome} {root : Root} {g : Group} (hpre : joinPrecheck workers a = none)
      (hr : c.group.root = some root) (hc : Conflicts workers a c.group)
      (ho : o = .conflictingAssignment ∨ o = .duplicateRank ∨ o = .duplicateWorker)
      (hs : Swept c.group g (c.group.lapsed workers a.modelName)
        (c.group.lapsedWorker workers a.modelName)) : JoinStep c (o, ⟨g, c.ops⟩)
  | joined {o : JoinOutcome} {root root₁ root' : Root} {g g' : Group}
      (hpre : joinPrecheck workers a = none) (hr : c.group.root = some root)
      (hc : ¬ Conflicts workers a c.group) (hn : ¬ JoinChanges workers a c.group root)
      (hs : Swept c.group g (c.group.lapsed workers a.modelName) fun w =>
        c.group.lapsedWorker workers a.modelName w ∨ Replaces workers a c.group w)
      (hr₁ : g.root = some root₁) (ha : Admission workers a root.epoch g root₁ o g' root') :
      JoinStep c (o, ⟨g', c.ops⟩)
  | bumped {o : JoinOutcome} {root root' : Root} {g g' : Group} {ops : Operations}
      (hpre : joinPrecheck workers a = none) (hr : c.group.root = some root)
      (hc : ¬ Conflicts workers a c.group) (hch : JoinChanges workers a c.group root)
      (hs : Swept c.group g (c.group.lapsed workers a.modelName) fun w =>
        c.group.lapsedWorker workers a.modelName w ∨ Replaces workers a c.group w)
      (hops : Fenced c ops)
      (ha : Admission workers a (root.epoch + 1)
        ⟨some (bumpedRoot a root), g.participants, g.digests, cleared a.laneIds g.lanes, []⟩
        (bumpedRoot a root) o g' root') : JoinStep c (o, ⟨g', ops⟩)

theorem Swept.root_some {g' : Group} (h : Swept g g' dropped owners) (hr : g.root = some root) :
    (g'.root = some root ∧ ¬ owners root.planSource.workerId) ∨ g'.root = some root.clearSource := by
  rcases h.root with ⟨hg, hw⟩ | hg
  · exact Or.inl ⟨hg.trans hr, hw root hr⟩
  · exact Or.inr (by rw [hg, hr]; rfl)

theorem Swept.exists_root {g' : Group} (h : Swept g g' dropped owners) (hr : g.root = some root) :
    ∃ root', g'.root = some root' := by
  rcases h.root_some hr with ⟨h, -⟩ | h <;> exact ⟨_, h⟩

theorem abortStaleOps_eq (hg : g.activeOps = c.group.activeOps) :
    ∃ ops, Fenced c ops ∧ abortStaleOps ⟨g, c.ops⟩ = ⟨{ g with activeOps := [] }, ops⟩ := by
  have hgroup := abortStaleOps_group ⟨g, c.ops⟩
  refine ⟨(abortStaleOps ⟨g, c.ops⟩).ops, fun i => ?_, by rw [← hgroup]⟩
  rw [← hg]
  exact (foldl_abortOp _ ⟨g, c.ops⟩).2 i

theorem createGroup_eq (c : Cell) : ∃ ops, Fenced c ops ∧ createGroup a c =
    ⟨⟨some (createdRoot a), ∅, ∅, cleared a.laneIds c.group.lanes, []⟩, ops⟩ := by
  obtain ⟨ops, hops, heq⟩ := @abortStaleOps_eq c ⟨c.group.root, ∅, ∅, cleared a.laneIds c.group.lanes, _⟩ rfl
  exact ⟨ops, hops, congrArg (fun c : Cell => { c with group.root := some (createdRoot a) }) heq⟩

theorem bumpJoin_eq (hr : c.group.root = some root) (hs : Swept c.group g dropped owners) :
    ∃ ops, Fenced c ops ∧ bumpJoin a ⟨g, c.ops⟩ =
      ⟨⟨some (bumpedRoot a root), g.participants, g.digests, cleared a.laneIds g.lanes, []⟩, ops⟩ := by
  simp only [bumpJoin, Group.advance, Group.clearLanes, Group.mapRoot]
  rcases hs.root_some hr with ⟨h, -⟩ | h
  all_goals
    rw [h]
    exact @abortStaleOps_eq c ⟨some (bumpedRoot a root), g.participants, g.digests, _, g.activeOps⟩ hs.activeOps

theorem joinScript_step (c : Cell) : JoinStep workers a c (joinScript workers a c) := by
  unfold joinScript
  cases hpre : joinPrecheck workers a with
  | some o => exact .refused hpre
  | none =>
    simp only
    cases hr : c.group.root with
    | none =>
      obtain ⟨ops, hops, hcell⟩ := createGroup_eq a c
      obtain ⟨root', ha⟩ := admitWorker_spec workers a 1 (createGroup a c).group
        (createdRoot a) (by rw [hcell])
      simp only [hcell] at ha ⊢
      exact .created hpre hr hops ha
    | some root =>
      have hs := sweepExpired_swept workers a.modelName c.group
      have hd := sweepExpired_dropped workers a.modelName (g := c.group)
      simp only
      generalize sweepExpired workers a.modelName c.group = swept at hs hd ⊢
      cases hsc : slotConflict a swept.1 with
      | some o =>
        have hc : Conflicts workers a c.group := by
          by_contra hn
          rw [((not_conflicts_iff hs).1 hn).1] at hsc
          cases hsc
        exact .rejected hpre hr hc (Or.inl (slotConflict_eq_some hs hsc)) hs
      | none =>
        simp only
        have hsg := releaseReplaced_swept hs
        have hp : (releaseReplaced a swept.1).participants = swept.1.participants :=
          releaseReplaced_participants a swept.1
        generalize releaseReplaced a swept.1 = g at hsg hp ⊢
        cases hrc : rankConflict a g with
        | some o =>
          have hc : Conflicts workers a c.group := by
            by_contra hn
            rw [((not_conflicts_iff hsg).1 hn).2] at hrc
            cases hrc
          exact .rejected hpre hr hc (Or.inr (rankConflict_eq_some hsg hrc))
            (hsg.of_owners fun w hw => Or.inl hw)
        | none =>
          have hc : ¬ Conflicts workers a c.group := by
            refine (not_conflicts_iff hsg).2 ⟨?_, hrc⟩
            rw [← hsc, slotConflict, slotConflict, hp]
          have hrep : (replacedWorker a swept.1).isSome = true ↔
              ∃ w, Replaces workers a c.group w := by
            rw [Option.isSome_iff_exists]
            exact exists_congr fun w => replacedWorker_eq_some hs
          have hch : (needsEpochBump c.group a.laneIds root.epoch &&
              (swept.2 || (replacedWorker a swept.1).isSome) ||
              decide (root.planDigest ≠ a.planDigest)) = true ↔ JoinChanges workers a c.group root := by
            simp only [Bool.or_eq_true, Bool.and_eq_true, decide_eq_true_eq, hd, hrep, JoinChanges]
          by_cases hchanged : JoinChanges workers a c.group root
          · rw [hch.2 hchanged]
            obtain ⟨ops, hops, hcell⟩ := bumpJoin_eq a hr hsg
            obtain ⟨root', ha⟩ := admitWorker_spec workers a (root.epoch + 1)
              (bumpJoin a ⟨g, c.ops⟩).group (bumpedRoot a root) (by rw [hcell])
            simp only [if_true, hcell] at ha ⊢
            exact .bumped hpre hr hc hchanged hsg hops ha
          · rw [Bool.eq_false_iff.2 fun h => hchanged (hch.1 h)]
            obtain ⟨root₁, hr₁⟩ := hsg.exists_root hr
            obtain ⟨_, ha⟩ := admitWorker_spec workers a root.epoch g root₁ hr₁
            exact .joined hpre hr hc hchanged hsg hr₁ ha

end Join

/-! ## Refresh and publish -/

section Group
variable (workers : Workers) (laneIds : List UInt32)

/-- A group with its state recomputed, and nothing else changed. -/
structure Settled (expected epoch : ℕ) (modelName : Option String) (g : Group) (root : Root) (g' : Group)
    (root' : Root) : Prop where
  stored : g'.root = some root'
  fields : root' = { root with state := root'.state }
  participants : g'.participants = g.participants
  digests : g'.digests = g.digests
  lanes : g'.lanes = g.lanes
  activeOps : g'.activeOps = g.activeOps
  ready : root'.state = .ready ↔ Readiness workers g' root' laneIds expected epoch modelName

theorem setState_settled (g : Group) (root : Root) (hr : g.root = some root) (expected epoch : ℕ)
    (modelName : Option String) :
    ∃ root', readinessState (evaluateReadiness workers g laneIds expected epoch modelName) = root'.state ∧
      Settled workers laneIds expected epoch modelName g root (g.setState root'.state) root' := by
  obtain ⟨state, hstate, hroot, hready⟩ :=
    setState_readiness workers g root hr laneIds expected epoch modelName
  exact ⟨{ root with state := state }, hstate.symm, hroot, rfl, rfl, rfl, rfl, rfl, hready⟩

def advancedRoot (root : Root) : Root :=
  { root with epoch := root.epoch + 1, state := .forming, planSource := .default }

inductive RefreshStep (c : Cell) : RefreshOutcome × Cell → Prop
  | notFound (hr : c.group.root = none) : RefreshStep c (.notFound, c)
  | kept {root root₁ root' : Root} {g g' : Group} (hr : c.group.root = some root)
      (hn : ¬ (needsEpochBump c.group laneIds root.epoch = true ∧
        ∃ slot, c.group.lapsed workers root.modelName slot))
      (hs : Swept c.group g (c.group.lapsed workers root.modelName)
        (c.group.lapsedWorker workers root.modelName))
      (hr₁ : g.root = some root₁)
      (hset : Settled workers laneIds root.expectedTotal.toNat root.epoch none g root₁ g' root') :
      RefreshStep c (.ok root.epoch root'.state, ⟨g', c.ops⟩)
  | bumped {root root' : Root} {g g' : Group} {ops : Operations} (hr : c.group.root = some root)
      (hb : needsEpochBump c.group laneIds root.epoch = true)
      (hl : ∃ slot, c.group.lapsed workers root.modelName slot)
      (hs : Swept c.group g (c.group.lapsed workers root.modelName)
        (c.group.lapsedWorker workers root.modelName))
      (hops : Fenced c ops)
      (hset : Settled workers laneIds root.expectedTotal.toNat (root.epoch + 1) none
        ⟨some (advancedRoot root), g.participants, g.digests, cleared laneIds g.lanes, []⟩
        (advancedRoot root) g' root') :
      RefreshStep c (.ok (root.epoch + 1) root'.state, ⟨g', ops⟩)

theorem advance_root (hr : g.root = some root) (ids : List UInt32) : (g.advance ids).root = some (advancedRoot root) := by
  simp only [Group.advance, Group.clearLanes, Group.mapRoot, hr]
  rfl

theorem advance_eq (hr : c.group.root = some root) (hs : Swept c.group g dropped owners) :
    ∃ ops, Fenced c ops ∧ abortStaleOps ⟨g.advance laneIds, c.ops⟩ =
      ⟨⟨some (advancedRoot root), g.participants, g.digests, cleared laneIds g.lanes, []⟩, ops⟩ := by
  have hroot : (g.advance laneIds).root = some (advancedRoot root) := by
    rcases hs.root_some hr with ⟨h, -⟩ | h
    · exact advance_root h _
    · exact (advance_root h _ :)
  rw [← hroot]
  exact @abortStaleOps_eq c (g.advance laneIds) (by rw [advance_activeOps, hs.activeOps])

theorem refreshScript_step (c : Cell) : RefreshStep workers laneIds c (refreshScript workers laneIds c) := by
  unfold refreshScript
  cases hr : c.group.root with
  | none => exact .notFound hr
  | some root =>
    have hs := sweepExpired_swept workers root.modelName c.group
    have hd := sweepExpired_dropped workers root.modelName (g := c.group)
    simp only
    generalize sweepExpired workers root.modelName c.group = swept at hs hd ⊢
    by_cases hch : needsEpochBump c.group laneIds root.epoch = true ∧
        ∃ slot, c.group.lapsed workers root.modelName slot
    · have hb : (needsEpochBump c.group laneIds root.epoch && swept.2) = true := by
        rw [Bool.and_eq_true, hd]; exact hch
      obtain ⟨ops, hops, hcell⟩ := advance_eq laneIds hr hs
      obtain ⟨root', hst, hset⟩ := setState_settled workers laneIds
        ⟨some (advancedRoot root), swept.1.participants, swept.1.digests,
          cleared laneIds swept.1.lanes, []⟩ (advancedRoot root) rfl
        root.expectedTotal.toNat (root.epoch + 1) none
      simp only [hb, if_true, hcell, hst]
      exact .bumped hr hch.1 hch.2 hs hops hset
    · have hb : (needsEpochBump c.group laneIds root.epoch && swept.2) = false := by
        rw [Bool.eq_false_iff, ne_eq, Bool.and_eq_true, hd]; exact hch
      obtain ⟨root₁, hr₁⟩ := hs.exists_root hr
      obtain ⟨_, hst, hset⟩ := setState_settled workers laneIds swept.1 root₁ hr₁
        root.expectedTotal.toNat root.epoch none
      simp only [hb, Bool.false_eq_true, if_false, hst]
      exact .kept hr hch hs hr₁ hset

inductive PublishStep (a : PublishArgs) (g : Group) : PublishOutcome × Group → Prop
  | notFound (hr : g.root = none) : PublishStep a g (.notFound, g)
  | stale {root : Root} (hr : g.root = some root) (he : a.epoch ≠ root.epoch) :
      PublishStep a g (.stale root.epoch, g)
  | notLeader {root : Root} (hr : g.root = some root) (he : a.epoch = root.epoch)
      (hl : isLeader workers root a g = false) : PublishStep a g (.notLeader, g)
  | conflict {root : Root} {lane : LaneHash} (hr : g.root = some root) (he : a.epoch = root.epoch)
      (hl : g.lanes a.laneId = some lane) (hb : lane.bootstrapEpoch = root.epoch)
      (hc : lane.publishedBy ≠ a.workerId ∨ lane.ncclUniqueId ≠ a.ncclUniqueId) :
      PublishStep a g (.conflict, g)
  | published {root root' : Root} {g' : Group} (hr : g.root = some root) (he : a.epoch = root.epoch)
      (hl : isLeader workers root a g = true)
      (hset : Settled workers laneIds root.expectedTotal.toNat root.epoch (some root.modelName)
        (stampLane a g) root g' root') : PublishStep a g (.ok root.epoch root'.state, g')

theorem stampLane_root (a : PublishArgs) (g : Group) : (stampLane a g).root = g.root := by
  unfold stampLane; split <;> rfl

theorem publishScript_step (a : PublishArgs) (g : Group) :
    PublishStep workers laneIds a g (publishScript workers laneIds a g) := by
  fun_cases publishScript workers laneIds a g
  case case1 hr => exact .notFound hr
  case case2 root hr he => exact .stale hr he
  case case3 root hr he hl => exact .notLeader hr (not_not.1 he) (by simpa using hl)
  case case4 root hr he _ hc =>
    obtain ⟨lane, hlane, hb⟩ := (Option.any_eq_true ..).1 hc
    rw [decide_eq_true_eq] at hb
    exact .conflict hr (not_not.1 he) hlane hb.1 hb.2
  case case5 root hr he hl _ g' state =>
    obtain ⟨_, hst, hset⟩ := setState_settled workers laneIds (stampLane a g) root
      (by rw [stampLane_root, hr]) root.expectedTotal.toNat root.epoch (some root.modelName)
    rw [show state = _ from hst]
    exact .published hr (not_not.1 he) (not_not.1 hl) hset

end Group

/-! ## Transfers -/

/-- The ways through the create script; an orphaned reservation may be deleted on the way. -/
inductive CreateStep (a : CreateArgs) (s : Store) : CreateOutcome × Store → Prop
  | existing {id : String} {op : Operation} (hreq : s.requests a.requestKey = some id)
      (hop : s.ops id = some op) : CreateStep a s (.existing id, s)
  | refused {o : CreateOutcome} {requests : String → Option String}
      (hreq : requests = s.requests ∨ ((∃ id, s.requests a.requestKey = some id ∧ s.ops id = none) ∧
        requests = update s.requests a.requestKey none))
      (ho : o ≠ .created ∧ ∀ id, o ≠ .existing id) :
      CreateStep a s (o, { s with requests := requests })
  | created {root : Root} (hreq : ∀ id, s.requests a.requestKey = some id → s.ops id = none)
      (hop : s.ops a.operationId = none) (hr : (s.groups a.groupId).root = some root)
      (hready : root.state = .ready) (he : root.epoch = a.expectedEpoch)
      (hbusy : ∀ id ∈ (s.groups a.groupId).activeOps, inFlight s.ops root.epoch id = false) :
      CreateStep a s (.created, openTransfer a root.epoch s)

theorem createFresh_step (a : CreateArgs) (s : Store) :
    (∃ o, createFresh a s = (o, s) ∧ o ≠ .created ∧ ∀ id, o ≠ .existing id) ∨
    ∃ root, createFresh a s = (.created, openTransfer a root.epoch s) ∧ s.ops a.operationId = none ∧
      (s.groups a.groupId).root = some root ∧ root.state = .ready ∧ root.epoch = a.expectedEpoch ∧
      ∀ id ∈ (s.groups a.groupId).activeOps, inFlight s.ops root.epoch id = false := by
  fun_cases createFresh a s
  case case5 hop root hr hready hb =>
    rw [not_or, not_not, not_not] at hready
    refine Or.inr ⟨root, rfl, by simpa using hop, hr, hready.1, hready.2, fun id hid => ?_⟩
    simpa using find?_eq_none.1 hb id hid
  all_goals exact Or.inl ⟨_, rfl, by simp, by simp⟩

theorem createScript_step (a : CreateArgs) (s : Store) : CreateStep a s (createScript a s) := by
  fun_cases createScript a s
  case case1 hreq =>
    rcases createFresh_step a s with ⟨o, ho, h⟩ | ⟨root, ho, hop, hr, hready, he, hb⟩
    · rw [ho]
      exact (.refused (Or.inl rfl) h : CreateStep a s (o, { s with requests := s.requests }))
    · rw [ho]
      exact .created (by simp [hreq]) hop hr hready he hb
  case case2 id hreq hid => exact .existing hreq (Option.get_mem hid)
  case case3 id hreq hid =>
    replace hid : s.ops id = none := by simpa using hid
    rcases createFresh_step a { s with requests := update s.requests a.requestKey none }
      with ⟨o, ho, h⟩ | ⟨root, ho, hop, hr, hready, he, hb⟩
    · rw [ho]
      exact .refused (Or.inr ⟨⟨id, hreq, hid⟩, rfl⟩) h
    · have hopen : openTransfer a root.epoch { s with requests := update s.requests a.requestKey none } =
          openTransfer a root.epoch s := by
        simp only [openTransfer, Function.update_idem]
      rw [ho, hopen]
      refine .created (fun id' hid' => ?_) hop hr hready he hb
      cases hreq.symm.trans hid'
      exact hid

/-- The report passes every check: the worker is admitted at the operation's epoch. -/
structure Reporting (a : ReportArgs) (s : Store) (op : Operation) (root : Root) : Prop where
  stored : s.ops a.operationId = some op
  group : op.groupId = a.groupId
  epoch : op.epoch = a.epoch
  nonterminal : op.state.terminal = false
  rooted : (s.groups a.groupId).root = some root
  current : root.epoch = a.epoch
  ready : root.state = .ready
  live : ∀ slot record, (s.groups a.groupId).participants.lookup slot = some record →
    reportable s.workers a.epoch record = true
  admitted : ∃ slot record, (s.groups a.groupId).participants.lookup slot = some record ∧
    heldBy a.workerId record = true

def marked (a : ReportArgs) (s : Store) : Store :=
  { s with reported := update s.reported a.operationId (insert a.workerId (s.reported a.operationId)) }

section
variable (laneIds : List UInt32) (a : ReportArgs) (s : Store)

inductive ReportStep : ReportOutcome × Store → Prop
  | idle {o : ReportOutcome} : ReportStep (o, s)
  | failed {op : Operation} {root : Root} (hrep : Reporting a s op root) (hf : a.succeeded = false) :
      ReportStep (.ok .failed, failGroup a.groupId laneIds
        (settle a { op with state := .failed, failureMessage := a.message } (marked a s)))
  | complete {op : Operation} {root : Root} (hrep : Reporting a s op root) (ht : a.succeeded = true)
      (hcard : (insert a.workerId (s.reported a.operationId)).card = root.expectedTotal.toNat) :
      ReportStep (.ok .complete, settle a { op with state := .complete } (marked a s))
  | running {op : Operation} {root : Root} (hrep : Reporting a s op root) (ht : a.succeeded = true)
      (hcard : (insert a.workerId (s.reported a.operationId)).card ≠ root.expectedTotal.toNat) :
      ReportStep (.ok .running, settle a { op with state := .running } (marked a s))

theorem reportScript_step : ReportStep laneIds a s (reportScript laneIds a s) := by
  fun_cases reportScript laneIds a s
  case case10 op hop hg he ht root hr _ h₁ h₂ h₃ h₄ =>
    rw [not_not, all_eq_true, Assoc.forall_entries] at h₃
    rw [not_not, any_eq_true, Assoc.exists_entries] at h₄
    have hrep : Reporting a s op root := ⟨hop, not_not.1 hg, not_not.1 he, Bool.eq_false_iff.2 ht, hr,
      not_not.1 h₁, not_not.1 h₂, h₃, h₄⟩
    unfold recordReport
    simp only
    split_ifs with hs hcard
    · exact .complete hrep (by simpa using hs) hcard
    · exact .running hrep (by simpa using hs) hcard
    · exact .failed hrep (by simpa using hs)
  all_goals exact .idle

end

section
variable (operationId requestKey groupId : String) (s : Store)

inductive DeleteStep : DeleteOutcome × Store → Prop
  | idle {o : DeleteOutcome} (ho : o ≠ .deleted) : DeleteStep (o, s)
  | deleted {op : Operation} (hop : s.ops operationId = some op) (ht : op.state.terminal = true) :
      DeleteStep (.deleted, { s with
        ops := update s.ops operationId none
        reported := update s.reported operationId ∅
        requests := if s.requests requestKey = some operationId then
          update s.requests requestKey none else s.requests
        groups := update s.groups groupId { s.groups groupId with
          activeOps := (s.groups groupId).activeOps.filter (· ≠ operationId) } })

theorem deleteScript_step :
    DeleteStep operationId requestKey groupId s (deleteScript operationId requestKey groupId s) := by
  fun_cases deleteScript operationId requestKey groupId s
  case case3 op hop ht g => exact .deleted hop (not_not.1 ht)
  all_goals exact .idle (by simp)

end

end ModelExpress.Collective
