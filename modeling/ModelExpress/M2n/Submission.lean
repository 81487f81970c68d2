/-
  ModelExpress NCCL M2N refit — the operations of a round do not deadlock.
-/
import ModelExpress.Lib.Lockstep
import ModelExpress.M2n.Half

namespace ModelExpress.M2n

open Checks Lockstep List

/-! ## Lanes -/

/-- A communicator: one for the reshards of each partition, and one for the broadcasts. -/
inductive Lane where
  | reshard (partition : ℕ)
  | broadcast
  deriving DecidableEq

def Op.lane : Op → Lane
  | .reshard _ entry => .reshard entry.partitionId
  | .broadcast _ => .broadcast

/-- A trainer is on the reshard lane of its partition, a generator on all of them; everybody is on the broadcast
    lane. -/
def On (active : Option ℕ) : Lane → Prop
  | .reshard partition => Takes active partition
  | .broadcast => True

instance (active : Option ℕ) : ∀ lane, Decidable (On active lane)
  | .reshard partition => inferInstanceAs (Decidable (Takes active partition))
  | .broadcast => inferInstanceAs (Decidable True)

/-! ## The rounds of the ranks -/

def rankRound (plan : ReshardPlan) (specs : List String) (active : Option ℕ)
    (groupings : Option (List (List String))) (order : List ℕ) : Except HalfError (List Op) := do
  let half ← Half.new plan specs active
  let half ← half.setupLayerGroups groupings
  half.round order

def groupBulk (bulk : List ParamPlan) (groupings : Option (List (List String))) (group : ℕ) : List ParamPlan :=
  groupings.elim bulk fun groupings => bulk.filter fun entry => entry.name ∈ groupings.getD group []

def globalOrder (plan : ReshardPlan) (groupings : Option (List (List String))) (order : List ℕ) : List Op :=
  (order.flatMap fun group => (submissionOrder (groupBulk plan.bulk groupings group)).map (.reshard group)) ++
    plan.misc.map .broadcast

variable {bulk entries : List ParamPlan} {group : ℕ}

section
variable {plan : ReshardPlan} {specs : List String} {active : Option ℕ} {groupings : Option (List (List String))}
  {order : List ℕ} {half half' : Half}

theorem Half.new_ok (h : Half.new plan specs active = .ok half) :
    half.plan = plan ∧ half.allBulk = canonicalOrder plan.bulk ∧
      half.bulk = (canonicalOrder plan.bulk).filter fun entry => Takes active entry.partitionId := by
  simp only [Half.new, bind_eq_ok, ensure_eq_ok, exists_const, pure_eq_ok] at h
  obtain ⟨-, -, -, -, -, rfl⟩ := h
  exact ⟨rfl, rfl, rfl⟩

theorem Half.setupLayerGroups_plan (h : half.setupLayerGroups groupings = .ok half') : half'.plan = half.plan := by
  cases groupings with
  | none =>
    simp only [Half.setupLayerGroups, pure_eq_ok] at h
    rw [← h]
  | some =>
    simp only [Half.setupLayerGroups, bind_eq_ok, pure_eq_ok] at h
    obtain ⟨-, -, rfl⟩ := h
    rfl

theorem groupBulk_names (hn : (bulk.map (·.name)).Nodup) (group : ℕ) :
    ((groupBulk bulk groupings group).map (·.name)).Nodup := by
  cases groupings with
  | none => exact hn
  | some => exact hn.sublist (filter_sublist.map _)

theorem Half.setupLayerGroups_entries (hn : (plan.bulk.map (·.name)).Nodup) (h : Half.new plan specs active = .ok half)
    (hs : half.setupLayerGroups groupings = .ok half') (he : half'.entries group = .ok entries) :
    entries.Perm ((groupBulk plan.bulk groupings group).filter fun entry => Takes active entry.partitionId) := by
  obtain ⟨_, hall, hbulk⟩ := Half.new_ok h
  have hperm := canonicalOrder_perm plan.bulk
  rw [Half.entries, found_eq_ok] at he
  cases groupings with
  | none =>
    simp only [Half.setupLayerGroups, pure_eq_ok] at hs
    subst hs
    simp only [lookup_cons, lookup_nil] at he
    split at he
    · cases he
      rw [hbulk]
      exact hperm.filter _
    · cases he
  | some groupings =>
    simp only [Half.setupLayerGroups, bind_eq_ok, mapError_eq_ok, pure_eq_ok] at hs
    obtain ⟨-, -, rfl⟩ := hs
    obtain ⟨names, hgroup, rfl⟩ : ∃ names, groupings[group]? = some names ∧ entries = half.allBulk.filter fun entry =>
        entry.name ∈ names ∧ entry.name ∈ half.bulk.map (·.name) := by
      obtain ⟨before, after, hsplit, -⟩ := lookup_eq_some_iff.1 he
      have hmem : (group, entries) ∈ before ++ (group, entries) :: after := by simp
      rw [← hsplit, mem_map] at hmem
      obtain ⟨⟨names, _⟩, hin, heq⟩ := hmem
      cases heq
      exact ⟨names, mem_zipIdx_iff_getElem?.1 hin, rfl⟩
    -- with distinct names, an entry has an active name iff the rank takes part in it
    have hactive : ∀ entry ∈ plan.bulk, entry.name ∈ half.bulk.map (·.name) ↔ Takes active entry.partitionId := by
      intro entry hentry
      rw [hbulk, mem_map]
      constructor
      · rintro ⟨_, hother, hname⟩
        obtain ⟨hin, htakes⟩ := mem_filter.1 hother
        rw [← inj_on_of_nodup_map hn (hperm.subset hin) hentry hname]
        simpa using htakes
      · intro htakes
        exact ⟨entry, mem_filter.2 ⟨hperm.symm.subset hentry, by simpa using htakes⟩, rfl⟩
    have hnames : groupings.getD group [] = names := by rw [getD_eq_getElem?_getD, hgroup, Option.getD_some]
    rw [hall, groupBulk, Option.elim_some, filter_filter, hnames]
    refine (hperm.filter _).trans (List.Perm.of_eq (filter_congr fun entry hentry => ?_))
    rw [Bool.eq_iff_iff]
    simp only [decide_eq_true_eq, Bool.and_eq_true, hactive entry hentry, and_comm]

theorem submissionOrder_entries (hn : (plan.bulk.map (·.name)).Nodup) (hb : bulk.Perm plan.bulk)
    (he : entries.Perm ((groupBulk bulk groupings group).filter fun entry => Takes active entry.partitionId)) :
    submissionOrder entries = (submissionOrder (groupBulk plan.bulk groupings group)).filter
      fun entry => Takes active entry.partitionId := by
  have hgroup : (groupBulk bulk groupings group).Perm (groupBulk plan.bulk groupings group) := by
    cases groupings with
    | none => exact hb
    | some => exact hb.filter _
  have hp := he.trans (hgroup.filter _)
  rw [← submissionOrder_filter (groupBulk_names hn group)]
  refine submissionOrder_eq ?_ ((submissionOrder_perm _).trans hp.symm) (submissionOrder_sorted _)
  refine (hp.map _).nodup_iff.2 ?_
  exact (groupBulk_names hn group).sublist (filter_sublist.map _)

theorem Half.runGroups_ok {f : ℕ → List ParamPlan}
    (hf : ∀ group entries, half.entries group = .ok entries → submissionOrder entries = f group) :
    ∀ {order ran ran' : List ℕ} {ops : List Op}, half.runGroups ran order = .ok (ops, ran') →
      (order.Nodup ∧ ∀ group ∈ order, group ∉ ran) ∧ ops = order.flatMap fun group => (f group).map (.reshard group)
  | [], ran, ran', ops, h => by
    simp only [Half.runGroups, pure_eq_ok, Prod.mk.injEq] at h
    simp [← h.1]
  | group :: rest, ran, ran', ops, h => by
    simp only [Half.runGroups, Half.claimGroup, bind_eq_ok, ensure_eq_ok, pure_eq_ok,
      Prod.mk.injEq, Prod.exists] at h
    obtain ⟨_, ⟨entries', hentries, -, hran, rfl⟩, ops', _, hrest, rfl, rfl⟩ := h
    obtain ⟨⟨hnodup, hfresh⟩, rfl⟩ := Half.runGroups_ok hf hrest
    refine ⟨⟨nodup_cons.2 ⟨fun hmem => ?_, hnodup⟩, ?_⟩, ?_⟩
    · exact hfresh group hmem (mem_append_right _ (mem_singleton_self _))
    · intro g hg hin
      rcases mem_cons.1 hg with rfl | hg
      · exact hran hin
      · exact hfresh g hg (mem_append_left _ hin)
    · rw [flatMap_cons, hf group entries' hentries]

theorem rankRound_eq (hn : (plan.bulk.map (·.name)).Nodup) (hb : bulk.Perm plan.bulk)
    {ops : List Op} (h : rankRound { plan with bulk } specs active groupings order = .ok ops) :
    order.Nodup ∧ ops = (globalOrder plan groupings order).filter fun op => On active op.lane := by
  simp only [rankRound, Half.round, bind_eq_ok, pure_eq_ok, Prod.exists] at h
  obtain ⟨half, hnew, half', hsetup, ops', ran, hrun, -, -, rfl⟩ := h
  have hn' : (bulk.map (·.name)).Nodup := (hb.map _).nodup_iff.2 hn
  obtain ⟨⟨hnodup, -⟩, rfl⟩ := Half.runGroups_ok (fun group _ hentries =>
    submissionOrder_entries hn hb (Half.setupLayerGroups_entries hn' hnew hsetup hentries)) hrun
  have hplan : half'.plan = { plan with bulk } := (Half.setupLayerGroups_plan hsetup).trans (Half.new_ok hnew).1
  refine ⟨hnodup, ?_⟩
  rw [globalOrder, filter_append, filter_flatMap, hplan]
  congr 1
  · refine flatMap_congr fun _ _ => ?_
    rw [filter_map]
    rfl
  · refine (filter_eq_self.2 fun op hop => ?_).symm
    obtain ⟨_, -, rfl⟩ := mem_map.1 hop
    rfl

theorem globalOrder_nodup (hn : plan.parameterNames.Nodup) (ho : order.Nodup) :
    (globalOrder plan groupings order).Nodup := by
  obtain ⟨hbulk, hmisc, -⟩ := nodup_append.1 hn
  refine nodup_append.2 ⟨nodup_flatMap.2 ⟨fun group _ => ?_, ?_⟩, ?_, ?_⟩
  · refine List.Nodup.map (fun a b h => (Op.reshard.inj h).2) ?_
    exact (submissionOrder_perm _).nodup_iff.2 ((groupBulk_names hbulk group).of_map _)
  · refine ho.imp fun hne => disjoint_left.2 ?_
    intro op h h'
    obtain ⟨a, -, rfl⟩ := mem_map.1 h
    obtain ⟨b, -, heq⟩ := mem_map.1 h'
    exact hne (Op.reshard.inj heq).1.symm
  · exact (hmisc.of_map _).map fun a b h => Op.broadcast.inj h
  · intro op h op' h' heq
    obtain ⟨_, -, h⟩ := mem_flatMap.1 h
    obtain ⟨a, -, rfl⟩ := mem_map.1 h
    obtain ⟨b, -, rfl⟩ := mem_map.1 h'
    cases heq

end

/-- **Submissions do not deadlock.** Two ranks on a lane issue the same operations on it, in the same order;
    and after any number of steps, which is bounded, the round is over or an operation can complete. -/
theorem round_completes {ι : Type} {plan : ReshardPlan} (hn : plan.parameterNames.Nodup)
    {groupings : Option (List (List String))} {order : List ℕ} {bulk : ι → List ParamPlan} {specs : ι → List String}
    {active : ι → Option ℕ} {ops : ι → List Op} (hb : ∀ i, (bulk i).Perm plan.bulk)
    (hops : ∀ i, rankRound { plan with bulk := bulk i } (specs i) (active i) groupings order = .ok (ops i)) :
    (∀ i j lane, On (active i) lane → On (active j) lane →
      (ops i).filter (·.lane = lane) = (ops j).filter (·.lane = lane)) ∧
    ∃ bound, ∀ f : ℕ → ι → List Op, f 0 = ops → ∀ n,
      (∀ m < n, Step (fun op i => On (active i) op.lane) (f m) (f (m + 1))) →
        n ≤ bound ∧ (Done (f n) ∨ ∃ s, Step (fun op i => On (active i) op.lane) (f n) s) := by
  have hbulk : (plan.bulk.map (·.name)).Nodup := (nodup_append.1 hn).1
  have heq : ∀ i, ops i = (globalOrder plan groupings order).filter fun op => On (active i) op.lane :=
    fun i => (rankRound_eq hbulk (hb i) (hops i)).2
  constructor
  · intro i j lane hi hj
    have hlane : ∀ k, On (active k) lane → (ops k).filter (·.lane = lane) =
        (globalOrder plan groupings order).filter (·.lane = lane) := by
      intro k hk
      rw [heq k, filter_filter]
      refine filter_congr fun op _ => ?_
      by_cases hop : op.lane = lane
      · simp [hop, hk]
      · simp [hop]
    rw [hlane i hi, hlane j hj]
  · -- an operation that no rank takes part in is issued by nobody
    classical
    set members := (globalOrder plan groupings order).filter fun op => ∃ i, On (active i) op.lane with hmembers
    refine ⟨members.length, fun f hf n hstep => ?_⟩
    have hfollows : Follows (fun op i => On (active i) op.lane) members ops := by
      intro i
      rw [heq i, hmembers, filter_filter]
      refine filter_congr fun op _ => ?_
      by_cases hop : On (active i) op.lane
      · simp [hop, show ∃ i, On (active i) op.lane from ⟨i, hop⟩]
      · simp [hop]
    have hnodup : members.Nodup := by
      by_cases hi : Nonempty ι
      · obtain ⟨i⟩ := hi
        exact (globalOrder_nodup hn (rankRound_eq hbulk (hb i) (hops i)).1).filter _
      · have hnil : members = [] := by
          rw [hmembers, filter_eq_nil_iff]
          rintro op - hop
          obtain ⟨i, -⟩ := of_decide_eq_true hop
          exact hi ⟨i⟩
        rw [hnil]
        exact nodup_nil
    refine hfollows.run hnodup (fun op hop => ?_) f hf n hstep
    exact of_decide_eq_true (mem_filter.1 hop).2

def pairEntry (name : String) (partitionId : ℕ) : ParamPlan where
  name
  globalShape := [2]
  dtype := "bf16"
  partitionId
  srcMesh := { shape := [1] }
  srcPlacements := [.replicate]
  dstMesh := { shape := [1], rankOffset := 1 }
  dstPlacements := [.replicate]

def pairPlan : ReshardPlan where
  bulk := [pairEntry "a" 1, pairEntry "b" 0]
  misc := [{ name := "c", globalShape := [1], dtype := "bf16" }]
  sourcePartitionCount := 2

def pairActive : Option Bool → Option ℕ
  | none => none
  | some b => some b.toNat

def pairBulk : Option Bool → List ParamPlan
  | none => [pairEntry "b" 0, pairEntry "a" 1]
  | some _ => [pairEntry "a" 1, pairEntry "b" 0]

def pairOps : Option Bool → List Op
  | none => [.reshard 0 (pairEntry "b" 0), .reshard 0 (pairEntry "a" 1),
      .broadcast { name := "c", globalShape := [1], dtype := "bf16" }]
  | some false => [.reshard 0 (pairEntry "b" 0), .broadcast { name := "c", globalShape := [1], dtype := "bf16" }]
  | some true => [.reshard 0 (pairEntry "a" 1), .broadcast { name := "c", globalShape := [1], dtype := "bf16" }]

theorem pair_round_completes :
    ∃ bound, ∀ f : ℕ → Option Bool → List Op, f 0 = pairOps → ∀ n,
      (∀ m < n, Step (fun op i => On (pairActive i) op.lane) (f m) (f (m + 1))) →
        n ≤ bound ∧ (Done (f n) ∨ ∃ s, Step (fun op i => On (pairActive i) op.lane) (f n) s) := by
  have hb : ∀ i, (pairBulk i).Perm pairPlan.bulk := by
    intro i
    rcases i with - | b
    · exact List.Perm.swap _ _ _
    · exact List.Perm.refl _
  have hops : ∀ i, rankRound { pairPlan with bulk := pairBulk i } ["a", "b", "c"] (pairActive i) none [0] =
      .ok (pairOps i) := by
    intro i
    rcases i with - | - | -
    · rfl
    · rfl
    · rfl
  exact (round_completes (by decide) hb hops).2

end ModelExpress.M2n
