/-
  ModelExpress collective refit — `read_group`, command by command.

  A `Reader` is a call of `read_group` between two of its Redis commands, which are interleaved
  with the events of the other callers (`readRun`).
-/
import ModelExpress.Collective.View
import ModelExpress.Collective.Epochs

namespace ModelExpress.Collective

open Checks List Run Option

/-! ## The reader -/

/-- A call of `read_group` before its next command; `tries` counts the attempts left. -/
inductive Reader where
  | refresh (tries : ℕ)
  | root (tries : ℕ)
  | participants (tries : ℕ) (root : Root) (layout : LaneLayout)
  /-- `hashes` are the lane hashes read so far; after the last one come the digests -/
  | lanes (tries : ℕ) (root : Root) (layout : LaneLayout) (placed : LaneParticipants)
      (hashes : List (Option LaneHash))
  | recheck (tries : ℕ) (group : CollectiveGroup)
  | done (result : Except Status CollectiveGroup)

def Reader.fail (e : CollectiveBackendError) : Reader := .done (.error (backendStatus e))

def Reader.read (groupId : String) (g : Group) : Reader → Reader
  | .refresh tries => .refresh tries
  | .root tries =>
    match g.root with
    | none => .fail (groupNotFound groupId)
    | some fields =>
      match storedLayout fields with
      | .error e => .fail e
      | .ok layout => .participants tries fields layout
  | .participants tries fields layout =>
    match placeParticipants layout g.participants with
    | .error e => .fail e
    | .ok placed => .lanes tries fields layout placed []
  | .lanes tries fields layout placed hashes =>
    match layout.lanes[hashes.length]? with
    | some lane => .lanes tries fields layout placed (hashes ++ [g.lanes lane.laneId])
    | none =>
      match laneViews layout placed hashes with
      | .error e => .fail e
      | .ok views => .recheck tries (groupView groupId fields views g.digests)
  | .recheck tries group =>
    if g.root.any fun fields => fields.epoch = group.epoch ∧ fields.state = group.state then
      .done (.ok group)
    else if tries ≤ 1 then
      .fail (.unavailable s!"collective group {groupId} changed while it was being read")
    else .refresh (tries - 1)
  | .done result => .done result

structure Config where
  store : Store
  reader : Reader

def Config.read (groupId : String) (c : Config) : Config :=
  match c.reader with
  | .refresh tries =>
    match refreshCall groupId c.store with
    | (.refused status, s) => ⟨s, .done (.error status)⟩
    | (_, s) => ⟨s, .root tries⟩
  | reader => ⟨c.store, reader.read groupId (c.store.groups groupId)⟩

inductive Action (D : Deployment) where
  | other (e : D.Event)
  | read

variable {spec : CollectiveGroupSpec} {root' : Root}

section
variable (D : Deployment) (groupId : String)

def Config.next (c : Config) : Action D → Config
  | .other e => { c with store := D.next c.store e }
  | .read => c.read groupId

/-- A call of `read_group`, started after the run `es`. -/
def readRun (es : List D.Event) (acts : List (Action D)) : Config :=
  Run.run (Config.next D groupId) ⟨D.run es, .refresh 5⟩ acts

def refreshEvent : D.Event := ⟨.refresh groupId, fun _ h => nomatch h⟩

variable {D groupId}

/-! ## The keyspace under the call -/

variable (D groupId) in
theorem Config.read_store (c : Config) :
    (c.read groupId).store = c.store ∨ (c.read groupId).store = D.next c.store (refreshEvent D groupId) := by
  unfold Config.read
  cases hr : c.reader with
  | refresh =>
    right
    simp only [Deployment.next, refreshEvent, step]
    generalize refreshCall groupId c.store = r
    obtain ⟨reply, s⟩ := r
    cases reply <;> rfl
  | _ => exact Or.inl rfl

variable (D groupId) in
theorem exists_events (c : Config) (acts : List (Action D)) :
    ∃ es, (Run.run (Config.next D groupId) c acts).store = Run.run D.next c.store es := by
  induction acts using reverseRecOn with
  | nil => exact ⟨[], rfl⟩
  | append_singleton acts a ih =>
    obtain ⟨es, hes⟩ := ih
    rw [run_snoc]
    cases a with
    | other e =>
      refine ⟨es ++ [e], ?_⟩
      rw [run_snoc, ← hes]
      rfl
    | read =>
      rcases Config.read_store D groupId (run (Config.next D groupId) c acts)
        with hs | hs
      · exact ⟨es, hs.trans hes⟩
      · refine ⟨es ++ [refreshEvent D groupId], ?_⟩
        rw [run_snoc, ← hes]
        exact hs

variable (groupId) in
theorem exists_moments (es : List D.Event) {pre acts : List (Action D)} (h : pre <+: acts) :
    ∃ es₁ es₂, es₁ <+: es₂ ∧ (readRun D groupId es pre).store = D.run es₁ ∧
      (readRun D groupId es acts).store = D.run es₂ := by
  obtain ⟨acts, rfl⟩ := h
  obtain ⟨es₁, h₁⟩ := exists_events D groupId ⟨D.run es, .refresh 5⟩ pre
  obtain ⟨es₂, h₂⟩ := exists_events D groupId (readRun D groupId es pre) acts
  have hrun : (readRun D groupId es pre).store = D.run (es ++ es₁) := by
    rw [Deployment.run, run_append]
    exact h₁
  have hrun₂ : (readRun D groupId es (pre ++ acts)).store =
      run D.next (readRun D groupId es pre).store es₂ := by
    rw [readRun, run_append]
    exact h₂
  refine ⟨es ++ es₁, es ++ es₁ ++ es₂, prefix_append .., hrun, ?_⟩
  rw [hrun₂, hrun]
  exact run_append.symm

/-! ## What the call has read -/

variable {es : List D.Event} {pre pre₁ pre₂ acts acts' : List (Action D)} {root : Root}
  {layout : LaneLayout} {placed : LaneParticipants} {hashes : List (Option LaneHash)}

def groupAt (D : Deployment) (groupId : String) (es : List D.Event) (acts : List (Action D)) : Group :=
  (readRun D groupId es acts).store.groups groupId

structure RootRead (D : Deployment) (groupId : String) (es : List D.Event) (pre₁ : List (Action D))
    (root : Root) (layout : LaneLayout) : Prop where
  rooted : (groupAt D groupId es pre₁).root = some root
  layout_eq : storedLayout root = .ok layout

structure LanesRead (D : Deployment) (groupId : String) (es : List D.Event)
    (pre₁ pre₂ acts : List (Action D)) (root : Root) (layout : LaneLayout) (placed : LaneParticipants)
    (hashes : List (Option LaneHash)) : Prop extends RootRead D groupId es pre₁ root layout where
  order₁ : pre₁ <+: pre₂
  order₂ : pre₂ <+: acts
  running : ∀ result, (readRun D groupId es pre₂).reader ≠ .done result
  placed_eq : placeParticipants layout (groupAt D groupId es pre₂).participants = .ok placed
  count : hashes.length ≤ layout.lanes.length
  hash : ∀ (k : ℕ) (lane : Lane) (hash : Option LaneHash), layout.lanes[k]? = some lane →
    hashes[k]? = some hash → ∃ pre, pre₁ <+: pre ∧ pre <+: acts ∧ hash = (groupAt D groupId es pre).lanes lane.laneId

structure Viewed (D : Deployment) (groupId : String) (es : List D.Event) (acts : List (Action D))
    (group : CollectiveGroup) : Prop where
  read : ∃ pre₁ pre₂ pre₃ root layout placed hashes lanes,
    LanesRead D groupId es pre₁ pre₂ acts root layout placed hashes ∧
    hashes.length = layout.lanes.length ∧ laneViews layout placed hashes = .ok lanes ∧
    pre₁ <+: pre₃ ∧ pre₃ <+: acts ∧
    group = groupView groupId root lanes (groupAt D groupId es pre₃).digests

theorem LanesRead.later (h : LanesRead D groupId es pre₁ pre₂ acts root layout placed hashes)
    (hp : acts <+: acts') : LanesRead D groupId es pre₁ pre₂ acts' root layout placed hashes where
  toRootRead := h.toRootRead
  order₁ := h.order₁
  order₂ := h.order₂.trans hp
  running := h.running
  placed_eq := h.placed_eq
  count := h.count
  hash := fun k lane hash hl hh => by
    obtain ⟨pre, h₁, h₂, h₃⟩ := h.hash k lane hash hl hh
    exact ⟨pre, h₁, h₂.trans hp, h₃⟩

theorem Viewed.later {group : CollectiveGroup} (h : Viewed D groupId es acts group)
    (hp : acts <+: acts') : Viewed D groupId es acts' group := by
  obtain ⟨pre₁, pre₂, pre₃, root, layout, placed, hashes, lanes, hr, hn, hl, h₁, h₃, hg⟩ := h.read
  exact ⟨pre₁, pre₂, pre₃, root, layout, placed, hashes, lanes, hr.later hp, hn, hl, h₁, h₃.trans hp, hg⟩

def Knows (D : Deployment) (groupId : String) (es : List D.Event) (acts : List (Action D)) :
    Reader → Prop
  | .refresh _ => True
  | .root _ => True
  | .participants _ root layout => ∃ pre₁, pre₁ <+: acts ∧ RootRead D groupId es pre₁ root layout
  | .lanes _ root layout placed hashes =>
    ∃ pre₁ pre₂, LanesRead D groupId es pre₁ pre₂ acts root layout placed hashes
  | .recheck _ group => Viewed D groupId es acts group
  | .done (.ok group) => ∃ pre root, pre <+: acts ∧ Viewed D groupId es pre group ∧
      (groupAt D groupId es pre).root = some root ∧ root.epoch = group.epoch ∧ root.state = group.state
  | .done (.error _) => True

theorem Knows.later {reader : Reader} (h : Knows D groupId es acts reader) (hp : acts <+: acts') :
    Knows D groupId es acts' reader := by
  match reader, h with
  | .refresh _, _ => trivial
  | .root _, _ => trivial
  | .participants .., ⟨pre₁, h₁, hr⟩ => exact ⟨pre₁, h₁.trans hp, hr⟩
  | .lanes .., ⟨pre₁, pre₂, hr⟩ => exact ⟨pre₁, pre₂, hr.later hp⟩
  | .recheck .., hv => exact Viewed.later hv hp
  | .done (.ok _), ⟨pre, root, hpre, hrest⟩ => exact ⟨pre, root, hpre.trans hp, hrest⟩
  | .done (.error _), _ => trivial

theorem Knows.step (h : Knows D groupId es acts (readRun D groupId es acts).reader) (a : Action D) :
    Knows D groupId es (acts ++ [a]) (readRun D groupId es (acts ++ [a])).reader := by
  have hp : acts <+: acts ++ [a] := prefix_append ..
  have hnext : readRun D groupId es (acts ++ [a]) = (readRun D groupId es acts).next D groupId a :=
    run_snoc ..
  rw [hnext]
  cases a with
  | other e => exact h.later hp
  | read =>
    unfold Config.next Config.read
    cases hr : (readRun D groupId es acts).reader with
    | refresh =>
      simp only
      split <;> trivial
    | root =>
      simp only [Reader.read]
      split
      · trivial
      next root hroot =>
        split
        · trivial
        next layout hl => exact ⟨acts, hp, hroot, hl⟩
    | participants =>
      rw [hr] at h
      obtain ⟨pre₁, h₁, hrd⟩ := h
      simp only [Reader.read]
      split
      · trivial
      next placed hpl =>
        refine ⟨pre₁, acts, hrd, h₁, hp, fun _ => ?_, hpl, Nat.zero_le _, by simp⟩
        rw [hr]
        exact Reader.noConfusion
    | lanes tries root layout placed hashes =>
      rw [hr] at h
      obtain ⟨pre₁, pre₂, hrd⟩ := h
      have hord : pre₁ <+: acts := hrd.order₁.trans hrd.order₂
      simp only [Reader.read]
      split
      next lane hlane =>
        have hlt : hashes.length < layout.lanes.length := (List.getElem?_eq_some_iff.1 hlane).1
        refine ⟨pre₁, pre₂, { hrd.later hp with count := ?_, hash := fun k lane' hash hl hh => ?_ }⟩
        · rw [length_append, length_singleton]
          exact hlt
        · by_cases hk : k < hashes.length
          · rw [getElem?_append_left hk] at hh
            exact (hrd.later hp).hash k lane' hash hl hh
          · have hk' : k = hashes.length := by
              have := (List.getElem?_eq_some_iff.1 hh).1
              rw [length_append, length_singleton] at this
              omega
            subst hk'
            rw [getElem?_concat_length] at hh
            cases hlane.symm.trans hl
            exact ⟨acts, hord, hp, (some.inj hh).symm⟩
      next hlane =>
        have hlen : hashes.length = layout.lanes.length :=
          le_antisymm hrd.count (getElem?_eq_none_iff.1 hlane)
        split
        · trivial
        next lanes hviews =>
          exact ⟨pre₁, pre₂, acts, root, layout, placed, hashes, lanes, hrd.later hp, hlen, hviews, hord,
            hp, rfl⟩
    | recheck =>
      rw [hr] at h
      simp only [Reader.read]
      split_ifs with hsame htries
      · obtain ⟨root, hroot, hc⟩ := (Option.any_eq_true ..).1 hsame
        rw [decide_eq_true_eq] at hc
        exact ⟨acts, root, hp, h, hroot, hc.1, hc.2⟩
      · trivial
      · trivial
    | done =>
      rw [hr] at h
      exact h.later hp

theorem knows (D : Deployment) (groupId : String) (es : List D.Event) (acts : List (Action D)) :
    Knows D groupId es acts (readRun D groupId es acts).reader := by
  induction acts using reverseRecOn with
  | nil => trivial
  | append_singleton acts a ih => exact ih.step a

/-! ## READY views -/

theorem sealed_between {pre pre' : List (Action D)} (h : pre <+: pre') (h' : pre' <+: acts)
    (hr : (groupAt D groupId es pre).root = some root) (hready : root.state = .ready)
    (hr' : (groupAt D groupId es acts).root = some root') (he : root'.epoch = root.epoch) :
    ∃ spec root₁, RootOf D groupId spec root ∧ RootOf D groupId spec root₁ ∧
      (groupAt D groupId es pre').root = some root₁ ∧ root₁.epoch = root.epoch ∧
      root₁.planDigest = root.planDigest ∧ Sealed spec root₁ (groupAt D groupId es pre') ∧
      (groupAt D groupId es pre').lanes = (groupAt D groupId es pre).lanes := by
  obtain ⟨es₁, _, hes, hs₁, hs₂⟩ := exists_moments groupId es h
  obtain ⟨_, _, hes', hs₃, hs₄⟩ := exists_moments groupId es h'
  unfold groupAt at hr hr' ⊢
  rw [hs₁] at hr
  obtain ⟨spec, hpres⟩ := (D.groupInv es₁ groupId).present root hr
  obtain ⟨root₁, hr₁, hpres₁, hcase⟩ := D.sealed_later hes hr hpres (hpres.ready hready)
  rw [← hs₂] at hr₁ hpres₁ hcase
  refine ⟨spec, root₁, hpres.rooted, hpres₁.rooted, hr₁, ?_⟩
  rw [hs₁]
  -- the epoch does not move on, since it is the same at the end
  obtain ⟨_, hr₂, -, hle⟩ := D.epoch_mono hes' (hs₃ ▸ hr₁) (hs₃ ▸ hpres₁)
  rw [← hs₄] at hr₂
  cases hr'.symm.trans hr₂
  rcases hcase with hlt | ⟨he₁, hd₁, hsl, hl⟩
  · omega
  · exact ⟨he₁, hd₁, hsl, hl⟩

theorem RootOf.storedLayout_eq (h : RootOf D groupId spec root) (h' : RootOf D groupId spec root') :
    storedLayout root' = storedLayout root := by
  rw [storedLayout, h'.lanes, h'.trainers, h'.generators, storedLayout, h.lanes, h.trainers, h.generators]

theorem Sealed.disagreeingSlots {g : Group} (h : Sealed spec root g) :
    disagreeingSlots root.planDigest g.digests = [] := by
  have hnone : (g.digests.entries.filter fun e => e.2 ≠ root.planDigest) = [] := by
    rw [filter_eq_nil_iff]
    refine Assoc.forall_entries.2 fun slot digest hd => ?_
    rw [h.agree slot digest hd]
    simp
  rw [Collective.disagreeingSlots, hnone]
  rfl

/-- **A READY view is a snapshot**: all of it but the state and the plan source is what a read of all
    hashes at one instant of the call gives. -/
theorem ready_view_snapshot (D : Deployment) (groupId : String) (es : List D.Event)
    (acts : List (Action D)) (view : CollectiveGroup)
    (hdone : (readRun D groupId es acts).reader = .done (.ok view)) (hready : view.state = .ready) :
    ∃ pre, pre <+: acts ∧ (∀ result, (readRun D groupId es pre).reader ≠ .done result) ∧
      ∃ snap, readAt groupId ((readRun D groupId es pre).store.groups groupId) = .ok snap ∧
        view = { snap with state := .ready, planSource := view.planSource } := by
  have hk := knows D groupId es acts
  rw [hdone] at hk
  obtain ⟨acts', _, hacts, hview, hr', hepoch, _⟩ := hk
  obtain ⟨pre₁, pre₂, _, root, layout, placed, hashes, lanes, hrd, hlen, hviews, h₁₃, h₃, rfl⟩ :=
    hview.read
  have hbetween : ∀ {pre}, pre₁ <+: pre → pre <+: acts' → _ := fun h h' =>
    sealed_between h h' hrd.rooted hready hr' hepoch
  obtain ⟨spec, root₂, hroot, hroot₂, hr₂, he₂, hd₂, hsl₂, hl₂⟩ := hbetween hrd.order₁ hrd.order₂
  obtain ⟨_, _, -, -, -, -, hd₃, hsl₃, -⟩ := hbetween h₁₃ h₃
  -- every lane hash is the one at the instant of the participants
  have hhashes : hashes = layout.lanes.map fun lane => (groupAt D groupId es pre₂).lanes lane.laneId := by
    refine ext_getElem? fun k => ?_
    rw [getElem?_map]
    cases hlane : layout.lanes[k]? with
    | none =>
      rw [getElem?_eq_none_iff, ← hlen] at hlane
      exact getElem?_eq_none_iff.2 hlane
    | some lane =>
      have hk : k < hashes.length := hlen ▸ (List.getElem?_eq_some_iff.1 hlane).1
      obtain ⟨pre, h₁, h₂, hh⟩ := hrd.hash k lane _ hlane (getElem?_eq_getElem hk)
      obtain ⟨-, -, -, -, -, -, -, -, hl⟩ := hbetween h₁ h₂
      rw [getElem?_eq_getElem hk, hh, hl, hl₂, map_some]
  refine ⟨pre₂, hrd.order₂.trans hacts, hrd.running,
    groupView groupId root₂ lanes (groupAt D groupId es pre₂).digests, ?_, ?_⟩
  · unfold readAt
    rw [show ((readRun D groupId es pre₂).store.groups groupId).root = some root₂ from hr₂]
    simp only [hroot.storedLayout_eq hroot₂, hrd.layout_eq, bind_eq_ok]
    exact ⟨layout, rfl, placed, hrd.placed_eq, lanes, hhashes ▸ hviews, rfl⟩
  · have hdis := hsl₃.disagreeingSlots
    have hdis₂ := hsl₂.disagreeingSlots
    rw [hd₃] at hdis
    unfold groupView at hready ⊢
    simp only at hready
    rw [hdis, hdis₂, hready, he₂, hd₂, hroot.modelName, hroot₂.modelName, hroot.trainers, hroot₂.trainers,
      hroot.generators, hroot₂.generators]

end

def pairReading : List (Action pairDeployment) :=
  [.read, .read, .other (pairJoin "t0" "a" 1 0 none), .read, .read, .read, .read]

def Config.returnsReady (c : Config) : Bool :=
  match c.reader with
  | .done (.ok view) => view.state = .ready
  | _ => false

theorem Config.exists_view {c : Config} (h : c.returnsReady = true) :
    ∃ view, c.reader = .done (.ok view) ∧ view.state = .ready := by
  unfold returnsReady at h
  split at h
  next view hr => exact ⟨view, hr, of_decide_eq_true h⟩
  next => cases h

theorem ready_view_snapshot_pair :
    ∃ view, (readRun pairDeployment pairId pairFormed pairReading).reader = .done (.ok view) ∧
      view.state = .ready ∧ ∃ pre, pre <+: pairReading ∧
        (∀ result, (readRun pairDeployment pairId pairFormed pre).reader ≠ .done result) ∧
        ∃ snap, readAt pairId
            ((readRun pairDeployment pairId pairFormed pre).store.groups pairId) = .ok snap ∧
          view = { snap with state := .ready, planSource := view.planSource } := by
  have hret : (readRun pairDeployment pairId pairFormed pairReading).returnsReady = true := by
    decide +kernel
  obtain ⟨view, hdone, hready⟩ := Config.exists_view hret
  exact ⟨view, hdone, hready,
    ready_view_snapshot pairDeployment pairId pairFormed pairReading view hdone hready⟩

end ModelExpress.Collective
