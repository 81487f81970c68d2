/-
  ModelExpress NCCL M2N refit — a generator reports success only for a round that it has
  installed.
-/
import ModelExpress.M2n.Aside

namespace ModelExpress.M2n

open Checks Effects List Option

def Half.layerGroupIds (half : Half) : List ℕ := half.groups.map (·.1)

def Client.layerGroupIds (s : Client) : List ℕ := (s.half.map (·.half.layerGroupIds)).getD []

variable {calls setup : List Call} {Q : Unit → Client → Prop} {x : Refit Unit}

section
variable (world : World) (config : Config)

/-! ## What a method that returns has done -/

def Client.logs (s : Client) (acts : List Act) : Client := { s with trace := s.trace ++ acts.map (⟨·, true⟩) }

/-- Only calls aside of the round have been made, and they returned. -/
def Passes (s s' : Client) : Prop := ∃ acts, (∀ act ∈ acts, act.Aside) ∧ s' = s.logs acts

section
variable {s s' s'' : Client} {act : Act} {h : HalfState} {group : ℕ}

theorem Passes.trans (h : Passes s s') (h' : Passes s' s'') : Passes s s'' := by
  obtain ⟨acts, ha, rfl⟩ := h
  obtain ⟨acts', ha', rfl⟩ := h'
  exact ⟨acts ++ acts', forall_mem_append.2 ⟨ha, ha'⟩, by simp [Client.logs]⟩

variable (entries : List ParamPlan)

end

/-! ## A round in flight -/

structure Going (ids : List ℕ) (s : Client) (h : HalfState) : Prop where
  half : s.half = some h
  groups : h.half.layerGroupIds = ids
  alive : h.closed = false
  started : s.roundStarted = true
  round : ∃ operation version, s.operationId = some operation ∧ s.version = some version ∧
    InRound ids operation version s.trace s.unfinished h.groupsRun h.inFlight

section
variable {ids : List ℕ} {s : Client} {h : HalfState}

/-- The depth of the pipeline and whether a report is pending stay the same. -/
def Steady (s s' : Client) : Prop := s'.pipelineDepth = s.pipelineDepth ∧ s'.reportPending = s.reportPending

end

/-! ## Between two calls -/

structure Live (ids : List ℕ) (s : Client) (h : HalfState) : Prop where
  half : s.half = some h
  groups : h.half.layerGroupIds = ids
  alive : h.closed = false
  flow : Flow s.trace s.unfinished
  fits : s.unfinished.length < s.pipelineDepth
  resting : s.roundStarted = false → s.unfinished = [] ∧ s.reportPending = false
  going : s.roundStarted = true → Going ids s h
  finished : s.reportPending = true → s.unfinished = [] ∧ ∀ group ∈ ids, group ∈ h.groupsRun

/-- No round is in flight, and a half that is there is closed. -/
structure Stopped (s : Client) : Prop where
  started : s.roundStarted = false
  pending : s.reportPending = false
  queue : s.unfinished = []
  closed : ∀ h, s.half = some h → h.closed = true

/-- Success has been reported only for installed rounds. -/
structure Honest (ids : List ℕ) (s : Client) : Prop where
  reported : Throughout (Reported ids) s.trace
  depth : 0 < s.pipelineDepth

def Fair (ids : List ℕ) (s : Client) : Prop := Honest ids s ∧ (Stopped s ∨ ∃ h, Live ids s h)

section
variable {ids : List ℕ} {s : Client} {h : HalfState} {act : Act} {ok : Bool}

theorem honest_framed : Framed unreported (Honest ids) := by
  refine framed_footprint (fun s act ok hact h => ?_) fun s s' hs h => ?_
  · exact ⟨throughout_snoc.2 ⟨h.reported, reported_of_ne hact⟩, h.depth⟩
  · exact ⟨hs.1 ▸ h.reported, hs.2 ▸ h.depth⟩

theorem Stopped.log (hs : Stopped s) : Stopped (s.log act ok) := ⟨hs.started, hs.pending, hs.queue, hs.closed⟩

theorem live_resting (hhalf : s.half = some h) (hgroups : h.half.layerGroupIds = ids) (halive : h.closed = false)
    (hflow : Flow s.trace []) (hqueue : s.unfinished = []) (hdepth : 0 < s.pipelineDepth)
    (hstarted : s.roundStarted = false) (hpending : s.reportPending = false) : Live ids s h where
  half := hhalf
  groups := hgroups
  alive := halive
  flow := hqueue ▸ hflow
  fits := by rwa [hqueue]
  resting _ := ⟨hqueue, hpending⟩
  going hstart := by simp [hstarted] at hstart
  finished hreport := by simp [hpending] at hreport

theorem Going.live (hs : Going ids s h) (hfits : s.unfinished.length < s.pipelineDepth)
    (hfinished : s.reportPending = true → s.unfinished = [] ∧ ∀ group ∈ ids, group ∈ h.groupsRun) : Live ids s h where
  half := hs.half
  groups := hs.groups
  alive := hs.alive
  flow := by
    obtain ⟨_, _, _, _, hround⟩ := hs.round
    exact hround.toFlow
  fits := hfits
  resting hrest := by simp [hs.started] at hrest
  going _ := hs
  finished := hfinished

theorem Fair.log (hs : Fair ids s) (hstarted : s.roundStarted = false) (hb : Event.binding ⟨act, ok⟩ = none)
    (hi : act.issuedGroup = none) (hw : act.waitedGroup = none) (hn : act.installedGroup = none)
    (hreport : ∀ operation, act ≠ .report operation true) : Fair ids (s.log act ok) := by
  refine ⟨honest_framed.log hs.1 hreport, hs.2.imp Stopped.log ?_⟩
  rintro ⟨h, hlive⟩
  obtain ⟨hqueue, hpending⟩ := hlive.resting hstarted
  refine ⟨h, live_resting hlive.half hlive.groups hlive.alive ?_ hqueue hs.1.depth hstarted hpending⟩
  exact (hqueue ▸ hlive.flow).log hb hi hw hn

/-! ## Failing a round -/

variable {version : String}

theorem Going.named (hs : Going ids s h) (hversion : s.version = some version) :
    Going ids (s.log (.named version) true) h := by
  obtain ⟨operation, version', hoperation, hversion', hround⟩ := hs.round
  obtain rfl : version = version' := mem_unique hversion hversion'
  refine ⟨hs.half, hs.groups, hs.alive, hs.started, operation, version, hoperation, hversion, ?_⟩
  exact hround.log rfl rfl rfl rfl (by simp [Act.namedVersion]) (.inl rfl)

theorem Fair.named (hs : Fair ids s) (hstarted : s.roundStarted = true) (hversion : s.version = some version) :
    Honest ids (s.log (.named version) true) ∧ ∃ h, Going ids (s.log (.named version) true) h ∧
      s.unfinished.length < s.pipelineDepth := by
  refine ⟨honest_framed.log hs.1 fun _ => by simp, ?_⟩
  rcases hs.2 with hstop | ⟨h, hlive⟩
  · simp [hstop.started] at hstarted
  · exact ⟨h, (hlive.going hstarted).named hversion, hlive.fits⟩

/-- Everything is installed, and only the report is missing. -/
structure Complete (ids : List ℕ) (s : Client) (h : HalfState) : Prop where
  going : Going ids s h
  queue : s.unfinished = []
  ran : ∀ group ∈ ids, group ∈ h.groupsRun

theorem Complete.live (hs : Complete ids s h) (hdepth : 0 < s.pipelineDepth) : Live ids s h :=
  hs.going.live (by rwa [hs.queue]) fun _ => ⟨hs.queue, hs.ran⟩

variable {operation : String}

theorem Complete.report (hs : Complete ids s h) (hhonest : Honest ids s)
    (hoperation : s.operationId = some operation) :
    Complete ids (s.log (.report operation true) ok) h ∧ Honest ids (s.log (.report operation true) ok) := by
  obtain ⟨operation', version, hoperation', hversion, hround⟩ := hs.going.round
  obtain rfl : operation = operation' := mem_unique hoperation hoperation'
  refine ⟨⟨⟨hs.going.half, hs.going.groups, hs.going.alive, hs.going.started, operation, version, hoperation, hversion,
    hround.log rfl rfl rfl rfl (by simp [Act.namedVersion]) (.inr rfl)⟩, hs.queue, hs.ran⟩, ?_, hhonest.depth⟩
  refine throughout_snoc.2 ⟨hhonest.reported, fun _ heq => ?_⟩
  cases heq
  exact (hs.queue ▸ hround).installed hs.ran

def Client.bound (s : Client) (version operation : String) (membership : Membership) : Client :=
  { (s.log .checkCurrent true).log (.bindTransfer operation version) true with
    operationId := some operation, roundMembership := some membership }

variable {I : Client → Prop}

variable {c : Call}

variable {s' : Client}

theorem Live.pending (hs : Live ids s h) :
    (issues (currentRound s.trace)).filter (· ∉ installs (currentRound s.trace)) = s.unfinished := by
  have hdisjoint : ∀ group ∈ s.unfinished, group ∉ installs (currentRound s.trace) := by
    intro group hqueue hinstalled
    cases hstarted : s.roundStarted with
    | false =>
      rw [(hs.resting hstarted).1] at hqueue
      cases hqueue
    | true =>
      obtain ⟨_, _, _, _, hround⟩ := (hs.going hstarted).round
      have hnodup := hround.nodup
      rw [hround.issued] at hnodup
      exact (nodup_append.1 hnodup).2.2 group hinstalled group hqueue rfl
  rw [hs.flow.issued, filter_append, filter_eq_nil_iff.2 (by simp), nil_append]
  exact filter_eq_self.2 fun group hqueue => decide_eq_true (hdisjoint group hqueue)

/-! ## A generator -/

variable (hrole : config.role = .generator)
include hrole

end

end

end ModelExpress.M2n
