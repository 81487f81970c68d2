/-
  ModelExpress reshard planner — what a transfer plan consists of.
-/
import ModelExpress.Lib.Assoc
import ModelExpress.Reshard.TransferPlan

namespace ModelExpress.Reshard

open Checks Buckets List Assoc

theorem caught_eq_some {α : Type} {x : Except PlanError α} {a : α} : caught x = .ok (some a) ↔ x = .ok a := by
  rcases x with (_ | _ | _ | _ | _ | _) | _ <;> simp [caught]

theorem caught_elim {α δ : Type} {x : Except PlanError α} {f : α → Outcome δ} {o : Outcome δ} (ho : o ≠ .fallback) :
    (do let a ← caught x; return a.elim .fallback f) = Except.ok o ↔ ∃ a, x = .ok a ∧ f a = o := by
  simp only [bind_eq_ok, pure_eq_ok]
  constructor
  · rintro ⟨_ | a, ha, rfl⟩
    · cases ho rfl
    · exact ⟨a, caught_eq_some.1 ha, rfl⟩
  · rintro ⟨a, ha, rfl⟩
    exact ⟨some a, caught_eq_some.2 ha, rfl⟩

/-! ## One copy -/

section
variable {Op δ : Type} [DecidableEq δ] {replay : Replay Op} {sources : Sources δ}
variable {sourceIndices : String → Option (List ℕ)}

def PullOf (replay : Replay Op) (src : SourceInfo δ) (indices : List ℕ) (copy : RecordedCopy Op δ)
    (segments : List LogicalRead) : Prop :=
  planPull replay copy src.globalShape src.dtype src.elsize src.shards indices = .ok segments

variable {copy : RecordedCopy Op δ}

theorem planCopy_exact {segments : List LogicalRead} :
    planCopy replay sources sourceIndices copy = .ok (.exact segments) ↔
      ∃ src indices, sources.lookup copy.srcName = some src ∧ sourceIndices copy.srcName = some indices ∧
        src.dtype = copy.destDtype ∧ PullOf replay src indices copy segments := by
  unfold planCopy PullOf
  cases hsrc : sources.lookup copy.srcName with
  | none => simp
  | some src =>
    simp only [bind_eq_ok, found_eq_ok, Option.some.injEq, exists_and_left, exists_eq_left']
    refine exists_congr fun _ => and_congr_right fun _ => ?_
    split_ifs with hd <;> rw [caught_elim (o := .exact segments) (by simp)]
    · simp [hd]
    · simp [not_not.1 hd]

theorem planCopy_convert {convert : ConvertSource δ} :
    planCopy replay sources sourceIndices copy = .ok (.convert convert) ↔
      ∃ src indices segments, sources.lookup copy.srcName = some src ∧
        sourceIndices copy.srcName = some indices ∧ src.dtype ≠ copy.destDtype ∧
        PullOf replay src indices (copy.staged src.dtype) segments ∧
        convert = ⟨copy.paramName, copy.destShape, src.dtype, segments⟩ := by
  unfold planCopy PullOf
  cases hsrc : sources.lookup copy.srcName with
  | none => simp
  | some src =>
    simp only [bind_eq_ok, found_eq_ok, Option.some.injEq, exists_and_left, exists_eq_left']
    refine exists_congr fun _ => and_congr_right fun _ => ?_
    split_ifs with hd <;> rw [caught_elim (o := .convert convert) (by simp)]
    · simp [hd, eq_comm]
    · simp [not_not.1 hd]

theorem planCopy_congr {sources' : Sources δ} {sourceIndices' : String → Option (List ℕ)}
    (h : sources'.lookup copy.srcName = sources.lookup copy.srcName)
    (hindices : sourceIndices' copy.srcName = sourceIndices copy.srcName) :
    planCopy replay sources' sourceIndices' copy = planCopy replay sources sourceIndices copy := by
  unfold planCopy
  rw [h, hindices]

end

/-! ## The loop over the copies -/

section
variable {Op δ : Type} {maxSegmentsPerCopy : ℕ}

/-- What the loop has collected from the outcomes of the copies seen. -/
structure Drafted (maxSegmentsPerCopy : ℕ) (unsupported : List String)
    (seen : List (RecordedCopy Op δ × Outcome δ)) (d : Draft Op δ) : Prop where
  mem_fallback : ∀ q, q ∈ d.fallback ↔ q ∈ unsupported ∨ ∃ c, (c, .fallback) ∈ seen ∧ c.srcName = q
  mem_converts : ∀ v, v ∈ d.converts ↔ ∃ c, (c, .convert v) ∈ seen
  nodup : (d.exactBySource.map Prod.fst).Nodup
  mem_exact : ∀ q c segments, (c, segments) ∈ under d.exactBySource q ↔
    (c, .exact segments) ∈ seen ∧ c.srcName = q
  mem_keys : ∀ q, q ∈ d.exactBySource.map Prod.fst ↔ ∃ c segments, (c, .exact segments) ∈ seen ∧ c.srcName = q
  mem_full : ∀ q, q ∈ d.fullPullNames ↔
    ∃ c segments, (c, .exact segments) ∈ seen ∧ maxSegmentsPerCopy < segments.length ∧ c.srcName = q

theorem Drafted.add {unsupported : List String} {seen : List (RecordedCopy Op δ × Outcome δ)}
    {d : Draft Op δ} (h : Drafted maxSegmentsPerCopy unsupported seen d) (c : RecordedCopy Op δ)
    (o : Outcome δ) :
    Drafted maxSegmentsPerCopy unsupported (seen ++ [(c, o)]) (d.add maxSegmentsPerCopy c o) := by
  cases o with
  | fallback =>
    refine ⟨fun q => ?_, fun v => ?_, h.nodup, fun q c' s => ?_, fun q => ?_, fun q => ?_⟩
    · simp only [Draft.add, mem_mark, h.mem_fallback, mem_append, mem_singleton, Prod.mk.injEq,
        and_true, or_and_right, exists_or, exists_eq_left, or_assoc, eq_comm (a := q)]
    · simp [Draft.add, h.mem_converts]
    · simp [Draft.add, h.mem_exact]
    · simp [Draft.add, h.mem_keys, - mem_map]
    · simp [Draft.add, h.mem_full]
  | convert v =>
    refine ⟨fun q => ?_, fun w => ?_, h.nodup, fun q c' s => ?_, fun q => ?_, fun q => ?_⟩
    · simp [Draft.add, h.mem_fallback]
    · simp only [Draft.add, mem_append, h.mem_converts, mem_singleton, Prod.mk.injEq,
        Outcome.convert.injEq, exists_or, exists_eq_left]
    · simp [Draft.add, h.mem_exact]
    · simp [Draft.add, h.mem_keys, - mem_map]
    · simp [Draft.add, h.mem_full]
  | exact segments =>
    have hseen : ∀ c' s, (c', .exact s) ∈ seen ++ [(c, .exact segments)] ↔
        (c', .exact s) ∈ seen ∨ c' = c ∧ s = segments := by
      simp
    refine ⟨fun q => ?_, fun v => ?_, nodup_keys_push h.nodup, fun q c' s => ?_, fun q => ?_, fun q => ?_⟩
    · simp [Draft.add, h.mem_fallback]
    · simp [Draft.add, h.mem_converts]
    · rw [Draft.add, under_push h.nodup, mem_append, h.mem_exact, hseen, or_and_right]
      refine or_congr_right ?_
      split_ifs with hq
      · simp only [mem_singleton, Prod.mk.injEq, iff_self_and]
        exact fun heq => heq.1 ▸ hq.symm
      · simp only [not_mem_nil, false_iff]
        rintro ⟨⟨rfl, -⟩, heq⟩
        exact hq heq.symm
    · rw [Draft.add, mem_keys_push, h.mem_keys]
      simp only [hseen, or_and_right, exists_or, and_assoc, exists_and_left, exists_eq_left, eq_comm (a := q)]
    · have hmem : q ∈ (d.add maxSegmentsPerCopy c (.exact segments)).fullPullNames ↔
          q ∈ d.fullPullNames ∨ maxSegmentsPerCopy < segments.length ∧ q = c.srcName := by
        simp only [Draft.add]
        split_ifs with hlt <;> simp [hlt]
      rw [hmem, h.mem_full]
      simp only [hseen, or_and_right, exists_or, and_assoc, exists_and_left, exists_eq_left, eq_comm (a := q)]

end

variable {names : List String} {q : String}

section
variable {Op δ : Type} [DecidableEq δ] {replay : Replay Op} {sources : Sources δ}
variable {sourceIndices : String → Option (List ℕ)} {maxSegmentsPerCopy : ℕ}

variable {capture : CaptureResult Op δ}

theorem planCopies_ok {d : Draft Op δ}
    (h : planCopies replay sources sourceIndices maxSegmentsPerCopy capture = .ok d) :
    ∃ seen, Drafted maxSegmentsPerCopy capture.unsupported seen d ∧
      (∀ c o, (c, o) ∈ seen ↔ c ∈ capture.copies ∧ planCopy replay sources sourceIndices c = .ok o) ∧
      ∀ c ∈ capture.copies, ∃ o, planCopy replay sources sourceIndices c = .ok o := by
  suffices hgen : ∀ (copies : List (RecordedCopy Op δ)) (seen : List (RecordedCopy Op δ × Outcome δ))
      (d₀ : Draft Op δ), Drafted maxSegmentsPerCopy capture.unsupported seen d₀ →
      copies.foldlM (fun d copy => do
        return d.add maxSegmentsPerCopy copy (← planCopy replay sources sourceIndices copy)) d₀ = .ok d →
      ∃ new, Drafted maxSegmentsPerCopy capture.unsupported (seen ++ new) d ∧
        (∀ c o, (c, o) ∈ new ↔ c ∈ copies ∧ planCopy replay sources sourceIndices c = .ok o) ∧
        ∀ c ∈ copies, ∃ o, planCopy replay sources sourceIndices c = .ok o by
    have hstart : Drafted maxSegmentsPerCopy capture.unsupported ([] : List (RecordedCopy Op δ × Outcome δ))
        ⟨distinct capture.unsupported, [], [], [], 0, 0⟩ := by
      constructor <;> simp [under]
    obtain ⟨new, hnew⟩ := hgen capture.copies [] _ hstart h
    exact ⟨new, hnew⟩
  intro copies
  induction copies with
  | nil =>
    intro seen d₀ hd h
    cases h
    exact ⟨[], by simpa using hd, by simp, by simp⟩
  | cons c _ ih =>
    intro seen d₀ hd h
    simp only [foldlM_cons, bind_eq_ok, pure_eq_ok] at h
    obtain ⟨d₁, ⟨o, ho, rfl⟩, h⟩ := h
    obtain ⟨new, hnew, hmem, hall⟩ := ih _ _ (hd.add c o) h
    refine ⟨(c, o) :: new, by simpa using hnew, fun c' o' => ?_, ?_⟩
    · simp only [mem_cons, Prod.mk.injEq, hmem]
      constructor
      · rintro (⟨rfl, rfl⟩ | ⟨hc', ho'⟩)
        · exact ⟨Or.inl rfl, ho⟩
        · exact ⟨Or.inr hc', ho'⟩
      · rintro ⟨rfl | hc', ho'⟩
        · rw [ho, Except.ok.injEq] at ho'
          exact Or.inl ⟨rfl, ho'.symm⟩
        · exact Or.inr ⟨hc', ho'⟩
    · exact forall_mem_cons.2 ⟨⟨o, ho⟩, hall⟩

/-! ## The parts of a plan -/

/-- With full-source verification, a source none of whose copies is the whole tensor is read as
    a whole. -/
def Staged (sources : Sources δ) (verify : Bool) (capture : CaptureResult Op δ) (q : String) : Prop :=
  verify = true ∧ ∃ src, sources.lookup q = some src ∧
    ∀ c ∈ capture.copies, c.srcName = q → isWhole src c = false

/-- The full pull of a source: by rows, for copies that were planned exactly, or shard by shard,
    for verification. -/
structure FullPullOf (replay : Replay Op) (sources : Sources δ) (sourceIndices : String → Option (List ℕ))
    (verify : Bool) (capture : CaptureResult Op δ) (f : FullPullSource Op δ) (src : SourceInfo δ)
    (indices : List ℕ) : Prop where
  lookup : sources.lookup f.srcName = some src
  buffers : sourceIndices f.srcName = some indices
  shape : f.globalShape = src.globalShape
  dtype : f.dtype = src.dtype
  elsize : f.elsize = src.elsize
  copies : ∀ c ∈ f.copies, c ∈ capture.copies ∧ c.srcName = f.srcName
  segments : (¬ Staged sources verify capture f.srcName ∧
      fullPullSegments f.srcName src indices = .ok f.segments ∧
      ∀ c ∈ f.copies, ∃ segments, planCopy replay sources sourceIndices c = .ok (.exact segments)) ∨
    (Staged sources verify capture f.srcName ∧
      PullOf replay src indices (identityCopy f.srcName src) f.segments)

/-- The copy is replayed from a full pull of the plan. -/
def Pulled (plan : LogicalTransferPlan Op δ) (c : RecordedCopy Op δ) : Prop :=
  ∃ f ∈ plan.fullPulls, c ∈ f.copies

/-- **What a plan consists of.** -/
structure PlanOf (replay : Replay Op) (sources : Sources δ) (sourceIndices : String → Option (List ℕ))
    (verify : Bool) (capture : CaptureResult Op δ) (plan : LogicalTransferPlan Op δ) : Prop where
  mem_segments : ∀ r, r ∈ plan.segments ↔ ∃ c ∈ capture.copies, ∃ segments,
    planCopy replay sources sourceIndices c = .ok (.exact segments) ∧ ¬ Pulled plan c ∧ r ∈ segments
  mem_converts : ∀ v, v ∈ plan.converts ↔ ∃ c ∈ capture.copies,
    planCopy replay sources sourceIndices c = .ok (.convert v) ∧ ¬ Pulled plan c
  fullPulls : ∀ f ∈ plan.fullPulls, ∃ src indices,
    FullPullOf replay sources sourceIndices verify capture f src indices
  staged : ∀ c ∈ capture.copies, Staged sources verify capture c.srcName → Pulled plan c
  planned : plan.fallback = [] → ∀ c ∈ capture.copies, Pulled plan c ∨
    (∃ segments, planCopy replay sources sourceIndices c = .ok (.exact segments)) ∨
    ∃ v, planCopy replay sources sourceIndices c = .ok (.convert v)

variable {entries : List (RecordedCopy Op δ × List LogicalRead)} {route : Route Op δ}

omit [DecidableEq δ] in
theorem planSource_ok (h : planSource sources sourceIndices names q entries = .ok route) :
    (route.fullPull = none ∧ route.segments entries = entries.flatMap Prod.snd) ∨
      ∃ src indices segments, sources.lookup q = some src ∧ sourceIndices q = some indices ∧
        fullPullSegments q src indices = .ok segments ∧
        route = .full ⟨q, src.globalShape, src.dtype, src.elsize, segments, entries.map Prod.fst⟩ := by
  unfold planSource at h
  by_cases hq : q ∉ names
  · rw [if_pos hq] at h
    cases h
    exact Or.inl ⟨rfl, rfl⟩
  · rw [if_neg hq] at h
    simp only [bind_eq_ok, found_eq_ok, pure_eq_ok] at h
    obtain ⟨src, hsrc, indices, hindices, o, ho, rfl⟩ := h
    cases o with
    | none => exact Or.inl ⟨rfl, rfl⟩
    | some segments => exact Or.inr ⟨src, indices, segments, hsrc, hindices, caught_eq_some.1 ho, rfl⟩

omit [DecidableEq δ] in
theorem planSource_fullPull {f : FullPullSource Op δ}
    (h : planSource sources sourceIndices names q entries = .ok route) (hf : route.fullPull = some f) :
    ∃ src indices segments, sources.lookup q = some src ∧ sourceIndices q = some indices ∧
      fullPullSegments q src indices = .ok segments ∧ route.segments entries = [] ∧
      f = ⟨q, src.globalShape, src.dtype, src.elsize, segments, entries.map Prod.fst⟩ := by
  rcases planSource_ok h with ⟨hnone, -⟩ | ⟨src, indices, segments, hsrc, hindices, hsegments, rfl⟩
  · cases hnone.symm.trans hf
  · cases hf
    exact ⟨src, indices, segments, hsrc, hindices, hsegments, rfl, rfl⟩

variable {buffers : List SourceBuffer} {plan : LogicalTransferPlan Op δ}

theorem planDirect_ok (h : planDirect replay sources sourceIndices maxSegmentsPerCopy capture buffers = .ok plan) :
    PlanOf replay sources sourceIndices false capture plan := by
  simp only [planDirect, bind_eq_ok, pure_eq_ok] at h
  obtain ⟨d, hd, routes, hroutes, rfl⟩ := h
  obtain ⟨seen, hdraft, hseen, hall⟩ := planCopies_ok hd
  have hstaged : ∀ q, ¬ Staged sources false capture q := fun q hq => Bool.false_ne_true hq.1
  -- the routes of the sources
  have hmem : ∀ e route, (e, route) ∈ routes ↔ e ∈ d.exactBySource ∧
      planSource sources sourceIndices d.fullPullNames e.1 e.2 = .ok route := by
    intro e route
    rw [mem_of_mapM hroutes]
    constructor
    · rintro ⟨e', he', hr⟩
      simp only [bind_eq_ok, pure_eq_ok, Prod.mk.injEq] at hr
      obtain ⟨r, hr, rfl, rfl⟩ := hr
      exact ⟨he', hr⟩
    · rintro ⟨he, hr⟩
      exact ⟨e, he, by simp only [hr]; rfl⟩
  have hroute : ∀ e ∈ d.exactBySource, ∃ route, (e, route) ∈ routes := by
    intro e he
    obtain ⟨x, hx, hr⟩ := exists_mem_of_mapM hroutes he
    simp only [bind_eq_ok, pure_eq_ok] at hr
    obtain ⟨route, hr, rfl⟩ := hr
    exact ⟨route, hx⟩
  -- the entries of a source are its exact copies
  have hentry : ∀ e ∈ d.exactBySource, ∀ c segments, (c, segments) ∈ e.2 ↔
      (c ∈ capture.copies ∧ planCopy replay sources sourceIndices c = .ok (.exact segments)) ∧
        c.srcName = e.1 := by
    intro e he c segments
    rw [← under_of_mem hdraft.nodup he, hdraft.mem_exact, hseen]
  have hkey : ∀ c ∈ capture.copies, ∀ segments,
      planCopy replay sources sourceIndices c = .ok (.exact segments) →
      ∃ e ∈ d.exactBySource, (c, segments) ∈ e.2 := by
    intro c hc segments hex
    obtain ⟨e, he, heq⟩ := mem_map.1
      ((hdraft.mem_keys c.srcName).2 ⟨c, segments, (hseen ..).2 ⟨hc, hex⟩, rfl⟩)
    exact ⟨e, he, (hentry e he c segments).2 ⟨⟨hc, hex⟩, heq.symm⟩⟩
  have hfull : ∀ f, f ∈ routes.filterMap (fun r => r.2.fullPull) ↔
      ∃ e route, (e, route) ∈ routes ∧ route.fullPull = some f := by
    intro f
    rw [mem_filterMap, Prod.exists]
  -- an exact copy is replayed iff its source is pulled as a whole
  have hpulled : ∀ e route c segments, (e, route) ∈ routes → (c, segments) ∈ e.2 →
      ((∃ f ∈ routes.filterMap (fun r => r.2.fullPull), c ∈ f.copies) ↔ ∃ f, route.fullPull = some f) := by
    intro e route c segments her hc
    obtain ⟨he, hr⟩ := (hmem e route).1 her
    constructor
    · rintro ⟨f, hf, hcf⟩
      obtain ⟨e', route', her', hf'⟩ := (hfull f).1 hf
      obtain ⟨he', hr'⟩ := (hmem e' route').1 her'
      obtain ⟨src, indices, pull, -, -, -, -, rfl⟩ := planSource_fullPull hr' hf'
      obtain ⟨⟨c', s'⟩, hc', rfl⟩ := mem_map.1 hcf
      have heq : e'.1 = e.1 := ((hentry e' he' _ _).1 hc').2.symm.trans ((hentry e he _ _).1 hc).2
      obtain rfl := inj_on_of_nodup_map hdraft.nodup he' he heq
      rw [hr, Except.ok.injEq] at hr'
      exact ⟨_, hr' ▸ hf'⟩
    · rintro ⟨f, hf⟩
      refine ⟨f, (hfull f).2 ⟨e, route, her, hf⟩, ?_⟩
      obtain ⟨src, indices, pull, -, -, -, -, rfl⟩ := planSource_fullPull hr hf
      exact mem_map.2 ⟨_, hc, rfl⟩
  -- the copies of a full pull were planned exactly
  have hexact : ∀ f ∈ routes.filterMap (fun r => r.2.fullPull), ∀ c ∈ f.copies,
      c ∈ capture.copies ∧ c.srcName = f.srcName ∧
        ∃ segments, planCopy replay sources sourceIndices c = .ok (.exact segments) := by
    intro f hf c hc
    obtain ⟨e, route, her, hf⟩ := (hfull f).1 hf
    obtain ⟨he, hr⟩ := (hmem e route).1 her
    obtain ⟨src, indices, pull, -, -, -, -, rfl⟩ := planSource_fullPull hr hf
    obtain ⟨⟨c, s⟩, hcs, rfl⟩ := mem_map.1 hc
    obtain ⟨⟨hcc, hex⟩, hsrc⟩ := (hentry e he c s).1 hcs
    exact ⟨hcc, hsrc, s, hex⟩
  refine ⟨fun r => ?_, fun v => ?_, fun f hf => ?_, fun c _ hq => absurd hq (hstaged _), fun hfb c hc => ?_⟩
  · simp only [mem_flatMap, Pulled]
    constructor
    · rintro ⟨⟨e, route⟩, her, hr⟩
      obtain ⟨he, hok⟩ := (hmem e route).1 her
      rcases planSource_ok hok with ⟨hnone, hsegs⟩ | ⟨_, _, _, -, -, -, rfl⟩
      · rw [hsegs] at hr
        obtain ⟨⟨c, segments⟩, hc, hr⟩ := mem_flatMap.1 hr
        obtain ⟨⟨hcc, hex⟩, -⟩ := (hentry e he c segments).1 hc
        refine ⟨c, hcc, segments, hex, fun hp => ?_, hr⟩
        obtain ⟨f, hf⟩ := (hpulled e route c segments her hc).1 hp
        cases hnone.symm.trans hf
      · cases hr
    · rintro ⟨c, hc, segments, hex, hnot, hr⟩
      obtain ⟨e, he, hce⟩ := hkey c hc segments hex
      obtain ⟨route, her⟩ := hroute e he
      refine ⟨(e, route), her, ?_⟩
      rcases planSource_ok ((hmem e route).1 her).2 with ⟨-, hsegs⟩ | ⟨_, _, _, -, -, -, rfl⟩
      · rw [hsegs]
        exact mem_flatMap.2 ⟨_, hce, hr⟩
      · exact absurd ((hpulled e _ c segments her hce).2 ⟨_, rfl⟩) hnot
  · rw [hdraft.mem_converts]
    constructor
    · rintro ⟨c, hc⟩
      obtain ⟨hcc, hconv⟩ := (hseen ..).1 hc
      refine ⟨c, hcc, hconv, ?_⟩
      rintro ⟨f, hf, hcf⟩
      obtain ⟨-, -, segments, hex⟩ := hexact f hf c hcf
      cases hconv.symm.trans hex
    · rintro ⟨c, hcc, hconv, -⟩
      exact ⟨c, (hseen ..).2 ⟨hcc, hconv⟩⟩
  · obtain ⟨e, route, her, hfr⟩ := (hfull f).1 hf
    obtain ⟨src, indices, pull, hsrc, hindices, hpull, -, rfl⟩ :=
      planSource_fullPull ((hmem e route).1 her).2 hfr
    exact ⟨src, indices, hsrc, hindices, rfl, rfl, rfl, fun c hc => ⟨(hexact _ hf c hc).1, (hexact _ hf c hc).2.1⟩,
      Or.inl ⟨hstaged _, hpull, fun c hc => (hexact _ hf c hc).2.2⟩⟩
  · obtain ⟨o, ho⟩ := hall c hc
    cases o with
    | fallback =>
      have hmemfb := (hdraft.mem_fallback c.srcName).2 (Or.inr ⟨c, (hseen ..).2 ⟨hc, ho⟩, rfl⟩)
      rw [show d.fallback = [] from hfb] at hmemfb
      cases hmemfb
    | convert v => exact Or.inr (Or.inr ⟨v, ho⟩)
    | exact segments => exact Or.inr (Or.inl ⟨segments, ho⟩)

/-! ## Full-source verification -/

def partOf (capture : CaptureResult Op δ) (name : String) : CaptureResult Op δ :=
  ⟨copiesOf capture name, [], 0⟩

variable {name : String} {verify : Bool}

omit [DecidableEq δ] in
theorem mem_copiesOf {c : RecordedCopy Op δ} :
    c ∈ copiesOf capture name ↔ c ∈ capture.copies ∧ c.srcName = name := by
  simp [copiesOf]

omit [DecidableEq δ] in
theorem staged_partOf : Staged sources verify (partOf capture name) name ↔ Staged sources verify capture name := by
  simp only [Staged, partOf, mem_copiesOf, and_imp]
  refine and_congr_right fun _ => exists_congr fun src => and_congr_right fun _ => ?_
  exact ⟨fun h c hc hn => h c hc hn hn, fun h c hc hn _ => h c hc hn⟩

theorem planVerifiedSource_ok
    {source : SourceInfo δ} {part : LogicalTransferPlan Op δ} (hsrc : sources.lookup name = some source)
    (h : planVerifiedSource replay sourceIndices maxSegmentsPerCopy capture buffers name source = .ok part) :
    PlanOf replay sources sourceIndices true (partOf capture name) part ∧
      ∀ f ∈ part.fullPulls, f.srcName = name := by
  unfold planVerifiedSource at h
  simp only at h
  split_ifs at h with hempty hwhole
  · -- no copy, no plan
    cases h
    have hnone : (partOf capture name).copies = [] := isEmpty_iff.1 hempty
    refine ⟨⟨?_, ?_, ?_, ?_, ?_⟩, ?_⟩ <;> simp [hnone]
  · -- a plan without verification, of the table with this source only
    have hplan := planDirect_ok h
    have hstaged : ¬ Staged sources true (partOf capture name) name := by
      rintro ⟨-, src, hsrc', hnot⟩
      cases hsrc.symm.trans hsrc'
      obtain ⟨c, hc, hcw⟩ := any_eq_true.1 hwhole
      rw [hnot c hc (mem_copiesOf.1 hc).2] at hcw
      cases hcw
    have hcopy : ∀ c ∈ (partOf capture name).copies,
        planCopy replay (AList.singleton name source) sourceIndices c =
          planCopy replay sources sourceIndices c := fun c hc => by
      refine planCopy_congr ?_ rfl
      rw [(mem_copiesOf.1 hc).2, hsrc]
      exact lookup_singleton.2 ⟨rfl, rfl⟩
    have hname : ∀ f ∈ part.fullPulls, f.srcName = name := by
      intro f hf
      obtain ⟨src, indices, hfull⟩ := hplan.fullPulls f hf
      exact (lookup_singleton.1 hfull.lookup).1
    refine ⟨⟨fun r => ?_, fun v => ?_, fun f hf => ?_, fun c hc hst => ?_, fun hfb c hc => ?_⟩, hname⟩
    · rw [hplan.mem_segments]
      exact exists_congr fun c => and_congr_right fun hc => by rw [hcopy c hc]
    · rw [hplan.mem_converts]
      exact exists_congr fun c => and_congr_right fun hc => by rw [hcopy c hc]
    · obtain ⟨src, indices, hfull⟩ := hplan.fullPulls f hf
      obtain ⟨hq, rfl⟩ := lookup_singleton.1 hfull.lookup
      refine ⟨source, indices, hq ▸ hsrc, hfull.buffers, hfull.shape, hfull.dtype, hfull.elsize, hfull.copies, ?_⟩
      rcases hfull.segments with ⟨-, hsegments, hexact⟩ | ⟨⟨hfalse, -⟩, -⟩
      · refine Or.inl ⟨hq ▸ hstaged, hsegments, fun c hc => ?_⟩
        rw [← hcopy c (hfull.copies c hc).1]
        exact hexact c hc
      · cases hfalse
    · rw [(mem_copiesOf.1 hc).2] at hst
      exact absurd hst hstaged
    · rw [← hcopy c hc]
      exact hplan.planned hfb c hc
  · -- the whole source, into a buffer of its own
    simp only [bind_eq_ok, found_eq_ok, pure_eq_ok] at h
    obtain ⟨indices, hindices, reads, hreads, rfl⟩ := h
    have hstaged : Staged sources true (partOf capture name) name :=
      ⟨rfl, source, hsrc, fun c hc _ => by simpa using mt (fun h => any_eq_true.2 ⟨c, hc, h⟩) hwhole⟩
    have hpulled : ∀ c ∈ copiesOf capture name, ∃ f ∈ [(⟨name, source.globalShape, source.dtype, source.elsize,
        reads, copiesOf capture name⟩ : FullPullSource Op δ)], c ∈ f.copies :=
      fun c hc => ⟨_, mem_singleton_self _, hc⟩
    refine ⟨⟨fun r => ?_, fun v => ?_, fun f hf => ?_, fun c hc _ => hpulled c hc,
      fun _ c hc => Or.inl (hpulled c hc)⟩, fun f hf => ?_⟩
    · simp only [not_mem_nil, false_iff]
      rintro ⟨c, hc, _, -, hnot, -⟩
      exact hnot (hpulled c hc)
    · simp only [not_mem_nil, false_iff]
      rintro ⟨c, hc, -, hnot⟩
      exact hnot (hpulled c hc)
    · cases mem_singleton.1 hf
      exact ⟨source, indices, hsrc, hindices, rfl, rfl, rfl, fun c hc => ⟨hc, (mem_copiesOf.1 hc).2⟩,
        Or.inr ⟨hstaged, hreads⟩⟩
    · cases mem_singleton.1 hf
      rfl

theorem planVerified_ok
    (h : planVerified replay sources sourceIndices maxSegmentsPerCopy capture buffers = .ok plan) :
    PlanOf replay sources sourceIndices true capture plan := by
  simp only [planVerified, bind_eq_ok, pure_eq_ok] at h
  obtain ⟨parts, hparts, rfl⟩ := h
  -- the parts, by their source
  have hpart : ∀ part, part ∈ parts ↔ ∃ name source, sources.lookup name = some source ∧
      planVerifiedSource replay sourceIndices maxSegmentsPerCopy capture buffers name source = .ok part := by
    intro part
    rw [mem_of_mapM hparts, exists_entries]
  have hall : ∀ name source, sources.lookup name = some source → ∃ part ∈ parts,
      planVerifiedSource replay sourceIndices maxSegmentsPerCopy capture buffers name source = .ok part := by
    intro name source hsrc
    exact exists_of_mem_right (mapM_eq_ok.1 hparts).flip (AList.mem_lookup_iff.1 hsrc)
  have hfull : ∀ part ∈ parts, ∀ f ∈ part.fullPulls, f ∈ parts.flatMap (·.fullPulls) :=
    fun part hp f hf => mem_flatMap.2 ⟨part, hp, hf⟩
  -- a copy is replayed in the plan iff it is in the part of its source
  have hpulled : ∀ name source part, sources.lookup name = some source → part ∈ parts →
      planVerifiedSource replay sourceIndices maxSegmentsPerCopy capture buffers name source = .ok part →
      ∀ c, c.srcName = name → ((∃ f ∈ parts.flatMap (·.fullPulls), c ∈ f.copies) ↔ Pulled part c) := by
    intro name source part hsrc hp hok c hc
    constructor
    · rintro ⟨f, hf, hcf⟩
      obtain ⟨part', hp', hf⟩ := mem_flatMap.1 hf
      obtain ⟨name', _, hsrc', hok'⟩ := (hpart part').1 hp'
      obtain ⟨hplan', hname'⟩ := planVerifiedSource_ok hsrc' hok'
      obtain ⟨src, indices, hfull⟩ := hplan'.fullPulls f hf
      obtain rfl : name = name' := by rw [← hc, (hfull.copies c hcf).2, hname' f hf]
      cases hsrc.symm.trans hsrc'
      cases hok.symm.trans hok'
      exact ⟨f, hf, hcf⟩
    · rintro ⟨f, hf, hcf⟩
      exact ⟨f, hfull part hp f hf, hcf⟩
  refine ⟨fun r => ?_, fun v => ?_, fun f hf => ?_, fun c hc hst => ?_, fun hfb c hc => ?_⟩
  · simp only [mem_flatMap]
    constructor
    · rintro ⟨part, hp, hr⟩
      obtain ⟨name, source, hsrc, hok⟩ := (hpart part).1 hp
      obtain ⟨c, hc, segments, hex, hnot, hr⟩ := ((planVerifiedSource_ok hsrc hok).1.mem_segments r).1 hr
      obtain ⟨hc, hname⟩ := mem_copiesOf.1 hc
      exact ⟨c, hc, segments, hex, mt (hpulled name source part hsrc hp hok c hname).1 hnot, hr⟩
    · rintro ⟨c, hc, segments, hex, hnot, hr⟩
      obtain ⟨source, -, hsrc, -⟩ := planCopy_exact.1 hex
      obtain ⟨part, hp, hok⟩ := hall _ source hsrc
      refine ⟨part, hp, ((planVerifiedSource_ok hsrc hok).1.mem_segments r).2 ⟨c, mem_copiesOf.2 ⟨hc, rfl⟩,
        segments, hex, mt (hpulled _ source part hsrc hp hok c rfl).2 hnot, hr⟩⟩
  · simp only [mem_flatMap]
    constructor
    · rintro ⟨part, hp, hv⟩
      obtain ⟨name, source, hsrc, hok⟩ := (hpart part).1 hp
      obtain ⟨c, hc, hconv, hnot⟩ := ((planVerifiedSource_ok hsrc hok).1.mem_converts v).1 hv
      obtain ⟨hc, hname⟩ := mem_copiesOf.1 hc
      exact ⟨c, hc, hconv, mt (hpulled name source part hsrc hp hok c hname).1 hnot⟩
    · rintro ⟨c, hc, hconv, hnot⟩
      obtain ⟨source, -, -, hsrc, -⟩ := planCopy_convert.1 hconv
      obtain ⟨part, hp, hok⟩ := hall _ source hsrc
      exact ⟨part, hp, ((planVerifiedSource_ok hsrc hok).1.mem_converts v).2 ⟨c, mem_copiesOf.2 ⟨hc, rfl⟩,
        hconv, mt (hpulled _ source part hsrc hp hok c rfl).2 hnot⟩⟩
  · obtain ⟨part, hp, hf⟩ := mem_flatMap.1 hf
    obtain ⟨name, source, hsrc, hok⟩ := (hpart part).1 hp
    obtain ⟨hplan, hname⟩ := planVerifiedSource_ok hsrc hok
    obtain ⟨src, indices, hfull⟩ := hplan.fullPulls f hf
    obtain rfl := hname f hf
    refine ⟨src, indices, hfull.lookup, hfull.buffers, hfull.shape, hfull.dtype, hfull.elsize, fun c hc => ?_, ?_⟩
    · exact mem_copiesOf.1 (hfull.copies c hc).1
    · simpa only [staged_partOf] using hfull.segments
  · obtain ⟨-, source, hsrc, -⟩ := id hst
    obtain ⟨part, hp, hok⟩ := hall _ source hsrc
    exact (hpulled _ source part hsrc hp hok c rfl).2
      ((planVerifiedSource_ok hsrc hok).1.staged c (mem_copiesOf.2 ⟨hc, rfl⟩) (staged_partOf.2 hst))
  · -- the source is in the table, or it would be missing
    have hmem : ∀ q, q ∈ parts.flatMap (·.fallback) ∨
        q ∈ (distinct (capture.copies.map RecordedCopy.srcName)).filter (· ∉ sources) → False := by
      intro q hq
      have hfold := ((foldl_mark (parts.flatMap (·.fallback) ++ (distinct (capture.copies.map
        RecordedCopy.srcName)).filter (· ∉ sources)) (distinct capture.unsupported)).1 q).2
          (Or.inr (mem_append.2 hq))
      rw [show foldl mark _ _ = [] from hfb] at hfold
      cases hfold
    have hin : c.srcName ∈ sources := by
      by_contra hnot
      exact hmem c.srcName (Or.inr (mem_filter.2
        ⟨mem_distinct.2 (mem_map_of_mem hc), by simpa using hnot⟩))
    obtain ⟨source, hsrc⟩ := mem_iff_lookup.1 hin
    obtain ⟨part, hp, hok⟩ := hall _ source hsrc
    have hpfb : part.fallback = [] := eq_nil_iff_forall_not_mem.2 fun q hq =>
      hmem q (Or.inl (mem_flatMap.2 ⟨part, hp, hq⟩))
    rcases (planVerifiedSource_ok hsrc hok).1.planned hpfb c (mem_copiesOf.2 ⟨hc, rfl⟩) with hpl | hrest
    · exact Or.inl ((hpulled _ source part hsrc hp hok c rfl).2 hpl)
    · exact Or.inr hrest

section
variable (h : planWith replay sources sourceIndices maxSegmentsPerCopy capture buffers verify = .ok plan)
include h

/-- **Every plan** is made of the reads of its copies. -/
theorem planWith_ok : PlanOf replay sources sourceIndices verify capture plan := by
  simp only [planWith, bind_eq_ok, ensure_eq_ok, exists_const] at h
  obtain ⟨-, h⟩ := h
  cases verify with
  | true => exact planVerified_ok h
  | false => exact planDirect_ok h

theorem planWith_sourceBuffers : plan.sourceBuffers = buffers := by
  simp only [planWith, bind_eq_ok, ensure_eq_ok, exists_const] at h
  obtain ⟨-, h⟩ := h
  cases verify with
  | true =>
    simp only [if_true, planVerified, bind_eq_ok, pure_eq_ok] at h
    obtain ⟨_, -, rfl⟩ := h
    rfl
  | false =>
    simp only [Bool.false_eq_true, if_false, planDirect, bind_eq_ok, pure_eq_ok] at h
    obtain ⟨d, -, _, -, rfl⟩ := h
    rfl

end

end

end ModelExpress.Reshard
