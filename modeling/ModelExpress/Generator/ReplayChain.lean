/-
  ModelExpress generator — the chain of versions that leads to a target
  (`inference/version_chain.py`).

  Versions are fetched by their revisions, from the target backwards; a fetch may fail.
-/
import Mathlib.Data.List.Chain
import ModelExpress.Lib.Checks
import ModelExpress.Refit.Types

namespace ModelExpress.Generator

open Checks List
open Refit (WeightPayloadFormat)

structure WeightVersion where
  versionId : String
  payloadFormat : WeightPayloadFormat
  layoutSignature : String
  baseVersionId : Option String
  objectStorage : Option String
  deriving DecidableEq

inductive ChainError where
  | cycle
  | exceedsMaximum
  | notFetched
  /-- A fetch failed on the way to the serving version. -/
  | notServing
  | noSource
  | layoutMismatch
  | fullWithBase
  | unsupported (format : WeightPayloadFormat)
  | missingBase
  deriving DecidableEq

structure Walk where
  /-- `reverse_chain`, from its end. -/
  chain : List WeightVersion
  seen : List String
  revisionId : String
  layoutSignature : Option String

section
variable (fetch : String → Option WeightVersion) (target : String) (stop : Option String)

/-- The revision to go on with from a version, or `none` at the end of the chain. -/
def follow (version : WeightVersion) : Except ChainError (Option String) := do
  if stop = some version.versionId then return none
  if version.payloadFormat = .fullHfCheckpoint then
    ensure (version.baseVersionId = none) .fullWithBase
    return none
  ensure (version.payloadFormat = .xorDelta) (.unsupported version.payloadFormat)
  let base ← found version.baseVersionId .missingBase
  return some base

def visit (w : Walk) : Except ChainError (WeightVersion × Option String) := do
  let version ← found (fetch w.revisionId) (if stop.isSome ∧ w.revisionId ≠ target then .notServing else .notFetched)
  ensure version.objectStorage.isSome .noSource
  ensure (version.layoutSignature ≠ "" → ∀ s ∈ w.layoutSignature, version.layoutSignature = s) .layoutMismatch
  let next ← follow stop version
  return (version, next)

def Walk.extend (w : Walk) (version : WeightVersion) (base : String) : Walk where
  chain := version :: w.chain
  seen := w.revisionId :: w.seen
  revisionId := base
  layoutSignature := w.layoutSignature.or (if version.layoutSignature = "" then none else some version.layoutSignature)

/-- The loop.  `remaining` is by how much the chain is shorter than its maximum.  The revisions that were fetched are
    returned too, and with an error the one at which it is raised. -/
def walk (remaining : ℕ) (w : Walk) : List String × Except (ChainError × String) (List WeightVersion) :=
  if w.chain ≠ [] ∧ stop = some w.revisionId then (w.seen, .ok w.chain)
  else if w.revisionId ∈ w.seen then (w.seen, .error (.cycle, w.revisionId))
  else
    match remaining with
    | 0 => (w.seen, .error (.exceedsMaximum, w.revisionId))
    | remaining + 1 =>
      match visit fetch target stop w with
      | .error e => (w.revisionId :: w.seen, .error (e, w.revisionId))
      | .ok (version, none) => (w.revisionId :: w.seen, .ok (version :: w.chain))
      | .ok (version, some base) => walk remaining (w.extend version base)

def resolveReplayChain (maxChainLength : ℤ) : List String × Except (ChainError × String) (List WeightVersion) :=
  walk fetch target stop maxChainLength.toNat ⟨[], [], target, none⟩

/-! ## The chains -/

def WeightVersion.IsFull (v : WeightVersion) : Prop := v.payloadFormat = .fullHfCheckpoint ∧ v.baseVersionId = none

def WeightVersion.IsDelta (v : WeightVersion) (base : String) : Prop :=
  v.payloadFormat = .xorDelta ∧ v.baseVersionId = some base

/-- A version that a chain may begin with. -/
def Begins (v : WeightVersion) : Prop :=
  v.IsFull ∨ (∃ base, stop = some base ∧ v.IsDelta base) ∨ (v.versionId = target ∧ stop = some target)

/-- Versions as they are fetched, each a delta on the one before it. -/
structure Deltas (chain : List WeightVersion) : Prop where
  fetched : ∀ v ∈ chain, fetch v.versionId = some v
  linked : chain.IsChain fun base v => v.IsDelta base.versionId
  nodup : (chain.map (·.versionId)).Nodup

structure IsReplay (chain : List WeightVersion) : Prop extends Deltas fetch chain where
  last : chain.getLast?.map (·.versionId) = some target
  first : ∀ v ∈ chain.head?, Begins target stop v
  layout : ∃ s, ∀ v ∈ chain, v.layoutSignature ≠ "" → v.layoutSignature = s

/-! ## The walk -/

structure Walk.Sound (w : Walk) : Prop extends Deltas fetch w.chain where
  last : (w.chain.getLast?.map (·.versionId)).getD w.revisionId = target
  seen : w.seen = w.chain.map (·.versionId)
  layout : ∀ v ∈ w.chain, v.layoutSignature ≠ "" → w.layoutSignature = some v.layoutSignature

/-- The walk is on a chain that begins with `pre`, with the layout `layout`. -/
structure Walk.Along (w : Walk) (layout : String) (pre : List WeightVersion) : Prop where
  replay : IsReplay fetch target stop (pre ++ w.chain)
  source : ∀ v ∈ pre, v.objectStorage.isSome = true ∧ (v.layoutSignature ≠ "" → v.layoutSignature = layout)
  signature : ∀ s ∈ w.layoutSignature, s = layout
  next : ∀ v ∈ pre.getLast?, v.versionId = w.revisionId
  ended : pre = [] → w.chain ≠ [] ∧ stop = some w.revisionId

variable {fetch target stop} {w : Walk} {version : WeightVersion} {next : Option String}

theorem follow_eq_ok : follow stop version = .ok next ↔
    if stop = some version.versionId then next = none
    else version.IsFull ∧ next = none ∨ ∃ base, version.IsDelta base ∧ next = some base := by
  unfold follow WeightVersion.IsFull WeightVersion.IsDelta
  split_ifs <;> simp only [bind_eq_ok, ensure_eq_ok, pure_eq_ok, found_eq_ok, exists_const] <;> grind

theorem visit_eq_ok : visit fetch target stop w = .ok (version, next) ↔
    fetch w.revisionId = some version ∧ version.objectStorage.isSome = true ∧
    (version.layoutSignature ≠ "" → ∀ s ∈ w.layoutSignature, version.layoutSignature = s) ∧
    follow stop version = .ok next := by
  simp only [visit, bind_eq_ok, found_eq_ok, ensure_eq_ok, pure_eq_ok, exists_const, Prod.mk.injEq]
  grind

theorem Walk.Sound.isReplay (hw : w.Sound fetch target) (hne : w.chain ≠ [])
    (hfirst : ∀ v ∈ w.chain.head?, Begins target stop v) : IsReplay fetch target stop w.chain where
  toDeltas := hw.toDeltas
  last := by
    have hlast := hw.last
    rw [getLast?_eq_some_getLast hne] at hlast ⊢
    exact congrArg some hlast
  first := hfirst
  layout := ⟨w.layoutSignature.getD "", fun v hv hne => by simp [hw.layout v hv hne]⟩

/-- On a chain, the next version passes its checks. -/
theorem Walk.Along.passes {layout : String} {pre : List WeightVersion} (h : w.Along fetch target stop layout pre)
    (hstop : ¬ (w.chain ≠ [] ∧ stop = some w.revisionId)) :
    w.revisionId ∉ w.chain.map (·.versionId) ∧ ∃ version next, visit fetch target stop w = .ok (version, next) ∧
      ∀ base ∈ next, ∃ pre', pre.length = pre'.length + 1 ∧ (w.extend version base).Along fetch target stop layout pre' := by
  obtain ⟨pre, version, rfl⟩ := (eq_nil_or_concat' pre).resolve_left fun hnil => hstop (h.ended hnil)
  have hid : version.versionId = w.revisionId := h.next version (by simp)
  have hreplay : IsReplay fetch target stop (pre ++ version :: w.chain) := by simpa using h.replay
  obtain ⟨hsource, hlayout⟩ := h.source version (by simp)
  refine ⟨?_, version, ?_⟩
  · have hnodup := hreplay.nodup
    rw [map_append, map_cons, nodup_append, nodup_cons, hid] at hnodup
    exact hnodup.2.1.1
  have hfollow : stop = some version.versionId ∨ version.IsFull ∨ ∃ base, version.IsDelta base ∧
      (∀ v ∈ pre.getLast?, v.versionId = base) ∧ (pre = [] → stop = some base) := by
    rcases eq_nil_or_concat' pre with rfl | ⟨pre', b, rfl⟩
    · rcases hreplay.first version (by simp) with hfull | ⟨base, hbase, hdelta⟩ | ⟨htarget, hserving⟩
      · exact Or.inr (Or.inl hfull)
      · exact Or.inr (Or.inr ⟨base, hdelta, by simp [hbase]⟩)
      · exact Or.inl (htarget ▸ hserving)
    · exact Or.inr (Or.inr ⟨_, (isChain_append.1 hreplay.linked).2.2 b (by simp) version (by simp), by simp⟩)
  have hvisit : ∀ next, follow stop version = .ok next → visit fetch target stop w = .ok (version, next) := fun next hnext =>
    visit_eq_ok.2 ⟨hid ▸ hreplay.fetched version (by simp), hsource,
      fun hne s hs => (hlayout hne).trans (h.signature s hs).symm, hnext⟩
  by_cases hserving : stop = some version.versionId
  · exact ⟨none, hvisit _ (follow_eq_ok.2 (by simp [hserving])), by simp⟩
  rcases hfollow.resolve_left hserving with hfull | ⟨base, hdelta, hnext, hended⟩
  · exact ⟨none, hvisit _ (follow_eq_ok.2 (by simp [hserving, hfull])), by simp⟩
  · refine ⟨some base, hvisit _ (follow_eq_ok.2 (by simp [hserving, hdelta])), ?_⟩
    rintro _ ⟨⟩
    refine ⟨pre, by simp, hreplay, fun v hv => h.source v (by simp [hv]), fun s hs => ?_, hnext,
      fun hpre => ⟨by simp [extend], hended hpre⟩⟩
    rcases Option.or_eq_some_iff.1 hs with hs | ⟨-, hs⟩
    · exact h.signature s hs
    · split_ifs at hs with hne
      cases hs
      exact hlayout hne

section
variable (hids : ∀ id v, fetch id = some v → v.versionId = id)
include hids

theorem Walk.Sound.extend (hw : w.Sound fetch target)
    (hleads : ∀ v ∈ w.chain.head?, v.IsDelta w.revisionId) (hnew : w.revisionId ∉ w.seen)
    (hvisit : visit fetch target stop w = .ok (version, next)) (base : String) :
    (w.extend version base).Sound fetch target := by
  obtain ⟨hfetch, -, hlayout, -⟩ := visit_eq_ok.1 hvisit
  have hid := hids _ _ hfetch
  refine ⟨⟨?_, ?_, ?_⟩, ?_, ?_, ?_⟩
  · exact forall_mem_cons.2 ⟨hid ▸ hfetch, hw.fetched⟩
  · exact isChain_cons.2 ⟨hid ▸ hleads, hw.linked⟩
  · rw [Walk.extend, map_cons, nodup_cons, hid, ← hw.seen]
    exact ⟨hnew, hw.seen ▸ hw.nodup⟩
  · rw [← hw.last, Walk.extend, getLast?_cons]
    cases w.chain.getLast? <;> simp [hid]
  · rw [Walk.extend, map_cons, hid, hw.seen]
  · refine forall_mem_cons.2 ⟨fun hne => ?_, fun v hv hne => by simp [Walk.extend, hw.layout v hv hne]⟩
    cases hs : w.layoutSignature with
    | none => simp [Walk.extend, hs, hne]
    | some s => simp [Walk.extend, hs, hlayout hne s hs]

/-- The loop fetches at most as often as the chain may still grow; what it returns is a replay, and on a chain that is
    short enough it returns. -/
theorem walk_spec {remaining : ℕ} (hw : w.Sound fetch target)
    (hleads : ∀ v ∈ w.chain.head?, v.IsDelta w.revisionId) :
    (walk fetch target stop remaining w).1.length ≤ w.seen.length + remaining ∧
      (∀ chain, (walk fetch target stop remaining w).2 = .ok chain → IsReplay fetch target stop chain) ∧
      ∀ layout pre, w.Along fetch target stop layout pre → pre.length ≤ remaining →
        ∃ chain, (walk fetch target stop remaining w).2 = .ok chain := by
  fun_induction walk fetch target stop remaining w with
  | case1 _ _ hstop =>
    refine ⟨Nat.le_add_right .., ?_, fun _ _ _ _ => ⟨_, rfl⟩⟩
    rintro _ ⟨⟩
    exact hw.isReplay hstop.1 fun v hv => Or.inr (Or.inl ⟨_, hstop.2, hleads v hv⟩)
  | case2 _ _ hstop hseen =>
    exact ⟨Nat.le_add_right .., by simp, fun _ _ h _ => absurd (hw.seen ▸ hseen) (h.passes hstop).1⟩
  | case3 _ hstop =>
    refine ⟨le_rfl, by simp, fun layout pre h hlen => ?_⟩
    exact absurd (h.ended (length_eq_zero_iff.1 (Nat.le_zero.1 hlen))) hstop
  | case4 w hstop hseen n e hvisit =>
    refine ⟨by simp, by simp, fun layout pre h _ => ?_⟩
    obtain ⟨-, version, next, hok, -⟩ := h.passes hstop
    cases hvisit.symm.trans hok
  | case5 w hstop hseen n version hvisit =>
    refine ⟨by simp, ?_, fun _ _ _ _ => ⟨_, rfl⟩⟩
    rintro _ ⟨⟩
    refine (hw.extend hids hleads hseen hvisit "").isReplay (by simp [Walk.extend]) ?_
    rintro _ ⟨⟩
    obtain ⟨hfetch, -, -, hfollow⟩ := visit_eq_ok.1 hvisit
    have hid := hids _ _ hfetch
    rw [follow_eq_ok] at hfollow
    split_ifs at hfollow with hserving
    · -- the serving version ends a walk before it is fetched, unless it is the target
      have hnil : w.chain = [] := by_contra fun hne => hstop ⟨hne, hid ▸ hserving⟩
      have hlast := hw.last
      rw [hnil, ← hid] at hlast
      exact Or.inr (Or.inr ⟨hlast, hlast ▸ hserving⟩)
    · exact Or.inl (hfollow.resolve_right (by simp)).1
  | case6 w hstop hseen n version base hvisit ih =>
    have hdelta : version.IsDelta base := by
      obtain ⟨-, -, -, hfollow⟩ := visit_eq_ok.1 hvisit
      rw [follow_eq_ok] at hfollow
      split at hfollow
      · cases hfollow
      · obtain ⟨_, hdelta, ⟨⟩⟩ := hfollow.resolve_left (by simp)
        exact hdelta
    obtain ⟨hlength, hsound, hreturns⟩ := ih (hw.extend hids hleads hseen hvisit base) (by rintro _ ⟨⟩; exact hdelta)
    refine ⟨hlength.trans (by simp [Walk.extend]; omega), hsound, fun layout pre h hlen => ?_⟩
    obtain ⟨-, _, _, hok, hnext⟩ := h.passes hstop
    cases hvisit.symm.trans hok
    obtain ⟨pre', hpre, h'⟩ := hnext base rfl
    exact hreturns layout pre' h' (by omega)

/-- **Resolving a replay chain** fetches at most `max_chain_length` versions; a chain that it returns leads from a full
    checkpoint or from the serving version to the target, and it returns one if there is one of that length. -/
theorem replay_chain_resolved (maxChainLength : ℤ) :
    (resolveReplayChain fetch target stop maxChainLength).1.length ≤ maxChainLength.toNat ∧
      (∀ chain, (resolveReplayChain fetch target stop maxChainLength).2 = .ok chain → IsReplay fetch target stop chain) ∧
      ∀ chain, IsReplay fetch target stop chain → (∀ v ∈ chain, v.objectStorage.isSome = true) →
        (chain.length : ℤ) ≤ maxChainLength → ∃ chain, (resolveReplayChain fetch target stop maxChainLength).2 = .ok chain := by
  obtain ⟨hlength, hsound, hreturns⟩ := @walk_spec fetch target stop ⟨[], [], target, none⟩ hids maxChainLength.toNat
    ⟨⟨by simp, by simp, by simp⟩, rfl, rfl, by simp⟩ (by simp)
  refine ⟨by simpa [resolveReplayChain] using hlength, hsound, fun chain hchain hsource hlen => ?_⟩
  obtain ⟨s, hs⟩ := hchain.layout
  refine hreturns s chain ⟨by simpa using hchain, fun v hv => ⟨hsource v hv, hs v hv⟩, by simp, ?_, ?_⟩ (by omega)
  · intro v hv
    simpa [Option.mem_def.1 hv] using hchain.last
  · rintro rfl
    exact absurd hchain.last (by simp)

end

end

def versions : List WeightVersion :=
  [⟨"full", .fullHfCheckpoint, "tp2", none, some "s3://full"⟩, ⟨"d1", .xorDelta, "", some "full", some "s3://d1"⟩,
    ⟨"d2", .xorDelta, "tp2", some "d1", some "s3://d2"⟩]

/-- From the full checkpoint, and from the version that is served. -/
theorem replay_chain_resolved_deltas : let fetch := fun id => versions.find? (·.versionId = id)
    IsReplay fetch "d2" none versions ∧ IsReplay fetch "d2" (some "full") versions.tail := by
  have hids : ∀ id v, versions.find? (·.versionId = id) = some v → v.versionId = id :=
    fun id v h => by simpa using find?_some h
  exact ⟨(replay_chain_resolved hids 3).2.1 _ (by decide), (replay_chain_resolved hids 2).2.1 _ (by decide)⟩

end ModelExpress.Generator
