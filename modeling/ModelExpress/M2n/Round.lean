/-
  ModelExpress NCCL M2N refit — what the trace of a generator shows of a round.
-/
import Mathlib.Data.List.DropRight
import ModelExpress.M2n.World

namespace ModelExpress.M2n

open Effects List

/-! ## Events of a round -/

/-- The operation that the event bound, and its version. -/
def Event.binding : Event → Option (String × String)
  | ⟨.bindTransfer operation version, true⟩ => some (operation, version)
  | _ => none

def Act.issuedGroup : Act → Option ℕ
  | .issued group => some group
  | _ => none

def Act.waitedGroup : Act → Option ℕ
  | .wait group => some group
  | _ => none

def Act.installedGroup : Act → Option ℕ
  | .install group => some group
  | _ => none

def Act.namedVersion : Act → Option String
  | .named version => some version
  | _ => none

variable (t : List Event)

def bound : Option (String × String) := (t.filterMap Event.binding).getLast?

/-- The events since an operation was bound last. -/
def currentRound : List Event := t.rtakeWhile fun e => e.binding.isNone

def issues : List ℕ := t.filterMap (·.act.issuedGroup)

def waits : List ℕ := t.filterMap (·.act.waitedGroup)

def installs : List ℕ := t.filterMap (·.act.installedGroup)

def names : List String := t.filterMap (·.act.namedVersion)

/-- Neither an installation nor a success report. -/
def Act.Quiet : Act → Prop
  | .install _ | .report _ true => False
  | _ => True

/-- None of the calls by which a round is told. -/
def Act.Aside : Act → Prop
  | .bindTransfer .. | .issued _ | .wait _ | .install _ | .named _ | .report _ true => False
  | _ => True

/-- A group is installed only after it was waited for. -/
def Landed (e : Event) : Prop := ∀ group, e.act = .install group → ⟨.wait group, true⟩ ∈ t

/-- The round is bound to the operation, at the version that all its calls named; each of the layer groups was issued
    once, waited for once and installed once, in one order; and no call failed but earlier attempts of the report. -/
structure Installed (ids : List ℕ) (operation : String) (t : List Event) : Prop where
  bound : ∃ version, bound t = some (operation, version) ∧ ∀ v ∈ names (currentRound t), v = version
  once : (issues (currentRound t)).Nodup
  every : ∀ group, group ∈ issues (currentRound t) ↔ group ∈ ids
  waited : waits (currentRound t) = issues (currentRound t)
  installed : installs (currentRound t) = issues (currentRound t)
  landed : Throughout Landed (currentRound t)
  ok : ∀ e ∈ currentRound t, e.ok = true ∨ e.act = .report operation true

/-- Success is reported only for a round that is installed. -/
def Reported (ids : List ℕ) (t : List Event) (e : Event) : Prop :=
  ∀ operation, e.act = .report operation true → Installed ids operation t

variable {operation version : String} {group : ℕ}

section
variable {t : List Event} {e : Event} {act : Act}

@[simp] theorem issues_snoc : issues (t ++ [e]) = issues t ++ e.act.issuedGroup.toList := by
  cases h : e.act.issuedGroup <;> simp [issues, h]

@[simp] theorem waits_snoc : waits (t ++ [e]) = waits t ++ e.act.waitedGroup.toList := by
  cases h : e.act.waitedGroup <;> simp [waits, h]

@[simp] theorem installs_snoc : installs (t ++ [e]) = installs t ++ e.act.installedGroup.toList := by
  cases h : e.act.installedGroup <;> simp [installs, h]

@[simp] theorem names_snoc : names (t ++ [e]) = names t ++ e.act.namedVersion.toList := by
  cases h : e.act.namedVersion <;> simp [names, h]

theorem currentRound_snoc (h : e.binding = none) : currentRound (t ++ [e]) = currentRound t ++ [e] :=
  rtakeWhile_concat_pos _ _ _ (by rw [h]; rfl)

theorem bound_snoc (h : e.binding = none) : bound (t ++ [e]) = bound t := by
  simp [bound, h]

section
variable (h : act.Aside)
include h

theorem Act.Aside.quiet : act.Quiet := by
  cases act with
  | install => exact h
  | report _ succeeded =>
    cases succeeded with
    | true => exact h
    | false => trivial
  | _ => trivial

theorem Act.Aside.binding {ok : Bool} : Event.binding ⟨act, ok⟩ = none := by
  cases act <;> first | rfl | exact h.elim

theorem Act.Aside.issued : act.issuedGroup = none := by
  cases act <;> first | rfl | exact h.elim

theorem Act.Aside.waited : act.waitedGroup = none := by
  cases act <;> first | rfl | exact h.elim

theorem Act.Aside.installed : act.installedGroup = none := by
  cases act <;> first | rfl | exact h.elim

theorem Act.Aside.named : act.namedVersion = none := by
  cases act <;> first | rfl | exact h.elim

end

theorem reported_of_ne {ids : List ℕ} (h : ∀ operation, e.act ≠ .report operation true) : Reported ids t e :=
  fun operation heq => absurd heq (h operation)

end

/-! ## Progress of a round -/

/-- The groups issued in the round are those installed and then the queue. -/
structure Flow (t : List Event) (queue : List ℕ) : Prop where
  issued : issues (currentRound t) = installs (currentRound t) ++ queue
  waited : waits (currentRound t) = installs (currentRound t)
  landed : Throughout Landed (currentRound t)

/-- A round in flight; `ran` and `flying` is what the half remembers of it. -/
structure InRound (ids : List ℕ) (operation version : String) (t : List Event) (queue ran flying : List ℕ) : Prop
    extends Flow t queue where
  bound : bound t = some (operation, version)
  named : ∀ v ∈ names (currentRound t), v = version
  ran : ran = issues (currentRound t)
  flying : flying = queue
  nodup : (issues (currentRound t)).Nodup
  known : ∀ group ∈ issues (currentRound t), group ∈ ids
  ok : ∀ e ∈ currentRound t, e.ok = true ∨ e.act = .report operation true

section
variable {ids : List ℕ} {operation version : String} {t : List Event} {queue ran flying : List ℕ} {act : Act} {ok : Bool}

theorem Flow.log (h : Flow t queue) (hb : Event.binding ⟨act, ok⟩ = none) (hi : act.issuedGroup = none)
    (hw : act.waitedGroup = none) (hn : act.installedGroup = none) : Flow (t ++ [⟨act, ok⟩]) queue := by
  constructor <;> rw [currentRound_snoc hb]
  · simp [hi, hn, h.issued]
  · simp [hw, hn, h.waited]
  · refine throughout_snoc.2 ⟨h.landed, fun _ heq => ?_⟩
    cases heq
    cases hn

theorem Flow.aside (h : Flow t queue) (ha : act.Aside) : Flow (t ++ [⟨act, ok⟩]) queue :=
  h.log ha.binding ha.issued ha.waited ha.installed

section
variable (h : InRound ids operation version t queue ran flying)
include h

theorem InRound.log (hb : Event.binding ⟨act, ok⟩ = none)
    (hi : act.issuedGroup = none) (hw : act.waitedGroup = none) (hn : act.installedGroup = none)
    (hv : ∀ v ∈ act.namedVersion, v = version) (hok : ok = true ∨ act = .report operation true) :
    InRound ids operation version (t ++ [⟨act, ok⟩]) queue ran flying where
  toFlow := h.toFlow.log hb hi hw hn
  bound := by rw [bound_snoc hb, h.bound]
  named := by
    rw [currentRound_snoc hb, names_snoc, forall_mem_append]
    exact ⟨h.named, by simpa using hv⟩
  ran := by simp [currentRound_snoc hb, hi, h.ran]
  flying := h.flying
  nodup := by simpa [currentRound_snoc hb, hi] using h.nodup
  known := by simpa [currentRound_snoc hb, hi] using h.known
  ok := by
    rw [currentRound_snoc hb, forall_mem_append]
    exact ⟨h.ok, by simpa using hok⟩

theorem InRound.aside (ha : act.Aside) :
    InRound ids operation version (t ++ [⟨act, true⟩]) queue ran flying :=
  h.log ha.binding ha.issued ha.waited ha.installed (by simp [ha.named]) (.inl rfl)

end

theorem InRound.install (h : InRound ids operation version t (group :: queue) ran flying) :
    InRound ids operation version (t ++ [⟨.wait group, true⟩] ++ [⟨.install group, true⟩]) queue ran
      (flying.erase group) := by
  have hround : currentRound (t ++ [⟨.wait group, true⟩] ++ [⟨.install group, true⟩]) =
      currentRound t ++ [⟨.wait group, true⟩] ++ [⟨.install group, true⟩] := by
    rw [currentRound_snoc rfl, currentRound_snoc rfl]
  have hissues : issues (currentRound t ++ [⟨.wait group, true⟩] ++ [⟨.install group, true⟩]) =
      issues (currentRound t) := by
    rw [issues_snoc, issues_snoc]
    simp [Act.issuedGroup]
  refine { issued := ?_, waited := ?_, landed := ?_, bound := ?_, named := ?_, ran := ?_, flying := ?_, nodup := ?_,
           known := ?_, ok := ?_ }
  · rw [hround, hissues, h.issued, installs_snoc, installs_snoc]
    simp [Act.installedGroup]
  · rw [hround, waits_snoc, waits_snoc, installs_snoc, installs_snoc, h.waited]
    simp [Act.installedGroup, Act.waitedGroup]
  · rw [hround]
    refine throughout_snoc.2 ⟨throughout_snoc.2 ⟨h.landed, fun _ heq => by cases heq⟩, fun _ heq => ?_⟩
    cases heq
    exact mem_append_right _ (mem_singleton_self _)
  · rw [bound_snoc rfl, bound_snoc rfl, h.bound]
  · rw [hround, names_snoc, names_snoc]
    simpa [Act.namedVersion] using h.named
  · rw [hround, hissues, h.ran]
  · rw [h.flying, erase_cons_head]
  · rw [hround, hissues]
    exact h.nodup
  · rw [hround, hissues]
    exact h.known
  · rw [hround, forall_mem_append, forall_mem_append]
    exact ⟨⟨h.ok, by simp⟩, by simp⟩

theorem InRound.installed (h : InRound ids operation version t [] ran flying) (hall : ∀ group ∈ ids, group ∈ ran) :
    Installed ids operation t where
  bound := ⟨version, h.bound, h.named⟩
  once := h.nodup
  every group := ⟨h.known group, fun hid => h.ran ▸ hall group hid⟩
  waited := by rw [h.waited, h.issued, append_nil]
  installed := by rw [h.issued, append_nil]
  landed := h.landed
  ok := h.ok

end

end ModelExpress.M2n
