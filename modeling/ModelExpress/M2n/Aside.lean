/-
  ModelExpress NCCL M2N refit — what the methods of a generator do to its round.
-/
import ModelExpress.M2n.Frame
import ModelExpress.M2n.Round

namespace ModelExpress.M2n

open Effects

/-- No call by which a round is told, and no field of a round. -/
def aside : Client → Client → Prop :=
  Footprint Act.Aside fun s s' => s'.trace = s.trace ∧ s'.round = s.round

/-- No installation, no success report and no change of the depth. -/
def quiet : Client → Client → Prop :=
  Footprint Act.Quiet fun s s' => s'.trace = s.trace ∧ s'.pipelineDepth = s.pipelineDepth

/-- No success report and no change of the depth. -/
def unreported : Client → Client → Prop :=
  Footprint (fun act => ∀ operation, act ≠ .report operation true)
    fun s s' => s'.trace = s.trace ∧ s'.pipelineDepth = s.pipelineDepth

theorem Act.Idle.aside {act : Act} (h : act.Idle) : act.Aside := by
  cases act <;> trivial

end ModelExpress.M2n

namespace Effects.Within

open ModelExpress.M2n

variable {α : Type} {x : Refit α}

end Effects.Within

namespace ModelExpress.M2n

open Effects

section
variable (world : World) (config : Config) {act : Act}

variable (groupId : String)

variable (group : ℕ)

/-- No round has been opened, nor an operation bound. -/
structure Fresh (s : Client) : Prop where
  round : s.round = (false, false, none, none, [], 1)
  aside : ∀ e ∈ s.trace, e.act.Aside

theorem fresh_framed : Framed aside Fresh := by
  refine framed_footprint (fun s act ok hact h => ?_) fun s s' hs h => ?_
  · refine ⟨h.round, List.forall_mem_append.2 ⟨h.aside, fun e he => ?_⟩⟩
    obtain rfl := List.mem_singleton.1 he
    exact hact
  · refine ⟨hs.2.trans h.round, ?_⟩
    rw [hs.1]
    exact h.aside

end

end ModelExpress.M2n

namespace Effects.Within

open ModelExpress.M2n

theorem fresh {α : Type} {x : Refit α} (hx : Within aside x) : Keeps Fresh (fun _ => Fresh) x := hx _ fresh_framed

end Effects.Within

namespace ModelExpress.M2n

open Effects

section
variable (world : World) (config : Config)

end

end ModelExpress.M2n
