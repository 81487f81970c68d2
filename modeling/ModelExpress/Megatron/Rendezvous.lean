/-
  ModelExpress reshard planner — merging the shard tables of the publishers (`rendezvous.py`).
-/
import Mathlib.Data.List.AList
import ModelExpress.Lib.Buckets
import ModelExpress.Megatron.Aliases

namespace ModelExpress.Megatron

open Checks Buckets List Option

def PublishedShard.geometry (s : PublishedShard) : List ℕ × List ℕ := (s.shardOffset, s.shape)

/-- `per_geometry.setdefault(geometry, shard)` -/
def keepFirst (kept : List PublishedShard) (s : PublishedShard) : List PublishedShard :=
  if s.geometry ∈ kept.map (·.geometry) then kept else kept ++ [s]

section
variable {l : List PublishedTensor}

/-- The merged tensor of one name stands for the entries of this name. -/
structure Stands (l : List PublishedTensor) (o : Option PublishedTensor) : Prop where
  shards : o.elim [] (·.shards) = (l.flatMap (·.shards)).foldl keepFirst []
  agree : ∀ t ∈ l, ∃ m ∈ o, t.fullShape = m.fullShape ∧ t.dtype = m.dtype
  origin : ∀ m ∈ o, ∃ t ∈ l, t.dtype = m.dtype ∧ t.elsize = m.elsize

theorem Stands.snoc {o : Option PublishedTensor} {t : PublishedTensor} (h : Stands l o)
    (hagree : (o.getD { t with shards := [] }).fullShape = t.fullShape ∧ (o.getD { t with shards := [] }).dtype = t.dtype) :
    Stands (l ++ [t]) (some { o.getD { t with shards := [] } with
      shards := t.shards.foldl keepFirst (o.getD { t with shards := [] }).shards }) := by
  have hshards : (o.getD { t with shards := [] }).shards = o.elim [] (·.shards) := by cases o <;> rfl
  refine ⟨?_, ?_, ?_⟩
  · simp [hshards, h.shards, foldl_append]
  · refine forall_mem_append.2 ⟨fun t' ht' => ?_, forall_mem_singleton.2 ?_⟩
    · obtain ⟨m, rfl, hm⟩ := h.agree t' ht'
      exact ⟨_, rfl, hm⟩
    · exact ⟨_, rfl, hagree.1.symm, hagree.2.symm⟩
  · rintro _ ⟨⟩
    cases o with
    | none => exact ⟨t, by simp, rfl, rfl⟩
    | some m =>
      obtain ⟨t', ht', hm⟩ := h.origin m rfl
      exact ⟨t', mem_append_left _ ht', hm⟩

end

def halfTensor (agentName : String) (elsize offset : ℕ) : PublishedTensor :=
  ⟨"w", "torch.bfloat16", elsize, [4], [⟨agentName, 0, 4096, [offset], [2]⟩]⟩

/-- Two replicas of the first half, and the second half. -/
def replicated : List (List PublishedTensor) := [[halfTensor "a" 2 0, halfTensor "b" 2 0], [halfTensor "c" 2 2]]

end ModelExpress.Megatron
