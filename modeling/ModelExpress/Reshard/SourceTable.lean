/-
  ModelExpress reshard planner — the table of the source buffers.
-/
import ModelExpress.Reshard.TransferPlan

namespace ModelExpress.Reshard

open Checks Buckets List

section
variable {Op δ : Type} {sources : Sources δ} {name : String} {buffers : List SourceBuffer}

def positions (buffers : List SourceBuffer) (name : String) : List ℕ :=
  (buffers.zipIdx.filter fun b => b.1.srcName = name).map Prod.snd

theorem positions_append {new : List SourceBuffer} (h : ∀ b ∈ new, b.srcName = name)
    (q : String) : positions (buffers ++ new) q =
      positions buffers q ++ if q = name then List.range' buffers.length new.length else [] := by
  have hmem : ∀ b ∈ new.zipIdx buffers.length, b.1.srcName = name :=
    fun b hb => h _ (fst_mem_of_mem_zipIdx hb)
  rw [positions, zipIdx_append, Nat.zero_add, filter_append, map_append]
  congr 1
  split_ifs with hq
  · rw [filter_eq_self.2 fun b hb => by simp [hmem b hb, hq], zipIdx_map_snd]
  · rw [filter_eq_nil_iff.2 fun b hb => by simpa [hmem b hb] using Ne.symm hq, map_nil]

/-- What the loop has entered for the names seen. -/
structure Tabled (seen : List String) (table : SourceTable) : Prop where
  lookup_eq_none : ∀ q, q ∉ seen → table.indices.lookup q = none
  positions_eq : ∀ q, positions table.buffers q = (table.indices.lookup q).getD []

variable {sourceSlots : Option (String → Option String)}

theorem Tabled.add {seen : List String}
    {table table' : SourceTable} (h : Tabled seen table) (hname : name ∉ seen)
    (hadd : SourceTable.add sources sourceSlots table name = .ok table') : Tabled (seen ++ [name]) table' := by
  unfold SourceTable.add at hadd
  cases hsrc : sources.lookup name with
  | none =>
    rw [hsrc] at hadd
    cases hadd
    exact ⟨fun q hq => h.lookup_eq_none q fun hs => hq (mem_append_left _ hs), h.positions_eq⟩
  | some source =>
    simp only [hsrc, bind_eq_ok, pure_eq_ok] at hadd
    obtain ⟨new, hnew, rfl⟩ := hadd
    have hlen : new.length = source.shards.length := (mapM_eq_ok.1 hnew).length_eq.symm
    have hall : ∀ b ∈ new, b.srcName = name := by
      intro b hb
      obtain ⟨sh, -, hb⟩ := (mem_of_mapM hnew).1 hb
      simp only [bind_eq_ok, pure_eq_ok] at hb
      obtain ⟨slot, -, rfl⟩ := hb
      rfl
    have hlookup : ∀ q, (table.indices ++ [(name, range' table.buffers.length source.shards.length)]).lookup q =
        (table.indices.lookup q).or
          (if q = name then some (range' table.buffers.length source.shards.length) else none) := by
      intro q
      rw [lookup_append]
      by_cases hq : q = name
      · simp [hq]
      · simp [lookup_cons, hq, beq_false_of_ne hq]
    constructor
    · intro q hq
      rw [hlookup, h.lookup_eq_none q fun hs => hq (mem_append_left _ hs), if_neg fun heq => hq (by simp [heq])]
      rfl
    · intro q
      rw [positions_append hall, h.positions_eq, hlookup, hlen]
      by_cases hq : q = name
      · rw [hq, h.lookup_eq_none name hname, if_pos rfl, if_pos rfl]
        rfl
      · rw [if_neg hq, if_neg hq, append_nil, Option.or_none]

theorem sourceTable_positions {capture : CaptureResult Op δ}
    {table : SourceTable} (h : sourceTable sources sourceSlots capture = .ok table) (q : String) :
    positions table.buffers q = (table.indices.lookup q).getD [] := by
  suffices hgen : ∀ (names seen : List String) (t₀ : SourceTable), Tabled seen t₀ →
      (seen ++ names).Nodup → names.foldlM (SourceTable.add sources sourceSlots) t₀ = .ok table →
      Tabled (seen ++ names) table by
    refine (hgen (distinct (capture.copies.map RecordedCopy.srcName)) [] ⟨[], []⟩ ⟨?_, ?_⟩
      (nodup_distinct _) h).positions_eq q
    · exact fun _ _ => rfl
    · exact fun _ => rfl
  intro names
  induction names with
  | nil =>
    intro seen t₀ ht _ h
    cases h
    simpa using ht
  | cons name names ih =>
    intro seen t₀ ht hnodup h
    rw [foldlM_cons, bind_eq_ok] at h
    obtain ⟨t₁, ht₁, h⟩ := h
    have hname : name ∉ seen := fun hs => (nodup_append.1 hnodup).2.2 name hs name (mem_cons_self ..) rfl
    have hnext := ih (seen ++ [name]) t₁ (ht.add hname ht₁) (by simpa using hnodup) h
    simpa using hnext

end

end ModelExpress.Reshard
