/-
  Lists that are made of blocks.
-/
import Mathlib.Data.List.Basic
import Mathlib.Data.List.Count

namespace Blocks

open List

variable {ι ε : Type*} {f : ι → List ε} {n i : ℕ} {e : ε}

theorem flatMap_eq_append_cons {l : List ι} {T₁ T₂ : List ε} (h : l.flatMap f = T₁ ++ e :: T₂) :
    ∃ l₁ a l₂ A B, l = l₁ ++ a :: l₂ ∧ f a = A ++ e :: B ∧ T₁ = l₁.flatMap f ++ A ∧ T₂ = B ++ l₂.flatMap f := by
  induction l generalizing T₁ with
  | nil => simp at h
  | cons b l ih =>
    rw [flatMap_cons, append_eq_append_iff] at h
    rcases h with ⟨A, rfl, h⟩ | ⟨B, hb, h⟩
    · obtain ⟨l₁, a, l₂, A', B, rfl, hfa, rfl, rfl⟩ := ih h
      exact ⟨b :: l₁, a, l₂, A', B, rfl, hfa, by rw [flatMap_cons, append_assoc], rfl⟩
    · cases B with
      | nil =>
        have hnil : l.flatMap f = [] ++ e :: T₂ := h.symm
        obtain ⟨l₁, a, l₂, A', B, rfl, hfa, hT, rfl⟩ := ih hnil
        refine ⟨b :: l₁, a, l₂, A', B, rfl, hfa, ?_, rfl⟩
        rw [flatMap_cons, append_assoc, ← hT, hb, append_nil, append_nil]
      | cons e' B =>
        obtain ⟨rfl, rfl⟩ := cons.inj h
        exact ⟨[], b, l, T₁, B, rfl, hb, rfl, rfl⟩

theorem count_flatMap_eq_one [DecidableEq ε] {l₁ l₂ : List ι} {a : ι} (ha : (f a).count e = 1)
    (h₁ : ∀ b ∈ l₁, e ∉ f b) (h₂ : ∀ b ∈ l₂, e ∉ f b) : ((l₁ ++ a :: l₂).flatMap f).count e = 1 := by
  have hnone : ∀ {l : List ι}, (∀ b ∈ l, e ∉ f b) → (l.flatMap f).count e = 0 := fun h =>
    count_eq_zero.2 fun hmem => by
      obtain ⟨b, hb, he⟩ := mem_flatMap.1 hmem
      exact h b hb he
  rw [flatMap_append, flatMap_cons, count_append, count_append, hnone h₁, hnone h₂, ha]

theorem range_split (h : i < n) : List.range n = List.range i ++ i :: (List.range (n - i - 1)).map (i + 1 + ·) := by
  have hn : n = i + 1 + (n - i - 1) := by omega
  conv_lhs => rw [hn, range_add, range_succ, append_assoc, singleton_append]

theorem range_eq_append_cons {l₁ l₂ : List ℕ} (h : List.range n = l₁ ++ i :: l₂) :
    i < n ∧ l₁ = List.range i ∧ ∀ j ∈ l₂, i < j := by
  have hi : i < n := mem_range.1 (h ▸ mem_append_right _ (mem_cons_self ..))
  have hsorted := pairwise_append.1 (h ▸ pairwise_lt_range (n := n))
  refine ⟨hi, ?_, (pairwise_cons.1 hsorted.2.1).1⟩
  have hlength : l₁.length = i := by
    have hget : (range n)[l₁.length]? = some i := by rw [h]; simp
    rw [getElem?_range (by rw [← length_range (n := n), h]; simp)] at hget
    exact Option.some.inj hget
  have htake : (range n).take i = l₁ := by rw [h, ← hlength, take_left]
  rw [← htake, take_range, Nat.min_eq_left (Nat.le_of_lt hi)]

end Blocks
