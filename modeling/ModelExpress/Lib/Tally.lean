/-
  Counting the distinct tags of the elements that pass a test.
-/
import Mathlib.Data.List.Perm.Subperm

namespace Tally

open List

universe u v
variable {α : Type u} {β : Type v} [DecidableEq β] (p : α → Prop) [DecidablePred p] (f : α → β)

def turn (acc : List β × ℕ) (a : α) : List β × ℕ :=
  if p a ∧ f a ∉ acc.1 then (f a :: acc.1, acc.2 + 1) else acc

def count (l : List α) : ℕ := (l.foldl (turn p f) ([], 0)).2

theorem foldl_turn (l : List α) (acc : List β × ℕ) (hn : acc.1.Nodup) (hc : acc.2 = acc.1.length) :
    (l.foldl (turn p f) acc).1.Nodup ∧
    (l.foldl (turn p f) acc).2 = (l.foldl (turn p f) acc).1.length ∧
    ∀ b, b ∈ (l.foldl (turn p f) acc).1 ↔ b ∈ acc.1 ∨ ∃ a ∈ l, p a ∧ f a = b := by
  induction l generalizing acc with
  | nil => exact ⟨hn, hc, by simp⟩
  | cons a l ih =>
    rw [foldl_cons]
    by_cases h : p a ∧ f a ∉ acc.1
    · obtain ⟨hn', hc', hmem⟩ := ih (turn p f acc a)
        (by rw [turn, if_pos h]; exact nodup_cons.2 ⟨h.2, hn⟩)
        (by rw [turn, if_pos h]; simp [hc])
      refine ⟨hn', hc', fun b => ?_⟩
      rw [hmem, turn, if_pos h]
      constructor
      · rintro (hb | ⟨a', ha', hp⟩)
        · rcases mem_cons.1 hb with rfl | hb
          · exact Or.inr ⟨a, mem_cons_self .., h.1, rfl⟩
          · exact Or.inl hb
        · exact Or.inr ⟨a', mem_cons_of_mem _ ha', hp⟩
      · rintro (hb | ⟨a', ha', hp, rfl⟩)
        · exact Or.inl (mem_cons_of_mem _ hb)
        · rcases mem_cons.1 ha' with rfl | ha'
          · exact Or.inl (mem_cons_self ..)
          · exact Or.inr ⟨a', ha', hp, rfl⟩
    · obtain ⟨hn', hc', hmem⟩ := ih acc hn hc
      rw [show turn p f acc a = acc from if_neg h]
      refine ⟨hn', hc', fun b => ?_⟩
      rw [hmem]
      constructor
      · rintro (hb | ⟨a', ha', hp⟩)
        · exact Or.inl hb
        · exact Or.inr ⟨a', mem_cons_of_mem _ ha', hp⟩
      · rintro (hb | ⟨a', ha', hp, rfl⟩)
        · exact Or.inl hb
        · rcases mem_cons.1 ha' with rfl | ha'
          · exact Or.inl (not_not.1 fun hb => h ⟨hp, hb⟩)
          · exact Or.inr ⟨a', ha', hp, rfl⟩

/-- **The count is full iff no tag is missing.** -/
theorem count_eq_length_iff {l : List α} {tags : List β} (hn : tags.Nodup) (hsub : ∀ a ∈ l, p a → f a ∈ tags) :
    count p f l = tags.length ↔ ∀ b ∈ tags, ∃ a ∈ l, p a ∧ f a = b := by
  obtain ⟨hseen, hcount, hmem⟩ := foldl_turn p f l ([], 0) nodup_nil rfl
  have hmem' : ∀ b, b ∈ (l.foldl (turn p f) ([], 0)).1 ↔ ∃ a ∈ l, p a ∧ f a = b := by simpa using hmem
  have hle : (l.foldl (turn p f) ([], 0)).1.Subperm tags := by
    refine subperm_of_subset hseen fun b hb => ?_
    obtain ⟨a, ha, hp, rfl⟩ := (hmem' b).1 hb
    exact hsub a ha hp
  rw [count, hcount]
  constructor
  · intro hlen b hb
    exact (hmem' b).1 ((hle.perm_of_length_le (Nat.le_of_eq hlen.symm)).mem_iff.2 hb)
  · intro hall
    refine Nat.le_antisymm hle.length_le ?_
    exact (subperm_of_subset hn fun b hb => (hmem' b).2 (hall b hb)).length_le

end Tally
