/-
  Ordered sets and dictionaries of lists, as lists: keys stand in the order of their first occurrence.
-/
import Mathlib.Data.List.Induction
import Mathlib.Data.List.Nodup

namespace Buckets

open List

universe u v
variable {κ : Type u} {α : Type v} [DecidableEq κ]

/-! ## Distinct keys -/

/-- Add a key at the end, unless it is there. -/
def mark (l : List κ) (k : κ) : List κ := if k ∈ l then l else l ++ [k]

variable {q k : κ} {l : List κ}

@[simp] theorem mem_mark : q ∈ mark l k ↔ q ∈ l ∨ q = k := by
  unfold mark
  split_ifs with h
  · exact ⟨Or.inl, fun hq => hq.elim id fun hqk => hqk ▸ h⟩
  · simp

theorem nodup_mark (h : l.Nodup) (k : κ) : (mark l k).Nodup := by
  unfold mark
  split_ifs with hk
  · exact h
  · refine nodup_append.2 ⟨h, nodup_singleton k, fun a ha b hb hab => hk ?_⟩
    rwa [← mem_singleton.1 hb, ← hab]

/-- The keys in the order of their first occurrence. -/
def distinct (l : List κ) : List κ := l.foldl mark []

theorem foldl_mark (l acc : List κ) :
    (∀ q, q ∈ l.foldl mark acc ↔ q ∈ acc ∨ q ∈ l) ∧ (acc.Nodup → (l.foldl mark acc).Nodup) := by
  induction l generalizing acc with
  | nil => simp
  | cons k l ih =>
    refine ⟨fun q => ?_, fun h => (ih _).2 (nodup_mark h k)⟩
    rw [foldl_cons, (ih _).1, mem_mark, mem_cons, or_assoc]

@[simp] theorem mem_distinct : q ∈ distinct l ↔ q ∈ l := by
  simp [distinct, (foldl_mark l []).1]

theorem nodup_distinct (l : List κ) : (distinct l).Nodup := (foldl_mark l []).2 nodup_nil

/-! ## Lists under keys -/

/-- Append `a` to the list under `k`. -/
def push (k : κ) (a : α) : List (κ × List α) → List (κ × List α)
  | [] => [(k, [a])]
  | b :: bs => if b.1 = k then (b.1, b.2 ++ [a]) :: bs else b :: push k a bs

variable {bs : List (κ × List α)} {a : α} {ι : Type*}

theorem mem_keys_push : q ∈ (push k a bs).map Prod.fst ↔ q ∈ bs.map Prod.fst ∨ q = k := by
  induction bs with
  | nil => simp [push]
  | cons b bs ih =>
    rw [push]
    split_ifs with h
    · subst h
      simp only [map_cons, mem_cons]
      tauto
    · simp only [map_cons, mem_cons, ih]
      tauto

theorem nodup_keys_push (h : (bs.map Prod.fst).Nodup) : ((push k a bs).map Prod.fst).Nodup := by
  induction bs with
  | nil => simp [push]
  | cons b bs ih =>
    rw [map_cons, nodup_cons] at h
    rw [push]
    split_ifs with hk
    · exact nodup_cons.2 h
    · refine nodup_cons.2 ⟨?_, ih h.2⟩
      rw [mem_keys_push]
      exact fun hb => hb.elim h.1 hk

theorem perm_flatMap_push (k : κ) (a : α) (bs : List (κ × List α)) :
    ((push k a bs).flatMap Prod.snd).Perm (bs.flatMap Prod.snd ++ [a]) := by
  induction bs with
  | nil => simp [push]
  | cons b bs ih =>
    rw [push]
    split_ifs with h
    · rw [flatMap_cons, flatMap_cons, append_assoc, append_assoc]
      exact perm_append_comm.append_left _
    · rw [flatMap_cons, flatMap_cons, append_assoc]
      exact ih.append_left _

theorem perm_foldl_push (f : ι → κ) (g : ι → α) (l : List ι) :
    ((l.foldl (fun bs i => push (f i) (g i) bs) []).flatMap Prod.snd).Perm (l.map g) := by
  induction l using reverseRecOn with
  | nil => rfl
  | append_singleton l i ih =>
    rw [foldl_append, map_append]
    exact (perm_flatMap_push ..).trans (ih.append_right _)

/-- The values under a key. -/
def under (bs : List (κ × List α)) (q : κ) : List α := (bs.filter fun b => b.1 = q).flatMap Prod.snd

theorem under_eq_nil (h : q ∉ bs.map Prod.fst) : under bs q = [] := by
  rw [under, filter_eq_nil_iff.2 fun b hb => ?_]
  · rfl
  · simpa using fun hq => h (mem_map.2 ⟨b, hb, hq⟩)

theorem under_push (h : (bs.map Prod.fst).Nodup) :
    under (push k a bs) q = under bs q ++ if q = k then [a] else [] := by
  induction bs with
  | nil => by_cases hq : q = k <;> simp [push, under, hq, eq_comm]
  | cons b bs ih =>
    rw [map_cons, nodup_cons] at h
    rw [push]
    split_ifs with hk hq hq
    · subst hk
      subst hq
      have hrest : under bs b.1 = [] := under_eq_nil h.1
      simp only [under] at hrest
      simp [under, hrest]
    · subst hk
      simp [under, Ne.symm hq]
    · have := ih h.2
      rw [if_pos hq] at this
      simp only [under, filter_cons] at this ⊢
      split_ifs <;> simp [this]
    · have := ih h.2
      rw [if_neg hq] at this
      simp only [under, filter_cons] at this ⊢
      split_ifs <;> simpa using this

theorem under_of_mem (h : (bs.map Prod.fst).Nodup) {b : κ × List α} (hb : b ∈ bs) : under bs b.1 = b.2 := by
  induction bs with
  | nil => cases hb
  | cons c bs ih =>
    rw [map_cons, nodup_cons] at h
    rcases mem_cons.1 hb with rfl | hb
    · have hrest : under bs b.1 = [] := under_eq_nil h.1
      simp only [under] at hrest
      simp [under, hrest]
    · have hne : c.1 ≠ b.1 := fun heq => h.1 (heq ▸ mem_map_of_mem hb)
      have := ih h.2 hb
      simp only [under] at this
      simp [under, hne, this]

theorem push_map {keys : List κ} (h : keys.Nodup) (F : κ → List α) (k : κ) (a : α) (hF : k ∉ keys → F k = []) :
    push k a (keys.map fun q => (q, F q)) = (mark keys k).map fun q => (q, F q ++ if q = k then [a] else []) := by
  induction keys with
  | nil => simp [push, mark, hF]
  | cons q keys ih =>
    obtain ⟨hq, hkeys⟩ := nodup_cons.1 h
    rw [map_cons, push]
    split_ifs with hqk
    · subst hqk
      have hrest : ∀ x ∈ keys, (x, F x) = (x, F x ++ if x = q then [a] else []) := by
        intro x hx
        have hne : x ≠ q := fun hxq => hq (hxq ▸ hx)
        rw [if_neg hne, append_nil]
      rw [mark, if_pos (mem_cons_self ..), map_cons, if_pos rfl, map_congr_left hrest]
    · have ih := ih hkeys fun hk => hF fun hmem => (mem_cons.1 hmem).elim (fun hkq => hqk hkq.symm) hk
      have hmark : mark (q :: keys) k = q :: mark keys k := by
        have hiff : k ∈ q :: keys ↔ k ∈ keys := by
          rw [mem_cons]
          exact ⟨fun h => h.resolve_left fun hkq => hqk hkq.symm, Or.inr⟩
        unfold mark
        simp only [hiff]
        split_ifs <;> rfl
      rw [ih, hmark, map_cons, if_neg hqk, append_nil]

theorem distinct_append_singleton (l : List κ) (k : κ) : distinct (l ++ [k]) = mark (distinct l) k := by
  rw [distinct, foldl_append]
  rfl

theorem foldl_push (f : ι → κ) (g : ι → α) (l : List ι) :
    l.foldl (fun bs i => push (f i) (g i) bs) [] = (distinct (l.map f)).map fun k => (k, (l.filter (f · = k)).map g) := by
  induction l using reverseRecOn with
  | nil => rfl
  | append_singleton l i ih =>
    rw [foldl_append, foldl_cons, foldl_nil, ih, push_map (nodup_distinct _), map_append,
      map_singleton, distinct_append_singleton]
    · refine map_congr_left fun k _ => ?_
      rw [filter_append, filter_singleton, map_append]
      by_cases hk : k = f i
      · simp [hk]
      · simp [hk, Ne.symm hk]
    · intro hmem
      rw [map_eq_nil_iff]
      refine filter_eq_nil_iff.2 fun j hj heq => hmem ?_
      rw [mem_distinct]
      exact mem_map.2 ⟨j, hj, by simpa using heq⟩

theorem distinct_of_nodup (h : l.Nodup) : distinct l = l := by
  induction l using reverseRecOn with
  | nil => rfl
  | append_singleton l k ih =>
    obtain ⟨hl, -, hdisjoint⟩ := nodup_append'.1 h
    have hk : k ∉ l := fun hmem => hdisjoint hmem (mem_singleton_self k)
    rw [distinct_append_singleton, ih hl, mark, if_neg hk]

end Buckets
