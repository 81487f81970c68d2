/-
  Words framed by a terminator. Followed by a marker and more text a body is ambiguous, but only in one way
  (`body_cut`).
-/
import Mathlib.Data.List.Chain

namespace Framing

open List

universe u
variable {α : Type u} {z : α} {w l : List α} {m : α}

def body (z : α) (ws : List (List α)) : List α := ws.flatMap fun w => w ++ [z]

/-- What can stand between two terminators. -/
structure IsWord (z : α) (w : List α) : Prop where
  ne : w ≠ []
  free : z ∉ w

@[simp] theorem body_nil : body z [] = [] := rfl

@[simp] theorem body_cons (w : List α) (ws : List (List α)) : body z (w :: ws) = w ++ z :: body z ws := by
  simp [body]

theorem split_first : ∀ {u v x y : List α}, z ∉ u → z ∉ v → u ++ z :: x = v ++ z :: y →
    u = v ∧ x = y
  | [], [], _, _, _, _, h => ⟨rfl, by simpa using h⟩
  | [], b :: v, _, _, _, hv, h => by
    simp only [nil_append, cons_append, cons.injEq] at h
    exact absurd (h.1 ▸ mem_cons_self ..) hv
  | a :: u, [], _, _, hu, _, h => by
    simp only [nil_append, cons_append, cons.injEq] at h
    exact absurd (h.1 ▸ mem_cons_self ..) hu
  | a :: u, b :: v, x, y, hu, hv, h => by
    simp only [cons_append, cons.injEq] at h
    obtain ⟨he, hxy⟩ := split_first (fun hm => hu (mem_cons_of_mem _ hm))
      (fun hm => hv (mem_cons_of_mem _ hm)) h.2
    exact ⟨by rw [h.1, he], hxy⟩

theorem marker_word {r x : List α} (hw : IsWord z w)
    (h : m :: r = w ++ z :: x) : ∃ t, w = m :: t ∧ z ∉ t ∧ r = t ++ z :: x := by
  cases w with
  | nil => exact absurd rfl hw.ne
  | cons a t =>
    simp only [cons_append, cons.injEq] at h
    exact ⟨t, by rw [h.1], fun hz => hw.free (mem_cons_of_mem _ hz), h.2⟩

/-- **The two readings of a marked body.**  Either both stop at the same place, or a word of the
    longer one starts with the marker of the shorter one. -/
theorem body_cut {m' : α} :
    ∀ {ws ws' : List (List α)} {r r' : List α}, (∀ w ∈ ws, IsWord z w) → (∀ w ∈ ws', IsWord z w) →
      body z ws ++ m :: r = body z ws' ++ m' :: r' →
      (ws = ws' ∧ m = m' ∧ r = r') ∨
      (∃ t us, ws' = ws ++ (m :: t) :: us ∧ z ∉ t ∧ r = t ++ z :: (body z us ++ m' :: r')) ∨
      (∃ t us, ws = ws' ++ (m' :: t) :: us ∧ z ∉ t ∧ r' = t ++ z :: (body z us ++ m :: r))
  | [], [], r, r', _, _, h => by simpa using h
  | [], w' :: ws', r, r', _, hw', h => by
    rw [body_nil, nil_append, body_cons, append_assoc, cons_append] at h
    obtain ⟨t, ht, hz, hr⟩ := marker_word (hw' _ (mem_cons_self ..)) h
    exact Or.inr (Or.inl ⟨t, ws', by rw [ht]; rfl, hz, hr⟩)
  | w :: ws, [], r, r', hw, _, h => by
    rw [body_nil, nil_append, body_cons, append_assoc, cons_append] at h
    obtain ⟨t, ht, hz, hr⟩ := marker_word (hw _ (mem_cons_self ..)) h.symm
    exact Or.inr (Or.inr ⟨t, ws, by rw [ht]; rfl, hz, hr⟩)
  | w :: ws, w' :: ws', r, r', hw, hw', h => by
    simp only [body_cons, append_assoc, cons_append] at h
    obtain ⟨rfl, hrest⟩ := split_first (hw _ (mem_cons_self ..)).free
      (hw' _ (mem_cons_self ..)).free h
    rcases body_cut (fun v hv => hw v (mem_cons_of_mem _ hv))
      (fun v hv => hw' v (mem_cons_of_mem _ hv)) hrest with ⟨rfl, hr⟩ | ⟨t, us, rfl, hr⟩ |
        ⟨t, us, rfl, hr⟩
    · exact Or.inl ⟨rfl, hr⟩
    · exact Or.inr (Or.inl ⟨t, us, rfl, hr⟩)
    · exact Or.inr (Or.inr ⟨t, us, rfl, hr⟩)

theorem body_inj : ∀ {ws ws' : List (List α)}, (∀ w ∈ ws, IsWord z w) → (∀ w ∈ ws', IsWord z w) →
    body z ws = body z ws' → ws = ws'
  | [], [], _, _, _ => rfl
  | [], w' :: ws', _, _, h => by simp at h
  | w :: ws, [], _, _, h => by simp at h
  | w :: ws, w' :: ws', hw, hw', h => by
    simp only [body_cons] at h
    obtain ⟨rfl, hrest⟩ := split_first (hw _ (mem_cons_self ..)).free
      (hw' _ (mem_cons_self ..)).free h
    rw [body_inj (fun v hv => hw v (mem_cons_of_mem _ hv))
      (fun v hv => hw' v (mem_cons_of_mem _ hv)) hrest]

theorem body_prefix : ∀ {ws us : List (List α)} {r : List α},
    (∀ w ∈ ws, IsWord z w) → (∀ w ∈ us, IsWord z w) → body z ws = body z us ++ m :: r →
    ∃ t vs, ws = us ++ (m :: t) :: vs ∧ r = t ++ z :: body z vs
  | [], [], _, _, _, h => by simp at h
  | [], u :: us, _, _, _, h => by simp at h
  | w :: ws, [], r, hw, _, h => by
    rw [body_cons, body_nil, nil_append] at h
    obtain ⟨t, ht, -, hr⟩ := marker_word (hw _ (mem_cons_self ..)) h.symm
    exact ⟨t, ws, by rw [ht]; rfl, hr⟩
  | w :: ws, u :: us, r, hw, hu, h => by
    simp only [body_cons, append_assoc, cons_append] at h
    obtain ⟨rfl, hrest⟩ := split_first (hw _ (mem_cons_self ..)).free
      (hu _ (mem_cons_self ..)).free h
    obtain ⟨t, vs, rfl, hr⟩ := body_prefix (fun v hv => hw v (mem_cons_of_mem _ hv))
      (fun v hv => hu v (mem_cons_of_mem _ hv)) hrest
    exact ⟨t, vs, rfl, hr⟩

/-- No two neighbours are both the terminator. -/
def Sparse (z : α) (l : List α) : Prop := l.IsChain fun a b => ¬ (a = z ∧ b = z)

theorem Sparse.of_cons {a : α} (h : Sparse z (a :: l)) : Sparse z l :=
  (isChain_cons.1 h).2

theorem Sparse.of_append {l' : List α} (h : Sparse z (l ++ l')) : Sparse z l' :=
  h.right_of_append

theorem not_sparse_pair : ¬ Sparse z (z :: z :: l) :=
  fun h => (isChain_cons_cons.1 h).1 ⟨rfl, rfl⟩

theorem sparse_word_append (hw : z ∉ w) (hl : Sparse z l) : Sparse z (w ++ l) := by
  induction w with
  | nil => exact hl
  | cons a w ih =>
    refine isChain_cons.2 ⟨?_, ih fun h => hw (mem_cons_of_mem _ h)⟩
    intro b _ h
    exact hw (h.1 ▸ mem_cons_self ..)

theorem sparse_cons_terminator (h : l.head? ≠ some z) (hl : Sparse z l) : Sparse z (z :: l) := by
  refine isChain_cons.2 ⟨fun b hb h' => h ?_, hl⟩
  rw [Option.mem_def] at hb
  rw [hb, h'.2]

theorem head?_body_append {ws : List (List α)} (hw : ∀ w ∈ ws, IsWord z w)
    (hl : l.head? ≠ some z) : (body z ws ++ l).head? ≠ some z := by
  cases ws with
  | nil => exact hl
  | cons w ws =>
    have h := hw w (mem_cons_self ..)
    cases w with
    | nil => exact absurd rfl h.ne
    | cons a w =>
      simp only [body_cons, cons_append, head?_cons, ne_eq, Option.some.injEq]
      rintro rfl
      exact h.free (mem_cons_self ..)

theorem body_sparse : ∀ {ws : List (List α)} {l : List α}, (∀ w ∈ ws, IsWord z w) →
    l.head? ≠ some z → Sparse z l → Sparse z (body z ws ++ l)
  | [], _, _, _, hs => hs
  | w :: ws, l, hw, hl, hs => by
    have hw' : ∀ v ∈ ws, IsWord z v := fun v hv => hw v (mem_cons_of_mem _ hv)
    rw [body_cons, append_assoc, cons_append]
    exact sparse_word_append (hw _ (mem_cons_self ..)).free
      (sparse_cons_terminator (head?_body_append hw' hl) (body_sparse hw' hl hs))

end Framing
