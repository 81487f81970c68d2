/-
  ModelExpress collective refit — reading the bytes of a group id back.
-/
import ModelExpress.Collective.GroupId

namespace ModelExpress.Collective

open Framing List

/-! ## Lanes on the wire -/

abbrev LaneWire := List UInt8 × List (List UInt8)

def IsHeader (h : List UInt8) : Prop := ∃ i₀ i₁ i₂ i₃ k, k ≠ 0 ∧ h = [i₀, i₁, i₂, i₃, k, 0, 0, 0]

structure IsLaneWire (x : LaneWire) : Prop where
  header : IsHeader x.1
  words_ne : x.2 ≠ []
  words : ∀ w ∈ x.2, IsWord 0 w

def wire (xs : List LaneWire) : List UInt8 := xs.flatMap fun x => x.1 ++ (body 0 x.2 ++ [2])

@[simp] theorem wire_nil : wire [] = [] := rfl

theorem wire_cons (x : LaneWire) (xs : List LaneWire) (l : List UInt8) :
    wire (x :: xs) ++ l = x.1 ++ (body 0 x.2 ++ 2 :: (wire xs ++ l)) := by
  simp [wire]

variable {h : List UInt8} {l r z' w : List UInt8}

theorem IsHeader.length (hh : IsHeader h) : h.length = 8 := by
  obtain ⟨_, _, _, _, _, -, rfl⟩ := hh
  rfl

theorem not_sparse_header (hh : IsHeader h) : ¬ Sparse 0 (h ++ l) := by
  obtain ⟨i₀, i₁, i₂, i₃, k, -, rfl⟩ := hh
  exact fun hs => not_sparse_pair hs.of_cons.of_cons.of_cons.of_cons.of_cons

/-- What follows a lane: the next lane, or a zero byte and text without two zeros in a row. -/
def Continues (r : List UInt8) : Prop :=
  (∃ h l, IsHeader h ∧ r = h ++ l) ∨ ∃ l, Sparse 0 (0 :: l) ∧ r = 0 :: l

variable {xs : List LaneWire} {z : List UInt8}

theorem wire_continues (hx : ∀ x ∈ xs, IsLaneWire x) (hz : Sparse 0 (0 :: z)) : Continues (wire xs ++ 0 :: z) := by
  cases xs with
  | nil => exact Or.inr ⟨z, hz, rfl⟩
  | cons x xs => exact Or.inl ⟨x.1, _, (hx x (mem_cons_self ..)).header, wire_cons ..⟩

variable {a b c : UInt8} {ws U G G' : List (List UInt8)}

theorem not_continues : ¬ Continues (a :: b :: c :: 0 :: 0 :: l) := by
  rintro (⟨hd, l, ⟨j₀, j₁, j₂, j₃, k, hk, rfl⟩, he⟩ | ⟨l, hl, he⟩)
  · simp only [cons_append, cons.injEq] at he
    exact hk he.2.2.2.2.1.symm
  · simp only [cons.injEq] at he
    obtain ⟨-, rfl⟩ := he
    exact not_sparse_pair hl.of_cons.of_cons.of_cons

theorem body_start (hne : ws ≠ []) (hw : ∀ w ∈ ws, IsWord 0 w) (h : body 0 ws ++ 2 :: r = a :: b :: c :: l) :
    ¬ (b = 0 ∧ c = 0) ∧ (b ≠ 0 → c = 0 → l.head? ≠ some 0) := by
  obtain ⟨w, ws, rfl⟩ := exists_cons_of_ne_nil hne
  have hrest : (body 0 ws ++ 2 :: r).head? ≠ some 0 :=
    head?_body_append (fun v hv => hw v (mem_cons_of_mem _ hv)) (by simp)
  have hww := hw w (mem_cons_self ..)
  rw [body_cons, append_assoc, cons_append] at h
  rcases w with _ | ⟨a', _ | ⟨b', _ | ⟨c', w⟩⟩⟩
  · exact absurd rfl hww.ne
  · simp only [cons_append, nil_append, cons.injEq] at h
    obtain ⟨-, rfl, h⟩ := h
    rw [h] at hrest
    exact ⟨fun hbc => hrest (by rw [hbc.2]; rfl), fun hb => absurd rfl hb⟩
  · simp only [cons_append, nil_append, cons.injEq] at h
    obtain ⟨-, rfl, -, rfl⟩ := h
    exact ⟨fun hbc => hww.free (by simp [hbc.1]), fun _ _ => hrest⟩
  · simp only [cons_append, cons.injEq] at h
    obtain ⟨-, rfl, rfl, -⟩ := h
    exact ⟨fun hbc => hww.free (by simp [hbc.1]), fun _ hc => absurd (by simp [hc]) hww.free⟩

variable {us : List (List UInt8)} {t : List UInt8} {ys : List LaneWire}

/-- **A lane header is not read as slots.**  Where one reading starts a lane, the other cannot be
    inside a slot list that it closes later. -/
theorem header_clash {hd r' : List UInt8} (hh : IsHeader hd)
    (hne : ws ≠ []) (hw : ∀ w ∈ ws, IsWord 0 w) (hu : ∀ w ∈ us, IsWord 0 w) (ht : 0 ∉ t)
    (hr' : Continues r') (he : hd ++ (body 0 ws ++ 2 :: r) = t ++ 0 :: (body 0 us ++ 2 :: r')) : False := by
  obtain ⟨i₀, i₁, i₂, i₃, k, hk, rfl⟩ := hh
  have hs : Sparse 0 (t ++ 0 :: body 0 us) := by
    have hb : (body 0 us ++ []).head? ≠ some 0 := head?_body_append hu (by simp)
    have := body_sparse hu (l := []) (by simp) isChain_nil
    rw [append_nil] at hb this
    exact sparse_word_append ht (sparse_cons_terminator hb this)
  have hS : t ++ 0 :: (body 0 us ++ 2 :: r') = (t ++ 0 :: body 0 us) ++ 2 :: r' := by simp
  rw [hS] at he
  have hSne : t ++ 0 :: body 0 us ≠ [] := by simp
  generalize t ++ 0 :: body 0 us = S at he hs hSne
  -- the marker that closes the slot list is one of the first five bytes of the header, since
  -- three zeros follow them
  rcases S with _ | ⟨s₀, _ | ⟨s₁, _ | ⟨s₂, _ | ⟨s₃, _ | ⟨s₄, S⟩⟩⟩⟩⟩
  · exact hSne rfl
  · simp only [cons_append, nil_append, cons.injEq] at he
    obtain ⟨-, -, rfl⟩ := he
    exact not_continues hr'
  · simp only [cons_append, nil_append, cons.injEq] at he
    obtain ⟨-, -, -, rfl⟩ := he
    exact not_continues hr'
  · simp only [cons_append, nil_append, cons.injEq] at he
    obtain ⟨-, -, -, -, rfl⟩ := he
    rcases hr' with ⟨hd', l, ⟨j₀, j₁, j₂, j₃, k', hk', rfl⟩, he⟩ | ⟨l, hl, he⟩
    · simp only [cons_append, cons.injEq] at he
      exact (body_start hne hw he.2.2.2.2).1 ⟨rfl, rfl⟩
    · simp only [cons.injEq] at he
      exact hk he.1
  · simp only [cons_append, nil_append, cons.injEq] at he
    obtain ⟨-, -, -, -, -, rfl⟩ := he
    rcases hr' with ⟨hd', l, ⟨j₀, j₁, j₂, j₃, k', hk', rfl⟩, he⟩ | ⟨l, hl, he⟩
    · simp only [cons_append, cons.injEq] at he
      exact (body_start hne hw he.2.2.2).2 hk' rfl rfl
    · simp only [cons.injEq] at he
      obtain ⟨-, rfl⟩ := he
      exact not_sparse_pair hl
  · simp only [cons_append, nil_append, cons.injEq] at he
    obtain ⟨-, -, -, -, -, he⟩ := he
    have hs' : Sparse 0 S := hs.of_cons.of_cons.of_cons.of_cons.of_cons
    rcases S with _ | ⟨a, _ | ⟨b, S⟩⟩
    · simp at he
    · simp at he
    · simp only [cons_append, cons.injEq] at he
      obtain ⟨rfl, rfl, -⟩ := he
      exact not_sparse_pair hs'

/-- The longer reading of the last lane: a slot `0x02` where the shorter one has closed the lane. -/
def Overlong (xs ys : List LaneWire) (z z' : List UInt8) : Prop :=
  ∃ pre h s us, xs = pre ++ [(h, s)] ∧ ys = pre ++ [(h, s ++ [2] :: us)] ∧
    z = body 0 us ++ 2 :: 0 :: z'

theorem Overlong.cons (x : LaneWire) (h : Overlong xs ys z z') : Overlong (x :: xs) (x :: ys) z z' := by
  obtain ⟨pre, h, s, us, rfl, rfl, hz⟩ := h
  exact ⟨x :: pre, h, s, us, rfl, rfl, hz⟩

theorem overlong_of_cut {s : List (List UInt8)} (hx : ∀ x ∈ xs, IsLaneWire x) (hy : ∀ y ∈ ys, IsLaneWire y)
    (hu : ∀ w ∈ us, IsWord 0 w) (hz : Sparse 0 (0 :: z)) (hz' : Sparse 0 (0 :: z')) (ht : 0 ∉ t)
    (he : wire xs ++ 0 :: z = t ++ 0 :: (body 0 us ++ 2 :: (wire ys ++ 0 :: z'))) :
    Overlong ((h, s) :: xs) ((h, s ++ (2 :: t) :: us) :: ys) z z' := by
  cases xs with
  | cons x xs =>
    have hx' := hx x (mem_cons_self ..)
    rw [wire_cons] at he
    exact (header_clash hx'.header hx'.words_ne hx'.words hu ht (wire_continues hy hz') he).elim
  | nil =>
    rw [wire_nil, nil_append] at he
    obtain ⟨rfl, hrest⟩ := split_first (u := []) not_mem_nil ht he
    cases ys with
    | nil => exact ⟨[], h, s, us, rfl, rfl, hrest⟩
    | cons y ys =>
      rw [wire_cons] at hrest
      have hs : Sparse 0 (body 0 us ++ 2 :: (y.1 ++ (body 0 y.2 ++ 2 :: (wire ys ++ 0 :: z')))) :=
        hrest ▸ hz.of_cons
      exact (not_sparse_header (hy y (mem_cons_self ..)).header hs.of_append.of_cons).elim

theorem lanes_cut : ∀ {xs ys : List LaneWire} {z z' : List UInt8}, (∀ x ∈ xs, IsLaneWire x) →
    (∀ y ∈ ys, IsLaneWire y) → Sparse 0 (0 :: z) → Sparse 0 (0 :: z') →
    wire xs ++ 0 :: z = wire ys ++ 0 :: z' →
    (xs = ys ∧ z = z') ∨ Overlong xs ys z z' ∨ Overlong ys xs z' z
  | [], [], _, _, _, _, _, _, he => Or.inl ⟨rfl, by simpa using he⟩
  | [], y :: ys, z, z', _, hy, hz, _, he => by
    rw [wire_nil, nil_append, wire_cons] at he
    exact (not_sparse_header (hy y (mem_cons_self ..)).header (he ▸ hz)).elim
  | x :: xs, [], z, z', hx, _, _, hz', he => by
    rw [wire_nil, nil_append, wire_cons] at he
    exact (not_sparse_header (hx x (mem_cons_self ..)).header (he ▸ hz')).elim
  | (h, s) :: xs, (h', s') :: ys, z, z', hx, hy, hz, hz', he => by
    have hxh := hx _ (mem_cons_self ..)
    have hyh := hy _ (mem_cons_self ..)
    have hxs : ∀ x ∈ xs, IsLaneWire x := fun x hm => hx x (mem_cons_of_mem _ hm)
    have hys : ∀ y ∈ ys, IsLaneWire y := fun y hm => hy y (mem_cons_of_mem _ hm)
    rw [wire_cons, wire_cons] at he
    dsimp only at he
    obtain ⟨hh, hwords⟩ := append_inj he (hxh.header.length.trans hyh.header.length.symm)
    subst hh
    rcases body_cut hxh.words hyh.words hwords with ⟨rfl, -, hrest⟩ | ⟨t, us, rfl, ht, hrest⟩ |
        ⟨t, us, rfl, ht, hrest⟩
    · rcases lanes_cut hxs hys hz hz' hrest with ⟨rfl, rfl⟩ | ho | ho
      · exact Or.inl ⟨rfl, rfl⟩
      · exact Or.inr (Or.inl (ho.cons _))
      · exact Or.inr (Or.inr (ho.cons _))
    · exact Or.inr (Or.inl (overlong_of_cut hxs hys
        (fun w hm => hyh.words w (mem_append_right _ (mem_cons_of_mem _ hm))) hz hz' ht hrest))
    · exact Or.inr (Or.inr (overlong_of_cut hys hxs
        (fun w hm => hxh.words w (mem_append_right _ (mem_cons_of_mem _ hm))) hz' hz ht hrest))

/-! ## The two slot lists -/

/-- The longer reading of the trainer list: it goes on over the marker `1`, to a later generator
    that starts with it. -/
def Shifted (U G U' G' : List (List UInt8)) : Prop :=
  ∃ t us v rest, U' = U ++ (1 :: t) :: us ∧ G = t :: us ++ (1 :: v) :: rest ∧ G' = v :: rest

theorem shifted_of_cut (hG : ∀ w ∈ G, IsWord 0 w)
    (hG' : ∀ w ∈ G', IsWord 0 w) (hne : G ≠ []) (hne' : G' ≠ []) (hu : ∀ w ∈ us, IsWord 0 w)
    (ht : 0 ∉ t) (he : body 0 G = t ++ 0 :: (body 0 us ++ 1 :: body 0 G')) :
    Shifted U G (U ++ (1 :: t) :: us) G' := by
  obtain ⟨g, G, rfl⟩ := exists_cons_of_ne_nil hne
  obtain ⟨g', G', rfl⟩ := exists_cons_of_ne_nil hne'
  rw [body_cons] at he
  obtain ⟨rfl, hG₁⟩ := split_first (hG _ (mem_cons_self ..)).free ht he
  have hw : ∀ w ∈ G, IsWord 0 w := fun w hm => hG w (mem_cons_of_mem _ hm)
  obtain ⟨v, rest, rfl, hG₂⟩ := body_prefix hw hu hG₁
  rw [body_cons] at hG₂
  have hv : 0 ∉ v := fun hm => (hw (1 :: v) (by simp)).free (mem_cons_of_mem _ hm)
  obtain ⟨rfl, hrest⟩ := split_first (hG' _ (mem_cons_self ..)).free hv hG₂
  rw [body_inj (fun w hm => hG' w (mem_cons_of_mem _ hm)) (fun w hm => hw w (by simp [hm])) hrest]
  exact ⟨g, us, g', rest, rfl, rfl, rfl⟩

theorem tails_cut {U' : List (List UInt8)} (hU : ∀ w ∈ U, IsWord 0 w)
    (hU' : ∀ w ∈ U', IsWord 0 w) (hG : ∀ w ∈ G, IsWord 0 w) (hG' : ∀ w ∈ G', IsWord 0 w)
    (hne : G ≠ []) (hne' : G' ≠ []) (he : body 0 U ++ 1 :: body 0 G = body 0 U' ++ 1 :: body 0 G') :
    (U = U' ∧ G = G') ∨ Shifted U G U' G' ∨ Shifted U' G' U G := by
  rcases body_cut hU hU' he with ⟨rfl, -, he⟩ | ⟨t, us, rfl, ht, he⟩ | ⟨t, us, rfl, ht, he⟩
  · exact Or.inl ⟨rfl, body_inj hG hG' he⟩
  · exact Or.inr (Or.inl (shifted_of_cut hG hG' hne hne'
      (fun w hm => hU' w (mem_append_right _ (mem_cons_of_mem _ hm))) ht he))
  · exact Or.inr (Or.inr (shifted_of_cut hG' hG hne' hne
      (fun w hm => hU w (mem_append_right _ (mem_cons_of_mem _ hm))) ht he))

/-! ## Sorted slots -/

def wordLt (u v : List UInt8) : Prop := u.map UInt8.toNat < v.map UInt8.toNat

variable {u v : List UInt8}

theorem wordLt.trans (h₁ : wordLt u v) (h₂ : wordLt v w) : wordLt u w :=
  lt_trans h₁ h₂

theorem wordLt.ne (h : wordLt u v) : u ≠ v := by
  rintro rfl
  exact lt_irrefl _ h

theorem wordLt.asymm (h₁ : wordLt u v) (h₂ : wordLt v u) : False :=
  (h₁.trans h₂).ne rfl

theorem wordLt_cons : wordLt (a :: u) (b :: v) ↔ a.toNat < b.toNat ∨ a = b ∧ wordLt u v := by
  rw [wordLt, map_cons, map_cons, cons_lt_cons_iff, UInt8.toNat_inj]
  rfl

theorem not_wordLt_nil : ¬ wordLt u [] := not_lt_nil _

theorem wordLt_nil_cons : wordLt [] (a :: u) := nil_lt_cons _ _

def ones (n : ℕ) : List UInt8 := List.replicate n 1

theorem ones_succ (n : ℕ) : ones (n + 1) = 1 :: ones n := rfl

theorem ones_lt {m n : ℕ} (h : m < n) : wordLt (ones m) (ones n) := by
  induction m generalizing n with
  | zero =>
    obtain ⟨n, rfl⟩ := Nat.exists_eq_succ_of_ne_zero (Nat.pos_iff_ne_zero.1 h)
    exact wordLt_nil_cons
  | succ m ih =>
    obtain ⟨n, rfl⟩ := Nat.exists_eq_succ_of_ne_zero (Nat.pos_iff_ne_zero.1 (Nat.zero_lt_of_lt h))
    exact wordLt_cons.2 (Or.inr ⟨rfl, ih (by omega)⟩)

theorem one_le_of_notMem (h : 0 ∉ b :: w) : 1 ≤ b.toNat := by
  by_contra hb
  have h0 : b = 0 := UInt8.toNat_inj.1 (by simpa using hb)
  exact h (h0 ▸ mem_cons_self ..)

theorem eq_ones_of_lt : ∀ {n : ℕ} {w : List UInt8}, 0 ∉ w → wordLt w (ones n) →
    ∃ m < n, w = ones m
  | 0, _, _, h => absurd h not_wordLt_nil
  | n + 1, [], _, _ => ⟨0, Nat.succ_pos n, rfl⟩
  | n + 1, b :: w, h0, h => by
    have h1 := one_le_of_notMem h0
    rcases wordLt_cons.1 h with hlt | ⟨rfl, hlt⟩
    · exact absurd hlt (by simp; omega)
    · obtain ⟨m, hm, rfl⟩ := eq_ones_of_lt (fun hm => h0 (mem_cons_of_mem _ hm)) hlt
      exact ⟨m + 1, by omega, rfl⟩

theorem eq_ones_of_lt_cons : ∀ {w : List UInt8}, 0 ∉ w → wordLt w (1 :: w) → ∃ n, w = ones n
  | [], _, _ => ⟨0, rfl⟩
  | b :: w, h0, h => by
    have h1 := one_le_of_notMem h0
    rcases wordLt_cons.1 h with hlt | ⟨rfl, hlt⟩
    · exact absurd hlt (by simp; omega)
    · obtain ⟨n, rfl⟩ := eq_ones_of_lt_cons (fun hm => h0 (mem_cons_of_mem _ hm)) hlt
      exact ⟨n + 1, rfl⟩

/-! ## Reading a whole declaration -/

/-- What the parts of an accepted declaration satisfy on the wire: lanes `X`, sorted trainers `U`,
    sorted generators `G`. -/
structure GroupWire (X : List LaneWire) (U G : List (List UInt8)) : Prop where
  lane : ∀ x ∈ X, IsLaneWire x
  nodup : ∀ x ∈ X, x.2.Nodup
  leader : ∀ x ∈ X, ∀ s ∈ x.2.head?, s ∈ U
  word : ∀ w ∈ U ++ G, IsWord 0 w
  generators_ne : G ≠ []
  covered : ∀ w, w ∈ U ++ G ↔ ∃ x ∈ X, w ∈ x.2
  disjoint : ∀ w ∈ U, w ∉ G
  trainers_sorted : U.Pairwise wordLt
  generators_sorted : G.Pairwise wordLt

namespace GroupWire

variable {X X' : List LaneWire} {U G U' G' : List (List UInt8)}

theorem trainers_word (h : GroupWire X U G) : ∀ w ∈ U, IsWord 0 w :=
  fun w hw => h.word w (mem_append_left _ hw)

theorem generators_word (h : GroupWire X U G) : ∀ w ∈ G, IsWord 0 w :=
  fun w hw => h.word w (mem_append_right _ hw)

theorem sparse (h : GroupWire X U G) : Sparse 0 (0 :: (body 0 U ++ 1 :: body 0 G)) := by
  have hG : Sparse 0 (body 0 G) := by
    simpa using body_sparse h.generators_word (l := []) (by simp) isChain_nil
  have hG₁ : Sparse 0 (1 :: body 0 G) := sparse_word_append (w := [1]) (by decide) hG
  exact sparse_cons_terminator (head?_body_append h.trainers_word (by simp))
    (body_sparse h.trainers_word (by simp) hG₁)

/-- **No accepted declaration is read with an overlong last lane.**  The leader of that lane would
    have to sort both before and after the slot `0x02`. -/
theorem not_overlong (h : GroupWire X U G) (h' : GroupWire X' U' G') :
    ¬ Overlong X X' (body 0 U ++ 1 :: body 0 G) (body 0 U' ++ 1 :: body 0 G') := by
  rintro ⟨pre, hd, s, us, rfl, rfl, hz⟩
  have hl := h.lane (hd, s) (by simp)
  have hl' := h'.lane (hd, s ++ [2] :: us) (by simp)
  have hn' := h'.nodup (hd, s ++ [2] :: us) (by simp)
  obtain ⟨s₁, s, rfl⟩ := exists_cons_of_ne_nil hl.words_ne
  have hs₁ : s₁ ∈ U := h.leader (hd, s₁ :: s) (by simp) s₁ rfl
  have hs₁us : s₁ ∉ us ∧ s₁ ≠ [2] := by
    simp only [cons_append, nodup_cons, mem_append, mem_cons, not_or] at hn'
    exact ⟨hn'.1.2.2, hn'.1.2.1⟩
  have hus : ∀ w ∈ us, IsWord 0 w := fun w hw => hl'.words w (by simp [hw])
  rcases body_cut h.trainers_word hus hz with ⟨-, hm, -⟩ | ⟨t, vs, rfl, -⟩ | ⟨t, U₂, rfl, ht, hz'⟩
  · exact absurd hm (by decide)
  · exact hs₁us.1 (mem_append_left _ hs₁)
  · obtain ⟨rfl, htail⟩ := split_first (u := []) not_mem_nil ht hz'
    have hsort := (pairwise_cons.1 (pairwise_append.1 h.trainers_sorted).2.1).1
    have hs₂ : s₁ ∈ U₂ := by
      rcases mem_append.1 hs₁ with hm | hm
      · exact absurd hm hs₁us.1
      · exact (mem_cons.1 hm).resolve_left hs₁us.2
    have hU₂ : ∀ w ∈ U₂, IsWord 0 w := fun w hw => h.trainers_word w (by simp [hw])
    have h12 : ∀ t, wordLt (1 :: t) [2] := fun t => wordLt_cons.2 (Or.inl (by decide))
    rcases tails_cut h'.trainers_word hU₂ h'.generators_word h.generators_word h'.generators_ne
      h.generators_ne htail with ⟨rfl, rfl⟩ | ⟨t, vs, v, rest, rfl, -, -⟩ | ⟨t, vs, v, rest, rfl, -, -⟩
    · rcases mem_append.1 ((h'.covered [2]).2 ⟨_, mem_append_right _ (mem_cons_self ..),
        by simp⟩) with hm | hm
      · exact (hsort _ hm).ne rfl
      · exact h.disjoint [2] (by simp) hm
    · exact (hsort (1 :: t) (by simp)).asymm (h12 t)
    · have hlt := (pairwise_append.1 h'.trainers_sorted).2.2 s₁ hs₂ (1 :: t) (by simp)
      exact ((hsort s₁ hs₂).trans hlt).asymm (h12 t)

theorem shifted (h : GroupWire X U G) (h' : GroupWire X U' G') (hs : Shifted U G U' G') :
    ∃ n rest, U' = U ++ [ones (n + 1)] ∧ G = ones n :: ones (n + 1) :: rest ∧
      G' = ones n :: rest := by
  obtain ⟨t, us, v, rest, rfl, rfl, rfl⟩ := hs
  have hsame : ∀ w, w ∈ U ++ (t :: us ++ (1 :: v) :: rest) ↔ w ∈ (U ++ (1 :: t) :: us) ++ v :: rest :=
    fun w => (h.covered w).trans (h'.covered w).symm
  have hG := pairwise_cons.1 h.generators_sorted
  have hU' := pairwise_append.1 h'.trainers_sorted
  -- the first generator of the second reading is the first one of the first reading
  have hv : v = t := by
    have hvG : v ∉ U ++ (1 :: t) :: us := fun hm => h'.disjoint v hm (mem_cons_self ..)
    have hvr : v ∉ rest := fun hm => ((pairwise_cons.1 h'.generators_sorted).1 v hm).ne rfl
    have hm := (hsame v).2 (mem_append_right _ (mem_cons_self ..))
    simp only [mem_append, mem_cons, not_or] at hm hvG
    rcases hm with hm | (hm | hm) | hm | hm
    · exact absurd hm hvG.1
    · exact hm
    · exact absurd hm hvG.2.2
    · exact absurd (congrArg length hm) (by simp)
    · exact absurd hm hvr
  subst hv
  have hus : us = [] := by
    refine eq_nil_iff_forall_not_mem.2 fun u hu => ?_
    have h₁ := (pairwise_cons.1 hU'.2.1).1 u hu
    have h₂ := (pairwise_append.1 hG.2).2.2 u hu (1 :: v) (mem_cons_self ..)
    exact h₁.asymm h₂
  subst hus
  have hlt : wordLt v (1 :: v) := hG.1 _ (by simp)
  obtain ⟨n, rfl⟩ := eq_ones_of_lt_cons (h.generators_word v (by simp)).free hlt
  exact ⟨n, rest, rfl, rfl, rfl⟩

theorem readings (h : GroupWire X U G) (h' : GroupWire X' U' G')
    (he : wire X ++ 0 :: (body 0 U ++ 1 :: body 0 G) = wire X' ++ 0 :: (body 0 U' ++ 1 :: body 0 G')) :
    X = X' ∧ ((U = U' ∧ G = G') ∨ Shifted U G U' G' ∨ Shifted U' G' U G) := by
  rcases lanes_cut h.lane h'.lane h.sparse h'.sparse he with ⟨hX, hz⟩ | ho | ho
  · exact ⟨hX, tails_cut h.trainers_word h'.trainers_word h.generators_word h'.generators_word
      h.generators_ne h'.generators_ne hz⟩
  · exact absurd ho (h.not_overlong h')
  · exact absurd ho (h'.not_overlong h)

end GroupWire

end ModelExpress.Collective
