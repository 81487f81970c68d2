/-
  Strided addressing of multi-dimensional arrays. An index is a list of coordinates; under a list of strides
  it lies at `dot i strides`.
-/
import Mathlib.Algebra.BigOperators.Group.List.Basic
import Mathlib.Data.List.Nodup
import Mathlib.Data.List.Perm.Subperm
import Mathlib.Data.List.Range
import Mathlib.Tactic.Ring

namespace Strided

open List

/-! ## Addresses -/

def dot : List ℕ → List ℕ → ℕ
  | i :: is, s :: ss => i * s + dot is ss
  | _, _ => 0

@[simp] theorem dot_nil_left (ss : List ℕ) : dot [] ss = 0 := by cases ss <;> rfl

@[simp] theorem dot_nil_right (is : List ℕ) : dot is [] = 0 := by cases is <;> rfl

@[simp] theorem dot_cons (i s : ℕ) (is ss : List ℕ) : dot (i :: is) (s :: ss) = i * s + dot is ss := rfl

theorem dot_append (is js ss : List ℕ) : dot (is ++ js) ss = dot is ss + dot js (ss.drop is.length) := by
  induction is generalizing ss with
  | nil => simp
  | cons i is ih =>
    cases ss with
    | nil => simp
    | cons => simp [ih, Nat.add_assoc]

variable {is : List ℕ} {js ns ms : List ℕ}

theorem dot_add (h : is.length = js.length) (ss : List ℕ) :
    dot (is.zipWith (· + ·) js) ss = dot is ss + dot js ss := by
  induction is generalizing js ss with
  | nil => simp [length_eq_zero_iff.1 h.symm]
  | cons i is ih =>
    obtain ⟨j, js, rfl⟩ := exists_cons_of_length_eq_add_one h.symm
    cases ss with
    | nil => simp
    | cons =>
      simp only [zipWith_cons_cons, dot_cons, ih (Nat.succ.inj h)]
      ring

/-! ## Indices of a shape -/

/-- The indices of an array with the extents `ns`, in lexicographic order. -/
def indices : List ℕ → List (List ℕ)
  | [] => [[]]
  | n :: ns => (List.range n).flatMap fun i => (indices ns).map (i :: ·)

variable {ns : List ℕ}

theorem mem_indices : is ∈ indices ns ↔ List.Forall₂ (· < ·) is ns := by
  induction ns generalizing is with
  | nil => simp [indices]
  | cons n ns ih =>
    simp only [indices, mem_flatMap, mem_range, mem_map, ih]
    constructor
    · rintro ⟨i, hi, js, hjs, rfl⟩
      exact .cons hi hjs
    · rintro (_ | ⟨hi, hjs⟩)
      exact ⟨_, hi, _, hjs, rfl⟩

theorem mem_indices_iff_getElem? : is ∈ indices ns ↔
    is.length = ns.length ∧ ∀ q i n : ℕ, is[q]? = some i → ns[q]? = some n → i < n := by
  rw [mem_indices, forall₂_iff_get]
  refine and_congr_right fun _ => ⟨fun h q i n hi hn => ?_, fun h q h₁ h₂ => ?_⟩
  · obtain ⟨h₁, rfl⟩ := List.getElem?_eq_some_iff.1 hi
    obtain ⟨h₂, rfl⟩ := List.getElem?_eq_some_iff.1 hn
    exact h q h₁ h₂
  · exact h q _ _ (getElem?_eq_getElem h₁) (getElem?_eq_getElem h₂)

theorem length_of_mem_indices (h : is ∈ indices ns) : is.length = ns.length :=
  (mem_indices.1 h).length_eq

theorem indices_append (ms ns : List ℕ) :
    indices (ms ++ ns) = (indices ms).flatMap fun is => (indices ns).map (is ++ ·) := by
  induction ms with
  | nil => simp [indices]
  | cons m ms ih =>
    simp only [cons_append, indices, ih, flatMap_assoc, map_flatMap, flatMap_map,
      map_map, Function.comp_def]

theorem indices_eq_nil : indices ns = [] ↔ 0 ∈ ns := by
  induction ns with
  | nil => simp [indices]
  | cons n ns ih =>
    rcases Nat.eq_zero_or_pos n with rfl | hn
    · simp [indices]
    · have hne : ∃ i, i ∈ range n := ⟨0, mem_range.2 hn⟩
      simp only [indices, flatMap_eq_nil_iff, map_eq_nil_iff, ih, mem_cons, hn.ne,
        false_or]
      exact ⟨fun h => h _ hne.choose_spec, fun h _ _ => h⟩

/-! ## Row-major order -/

/-- The row-major strides of a shape. -/
def rowMajor : List ℕ → List ℕ
  | [] => []
  | _ :: ns => ns.prod :: rowMajor ns

@[simp] theorem length_rowMajor (ns : List ℕ) : (rowMajor ns).length = ns.length := by
  induction ns with
  | nil => rfl
  | cons n ns ih => simp [rowMajor, ih]

theorem range_mul (n k : ℕ) :
    List.range (n * k) = (List.range n).flatMap fun i => (List.range k).map (i * k + ·) := by
  induction n with
  | zero => simp
  | succ n ih => rw [Nat.succ_mul, range_add, ih, range_succ, flatMap_append]; simp

variable {n : ℕ} {e k d p x : ℕ}

theorem lt_mul_iff : k < n * e ↔ ∃ t < n, ∃ b < e, k = t * e + b := by
  rw [← mem_range, range_mul]
  simp only [mem_flatMap, mem_map, mem_range, eq_comm (b := k)]

theorem mul_add_inj {t t' b b' : ℕ} (hb : b < e) (hb' : b' < e) (h : t * e + b = t' * e + b') : t = t' ∧ b = b' := by
  have hmod : b = b' := by
    simpa [Nat.mul_add_mod', Nat.mod_eq_of_lt hb, Nat.mod_eq_of_lt hb'] using congrArg (· % e) h
  subst hmod
  exact ⟨Nat.eq_of_mul_eq_mul_right (Nat.zero_lt_of_lt hb) (Nat.add_right_cancel h), rfl⟩

theorem map_dot_rowMajor (ns : List ℕ) : (indices ns).map (dot · (rowMajor ns)) = List.range ns.prod := by
  induction ns with
  | nil => rfl
  | cons n ns ih =>
    rw [prod_cons, range_mul, ← ih]
    simp [indices, rowMajor, map_flatMap, Function.comp_def]

theorem dot_rowMajor_lt (h : is ∈ indices ns) : dot is (rowMajor ns) < ns.prod := by
  rw [← mem_range, ← map_dot_rowMajor]
  exact mem_map_of_mem h

theorem exists_dot_rowMajor {a : ℕ} (h : a < ns.prod) : ∃ is ∈ indices ns, dot is (rowMajor ns) = a := by
  rw [← mem_range, ← map_dot_rowMajor] at h
  exact mem_map.1 h

theorem dot_rowMajor_inj (hi : is ∈ indices ns) (hj : js ∈ indices ns)
    (h : dot is (rowMajor ns) = dot js (rowMajor ns)) : is = js := by
  refine inj_on_of_nodup_map (f := fun is => dot is (rowMajor ns)) ?_ hi hj h
  rw [map_dot_rowMajor]
  exact nodup_range

/-! ## Boxes -/

/-- The range `[lo, hi)` of each dimension. -/
abbrev Box := List (ℕ × ℕ)

/-- The index lies in the box. -/
def InBox (is : List ℕ) (box : Box) : Prop := List.Forall₂ (fun i b => b.1 ≤ i ∧ i < b.2) is box

instance (is : List ℕ) (box : Box) : Decidable (InBox is box) :=
  inferInstanceAs (Decidable (List.Forall₂ _ _ _))

@[simp] theorem inBox_nil : InBox is [] ↔ is = [] := forall₂_nil_right_iff

variable {box : Box} {b : ℕ × ℕ}

@[simp] theorem inBox_cons {i : ℕ} : InBox (i :: is) (b :: box) ↔ (b.1 ≤ i ∧ i < b.2) ∧ InBox is box := forall₂_cons

@[simp] theorem not_inBox_nil : ¬ InBox [] (b :: box) := by
  simp [InBox]

def corner (box : Box) : List ℕ := box.map Prod.fst

def sizes (box : Box) : List ℕ := box.map fun b => b.2 - b.1

def boxAt (lo ns : List ℕ) : Box := lo.zip (lo.zipWith (· + ·) ns)

variable {lo : List ℕ}

section
variable (h : lo.length = ns.length)
include h

theorem corner_boxAt : corner (boxAt lo ns) = lo := by
  induction lo generalizing ns with
  | nil => rfl
  | cons l lo ih =>
    obtain ⟨n, ns, rfl⟩ := exists_cons_of_length_eq_add_one h.symm
    simpa [boxAt, corner] using ih (Nat.succ.inj h)

theorem sizes_boxAt : sizes (boxAt lo ns) = ns := by
  induction lo generalizing ns with
  | nil => simp [boxAt, sizes, length_eq_zero_iff.1 h.symm]
  | cons l lo ih =>
    obtain ⟨n, ns, rfl⟩ := exists_cons_of_length_eq_add_one h.symm
    simpa [boxAt, sizes] using ih (Nat.succ.inj h)

theorem length_boxAt : (boxAt lo ns).length = lo.length := by
  simp [boxAt, h]

end

theorem inBox_iff : InBox is box ↔ ∃ js ∈ indices (sizes box), is = (corner box).zipWith (· + ·) js := by
  induction box generalizing is with
  | nil => simp [sizes, corner, indices]
  | cons b box ih =>
    cases is with
    | nil => simp [sizes, corner, mem_indices, forall₂_cons_right_iff]
    | cons i is =>
      rw [inBox_cons, ih]
      simp only [mem_indices, sizes, corner, map_cons, forall₂_cons_right_iff]
      constructor
      · rintro ⟨⟨hlo, hhi⟩, js, hjs, rfl⟩
        exact ⟨(i - b.1) :: js, ⟨_, _, by omega, hjs, rfl⟩, by simp [Nat.add_sub_cancel' hlo]⟩
      · rintro ⟨_, ⟨k, js, hk, hjs, rfl⟩, heq⟩
        simp only [zipWith_cons_cons, cons.injEq] at heq
        exact ⟨⟨by omega, by omega⟩, js, hjs, heq.2⟩

theorem sub_mem_indices (h : lo.length = ns.length) (hi : InBox is (boxAt lo ns)) :
    is.zipWith (· - ·) lo ∈ indices ns := by
  induction lo generalizing ns is with
  | nil => simp [length_eq_zero_iff.1 h.symm, indices]
  | cons l lo ih =>
    obtain ⟨n, ns, rfl⟩ := exists_cons_of_length_eq_add_one h.symm
    obtain _ | ⟨hl, hrest⟩ := hi
    rw [zipWith_cons_cons, mem_indices]
    exact .cons (by simp only at hl; omega) (mem_indices.1 (ih (Nat.succ.inj h) hrest))

theorem inBox_zero : InBox is (boxAt (List.replicate ns.length 0) ns) ↔ is ∈ indices ns := by
  have hbox : boxAt (replicate ns.length 0) ns = ns.map ((0, ·)) := by
    induction ns with
    | nil => rfl
    | cons n ns ih => simpa [boxAt, replicate_succ] using ih
  rw [hbox, InBox, forall₂_map_right_iff, mem_indices]
  simp

theorem sub_zero (h : is.length = k) : is.zipWith (· - ·) (List.replicate k 0) = is := by
  subst h
  induction is with
  | nil => rfl
  | cons i is ih => simpa [replicate_succ] using ih

theorem sub_corner_add {origin : List ℕ} (hj : js.length = box.length)
    (ho : List.Forall₂ (· ≤ ·) origin (corner box)) :
    ((corner box).zipWith (· + ·) js).zipWith (· - ·) origin =
      ((corner box).zipWith (· - ·) origin).zipWith (· + ·) js := by
  induction box generalizing origin js with
  | nil => simp [corner]
  | cons b box ih =>
    obtain ⟨j, js, rfl⟩ := exists_cons_of_length_eq_add_one hj
    rcases ho with _ | ⟨hle, hrest⟩
    simp only [corner, map_cons, zipWith_cons_cons, cons.injEq]
    exact ⟨by omega, ih (Nat.succ.inj hj) hrest⟩

/-! ## Scatter and gather -/

def scatter {α : Type*} : List α → List ℕ → List α → List α
  | base, p :: ps, x :: xs => scatter (base.set p x) ps xs
  | base, _, _ => base

def gather (ps ys : List ℕ) : List ℕ := ps.map fun p => ys.getD p 0

section
variable {α : Type*} {base xs : List α} {ps : List ℕ}

@[simp] theorem length_scatter (base : List α) (ps : List ℕ) (xs : List α) :
    (scatter base ps xs).length = base.length := by
  induction ps generalizing base xs with
  | nil => simp [scatter]
  | cons p ps ih => cases xs <;> simp [scatter, ih]

theorem getElem?_scatter_of_notMem {q : ℕ} (hq : q ∉ ps) : (scatter base ps xs)[q]? = base[q]? := by
  induction ps generalizing base xs with
  | nil => simp [scatter]
  | cons p ps ih =>
    cases xs with
    | nil => rfl
    | cons =>
      rw [scatter, ih (not_mem_of_not_mem_cons hq),
        getElem?_set_ne (ne_of_not_mem_cons hq).symm]

theorem getElem?_scatter (hn : ps.Nodup) (hp : ∀ p ∈ ps, p < base.length)
    (hlen : ps.length = xs.length) (hd : ps[d]? = some p) : (scatter base ps xs)[p]? = xs[d]? := by
  induction ps generalizing base xs d with
  | nil => simp at hd
  | cons q ps ih =>
    obtain ⟨x, xs, rfl⟩ := exists_cons_of_length_eq_add_one hlen.symm
    rw [nodup_cons] at hn
    cases d with
    | zero =>
      obtain rfl : q = p := by simpa using hd
      rw [scatter, getElem?_scatter_of_notMem hn.1, getElem?_set_self (hp q (mem_cons_self ..))]
      rfl
    | succ d =>
      rw [scatter, ih hn.2 _ (Nat.succ.inj hlen) (by simpa using hd)]
      · rfl
      · intro r hr
        rw [length_set]
        exact hp r (mem_cons_of_mem _ hr)

end

section
variable {ps xs ys : List ℕ}

@[simp] theorem length_gather (ps ys : List ℕ) : (gather ps ys).length = ps.length := length_map _

theorem getElem?_gather (hd : ps[d]? = some p) (hp : p < ys.length) : (gather ps ys)[d]? = ys[p]? := by
  simp [gather, hd, getElem?_eq_getElem hp]

variable {base : List ℕ}

theorem gather_scatter (hn : ps.Nodup) (hp : ∀ p ∈ ps, p < base.length)
    (hlen : ps.length = xs.length) : gather ps (scatter base ps xs) = xs := by
  refine ext_getElem? fun d => ?_
  rcases Nat.lt_or_ge d ps.length with hd | hd
  · have hget : ps[d]? = some ps[d] := getElem?_eq_getElem hd
    rw [getElem?_gather hget (by simpa using hp _ (getElem_mem hd)), getElem?_scatter hn hp hlen hget]
  · rw [getElem?_eq_none (by simpa using hd), getElem?_eq_none (hlen ▸ hd)]

theorem dot_set (h0 : base[p]? = some 0) (hp : p < ys.length) :
    dot (base.set p x) ys = dot base ys + x * ys.getD p 0 := by
  induction base generalizing p ys with
  | nil => simp at h0
  | cons b base ih =>
    obtain ⟨y, ys, rfl⟩ := exists_cons_of_length_pos (Nat.zero_lt_of_lt hp)
    cases p with
    | zero =>
      obtain rfl : b = 0 := by simpa using h0
      simp [Nat.add_comm]
    | succ p =>
      simp only [set_cons_succ, dot_cons, getD_cons_succ]
      rw [ih (by simpa using h0) (by simpa using hp), Nat.add_assoc]

theorem dot_scatter (hn : ps.Nodup) (h0 : ∀ p ∈ ps, base[p]? = some 0)
    (hp : ∀ p ∈ ps, p < ys.length) (hlen : ps.length = xs.length) :
    dot (scatter base ps xs) ys = dot base ys + dot xs (gather ps ys) := by
  induction ps generalizing base xs with
  | nil => simp [scatter, gather]
  | cons p ps ih =>
    obtain ⟨x, xs, rfl⟩ := exists_cons_of_length_eq_add_one hlen.symm
    rw [nodup_cons] at hn
    have h0' : ∀ q ∈ ps, (base.set p x)[q]? = some 0 := by
      intro q hq
      rw [getElem?_set_ne (by rintro rfl; exact hn.1 hq)]
      exact h0 q (mem_cons_of_mem _ hq)
    rw [scatter, ih hn.2 h0' (fun q hq => hp q (mem_cons_of_mem _ hq)) (Nat.succ.inj hlen),
      dot_set (h0 p (mem_cons_self ..)) (hp p (mem_cons_self ..)), Nat.add_assoc]
    rfl

theorem dot_scatter_zero (hn : ps.Nodup) (hp : ∀ p ∈ ps, p < n) (hlen : ps.length = xs.length)
    (hy : ys.length = n) : dot (scatter (List.replicate n 0) ps xs) ys = dot xs (gather ps ys) := by
  have hzero : ∀ (k : ℕ) (zs : List ℕ), dot (replicate k 0) zs = 0 := by
    intro k
    induction k with
    | zero => simp
    | succ k ih =>
      intro zs
      cases zs with
      | nil => simp
      | cons => simp [replicate_succ, ih]
  rw [dot_scatter hn (fun p h => by simp [hp p h]) (fun p h => hy ▸ hp p h) hlen, hzero, Nat.zero_add]

theorem mem_indices_scatter (hn : ps.Nodup) (hp : ∀ p ∈ ps, p < n) (hlen : ps.length = ys.length) :
    is ∈ indices (scatter (List.replicate n 1) ps ys) ↔
      ∃ js ∈ indices ys, is = scatter (List.replicate n 0) ps js := by
  have hp' : ∀ k : ℕ, ∀ p ∈ ps, p < (replicate n k).length := fun k p h => by simpa using hp p h
  simp only [mem_indices_iff_getElem?, length_scatter, length_replicate]
  constructor
  · rintro ⟨hi, hlt⟩
    refine ⟨gather ps is, ⟨by simpa using hlen, fun d j y hj hy => ?_⟩, ext_getElem? fun q => ?_⟩
    · obtain ⟨hd, -⟩ := List.getElem?_eq_some_iff.1 hy
      have hd : ps[d]? = some ps[d] := getElem?_eq_getElem (hlen ▸ hd)
      have hpd := mem_of_getElem? hd
      rw [getElem?_gather hd (hi ▸ hp _ hpd)] at hj
      exact hlt _ j y hj (by rw [getElem?_scatter hn (hp' 1) hlen hd, hy])
    · by_cases hmem : q ∈ ps
      · obtain ⟨d, hd⟩ := mem_iff_getElem?.1 hmem
        rw [getElem?_scatter hn (hp' 0) (by simp) hd, getElem?_gather hd (hi ▸ hp q hmem)]
      · -- a dimension that is not scattered to has extent one
        rw [getElem?_scatter_of_notMem hmem]
        rcases Nat.lt_or_ge q n with hq | hq
        · have hone : (scatter (replicate n 1) ps ys)[q]? = some 1 := by
            rw [getElem?_scatter_of_notMem hmem, getElem?_replicate_of_lt hq]
          have hq' := getElem?_eq_getElem (l := is) (hi ▸ hq)
          rw [getElem?_replicate_of_lt hq, hq', Nat.lt_one_iff.1 (hlt q _ 1 hq' hone)]
        · rw [getElem?_eq_none (hi ▸ hq), getElem?_eq_none (by simpa using hq)]
  · rintro ⟨js, ⟨hj, hlt⟩, rfl⟩
    refine ⟨by simp, fun q x y hx hy => ?_⟩
    by_cases hmem : q ∈ ps
    · obtain ⟨d, hd⟩ := mem_iff_getElem?.1 hmem
      rw [getElem?_scatter hn (hp' _) (hlen.trans hj.symm) hd] at hx
      rw [getElem?_scatter hn (hp' _) hlen hd] at hy
      exact hlt d x y hx hy
    · rw [getElem?_scatter_of_notMem hmem] at hx hy
      rw [eq_of_mem_replicate (mem_of_getElem? hx), eq_of_mem_replicate (mem_of_getElem? hy)]
      exact Nat.one_pos

end

/-! ## One dimension -/

section
variable {ns js ss : List ℕ} {d i s l : ℕ}

theorem dot_modify (h : d < js.length) : dot (js.modify d (· + s)) ss = dot js ss + s * ss.getD d 0 := by
  induction js generalizing d ss with
  | nil => simp at h
  | cons j js ih =>
    cases ss with
    | nil => simp
    | cons =>
      cases d with
      | zero =>
        simp only [modify_zero_cons, dot_cons, getD_cons_zero]
        ring
      | succ d =>
        simp only [modify_succ_cons, dot_cons, getD_cons_succ, ih (Nat.lt_of_succ_lt_succ h),
          Nat.add_assoc]

theorem modify_mem_indices (hl : s + l ≤ ns.getD d 0) (hj : js ∈ indices (ns.set d l)) :
    js.modify d (· + s) ∈ indices ns := by
  induction ns generalizing d js with
  | nil => simpa [indices] using hj
  | cons n ns ih =>
    cases d with
    | zero =>
      obtain _ | ⟨hlt, hrest⟩ := mem_indices.1 hj
      simp only [getD_cons_zero] at hl
      exact mem_indices.2 (.cons (by simp only; omega) hrest)
    | succ d =>
      obtain _ | ⟨hlt, hrest⟩ := mem_indices.1 hj
      exact mem_indices.2 (.cons hlt (mem_indices.1 (ih (by simpa using hl) (mem_indices.2 hrest))))

def unitAt (k d s : ℕ) : List ℕ := (List.replicate k 0).set d s

@[simp] theorem length_unitAt (k d s : ℕ) : (unitAt k d s).length = k := by simp [unitAt]

@[simp] theorem unitAt_succ (k d s : ℕ) : unitAt (k + 1) (d + 1) s = 0 :: unitAt k d s := by
  simp [unitAt, replicate_succ]

@[simp] theorem unitAt_succ_zero (k s : ℕ) : unitAt (k + 1) 0 s = s :: List.replicate k 0 := by
  simp [unitAt, replicate_succ]

@[simp] theorem unitAt_zero_right (k d : ℕ) : unitAt k d 0 = List.replicate k 0 := by
  refine ext_getElem (by simp) fun q hq _ => ?_
  simp [unitAt]

theorem zipWith_replicate_zero (js : List ℕ) : (List.replicate js.length 0).zipWith (· + ·) js = js := by
  induction js with
  | nil => rfl
  | cons j js ih => simpa [replicate_succ] using ih

theorem unitAt_add (js : List ℕ) (d s : ℕ) : (unitAt js.length d s).zipWith (· + ·) js = js.modify d (· + s) := by
  induction js generalizing d with
  | nil => simp [unitAt]
  | cons j js ih =>
    cases d with
    | zero => simp [zipWith_replicate_zero, Nat.add_comm]
    | succ d => simp [ih]

theorem inBox_slab {m : ℕ} (hd : d < ns.length) (hm : s + l ≤ m) :
    InBox is (boxAt (unitAt ns.length d s) (ns.set d l)) ↔ is ∈ indices (ns.set d m) ∧ s ≤ is.getD d 0 ∧ is.getD d 0 < s + l := by
  induction ns generalizing is d with
  | nil => simp at hd
  | cons n ns ih =>
    cases d with
    | zero =>
      cases is with
      | nil => simp [boxAt, mem_indices]
      | cons =>
        simp only [length_cons, unitAt_succ_zero, set_cons_zero, mem_indices, forall₂_cons,
          getD_cons_zero]
        rw [show boxAt (s :: replicate ns.length 0) (l :: ns) = (s, s + l) :: boxAt (replicate ns.length 0) ns from rfl,
          inBox_cons, inBox_zero, mem_indices]
        constructor
        · rintro ⟨hi, his⟩
          exact ⟨⟨by omega, his⟩, hi⟩
        · rintro ⟨⟨-, his⟩, hi⟩
          exact ⟨hi, his⟩
    | succ d =>
      cases is with
      | nil => simp [boxAt, mem_indices]
      | cons =>
        simp only [length_cons, unitAt_succ, set_cons_succ, mem_indices, forall₂_cons, getD_cons_succ]
        rw [show boxAt (0 :: unitAt ns.length d s) (n :: ns.set d l) = (0, 0 + n) :: boxAt (unitAt ns.length d s) (ns.set d l) from rfl,
          inBox_cons, ih (Nat.lt_of_succ_lt_succ hd), mem_indices]
        simp [and_assoc]

/-- The strides are row-major, where an extent is not one. -/
def contiguous : List ℕ → List ℕ → Bool
  | [], [] => true
  | n :: ns, s :: ss => (n = 1 || s = ns.prod) && contiguous ns ss
  | _, _ => false

theorem dot_contiguous (h : contiguous ns ss = true) (hj : js ∈ indices ns) : dot js ss = dot js (rowMajor ns) := by
  induction ns generalizing js ss with
  | nil =>
    obtain rfl : js = [] := by simpa [indices] using hj
    simp
  | cons n ns ih =>
    obtain _ | ⟨hlt, hrest⟩ := mem_indices.1 hj
    cases ss with
    | nil => simp [contiguous] at h
    | cons =>
      simp only [contiguous, Bool.and_eq_true, Bool.or_eq_true, decide_eq_true_eq] at h
      rw [dot_cons, rowMajor, dot_cons, ih h.2 (mem_indices.2 hrest)]
      rcases h.1 with rfl | rfl
      · simp [Nat.lt_one_iff.1 hlt]
      · rfl

theorem contiguous_set_zero (h : contiguous ns ss = true) (hl : 0 < l) (hn : l ≤ ns.getD 0 0) :
    contiguous (ns.set 0 l) ss = true := by
  cases ns with
  | nil => exact h
  | cons =>
    cases ss with
    | nil => simp [contiguous] at h
    | cons =>
      simp only [contiguous, set_cons_zero, Bool.and_eq_true, Bool.or_eq_true, decide_eq_true_eq] at h ⊢
      refine ⟨h.1.imp_left fun hone => ?_, h.2⟩
      simp only [getD_cons_zero] at hn
      omega

theorem dot_insertIdx (h : d ≤ js.length) :
    dot (js.insertIdx d i) ss = dot js (ss.eraseIdx d) + i * ss.getD d 0 := by
  induction d generalizing js ss with
  | zero => cases ss <;> simp [Nat.add_comm]
  | succ d ih =>
    obtain ⟨j, js, rfl⟩ := exists_cons_of_length_pos (Nat.zero_lt_of_lt h)
    cases ss with
    | nil => simp
    | cons =>
      simp only [insertIdx_succ_cons, dot_cons, eraseIdx_cons_succ, getD_cons_succ,
        ih (Nat.le_of_succ_le_succ h), Nat.add_assoc]

theorem insertIdx_mem_indices (hi : i < ns.getD d 0) (hj : js ∈ indices (ns.eraseIdx d)) :
    js.insertIdx d i ∈ indices ns := by
  induction ns generalizing d js with
  | nil => simp at hi
  | cons n ns ih =>
    cases d with
    | zero => exact mem_indices.2 (.cons (by simpa using hi) (mem_indices.1 hj))
    | succ d =>
      obtain _ | ⟨hlt, hrest⟩ := mem_indices.1 hj
      exact mem_indices.2 (.cons hlt (mem_indices.1 (ih (by simpa using hi) (mem_indices.2 hrest))))

theorem dot_eraseIdx (h : d ≤ ns.length) (hs : ss.length = ns.length)
    (hj : js ∈ indices (ns.insertIdx d 1)) : dot (js.eraseIdx d) ss = dot js (ss.insertIdx d x) := by
  induction d generalizing ns js ss with
  | zero =>
    obtain _ | ⟨hlt, hrest⟩ := mem_indices.1 hj
    simp [Nat.lt_one_iff.1 hlt]
  | succ d ih =>
    obtain ⟨n, ns, rfl⟩ := exists_cons_of_length_pos (Nat.zero_lt_of_lt h)
    obtain ⟨y, ss, rfl⟩ := exists_cons_of_length_eq_add_one hs
    obtain _ | ⟨hlt, hrest⟩ := mem_indices.1 hj
    simp only [eraseIdx_cons_succ, insertIdx_succ_cons, dot_cons,
      ih (Nat.le_of_succ_le_succ h) (Nat.succ.inj hs) (mem_indices.2 hrest)]

theorem eraseIdx_mem_indices (h : d ≤ ns.length) (hj : js ∈ indices (ns.insertIdx d 1)) :
    js.eraseIdx d ∈ indices ns := by
  induction d generalizing ns js with
  | zero =>
    obtain _ | ⟨hlt, hrest⟩ := mem_indices.1 hj
    exact mem_indices.2 hrest
  | succ d ih =>
    obtain ⟨n, ns, rfl⟩ := exists_cons_of_length_pos (Nat.zero_lt_of_lt h)
    obtain _ | ⟨hlt, hrest⟩ := mem_indices.1 hj
    exact mem_indices.2 (.cons hlt (mem_indices.1 (ih (Nat.le_of_succ_le_succ h) (mem_indices.2 hrest))))

theorem scatter_mem_indices {ps : List ℕ} (hlen : ps.length = ns.length) (hn : ps.Nodup)
    (hp : ∀ p ∈ ps, p < ns.length) (hj : js ∈ indices (gather ps ns)) :
    scatter (List.replicate ns.length 0) ps js ∈ indices ns := by
  -- every dimension is the image of one
  have hall : ∀ q < ns.length, q ∈ ps := by
    have hperm : ps.Perm (range ns.length) :=
      (subperm_of_subset hn fun p h => mem_range.2 (hp p h)).perm_of_length_le (by simp [hlen])
    intro q hq
    exact hperm.mem_iff.2 (mem_range.2 hq)
  rw [mem_indices_iff_getElem?] at hj ⊢
  obtain ⟨hjlen, hlt⟩ := hj
  refine ⟨by simp, fun q x n hx hq => ?_⟩
  have hqlt := (List.getElem?_eq_some_iff.1 hq).1
  obtain ⟨e, he⟩ := mem_iff_getElem?.1 (hall q hqlt)
  rw [getElem?_scatter hn (by simpa using hp) (by simpa using hjlen.symm) he] at hx
  exact hlt e x n hx (by rw [getElem?_gather he hqlt, hq])

end

/-! ## Broadcasting -/

/-- The shape `ms` can be broadcast to `ns`: from the last dimension on, its extents are those of
    `ns` or one. -/
def Broadcasts (ms ns : List ℕ) : Prop :=
  ms.length ≤ ns.length ∧ List.Forall₂ (fun m n => m = n ∨ m = 1) ms (ns.drop (ns.length - ms.length))

instance (ms ns : List ℕ) : Decidable (Broadcasts ms ns) := inferInstanceAs (Decidable (_ ∧ _))

/-- The index of the tensor of shape `ms` that stands at `js` of the larger shape. -/
def broadcastIndex (ms js : List ℕ) : List ℕ :=
  (js.drop (js.length - ms.length)).zipWith (fun j m => if m = 1 then 0 else j) ms

theorem broadcasts_refl (ns : List ℕ) : Broadcasts ns ns := by
  refine ⟨le_rfl, ?_⟩
  rw [Nat.sub_self, drop_zero]
  exact forall₂_same.2 fun _ _ => Or.inl rfl

theorem broadcastIndex_mem_indices (h : Broadcasts ms ns) (hj : js ∈ indices ns) :
    broadcastIndex ms js ∈ indices ms := by
  obtain ⟨-, hall⟩ := h
  have hdrop : List.Forall₂ (· < ·) (js.drop (ns.length - ms.length)) (ns.drop (ns.length - ms.length)) :=
    forall₂_drop _ (mem_indices.1 hj)
  rw [broadcastIndex, length_of_mem_indices hj, mem_indices]
  generalize js.drop (ns.length - ms.length) = is at hdrop
  generalize ns.drop (ns.length - ms.length) = ks at hall hdrop
  induction hall generalizing is with
  | nil => simp
  | @cons m n ms ns hm _ ih =>
    obtain _ | ⟨hlt, hrest⟩ := hdrop
    refine List.Forall₂.cons ?_ (ih _ hrest)
    rcases hm with rfl | rfl
    · show ite .. < _
      split_ifs with h1
      · omega
      · exact hlt
    · exact Nat.one_pos

theorem Broadcasts.zero_notMem (h : Broadcasts ms ns) (hn : 0 ∉ ns) : 0 ∉ ms := by
  obtain ⟨js, hj⟩ := exists_mem_of_ne_nil _ (mt indices_eq_nil.1 hn)
  exact mt indices_eq_nil.2 (ne_nil_of_mem (broadcastIndex_mem_indices h hj))

theorem broadcastIndex_self (h : js ∈ indices ns) : broadcastIndex ns js = js := by
  rw [broadcastIndex, length_of_mem_indices h, Nat.sub_self, drop_zero]
  rw [mem_indices] at h
  induction h with
  | nil => rfl
  | @cons j n js ns hlt _ ih =>
    rw [zipWith_cons_cons, ih]
    split_ifs with hn
    · rw [show j = 0 by omega]
    · rfl

end Strided
