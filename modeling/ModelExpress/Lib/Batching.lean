/-
  Batches and arenas. `cut` cuts a list into batches from left to right; `carve` lays items out one after
  the other in an arena.
-/
import Mathlib.Algebra.BigOperators.Group.List.Basic
import Mathlib.Algebra.GroupWithZero.Nat
import Mathlib.Algebra.Order.Group.Nat

namespace Batching

open List

universe u v
variable {α : Type u} {σ : Type v}

/-! ## Batches -/

section
variable (add : σ → α → σ) (init : σ) (fits : σ → α → Prop) [∀ s a, Decidable (fits s a)]

def cut : List α → σ → List α → List (List α × σ)
  | current, s, [] => if current.isEmpty then [] else [(current, s)]
  | current, s, a :: l =>
    if ¬ current.isEmpty ∧ ¬ fits s a then (current, s) :: cut [a] (add init a) l
    else cut (current ++ [a]) (add s a) l

variable {add init fits}

theorem flatten_cut (current : List α) (s : σ) (l : List α) :
    ((cut add init fits current s l).map Prod.fst).flatten = current ++ l := by
  induction l generalizing current s with
  | nil =>
    rw [cut]
    split_ifs with h
    · simp [isEmpty_iff.1 h]
    · simp
  | cons a l ih =>
    rw [cut]
    split_ifs with h
    · rw [map_cons, flatten_cons, ih, singleton_append]
    · rw [ih, append_assoc, singleton_append]

theorem cut_invariant {P : List α → σ → Prop} {l current : List α} {s : σ} (hone : ∀ a ∈ l, P [a] (add init a))
    (hjoin : ∀ g s, ∀ a ∈ l, P g s → fits s a → P (g ++ [a]) (add s a))
    (hnil : current = [] → s = init) (hcurrent : current ≠ [] → P current s) :
    ∀ b ∈ cut add init fits current s l, b.1 ≠ [] ∧ P b.1 b.2 := by
  induction l generalizing current s with
  | nil =>
    intro b hb
    rw [cut] at hb
    split_ifs at hb with h
    · cases hb
    · obtain rfl := mem_singleton.1 hb
      have hne : current ≠ [] := fun hnil => h (isEmpty_iff.2 hnil)
      exact ⟨hne, hcurrent hne⟩
  | cons a l ih =>
    have ha := hone a (mem_cons_self ..)
    have hone' : ∀ b ∈ l, P [b] (add init b) := fun b hb => hone b (mem_cons_of_mem _ hb)
    have hjoin' : ∀ g s, ∀ b ∈ l, P g s → fits s b → P (g ++ [b]) (add s b) :=
      fun g s b hb => hjoin g s b (mem_cons_of_mem _ hb)
    rw [cut]
    split_ifs with h
    · have hne : current ≠ [] := fun hnil => h.1 (isEmpty_iff.2 hnil)
      rintro b hb
      rcases mem_cons.1 hb with rfl | hb
      · exact ⟨hne, hcurrent hne⟩
      · exact ih hone' hjoin' (fun hc => absurd hc (cons_ne_nil _ _)) (fun _ => ha) b hb
    · refine ih hone' hjoin' (fun hc => absurd hc (by simp)) fun _ => ?_
      by_cases hempty : current = []
      · rw [hempty, hnil hempty]
        exact ha
      · refine hjoin current s a (mem_cons_self ..) (hcurrent hempty) ?_
        by_contra hfit
        exact h ⟨fun hc => hempty (isEmpty_iff.1 hc), hfit⟩

end

/-! ## Arenas -/

def align (unit n : ℕ) : ℕ := (n + (unit - 1)) / unit * unit

theorem le_align {unit : ℕ} (h : 0 < unit) (n : ℕ) : n ≤ align unit n := by
  have hdiv := Nat.div_add_mod (n + (unit - 1)) unit
  have hmod := Nat.mod_lt (n + (unit - 1)) h
  have hcomm : align unit n = unit * ((n + (unit - 1)) / unit) := Nat.mul_comm ..
  omega

theorem dvd_align (unit n : ℕ) : unit ∣ align unit n := Nat.dvd_mul_left ..

structure Slot where
  start : ℕ
  length : ℕ
  deriving DecidableEq

def Slot.stop (r : Slot) : ℕ := r.start + r.length

section
variable (unit : ℕ) (size : α → ℕ)

def extent (l : List α) : ℕ := (l.map fun a => align unit (size a)).sum

def carve : ℕ → List α → List (α × Slot)
  | _, [] => []
  | offset, a :: l => (a, ⟨offset, size a⟩) :: carve (offset + align unit (size a)) l

variable {unit size}

theorem extent_append (l l' : List α) : extent unit size (l ++ l') = extent unit size l + extent unit size l' := by
  simp [extent]

theorem dvd_extent (l : List α) : unit ∣ extent unit size l := by
  induction l with
  | nil => exact Nat.dvd_zero _
  | cons a l ih => exact Nat.dvd_add (dvd_align ..) ih

theorem mem_carve (h : 0 < unit) {offset : ℕ} {l : List α} {x : α × Slot} (hx : x ∈ carve unit size offset l) :
    offset ≤ x.2.start ∧ x.2.stop ≤ offset + extent unit size l ∧ (unit ∣ offset → unit ∣ x.2.start) := by
  induction l generalizing offset with
  | nil => cases hx
  | cons a l ih =>
    have hext : extent unit size (a :: l) = align unit (size a) + extent unit size l := rfl
    have hle := le_align h (size a)
    rcases mem_cons.1 hx with rfl | hx
    · simp only [Slot.stop]
      exact ⟨le_rfl, by omega, id⟩
    · obtain ⟨hlow, _, hdvd⟩ := ih hx
      exact ⟨by omega, by omega, fun ho => hdvd (Nat.dvd_add ho (dvd_align ..))⟩

theorem pairwise_carve (h : 0 < unit) (offset : ℕ) (l : List α) :
    (carve unit size offset l).Pairwise fun x y => x.2.stop ≤ y.2.start := by
  induction l generalizing offset with
  | nil => exact List.Pairwise.nil
  | cons a l ih =>
    refine List.Pairwise.cons (fun y hy => ?_) (ih _)
    have hle := le_align h (size a)
    have hlow := (mem_carve h hy).1
    simp only [Slot.stop]
    omega

end

end Batching
