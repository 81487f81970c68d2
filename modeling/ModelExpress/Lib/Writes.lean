/-
  Lists of writes to a memory. `Makes P f` says that a step `f` does not fail and makes the writes that
  satisfy `P`; two steps that make the same writes, none in conflict, do the same (`Makes.eq`).
-/
import Mathlib.Data.List.Basic

namespace Writes

open List Function

universe u v
variable {A : Type u} {V : Type v} [DecidableEq A] {ws ws' : List (A × V)} {a : A}

def apply (ws : List (A × V)) (m : A → V) : A → V :=
  ws.foldl (fun m w => Function.update m w.1 w.2) m

theorem apply_append (ws ws' : List (A × V)) (m : A → V) :
    apply (ws ++ ws') m = apply ws' (apply ws m) := foldl_append

/-- No two writes put different values at one address. -/
def Functional (ws : List (A × V)) : Prop := ∀ a v v', (a, v) ∈ ws → (a, v') ∈ ws → v = v'

theorem apply_of_notMem (h : ∀ v, (a, v) ∉ ws) (m : A → V) : apply ws m a = m a := by
  induction ws generalizing m with
  | nil => rfl
  | cons w ws ih =>
    have hne : a ≠ w.1 := by
      rintro rfl
      exact h w.2 (mem_cons_self ..)
    calc apply (w :: ws) m a
        = apply ws (update m w.1 w.2) a := rfl
      _ = update m w.1 w.2 a := ih (fun v hv => h v (mem_cons_of_mem _ hv)) _
      _ = m a := update_of_ne hne ..

theorem apply_of_mem {v : V} (h : (a, v) ∈ ws) (huniq : ∀ v', (a, v') ∈ ws → v' = v) (m : A → V) :
    apply ws m a = v := by
  induction ws generalizing m with
  | nil => cases h
  | cons w ws ih =>
    show apply ws (update m w.1 w.2) a = v
    by_cases hw : ∃ v', (a, v') ∈ ws
    · -- written again later
      obtain ⟨v', hv'⟩ := hw
      obtain rfl := huniq v' (mem_cons_of_mem _ hv')
      exact ih hv' (fun _ hv => huniq _ (mem_cons_of_mem _ hv)) _
    · rw [apply_of_notMem (not_exists.1 hw)]
      rcases mem_cons.1 h with rfl | h
      · exact update_self ..
      · exact absurd ⟨v, h⟩ hw

theorem apply_congr (hmem : ∀ w, w ∈ ws ↔ w ∈ ws') (hf : Functional ws) (m : A → V) :
    apply ws m = apply ws' m := by
  funext a
  by_cases h : ∃ v, (a, v) ∈ ws
  · obtain ⟨v, hv⟩ := h
    rw [apply_of_mem hv fun v' hv' => hf a v' v hv' hv,
      apply_of_mem ((hmem _).1 hv) fun v' hv' => hf a v' v ((hmem _).2 hv') hv]
  · rw [apply_of_notMem (not_exists.1 h), apply_of_notMem fun v hv => h ⟨v, (hmem _).2 hv⟩]

section
universe w
variable {ε : Type w} {γ : Type*} {P Q : A × V → Prop} {f g : (A → V) → Except ε (A → V)}

/-- The step succeeds and makes the writes that satisfy `P`, in some order. -/
def Makes (P : A × V → Prop) (f : (A → V) → Except ε (A → V)) : Prop :=
  ∃ ws, (∀ w, w ∈ ws ↔ P w) ∧ ∀ m, f m = .ok (apply ws m)

theorem makes_apply (hmem : ∀ w, w ∈ ws ↔ P w) :
    Makes P (fun m => (.ok (apply ws m) : Except ε (A → V))) := ⟨ws, hmem, fun _ => rfl⟩

theorem Makes.of_iff (h : Makes P f) (hiff : ∀ w, P w ↔ Q w) : Makes Q f := by
  obtain ⟨ws, hmem, hf⟩ := h
  exact ⟨ws, fun w => (hmem w).trans (hiff w), hf⟩

theorem Makes.congr (h : Makes P f) (hgf : ∀ m, g m = f m) : Makes P g := by
  obtain ⟨ws, hmem, hf⟩ := h
  exact ⟨ws, hmem, fun m => (hgf m).trans (hf m)⟩

theorem Makes.bind (hf : Makes P f) (hg : Makes Q g) : Makes (fun w => P w ∨ Q w) (fun m => f m >>= g) := by
  obtain ⟨ws, hws, hf⟩ := hf
  obtain ⟨vs, hvs, hg⟩ := hg
  refine ⟨ws ++ vs, fun w => by rw [mem_append, hws, hvs], fun m => ?_⟩
  show f m >>= g = _
  rw [hf, apply_append]
  exact hg _

theorem makes_foldlM {P : γ → A × V → Prop} {f : (A → V) → γ → Except ε (A → V)} {l : List γ}
    (h : ∀ c ∈ l, Makes (P c) (f · c)) : Makes (fun w => ∃ c ∈ l, P c w) (l.foldlM f) := by
  induction l with
  | nil => exact ⟨[], by simp, fun _ => rfl⟩
  | cons c l ih =>
    have hstep := (h c (mem_cons_self ..)).bind (ih fun d hd => h d (mem_cons_of_mem _ hd))
    simpa only [← foldlM_cons, exists_mem_cons_iff] using hstep

theorem Makes.eq (hf : Makes P f) (hg : Makes P g) (hfun : ∀ a v v', P (a, v) → P (a, v') → v = v')
    (m : A → V) : f m = g m := by
  obtain ⟨ws, hws, hf⟩ := hf
  obtain ⟨vs, hvs, hg⟩ := hg
  rw [hf, hg, apply_congr (fun w => (hws w).trans (hvs w).symm) fun a v v' h h' =>
    hfun a v v' ((hws _).1 h) ((hws _).1 h')]

end

end Writes
