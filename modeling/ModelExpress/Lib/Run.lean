/-
  Runs of a state machine. Both rules, `invariant` and `later`, also come for runs whose steps all meet a
  condition (`Along`).
-/
import Mathlib.Data.List.Infix

namespace Run

open List

universe u v
variable {σ : Type u} {ε : Type v} (step : σ → ε → σ) (init : σ)

def run (es : List ε) : σ := es.foldl step init

@[simp] theorem run_nil : run step init [] = init := rfl

@[simp] theorem run_snoc (es : List ε) (e : ε) : run step init (es ++ [e]) = step (run step init es) e := by
  rw [run, foldl_append]
  rfl

/-- Every step of the run meets `ok` in the state it is taken from. -/
def Along (ok : σ → ε → Prop) (es : List ε) : Prop :=
  ∀ pre e, pre ++ [e] <+: es → ok (run step init pre) e

variable {step init} {ok : σ → ε → Prop} {es es₁ es₂ : List ε} {e : ε}

theorem Along.nil : Along step init ok [] := by
  intro pre e hpre
  simp at hpre

theorem Along.restrict (h : Along step init ok es₂) (hp : es₁ <+: es₂) : Along step init ok es₁ :=
  fun pre e hpre => h pre e (hpre.trans hp)

theorem Along.last (h : Along step init ok (es ++ [e])) : ok (run step init es) e :=
  h es e (prefix_refl _)

theorem Along.mono {ok' : σ → ε → Prop} (h : Along step init ok es) (hk : ∀ s e, ok s e → ok' s e) :
    Along step init ok' es := fun pre e hpre => hk _ e (h pre e hpre)

theorem Along.snoc (h : Along step init ok es) (he : ok (run step init es) e) : Along step init ok (es ++ [e]) := by
  intro pre e' hpre
  rcases prefix_concat_iff.1 hpre with heq | hpre
  · obtain ⟨rfl, hsame⟩ := append_inj' heq rfl
    cases hsame
    exact he
  · exact h pre e' hpre

theorem run_append : run step init (es₁ ++ es₂) = run step (run step init es₁) es₂ :=
  foldl_append

theorem Along.append (h₁ : Along step init ok es₁) (h₂ : Along step (run step init es₁) ok es₂) :
    Along step init ok (es₁ ++ es₂) := by
  induction es₂ using reverseRecOn with
  | nil => rwa [append_nil]
  | append_singleton es e ih =>
    rw [← append_assoc]
    refine (ih (h₂.restrict (prefix_append es [e]))).snoc ?_
    rw [run_append]
    exact h₂.last

theorem Along.and_invariant {I : σ → Prop} (h : Along step init ok es) (hI : ∀ es, I (run step init es)) :
    Along step init (fun s e => I s ∧ ok s e) es :=
  fun pre e hpre => ⟨hI pre, h pre e hpre⟩

variable {P : σ → Prop}

theorem invariant (h0 : P init) (hs : ∀ s e, P s → P (step s e)) (es : List ε) : P (run step init es) := by
  induction es using reverseRecOn with
  | nil => exact h0
  | append_singleton es e ih => rw [run_snoc]; exact hs _ e ih

theorem history {P : List ε → σ → Prop} (h0 : P [] init)
    (hs : ∀ es e, P es (run step init es) → P (es ++ [e]) (step (run step init es) e)) (es : List ε) :
    P es (run step init es) := by
  induction es using reverseRecOn with
  | nil => exact h0
  | append_singleton es e ih => rw [run_snoc]; exact hs es e ih

theorem history_of_mem {P : ε → Prop} {Q : List ε → σ → Prop} (h0 : Q [] init)
    (hs : ∀ es e, P e → Q es (run step init es) → Q (es ++ [e]) (step (run step init es) e))
    (h : ∀ e ∈ es, P e) : Q es (run step init es) := by
  induction es using reverseRecOn with
  | nil => exact h0
  | append_singleton es e ih =>
    rw [run_snoc]
    exact hs es e (h e (by simp)) (ih fun e' he' => h e' (by simp [he']))

theorem invariant_along (h0 : P init) (hs : ∀ s e, ok s e → P s → P (step s e))
    (h : Along step init ok es) : P (run step init es) := by
  induction es using reverseRecOn with
  | nil => exact h0
  | append_singleton es e ih =>
    rw [run_snoc]
    exact hs _ e h.last (ih (h.restrict (prefix_append es [e])))

theorem later (hs : ∀ s e, ok s e → P s → P (step s e)) (hp : es₁ <+: es₂)
    (h : Along step init ok es₂) (h₁ : P (run step init es₁)) : P (run step init es₂) := by
  obtain ⟨es, rfl⟩ := hp
  induction es using reverseRecOn with
  | nil => rwa [append_nil]
  | append_singleton es e ih =>
    rw [← append_assoc] at h ⊢
    rw [run_snoc]
    exact hs _ e h.last (ih (h.restrict (prefix_append _ [e])))

theorem stable (hs : ∀ s e, P s → P (step s e)) (hp : es₁ <+: es₂)
    (h₁ : P (run step init es₁)) : P (run step init es₂) :=
  later (fun s e (_ : True) => hs s e) hp (fun _ _ _ => trivial) h₁

section
variable {ο : Type*}

/-- What each step puts out, in order. -/
def trace (step : σ → ε → σ) (out : σ → ε → ο) : σ → List ε → List ο
  | _, [] => []
  | s, e :: es => out s e :: trace step out (step s e) es

variable {out : σ → ε → ο}

theorem trace_append : trace step out init (es₁ ++ es₂) = trace step out init es₁ ++ trace step out (run step init es₁) es₂ := by
  induction es₁ generalizing init with
  | nil => rfl
  | cons e es₁ ih => rw [cons_append, trace, ih, trace, cons_append]; rfl

theorem trace_snoc : trace step out init (es ++ [e]) = trace step out init es ++ [out (run step init es) e] :=
  trace_append

theorem trace_eq_append_cons {pre post : List ο} {o : ο} (h : trace step out init es = pre ++ o :: post) :
    ∃ es₁ e es₂, es = es₁ ++ e :: es₂ ∧ pre = trace step out init es₁ ∧ o = out (run step init es₁) e := by
  induction es generalizing init pre with
  | nil => simp [trace] at h
  | cons e es ih =>
    cases pre with
    | nil =>
      obtain ⟨rfl, -⟩ := cons.inj h
      exact ⟨[], e, es, rfl, rfl, rfl⟩
    | cons =>
      obtain ⟨rfl, htail⟩ := cons.inj h
      obtain ⟨es₁, e', es₂, rfl, rfl, rfl⟩ := ih htail
      exact ⟨e :: es₁, e', es₂, rfl, rfl, rfl⟩

end

/-- Every step of the run passes the check. -/
def check (step : σ → ε → σ) (test : σ → ε → Bool) : σ → List ε → Bool
  | _, [] => true
  | s, e :: es => test s e && check step test (step s e) es

theorem along_of_check (test : σ → ε → Bool) (ht : ∀ s e, test s e = true → ok s e)
    (h : check step test init es = true) : Along step init ok es := by
  induction es generalizing init with
  | nil => exact .nil
  | cons e₀ es ih =>
    simp only [check, Bool.and_eq_true] at h
    intro pre e hpre
    cases pre with
    | nil =>
      obtain ⟨rfl, -⟩ := cons_prefix_cons.1 hpre
      exact ht _ _ h.1
    | cons e₁ pre =>
      obtain ⟨rfl, htail⟩ := cons_prefix_cons.1 hpre
      exact ih h.2 pre e htail

end Run
