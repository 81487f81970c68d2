/-
  Programs with a state and exceptions, and the traces they leave. `wp x Q E s` says that the `EStateM`
  program `x`, run from `s`, returns with `Q` or raises with `E`.
-/
import Mathlib.Data.List.Infix

namespace Effects

open List

/-! ## Weakest preconditions -/

variable {c p : Prop} {y : EStateM ε σ β} {γ : Type} {l : List γ}

section
variable {ε σ α β : Type}

def wp (x : EStateM ε σ α) (Q : α → σ → Prop) (E : ε → σ → Prop) (s : σ) : Prop :=
  match x s with
  | .ok a s' => Q a s'
  | .error e s' => E e s'

/-- However `x` ends, `P` holds. -/
abbrev ends (x : EStateM ε σ α) (P : σ → Prop) (s : σ) : Prop := wp x (fun _ => P) (fun _ => P) s

variable {x : EStateM ε σ α} {f : α → EStateM ε σ β} {Q Q' : α → σ → Prop} {R : β → σ → Prop}
  {E E' : ε → σ → Prop} {s : σ} {y : EStateM ε σ α} {h : ε → EStateM ε σ α} {g : σ → σ} {s' : σ} {e : ε}

@[simp] theorem wp_pure (a : α) : wp (pure a : EStateM ε σ α) Q E s ↔ Q a s := Iff.rfl

@[simp] theorem wp_throw (e : ε) : wp (throw e : EStateM ε σ α) Q E s ↔ E e s := Iff.rfl

@[simp] theorem wp_get {Q : σ → σ → Prop} : wp (get : EStateM ε σ σ) Q E s ↔ Q s s := Iff.rfl

@[simp] theorem wp_modify {Q : PUnit → σ → Prop} (g : σ → σ) :
    wp (modify g : EStateM ε σ PUnit) Q E s ↔ Q ⟨⟩ (g s) := Iff.rfl

@[simp] theorem wp_bind : wp (x >>= f) R E s ↔ wp x (fun a s => wp (f a) R E s) E s := by
  simp only [wp, bind, EStateM.bind]
  cases x s <;> rfl

@[simp] theorem wp_map (g : α → β) : wp (g <$> x) R E s ↔ wp x (fun a => R (g a)) E s := by
  simp only [wp, Functor.map, EStateM.map]
  cases x s <;> rfl

@[simp] theorem wp_ite [Decidable c] : wp (if c then x else y) Q E s ↔ (c → wp x Q E s) ∧ (¬ c → wp y Q E s) := by
  split_ifs with hc <;> simp [hc]

@[simp] theorem wp_tryCatch (h : ε → EStateM ε σ α) :
    wp (tryCatch x h) Q E s ↔ wp x Q (fun e s => wp (h e) Q E s) s := by
  simp only [wp, tryCatch, tryCatchThe, MonadExceptOf.tryCatch, EStateM.tryCatch]
  cases x s <;> rfl

@[simp] theorem wp_tryFinally (y : EStateM ε σ β) :
    wp (tryFinally x y) Q E s ↔
      wp x (fun a s => wp y (fun _ => Q a) E s) (fun e s => wp y (fun _ => E e) E s) s := by
  simp only [wp, tryFinally, tryFinally', Functor.map, EStateM.map]
  cases x s with
  | ok a s' =>
    dsimp only
    cases y s' <;> rfl
  | error e s' =>
    dsimp only
    cases y s' <;> rfl

def attempt (x : EStateM ε σ α) : EStateM ε σ (Except ε α) := tryCatch (Except.ok <$> x) fun e => pure (.error e)

@[simp] theorem wp_attempt {Q : Except ε α → σ → Prop} :
    wp (attempt x) Q E s ↔ wp x (fun a => Q (.ok a)) (fun e => Q (.error e)) s := by
  simp only [attempt, wp_tryCatch, wp_map, wp_pure]

theorem wp.mono (h : wp x Q E s) (hQ : ∀ a s, Q a s → Q' a s) (hE : ∀ e s, E e s → E' e s) : wp x Q' E' s := by
  revert h
  simp only [wp]
  cases x s with
  | ok a s' => exact hQ a s'
  | error e s' => exact hE e s'

theorem wp.imp (h : wp x Q E s) (hQ : ∀ a s, Q a s → Q' a s) : wp x Q' E s := h.mono hQ fun _ _ h => h

theorem wp_trivial : wp x (fun _ _ => True) (fun _ _ => True) s := by
  rw [wp]
  cases x s <;> trivial

theorem wp.bind (hx : wp x Q E s) (hf : ∀ a s, Q a s → wp (f a) R E s) : wp (x >>= f) R E s :=
  wp_bind.2 (hx.imp hf)

theorem wp_of_ok {a : α} (h : x s = .ok a s') : wp x Q E s ↔ Q a s' := by
  rw [wp, h]

theorem wp_of_error (h : x s = .error e s') : wp x Q E s ↔ E e s' := by
  rw [wp, h]

theorem wp.and {Q₁ : α → σ → Prop} {E₁ : ε → σ → Prop} (h : wp x Q E s) (h₁ : wp x Q₁ E₁ s) :
    wp x (fun a s => Q a s ∧ Q₁ a s) (fun e s => E e s ∧ E₁ e s) s := by
  revert h h₁
  simp only [wp]
  cases x s <;> exact And.intro

/-- `x` keeps `I` when it returns, and raises with `J`. -/
def Keeps (I : σ → Prop) (J : ε → σ → Prop) (x : EStateM ε σ α) : Prop := ∀ s, I s → wp x (fun _ => I) J s

section
variable {I : σ → Prop} {J : ε → σ → Prop}

theorem keeps_pure (a : α) : Keeps I J (pure a) := fun _ h => h

theorem keeps_get : Keeps I J get := fun _ h => h

theorem keeps_throw (h : ∀ s, I s → J e s) : Keeps I J (throw e : EStateM ε σ α) := h

theorem keeps_modify (h : ∀ s, I s → I (g s)) : Keeps I J (modify g : EStateM ε σ PUnit) := h

theorem Keeps.bind (hx : Keeps I J x) (hf : ∀ a, Keeps I J (f a)) : Keeps I J (x >>= f) := by
  intro s hs
  exact wp_bind.2 ((hx s hs).imp fun a s' h => hf a s' h)

theorem Keeps.map (g : α → β) (hx : Keeps I J x) : Keeps I J (g <$> x) := by
  intro s hs
  exact (wp_map g).2 (hx s hs)

theorem Keeps.ite [Decidable c] (hx : c → Keeps I J x) (hy : ¬ c → Keeps I J y) : Keeps I J (if c then x else y) := by
  split_ifs with hc
  · exact hx hc
  · exact hy hc

theorem Keeps.tryCatch {J' : ε → σ → Prop} (hx : Keeps I J' x)
    (hh : ∀ e s, J' e s → wp (h e) (fun _ => I) J s) : Keeps I J (MonadExcept.tryCatch x h) := by
  intro s hs
  exact (wp_tryCatch h).2 ((hx s hs).mono (fun _ _ h => h) fun e s' h => hh e s' h)

theorem Keeps.tryFinally (hx : Keeps I (fun _ => I) x) (hy : Keeps I (fun _ => I) y) :
    Keeps I (fun _ => I) (tryFinally x y) :=
  fun s hs => (wp_tryFinally y).2 ((hx s hs).mono (fun _ s' h => hy s' h) fun _ s' h => hy s' h)

theorem Keeps.forM {g : γ → EStateM ε σ PUnit} (h : ∀ c ∈ l, Keeps I J (g c)) : Keeps I J (ForM.forM l g) := by
  induction l with
  | nil => exact keeps_pure _
  | cons c l ih =>
    rw [forM_cons]
    exact (h c (mem_cons_self ..)).bind fun _ => ih fun c' hc' => h c' (mem_cons_of_mem _ hc')

end

/-! ## Programs that take only certain steps -/

/-- The property is kept by every step of `R`. -/
def Framed (R : σ → σ → Prop) (I : σ → Prop) : Prop := ∀ s s', R s s' → I s → I s'

/-- The program changes the state only by steps of `R`, whether it returns or raises. -/
def Within (R : σ → σ → Prop) (x : EStateM ε σ α) : Prop := ∀ I, Framed R I → Keeps I (fun _ => I) x

section
variable {R R' : σ → σ → Prop}

theorem Within.mono (hx : Within R x) (hR : ∀ s s', R s s' → R' s s') : Within R' x :=
  fun I hI => hx I fun s s' h => hI s s' (hR s s' h)

theorem within_pure (a : α) : Within R (pure a : EStateM ε σ α) := fun _ _ => keeps_pure a

theorem within_throw (e : ε) : Within R (throw e : EStateM ε σ α) := fun _ _ => keeps_throw fun _ h => h

theorem within_get : Within R (get : EStateM ε σ σ) := fun _ _ => keeps_get

theorem within_modify (hg : ∀ s, R s (g s)) : Within R (modify g : EStateM ε σ PUnit) :=
  fun _ hI => keeps_modify fun s h => hI s (g s) (hg s) h

theorem Within.bind (hx : Within R x) (hf : ∀ a, Within R (f a)) : Within R (x >>= f) :=
  fun I hI => (hx I hI).bind fun a => hf a I hI

theorem Within.map (g : α → β) (hx : Within R x) : Within R (g <$> x) := fun I hI => (hx I hI).map g

section
variable (hx : Within R x)
include hx

theorem Within.ite [Decidable p] (hy : Within R y) : Within R (if p then x else y) :=
  fun I hI => Keeps.ite (fun _ => hx I hI) fun _ => hy I hI

theorem Within.tryCatch (hh : ∀ e, Within R (h e)) : Within R (MonadExcept.tryCatch x h) :=
  fun I hI => (hx I hI).tryCatch fun e s hs => hh e I hI s hs

theorem Within.attempt : Within R (Effects.attempt x) :=
  (hx.map _).tryCatch fun _ => within_pure _

theorem Within.tryFinally (hy : Within R y) : Within R (tryFinally x y) :=
  fun I hI => (hx I hI).tryFinally (hy I hI)

end

theorem Within.forM {g : γ → EStateM ε σ PUnit} (h : ∀ a ∈ l, Within R (g a)) : Within R (ForM.forM l g) :=
  fun I hI => Keeps.forM fun a ha => h a ha I hI

end

/-! ## What is returned -/

/-- What the program returns meets `P`, from any state. -/
def Returns (P : α → σ → Prop) (x : EStateM ε σ α) : Prop := ∀ s, wp x P (fun _ _ => True) s

section
variable {P : α → σ → Prop} {P' : β → σ → Prop}

theorem returns_throw (e : ε) : Returns P (throw e : EStateM ε σ α) := fun _ => trivial

theorem Returns.bind (hf : ∀ a, Returns P' (f a)) : Returns P' (x >>= f) :=
  fun _ => wp_bind.2 (wp_trivial.imp fun a s _ => hf a s)

theorem Returns.ite [Decidable p] (hx : Returns P x) (hy : Returns P y) : Returns P (if p then x else y) :=
  fun s => wp_ite.2 ⟨fun _ => hx s, fun _ => hy s⟩

theorem Returns.tryCatch (hx : Returns P x) (hh : ∀ e, Returns P (h e)) : Returns P (MonadExcept.tryCatch x h) :=
  fun s => (wp_tryCatch h).2 ((hx s).mono (fun _ _ h => h) fun e s' _ => hh e s')

theorem Within.bindReturns {S : σ → σ → Prop} {A : α → Prop} (hx : Within S x) (hA : Returns (fun a _ => A a) x)
    (hf : ∀ a, A a → Within S (f a)) : Within S (x >>= f) :=
  fun I hI s hs => wp_bind.2 (((hx I hI s hs).and (hA s)).mono (fun a s' h => hf a h.2 I hI s' h.1) fun _ _ h => h.1)

end

def final (x : EStateM ε σ α) (s : σ) : σ :=
  match x s with
  | .ok _ s' | .error _ s' => s'

theorem wp.final {P : σ → Prop} (h : ends x P s) : P (final x s) := by
  revert h
  simp only [wp, Effects.final]
  cases x s <;> exact id

end

/-! ## Traces -/

section
variable {ε : Type} {ok : List ε → ε → Prop} {t : List ε} {e : ε}

/-- Every event of the trace was allowed by what stood before it. -/
def Throughout (ok : List ε → ε → Prop) (t : List ε) : Prop := ∀ pre e, pre ++ [e] <+: t → ok pre e

@[simp] theorem throughout_nil : Throughout ok [] := by
  intro pre e hpre
  simp at hpre

@[simp] theorem throughout_snoc : Throughout ok (t ++ [e]) ↔ Throughout ok t ∧ ok t e := by
  constructor
  · intro h
    exact ⟨fun pre e' hpre => h pre e' (hpre.trans (prefix_append _ _)), h t e (prefix_refl _)⟩
  · rintro ⟨ht, he⟩ pre e' hpre
    rcases prefix_concat_iff.1 hpre with heq | hpre
    · obtain ⟨rfl, hsame⟩ := append_inj' heq rfl
      cases hsame
      exact he
    · exact ht pre e' hpre

end

end Effects
