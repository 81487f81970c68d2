/-
  Sequences of checks in `Except`. The simp lemmas turn a `do` block of `ensure`s and loops into the
  conjunction of its conditions.
-/
import Mathlib.Data.List.Forall2

namespace Checks

open List

universe u v
variable {ε : Type u} {α β : Type v} {e : ε}

def ensure (p : Prop) [Decidable p] (e : ε) : Except ε Unit := if p then .ok () else .error e

@[simp] theorem ensure_eq_ok {p : Prop} [Decidable p] {u : Unit} : ensure p e = .ok u ↔ p := by
  unfold ensure; split_ifs with h <;> simp [h]

def found (o : Option α) (e : ε) : Except ε α := o.elim (.error e) .ok

variable {a : α}

@[simp] theorem found_eq_ok {o : Option α} : found o e = .ok a ↔ o = some a := by
  cases o <;> simp [found]

@[simp] theorem pure_eq_ok {a' : α} : (pure a : Except ε α) = .ok a' ↔ a = a' := by
  simp [pure, Except.pure]

variable {f : α → Except ε β} {b : β} {x : Except ε α}

@[simp] theorem bind_eq_ok : (x >>= f) = .ok b ↔ ∃ a, x = .ok a ∧ f a = .ok b := by
  cases x with
  | error e | ok a => simp [bind, Except.bind]

@[simp] theorem mapError_eq_ok {ε' : Type u} {g : ε → ε'} : x.mapError g = .ok a ↔ x = .ok a := by
  cases x <;> simp [Except.mapError]

@[simp] theorem forM_eq_ok {f : α → Except ε PUnit} :
    ∀ {l : List α} {u : PUnit}, forM l f = .ok u ↔ ∀ a ∈ l, f a = .ok ⟨⟩
  | [], u => by simp
  | a :: l, u => by
    rw [forM_cons, bind_eq_ok, forall_mem_cons]
    exact ⟨fun ⟨_, h₁, h₂⟩ => ⟨h₁, forM_eq_ok.1 h₂⟩, fun ⟨h₁, h₂⟩ => ⟨⟨⟩, h₁, forM_eq_ok.2 h₂⟩⟩

theorem mapM_eq_ok :
    ∀ {l : List α} {r : List β}, l.mapM f = .ok r ↔ List.Forall₂ (fun a b => f a = .ok b) l r
  | [], r => by simp [eq_comm (b := r)]
  | a :: l, r => by
    rw [mapM_cons, bind_eq_ok, forall₂_cons_left_iff]
    refine exists_congr fun b => ?_
    simp only [bind_eq_ok, mapM_eq_ok (l := l), pure_eq_ok, eq_comm (b := r)]
    exact ⟨fun ⟨h, bs, hbs, hr⟩ => ⟨bs, h, hbs, hr⟩, fun ⟨bs, h, hbs, hr⟩ => ⟨h, bs, hbs, hr⟩⟩

variable {l : List α}

theorem mapM_ok_map {g : α → β} (h : ∀ a ∈ l, f a = .ok (g a)) : l.mapM f = .ok (l.map g) :=
  mapM_eq_ok.2 (forall₂_map_right_iff.2 (forall₂_same.2 h))

theorem exists_mapM (h : ∀ a ∈ l, ∃ b, f a = .ok b) : ∃ r, l.mapM f = .ok r := by
  induction l with
  | nil => exact ⟨[], rfl⟩
  | cons a l ih =>
    obtain ⟨b, hb⟩ := h a (mem_cons_self ..)
    obtain ⟨r, hr⟩ := ih fun a ha => h a (mem_cons_of_mem _ ha)
    exact ⟨b :: r, mapM_eq_ok.2 (.cons hb (mapM_eq_ok.1 hr))⟩

variable {r : List β}

theorem exists_of_mem_right {R : α → β → Prop} (h : List.Forall₂ R l r) (hb : b ∈ r) : ∃ a ∈ l, R a b := by
  induction h with
  | nil => cases hb
  | cons hab _ ih =>
    rcases mem_cons.1 hb with rfl | hb
    · exact ⟨_, mem_cons_self .., hab⟩
    · obtain ⟨a, ha, hab⟩ := ih hb
      exact ⟨a, mem_cons_of_mem _ ha, hab⟩

theorem mem_of_mapM (h : l.mapM f = .ok r) : b ∈ r ↔ ∃ a ∈ l, f a = .ok b := by
  have hall := mapM_eq_ok.1 h
  refine ⟨exists_of_mem_right hall, fun ⟨a, ha, hab⟩ => ?_⟩
  obtain ⟨b', hb', hab'⟩ := exists_of_mem_right hall.flip ha
  cases hab.symm.trans hab'
  exact hb'

theorem exists_mem_of_mapM (h : l.mapM f = .ok r) (ha : a ∈ l) :
    ∃ b ∈ r, f a = .ok b :=
  exists_of_mem_right (mapM_eq_ok.1 h).flip ha

theorem flatten_of_mapM {ι σ γ : Type v} {f : ι → Except ε (Option σ)} {g : σ → Except ε (List γ)} {F : ι → List γ}
    {items : List ι} {os : List (Option σ)} {rs : List (List γ)} (hf : List.Forall₂ (fun i o => f i = .ok o) items os)
    (hg : (os.filterMap id).mapM g = .ok rs)
    (hF : ∀ i ∈ items, ∀ o, f i = .ok o → (o = none → F i = []) ∧ ∀ s r, o = some s → g s = .ok r → F i = r) :
    rs.flatten = items.flatMap F := by
  induction hf generalizing rs with
  | nil =>
    obtain rfl : [] = rs := Except.ok.inj hg
    rfl
  | @cons i o items os hi _ ih =>
    have ih : ∀ {rs}, (os.filterMap id).mapM g = .ok rs → rs.flatten = items.flatMap F :=
      fun h => ih h fun j hj => hF j (mem_cons_of_mem _ hj)
    obtain ⟨hnone, hsome⟩ := hF i (mem_cons_self ..) o hi
    cases o with
    | none => rw [flatMap_cons, hnone rfl, nil_append, ih hg]
    | some s =>
      rw [filterMap_cons, id_eq, mapM_cons, bind_eq_ok] at hg
      obtain ⟨r, hr, hg⟩ := hg
      rw [bind_eq_ok] at hg
      obtain ⟨rest, hrest, hrs⟩ := hg
      obtain rfl : r :: rest = rs := Except.ok.inj hrs
      rw [flatMap_cons, hsome s r rfl hr, flatten_cons, ih hrest]

variable {γ : Type*} {l : List γ} {f : α → γ → Except ε α} {s s' : α}

theorem foldlM_invariant {P : α → Prop}
    (h : ∀ c ∈ l, ∀ s s', P s → f s c = .ok s' → P s') (hs : P s) (hl : l.foldlM f s = .ok s') : P s' := by
  induction l generalizing s with
  | nil =>
    cases hl
    exact hs
  | cons c l ih =>
    rw [foldlM_cons, bind_eq_ok] at hl
    obtain ⟨s₁, hs₁, hl⟩ := hl
    exact ih (fun d hd => h d (mem_cons_of_mem _ hd)) (h c (mem_cons_self ..) s s₁ hs hs₁) hl

theorem exists_step_of_foldlM (hl : l.foldlM f s = .ok s') {c : γ} (hc : c ∈ l) : ∃ t t', f t c = .ok t' := by
  induction l generalizing s with
  | nil => cases hc
  | cons d l ih =>
    rw [foldlM_cons, bind_eq_ok] at hl
    obtain ⟨s₁, hs₁, hl⟩ := hl
    rcases mem_cons.1 hc with rfl | hc
    · exact ⟨s, s₁, hs₁⟩
    · exact ih hl hc

theorem foldlM_snd {t : α} {f : α × β → γ → Except ε (α × β)}
    (h : ∀ c ∈ l, ∀ b s, f (t, b) c = .ok s → s.1 = t) (b : β) :
    (l.foldlM f (t, b) >>= fun s => .ok s.2) = l.foldlM (fun b c => (f (t, b) c).map Prod.snd) b := by
  induction l generalizing b with
  | nil => rfl
  | cons c l ih =>
    rw [foldlM_cons, foldlM_cons, bind_assoc]
    cases hs : f (t, b) c with
    | error e => rfl
    | ok s =>
      have hfst : s = (t, s.2) := Prod.ext (h c (mem_cons_self ..) b s hs) rfl
      rw [hfst]
      exact ih (fun d hd => h d (mem_cons_of_mem _ hd)) s.2

end Checks
