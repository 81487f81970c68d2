/-
  Association lists read by lookups. An `AList` holds every key once; `set` writes an entry as an ordered
  dictionary does.
-/
import Mathlib.Data.List.AList

namespace Assoc

open List Function

universe u v
variable {α : Type u} {β : α → Type v} {s : AList β} {l : List α}

theorem length_keys : s.keys.length = s.entries.length := length_map _

theorem mem_of_length (hsub : ∀ a ∈ s, a ∈ l) (hlen : s.entries.length = l.length) : ∀ a ∈ l, a ∈ s := by
  have hsp : s.keys.Subperm l := subperm_of_subset s.nodupKeys hsub
  have hp : s.keys.Perm l := hsp.perm_of_length_le (by rw [length_keys, hlen])
  intro a ha
  exact hp.mem_iff.2 ha

theorem length_of_mem (hl : l.Nodup) (hsub : ∀ a, a ∈ s ↔ a ∈ l) : s.entries.length = l.length := by
  rw [← length_keys]
  exact ((perm_ext_iff_of_nodup s.nodupKeys hl).2 hsub).length_eq

variable [DecidableEq α] {a b q : α} {P : Sigma β → Prop}

theorem forall_entries : (∀ e ∈ s.entries, P e) ↔ ∀ a b, s.lookup a = some b → P ⟨a, b⟩ :=
  ⟨fun h _ _ hl => h _ (AList.mem_lookup_iff.1 hl), fun h e he => h e.1 e.2 (AList.mem_lookup_iff.2 he)⟩

theorem exists_entries : (∃ e ∈ s.entries, P e) ↔ ∃ a b, s.lookup a = some b ∧ P ⟨a, b⟩ :=
  ⟨fun ⟨e, he, h⟩ => ⟨e.1, e.2, AList.mem_lookup_iff.2 he, h⟩,
    fun ⟨_, _, hl, h⟩ => ⟨_, AList.mem_lookup_iff.1 hl, h⟩⟩

theorem of_update {γ : Type v} {P : γ → Prop} {f : α → γ} {c : γ} (h : P (update f a c b)) :
    b = a ∧ P c ∨ b ≠ a ∧ P (f b) := by
  by_cases hb : b = a
  · subst hb
    rw [update_self] at h
    exact Or.inl ⟨rfl, h⟩
  · rw [update_of_ne hb] at h
    exact Or.inr ⟨hb, h⟩

section
variable {γ : Type v} {f : α → Option γ} {a b : α} {o : Option γ} {y : γ}

theorem update_cases (h : update f a o b = some y) : b = a ∧ o = some y ∨ b ≠ a ∧ f b = some y :=
  of_update (P := (· = some y)) h

theorem of_update_none (h : update f a none b = some y) : f b = some y := by
  obtain ⟨-, ⟨⟩⟩ | ⟨-, h⟩ := update_cases h
  exact h

theorem update_fresh (ha : f a = none) (hb : f b = some y) : update f a o b = some y := by
  refine (update_of_ne ?_ ..).trans hb
  rintro rfl
  cases ha.symm.trans hb

end

variable {a : α}

theorem mem_iff_lookup : a ∈ s ↔ ∃ b, s.lookup a = some b := by
  rw [← AList.lookup_isSome, Option.isSome_iff_exists]

variable {γ : Type v} {l : List (α × γ)}

theorem lookup_singleton {c y : γ} : (AList.singleton a c : AList fun _ => γ).lookup b = some y ↔ b = a ∧ c = y := by
  rw [← AList.insert_empty]
  by_cases h : b = a
  · subst h
    rw [AList.lookup_insert, Option.some.injEq, and_iff_right rfl]
  · rw [AList.lookup_insert_ne h, AList.lookup_empty]
    simp [h]

theorem notMem_iff_lookup : a ∉ s ↔ s.lookup a = none := AList.lookup_eq_none.symm

theorem lookup_iff_mem (h : (l.map Prod.fst).Nodup) {c : γ} : l.lookup a = some c ↔ (a, c) ∈ l := by
  induction l with
  | nil => simp
  | cons p l ih =>
    obtain ⟨hp, hl⟩ := nodup_cons.1 h
    rw [lookup_cons, mem_cons]
    by_cases hap : a = p.1
    · have hnot : (a, c) ∉ l := fun hmem => hp (hap ▸ mem_map_of_mem (f := Prod.fst) hmem)
      simp only [hap, beq_self_eq_true, Option.some.injEq]
      constructor
      · rintro rfl
        exact .inl rfl
      · rintro (heq | hmem)
        · exact (congrArg Prod.snd heq).symm
        · exact absurd (hap ▸ hmem) hnot
    · have hne : (a, c) ≠ p := fun heq => hap (congrArg Prod.fst heq)
      rw [beq_eq_false_iff_ne.2 hap, or_iff_right hne]
      exact ih hl

theorem reverse_lookup_iff_mem (h : (l.map Prod.fst).Nodup) {c : γ} : l.reverse.lookup a = some c ↔ (a, c) ∈ l := by
  rw [lookup_iff_mem (by rwa [map_reverse, nodup_reverse]), mem_reverse]

omit [DecidableEq α] in
theorem nodupKeys_concat (b : β a) (h : a ∉ s) : (s.entries ++ [(⟨a, b⟩ : Sigma β)]).NodupKeys := by
  rw [List.NodupKeys, keys, map_append]
  refine nodup_append.2 ⟨s.nodupKeys, nodup_singleton a, fun x hx y hy hxy => h ?_⟩
  obtain rfl : y = a := mem_singleton.1 hy
  exact hxy ▸ hx

def set (s : AList β) (a : α) (b : β a) : AList β :=
  if h : a ∈ s then s.replace a b else ⟨s.entries ++ [⟨a, b⟩], nodupKeys_concat b h⟩

def extend (s : AList β) (l : List (Sigma β)) : AList β := l.foldl (fun s e => set s e.1 e.2) s

theorem mem_set {b : β a} : q ∈ set s a b ↔ q ∈ s ∨ q = a := by
  unfold set
  split_ifs with h
  · rw [AList.mem_replace]
    exact ⟨Or.inl, fun hq => hq.elim id fun hqa => hqa ▸ h⟩
  · show q ∈ (s.entries ++ [(⟨a, b⟩ : Sigma β)]).keys ↔ q ∈ s.entries.keys ∨ q = a
    rw [keys, map_append, mem_append, ← keys]
    exact or_congr_right mem_singleton

theorem mem_extend {l : List (Sigma β)} : q ∈ extend s l ↔ q ∈ s ∨ q ∈ l.keys := by
  induction l generalizing s with
  | nil => simp [extend]
  | cons e l ih =>
    have hstep : extend s (e :: l) = extend (set s e.1 e.2) l := rfl
    rw [hstep, ih, mem_set, keys_cons, mem_cons, or_assoc]

theorem entries_extend {l : List (Sigma β)} (hnew : ∀ a ∈ l.keys, a ∉ s) (hl : l.NodupKeys) :
    (extend s l).entries = s.entries ++ l := by
  induction l generalizing s with
  | nil => simp [extend]
  | cons e l ih =>
    have he : e.1 ∉ s := hnew e.1 (mem_cons_self ..)
    rw [nodupKeys_cons] at hl
    have hset : (set s e.1 e.2).entries = s.entries ++ [e] := by rw [set, dif_neg he]
    have hstep : extend s (e :: l) = extend (set s e.1 e.2) l := rfl
    rw [hstep, ih (fun a ha => ?_) hl.2, hset, append_assoc, singleton_append]
    rw [mem_set, not_or]
    exact ⟨hnew a (mem_cons_of_mem _ ha), fun hae => hl.1 (hae ▸ ha)⟩

end Assoc
