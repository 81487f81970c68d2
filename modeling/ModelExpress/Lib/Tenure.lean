/-
  What the events of a run last gave, unless it has ended since: a claim is granted and released, a lease is
  extended and dropped.
-/
import Mathlib.Data.List.Induction
import Mathlib.Data.List.Nodup

namespace Tenure

open List Option

variable {ε ι : Type*} (gives : ε → Option ι) (ends : ε → Bool)

/-- The value given last and not ended since. -/
def current (es : List ε) : Option ι := es.foldl (fun now e => (gives e).or (if ends e then none else now)) none

variable {gives ends} {es : List ε} {c : ι} {e : ε} {g g' : ε}

theorem current_snoc :
    current gives ends (es ++ [e]) = (gives e).or (if ends e then none else current gives ends es) := by
  rw [current, foldl_append]
  rfl

theorem current_snoc_of_gives (h : gives e = some c) : current gives ends (es ++ [e]) = some c := by
  rw [current_snoc, h, some_or]

theorem current_snoc_of_ends (hgives : gives e = none) (hends : ends e = true) :
    current gives ends (es ++ [e]) = none := by
  rw [current_snoc, hgives, if_pos hends, none_or]

theorem current_snoc_of_neither (hgives : gives e = none) (hends : ends e = false) :
    current gives ends (es ++ [e]) = current gives ends es := by
  rw [current_snoc, hgives, hends, none_or]
  rfl

/-- **What is current was given, and since then nothing was given or ended.** -/
theorem current_eq_some_iff :
    current gives ends es = some c ↔
      ∃ pre g post, es = pre ++ g :: post ∧ gives g = some c ∧ ∀ e ∈ post, gives e = none ∧ ends e = false := by
  induction es using reverseRecOn with
  | nil => simp [current]
  | append_singleton es e ih =>
    constructor
    · intro h
      cases hgives : gives e with
      | some c' =>
        rw [current_snoc_of_gives hgives] at h
        exact ⟨es, e, [], rfl, hgives.trans h, by simp⟩
      | none =>
        cases hends : ends e with
        | true =>
          rw [current_snoc_of_ends hgives hends] at h
          cases h
        | false =>
          rw [current_snoc_of_neither hgives hends] at h
          obtain ⟨pre, g, post, rfl, hg, hpost⟩ := ih.1 h
          refine ⟨pre, g, post ++ [e], by simp, hg, fun e' he' => ?_⟩
          rcases mem_append.1 he' with he' | he'
          · exact hpost e' he'
          · rw [mem_singleton.1 he']
            exact ⟨hgives, hends⟩
    · rintro ⟨pre, g, post, heq, hg, hpost⟩
      rcases eq_nil_or_concat post with rfl | ⟨post, e', rfl⟩
      · obtain ⟨rfl, hlast⟩ := append_inj' heq rfl
        obtain rfl : e = g := singleton_inj.1 hlast
        exact current_snoc_of_gives hg
      · rw [concat_eq_append, ← cons_append, ← append_assoc] at heq
        obtain ⟨rfl, hlast⟩ := append_inj' heq rfl
        obtain rfl : e = e' := singleton_inj.1 hlast
        obtain ⟨hgives, hends⟩ := hpost e (by simp)
        rw [current_snoc_of_neither hgives hends]
        exact ih.2 ⟨pre, g, post, rfl, hg, fun e he => hpost e (by simp [he])⟩

theorem exists_gives_of_ends {pre mid : List ε} {f : ε} (hgives : gives f = none) (hends : ends f = true)
    (h : current gives ends (pre ++ f :: mid) = some c) : ∃ g ∈ mid, gives g = some c := by
  induction mid using reverseRecOn with
  | nil =>
    rw [current_snoc_of_ends hgives hends] at h
    cases h
  | append_singleton mid e ih =>
    rw [← cons_append, ← append_assoc, current_snoc] at h
    cases hg : gives e with
    | some c' =>
      rw [hg, some_or] at h
      exact ⟨e, by simp, hg.trans h⟩
    | none =>
      rw [hg, none_or] at h
      split_ifs at h
      obtain ⟨g, hmem, hgives'⟩ := ih h
      exact ⟨g, mem_append_left _ hmem, hgives'⟩

theorem exists_gives (h : current gives ends es = some c) : ∃ g ∈ es, gives g = some c := by
  obtain ⟨pre, g, post, rfl, hg, -⟩ := current_eq_some_iff.1 h
  exact ⟨g, by simp, hg⟩

theorem disjoint_of_nodup {pre post : List ε} (hnodup : ((pre ++ post).filterMap gives).Nodup)
    (hg : g ∈ pre) (hg' : g' ∈ post) (h : gives g = some c) : gives g' ≠ some c := by
  intro h'
  rw [filterMap_append] at hnodup
  exact (disjoint_of_nodup_append hnodup) (mem_filterMap.2 ⟨g, hg, h⟩) (mem_filterMap.2 ⟨g', hg', h'⟩)

theorem eq_or_mem_before (hnodup : (es.filterMap gives).Nodup) (h : current gives ends es = some c)
    (hg : g ∈ es) (hgives : gives g = some c) (hg' : g' ∈ es) (hgives' : (gives g').isSome) :
    ∃ pre post, es = pre ++ g :: post ∧ (g' ∈ pre ∨ g' = g) := by
  obtain ⟨pre, last, post, rfl, hlast, hpost⟩ := current_eq_some_iff.1 h
  have hnot : ∀ e ∈ post, gives e ≠ some c := fun e he hc => by
    rw [(hpost e he).1] at hc
    cases hc
  obtain rfl : g = last := by
    rcases mem_append.1 hg with hg | hg
    · exact absurd hlast (disjoint_of_nodup hnodup hg mem_cons_self hgives)
    · exact (mem_cons.1 hg).resolve_right fun hmem => hnot g hmem hgives
  refine ⟨pre, post, rfl, ?_⟩
  rcases mem_append.1 hg' with hg' | hg'
  · exact .inl hg'
  · refine .inr ((mem_cons.1 hg').resolve_right fun hmem => ?_)
    rw [(hpost g' hmem).1] at hgives'
    cases hgives'

theorem nodup_closes {closes : ε → Option ι} (hends : ∀ e, (closes e).isSome → gives e = none ∧ ends e = true)
    (hcurrent : ∀ pre e post c, es = pre ++ e :: post → closes e = some c → current gives ends pre = some c)
    (hnodup : (es.filterMap gives).Nodup) : (es.filterMap closes).Nodup := by
  induction es using reverseRecOn with
  | nil => exact nodup_nil
  | append_singleton es e ih =>
    have hbefore := ih
      (fun pre e' post c heq => hcurrent pre e' (post ++ [e]) c (by rw [heq, append_assoc, cons_append]))
      (hnodup.sublist ((sublist_append_left es [e]).filterMap gives))
    cases hclose : closes e with
    | none => rwa [filterMap_append, filterMap_cons_none hclose, filterMap_nil, append_nil]
    | some c =>
      rw [filterMap_append, filterMap_cons_some hclose, filterMap_nil]
      refine nodup_append.2 ⟨hbefore, nodup_singleton c, ?_⟩
      rintro _ hmem _ hlast rfl
      obtain rfl := mem_singleton.1 hlast
      -- a second end needs a second gift
      obtain ⟨f, hf, hclose'⟩ := mem_filterMap.1 hmem
      obtain ⟨pre, mid, rfl⟩ := append_of_mem hf
      obtain ⟨hnone, htrue⟩ := hends f (by rw [hclose', isSome_some])
      obtain ⟨g, hg, hgives⟩ := exists_gives (hcurrent pre f (mid ++ [e]) _ (by simp) hclose')
      obtain ⟨g', hg', hgives'⟩ := exists_gives_of_ends hnone htrue (hcurrent (pre ++ f :: mid) e [] _ rfl hclose)
      rw [append_assoc] at hnodup
      exact disjoint_of_nodup hnodup hg (by simp [hg']) hgives hgives'

end Tenure
