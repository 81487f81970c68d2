/-
  Operations that complete only when all their members have reached them.
-/
import Mathlib.Data.List.Nodup

namespace Lockstep

open List

variable {ι ω : Type} (member : ω → ι → Prop)

/-- The operation completes: it is next for all its members, who go on, and nobody else moves. -/
structure Completes (o : ω) (s s' : ι → List ω) : Prop where
  some_member : ∃ i, member o i
  next : ∀ i, member o i → s i = o :: s' i
  frame : ∀ i, ¬ member o i → s' i = s i

def Step (s s' : ι → List ω) : Prop := ∃ o, Completes member o s s'

def Done (s : ι → List ω) : Prop := ∀ i, s i = []

/-- What a party has left to issue is the part of the order that it is a member of. -/
def Follows [∀ o i, Decidable (member o i)] (order : List ω) (s : ι → List ω) : Prop :=
  ∀ i, s i = order.filter fun o => member o i

section
variable {member} [∀ o i, Decidable (member o i)] {order : List ω} {s s' : ι → List ω}

section
variable (h : Follows member order s)
include h

theorem Follows.progress (hm : ∀ o ∈ order, ∃ i, member o i) : Done s ∨ ∃ s', Step member s s' := by
  cases order with
  | nil => exact .inl fun i => by rw [h i, filter_nil]
  | cons o order =>
    refine .inr ⟨fun i => order.filter fun o => member o i, o, hm o (mem_cons_self ..), fun i hi => ?_,
      fun i hi => ?_⟩
    · rw [h i, filter_cons_of_pos (by simpa using hi)]
    · rw [h i, filter_cons_of_neg (by simpa using hi)]

theorem Follows.step [DecidableEq ω] {o : ω} (hn : order.Nodup)
    (ho : Completes member o s s') : o ∈ order ∧ Follows member (order.erase o) s' := by
  have hmem : o ∈ order := by
    obtain ⟨i, hi⟩ := ho.some_member
    have hin : o ∈ order.filter fun o => member o i := by
      rw [← h i, ho.next i hi]
      exact mem_cons_self ..
    exact (mem_filter.1 hin).1
  refine ⟨hmem, fun i => ?_⟩
  have herase : (order.erase o).filter (fun o => member o i) = (s i).erase o := by
    rw [h i, hn.erase_eq_filter, (hn.filter _).erase_eq_filter, filter_comm]
  rw [herase]
  by_cases hi : member o i
  · rw [ho.next i hi, erase_cons_head]
  · rw [ho.frame i hi, erase_of_not_mem]
    rw [h i, mem_filter]
    simp [hi]

/-- **No deadlock.**  After any number of steps everything is done or an operation can complete, and there are
    never more steps than operations. -/
theorem Follows.run (hn : order.Nodup) (hm : ∀ o ∈ order, ∃ i, member o i)
    (f : ℕ → ι → List ω) (hf : f 0 = s) (n : ℕ) (hstep : ∀ m < n, Step member (f m) (f (m + 1))) :
    n ≤ order.length ∧ (Done (f n) ∨ ∃ s', Step member (f n) s') := by
  classical
  -- what is left of the order after `m` steps
  have hleft : ∀ m ≤ n, ∃ rest : List ω, rest.Sublist order ∧ rest.length + m = order.length ∧ Follows member rest (f m) := by
    intro m hmn
    induction m with
    | zero => exact ⟨order, List.Sublist.refl _, rfl, hf ▸ h⟩
    | succ m ih =>
      obtain ⟨rest, hsub, hlen, hfol⟩ := ih (Nat.le_of_succ_le hmn)
      obtain ⟨o, ho⟩ := hstep m hmn
      obtain ⟨hmem, hfol'⟩ := hfol.step (hn.sublist hsub) ho
      refine ⟨rest.erase o, (erase_sublist ..).trans hsub, ?_, hfol'⟩
      have hpos : 0 < rest.length := length_pos_of_mem hmem
      rw [length_erase_of_mem hmem]
      omega
  obtain ⟨rest, hsub, hlen, hfol⟩ := hleft n (Nat.le_refl n)
  exact ⟨by omega, hfol.progress fun o ho => hm o (hsub.subset ho)⟩

end

end

end Lockstep
