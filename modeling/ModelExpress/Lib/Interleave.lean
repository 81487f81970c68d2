/-
  Interleaved rows. The rows of an array are cut into periods, and a band takes the same few rows of every
  period; row `r` of the band is the row `source r` of the whole.
-/
import Mathlib.Data.Nat.Basic
import Mathlib.Order.Basic

namespace Interleave

/-- `width` rows of every `period`, from `offset` on. -/
structure Band where
  width : ℕ
  period : ℕ
  offset : ℕ
  deriving DecidableEq

namespace Band
variable (b : Band)

def source (row : ℕ) : ℕ := row / b.width * b.period + b.offset + row % b.width

def start (group : ℕ) : ℕ := group * b.period + b.offset

variable {b} {row group lo hi : ℕ}

theorem source_of_div (h : row / b.width = group) : b.source row = b.start group + (row - group * b.width) := by
  subst h
  have hmod : row % b.width = row - row / b.width * b.width := by
    rw [Nat.mod_eq_sub_div_mul]
  rw [source, start, hmod]

section
variable (hw : 0 < b.width)
include hw

theorem div_iff : row / b.width = group ↔ group * b.width ≤ row ∧ row < group * b.width + b.width := by
  rw [Nat.div_eq_iff hw]
  omega

theorem mem_window (hne : max lo (b.start group) < min hi (b.start group + b.width)) :
    (group * b.width + (max lo (b.start group) - b.start group) ≤ row ∧
      row < group * b.width + (max lo (b.start group) - b.start group) +
        (min hi (b.start group + b.width) - max lo (b.start group))) ↔
      row / b.width = group ∧ lo ≤ b.source row ∧ b.source row < hi := by
  constructor
  · intro h
    have hdiv : row / b.width = group := (div_iff hw).2 (by omega)
    refine ⟨hdiv, ?_⟩
    rw [source_of_div hdiv]
    omega
  · rintro ⟨hdiv, hsource⟩
    rw [source_of_div hdiv] at hsource
    have hrow := (div_iff hw).1 hdiv
    omega

theorem meets (hdiv : row / b.width = group) (hlo : lo ≤ b.source row) (hhi : b.source row < hi) :
    max lo (b.start group) < min hi (b.start group + b.width) := by
  rw [source_of_div hdiv] at hlo hhi
  have hrow := (div_iff hw).1 hdiv
  omega

theorem source_lt {n : ℕ} (hfit : b.offset + b.width ≤ b.period) (h : row < n * b.width) :
    b.source row < n * b.period := by
  have hgroup : row / b.width < n := Nat.div_lt_of_lt_mul (by rwa [Nat.mul_comm])
  have hperiod : (row / b.width + 1) * b.period ≤ n * b.period := Nat.mul_le_mul_right _ hgroup
  have hmod : row % b.width < b.width := Nat.mod_lt _ hw
  rw [source]
  rw [Nat.add_mul] at hperiod
  omega

end

end Band

end Interleave
