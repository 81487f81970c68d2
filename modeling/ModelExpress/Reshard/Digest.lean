/-
  ModelExpress reshard planner — digests of shards (`verify.py`).

  The sums are integers here and `int64` in the source, which is the same once the hash reads them
  modulo `2 ^ 64`.
-/
import Mathlib.Algebra.Order.BigOperators.Group.List
import Mathlib.Algebra.Order.Ring.Abs
import Mathlib.Data.Int.ModEq
import Mathlib.Tactic.Linarith
import Mathlib.Tactic.Ring

namespace ModelExpress.Reshard

open List

/-- Four bytes as an `int32`. -/
def int32 (a b c d : UInt8) : ℤ :=
  let u : ℤ := a.toNat + 2 ^ 8 * b.toNat + 2 ^ 16 * c.toNat + 2 ^ 24 * d.toNat
  if u < 2 ^ 31 then u else u - 2 ^ 32

/-- The whole words of the bytes. -/
def words : List UInt8 → List ℤ
  | a :: b :: c :: d :: raw => int32 a b c d :: words raw
  | _ => []

section
variable {a b raw : List UInt8} {rows : List (List UInt8)} {l l' : List ℤ}

end

/-- A row whose words are zero but for the first. -/
def row (v : UInt8) : List UInt8 := v :: 0 :: 0 :: 0 :: List.replicate (4 * 1023) 0

end ModelExpress.Reshard
