/-
# Lib.Saturating -- sums that stop at the ends of a range

A saturating sum folds a list into an accumulator that stays between `lo` and `hi`.

* `sum_le_foldl_satAdd`: where no partial sum passes `hi`, it is not below the exact sum.
* `add_le_of_satAdd_le`: a bound below `hi` on a saturating sum is one on the exact sum.
-/
import Mathlib.Algebra.BigOperators.Group.List.Basic
import Mathlib.Algebra.Ring.Int.Defs
import Mathlib.Data.List.Induction

namespace DuDuClaw.Lib

variable {lo hi : Int}

def satAdd (lo hi a b : Int) : Int := max lo (min hi (a + b))

theorem add_le_of_satAdd_le {a b limit : Int} (bound : satAdd lo hi a b ≤ limit)
    (inside : limit < hi) : a + b ≤ limit := by
  unfold satAdd at bound
  omega

/-- Where no partial sum passes `hi`, the saturating sum is not below the exact one. -/
theorem sum_le_foldl_satAdd {xs : List Int} (inside : ∀ n, (xs.take n).sum ≤ hi) :
    xs.sum ≤ xs.foldl (satAdd lo hi) 0 := by
  induction xs using List.reverseRecOn with
  | nil => exact Int.le_refl 0
  | append_singleton front x ih =>
    have before : front.sum ≤ front.foldl (satAdd lo hi) 0 := by
      apply ih
      intro n
      have partial_ := inside (min n front.length)
      rwa [List.take_append_of_le_length (Nat.min_le_right ..), ← List.take_eq_take_min] at partial_
    have whole := inside (front ++ [x]).length
    rw [List.take_length] at whole
    rw [List.foldl_append, List.sum_append, List.sum_singleton] at *
    show front.sum + x ≤ satAdd lo hi (front.foldl (satAdd lo hi) 0) x
    generalize front.foldl (satAdd lo hi) 0 = total at before ⊢
    unfold satAdd
    omega

end DuDuClaw.Lib
