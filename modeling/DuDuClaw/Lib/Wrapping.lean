/-
# Lib.Wrapping -- machine integers of 64 bits

An operation on `i64` is the exact one modulo 2^64; `as i64` reads the bits of a `u64`.

* `wrapI64_eq_iff`: the exact result is the machine's when it fits.
-/
import Mathlib.Algebra.Group.Nat.Defs
import Mathlib.Algebra.Ring.Int.Defs

namespace DuDuClaw.Lib

def i64Max : Int := 2 ^ 63 - 1

def i64Min : Int := -2 ^ 63

def u64Max : Nat := 2 ^ 64 - 1

/-- The `i64` with the bits of an integer. -/
def wrapI64 (x : Int) : Int := x.bmod (2 ^ 64)

def addI64 (a b : Int) : Int := wrapI64 (a + b)

def subI64 (a b : Int) : Int := wrapI64 (a - b)

theorem wrapI64_range (x : Int) : i64Min ≤ wrapI64 x ∧ wrapI64 x ≤ i64Max := by
  have low := @Int.le_bmod x (2 ^ 64) (by decide)
  have high := @Int.bmod_lt x (2 ^ 64) (by decide)
  unfold wrapI64 i64Min i64Max
  omega

theorem wrapI64_eq_iff {x : Int} : wrapI64 x = x ↔ i64Min ≤ x ∧ x ≤ i64Max := by
  constructor
  · intro exact_
    exact exact_ ▸ wrapI64_range x
  · rintro ⟨low, high⟩
    unfold i64Min at low
    unfold i64Max at high
    exact Int.bmod_eq_of_le_mul_two (by omega) (by omega)

/-- The difference of two instants, the first no earlier. -/
theorem subI64_eq {a b : Int} (low : 0 ≤ b) (order : b ≤ a) (high : a ≤ i64Max) : subI64 a b = a - b := by
  refine wrapI64_eq_iff.mpr ?_
  unfold i64Min
  omega

theorem addI64_eq {a b : Int} (left : 0 ≤ a) (right : 0 ≤ b) (high : a + b ≤ i64Max) : addI64 a b = a + b := by
  refine wrapI64_eq_iff.mpr ?_
  unfold i64Min
  omega

end DuDuClaw.Lib
