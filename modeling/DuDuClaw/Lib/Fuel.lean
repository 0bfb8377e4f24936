/-
# Lib.Fuel -- loops that run on fuel

A loop over a shrinking value is given some fuel, and each round takes one.  The fuel does
not matter once there is as much of it as the value can shrink.

* `fuel_congr`: two amounts that are both enough give the same result.
* `fuel_eq_size`: any such amount gives the result of exactly enough.
-/
import Mathlib.Order.Basic

namespace DuDuClaw.Lib

variable {α β : Type} (loop : Nat → α → β) (size : α → Nat)

/-- Two amounts that are both enough give the same result: a round gives the same result
whenever the loop does on everything smaller. -/
theorem fuel_congr (stops : ∀ x, size x = 0 → ∀ fuel fuel', loop fuel x = loop fuel' x)
    (round : ∀ x fuel fuel', (∀ y, size y < size x → loop fuel y = loop fuel' y) →
      loop (fuel + 1) x = loop (fuel' + 1) x)
    {fuel fuel' : Nat} {x : α} (enough : size x ≤ fuel) (enough' : size x ≤ fuel') :
    loop fuel x = loop fuel' x := by
  induction fuel generalizing fuel' x with
  | zero => exact stops x (Nat.le_zero.mp enough) 0 fuel'
  | succ fuel ih =>
    cases fuel' with
    | zero => exact stops x (Nat.le_zero.mp enough') (fuel + 1) 0
    | succ fuel' =>
      refine round x fuel fuel' fun y smaller => ih ?_ ?_
      · omega
      · omega

/-- Any amount that is enough gives the result of exactly enough. -/
theorem fuel_eq_size (stops : ∀ x, size x = 0 → ∀ fuel fuel', loop fuel x = loop fuel' x)
    (round : ∀ x fuel fuel', (∀ y, size y < size x → loop fuel y = loop fuel' y) →
      loop (fuel + 1) x = loop (fuel' + 1) x)
    {fuel : Nat} {x : α} (enough : size x ≤ fuel) : loop fuel x = loop (size x) x :=
  fuel_congr loop size stops round enough (Nat.le_refl _)

end DuDuClaw.Lib
