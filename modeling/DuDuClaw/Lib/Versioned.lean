/-
# Lib.Versioned -- copies with a version on them

A store counts its changes in a version.  A copy of a view of the store carries the version
that was read before the view was, and a change may become visible before it is counted, so
the version on a copy says less than that the copy is current.

* `Honest`: the version on a copy is not ahead of the store, and where it is the store's own,
  the copy is current or a change is still to be counted.
* `Honest.of_view`, `Honest.counted`, `Honest.uncounted`, `Honest.same`: a load, and what a
  step of the store may do.
* `Honest.eq_view`: what a reader may conclude.
-/
import Mathlib.Order.Basic

namespace DuDuClaw.Lib

variable {σ β : Type} {version : σ → Int} {view : σ → β}

structure Honest (version : σ → Int) (view : σ → β) (pending : Prop) (s : σ) (label : Int) (copy : β) :
    Prop where
  label_le : label ≤ version s
  current : label = version s → copy = view s ∨ pending

namespace Honest

variable {pending pending' : Prop} {s s' : σ} {label : Int} {copy : β}

theorem of_view (label_le : label ≤ version s) : Honest version view pending s label (view s) :=
  ⟨label_le, fun _ => .inl rfl⟩

theorem counted (honest : Honest version view pending s label copy) (grows : version s < version s') :
    Honest version view pending' s' label copy := by
  have old := honest.label_le
  constructor
  · omega
  · intro same
    omega

theorem uncounted (honest : Honest version view pending s label copy) (le : version s ≤ version s')
    (open_ : pending') : Honest version view pending' s' label copy :=
  ⟨Int.le_trans honest.label_le le, fun _ => .inr open_⟩

theorem same (honest : Honest version view pending s label copy) (counts : version s' = version s)
    (views : view s' = view s) (keeps : pending → pending') : Honest version view pending' s' label copy := by
  constructor
  · rw [counts]
    exact honest.label_le
  · rw [counts, views]
    exact fun own => (honest.current own).imp_right keeps

theorem eq_view (honest : Honest version view pending s label copy) (own : label = version s)
    (settled : ¬pending) : copy = view s := (honest.current own).resolve_right settled

end Honest

end DuDuClaw.Lib
