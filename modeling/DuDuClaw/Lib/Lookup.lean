/-
# Lib.Lookup -- maps as lists of entries

A map is a list of entries that is read by its first match, so that an insertion puts
an entry in front.

* `lookup_cons_cases`, `lookup_cons_other`: what is found after an insertion.
-/
import Mathlib.Data.List.Basic

namespace DuDuClaw.Lib

variable {κ ρ : Type} [BEq κ] [LawfulBEq κ] {entries : List (κ × ρ)} {key other : κ} {row row' : ρ}

theorem mem_of_lookup (found : entries.lookup key = some row) : (key, row) ∈ entries := by
  obtain ⟨front, back, rfl, -⟩ := List.lookup_eq_some_iff.mp found
  simp

/-- After an insertion a key finds the new entry or what it found before. -/
theorem lookup_cons_cases (found : List.lookup key ((other, row') :: entries) = some row) :
    (key = other ∧ row' = row) ∨ entries.lookup key = some row := by
  rw [List.lookup_cons] at found
  by_cases same : key == other
  · rw [same] at found
    exact .inl ⟨eq_of_beq same, Option.some.inj found⟩
  · rw [Bool.eq_false_iff.mpr same] at found
    exact .inr found

theorem lookup_cons_other (entry : ρ) (differ : key ≠ other) :
    List.lookup key ((other, entry) :: entries) = entries.lookup key := by
  rw [List.lookup_cons, beq_eq_false_iff_ne.mpr differ]

theorem lookup_cons_some (bound : ∃ row, entries.lookup key = some row) :
    ∃ row, List.lookup key ((other, row') :: entries) = some row := by
  by_cases same : key = other
  · subst same
    exact ⟨row', by simp⟩
  · rw [lookup_cons_other row' same]
    exact bound

end DuDuClaw.Lib
