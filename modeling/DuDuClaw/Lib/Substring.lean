/-
# Lib.Substring -- the first occurrence of a pattern in a list

`findSub pat s` is the offset of the first occurrence of `pat` in `s`, the list
reading of a string search.  An occurrence at `i` is stated as
`pat <+: s.drop i` throughout, so that occurrences move along `drop` and `append`
by Mathlib's own lemmas.
-/
import Mathlib.Data.List.Basic

namespace DuDuClaw.Lib

universe u

variable {α : Type u} [DecidableEq α]

/-- The offset of the first occurrence of `pat` in `s`. -/
def findSub (pat : List α) : List α → Option Nat
  | [] => if pat = [] then some 0 else none
  | c :: cs => if pat.isPrefixOf (c :: cs) then some 0 else (findSub pat cs).map (· + 1)

theorem findSub_eq_none_iff {pat s : List α} : findSub pat s = none ↔ ∀ i, ¬ pat <+: s.drop i := by
  induction s with
  | nil => simp [findSub]
  | cons c cs ih =>
    simp only [findSub]
    split
    · rename_i here
      rw [List.isPrefixOf_iff_prefix] at here
      simp only [reduceCtorEq, false_iff, not_forall, not_not]
      exact ⟨0, here⟩
    rename_i notHere
    rw [List.isPrefixOf_iff_prefix] at notHere
    rw [Option.map_eq_none_iff, ih]
    constructor
    · intro none i
      cases i with
      | zero => exact notHere
      | succ i => exact none i
    · intro none i
      exact none (i + 1)

theorem findSub_eq_some_iff {pat s : List α} {i : Nat} :
    findSub pat s = some i ↔ pat <+: s.drop i ∧ ∀ j, j < i → ¬ pat <+: s.drop j := by
  induction s generalizing i with
  | nil =>
    simp only [findSub, List.drop_nil, List.prefix_nil]
    split
    · rename_i empty
      simp only [Option.some.injEq, empty, not_true, imp_false, Nat.not_lt, true_and]
      constructor
      · rintro rfl j
        exact Nat.zero_le j
      · intro least
        exact (Nat.le_zero.mp (least 0)).symm
    · rename_i nonempty
      simp [nonempty]
  | cons c cs ih =>
    simp only [findSub]
    split
    · rename_i here
      rw [List.isPrefixOf_iff_prefix] at here
      simp only [Option.some.injEq]
      constructor
      · rintro rfl
        exact ⟨here, fun j before => absurd before (Nat.not_lt_zero j)⟩
      · rintro ⟨-, least⟩
        by_contra ne
        exact least 0 (Nat.pos_of_ne_zero (Ne.symm ne)) here
    · rename_i notHere
      rw [List.isPrefixOf_iff_prefix] at notHere
      rw [Option.map_eq_some_iff]
      constructor
      · rintro ⟨k, found, rfl⟩
        obtain ⟨occurs, least⟩ := ih.mp found
        refine ⟨occurs, ?_⟩
        intro j before
        cases j with
        | zero => exact notHere
        | succ j => exact least j (by omega)
      · rintro ⟨occurs, least⟩
        cases i with
        | zero => exact absurd occurs notHere
        | succ i =>
          exact ⟨i, ih.mpr ⟨occurs, fun j before => least (j + 1) (by omega)⟩, rfl⟩

omit [DecidableEq α] in
/-- An occurrence of a nonempty pattern starts inside the list. -/
theorem lt_length_of_occurs {pat s : List α} {i : Nat} (nonempty : pat ≠ [])
    (occurs : pat <+: s.drop i) : i < s.length := by
  by_contra past
  rw [List.drop_eq_nil_of_le (by omega), List.prefix_nil] at occurs
  exact nonempty occurs

omit [DecidableEq α] in
/-- A single element occurs at `i` exactly when it stands there. -/
theorem singleton_occurs_iff {s : List α} {a : α} {i : Nat} : [a] <+: s.drop i ↔ s[i]? = some a := by
  rw [← Nat.add_zero i, ← List.getElem?_drop, Nat.add_zero]
  cases s.drop i with
  | nil => simp
  | cons b rest => simp [List.cons_prefix_cons, eq_comm]

end DuDuClaw.Lib
