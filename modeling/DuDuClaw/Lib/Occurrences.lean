/-
# Lib.Occurrences -- the occurrences of a pattern that do not overlap

A scan from left to right takes the first occurrence, goes on behind it, takes the next one, and so
on.  What it finds are the standing occurrences: those that no earlier standing one reaches into.

* `mem_scanFrom_zero`: the scan finds exactly the standing occurrences.
* `exists_standing`: every occurrence begins in a standing one.
-/
import DuDuClaw.Lib.Substring

namespace DuDuClaw.Lib

variable {α : Type}

/-- `pat` stands at `i`. -/
def OccursAt (pat s : List α) (i : Nat) : Prop := pat <+: s.drop i

/-- An occurrence that no earlier one of this kind reaches into. -/
def Standing (pat s : List α) (i : Nat) : Prop :=
  OccursAt pat s i ∧ ∀ j, j < i → i < j + pat.length → ¬Standing pat s j
termination_by i

section Standing

variable {pat s : List α} {i j : Nat}

theorem standing_iff :
    Standing pat s i ↔ OccursAt pat s i ∧ ∀ j, j < i → i < j + pat.length → ¬Standing pat s j := by
  rw [Standing]

theorem Standing.occurs (stands : Standing pat s i) : OccursAt pat s i := (standing_iff.mp stands).1

theorem Standing.apart (first : Standing pat s i) (second : Standing pat s j) (before : i < j) :
    i + pat.length ≤ j := by
  by_contra inside
  exact (standing_iff.mp second).2 i before (Nat.lt_of_not_le inside) first

theorem exists_standing (nonempty : pat ≠ []) (occurs : OccursAt pat s i) :
    ∃ j, j ≤ i ∧ i < j + pat.length ∧ Standing pat s j := by
  by_cases stands : Standing pat s i
  · have positive := List.length_pos_iff.mpr nonempty
    exact ⟨i, Nat.le_refl i, by omega, stands⟩
  rw [standing_iff, not_and] at stands
  have reached := stands occurs
  push Not at reached
  obtain ⟨j, before, inside, stands⟩ := reached
  exact ⟨j, Nat.le_of_lt before, inside, stands⟩

theorem OccursAt.le_length (occurs : OccursAt pat s i) (nonempty : pat ≠ []) : i + pat.length ≤ s.length := by
  have inside := lt_length_of_occurs nonempty occurs
  have short := occurs.length_le
  rw [List.length_drop] at short
  omega

theorem OccursAt.take_add (occurs : OccursAt pat s i) : s.take (i + pat.length) = s.take i ++ pat := by
  rw [List.take_add, ← List.prefix_iff_eq_take.mp occurs]

end Standing

variable [DecidableEq α]

instance (pat s : List α) (i : Nat) : Decidable (OccursAt pat s i) :=
  inferInstanceAs (Decidable (pat <+: s.drop i))

/-- The scan from an offset on; `fuel` bounds the occurrences that are left. -/
def scanFrom (pat s : List α) : Nat → Nat → List Nat
  | 0, _ => []
  | fuel + 1, start =>
    match findSub pat (s.drop start) with
    | none => []
    | some rel => (start + rel) :: scanFrom pat s fuel (max (start + rel + pat.length) (start + rel + 1))

variable {pat s : List α}

variable {start i fuel : Nat}

theorem findSub_drop_none (nowhere : findSub pat (s.drop start) = none)
    (from_ : start ≤ i) : ¬OccursAt pat s i := by
  have free := findSub_eq_none_iff.mp nowhere (i - start)
  rw [List.drop_drop, Nat.add_sub_cancel' from_] at free
  exact free

theorem findSub_drop_some {rel : Nat} (found : findSub pat (s.drop start) = some rel) :
    OccursAt pat s (start + rel) ∧ ∀ i, start ≤ i → i < start + rel → ¬OccursAt pat s i := by
  obtain ⟨occurs, least⟩ := findSub_eq_some_iff.mp found
  rw [List.drop_drop] at occurs
  refine ⟨occurs, fun i from_ before => ?_⟩
  have free := least (i - start) (by omega)
  rw [List.drop_drop, Nat.add_sub_cancel' from_] at free
  exact free

theorem occurs_of_mem_scanFrom (listed : i ∈ scanFrom pat s fuel start) : OccursAt pat s i := by
  induction fuel generalizing start with
  | zero => exact absurd listed List.not_mem_nil
  | succ fuel ih =>
    rw [scanFrom] at listed
    cases found : findSub pat (s.drop start) with
    | none => simp [found] at listed
    | some rel =>
      simp only [found, List.mem_cons] at listed
      rcases listed with rfl | later
      · exact (findSub_drop_some found).1
      · exact ih later

/-- With no standing occurrence across its start, the scan finds the standing ones from there on. -/
theorem mem_scanFrom (nonempty : pat ≠ []) (enough : s.length < start + fuel)
    (clear : ∀ i, i < start → Standing pat s i → i + pat.length ≤ start) :
    i ∈ scanFrom pat s fuel start ↔ start ≤ i ∧ Standing pat s i := by
  have positive := List.length_pos_iff.mpr nonempty
  induction fuel generalizing start with
  | zero =>
    rw [scanFrom]
    refine iff_of_false List.not_mem_nil fun later => ?_
    have inside := later.2.occurs.le_length nonempty
    have behind := later.1
    omega
  | succ fuel ih =>
    rw [scanFrom]
    cases found : findSub pat (s.drop start) with
    | none =>
      refine iff_of_false List.not_mem_nil fun later => ?_
      exact findSub_drop_none found later.1 later.2.occurs
    | some rel =>
      obtain ⟨occurs, least⟩ := findSub_drop_some found
      have next : max (start + rel + pat.length) (start + rel + 1) = start + rel + pat.length := by omega
      have stands : Standing pat s (start + rel) := by
        refine standing_iff.mpr ⟨occurs, fun j before inside stands => ?_⟩
        by_cases behind : start ≤ j
        · exact least j behind before stands.occurs
        · have short := clear j (by omega) stands
          omega
      have clear' : ∀ i, i < start + rel + pat.length → Standing pat s i →
          i + pat.length ≤ start + rel + pat.length := fun i before other => by
        by_contra across
        have short := stands.apart other (by omega)
        omega
      have enough' : s.length < start + rel + pat.length + fuel := by omega
      dsimp only
      rw [next, List.mem_cons]
      refine (or_congr_right (ih enough' clear')).trans ?_
      constructor
      · rintro (rfl | ⟨behind, other⟩)
        · exact ⟨by omega, stands⟩
        · exact ⟨by omega, other⟩
      · rintro ⟨behind, other⟩
        by_cases before : i < start + rel
        · exact absurd other.occurs (least i behind before)
        · by_cases same : i = start + rel
          · exact .inl same
          · exact .inr ⟨stands.apart other (by omega), other⟩

/-- The scan of a whole text finds exactly the standing occurrences. -/
theorem mem_scanFrom_zero (nonempty : pat ≠ []) : i ∈ scanFrom pat s (s.length + 1) 0 ↔ Standing pat s i := by
  rw [mem_scanFrom nonempty (by omega) (fun i before => absurd before (Nat.not_lt_zero i))]
  exact and_iff_right (Nat.zero_le i)

end DuDuClaw.Lib
