/-
# Delegation.Whitelist -- the pairs that a configuration allows

* `allowsPair_resolve_iff`: from the entries of `[delegation] allow` to the answer for two agents.
-/
import DuDuClaw.Delegation.Policy

namespace DuDuClaw.Delegation

open DuDuClaw.Lib

variable {pair : Text × Text} {a b : Text}

theorem sortedPair_eq_iff {c d : Text} : sortedPair a b = sortedPair c d ↔ a = c ∧ b = d ∨ a = d ∧ b = c := by
  constructor
  · unfold sortedPair
    split_ifs <;> simp only [Prod.mk.injEq] <;> tauto
  · rintro (⟨rfl, rfl⟩ | ⟨rfl, rfl⟩)
    · rfl
    · exact sortedPair_comm a b

theorem normalizeAllowEntry_iff {entry : List Text} : normalizeAllowEntry entry = .ok pair ↔
    ∃ first second, entry = [first, second] ∧ trim first ≠ [] ∧ trim second ≠ [] ∧
      trim first ≠ trim second ∧ pair = sortedPair (trim first) (trim second) := by
  constructor
  · intro accepted
    unfold normalizeAllowEntry at accepted
    split at accepted
    · rename_i first second
      dsimp only at accepted
      split_ifs at accepted with blank same
      simp only [Bool.or_eq_true, List.isEmpty_iff, not_or] at blank
      exact ⟨first, second, rfl, blank.1, blank.2, same, (Except.ok.inj accepted).symm⟩
    · cases accepted
  · rintro ⟨first, second, rfl, some_, some_', differ, rfl⟩
    simp [normalizeAllowEntry, some_, some_', differ]

theorem mem_resolveAllowPairs (entries : List (List Text)) :
    pair ∈ (resolveAllowPairs entries).1 ↔ ∃ entry ∈ entries, normalizeAllowEntry entry = .ok pair := by
  have each : ∀ acc, pair ∈ (entries.foldl addAllowEntry acc).1 ↔
      pair ∈ acc.1 ∨ ∃ entry ∈ entries, normalizeAllowEntry entry = .ok pair := by
    induction entries with
    | nil => simp
    | cons entry rest ih =>
      intro acc
      rw [List.foldl_cons, ih, List.exists_mem_cons_iff, ← or_assoc]
      refine or_congr_left ?_
      unfold addAllowEntry
      cases normalizeAllowEntry entry with
      | error reason => simp
      | ok added =>
        dsimp only
        split_ifs <;> grind
  exact (each ([], [])).trans (by simp)

/-- **The whitelist says what is written.**  Whatever the entries are, their order and whatever is
dropped, two agents are allowed exactly when some entry names these two, either way round. -/
theorem allowsPair_resolve_iff (policy : DelegationPolicy) (entries : List (List Text)) (a b : Text) :
    (DelegationRules.resolve policy entries).allowsPair a b = true ↔
      trim a ≠ [] ∧ trim b ≠ [] ∧ trim a ≠ trim b ∧ ∃ first second, [first, second] ∈ entries ∧
        (trim first = trim a ∧ trim second = trim b ∨ trim first = trim b ∧ trim second = trim a) := by
  have written : sortedPair (trim a) (trim b) ∈ (resolveAllowPairs entries).1 ↔
      ∃ first second, [first, second] ∈ entries ∧ trim first ≠ [] ∧ trim second ≠ [] ∧
        trim first ≠ trim second ∧
        (trim a = trim first ∧ trim b = trim second ∨ trim a = trim second ∧ trim b = trim first) := by
    simp only [mem_resolveAllowPairs, normalizeAllowEntry_iff, sortedPair_eq_iff]
    grind
  unfold DelegationRules.allowsPair
  dsimp only
  split_ifs with unusable
  · simp only [Bool.or_eq_true, List.isEmpty_iff, decide_eq_true_eq] at unusable
    simp only [false_iff]
    tauto
  · simp only [Bool.or_eq_true, List.isEmpty_iff, decide_eq_true_eq, not_or] at unusable
    obtain ⟨⟨some_, some_'⟩, differ⟩ := unusable
    rw [decide_eq_true_eq, DelegationRules.resolve, written]
    grind

end DuDuClaw.Delegation
