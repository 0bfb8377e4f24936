/-
# Lib.Slices -- reads that may be out of range

A read of a list at an index or a range returns `none` where the index is out of range, and
so does every loop around it.  The rules here say when a loop returns, and with what.

* `getSlice_append`, `getSlice_end`: a slice of a list that grew, and the one at its end.
* `tryFilterMap_spec`: a filter whose test may fail.
* `foldlM_total`: a loop that keeps an invariant returns.
-/
import Mathlib.Data.List.Basic

namespace DuDuClaw.Lib

variable {α β σ : Type}

/-! ## Slices -/

/-- `&xs[a..b]`. -/
def getSlice (xs : List α) (a b : Nat) : Option (List α) :=
  if a ≤ b ∧ b ≤ xs.length then some ((xs.drop a).take (b - a)) else none

variable {xs t : List α} {a b : Nat}

variable {i : Nat} {f : α → Option (Option β)} {items : List α} {s : σ}

theorem getSlice_ok (le : a ≤ b) (inside : b ≤ xs.length) :
    getSlice xs a b = some ((xs.drop a).take (b - a)) := if_pos ⟨le, inside⟩

theorem getSlice_append {ys : List α} (cut : getSlice xs a b = some t) : getSlice (xs ++ ys) a b = some t := by
  unfold getSlice at cut
  split at cut
  · rename_i fits
    cases cut
    rw [getSlice_ok fits.1 (by rw [List.length_append]; omega)]
    rw [List.drop_append_of_le_length (by omega), List.take_append_of_le_length]
    rw [List.length_drop]
    omega
  · cases cut

theorem getSlice_end (xs ys : List α) : getSlice (xs ++ ys) xs.length (xs.length + ys.length) = some ys := by
  rw [getSlice_ok (Nat.le_add_right _ _) (by simp)]
  rw [List.drop_left, Nat.add_sub_cancel_left, List.take_length]

theorem getSlice_bounds (cut : getSlice xs a b = some t) : a ≤ b ∧ b ≤ xs.length ∧ t.length = b - a := by
  unfold getSlice at cut
  split at cut
  · rename_i fits
    cases cut
    refine ⟨fits.1, fits.2, ?_⟩
    rw [List.length_take, List.length_drop]
    omega
  · cases cut

theorem getElem?_getSlice (cut : getSlice xs a b = some t) (inside : i < b - a) : t[i]? = xs[a + i]? := by
  unfold getSlice at cut
  split at cut
  · cases cut
    rw [List.getElem?_take_of_lt inside, List.getElem?_drop]
  · cases cut

/-! ## Ranges -/

def Covers (ranges : List (Nat × Nat)) (i : Nat) : Prop := ∃ r ∈ ranges, r.1 ≤ i ∧ i < r.2

theorem covers_cons {r : Nat × Nat} {ranges : List (Nat × Nat)} :
    Covers (r :: ranges) i ↔ (r.1 ≤ i ∧ i < r.2) ∨ Covers ranges i := by
  simp [Covers]

/-! ## Loops -/

/-- `filter_map`, with a test that may be out of range. -/
def tryFilterMap (f : α → Option (Option β)) : List α → Option (List β)
  | [] => some []
  | a :: rest => do
    let found ← f a
    let others ← tryFilterMap f rest
    return found.toList ++ others

theorem tryFilterMap_spec (total : ∀ a ∈ items, ∃ found, f a = some found) :
    ∃ out, tryFilterMap f items = some out ∧ ∀ b, b ∈ out ↔ ∃ a ∈ items, f a = some (some b) := by
  induction items with
  | nil => exact ⟨[], rfl, by simp⟩
  | cons a rest ih =>
    obtain ⟨here, later⟩ := List.forall_mem_cons.mp total
    obtain ⟨found, read⟩ := here
    obtain ⟨others, ran, listed⟩ := ih later
    refine ⟨found.toList ++ others, by simp [tryFilterMap, read, ran], fun b => ?_⟩
    rw [List.mem_append, listed, Option.mem_toList]
    simp [read]

theorem mem_tryFilterMap {out : List β} {b : β}
    (ran : tryFilterMap f items = some out) (listed : b ∈ out) : ∃ a ∈ items, f a = some (some b) := by
  induction items generalizing out with
  | nil =>
    cases ran
    cases listed
  | cons a rest ih =>
    obtain ⟨found, here, later⟩ := Option.bind_eq_some_iff.mp ran
    obtain ⟨others, further, same⟩ := Option.bind_eq_some_iff.mp later
    cases same
    obtain own | other := List.mem_append.mp listed
    · rw [Option.mem_toList] at own
      exact ⟨a, List.mem_cons_self, here.trans (congrArg some own)⟩
    · obtain ⟨a', mem, read⟩ := ih further other
      exact ⟨a', List.mem_cons_of_mem _ mem, read⟩

/-- A loop returns when every pass that begins with the invariant ends with it. -/
theorem foldlM_total {f : σ → α → Option σ} (inv : Nat → σ → Prop) (start : inv 0 s)
    (step : ∀ i a st, items[i]? = some a → inv i st → ∃ st', f st a = some st' ∧ inv (i + 1) st') :
    ∃ t, items.foldlM f s = some t ∧ inv items.length t := by
  induction items generalizing s inv with
  | nil => exact ⟨s, rfl, start⟩
  | cons a rest ih =>
    obtain ⟨s', ran, next⟩ := step 0 a s rfl start
    obtain ⟨t, further, holds⟩ := ih (fun i => inv (i + 1)) next fun i b st at_ held =>
      step (i + 1) b st at_ held
    exact ⟨t, by rw [List.foldlM_cons, ran]; exact further, holds⟩

/-- What every pass keeps holds after a loop that returned. -/
theorem foldlM_ran {f : σ → α → Option σ} {t : σ} (inv : Nat → σ → Prop)
    (ran : items.foldlM f s = some t) (start : inv 0 s)
    (step : ∀ i a st st', items[i]? = some a → inv i st → f st a = some st' → inv (i + 1) st') :
    inv items.length t := by
  induction items generalizing s inv with
  | nil =>
    cases ran
    exact start
  | cons a rest ih =>
    rw [List.foldlM_cons] at ran
    obtain ⟨s', first, later⟩ := Option.bind_eq_some_iff.mp ran
    refine ih (fun i => inv (i + 1)) later (step 0 a s s' rfl start first) ?_
    intro i b st st' at_ held pass
    exact step (i + 1) b st st' at_ held pass

end DuDuClaw.Lib
