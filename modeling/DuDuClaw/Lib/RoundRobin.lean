/-
# Lib.RoundRobin -- a cursor that goes round lists of candidates

Each turn picks the candidate under the cursor and moves the cursor on; a turn without
candidates leaves it.

* `picks_perm`: turns over one list pick each of its candidates once a round.
* `exists_cursor_zero`: turns over one list bring the cursor back to its start.
* `getElem_eq_of_set_perm`: a round with one turn changed is still a round only where the
  turn picked the same candidate.
-/
import Mathlib.Data.List.Rotate

namespace DuDuClaw.Lib

variable {α : Type} {xs ys : List α} {cursor : Nat}

/-- The candidate under the cursor, and the cursor after it. -/
def pick (cursor : Nat) (xs : List α) : Option α × Nat :=
  if xs.isEmpty then (none, cursor) else (xs[cursor % xs.length]?, (cursor + 1) % xs.length)

/-- What turns over lists of candidates pick, one after another. -/
def picks : Nat → List (List α) → List (Option α)
  | _, [] => []
  | cursor, xs :: rest => (pick cursor xs).1 :: picks (pick cursor xs).2 rest

def cursorAfter (cursor : Nat) (turns : List (List α)) : Nat :=
  turns.foldl (fun cursor xs => (pick cursor xs).2) cursor

theorem pick_nil : pick cursor ([] : List α) = (none, cursor) := rfl

theorem pick_some (some_ : 0 < xs.length) :
    pick cursor xs = (xs[cursor % xs.length]?, (cursor + 1) % xs.length) := by
  cases xs with
  | nil => simp at some_
  | cons x rest => rfl

theorem pick_map {β : Type} (f : α → β) :
    pick cursor (xs.map f) = ((pick cursor xs).1.map f, (pick cursor xs).2) := by
  cases xs with
  | nil => rfl
  | cons x rest =>
    rw [pick_some (by simp), pick_some (by simp)]
    simp only [List.length_map, List.getElem?_map]

@[simp] theorem length_picks (turns : List (List α)) : (picks cursor turns).length = turns.length := by
  induction turns generalizing cursor with
  | nil => rfl
  | cons xs rest ih => simp [picks, ih]

theorem picks_append (front back : List (List α)) :
    picks cursor (front ++ back) = picks cursor front ++ picks (cursorAfter cursor front) back := by
  induction front generalizing cursor with
  | nil => rfl
  | cons xs rest ih => simp [picks, cursorAfter, ih]

theorem take_picks (turns : List (List α)) (k : Nat) :
    (picks cursor turns).take k = picks cursor (turns.take k) := by
  induction turns generalizing cursor k with
  | nil => simp [picks]
  | cons xs rest ih => cases k <;> simp [picks, ih]

theorem drop_picks (turns : List (List α)) (k : Nat) :
    (picks cursor turns).drop k = picks (cursorAfter cursor (turns.take k)) (turns.drop k) := by
  induction turns generalizing cursor k with
  | nil => simp [picks]
  | cons xs rest ih => cases k <;> simp [picks, cursorAfter, ih]

/-! ## Turns over one list -/

theorem cursorAfter_replicate (some_ : 0 < xs.length) (k : Nat) :
    cursorAfter cursor (List.replicate (k + 1) xs) = (cursor + (k + 1)) % xs.length := by
  induction k generalizing cursor with
  | zero => simp [cursorAfter, pick_some some_]
  | succ k ih =>
    have first : cursorAfter cursor (List.replicate (k + 1 + 1) xs) =
        cursorAfter ((cursor + 1) % xs.length) (List.replicate (k + 1) xs) := by
      rw [List.replicate_succ]
      simp [cursorAfter, pick_some some_]
    rw [first, ih, Nat.mod_add_mod]
    congr 1
    omega

theorem picks_replicate (some_ : 0 < xs.length) (k : Nat) : picks cursor (List.replicate k xs) =
      (List.range k).map fun j => xs[(cursor + j) % xs.length]? := by
  induction k generalizing cursor with
  | zero => rfl
  | succ k ih =>
    rw [List.replicate_succ, picks, pick_some some_, ih, List.range_succ_eq_map, List.map_cons, List.map_map]
    refine congrArg₂ _ rfl (List.map_congr_left fun j _ => ?_)
    simp only [Function.comp_apply, Nat.mod_add_mod]
    congr 2
    omega

theorem picks_stretch {k : Nat} (some_ : 0 < xs.length) (fits : cursor + k ≤ xs.length) :
    picks (cursor % xs.length) (List.replicate k xs) = ((xs.drop cursor).take k).map some := by
  rw [picks_replicate some_]
  refine List.ext_getElem? fun j => ?_
  by_cases inside : j < k
  · have within : cursor + j < xs.length := by omega
    rw [List.getElem?_map, List.getElem?_map, List.getElem?_range inside, Option.map_some,
      Nat.mod_add_mod, Nat.mod_eq_of_lt within, List.getElem?_take_of_lt inside, List.getElem?_drop,
      List.getElem?_eq_getElem within]
    rfl
  · rw [List.getElem?_eq_none, List.getElem?_eq_none] <;> simp at inside ⊢ <;> omega

/-- **A round picks each candidate once**, wherever the cursor stands. -/
theorem picks_perm (cursor : Nat) (xs : List α) :
    (picks cursor (List.replicate xs.length xs)).Perm (xs.map some) := by
  cases xs with
  | nil => exact List.Perm.refl _
  | cons x rest =>
    have some_ : 0 < (x :: rest).length := Nat.succ_pos _
    have rotated : picks cursor (List.replicate (x :: rest).length (x :: rest)) =
        ((x :: rest).rotate cursor).map some := by
      rw [picks_replicate some_]
      refine List.ext_getElem? fun j => ?_
      by_cases inside : j < (x :: rest).length
      · simp only [List.getElem?_map, List.getElem?_range inside, Option.map_some]
        rw [List.getElem?_rotate inside, Nat.add_comm, List.getElem?_eq_getElem (Nat.mod_lt _ some_)]
        rfl
      · rw [List.getElem?_eq_none, List.getElem?_eq_none] <;> simp at inside ⊢ <;> omega
    rw [rotated]
    exact ((x :: rest).rotate_perm cursor).map some

/-- Enough turns over one list bring the cursor back to its start. -/
theorem exists_cursor_zero (some_ : 0 < xs.length) :
    ∃ k, cursorAfter cursor (List.replicate (k + 1) xs) = 0 := by
  refine ⟨xs.length * (cursor + 1) - cursor - 1, ?_⟩
  have enough : cursor + 1 ≤ xs.length * (cursor + 1) := Nat.le_mul_of_pos_left _ some_
  rw [cursorAfter_replicate some_]
  have whole : cursor + (xs.length * (cursor + 1) - cursor - 1 + 1) = xs.length * (cursor + 1) := by
    omega
  rw [whole, Nat.mul_mod_right]

/-- A round with one turn over another list. -/
theorem picks_exchanged (size : ys.length = xs.length) {i : Nat} (inside : i < xs.length)
    (within : i < ys.length) : picks 0 (List.replicate i xs ++ ys :: List.replicate (xs.length - 1 - i) xs) =
      (xs.set i ys[i]).map some := by
  have some_ : 0 < xs.length := Nat.zero_lt_of_lt inside
  have front : picks 0 (List.replicate i xs) = (xs.take i).map some := by
    have stretch := @picks_stretch α xs 0 i some_ (by omega)
    rwa [Nat.zero_mod, List.drop_zero] at stretch
  have reached : cursorAfter 0 (List.replicate i xs) = i := by
    cases i with
    | zero => rfl
    | succ k => rw [cursorAfter_replicate some_, Nat.zero_add, Nat.mod_eq_of_lt inside]
  have exchanged : pick i ys = (some ys[i], (i + 1) % xs.length) := by
    rw [pick_some (size ▸ some_), Nat.mod_eq_of_lt within, List.getElem?_eq_getElem within, size]
  have back : picks ((i + 1) % xs.length) (List.replicate (xs.length - 1 - i) xs) =
      (xs.drop (i + 1)).map some := by
    rw [picks_stretch some_ (by omega), List.take_of_length_le]
    rw [List.length_drop]
    omega
  rw [picks_append, reached, picks, front, exchanged, back, List.set_eq_take_append_cons_drop,
    if_pos inside, List.map_append, List.map_cons]

theorem getElem_eq_of_set_perm (distinct : xs.Nodup) {i : Nat} (inside : i < xs.length) {x : α}
    (perm : (xs.set i x).Perm xs) : x = xs[i] := by
  have listed : x ∈ xs := perm.mem_iff.mp (List.mem_set inside x)
  obtain ⟨k, within, found⟩ := List.getElem_of_mem listed
  rw [← found]
  by_cases same : k = i
  · subst same
    rfl
  -- a second copy of `x` would make the changed list hold it twice
  · have here : i < (xs.set i x).length := by simpa using inside
    have there : k < (xs.set i x).length := by simpa using within
    have twice : (xs.set i x)[k] = (xs.set i x)[i] := by
      rw [List.getElem_set_ne (Ne.symm same), List.getElem_set_self, found]
    exact absurd ((List.Nodup.getElem_inj_iff (perm.nodup_iff.mpr distinct)).mp twice) same

end DuDuClaw.Lib
