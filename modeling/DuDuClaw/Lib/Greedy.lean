/-
# Lib.Greedy -- keep what conflicts with nothing kept before it

The greedy selection of a ranked list: candidates are taken in order, and one is
kept unless it conflicts with a candidate that is already kept.  `wins` says the
same of a single candidate and the list ranked above it, by recursion on that
list, without an accumulator.

* `mem_greedy`: exactly the winners are kept.
* `loses`: a candidate that is not kept conflicts with a winner ranked above it.
* `greedy_pairwise`: kept candidates do not conflict.
* `greedy_in_order`, `greedy_keeps`: they are kept in the order of the list.
* `pairwise_insertionSort_of`: what holds of every two in the order of their keys holds in the list
  that is sorted by keys.
-/
import Mathlib.Data.List.Induction
import Mathlib.Data.List.Sort

namespace DuDuClaw.Lib

universe u

variable {α : Type u} (conflict : α → α → Bool)

/-- Take the candidates in order, keeping those that conflict with nothing kept. -/
def greedy : List α → List α → List α
  | kept, [] => kept
  | kept, c :: rest =>
    if kept.any (conflict c) then greedy kept rest else greedy (kept ++ [c]) rest

/-- `m` conflicts with no winner of `above`, the candidates ranked above it with
the nearest first. -/
def wins : List α → α → Bool
  | [], _ => true
  | b :: above, m => wins above m && !(wins above b && conflict m b)

variable {conflict}

variable {kept rest l pre : List α} {x : α} {key : α → Nat} {related : α → α → Prop}

theorem mem_greedy_aux (above : List α)
    (settled : ∀ m, wins conflict above m = !kept.any (conflict m)) : x ∈ greedy conflict kept rest ↔
      x ∈ kept ∨ ∃ pre post, rest = pre ++ x :: post ∧ wins conflict (pre.reverse ++ above) x := by
  induction rest generalizing kept above with
  | nil => simp [greedy]
  | cons c rest ih =>
    -- a split of `c :: rest` is either at `c` or further down, past `c`
    have splits : (∃ pre post, c :: rest = pre ++ x :: post ∧ wins conflict (pre.reverse ++ above) x) ↔
        (x = c ∧ wins conflict above c) ∨
          ∃ pre post, rest = pre ++ x :: post ∧ wins conflict (pre.reverse ++ c :: above) x := by
      constructor
      · rintro ⟨pre, post, eq, won⟩
        cases pre with
        | nil =>
          obtain ⟨rfl, rfl⟩ := List.cons.inj eq
          exact .inl ⟨rfl, won⟩
        | cons d pre =>
          obtain ⟨rfl, rfl⟩ := List.cons.inj eq
          exact .inr ⟨pre, post, rfl, by simpa using won⟩
      · rintro (⟨rfl, won⟩ | ⟨pre, post, rfl, won⟩)
        · exact ⟨[], rest, rfl, won⟩
        · exact ⟨c :: pre, post, rfl, by simpa using won⟩
    rw [splits, greedy]
    by_cases lost : kept.any (conflict c)
    · have notWon : wins conflict above c = false := by rw [settled, lost]; rfl
      rw [if_pos lost, ih (c :: above)]
      · simp [notWon]
      · intro m
        simp [wins, notWon, settled]
    have won : wins conflict above c = true := by
      rw [settled]; simpa using lost
    rw [if_neg lost, ih (c :: above)]
    · simp only [List.mem_append, List.mem_singleton, won, and_true, or_assoc]
    · intro m
      simp [wins, won, settled]

/-- **Exactly the winners are kept.** -/
theorem mem_greedy :
    x ∈ greedy conflict [] l ↔ ∃ pre post, l = pre ++ x :: post ∧ wins conflict pre.reverse x := by
  rw [mem_greedy_aux []]
  · simp
  · simp [wins]

theorem loses {m : α} (lost : wins conflict pre.reverse m = false) :
    ∃ p₁ b p₂, pre = p₁ ++ b :: p₂ ∧ wins conflict p₁.reverse b ∧ conflict m b := by
  induction pre using List.reverseRecOn with
  | nil => simp [wins] at lost
  | append_singleton pre b ih =>
    rw [List.reverse_append, List.reverse_singleton, List.singleton_append, wins, Bool.and_eq_false_iff] at lost
    rcases lost with lost | beaten
    · obtain ⟨p₁, c, p₂, rfl, won, clash⟩ := ih lost
      exact ⟨p₁, c, p₂ ++ [b], by simp, won, clash⟩
    · simp only [Bool.not_eq_false', Bool.and_eq_true] at beaten
      exact ⟨pre, b, [], rfl, beaten.1, beaten.2⟩

theorem greedy_pairwise_aux (apart : kept.Pairwise fun a b => conflict b a = false) :
    (greedy conflict kept rest).Pairwise fun a b => conflict b a = false := by
  induction rest generalizing kept with
  | nil => exact apart
  | cons c rest ih =>
    rw [greedy]
    split
    · exact ih apart
    rename_i free
    apply ih
    rw [List.pairwise_append]
    refine ⟨apart, List.pairwise_singleton _ _, ?_⟩
    intro a member b last
    rw [List.mem_singleton.mp last]
    simp only [List.any_eq_true, not_exists, not_and, Bool.not_eq_true] at free
    exact free a member

theorem greedy_pairwise (l : List α) : (greedy conflict [] l).Pairwise fun a b => conflict b a = false :=
  greedy_pairwise_aux .nil

/-! ## The order of what is kept -/

theorem greedy_append (kept front back : List α) :
    greedy conflict kept (front ++ back) = greedy conflict (greedy conflict kept front) back := by
  induction front generalizing kept with
  | nil => rfl
  | cons c front ih =>
    rw [List.cons_append, greedy, greedy]
    split_ifs
    · exact ih kept
    · exact ih (kept ++ [c])

theorem wins_eq (pre : List α) (m : α) :
    wins conflict pre.reverse m = !(greedy conflict [] pre).any (conflict m) := by
  induction pre using List.reverseRecOn generalizing m with
  | nil => rfl
  | append_singleton pre c ih =>
    rw [List.reverse_append, List.reverse_singleton, List.singleton_append, wins, ih m, ih c, greedy_append, greedy]
    split_ifs with beaten
    · simp [beaten, greedy]
    · simp [Bool.eq_false_of_not_eq_true beaten, greedy]

theorem greedy_rest (kept l : List α) : ∃ rest, greedy conflict kept l = kept ++ rest ∧
      ∀ b ∈ l, b ∈ rest ∨ (greedy conflict kept l).any (conflict b) = true := by
  induction l generalizing kept with
  | nil => exact ⟨[], (List.append_nil kept).symm, List.forall_mem_nil _⟩
  | cons c l ih =>
    rw [greedy]
    split_ifs with beaten
    · obtain ⟨rest, shape, all⟩ := ih kept
      refine ⟨rest, shape, fun b listed => ?_⟩
      rcases List.mem_cons.mp listed with rfl | later
      · right
        rw [shape, List.any_append, beaten, Bool.true_or]
      · exact all b later
    obtain ⟨rest, shape, all⟩ := ih (kept ++ [c])
    refine ⟨c :: rest, by rw [shape, List.append_assoc]; rfl, fun b listed => ?_⟩
    rcases List.mem_cons.mp listed with rfl | later
    · exact .inl List.mem_cons_self
    · exact (all b later).imp_left (List.mem_cons_of_mem c)

/-- Of two that are kept the first is ranked above the second. -/
theorem greedy_in_order (l : List α) : (greedy conflict [] l).Pairwise fun a b =>
      ∃ pre post, l = pre ++ a :: post ∧ wins conflict pre.reverse a ∧ b ∈ post := by
  induction l using List.reverseRecOn with
  | nil => exact .nil
  | append_singleton l c ih =>
    have longer : (greedy conflict [] l).Pairwise fun a b =>
        ∃ pre post, l ++ [c] = pre ++ a :: post ∧ wins conflict pre.reverse a ∧ b ∈ post := by
      refine ih.imp ?_
      rintro a b ⟨pre, post, rfl, won, behind⟩
      exact ⟨pre, post ++ [c], by rw [List.append_assoc]; rfl, won, List.mem_append_left _ behind⟩
    rw [greedy_append, greedy]
    split_ifs
    · exact longer
    rw [greedy, List.pairwise_append]
    refine ⟨longer, List.pairwise_singleton _ _, fun a kept b last => ?_⟩
    obtain ⟨pre, post, rfl, won⟩ := mem_greedy.mp kept
    rw [List.mem_singleton.mp last]
    exact ⟨pre, post ++ [c], by rw [List.append_assoc]; rfl, won, List.mem_append_right _ List.mem_cons_self⟩

/-- A winner is kept before one that is ranked below it and conflicts with nothing kept. -/
theorem greedy_keeps {post : List α} {a b : α} (won : wins conflict pre.reverse a = true) (behind : b ∈ post)
    (free : ∀ c ∈ greedy conflict [] (pre ++ a :: post), conflict b c = false) :
    [a, b].Sublist (greedy conflict [] (pre ++ a :: post)) := by
  rw [wins_eq, Bool.not_eq_true'] at won
  rw [greedy_append, greedy, if_neg (by rw [won]; exact Bool.false_ne_true)] at free ⊢
  obtain ⟨rest, shape, all⟩ := @greedy_rest α conflict (greedy conflict [] pre ++ [a]) post
  have kept : b ∈ rest := by
    rcases all b behind with kept | clash
    · exact kept
    · obtain ⟨c, member, conflicts⟩ := List.any_eq_true.mp clash
      rw [free c member] at conflicts
      cases conflicts
  rw [shape]
  exact (List.sublist_append_right (greedy conflict [] pre) [a]).append (List.singleton_sublist.mpr kept)

/-! ## Sorting by a key -/

theorem pairwise_orderedInsert_of (sorted : l.Pairwise fun a b => key a ≤ key b) (pairs : l.Pairwise related)
    (with_ : ∀ y ∈ l, (key x ≤ key y → related x y) ∧ (key y < key x → related y x)) :
    (l.orderedInsert (fun a b => key a ≤ key b) x).Pairwise related := by
  induction l with
  | nil => exact List.pairwise_singleton _ _
  | cons y l ih =>
    obtain ⟨least, sorted⟩ := List.pairwise_cons.mp sorted
    obtain ⟨first, pairs⟩ := List.pairwise_cons.mp pairs
    obtain ⟨atHead, atTail⟩ := List.forall_mem_cons.mp with_
    rw [List.orderedInsert]
    split_ifs with le
    · refine List.pairwise_cons.mpr ⟨fun z listed => ?_, List.pairwise_cons.mpr ⟨first, pairs⟩⟩
      rcases List.mem_cons.mp listed with rfl | later
      · exact atHead.1 le
      · exact (atTail z later).1 (Nat.le_trans le (least z later))
    refine List.pairwise_cons.mpr ⟨fun z listed => ?_, ih sorted pairs atTail⟩
    rcases (List.mem_orderedInsert _).mp listed with rfl | later
    · exact atHead.2 (Nat.lt_of_not_le le)
    · exact first z later

/-- What holds of every two in the order of their keys holds in the list that is sorted by keys. -/
theorem pairwise_insertionSort_of
    (pairs : l.Pairwise fun x y => (key x ≤ key y → related x y) ∧ (key y < key x → related y x)) :
    (l.insertionSort fun a b => key a ≤ key b).Pairwise related := by
  induction l with
  | nil => exact .nil
  | cons x l ih =>
    obtain ⟨first, pairs⟩ := List.pairwise_cons.mp pairs
    refine pairwise_orderedInsert_of (List.pairwise_insertionSort (fun a b => key a ≤ key b) l) (ih pairs) ?_
    exact fun y listed => first y ((List.mem_insertionSort _).mp listed)

/-- A sort never puts a smaller measure before a greater one, where its comparison does not. -/
theorem pairwise_insertionSort_measure {rank : α → α → Prop} [DecidableRel rank] {measure : α → Int}
    (yes : ∀ a b, rank a b → measure b ≤ measure a) (no : ∀ a b, ¬rank a b → measure a ≤ measure b) (l : List α) :
    (l.insertionSort rank).Pairwise fun a b => measure b ≤ measure a := by
  induction l with
  | nil => exact .nil
  | cons x l ih =>
    rw [List.insertionSort_cons]
    generalize l.insertionSort rank = sorted at ih
    induction sorted with
    | nil => exact List.pairwise_singleton _ _
    | cons y sorted more =>
      obtain ⟨first, rest⟩ := List.pairwise_cons.mp ih
      rw [List.orderedInsert]
      split_ifs with above
      · refine List.pairwise_cons.mpr ⟨fun z listed => ?_, ih⟩
        rcases List.mem_cons.mp listed with rfl | later
        · exact yes x _ above
        · exact Int.le_trans (first z later) (yes x y above)
      refine List.pairwise_cons.mpr ⟨fun z listed => ?_, more rest⟩
      rcases (List.mem_orderedInsert _).mp listed with rfl | later
      · exact no _ _ above
      · exact first z later

end DuDuClaw.Lib
