/-
# Lib.Trellis -- paths through a trellis, and the loop that keeps the best

A trellis has one row of scores a step, says which states a path may start and stop in, and links
states by weighted edges.  A score at or below the floor counts as out of reach.

* `foldl_keepBest`: the loop returns an upper bound, and an index that attains it above the floor.
* `Climb.legal`: what is climbed step by step is a path with its total.
* `climb_of_above`: a path that stays above the floor is climbed.
-/
import Mathlib.Algebra.BigOperators.Group.List.Basic
import Mathlib.Algebra.Order.Monoid.Defs
import Mathlib.Data.List.Chain

namespace DuDuClaw.Lib

/-! ## The best of a list -/

section Best

variable {ι K : Type} [LinearOrder K]

/-- One round: a score that counts and is better replaces the best so far. -/
def keepBest (counts : ι → Bool) (score : ι → K) (current : K × ι) (j : ι) : K × ι :=
  if counts j = true ∧ current.1 < score j then (score j, j) else current

/-- `found` is the best score above the floor, with an index that has it. -/
structure IsBest (counts : ι → Bool) (score : ι → K) (floor : K) (l : List ι) (found : K × ι) : Prop where
  upper : ∀ j ∈ l, counts j = true → score j ≤ found.1
  floor_le : floor ≤ found.1
  attained : floor < found.1 → found.2 ∈ l ∧ counts found.2 = true ∧ score found.2 = found.1

theorem foldl_keepBest (counts : ι → Bool) (score : ι → K) (floor : K) (index : ι) (l : List ι) :
    IsBest counts score floor l (l.foldl (keepBest counts score) (floor, index)) := by
  induction l using List.reverseRecOn with
  | nil =>
    exact ⟨fun j listed => absurd listed List.not_mem_nil, le_refl _, fun above => absurd above (lt_irrefl _)⟩
  | append_singleton l j ih =>
    rw [List.foldl_concat, keepBest]
    split_ifs with better
    · refine ⟨fun i listed eligible => ?_, ih.floor_le.trans better.2.le, fun _ => ?_⟩
      · rcases List.mem_append.mp listed with earlier | last
        · exact (ih.upper i earlier eligible).trans better.2.le
        · rw [List.mem_singleton.mp last]
      · exact ⟨List.mem_append_right _ List.mem_cons_self, better.1, rfl⟩
    refine ⟨fun i listed eligible => ?_, ih.floor_le, fun above => ?_⟩
    · rcases List.mem_append.mp listed with earlier | last
      · exact ih.upper i earlier eligible
      · rw [List.mem_singleton.mp last] at eligible ⊢
        exact le_of_not_gt fun less => better ⟨eligible, less⟩
    · obtain ⟨listed, eligible, same⟩ := ih.attained above
      exact ⟨List.mem_append_left _ listed, eligible, same⟩

end Best

/-! ## Paths -/

structure Trellis (K : Type) (n : Nat) where
  start : Fin n → Bool
  stop : Fin n → Bool
  edge : Fin n → Fin n → Bool
  weight : Fin n → Fin n → K
  floor : K

namespace Trellis

variable {K : Type} {n : Nat} [AddCommMonoid K]

def emitted (rows : List (Fin n → K)) (path : List (Fin n)) : K :=
  (List.zipWith (fun row k => row k) rows path).sum

variable (T : Trellis K n)

def carried (path : List (Fin n)) : K := (List.zipWith T.weight path path.tail).sum

def total (rows : List (Fin n → K)) (path : List (Fin n)) : K := emitted rows path + T.carried path

omit [AddCommMonoid K] in
/-- One state a row, linked by edges, from a start to a stop. -/
structure Legal (rows : List (Fin n → K)) (path : List (Fin n)) : Prop where
  length : path.length = rows.length
  starts : ∀ k, path.head? = some k → T.start k = true
  linked : path.IsChain fun j k => T.edge j k = true
  stops : ∀ k, path.getLast? = some k → T.stop k = true

/-- The running score is above the floor at every state of the path, and on every edge. -/
structure Above [LT K] (rows : List (Fin n → K)) (path : List (Fin n)) : Prop where
  states : ∀ front j back, path = front ++ j :: back → T.floor < T.total rows (front ++ [j])
  edges : ∀ front j k back, path = front ++ j :: k :: back → T.floor < T.total rows (front ++ [j]) + T.weight j k

/-- A start of a path that was climbed above the floor, with its score. -/
inductive Climb [LT K] : List (Fin n → K) → List (Fin n) → K → Prop
  | first {row : Fin n → K} {k : Fin n} (start : T.start k = true) : Climb [row] [k] (row k)
  | next {rows : List (Fin n → K)} {row : Fin n → K} {path : List (Fin n)} {j k : Fin n} {s : K}
      (earlier : Climb rows (path ++ [j]) s) (above : T.floor < s) (edge : T.edge j k = true)
      (above' : T.floor < s + T.weight j k) :
      Climb (rows ++ [row]) (path ++ [j] ++ [k]) (s + T.weight j k + row k)

variable {rows : List (Fin n → K)} {path : List (Fin n)}

theorem carried_concat (path : List (Fin n)) (j k : Fin n) :
    T.carried (path ++ [j] ++ [k]) = T.carried (path ++ [j]) + T.weight j k := by
  induction path with
  | nil => simp [carried]
  | cons i path ih =>
    cases path with
    | nil => simp [carried]
    | cons i' path =>
      simp only [carried, List.cons_append, List.tail_cons, List.zipWith_cons_cons, List.sum_cons] at ih ⊢
      rw [ih, add_assoc]

theorem emitted_concat (length : path.length = rows.length)
    (row : Fin n → K) (k : Fin n) : emitted (rows ++ [row]) (path ++ [k]) = emitted rows path + row k := by
  rw [emitted, List.zipWith_append length.symm, List.sum_append]
  simp [emitted]

/-- Rows behind the end of a path do not matter. -/
theorem emitted_append (short : path.length ≤ rows.length)
    (more : List (Fin n → K)) : emitted (rows ++ more) path = emitted rows path := by
  induction rows generalizing path with
  | nil => rw [List.length_eq_zero_iff.mp (Nat.le_zero.mp short), emitted, emitted, List.zipWith_nil_right,
      List.zipWith_nil_right]
  | cons row rows ih =>
    cases path with
    | nil => rfl
    | cons k path =>
      have rest := ih (Nat.le_of_succ_le_succ short)
      simp only [emitted, List.cons_append, List.zipWith_cons_cons, List.sum_cons] at rest ⊢
      rw [rest]

theorem total_concat {j : Fin n} (length : (path ++ [j]).length = rows.length) (row : Fin n → K) (k : Fin n) :
    T.total (rows ++ [row]) (path ++ [j] ++ [k]) = T.total rows (path ++ [j]) + T.weight j k + row k := by
  rw [total, total, emitted_concat length, carried_concat, add_add_add_comm, add_comm (row k), ← add_assoc]

section Climbs

variable {T} [LT K] {rows : List (Fin n → K)} {path : List (Fin n)} {s : K}

theorem Climb.facts (climb : T.Climb rows path s) :
    path.length = rows.length ∧ (∀ k, path.head? = some k → T.start k = true) ∧
      path.IsChain (fun j k => T.edge j k = true) ∧ s = T.total rows path := by
  induction climb with
  | first start =>
    refine ⟨rfl, fun k first => ?_, List.isChain_singleton _, ?_⟩
    · obtain rfl := Option.some.inj first
      exact start
    · simp [total, emitted, carried]
  | @next rows row path j k s earlier above edge above' ih =>
    obtain ⟨length, starts, linked, same⟩ := ih
    refine ⟨by rw [List.length_append, length, List.length_append]; rfl, fun i first => ?_, ?_, ?_⟩
    · rw [List.head?_append_of_ne_nil _ (by simp)] at first
      exact starts i first
    · refine List.isChain_append.mpr ⟨linked, List.isChain_singleton _, fun a last b first => ?_⟩
      rw [List.getLast?_concat, Option.mem_some] at last
      rw [List.head?_cons, Option.mem_some] at first
      rw [← last, ← first]
      exact edge
    · rw [T.total_concat length, same]

theorem Climb.of_one_row {row : Fin n → K} (climb : T.Climb [row] path s) :
    ∃ k, path = [k] ∧ T.start k = true ∧ s = row k := by
  generalize one : [row] = rows at climb
  cases climb with
  | @first row' k start =>
    obtain rfl := List.singleton_inj.mp one
    exact ⟨k, rfl, start, rfl⟩
  | @next earlier row' front j k s earlier' above edge above' =>
    have length := earlier'.facts.1
    have size := congrArg List.length one
    simp only [List.length_append, List.length_singleton] at length size
    omega

theorem Climb.of_more_rows {row : Fin n → K} (climb : T.Climb (rows ++ [row]) path s) (more : rows ≠ []) :
    ∃ front j k s', path = front ++ [j] ++ [k] ∧ T.Climb rows (front ++ [j]) s' ∧ T.floor < s' ∧
      T.edge j k = true ∧ T.floor < s' + T.weight j k ∧ s = s' + T.weight j k + row k := by
  generalize all : rows ++ [row] = rows' at climb
  cases climb with
  | @first row' k start =>
    have size := congrArg List.length all
    have positive := List.length_pos_iff.mpr more
    simp only [List.length_append, List.length_singleton] at size
    omega
  | @next earlier row' front j k s earlier' above edge above' =>
    obtain ⟨rfl, same⟩ := List.append_inj' all rfl
    obtain rfl := List.singleton_inj.mp same
    exact ⟨front, j, k, s, rfl, earlier', above, edge, above', rfl⟩

/-- A start of a path that is above the floor before its last state is climbed. -/
theorem climb_of_above (length : path.length = rows.length) (nonempty : path ≠ [])
    (starts : ∀ k, path.head? = some k → T.start k = true) (linked : path.IsChain fun j k => T.edge j k = true)
    (states : ∀ front j k back, path = front ++ j :: k :: back → T.floor < T.total rows (front ++ [j]))
    (edges : ∀ front j k back, path = front ++ j :: k :: back →
      T.floor < T.total rows (front ++ [j]) + T.weight j k) : T.Climb rows path (T.total rows path) := by
  induction path using List.reverseRecOn generalizing rows with
  | nil => exact absurd rfl nonempty
  | append_singleton path k ih =>
    obtain rfl | ⟨earlier, row, rfl⟩ := List.eq_nil_or_concat rows
    · simp at length
    rw [List.concat_eq_append] at *
    simp only [List.length_append, List.length_singleton, Nat.add_right_cancel_iff] at length
    rcases List.eq_nil_or_concat path with rfl | ⟨front, j, rfl⟩
    · obtain rfl := List.length_eq_zero_iff.mp length.symm
      have climb : T.Climb [row] [k] (row k) := .first (starts k rfl)
      have same : T.total [row] [k] = row k := by simp [total, emitted, carried]
      rw [List.nil_append, List.nil_append, same]
      exact climb
    rw [List.concat_eq_append] at *
    have shorter : ∀ part : List (Fin n), part.length ≤ earlier.length →
        T.total (earlier ++ [row]) part = T.total earlier part := fun part short => by
      rw [total, total, emitted_append short]
    have split : front ++ [j] ++ [k] = front ++ j :: k :: [] := by simp
    have linked' := List.isChain_append.mp linked
    have before : T.Climb earlier (front ++ [j]) (T.total earlier (front ++ [j])) := by
      refine ih length (by simp) (fun i first => starts i ?_) linked'.1 ?_ ?_
      · rw [List.head?_append_of_ne_nil _ (by simp), first]
      · intro f a b back same
        have at_ := states f a b (back ++ [k]) (by rw [same]; simp)
        rwa [shorter _ (by rw [← length, same]; simp)] at at_
      · intro f a b back same
        have onto := edges f a b (back ++ [k]) (by rw [same]; simp)
        rwa [shorter _ (by rw [← length, same]; simp)] at onto
    have at_ := states front j k [] split
    have onto := edges front j k [] split
    rw [shorter _ (Nat.le_of_eq length)] at at_ onto
    rw [T.total_concat length]
    exact .next before at_ (linked'.2.2 j (by simp) k (by simp)) onto

end Climbs

end Trellis

end DuDuClaw.Lib
