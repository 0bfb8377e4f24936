/-
# Lib.Chase -- following pointers

Every node points to at most one other.  A walk follows the pointers and keeps the nodes
it has passed; where the pointers close no loop it passes no node twice, so it is over
after at most as many rounds as there are nodes that point somewhere.

* `Passed.push`, `Passed.length_le`: what a walk knows of the nodes behind it.
* `chase_iff`: a walk with that many rounds meets the goal exactly when the pointers lead
  to it.
* `acyclic_induction`: induction along the pointers.
* `walk_found_iff`: where they may close a loop, a walk of so many hops that stops at a
  node it has passed still finds what lies within so many hops.
-/
import Mathlib.Data.List.Perm.Subperm

namespace DuDuClaw.Lib

open Relation

variable {α : Type}

def Points (next : α → Option α) (a b : α) : Prop := next a = some b

/-- No node leads back to itself. -/
def Loopless (next : α → Option α) : Prop := ∀ a, ¬TransGen (Points next) a a

variable {next : α → Option α}

/-- The nodes behind a walk. -/
structure Passed (next : α → Option α) (seen : List α) (node : α) : Prop where
  distinct : seen.Nodup
  leads : ∀ a ∈ seen, TransGen (Points next) a node

namespace Passed

variable {seen : List α} {node up : α}

theorem start (node : α) : Passed next [] node := ⟨.nil, List.forall_mem_nil _⟩

theorem new (passed : Passed next seen node) (loopless : Loopless next) : node ∉ seen :=
  fun listed => loopless node (passed.leads node listed)

theorem push (passed : Passed next seen node) (loopless : Loopless next)
    (edge : next node = some up) : Passed next (node :: seen) up where
  distinct := List.nodup_cons.mpr ⟨passed.new loopless, passed.distinct⟩
  leads := by
    intro a listed
    rcases List.mem_cons.mp listed with rfl | before
    · exact .single edge
    · exact (passed.leads a before).tail edge

/-- A walk passes nodes that point somewhere, none of them twice. -/
theorem length_le (passed : Passed next seen node) {domain : List α}
    (inside : ∀ a b, next a = some b → a ∈ domain) : seen.length ≤ domain.length := by
  refine (List.subperm_of_subset passed.distinct fun a listed => ?_).length_le
  obtain ⟨b, edge, -⟩ := TransGen.head'_iff.mp (passed.leads a listed)
  exact inside a b edge

end Passed

/-- Whether a walk meets the goal, or a node it has passed, or runs out of rounds. -/
def chase [DecidableEq α] (next : α → Option α) (goal : α) : Nat → List α → α → Bool
  | 0, _, _ => true
  | rounds + 1, seen, node =>
    if node = goal then true
    else if node ∈ seen then true
    else
      match next node with
      | none => false
      | some up => chase next goal rounds (node :: seen) up

variable {goal node : α} {domain seen : List α}

theorem leads_of_points {a b : α} (edge : next a = some b) (elsewhere : a ≠ goal) :
    ReflTransGen (Points next) a goal ↔ ReflTransGen (Points next) b goal := by
  constructor
  · intro path
    rcases path.cases_head with same | ⟨other, first, rest⟩
    · exact absurd same elsewhere
    · rw [Points, edge] at first
      exact Option.some.inj first ▸ rest
  · exact fun path => path.head edge

/-- **The walk is exact** where the pointers close no loop. -/
theorem chase_iff [DecidableEq α] (inside : ∀ a b, next a = some b → a ∈ domain)
    (loopless : Loopless next) {rounds : Nat}
    (passed : Passed next seen node) (enough : domain.length < rounds + seen.length) :
    chase next goal rounds seen node = true ↔ ReflTransGen (Points next) node goal := by
  induction rounds generalizing seen node with
  | zero =>
    have fits := passed.length_le inside
    omega
  | succ rounds ih =>
    rw [chase]
    split
    · rename_i here
      simp only [true_iff]
      exact here ▸ .refl
    rename_i elsewhere
    rw [if_neg (passed.new loopless)]
    cases edge : next node with
    | none =>
      simp only [Bool.false_eq_true, false_iff]
      intro path
      rcases path.cases_head with same | ⟨other, first, rest⟩
      · exact elsewhere same
      · rw [Points, edge] at first
        cases first
    | some up =>
      rw [leads_of_points edge elsewhere]
      apply ih (passed.push loopless edge)
      rw [List.length_cons]
      omega

/-- What holds of a node whenever it holds of the one it points to holds of every node. -/
theorem acyclic_induction (inside : ∀ a b, next a = some b → a ∈ domain)
    (loopless : Loopless next) {motive : α → Prop}
    (up : ∀ a, (∀ b, next a = some b → motive b) → motive a) (a : α) : motive a := by
  have walk : ∀ rounds seen node, Passed next seen node → domain.length < rounds + seen.length →
      motive node := by
    intro rounds
    induction rounds with
    | zero =>
      intro seen node passed enough
      have fits := passed.length_le inside
      omega
    | succ rounds ih =>
      intro seen node passed enough
      refine up node fun b edge => ih _ b (passed.push loopless edge) ?_
      rw [List.length_cons]
      omega
  exact walk (domain.length + 1) [] a (.start a) (Nat.lt_succ_self _)

/-! ## A bounded number of hops -/

/-- The node so many hops on. -/
def climb (next : α → Option α) : Nat → α → Option α
  | 0, node => some node
  | hops + 1, node => (next node).bind (climb next hops)

inductive Walk where
  | found
  | notFound
  | truncated
  deriving DecidableEq

/-- Follows the pointers for so many hops, until the goal, a node already seen or the end. -/
def walk [DecidableEq α] (next : α → Option α) (goal : α) : Nat → List α → α → Walk
  | 0, _, _ => .truncated
  | hops + 1, seen, node =>
    match next node with
    | none => .notFound
    | some up =>
      if up = goal then .found
      else if up ∈ seen then .notFound
      else walk next goal hops (up :: seen) up

/-- Where every pointer out of a set of nodes leads into it and not to the goal, no number of
hops does. -/
theorem climb_avoids (closed : ∀ a ∈ seen, ∀ b, next a = some b → b ∈ seen ∧ b ≠ goal) (hops : Nat)
    (inside : node ∈ seen) : climb next (hops + 1) node ≠ some goal := by
  induction hops generalizing node with
  | zero =>
    intro reached
    obtain ⟨up, edge, same⟩ := Option.bind_eq_some_iff.mp reached
    exact (closed node inside up edge).2 (Option.some.inj same)
  | succ hops ih =>
    intro reached
    obtain ⟨up, edge, rest⟩ := Option.bind_eq_some_iff.mp reached
    exact ih (closed node inside up edge).1 rest

/-- **The bounded walk is exact**, whatever loops the pointers close. -/
theorem walk_found_iff [DecidableEq α] {hops : Nat} (here : node ∈ seen)
    (behind : ∀ a ∈ seen, a ≠ node → ∀ b, next a = some b → b ∈ seen ∧ b ≠ goal) :
    walk next goal hops seen node = .found ↔ ∃ k, 1 ≤ k ∧ k ≤ hops ∧ climb next k node = some goal := by
  induction hops generalizing seen node with
  | zero =>
    simp only [walk, reduceCtorEq, false_iff]
    rintro ⟨k, positive, none_, -⟩
    omega
  | succ hops ih =>
    rw [walk]
    cases edge : next node with
    | none =>
      simp only [reduceCtorEq, false_iff]
      rintro ⟨k, positive, -, reached⟩
      obtain ⟨k, rfl⟩ := Nat.exists_eq_succ_of_ne_zero (Nat.ne_of_gt positive)
      rw [climb, edge] at reached
      cases reached
    | some up =>
      dsimp only
      split
      · rename_i there
        simp only [true_iff]
        refine ⟨1, Nat.le_refl 1, Nat.succ_le_succ (Nat.zero_le hops), ?_⟩
        rw [climb, edge, there]
        rfl
      rename_i other
      have onwards : (∃ k, 1 ≤ k ∧ k ≤ hops + 1 ∧ climb next k node = some goal) ↔
          ∃ k, 1 ≤ k ∧ k ≤ hops ∧ climb next k up = some goal := by
        constructor
        · rintro ⟨k, positive, bound, reached⟩
          obtain ⟨k, rfl⟩ := Nat.exists_eq_succ_of_ne_zero (Nat.ne_of_gt positive)
          rw [climb, edge, Option.bind_some] at reached
          refine ⟨k, Nat.one_le_iff_ne_zero.mpr ?_, by omega, reached⟩
          rintro rfl
          exact other (Option.some.inj reached)
        · rintro ⟨k, _, bound, reached⟩
          refine ⟨k + 1, by omega, by omega, ?_⟩
          rw [climb, edge, Option.bind_some]
          exact reached
      split
      · -- the nodes passed are all there is from here on, and the goal is not among them
        rename_i again
        simp only [reduceCtorEq, false_iff, onwards]
        rintro ⟨k, positive, -, reached⟩
        obtain ⟨k, rfl⟩ := Nat.exists_eq_succ_of_ne_zero (Nat.ne_of_gt positive)
        refine climb_avoids (fun a listed b pointer => ?_) k again reached
        by_cases last : a = node
        · rw [last, edge] at pointer
          cases pointer
          exact ⟨again, other⟩
        · exact behind a listed last b pointer
      · rw [onwards]
        apply ih (List.mem_cons_self ..)
        intro a listed notHere b pointer
        rcases List.mem_cons.mp listed with same | before
        · exact absurd same notHere
        by_cases last : a = node
        · rw [last, edge] at pointer
          cases pointer
          exact ⟨List.mem_cons_self .., other⟩
        · obtain ⟨inside, apart⟩ := behind a before last b pointer
          exact ⟨List.mem_cons_of_mem _ inside, apart⟩

end DuDuClaw.Lib
