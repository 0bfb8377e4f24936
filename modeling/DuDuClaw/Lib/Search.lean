/-
# Lib.Search -- depth-first search with a stack

A search over a graph given by the successors of each node: a stack of nodes still to
be looked at and the nodes already expanded.  A popped node is the goal, or was expanded
before, or its successors are pushed.

* `finds_iff`: with enough fuel the search finds the goal exactly when a node of the
  stack leads to it.
* `acyclic_rewire`: giving one node other successors keeps a graph without cycles so
  exactly when none of them leads back to the node.
-/
import Mathlib.Logic.Relation

namespace DuDuClaw.Lib

open Relation

variable {α : Type}

/-! ## The search -/

section Search

variable {next : α → List α} {goal : α}

def Expanded (next : α → List α) (stack visited : List α) : Prop :=
  ∀ node ∈ visited, ∀ succ ∈ next node, succ ∈ visited ∨ succ ∈ stack

variable {stack visited : List α} {node : α}

/-- A path from an expanded node to a goal that is not expanded passes the stack. -/
theorem Expanded.escapes (expanded : Expanded next stack visited)
    (fresh : goal ∉ visited) (listed : node ∈ visited) (path : ReflTransGen (fun a b => b ∈ next a) node goal) :
    ∃ other ∈ stack, ReflTransGen (fun a b => b ∈ next a) other goal := by
  induction path using ReflTransGen.head_induction_on with
  | refl => exact absurd listed fresh
  | head edge rest ih =>
    rcases expanded _ listed _ edge with again | waiting
    · exact ih again
    · exact ⟨_, waiting, rest⟩

theorem Expanded.push (expanded : Expanded next (node :: stack) visited) :
    Expanded next ((next node).reverse ++ stack) (node :: visited) := by
  intro a listed b edge
  rcases List.mem_cons.mp listed with rfl | before
  · exact .inr (List.mem_append_left _ (List.mem_reverse.mpr edge))
  rcases expanded a before b edge with again | waiting
  · exact .inl (List.mem_cons_of_mem _ again)
  · rcases List.mem_cons.mp waiting with rfl | further
    · exact .inl List.mem_cons_self
    · exact .inr (List.mem_append_right _ further)

theorem Expanded.pop (expanded : Expanded next (node :: stack) visited) (again : node ∈ visited) :
    Expanded next stack visited := by
  intro a listed b edge
  rcases expanded a listed b edge with known | waiting
  · exact .inl known
  · rcases List.mem_cons.mp waiting with rfl | further
    · exact .inl again
    · exact .inr further

theorem Expanded.reach_pop
    (expanded : Expanded next (node :: stack) visited) (again : node ∈ visited) (fresh : goal ∉ visited) :
    (∃ s ∈ stack, ReflTransGen (fun a b => b ∈ next a) s goal) ↔
      ∃ s ∈ node :: stack, ReflTransGen (fun a b => b ∈ next a) s goal := by
  constructor
  · rintro ⟨s, listed, path⟩
    exact ⟨s, List.mem_cons_of_mem _ listed, path⟩
  · rintro ⟨s, listed, path⟩
    rcases List.mem_cons.mp listed with rfl | further
    · exact (expanded.pop again).escapes fresh again path
    · exact ⟨s, further, path⟩

theorem push_paid {weight : List α → Nat} {fuel : Nat}
    (pays : weight (node :: visited) + (next node).length ≤ weight visited)
    (enough : stack.length + 1 + weight visited < fuel + 1) :
    ((next node).reverse ++ stack).length + weight (node :: visited) < fuel := by
  rw [List.length_append, List.length_reverse]
  omega

/-- The loop: the stack, and the nodes expanded so far. -/
def finds [DecidableEq α] (next : α → List α) (goal : α) : Nat → List α → List α → Bool
  | 0, _, _ => false
  | _ + 1, [], _ => false
  | fuel + 1, node :: stack, visited =>
    if node = goal then true
    else if visited.contains node then finds next goal fuel stack visited
    else finds next goal fuel ((next node).reverse ++ stack) (node :: visited)

/-- **The search is exact.**  `weight` bounds the successors still to be pushed. -/
theorem finds_iff [DecidableEq α] (weight : List α → Nat) (pays : ∀ node visited, node ∉ visited →
      weight (node :: visited) + (next node).length ≤ weight visited)
    {fuel : Nat} (enough : stack.length + weight visited < fuel)
    (expanded : Expanded next stack visited) (fresh : goal ∉ visited) :
    finds next goal fuel stack visited = true ↔
      ∃ node ∈ stack, ReflTransGen (fun a b => b ∈ next a) node goal := by
  induction fuel generalizing stack visited with
  | zero => omega
  | succ fuel ih =>
    cases stack with
    | nil => simp [finds]
    | cons node stack =>
      rw [List.length_cons] at enough
      rw [finds]
      split
      · rename_i here
        simp only [true_iff]
        exact ⟨node, List.mem_cons_self, here ▸ .refl⟩
      rename_i elsewhere
      split
      · rename_i again
        rw [List.contains_iff_mem] at again
        rw [ih (by omega) (expanded.pop again) fresh]
        exact expanded.reach_pop again fresh
      rename_i new
      rw [List.contains_iff_mem] at new
      have less := push_paid (pays node visited new) enough
      have still : goal ∉ node :: visited := by
        rw [List.mem_cons]
        rintro (rfl | listed)
        · exact elsewhere rfl
        · exact fresh listed
      rw [ih less expanded.push still]
      constructor
      · rintro ⟨other, listed, path⟩
        rcases List.mem_append.mp listed with edge | further
        · exact ⟨node, List.mem_cons_self, path.head (List.mem_reverse.mp edge)⟩
        · exact ⟨other, List.mem_cons_of_mem _ further, path⟩
      · rintro ⟨other, listed, path⟩
        rcases List.mem_cons.mp listed with rfl | further
        · rcases path.cases_head with same | ⟨succ, edge, rest⟩
          · exact absurd same elsewhere
          · exact ⟨succ, List.mem_append_left _ (List.mem_reverse.mpr edge), rest⟩
        · exact ⟨other, List.mem_append_right _ further, path⟩

end Search

/-! ## Rewiring one node -/

section Rewire

variable {old new : α → α → Prop} {node : α}

/-- A path to the node needs none of the node's own edges. -/
theorem path_to_rewired (same : ∀ a b, a ≠ node → old a b → new a b) {a : α}
    (path : ReflTransGen old a node) : ReflTransGen new a node := by
  induction path using ReflTransGen.head_induction_on with
  | refl => exact .refl
  | @head b c edge _ ih =>
    by_cases here : b = node
    · exact here ▸ .refl
    · exact ih.head (same b c here edge)

theorem path_rewired (same : ∀ a b, a ≠ node → new a b → old a b) {a b : α} (path : ReflTransGen new a b) :
    ReflTransGen old a b ∨ ReflTransGen new a node ∧ ReflTransGen new node b := by
  induction path using ReflTransGen.head_induction_on with
  | refl => exact .inl .refl
  | @head a c edge rest ih =>
    by_cases here : a = node
    · subst here
      exact .inr ⟨.refl, rest.head edge⟩
    · rcases ih with before | ⟨there, back⟩
      · exact .inl (before.head (same a c here edge))
      · exact .inr ⟨there.head edge, back⟩

/-- **Rewiring keeps a graph acyclic** exactly when no new successor of the node leads
back to it. -/
theorem acyclic_rewire (same : ∀ a b, a ≠ node → (new a b ↔ old a b)) (acyclic : ∀ a, ¬TransGen old a a) :
    (∀ a, ¬TransGen new a a) ↔ ∀ succ, new node succ → ¬ReflTransGen old succ node := by
  constructor
  · intro still succ edge back
    refine still node (.head' edge ?_)
    exact path_to_rewired (fun a b other step => (same a b other).mpr step) back
  · intro leadsAway a cycle
    have atNode : ¬TransGen new node node := by
      intro around
      obtain ⟨succ, edge, rest⟩ := TransGen.head'_iff.mp around
      exact leadsAway succ edge
        (path_to_rewired (fun a b other step => (same a b other).mp step) rest)
    obtain ⟨succ, edge, rest⟩ := TransGen.head'_iff.mp cycle
    by_cases here : a = node
    · exact atNode (here ▸ cycle)
    rcases path_rewired (fun a b other step => (same a b other).mp step) rest with
      before | ⟨there, back⟩
    · exact acyclic a (.head' ((same a succ here).mp edge) before)
    · exact atNode (TransGen.trans_right back (.head' edge there))

end Rewire

end DuDuClaw.Lib
