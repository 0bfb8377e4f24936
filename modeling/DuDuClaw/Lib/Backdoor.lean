/-
# Lib.Backdoor -- the backdoor criterion in the graph without some edges

A path from a node is a backdoor path if its first edge points back to the node.  Those paths
are the paths of the graph without the edges out of the node; and where the node leads to
nothing of the set, the set blocks the same of them in both graphs.

* `undirectedPath_cut_iff`: which paths are left.
* `blocked_cut_iff`: what blocks them.
* `backdoor_iff`: the set d-separates the nodes in the smaller graph exactly when it blocks every
  backdoor path.
-/
import DuDuClaw.Lib.DSeparation

namespace DuDuClaw.Lib.Dag

open Relation

variable {V : Type}

/-- The edges that do not come out of `x`. -/
def Cut (E : V → V → Prop) (x : V) (a b : V) : Prop := E a b ∧ a ≠ x

/-- The first edge of the walk points back. -/
def Enters (E : V → V → Prop) (walk : List V) : Prop := ∃ x v rest, walk = x :: v :: rest ∧ E v x

/-- **The backdoor criterion**: the set holds nothing that the node leads to, and blocks every
path that enters it. -/
structure Backdoor (E : V → V → Prop) (Z : V → Prop) (x y : V) : Prop where
  apart : ∀ z, Z z → ¬TransGen E x z
  blocks : ∀ path, UndirectedPath E x y path → Enters E path → Blocked E Z path

variable {E : V → V → Prop} {Z : V → Prop} {x y : V}

theorem Acyclic.cut (acyclic : Acyclic E) (x : V) : Acyclic (Cut E x) :=
  fun v cycle => acyclic v (TransGen.mono (fun _ _ => And.left) _ _ cycle)

theorem Adjacent.of_cut {a b : V} (adjacent : Adjacent (Cut E x) a b) : Adjacent E a b :=
  adjacent.imp And.left And.left

/-- What leads to the set does so without the node, if the node does not. -/
theorem leads_cut_iff (outside : ¬Z x) (apart : ∀ z, Z z → ¬TransGen E x z) (v : V) :
    Leads (Cut E x) Z v ↔ Leads E Z v := by
  constructor
  · rintro ⟨z, inside, path⟩
    exact ⟨z, inside, ReflTransGen.mono (fun _ _ => And.left) _ _ path⟩
  · rintro ⟨z, inside, path⟩
    refine ⟨z, inside, ?_⟩
    induction path using ReflTransGen.head_induction_on with
    | refl => exact .refl
    | @head a c edge rest ih =>
      refine ih.head ⟨edge, ?_⟩
      rintro rfl
      exact apart z inside (.head' edge rest)

section Path

variable {v : V} {rest : List V}

/-- Two nodes of a path that enters: the first two, or two that are not the first. -/
theorem pair_cases (simple : (x :: v :: rest).Nodup) {a b : V} (pair : [a, b] <:+: x :: v :: rest) :
    b ≠ x ∧ (a = x → b = v) := by
  obtain ⟨away, -⟩ := List.nodup_cons.mp simple
  rcases List.infix_cons_iff.mp pair with front | later
  · obtain ⟨same, front⟩ := List.cons_prefix_cons.mp front
    obtain ⟨same', -⟩ := List.cons_prefix_cons.mp front
    refine ⟨?_, fun _ => same'⟩
    rintro rfl
    exact away (same' ▸ List.mem_cons_self)
  have listed : ∀ w ∈ [a, b], w ∈ v :: rest := fun w inside => later.subset inside
  refine ⟨?_, ?_⟩
  · rintro rfl
    exact away (listed b (by simp))
  · rintro rfl
    exact absurd (listed a (by simp)) away

theorem adjacent_cut (acyclic : Acyclic E) (simple : (x :: v :: rest).Nodup) (enters : E v x)
    {a b : V} (pair : [a, b] <:+: x :: v :: rest) (adjacent : Adjacent E a b) : Adjacent (Cut E x) a b := by
  obtain ⟨other, first⟩ := pair_cases simple pair
  rcases adjacent with edge | edge
  · refine .inl ⟨edge, ?_⟩
    rintro rfl
    rw [first rfl] at edge
    exact acyclic.asymm edge enters
  · exact .inr ⟨edge, other⟩

theorem collider_cut_iff (acyclic : Acyclic E) (simple : (x :: v :: rest).Nodup) (enters : E v x)
    {a b c : V} (triple : [a, b, c] <:+: x :: v :: rest) : Collider (Cut E x) a b c ↔ Collider E a b c := by
  have front : [a, b] <:+: x :: v :: rest :=
    List.IsInfix.trans (List.prefix_append [a, b] [c]).isInfix triple
  have back : [b, c] <:+: x :: v :: rest :=
    List.IsInfix.trans (List.suffix_cons a [b, c]).isInfix triple
  obtain ⟨-, first⟩ := pair_cases simple front
  obtain ⟨other, -⟩ := pair_cases simple back
  constructor
  · exact fun both => ⟨both.1.1, both.2.1⟩
  · intro both
    refine ⟨⟨both.1, ?_⟩, both.2, other⟩
    rintro rfl
    have edge := both.1
    rw [first rfl] at edge
    exact acyclic.asymm edge enters

end Path

/-- **The paths that are left** are the backdoor paths. -/
theorem undirectedPath_cut_iff (acyclic : Acyclic E) (differ : x ≠ y) (path : List V) :
    UndirectedPath (Cut E x) x y path ↔ UndirectedPath E x y path ∧ Enters E path := by
  -- a path between two nodes has a first edge
  have shape : path.head? = some x → path.getLast? = some y → ∃ v rest, path = x :: v :: rest := by
    intro first last
    match path, first, last with
    | [a], first, last =>
      cases first
      cases last
      exact absurd rfl differ
    | a :: v :: rest, first, last =>
      cases first
      exact ⟨v, rest, rfl⟩
  constructor
  · intro isPath
    obtain ⟨v, rest, rfl⟩ := shape isPath.first isPath.last
    have step : Adjacent (Cut E x) x v := isPath.steps.rel_head? rfl
    have enters : E v x := by
      rcases step with edge | edge
      · exact absurd rfl edge.2
      · exact edge.1
    exact ⟨⟨⟨isPath.first, isPath.last, isPath.steps.imp fun _ _ => Adjacent.of_cut⟩, isPath.simple⟩,
      x, v, rest, rfl, enters⟩
  · rintro ⟨isPath, _, v, rest, rfl, enters⟩
    cases isPath.first
    refine ⟨⟨isPath.first, isPath.last, ?_⟩, isPath.simple⟩
    rw [List.isChain_iff_forall_rel_of_append_cons_cons]
    intro a b front back split
    have pair : [a, b] <:+: x :: v :: rest := ⟨front, back, by simp [split]⟩
    have step := List.isChain_iff_forall_rel_of_append_cons_cons.mp isPath.steps split
    exact adjacent_cut acyclic isPath.simple enters pair step

/-- **What blocks a backdoor path** in one graph blocks it in the other. -/
theorem blocked_cut_iff (acyclic : Acyclic E) (outside : ¬Z x)
    (apart : ∀ z, Z z → ¬TransGen E x z) {path : List V} (isPath : UndirectedPath E x y path)
    (enters : Enters E path) : Blocked (Cut E x) Z path ↔ Blocked E Z path := by
  obtain ⟨_, v, rest, rfl, edge⟩ := enters
  cases isPath.first
  refine exists_congr fun a => exists_congr fun b => exists_congr fun c => and_congr_right ?_
  intro triple
  rw [BlockedAt, BlockedAt, collider_cut_iff acyclic isPath.simple edge triple, leads_cut_iff outside apart]

/-- The paths that enter are blocked, for a set the node does not lead to. -/
theorem backdoor_iff (acyclic : Acyclic E) (differ : x ≠ y) (outside : ¬Z x)
    (apart : ∀ z, Z z → ¬TransGen E x z) : DSeparated (Cut E x) Z x y ↔
      ∀ path, UndirectedPath E x y path → Enters E path → Blocked E Z path := by
  constructor
  · intro separated path isPath enters
    rw [← blocked_cut_iff acyclic outside apart isPath enters]
    exact separated path ((undirectedPath_cut_iff acyclic differ path).mpr ⟨isPath, enters⟩)
  · intro blocks path isPath
    obtain ⟨isPath', enters⟩ := (undirectedPath_cut_iff acyclic differ path).mp isPath
    rw [blocked_cut_iff acyclic outside apart isPath' enters]
    exact blocks path isPath' enters

/-- The parents of a node meet the criterion, unless the other node is one of them. -/
theorem backdoor_parents (acyclic : Acyclic E) (apart : ¬E y x) : Backdoor E (E · x) x y where
  apart z edge path := acyclic x (path.tail edge)
  blocks := by
    rintro _ isPath ⟨x, v, rest, rfl, enters⟩
    cases Option.some_inj.mp isPath.first
    cases rest with
    | nil =>
      cases Option.some_inj.mp isPath.last
      exact absurd enters apart
    | cons c rest =>
      refine ⟨x, v, c, ⟨[], rest, rfl⟩, .inr ⟨?_, enters⟩⟩
      exact fun both => acyclic.asymm enters both.1

end DuDuClaw.Lib.Dag
