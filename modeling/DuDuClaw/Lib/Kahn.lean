/-
# Lib.Kahn -- taking a graph apart from its sources

Every node has the number of edges into it that are left; a node without any is queued, and its
own edges are taken away when it is visited.  All nodes are visited exactly when the graph has
no cycle.

* `release_spec`: what taking away the edges of one node does.
* `Drained.visit`: what the loop knows, and how a round keeps it.
* `drains_spec`: the number of visited nodes.
-/
import DuDuClaw.Lib.Chase
import DuDuClaw.Lib.DSeparation
import DuDuClaw.Lib.Worklist

namespace DuDuClaw.Lib

open Relation Dag

variable {α : Type} [DecidableEq α]

/-! ## The loop -/

/-- One edge to each child is taken away; a child without others is queued. -/
def release : List α → (α → Nat) → List α → (α → Nat) × List α
  | [], count, queue => (count, queue)
  | child :: rest, count, queue =>
    let left := count child - 1
    release rest (Function.update count child left) (if left = 0 then queue ++ [child] else queue)

/-- The number of nodes that are visited. -/
def drains (next : α → List α) : Nat → (α → Nat) → List α → Nat → Option Nat
  | 0, _, _, _ => none
  | _ + 1, _, [], visited => some visited
  | fuel + 1, count, node :: queue, visited =>
    drains next fuel (release (next node) count queue).1 (release (next node) count queue).2
      (visited + 1)

def waits (edges : List (α × α)) (visited : List α) (node : α) : Nat :=
  unspent (edges.filter fun edge => edge.2 = node) visited

/-! ## One node -/

theorem release_spec (children : List α) (count : α → Nat) (queue : List α)
    (enough : ∀ v, children.count v ≤ count v) :
    ∃ freed, release children count queue = (fun v => count v - children.count v, queue ++ freed) ∧
      freed.Nodup ∧ ∀ v, v ∈ freed ↔ v ∈ children ∧ count v = children.count v := by
  induction children generalizing count queue with
  | nil => exact ⟨[], by simp [release], .nil, by simp⟩
  | cons child rest ih =>
    have most : rest.count child + 1 ≤ count child := by
      have bound := enough child
      rwa [List.count_cons_self] at bound
    have later : ∀ v, rest.count v ≤ Function.update count child (count child - 1) v := by
      intro v
      by_cases here : v = child
      · rw [here, Function.update_self]
        omega
      · have bound := enough v
        rw [List.count_cons_of_ne (Ne.symm here)] at bound
        rwa [Function.update_of_ne here]
    have left : ∀ v, Function.update count child (count child - 1) v - rest.count v =
        count v - (child :: rest).count v := by
      intro v
      by_cases here : v = child
      · rw [here, Function.update_self, List.count_cons_self]
        omega
      · rw [Function.update_of_ne here, List.count_cons_of_ne (Ne.symm here)]
    obtain ⟨freed, same, distinct, all⟩ := ih _ (if count child - 1 = 0 then queue ++ [child] else queue) later
    rw [release]
    rw [same, funext left]
    by_cases last : count child - 1 = 0
    · have gone : rest.count child = 0 := by omega
      have gone := List.count_eq_zero.mp gone
      refine ⟨child :: freed, by rw [if_pos last, List.append_assoc]; rfl, ?_, ?_⟩
      · exact List.nodup_cons.mpr ⟨fun listed => gone ((all child).mp listed).1, distinct⟩
      · intro v
        rw [List.mem_cons, List.mem_cons, all]
        by_cases here : v = child
        · subst here
          rw [List.count_cons_self]
          simp only [true_or, true_and, true_iff]
          omega
        · rw [Function.update_of_ne here, List.count_cons_of_ne (Ne.symm here)]
          simp only [here, false_or]
    · refine ⟨freed, by rw [if_neg last], distinct, ?_⟩
      intro v
      rw [List.mem_cons, all]
      by_cases here : v = child
      · subst here
        rw [Function.update_self, List.count_cons_self]
        simp only [true_or, true_and]
        constructor
        · rintro ⟨-, exact⟩
          omega
        · intro exact
          have again : 0 < rest.count v := by omega
          exact ⟨List.count_pos_iff.mp again, by omega⟩
      · rw [Function.update_of_ne here, List.count_cons_of_ne (Ne.symm here)]
        simp only [here, false_or]

/-- The edges from one node to another, counted in two ways. -/
theorem count_targets (edges : List (α × α)) (node v : α) :
    (targets edges node).count v = (targets (edges.filter fun edge => edge.2 = v) node).length := by
  induction edges with
  | nil => rfl
  | cons edge rest ih =>
    obtain ⟨a, b⟩ := edge
    rw [targets_cons]
    by_cases ends : b = v
    · rw [List.filter_cons_of_pos (by simpa using ends), targets_cons]
      by_cases here : a = node
      · rw [if_pos here, if_pos here, ends, List.count_cons_self, List.length_cons, ih]
      · rw [if_neg here, if_neg here, ih]
    rw [List.filter_cons_of_neg (by simpa using ends)]
    by_cases here : a = node
    · rw [if_pos here, List.count_cons_of_ne ends, ih]
    · rw [if_neg here, ih]

theorem waits_cons (edges : List (α × α)) {node : α} {visited : List α} (new : node ∉ visited) (v : α) :
    waits edges (node :: visited) v + (targets edges node).count v = waits edges visited v := by
  rw [count_targets]
  exact unspent_cons _ new

/-- Nothing is left to wait for when every edge comes from a visited node. -/
theorem waits_eq_zero {edges : List (α × α)} {visited : List α} {v : α} :
    waits edges visited v = 0 ↔ ∀ u, (u, v) ∈ edges → u ∈ visited := by
  rw [waits, unspent, List.countP_eq_zero]
  constructor
  · intro none u edge
    have known := none (u, v) (List.mem_filter.mpr ⟨edge, by simp⟩)
    simpa using known
  · rintro all ⟨u, w⟩ listed
    obtain ⟨edge, ends⟩ := List.mem_filter.mp listed
    have same : w = v := by simpa using ends
    simpa using all u (same ▸ edge)

/-! ## All nodes -/

structure Drained (edges : List (α × α)) (nodes visited queue : List α) (count : α → Nat) : Prop where
  counts : count = waits edges visited
  distinct : (visited ++ queue).Nodup
  exact : ∀ v, v ∈ visited ++ queue ↔ v ∈ nodes ∧ count v = 0
  closed : ∀ v ∈ visited, ∀ u, (u, v) ∈ edges → u ∈ visited
  acyclic : ∀ v ∈ visited, ¬TransGen (fun a b => (a, b) ∈ edges) v v

namespace Drained

variable {edges : List (α × α)} {nodes visited queue : List α} {count : α → Nat} {node : α}

theorem behind (drained : Drained edges nodes visited queue count) {u v : α} (listed : v ∈ visited)
    (path : ReflTransGen (fun a b => (a, b) ∈ edges) u v) : u ∈ visited := by
  induction path using ReflTransGen.head_induction_on with
  | refl => exact listed
  | head edge _ ih => exact drained.closed _ ih _ edge

/-- **One round.** -/
theorem visit (drained : Drained edges nodes visited (node :: queue) count)
    (declared : ∀ edge ∈ edges, edge.2 ∈ nodes) : ∃ freed, release (targets edges node) count queue =
        (waits edges (node :: visited), queue ++ freed) ∧
      Drained edges nodes (node :: visited) (queue ++ freed) (waits edges (node :: visited)) := by
  have middle : (visited ++ node :: queue).Perm (node :: (visited ++ queue)) := List.perm_middle
  have distinct := middle.nodup_iff.mp drained.distinct
  obtain ⟨new, others⟩ := List.nodup_cons.mp distinct
  have unvisited : node ∉ visited := fun listed => new (List.mem_append_left _ listed)
  have taken := waits_cons edges unvisited
  have ready : ∀ u, (u, node) ∈ edges → u ∈ visited := by
    have listed : node ∈ visited ++ node :: queue := by simp
    have zero := ((drained.exact node).mp listed).2
    rw [drained.counts] at zero
    exact waits_eq_zero.mp zero
  have enough : ∀ v, (targets edges node).count v ≤ count v := by
    intro v
    have spent := taken v
    rw [drained.counts]
    omega
  obtain ⟨freed, same, single, all⟩ := release_spec (targets edges node) count queue enough
  have counted : (fun v => count v - (targets edges node).count v) = waits edges (node :: visited) := by
    funext v
    have spent := taken v
    rw [drained.counts]
    omega
  have fresh : ∀ v ∈ freed, v ∉ node :: (visited ++ queue) := by
    intro v listed known
    obtain ⟨child, whole⟩ := (all v).mp listed
    have some := List.count_pos_iff.mpr child
    have zero := ((drained.exact v).mp (middle.mem_iff.mpr known)).2
    omega
  refine ⟨freed, counted ▸ same, rfl, ?_, ?_, ?_, ?_⟩
  · rw [List.cons_append, ← List.append_assoc, ← List.cons_append]
    refine List.nodup_append.mpr ⟨distinct, single, ?_⟩
    rintro v known w listed rfl
    exact fresh v listed known
  · intro v
    have before := drained.exact v
    have spent := taken v
    rw [middle.mem_iff] at before
    rw [List.cons_append, ← List.append_assoc, ← List.cons_append, List.mem_append, before, all, drained.counts]
    constructor
    · rintro (⟨inside, zero⟩ | ⟨child, whole⟩)
      · exact ⟨inside, by omega⟩
      · exact ⟨declared _ (mem_targets.mp child), by omega⟩
    · rintro ⟨inside, zero⟩
      by_cases child : v ∈ targets edges node
      · exact .inr ⟨child, by omega⟩
      · rw [List.count_eq_zero.mpr child] at spent
        exact .inl ⟨inside, by omega⟩
  · intro v listed u edge
    rcases List.mem_cons.mp listed with rfl | before
    · exact List.mem_cons_of_mem _ (ready u edge)
    · exact List.mem_cons_of_mem _ (drained.closed v before u edge)
  · intro v listed cycle
    rcases List.mem_cons.mp listed with rfl | before
    · obtain ⟨u, path, edge⟩ := TransGen.tail'_iff.mp cycle
      exact unvisited (drained.behind (ready u edge) path)
    · exact drained.acyclic v before cycle

theorem length_le (drained : Drained edges nodes visited queue count) : visited.length ≤ nodes.length := by
  have distinct : visited.Nodup := (List.nodup_append.mp drained.distinct).1
  refine (List.subperm_of_subset distinct fun v listed => ?_).length_le
  exact ((drained.exact v).mp (List.mem_append_left _ listed)).1

/-- **With an empty queue**, all nodes are visited exactly when there is no cycle. -/
theorem length_eq_iff (drained : Drained edges nodes visited [] count) (single : nodes.Nodup)
    (declared : ∀ edge ∈ edges, edge.1 ∈ nodes) :
    visited.length = nodes.length ↔ Acyclic fun a b => (a, b) ∈ edges := by
  have exact : ∀ v, v ∈ visited ↔ v ∈ nodes ∧ count v = 0 := by
    have all := drained.exact
    rwa [List.append_nil] at all
  have distinct : visited.Nodup := (List.nodup_append.mp drained.distinct).1
  have inside : visited ⊆ nodes := fun v listed => ((exact v).mp listed).1
  constructor
  · intro same v cycle
    obtain ⟨w, edge, -⟩ := TransGen.head'_iff.mp cycle
    have all : nodes ⊆ visited := by
      refine ((List.subperm_of_subset distinct inside).perm_of_length_le ?_).symm.subset
      exact same.ge
    exact drained.acyclic v (all (declared _ edge)) cycle
  · intro acyclic
    -- a node that is not visited waits for another one
    let next : α → Option α := fun v =>
      (edges.find? fun edge => edge.2 = v ∧ edge.1 ∉ visited).map Prod.fst
    have found : ∀ v u, next v = some u → (u, v) ∈ edges ∧ u ∉ visited := by
      intro v u points
      obtain ⟨⟨a, b⟩, here, rfl⟩ := Option.map_eq_some_iff.mp points
      have picked := List.find?_some here
      obtain ⟨rfl, waiting⟩ := of_decide_eq_true picked
      exact ⟨List.mem_of_find?_eq_some here, waiting⟩
    have loopless : Loopless next := by
      intro v cycle
      refine acyclic v (transGen_swap.mp (TransGen.mono (fun a b points => ?_) _ _ cycle))
      exact (found a b points).1
    have ends : ∀ a b, next a = some b → a ∈ edges.map Prod.snd :=
      fun a b points => List.mem_map.mpr ⟨(b, a), (found a b points).1, rfl⟩
    have all : nodes ⊆ visited := by
      intro v
      induction v using acyclic_induction ends loopless with
      | up v ih =>
        intro listed
        cases here : next v with
        | none =>
          refine (exact v).mpr ⟨listed, ?_⟩
          rw [drained.counts, waits_eq_zero]
          intro u edge
          by_contra waiting
          have passed := List.find?_eq_none.mp (Option.map_eq_none_iff.mp here) (u, v) edge
          exact passed (decide_eq_true ⟨rfl, waiting⟩)
        | some u =>
          obtain ⟨edge, waiting⟩ := found v u here
          exact absurd (ih u here (declared _ edge)) waiting
    exact ((List.subperm_of_subset distinct inside).antisymm
      (List.subperm_of_subset single all)).length_eq

end Drained

variable {edges : List (α × α)} {nodes queue : List α}

/-- What the loop knows before the first round. -/
theorem drained_start (single : queue.Nodup) (all : ∀ v, v ∈ queue ↔ v ∈ nodes ∧ waits edges [] v = 0) :
    Drained edges nodes [] queue (waits edges []) where
  counts := rfl
  distinct := single
  exact := all
  closed := List.forall_mem_nil _
  acyclic := List.forall_mem_nil _

/-- **The number of visited nodes** is that of all nodes exactly when there is no cycle. -/
theorem drains_spec {visited : List α} {count : α → Nat}
    {fuel : Nat} (drained : Drained edges nodes visited queue count) (single : nodes.Nodup)
    (declared : ∀ edge ∈ edges, edge.1 ∈ nodes ∧ edge.2 ∈ nodes)
    (enough : nodes.length < fuel + visited.length) :
    ∃ out, drains (targets edges) fuel count queue visited.length = some out ∧
      (out = nodes.length ↔ Acyclic fun a b => (a, b) ∈ edges) := by
  induction fuel generalizing visited queue count with
  | zero =>
    have fits := drained.length_le
    omega
  | succ fuel ih =>
    cases queue with
    | nil =>
      exact ⟨visited.length, rfl, drained.length_eq_iff single fun edge listed => (declared edge listed).1⟩
    | cons node queue =>
      obtain ⟨freed, same, later⟩ := drained.visit fun edge listed => (declared edge listed).2
      rw [drains, same]
      refine ih later ?_
      rw [List.length_cons]
      omega

end DuDuClaw.Lib
