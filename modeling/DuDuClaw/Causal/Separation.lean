/-
# Causal.Separation -- reachability in the ancestral moral graph

The two searches of causal_identify.rs.  A hash set is the list of what was inserted, and a loop
comes to its members in an order of its own; a hash map from nodes to nodes is the list of its
pairs.

* `ancestors_spec`: which nodes are kept.
* `mem_moralGraph`, `moral_of_mem`: which of them are joined.
* `dSeparated_spec`: the answer, for a graph without cycles.
* `descendants_spec`: what the treatment leads to.
-/
import DuDuClaw.Lib.MoralGraph
import DuDuClaw.Lib.Worklist
import Mathlib.Data.List.Dedup
import Mathlib.Data.List.Perm.Subperm

namespace DuDuClaw.Causal

open DuDuClaw.Lib DuDuClaw.Lib.Dag Relation

abbrev Text := List Char

/-- The order in which a loop comes to the members of a hash set. -/
structure HashOrder where
  iterate : List Text → List Text
  once : ∀ inserted, (iterate inserted).Nodup
  all : ∀ inserted member, member ∈ iterate inserted ↔ member ∈ inserted

def HashOrder.insertion : HashOrder where
  iterate := List.dedup
  once := List.nodup_dedup
  all := fun _ _ => List.mem_dedup

abbrev NeighborOrder := Text → HashOrder

def Edge (edges : List (Text × Text)) (cause effect : Text) : Prop := (cause, effect) ∈ edges

/-! ## The searches -/

def parents (edges : List (Text × Text)) : Text → List Text := targets (edges.map Prod.swap)

/-- `ancestors`: what leads to the treatment, the outcome or the adjusted nodes. -/
def ancestors (edges : List (Text × Text)) (treatment outcome : Text) (adjusted : List Text) :
    Option (List Text) :=
  closure (parents edges) (adjusted.length + edges.length + 3)
    (treatment :: outcome :: adjusted).reverse []

def pairs : List Text → List (Text × Text)
  | [] => []
  | left :: rest => rest.map (left, ·) ++ pairs rest

/-- What one node adds to `moral`. -/
def moralLinks (edges : List (Text × Text)) (ancestors : List Text) (node : Text) :
    List (Text × Text) :=
  if !ancestors.contains node then []
  else
    let selected := (parents edges node).filter ancestors.contains
    selected.flatMap (fun parent => [(node, parent), (parent, node)]) ++
      (pairs selected).flatMap fun (left, right) => [(left, right), (right, left)]

/-- `moral`. -/
def moralGraph (nodes : List Text) (edges : List (Text × Text)) (ancestors : List Text) :
    List (Text × Text) :=
  nodes.flatMap (moralLinks edges ancestors)

def neighbors (order : NeighborOrder) (moral : List (Text × Text)) (adjusted : List Text)
    (node : Text) : List Text :=
  ((order node).iterate (targets moral node)).filter fun neighbor => !adjusted.contains neighbor

/-- `d_separated`; `none` stands for a loop that does not end. -/
def dSeparated (order : NeighborOrder) (nodes : List Text) (edges : List (Text × Text))
    (treatment outcome : Text) (adjusted : List Text) : Option Bool := do
  let ancestors ← ancestors edges treatment outcome adjusted
  let moral := moralGraph nodes edges ancestors
  let found ← searches (neighbors order moral adjusted) outcome (moral.length + 2) [treatment] []
  return !found

def descendants (edges : List (Text × Text)) (treatment : Text) : Option (List Text) :=
  marks (targets edges) (edges.length + 2) [treatment] []

/-! ## What is kept -/

section Spec

variable {edges : List (Text × Text)} {nodes adjusted kept : List Text} {treatment outcome : Text}

variable {a b : Text}

theorem mem_parents {cause effect : Text} : cause ∈ parents edges effect ↔ Edge edges cause effect := by
  rw [parents, mem_targets, Edge, List.mem_map]
  constructor
  · rintro ⟨⟨a, b⟩, listed, same⟩
    cases same
    exact listed
  · exact fun listed => ⟨(cause, effect), listed, rfl⟩

/-- Going from effects to causes is going along the edges backwards. -/
theorem parents_path {v s : Text} :
    ReflTransGen (fun a b => b ∈ parents edges a) s v ↔ ReflTransGen (Edge edges) v s := by
  have same : (fun a b => b ∈ parents edges a) = Function.swap (Edge edges) := by
    funext a b
    exact propext mem_parents
  rw [same, reflTransGen_swap]

/-- **The kept nodes** are those of the ancestral graph. -/
theorem ancestors_spec (edges : List (Text × Text)) (treatment outcome : Text) (adjusted : List Text) :
    ∃ kept, ancestors edges treatment outcome adjusted = some kept ∧ ∀ v, v ∈ kept ↔
      Ancestral (Edge edges) (· ∈ adjusted) treatment outcome v := by
  have pays : ∀ node visited, node ∉ visited → unspent (edges.map Prod.swap) (node :: visited) +
      (parents edges node).length ≤ unspent (edges.map Prod.swap) visited :=
    fun node visited new => Nat.le_of_eq (unspent_cons _ new)
  have enough : (treatment :: outcome :: adjusted).reverse.length +
      unspent (edges.map Prod.swap) [] < adjusted.length + edges.length + 3 := by
    have bound := unspent_le (edges.map Prod.swap) []
    rw [List.length_map] at bound
    rw [List.length_reverse, List.length_cons, List.length_cons]
    omega
  obtain ⟨kept, same, all⟩ := closure_spec _ pays enough
    (List.forall_mem_nil _)
  refine ⟨kept, same, fun v => (all v).trans ?_⟩
  constructor
  · rintro (listed | ⟨s, listed, path⟩)
    · exact absurd listed List.not_mem_nil
    rw [parents_path] at path
    rw [List.mem_reverse, List.mem_cons, List.mem_cons] at listed
    rcases listed with rfl | rfl | inside
    · exact .inl path
    · exact .inr (.inl path)
    · exact .inr (.inr ⟨s, inside, path⟩)
  · rintro (path | path | ⟨z, inside, path⟩)
    · exact .inr ⟨treatment, by simp, parents_path.mpr path⟩
    · exact .inr ⟨outcome, by simp, parents_path.mpr path⟩
    · exact .inr ⟨z, by simp [show z ∈ adjusted from inside], parents_path.mpr path⟩

/-! ## What is joined -/

theorem mem_of_mem_pairs : (l : List Text) → (a, b) ∈ pairs l → a ∈ l ∧ b ∈ l
  | left :: rest, listed => by
    rw [pairs, List.mem_append, List.mem_map] at listed
    rcases listed with ⟨right, inside, same⟩ | later
    · cases same
      exact ⟨List.mem_cons_self, List.mem_cons_of_mem _ inside⟩
    · obtain ⟨first, second⟩ := mem_of_mem_pairs rest later
      exact ⟨List.mem_cons_of_mem _ first, List.mem_cons_of_mem _ second⟩

/-- Two different members make a pair, in one order or the other. -/
theorem mem_pairs (differ : a ≠ b) : (l : List Text) → a ∈ l → b ∈ l → (a, b) ∈ pairs l ∨ (b, a) ∈ pairs l
  | left :: rest, first, second => by
    rw [pairs, List.mem_append, List.mem_append, List.mem_map, List.mem_map]
    rcases List.mem_cons.mp first with rfl | early
    · rcases List.mem_cons.mp second with rfl | late
      · exact absurd rfl differ
      · exact .inl (.inl ⟨b, late, rfl⟩)
    · rcases List.mem_cons.mp second with rfl | late
      · exact .inr (.inl ⟨a, early, rfl⟩)
      · exact (mem_pairs differ rest early late).imp .inr .inr

theorem mem_selected {node parent : Text} :
    parent ∈ (parents edges node).filter kept.contains ↔ Edge edges parent node ∧ parent ∈ kept := by
  rw [List.mem_filter, mem_parents, List.contains_iff_mem]

theorem moral_of_mem (linked : (a, b) ∈ moralGraph nodes edges kept) : Moral (Edge edges) (· ∈ kept) a b := by
  obtain ⟨node, -, linked⟩ := List.mem_flatMap.mp linked
  rw [moralLinks] at linked
  split at linked
  · exact absurd linked List.not_mem_nil
  rename_i known
  have known : node ∈ kept := by simpa using known
  rcases List.mem_append.mp linked with edge | married
  · obtain ⟨parent, selected, here⟩ := List.mem_flatMap.mp edge
    obtain ⟨edge, keeps⟩ := mem_selected.mp selected
    rcases List.mem_pair.mp here with same | same
    · cases same
      exact ⟨known, keeps, .inl (.inr edge)⟩
    · cases same
      exact ⟨keeps, known, .inl (.inl edge)⟩
  · obtain ⟨⟨left, right⟩, pair, here⟩ := List.mem_flatMap.mp married
    obtain ⟨first, second⟩ := mem_of_mem_pairs _ pair
    obtain ⟨edge, keeps⟩ := mem_selected.mp first
    obtain ⟨edge', keeps'⟩ := mem_selected.mp second
    rcases List.mem_pair.mp here with same | same
    · cases same
      exact ⟨keeps, keeps', .inr ⟨node, known, edge, edge'⟩⟩
    · cases same
      exact ⟨keeps', keeps, .inr ⟨node, known, edge', edge⟩⟩

theorem mem_moralGraph (declared : ∀ edge ∈ edges, edge.2 ∈ nodes) (differ : a ≠ b)
    (moral : Moral (Edge edges) (· ∈ kept) a b) : (a, b) ∈ moralGraph nodes edges kept := by
  have link : ∀ node, node ∈ kept → ∀ cause, Edge edges cause node → (a, b) ∈
      ((parents edges node).filter kept.contains).flatMap (fun parent => [(node, parent), (parent, node)]) ++
        (pairs ((parents edges node).filter kept.contains)).flatMap
          (fun (left, right) => [(left, right), (right, left)]) →
      (a, b) ∈ moralGraph nodes edges kept := by
    intro node known cause edge linked
    refine List.mem_flatMap.mpr ⟨node, declared _ edge, ?_⟩
    rw [moralLinks, if_neg (by simpa using known)]
    exact linked
  obtain ⟨left, right, (edge | edge) | ⟨child, known, edge, edge'⟩⟩ := moral
  · refine link b right a edge (List.mem_append_left _ (List.mem_flatMap.mpr ⟨a, ?_, by simp⟩))
    exact mem_selected.mpr ⟨edge, left⟩
  · refine link a left b edge (List.mem_append_left _ (List.mem_flatMap.mpr ⟨b, ?_, by simp⟩))
    exact mem_selected.mpr ⟨edge, right⟩
  refine link child known a edge (List.mem_append_right _ (List.mem_flatMap.mpr ?_))
  rcases mem_pairs differ _ (mem_selected.mpr ⟨edge, left⟩) (mem_selected.mpr ⟨edge', right⟩) with
    pair | pair
  · exact ⟨(a, b), pair, by simp⟩
  · exact ⟨(b, a), pair, by simp⟩

/-! ## What is reached -/

theorem mem_neighbors {order : NeighborOrder} {moral : List (Text × Text)} :
    b ∈ neighbors order moral adjusted a ↔ (a, b) ∈ moral ∧ b ∉ adjusted := by
  rw [neighbors, List.mem_filter, (order a).all, mem_targets]
  simp

theorem neighbors_length_le (order : NeighborOrder) (moral : List (Text × Text)) (adjusted : List Text)
    (a : Text) : (neighbors order moral adjusted a).length ≤ (targets moral a).length := by
  refine (List.length_filter_le _ _).trans ?_
  refine (List.subperm_of_subset ((order a).once _) fun v listed => ?_).length_le
  exact ((order a).all _ v).mp listed

/-- The search goes where the moral graph leads. -/
theorem neighbors_path (order : NeighborOrder) (declared : ∀ edge ∈ edges, edge.2 ∈ nodes)
    (same : ∀ v, v ∈ kept ↔ Ancestral (Edge edges) (· ∈ adjusted) treatment outcome v) (a b : Text) :
    ReflTransGen (fun a b => b ∈ neighbors order (moralGraph nodes edges kept) adjusted a) a b ↔
      ReflTransGen (MoralStep (Edge edges) (· ∈ adjusted) treatment outcome) a b := by
  have keeps : (· ∈ kept) = Ancestral (Edge edges) (· ∈ adjusted) treatment outcome :=
    funext fun v => propext (same v)
  constructor
  · refine ReflTransGen.mono (fun a b step => ?_) _ _
    obtain ⟨linked, outside⟩ := mem_neighbors.mp step
    exact ⟨keeps ▸ moral_of_mem linked, outside⟩
  · refine reflTransGen_closed (fun a b step => ?_) a b
    obtain ⟨moral, outside⟩ := step
    by_cases differ : a = b
    · exact differ ▸ .refl
    · exact .single (mem_neighbors.mpr ⟨mem_moralGraph declared differ (keeps ▸ moral), outside⟩)

/-- **The search decides d-separation**, in a graph without cycles whose effects are nodes. -/
theorem dSeparated_spec (order : NeighborOrder) (acyclic : Acyclic (Edge edges))
    (declared : ∀ edge ∈ edges, edge.2 ∈ nodes) (outside : treatment ∉ adjusted)
    (outside' : outcome ∉ adjusted) :
    ∃ answer, dSeparated order nodes edges treatment outcome adjusted = some answer ∧
      (answer = true ↔ DSeparated (Edge edges) (· ∈ adjusted) treatment outcome) := by
  obtain ⟨kept, keeps, same⟩ := ancestors_spec edges treatment outcome adjusted
  have pays : ∀ node visited, node ∉ visited → unspent (moralGraph nodes edges kept) (node :: visited) +
        (neighbors order (moralGraph nodes edges kept) adjusted node).length ≤
          unspent (moralGraph nodes edges kept) visited := by
    intro node visited new
    have spent := unspent_cons (moralGraph nodes edges kept) new
    have fewer := neighbors_length_le order (moralGraph nodes edges kept) adjusted node
    omega
  have enough : [treatment].length + unspent (moralGraph nodes edges kept) [] <
      (moralGraph nodes edges kept).length + 2 := by
    have bound := unspent_le (moralGraph nodes edges kept) []
    rw [List.length_singleton]
    omega
  obtain ⟨found, searched, all⟩ := searches_spec _ pays enough
    (List.forall_mem_nil _) (List.not_mem_nil (a := outcome))
  refine ⟨!found, ?_, ?_⟩
  · rw [dSeparated, keeps]
    show (searches _ _ _ _ _ >>= fun found => some !found) = _
    rw [searched]
    rfl
  · rw [dSeparated_iff acyclic outside outside', ← neighbors_path order declared same,
      Bool.not_eq_true', ← Bool.not_eq_true, all]
    simp

/-- **The marked nodes** are what the treatment leads to. -/
theorem descendants_spec (edges : List (Text × Text)) (treatment : Text) :
    ∃ found, descendants edges treatment = some found ∧ ∀ v, v ∈ found ↔ TransGen (Edge edges) treatment v := by
  have along : (fun a b => b ∈ targets edges a) = Edge edges :=
    funext fun a => funext fun b => propext mem_targets
  have pays : ∀ node, ∀ child ∈ targets edges node, ∀ found, child ∉ found →
      unspent (edges.map Prod.swap) (child :: found) + 1 ≤ unspent (edges.map Prod.swap) found := by
    intro node child edge found new
    have spent := unspent_cons (edges.map Prod.swap) new
    have some : node ∈ targets (edges.map Prod.swap) child := mem_parents.mpr (mem_targets.mp edge)
    have positive := List.length_pos_of_mem some
    omega
  have enough : [treatment].length + unspent (edges.map Prod.swap) [] < edges.length + 2 := by
    have bound := unspent_le (edges.map Prod.swap) []
    rw [List.length_map] at bound
    rw [List.length_singleton]
    omega
  rw [← along]
  refine marks_spec _ pays enough ⟨?_, ?_, ?_⟩
  · exact List.forall_mem_nil _
  · exact fun v listed => .inl (List.mem_singleton.mp listed)
  · rintro v (rfl | listed) gone
    · exact absurd (List.mem_singleton.mpr rfl) gone
    · exact absurd listed List.not_mem_nil

end Spec

end DuDuClaw.Causal
