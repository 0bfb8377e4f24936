/-
# Lib.Worklist -- loops over the nodes of a graph

Three loops that keep a list of nodes still to be looked at and a list of those they have met.
Each is given so many rounds; a round pays for itself by what it takes off a weight, so the
rounds are enough if there are more of them than the list is long and the weight is heavy.

* `closure_spec`: a stack; a node is met when it is popped.
* `searches_spec`: a queue, and a node that is looked for.
* `marks_spec`: a stack; a node is met when it is pushed.
* `unspent_cons`: the weight of a graph that is given by its edges.
-/
import DuDuClaw.Lib.Search

namespace DuDuClaw.Lib

open Relation

variable {α : Type} [DecidableEq α]

/-! ## A stack -/

/-- What the nodes of the stack lead to, together with the visited ones. -/
def closure (next : α → List α) : Nat → List α → List α → Option (List α)
  | 0, _, _ => none
  | _ + 1, [], visited => some visited
  | fuel + 1, node :: stack, visited =>
    if visited.contains node then closure next fuel stack visited
    else closure next fuel ((next node).reverse ++ stack) (node :: visited)

section Closure

variable {next : α → List α}

omit [DecidableEq α] in
/-- What is expanded and what is on the stack lead to the same before and after a round. -/
theorem reach_push {node v : α} {stack visited : List α} : ((v ∈ node :: visited ∨
        ∃ s ∈ (next node).reverse ++ stack, ReflTransGen (fun a b => b ∈ next a) s v) ↔
      v ∈ visited ∨ ∃ s ∈ node :: stack, ReflTransGen (fun a b => b ∈ next a) s v) := by
  constructor
  · rintro (listed | ⟨s, listed, path⟩)
    · rcases List.mem_cons.mp listed with rfl | before
      · exact .inr ⟨v, List.mem_cons_self, .refl⟩
      · exact .inl before
    · rcases List.mem_append.mp listed with edge | further
      · exact .inr ⟨node, List.mem_cons_self, path.head (List.mem_reverse.mp edge)⟩
      · exact .inr ⟨s, List.mem_cons_of_mem _ further, path⟩
  · rintro (listed | ⟨s, listed, path⟩)
    · exact .inl (List.mem_cons_of_mem _ listed)
    rcases List.mem_cons.mp listed with rfl | further
    · rcases path.cases_head with rfl | ⟨succ, edge, rest⟩
      · exact .inl List.mem_cons_self
      · exact .inr ⟨succ, List.mem_append_left _ (List.mem_reverse.mpr edge), rest⟩
    · exact .inr ⟨s, List.mem_append_right _ further, path⟩

/-- **The loop returns what the stack leads to.** -/
theorem closure_spec (weight : List α → Nat) (pays : ∀ node visited, node ∉ visited →
      weight (node :: visited) + (next node).length ≤ weight visited)
    {fuel : Nat} {stack visited : List α} (enough : stack.length + weight visited < fuel)
    (expanded : Expanded next stack visited) :
    ∃ out, closure next fuel stack visited = some out ∧ ∀ v, v ∈ out ↔
      v ∈ visited ∨ ∃ s ∈ stack, ReflTransGen (fun a b => b ∈ next a) s v := by
  induction fuel generalizing stack visited with
  | zero => omega
  | succ fuel ih =>
    cases stack with
    | nil => exact ⟨visited, rfl, fun v => by simp⟩
    | cons node stack =>
      rw [List.length_cons] at enough
      rw [closure]
      split
      · rename_i again
        rw [List.contains_iff_mem] at again
        obtain ⟨out, same, all⟩ := ih (by omega) (expanded.pop again)
        refine ⟨out, same, fun v => (all v).trans ?_⟩
        by_cases known : v ∈ visited
        · exact iff_of_true (.inl known) (.inl known)
        · exact or_congr_right (expanded.reach_pop again known)
      · rename_i new
        rw [List.contains_iff_mem] at new
        have less := push_paid (pays node visited new) enough
        obtain ⟨out, same, all⟩ := ih less expanded.push
        exact ⟨out, same, fun v => (all v).trans reach_push⟩

end Closure

/-! ## A queue -/

/-- Whether the queue leads to the goal; what was met before is not queued again. -/
def searches (next : α → List α) (goal : α) : Nat → List α → List α → Option Bool
  | 0, _, _ => none
  | _ + 1, [], _ => some false
  | fuel + 1, node :: queue, visited =>
    if node = goal then some true
    else if visited.contains node then searches next goal fuel queue visited
    else searches next goal fuel
      (queue ++ (next node).filter fun b => !(node :: visited).contains b) (node :: visited)

section Searches

variable {next : α → List α} {goal : α}

theorem Expanded.enqueue {node : α} {queue visited : List α}
    (expanded : Expanded next (node :: queue) visited) :
    Expanded next (queue ++ (next node).filter fun b => !(node :: visited).contains b) (node :: visited) := by
  intro a listed b edge
  by_cases known : b ∈ node :: visited
  · exact .inl known
  refine .inr (List.mem_append.mpr ?_)
  rcases List.mem_cons.mp listed with rfl | before
  · exact .inr (List.mem_filter.mpr ⟨edge, by simpa using known⟩)
  rcases expanded a before b edge with again | waiting
  · exact absurd (List.mem_cons_of_mem _ again) known
  · rcases List.mem_cons.mp waiting with rfl | further
    · exact absurd List.mem_cons_self known
    · exact .inl further

/-- **The loop finds the goal exactly when the queue leads to it.** -/
theorem searches_spec (weight : List α → Nat) (pays : ∀ node visited, node ∉ visited →
      weight (node :: visited) + (next node).length ≤ weight visited)
    {fuel : Nat} {queue visited : List α} (enough : queue.length + weight visited < fuel)
    (expanded : Expanded next queue visited) (fresh : goal ∉ visited) :
    ∃ found, searches next goal fuel queue visited = some found ∧ (found = true ↔
      ∃ s ∈ queue, ReflTransGen (fun a b => b ∈ next a) s goal) := by
  induction fuel generalizing queue visited with
  | zero => omega
  | succ fuel ih =>
    cases queue with
    | nil => exact ⟨false, rfl, by simp⟩
    | cons node queue =>
      rw [List.length_cons] at enough
      rw [searches]
      split
      · rename_i here
        exact ⟨true, rfl, iff_of_true rfl ⟨node, List.mem_cons_self, here ▸ .refl⟩⟩
      rename_i elsewhere
      split
      · rename_i again
        rw [List.contains_iff_mem] at again
        obtain ⟨found, same, all⟩ := ih (by omega) (expanded.pop again) fresh
        exact ⟨found, same, all.trans (expanded.reach_pop again fresh)⟩
      rename_i new
      rw [List.contains_iff_mem] at new
      have paid := pays node visited new
      have fewer := List.length_filter_le (fun b => !(node :: visited).contains b) (next node)
      have less : (queue ++ (next node).filter fun b => !(node :: visited).contains b).length +
          weight (node :: visited) < fuel := by
        rw [List.length_append]
        omega
      have still : goal ∉ node :: visited := by
        rw [List.mem_cons]
        rintro (rfl | listed)
        · exact elsewhere rfl
        · exact fresh listed
      obtain ⟨found, same, all⟩ := ih less expanded.enqueue still
      refine ⟨found, same, all.trans ⟨?_, ?_⟩⟩
      · rintro ⟨s, listed, path⟩
        rcases List.mem_append.mp listed with further | edge
        · exact ⟨s, List.mem_cons_of_mem _ further, path⟩
        · exact ⟨node, List.mem_cons_self, path.head (List.mem_filter.mp edge).1⟩
      · rintro ⟨s, listed, path⟩
        rcases List.mem_cons.mp listed with rfl | further
        · exact expanded.enqueue.escapes still List.mem_cons_self path
        · exact ⟨s, List.mem_append_left _ further, path⟩

end Searches

/-! ## Marks -/

/-- The new ones of some nodes are marked and pushed. -/
def markAll : List α → List α × List α → List α × List α
  | [], s => s
  | child :: rest, (found, pending) =>
    if found.contains child then markAll rest (found, pending)
    else markAll rest (child :: found, child :: pending)

/-- The nodes that are marked, and whose successors are. -/
def marks (next : α → List α) : Nat → List α → List α → Option (List α)
  | 0, _, _ => none
  | _ + 1, [], found => some found
  | fuel + 1, node :: pending, found =>
    marks next fuel (markAll (next node) (found, pending)).2 (markAll (next node) (found, pending)).1

section Marks

variable {next : α → List α}

/-- What marking some nodes does: it adds the same new nodes to both lists. -/
theorem markAll_spec (weight : List α → Nat) (children : List α)
    (pays : ∀ child ∈ children, ∀ found, child ∉ found → weight (child :: found) + 1 ≤ weight found)
    (found pending : List α) : ∃ fresh, markAll children (found, pending) = (fresh ++ found, fresh ++ pending) ∧
      (∀ v ∈ fresh, v ∈ children) ∧ (∀ v ∈ children, v ∈ fresh ++ found) ∧
      weight (fresh ++ found) + fresh.length ≤ weight found := by
  induction children generalizing found pending with
  | nil => exact ⟨[], rfl, by simp, by simp, Nat.le_refl _⟩
  | cons child rest ih =>
    have later : ∀ child ∈ rest, ∀ found, child ∉ found → weight (child :: found) + 1 ≤ weight found :=
      fun c listed => pays c (List.mem_cons_of_mem _ listed)
    rw [markAll]
    split
    · rename_i known
      rw [List.contains_iff_mem] at known
      obtain ⟨fresh, same, only, all, paid⟩ := ih later found pending
      refine ⟨fresh, same, fun v listed => List.mem_cons_of_mem _ (only v listed), ?_, paid⟩
      intro v listed
      rcases List.mem_cons.mp listed with rfl | further
      · exact List.mem_append_right _ known
      · exact all v further
    · rename_i new
      rw [List.contains_iff_mem] at new
      obtain ⟨fresh, same, only, all, paid⟩ := ih later (child :: found) (child :: pending)
      have price := pays child List.mem_cons_self found new
      refine ⟨fresh ++ [child], ?_, ?_, ?_, ?_⟩
      · rw [same, List.append_assoc, List.append_assoc]
        rfl
      · intro v listed
        rcases List.mem_append.mp listed with before | last
        · exact List.mem_cons_of_mem _ (only v before)
        · rw [List.mem_singleton.mp last]
          exact List.mem_cons_self
      · intro v listed
        rw [List.append_assoc]
        rcases List.mem_cons.mp listed with rfl | further
        · simp
        · exact all v further
      · rw [List.append_assoc, List.length_append]
        simp only [List.singleton_append, List.length_singleton]
        omega

/-- What the loop knows: it marks what the start leads to, and a marked node is pushed or its
successors are marked. -/
structure Marked (next : α → List α) (start : α) (pending found : List α) : Prop where
  sound : ∀ v ∈ found, TransGen (fun a b => b ∈ next a) start v
  waiting : ∀ v ∈ pending, v = start ∨ v ∈ found
  closed : ∀ v, v = start ∨ v ∈ found → v ∉ pending → ∀ child ∈ next v, child ∈ found

/-- **The loop marks exactly what the start leads to**, by one step or more. -/
theorem marks_spec (weight : List α → Nat) (pays : ∀ node, ∀ child ∈ next node, ∀ found, child ∉ found →
      weight (child :: found) + 1 ≤ weight found)
    {fuel : Nat} {start : α} {pending found : List α} (enough : pending.length + weight found < fuel)
    (marked : Marked next start pending found) :
    ∃ out, marks next fuel pending found = some out ∧ ∀ v, v ∈ out ↔
      TransGen (fun a b => b ∈ next a) start v := by
  induction fuel generalizing pending found with
  | zero => omega
  | succ fuel ih =>
    cases pending with
    | nil =>
      refine ⟨found, rfl, fun v => ⟨marked.sound v, fun path => ?_⟩⟩
      induction path with
      | single edge => exact marked.closed start (.inl rfl) List.not_mem_nil _ edge
      | tail _ edge ih => exact marked.closed _ (.inr ih) List.not_mem_nil _ edge
    | cons node pending =>
      rw [List.length_cons] at enough
      obtain ⟨fresh, same, only, all, paid⟩ :=
        markAll_spec weight (next node) (pays node) found pending
      rw [marks, same]
      refine ih ?_ ⟨?_, ?_, ?_⟩
      · show (fresh ++ pending).length + weight (fresh ++ found) < fuel
        rw [List.length_append]
        omega
      · intro v listed
        rcases List.mem_append.mp listed with new | before
        · rcases marked.waiting node List.mem_cons_self with rfl | known
          · exact .single (only v new)
          · exact (marked.sound node known).tail (only v new)
        · exact marked.sound v before
      · intro v listed
        rcases List.mem_append.mp listed with new | before
        · exact .inr (List.mem_append_left _ new)
        · rcases marked.waiting v (List.mem_cons_of_mem _ before) with rfl | known
          · exact .inl rfl
          · exact .inr (List.mem_append_right _ known)
      · intro v known gone child edge
        rw [List.mem_append, not_or] at gone
        by_cases here : v = node
        · exact all child (here ▸ edge)
        have before : v = start ∨ v ∈ found := by
          rcases known with first | listed
          · exact .inl first
          · rcases List.mem_append.mp listed with new | known
            · exact absurd new gone.1
            · exact .inr known
        have out : v ∉ node :: pending := by
          rw [List.mem_cons, not_or]
          exact ⟨here, gone.2⟩
        exact List.mem_append_right _ (marked.closed v before out child edge)

end Marks

/-! ## Graphs by their edges -/

variable (edges : List (α × α))

def targets (node : α) : List α :=
  edges.filterMap fun (a, b) => if a = node then some b else none

theorem mem_targets {edges : List (α × α)} {a b : α} : b ∈ targets edges a ↔ (a, b) ∈ edges := by
  simp only [targets, List.mem_filterMap, Prod.exists]
  constructor
  · rintro ⟨c, d, listed, picked⟩
    split at picked
    · rename_i same
      cases picked
      exact same ▸ listed
    · cases picked
  · exact fun listed => ⟨a, b, listed, if_pos rfl⟩

def unspent (visited : List α) : Nat :=
  edges.countP fun edge => !visited.contains edge.1

theorem unspent_le (visited : List α) : unspent edges visited ≤ edges.length :=
  List.countP_le_length

theorem targets_cons (a b : α) (rest : List (α × α)) (node : α) :
    targets ((a, b) :: rest) node = if a = node then b :: targets rest node else targets rest node := by
  by_cases here : a = node
  · simp [targets, here]
  · simp [targets, here]

theorem unspent_step (a b : α) (rest : List (α × α)) (visited : List α) :
    unspent ((a, b) :: rest) visited = unspent rest visited + if a ∈ visited then 0 else 1 := by
  by_cases known : a ∈ visited
  · simp [unspent, known]
  · simp [unspent, known]

theorem unspent_cons {node : α} {visited : List α} (new : node ∉ visited) :
    unspent edges (node :: visited) + (targets edges node).length = unspent edges visited := by
  induction edges with
  | nil => rfl
  | cons edge rest ih =>
    obtain ⟨a, b⟩ := edge
    rw [targets_cons, unspent_step, unspent_step]
    by_cases here : a = node
    · subst here
      rw [if_pos rfl, if_pos List.mem_cons_self, if_neg new, List.length_cons]
      omega
    have same : a ∈ node :: visited ↔ a ∈ visited := by simp [here]
    rw [if_neg here]
    simp only [same]
    omega

end DuDuClaw.Lib
