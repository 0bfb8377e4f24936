/-
# TaskStore.Dependencies -- the graph of depends_on

`update_task` refuses a `depends_on` that closes a cycle; `insert_task` stores whatever
it is given.  An edge may name a task that is not there yet, so an insert can close a
cycle through edges that were harmless before.

* `introducesDependencyCycle_iff`: the check is exact.
* `dependency_check_exact`: the same by rounds of its loop, which ends on every graph.
* `StoreOp.acyclic_step`: one operation keeps the graph acyclic exactly when it is not an
  accepted insert that fails the check.
* `dependencies_acyclic_iff`: the same for the states of a run from the empty store.
* `insert_closes_cycle`: two inserts that depend on each other.
-/
import Mathlib.Algebra.Order.BigOperators.Group.List
import Mathlib.Algebra.Order.Group.Nat
import DuDuClaw.Lib.Search
import DuDuClaw.TaskStore.Rows

namespace DuDuClaw.TaskStore

open DuDuClaw.Lib Relation

/-! ## The check -/

variable {fuel : Nat} {s t : Store} {id : Id}

variable (edges : List (Id × List Id))

theorem reachesTask_eq_finds (taskId : Id) (fuel : Nat)
    (stack visited : List Id) : reachesTask edges taskId fuel stack visited =
      finds (depsOf edges) taskId fuel stack visited := by
  induction fuel generalizing stack visited with
  | zero => rfl
  | succ fuel ih =>
    cases stack with
    | nil => rfl
    | cons node stack => simp only [reachesTask, finds, ih, List.contains_iff_mem]

/-- The dependencies that expanding the nodes not yet visited can push. -/
def remaining (visited : List Id) : Nat :=
  ((edges.filter fun edge => !visited.contains edge.1).map fun edge => edge.2.length).sum

theorem depsOf_length_le (node : Id) : (depsOf edges node).length ≤
      ((edges.filter fun edge => edge.1 == node).map fun edge => edge.2.length).sum := by
  unfold depsOf
  cases found : edges.reverse.find? fun edge => edge.1 == node with
  | none => simp
  | some edge =>
    have listed : edge ∈ edges := List.mem_reverse.mp (List.mem_of_find?_eq_some found)
    have named := List.find?_some found
    exact List.le_sum_of_mem (List.mem_map_of_mem (List.mem_filter.mpr ⟨listed, named⟩))

theorem remaining_pays (node : Id) (visited : List Id) (fresh : node ∉ visited) :
    remaining edges (node :: visited) + (depsOf edges node).length ≤ remaining edges visited := by
  have own := depsOf_length_le edges node
  suffices split : remaining edges (node :: visited) +
      ((edges.filter fun edge => edge.1 == node).map fun edge => edge.2.length).sum =
        remaining edges visited by omega
  clear own
  induction edges with
  | nil => rfl
  | cons edge rest ih =>
    unfold remaining at ih ⊢
    by_cases here : edge.1 = node
    · subst here
      simp [fresh] at ih ⊢
      omega
    by_cases before : edge.1 ∈ visited
    · simpa [here, before] using ih
    · simp [here, before] at ih ⊢
      omega

/-- With enough fuel the loop finds the task exactly when a new dependency leads to it. -/
theorem reachesTask_iff {edges : List (Id × List Id)} {taskId : Id} {newDeps : List Id}
    (enough : newDeps.length + (edges.map fun edge => edge.2.length).sum < fuel) :
    reachesTask edges taskId fuel newDeps.reverse [] = true ↔
      ∃ dep ∈ newDeps.reverse, ReflTransGen (fun a b => b ∈ depsOf edges a) dep taskId := by
  have paid : newDeps.reverse.length + remaining edges [] < fuel := by
    simpa [remaining] using enough
  rw [reachesTask_eq_finds]
  exact finds_iff (remaining edges) (remaining_pays edges) paid nofun List.not_mem_nil

/-- **The check is exact**: it refuses exactly the dependencies of which one is the task
or leads to it. -/
theorem introducesDependencyCycle_iff (taskId : Id) (newDeps : List Id) :
    introducesDependencyCycle edges taskId newDeps = true ↔
      ∃ dep ∈ newDeps, ReflTransGen (fun a b => b ∈ depsOf edges a) dep taskId := by
  rw [introducesDependencyCycle, Bool.or_eq_true, reachesTask_iff (Nat.lt_succ_self _), List.contains_iff_mem]
  constructor
  · rintro (direct | ⟨dep, listed, path⟩)
    · exact ⟨taskId, direct, .refl⟩
    · exact ⟨dep, List.mem_reverse.mp listed, path⟩
  · rintro ⟨dep, listed, path⟩
    exact .inr ⟨dep, List.mem_reverse.mpr listed, path⟩

/-- The same loop, with `none` where the rounds are used up before it ends. -/
def dependencyLoop (edges : List (Id × List Id)) (taskId : Id) :
    Nat → List Id → List Id → Option Bool
  | 0, _, _ => none
  | _ + 1, [], _ => some false
  | fuel + 1, node :: stack, visited =>
    if node = taskId then some true
    else if visited.contains node then dependencyLoop edges taskId fuel stack visited
    else dependencyLoop edges taskId fuel ((depsOf edges node).reverse ++ stack) (node :: visited)

theorem dependencyLoop_ends (taskId : Id)
    {stack visited : List Id} (enough : stack.length + remaining edges visited < fuel) :
    dependencyLoop edges taskId fuel stack visited = some (reachesTask edges taskId fuel stack visited) := by
  induction fuel generalizing stack visited with
  | zero => omega
  | succ fuel ih =>
    cases stack with
    | nil => rfl
    | cons node stack =>
      rw [List.length_cons] at enough
      rw [dependencyLoop, reachesTask]
      split
      · rfl
      split
      · exact ih (by omega)
      · rename_i new
        rw [List.contains_iff_mem] at new
        exact ih (push_paid (remaining_pays edges node visited new) enough)

/-- `introduces_dependency_cycle` with so many rounds for its loop. -/
def introducesDependencyCycleIn (fuel : Nat) (edges : List (Id × List Id)) (taskId : Id)
    (newDeps : List Id) : Option Bool :=
  if newDeps.contains taskId then some true
  else dependencyLoop edges taskId fuel newDeps.reverse []

theorem dependencyLoop_rounds (taskId : Id) (newDeps : List Id) (more : Nat) :
    introducesDependencyCycleIn
        (newDeps.length + (edges.map fun edge => edge.2.length).sum + 1 + more) edges taskId newDeps =
      some (introducesDependencyCycle edges taskId newDeps) := by
  have enough := Nat.lt_succ_self (newDeps.length + (edges.map fun edge => edge.2.length).sum)
  have paid : newDeps.reverse.length + remaining edges [] <
      newDeps.length + (edges.map fun edge => edge.2.length).sum + 1 + more := by
    simp [remaining]
    omega
  have ends := dependencyLoop_ends edges taskId paid
  have longer : reachesTask edges taskId _ newDeps.reverse [] = true ↔ _ :=
    reachesTask_iff (Nat.lt_add_right more enough)
  have answer := Bool.eq_iff_iff.mpr (longer.trans (reachesTask_iff enough).symm)
  rw [introducesDependencyCycleIn, introducesDependencyCycle]
  split
  · rename_i direct
    rw [direct, Bool.true_or]
  · rename_i indirect
    rw [Bool.eq_false_iff.mpr indirect, Bool.false_or, ends, answer]

/-- **The check ends on every graph and is exact**: it refuses exactly the dependencies of
which one is the task or reaches it along the edges. -/
theorem dependency_check_exact (edges : List (Id × List Id)) (taskId : Id) (newDeps : List Id) :
    (∀ more, introducesDependencyCycleIn
        (newDeps.length + (edges.map fun edge => edge.2.length).sum + 1 + more) edges taskId newDeps =
      some (introducesDependencyCycle edges taskId newDeps)) ∧
    (introducesDependencyCycle edges taskId newDeps = true ↔
      ∃ dep ∈ newDeps, dep = taskId ∨ TransGen (fun a b => b ∈ depsOf edges a) dep taskId) := by
  refine ⟨dependencyLoop_rounds edges taskId newDeps, ?_⟩
  rw [introducesDependencyCycle_iff]
  refine exists_congr fun dep => and_congr_right fun _ => ?_
  rw [reflTransGen_iff_eq_or_transGen, eq_comm]

/-! ## The graph -/

def Store.deps (s : Store) (id : Id) : List Id := ((s.getTask id).map TaskRow.dependsOn).getD []

theorem depsOf_dependsEdges (s : Store) (id : Id) : depsOf s.dependsEdges id = s.deps id := by
  have lookup : s.tasks.reverse.find? (fun row => row.id == id) = s.getTask id := by
    cases found : s.getTask id with
    | none =>
      rw [Store.getTask, List.find?_eq_none] at found
      rw [List.find?_eq_none]
      exact fun row listed => found row (List.mem_reverse.mp listed)
    | some row =>
      obtain ⟨listed, named⟩ := Store.getTask_mem found
      cases again : s.tasks.reverse.find? fun other => other.id == id with
      | none =>
        rw [List.find?_eq_none] at again
        simpa [named] using again row (List.mem_reverse.mpr listed)
      | some other =>
        have otherListed := List.mem_reverse.mp (List.mem_of_find?_eq_some again)
        have otherNamed : other.id = id := by simpa using List.find?_some again
        rw [List.inj_on_of_nodup_map s.distinct otherListed listed (otherNamed.trans named.symm)]
  unfold depsOf Store.dependsEdges Store.deps
  rw [← List.map_reverse, List.find?_map, ← lookup, Option.map_map]
  rfl

/-- `a` depends on `b`, and `b` exists. -/
def Store.DependsOn (s : Store) (a b : Id) : Prop := b ∈ s.deps a ∧ (s.getTask b).isSome = true

/-- No task reaches itself along the dependencies between existing tasks. -/
def Store.Acyclic (s : Store) : Prop := ∀ id, ¬TransGen s.DependsOn id id

theorem Store.isSome_of_deps {a b : Id} (edge : b ∈ s.deps a) : (s.getTask a).isSome = true := by
  cases found : s.getTask a with
  | none => simp [Store.deps, found] at edge
  | some row => rfl

/-- Every node of a cycle has a row, so dangling edges close none. -/
theorem Store.acyclic_iff (s : Store) : s.Acyclic ↔ ∀ id, ¬TransGen (fun a b => b ∈ s.deps a) id id := by
  have lift : ∀ a b, TransGen (fun a b => b ∈ s.deps a) a b → (s.getTask b).isSome = true →
      TransGen s.DependsOn a b := by
    intro a b path
    induction path with
    | single edge => exact fun exists_ => .single ⟨edge, exists_⟩
    | tail before edge ih =>
      exact fun exists_ => (ih (Store.isSome_of_deps edge)).tail ⟨edge, exists_⟩
  constructor
  · intro acyclic id cycle
    obtain ⟨_, edge, _⟩ := TransGen.head'_iff.mp cycle
    exact acyclic id (lift id id cycle (Store.isSome_of_deps edge))
  · intro acyclic id cycle
    exact acyclic id (TransGen.mono (fun _ _ edge => edge.1) _ _ cycle)

theorem Store.acyclic_of_deps (fewer : ∀ a, t.deps a = s.deps a ∨ t.deps a = [])
    (acyclic : s.Acyclic) : t.Acyclic := by
  rw [Store.acyclic_iff] at acyclic ⊢
  intro id cycle
  refine acyclic id (TransGen.mono (fun a b edge => ?_) _ _ cycle)
  rcases fewer a with same | gone
  · exact same ▸ edge
  · rw [gone] at edge
    cases edge

/-- **Other dependencies for one task** keep the graph acyclic exactly when the check
passes them. -/
theorem Store.acyclic_rewired (same : ∀ a, a ≠ id → t.deps a = s.deps a)
    (acyclic : s.Acyclic) : t.Acyclic ↔ introducesDependencyCycle s.dependsEdges id (t.deps id) = false := by
  rw [Store.acyclic_iff] at acyclic ⊢
  rw [acyclic_rewire (fun a b other => by rw [same a other]) acyclic, ← Bool.not_eq_true,
    introducesDependencyCycle_iff]
  simp only [depsOf_dependsEdges, not_exists, not_and]

/-! ## One operation -/

/-- What `update_task` accepts passed the check. -/
theorem checkUpdate_dependsOn {fields : TaskFields}
    {cap costCap : Option Nat} (accepted : s.checkUpdate id fields cap = .ok costCap)
    {deps : List Id} (given : fields.dependsOn.join = some deps) :
    introducesDependencyCycle s.dependsEdges id deps = false := by
  unfold Store.checkUpdate at accepted
  split at accepted
  · cases accepted
  split at accepted
  · cases accepted
  split at accepted
  · cases accepted
  split at accepted
  · cases accepted
  split at accepted
  · cases accepted
  split at accepted
  · cases accepted
  split at accepted
  · cases accepted
  · rename_i passes
    simpa [given] using passes

/-- Only `update_task` rewrites `depends_on`, after the check. -/
theorem RowOp.rewrites_dependsOn {env : Env} {op : RowOp} {row new : TaskRow}
    (rewrites : op.Rewrites env s row new) : new.dependsOn = row.dependsOn ∨
      introducesDependencyCycle s.dependsEdges row.id new.dependsOn = false ∧
        ∃ fields cap now, op = .edit (.update row.id fields cap now) := by
  cases op with
  | edit op =>
    cases op with
    | update id fields cap now =>
      obtain ⟨rfl, costCap, accepted, rfl⟩ := rewrites
      cases given : fields.dependsOn.join with
      | none => exact .inl (by simp [updateEdit, given])
      | some deps =>
        have stored : ((updateEdit env fields costCap now).apply row).dependsOn = deps := by
          simp [updateEdit, given]
        rw [stored]
        exact .inr ⟨checkUpdate_dependsOn accepted given, fields, cap, now, rfl⟩
    | claim id agentId now lease | requeueZombie id claimer lease retry now
    | failZombie id claimer lease now | stopTree root revision requestedBy countsAsFailure now
    | sweep ids now =>
      obtain ⟨-, -, rfl⟩ := rewrites
      exact .inl rfl
    | complete id summary caller now =>
      obtain ⟨-, -, -, rfl⟩ := rewrites
      exact .inl (by split <;> rfl)
    | rejectReview read id feedback softCap now =>
      obtain ⟨-, seen, -, rfl⟩ := rewrites
      exact .inl (by split <;> rfl)
    | resolveNeedsHuman id decision note expected now =>
      obtain ⟨-, edit, decided, rfl⟩ := rewrites
      cases decision <;> cases decided <;> exact .inl rfl
    | continueFromTerminal id message expected now =>
      obtain ⟨-, -, -, -, -, -, rfl⟩ := rewrites
      exact .inl rfl
    | renewLease | acceptReview | markNeedsHuman | cancel =>
      obtain ⟨-, rfl⟩ := rewrites
      exact .inl rfl
  | _ =>
    obtain ⟨-, rfl⟩ := rewrites
    exact .inl rfl

theorem RowOp.perform_deps (env : Env) (s : Store) (op : RowOp) (a : Id) :
    (op.perform env s).deps a = s.deps a ∨
      introducesDependencyCycle s.dependsEdges a ((op.perform env s).deps a) = false ∧
        ∃ fields cap now, op = .edit (.update a fields cap now) := by
  have becomes := op.perform_becomes env s
  cases found : s.getTask a with
  | none => exact .inl (by simp [Store.deps, becomes.absent a found, found])
  | some row =>
    obtain ⟨-, rfl⟩ := Store.getTask_mem found
    rcases becomes.present _ row found with kept | ⟨new, rewrites, stored⟩
    · exact .inl (by simp [Store.deps, kept, found])
    have newDeps : (op.perform env s).deps row.id = new.dependsOn := by
      simp only [Store.deps, stored, Option.map_some, Option.getD_some, Store.fire]
      split <;> rfl
    rw [newDeps]
    rcases RowOp.rewrites_dependsOn rewrites with same | checked
    · exact .inl (by simp [Store.deps, found, same])
    · exact .inr checked

theorem RowOp.perform_acyclic (env : Env) (acyclic : s.Acyclic) (op : RowOp) : (op.perform env s).Acyclic := by
  by_cases rewired : ∃ a, introducesDependencyCycle s.dependsEdges a ((op.perform env s).deps a) =
      false ∧ ∃ fields cap now, op = .edit (.update a fields cap now)
  · obtain ⟨a, passes, fields, cap, now, isUpdate⟩ := rewired
    refine (Store.acyclic_rewired (fun b other => ?_) acyclic).mpr passes
    rcases op.perform_deps env s b with same | ⟨-, fields', cap', now', isOther⟩
    · exact same
    have names : a = b := by
      have both := isUpdate.symm.trans isOther
      injection both with both
      injection both
    exact absurd names.symm other
  · refine Store.acyclic_of_deps (fun a => ?_) acyclic
    rcases op.perform_deps env s a with same | checked
    · exact .inl same
    · exact absurd ⟨a, checked⟩ rewired

/-- An insert that is accepted passes the check of `update_task`. -/
def StoreOp.ChecksDependencies (env : InsertEnv) (s : Store) : StoreOp → Prop
  | .insert task => s.accepts env task = true →
      introducesDependencyCycle s.dependsEdges task.row.id task.row.dependsOn = false
  | _ => True

/-- **One operation** keeps the graph acyclic exactly when it checks its dependencies. -/
theorem StoreOp.acyclic_step (env : InsertEnv) (acyclic : s.Acyclic) (op : StoreOp) :
    (op.perform env s).Acyclic ↔ op.ChecksDependencies env s := by
  cases op with
  | row op => exact iff_of_true (op.perform_acyclic env.toEnv acyclic) trivial
  | insert task =>
    simp only [StoreOp.perform, StoreOp.ChecksDependencies]
    cases accepted : s.accepts env task with
    | false =>
      rw [insertTask_refused accepted]
      exact iff_of_true acyclic nofun
    | true =>
      obtain ⟨-, stored⟩ := insertTask_accepted accepted
      have own : (s.insertTask env task).2.deps task.row.id = task.row.dependsOn := by
        rw [Store.deps, stored, if_pos rfl]
        rfl
      have others : ∀ a, a ≠ task.row.id → (s.insertTask env task).2.deps a = s.deps a := by
        intro a other
        rw [Store.deps, stored, if_neg other, Store.deps]
      rw [Store.acyclic_rewired others acyclic, own]
      simp
  | remove id =>
    refine iff_of_true (Store.acyclic_of_deps (fun a => ?_) acyclic) trivial
    rcases removeTask_row s id a with same | ⟨-, gone⟩
    · exact .inl (by simp only [Store.deps, StoreOp.perform, same])
    · exact .inr (by simp only [Store.deps, StoreOp.perform, gone, Option.map_none, Option.getD_none])

/-! ## Runs -/

theorem Store.start_acyclic (occurrences : List Id) : (Store.start occurrences).Acyclic := by
  rw [Store.acyclic_iff]
  intro id cycle
  obtain ⟨_, edge, _⟩ := TransGen.head'_iff.mp cycle
  cases edge

/-- **The dependency graph is acyclic in every state of a run** from the empty store
exactly when every accepted insert brings dependencies that do not lead back to it. -/
theorem dependencies_acyclic_iff (env : InsertEnv) (occurrences : List Id) (ops : List StoreOp) :
    (∀ earlier later, ops = earlier ++ later →
        (run (StoreOp.perform env) (Store.start occurrences) earlier).Acyclic) ↔
      Obeys (StoreOp.perform env) (fun s op => op.ChecksDependencies env s) (Store.start occurrences) ops :=
  run_always_iff Store.Acyclic (fun _ op acyclic => op.acyclic_step env acyclic)
    (Store.start_acyclic occurrences)

def sampleDependent (id : Id) (deps : List Id) : StoreOp :=
  .insert
    { row := { sampleRow id .pending none with dependsOn := deps }
      contracts := []
      timeoutSecs := none
      discoveryRunId := none
      discoverySpecJson := none
      ownerRefused := false }

def afterStoreOps (ops : List StoreOp) : Store :=
  run (StoreOp.perform sampleInsertEnv) (Store.start []) ops

/-- **Two inserts close a cycle**: the first depends on a task that is not there yet, the
second is that task and depends on the first. -/
theorem insert_closes_cycle :
    ¬(afterStoreOps [sampleDependent ['a'] [['b']], sampleDependent ['b'] [['a']]]).Acyclic := by
  intro acyclic
  refine acyclic ['a'] (.tail (.single (b := ['b']) ?_) ?_)
  · exact ⟨by decide, by decide⟩
  · exact ⟨by decide, by decide⟩

end DuDuClaw.TaskStore
