/-
# TaskStore.Membership -- who is in a stopped tree

`insert_task` and `remove_task` of tasks.rs, and runs in which the tree of tasks is
edited.  `in_stop_tree` walks `STOP_ANCESTRY_DEPTH` levels up from a task, over rows
that may be missing; the insert looks up from the new row, not down from it.

* `insertTask_shallow`: a chain built from its root down never gets too deep for the walk.
* `TreeOp.step`: what one operation leaves of the tree and of its members.
* `stop_membership`: in every run that neither hangs a deep chain below a new row nor
  takes a row away from below a stop, membership is exact and permanent.
* `stop_membership_broken`: the two ways it fails.
-/
import DuDuClaw.Lib.Runs
import DuDuClaw.Lib.Table
import DuDuClaw.TaskStore.Stop

namespace DuDuClaw.TaskStore

open DuDuClaw.Lib

/-! ## The chain of parents -/

def Store.parent (s : Store) (id : Id) : Option Id := (s.getTask id).bind TaskRow.parentTaskId

/-- The ancestor `n` levels up. -/
def Store.ancestor (s : Store) : Nat → Id → Option Id
  | 0, id => some id
  | n + 1, id => (s.parent id).bind (s.ancestor n)

variable {s : Store} {n : Nat} {id top : Id}

variable {depth : Nat} {t : Store} {sel : TaskRow → Bool}

theorem Store.ancestor_add (s : Store) (m n : Nat) (id : Id) :
    s.ancestor (m + n) id = (s.ancestor m id).bind (s.ancestor n) := by
  induction m generalizing id with
  | zero => simp [Store.ancestor]
  | succ m ih =>
    rw [Nat.succ_add, Store.ancestor, Store.ancestor]
    cases s.parent id with
    | none => rfl
    | some up => exact ih up

/-- A chain that goes on to level `n` passes through every level below. -/
theorem Store.ancestor_below {m : Nat} (lower : m ≤ n)
    (reached : s.ancestor n id = some top) : ∃ mid, s.ancestor m id = some mid := by
  obtain ⟨rest, rfl⟩ := Nat.exists_eq_add_of_le lower
  rw [Store.ancestor_add, Option.bind_eq_some_iff] at reached
  obtain ⟨mid, found, -⟩ := reached
  exact ⟨mid, found⟩

theorem Store.ancestors_succ (s : Store) (depth : Nat) (id : Id) :
    s.ancestors (depth + 1) id = id :: (s.parent id).elim [] (s.ancestors depth) := by
  rw [Store.ancestors, Store.parent]
  cases (s.getTask id).bind TaskRow.parentTaskId <;> rfl

theorem Store.mem_ancestors : top ∈ s.ancestors depth id ↔ ∃ n ≤ depth, s.ancestor n id = some top := by
  induction depth generalizing id with
  | zero => simp [Store.ancestors, Store.ancestor, eq_comm]
  | succ depth ih =>
    rw [Store.ancestors_succ, List.mem_cons]
    constructor
    · rintro (rfl | above)
      · exact ⟨0, Nat.zero_le _, rfl⟩
      cases up : s.parent id with
      | none => simp [up] at above
      | some next =>
        rw [up] at above
        obtain ⟨n, small, found⟩ := ih.mp above
        exact ⟨n + 1, by omega, by simp [Store.ancestor, up, found]⟩
    · rintro ⟨n, small, found⟩
      cases n with
      | zero => exact .inl (Option.some.inj found).symm
      | succ n =>
        right
        rw [Store.ancestor, Option.bind_eq_some_iff] at found
        obtain ⟨next, up, further⟩ := found
        rw [up]
        exact ih.mpr ⟨n, by omega, further⟩

theorem Store.length_ancestors (small : n ≤ depth)
    (reached : s.ancestor n id = some top) : n < (s.ancestors depth id).length := by
  induction n generalizing depth id with
  | zero => cases depth <;> simp [Store.ancestors]
  | succ n ih =>
    rw [Store.ancestor, Option.bind_eq_some_iff] at reached
    obtain ⟨next, up, further⟩ := reached
    obtain ⟨depth, rfl⟩ := Nat.exists_eq_add_of_le' (Nat.lt_of_lt_of_le n.succ_pos small)
    have below : n ≤ depth := by omega
    have deeper := ih below further
    have walk : s.ancestors (depth + 1) id = id :: s.ancestors depth next := by
      rw [Store.ancestors_succ, up]
      rfl
    rw [walk, List.length_cons]
    omega

def Store.HasStop (s : Store) (id : Id) : Prop := ∃ stop ∈ s.stops, stop.rootTaskId = id

theorem Store.inStopTree_iff :
    s.inStopTree id ↔ ∃ n ≤ stopAncestryDepth, ∃ top, s.ancestor n id = some top ∧ s.HasStop top := by
  simp only [Store.inStopTree, List.any_eq_true, Store.mem_ancestors, beq_iff_eq, Store.HasStop]
  constructor
  · rintro ⟨top, ⟨n, small, found⟩, requested⟩
    exact ⟨n, small, top, found, requested⟩
  · rintro ⟨n, small, top, found, requested⟩
    exact ⟨top, ⟨n, small, found⟩, requested⟩

theorem Store.member_iff : s.Member top id ↔ ∃ n, s.ancestor n id = some top := by
  constructor
  · rintro ⟨depth, listed⟩
    obtain ⟨n, -, found⟩ := Store.mem_ancestors.mp listed
    exact ⟨n, found⟩
  · rintro ⟨n, found⟩
    exact ⟨n, Store.mem_ancestors.mpr ⟨n, Nat.le_refl n, found⟩⟩

/-- No task is further below one of its ancestors than the walk of `in_stop_tree` goes. -/
def Store.Shallow (s : Store) : Prop := ∀ top id, s.Member top id → s.Near top id

theorem Store.Shallow.of_ancestor (shallow : s.Shallow)
    (found : s.ancestor n id = some top) : ∃ m ≤ stopAncestryDepth, s.ancestor m id = some top :=
  Store.mem_ancestors.mp (shallow top id (Store.member_iff.mpr ⟨n, found⟩))

theorem Store.shallow_of_ancestor (near : ∀ n id top, s.ancestor n id = some top →
      ∃ m ≤ stopAncestryDepth, s.ancestor m id = some top) : s.Shallow := by
  intro top id member
  obtain ⟨n, found⟩ := Store.member_iff.mp member
  exact Store.mem_ancestors.mpr (near n id top found)

/-- **In a shallow store the walk finds every stop above.** -/
theorem Store.Shallow.inStopTree_iff (shallow : s.Shallow) (id : Id) :
    s.inStopTree id ↔ ∃ top, s.Member top id ∧ s.HasStop top := by
  rw [Store.inStopTree_iff]
  constructor
  · rintro ⟨n, -, top, found, requested⟩
    exact ⟨top, Store.member_iff.mpr ⟨n, found⟩, requested⟩
  · rintro ⟨top, member, requested⟩
    obtain ⟨n, found⟩ := Store.member_iff.mp member
    obtain ⟨m, small, near⟩ := shallow.of_ancestor found
    exact ⟨m, small, top, near, requested⟩

/-! ## `insert_task` -/

/-- What `insert_task` is given: the row, and of the columns the other operations do not
read, those it checks. -/
structure NewTask where
  row : TaskRow
  /-- `team_spec_json`, `discovery_spec_json`, `criteria_ledger` and
  `acceptance_criteria_baseline`, as far as they are there. -/
  contracts : List Text
  timeoutSecs : Option Nat
  discoveryRunId : Option Text
  discoverySpecJson : Option Text
  /-- The verdict of the trigger `task_a2a_owner_insert` on the owner columns. -/
  ownerRefused : Bool

inductive InsertError where
  | unsafeContract
  | costCapRange
  | capWithoutGoal
  | timeoutRange
  | timeoutWithoutGoal
  | discoveryIdentity
  | stoppedParent (parent : Id)
  | tooDeep (parent : Id) (depth : Nat)
  | idTaken
  | ownerMismatch

/-- `require_safe_contract`, which masks credentials with functions of another crate. -/
structure InsertEnv extends Env where
  contractSafe : Text → Bool

def NewTask.check (env : InsertEnv) (task : NewTask) : Except InsertError Unit :=
  if task.contracts.any fun contract => !env.contractSafe contract then .error .unsafeContract
  else if task.row.costCapCents.any fun cap => cap == 0 || 2 ^ 63 - 1 < cap then
    .error .costCapRange
  else if task.row.costCapCents.isSome && !task.row.goalMode then .error .capWithoutGoal
  else if task.timeoutSecs.any fun secs => !(30 ≤ secs && secs ≤ 3600) then .error .timeoutRange
  else if task.timeoutSecs.isSome && !task.row.goalMode then .error .timeoutWithoutGoal
  else if task.row.kind == .discovery &&
      (task.row.goalMode || task.discoveryRunId.isNone || task.discoverySpecJson.isNone) then
    .error .discoveryIdentity
  else .ok ()

/-- The checks on the parent: no stop above, and a chain that is not too long already. -/
def Store.checkParent (s : Store) : Option Id → Except InsertError Unit
  | none => .ok ()
  | some parent =>
    if s.inStopTree parent then .error (.stoppedParent parent)
    else
      let depth := (s.ancestors stopAncestryDepth parent).length
      if stopAncestryDepth ≤ depth then .error (.tooDeep parent depth) else .ok ()

/-- The row as it is stored: derived texts masked, a task in goal mode a goal, and the
revision above the floor that a removed row of this id left (`task_epoch_insert`). -/
def Store.insertedRow (env : Env) (s : Store) (row : TaskRow) : TaskRow :=
  { row with
    title := env.maskDerivedText row.title
    description := env.maskDerivedText row.description
    blockedReason := row.blockedReason.map env.maskDerivedText
    tags := env.maskDerivedText row.tags
    acceptanceCriteria := row.acceptanceCriteria.map env.maskDerivedText
    resultSummary := row.resultSummary.map env.maskDerivedText
    judgeFeedback := row.judgeFeedback.map env.maskDerivedText
    pauseReason := row.pauseReason.map env.maskDerivedText
    kind := if row.kind == .task && row.goalMode then .goal else row.kind
    authorityRevision := max row.authorityRevision ((s.floors row.id).getD 1) }

def Store.withRow (s : Store) (row : TaskRow) (fresh : s.getTask row.id = none) : Store where
  tasks := s.tasks ++ [row]
  distinct := by
    apply nodup_map_concat s.distinct
    intro other listed
    rw [Store.getTask, List.find?_eq_none] at fresh
    simpa using fresh other listed
  stops := s.stops
  occurrences := s.occurrences
  floors id :=
    if id = row.id then some (max ((s.floors id).getD row.authorityRevision) row.authorityRevision)
    else s.floors id

def Store.insertTask (env : InsertEnv) (s : Store) (task : NewTask) :
    Except InsertError Unit × Store :=
  match task.check env with
  | .error e => (.error e, s)
  | .ok () =>
    match s.checkParent task.row.parentTaskId with
    | .error e => (.error e, s)
    | .ok () =>
      if fresh : s.getTask (s.insertedRow env.toEnv task.row).id = none then
        if task.ownerRefused then (.error .ownerMismatch, s)
        else (.ok (), s.withRow (s.insertedRow env.toEnv task.row) fresh)
      else (.error .idTaken, s)

/-! ## `remove_task` -/

/-- The table without the selected rows; their floors outlive them (`task_epoch_delete`). -/
def Store.without (s : Store) (sel : TaskRow → Bool) : Store where
  tasks := s.tasks.filter fun row => !sel row
  distinct := s.distinct.sublist (List.filter_sublist.map TaskRow.id)
  stops := s.stops
  occurrences := s.occurrences
  floors id :=
    match (s.getTask id).filter sel with
    | some row =>
      some (max ((s.floors id).getD (row.authorityRevision + 1)) (row.authorityRevision + 1))
    | none => s.floors id

/-- `id = ?1 AND kind <> 'discovery'`. -/
def removable (id : Id) (row : TaskRow) : Bool := row.id == id && row.kind != .discovery

def Store.removeTask (s : Store) (id : Id) : Except TaskError Bool × Store :=
  let count := s.changes (removable id)
  if count = 0 && (s.getTask id).isSome then (.error .discovery, s)
  else (.ok (count != 0), s.without (removable id))

/-! ## What an edit of the tree does to the chains -/

/-- `s.parent` says no more than `t.parent` does. -/
def Store.Below (s t : Store) : Prop := ∀ id up, s.parent id = some up → t.parent id = some up

theorem Store.Below.ancestor (below : s.Below t)
    (found : s.ancestor n id = some top) : t.ancestor n id = some top := by
  induction n generalizing id with
  | zero => exact found
  | succ n ih =>
    rw [Store.ancestor, Option.bind_eq_some_iff] at found ⊢
    obtain ⟨next, up, further⟩ := found
    exact ⟨next, below id next up, ih further⟩

/-- A chain of the larger tree is one of the smaller, or it leaves the smaller at a task
whose parent the smaller does not know. -/
theorem Store.Below.split (below : s.Below t) (found : t.ancestor n id = some top) :
    s.ancestor n id = some top ∨ ∃ m < n, ∃ gap, s.ancestor m id = some gap ∧
      s.parent gap = none ∧ ∃ up, t.parent gap = some up ∧ t.ancestor (n - m - 1) up = some top := by
  induction n generalizing id with
  | zero => exact .inl found
  | succ n ih =>
    rw [Store.ancestor, Option.bind_eq_some_iff] at found
    obtain ⟨next, up, further⟩ := found
    cases known : s.parent id with
    | none => exact .inr ⟨0, n.succ_pos, id, rfl, known, next, up, further⟩
    | some other =>
      have same : other = next := Option.some.inj ((below id other known).symm.trans up)
      subst same
      rcases ih further with kept | ⟨m, less, gap, reached, unknown, above, hangs, rest⟩
      · exact .inl (by simp [Store.ancestor, known, kept])
      · refine .inr ⟨m + 1, by omega, gap, by simp [Store.ancestor, known, reached], unknown, above, hangs, ?_⟩
        rwa [show n + 1 - (m + 1) - 1 = n - m - 1 by omega]

theorem Store.Below.shallow (below : s.Below t) (shallow : t.Shallow) : s.Shallow := by
  refine Store.shallow_of_ancestor fun n id top found => ?_
  obtain ⟨m, small, near⟩ := shallow.of_ancestor (below.ancestor found)
  by_cases short : n ≤ stopAncestryDepth
  · exact ⟨n, short, found⟩
  · obtain ⟨mid, reached⟩ := Store.ancestor_below (m := m) (by omega) found
    have same : mid = top := Option.some.inj ((below.ancestor reached).symm.trans near)
    exact ⟨m, small, same ▸ reached⟩

theorem Store.shallow_congr (same : ∀ id, t.parent id = s.parent id) (shallow : s.Shallow) : t.Shallow :=
  Store.Below.shallow (fun id _ found => (same id).symm.trans found) shallow

theorem Store.withRow_getTask (s : Store) (row : TaskRow) (fresh : s.getTask row.id = none)
    (id : Id) : (s.withRow row fresh).getTask id = if id = row.id then some row else s.getTask id := by
  by_cases new : id = row.id
  · subst new
    rw [if_pos rfl]
    exact Store.getTask_of_mem (List.mem_append_right _ (List.mem_singleton_self row))
  rw [if_neg new]
  simp only [Store.getTask, Store.withRow, List.find?_append]
  cases s.tasks.find? fun other => other.id == id with
  | none => simp [Ne.symm new]
  | some other => rfl

theorem Store.withRow_parent (s : Store) (row : TaskRow) (fresh : s.getTask row.id = none) (id : Id) :
    (s.withRow row fresh).parent id = if id = row.id then row.parentTaskId else s.parent id := by
  rw [Store.parent, Store.withRow_getTask]
  split <;> rfl

theorem Store.withRow_below (s : Store) (row : TaskRow) (fresh : s.getTask row.id = none) :
    s.Below (s.withRow row fresh) := by
  intro id up found
  rw [Store.withRow_parent, if_neg]
  · exact found
  · rintro rfl
    simp [Store.parent, fresh] at found

theorem Store.without_getTask (s : Store) (sel : TaskRow → Bool) (id : Id) :
    (s.without sel).getTask id = (s.getTask id).filter fun row => !sel row := by
  cases found : s.getTask id with
  | none =>
    rw [Store.getTask, List.find?_eq_none] at found
    rw [Option.filter_none, Store.getTask, List.find?_eq_none]
    exact fun row listed => found row (List.mem_filter.mp listed).1
  | some row =>
    obtain ⟨listed, rfl⟩ := Store.getTask_mem found
    rw [Option.filter_some]
    by_cases gone : sel row
    · rw [if_neg (by simp [gone]), Store.getTask, List.find?_eq_none]
      intro other kept sameId
      obtain ⟨otherListed, stays⟩ := List.mem_filter.mp kept
      have same := List.inj_on_of_nodup_map s.distinct otherListed listed (by simpa using sameId)
      simp [same, gone] at stays
    · rw [if_pos (by simp [gone])]
      exact Store.getTask_of_mem (List.mem_filter.mpr ⟨listed, by simp [gone]⟩)

theorem Store.without_below (s : Store) (sel : TaskRow → Bool) : (s.without sel).Below s := by
  intro id _ found
  rw [Store.parent, Store.without_getTask] at found
  obtain ⟨row, kept, isParent⟩ := Option.bind_eq_some_iff.mp found
  rw [Option.filter_eq_some_iff] at kept
  simp [Store.parent, kept.1, isParent]

theorem Store.without_parent {up : Id}
    (lost : (s.without sel).parent id = none) (known : s.parent id = some up) :
    ∃ row, s.getTask id = some row ∧ sel row ∧ row.parentTaskId = some up := by
  obtain ⟨row, found, isParent⟩ := Option.bind_eq_some_iff.mp known
  refine ⟨row, found, ?_, isParent⟩
  rw [Store.parent, Store.without_getTask, found, Option.filter_some] at lost
  by_contra stays
  rw [if_pos (by simpa using stays)] at lost
  exact absurd (lost.symm.trans isParent) nofun

/-! ## The insert -/

theorem Store.insertTask_cases (env : InsertEnv) (s : Store) (task : NewTask) : (s.insertTask env task).2 = s ∨
      s.checkParent task.row.parentTaskId = .ok () ∧ ∃ fresh,
        (s.insertTask env task).2 = s.withRow (s.insertedRow env.toEnv task.row) fresh := by
  unfold Store.insertTask
  split
  · exact .inl rfl
  split
  · exact .inl rfl
  rename_i accepted
  split
  · rename_i fresh
    split
    · exact .inl rfl
    · exact .inr ⟨accepted, fresh, rfl⟩
  · exact .inl rfl

theorem Store.checkParent_short {parent : Id} (accepted : s.checkParent (some parent) = .ok ())
    (found : s.ancestor n parent = some top) : n + 1 < stopAncestryDepth := by
  simp only [Store.checkParent] at accepted
  split at accepted
  · cases accepted
  split at accepted
  · cases accepted
  rename_i short
  have depth : stopAncestryDepth = 64 := rfl
  by_contra long
  obtain ⟨mid, reached⟩ := Store.ancestor_below (m := stopAncestryDepth - 1) (by omega) found
  have shallow : stopAncestryDepth - 1 ≤ stopAncestryDepth := by omega
  have listed := Store.length_ancestors shallow reached
  omega

/-- **A new leaf never gets too deep**: an insert below which nothing hangs yet keeps the
store shallow. -/
theorem Store.insertTask_shallow (shallow : s.Shallow) {row : TaskRow}
    (fresh : s.getTask row.id = none) (accepted : s.checkParent row.parentTaskId = .ok ())
    (leaf : ∀ child ∈ s.tasks, child.parentTaskId ≠ some row.id) : (s.withRow row fresh).Shallow := by
  have below := s.withRow_below row fresh
  -- no other task has the new row above it
  have apart : ∀ n id, id ≠ row.id → s.ancestor n id ≠ some row.id := by
    intro n id other reached
    cases n with
    | zero => exact other (Option.some.inj reached)
    | succ n =>
      rw [Store.ancestor_add s n 1, Option.bind_eq_some_iff] at reached
      obtain ⟨child, -, last⟩ := reached
      simp only [Store.ancestor, Store.parent, Option.bind_eq_some_iff] at last
      obtain ⟨up, ⟨childRow, found, isParent⟩, same⟩ := last
      exact leaf childRow (Store.getTask_mem found).1 (isParent.trans same)
  have kept : ∀ n id top, id ≠ row.id → (s.withRow row fresh).ancestor n id = some top →
      s.ancestor n id = some top := by
    intro n id top other found
    rcases below.split found with known | ⟨m, -, gap, reached, unknown, up, hangs, -⟩
    · exact known
    rw [Store.withRow_parent] at hangs
    by_cases new : gap = row.id
    · exact absurd (new ▸ reached) (apart m id other)
    · rw [if_neg new] at hangs
      exact absurd (unknown.symm.trans hangs) nofun
  refine Store.shallow_of_ancestor fun n id top found => ?_
  by_cases new : id = row.id
  · subst new
    cases n with
    | zero => exact ⟨0, Nat.zero_le _, found⟩
    | succ n =>
      rw [Store.ancestor, Option.bind_eq_some_iff, Store.withRow_parent, if_pos rfl] at found
      obtain ⟨parent, isParent, further⟩ := found
      by_cases loop : parent = row.id
      · -- a row that is its own parent has no other ancestor
        have stays : ∀ k, (s.withRow row fresh).ancestor k row.id = some row.id := by
          intro k
          induction k with
          | zero => rfl
          | succ k ih =>
            rw [Store.ancestor, Store.withRow_parent, if_pos rfl, isParent, loop, Option.bind_some, ih]
        rw [loop, stays] at further
        exact ⟨0, Nat.zero_le _, further⟩
      · have old := kept n parent top loop further
        rw [isParent] at accepted
        have short := Store.checkParent_short accepted old
        refine ⟨n + 1, Nat.le_of_lt short, ?_⟩
        rw [Store.ancestor, Store.withRow_parent, if_pos rfl, isParent, Option.bind_some]
        exact further
  · obtain ⟨m, small, near⟩ := shallow.of_ancestor (kept n id top new found)
    exact ⟨m, small, below.ancestor near⟩

/-! ## Runs -/

/-- The operations of a run in which the tree is edited. -/
inductive TreeOp where
  | insert (task : NewTask)
  | remove (id : Id)
  | edit (op : Op)

def TreeOp.perform (env : InsertEnv) (s : Store) : TreeOp → Store
  | .insert task => (s.insertTask env task).2
  | .remove id => (s.removeTask id).2
  | .edit op => op.perform env.toEnv s

/-- The insert puts no task that is already there too deep below an ancestor, and no row
is removed whose parent is in a stopped tree, unless a stop was requested for it too. -/
def TreeOp.KeepsTree (s : Store) : TreeOp → Prop
  | .insert task => ∀ fresh : s.getTask task.row.id = none,
      (∃ child ∈ s.tasks, child.parentTaskId = some task.row.id) →
        (s.withRow task.row fresh).Shallow
  | .remove id => ∀ row parent, s.getTask id = some row → row.kind ≠ .discovery →
      row.parentTaskId = some parent → s.inStopTree parent → s.HasStop id
  | .edit _ => True

/-- The operations that edit rows in place keep the tree and withdraw no stop request. -/
structure Store.SameTree (s t : Store) : Prop where
  parent : ∀ id, t.parent id = s.parent id
  stops : ∀ stop ∈ s.stops, stop ∈ t.stops

theorem Store.SameTree.refl (s : Store) : s.SameTree s := ⟨fun _ => rfl, fun _ listed => listed⟩

theorem Store.SameTree.update (s : Store) (sel : TaskRow → Bool) (edit : Edit) :
    s.SameTree (s.updateWhere sel edit) where
  parent id := by
    rw [Store.parent, updateWhere_get, Store.parent]
    cases s.getTask id with
    | none => rfl
    | some row => simp
  stops _ listed := listed

theorem Op.perform_sameTree (env : Env) (s : Store) (op : Op) : s.SameTree (op.perform env s) := by
  cases op with
  | claim id agentId now lease =>
    simp only [Op.perform, Store.atomicClaim]
    split
    · exact .refl s
    split
    · exact .refl s
    split
    · exact .refl s
    · split
      · exact .refl s
      · exact .update s _ _
  | renewLease id agentId expiry now | requeueZombie id claimer lease retry now
  | failZombie id claimer lease now | acceptReview id feedback now
  | markNeedsHuman id reason pause now | cancel id reason now | sweep ids now => exact .update s _ _
  | complete id summary caller now =>
    simp only [Op.perform, Store.completeTask]
    split
    · exact .refl s
    split
    · exact .refl s
    · split
      · exact .refl s
      · exact .update s _ _
  | rejectReview read id feedback softCap now =>
    simp only [Op.perform, Store.rejectReview]
    split
    · exact .refl s
    · split
      · exact .update s _ _
      · exact .update s _ _
  | resolveNeedsHuman id decision note expected now =>
    simp only [Op.perform, Store.resolveNeedsHuman]
    split
    · exact .refl s
    · split
      · exact .refl s
      · exact .update s _ _
  | continueFromTerminal id message expected now =>
    simp only [Op.perform, Store.continueFromTerminal]
    split
    · exact .refl s
    split
    · exact .refl s
    · split
      · exact .refl s
      · exact .update s _ _
  | update id fields cap now =>
    simp only [Op.perform, Store.updateTask]
    split
    · exact .refl s
    · exact .update s _ _
  | stopTree root revision requestedBy countsAsFailure now =>
    simp only [Op.perform, Store.stopTaskTree]
    split
    · exact .refl s
    split
    · exact .refl s
    split
    · exact .refl s
    split
    · exact .refl s
    · exact ⟨(Store.SameTree.update s _ _).parent, fun stop listed => List.mem_append_left _ listed⟩

theorem Store.inStopTree_mono (below : s.Below t)
    (stops : ∀ stop ∈ s.stops, stop ∈ t.stops) (inside : s.inStopTree id) : t.inStopTree id := by
  rw [Store.inStopTree_iff] at inside ⊢
  obtain ⟨n, small, top, found, stop, listed, isRoot⟩ := inside
  exact ⟨n, small, top, below.ancestor found, stop, stops stop listed, isRoot⟩

/-- Taking a row away from below no stop, or from a root of one, loses no member. -/
theorem Store.without_member (spared : ∀ row parent, s.getTask row.id = some row → sel row →
      row.parentTaskId = some parent → s.inStopTree parent → s.HasStop row.id)
    (inside : s.inStopTree id) : (s.without sel).inStopTree id := by
  rw [Store.inStopTree_iff] at inside ⊢
  obtain ⟨n, small, top, found, requested⟩ := inside
  rcases (s.without_below sel).split found with kept | ⟨m, less, gap, reached, lost, up, hangs, rest⟩
  · exact ⟨n, small, top, kept, requested⟩
  obtain ⟨row, isRow, selected, isParent⟩ := Store.without_parent lost hangs
  obtain ⟨-, rfl⟩ := Store.getTask_mem isRow
  have above : s.inStopTree up :=
    Store.inStopTree_iff.mpr ⟨n - m - 1, by omega, top, rest, requested⟩
  exact ⟨m, by omega, row.id, reached, spared row up isRow selected isParent above⟩

theorem Store.removeTask_cases (s : Store) (id : Id) :
    (s.removeTask id).2 = s ∨ (s.removeTask id).2 = s.without (removable id) := by
  simp only [Store.removeTask]
  split
  · exact .inl rfl
  · exact .inr rfl

/-- **One operation** keeps the store shallow and every member a member. -/
theorem TreeOp.step (env : InsertEnv) (shallow : s.Shallow) (op : TreeOp) (keeps : op.KeepsTree s) :
    (op.perform env s).Shallow ∧ ∀ id, s.inStopTree id → (op.perform env s).inStopTree id := by
  cases op with
  | insert task =>
    simp only [TreeOp.perform]
    rcases s.insertTask_cases env task with same | ⟨accepted, fresh, inserted⟩
    · rw [same]
      exact ⟨shallow, fun _ inside => inside⟩
    rw [inserted]
    refine ⟨?_, fun id inside => ?_⟩
    · by_cases named : ∃ child ∈ s.tasks, child.parentTaskId = some task.row.id
      · have free : s.getTask task.row.id = none := fresh
        refine Store.shallow_congr (fun id => ?_) (keeps free named)
        rw [Store.withRow_parent, s.withRow_parent task.row free]
        rfl
      · refine Store.insertTask_shallow shallow fresh accepted fun child listed isParent => ?_
        exact named ⟨child, listed, isParent⟩
    · exact Store.inStopTree_mono (s.withRow_below _ fresh) (fun _ listed => listed) inside
  | remove id =>
    simp only [TreeOp.perform]
    rcases s.removeTask_cases id with same | removed
    · rw [same]
      exact ⟨shallow, fun _ inside => inside⟩
    rw [removed]
    refine ⟨(s.without_below _).shallow shallow, fun task inside => ?_⟩
    refine Store.without_member (fun row parent found selected isParent above => ?_) inside
    rw [removable, Bool.and_eq_true, beq_iff_eq, bne_iff_ne] at selected
    obtain ⟨rfl, notDiscovery⟩ := selected
    exact keeps row parent found notDiscovery isParent above
  | edit op =>
    simp only [TreeOp.perform]
    have same := op.perform_sameTree env.toEnv s
    refine ⟨Store.shallow_congr same.parent shallow, fun id inside => ?_⟩
    exact Store.inStopTree_mono (fun task up found => (same.parent task).trans found) same.stops
      inside

def Store.start (occurrences : List Id) : Store where
  tasks := []
  distinct := List.nodup_nil
  stops := []
  occurrences := occurrences
  floors _ := none

theorem Store.start_shallow (occurrences : List Id) : (Store.start occurrences).Shallow := by
  refine Store.shallow_of_ancestor fun n id top found => ?_
  cases n with
  | zero => exact ⟨0, Nat.zero_le _, found⟩
  | succ n => simp [Store.ancestor, Store.parent, Store.getTask, Store.start] at found

/-- **Stop membership is exact and permanent** in every run that keeps the tree: in every
state a task is in the stop tree exactly when it or one of its ancestors, at any level,
has a stop request, and it stays there in every later state. -/
theorem stop_membership (env : InsertEnv) (occurrences : List Id) (earlier later : List TreeOp)
    (keeps : Obeys (TreeOp.perform env) TreeOp.KeepsTree (Store.start occurrences)
      (earlier ++ later)) (id : Id) :
    ((run (TreeOp.perform env) (Store.start occurrences) earlier).inStopTree id ↔
        ∃ top, (run (TreeOp.perform env) (Store.start occurrences) earlier).Member top id ∧
          (run (TreeOp.perform env) (Store.start occurrences) earlier).HasStop top) ∧
      ((run (TreeOp.perform env) (Store.start occurrences) earlier).inStopTree id →
        (run (TreeOp.perform env) (Store.start occurrences) (earlier ++ later)).inStopTree id) := by
  obtain ⟨first, second⟩ := obeys_append.mp keeps
  have shallow := run_invariant Store.Shallow (fun s op holds ok => (TreeOp.step env holds op ok).1)
    (Store.start_shallow occurrences) first
  refine ⟨shallow.inStopTree_iff id, fun inside => ?_⟩
  rw [run_append]
  exact run_rel Store.Shallow (fun s t => s.inStopTree id → t.inStopTree id)
    (fun s op holds ok => (TreeOp.step env holds op ok).1) (fun _ before => before)
    (fun _ _ _ one two => two ∘ one) (fun s op holds ok => (TreeOp.step env holds op ok).2 id)
    shallow second inside

/-! ## Three levels, and more than the walk goes -/

def sampleInsertEnv : InsertEnv where
  toEnv := sampleEnv
  contractSafe _ := true

def sampleNew (id : Id) (parent : Option Id) : TreeOp :=
  .insert
    { row := sampleRow id .inProgress parent
      contracts := []
      timeoutSecs := none
      discoveryRunId := none
      discoverySpecJson := none
      ownerRefused := false }

def sampleStop (root : Id) : TreeOp := .edit (.stopTree root 1 [] false [])

/-- A goal, a child and a grandchild, and the stop of the goal. -/
def stoppedFamily : List TreeOp :=
  [sampleNew sampleRoot none, sampleNew (sampleChild 0) (some sampleRoot),
    sampleNew (sampleChild 1) (some (sampleChild 0)), sampleStop sampleRoot]

def afterTreeOps (ops : List TreeOp) : Store := run (TreeOp.perform sampleInsertEnv) (Store.start []) ops

/-- The grandchild of a stopped goal is a member, and stays one when the goal is removed. -/
theorem stop_membership_family : ((afterTreeOps stoppedFamily).inStopTree (sampleChild 1) ↔
        ∃ top, (afterTreeOps stoppedFamily).Member top (sampleChild 1) ∧
          (afterTreeOps stoppedFamily).HasStop top) ∧
      ((afterTreeOps stoppedFamily).inStopTree (sampleChild 1) →
        (afterTreeOps (stoppedFamily ++ [.remove sampleRoot])).inStopTree (sampleChild 1)) := by
  refine stop_membership sampleInsertEnv [] stoppedFamily [.remove sampleRoot] ?_ (sampleChild 1)
  refine ⟨?_, ?_, ?_, trivial, ?_, trivial⟩
  · exact fun _ named => absurd named (by decide)
  · exact fun _ named => absurd named (by decide)
  · exact fun _ named => absurd named (by decide)
  · intro row parent found _ isParent
    have top : (afterTreeOps stoppedFamily).parent sampleRoot = none := by decide
    have above : (afterTreeOps stoppedFamily).parent sampleRoot = some parent :=
      Option.bind_eq_some_iff.mpr ⟨row, found, isParent⟩
    exact absurd (top.symm.trans above) nofun

/-- A chain of `length` rows, each inserted before its parent. -/
def chainUp (length : Nat) : List TreeOp :=
  (List.range length).map fun n => sampleNew (sampleChild n) (some (sampleChild (n + 1)))

/-- 65 rows, each inserted before its parent, the root of the chain and its stop. -/
def stoppedChain : List TreeOp :=
  chainUp 65 ++ [sampleNew (sampleChild 65) none, sampleStop (sampleChild 65)]

/-- **Membership is lost and missed.**  The grandchild of the stopped goal is in the stop
tree, and after `remove_task` of the child between them it is not.  In a chain built from
below every insert is accepted, its root is stopped, and the row 65 levels below the root
is not in the stop tree. -/
theorem stop_membership_broken : ((afterTreeOps stoppedFamily).inStopTree (sampleChild 1) = true ∧
        (afterTreeOps (stoppedFamily ++ [.remove (sampleChild 0)])).inStopTree (sampleChild 1) = false) ∧
      (afterTreeOps stoppedChain).ancestor 65 (sampleChild 0) = some (sampleChild 65) ∧
      (afterTreeOps stoppedChain).stops.map StopRequestRow.rootTaskId = [sampleChild 65] ∧
      (afterTreeOps stoppedChain).inStopTree (sampleChild 0) = false := by
  decide +kernel

end DuDuClaw.TaskStore
