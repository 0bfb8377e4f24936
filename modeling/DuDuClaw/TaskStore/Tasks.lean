/-
# TaskStore.Tasks -- the task table

Rows of `tasks` (task_store/tasks.rs, schema.rs), the authority trigger of
authority.rs that every UPDATE fires, and the stop requests.  Ids, agent names,
texts and timestamps are the strings the columns hold.

An `Edit` is what an UPDATE of the store may do to a row: no statement rewrites
`id` or `parent_task_id`, so the tree of tasks is fixed once its rows are there.

* `updateWhere_get`: an UPDATE changes exactly the rows its WHERE clause selects.
* `ancestors_updateWhere`: it leaves every ancestry as it is.
-/
import DuDuClaw.Lib.Chars
import Mathlib.Data.List.Nodup

namespace DuDuClaw.TaskStore

abbrev Text := List Char

abbrev Id := Text

/-- The values of `tasks.status`; `other` is any string without a name here, which
`update_task` may write. -/
inductive Status where
  | todo
  | pending
  | inProgress
  | review
  | revising
  | needsHuman
  | blocked
  | queued
  | pendingApproval
  | done
  | cancelled
  | failed
  | other (name : Text)
  deriving DecidableEq

/-- `status IN ('done','cancelled','failed')`. -/
def Status.isTerminal : Status → Bool
  | .done | .cancelled | .failed => true
  | _ => false

inductive TaskKind where
  | task
  | goal
  | discovery
  deriving DecidableEq

/-- A row of `tasks`, as far as the lifecycle reads or writes it. -/
structure TaskRow where
  id : Id
  title : Text
  description : Text
  status : Status
  priority : Text
  assignedTo : Text
  createdAt : Text
  updatedAt : Text
  completedAt : Option Text
  blockedReason : Option Text
  parentTaskId : Option Id
  tags : Text
  claimedBy : Option Text
  claimedAt : Option Text
  leaseExpiresAt : Option Text
  leaseRenewedAt : Option Text
  dependsOn : List Id
  retryCount : Int
  maxRetries : Int
  goalMode : Bool
  acceptanceCriteria : Option Text
  resultSummary : Option Text
  judgeFeedback : Option Text
  revisionRound : Int
  diminishing : Bool
  pauseReason : Option Text
  archived : Bool
  pinned : Bool
  kind : TaskKind
  authorityRevision : Int
  costCapCents : Option Nat
  deriving DecidableEq

/-- `kind IN ('task','goal')`. -/
def TaskRow.isWork (row : TaskRow) : Bool := row.kind == .task || row.kind == .goal

/-- A row of `task_stop_requests`. -/
structure StopRequestRow where
  rootTaskId : Id
  requestedBy : Text
  requestedAt : Text
  expectedAuthorityRevision : Int
  affectedTaskIds : List Id
  state : Text
  treeTruncated : Bool
  updatedAt : Text
  countsAsFailure : Bool

/-- The tables: tasks by primary key, stop requests, the tasks that are runs of a
responsibility, and the revision floors of `task_authority_epochs`. -/
structure Store where
  tasks : List TaskRow
  distinct : (tasks.map TaskRow.id).Nodup
  stops : List StopRequestRow
  occurrences : List Id
  floors : Id → Option Int

def Store.getTask (s : Store) (id : Id) : Option TaskRow := s.tasks.find? fun row => row.id == id

/-! ## UPDATE -/

structure Edit where
  apply : TaskRow → TaskRow
  keepsId : ∀ row, (apply row).id = row.id := by intro row; rfl
  keepsParent : ∀ row, (apply row).parentTaskId = row.parentTaskId := by intro row; rfl

/-- The WHEN clause of `task_authority_revision_v1`, over the authority columns the
model carries. -/
def authorityChanged (old new : TaskRow) : Bool :=
  old.title != new.title || old.description != new.description ||
    old.assignedTo != new.assignedTo || old.tags != new.tags || old.dependsOn != new.dependsOn ||
    old.maxRetries != new.maxRetries || old.goalMode != new.goalMode ||
    old.acceptanceCriteria != new.acceptanceCriteria || old.costCapCents != new.costCapCents ||
    old.kind != new.kind || old.archived != new.archived || old.retryCount != new.retryCount ||
    old.revisionRound != new.revisionRound ||
    (old.claimedBy.isSome && old.claimedBy != new.claimedBy) ||
    (old.status != new.status && !(([Status.todo, .pending, .revising, .queued,
        .pendingApproval].contains old.status && new.status == .inProgress) ||
      (old.status == .inProgress && new.status == .review)))

/-- The trigger: a changed row gets the next revision, above its floor. -/
def Store.fire (s : Store) (old new : TaskRow) : TaskRow :=
  if authorityChanged old new then
    { new with authorityRevision := max (old.authorityRevision + 1) ((s.floors new.id).getD 1) }
  else new

/-- The row an UPDATE leaves behind. -/
def Store.rewrite (s : Store) (sel : TaskRow → Bool) (edit : Edit) (row : TaskRow) : TaskRow :=
  if sel row then s.fire row (edit.apply row) else row

variable {s : Store} {id : Id} {row : TaskRow}

@[simp] theorem Store.fire_id (s : Store) (old new : TaskRow) : (s.fire old new).id = new.id := by
  unfold Store.fire
  split <;> rfl

@[simp] theorem Store.fire_parentTaskId (s : Store) (old new : TaskRow) :
    (s.fire old new).parentTaskId = new.parentTaskId := by
  unfold Store.fire
  split <;> rfl

@[simp] theorem Store.fire_status (s : Store) (old new : TaskRow) : (s.fire old new).status = new.status := by
  unfold Store.fire
  split <;> rfl

@[simp] theorem Store.fire_claimedBy (s : Store) (old new : TaskRow) :
    (s.fire old new).claimedBy = new.claimedBy := by
  unfold Store.fire
  split <;> rfl

@[simp] theorem Store.rewrite_id (s : Store) (sel : TaskRow → Bool) (edit : Edit) (row : TaskRow) :
    (s.rewrite sel edit row).id = row.id := by
  unfold Store.rewrite
  split
  · rw [Store.fire_id, edit.keepsId]
  · rfl

@[simp] theorem Store.rewrite_parentTaskId (s : Store) (sel : TaskRow → Bool) (edit : Edit)
    (row : TaskRow) : (s.rewrite sel edit row).parentTaskId = row.parentTaskId := by
  unfold Store.rewrite
  split
  · rw [Store.fire_parentTaskId, edit.keepsParent]
  · rfl

/-- `UPDATE tasks SET .. WHERE ..`, with its triggers. -/
def Store.updateWhere (s : Store) (sel : TaskRow → Bool) (edit : Edit) : Store where
  tasks := s.tasks.map (s.rewrite sel edit)
  distinct := by
    rw [List.map_map, show TaskRow.id ∘ s.rewrite sel edit = TaskRow.id by funext row; simp]
    exact s.distinct
  stops := s.stops
  occurrences := s.occurrences
  floors id :=
    match (s.tasks.find? fun row => row.id == id) with
    | some row =>
      let new := s.rewrite sel edit row
      if new.authorityRevision = row.authorityRevision then s.floors id
      else some (max ((s.floors id).getD new.authorityRevision) new.authorityRevision)
    | none => s.floors id

def Store.changes (s : Store) (sel : TaskRow → Bool) : Nat := s.tasks.countP sel

theorem Store.getTask_mem (found : s.getTask id = some row) : row ∈ s.tasks ∧ row.id = id :=
  ⟨List.mem_of_find?_eq_some found, by simpa using List.find?_some found⟩

theorem Store.getTask_of_mem (listed : row ∈ s.tasks) : s.getTask row.id = some row := by
  cases found : s.getTask row.id with
  | none =>
    rw [Store.getTask, List.find?_eq_none] at found
    simpa using found row listed
  | some other =>
    obtain ⟨otherListed, sameId⟩ := Store.getTask_mem found
    rw [List.inj_on_of_nodup_map s.distinct otherListed listed sameId]

/-- **An UPDATE rewrites the selected rows and nothing else.** -/
theorem updateWhere_get (s : Store) (sel : TaskRow → Bool) (edit : Edit) (id : Id) :
    (s.updateWhere sel edit).getTask id = (s.getTask id).map (s.rewrite sel edit) := by
  have keys : ((fun row : TaskRow => row.id == id) ∘ s.rewrite sel edit) =
      fun row => row.id == id := by
    funext row
    simp
  simp only [Store.getTask, Store.updateWhere, List.find?_map, keys]

/-! ## Ancestry -/

/-- `anc`: a task and its ancestors, `depth` levels up. -/
def Store.ancestors (s : Store) : Nat → Id → List Id
  | 0, id => [id]
  | depth + 1, id =>
    id :: match (s.getTask id).bind TaskRow.parentTaskId with
      | some parent => s.ancestors depth parent
      | none => []

def stopAncestryDepth : Nat := 64

def stopTreeLimit : Nat := 500

def stopTreeScanLimit : Nat := 5000

/-- `in_stop_tree`: the task or one of its ancestors has a stop request. -/
def Store.inStopTree (s : Store) (id : Id) : Bool :=
  (s.ancestors stopAncestryDepth id).any fun anc => s.stops.any fun stop => stop.rootTaskId == anc

theorem ancestors_of_tasks {t : Store} (same : t.tasks = s.tasks) (depth : Nat) (id : Id) :
    t.ancestors depth id = s.ancestors depth id := by
  induction depth generalizing id with
  | zero => rfl
  | succ depth ih =>
    have parents : t.getTask id = s.getTask id := by simp only [Store.getTask, same]
    simp only [Store.ancestors, parents]
    cases (s.getTask id).bind TaskRow.parentTaskId with
    | none => rfl
    | some parent => simp [ih]

/-- **No UPDATE moves a task in the tree.** -/
theorem ancestors_updateWhere (s : Store) (sel : TaskRow → Bool) (edit : Edit) (depth : Nat)
    (id : Id) : (s.updateWhere sel edit).ancestors depth id = s.ancestors depth id := by
  induction depth generalizing id with
  | zero => rfl
  | succ depth ih =>
    have parents : ((s.updateWhere sel edit).getTask id).bind TaskRow.parentTaskId =
        (s.getTask id).bind TaskRow.parentTaskId := by
      rw [updateWhere_get]
      cases s.getTask id with
      | none => rfl
      | some row => simp
    simp only [Store.ancestors, parents]
    cases (s.getTask id).bind TaskRow.parentTaskId with
    | none => rfl
    | some parent => simp [ih]

theorem inStopTree_of_ancestor {root : Id} (below : root ∈ s.ancestors stopAncestryDepth id)
    (requested : ∃ stop ∈ s.stops, stop.rootTaskId = root) : s.inStopTree id := by
  obtain ⟨stop, listed, rfl⟩ := requested
  exact List.any_eq_true.mpr ⟨_, below, List.any_eq_true.mpr ⟨stop, listed, by simp⟩⟩

end DuDuClaw.TaskStore
