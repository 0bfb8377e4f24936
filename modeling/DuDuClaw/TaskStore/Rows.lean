/-
# TaskStore.Rows -- every statement that writes a task

The operations of a run of the whole store: those of `Op`, the remaining writers of
`tasks` (hand-off, takeover, discovery runs, corrected summaries), `insert_task` and
`remove_task`.  `touch` stands for the writers of columns the model does not carry.

`Op.Rewrites` and `RowOp.Rewrites` say once what an operation can make of a row, with the
WHERE clause that let it; `RowOp.perform_becomes` is that nothing else happens.  What the
store keeps over a run is read off from them.
-/
import DuDuClaw.TaskStore.Membership

namespace DuDuClaw.TaskStore

open DuDuClaw.Lib

/-! ## The remaining writers -/

/-- `claim_needs_human_checked`. -/
def Store.claimNeedsHuman (s : Store) (id : Id) (decider : Text) (expected : Option Text)
    (now : Text) : Except TaskError Bool × Store :=
  if !s.revisionMatches id expected then (.error .revisionMismatch, s)
  else
    let sel := inStatus id .needsHuman
    (.ok (s.changes sel == 1), s.updateWhere sel
      { apply := fun row => { row with claimedBy := some decider, updatedAt := now } })

/-- `claim_conversation_tasks`; `conversation` lists the tasks whose source is the chat. -/
def Store.claimConversationTasks (s : Store) (conversation : List Id) (decider now : Text) :
    List Id × Store :=
  let sel row := conversation.contains row.id && row.isWork && row.goalMode &&
    !row.status.isTerminal && row.claimedBy.all (· == decider)
  ((s.tasks.filter sel).map TaskRow.id, s.updateWhere sel
    { apply := fun row => { row with claimedBy := some decider, updatedAt := now } })

def Store.claimTask (s : Store) (id : Id) (agentId now : Text) : Bool × Store :=
  let sel row := row.id == id && row.assignedTo == [] && row.isWork
  (s.changes sel != 0, s.updateWhere sel
    { apply := fun row => { row with assignedTo := agentId, updatedAt := now } })

def Store.reassignOpenTasks (s : Store) (fromAgent toAgent now : Text) : Nat × Store :=
  let sel row := row.assignedTo == fromAgent && row.status != .done && row.isWork &&
    !s.occurrences.contains row.id
  (s.changes sel, s.updateWhere sel
    { apply := fun row => { row with
        assignedTo := toAgent
        claimedBy := if row.claimedBy = some fromAgent then some toAgent else row.claimedBy
        updatedAt := now } })

/-- `id = ?1 AND kind = 'discovery' AND status IN ..`. -/
def discoveryIn (id : Id) (statuses : List Status) (row : TaskRow) : Bool :=
  row.id == id && row.kind == .discovery && statuses.contains row.status

/-- `authorize_discovery`; `approved` is whether the row waits for this approval. -/
def Store.authorizeDiscovery (s : Store) (id : Id) (approved : Bool) (now : Text) : Bool × Store :=
  let sel row := discoveryIn id [.pendingApproval] row && approved
  (s.changes sel == 1, s.updateWhere sel
    { apply := fun row => { row with status := .queued, updatedAt := now } })

def Store.claimDiscovery (s : Store) (id : Id) (worker expiry now : Text) : Bool × Store :=
  let sel row := discoveryIn id [.queued] row && row.claimedBy.isNone && !row.archived
  (s.changes sel == 1, s.updateWhere sel
    { apply := fun row => { row with
        status := .inProgress, claimedBy := some worker, claimedAt := some now
        leaseRenewedAt := some now, leaseExpiresAt := some expiry, updatedAt := now } })

variable {s : Store} {rewrites : TaskRow → TaskRow → Prop} {env : InsertEnv} {task : NewTask}

theorem renewed_id (expiry now : Text) (row : TaskRow) :
    { row with leaseRenewedAt := some now, leaseExpiresAt := some expiry, updatedAt := now }.id = row.id := rfl

theorem renewed_parent (expiry now : Text) (row : TaskRow) :
    { row with
      leaseRenewedAt := some now, leaseExpiresAt := some expiry, updatedAt := now }.parentTaskId =
      row.parentTaskId := rfl

def Store.renewDiscovery (s : Store) (id : Id) (worker expiry now : Text) : Bool × Store :=
  let sel row := discoveryIn id [.inProgress] row && row.claimedBy == some worker
  (s.changes sel == 1, s.updateWhere sel
    { apply := fun row => { row with
        leaseRenewedAt := some now, leaseExpiresAt := some expiry, updatedAt := now }
      keepsId := renewed_id expiry now
      keepsParent := renewed_parent expiry now })

def Store.finishDiscovery (s : Store) (id : Id) (worker : Text) (success : Bool)
    (summary now : Text) : Bool × Store :=
  let sel row := discoveryIn id [.inProgress] row && row.claimedBy == some worker
  (s.changes sel == 1, s.updateWhere sel
    { apply := fun row => { row with
        status := if success then .done else .failed, resultSummary := some summary
        completedAt := some now, updatedAt := now, leaseExpiresAt := none } })

def Store.interruptDiscovery (s : Store) (id : Id) (scannedExpiry now : Text) : Bool × Store :=
  let sel row := discoveryIn id [.inProgress] row && row.leaseExpiresAt == some scannedExpiry
  (s.changes sel == 1, s.updateWhere sel
    { apply := fun row => { row with
        status := .failed
        blockedReason := some "discovery interrupted; create a new run to retry".toList
        leaseExpiresAt := none, updatedAt := now } })

/-- The UPDATE of `cancel_discovery` and `cancel_pending_discovery`. -/
def Store.cancelDiscoveryIn (s : Store) (statuses : List Status) (id : Id) (reason now : Text) :
    Bool × Store :=
  let sel := discoveryIn id statuses
  (s.changes sel == 1, s.updateWhere sel
    { apply := fun row => { row with
        status := .cancelled, blockedReason := some reason, updatedAt := now
        completedAt := some now } })

def Store.cancelDiscovery (s : Store) (id : Id) (reason now : Text) : Bool × Store :=
  s.cancelDiscoveryIn [.pendingApproval, .queued, .inProgress] id reason now

def Store.cancelPendingDiscovery (s : Store) (id : Id) (reason now : Text) : Bool × Store :=
  s.cancelDiscoveryIn [.pendingApproval] id reason now

def Store.rewriteResultSummary (env : Env) (s : Store) (id : Id) (expected replacement : Text) :
    Bool × Store :=
  let sel row := row.id == id && row.resultSummary == some expected
  (s.changes sel != 0, s.updateWhere sel
    { apply := fun row => { row with resultSummary := some (env.maskDerivedText replacement) } })

/-- `set_goal_state_json`, `merge_goal_state_json` and `freeze_team_spec`, of whose
columns the model has the time of the last change. -/
def Store.touch (s : Store) (id : Id) (now : Text) : Store :=
  s.updateWhere (fun row => row.id == id) { apply := fun row => { row with updatedAt := now } }

/-! ## Operations -/

/-- The operations that rewrite rows in place. -/
inductive RowOp where
  | edit (op : Op)
  | claimNeedsHuman (id : Id) (decider : Text) (expected : Option Text) (now : Text)
  | claimConversationTasks (conversation : List Id) (decider now : Text)
  | claimTask (id : Id) (agentId now : Text)
  | reassignOpenTasks (fromAgent toAgent now : Text)
  | authorizeDiscovery (id : Id) (approved : Bool) (now : Text)
  | claimDiscovery (id : Id) (worker expiry now : Text)
  | renewDiscovery (id : Id) (worker expiry now : Text)
  | finishDiscovery (id : Id) (worker : Text) (success : Bool) (summary now : Text)
  | interruptDiscovery (id : Id) (scannedExpiry now : Text)
  | cancelDiscovery (id : Id) (reason now : Text)
  | cancelPendingDiscovery (id : Id) (reason now : Text)
  | rewriteResultSummary (id : Id) (expected replacement : Text)
  | touch (id : Id) (now : Text)

def RowOp.perform (env : Env) (s : Store) : RowOp → Store
  | .edit op => op.perform env s
  | .claimNeedsHuman id decider expected now => (s.claimNeedsHuman id decider expected now).2
  | .claimConversationTasks conversation decider now =>
    (s.claimConversationTasks conversation decider now).2
  | .claimTask id agentId now => (s.claimTask id agentId now).2
  | .reassignOpenTasks fromAgent toAgent now => (s.reassignOpenTasks fromAgent toAgent now).2
  | .authorizeDiscovery id approved now => (s.authorizeDiscovery id approved now).2
  | .claimDiscovery id worker expiry now => (s.claimDiscovery id worker expiry now).2
  | .renewDiscovery id worker expiry now => (s.renewDiscovery id worker expiry now).2
  | .finishDiscovery id worker success summary now =>
    (s.finishDiscovery id worker success summary now).2
  | .interruptDiscovery id scannedExpiry now => (s.interruptDiscovery id scannedExpiry now).2
  | .cancelDiscovery id reason now => (s.cancelDiscovery id reason now).2
  | .cancelPendingDiscovery id reason now => (s.cancelPendingDiscovery id reason now).2
  | .rewriteResultSummary id expected replacement =>
    (s.rewriteResultSummary env id expected replacement).2
  | .touch id now => s.touch id now

inductive StoreOp where
  | row (op : RowOp)
  | insert (task : NewTask)
  | remove (id : Id)

def StoreOp.perform (env : InsertEnv) (s : Store) : StoreOp → Store
  | .row op => op.perform env.toEnv s
  | .insert task => (s.insertTask env task).2
  | .remove id => (s.removeTask id).2

/-! ## What an operation makes of a row -/

/-- Every row of `t` is that row of `s`, or what `rewrites` makes of it, after the trigger. -/
structure Store.Becomes (s t : Store) (rewrites : TaskRow → TaskRow → Prop) : Prop where
  absent : ∀ id, s.getTask id = none → t.getTask id = none
  present : ∀ id row, s.getTask id = some row →
    t.getTask id = some row ∨ ∃ new, rewrites row new ∧ t.getTask id = some (s.fire row new)

theorem Store.Becomes.refl (s : Store) (rewrites : TaskRow → TaskRow → Prop) : s.Becomes s rewrites :=
  ⟨fun _ missing => missing, fun _ _ found => .inl found⟩

theorem Store.Becomes.update {sel : TaskRow → Bool} {edit : Edit}
    (allowed : ∀ row, s.getTask row.id = some row → sel row = true → rewrites row (edit.apply row)) :
    s.Becomes (s.updateWhere sel edit) rewrites where
  absent id missing := by rw [updateWhere_get, missing, Option.map_none]
  present id row found := by
    obtain ⟨-, rfl⟩ := Store.getTask_mem found
    rw [updateWhere_get, found, Option.map_some]
    by_cases selected : sel row = true
    · exact .inr ⟨_, allowed row found selected, by rw [Store.rewrite, if_pos selected]⟩
    · exact .inl (by rw [Store.rewrite, if_neg selected])

/-- What is left of `s` after a further stop request. -/
theorem Store.Becomes.request {t : Store} (becomes : s.Becomes t rewrites) (stops : List StopRequestRow) :
    s.Becomes { t with stops := stops } rewrites :=
  ⟨becomes.absent, becomes.present⟩

/-- The row `new` an operation of `Op` can make of `row`. -/
def Op.Rewrites (env : Env) (s : Store) (op : Op) (row new : TaskRow) : Prop :=
  match op with
  | .claim id agentId now lease =>
    claimable id row = true ∧ s.inStopTree id = false ∧
      new = (claimEdit agentId now lease).apply row
  | .renewLease id agentId expiry now =>
    heldBy id agentId row = true ∧ new = { row with
      leaseExpiresAt := some expiry, leaseRenewedAt := some now, updatedAt := now }
  | .requeueZombie id claimer lease retry now =>
    heldBy id claimer row = true ∧ row.leaseExpiresAt = some lease ∧ new = { row with
      status := .pending, claimedBy := none, claimedAt := none, leaseExpiresAt := none
      retryCount := retry, updatedAt := now }
  | .failZombie id claimer lease now =>
    heldBy id claimer row = true ∧ row.leaseExpiresAt = some lease ∧ new = { row with
      status := .failed, leaseExpiresAt := none
      blockedReason := some "lease expired; retry budget exhausted".toList, updatedAt := now }
  | .complete id summary caller now =>
    unfinished id row = true ∧ s.inStopTree id = false ∧
      row.claimedBy.any (· != caller) = false ∧
      new = if row.goalMode then
        { row with
          status := .review, resultSummary := some (env.maskDerivedText summary)
          leaseExpiresAt := none, updatedAt := now }
      else
        { row with
          status := .done, resultSummary := some (env.maskDerivedText summary)
          completedAt := some now, leaseExpiresAt := none, updatedAt := now }
  | .acceptReview id feedback now =>
    inStatus id .review row = true ∧ new = { row with
      status := .done, completedAt := some now
      judgeFeedback := some (env.maskDerivedText feedback), updatedAt := now }
  | .rejectReview read id feedback softCap now =>
    inStatus id .review row = true ∧ ∃ seen, read = some seen ∧
      new = if seen.retryCount < seen.maxRetries then
        { row with
          status := .revising, claimedBy := none, claimedAt := none, leaseExpiresAt := none
          retryCount := seen.retryCount + 1, revisionRound := seen.revisionRound + 1
          diminishing := max softCap 1 ≤ seen.revisionRound + 1
          judgeFeedback := some (env.maskDerivedText feedback)
          resultSummary := none, updatedAt := now }
      else
        { row with
          status := .needsHuman, judgeFeedback := some (env.maskDerivedText feedback)
          pauseReason := some "budget_exhausted".toList, updatedAt := now }
  | .markNeedsHuman id reason pause now =>
    openTask id row = true ∧ new = { row with
      status := .needsHuman, judgeFeedback := some (env.maskDerivedText reason)
      pauseReason := some pause, updatedAt := now }
  | .resolveNeedsHuman id decision note _ now =>
    inStatus id .needsHuman row = true ∧ ∃ edit, resolveEdit env note now decision = .ok edit ∧
      new = edit.apply row
  | .continueFromTerminal id message _ now =>
    row.id = id ∧ row.isWork = true ∧ row.status.isTerminal = true ∧ row.goalMode = true ∧
      s.occurrences.contains id = false ∧ s.inStopTree id = false ∧ new = { row with
        status := .pending, claimedBy := none, claimedAt := none, leaseExpiresAt := none
        resultSummary := none, completedAt := none
        judgeFeedback := some (env.maskDerivedText (continueMessagePrefix ++ trim message))
        updatedAt := now }
  | .cancel id reason now =>
    openTask id row = true ∧ new = { row with
      status := .cancelled, judgeFeedback := some (env.maskDerivedText reason)
      updatedAt := now }
  | .update id fields employeeDefaultCap now =>
    row.id = id ∧ ∃ costCap, s.checkUpdate id fields employeeDefaultCap = .ok costCap ∧
      new = (updateEdit env fields costCap now).apply row
  | .stopTree _ _ _ _ now | .sweep _ now =>
    row.isWork = true ∧ row.status.isTerminal = false ∧ new = { row with
      status := .cancelled, judgeFeedback := some "stopped by operator".toList
      pauseReason := none, updatedAt := now }

theorem cancelStopped_becomes (s : Store) (ids : List Id) (now : Text) :
    s.Becomes (s.cancelStopped ids now) fun row new =>
      row.isWork = true ∧ row.status.isTerminal = false ∧ new = { row with
        status := .cancelled, judgeFeedback := some "stopped by operator".toList
        pauseReason := none, updatedAt := now } := by
  refine .update fun row _ selected => ?_
  simp only [Bool.and_eq_true, Bool.not_eq_eq_eq_not, Bool.not_true] at selected
  exact ⟨selected.1.2, selected.2, rfl⟩

theorem atomicClaim_becomes (env : Env) (s : Store) (id : Id) (agentId now lease : Text) :
    s.Becomes (s.atomicClaim id agentId now lease).2
      ((Op.claim id agentId now lease).Rewrites env s) := by
  unfold Store.atomicClaim
  split
  · exact .refl s _
  split
  · exact .refl s _
  split
  · exact .refl s _
  rename_i outside
  split
  · exact .refl s _
  · exact .update fun row _ selected => ⟨selected, by simpa using outside, rfl⟩

theorem completeTask_becomes (env : Env) (s : Store) (id : Id) (summary caller now : Text) :
    s.Becomes (s.completeTask env id summary caller now).2
      ((Op.complete id summary caller now).Rewrites env s) := by
  unfold Store.completeTask
  split
  · exact .refl s _
  rename_i found
  split
  · exact .refl s _
  rename_i outside
  split
  · exact .refl s _
  rename_i holder
  -- the statement names its row by id, so it writes the row that was read
  refine .update fun other listed selected => ?_
  have named : other.id = id := by
    simp only [unfinished, Bool.and_eq_true, beq_iff_eq] at selected
    exact selected.1.1
  have same : s.getTask id = some other := named ▸ listed
  rw [same, Option.filter_eq_some_iff] at found
  obtain ⟨isRow, -⟩ := found
  cases isRow
  refine ⟨selected, by simpa using outside, by simpa using holder, ?_⟩
  split
  · rfl
  · rfl

theorem rejectReview_becomes (env : Env) (s : Store) (read : Option TaskRow) (id : Id)
    (feedback : Text) (softCap : Int) (now : Text) :
    s.Becomes (s.rejectReview env read id feedback softCap now).2
      ((Op.rejectReview read id feedback softCap now).Rewrites env s) := by
  unfold Store.rejectReview
  split
  · exact .refl s _
  rename_i seen
  split
  · rename_i left
    exact .update fun row _ selected => ⟨selected, seen, rfl, by rw [if_pos left]⟩
  · rename_i spent
    exact .update fun row _ selected => ⟨selected, seen, rfl, by rw [if_neg spent]⟩

theorem resolveNeedsHuman_becomes (env : Env) (s : Store) (id : Id) (decision : Decision)
    (note : Text) (expected : Option Text) (now : Text) :
    s.Becomes (s.resolveNeedsHuman env id decision note expected now).2
      ((Op.resolveNeedsHuman id decision note expected now).Rewrites env s) := by
  unfold Store.resolveNeedsHuman
  split
  · exact .refl s _
  split
  · exact .refl s _
  · rename_i edit decided
    exact .update fun row _ selected => ⟨selected, edit, decided, rfl⟩

theorem continueFromTerminal_becomes (env : Env) (s : Store) (id : Id) (message : Text)
    (expected : Option Text) (now : Text) : s.Becomes (s.continueFromTerminal env id message expected now).2
      ((Op.continueFromTerminal id message expected now).Rewrites env s) := by
  unfold Store.continueFromTerminal
  split
  · exact .refl s _
  split
  · exact .refl s _
  split
  · exact .refl s _
  rename_i outside
  refine .update fun row _ selected => ?_
  simp only [Bool.and_eq_true, beq_iff_eq, Bool.not_eq_eq_eq_not, Bool.not_true] at selected
  obtain ⟨⟨⟨⟨named, work⟩, terminal⟩, goal⟩, free⟩ := selected
  exact ⟨named, work, terminal, goal, free, by simpa using outside, rfl⟩

theorem updateTask_becomes (env : Env) (s : Store) (id : Id) (fields : TaskFields)
    (employeeDefaultCap : Option Nat) (now : Text) :
    s.Becomes (s.updateTask env id fields employeeDefaultCap now).2
      ((Op.update id fields employeeDefaultCap now).Rewrites env s) := by
  unfold Store.updateTask
  split
  · exact .refl s _
  · rename_i costCap accepted
    exact .update fun row _ selected => ⟨by simpa using selected, costCap, accepted, rfl⟩

theorem stopTaskTree_becomes (env : Env) (s : Store) (root : Id) (revision : Int)
    (requestedBy : Text) (countsAsFailure : Bool) (now : Text) :
    s.Becomes (s.stopTaskTree root revision requestedBy countsAsFailure now).2
      ((Op.stopTree root revision requestedBy countsAsFailure now).Rewrites env s) := by
  unfold Store.stopTaskTree
  split
  · exact .refl s _
  split
  · exact .refl s _
  split
  · exact .refl s _
  · split
    · exact .refl s _
    · exact (cancelStopped_becomes s _ now).request _

/-- **What an operation of `Op` does to the rows.** -/
theorem Op.perform_becomes (env : Env) (s : Store) (op : Op) :
    s.Becomes (op.perform env s) (op.Rewrites env s) := by
  cases op with
  | claim id agentId now lease => exact atomicClaim_becomes env s id agentId now lease
  | renewLease id agentId expiry now | acceptReview id feedback now
  | markNeedsHuman id reason pause now | cancel id reason now => exact .update fun row _ selected => ⟨selected, rfl⟩
  | requeueZombie id claimer lease retry now | failZombie id claimer lease now =>
    refine .update fun row _ selected => ?_
    rw [Bool.and_eq_true, beq_iff_eq] at selected
    exact ⟨selected.1, selected.2, rfl⟩
  | complete id summary caller now => exact completeTask_becomes env s id summary caller now
  | rejectReview read id feedback softCap now =>
    exact rejectReview_becomes env s read id feedback softCap now
  | resolveNeedsHuman id decision note expected now =>
    exact resolveNeedsHuman_becomes env s id decision note expected now
  | continueFromTerminal id message expected now =>
    exact continueFromTerminal_becomes env s id message expected now
  | update id fields cap now => exact updateTask_becomes env s id fields cap now
  | stopTree root revision requestedBy countsAsFailure now =>
    exact stopTaskTree_becomes env s root revision requestedBy countsAsFailure now
  | sweep ids now => exact cancelStopped_becomes s _ now

/-- The row `new` an operation can make of `row`.  Outside `Op` only the discovery runs
write a status, and only to discovery tasks. -/
def RowOp.Rewrites (env : Env) (s : Store) (op : RowOp) (row new : TaskRow) : Prop :=
  match op with
  | .edit op => op.Rewrites env s row new
  | .claimNeedsHuman id decider _ now =>
    inStatus id .needsHuman row = true ∧
      new = { row with claimedBy := some decider, updatedAt := now }
  | .claimConversationTasks _ decider now =>
    row.status.isTerminal = false ∧
      new = { row with claimedBy := some decider, updatedAt := now }
  | .claimTask id agentId now =>
    row.id = id ∧ new = { row with assignedTo := agentId, updatedAt := now }
  | .reassignOpenTasks fromAgent toAgent now =>
    row.status ≠ .done ∧ new = { row with
      assignedTo := toAgent
      claimedBy := if row.claimedBy = some fromAgent then some toAgent else row.claimedBy
      updatedAt := now }
  | .authorizeDiscovery id _ now =>
    discoveryIn id [.pendingApproval] row = true ∧
      new = { row with status := .queued, updatedAt := now }
  | .claimDiscovery id worker expiry now =>
    discoveryIn id [.queued] row = true ∧ new = { row with
      status := .inProgress, claimedBy := some worker, claimedAt := some now
      leaseRenewedAt := some now, leaseExpiresAt := some expiry, updatedAt := now }
  | .renewDiscovery id _ expiry now =>
    discoveryIn id [.inProgress] row = true ∧ new = { row with
      leaseRenewedAt := some now, leaseExpiresAt := some expiry, updatedAt := now }
  | .finishDiscovery id _ success summary now =>
    discoveryIn id [.inProgress] row = true ∧ new = { row with
      status := if success then .done else .failed, resultSummary := some summary
      completedAt := some now, updatedAt := now, leaseExpiresAt := none }
  | .interruptDiscovery id _ now =>
    discoveryIn id [.inProgress] row = true ∧ new = { row with
      status := .failed
      blockedReason := some "discovery interrupted; create a new run to retry".toList
      leaseExpiresAt := none, updatedAt := now }
  | .cancelDiscovery id reason now =>
    discoveryIn id [.pendingApproval, .queued, .inProgress] row = true ∧ new = { row with
      status := .cancelled, blockedReason := some reason, updatedAt := now
      completedAt := some now }
  | .cancelPendingDiscovery id reason now =>
    discoveryIn id [.pendingApproval] row = true ∧ new = { row with
      status := .cancelled, blockedReason := some reason, updatedAt := now
      completedAt := some now }
  | .rewriteResultSummary id _ replacement =>
    row.id = id ∧ new = { row with resultSummary := some (env.maskDerivedText replacement) }
  | .touch id now => row.id = id ∧ new = { row with updatedAt := now }

/-- **What an operation does to the rows.** -/
theorem RowOp.perform_becomes (env : Env) (s : Store) (op : RowOp) :
    s.Becomes (op.perform env s) (op.Rewrites env s) := by
  cases op with
  | edit op => exact op.perform_becomes env s
  | claimNeedsHuman id decider expected now =>
    simp only [RowOp.perform, Store.claimNeedsHuman]
    split
    · exact .refl s _
    · exact .update fun row _ selected => ⟨selected, rfl⟩
  | claimConversationTasks conversation decider now =>
    refine .update fun row _ selected => ⟨?_, rfl⟩
    simp only [Bool.and_eq_true, Bool.not_eq_eq_eq_not, Bool.not_true] at selected
    exact selected.1.2
  | claimTask id agentId now =>
    refine .update fun row _ selected => ⟨?_, rfl⟩
    simp only [Bool.and_eq_true, beq_iff_eq] at selected
    exact selected.1.1
  | reassignOpenTasks fromAgent toAgent now =>
    refine .update fun row _ selected => ⟨?_, rfl⟩
    simp only [Bool.and_eq_true, bne_iff_ne] at selected
    exact selected.1.1.2
  | authorizeDiscovery id approved now | renewDiscovery id worker expiry now
  | finishDiscovery id worker success summary now | interruptDiscovery id scannedExpiry now =>
    refine .update fun row _ selected => ⟨?_, rfl⟩
    rw [Bool.and_eq_true] at selected
    exact selected.1
  | claimDiscovery id worker expiry now =>
    refine .update fun row _ selected => ⟨?_, rfl⟩
    rw [Bool.and_eq_true, Bool.and_eq_true] at selected
    exact selected.1.1
  | cancelDiscovery id reason now | cancelPendingDiscovery id reason now => exact .update fun row _ selected => ⟨selected, rfl⟩
  | rewriteResultSummary id expected replacement =>
    refine .update fun row _ selected => ⟨?_, rfl⟩
    rw [Bool.and_eq_true, beq_iff_eq] at selected
    exact selected.1
  | touch id now => exact .update fun row _ selected => ⟨by simpa using selected, rfl⟩

/-! ## Inserting and removing -/

/-- What `insert_task` asks of a new row: the checks on the row and on its parent, a new
id, and the trigger on the owner. -/
def Store.accepts (env : InsertEnv) (s : Store) (task : NewTask) : Bool :=
  (task.check env).isOk && (s.checkParent task.row.parentTaskId).isOk &&
    (s.getTask task.row.id).isNone && !task.ownerRefused

theorem insertTask_refused (refused : s.accepts env task = false) : (s.insertTask env task).2 = s := by
  unfold Store.insertTask
  split
  · rfl
  rename_i checked
  split
  · rfl
  rename_i parent
  split
  · rename_i fresh
    have free : s.getTask task.row.id = none := fresh
    split
    · rfl
    · rename_i owner
      simp [Store.accepts, checked, parent, free, owner, Except.isOk, Except.toBool] at refused
  · rfl

/-- **What an accepted insert does**: one more row under a new id, stored as given but
for the masked texts, the kind and the revision. -/
theorem insertTask_accepted (accepted : s.accepts env task = true) : s.getTask task.row.id = none ∧
      ∀ id, (s.insertTask env task).2.getTask id =
        if id = task.row.id then some (s.insertedRow env.toEnv task.row) else s.getTask id := by
  simp only [Store.accepts, Bool.and_eq_true, Option.isNone_iff_eq_none,
    Bool.not_eq_eq_eq_not, Bool.not_true] at accepted
  obtain ⟨⟨⟨checked, parent⟩, free⟩, owner⟩ := accepted
  refine ⟨free, fun id => ?_⟩
  have fresh : s.getTask (s.insertedRow env.toEnv task.row).id = none := free
  have inserted : (s.insertTask env task).2 = s.withRow (s.insertedRow env.toEnv task.row) fresh := by
    unfold Store.insertTask
    split
    · rename_i refused
      rw [refused] at checked
      cases checked
    split
    · rename_i refused
      rw [refused] at parent
      cases parent
    · rw [dif_pos fresh, if_neg (by simp [owner])]
  rw [inserted, Store.withRow_getTask]
  rfl

/-- **What a removal does**: a row is there as it was, or gone. -/
theorem removeTask_row (s : Store) (id other : Id) : (s.removeTask id).2.getTask other = s.getTask other ∨
      other = id ∧ (s.removeTask id).2.getTask other = none := by
  rcases s.removeTask_cases id with same | removed
  · exact .inl (by rw [same])
  rw [removed, Store.without_getTask]
  cases found : s.getTask other with
  | none => exact .inl rfl
  | some row =>
    rw [Option.filter_some]
    by_cases gone : removable id row = true
    · refine .inr ⟨?_, by simp [gone]⟩
      rw [removable, Bool.and_eq_true, beq_iff_eq] at gone
      exact (Store.getTask_mem found).2.symm.trans gone.1
    · exact .inl (by simp [gone])

end DuDuClaw.TaskStore
