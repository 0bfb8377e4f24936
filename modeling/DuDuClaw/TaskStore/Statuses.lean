/-
# TaskStore.Statuses -- what the status column promises

Two laws over runs of the whole store, each read off from what an operation makes of a
row (`RowOp.Rewrites`).

A finished task stays as it finished.  `complete_task` guards against `done` and
`cancelled` only, and a reclaimed task that failed keeps its holder, so a late holder can
still complete it.

A pause reason says why a task waits for a human.  `complete_task`, `cancel_task` and a
status given to `update_task` take the task out of `needs_human` and leave the reason.

* `terminal_stays_terminal`: without such a completion a finished task keeps its status
  until it is continued, given a status, or removed.
* `pause_reason_iff`: the coupling holds in every state of a run exactly when no operation
  takes a paused task out of `needs_human` that way, and none is inserted out of it.
-/
import DuDuClaw.TaskStore.Rows

namespace DuDuClaw.TaskStore

open DuDuClaw.Lib

/-! ## The WHERE clauses -/

variable {id : Id} {row : TaskRow}

variable {status : Status} {statuses : List Status} {s : Store} {op : RowOp} {new : TaskRow}

theorem claimable_open (guard : claimable id row = true) : row.status = .pending ∨ row.status = .revising := by
  simp only [claimable, Bool.and_eq_true, Bool.or_eq_true, beq_iff_eq] at guard
  exact guard.1.2

theorem heldBy_inProgress {agent : Text} (guard : heldBy id agent row = true) : row.status = .inProgress := by
  simp only [heldBy, Bool.and_eq_true, beq_iff_eq] at guard
  exact guard.2

theorem inStatus_status (guard : inStatus id status row = true) : row.status = status := by
  simp only [inStatus, Bool.and_eq_true, beq_iff_eq] at guard
  exact guard.2

theorem openTask_open (guard : openTask id row = true) : row.status.isTerminal = false := by
  simp only [openTask, Bool.and_eq_true, Bool.not_eq_eq_eq_not, Bool.not_true] at guard
  exact guard.2

theorem discoveryIn_mem (guard : discoveryIn id statuses row = true) : row.status ∈ statuses := by
  simp only [discoveryIn, Bool.and_eq_true, List.contains_iff_mem] at guard
  exact guard.2

theorem discoveryIn_running
    (guard : discoveryIn id statuses row = true) (among : statuses ⊆ [.pendingApproval, .queued, .inProgress]) :
    row.status.isTerminal = false ∧ row.status ≠ .needsHuman := by
  have listed := among (discoveryIn_mem guard)
  simp only [List.mem_cons, List.not_mem_nil, or_false] at listed
  rcases listed with is | is | is <;> simp [is, Status.isTerminal]

/-! ## Finished tasks -/

/-- The operation may give the task `id` another status after it finished. -/
def StoreOp.Reopens (id : Id) : StoreOp → Prop
  | .row (.edit (.continueFromTerminal target _ _ _)) => target = id
  | .row (.edit (.update target fields _ _)) => target = id ∧ fields.status.join.isSome = true
  | .remove target => target = id
  | _ => False

/-- The operation does not complete a failed task: there is none of that id, or
`complete_task` refuses it. -/
def StoreOp.sparesFailed (s : Store) : StoreOp → Bool
  | .row (.edit (.complete id _ caller _)) =>
    (s.getTask id).all fun row => row.status != .failed || !row.isWork || s.inStopTree id ||
      row.claimedBy.any (· != caller)
  | _ => true

theorem complete_failed (guard : unfinished id row = true)
    (terminal : row.status.isTerminal = true) : row.id = id ∧ row.isWork = true ∧ row.status = .failed := by
  simp only [unfinished, Bool.and_eq_true, beq_iff_eq] at guard
  obtain ⟨⟨named, work⟩, notDone⟩ := guard
  refine ⟨named, work, ?_⟩
  cases status : row.status <;> simp_all [Status.isTerminal]

/-- **What an operation makes of a finished row** has its status, unless the operation
reopens it. -/
theorem RowOp.rewrites_terminal {env : Env}
    (found : s.getTask row.id = some row) (rewrites : op.Rewrites env s row new)
    (terminal : row.status.isTerminal = true) (spares : (StoreOp.row op).sparesFailed s = true) :
    new.status = row.status ∨ (StoreOp.row op).Reopens row.id := by
  cases op with
  | edit op =>
    cases op with
    | claim id agentId now lease =>
      rcases claimable_open rewrites.1 with is | is <;> simp [is, Status.isTerminal] at terminal
    | renewLease id agentId expiry now =>
      obtain ⟨-, rfl⟩ := rewrites
      exact .inl rfl
    | requeueZombie id claimer lease retry now | failZombie id claimer lease now =>
      simp [heldBy_inProgress rewrites.1, Status.isTerminal] at terminal
    | complete id summary caller now =>
      obtain ⟨guard, outside, holder, -⟩ := rewrites
      obtain ⟨rfl, work, failed⟩ := complete_failed guard terminal
      simp [StoreOp.sparesFailed, found, failed, work, outside, holder] at spares
    | acceptReview id feedback now | rejectReview read id feedback softCap now
    | resolveNeedsHuman id decision note expected now =>
      simp [inStatus_status rewrites.1, Status.isTerminal] at terminal
    | markNeedsHuman id reason pause now =>
      exact absurd (openTask_open rewrites.1) (by simp [terminal])
    | continueFromTerminal id message expected now => exact .inr rewrites.1.symm
    | cancel id reason now => exact absurd (openTask_open rewrites.1) (by simp [terminal])
    | update id fields cap now =>
      obtain ⟨rfl, costCap, -, rfl⟩ := rewrites
      cases given : fields.status.join with
      | none => exact .inl (by simp [updateEdit, given])
      | some status => exact .inr ⟨rfl, by simp [given]⟩
    | stopTree root revision requestedBy countsAsFailure now =>
      exact absurd rewrites.2.1 (by simp [terminal])
    | sweep ids now => exact absurd rewrites.2.1 (by simp [terminal])
  | claimNeedsHuman id decider expected now | claimConversationTasks conversation decider now
  | claimTask id agentId now | reassignOpenTasks fromAgent toAgent now
  | renewDiscovery id worker expiry now | rewriteResultSummary id expected replacement
  | touch id now =>
    obtain ⟨-, rfl⟩ := rewrites
    exact .inl rfl
  | authorizeDiscovery id approved now | claimDiscovery id worker expiry now
  | finishDiscovery id worker success summary now | interruptDiscovery id scannedExpiry now
  | cancelDiscovery id reason now | cancelPendingDiscovery id reason now =>
    exact absurd (discoveryIn_running rewrites.1 (by decide)).1 (by simp [terminal])

/-- The task `id` is there with this status. -/
def Store.HasStatus (s : Store) (id : Id) (status : Status) : Prop :=
  (s.getTask id).map TaskRow.status = some status

/-- **One operation** leaves a finished task as it is. -/
theorem StoreOp.terminal_step (env : InsertEnv)
    (terminal : status.isTerminal = true) (has : s.HasStatus id status) (op : StoreOp)
    (spares : op.sparesFailed s = true) (kept : ¬op.Reopens id) : (op.perform env s).HasStatus id status := by
  obtain ⟨row, found, rfl⟩ := Option.map_eq_some_iff.mp has
  obtain ⟨-, rfl⟩ := Store.getTask_mem found
  cases op with
  | row op =>
    rcases (op.perform_becomes env.toEnv s).present _ row found with same | ⟨new, rewrites, stored⟩
    · simp [Store.HasStatus, StoreOp.perform, same]
    · rcases RowOp.rewrites_terminal found rewrites terminal spares with unchanged | reopened
      · simp [Store.HasStatus, StoreOp.perform, stored, unchanged]
      · exact absurd reopened kept
  | insert task =>
    simp only [Store.HasStatus, StoreOp.perform]
    cases accepted : s.accepts env task with
    | false => simp [insertTask_refused accepted, found]
    | true =>
      obtain ⟨free, stored⟩ := insertTask_accepted accepted
      have other : row.id ≠ task.row.id := by
        intro same
        rw [same, free] at found
        cases found
      simp [stored, if_neg other, found]
  | remove target =>
    rcases removeTask_row s target row.id with same | ⟨removed, -⟩
    · simp [Store.HasStatus, StoreOp.perform, same, found]
    · exact absurd removed.symm kept

/-- **Finished tasks stay as they finished.**  In every run that completes no failed task,
a task that is done, cancelled or failed has the same status in every later state, unless
an operation in between continues it, gives it a status, or removes it. -/
theorem terminal_stays_terminal (env : InsertEnv) (s : Store) (earlier later : List StoreOp)
    (spares : Obeys (StoreOp.perform env) (fun s op => op.sparesFailed s = true) s
      (earlier ++ later)) (id : Id) (status : Status) (terminal : status.isTerminal = true)
    (has : (run (StoreOp.perform env) s earlier).HasStatus id status) (kept : ∀ op ∈ later, ¬op.Reopens id) :
    (run (StoreOp.perform env) s (earlier ++ later)).HasStatus id status := by
  rw [run_append]
  have both := (obeys_append.mp spares).2.and
    (obeys_of_forall kept (run (StoreOp.perform env) s earlier))
  refine run_invariant (fun t => t.HasStatus id status) ?_ has both
  intro t op holds allowed
  exact op.terminal_step env terminal holds allowed.1 allowed.2

def samplePlain (id : Id) (status : Status) (pauseReason : Option Text) : StoreOp :=
  .insert
    { row :=
        { sampleRow id status none with goalMode := false, kind := .task, pauseReason := pauseReason }
      contracts := []
      timeoutSecs := none
      discoveryRunId := none
      discoverySpecJson := none
      ownerRefused := false }

/-- A task is claimed by `w`, and its lease runs out without a retry left. -/
def failedClaim : List StoreOp :=
  [samplePlain sampleRoot .pending none, .row (.edit (.claim sampleRoot ['w'] ['1'] ['2'])),
    .row (.edit (.failZombie sampleRoot ['w'] ['2'] ['3']))]

/-- A late completion by another agent, a cancellation and an acceptance. -/
def lateCalls : List StoreOp :=
  [.row (.edit (.complete sampleRoot [] ['v'] ['4'])), .row (.edit (.cancel sampleRoot [] ['5'])),
    .row (.edit (.acceptReview sampleRoot [] ['6']))]

/-- None of them moves the failed task. -/
theorem terminal_stays_terminal_failed :
    (run (StoreOp.perform sampleInsertEnv) (Store.start []) (failedClaim ++ lateCalls)).HasStatus
      sampleRoot .failed := by
  refine terminal_stays_terminal sampleInsertEnv (Store.start []) failedClaim lateCalls ?_
    sampleRoot .failed rfl ?_ ?_
  · decide
  · show Option.map _ _ = _
    decide
  · intro op listed
    simp only [lateCalls, List.mem_cons, List.not_mem_nil, or_false] at listed
    rcases listed with rfl | rfl | rfl <;> exact fun reopens => reopens

/-- **A late holder completes a failed task**: the failed task keeps its holder, and the
holder's `complete_task` moves it to `done`. -/
theorem failed_task_completed : (run (StoreOp.perform sampleInsertEnv) (Store.start []) failedClaim).HasStatus
        sampleRoot .failed ∧
      (run (StoreOp.perform sampleInsertEnv) (Store.start [])
        (failedClaim ++ [.row (.edit (.complete sampleRoot [] ['w'] ['4']))])).HasStatus
          sampleRoot .done := by
  constructor
  · show Option.map _ _ = _
    decide
  · show Option.map _ _ = _
    decide

/-! ## Pause reasons -/

/-- A row has a pause reason only while it waits for a human. -/
def TaskRow.Coupled (row : TaskRow) : Prop :=
  row.pauseReason.isSome = true → row.status = .needsHuman

def Store.Coupled (s : Store) : Prop := ∀ id row, s.getTask id = some row → row.Coupled

theorem TaskRow.Coupled.unpaused (coupled : row.Coupled)
    (elsewhere : row.status ≠ .needsHuman) : row.pauseReason = none := by
  cases paused : row.pauseReason with
  | none => rfl
  | some reason => exact absurd (coupled (by simp [paused])) elsewhere

theorem TaskRow.coupled_of_none (unpaused : row.pauseReason = none) : row.Coupled := by
  intro paused
  rw [unpaused] at paused
  cases paused

theorem Store.fire_coupled {old : TaskRow} : (s.fire old new).Coupled ↔ new.Coupled := by
  unfold Store.fire
  split <;> rfl

/-- The operation does not take a paused task out of `needs_human` with its reason, and
does not bring one from elsewhere. -/
def StoreOp.keepsPause (env : InsertEnv) (s : Store) : StoreOp → Bool
  | .row (.edit (.complete id _ caller _)) =>
    (s.getTask id).all fun row => row.pauseReason.isNone || !row.isWork || s.inStopTree id ||
      row.claimedBy.any (· != caller)
  | .row (.edit (.cancel id _ _)) =>
    (s.getTask id).all fun row => row.pauseReason.isNone || !row.isWork
  | .row (.edit (.update id fields cap _)) =>
    (s.getTask id).all fun row => row.pauseReason.isNone ||
      fields.status.join.all (· == .needsHuman) || !(s.checkUpdate id fields cap).isOk
  | .insert task =>
    !s.accepts env task || task.row.pauseReason.isNone || task.row.status == .needsHuman
  | _ => true

/-- **What an operation makes of a coupled row** is coupled, unless it is one of those. -/
theorem RowOp.rewrites_coupled {env : InsertEnv}
    (found : s.getTask row.id = some row) (rewrites : op.Rewrites env.toEnv s row new)
    (coupled : row.Coupled) (keeps : (StoreOp.row op).keepsPause env s = true) : new.Coupled := by
  cases op with
  | edit op =>
    cases op with
    | claim id agentId now lease =>
      obtain ⟨guard, -, rfl⟩ := rewrites
      refine TaskRow.coupled_of_none (coupled.unpaused ?_)
      rcases claimable_open guard with is | is <;> simp [is]
    | renewLease id agentId expiry now =>
      obtain ⟨-, rfl⟩ := rewrites
      exact coupled
    | requeueZombie id claimer lease retry now | failZombie id claimer lease now =>
      obtain ⟨guard, -, rfl⟩ := rewrites
      exact TaskRow.coupled_of_none (coupled.unpaused (by simp [heldBy_inProgress guard]))
    | complete id summary caller now =>
      obtain ⟨guard, outside, holder, rfl⟩ := rewrites
      simp only [unfinished, Bool.and_eq_true, beq_iff_eq] at guard
      obtain ⟨⟨rfl, work⟩, -⟩ := guard
      have unpaused : row.pauseReason = none := by
        simpa [StoreOp.keepsPause, found, work, outside, holder] using keeps
      exact TaskRow.coupled_of_none (by split <;> exact unpaused)
    | acceptReview id feedback now =>
      obtain ⟨guard, rfl⟩ := rewrites
      exact TaskRow.coupled_of_none (coupled.unpaused (by simp [inStatus_status guard]))
    | rejectReview read id feedback softCap now =>
      obtain ⟨guard, seen, -, rfl⟩ := rewrites
      split
      · exact TaskRow.coupled_of_none (coupled.unpaused (by simp [inStatus_status guard]))
      · exact fun _ => rfl
    | markNeedsHuman id reason pause now =>
      obtain ⟨-, rfl⟩ := rewrites
      exact fun _ => rfl
    | resolveNeedsHuman id decision note expected now =>
      obtain ⟨-, edit, decided, rfl⟩ := rewrites
      cases decision <;> cases decided <;> exact TaskRow.coupled_of_none rfl
    | continueFromTerminal id message expected now =>
      obtain ⟨-, -, terminal, -, -, -, rfl⟩ := rewrites
      refine TaskRow.coupled_of_none (coupled.unpaused ?_)
      intro waiting
      simp [waiting, Status.isTerminal] at terminal
    | cancel id reason now =>
      obtain ⟨guard, rfl⟩ := rewrites
      simp only [openTask, Bool.and_eq_true, beq_iff_eq] at guard
      obtain ⟨⟨rfl, work⟩, -⟩ := guard
      have unpaused : row.pauseReason = none := by
        simpa [StoreOp.keepsPause, found, work] using keeps
      exact TaskRow.coupled_of_none unpaused
    | update id fields cap now =>
      obtain ⟨rfl, costCap, accepted, rfl⟩ := rewrites
      simp only [StoreOp.keepsPause, found, accepted, Option.all_some, Except.isOk,
        Except.toBool, Bool.not_true, Bool.or_false, Bool.or_eq_true, Option.isNone_iff_eq_none] at keeps
      rcases keeps with unpaused | waiting
      · exact TaskRow.coupled_of_none unpaused
      intro paused
      have before := coupled paused
      show fields.status.join.getD row.status = .needsHuman
      cases given : fields.status.join with
      | none => exact before
      | some status => simpa [given] using waiting
    | stopTree root revision requestedBy countsAsFailure now | sweep ids now =>
      obtain ⟨-, -, rfl⟩ := rewrites
      exact TaskRow.coupled_of_none rfl
  | claimNeedsHuman id decider expected now | claimConversationTasks conversation decider now
  | claimTask id agentId now | reassignOpenTasks fromAgent toAgent now
  | renewDiscovery id worker expiry now | rewriteResultSummary id expected replacement
  | touch id now =>
    obtain ⟨-, rfl⟩ := rewrites
    exact coupled
  | authorizeDiscovery id approved now | claimDiscovery id worker expiry now
  | finishDiscovery id worker success summary now | interruptDiscovery id scannedExpiry now
  | cancelDiscovery id reason now | cancelPendingDiscovery id reason now =>
    obtain ⟨guard, rfl⟩ := rewrites
    exact TaskRow.coupled_of_none (coupled.unpaused (discoveryIn_running guard (by decide)).2)

/-! ## Where the reason is left behind -/

variable {s : Store} {id : Id} {row : TaskRow}

theorem Store.updateWhere_uncoupled {sel : TaskRow → Bool}
    {edit : Edit} (found : s.getTask id = some row) (selected : sel row = true)
    (paused : (edit.apply row).pauseReason.isSome = true)
    (moved : (edit.apply row).status ≠ .needsHuman) : ¬(s.updateWhere sel edit).Coupled := by
  intro coupled
  have stored : (s.updateWhere sel edit).getTask id = some (s.fire row (edit.apply row)) := by
    rw [updateWhere_get, found, Option.map_some, Store.rewrite, if_pos selected]
  exact moved (Store.fire_coupled.mp (coupled id _ stored) paused)

theorem complete_uncouples (env : Env) (found : s.getTask id = some row) (coupled : row.Coupled)
    (paused : row.pauseReason.isSome = true) (work : row.isWork = true)
    (outside : s.inStopTree id = false) {caller : Text}
    (holder : row.claimedBy.any (· != caller) = false) (summary now : Text) :
    ¬(s.completeTask env id summary caller now).2.Coupled := by
  have selected : unfinished id row = true := by
    simp [unfinished, (Store.getTask_mem found).2, work, coupled paused]
  unfold Store.completeTask
  rw [found, Option.filter_some, if_pos work]
  simp only [outside, holder, Bool.false_eq_true, if_false]
  refine Store.updateWhere_uncoupled found selected ?_ ?_
  · split <;> exact paused
  · split <;> simp

theorem cancel_uncouples (env : Env) (found : s.getTask id = some row) (coupled : row.Coupled)
    (paused : row.pauseReason.isSome = true) (work : row.isWork = true) (reason now : Text) :
    ¬(s.cancelTask env id reason now).2.Coupled := by
  have selected : openTask id row = true := by
    simp [openTask, (Store.getTask_mem found).2, work, coupled paused, Status.isTerminal]
  exact Store.updateWhere_uncoupled found selected paused nofun

theorem update_uncouples (env : Env) (found : s.getTask id = some row) (paused : row.pauseReason.isSome = true)
    {fields : TaskFields} {status : Status} (given : fields.status.join = some status)
    (moved : status ≠ .needsHuman) {cap : Option Nat}
    (accepted : (s.checkUpdate id fields cap).isOk = true) (now : Text) :
    ¬(s.updateTask env id fields cap now).2.Coupled := by
  unfold Store.updateTask
  split
  · rename_i refused
    rw [refused] at accepted
    cases accepted
  refine Store.updateWhere_uncoupled found ?_ paused ?_
  · simp [(Store.getTask_mem found).2]
  · show fields.status.join.getD row.status ≠ .needsHuman
    rw [given]
    exact moved

theorem insert_coupled_iff (env : InsertEnv) (coupled : s.Coupled) (task : NewTask) :
    (s.insertTask env task).2.Coupled ↔ (StoreOp.insert task).keepsPause env s = true := by
  simp only [StoreOp.keepsPause]
  cases accepted : s.accepts env task with
  | false =>
    rw [insertTask_refused accepted]
    exact iff_of_true coupled (by simp)
  | true =>
    obtain ⟨-, stored⟩ := insertTask_accepted accepted
    have asGiven : (s.insertedRow env.toEnv task.row).Coupled ↔ task.row.Coupled := by
      simp [TaskRow.Coupled, Store.insertedRow]
    have own : (s.insertTask env task).2.Coupled ↔ task.row.Coupled := by
      rw [← asGiven]
      constructor
      · intro after
        exact after task.row.id _ (by rw [stored, if_pos rfl])
      · intro new id row found
        rw [stored] at found
        split at found
        · cases found
          exact new
        · exact coupled id row found
    rw [own, TaskRow.Coupled]
    cases task.row.pauseReason <;> simp

/-- **One operation** keeps every row coupled exactly when it leaves no reason behind. -/
theorem StoreOp.coupled_step (env : InsertEnv) (coupled : s.Coupled) (op : StoreOp) :
    (op.perform env s).Coupled ↔ op.keepsPause env s = true := by
  constructor
  · intro after
    by_contra broken
    rw [Bool.not_eq_true] at broken
    cases op with
    | insert task => simp [(insert_coupled_iff env coupled task).mp after] at broken
    | remove id => cases broken
    | row op =>
      cases op with
      | edit op =>
        cases op with
        | complete id summary caller now =>
          simp only [StoreOp.keepsPause] at broken
          obtain ⟨row, found, broken⟩ := (Option.all_eq_false _ _).mp broken
          simp only [Bool.or_eq_false_iff, Bool.not_eq_eq_eq_not, Bool.not_false,
            Option.isNone_eq_false_iff] at broken
          obtain ⟨⟨⟨paused, work⟩, outside⟩, holder⟩ := broken
          exact complete_uncouples env.toEnv found (coupled id row found) paused work outside
            holder summary now after
        | cancel id reason now =>
          simp only [StoreOp.keepsPause] at broken
          obtain ⟨row, found, broken⟩ := (Option.all_eq_false _ _).mp broken
          simp only [Bool.or_eq_false_iff, Bool.not_eq_eq_eq_not, Bool.not_false,
            Option.isNone_eq_false_iff] at broken
          exact cancel_uncouples env.toEnv found (coupled id row found) broken.1 broken.2
            reason now after
        | update id fields cap now =>
          simp only [StoreOp.keepsPause] at broken
          obtain ⟨row, found, broken⟩ := (Option.all_eq_false _ _).mp broken
          simp only [Bool.or_eq_false_iff, Bool.not_eq_eq_eq_not, Bool.not_false,
            Option.isNone_eq_false_iff] at broken
          obtain ⟨⟨paused, moves⟩, accepted⟩ := broken
          obtain ⟨status, given, moved⟩ := (Option.all_eq_false _ _).mp moves
          exact update_uncouples env.toEnv found paused given (by simpa using moved) accepted
            now after
        | _ => cases broken
      | _ => cases broken
  · intro keeps
    cases op with
    | insert task => exact (insert_coupled_iff env coupled task).mpr keeps
    | remove target =>
      intro id row found
      rcases removeTask_row s target id with same | ⟨-, gone⟩
      · exact coupled id row (same.symm.trans found)
      · exact absurd (gone.symm.trans found) nofun
    | row op =>
      have becomes := op.perform_becomes env.toEnv s
      intro id row found
      cases before : s.getTask id with
      | none => exact absurd ((becomes.absent id before).symm.trans found) nofun
      | some old =>
        obtain ⟨-, rfl⟩ := Store.getTask_mem before
        rcases becomes.present _ old before with same | ⟨new, rewrites, stored⟩
        · exact coupled _ row (before.trans (same.symm.trans found))
        · rw [Option.some.inj (found.symm.trans stored), Store.fire_coupled]
          exact RowOp.rewrites_coupled before rewrites (coupled _ old before) keeps

theorem Store.start_coupled (occurrences : List Id) : (Store.start occurrences).Coupled := by
  intro id row found
  cases found

/-- **A pause reason is there only while the task waits for a human**, in every state of a
run from the empty store, exactly when no operation of the run completes, cancels or moves
a paused task with its reason, or inserts a task with one in another status. -/
theorem pause_reason_iff (env : InsertEnv) (occurrences : List Id) (ops : List StoreOp) :
    (∀ earlier later, ops = earlier ++ later → ∀ id row,
        (run (StoreOp.perform env) (Store.start occurrences) earlier).getTask id = some row →
          row.pauseReason ≠ none → row.status = .needsHuman) ↔
      Obeys (StoreOp.perform env) (fun s op => op.keepsPause env s = true) (Store.start occurrences) ops := by
  rw [← run_always_iff Store.Coupled (fun _ op coupled => op.coupled_step env coupled)
    (Store.start_coupled occurrences)]
  simp only [Store.Coupled, TaskRow.Coupled, Option.isSome_iff_ne_none]

/-- **The reason stays behind**: a task is parked for a human and then cancelled. -/
theorem cancelled_task_paused : ∃ row, (run (StoreOp.perform sampleInsertEnv) (Store.start [])
        [samplePlain sampleRoot .pending none,
          .row (.edit (.markNeedsHuman sampleRoot [] "unknown".toList ['1'])),
          .row (.edit (.cancel sampleRoot [] ['2']))]).getTask sampleRoot = some row ∧
      row.pauseReason ≠ none ∧ row.status = .cancelled := by
  refine ⟨_, rfl, ?_, ?_⟩
  · decide
  · decide

end DuDuClaw.TaskStore
