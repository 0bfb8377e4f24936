/-
# Responsibility.Occurrences -- from a fact to a goal task, and back

task_store/resp_occurrence.rs: `materialize_occurrence`, the only place a fact becomes a
task, and `settle_occurrence`.  Under them the operations of the whole subsystem as one
step function, in which any write to the tasks may come between; `Operation.perform` keeps
the store of a call that returned and takes back that of a call that did not.

The integer sums of a window saturate at the ends of `i64`, as in `period_usage_conn`.
-/
import DuDuClaw.Lib.Saturating
import DuDuClaw.Responsibility.Control

namespace DuDuClaw.Responsibility

open DuDuClaw.Lib
open DuDuClaw.TaskStore (Text Id InsertEnv InsertError NewTask StoreOp)

/-! ## The window -/

/-- `i64::MAX`. -/
def i64Max : Int := 2 ^ 63 - 1

/-- `i64::MIN`. -/
def i64Min : Int := -2 ^ 63

def saturatingAdd : Int → Int → Int := satAdd i64Min i64Max

/-- What an occurrence counts for: the charge once it is settled, else the reservation. -/
def OccurrenceRow.floor (occurrence : OccurrenceRow) : Int :=
  match occurrence.outcome with
  | none => occurrence.reservedCents
  | some _ => occurrence.chargedCents.getD occurrence.reservedCents

structure PeriodUsage where
  occurrences : Int
  entries : List (Id × Int)
  storedCents : Int

namespace RespStore

def window (s : RespStore) (responsibilityId : Id) (periodKey : Text) : List OccurrenceRow :=
  s.occurrences.rows.filter fun occurrence =>
    occurrence.responsibilityId == responsibilityId && occurrence.periodKey == periodKey

/-- `period_usage_conn`. -/
def periodUsage (s : RespStore) (responsibilityId : Id) (periodKey : Text) : PeriodUsage :=
  (s.window responsibilityId periodKey).foldl
    (fun usage occurrence =>
      { occurrences := usage.occurrences + 1
        entries := usage.entries ++ [(occurrence.taskId, occurrence.floor)]
        storedCents := saturatingAdd usage.storedCents occurrence.floor })
    ⟨0, [], 0⟩

end RespStore

/-! ## `materialize_occurrence` -/

structure MaterializeRequest where
  responsibilityId : Id
  expectedFireId : Id
  expectedEpoch : Int
  task : NewTask
  periodKey : Text
  periodSpentCents : Int
  predecessorTaskId : Option Id
  now : Instant

inductive MaterializeOutcome where
  | created (taskId : Id) (coalesced : Nat)
  | notActive
  | epochChanged
  | fireChanged
  | occurrenceOpen
  | intervalNotElapsed
  | budgetExhausted
  deriving DecidableEq

namespace RespStore

/-- The row `materialize_occurrence` inserts. -/
def newOccurrence (resp : ResponsibilityRow) (first : FireRow) (req : MaterializeRequest) :
    OccurrenceRow where
  responsibilityId := resp.responsibilityId
  occurrenceKey := first.fireId
  taskId := req.task.row.id
  contractRevision := resp.contractRevision
  controlEpoch := resp.controlEpoch
  periodKey := req.periodKey
  reservedCents := resp.contract.occurrenceCostCapCents
  chargedCents := none
  costBasis := none
  outcome := none
  predecessorTaskId := req.predecessorTaskId
  createdAt := respTs req.now
  settledAt := none

variable (id : Id) (s : RespStore)

def stampEdit (at_ : Instant) : RespEdit where
  sel row := row.responsibilityId == id
  set_ row := { row with lastOccurrenceAt := some at_ }
  expiredTerminal := by intro row _ isExpired; exact isExpired

def consumeFires (resp : ResponsibilityRow) (first : FireRow) (taskId : Id)
    (at_ : Instant) : RespStore :=
  let settled :=
    (s.settleFires (fun fire => fire.fireId == first.fireId) (.consumed taskId) at_).settleFires
      (fun fire => fire.responsibilityId == resp.responsibilityId) (.coalesced taskId) at_
  (settled.updateWakeups
    (fun wakeup =>
      if wakeup.responsibilityId == resp.responsibilityId && wakeup.state == .armed &&
          !wakeup.recurring && (wakeup.kind == .time || wakeup.kind == .decision) &&
          settled.fires.rows.any fun fire =>
            fire.occurrenceTaskId == some taskId && fire.wakeupId == wakeup.wakeupId then
        { wakeup with state := .consumed }
      else wakeup)
    (by intro wakeup; split <;> rfl)).updateResponsibilities (stampEdit resp.responsibilityId at_)

def createOccurrence (env : InsertEnv) (s : RespStore) (resp : ResponsibilityRow)
    (first : FireRow) (req : MaterializeRequest) :
    Except RespError (MaterializeOutcome × RespStore) :=
  match s.tasks.insertTask env req.task with
  | (.error e, _) => .error (.task e)
  | (.ok (), tasks) =>
    match s.occurrences.insert (newOccurrence resp first req) with
    -- Someone else holds the open occurrence; the inserted task is rolled back.
    | none => .ok (.occurrenceOpen, s)
    | some occurrences =>
      let linked :=
        { s with
          tasks := { tasks with occurrences := tasks.occurrences ++ [req.task.row.id] }
          occurrences := occurrences }
      let coalesced := s.fires.rows.countP fun fire =>
        fire.responsibilityId == resp.responsibilityId && fire.state == .pending &&
          fire.fireId != first.fireId
      .ok (.created req.task.row.id coalesced,
        linked.consumeFires resp first req.task.row.id (respTs req.now))

/-- `min_wake_interval_secs` has not elapsed since the last occurrence. -/
def tooSoon (resp : ResponsibilityRow) (now : Instant) : Bool :=
  resp.lastOccurrenceAt.any fun last =>
    now < last + resp.contract.minWakeIntervalSecs * second

/-- The window has no room for one more occurrence. -/
def overBudget (resp : ResponsibilityRow) (req : MaterializeRequest) : Bool :=
  let usage := s.periodUsage resp.responsibilityId req.periodKey
  let spent := max usage.storedCents req.periodSpentCents
  decide (resp.contract.periodOccurrenceLimit ≤ usage.occurrences) ||
    decide (resp.contract.periodCostLimitCents <
      saturatingAdd spent resp.contract.occurrenceCostCapCents)

def hasOpen (responsibilityId : Id) : Bool :=
  s.occurrences.rows.any fun occurrence =>
    occurrence.responsibilityId == responsibilityId && occurrence.isOpen

def materializeOccurrence (env : InsertEnv) (s : RespStore) (req : MaterializeRequest) :
    Except RespError (MaterializeOutcome × RespStore) :=
  match s.getResponsibility req.responsibilityId with
  | none => .ok (.notActive, s)
  | some resp =>
    if resp.state != .active || resp.contract.stopAt.all fun stop => stop ≤ req.now then
      .ok (.notActive, s)
    else
      match s.pendingFires resp.responsibilityId with
      | [] => .ok (.fireChanged, s)
      | first :: _ =>
        if first.controlEpoch != resp.controlEpoch || req.expectedEpoch != resp.controlEpoch then
          .ok (.epochChanged,
            s.settleFires
              (fun fire =>
                fire.responsibilityId == resp.responsibilityId &&
                  fire.controlEpoch != resp.controlEpoch)
              (.dropped "epoch_changed".toList) (respTs req.now))
        else if first.fireId != req.expectedFireId then .ok (.fireChanged, s)
        else if s.hasOpen resp.responsibilityId then .ok (.occurrenceOpen, s)
        else if tooSoon resp req.now then .ok (.intervalNotElapsed, s)
        else if s.overBudget resp req then
          .ok (.budgetExhausted,
            s.updateResponsibilities (budgetPauseEdit resp.responsibilityId req.periodKey))
        else s.createOccurrence env resp first req

/-! ## `settle_occurrence` -/

def settledRow (taskId : Id) (outcome : Outcome) (chargedCents : Int) (costBasis : CostBasis)
    (at_ : Instant) (occurrence : OccurrenceRow) : OccurrenceRow :=
  if occurrence.taskId == taskId && occurrence.isOpen then
    { occurrence with
      outcome := some outcome, chargedCents := some chargedCents, costBasis := some costBasis
      settledAt := some at_ }
  else occurrence

theorem settledRow_keys (taskId : Id) (outcome : Outcome) (chargedCents : Int)
    (costBasis : CostBasis) (at_ : Instant) (occurrence : OccurrenceRow) :
    (settledRow taskId outcome chargedCents costBasis at_ occurrence).keys ⊆ occurrence.keys := by
  unfold settledRow
  split
  · intro key listed
    simp only [OccurrenceRow.keys, OccurrenceRow.isOpen, Option.isNone_some, Bool.false_eq_true,
      if_false, List.append_nil] at listed
    exact List.mem_append_left _ listed
  · exact List.Subset.refl _

def streakResetEdit : RespEdit where
  sel row := row.responsibilityId == id
  set_ row := { row with consecutiveFailures := 0 }
  expiredTerminal := by intro row _ isExpired; exact isExpired

def streakEdit : RespEdit where
  sel row := row.responsibilityId == id
  set_ row := { row with consecutiveFailures := row.consecutiveFailures + 1 }
  expiredTerminal := by intro row _ isExpired; exact isExpired

def failurePauseEdit : RespEdit where
  sel row :=
    row.responsibilityId == id && (row.state == .active || row.state == .paused) && row.exhausted
  set_ row :=
    { row with state := .failurePaused, stateReason := some failureReason }
  expiredTerminal := by
    intro row selected isExpired
    simp [isExpired] at selected

def streakAfter (id : Id) : Outcome → RespStore
  | .done => s.updateResponsibilities (streakResetEdit id)
  | .failed | .cancelled | .stoppedCounted | .blocked =>
    (s.updateResponsibilities (streakEdit id)).updateResponsibilities (failurePauseEdit id)
  -- Operator-stopped: not the employee's failure.
  | .stopped => s

def settleOccurrence (taskId : Id) (outcome : Text) (chargedCents : Int)
    (costBasis : CostBasis) (now : Instant) :
    Except RespError (Option ResponsibilityRow × RespStore) :=
  match Outcome.ofText outcome with
  | none => .error (.invalidOutcome outcome)
  | some result =>
    match s.occurrences.rows.find? fun occurrence =>
      occurrence.taskId == taskId && occurrence.isOpen with
    | none => .ok (none, s)
    | some occurrence =>
      let settled :=
        { s with
          occurrences := s.occurrences.update
            (settledRow taskId result chargedCents costBasis (respTs now))
            (settledRow_keys taskId result chargedCents costBasis (respTs now)) }
      let after := settled.streakAfter occurrence.responsibilityId result
      .ok (after.getResponsibility occurrence.responsibilityId, after)

end RespStore

/-! ## Runs -/

/-- Everything that writes to the tables; `task` is any other write to `tasks`. -/
inductive Operation where
  | insertResponsibility (row : ResponsibilityRow) (wakeups : List WakeupRow)
  | pause (id : Id) (expectedEpoch : Int) (reason : Text)
  | resume (id : Id) (expectedEpoch : Int)
  | clearFailures (id : Id) (expectedEpoch : Int)
  | disable (id : Id) (expectedEpoch : Int) (reason : Text) (now : Instant)
  | enable (id : Id) (expectedEpoch : Int)
      (make : ResponsibilityRow → List WakeupRow → Except Text (List WakeupRow))
  | updateContract (id : Id) (expectedRevision : Int) (contract : Contract)
      (resubscribe : Option (Int → Except Text (List WakeupRow))) (now : Instant)
  | expireDue (now : Instant)
  | markBudgetPaused (id : Id) (periodKey : Text)
  | resumeBudgetWindow (id : Id) (currentPeriodKey : Text)
  | armWakeup (wakeup : WakeupRow) (agentLimit : Option Nat)
  | advanceWakeupDue (wakeupId : Id) (oldDue newDue : Text)
  | recordFire (fireId : Id) (fire : NewFire) (advance : Option (Text × Text)) (now : Instant)
  | dropPendingFires (responsibilityId : Id) (reason dropReason : Text) (now : Instant)
  | materialize (req : MaterializeRequest)
  | settle (taskId : Id) (outcome : Text) (chargedCents : Int) (costBasis : CostBasis)
      (now : Instant)
  | task (op : StoreOp)

/-- The store after a call: an error takes its writes back. -/
def settled {α : Type} (s : RespStore) : Except RespError (α × RespStore) → RespStore
  | .ok (_, t) => t
  | .error _ => s

def Operation.perform (env : InsertEnv) (s : RespStore) : Operation → RespStore
  | .insertResponsibility row wakeups =>
    settled s ((s.insertResponsibility env row wakeups).map fun t => ((), t))
  | .pause id epoch reason => (s.pauseResponsibility env id epoch reason).2
  | .resume id epoch => (s.resumeResponsibility id epoch).2
  | .clearFailures id epoch => (s.clearResponsibilityFailures id epoch).2
  | .disable id epoch reason now => (s.disableResponsibility env id epoch reason now).2
  | .enable id epoch make => settled s (s.enableResponsibility env id epoch make)
  | .updateContract id revision contract resubscribe now =>
    settled s (s.updateResponsibilityContract env id revision contract resubscribe now)
  | .expireDue now => s.expireDueResponsibilities env now
  | .markBudgetPaused id period => (s.markBudgetPaused id period).2
  | .resumeBudgetWindow id period => (s.resumeBudgetWindow id period).2
  | .armWakeup wakeup limit => settled s ((s.armWakeup env wakeup limit).map fun t => ((), t))
  | .advanceWakeupDue id oldDue newDue => (s.advanceWakeupDue id oldDue newDue).2
  | .recordFire fireId fire advance now => settled s (s.recordFire env fireId fire advance now)
  | .dropPendingFires id reason dropReason now => s.dropPendingFires id reason dropReason now
  | .materialize req => settled s (s.materializeOccurrence env req)
  | .settle taskId outcome charged basis now =>
    settled s (s.settleOccurrence taskId outcome charged basis now)
  | .task op => { s with tasks := op.perform env s.tasks }

/-- The store after a run from the one without a responsibility. -/
def reached (env : InsertEnv) (tasks : TaskStore.Store) (ops : List Operation) : RespStore :=
  run (Operation.perform env) (.empty tasks) ops

theorem reached_append (env : InsertEnv) (tasks : TaskStore.Store) (front back : List Operation) :
    reached env tasks (front ++ back) = run (Operation.perform env) (reached env tasks front) back :=
  run_append _ _ _

def afterOperations (ops : List Operation) : RespStore :=
  run (Operation.perform TaskStore.sampleInsertEnv) (.empty (TaskStore.Store.start [])) ops

/-- An active responsibility with these limits, and one event subscription. -/
def sampleResponsibility (cap limit occurrences failures : Int) : Operation :=
  .insertResponsibility
    { responsibilityId := ['r']
      contract :=
        { objective := ['o'], acceptanceTemplate := ['a'], scopeJson := [], sourceRefsJson := []
          notificationPolicyJson := [], scheduleJson := none, occurrenceHours := 1
          occurrenceCostCapCents := cap, periodCostLimitCents := limit
          periodOccurrenceLimit := occurrences, minWakeIntervalSecs := 300
          maxConsecutiveFailures := failures, stopAt := some (10 ^ 18) }
      state := .active, stateReason := none, contractRevision := 1, controlEpoch := 1
      consecutiveFailures := 0, lastOccurrenceAt := none }
    [{ wakeupId := ['w'], responsibilityId := ['r'], controlEpoch := 1, kind := .event
       recurring := true, dueAt := none, eventFilterJson := none, armedBy := ['u']
       state := .armed, createdAt := [] }]

/-- A fact of that subscription, `seconds` after the epoch. -/
def sampleFire (fireId key : Text) (seconds : Int) : Operation :=
  .recordFire fireId
    { wakeupId := ['w'], fireKey := key, reason := ['t', 'i', 'm', 'e'], dataJson := none
      guardFlagsJson := none, dropped := none }
    none (seconds * second)

def sampleOccurrence (fireId taskId : Text) (epoch seconds : Int) : Operation :=
  .materialize
    { responsibilityId := ['r'], expectedFireId := fireId, expectedEpoch := epoch
      task :=
        { row := TaskStore.sampleRow taskId .todo none, contracts := [], timeoutSecs := none
          discoveryRunId := none, discoverySpecJson := none, ownerRefused := false }
      periodKey := ['p'], periodSpentCents := 0, predecessorTaskId := none
      now := seconds * second }

end DuDuClaw.Responsibility
