/-
# Responsibility.Control -- contracts, subscriptions and wake facts

The writers of task_store/responsibility.rs, and `drop_pending_fires` of resp_notice.rs.
Each is one `BEGIN IMMEDIATE`: a call that returns an error wrote nothing, so an error
carries no store.

The closures that build subscriptions (`make`, `resubscribe`) and the id of a new fact are
arguments.  The event cursor is left out.
-/
import Mathlib.Data.List.Sort
import DuDuClaw.Responsibility.Tables

namespace DuDuClaw.Responsibility

open DuDuClaw.Lib
open DuDuClaw.TaskStore (Text Id InsertEnv InsertError NewTask StoreOp)

/-- The errors; `constraint` is a CHECK or a unique index, named by the failing call. -/
inductive RespError where
  | unsafeContract
  | constraint (call : Text)
  | notFound
  | epochChanged
  | agentFollowupLimit
  | invalidOutcome (outcome : Text)
  | subscriptions (message : Text)
  | task (error : InsertError)

inductive RespCas where
  | applied (row : ResponsibilityRow)
  | conflict (current : Option ResponsibilityRow)

namespace RespStore

/-! ## Subscriptions -/

variable (env : InsertEnv) (s : RespStore) (id : Id)

/-- `insert_wakeup_conn`. -/
def insertWakeup (s : RespStore) (wakeup : WakeupRow) :
    Except RespError RespStore :=
  if wakeup.eventFilterJson.any fun filter => !env.contractSafe filter then .error .unsafeContract
  else
    match s.wakeups.insert wakeup with
    | none => .error (.constraint "insert wakeup".toList)
    | some wakeups => .ok { s with wakeups := wakeups }

def insertWakeups (s : RespStore) (wakeups : List WakeupRow) :
    Except RespError RespStore :=
  wakeups.foldlM (insertWakeup env) s

/-- `disarmed_subscriptions_conn`. -/
def disarmedSubscriptions (id : Id) : List WakeupRow :=
  let own := s.wakeups.rows.filter fun wakeup =>
    wakeup.responsibilityId == id && !wakeup.agentArmed
  let newest := (own.map WakeupRow.controlEpoch).max?
  (own.filter fun wakeup =>
    wakeup.state == .cancelled && some wakeup.controlEpoch == newest).insertionSort
      fun a b => a.createdAt < b.createdAt ∨ a.createdAt = b.createdAt ∧ a.wakeupId ≤ b.wakeupId

/-- `retire_subscriptions_conn`. -/
def retireSubscriptions (s : RespStore) (id : Id) (wakeupState : WakeupState)
    (dropReason : Text) (now : Instant) : RespStore :=
  (s.updateWakeups
    (fun wakeup =>
      if wakeup.responsibilityId == id && wakeup.state == .armed then
        { wakeup with state := wakeupState }
      else wakeup)
    (by intro wakeup; split <;> rfl)).settleFires
      (fun fire => fire.responsibilityId == id) (.dropped (env.maskDerivedText dropReason)) now

/-! ## Responsibilities -/

def insertResponsibility (s : RespStore) (row : ResponsibilityRow)
    (wakeups : List WakeupRow) : Except RespError RespStore :=
  let stored := { row with stateReason := row.stateReason.map env.maskDerivedText }
  if row.contract.texts.any fun text => !env.contractSafe text then .error .unsafeContract
  else if checks : stored.Checks then
    match inserted : s.responsibilities.insert stored with
    | none => .error (.constraint "insert responsibility".toList)
    | some responsibilities =>
      insertWakeups env
        { s with
          responsibilities := responsibilities
          checked := by
            intro other listed
            rw [(Indexed.insert_cases inserted).2, List.mem_append, List.mem_singleton] at listed
            rcases listed with before | rfl
            · exact s.checked other before
            · exact checks }
        wakeups
  else .error (.constraint "insert responsibility".toList)

def casResult (edit : RespEdit) (after : RespStore) (id : Id) : RespCas :=
  match s.changes edit, after.getResponsibility id with
  | 1, some row => .applied row
  | _, row => .conflict row

def respStateCas (id : Id) (edit : RespEdit) : RespCas × RespStore :=
  let after := s.updateResponsibilities edit
  (s.casResult edit after id, after)

def pauseEdit (id : Id) (expectedEpoch : Int) (reason : Text) : RespEdit where
  sel row := row.responsibilityId == id && row.state == .active && row.controlEpoch == expectedEpoch
  set_ row := { row with state := .paused, stateReason := some (env.maskDerivedText reason) }
  expiredTerminal := by intro row; simp +contextual

def pauseResponsibility (s : RespStore) (id : Id) (expectedEpoch : Int)
    (reason : Text) : RespCas × RespStore :=
  s.respStateCas id (pauseEdit env id expectedEpoch reason)

def resumeEdit (expectedEpoch : Int) : RespEdit where
  sel row := row.responsibilityId == id && row.state == .paused && row.controlEpoch == expectedEpoch
  set_ row := { row with state := .active, stateReason := none }
  expiredTerminal := by intro row; simp +contextual

def resumeResponsibility (id : Id) (expectedEpoch : Int) : RespCas × RespStore :=
  s.respStateCas id (resumeEdit id expectedEpoch)

def clearFailuresEdit (expectedEpoch : Int) : RespEdit where
  sel row :=
    row.responsibilityId == id && row.state == .failurePaused && row.controlEpoch == expectedEpoch
  set_ row := { row with state := .active, consecutiveFailures := 0, stateReason := none }
  expiredTerminal := by intro row; simp +contextual

def clearResponsibilityFailures (id : Id) (expectedEpoch : Int) :
    RespCas × RespStore :=
  s.respStateCas id (clearFailuresEdit id expectedEpoch)

def disableEdit (id : Id) (expectedEpoch : Int) (reason : Text) : RespEdit where
  sel row :=
    row.responsibilityId == id && row.controlEpoch == expectedEpoch &&
      (row.state == .active || row.state == .paused || row.state == .budgetPaused ||
        row.state == .failurePaused)
  set_ row :=
    { row with
      state := .disabled, controlEpoch := row.controlEpoch + 1
      stateReason := some (env.maskDerivedText reason) }
  checks := by
    intro row holds
    exact ⟨holds.contract, holds.contractRevision, Int.le_add_one holds.controlEpoch⟩
  noRewind := by
    intro row
    exact ⟨Int.le_add_one (Int.le_refl _), Int.le_refl _⟩
  expiredTerminal := by
    intro row selected isExpired
    simp [isExpired] at selected

def disableResponsibility (s : RespStore) (id : Id) (expectedEpoch : Int)
    (reason : Text) (now : Instant) : RespCas × RespStore :=
  let edit := disableEdit env id expectedEpoch reason
  let written := s.updateResponsibilities edit
  let after :=
    if s.changes edit = 1 then
      retireSubscriptions env written id .cancelled "disabled".toList (respTs now)
    else written
  (s.casResult edit after id, after)

def failureReason : Text := "consecutive_failures".toList

def enableEdit (expectedEpoch : Int) : RespEdit where
  sel row :=
    row.responsibilityId == id && row.state == .disabled && row.controlEpoch == expectedEpoch
  set_ row :=
    { row with
      state := if row.exhausted then .failurePaused else .active
      stateReason := if row.exhausted then some failureReason else none
      controlEpoch := row.controlEpoch + 1 }
  checks := by
    intro row holds
    exact ⟨holds.contract, holds.contractRevision, Int.le_add_one holds.controlEpoch⟩
  noRewind := by
    intro row
    exact ⟨Int.le_add_one (Int.le_refl _), Int.le_refl _⟩
  expiredTerminal := by intro row; simp +contextual

def enableResponsibility (s : RespStore) (id : Id) (expectedEpoch : Int)
    (make : ResponsibilityRow → List WakeupRow → Except Text (List WakeupRow)) :
    Except RespError (RespCas × RespStore) :=
  let edit := enableEdit id expectedEpoch
  let written := s.updateResponsibilities edit
  let result := s.casResult edit written id
  if s.changes edit = 1 then
    match written.getResponsibility id with
    | none => .error (.subscriptions "enabled responsibility vanished".toList)
    | some fresh =>
      match make fresh (written.disarmedSubscriptions id) with
      | .error message => .error (.subscriptions message)
      | .ok wakeups => (insertWakeups env written wakeups).map fun after => (result, after)
  else .ok (result, written)

def updateContractEdit (expectedRevision : Int) (contract : Contract)
    (checks : contract.Checks) (resubscribes : Bool) : RespEdit where
  sel row :=
    row.responsibilityId == id && row.contractRevision == expectedRevision && row.state != .expired
  set_ row :=
    { row with
      contract := contract
      contractRevision := row.contractRevision + 1
      controlEpoch := row.controlEpoch + if resubscribes then 1 else 0 }
  checks := by
    intro row holds
    refine ⟨checks, Int.le_add_one holds.contractRevision, ?_⟩
    have := holds.controlEpoch
    dsimp only
    split <;> omega
  noRewind := by
    intro row
    refine ⟨?_, Int.le_add_one (Int.le_refl _)⟩
    exact Int.le_add_of_nonneg_right (by split <;> decide)
  expiredTerminal := by intro row; simp +contextual

def updateResponsibilityContract (s : RespStore) (id : Id)
    (expectedRevision : Int) (contract : Contract)
    (resubscribe : Option (Int → Except Text (List WakeupRow))) (now : Instant) :
    Except RespError (RespCas × RespStore) :=
  if contract.texts.any fun text => !env.contractSafe text then .error .unsafeContract
  else if checks : contract.Checks then
    let edit := updateContractEdit id expectedRevision contract checks resubscribe.isSome
    let written := s.updateResponsibilities edit
    let result := s.casResult edit written id
    match s.changes edit, resubscribe, written.getResponsibility id with
    | 1, some make, some row =>
      let retired :=
        retireSubscriptions env written id .cancelled "epoch_changed".toList (respTs now)
      match make row.controlEpoch with
      | .error message => .error (.subscriptions message)
      | .ok wakeups =>
        (insertWakeups env retired (wakeups.map fun wakeup =>
          if row.state == .disabled then { wakeup with state := .cancelled } else wakeup)).map
            fun after => (result, after)
    | _, _, _ => .ok (result, written)
  else if s.responsibilities.rows.any fun row =>
      row.responsibilityId == id && row.contractRevision == expectedRevision &&
        row.state != .expired then
    .error (.constraint "update contract".toList)
  else .ok (.conflict (s.getResponsibility id), s)

def expireEdit : RespEdit where
  sel row := row.responsibilityId == id && row.state != .expired
  set_ row :=
    { row with
      state := .expired, controlEpoch := row.controlEpoch + 1
      stateReason := some "stop_at".toList }
  checks := by
    intro row holds
    exact ⟨holds.contract, holds.contractRevision, Int.le_add_one holds.controlEpoch⟩
  noRewind := by
    intro row
    exact ⟨Int.le_add_one (Int.le_refl _), Int.le_refl _⟩
  expiredTerminal := by intro row _ _; rfl

/-- One round of the loop of `expire_due_responsibilities`. -/
def expireOne (now : Instant) (s : RespStore) (id : Id) : RespStore :=
  let written := s.updateResponsibilities (expireEdit id)
  if s.changes (expireEdit id) = 1 then
    retireSubscriptions env written id .expired "stop_at".toList (respTs now)
  else written

/-- `expire_due_responsibilities`; a malformed `stop_at` counts as passed. -/
def expireDueResponsibilities (s : RespStore) (now : Instant) : RespStore :=
  let due := s.responsibilities.rows.filter fun row =>
    row.state != .expired && row.contract.stopAt.all fun stop => stop ≤ now
  (due.map ResponsibilityRow.responsibilityId).foldl (expireOne env now) s

/-- The reason a window that ran out leaves behind. -/
def budgetReason (periodKey : Text) : Text := "budget:".toList ++ periodKey

def budgetPauseEdit (periodKey : Text) : RespEdit where
  sel row := row.responsibilityId == id && row.state == .active
  set_ row := { row with state := .budgetPaused, stateReason := some (budgetReason periodKey) }
  expiredTerminal := by intro row; simp +contextual

def markBudgetPaused (id : Id) (periodKey : Text) : Bool × RespStore :=
  let edit := budgetPauseEdit id periodKey
  (s.changes edit == 1, s.updateResponsibilities edit)

def budgetResumeEdit (currentPeriodKey : Text) : RespEdit where
  sel row :=
    row.responsibilityId == id && row.state == .budgetPaused &&
      row.stateReason.getD [] != budgetReason currentPeriodKey
  set_ row := { row with state := .active, stateReason := none }
  expiredTerminal := by intro row; simp +contextual

def resumeBudgetWindow (id : Id) (currentPeriodKey : Text) : Bool × RespStore :=
  let edit := budgetResumeEdit id currentPeriodKey
  (s.changes edit == 1, s.updateResponsibilities edit)

/-! ## Facts -/

def armWakeup (s : RespStore) (wakeup : WakeupRow) (agentLimit : Option Nat) :
    Except RespError RespStore :=
  match s.getResponsibility wakeup.responsibilityId with
  | none => .error .notFound
  | some resp =>
    if resp.controlEpoch != wakeup.controlEpoch || resp.state == .expired then
      .error .epochChanged
    else
      let live := s.wakeups.rows.countP fun other =>
        other.responsibilityId == wakeup.responsibilityId && other.state == .armed &&
          other.agentArmed
      if agentLimit.any fun limit => limit ≤ live then .error .agentFollowupLimit
      else s.insertWakeup env wakeup

/-- The retention DELETE of `record_fire`. -/
def pruneFires (responsibilityId : Id) (cutoff : Instant) : RespStore :=
  { s with
    fires := s.fires.deleteWhere fun fire =>
      fire.responsibilityId == responsibilityId && fire.state != .pending &&
        fire.settledAt.any fun settled => settled < cutoff }

/-- `UPDATE task_wakeups SET due_at = new WHERE state = 'armed' AND due_at = old`. -/
def moveDue (wakeupId : Id) (oldDue newDue : Text) : RespStore :=
  s.updateWakeups
    (fun wakeup =>
      if wakeup.wakeupId == wakeupId && wakeup.state == .armed && wakeup.dueAt == some oldDue then
        { wakeup with dueAt := some newDue }
      else wakeup)
    (by intro wakeup; split <;> rfl)

def advanceWakeupDue (wakeupId : Id) (oldDue newDue : Text) : Bool × RespStore :=
  (s.wakeups.rows.any fun wakeup =>
      wakeup.wakeupId == wakeupId && wakeup.state == .armed && wakeup.dueAt == some oldDue,
    s.moveDue wakeupId oldDue newDue)

/-- The subscription a fact is recorded for: armed, on the current epoch of a
responsibility that has not expired. -/
def liveWakeup (wakeupId : Id) : Option WakeupRow :=
  s.wakeups.rows.find? fun wakeup =>
    wakeup.wakeupId == wakeupId && wakeup.state == .armed &&
      s.responsibilities.rows.any fun resp =>
        resp.responsibilityId == wakeup.responsibilityId &&
          wakeup.controlEpoch == resp.controlEpoch && resp.state != .expired

/-- `CHECK(reason IN (..))`. -/
def fireReasons : List Text :=
  ["time".toList, "event".toList, "decision".toList, "timeout".toList]

/-- The row `record_fire` inserts. -/
def newFireRow (fireId : Id) (fire : NewFire) (wakeup : WakeupRow)
    (overCap : Bool) (at_ : Instant) : FireRow where
  fireId := fireId
  wakeupId := wakeup.wakeupId
  responsibilityId := wakeup.responsibilityId
  controlEpoch := wakeup.controlEpoch
  fireKey := fire.fireKey
  reason := env.maskDerivedText fire.reason
  dataJson := if overCap then none else fire.dataJson.map env.maskDerivedText
  guardFlagsJson := if overCap then none else fire.guardFlagsJson.map env.maskDerivedText
  state := if fire.dropped.isSome || overCap then .dropped else .pending
  dropReason :=
    (fire.dropped <|> if overCap then some "pending_cap".toList else none).map env.maskDerivedText
  occurrenceTaskId := none
  observedAt := at_
  settledAt := if fire.dropped.isSome || overCap then some at_ else none

/-- The INSERT of `record_fire`: whether a row was written. -/
def insertFire (row : FireRow) : Except RespError (Bool × RespStore) :=
  if row.reason ∉ fireReasons then .error (.constraint "record fire".toList)
  else if s.fires.rows.any fun other =>
      other.responsibilityId == row.responsibilityId && other.fireKey == row.fireKey then
    .ok (false, s)
  else
    match s.fires.insert row with
    | none => .error (.constraint "record fire".toList)
    | some fires => .ok (true, { s with fires := fires })

/-- The facts of the subscription's responsibility after the retention DELETE. -/
def prunedFor (wakeupId : Id) (now : Instant) : RespStore :=
  match s.wakeups.rows.find? fun wakeup => wakeup.wakeupId == wakeupId with
  | none => s
  | some wakeup => s.pruneFires wakeup.responsibilityId (respTs (now - fireRetention))

def pendingCount (responsibilityId : Id) : Nat :=
  s.fires.rows.countP fun fire =>
    fire.responsibilityId == responsibilityId && fire.state == .pending

/-- The due time a recurring wake-up moves to with its fact. -/
def advanceDue (wakeupId : Id) : Option (Text × Text) → RespStore
  | some (oldDue, newDue) => s.moveDue wakeupId oldDue newDue
  | none => s

/-- `record_fire` after the retention DELETE. -/
def recordPruned (s : RespStore) (fireId : Id) (fire : NewFire)
    (advance : Option (Text × Text)) (now : Instant) : Except RespError (Bool × RespStore) :=
  match s.liveWakeup fire.wakeupId with
  | none => .ok (false, s.advanceDue fire.wakeupId advance)
  | some wakeup =>
    let overCap :=
      fire.dropped.isNone && decide (maxPendingFires ≤ s.pendingCount wakeup.responsibilityId)
    (s.insertFire (newFireRow env fireId fire wakeup overCap (respTs now))).map
      fun (written, t) => (written, t.advanceDue fire.wakeupId advance)

/-- `record_fire`; `fireId` is the new UUID. -/
def recordFire (s : RespStore) (fireId : Id) (fire : NewFire)
    (advance : Option (Text × Text)) (now : Instant) : Except RespError (Bool × RespStore) :=
  (s.prunedFor fire.wakeupId now).recordPruned env fireId fire advance now

def dropPendingFires (responsibilityId : Id) (reason dropReason : Text)
    (now : Instant) : RespStore :=
  s.settleFires (fun fire => fire.responsibilityId == responsibilityId && fire.reason == reason)
    (.dropped dropReason) (respTs now)

/-- `pending_fires_conn`. -/
def pendingFires (responsibilityId : Id) : List FireRow :=
  (s.fires.rows.filter fun fire =>
    fire.responsibilityId == responsibilityId && fire.state == .pending).insertionSort
      fun a b => a.observedAt < b.observedAt ∨ a.observedAt = b.observedAt ∧ a.fireId ≤ b.fireId

end RespStore

end DuDuClaw.Responsibility
