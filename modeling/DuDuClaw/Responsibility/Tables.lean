/-
# Responsibility.Tables -- responsibilities, wake-ups, facts and occurrences

The tables of task_store/resp_schema.rs with their CHECKs, unique indexes and triggers.
The state carries what the database enforces: a row that breaks a CHECK or takes a key is
not stored, and an UPDATE is only built together with the reason why no trigger refuses it.

Instants are nanoseconds since the epoch; a stored timestamp is a whole second.  Counters
that grow by one with each operation are unbounded.

* `RespEdit`: the UPDATEs of `responsibilities`; they never rewind an epoch or a revision
  and never revive an expired row.
* `FireRow.settle`: the only UPDATE of a fact, from pending to one of the other states.
-/
import DuDuClaw.Lib.Indexed
import DuDuClaw.TaskStore.Rows
import Mathlib.Algebra.Group.Int.Defs
import Mathlib.Data.Char
import Mathlib.Data.List.Lex

namespace DuDuClaw.Responsibility

open DuDuClaw.Lib
open DuDuClaw.TaskStore (Text Id InsertEnv InsertError NewTask StoreOp)

/-! ## Time -/

abbrev Instant := Int

def second : Int := 10 ^ 9

/-- `resp_ts`: an instant cut to its whole second. -/
def respTs (now : Instant) : Instant := now / second * second

theorem respTs_le_respTs {a b : Instant} (le : a ≤ b) : respTs a ≤ respTs b :=
  Int.mul_le_mul_of_nonneg_right (Int.ediv_le_ediv (by decide) le) (by decide)

def fireRetentionDays : Int := 30

/-- `chrono::Duration::days(FIRE_RETENTION_DAYS)`. -/
def fireRetention : Int := fireRetentionDays * 86400 * second

def maxPendingFires : Nat := 100

/-! ## Responsibilities -/

inductive State where
  | active
  | paused
  | disabled
  | budgetPaused
  | failurePaused
  | expired
  deriving DecidableEq

/-- `ResponsibilityContract`; `stopAt` is what `parse_ts` reads of `stop_at`. -/
structure Contract where
  objective : Text
  acceptanceTemplate : Text
  scopeJson : Text
  sourceRefsJson : Text
  notificationPolicyJson : Text
  scheduleJson : Option Text
  occurrenceHours : Int
  occurrenceCostCapCents : Int
  periodCostLimitCents : Int
  periodOccurrenceLimit : Int
  minWakeIntervalSecs : Int
  maxConsecutiveFailures : Int
  stopAt : Option Instant

structure Contract.Checks (c : Contract) : Prop where
  objective : 1 ≤ c.objective.length ∧ c.objective.length ≤ 4000
  acceptanceTemplate : 1 ≤ c.acceptanceTemplate.length ∧ c.acceptanceTemplate.length ≤ 4000
  occurrenceHours : 1 ≤ c.occurrenceHours ∧ c.occurrenceHours ≤ 72
  occurrenceCostCapCents : 0 < c.occurrenceCostCapCents
  periodCostLimitCents : c.occurrenceCostCapCents ≤ c.periodCostLimitCents
  periodOccurrenceLimit : 1 ≤ c.periodOccurrenceLimit ∧ c.periodOccurrenceLimit ≤ 96
  minWakeIntervalSecs : 300 ≤ c.minWakeIntervalSecs
  maxConsecutiveFailures : 1 ≤ c.maxConsecutiveFailures ∧ c.maxConsecutiveFailures ≤ 10

instance (c : Contract) : Decidable c.Checks :=
  decidable_of_iff
    ((1 ≤ c.objective.length ∧ c.objective.length ≤ 4000) ∧
      (1 ≤ c.acceptanceTemplate.length ∧ c.acceptanceTemplate.length ≤ 4000) ∧
      (1 ≤ c.occurrenceHours ∧ c.occurrenceHours ≤ 72) ∧ 0 < c.occurrenceCostCapCents ∧
      c.occurrenceCostCapCents ≤ c.periodCostLimitCents ∧
      (1 ≤ c.periodOccurrenceLimit ∧ c.periodOccurrenceLimit ≤ 96) ∧
      300 ≤ c.minWakeIntervalSecs ∧
      (1 ≤ c.maxConsecutiveFailures ∧ c.maxConsecutiveFailures ≤ 10))
    ⟨fun ⟨a, b, c, d, e, f, g, h⟩ => ⟨a, b, c, d, e, f, g, h⟩,
      fun ⟨a, b, c, d, e, f, g, h⟩ => ⟨a, b, c, d, e, f, g, h⟩⟩

/-- What `require_safe_contract` is asked about. -/
def Contract.texts (c : Contract) : List Text :=
  [c.objective, c.acceptanceTemplate, c.scopeJson, c.sourceRefsJson, c.notificationPolicyJson] ++
    c.scheduleJson.toList

/-- A row of `responsibilities`; `lastOccurrenceAt` is what `parse_ts` reads of the column. -/
structure ResponsibilityRow where
  responsibilityId : Id
  contract : Contract
  state : State
  stateReason : Option Text
  contractRevision : Int
  controlEpoch : Int
  consecutiveFailures : Int
  lastOccurrenceAt : Option Instant

structure ResponsibilityRow.Checks (row : ResponsibilityRow) : Prop where
  contract : row.contract.Checks
  contractRevision : 1 ≤ row.contractRevision
  controlEpoch : 1 ≤ row.controlEpoch

instance (row : ResponsibilityRow) : Decidable row.Checks :=
  decidable_of_iff (row.contract.Checks ∧ 1 ≤ row.contractRevision ∧ 1 ≤ row.controlEpoch)
    ⟨fun ⟨a, b, c⟩ => ⟨a, b, c⟩, fun ⟨a, b, c⟩ => ⟨a, b, c⟩⟩

def ResponsibilityRow.exhausted (row : ResponsibilityRow) : Bool :=
  row.contract.maxConsecutiveFailures ≤ row.consecutiveFailures

def ResponsibilityRow.keys (row : ResponsibilityRow) : List Id := [row.responsibilityId]

/-! ## Wake-ups and facts -/

inductive WakeupKind where
  | time
  | event
  | decision
  deriving DecidableEq

inductive WakeupState where
  | armed
  | consumed
  | cancelled
  | expired
  deriving DecidableEq

/-- A row of `task_wakeups`. -/
structure WakeupRow where
  wakeupId : Id
  responsibilityId : Id
  controlEpoch : Int
  kind : WakeupKind
  recurring : Bool
  dueAt : Option Text
  eventFilterJson : Option Text
  armedBy : Text
  state : WakeupState
  createdAt : Text

def WakeupRow.keys (wakeup : WakeupRow) : List Id := [wakeup.wakeupId]

/-- `armed_by LIKE 'agent:%'`; LIKE folds ASCII case. -/
def WakeupRow.agentArmed (wakeup : WakeupRow) : Bool :=
  "agent:".toList.isPrefixOf (wakeup.armedBy.map Char.toLower)

inductive FireState where
  | pending
  | consumed
  | coalesced
  | dropped
  deriving DecidableEq

/-- A row of `wakeup_fires`. -/
structure FireRow where
  fireId : Id
  wakeupId : Id
  responsibilityId : Id
  controlEpoch : Int
  fireKey : Text
  reason : Text
  dataJson : Option Text
  guardFlagsJson : Option Text
  state : FireState
  dropReason : Option Text
  occurrenceTaskId : Option Id
  observedAt : Instant
  settledAt : Option Instant
  deriving DecidableEq

structure NewFire where
  wakeupId : Id
  fireKey : Text
  reason : Text
  dataJson : Option Text
  guardFlagsJson : Option Text
  dropped : Option Text

/-- The unique indexes of `wakeup_fires`. -/
inductive FireIndex where
  | fireId (id : Id)
  | fireKey (responsibilityId : Id) (key : Text)
  deriving DecidableEq

def FireRow.keys (fire : FireRow) : List FireIndex :=
  [.fireId fire.fireId, .fireKey fire.responsibilityId fire.fireKey]

/-- Where a pending fact goes. -/
inductive FireEnd where
  | dropped (reason : Text)
  | consumed (taskId : Id)
  | coalesced (taskId : Id)

def FireRow.settle (how : FireEnd) (at_ : Instant) (fire : FireRow) : FireRow :=
  match how with
  | .dropped reason =>
    { fire with state := .dropped, dropReason := some reason, settledAt := some at_ }
  | .consumed taskId =>
    { fire with state := .consumed, occurrenceTaskId := some taskId, settledAt := some at_ }
  | .coalesced taskId =>
    { fire with state := .coalesced, occurrenceTaskId := some taskId, settledAt := some at_ }

/-- `UPDATE wakeup_fires SET .. WHERE state = 'pending' AND ..`. -/
def FireRow.settleIf (sel : FireRow → Bool) (how : FireEnd) (at_ : Instant) (fire : FireRow) :
    FireRow :=
  if fire.state == .pending && sel fire then fire.settle how at_ else fire

theorem FireRow.settleIf_keys (sel : FireRow → Bool) (how : FireEnd) (at_ : Instant)
    (fire : FireRow) : (fire.settleIf sel how at_).keys = fire.keys := by
  unfold settleIf
  split
  · cases how <;> rfl
  · rfl

/-! ## Occurrences -/

inductive Outcome where
  | done
  | failed
  | cancelled
  | stopped
  | stoppedCounted
  | blocked

/-- The texts `settle_occurrence` takes. -/
def Outcome.ofText (text : Text) : Option Outcome :=
  [("done", Outcome.done), ("failed", .failed), ("cancelled", .cancelled), ("stopped", .stopped),
    ("stopped_counted", .stoppedCounted), ("blocked", .blocked)].findSome? fun (name, outcome) =>
      if name.toList = text then some outcome else none

inductive CostBasis where
  | measured
  | reservedUnknown

/-- A row of `responsibility_occurrences`. -/
structure OccurrenceRow where
  responsibilityId : Id
  occurrenceKey : Id
  taskId : Id
  contractRevision : Int
  controlEpoch : Int
  periodKey : Text
  reservedCents : Int
  chargedCents : Option Int
  costBasis : Option CostBasis
  outcome : Option Outcome
  predecessorTaskId : Option Id
  createdAt : Instant
  settledAt : Option Instant

/-- The unique indexes of `responsibility_occurrences`; `oneOpen` is partial. -/
inductive OccurrenceIndex where
  | primary (responsibilityId : Id) (key : Id)
  | task (taskId : Id)
  | oneOpen (responsibilityId : Id)
  deriving DecidableEq

def OccurrenceRow.isOpen (occurrence : OccurrenceRow) : Bool := occurrence.outcome.isNone

def OccurrenceRow.keys (occurrence : OccurrenceRow) : List OccurrenceIndex :=
  [.primary occurrence.responsibilityId occurrence.occurrenceKey, .task occurrence.taskId] ++
    if occurrence.isOpen then [.oneOpen occurrence.responsibilityId] else []

/-! ## The store -/

structure RespStore where
  tasks : TaskStore.Store
  responsibilities : Indexed ResponsibilityRow.keys
  checked : ∀ row ∈ responsibilities.rows, row.Checks
  wakeups : Indexed WakeupRow.keys
  fires : Indexed FireRow.keys
  occurrences : Indexed OccurrenceRow.keys

/-! An id names one row. -/

variable (s : RespStore)

theorem RespStore.responsibility_unique {a b : ResponsibilityRow}
    (left : a ∈ s.responsibilities.rows) (right : b ∈ s.responsibilities.rows)
    (same : a.responsibilityId = b.responsibilityId) : a = b :=
  s.responsibilities.unique (k := b.responsibilityId) left right
    (by simp [ResponsibilityRow.keys, same]) (by simp [ResponsibilityRow.keys])

theorem RespStore.wakeup_unique {a b : WakeupRow} (left : a ∈ s.wakeups.rows)
    (right : b ∈ s.wakeups.rows) (same : a.wakeupId = b.wakeupId) : a = b :=
  s.wakeups.unique (k := b.wakeupId) left right (by simp [WakeupRow.keys, same])
    (by simp [WakeupRow.keys])

theorem RespStore.fire_unique {a b : FireRow} (left : a ∈ s.fires.rows)
    (right : b ∈ s.fires.rows) (same : a.fireId = b.fireId) : a = b :=
  s.fires.unique (k := .fireId b.fireId) left right (by simp [FireRow.keys, same])
    (by simp [FireRow.keys])

theorem RespStore.occurrence_unique {a b : OccurrenceRow}
    (left : a ∈ s.occurrences.rows) (right : b ∈ s.occurrences.rows) (same : a.taskId = b.taskId) : a = b :=
  s.occurrences.unique (k := .task b.taskId) left right (by simp [OccurrenceRow.keys, same])
    (by simp [OccurrenceRow.keys])

def RespStore.empty (tasks : TaskStore.Store) : RespStore where
  tasks := tasks
  responsibilities := .empty
  checked _ listed := absurd listed List.not_mem_nil
  wakeups := .empty
  fires := .empty
  occurrences := .empty

/-- An UPDATE of `responsibilities`: no CHECK, `resp_no_rewind` or `resp_expired_terminal`
refuses it. -/
structure RespEdit where
  sel : ResponsibilityRow → Bool
  set_ : ResponsibilityRow → ResponsibilityRow
  keepsId : ∀ row, (set_ row).responsibilityId = row.responsibilityId := by intro row; rfl
  checks : ∀ row, row.Checks → (set_ row).Checks := by
    intro row holds
    exact ⟨holds.contract, holds.contractRevision, holds.controlEpoch⟩
  noRewind : ∀ row, row.controlEpoch ≤ (set_ row).controlEpoch ∧
    row.contractRevision ≤ (set_ row).contractRevision := by
      intro row
      exact ⟨Int.le_refl _, Int.le_refl _⟩
  expiredTerminal : ∀ row, sel row = true → row.state = .expired → (set_ row).state = .expired

variable (edit : RespEdit)

def RespEdit.apply (row : ResponsibilityRow) : ResponsibilityRow :=
  if edit.sel row then edit.set_ row else row

theorem RespEdit.apply_id (row : ResponsibilityRow) :
    (edit.apply row).responsibilityId = row.responsibilityId := by
  unfold apply
  split
  · exact edit.keepsId row
  · rfl

theorem RespEdit.apply_epoch (row : ResponsibilityRow) :
    row.controlEpoch ≤ (edit.apply row).controlEpoch := by
  unfold apply
  split
  · exact (edit.noRewind row).1
  · exact Int.le_refl _

namespace RespStore

variable (s : RespStore)

def getResponsibility (id : Id) : Option ResponsibilityRow :=
  s.responsibilities.rows.find? fun row => row.responsibilityId == id

def updateResponsibilities (edit : RespEdit) : RespStore :=
  { s with
    responsibilities := s.responsibilities.update edit.apply fun row => by
      rw [ResponsibilityRow.keys, edit.apply_id]
      exact List.Subset.refl _
    checked := by
      intro row listed
      obtain ⟨old, isOld, rfl⟩ := Indexed.mem_update.mp listed
      unfold RespEdit.apply
      split
      · exact edit.checks old (s.checked old isOld)
      · exact s.checked old isOld }

theorem mem_updateResponsibilities {s : RespStore} {edit : RespEdit} {row : ResponsibilityRow} :
    row ∈ (s.updateResponsibilities edit).responsibilities.rows ↔
      ∃ old ∈ s.responsibilities.rows, edit.apply old = row :=
  List.mem_map

/-- How many rows the statement changed. -/
def changes (edit : RespEdit) : Nat := s.responsibilities.rows.countP edit.sel

/-- An UPDATE of `task_wakeups`, outside the primary key. -/
def updateWakeups (edit : WakeupRow → WakeupRow)
    (keepsId : ∀ wakeup, (edit wakeup).wakeupId = wakeup.wakeupId) : RespStore :=
  { s with
    wakeups := s.wakeups.update edit fun wakeup => by
      rw [WakeupRow.keys, keepsId]
      exact List.Subset.refl _ }

def settleFires (sel : FireRow → Bool) (how : FireEnd) (at_ : Instant) :
    RespStore :=
  { s with
    fires := s.fires.update (FireRow.settleIf sel how at_) fun fire => by
      rw [FireRow.settleIf_keys]
      exact List.Subset.refl _ }

end RespStore

end DuDuClaw.Responsibility
