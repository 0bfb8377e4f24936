/-
# TaskStore.Iterations -- the ledger of a task's rounds

The rows of `task_iterations` (task_store/iterations.rs) beside the task table, and the
column `agent_seconds` that a completion adds to.  An attempt of a round is opened by a
dispatch, stamped by the submission of the worker and sealed by a verdict.

The operations on the task table are those of `Lifecycle`; a completion, a verdict and an
escalation write the ledger after it, when they changed the task.
-/
import DuDuClaw.Lib.Fallible
import DuDuClaw.Lib.Table
import DuDuClaw.TaskStore.Stop
import Mathlib.Algebra.Ring.Int.Defs
import Mathlib.Data.List.Sort

namespace DuDuClaw.TaskStore

open DuDuClaw.Lib

/-! ## Rows -/

structure IterationRow where
  id : Nat
  taskId : Id
  round : Int
  dispatchedAt : Text
  submittedAt : Option Text
  judgedAt : Option Text
  verdict : Option Text
  judgeFeedback : Option Text
  feedbackClass : Option Text
  verdictJson : Option Text
  dispatchCount : Int
  stateHash : Option Text
  repeatStreak : Option Int
  workerExcerpt : Option Text
  evaluatorVerdict : Option Text
  iterSeq : Option Int
  teamMode : Option Text
  gateInputsJson : Option Text
  stateBlockJson : Option Text
  knobsJson : Option Text
  pauseReason : Option Text
  criteriaLedgerJson : Option Text

/-- The values of an INSERT that names three columns. -/
def IterationRow.opened (taskId : Id) (round : Int) (dispatchedAt : Text) : IterationRow where
  id := 0
  taskId := taskId
  round := round
  dispatchedAt := dispatchedAt
  submittedAt := none
  judgedAt := none
  verdict := none
  judgeFeedback := none
  feedbackClass := none
  verdictJson := none
  dispatchCount := 1
  stateHash := none
  repeatStreak := none
  workerExcerpt := none
  evaluatorVerdict := none
  iterSeq := none
  teamMode := none
  gateInputsJson := none
  stateBlockJson := none
  knobsJson := none
  pauseReason := none
  criteriaLedgerJson := none

def IterationRow.withId (row : IterationRow) (id : Nat) : IterationRow := { row with id := id }

def IterationRow.stamp (now : Text) (row : IterationRow) : IterationRow :=
  { row with submittedAt := some now }

/-- `judged_at IS NOT NULL OR verdict IS NOT NULL`. -/
def IterationRow.isSealed (row : IterationRow) : Bool := row.judgedAt.isSome || row.verdict.isSome

/-- `ORDER BY round DESC, id DESC`. -/
def IterationRow.Before (a b : IterationRow) : Prop := b.round < a.round ∨ a.round = b.round ∧ b.id ≤ a.id

instance : DecidableRel IterationRow.Before := fun a b => by
  unfold IterationRow.Before
  infer_instance

/-- `task_iterations`; no id is given twice (AUTOINCREMENT). -/
structure Iterations where
  table : Table IterationRow.id
  next : Nat
  below : ∀ row ∈ table.rows, row.id < next

namespace Iterations

def empty : Iterations := ⟨.empty, 1, fun _ listed => nomatch listed⟩

def rows (its : Iterations) : List IterationRow := its.table.rows

/-- INSERT: the row gets the next id. -/
def insert (its : Iterations) (row : IterationRow) : IterationRow × Iterations :=
  let row := row.withId its.next
  (row,
    { table :=
        { rows := its.rows ++ [row]
          distinct := nodup_map_concat its.table.distinct fun other listed =>
            Nat.ne_of_lt (its.below other listed) }
      next := its.next + 1
      below := by
        intro other listed
        rcases List.mem_append.mp listed with old | new
        · exact Nat.lt_succ_of_lt (its.below other old)
        · rw [List.mem_singleton.mp new]
          exact Nat.lt_succ_self _ })

/-- `UPDATE .. WHERE id = ..`. -/
def edit (its : Iterations) (id : Nat) (f : IterationRow → IterationRow)
    (keeps : ∀ row, (f row).id = row.id := by intro row; rfl) : Iterations where
  table := its.table.update (fun row => if row.id = id then f row else row)
    fun row => keep_ite IterationRow.id (keeps row)
  next := its.next
  below := by
    intro row listed
    obtain ⟨old, there, rfl⟩ := Table.mem_update.mp listed
    have same : (if old.id = id then f old else old).id = old.id := keep_ite IterationRow.id (keeps old)
    rw [same]
    exact its.below old there

/-- `SELECT .. WHERE .. ORDER BY round DESC, id DESC LIMIT 1`. -/
def latest (its : Iterations) (sel : IterationRow → Bool) : Option IterationRow :=
  ((its.rows.filter sel).insertionSort IterationRow.Before).head?

end Iterations

/-! ## Writing the ledger -/

/-- What lives in other places: the credential check of frozen contracts, the bounded
excerpt of a worker's output, and the RFC 3339 parser, in nanoseconds. -/
structure LedgerEnv extends Env where
  safeContract : Text → Bool
  workerExcerpt : Option Text → Option Text
  parse : Text → Option Int

structure IterationDispatchLedger where
  iterSeq : Option Int
  teamMode : Option Text
  gateInputsJson : Option Text
  stateBlockJson : Option Text

def unsafeContract : Text := "credentials are not accepted in frozen task contracts".toList

/-- Whole seconds, floored at zero; a stamp that does not parse gives zero. -/
def roundSeconds (env : LedgerEnv) (dispatchedAt submittedAt : Text) : Int :=
  match env.parse dispatchedAt, env.parse submittedAt with
  | some d, some s =>
    let seconds := (s - d).tdiv 1000000000
    if seconds < 0 then 0 else seconds
  | _, _ => 0

namespace Iterations

variable (env : LedgerEnv) (its : Iterations)

def requireSafeContract (text : Text) : Except Text Unit :=
  refuseIf (env.safeContract text = false) unsafeContract

/-- `iter_dispatch_conn`. -/
def dispatch (taskId : Id) (round : Int) (now : Text) (stateHash : Option Text)
    (repeatStreak : Option Int) (ledger : IterationDispatchLedger) : Except Text Iterations := do
  ledger.stateBlockJson.forM (requireSafeContract env)
  let fresh := (its.insert
    { IterationRow.opened taskId round now with
      stateHash := stateHash
      repeatStreak := repeatStreak
      iterSeq := ledger.iterSeq
      teamMode := ledger.teamMode
      gateInputsJson := ledger.gateInputsJson.map env.maskDerivedText
      stateBlockJson := ledger.stateBlockJson }).2
  -- all of them have this round, so the latest is the one with the greatest id
  match its.latest fun row => row.taskId == taskId && row.round == round with
  | none => return fresh
  | some row =>
    if row.isSealed then return fresh
    else return its.edit row.id fun row =>
      { row with
        dispatchCount := row.dispatchCount + 1
        stateHash := stateHash.or row.stateHash
        repeatStreak := repeatStreak.or row.repeatStreak
        iterSeq := ledger.iterSeq.or row.iterSeq
        teamMode := ledger.teamMode.or row.teamMode
        gateInputsJson := (ledger.gateInputsJson.map env.maskDerivedText).or row.gateInputsJson
        stateBlockJson := ledger.stateBlockJson.or row.stateBlockJson }

/-- The attempt a submission stamps: the latest open one, or one that is opened for it. -/
def attempt (taskId : Id) (fallbackRound : Int) (fallbackDispatch : Text) :
    IterationRow × Iterations :=
  match its.latest fun row => row.taskId == taskId && row.submittedAt.isNone && !row.isSealed with
  | some row => (row, its)
  | none => its.insert (IterationRow.opened taskId fallbackRound fallbackDispatch)

/-- `iter_submit_conn`. -/
def submit (taskId : Id) (now : Text) (fallbackRound : Int) (fallbackDispatch : Text) :
    Int × Iterations :=
  let (row, its) := its.attempt taskId fallbackRound fallbackDispatch
  (roundSeconds env row.dispatchedAt now,
    its.edit row.id (IterationRow.stamp now))

/-- `WHERE task_id = .. AND judged_at IS NULL AND verdict IS NULL`. -/
def unjudged (taskId : Id) : Option IterationRow :=
  its.latest fun row => row.taskId == taskId && !row.isSealed

/-- An UPDATE of the latest unjudged row, if there is one. -/
def editUnjudged (taskId : Id) (f : IterationRow → IterationRow)
    (keeps : ∀ row, (f row).id = row.id := by intro row; rfl) : Iterations :=
  match its.unjudged taskId with
  | none => its
  | some row => its.edit row.id f keeps

/-- `iter_verdict_conn`. -/
def judge (taskId verdict feedback : Text)
    (verdictJson workerExcerpt knobsJson pauseReason : Option Text) (now : Text) : Iterations :=
  its.editUnjudged taskId fun row =>
    { row with
      judgedAt := some now
      verdict := some verdict
      judgeFeedback := some (env.maskDerivedText feedback)
      verdictJson := verdictJson.map env.maskDerivedText
      workerExcerpt := workerExcerpt.map env.maskDerivedText
      knobsJson := knobsJson.map env.maskDerivedText
      pauseReason := (pauseReason.map env.maskDerivedText).or row.pauseReason }

/-- `iter_escalate_seal_conn`: no judge ruled, so there is no feedback. -/
def escalateSeal (taskId pauseReason : Text) (workerExcerpt knobsJson : Option Text) (now : Text) :
    Iterations :=
  its.editUnjudged taskId fun row =>
    { row with
      judgedAt := some now
      verdict := some "escalated".toList
      workerExcerpt := workerExcerpt.map env.maskDerivedText
      knobsJson := knobsJson.map env.maskDerivedText
      pauseReason := some (env.maskDerivedText pauseReason) }

/-- `record_iteration_evaluator_verdict`. -/
def recordEvaluatorVerdict (taskId evaluatorVerdict : Text) : Iterations :=
  its.editUnjudged taskId fun row =>
    { row with evaluatorVerdict := some (env.maskDerivedText evaluatorVerdict) }

/-- `set_criteria_ledger`, as far as it writes a round. -/
def setCriteriaLedger (taskId ledgerJson : Text) : Except Text Iterations := do
  requireSafeContract env ledgerJson
  return its.editUnjudged taskId fun row => { row with criteriaLedgerJson := some ledgerJson }

/-- `stamp_iteration_pause`: the latest row, sealed or not, unless it has a pause class. -/
def stampPause (taskId pause : Text) : Iterations :=
  match its.latest fun row => row.taskId == taskId with
  | none => its
  | some row =>
    if row.pauseReason.isSome then its
    else its.edit row.id fun row => { row with pauseReason := some (env.maskDerivedText pause) }

end Iterations

/-! ## The two tables -/

/-- What `tasks.agent_seconds` holds: an integer, or a REAL once a sum has left the 64-bit
integers. -/
inductive AgentClock where
  | seconds (n : Int)
  | real

/-- `i64::MAX`. -/
def agentSecondsMax : Int := 2 ^ 63 - 1

/-- `agent_seconds + ..`. -/
def AgentClock.add : AgentClock → Int → AgentClock
  | .seconds m, n => if m + n ≤ agentSecondsMax then .seconds (m + n) else .real
  | .real, _ => .real

/-- The task table with its column `agent_seconds`, and the ledger. -/
structure LedgerStore where
  tasks : Store
  agentSeconds : Id → AgentClock
  iterations : Iterations

def LedgerStore.start (tasks : Store) : LedgerStore := ⟨tasks, fun _ => .seconds 0, .empty⟩

namespace LedgerStore

variable (env : LedgerEnv) (s : LedgerStore)

/-- The goal that a completion sends to review: its row, where it has one to send. -/
def handedIn (id caller : Text) : Option TaskRow :=
  match (s.tasks.getTask id).filter TaskRow.isWork with
  | none => none
  | some row =>
    if s.tasks.inStopTree id then none
    else if row.claimedBy.any (· != caller) then none
    else if row.goalMode && s.tasks.changes (unfinished id) == 1 then some row
    else none

/-- `complete_task`: the submission of a goal's round, and its seconds on the task. -/
def completeTask (id summary caller now : Text) : LedgerStore :=
  let tasks := (s.tasks.completeTask env.toEnv id summary caller now).2
  match s.handedIn id caller with
  | none => { s with tasks := tasks }
  | some row =>
    let (secs, iterations) := s.iterations.submit env id now (row.revisionRound + 1)
      (row.claimedAt.getD row.createdAt)
    { tasks := tasks
      agentSeconds :=
        if 0 < secs then Function.update s.agentSeconds id ((s.agentSeconds id).add secs)
        else s.agentSeconds
      iterations := iterations }

/-- The output of the round, as the seal keeps it. -/
def excerptOf (id : Id) : Option Text :=
  env.workerExcerpt (((s.tasks.getTask id).filter TaskRow.isWork).bind TaskRow.resultSummary)

/-- `accept_review_with_ledger`. -/
def acceptReview (id feedback : Text) (verdictJson knobsJson : Option Text) (now : Text) :
    LedgerStore :=
  let tasks := (s.tasks.acceptReview env.toEnv id feedback now).2
  if s.tasks.changes (inStatus id .review) = 1 then
    { s with
      tasks := tasks
      iterations := s.iterations.judge env id "accepted".toList feedback verdictJson
        (s.excerptOf env id) knobsJson none now }
  else { s with tasks := tasks }

/-- `reject_review_with_ledger`, on the row it read. -/
def rejectReview (read : Option TaskRow) (id feedback : Text) (softCap : Int)
    (verdictJson knobsJson : Option Text) (now : Text) : LedgerStore :=
  let tasks := (s.tasks.rejectReview env.toEnv read id feedback softCap now).2
  match read with
  | none => { s with tasks := tasks }
  | some row =>
    if s.tasks.changes (inStatus id .review) = 1 then
      let spent := !decide (row.retryCount < row.maxRetries)
      { s with
        tasks := tasks
        iterations := s.iterations.judge env id
          (if spent then "escalated".toList else "rejected".toList) feedback verdictJson
          (env.workerExcerpt row.resultSummary) knobsJson
          (if spent then some "budget_exhausted".toList else none) now }
    else { s with tasks := tasks }

def markNeedsHumanSealingRound (id reason pause : Text) (knobsJson : Option Text) (now : Text) :
    LedgerStore :=
  let out := s.tasks.markNeedsHuman env.toEnv id reason pause now
  if out.1 then
    { s with
      tasks := out.2
      iterations := s.iterations.escalateSeal env id pause
        (env.workerExcerpt (((out.2.getTask id).filter TaskRow.isWork).bind TaskRow.resultSummary))
        knobsJson now }
  else { s with tasks := out.2 }

end LedgerStore

/-! ## Operations -/

/-- The operations of a run.  Those of the task table that keep a ledger are here with its
columns, and without them as their plain forms. -/
inductive LedgerOp where
  | task (op : Op)
  | dispatch (taskId : Id) (round : Int) (now : Text) (stateHash : Option Text)
      (repeatStreak : Option Int) (ledger : IterationDispatchLedger)
  | acceptReview (id feedback : Text) (verdictJson knobsJson : Option Text) (now : Text)
  | rejectReview (read : Option TaskRow) (id feedback : Text) (softCap : Int)
      (verdictJson knobsJson : Option Text) (now : Text)
  | markNeedsHumanSealingRound (id reason pause : Text) (knobsJson : Option Text) (now : Text)
  | evaluatorVerdict (taskId evaluatorVerdict : Text)
  | criteriaLedger (taskId ledgerJson : Text)
  | stampPause (taskId pause : Text)

def LedgerStore.write (s : LedgerStore) : Except Text Iterations → LedgerStore
  | .ok iterations => { s with iterations := iterations }
  | .error _ => s

def LedgerOp.perform (env : LedgerEnv) (s : LedgerStore) : LedgerOp → LedgerStore
  | .task (.complete id summary caller now) => s.completeTask env id summary caller now
  | .task (.acceptReview id feedback now) => s.acceptReview env id feedback none none now
  | .task (.rejectReview read id feedback softCap now) =>
    s.rejectReview env read id feedback softCap none none now
  | .task op => { s with tasks := op.perform env.toEnv s.tasks }
  | .dispatch taskId round now stateHash repeatStreak ledger =>
    s.write (s.iterations.dispatch env taskId round now stateHash repeatStreak ledger)
  | .acceptReview id feedback verdictJson knobsJson now =>
    s.acceptReview env id feedback verdictJson knobsJson now
  | .rejectReview read id feedback softCap verdictJson knobsJson now =>
    s.rejectReview env read id feedback softCap verdictJson knobsJson now
  | .markNeedsHumanSealingRound id reason pause knobsJson now =>
    s.markNeedsHumanSealingRound env id reason pause knobsJson now
  | .evaluatorVerdict taskId verdict =>
    { s with iterations := s.iterations.recordEvaluatorVerdict env taskId verdict }
  | .criteriaLedger taskId ledgerJson => s.write (s.iterations.setCriteriaLedger env taskId ledgerJson)
  | .stampPause taskId pause =>
    { s with iterations := s.iterations.stampPause env taskId pause }

end DuDuClaw.TaskStore
