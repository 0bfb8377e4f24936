/-
# TaskStore.Lifecycle -- the operations on a task

The compare-and-set paths of claim.rs, the terminal and human transitions of
review.rs, `update_task` of tasks.rs and the stop of a task tree of stop.rs, each as
the one transaction it is.  `reject_review` reads its task before it takes the
lock; the row it read is its argument.

What the operations write to other tables (iterations, steering, dispatch intents,
survival evidence) is left out: no operation here reads it back.
-/
import Mathlib.Algebra.GroupWithZero.Nat
import DuDuClaw.TaskStore.Tasks

namespace DuDuClaw.TaskStore

open DuDuClaw.Lib

inductive TaskError where
  | stoppedComplete (id : Id)
  | stoppedStatus (id : Id)
  | stoppedContinue
  | heldBy (id : Id) (holder caller : Text)
  | taskNotFound (id : Id)
  | unknownDecision (decision : Text)
  | revisionMismatch
  | emptyMessage
  | parentNotUpdatable
  | discovery
  | occurrence (id : Id)
  | dependsOnShape
  | dependencyCycle (id : Id)
  | costCapRange
  | raisesCeiling
  | capWithoutGoal

/-- `mask_derived_text`, which lives in another crate. -/
structure Env where
  maskDerivedText : Text → Text

/-! ## Claiming -/

inductive ClaimOutcome where
  | claimed
  | notClaimable
  | blockedByDeps (unmet : List Id)
  deriving DecidableEq

variable (id : Id) (s : Store) (env : Env)

/-- `status IN ('pending', 'revising') AND claimed_by IS NULL`, for work. -/
def claimable (row : TaskRow) : Bool :=
  row.id == id && row.isWork && (row.status == .pending || row.status == .revising) &&
    row.claimedBy.isNone

def claimEdit (agentId now lease : Text) : Edit where
  apply row :=
    { row with
      claimedBy := some agentId
      claimedAt := some now
      leaseExpiresAt := some lease
      leaseRenewedAt := some now
      status := .inProgress
      assignedTo := agentId
      updatedAt := now }

/-- The dependencies that are not `done`; a missing one counts. -/
def Store.unmetDeps (deps : List Id) : List Id :=
  deps.filter fun dep => (s.getTask dep).map TaskRow.status != some .done

def Store.atomicClaim (id : Id) (agentId now lease : Text) : ClaimOutcome × Store :=
  match (s.getTask id).filter TaskRow.isWork with
  | none => (.notClaimable, s)
  | some row =>
    if !claimable id row then (.notClaimable, s)
    else if s.inStopTree id then (.notClaimable, s)
    else if s.unmetDeps row.dependsOn ≠ [] then (.blockedByDeps (s.unmetDeps row.dependsOn), s)
    else (.claimed, s.updateWhere (claimable id) (claimEdit agentId now lease))

def heldBy (agentId : Text) (row : TaskRow) : Bool :=
  row.id == id && row.isWork && row.claimedBy == some agentId && row.status == .inProgress

def Store.renewLease (id : Id) (agentId expiry now : Text) : Bool × Store :=
  let sel := heldBy id agentId
  (s.changes sel == 1, s.updateWhere sel
    { apply := fun row => { row with
        leaseExpiresAt := some expiry, leaseRenewedAt := some now, updatedAt := now } })

def Store.requeueZombieCas (id : Id) (claimer scannedLease : Text) (newRetry : Int)
    (now : Text) : Bool × Store :=
  let sel row := heldBy id claimer row && row.leaseExpiresAt == some scannedLease
  (s.changes sel == 1, s.updateWhere sel
    { apply := fun row => { row with
        status := .pending, claimedBy := none, claimedAt := none, leaseExpiresAt := none
        retryCount := newRetry, updatedAt := now } })

def Store.failZombieCas (id : Id) (claimer scannedLease now : Text) : Bool × Store :=
  let sel row := heldBy id claimer row && row.leaseExpiresAt == some scannedLease
  (s.changes sel == 1, s.updateWhere sel
    { apply := fun row => { row with
        status := .failed, leaseExpiresAt := none
        blockedReason := some "lease expired; retry budget exhausted".toList, updatedAt := now } })

/-! ## Completion and review -/

/-- `id = ?1 AND kind IN ('task','goal') AND status = ..`. -/
def inStatus (status : Status) (row : TaskRow) : Bool :=
  row.id == id && row.isWork && row.status == status

/-- `.. AND status NOT IN ('done', 'cancelled')`. -/
def unfinished (row : TaskRow) : Bool :=
  row.id == id && row.isWork && !(row.status == .done || row.status == .cancelled)

/-- `.. AND status NOT IN ('done', 'cancelled', 'failed')`. -/
def openTask (row : TaskRow) : Bool :=
  row.id == id && row.isWork && !row.status.isTerminal

/-- `complete_task`: goals go to review, other work is done. -/
def Store.completeTask (s : Store) (id : Id) (summary caller now : Text) :
    Except TaskError (Option TaskRow) × Store :=
  match (s.getTask id).filter TaskRow.isWork with
  | none => (.ok none, s)
  | some row =>
    if s.inStopTree id then (.error (.stoppedComplete id), s)
    else if row.claimedBy.any (· != caller) then
      (.error (.heldBy id (row.claimedBy.getD []) caller), s)
    else
      let next := s.updateWhere (unfinished id)
        (if row.goalMode then
          { apply := fun row => { row with
              status := .review, resultSummary := some (env.maskDerivedText summary)
              leaseExpiresAt := none, updatedAt := now } }
        else
          { apply := fun row => { row with
              status := .done, resultSummary := some (env.maskDerivedText summary)
              completedAt := some now, leaseExpiresAt := none, updatedAt := now } })
      (.ok (next.getTask id), next)

def Store.acceptReview (s : Store) (id : Id) (feedback now : Text) : Bool × Store :=
  let sel := inStatus id .review
  (s.changes sel == 1, s.updateWhere sel
    { apply := fun row => { row with
        status := .done, completedAt := some now
        judgeFeedback := some (env.maskDerivedText feedback), updatedAt := now } })

/-- `reject_review`, on the row it read: another round, or to a human once the
retry budget is spent. -/
def Store.rejectReview (s : Store) (read : Option TaskRow) (id : Id) (feedback : Text)
    (softCap : Int) (now : Text) : Except TaskError Status × Store :=
  match read with
  | none => (.error (.taskNotFound id), s)
  | some row =>
    if row.retryCount < row.maxRetries then
      (.ok .revising, s.updateWhere (inStatus id .review)
        { apply := fun r => { r with
            status := .revising, claimedBy := none, claimedAt := none, leaseExpiresAt := none
            retryCount := row.retryCount + 1, revisionRound := row.revisionRound + 1
            diminishing := max softCap 1 ≤ row.revisionRound + 1
            judgeFeedback := some (env.maskDerivedText feedback)
            resultSummary := none, updatedAt := now } })
    else
      (.ok .needsHuman, s.updateWhere (inStatus id .review)
        { apply := fun r => { r with
            status := .needsHuman, judgeFeedback := some (env.maskDerivedText feedback)
            pauseReason := some "budget_exhausted".toList, updatedAt := now } })

/-- `mark_needs_human_with_pause`. -/
def Store.markNeedsHuman (s : Store) (id : Id) (reason pause now : Text) :
    Bool × Store :=
  let sel := openTask id
  (s.changes sel != 0, s.updateWhere sel
    { apply := fun row => { row with
        status := .needsHuman, judgeFeedback := some (env.maskDerivedText reason)
        pauseReason := some pause, updatedAt := now } })

/-- The decisions of `resolve_needs_human`; `other` is any other string. -/
inductive Decision where
  | retry
  | done
  | abort
  | other (name : Text)

/-- `check_goal_decide_revision`. -/
def Store.revisionMatches (id : Id) (expected : Option Text) : Bool :=
  expected.all fun stamp => (s.getTask id).map TaskRow.updatedAt == some stamp

def noteOpt (note : Text) : Option Text := if isBlank note then none else some note

/-- The write a decision leads to, from `needs_human` only. -/
def resolveEdit (note now : Text) : Decision → Except TaskError Edit
  | .retry => .ok { apply := fun row => { row with
      status := .pending, claimedBy := none, claimedAt := none, leaseExpiresAt := none
      resultSummary := none, judgeFeedback := (noteOpt note).map env.maskDerivedText
      pauseReason := none, updatedAt := now } }
  | .done => .ok { apply := fun row => { row with
      status := .done, completedAt := some now
      judgeFeedback := (noteOpt note).map env.maskDerivedText, pauseReason := none
      updatedAt := now } }
  | .abort => .ok { apply := fun row => { row with
      status := .cancelled, judgeFeedback := (noteOpt note).map env.maskDerivedText
      pauseReason := none, updatedAt := now } }
  | .other name => .error (.unknownDecision name)

def Store.resolveNeedsHuman (s : Store) (id : Id) (decision : Decision) (note : Text)
    (expected : Option Text) (now : Text) : Except TaskError Bool × Store :=
  if !s.revisionMatches id expected then (.error .revisionMismatch, s)
  else
    match resolveEdit env note now decision with
    | .error e => (.error e, s)
    | .ok edit =>
      let sel := inStatus id .needsHuman
      (.ok (s.changes sel == 1), s.updateWhere sel edit)

def continueMessagePrefix : Text :=
  Char.ofNat 0 :: "duduclaw:continue".toList ++ [Char.ofNat 0]

def Store.continueFromTerminal (s : Store) (id : Id) (message : Text)
    (expected : Option Text) (now : Text) : Except TaskError Bool × Store :=
  if (trim message).isEmpty then (.error .emptyMessage, s)
  else if !s.revisionMatches id expected then (.error .revisionMismatch, s)
  else if s.inStopTree id then (.error .stoppedContinue, s)
  else
    let sel row := row.id == id && row.isWork && row.status.isTerminal && row.goalMode &&
      !s.occurrences.contains id
    (.ok (s.changes sel == 1), s.updateWhere sel
      { apply := fun row => { row with
          status := .pending, claimedBy := none, claimedAt := none, leaseExpiresAt := none
          resultSummary := none, completedAt := none
          judgeFeedback := some (env.maskDerivedText (continueMessagePrefix ++ trim message))
          updatedAt := now } })

def Store.cancelTask (s : Store) (id : Id) (reason now : Text) : Bool × Store :=
  let sel := openTask id
  (s.changes sel == 1, s.updateWhere sel
    { apply := fun row => { row with
        status := .cancelled, judgeFeedback := some (env.maskDerivedText reason)
        updatedAt := now } })

/-! ## `update_task` -/

/-- `dep_map.get(node)`: the map keeps the last entry of an id. -/
def depsOf (edges : List (Id × List Id)) (node : Id) : List Id :=
  ((edges.reverse.find? fun edge => edge.1 == node).map Prod.snd).getD []

/-- The loop of `introduces_dependency_cycle`: a stack and the nodes visited.  A node
is expanded once, so no more nodes are popped than edges and new dependencies. -/
def reachesTask (edges : List (Id × List Id)) (taskId : Id) : Nat → List Id → List Id → Bool
  | 0, _, _ => false
  | _ + 1, [], _ => false
  | fuel + 1, node :: stack, visited =>
    if node = taskId then true
    else if visited.contains node then reachesTask edges taskId fuel stack visited
    else reachesTask edges taskId fuel ((depsOf edges node).reverse ++ stack) (node :: visited)

def introducesDependencyCycle (edges : List (Id × List Id)) (taskId : Id) (newDeps : List Id) :
    Bool :=
  newDeps.contains taskId ||
    reachesTask edges taskId (newDeps.length + (edges.map fun edge => edge.2.length).sum + 1)
      newDeps.reverse []

/-- `depends_edges_conn`. -/
def Store.dependsEdges : List (Id × List Id) :=
  s.tasks.map fun row => (row.id, row.dependsOn)

/-- The JSON object given to `update_task`.  The outer option is whether the key is
there, the inner one whether its value has the type that is read. -/
structure TaskFields where
  title : Option (Option Text)
  description : Option (Option Text)
  status : Option (Option Status)
  priority : Option (Option Text)
  assignedTo : Option (Option Text)
  blockedReason : Option (Option Text)
  dependsOn : Option (Option (List Id))
  acceptanceCriteria : Option (Option Text)
  tags : Option (Option Text)
  archived : Option (Option Bool)
  pinned : Option (Option Bool)
  costCapCents : Option (Option Nat)
  /-- `parent_task_id` or `a2a_owner` is there. -/
  fixedAtCreation : Bool
  /-- `goal_mode`, `acceptance_criteria_baseline`, `deadline_at` or `kind` is there. -/
  otherFrozen : Bool

/-- A field of `OCCURRENCE_FROZEN_FIELDS` is there. -/
def TaskFields.touchesFrozen (fields : TaskFields) : Bool :=
  fields.assignedTo.isSome || fields.acceptanceCriteria.isSome || fields.tags.isSome ||
    fields.title.isSome || fields.description.isSome || fields.dependsOn.isSome ||
    fields.fixedAtCreation || fields.otherFrozen

def parseCostCapCents : Option (Option Nat) → Except TaskError (Option Nat)
  | none => .ok none
  | some value =>
    match value.filter fun cap => 0 < cap && cap ≤ 2 ^ 63 - 1 with
    | some cap => .ok (some cap)
    | none => .error .costCapRange

def updateEdit (fields : TaskFields) (costCap : Option Nat) (now : Text) : Edit where
  apply row :=
    { row with
      updatedAt := now
      costCapCents := costCap.orElse fun _ => row.costCapCents
      title := (fields.title.join.map env.maskDerivedText).getD row.title
      description := (fields.description.join.map env.maskDerivedText).getD row.description
      status := fields.status.join.getD row.status
      priority := fields.priority.join.getD row.priority
      assignedTo := fields.assignedTo.join.getD row.assignedTo
      blockedReason := (fields.blockedReason.join.map env.maskDerivedText).orElse
        fun _ => row.blockedReason
      dependsOn := fields.dependsOn.join.getD row.dependsOn
      acceptanceCriteria := (fields.acceptanceCriteria.join.map env.maskDerivedText).orElse
        fun _ => row.acceptanceCriteria
      tags := (fields.tags.join.map env.maskDerivedText).getD row.tags
      archived := fields.archived.join.getD row.archived
      pinned := fields.pinned.join.getD row.pinned
      completedAt := if fields.status.join = some .done then some now else row.completedAt }

def Store.checkCostCap (id : Id) (cap : Nat) (employeeDefaultCap : Option Nat) :
    Except TaskError Unit :=
  match s.getTask id with
  | none => .error (.taskNotFound id)
  | some row =>
    if employeeDefaultCap.any fun default_ =>
        0 < row.costCapCents.getD default_ && row.costCapCents.getD default_ < cap then
      .error .raisesCeiling
    else if !row.goalMode then .error .capWithoutGoal
    else .ok ()

/-- The checks `update_task` makes before it writes, in their order. -/
def Store.checkUpdate (id : Id) (fields : TaskFields)
    (employeeDefaultCap : Option Nat) : Except TaskError (Option Nat) :=
  if fields.fixedAtCreation then .error .parentNotUpdatable
  else
    match parseCostCapCents fields.costCapCents with
    | .error e => .error e
    | .ok costCap =>
      if fields.dependsOn = some none then .error .dependsOnShape
      else if (s.getTask id).map TaskRow.kind = some .discovery then .error .discovery
      else if fields.touchesFrozen && s.occurrences.contains id then .error (.occurrence id)
      else if fields.status.isSome && s.inStopTree id then .error (.stoppedStatus id)
      else if fields.dependsOn.join.any (introducesDependencyCycle s.dependsEdges id) then
        .error (.dependencyCycle id)
      else
        match costCap with
        | none => .ok none
        | some cap => (s.checkCostCap id cap employeeDefaultCap).map fun _ => some cap

/-- `update_task_with_cost_policy`. -/
def Store.updateTask (s : Store) (id : Id) (fields : TaskFields)
    (employeeDefaultCap : Option Nat) (now : Text) : Except TaskError (Option TaskRow) × Store :=
  match s.checkUpdate id fields employeeDefaultCap with
  | .error e => (.error e, s)
  | .ok costCap =>
    let next := s.updateWhere (fun row => row.id == id) (updateEdit env fields costCap now)
    (.ok (next.getTask id), next)

end DuDuClaw.TaskStore
