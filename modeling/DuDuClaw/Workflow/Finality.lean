/-
# Workflow.Finality -- the status of a run

Who writes the status of a stored run.  `execute` of workflow/runner.rs reads the run,
takes a lease, stores it as running, goes through the steps and stores where they ended;
`mark_blocked` of workflow/handoff.rs reads it and later stores a refusal; `cancel_run` of
workflow/run_control.rs is one transaction.  Each of the first two tests the status it
read, and `save_run` then writes the whole record with no test but that the run is not
cancelled.  The sweep writes a run through `mark_blocked` only.

Any number of calls, each under a key of its own, are interleaved step by step.  Where the
steps of an execution end is an argument of the store, and so is whether a blocked step
has an operation.

* `Board.Undisturbed`: a call stores the run only if no other call has ended it since the
  call read it.
* `terminal_is_final`: in runs of such steps a terminal status never changes.
-/
import DuDuClaw.Lib.Runs
import DuDuClaw.Workflow.Definition

namespace DuDuClaw.Workflow

open DuDuClaw.Lib

/-! ## The record -/

inductive RunStatus where
  | pending
  | running
  | waitingApproval
  | needsInput
  | succeeded
  | failed
  | uncertain
  | cancelled
  | blocked
  deriving DecidableEq

/-- `run_is_terminal`. -/
def RunStatus.isTerminal : RunStatus → Bool
  | .succeeded | .failed | .uncertain | .cancelled | .blocked => true
  | _ => false

inductive FailureClass where
  | gate
  | definite
  | uncertain
  | transient
  | limit
  | stale
  deriving DecidableEq

/-- Of a run's record: what the calls below read or write. -/
structure WorkflowRun where
  status : RunStatus := .pending
  /-- The run has an activation. -/
  activated : Bool
  errorCode : Option Text := none
  failureClass : Option FailureClass := none
  cancelledBy : Option Text := none
  deriving DecidableEq

inductive Ending where
  /-- A decision is awaited. -/
  | parked (question : Bool)
  /-- The step at hand was stored as failed or uncertain before. -/
  | retained (uncertain : Bool) (code : Option Text)
  | failStep (code : Text)
  | uncertainStep (code : Text)
  | completed

def WorkflowRun.finish (run : WorkflowRun) : Ending → WorkflowRun
  | .parked true => { run with status := .needsInput }
  | .parked false => { run with status := .waitingApproval }
  | .retained true code => { run with status := .uncertain, errorCode := code }
  | .retained false code => { run with status := .failed, errorCode := code }
  | .failStep code =>
    { run with status := .failed, errorCode := some code, failureClass := some .definite }
  | .uncertainStep code =>
    { run with status := .uncertain, errorCode := some code, failureClass := some .uncertain }
  | .completed => { run with status := .succeeded, errorCode := none, failureClass := none }

/-- What `mark_blocked_as` stores; `uncertain` when the first step that has not succeeded has
an operation. -/
def WorkflowRun.block (run : WorkflowRun) (uncertain : Bool) (error : Text)
    (failure : Option FailureClass) : WorkflowRun :=
  { run with
    status := if uncertain then .uncertain else .blocked
    errorCode := some error
    failureClass := some (if uncertain then .uncertain else failure.getD .gate) }

/-! ## The calls -/

/-- A call in progress, with the record it holds in memory. -/
inductive Call where
  | idle
  /-- `execute` has read the run. -/
  | read (run : WorkflowRun)
  | leased (run : WorkflowRun) (token : Nat)
  /-- The run is stored as running, and its steps are taken. -/
  | started (run : WorkflowRun) (token : Nat)
  /-- The lease is still to be released. -/
  | finished (token : Nat)
  /-- `mark_blocked` has read the run. -/
  | blocking (run : WorkflowRun)

/-- The call may still store the run. -/
def Call.isOpen : Call → Bool
  | .read _ | .leased _ _ | .started _ _ | .blocking _ => true
  | _ => false

/-- The stored run with its lease, and the calls. -/
structure Board where
  run : WorkflowRun
  lease : Option (Nat × Int) := none
  nextToken : Nat := 0
  calls : Nat → Call := fun _ => .idle
  /-- How often a call has stored the run as ended, and that count when a call read it. -/
  ended : Nat := 0
  seen : Nat → Nat := fun _ => 0

inductive Move where
  /-- `execute` reads the run. -/
  | execute (k : Nat)
  | acquireLease (k : Nat) (now : Int)
  /-- The lease is extended; an execution that has lost it stops at the next step. -/
  | heartbeat (k : Nat) (now : Int)
  | renewLease (k : Nat) (now : Int)
  /-- The run is stored as running. -/
  | start (k : Nat)
  /-- The run is stored as its steps left it. -/
  | finish (k : Nat) (ending : Ending)
  /-- A gate or a step returns an error. -/
  | fail (k : Nat)
  | releaseLease (k : Nat)
  /-- `mark_blocked` reads the run. -/
  | markBlocked (k : Nat)
  /-- The refusal is stored. -/
  | block (k : Nat) (uncertain : Bool) (error : Text) (failure : Option FailureClass)
  /-- The process ends. -/
  | crash (k : Nat)
  | cancelRun (actor : Text)

namespace Board

def runLeaseSeconds : Int := 300

variable (b : Board)

def setCall (k : Nat) (call : Call) : Board := { b with calls := Function.update b.calls k call }

/-- A call reads the run: it goes on if the run has not ended. -/
def readRun (k : Nat) (call : WorkflowRun → Call) : Board :=
  if b.run.status.isTerminal then b
  else { b.setCall k (call b.run) with seen := Function.update b.seen k b.ended }

/-- `save_run`; the call goes on as `next`, or as `refused` when the run is cancelled. -/
def saveRun (k : Nat) (run : WorkflowRun) (next refused : Call) : Board :=
  if b.run.status = .cancelled then b.setCall k refused
  else { b.setCall k next with
    run := run
    ended := if run.status.isTerminal then b.ended + 1 else b.ended }

def cancelRun (actor : Text) : Board :=
  if actor = [] ∨ b.run.activated = false ∨ b.run.status.isTerminal then b
  else { b with run := { b.run with
    status := .cancelled, errorCode := some "workflow_run_cancelled".toList
    failureClass := none, cancelledBy := some actor } }

def leaseFree (now : Int) : Bool := b.lease.all fun lease => lease.2 ≤ now

def holdsLease (token : Nat) (now : Int) : Bool :=
  b.lease.any fun lease => lease.1 = token ∧ now < lease.2

def step : Move → Board
  | .execute k =>
    match b.calls k with
    | .idle => b.readRun k .read
    | _ => b
  | .acquireLease k now =>
    match b.calls k with
    | .read run =>
      if b.leaseFree now then
        { b.setCall k (.leased run b.nextToken) with
          lease := some (b.nextToken, now + runLeaseSeconds), nextToken := b.nextToken + 1 }
      else b.setCall k .idle
    | _ => b
  | .heartbeat k now =>
    match b.calls k with
    | .leased _ token | .started _ token =>
      if b.holdsLease token now then { b with lease := some (token, now + runLeaseSeconds) } else b
    | _ => b
  | .renewLease k now =>
    match b.calls k with
    | .started _ token =>
      if b.holdsLease token now then { b with lease := some (token, now + runLeaseSeconds) }
      else b.setCall k (.finished token)
    | _ => b
  | .start k =>
    match b.calls k with
    | .leased run token =>
      let running := { run with status := .running }
      b.saveRun k running (.started running token) (.finished token)
    | _ => b
  | .finish k ending =>
    match b.calls k with
    | .started run token => b.saveRun k (run.finish ending) (.finished token) (.finished token)
    | _ => b
  | .fail k =>
    match b.calls k with
    | .read _ => b.setCall k .idle
    | .leased _ token => b.setCall k (.finished token)
    | .started _ token => b.setCall k (.finished token)
    | .blocking _ => b.setCall k .idle
    | _ => b
  | .releaseLease k =>
    match b.calls k with
    | .finished token =>
      { b.setCall k .idle with
        lease := if b.lease.any fun lease => lease.1 = token then none else b.lease }
    | _ => b
  | .markBlocked k =>
    match b.calls k with
    | .idle => b.readRun k .blocking
    | _ => b
  | .block k uncertain error failure =>
    match b.calls k with
    | .blocking run => b.saveRun k (run.block uncertain error failure) .idle .idle
    | _ => b
  | .crash k => b.setCall k .idle
  | .cancelRun actor => b.cancelRun actor

/-- A call stores the run only if no other call has ended it since the call read it. -/
def Undisturbed : Move → Prop
  | .start k | .finish k _ | .block k _ _ _ => (b.calls k).isOpen = true → b.seen k = b.ended
  | _ => True

/-! ## One step -/

/-- What a step can do to the stored run and to the calls that may still store it. -/
inductive Change : Board → Prop
  | quiet {b' : Board} (run : b'.run = b.run) (ended : b'.ended = b.ended) (seen : b'.seen = b.seen)
      (closes : ∀ k, (b'.calls k).isOpen = true → (b.calls k).isOpen = true) : Change b'
  | admitted {b' : Board} (k : Nat) (live : b.run.status.isTerminal = false) (run : b'.run = b.run)
      (ended : b'.ended = b.ended) (seen : b'.seen = Function.update b.seen k b.ended)
      (others : ∀ j, j ≠ k → b'.calls j = b.calls j) : Change b'
  | saved {b' : Board} (k : Nat) (holds : (b.calls k).isOpen = true) (latest : b.seen k = b.ended)
      (live : b.run.status ≠ .cancelled)
      (ended : b'.ended = if b'.run.status.isTerminal then b.ended + 1 else b.ended)
      (seen : b'.seen = b.seen)
      (closes : ∀ k, (b'.calls k).isOpen = true → (b.calls k).isOpen = true) : Change b'
  | cancelled {b' : Board} (live : b.run.status.isTerminal = false)
      (status : b'.run.status = .cancelled) (ended : b'.ended = b.ended) (seen : b'.seen = b.seen)
      (calls : b'.calls = b.calls) : Change b'

variable {b}

variable {k : Nat} {call : Call} {b' : Board}

theorem setCall_closes (closes : call.isOpen = true → (b.calls k).isOpen = true) (j : Nat)
    (after : ((b.setCall k call).calls j).isOpen = true) : (b.calls j).isOpen = true := by
  replace after : (Function.update b.calls k call j).isOpen = true := after
  by_cases same : j = k
  · subst same
    rw [Function.update_self] at after
    exact closes after
  · rwa [Function.update_of_ne same] at after

theorem setCall_change
    (closes : call.isOpen = true → (b.calls k).isOpen = true) : b.Change (b.setCall k call) :=
  .quiet rfl rfl rfl (setCall_closes closes)

theorem readRun_change (k : Nat) (call : WorkflowRun → Call) : b.Change (b.readRun k call) := by
  unfold readRun
  split
  · exact .quiet rfl rfl rfl fun _ opened => opened
  · rename_i live
    exact .admitted k (by simpa using live) rfl rfl rfl fun j other =>
      Function.update_of_ne other _ _

theorem saveRun_change {run : WorkflowRun} {next refused : Call}
    (holds : (b.calls k).isOpen = true) (latest : b.seen k = b.ended) :
    b.Change (b.saveRun k run next refused) := by
  unfold saveRun
  split
  · exact setCall_change fun _ => holds
  · rename_i live
    exact .saved k holds latest live rfl rfl (setCall_closes fun _ => holds)

theorem cancelRun_change (actor : Text) : b.Change (b.cancelRun actor) := by
  unfold cancelRun
  split
  · exact .quiet rfl rfl rfl fun _ opened => opened
  · rename_i met
    exact .cancelled (by simpa using fun ended => met (.inr (.inr ended))) rfl rfl rfl rfl

theorem step_change {move : Move} (allowed : b.Undisturbed move) : b.Change (b.step move) := by
  have same : b.Change b := .quiet rfl rfl rfl fun _ opened => opened
  cases move with
  | execute k | markBlocked k =>
    simp only [step]
    split
    · exact readRun_change k _
    · exact same
  | acquireLease k now =>
    simp only [step]
    split
    · rename_i holds
      have opened : (b.calls k).isOpen = true := by rw [holds]; rfl
      split
      · exact .quiet rfl rfl rfl (setCall_closes fun _ => opened)
      · exact setCall_change nofun
    · exact same
  | heartbeat k now =>
    simp only [step]
    split
    · split <;> exact .quiet rfl rfl rfl fun _ opened => opened
    · split <;> exact .quiet rfl rfl rfl fun _ opened => opened
    · exact same
  | renewLease k now =>
    simp only [step]
    split
    · split
      · exact .quiet rfl rfl rfl fun _ opened => opened
      · exact setCall_change nofun
    · exact same
  | start k | finish k ending | block k uncertain error failure =>
    simp only [step]
    split
    · rename_i holds
      have opened : (b.calls k).isOpen = true := by rw [holds]; rfl
      exact saveRun_change opened (allowed opened)
    · exact same
  | fail k =>
    simp only [step]
    split
    · exact setCall_change nofun
    · exact setCall_change nofun
    · exact setCall_change nofun
    · exact setCall_change nofun
    · exact same
  | releaseLease k =>
    simp only [step]
    split
    · exact .quiet rfl rfl rfl (setCall_closes nofun)
    · exact same
  | crash k => exact setCall_change nofun
  | cancelRun actor => exact cancelRun_change actor

/-! ## Whole runs -/

/-- A call that may still store an ended run read it before it ended. -/
structure Watched (b : Board) : Prop where
  earlier : ∀ k, (b.calls k).isOpen = true → b.seen k ≤ b.ended
  before : ∀ k, (b.calls k).isOpen = true → b.run.status.isTerminal = true →
    b.run.status ≠ .cancelled → b.seen k < b.ended

theorem Watched.change (watched : b.Watched) (change : b.Change b') : b'.Watched := by
  cases change with
  | quiet run ended seen closes =>
    refine ⟨fun k opened => ?_, fun k opened terminal live => ?_⟩
    · rw [seen, ended]
      exact watched.earlier k (closes k opened)
    · rw [run] at terminal live
      rw [seen, ended]
      exact watched.before k (closes k opened) terminal live
  | admitted k live run ended seen others =>
    refine ⟨fun j opened => ?_, fun j opened terminal _ => ?_⟩
    · rw [seen, ended]
      by_cases same : j = k
      · exact Nat.le_of_eq (by rw [same, Function.update_self])
      · rw [Function.update_of_ne same]
        rw [others j same] at opened
        exact watched.earlier j opened
    · rw [run, live] at terminal
      cases terminal
  | saved k holds latest live ended seen closes =>
    refine ⟨fun j opened => ?_, fun j opened terminal _ => ?_⟩
    · have earlier := watched.earlier j (closes j opened)
      rw [seen, ended]
      split <;> omega
    · have earlier := watched.earlier j (closes j opened)
      rw [seen, ended, if_pos terminal]
      omega
  | cancelled live status ended seen calls =>
    refine ⟨fun k opened => ?_, fun k _ _ live => absurd status live⟩
    rw [calls] at opened
    rw [seen, ended]
    exact watched.earlier k opened

theorem Change.final (change : b.Change b') (watched : b.Watched)
    (terminal : b.run.status.isTerminal = true) : b'.run = b.run := by
  cases change with
  | quiet run ended seen closes | admitted k live run ended seen others => exact run
  | saved k holds latest live ended seen closes =>
    have before := watched.before k holds terminal live
    omega
  | cancelled live status ended seen calls =>
    rw [live] at terminal
    cases terminal

end Board

/-- A run that has just been stored. -/
def Board.created (activated : Bool) : Board := { run := { activated := activated } }

theorem Board.created_watched (activated : Bool) : (created activated).Watched :=
  ⟨fun _ opened => absurd opened Bool.false_ne_true, fun _ opened => absurd opened Bool.false_ne_true⟩

theorem run_watched {activated : Bool} {moves : List Move}
    (allowed : Obeys Board.step Board.Undisturbed (Board.created activated) moves) :
    (run Board.step (Board.created activated) moves).Watched :=
  run_invariant Board.Watched (fun _ _ watched allowed => watched.change (Board.step_change allowed))
    (Board.created_watched activated) allowed

/-- **A terminal run is final.**  In any interleaving of executions, refusals and
cancellations in which no call stores the run after another call has ended it since the
first one read it: once the stored status is terminal, the record never changes again. -/
theorem terminal_is_final (activated : Bool) (front back : List Move)
    (allowed : Obeys Board.step Board.Undisturbed (Board.created activated) (front ++ back))
    (terminal : (run Board.step (Board.created activated) front).run.status.isTerminal = true) :
    (run Board.step (Board.created activated) (front ++ back)).run =
      (run Board.step (Board.created activated) front).run := by
  obtain ⟨first, rest⟩ := obeys_append.mp allowed
  rw [run_append]
  refine run_rel Board.Watched (fun b b' => b.run.status.isTerminal = true → b'.run = b.run)
    ?_ ?_ ?_ ?_ (run_watched first) rest terminal
  · exact fun b move watched allowed => watched.change (Board.step_change allowed)
  · exact fun b _ => rfl
  · intro b b' b'' kept further ended
    have same := kept ended
    exact (further (same.symm ▸ ended)).trans same
  · exact fun b move watched allowed ended => (Board.step_change allowed).final watched ended

/-! Two dispatchers of one run; and a refusal of an execution that ended well meanwhile. -/

namespace Dispatched

def finished (k : Nat) : List Move :=
  [.acquireLease k 0, .start k, .finish k .completed, .releaseLease k]

def raced : List Move := .execute 0 :: .execute 1 :: finished 0

def refused : List Move := .execute 0 :: .markBlocked 1 :: finished 0

/-- The second dispatcher read the run before the first one completed it, and stores it as
running again; the refusal stores it as blocked. -/
theorem succeeded_run_changes : (run Board.step (Board.created true) raced).run.status = .succeeded ∧
    (run Board.step (Board.created true) (raced ++ [.acquireLease 1 1, .start 1])).run.status = .running ∧
    (run Board.step (Board.created true) refused).run.status = .succeeded ∧
    (run Board.step (Board.created true) (refused ++ [.block 1 false ['e'] none])).run.status = .blocked := by
  decide

theorem terminal_is_final_completed :
    (run Board.step (Board.created true) (.execute 0 :: finished 0)).run.status = .succeeded ∧
    (run Board.step (Board.created true)
      ((.execute 0 :: finished 0) ++ [.execute 1, .markBlocked 2, .cancelRun ['u']])).run =
      (run Board.step (Board.created true) (.execute 0 :: finished 0)).run := by
  refine ⟨by decide, terminal_is_final true _ _ ?_ (by decide)⟩
  exact ⟨trivial, trivial, fun _ => rfl, fun _ => rfl, trivial, trivial, trivial, trivial, trivial⟩

end Dispatched

end DuDuClaw.Workflow
