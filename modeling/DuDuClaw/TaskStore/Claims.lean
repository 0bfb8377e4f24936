/-
# TaskStore.Claims -- who holds a task

`reclaim_zombies` (claim.rs) reads its candidates in one statement and decides and
writes row by row afterwards, so other operations run in between.  A `Board` is the task
store together with the calls of `reclaim_zombies` that have scanned and not yet
finished.

* `Op.perform_handover`: what one operation does to a task's holder and lease.
* `held_until_released`: a holder loses the task only by a step that releases it.
* `claim_exclusive`: between two claims of a task the first is released, a claim needs
  its dependencies done, and a lease renewed after the scan defeats the reclaim.
* `reclaim_after_renewals`: not when the lease is then set back to the scanned text.
-/
import Mathlib.Data.Option.Basic
import DuDuClaw.Lib.Runs
import DuDuClaw.TaskStore.Stop

namespace DuDuClaw.TaskStore

open DuDuClaw.Lib

/-! ## Reclaiming zombies -/

inductive ZombieAction where
  | requeue
  | fail

structure ZombieOutcome where
  taskId : Id
  action : ZombieAction
  retryCount : Int

def zombieAction (retryCount maxRetries : Int) : ZombieAction :=
  if retryCount < maxRetries then .requeue else .fail

/-- `DateTime::parse_from_rfc3339` of chrono, as an instant in nanoseconds. -/
structure Clock where
  parseFromRfc3339 : Text → Option Int

/-- `zombie_reclaim_due`: expired, and a further lease window has passed.  An unreadable
lease is due, an unreadable anchor leaves no grace. -/
def zombieReclaimDue (clock : Clock) (leaseExpiresAt : Text) (renewalAnchor : Option Text)
    (now : Text) : Bool :=
  match clock.parseFromRfc3339 leaseExpiresAt, clock.parseFromRfc3339 now with
  | some lease, some now =>
    if now < lease then false
    else
      let window := ((renewalAnchor.bind clock.parseFromRfc3339).map
        fun anchor => max (lease - anchor) 0).getD 0
      lease + window ≤ now
  | _, _ => true

/-- The scan of `reclaim_zombies`. -/
def isCandidate (row : TaskRow) : Bool :=
  row.isWork && row.status == .inProgress && row.leaseExpiresAt.isSome && row.claimedBy.isSome

def Store.reclaimCandidate (clock : Clock) (s : Store) (now : Text) (row : TaskRow) :
    Option ZombieOutcome × Store :=
  match row.leaseExpiresAt with
  | none => (none, s)
  | some lease =>
    if !zombieReclaimDue clock lease (row.leaseRenewedAt <|> row.claimedAt) now then (none, s)
    else
      let claimer := row.claimedBy.getD []
      match zombieAction row.retryCount row.maxRetries with
      | .requeue =>
        let newRetry := row.retryCount + 1
        let (won, next) := s.requeueZombieCas row.id claimer lease newRetry now
        (if won then some ⟨row.id, .requeue, newRetry⟩ else none, next)
      | .fail =>
        let (won, next) := s.failZombieCas row.id claimer lease now
        (if won then some ⟨row.id, .fail, row.retryCount⟩ else none, next)

/-- A call of `reclaim_zombies` after its scan: the candidates it has still to decide on
and what it will report. -/
structure ZombieScan where
  now : Text
  candidates : List TaskRow
  outcomes : List ZombieOutcome

/-- The store and the calls of `reclaim_zombies` under way. -/
structure Board where
  store : Store
  scans : Nat → Option ZombieScan

/-- One atomic step: an operation, the scan of a call, or its next candidate. -/
inductive Event where
  | edit (op : Op)
  | scan (call : Nat) (now : Text)
  | reclaim (call : Nat)

/-- The call decides on its next candidate. -/
def Board.reclaim (clock : Clock) (board : Board) (call : Nat) : Board :=
  match board.scans call with
  | some ⟨now, row :: rest, outcomes⟩ =>
    let decided := board.store.reclaimCandidate clock now row
    { store := decided.2
      scans := Function.update board.scans call
        (some ⟨now, rest, outcomes ++ decided.1.toList⟩) }
  | _ => board

def Event.step (env : Env) (clock : Clock) (board : Board) : Event → Board
  | .edit op => { board with store := op.perform env board.store }
  | .scan call now =>
    { board with
      scans := Function.update board.scans call
        (some ⟨now, board.store.tasks.filter isCandidate, []⟩) }
  | .reclaim call => board.reclaim clock call

/-! ## What one step does to one task -/

variable {s : Store} {id : Id} {written : Text → Prop} {sel : TaskRow → Bool} {edit : Edit}

@[simp] theorem Store.fire_leaseExpiresAt (s : Store) (old new : TaskRow) :
    (s.fire old new).leaseExpiresAt = new.leaseExpiresAt := by
  unfold Store.fire
  split <;> rfl

/-- The operation sets the expiry of the task to `lease`. -/
def Op.SetsExpiry (s : Store) (id : Id) (lease : Text) : Op → Prop
  | .claim target agentId now expiry =>
    target = id ∧ expiry = lease ∧ (s.atomicClaim target agentId now expiry).1 = .claimed
  | .renewLease target agentId expiry now =>
    target = id ∧ expiry = lease ∧ (s.renewLease target agentId expiry now).1 = true
  | _ => False

/-- From `old` to `new` a holder keeps the task or loses it to nobody, and an expiry is
there only if it was before or is one of `written`. -/
structure TaskRow.Handover (written : Text → Prop) (old new : TaskRow) : Prop where
  holder : ∀ agent, old.claimedBy = some agent →
    new.claimedBy = some agent ∨ new.claimedBy = none
  lease : ∀ expiry, new.leaseExpiresAt = some expiry →
    old.leaseExpiresAt = some expiry ∨ written expiry

theorem TaskRow.Handover.refl (written : Text → Prop) (row : TaskRow) : row.Handover written row :=
  ⟨fun _ held => .inl held, fun _ expiry => .inl expiry⟩

/-- The rows of the task before and after. -/
def Store.Handover (s t : Store) (id : Id) (written : Text → Prop) : Prop :=
  Option.Rel (TaskRow.Handover written) (s.getTask id) (t.getTask id)

theorem Store.Handover.refl (s : Store) (id : Id) (written : Text → Prop) : s.Handover s id written := by
  unfold Store.Handover
  cases s.getTask id with
  | none => exact .none
  | some row => exact .some (.refl written row)

theorem Store.Handover.update
    (moves : ∀ row, s.getTask id = some row → sel row → row.Handover written (edit.apply row)) :
    s.Handover (s.updateWhere sel edit) id written := by
  unfold Store.Handover
  rw [updateWhere_get]
  cases found : s.getTask id with
  | none => exact .none
  | some row =>
    refine .some ?_
    unfold Store.rewrite
    split
    · rename_i selected
      obtain ⟨holder, lease⟩ := moves row found selected
      exact ⟨by simpa using holder, by simpa using lease⟩
    · exact .refl written row

/-- A SET clause that leaves both columns, and one that clears them. -/
theorem Store.Handover.keeps (holder : ∀ row, (edit.apply row).claimedBy = row.claimedBy)
    (lease : ∀ row, (edit.apply row).leaseExpiresAt = row.leaseExpiresAt ∨
      (edit.apply row).leaseExpiresAt = none) :
    s.Handover (s.updateWhere sel edit) id written := by
  refine .update fun row _ _ => ⟨?_, ?_⟩
  · intro agent held
    exact .inl ((holder row).trans held)
  · intro expiry there
    rcases lease row with same | cleared
    · exact .inl (same.symm.trans there)
    · rw [cleared] at there
      cases there

theorem Store.Handover.releases (holder : ∀ row, (edit.apply row).claimedBy = none)
    (lease : ∀ row, (edit.apply row).leaseExpiresAt = none) :
    s.Handover (s.updateWhere sel edit) id written := by
  refine .update fun row _ _ => ⟨?_, ?_⟩
  · intro agent held
    exact .inr (holder row)
  · intro expiry there
    rw [lease row] at there
    cases there

/-- A row an UPDATE by id selects is the one row it changes. -/
theorem Store.changes_one {row : TaskRow}
    (aims : ∀ row, sel row → row.id = id) (found : s.getTask id = some row) (selected : sel row) :
    s.changes sel = 1 := by
  obtain ⟨listed, -⟩ := Store.getTask_mem found
  have some_ : 0 < s.changes sel := List.countP_pos_iff.mpr ⟨row, listed, selected⟩
  have most : s.changes sel ≤ s.tasks.countP fun row => row.id == id := by
    refine List.countP_mono_left fun other _ chosen => ?_
    simpa using aims other chosen
  have keys : (s.tasks.countP fun row => row.id == id) = (s.tasks.map TaskRow.id).count id := by
    rw [List.count, List.countP_map]
    rfl
  have once := List.nodup_iff_count_le_one.mp s.distinct id
  omega

/-- An UPDATE by id that changes a row changes the row of that id. -/
theorem Store.changes_selects (aims : ∀ row, sel row → row.id = id) (changed : s.changes sel = 1) :
    ∃ row, s.getTask id = some row ∧ sel row := by
  have positive : 0 < s.changes sel := by omega
  obtain ⟨row, listed, selected⟩ := List.countP_pos_iff.mp positive
  refine ⟨row, ?_, selected⟩
  rw [← aims row selected]
  exact Store.getTask_of_mem listed

theorem heldBy_id {agentId : Text} {row : TaskRow} (held : heldBy id agentId row) : row.id = id := by
  simp only [heldBy, Bool.and_eq_true, beq_iff_eq] at held
  exact held.1.1.1

/-- What `atomic_claim` can do. -/
theorem atomicClaim_cases (s : Store) (id : Id) (agentId now lease : Text) :
    ((s.atomicClaim id agentId now lease).1 = .claimed ∧ (s.atomicClaim id agentId now lease).2 =
        s.updateWhere (claimable id) (claimEdit agentId now lease) ∧
      ∃ row, s.getTask id = some row ∧ claimable id row ∧ s.unmetDeps row.dependsOn = []) ∨
    ((s.atomicClaim id agentId now lease).1 ≠ .claimed ∧ (s.atomicClaim id agentId now lease).2 = s) := by
  unfold Store.atomicClaim
  split
  · exact .inr ⟨nofun, rfl⟩
  rename_i row found
  split
  · exact .inr ⟨nofun, rfl⟩
  rename_i free
  split
  · exact .inr ⟨nofun, rfl⟩
  split
  · exact .inr ⟨nofun, rfl⟩
  rename_i met
  refine .inl ⟨rfl, rfl, row, (Option.filter_eq_some_iff.mp found).1, ?_, ?_⟩
  · simpa using free
  · simpa using met

theorem atomicClaim_handover (s : Store) (target : Id) (agentId now lease : Text) (id : Id) :
    s.Handover (s.atomicClaim target agentId now lease).2 id
      fun expiry => (Op.claim target agentId now lease).SetsExpiry s id expiry := by
  rcases atomicClaim_cases s target agentId now lease with ⟨claimed, written, -⟩ | ⟨-, kept⟩
  · rw [written]
    refine .update fun row found selected => ⟨?_, ?_⟩
    · intro agent held
      simp [claimable, held] at selected
    · intro expiry there
      have aimed : row.id = target := by
        simp only [claimable, Bool.and_eq_true, beq_iff_eq] at selected
        exact selected.1.1.1
      refine .inr ⟨aimed.symm.trans (Store.getTask_mem found).2, ?_, claimed⟩
      exact Option.some.inj there
  · rw [kept]
    exact .refl s id _

theorem renewLease_handover (s : Store) (target : Id) (agentId expiry now : Text) (id : Id) :
    s.Handover (s.renewLease target agentId expiry now).2 id
      fun lease => (Op.renewLease target agentId expiry now).SetsExpiry s id lease := by
  refine .update fun row found selected => ⟨fun agent held => .inl held, ?_⟩
  intro lease there
  have aimed : target = id := (heldBy_id selected).symm.trans (Store.getTask_mem found).2
  subst aimed
  refine .inr ⟨rfl, Option.some.inj there, ?_⟩
  have one := Store.changes_one (fun _ => heldBy_id) found selected
  simp [Store.renewLease, one]

theorem requeueZombieCas_handover (s : Store) (target : Id) (claimer lease : Text) (retry : Int)
    (now : Text) (id : Id) (written : Text → Prop) :
    s.Handover (s.requeueZombieCas target claimer lease retry now).2 id written :=
  .releases (fun _ => rfl) fun _ => rfl

theorem failZombieCas_handover (s : Store) (target : Id) (claimer lease now : Text) (id : Id)
    (written : Text → Prop) : s.Handover (s.failZombieCas target claimer lease now).2 id written :=
  .keeps (fun _ => rfl) fun _ => .inr rfl

theorem completeTask_handover (env : Env) (s : Store) (target : Id) (summary caller now : Text)
    (id : Id) (written : Text → Prop) :
    s.Handover (s.completeTask env target summary caller now).2 id written := by
  unfold Store.completeTask
  split
  · exact .refl s id written
  split
  · exact .refl s id written
  split
  · exact .refl s id written
  · split
    · exact .keeps (fun _ => rfl) fun _ => .inr rfl
    · exact .keeps (fun _ => rfl) fun _ => .inr rfl

theorem rejectReview_handover (env : Env) (s : Store) (read : Option TaskRow) (target : Id)
    (feedback : Text) (softCap : Int) (now : Text) (id : Id) (written : Text → Prop) :
    s.Handover (s.rejectReview env read target feedback softCap now).2 id written := by
  unfold Store.rejectReview
  split
  · exact .refl s id written
  · split
    · exact .releases (fun _ => rfl) fun _ => rfl
    · exact .keeps (fun _ => rfl) fun _ => .inl rfl

theorem resolveNeedsHuman_handover (env : Env) (s : Store) (target : Id) (decision : Decision)
    (note : Text) (expected : Option Text) (now : Text) (id : Id) (written : Text → Prop) :
    s.Handover (s.resolveNeedsHuman env target decision note expected now).2 id written := by
  unfold Store.resolveNeedsHuman
  split
  · exact .refl s id written
  cases decision with
  | retry => exact .releases (fun _ => rfl) fun _ => rfl
  | done | abort => exact .keeps (fun _ => rfl) fun _ => .inl rfl
  | other name => exact .refl s id written

theorem continueFromTerminal_handover (env : Env) (s : Store) (target : Id) (message : Text)
    (expected : Option Text) (now : Text) (id : Id) (written : Text → Prop) :
    s.Handover (s.continueFromTerminal env target message expected now).2 id written := by
  unfold Store.continueFromTerminal
  split
  · exact .refl s id written
  split
  · exact .refl s id written
  · split
    · exact .refl s id written
    · exact .releases (fun _ => rfl) fun _ => rfl

theorem updateTask_handover (env : Env) (s : Store) (target : Id) (fields : TaskFields)
    (cap : Option Nat) (now : Text) (id : Id) (written : Text → Prop) :
    s.Handover (s.updateTask env target fields cap now).2 id written := by
  unfold Store.updateTask
  split
  · exact .refl s id written
  · exact .keeps (fun _ => rfl) fun _ => .inl rfl

theorem stopTaskTree_handover (s : Store) (root : Id) (revision : Int) (requestedBy : Text)
    (countsAsFailure : Bool) (now : Text) (id : Id) (written : Text → Prop) :
    s.Handover (s.stopTaskTree root revision requestedBy countsAsFailure now).2 id written := by
  unfold Store.stopTaskTree
  split
  · exact .refl s id written
  split
  · exact .refl s id written
  split
  · exact .refl s id written
  · split
    · exact .refl s id written
    · exact Store.Handover.keeps (s := s) (fun _ => rfl) fun _ => .inl rfl

/-- **One operation on a task**: its holder keeps it or loses it to nobody, and only a
claim and a renewal give it a new expiry. -/
theorem Op.perform_handover (env : Env) (s : Store) (op : Op) (id : Id) :
    s.Handover (op.perform env s) id (fun expiry => op.SetsExpiry s id expiry) := by
  cases op with
  | claim target agentId now lease => exact atomicClaim_handover s target agentId now lease id
  | renewLease target agentId expiry now => exact renewLease_handover s target agentId expiry now id
  | requeueZombie target claimer lease retry now =>
    exact requeueZombieCas_handover s target claimer lease retry now id _
  | failZombie target claimer lease now =>
    exact failZombieCas_handover s target claimer lease now id _
  | complete target summary caller now =>
    exact completeTask_handover env s target summary caller now id _
  | acceptReview target feedback now | markNeedsHuman target reason pause now
  | cancel target reason now | sweep ids now => exact .keeps (fun _ => rfl) fun _ => .inl rfl
  | rejectReview read target feedback softCap now =>
    exact rejectReview_handover env s read target feedback softCap now id _
  | resolveNeedsHuman target decision note expected now =>
    exact resolveNeedsHuman_handover env s target decision note expected now id _
  | continueFromTerminal target message expected now =>
    exact continueFromTerminal_handover env s target message expected now id _
  | update target fields cap now => exact updateTask_handover env s target fields cap now id _
  | stopTree root revision requestedBy countsAsFailure now =>
    exact stopTaskTree_handover s root revision requestedBy countsAsFailure now id _

theorem reclaimCandidate_handover (clock : Clock) (s : Store) (now : Text) (row : TaskRow)
    (id : Id) (written : Text → Prop) : s.Handover (s.reclaimCandidate clock now row).2 id written := by
  unfold Store.reclaimCandidate
  split
  · exact .refl s id written
  split
  · exact .refl s id written
  · split
    · exact requeueZombieCas_handover s row.id _ _ _ now id written
    · exact failZombieCas_handover s row.id _ _ now id written

/-! ## Runs -/

variable (env : Env) (clock : Clock)

/-- The event sets the expiry of the task to `lease`. -/
def Event.SetsExpiry (board : Board) (id : Id) (lease : Text) : Event → Prop
  | .edit op => op.SetsExpiry board.store id lease
  | _ => False

variable {board : Board} {id : Id} {events : List Event}

variable {agent lease : Text}

/-- **One step of the board**, seen from one task. -/
theorem Event.step_handover (board : Board) (event : Event) (id : Id) :
    board.store.Handover (event.step env clock board).store id
      fun expiry => event.SetsExpiry board id expiry := by
  cases event with
  | edit op => exact Op.perform_handover env board.store op id
  | scan call now => exact .refl board.store id _
  | reclaim call =>
    show board.store.Handover (board.reclaim clock call).store id _
    unfold Board.reclaim
    split
    · exact reclaimCandidate_handover clock board.store _ _ id _
    · exact .refl board.store id _

def Board.holder (board : Board) (id : Id) : Option Text :=
  (board.store.getTask id).bind TaskRow.claimedBy

def Board.expiry (board : Board) (id : Id) : Option Text :=
  (board.store.getTask id).bind TaskRow.leaseExpiresAt

theorem Event.step_holder (event : Event)
    (held : board.holder id = some agent) : (event.step env clock board).holder id = some agent ∨
      (event.step env clock board).holder id = none := by
  have step := event.step_handover env clock board id
  unfold Store.Handover at step
  unfold Board.holder at held ⊢
  cases found : board.store.getTask id with
  | none => simp [found] at held
  | some old =>
    rw [found] at step held
    cases after : (event.step env clock board).store.getTask id with
    | none => exact .inr rfl
    | some new =>
      rw [after] at step
      cases step with
      | some rel => exact rel.holder agent held

theorem Event.step_expiry {event : Event} (there : (event.step env clock board).expiry id = some lease) :
    board.expiry id = some lease ∨ event.SetsExpiry board id lease := by
  have step := event.step_handover env clock board id
  unfold Store.Handover at step
  unfold Board.expiry at there ⊢
  cases after : (event.step env clock board).store.getTask id with
  | none => simp [after] at there
  | some new =>
    rw [after] at step there
    cases found : board.store.getTask id with
    | none =>
      rw [found] at step
      cases step
    | some old =>
      rw [found] at step
      cases step with
      | some rel => exact rel.lease lease there

/-- **A holder keeps the task until a step releases it.**  The induction is over the
events after the claim; the releasing step is the first after which nobody holds it. -/
theorem held_until_released
    (held : board.holder id = some agent) (lost : (run (Event.step env clock) board events).holder id = none) :
    ∃ before event after, events = before ++ event :: after ∧
      (run (Event.step env clock) board before).holder id = some agent ∧
      (run (Event.step env clock) board (before ++ [event])).holder id = none := by
  induction events generalizing board with
  | nil =>
    rw [run_nil, held] at lost
    cases lost
  | cons event rest ih =>
    rcases event.step_holder env clock held with kept | released
    · obtain ⟨before, releasing, after, rfl, still, gone⟩ := ih kept lost
      exact ⟨event :: before, releasing, after, rfl, still, gone⟩
    · exact ⟨[], event, rest, rfl, held, released⟩

/-- An expiry that is not there does not come back unless a step writes it. -/
theorem run_expiry (gone : board.expiry id ≠ some lease)
    (unwritten : Obeys (Event.step env clock) (fun board event => ¬event.SetsExpiry board id lease)
      board events) : (run (Event.step env clock) board events).expiry id ≠ some lease := by
  refine run_invariant (fun board => board.expiry id ≠ some lease) ?_ gone unwritten
  intro board event before silent there
  rcases event.step_expiry env clock there with old | written
  · exact before old
  · exact silent written

theorem run_candidates {call : Nat} {scanned : List TaskRow}
    (start : ∀ scan, board.scans call = some scan → scan.candidates ⊆ scanned)
    (same : ∀ event ∈ events, ∀ now, event ≠ .scan call now) :
    ∀ scan, (run (Event.step env clock) board events).scans call = some scan → scan.candidates ⊆ scanned := by
  refine run_invariant
    (fun board : Board => ∀ scan, board.scans call = some scan → scan.candidates ⊆ scanned) ?_ start
    (obeys_of_forall same board)
  intro (board : Board) (event : Event) before other scan found
  cases event with
  | edit op => exact before scan found
  | scan another now =>
    by_cases again : another = call
    · subst again
      exact absurd rfl (other now)
    · simp only [Event.step, Function.update_of_ne (Ne.symm again)] at found
      exact before scan found
  | reclaim another =>
    change (board.reclaim clock another).scans call = some scan at found
    unfold Board.reclaim at found
    split at found
    · rename_i now row rest outcomes reading
      by_cases again : another = call
      · subst again
        simp only [Function.update_self, Option.some.injEq] at found
        subst found
        have all := before _ reading
        intro candidate listed
        exact all (List.mem_cons_of_mem row listed)
      · simp only [Function.update_of_ne (Ne.symm again)] at found
        exact before scan found
    · exact before scan found

/-! ## Exclusive claims -/

variable {now lease agentId : Text} {board : Board} {id : Id}

theorem Store.updateWhere_none (nothing : ∀ row ∈ s.tasks, sel row = false) : s.updateWhere sel edit = s := by
  have kept : ∀ row ∈ s.tasks, s.rewrite sel edit row = row := by
    intro row listed
    rw [Store.rewrite, nothing row listed, if_neg Bool.false_ne_true]
  obtain ⟨tasks, distinct, stops, occurrences, floors⟩ := s
  simp only [Store.updateWhere, Store.mk.injEq, true_and]
  refine ⟨(List.map_congr_left kept).trans (List.map_id tasks), ?_⟩
  funext id
  split
  · rename_i row found
    rw [kept row (List.mem_of_find?_eq_some found), if_pos rfl]
  · rfl

/-- **The compare-and-set** misses when the lease is no longer the scanned one. -/
theorem reclaimCandidate_misses {row : TaskRow} (scanned : row.leaseExpiresAt = some lease)
    (moved : (s.getTask row.id).bind TaskRow.leaseExpiresAt ≠ some lease) :
    (s.reclaimCandidate clock now row).2 = s := by
  have none_ : ∀ claimer, ∀ other ∈ s.tasks,
      (heldBy row.id claimer other && other.leaseExpiresAt == some lease) = false := by
    intro claimer other listed
    by_contra selected
    rw [Bool.not_eq_false, Bool.and_eq_true, beq_iff_eq] at selected
    obtain ⟨held, expiry⟩ := selected
    have found := Store.getTask_of_mem listed
    rw [heldBy_id held] at found
    rw [found] at moved
    exact moved expiry
  unfold Store.reclaimCandidate
  rw [scanned]
  dsimp only
  split
  · rfl
  · split
    · exact Store.updateWhere_none (none_ _)
    · exact Store.updateWhere_none (none_ _)

theorem atomicClaim_holder (claimed : (board.store.atomicClaim id agentId now lease).1 = .claimed) :
    (Event.step env clock board (.edit (.claim id agentId now lease))).holder id = some agentId := by
  rcases atomicClaim_cases board.store id agentId now lease with
    ⟨-, written, row, found, free, -⟩ | ⟨refused, -⟩
  · show ((board.store.atomicClaim id agentId now lease).2.getTask id).bind TaskRow.claimedBy = _
    rw [written, updateWhere_get, found]
    simp [Store.rewrite, free, claimEdit]
  · exact absurd claimed refused

theorem atomicClaim_free
    (claimed : (board.store.atomicClaim id agentId now lease).1 = .claimed) : board.holder id = none := by
  rcases atomicClaim_cases board.store id agentId now lease with
    ⟨-, -, row, found, free, -⟩ | ⟨refused, -⟩
  · simp only [claimable, Bool.and_eq_true, Option.isNone_iff_eq_none] at free
    rw [Board.holder, found]
    exact free.2
  · exact absurd claimed refused

theorem renewLease_expiry {expiry : Text} (renewed : (board.store.renewLease id agentId expiry now).1 = true) :
    (Event.step env clock board (.edit (.renewLease id agentId expiry now))).expiry id = some expiry := by
  have one : board.store.changes (heldBy id agentId) = 1 := by
    simpa [Store.renewLease] using renewed
  obtain ⟨row, found, held⟩ := Store.changes_selects (fun _ => heldBy_id) one
  show ((board.store.renewLease id agentId expiry now).2.getTask id).bind
    TaskRow.leaseExpiresAt = _
  simp [Store.renewLease, updateWhere_get, found, Store.rewrite, held]

/-- **Claims are exclusive.**  Over any interleaving of operations and calls of
`reclaim_zombies`, from any board:
a task has at most one holder, and between two claims of it a step takes it from the
first holder and gives it to nobody;
a claim succeeds only when every dependency is there and done;
and a lease renewed to another expiry after a scan, and not set back to exactly the
scanned text, leaves the scan's reclaim of that task without effect. -/
theorem claim_exclusive (board : Board) :
    (∀ events id a b, ∀ row ∈ (run (Event.step env clock) board events).store.tasks,
      ∀ other ∈ (run (Event.step env clock) board events).store.tasks,
      heldBy id a row → heldBy id b other → row = other ∧ a = b) ∧
    (∀ earlier id a now lease between b now' lease', let first := run (Event.step env clock) board earlier
      let mid := Event.step env clock first (.edit (.claim id a now lease))
      (first.store.atomicClaim id a now lease).1 = .claimed →
      ((run (Event.step env clock) mid between).store.atomicClaim id b now' lease').1 = .claimed →
      ∃ before event after, between = before ++ event :: after ∧
        (run (Event.step env clock) mid before).holder id = some a ∧
        (run (Event.step env clock) mid (before ++ [event])).holder id = none) ∧
    (∀ events id agent now lease, let s := (run (Event.step env clock) board events).store
      (s.atomicClaim id agent now lease).1 = .claimed → ∃ row, s.getTask id = some row ∧
        ∀ dep ∈ row.dependsOn, ∃ done, s.getTask dep = some done ∧ done.status = .done) ∧
    (∀ earlier call now row lease mid agent expiry renewedAt later,
      let scanned := run (Event.step env clock) board earlier
      let met := run (Event.step env clock) scanned (.scan call now :: mid)
      let renewal : Event := .edit (.renewLease row.id agent expiry renewedAt)
      let last := run (Event.step env clock) (renewal.step env clock met) later
      row ∈ scanned.store.tasks → row.leaseExpiresAt = some lease →
      (∀ event ∈ mid ++ later, ∀ at_, event ≠ .scan call at_) →
      expiry ≠ lease → (met.store.renewLease row.id agent expiry renewedAt).1 = true →
      Obeys (Event.step env clock) (fun board event => ¬event.SetsExpiry board row.id lease)
        (renewal.step env clock met) later →
      ∀ at_ candidate rest outcomes,
        last.scans call = some ⟨at_, candidate :: rest, outcomes⟩ → candidate.id = row.id →
        (Event.step env clock last (.reclaim call)).store = last.store) := by
  refine ⟨?_, ?_, ?_, ?_⟩
  · intro events id a b row listed other otherListed held otherHeld
    have same : row = other := List.inj_on_of_nodup_map (Store.distinct _) listed otherListed
      ((heldBy_id held).trans (heldBy_id otherHeld).symm)
    subst same
    simp only [heldBy, Bool.and_eq_true, beq_iff_eq] at held otherHeld
    exact ⟨rfl, Option.some.inj (held.1.2.symm.trans otherHeld.1.2)⟩
  · intro earlier id a now lease between b now' lease' first mid claimed again
    exact held_until_released env clock (atomicClaim_holder env clock claimed)
      (atomicClaim_free again)
  · intro events id agent now lease s claimed
    rcases atomicClaim_cases s id agent now lease with ⟨-, -, row, found, -, met⟩ | ⟨refused, -⟩
    · refine ⟨row, found, ?_⟩
      intro dep listed
      have done := List.filter_eq_nil_iff.mp met dep listed
      simpa using done
    · exact absurd claimed refused
  · intro earlier call now row lease mid agent expiry renewedAt later scanned met renewal last
      listed leased alone differs renewed unwritten at_ candidate rest outcomes reading sameTask
    -- the candidate is the row the scan read
    have origin : ∀ scan, last.scans call = some scan →
        scan.candidates ⊆ scanned.store.tasks.filter isCandidate := by
      have trace : last = run (Event.step env clock)
          (Event.step env clock scanned (.scan call now)) (mid ++ renewal :: later) := by
        rw [run_append, run_cons]
        rfl
      rw [trace]
      refine run_candidates env clock ?_ ?_
      · intro scan found
        simp only [Event.step, Function.update_self, Option.some.injEq] at found
        subst found
        exact fun _ inside => inside
      · intro event inside
        rcases List.mem_append.mp inside with front | back
        · exact alone event (List.mem_append_left _ front)
        · rcases List.mem_cons.mp back with rfl | back
          · exact fun at_ => Event.noConfusion
          · exact alone event (List.mem_append_right _ back)
    have read : candidate ∈ scanned.store.tasks :=
      List.mem_of_mem_filter (origin _ reading List.mem_cons_self)
    have same : candidate = row :=
      List.inj_on_of_nodup_map (Store.distinct _) read listed sameTask
    subst same
    -- and its lease is not the scanned one any more
    have moved : (renewal.step env clock met).expiry candidate.id ≠ some lease := by
      rw [renewLease_expiry env clock renewed]
      simpa using differs
    have still := run_expiry env clock moved unwritten
    show (last.reclaim clock call).store = last.store
    unfold Board.reclaim
    rw [reading]
    exact reclaimCandidate_misses clock leased still

/-! ## A lease set back -/

def midnight : Text := "2026-01-01T00:00:00Z".toList
def fivePast : Text := "2026-01-01T00:05:00Z".toList
def oneOClock : Text := "2026-01-01T01:00:00Z".toList
def fivePastOne : Text := "2026-01-01T01:05:00Z".toList

def sampleClock : Clock where
  parseFromRfc3339 text :=
    if text = midnight then some 1767225600000000000
    else if text = fivePast then some 1767225900000000000
    else if text = oneOClock then some 1767229200000000000
    else if text = fivePastOne then some 1767229500000000000
    else none

def sampleAgent : Text := "agnes".toList

def sampleTask : Id := ['t']

/-- A pending task that depends on a done one. -/
def sampleBoard : Board where
  store :=
    { tasks := [{ sampleRow sampleTask .pending none with dependsOn := [['d']] },
        sampleRow ['d'] .done none]
      distinct := by decide
      stops := []
      occurrences := []
      floors := fun _ => none }
  scans := fun _ => none

def sampleClaim : Event := .edit (.claim sampleTask sampleAgent midnight fivePast)

def scannedRow : TaskRow :=
  { sampleRow sampleTask .inProgress none with
    dependsOn := [['d']], claimedBy := some sampleAgent, claimedAt := some midnight
    leaseExpiresAt := some fivePast, leaseRenewedAt := some midnight, assignedTo := sampleAgent
    updatedAt := midnight, authorityRevision := 2 }

/-- The claim succeeds on a done dependency, and the renewal at one o'clock saves the task from
a scan that found it an hour overdue. -/
theorem claim_exclusive_renewed :
    let claimed := run (Event.step sampleEnv sampleClock) sampleBoard [sampleClaim]
    let renewed := run (Event.step sampleEnv sampleClock) claimed
      [.scan 0 oneOClock, .edit (.renewLease sampleTask sampleAgent fivePastOne oneOClock)]
    (sampleBoard.store.atomicClaim sampleTask sampleAgent midnight fivePast).1 = .claimed ∧
      (∃ row, sampleBoard.store.getTask sampleTask = some row ∧ ∀ dep ∈ row.dependsOn,
        ∃ done, sampleBoard.store.getTask dep = some done ∧ done.status = .done) ∧
      zombieReclaimDue sampleClock fivePast (some midnight) oneOClock ∧
      (Event.step sampleEnv sampleClock renewed (.reclaim 0)).store = renewed.store := by
  intro claimed renewed
  obtain ⟨-, -, dependencies, misses⟩ := claim_exclusive sampleEnv sampleClock sampleBoard
  have claims : (sampleBoard.store.atomicClaim sampleTask sampleAgent midnight fivePast).1 =
      .claimed := by decide
  refine ⟨claims, dependencies [] _ _ _ _ claims, by decide, ?_⟩
  refine misses [sampleClaim] 0 oneOClock scannedRow fivePast [] sampleAgent fivePastOne oneOClock []
    ?_ rfl (by simp) (by decide) (by decide) trivial oneOClock scannedRow [] [] ?_ rfl
  · decide
  · rfl

/-- **A lease set back is reclaimed.**  After the scan the lease is renewed to another
expiry and then to the scanned one again: the compare-and-set succeeds and the task is
taken from its holder. -/
theorem reclaim_after_renewals : ¬∀ earlier call now row lease mid agent expiry renewedAt later,
      let scanned := run (Event.step sampleEnv sampleClock) sampleBoard earlier
      let met := run (Event.step sampleEnv sampleClock) scanned (.scan call now :: mid)
      let renewal : Event := .edit (.renewLease row.id agent expiry renewedAt)
      let last := run (Event.step sampleEnv sampleClock) (renewal.step sampleEnv sampleClock met) later
      row ∈ scanned.store.tasks → row.leaseExpiresAt = some lease →
      (∀ event ∈ mid ++ later, ∀ at_, event ≠ .scan call at_) →
      expiry ≠ lease → (met.store.renewLease row.id agent expiry renewedAt).1 = true →
      ∀ at_ candidate rest outcomes,
        last.scans call = some ⟨at_, candidate :: rest, outcomes⟩ → candidate.id = row.id →
        (Event.step sampleEnv sampleClock last (.reclaim call)).store = last.store := by
  intro misses
  have kept := misses [sampleClaim] 0 oneOClock scannedRow fivePast [] sampleAgent fivePastOne
    oneOClock [.edit (.renewLease sampleTask sampleAgent fivePast oneOClock)] (by decide) rfl
    (by simp) (by decide) (by decide) oneOClock scannedRow [] [] rfl rfl
  have holder := congrArg (fun s : Store => (s.getTask sampleTask).bind TaskRow.claimedBy) kept
  revert holder
  decide

end DuDuClaw.TaskStore
