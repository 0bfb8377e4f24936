/-
# TaskStore.Rejections -- concurrent calls of reject_review

`reject_review` reads its task, and later, under another lock, writes what it decided
from the row it read.  A desk is the store with the calls that have read and not yet
written; any operation may come between.

The write is guarded by `status = 'review'` only, and its outcome is returned whether or
not it changed a row.  `DeskEvent.fresh` is what a call relies on: the task is still in
review with the counts that were read, or it already has the status the call returns.

* `Desk.write_spec`: a fresh write leaves the task in the status it returns, and sends it
  back with both counts raised by one.
* `DeskEvent.step_counts`: no fresh event lowers the retry count of a task.
* `rejection_accounting`: both over every run, and that no stretch of a run sends a task
  back more often than its retry budget says.
-/
import DuDuClaw.TaskStore.Statuses

namespace DuDuClaw.TaskStore

open DuDuClaw.Lib

/-! ## The desk -/

/-- A call between its read and its write. -/
structure PendingReject where
  call : Nat
  id : Id
  seen : Option TaskRow

structure Desk where
  store : Store
  pending : List PendingReject

def Desk.start (occurrences : List Id) : Desk := ⟨Store.start occurrences, []⟩

def Desk.lookup (d : Desk) (call : Nat) : Option PendingReject :=
  d.pending.find? fun waiting => waiting.call == call

def StoreOp.isReject : StoreOp → Bool
  | .row (.edit (.rejectReview ..)) => true
  | _ => false

/-- The two halves of a call, and any other operation of the store. -/
inductive DeskEvent where
  | read (call : Nat) (id : Id)
  | write (call : Nat) (feedback : Text) (softCap : Int) (now : Text)
  | other (op : StoreOp) (sound : op.isReject = false)

def Desk.step (env : InsertEnv) (d : Desk) : DeskEvent → Desk
  | .read call id => { d with pending := ⟨call, id, d.store.getTask id⟩ :: d.pending }
  | .write call feedback softCap now =>
    match d.lookup call with
    | none => d
    | some waiting =>
      { store := (d.store.rejectReview env.toEnv waiting.seen waiting.id feedback softCap now).2
        pending := d.pending.filter fun other => other.call != call }
  | .other op _ => { d with store := op.perform env d.store }

/-- The task and the outcome a call returns at its write. -/
def Desk.returned (env : InsertEnv) (d : Desk) : DeskEvent → Option (Id × Except TaskError Status)
  | .write call feedback softCap now =>
    (d.lookup call).map fun waiting =>
      (waiting.id,
        (d.store.rejectReview env.toEnv waiting.seen waiting.id feedback softCap now).1)
  | _ => none

/-- The event is a rejection that sends the task from review back to revising. -/
def Desk.sendsBack (env : InsertEnv) (d : Desk) (id : Id) : DeskEvent → Bool
  | .write call feedback softCap now =>
    (d.store.getTask id).map TaskRow.status == some .review &&
      ((d.step env (.write call feedback softCap now)).store.getTask id).map TaskRow.status ==
        some .revising
  | _ => false

/-- How many events of a run send the task back. -/
def Desk.rejections (env : InsertEnv) (id : Id) : Desk → List DeskEvent → Nat
  | _, [] => 0
  | d, event :: rest =>
    (d.sendsBack env id event).toNat + Desk.rejections env id (d.step env event) rest

def DeskEvent.Removes (id : Id) : DeskEvent → Prop
  | .other (.remove target) _ => target = id
  | _ => False

def TaskRow.verdict (seen : TaskRow) : Status :=
  if seen.retryCount < seen.maxRetries then .revising else .needsHuman

/-- What a call that read `seen` relies on when it writes: in review the task has the
counts that were read, unless it goes to a human anyway; elsewhere it already has the
status that is returned. -/
def freshRow (id : Id) (seen row : TaskRow) : Bool :=
  if inStatus id .review row then
    decide (seen.maxRetries ≤ seen.retryCount) ||
      (row.retryCount == seen.retryCount && row.revisionRound == seen.revisionRound &&
        decide (row.retryCount < row.maxRetries))
  else row.status == seen.verdict

/-- The event does not act on a row that changed since it was read; a requeue does not
lower the retry count, and a task is inserted with a count that is not negative. -/
def DeskEvent.fresh (env : InsertEnv) (d : Desk) : DeskEvent → Bool
  | .write call _ _ _ =>
    (d.lookup call).all fun waiting => waiting.seen.all fun seen =>
      (d.store.getTask waiting.id).any (freshRow waiting.id seen)
  | .other (.row (.edit (.requeueZombie id claimer lease retry _))) _ =>
    (d.store.getTask id).all fun row =>
      !(heldBy id claimer row && row.leaseExpiresAt == some lease) ||
        decide (row.retryCount ≤ retry)
  | .other (.insert task) _ => !d.store.accepts env task || decide (0 ≤ task.row.retryCount)
  | _ => true

/-! ## The write -/

variable {id : Id} {row seen : TaskRow}

theorem Store.fire_counts (s : Store) (old new : TaskRow) : (s.fire old new).retryCount = new.retryCount ∧
      (s.fire old new).revisionRound = new.revisionRound ∧ (s.fire old new).maxRetries = new.maxRetries := by
  unfold Store.fire
  split <;> exact ⟨rfl, rfl, rfl⟩

/-- What the write of a call leaves of its task. -/
theorem rejectReview_row (env : Env) {s : Store}
    (found : s.getTask id = some row) (seen : TaskRow) (feedback : Text) (softCap : Int) (now : Text) :
    (s.rejectReview env (some seen) id feedback softCap now).1 = .ok seen.verdict ∧
      ∃ new, (s.rejectReview env (some seen) id feedback softCap now).2.getTask id = some new ∧
        new.maxRetries = row.maxRetries ∧ (inStatus id .review row = false → new = row) ∧
        (inStatus id .review row = true → new.status = seen.verdict ∧
          (seen.retryCount < seen.maxRetries → new.retryCount = seen.retryCount + 1 ∧
            new.revisionRound = seen.revisionRound + 1) ∧
          (seen.maxRetries ≤ seen.retryCount → new.retryCount = row.retryCount)) := by
  unfold Store.rejectReview TaskRow.verdict
  by_cases left : seen.retryCount < seen.maxRetries
  · simp only [left, if_true, updateWhere_get, found, Option.map_some]
    refine ⟨trivial, _, rfl, ?_⟩
    unfold Store.rewrite
    cases inReview : inStatus id .review row with
    | false => simp
    | true => simp [Store.fire_counts, Int.not_le.mpr left]
  simp only [left, if_false, updateWhere_get, found, Option.map_some]
  refine ⟨trivial, _, rfl, ?_⟩
  unfold Store.rewrite
  cases inReview : inStatus id .review row with
  | false => simp
  | true => simp [Store.fire_counts]

theorem rejectReview_other (env : Env) (s : Store) (read : Option TaskRow) {other : Id}
    (elsewhere : other ≠ id) (feedback : Text) (softCap : Int) (now : Text) :
    (s.rejectReview env read id feedback softCap now).2.getTask other = s.getTask other := by
  have becomes := rejectReview_becomes env s read id feedback softCap now
  cases found : s.getTask other with
  | none => exact becomes.absent other found
  | some row =>
    rcases becomes.present other row found with same | ⟨new, rewrites, -⟩
    · exact same
    · have guard := rewrites.1
      simp only [inStatus, Bool.and_eq_true, beq_iff_eq] at guard
      exact absurd ((Store.getTask_mem found).2.symm.trans guard.1.1) elsewhere

theorem freshRow_review (fresh : freshRow id seen row = true)
    (inReview : inStatus id .review row = true) : seen.maxRetries ≤ seen.retryCount ∨
      row.retryCount = seen.retryCount ∧ row.revisionRound = seen.revisionRound ∧
        row.retryCount < row.maxRetries := by
  simpa [freshRow, inReview, and_assoc] using fresh

theorem freshRow_elsewhere (fresh : freshRow id seen row = true)
    (elsewhere : inStatus id .review row = false) : row.status = seen.verdict := by
  simpa [freshRow, elsewhere] using fresh

theorem DeskEvent.fresh_write {env : InsertEnv} {d : Desk} {call : Nat} {feedback : Text}
    {softCap : Int} {now : Text} {waiting : PendingReject}
    (fresh : (DeskEvent.write call feedback softCap now).fresh env d = true)
    (found : d.lookup call = some waiting) (read : waiting.seen = some seen) :
    ∃ row, d.store.getTask waiting.id = some row ∧ freshRow waiting.id seen row = true := by
  simpa [DeskEvent.fresh, found, read, Option.any_eq_true] using fresh

/-- **A fresh call leaves its task in the status it returns.** -/
theorem Desk.write_spec {env : InsertEnv} {d : Desk} {event : DeskEvent}
    {status : Status} (fresh : event.fresh env d = true)
    (outcome : d.returned env event = some (id, .ok status)) :
    (d.step env event).store.HasStatus id status := by
  cases event with
  | read call target | other op sound => cases outcome
  | write call feedback softCap now =>
    simp only [Desk.returned, Option.map_eq_some_iff, Prod.mk.injEq] at outcome
    obtain ⟨waiting, found, rfl, outcome⟩ := outcome
    simp only [Desk.step, found]
    cases read : waiting.seen with
    | none =>
      rw [read] at outcome
      cases outcome
    | some seen =>
      rw [read] at outcome
      obtain ⟨row, isRow, fits⟩ := DeskEvent.fresh_write fresh found read
      obtain ⟨result, new, stored, -, kept, changed⟩ :=
        rejectReview_row env.toEnv isRow seen feedback softCap now
      have same : seen.verdict = status := by
        rw [result] at outcome
        exact Except.ok.inj outcome
      rw [Store.HasStatus, stored, Option.map_some, ← same]
      congr 1
      cases inReview : inStatus waiting.id .review row with
      | true => exact (changed inReview).1
      | false =>
        rw [kept inReview]
        exact freshRow_elsewhere fits inReview

/-! ## The counts -/

variable {env : InsertEnv} {row : TaskRow} {d : Desk} {id : Id}

variable {event : DeskEvent}

/-- Outside `reject_review` only a requeue writes a count, and only the retries. -/
theorem RowOp.rewrites_counts {env : Env} {s : Store} {op : RowOp} {new : TaskRow}
    (rewrites : op.Rewrites env s row new) (sound : (StoreOp.row op).isReject = false) :
    new.maxRetries = row.maxRetries ∧ (new.retryCount = row.retryCount ∨ ∃ claimer lease retry now,
        op = .edit (.requeueZombie row.id claimer lease retry now) ∧
          heldBy row.id claimer row = true ∧ row.leaseExpiresAt = some lease ∧ new.retryCount = retry) := by
  cases op with
  | edit op =>
    cases op with
    | rejectReview read id feedback softCap now => cases sound
    | requeueZombie id claimer lease retry now =>
      obtain ⟨held, leased, rfl⟩ := rewrites
      have named : row.id = id := by
        simp only [heldBy, Bool.and_eq_true, beq_iff_eq] at held
        exact held.1.1.1
      subst named
      exact ⟨rfl, .inr ⟨claimer, lease, retry, now, rfl, held, leased, rfl⟩⟩
    | update id fields cap now =>
      obtain ⟨-, costCap, -, rfl⟩ := rewrites
      exact ⟨rfl, .inl rfl⟩
    | claim id agentId now lease | failZombie id claimer lease now
    | stopTree root revision requestedBy countsAsFailure now | sweep ids now =>
      obtain ⟨-, -, rfl⟩ := rewrites
      exact ⟨rfl, .inl rfl⟩
    | complete id summary caller now =>
      obtain ⟨-, -, -, rfl⟩ := rewrites
      split <;> exact ⟨rfl, .inl rfl⟩
    | resolveNeedsHuman id decision note expected now =>
      obtain ⟨-, edit, decided, rfl⟩ := rewrites
      cases decision <;> cases decided <;> exact ⟨rfl, .inl rfl⟩
    | continueFromTerminal id message expected now =>
      obtain ⟨-, -, -, -, -, -, rfl⟩ := rewrites
      exact ⟨rfl, .inl rfl⟩
    | renewLease | acceptReview | markNeedsHuman | cancel =>
      obtain ⟨-, rfl⟩ := rewrites
      exact ⟨rfl, .inl rfl⟩
  | _ =>
    obtain ⟨-, rfl⟩ := rewrites
    exact ⟨rfl, .inl rfl⟩

structure TaskRow.Counts (old new : TaskRow) : Prop where
  budget : new.maxRetries = old.maxRetries
  retries : old.retryCount ≤ new.retryCount

theorem TaskRow.Counts.refl (row : TaskRow) : row.Counts row := ⟨rfl, Int.le_refl _⟩

theorem other_counts {op : StoreOp} {sound : op.isReject = false}
    (fresh : (DeskEvent.other op sound).fresh env d = true)
    (found : d.store.getTask id = some row) (kept : ¬(DeskEvent.other op sound).Removes id) :
    ∃ new, (op.perform env d.store).getTask id = some new ∧ row.Counts new := by
  obtain ⟨-, rfl⟩ := Store.getTask_mem found
  cases op with
  | insert task =>
    refine ⟨row, ?_, .refl row⟩
    simp only [StoreOp.perform]
    cases accepted : d.store.accepts env task with
    | false => rw [insertTask_refused accepted, found]
    | true =>
      obtain ⟨free, stored⟩ := insertTask_accepted accepted
      have other : row.id ≠ task.row.id := by
        intro same
        rw [same, free] at found
        cases found
      rw [stored, if_neg other, found]
  | remove target =>
    rcases removeTask_row d.store target row.id with same | ⟨removed, -⟩
    · exact ⟨row, same.trans found, .refl row⟩
    · exact absurd removed.symm kept
  | row op =>
    rcases (op.perform_becomes env.toEnv d.store).present _ row found with
      same | ⟨new, rewrites, stored⟩
    · exact ⟨row, same, .refl row⟩
    refine ⟨_, stored, ?_⟩
    obtain ⟨retries, -, budget⟩ := d.store.fire_counts row new
    obtain ⟨sameBudget, counted⟩ := RowOp.rewrites_counts rewrites sound
    refine ⟨budget.trans sameBudget, ?_⟩
    rw [retries]
    rcases counted with same | ⟨claimer, lease, retry, now, rfl, held, leased, isRetry⟩
    · exact Int.le_of_eq same.symm
    · rw [isRetry]
      simpa [DeskEvent.fresh, found, held, leased] using fresh

theorem sendsBack_unmoved (found : d.store.getTask id = some row)
    (same : (d.step env event).store.getTask id = some row) : d.sendsBack env id event = false := by
  cases event with
  | read call target | other op sound => rfl
  | write call feedback softCap now =>
    simp only [Desk.sendsBack, same, found, Option.map_some]
    cases row.status <;> rfl

theorem write_counts {call : Nat} {feedback : Text} {softCap : Int}
    {now : Text} {waiting : PendingReject}
    (waits : d.lookup call = some waiting) (read : waiting.seen = some seen)
    (found : d.store.getTask waiting.id = some row) (fits : freshRow waiting.id seen row = true) :
    ∃ new, (d.step env (.write call feedback softCap now)).store.getTask waiting.id = some new ∧
      row.Counts new ∧ (d.sendsBack env waiting.id (.write call feedback softCap now) = true →
        row.retryCount < row.maxRetries ∧
        new.retryCount = row.retryCount + 1 ∧ new.revisionRound = row.revisionRound + 1) := by
  obtain ⟨-, new, stored, budget, still, changed⟩ :=
    rejectReview_row env.toEnv found seen feedback softCap now
  have after : (d.step env (.write call feedback softCap now)).store.getTask waiting.id =
      some new := by
    simp only [Desk.step, waits, read, stored]
  cases inReview : inStatus waiting.id .review row with
  | false =>
    cases still inReview
    refine ⟨row, after, .refl row, fun sent => ?_⟩
    rw [sendsBack_unmoved found after] at sent
    cases sent
  | true =>
    obtain ⟨moved, sentBack, escalated⟩ := changed inReview
    refine ⟨new, after, ?_⟩
    by_cases left : seen.retryCount < seen.maxRetries
    · rcases freshRow_review fits inReview with spent | ⟨retries, rounds, within⟩
      · exact absurd left (Int.not_lt.mpr spent)
      · obtain ⟨newRetries, newRounds⟩ := sentBack left
        have raised : new.retryCount = row.retryCount + 1 := by omega
        exact ⟨⟨budget, by omega⟩, fun _ => ⟨within, raised, by omega⟩⟩
    -- the budget was spent, so the task went to a human
    have spent : seen.maxRetries ≤ seen.retryCount := Int.not_lt.mp left
    refine ⟨⟨budget, Int.le_of_eq (escalated spent).symm⟩, fun sent => ?_⟩
    simp only [Desk.sendsBack, after, Option.map_some, Bool.and_eq_true, beq_iff_eq, Option.some.injEq] at sent
    rw [moved, TaskRow.verdict, if_neg left] at sent
    cases sent.2

/-- **What one event leaves of the counts of a task**: the budget stays, the retries do
not fall, and a rejection that sends the task back raises both counts by one. -/
theorem DeskEvent.step_counts (fresh : event.fresh env d = true)
    (found : d.store.getTask id = some row) (kept : ¬event.Removes id) :
    ∃ new, (d.step env event).store.getTask id = some new ∧ row.Counts new ∧
      (d.sendsBack env id event = true → row.retryCount < row.maxRetries ∧
        new.retryCount = row.retryCount + 1 ∧ new.revisionRound = row.revisionRound + 1) := by
  have unmoved : (d.step env event).store.getTask id = some row →
      ∃ new, (d.step env event).store.getTask id = some new ∧ row.Counts new ∧
        (d.sendsBack env id event = true → row.retryCount < row.maxRetries ∧
          new.retryCount = row.retryCount + 1 ∧ new.revisionRound = row.revisionRound + 1) := by
    intro same
    refine ⟨row, same, .refl row, fun sent => ?_⟩
    rw [sendsBack_unmoved found same] at sent
    cases sent
  cases event with
  | read call target => exact unmoved found
  | other op sound =>
    obtain ⟨new, stored, counts⟩ := other_counts fresh found kept
    exact ⟨new, stored, counts, nofun⟩
  | write call feedback softCap now =>
    cases waits : d.lookup call with
    | none => exact unmoved (by simp only [Desk.step, waits, found])
    | some waiting =>
      by_cases mine : id = waiting.id
      · subst mine
        cases read : waiting.seen with
        | none =>
          exact unmoved (by simp only [Desk.step, waits, read, Store.rejectReview, found])
        | some seen =>
          obtain ⟨other, isOther, fits⟩ := DeskEvent.fresh_write fresh waits read
          cases Option.some.inj (found.symm.trans isOther)
          exact write_counts waits read found fits
      · refine unmoved ?_
        simp only [Desk.step, waits]
        rw [rejectReview_other env.toEnv d.store waiting.seen mine, found]

/-! ## Runs -/

def Desk.Counted (d : Desk) : Prop :=
  ∀ id row, d.store.getTask id = some row → 0 ≤ row.retryCount

theorem DeskEvent.step_counted
    (fresh : event.fresh env d = true) (counted : d.Counted) : (d.step env event).Counted := by
  intro id new after
  cases before : d.store.getTask id with
  | some row =>
    by_cases removed : event.Removes id
    · cases event with
      | read call target | write call feedback softCap now => cases removed
      | other op sound =>
        cases op with
        | row op | insert task => cases removed
        | remove target =>
          rcases removeTask_row d.store target id with same | ⟨-, gone⟩
          · exact counted id new (same.symm.trans after)
          · exact absurd (gone.symm.trans after) nofun
    · obtain ⟨other, stored, counts, -⟩ := DeskEvent.step_counts fresh before removed
      cases Option.some.inj (after.symm.trans stored)
      exact Int.le_trans (counted id row before) counts.retries
  | none =>
    cases event with
    | read call target => exact absurd (before.symm.trans after) nofun
    | write call feedback softCap now =>
      simp only [Desk.step] at after
      split at after
      · exact absurd (before.symm.trans after) nofun
      rename_i waiting _
      have missing := (rejectReview_becomes env.toEnv d.store waiting.seen waiting.id feedback
        softCap now).absent id before
      exact absurd (missing.symm.trans after) nofun
    | other op sound =>
      cases op with
      | row op =>
        have missing := (op.perform_becomes env.toEnv d.store).absent id before
        exact absurd (missing.symm.trans after) nofun
      | remove target =>
        rcases removeTask_row d.store target id with same | ⟨-, gone⟩
        · exact absurd ((same.trans before).symm.trans after) nofun
        · exact absurd (gone.symm.trans after) nofun
      | insert task =>
        change (d.store.insertTask env task).2.getTask id = some new at after
        cases accepted : d.store.accepts env task with
        | false =>
          rw [insertTask_refused accepted, before] at after
          cases after
        | true =>
          obtain ⟨-, stored⟩ := insertTask_accepted accepted
          rw [stored] at after
          split at after
          · cases after
            show 0 ≤ task.row.retryCount
            simpa [DeskEvent.fresh, accepted] using fresh
          · exact absurd (before.symm.trans after) nofun

/-- **The retry budget bounds the rejections.**  Each one needs a retry that is left, and
nothing gives one back. -/
theorem rejections_le (env : InsertEnv) {events : List DeskEvent}
    (fresh : Obeys (Desk.step env) (fun d event => event.fresh env d = true) d events)
    (kept : ∀ event ∈ events, ¬event.Removes id) (found : d.store.getTask id = some row) :
    Desk.rejections env id d events ≤ (row.maxRetries - row.retryCount).toNat := by
  induction events generalizing d row with
  | nil => exact Nat.zero_le _
  | cons event rest ih =>
    obtain ⟨first, others⟩ := fresh
    obtain ⟨new, stored, counts, sent⟩ :=
      DeskEvent.step_counts first found (kept event List.mem_cons_self)
    have further := ih others (fun other listed => kept other (List.mem_cons_of_mem _ listed))
      stored
    have budget := counts.budget
    have retries := counts.retries
    rw [Desk.rejections]
    cases sentBack : d.sendsBack env id event with
    | false =>
      rw [Bool.toNat_false]
      omega
    | true =>
      obtain ⟨within, raised, -⟩ := sent sentBack
      rw [Bool.toNat_true]
      omega

/-- **Rejection accounting.**  In every run from the empty store whose events are fresh,
a rejection that sends a task back raises both of its counts by one, a call that returns a
status has left its task in that status, and no stretch of the run in which a task is not
removed sends it back more often than `max_retries`. -/
theorem rejection_accounting (env : InsertEnv) (occurrences : List Id) (events : List DeskEvent)
    (fresh : Obeys (Desk.step env) (fun d event => event.fresh env d = true) (Desk.start occurrences) events) :
    (∀ earlier event later, events = earlier ++ event :: later → ∀ id,
      ((run (Desk.step env) (Desk.start occurrences) earlier).sendsBack env id event = true → ∃ row new,
          (run (Desk.step env) (Desk.start occurrences) earlier).store.getTask id = some row ∧
          (run (Desk.step env) (Desk.start occurrences) (earlier ++ [event])).store.getTask id = some new ∧
          new.retryCount = row.retryCount + 1 ∧ new.revisionRound = row.revisionRound + 1) ∧
      ∀ status, (run (Desk.step env) (Desk.start occurrences) earlier).returned env event =
          some (id, .ok status) →
        (run (Desk.step env) (Desk.start occurrences) (earlier ++ [event])).store.HasStatus id
          status) ∧
    ∀ earlier middle later, events = earlier ++ (middle ++ later) → ∀ id row,
      (run (Desk.step env) (Desk.start occurrences) earlier).store.getTask id = some row →
      (∀ event ∈ middle, ¬event.Removes id) →
      Desk.rejections env id (run (Desk.step env) (Desk.start occurrences) earlier) middle ≤
        row.maxRetries.toNat := by
  constructor
  · intro earlier event later split id
    subst split
    have allowed := fresh.at
    rw [run_append]
    refine ⟨fun sent => ?_, fun status outcome => Desk.write_spec allowed outcome⟩
    have kept : ¬event.Removes id := by
      cases event with
      | write call feedback softCap now => exact nofun
      | read call target | other op sound => cases sent
    cases found : (run (Desk.step env) (Desk.start occurrences) earlier).store.getTask id with
    | none =>
      cases event with
      | write call feedback softCap now => simp [Desk.sendsBack, found] at sent
      | read call target | other op sound => cases sent
    | some row =>
      obtain ⟨new, stored, -, raises⟩ := DeskEvent.step_counts allowed found kept
      obtain ⟨-, retries, rounds⟩ := raises sent
      exact ⟨row, new, rfl, stored, retries, rounds⟩
  · intro earlier middle later split id row found kept
    subst split
    obtain ⟨first, rest⟩ := obeys_append.mp fresh
    have counted : (run (Desk.step env) (Desk.start occurrences) earlier).Counted := by
      refine run_invariant Desk.Counted (fun d event holds allowed => ?_) ?_ first
      · exact DeskEvent.step_counted allowed holds
      · intro id row missing
        cases missing
    have bound := rejections_le env (obeys_append.mp rest).1 kept found
    have positive := counted id row found
    omega

def sampleInReview : DeskEvent :=
  .other
    (.insert
      { row := sampleRow sampleRoot .review none
        contracts := []
        timeoutSecs := none
        discoveryRunId := none
        discoverySpecJson := none
        ownerRefused := false })
    rfl

def sampleRound : List DeskEvent :=
  [.other (.row (.edit (.claim sampleRoot ['w'] ['1'] ['2']))) rfl,
    .other (.row (.edit (.complete sampleRoot [] ['w'] ['3']))) rfl]

/-- The goal is sent back, worked on, and sent back again. -/
def twoRounds : List DeskEvent :=
  [sampleInReview, .read 0 sampleRoot, .write 0 [] 3 []] ++ sampleRound ++ [.read 1 sampleRoot]

def secondWrite : DeskEvent := .write 1 [] 3 []

/-- The second call finds the goal as it read it. -/
theorem rejection_accounting_twoRounds :
    (run (Desk.step sampleInsertEnv) (Desk.start []) (twoRounds ++ [secondWrite])).store.HasStatus
        sampleRoot .revising ∧
      Desk.rejections sampleInsertEnv sampleRoot
        (run (Desk.step sampleInsertEnv) (Desk.start []) [sampleInReview])
        ((twoRounds ++ [secondWrite]).drop 1) ≤ 3 := by
  have laws := rejection_accounting sampleInsertEnv [] (twoRounds ++ [secondWrite])
    (by decide)
  constructor
  · exact (laws.1 twoRounds secondWrite [] rfl sampleRoot).2 .revising rfl
  · refine laws.2 [sampleInReview] _ [] rfl sampleRoot (sampleRow sampleRoot .review none) rfl ?_
    intro event listed
    simp only [twoRounds, sampleRound, secondWrite, List.cons_append, List.nil_append, List.drop_succ_cons,
      List.drop_zero, List.mem_cons, List.not_mem_nil, or_false] at listed
    rcases listed with rfl | rfl | rfl | rfl | rfl | rfl <;> intro impossible <;> cases impossible

/-- Two calls read the goal in its first review; one of them writes, and the other still
waits when the goal is in its second. -/
def staleCall : List DeskEvent :=
  [sampleInReview, .read 0 sampleRoot, .read 1 sampleRoot, .write 1 [] 3 []] ++ sampleRound

def acceptedBetween : List DeskEvent :=
  [sampleInReview, .read 0 sampleRoot,
    .other (.row (.edit (.acceptReview sampleRoot [] ['1']))) rfl]

/-- **The accounting breaks between the read and the write.**  A call that writes a round
late sends the goal back and leaves both counts at one, where they were; a call whose task
was accepted in between returns `revising` for a task that is done. -/
theorem rejection_accounting_broken :
    ((run (Desk.step sampleInsertEnv) (Desk.start []) staleCall).sendsBack sampleInsertEnv sampleRoot
          (.write 0 [] 3 []) = true ∧
        ((run (Desk.step sampleInsertEnv) (Desk.start []) staleCall).store.getTask sampleRoot).map
          (fun row => (row.retryCount, row.revisionRound)) = some (1, 1) ∧
        ((run (Desk.step sampleInsertEnv) (Desk.start [])
          (staleCall ++ [.write 0 [] 3 []])).store.getTask sampleRoot).map
            (fun row => (row.retryCount, row.revisionRound)) = some (1, 1)) ∧
      (run (Desk.step sampleInsertEnv) (Desk.start []) acceptedBetween).returned sampleInsertEnv
          (.write 0 [] 3 []) = some (sampleRoot, .ok .revising) ∧
      (run (Desk.step sampleInsertEnv) (Desk.start [])
        (acceptedBetween ++ [.write 0 [] 3 []])).store.HasStatus sampleRoot .done := by
  refine ⟨⟨?_, ?_, ?_⟩, rfl, ?_⟩
  · decide
  · decide
  · decide
  · show Option.map _ _ = _
    decide

end DuDuClaw.TaskStore
