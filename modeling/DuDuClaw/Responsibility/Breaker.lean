/-
# Responsibility.Breaker -- active below the failure limit

`settle_occurrence` counts failures in every state, but it opens the breaker only from
active and paused.  A responsibility can so reach its limit while it waits for a budget
window, and neither `resume_budget_window` nor `resume_responsibility` looks at the streak;
`update_responsibility_contract` moves the limit under the streak of an active one.
`enable_responsibility` and the settlement itself do compare the two.

* `Operation.breakerSafe`: what such a step must find in the state before it.
* `breaker_holds`: in a run whose steps all find it, active means below the limit.
-/
import DuDuClaw.Responsibility.Effects

namespace DuDuClaw.Responsibility

open DuDuClaw.Lib
open DuDuClaw.TaskStore (Text Id InsertEnv InsertError NewTask StoreOp)

/-- An active row has a streak below its limit. -/
def ResponsibilityRow.Closed (row : ResponsibilityRow) : Prop :=
  row.state = .active → row.consecutiveFailures < row.contract.maxConsecutiveFailures

def RespStore.Breaker (s : RespStore) : Prop := ∀ row ∈ s.responsibilities.rows, row.Closed

/-- The steps into active that do not compare, and the step that moves the limit: the streak
is below the limit already. -/
def Operation.breakerSafe (s : RespStore) : Operation → Prop
  | .insertResponsibility row _ => row.Closed
  | .resume id epoch => ∀ row ∈ s.responsibilities.rows,
      row.responsibilityId = id ∧ row.state = .paused ∧ row.controlEpoch = epoch →
        row.consecutiveFailures < row.contract.maxConsecutiveFailures
  | .resumeBudgetWindow id period => ∀ row ∈ s.responsibilities.rows,
      row.responsibilityId = id ∧ row.state = .budgetPaused ∧
        row.stateReason.getD [] ≠ RespStore.budgetReason period →
          row.consecutiveFailures < row.contract.maxConsecutiveFailures
  | .updateContract id revision contract _ _ => ∀ row ∈ s.responsibilities.rows,
      row.responsibilityId = id ∧ row.contractRevision = revision ∧ row.state = .active →
        row.consecutiveFailures < contract.maxConsecutiveFailures
  | _ => True

variable {env : InsertEnv} {s t : RespStore}

/-! ## One row -/

variable {row : ResponsibilityRow}

theorem ResponsibilityRow.closed_of_state (inactive : row.state ≠ .active) :
    row.Closed := fun active => absurd active inactive

/-- An UPDATE that leaves every row it selects closed leaves every row closed. -/
theorem RespEdit.apply_closed {edit : RespEdit} (closed : row.Closed)
    (selected : edit.sel row = true → (edit.set_ row).Closed) : (edit.apply row).Closed := by
  unfold apply
  split
  · rename_i chosen
    exact selected chosen
  · exact closed

theorem RespStore.enableEdit_closed (id : Id) (epoch : Int) (row : ResponsibilityRow) :
    ((enableEdit id epoch).set_ row).Closed := by
  cases exhausted : row.exhausted with
  | true => exact ResponsibilityRow.closed_of_state (by simp [enableEdit, exhausted])
  | false =>
    intro _
    show row.consecutiveFailures < row.contract.maxConsecutiveFailures
    simpa [ResponsibilityRow.exhausted] using exhausted

/-- Each of the UPDATEs, on a row of the store. -/
theorem Operation.Runs.closed {op : Operation} {edit : RespEdit} (runs : op.Runs env edit)
    (safe : op.breakerSafe s) (listed : row ∈ s.responsibilities.rows)
    (closed : row.Closed) : (edit.apply row).Closed := by
  refine RespEdit.apply_closed closed fun chosen => ?_
  cases op with
  | pause id epoch reason =>
    subst runs
    exact ResponsibilityRow.closed_of_state (by simp [RespStore.pauseEdit])
  | resume id epoch =>
    subst runs
    simp only [RespStore.resumeEdit, Bool.and_eq_true, beq_iff_eq] at chosen
    intro _
    exact safe row listed ⟨chosen.1.1, chosen.1.2, chosen.2⟩
  | clearFailures id epoch =>
    subst runs
    intro _
    have limit := (s.checked row listed).contract.maxConsecutiveFailures.1
    show 0 < row.contract.maxConsecutiveFailures
    omega
  | disable id epoch reason now =>
    subst runs
    exact ResponsibilityRow.closed_of_state (by simp [RespStore.disableEdit])
  | enable id epoch make =>
    subst runs
    exact RespStore.enableEdit_closed id epoch row
  | updateContract id revision contract resubscribe now =>
    obtain ⟨checks, rfl⟩ := runs
    simp only [RespStore.updateContractEdit, Bool.and_eq_true, beq_iff_eq] at chosen
    intro active
    exact safe row listed ⟨chosen.1.1, chosen.1.2, active⟩
  | markBudgetPaused id period =>
    subst runs
    exact ResponsibilityRow.closed_of_state (by simp [RespStore.budgetPauseEdit])
  | resumeBudgetWindow id period =>
    subst runs
    simp only [RespStore.budgetResumeEdit, Bool.and_eq_true, beq_iff_eq, bne_iff_ne] at chosen
    intro _
    exact safe row listed ⟨chosen.1.1, chosen.1.2, chosen.2⟩
  | materialize req =>
    obtain ⟨id, rfl⟩ := runs
    exact ResponsibilityRow.closed_of_state (by simp [RespStore.budgetPauseEdit])
  | _ => exact False.elim runs

theorem ResponsibilityRow.afterOutcome_closed (checks : row.Checks)
    (closed : row.Closed) (id : Id) (outcome : Outcome) : (row.afterOutcome id outcome).Closed := by
  refine ResponsibilityRow.afterOutcome_of ResponsibilityRow.Closed closed ?_ ?_ outcome
  · refine RespEdit.apply_closed closed fun _ _ => ?_
    have limit := checks.contract.maxConsecutiveFailures.1
    show 0 < row.contract.maxConsecutiveFailures
    omega
  · by_cases named : row.responsibilityId = id
    · have streak : (RespStore.streakEdit id).apply row =
          { row with consecutiveFailures := row.consecutiveFailures + 1 } := by
        simp [RespEdit.apply, RespStore.streakEdit, named]
      rw [streak]
      unfold RespEdit.apply
      split
      · exact closed_of_state (by simp [RespStore.failurePauseEdit])
      rename_i notPaused
      intro active
      have active : row.state = .active := active
      simpa [RespStore.failurePauseEdit, named, active, exhausted] using notPaused
    · have streak : (RespStore.streakEdit id).apply row = row := by
        simp [RespEdit.apply, RespStore.streakEdit, named]
      rw [streak]
      exact RespEdit.apply_closed closed fun chosen => by
        simp [RespStore.failurePauseEdit, named] at chosen

/-! ## Runs -/

theorem perform_breaker (s : RespStore) (op : Operation) (breaker : s.Breaker)
    (safe : op.breakerSafe s) : (op.perform env s).Breaker := by
  intro row' listed'
  cases perform_effect env s op with
  | quiet only =>
    rw [only.responsibilities] at listed'
    exact breaker row' listed'
  | inserted checks free rows fires occurrences =>
    rw [rows, List.mem_append, List.mem_singleton] at listed'
    rcases listed' with before | rfl
    · exact breaker row' before
    · exact safe
  | edited runs edited =>
    rw [edited.responsibilities] at listed'
    obtain ⟨row, listed, rfl⟩ := RespStore.mem_updateResponsibilities.mp listed'
    exact runs.closed safe listed (breaker row listed)
  | expired expired =>
    obtain ⟨row, listed, same | ⟨-, rfl⟩⟩ := expired.responsibilities.back listed'
    · rw [same]
      exact breaker row listed
    · exact ResponsibilityRow.closed_of_state nofun
  | recorded returned recorded =>
    rw [recorded.responsibilities] at listed'
    exact breaker row' listed'
  | settledFires responsibilities fires occurrences =>
    rw [responsibilities] at listed'
    exact breaker row' listed'
  | created created =>
    rw [created.responsibilities] at listed'
    obtain ⟨row, listed, rfl⟩ := RespStore.mem_updateResponsibilities.mp listed'
    exact RespEdit.apply_closed (breaker row listed) fun _ => breaker row listed
  | settled named settled =>
    rw [settled.responsibilities] at listed'
    obtain ⟨row, listed, rfl⟩ := List.mem_map.mp listed'
    exact ResponsibilityRow.afterOutcome_closed (s.checked row listed) (breaker row listed) _ _

/-- **Active is below the failure limit**, in every state of a run whose resumes and contract
updates each find the streak below the limit that holds after them. -/
theorem breaker_holds (env : InsertEnv) {s : RespStore} (start : s.Breaker)
    {ops : List Operation} (safe : Obeys (Operation.perform env) (fun s op => op.breakerSafe s) s ops)
    {front back : List Operation} (split : ops = front ++ back) :
    (run (Operation.perform env) s front).Breaker := by
  rw [split] at safe
  exact run_invariant RespStore.Breaker perform_breaker start (obeys_append.mp safe).1

/-- One settled failure under a limit of two, then a pause and a resume. -/
theorem breaker_holds_resumed : (afterOperations [sampleResponsibility 1 5 5 2, sampleFire ['f'] ['k'] 0,
      sampleOccurrence ['f'] ['t'] 1 1, .settle ['t'] "failed".toList 1 .measured second,
      .pause ['r'] 1 [], .resume ['r'] 1]).Breaker := by
  refine breaker_holds TaskStore.sampleInsertEnv ?_ ?_ (List.append_nil _).symm
  · exact List.forall_mem_nil _
  · refine ⟨fun _ => by decide, trivial, trivial, trivial, trivial, ?_, trivial⟩
    have streaks : ∀ row ∈ (afterOperations [sampleResponsibility 1 5 5 2, sampleFire ['f'] ['k'] 0,
        sampleOccurrence ['f'] ['t'] 1 1, .settle ['t'] "failed".toList 1 .measured second,
        .pause ['r'] 1 []]).responsibilities.rows,
        row.consecutiveFailures < row.contract.maxConsecutiveFailures := by decide
    exact fun row listed _ => streaks row listed

/-- **A budget window revives an exhausted responsibility**: the run that fails while the
responsibility waits for its window reaches the limit, and the next window makes it active. -/
theorem exhausted_resumes : ¬(afterOperations [sampleResponsibility 1 5 5 1, sampleFire ['f'] ['k'] 0,
      sampleOccurrence ['f'] ['t'] 1 1, .markBudgetPaused ['r'] ['p'],
      .settle ['t'] "failed".toList 1 .measured second, .resumeBudgetWindow ['r'] ['q']]).Breaker := by
  have revived : ∃ row ∈ (afterOperations [sampleResponsibility 1 5 5 1, sampleFire ['f'] ['k'] 0,
      sampleOccurrence ['f'] ['t'] 1 1, .markBudgetPaused ['r'] ['p'],
      .settle ['t'] "failed".toList 1 .measured second, .resumeBudgetWindow ['r'] ['q']]).responsibilities.rows,
      row.state = .active ∧ row.consecutiveFailures = row.contract.maxConsecutiveFailures := by
    decide
  intro breaker
  obtain ⟨row, listed, active, reached⟩ := revived
  have below := breaker row listed active
  omega

end DuDuClaw.Responsibility
