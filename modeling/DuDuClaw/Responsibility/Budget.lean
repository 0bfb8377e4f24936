/-
# Responsibility.Budget -- what a window may spend

`materialize_occurrence` compares `spent.saturating_add(cap)` with the limit of the window.
A limit of `i64::MAX` is never passed by a saturating sum, so such a contract is only bound
by its occurrence limit.  Below `i64::MAX` the comparison is that of the exact sum.

The reservations of one window are summed in the order the occurrences were made.  A
settlement can only lower one of them, so no partial sum ever passes the limit either.

* `Contract.Roomy`: the contracts for which the comparison is exact, or not needed.
* `perform_budgeted`: what one operation keeps.
* `budget_holds`: counts and sums in every state of a run with fixed contracts.
-/
import DuDuClaw.Responsibility.Effects
import Mathlib.Algebra.Order.BigOperators.Group.List

namespace DuDuClaw.Responsibility

open DuDuClaw.Lib
open DuDuClaw.TaskStore (Text Id InsertEnv InsertError NewTask StoreOp)

/-! ## Contracts and rules -/

/-- The sums of a window cannot reach `i64::MAX` unnoticed. -/
def Contract.Roomy (c : Contract) : Prop :=
  c.periodCostLimitCents < i64Max ∨
    c.periodOccurrenceLimit * c.occurrenceCostCapCents ≤ c.periodCostLimitCents

structure Contract.SameBudget (c c' : Contract) : Prop where
  cap : c'.occurrenceCostCapCents = c.occurrenceCostCapCents
  limit : c'.periodCostLimitCents = c.periodCostLimitCents
  count : c'.periodOccurrenceLimit = c.periodOccurrenceLimit

theorem Contract.SameBudget.refl (c : Contract) : c.SameBudget c := ⟨rfl, rfl, rfl⟩

theorem Contract.SameBudget.roomy {c c' : Contract} (same : c.SameBudget c') (roomy : c.Roomy) : c'.Roomy := by
  unfold Roomy
  rw [same.cap, same.limit, same.count]
  exact roomy

/-- Contracts are fixed, as far as the budget goes, and a settlement charges at most what
was reserved. -/
def Operation.fixedBudget (s : RespStore) : Operation → Prop
  | .updateContract id _ contract _ _ => ∀ row ∈ s.responsibilities.rows,
      row.responsibilityId = id → row.contract.SameBudget contract
  | .settle taskId _ charged _ _ => ∀ occurrence ∈ s.occurrences.rows,
      occurrence.taskId = taskId → occurrence.isOpen = true → charged ≤ occurrence.reservedCents
  | _ => True

/-- A new responsibility has such a contract. -/
def Operation.roomy : Operation → Prop
  | .insertResponsibility row _ => row.contract.Roomy
  | _ => True

/-! ## One window -/

structure Contract.Within (c : Contract) (window : List OccurrenceRow) : Prop where
  count : (window.length : Int) ≤ c.periodOccurrenceLimit
  reserved : ∀ occurrence ∈ window, occurrence.floor ≤ c.occurrenceCostCapCents
  spent : ∀ n, ((window.take n).map OccurrenceRow.floor).sum ≤ c.periodCostLimitCents

theorem Contract.Within.sum_le {c : Contract} {window : List OccurrenceRow} (within : c.Within window) :
    (window.map OccurrenceRow.floor).sum ≤ c.periodCostLimitCents := by
  simpa using within.spent window.length

theorem Contract.Within.same {c c' : Contract} {window : List OccurrenceRow}
    (within : c.Within window) (same : c.SameBudget c') : c'.Within window :=
  ⟨same.count ▸ within.count, same.cap ▸ within.reserved, same.limit ▸ within.spent⟩

theorem Contract.Checks.within_nil {c : Contract} (checks : c.Checks) : c.Within [] where
  count := by
    have := checks.periodOccurrenceLimit.1
    simp only [List.length_nil]
    omega
  reserved _ listed := absurd listed List.not_mem_nil
  spent n := by
    have := checks.occurrenceCostCapCents
    have := checks.periodCostLimitCents
    simp only [List.take_nil, List.map_nil, List.sum_nil]
    omega

theorem Contract.Within.lower {c : Contract} {window : List OccurrenceRow} (within : c.Within window)
    {edit : OccurrenceRow → OccurrenceRow}
    (lower : ∀ occurrence ∈ window, (edit occurrence).floor ≤ occurrence.floor) :
    c.Within (window.map edit) where
  count := by
    rw [List.length_map]
    exact within.count
  reserved occurrence listed := by
    obtain ⟨old, isOld, rfl⟩ := List.mem_map.mp listed
    exact (lower old isOld).trans (within.reserved old isOld)
  spent n := by
    rw [← List.map_take, List.map_map]
    have sums : ((window.take n).map (OccurrenceRow.floor ∘ edit)).sum ≤
        ((window.take n).map OccurrenceRow.floor).sum :=
      List.sum_le_sum fun old isOld => lower old (List.mem_of_mem_take isOld)
    exact sums.trans (within.spent n)

theorem Contract.Within.concat {c : Contract} {window : List OccurrenceRow} {new : OccurrenceRow}
    (within : c.Within window) (one : (window.length : Int) < c.periodOccurrenceLimit)
    (reserved : new.floor = c.occurrenceCostCapCents)
    (fits : (window.map OccurrenceRow.floor).sum + c.occurrenceCostCapCents ≤
      c.periodCostLimitCents) : c.Within (window ++ [new]) where
  count := by
    rw [List.length_append, List.length_singleton]
    push_cast
    omega
  reserved occurrence listed := by
    rcases List.mem_append.mp listed with before | isNew
    · exact within.reserved occurrence before
    · rw [List.mem_singleton.mp isNew]
      exact reserved.le
  spent n := by
    by_cases short : n ≤ window.length
    · rw [List.take_append_of_le_length short]
      exact within.spent n
    have all : (window ++ [new]).take n = window ++ [new] := by
      apply List.take_of_length_le
      rw [List.length_append, List.length_singleton]
      omega
    rw [all, List.map_append, List.sum_append, List.map_singleton, List.sum_singleton, reserved]
    exact fits

/-! ## The comparison -/

theorem foldl_usage (window : List OccurrenceRow) (usage : PeriodUsage) : (window.foldl (fun usage occurrence =>
        { occurrences := usage.occurrences + 1
          entries := usage.entries ++ [(occurrence.taskId, occurrence.floor)]
          storedCents := saturatingAdd usage.storedCents occurrence.floor })
      usage).occurrences = usage.occurrences + window.length ∧
    (window.foldl
      (fun usage occurrence =>
        { occurrences := usage.occurrences + 1
          entries := usage.entries ++ [(occurrence.taskId, occurrence.floor)]
          storedCents := saturatingAdd usage.storedCents occurrence.floor })
      usage).storedCents = (window.map OccurrenceRow.floor).foldl saturatingAdd usage.storedCents := by
  induction window generalizing usage with
  | nil => simp
  | cons occurrence rest ih =>
    obtain ⟨count, stored⟩ := ih
      { occurrences := usage.occurrences + 1
        entries := usage.entries ++ [(occurrence.taskId, occurrence.floor)]
        storedCents := saturatingAdd usage.storedCents occurrence.floor }
    refine ⟨?_, stored⟩
    rw [List.foldl_cons, count, List.length_cons]
    push_cast
    omega

theorem periodUsage_eq (s : RespStore) (id : Id) (period : Text) :
    (s.periodUsage id period).occurrences = (s.window id period).length ∧
      (s.periodUsage id period).storedCents =
        ((s.window id period).map OccurrenceRow.floor).foldl saturatingAdd 0 := by
  obtain ⟨count, stored⟩ := foldl_usage (s.window id period) ⟨0, [], 0⟩
  exact ⟨by rw [RespStore.periodUsage, count, Int.zero_add], stored⟩

theorem sum_le_length_mul {xs : List Int} {cap : Int} (each : ∀ x ∈ xs, x ≤ cap) :
    xs.sum ≤ xs.length * cap := by
  induction xs with
  | nil => simp
  | cons x rest ih =>
    have first := each x (List.mem_cons_self ..)
    have others := ih fun y listed => each y (List.mem_cons_of_mem x listed)
    rw [List.sum_cons, List.length_cons, Int.natCast_add, Int.add_mul]
    omega

/-- Under a roomy contract the check is right about the exact sum. -/
theorem Contract.Roomy.fits {c : Contract} {floors : List Int} {spent : Int} (roomy : c.Roomy)
    (checks : c.Checks) (one : (floors.length : Int) < c.periodOccurrenceLimit)
    (reserved : ∀ floor ∈ floors, floor ≤ c.occurrenceCostCapCents)
    (spentSofar : ∀ n, (floors.take n).sum ≤ c.periodCostLimitCents)
    (passed : saturatingAdd (max (floors.foldl saturatingAdd 0) spent) c.occurrenceCostCapCents ≤
      c.periodCostLimitCents) :
    floors.sum + c.occurrenceCostCapCents ≤ c.periodCostLimitCents := by
  rcases roomy with inside | enough
  · have notBelow : floors.sum ≤ floors.foldl saturatingAdd 0 :=
      sum_le_foldl_satAdd fun n => (spentSofar n).trans inside.le
    have added := add_le_of_satAdd_le passed inside
    have taken := le_max_left (floors.foldl saturatingAdd 0) spent
    omega
  have cap := checks.occurrenceCostCapCents
  calc floors.sum + c.occurrenceCostCapCents
      ≤ floors.length * c.occurrenceCostCapCents + c.occurrenceCostCapCents :=
        Int.add_le_add_right (sum_le_length_mul reserved) _
    _ = (floors.length + 1) * c.occurrenceCostCapCents := by rw [Int.add_mul, Int.one_mul]
    _ ≤ c.periodOccurrenceLimit * c.occurrenceCostCapCents :=
        Int.mul_le_mul_of_nonneg_right one cap.le
    _ ≤ c.periodCostLimitCents := enough

/-- A window that passes the check has room for one more reservation. -/
theorem Contract.Within.created {s : RespStore} {resp : ResponsibilityRow} {first : FireRow}
    {req : MaterializeRequest} (within : resp.contract.Within (s.window resp.responsibilityId req.periodKey))
    (checks : resp.contract.Checks) (roomy : resp.contract.Roomy) (passed : s.overBudget resp req = false) :
    resp.contract.Within
      (s.window resp.responsibilityId req.periodKey ++ [RespStore.newOccurrence resp first req]) := by
  obtain ⟨count, stored⟩ := periodUsage_eq s resp.responsibilityId req.periodKey
  simp only [RespStore.overBudget, count, stored, Bool.or_eq_false_iff, decide_eq_false_iff_not,
    not_le, not_lt] at passed
  refine within.concat passed.1 rfl ?_
  refine roomy.fits checks (by rw [List.length_map]; exact passed.1) ?_ (fun n => ?_) passed.2
  · intro floor listed
    obtain ⟨occurrence, isOne, rfl⟩ := List.mem_map.mp listed
    exact within.reserved occurrence isOne
  · rw [← List.map_take]
    exact within.spent n

/-! ## All windows -/

/-- Every window of every responsibility keeps to its contract. -/
structure RespStore.Budgeted (s : RespStore) : Prop where
  roomy : ∀ row ∈ s.responsibilities.rows, row.contract.Roomy
  known : ∀ occurrence ∈ s.occurrences.rows, ∃ row ∈ s.responsibilities.rows,
    row.responsibilityId = occurrence.responsibilityId
  within : ∀ row ∈ s.responsibilities.rows, ∀ period,
    row.contract.Within (s.window row.responsibilityId period)

def ResponsibilityRow.SameBudget (row row' : ResponsibilityRow) : Prop :=
  row'.responsibilityId = row.responsibilityId ∧ row.contract.SameBudget row'.contract

variable {env : InsertEnv} {s t : RespStore}

/-- Rows that keep their budgets, over windows that keep to them. -/
theorem RespStore.Budgeted.rows (budgeted : s.Budgeted)
    (rows : s.responsibilities.MapsBy ResponsibilityRow.SameBudget t.responsibilities)
    (known : ∀ occurrence ∈ t.occurrences.rows, ∃ row ∈ s.responsibilities.rows,
      row.responsibilityId = occurrence.responsibilityId)
    (within : ∀ row ∈ s.responsibilities.rows, ∀ period,
      row.contract.Within (t.window row.responsibilityId period)) : t.Budgeted where
  roomy row' listed' := by
    obtain ⟨row, listed, -, same⟩ := rows.back listed'
    exact same.roomy (budgeted.roomy row listed)
  known occurrence listed := by
    obtain ⟨row, isRow, owner⟩ := known occurrence listed
    obtain ⟨row', isRow', sameId, -⟩ := rows.forth isRow
    exact ⟨row', isRow', sameId.trans owner⟩
  within row' listed' period := by
    obtain ⟨row, listed, sameId, same⟩ := rows.back listed'
    rw [sameId]
    exact (within row listed period).same same

/-- The occurrences stay as they are. -/
theorem RespStore.Budgeted.still (budgeted : s.Budgeted)
    (rows : s.responsibilities.MapsBy ResponsibilityRow.SameBudget t.responsibilities)
    (same : t.occurrences = s.occurrences) : t.Budgeted := by
  refine budgeted.rows rows ?_ fun row listed period => ?_
  · rw [same]
    exact budgeted.known
  · rw [RespStore.window, same]
    exact budgeted.within row listed period

theorem sameBudget_refl (s : RespStore) :
    s.responsibilities.MapsBy ResponsibilityRow.SameBudget s.responsibilities :=
  Indexed.MapsBy.refl fun row _ => ⟨rfl, Contract.SameBudget.refl row.contract⟩

/-- An UPDATE that leaves the contract alone. -/
theorem RespEdit.apply_sameBudget {edit : RespEdit} {row : ResponsibilityRow}
    (same : edit.sel row = true → row.contract.SameBudget (edit.set_ row).contract) :
    row.SameBudget (edit.apply row) := by
  refine ⟨edit.apply_id row, ?_⟩
  unfold apply
  split
  · rename_i chosen
    exact same chosen
  · exact Contract.SameBudget.refl row.contract

theorem Operation.Runs.sameBudget {op : Operation} {edit : RespEdit} (runs : op.Runs env edit)
    (fixed : op.fixedBudget s) {row : ResponsibilityRow} (listed : row ∈ s.responsibilities.rows) :
    row.SameBudget (edit.apply row) := by
  refine RespEdit.apply_sameBudget fun chosen => ?_
  cases op with
  | pause id epoch reason | resume id epoch | clearFailures id epoch | disable id epoch reason now
  | enable id epoch make | markBudgetPaused id period | resumeBudgetWindow id period => subst runs; exact .refl _
  | updateContract id revision contract resubscribe now =>
    obtain ⟨checks, rfl⟩ := runs
    simp only [RespStore.updateContractEdit, Bool.and_eq_true, beq_iff_eq] at chosen
    exact fixed row listed chosen.1.1
  | materialize req =>
    obtain ⟨id, rfl⟩ := runs
    exact .refl _
  | _ => exact False.elim runs

theorem ResponsibilityRow.afterOutcome_sameBudget (id : Id) (outcome : Outcome)
    (row : ResponsibilityRow) : row.SameBudget (row.afterOutcome id outcome) := by
  have kept : ∀ (edit : RespEdit) (row : ResponsibilityRow),
      (∀ row, (edit.set_ row).contract = row.contract) → row.SameBudget (edit.apply row) := by
    intro edit row same
    exact RespEdit.apply_sameBudget fun _ => same row ▸ .refl _
  refine ResponsibilityRow.afterOutcome_of row.SameBudget ⟨rfl, .refl _⟩
    (kept (RespStore.streakResetEdit id) row fun _ => rfl) ?_ outcome
  obtain ⟨sameId, same⟩ := kept (RespStore.streakEdit id) row fun _ => rfl
  obtain ⟨sameId', same'⟩ := kept (RespStore.failurePauseEdit id)
    ((RespStore.streakEdit id).apply row) fun _ => rfl
  exact ⟨sameId'.trans sameId, same'.cap.trans same.cap, same'.limit.trans same.limit,
    same'.count.trans same.count⟩

/-! ## Steps -/

theorem Created.window {req : MaterializeRequest} {resp : ResponsibilityRow} {first : FireRow}
    (created : Created req resp first s t) (id : Id) (period : Text) : t.window id period =
      s.window id period ++ if resp.responsibilityId = id ∧ req.periodKey = period then
          [RespStore.newOccurrence resp first req]
        else [] := by
  rw [RespStore.window, created.occurrences, List.filter_append]
  congr 1
  by_cases here : resp.responsibilityId = id ∧ req.periodKey = period
  · rw [if_pos here]
    simp [RespStore.newOccurrence, here.1, here.2]
  have elsewhere : (resp.responsibilityId == id && req.periodKey == period) = false := by
    simpa using here
  rw [if_neg here]
  simp only [RespStore.newOccurrence, List.filter_singleton, elsewhere, cond_false]

theorem Created.budgeted {req : MaterializeRequest} {resp : ResponsibilityRow} {first : FireRow}
    (created : Created req resp first s t) (budgeted : s.Budgeted) : t.Budgeted := by
  refine budgeted.rows ?_ ?_ ?_
  · rw [created.responsibilities]
    exact ⟨_, fun row _ => RespEdit.apply_sameBudget fun _ => .refl _, rfl⟩
  · intro occurrence listed
    rw [created.occurrences, List.mem_append, List.mem_singleton] at listed
    rcases listed with before | rfl
    · exact budgeted.known occurrence before
    · exact ⟨resp, created.isResp, rfl⟩
  · intro row listed period
    rw [created.window]
    split
    · rename_i here
      obtain ⟨sameId, rfl⟩ := here
      obtain rfl : resp = row := s.responsibility_unique created.isResp listed sameId
      exact (budgeted.within resp listed req.periodKey).created (s.checked resp listed).contract
        (budgeted.roomy resp listed) created.room
    · rw [List.append_nil]
      exact budgeted.within row listed period

theorem settledRow_floor {taskId : Id} {outcome : Outcome} {charged : Int} {basis : CostBasis}
    {at_ : Instant} {occurrence : OccurrenceRow} (most : occurrence.taskId = taskId → occurrence.isOpen = true →
      charged ≤ occurrence.reservedCents) :
    (RespStore.settledRow taskId outcome charged basis at_ occurrence).floor ≤ occurrence.floor := by
  unfold RespStore.settledRow
  split
  · rename_i chosen
    simp only [Bool.and_eq_true, beq_iff_eq] at chosen
    have stillOpen : occurrence.outcome = none := Option.isNone_iff_eq_none.mp chosen.2
    have before : occurrence.floor = occurrence.reservedCents := by
      simp [OccurrenceRow.floor, stillOpen]
    rw [before]
    exact most chosen.1 chosen.2
  · exact le_rfl

theorem settledRow_window {taskId : Id} {outcome : Outcome} {charged : Int} {basis : CostBasis}
    {at_ : Instant} {occurrence : OccurrenceRow} :
    (RespStore.settledRow taskId outcome charged basis at_ occurrence).responsibilityId =
        occurrence.responsibilityId ∧
      (RespStore.settledRow taskId outcome charged basis at_ occurrence).periodKey = occurrence.periodKey := by
  unfold RespStore.settledRow
  split
  · exact ⟨rfl, rfl⟩
  · exact ⟨rfl, rfl⟩

theorem Settled.budgeted {taskId : Id} {outcome : Outcome} {charged : Int} {basis : CostBasis}
    {now : Instant} {occurrence : OccurrenceRow}
    (settled : Settled taskId outcome charged basis now occurrence s t)
    (most : ∀ occurrence ∈ s.occurrences.rows, occurrence.taskId = taskId →
      occurrence.isOpen = true → charged ≤ occurrence.reservedCents)
    (budgeted : s.Budgeted) : t.Budgeted := by
  have windows : ∀ id period, t.window id period = (s.window id period).map
      (RespStore.settledRow taskId outcome charged basis (respTs now)) := by
    intro id period
    rw [RespStore.window, settled.occurrences, List.filter_map]
    congr 1
    apply List.filter_congr
    intro other _
    simp only [Function.comp_apply, settledRow_window]
  refine budgeted.rows ?_ ?_ ?_
  · exact ⟨_, fun row _ => row.afterOutcome_sameBudget _ _, settled.responsibilities⟩
  · intro other listed
    rw [settled.occurrences] at listed
    obtain ⟨old, isOld, rfl⟩ := List.mem_map.mp listed
    rw [settledRow_window.1]
    exact budgeted.known old isOld
  · intro row listed period
    rw [windows]
    refine (budgeted.within row listed period).lower fun old isOld => ?_
    exact settledRow_floor (most old (List.mem_of_mem_filter isOld))

theorem perform_budgeted (s : RespStore) (op : Operation) (budgeted : s.Budgeted)
    (rules : op.fixedBudget s ∧ op.roomy) : (op.perform env s).Budgeted := by
  obtain ⟨fixed, roomy⟩ := rules
  cases perform_effect env s op with
  | quiet only =>
    exact budgeted.still (only.responsibilities ▸ sameBudget_refl s) only.occurrences
  | @inserted row wakeups checks free rows fires occurrences =>
    refine ⟨fun other listed => ?_, fun occurrence listed => ?_, fun other listed period => ?_⟩
    · rw [rows, List.mem_append, List.mem_singleton] at listed
      rcases listed with before | rfl
      · exact budgeted.roomy other before
      · exact roomy
    · rw [occurrences] at listed
      obtain ⟨owner, isOwner, same⟩ := budgeted.known occurrence listed
      refine ⟨owner, ?_, same⟩
      rw [rows]
      exact List.mem_append_left _ isOwner
    · rw [RespStore.window, occurrences]
      rw [rows, List.mem_append, List.mem_singleton] at listed
      rcases listed with before | rfl
      · exact budgeted.within other before period
      -- The id is new, so it has no occurrences.
      have unused : s.window (storedRow env row).responsibilityId period = [] := by
        refine List.filter_eq_nil_iff.mpr fun occurrence isOne chosen => ?_
        simp only [Bool.and_eq_true, beq_iff_eq] at chosen
        obtain ⟨owner, isOwner, same⟩ := budgeted.known occurrence isOne
        refine free owner isOwner (List.mem_singleton_self _) ?_
        rw [same, chosen.1]
        exact List.mem_singleton_self _
      rw [RespStore.window] at unused
      rw [unused]
      exact checks.contract.within_nil
  | edited runs edited =>
    refine budgeted.still ?_ edited.occurrences
    rw [edited.responsibilities]
    exact ⟨_, fun row listed => runs.sameBudget fixed listed, rfl⟩
  | expired expired =>
    refine budgeted.still (expired.responsibilities.mono ?_) expired.occurrences
    rintro row _ row' (rfl | ⟨-, rfl⟩)
    · exact ⟨rfl, .refl _⟩
    · exact ⟨rfl, .refl _⟩
  | recorded returned recorded =>
    exact budgeted.still (recorded.responsibilities ▸ sameBudget_refl s) recorded.occurrences
  | settledFires responsibilities fires occurrences =>
    exact budgeted.still (responsibilities ▸ sameBudget_refl s) occurrences
  | created created => exact created.budgeted budgeted
  | settled named settled => exact settled.budgeted fixed budgeted

/-! ## Runs -/

/-- An error or an exhausted window leaves no task, no occurrence and no consumed fact. -/
theorem refused_creates_nothing (env : InsertEnv) (s : RespStore) (req : MaterializeRequest)
    (refused : (∃ e, s.materializeOccurrence env req = .error e) ∨
      ∃ t, s.materializeOccurrence env req = .ok (.budgetExhausted, t)) :
    ((Operation.materialize req).perform env s).occurrences = s.occurrences ∧
      ((Operation.materialize req).perform env s).tasks = s.tasks ∧
      ((Operation.materialize req).perform env s).fires = s.fires := by
  rcases refused with ⟨e, failed⟩ | ⟨t, exhausted⟩
  · rw [Operation.perform, failed]
    exact ⟨rfl, rfl, rfl⟩
  rw [Operation.perform, exhausted]
  rcases materialize_cases exhausted with ⟨rfl, -⟩ | ⟨other, -⟩ | ⟨-, id, rfl⟩ | ⟨⟨n, other⟩, -⟩
  · exact ⟨rfl, rfl, rfl⟩
  · cases other
  · exact ⟨rfl, rfl, rfl⟩
  · cases other

/-- **No window spends more than its contract allows**, in every state of a run from the
empty store that fixes the budgets, charges at most what was reserved and takes no contract
whose sums could reach `i64::MAX`; and a call that is refused creates nothing. -/
theorem budget_holds (env : InsertEnv) (tasks : TaskStore.Store) {ops : List Operation}
    (fixed : Obeys (Operation.perform env) (fun s op => op.fixedBudget s) (.empty tasks) ops)
    (roomy : ∀ op ∈ ops, op.roomy) {front back : List Operation} (split : ops = front ++ back) :
    (∀ row ∈ (run (Operation.perform env) (.empty tasks) front).responsibilities.rows, ∀ period,
      (((run (Operation.perform env) (.empty tasks) front).window row.responsibilityId
          period).length : Int) ≤ row.contract.periodOccurrenceLimit ∧
        (((run (Operation.perform env) (.empty tasks) front).window row.responsibilityId period).map
          OccurrenceRow.floor).sum ≤ row.contract.periodCostLimitCents) ∧
      ∀ req, ((∃ e, (run (Operation.perform env) (.empty tasks) front).materializeOccurrence env req =
            .error e) ∨
          ∃ t, (run (Operation.perform env) (.empty tasks) front).materializeOccurrence env req =
            .ok (.budgetExhausted, t)) →
        (run (Operation.perform env) (.empty tasks) (front ++ [.materialize req])).occurrences =
            (run (Operation.perform env) (.empty tasks) front).occurrences ∧
          (run (Operation.perform env) (.empty tasks) (front ++ [.materialize req])).tasks =
            (run (Operation.perform env) (.empty tasks) front).tasks ∧
          (run (Operation.perform env) (.empty tasks) (front ++ [.materialize req])).fires =
            (run (Operation.perform env) (.empty tasks) front).fires := by
  have start : (RespStore.empty tasks).Budgeted :=
    ⟨fun _ listed => absurd listed List.not_mem_nil, List.forall_mem_nil _, List.forall_mem_nil _⟩
  have rules := fixed.and (obeys_of_forall roomy _)
  rw [split] at rules
  have budgeted := run_invariant RespStore.Budgeted perform_budgeted start (obeys_append.mp rules).1
  refine ⟨fun row listed period => ?_, fun req refused => ?_⟩
  · have within := budgeted.within row listed period
    exact ⟨within.count, within.sum_le⟩
  · rw [run_append]
    exact refused_creates_nothing env _ req refused

/-- Two occurrences in one window, each charged what it reserved. -/
def sampleSpending (cap limit : Int) : List Operation :=
  [sampleResponsibility cap limit 2 1, sampleFire ['f'] ['k'] 0, sampleOccurrence ['f'] ['t'] 1 1,
    .settle ['t'] "done".toList cap .measured second, sampleFire ['g'] ['l'] 400,
    sampleOccurrence ['g'] ['u'] 1 400]

theorem sampleSpending_fixed (cap limit : Int)
    (reserved : ∀ occurrence ∈ (afterOperations ((sampleSpending cap limit).take 3)).occurrences.rows,
      occurrence.reservedCents = cap) :
    Obeys (Operation.perform TaskStore.sampleInsertEnv) (fun s op => op.fixedBudget s)
      (.empty (TaskStore.Store.start [])) (sampleSpending cap limit) :=
  ⟨trivial, trivial, trivial,
    fun occurrence listed _ _ => (reserved occurrence listed).ge, trivial, trivial, trivial⟩

/-- Twice three cents under a limit of ten. -/
theorem budget_holds_twice : ∃ row ∈ (afterOperations (sampleSpending 3 10)).responsibilities.rows,
      ((afterOperations (sampleSpending 3 10)).window row.responsibilityId ['p']).length = 2 ∧
        (((afterOperations (sampleSpending 3 10)).window row.responsibilityId ['p']).map
          OccurrenceRow.floor).sum ≤ row.contract.periodCostLimitCents := by
  have spent : ∃ row ∈ (afterOperations (sampleSpending 3 10)).responsibilities.rows,
      ((afterOperations (sampleSpending 3 10)).window row.responsibilityId ['p']).length = 2 := by
    decide
  have roomy : ∀ op ∈ sampleSpending 3 10, op.roomy := by
    intro op listed
    simp only [sampleSpending, List.mem_cons, List.not_mem_nil, or_false] at listed
    rcases listed with rfl | rfl | rfl | rfl | rfl | rfl
    · exact .inl (by decide)
    all_goals trivial
  obtain ⟨row, listed, twice⟩ := spent
  have within := (budget_holds TaskStore.sampleInsertEnv (TaskStore.Store.start [])
    (sampleSpending_fixed 3 10 (by decide)) roomy (List.append_nil _).symm).1 row listed ['p']
  exact ⟨row, listed, twice, within.2⟩

/-- **A limit of `i64::MAX` is never passed**: two reservations of `i64::MAX` in one window
are both granted, in a run that keeps the rules. -/
theorem saturated_budget : Obeys (Operation.perform TaskStore.sampleInsertEnv) (fun s op => op.fixedBudget s)
        (.empty (TaskStore.Store.start [])) (sampleSpending i64Max i64Max) ∧
      ¬∀ row ∈ (afterOperations (sampleSpending i64Max i64Max)).responsibilities.rows, ∀ period,
        (((afterOperations (sampleSpending i64Max i64Max)).window row.responsibilityId period).map
          OccurrenceRow.floor).sum ≤ row.contract.periodCostLimitCents := by
  refine ⟨sampleSpending_fixed i64Max i64Max (by decide), fun bounded => ?_⟩
  have passed : ∃ row ∈ (afterOperations (sampleSpending i64Max i64Max)).responsibilities.rows,
      row.contract.periodCostLimitCents <
        (((afterOperations (sampleSpending i64Max i64Max)).window row.responsibilityId ['p']).map
          OccurrenceRow.floor).sum := by decide
  obtain ⟨row, listed, above⟩ := passed
  exact absurd (bounded row listed ['p']) (not_le.mpr above)

end DuDuClaw.Responsibility
