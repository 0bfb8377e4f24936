/-
# Workflow.CostLedger -- what a run is charged

The ledger of workflow/cost_ledger.rs, and the calls that write a run's cost.  Every
dispatch of a step is charged before it happens, at the price the configuration gives for
its kind or, when that cannot be read, at all that is left of the run's budget.  A charge
appends one entry, which is never changed or deleted, and rebuilds the run's cost from the
entries; the `running` checkpoint of the step is written in the same transaction.

A call works on a copy of the run that it read at some earlier time.  What a copy says of
the run's identity and budget stays true, since a trigger on the table of runs aborts every
update of them; its status and its cost may be out of date.

* `CostDesk.step`: the calls, in any order and over any copies.
* `CostStore.runCostIn_ok`: the cost that is read from the ledger is the category-wise sum of
  the run's entries.
* `chargeInTx_cases`: a charge that returned left the store alone, or appended an entry
  that fits the limits and the budgets.
-/
import DuDuClaw.Lib.Transaction
import DuDuClaw.Workflow.Finality

namespace DuDuClaw.Workflow

open DuDuClaw.Lib

/-! ## Prices and limits -/

inductive ChargeKind where
  | read
  | effect
  | process
  | artifact
  | approval
  deriving DecidableEq

namespace ChargeKind

/-- `as_str`. -/
def name : ChargeKind → String
  | read => "read"
  | effect => "effect"
  | process => "process"
  | artifact => "artifact"
  | approval => "approval"

def of : StepAction → ChargeKind
  | .mcpRead _ => read
  | .mcpEffect _ _ => effect
  | .process _ => process
  | .artifact _ => artifact
  | .approval _ | .question _ => approval

/-- A decision or an effect is paid for once, however often its step is entered again. -/
def chargedOnce : ChargeKind → Bool
  | approval | effect => true
  | _ => false

end ChargeKind

structure CountLimits where
  maxRunsPerMonth : Nat := 500
  maxStepsPerRun : Nat := 128
  maxReadsPerRun : Nat := 20
  maxEffectsPerRun : Nat := 10
  deriving DecidableEq

/-- What `config.toml` says at the moment of a charge. -/
structure Pricing where
  /-- `none` for a price that cannot be read. -/
  price : ChargeKind → Option Nat
  limits : CountLimits
  limitsError : Option String

inductive TomlValue where
  | integer (value : Int)
  | table (entries : List (String × TomlValue))
  | other

abbrev TomlTable := List (String × TomlValue)

def TomlValue.asTable : TomlValue → Option TomlTable
  | .table entries => some entries
  | _ => none

variable (table : Option TomlTable)

def readU64 (key : String) : Except Unit (Option Nat) :=
  match table.bind (·.lookup key) with
  | none => .ok none
  | some (.integer value) => if 0 ≤ value then .ok (some value.toNat) else .error ()
  | some _ => .error ()

def readLimit (key : String) (default : Nat) : Nat :=
  match readU64 table key with
  | .ok (some value) => value
  | _ => default

def readPrice (kind : ChargeKind) : Option Nat :=
  match readU64 table kind.name with
  | .ok value => some (value.getD 0)
  | .error _ => none

def limitsError : Option String :=
  let keys := ["max_runs_per_month", "max_steps_per_run", "max_reads_per_run",
    "max_effects_per_run"]
  (keys.filter fun key => (readU64 table key).toOption.isNone).getLast?.map fun key =>
    "[workflow.limits] " ++ key ++ " is not a non-negative integer"

/-- `load_pricing`; the configuration is empty when there is no file, and `none` when it cannot
be read or parsed. -/
def loadPricing : Option TomlTable → Pricing
  | none => ⟨fun _ => none, {}, some "config.toml unreadable"⟩
  | some config =>
    let workflow := (config.lookup "workflow").bind TomlValue.asTable
    let section? := fun key => (workflow.bind (·.lookup key)).bind TomlValue.asTable
    let limits := section? "limits"
    let defaults : CountLimits := {}
    { price := readPrice (section? "unit_cost_micros")
      limits :=
        { maxRunsPerMonth := readLimit limits "max_runs_per_month" defaults.maxRunsPerMonth
          maxStepsPerRun := readLimit limits "max_steps_per_run" defaults.maxStepsPerRun
          maxReadsPerRun := readLimit limits "max_reads_per_run" defaults.maxReadsPerRun
          maxEffectsPerRun :=
            readLimit limits "max_effects_per_run" defaults.maxEffectsPerRun }
      limitsError := limitsError limits }

/-! ## The store -/

structure CostBudget where
  perRunMicros : Nat
  monthlyMicros : Nat
  deriving DecidableEq

structure CostBreakdown where
  llm : Nat := 0
  tools : Nat := 0
  compute : Nat := 0
  disk : Nat := 0
  backup : Nat := 0
  screenshot : Nat := 0
  traffic : Nat := 0

inductive CostBasis where
  | operatorUnitPrice
  | unknownAtCap

/-- A row of `workflow_cost_entries`. -/
structure CostEntry where
  entryId : Text
  runId : Text
  workflowId : Text
  formal : Bool
  month : Text
  stepId : Text
  attempt : Nat
  kind : ChargeKind
  amountMicros : Nat
  basis : CostBasis

/-- What a repeated trigger may not change. -/
structure RunContract where
  workflowHash : Text
  inputHash : Text
  actor : Text
  grant : Option (Text × Int × Text)
  deriving DecidableEq

/-- Of a run's record: the part that a trigger keeps from being updated. -/
structure RunAuthority where
  runId : Text
  triggerKey : Text
  workflowId : Text
  /-- The run has an activation. -/
  activated : Bool
  contract : RunContract
  budget : CostBudget
  createdAt : Text
  deriving DecidableEq

structure RunRecord extends RunAuthority where
  status : RunStatus := .pending
  cost : CostBreakdown := {}
  errorCode : Option Text := none
  failureClass : Option FailureClass := none
  cancelledBy : Option Text := none

def RunAuthority.created (run : RunAuthority) : RunRecord := { toRunAuthority := run }

inductive StepStatus where
  | pending
  | running
  | waitingApproval
  | needsInput
  | succeeded
  | failed
  | uncertain
  deriving DecidableEq

/-- Of a step's record: what the calls below write. -/
structure StepEvidence where
  stepId : Text
  status : StepStatus
  inputHash : Text
  errorCode : Option Text := none

structure StepRow where
  runId : Text
  stepId : Text
  status : StepStatus
  record : StepEvidence

structure CostStore where
  runs : Table fun run : RunRecord => run.runId
  steps : Table fun step : StepRow => (step.runId, step.stepId)
  entries : Table CostEntry.entryId

def CostStore.empty : CostStore := ⟨.empty, .empty, .empty⟩

def u64Max : Nat := 2 ^ 64 - 1

def i64Max : Nat := 2 ^ 63 - 1

def costOverflow : String := "workflow cost overflow"

/-- `checked_add` of two unsigned numbers. -/
def checkedAdd (a b : Nat) : Except String Nat :=
  if a + b ≤ u64Max then .ok (a + b) else .error costOverflow

/-! ## Reading the ledger -/

def amounts (entries : List CostEntry) : Nat := (entries.map CostEntry.amountMicros).sum

/-- `SUM(amount_micros)` of a query, which fails when it leaves the signed range. -/
def sumMicros (entries : List CostEntry) : Except String Nat :=
  if amounts entries ≤ i64Max then .ok (amounts entries) else .error "integer overflow"

/-- `category`: an entry is added to the slot of its kind. -/
def category (cost : CostBreakdown) (entry : CostEntry) : Except String CostBreakdown :=
  match entry.kind with
  | .process => (checkedAdd cost.compute entry.amountMicros).map fun sum => { cost with compute := sum }
  | .artifact => (checkedAdd cost.disk entry.amountMicros).map fun sum => { cost with disk := sum }
  | _ => (checkedAdd cost.tools entry.amountMicros).map fun sum => { cost with tools := sum }

namespace CostStore

variable (s : CostStore)

variable (runId : Text)

def findRun : Option RunRecord := s.runs.rows.find? fun run => run.runId == runId

def runEntries : List CostEntry :=
  s.entries.rows.filter fun entry => entry.runId = runId

def stepEntries (runId stepId : Text) : List CostEntry :=
  (s.runEntries runId).filter fun entry => entry.stepId = stepId

def monthEntries (workflowId month : Text) : List CostEntry :=
  s.entries.rows.filter fun entry =>
    entry.workflowId = workflowId ∧ entry.month = month ∧ entry.formal = true

def countOf (kind : ChargeKind) : Nat :=
  (s.runEntries runId).countP fun entry => entry.kind = kind

def runCostIn : Except String CostBreakdown :=
  (s.runEntries runId).foldlM category {}

def monthTotalIn (workflowId month : Text) : Except String Nat :=
  sumMicros (s.monthEntries workflowId month)

def formalRunsThisMonth (workflowId month : Text) : Nat :=
  s.runs.rows.countP fun run =>
    run.workflowId = workflowId ∧ run.activated = true ∧ run.createdAt.take 7 = month

/-! ## Charging -/

def checkCounts (kind : ChargeKind) (limits : CountLimits) : Except String Unit := do
  refuseIf (limits.maxStepsPerRun ≤ (s.runEntries runId).length) "workflow_limit_steps_per_run"
  refuseIf (kind = .read ∧ limits.maxReadsPerRun ≤ s.countOf runId .read)
    "workflow_limit_reads_per_run"
  refuseIf (kind = .effect ∧ limits.maxEffectsPerRun ≤ s.countOf runId .effect)
    "workflow_limit_effects_per_run"

end CostStore

def budgetExhausted : String := "workflow_budget_exhausted"

def chargeFor (perRun total : Nat) : Option Nat → Except String (Nat × CostBasis)
  | some price => .ok (price, .operatorUnitPrice)
  | none =>
    if perRun - total = 0 then .error budgetExhausted else .ok (perRun - total, .unknownAtCap)

namespace CostStore

variable (s : CostStore)

def checkMonth (month : Text) (run : RunRecord) (amount : Nat) : Except String Unit :=
  if run.activated then do
    let monthTotal ← s.monthTotalIn run.workflowId month
    let spent ← checkedAdd monthTotal amount
    refuseIf (run.budget.monthlyMicros < spent) "workflow_monthly_budget_exhausted"
  else .ok ()

/-- `run_id:step_id:attempt`. -/
def entryId (runId stepId : Text) (attempt : Nat) : Text :=
  runId ++ ':' :: stepId ++ ':' :: Nat.toDigits 10 attempt

/-- The entry of a charge, once every limit has been checked. -/
def appraise (month : Text) (run : RunRecord) (stepId : Text) (kind : ChargeKind)
    (pricing : Pricing) (total : Nat) : Except String CostEntry := do
  s.checkCounts run.runId kind pricing.limits
  let charge ← chargeFor run.budget.perRunMicros total (pricing.price kind)
  let spent ← checkedAdd total charge.1
  refuseIf (run.budget.perRunMicros < spent) budgetExhausted
  s.checkMonth month run charge.1
  refuseIf (i64Max < charge.1) costOverflow
  let attempt := (s.stepEntries run.runId stepId).length + 1
  .ok
    { entryId := entryId run.runId stepId attempt
      runId := run.runId
      workflowId := run.workflowId
      formal := run.activated
      month := month
      stepId := stepId
      attempt := attempt
      kind := kind
      amountMicros := charge.1
      basis := charge.2 }

def insertEntry (entry : CostEntry) : Except String CostStore :=
  match s.entries.insert entry with
  | some entries => .ok { s with entries := entries }
  | none => .error "UNIQUE constraint failed: workflow_cost_entries.entry_id"

end CostStore

variable (runId : Text) (config : Option TomlTable)

def RunRecord.setCost (cost : CostBreakdown) (row : RunRecord) : RunRecord :=
  if row.runId = runId then { row with cost := cost } else row

@[simp] theorem RunRecord.setCost_authority (cost : CostBreakdown) (row : RunRecord) :
    (row.setCost runId cost).toRunAuthority = row.toRunAuthority := by
  unfold RunRecord.setCost
  split <;> rfl

/-- UPDATE workflow_runs: the cost of a run. -/
def CostStore.setCost (s : CostStore) (runId : Text) (cost : CostBreakdown) : CostStore :=
  { s with runs := s.runs.update (RunRecord.setCost runId cost) fun row =>
      congrArg RunAuthority.runId (row.setCost_authority runId cost) }

abbrev Tx (α : Type) : Type := EStateM String CostStore α

/-- `charge_in_tx`, for a charge made in the given month. -/
def chargeInTx (month : Text) (run : RunRecord) (stepId : Text) (kind : ChargeKind)
    (pricing : Pricing) : Tx CostBreakdown := do
  query fun _ => refuseIf (pricing.limitsError.isSome = true) "workflow_limit_config_invalid"
  let total ← query fun s => sumMicros (s.runEntries run.runId)
  let again ← query fun s =>
    .ok (kind.chargedOnce && !(s.stepEntries run.runId stepId).isEmpty)
  if again then query fun s => s.runCostIn run.runId
  else do
    let entry ← query fun s => s.appraise month run stepId kind pricing total
    execute fun s => s.insertEntry entry
    let cost ← query fun s => s.runCostIn run.runId
    execute fun s => .ok (s.setCost run.runId cost)
    pure cost

/-! ## The calls -/

def StepRow.save (evidence : StepEvidence) (row : StepRow) : StepRow :=
  if row.runId = runId ∧ row.stepId = evidence.stepId ∧ row.status ≠ .succeeded then
    { row with status := evidence.status, record := evidence }
  else row

theorem StepRow.save_key (evidence : StepEvidence) (row : StepRow) :
    ((row.save runId evidence).runId, (row.save runId evidence).stepId) = (row.runId, row.stepId) := by
  unfold StepRow.save
  split <;> rfl

/-- UPDATE workflow_steps: a checkpoint that has not succeeded. -/
def CostStore.updateStep (evidence : StepEvidence) (s : CostStore) :
    Except String CostStore :=
  if s.steps.rows.any fun row =>
      row.runId = runId ∧ row.stepId = evidence.stepId ∧ row.status ≠ .succeeded then
    .ok { s with steps := s.steps.update (StepRow.save runId evidence) (StepRow.save_key runId evidence) }
  else .error "workflow step checkpoint immutable or missing"

def startStepCharged (month : Text) (run : RunRecord)
    (step : StepDefinition) (evidence : StepEvidence) : Tx CostBreakdown :=
  transaction do
    execute (CostStore.updateStep run.runId evidence)
    chargeInTx month run evidence.stepId (.of step.action) (loadPricing config)

/-- `charge_step`, with the run that it has read. -/
def chargeStep (month : Text) (run : RunRecord) (stepId : Text)
    (kind : ChargeKind) : Tx CostBreakdown :=
  transaction (chargeInTx month run stepId kind (loadPricing config))

def saveStep (evidence : StepEvidence) : Tx Unit :=
  transaction (execute (CostStore.updateStep runId evidence))

def runCancelled : String := "workflow_run_cancelled"

def RunRecord.replace (run row : RunRecord) : RunRecord :=
  if row.runId = run.runId then run else row

theorem RunRecord.replace_key (run row : RunRecord) : (run.replace row).runId = row.runId := by
  unfold RunRecord.replace
  split
  · rename_i same
    exact same.symm
  · rfl

/-- UPDATE workflow_runs: the whole record, unless the run is cancelled.  The trigger aborts a
change of authority. -/
def CostStore.updateRun (run : RunRecord) (s : CostStore) : Except String CostStore :=
  match s.findRun run.runId with
  | none => .error "workflow run write missing"
  | some stored =>
    if stored.status = .cancelled then .error runCancelled
    else if stored.toRunAuthority ≠ run.toRunAuthority then
      .error "workflow run authority immutable"
    else
      .ok { s with runs := s.runs.update run.replace run.replace_key }

def saveRun (run : RunRecord) : Tx Unit :=
  transaction do
    let cost ← query fun s => s.runCostIn run.runId
    execute (CostStore.updateRun { run with cost := cost })

def RunRecord.cancel (actor : Text) (run : RunRecord) : RunRecord :=
  { run with
    status := .cancelled
    errorCode := some runCancelled.toList
    failureClass := none
    cancelledBy := some actor }

/-- The record as `cancel_run` has read it in the same transaction, written back as cancelled. -/
def CostStore.writeCancelled (actor : Text) (run : RunRecord) (s : CostStore) : CostStore :=
  { s with runs := s.runs.update (run.cancel actor).replace (run.cancel actor).replace_key }

def cancelRun (runId actor : Text) : Tx RunRecord :=
  transaction do
    query fun _ => refuseIf (actor = []) "cancellation needs an actor"
    let run ← query fun s => okOr (s.findRun runId) "workflow run missing"
    query fun _ => refuseIf (run.activated = false) "only activated runs can be cancelled"
    if run.status.isTerminal then pure run
    else do
      execute fun s => .ok (s.writeCancelled actor run)
      pure (run.cancel actor)

/-! ## New runs -/

/-- The number of formal runs in a month is limited; a trigger that is known is not counted. -/
def CostStore.checkRuns (s : CostStore) (pricing : Pricing) (month : Text) (run : RunAuthority) :
    Except String Unit :=
  if run.activated && !s.runs.rows.any fun row => row.triggerKey = run.triggerKey then do
    refuseIf (pricing.limitsError.isSome = true) "workflow_limit_config_invalid"
    refuseIf (pricing.limits.maxRunsPerMonth ≤ s.formalRunsThisMonth run.workflowId month)
      "workflow_limit_runs_per_month"
  else .ok ()

/-- INSERT INTO workflow_runs .. ON CONFLICT(trigger_key) DO NOTHING. -/
def CostStore.insertRun (s : CostStore) (run : RunAuthority) : Except String CostStore :=
  if s.runs.rows.any fun row => row.triggerKey = run.triggerKey then .ok s
  else
    match s.runs.insert run.created with
    | some runs => .ok { s with runs := runs }
    | none => .error "UNIQUE constraint failed: workflow_runs.run_id"

/-- INSERT INTO workflow_steps .. ON CONFLICT(run_id,step_id) DO NOTHING. -/
def CostStore.insertStep (s : CostStore) (stepId : Text) : CostStore :=
  { s with steps := (s.steps.insert ⟨runId, stepId, .pending, stepId, .pending, [], none⟩).getD s.steps }

/-- `enqueue_run`; whether the stored revision is the one that was approved is an argument. -/
def enqueueRun (month : Text) (revisionFits : Bool)
    (run : RunAuthority) (stepIds : List Text) : Tx Text :=
  transaction do
    query fun s => s.checkRuns (loadPricing config) month run
    query fun _ => refuseIf (revisionFits = false) "workflow immutable candidate drift"
    execute fun s => s.insertRun run
    let stored ← query fun s =>
      okOr (s.runs.rows.find? fun row => row.triggerKey = run.triggerKey) "no rows"
    query fun _ =>
      refuseIf (stored.contract ≠ run.contract) "duplicate workflow trigger changed contract"
    execute fun s => .ok (stepIds.foldl (CostStore.insertStep stored.runId) s)
    pure stored.runId

/-! ## Interleaved calls -/

/-- The store, and the copies of runs that calls have read. -/
structure CostDesk where
  store : CostStore := .empty
  copies : List RunRecord := []

inductive CostMove where
  | enqueueRun (config : Option TomlTable) (month : Text) (revisionFits : Bool)
      (run : RunAuthority) (stepIds : List Text)
  /-- A call reads a run and goes on with the copy. -/
  | getRun (runId : Text)
  | startStepCharged (copy : Nat) (config : Option TomlTable) (month : Text)
      (step : StepDefinition) (evidence : StepEvidence)
  | chargeStep (copy : Nat) (config : Option TomlTable) (month stepId : Text) (kind : ChargeKind)
  | saveStep (runId : Text) (evidence : StepEvidence)
  /-- The copy is given a status and saved. -/
  | saveRun (copy : Nat) (status : RunStatus) (errorCode : Option Text)
      (failureClass : Option FailureClass)
  | cancelRun (runId actor : Text)

namespace CostDesk

variable (d : CostDesk)

/-- `run.cost = cost`, when a charge returned it. -/
def startCharged (copy : Nat) (run : RunRecord) : EStateM.Result String CostStore CostBreakdown → CostDesk
  | .ok cost store => ⟨store, d.copies.set copy { run with cost := cost }⟩
  | .error _ store => { d with store := store }

def save (copy : Nat) (run : RunRecord) : CostDesk :=
  ⟨after (saveRun run) d.store, d.copies.set copy run⟩

def step : CostMove → CostDesk
  | .enqueueRun config month revisionFits run stepIds =>
    { d with store := after (enqueueRun config month revisionFits run stepIds) d.store }
  | .getRun runId => { d with copies := d.copies ++ (d.store.findRun runId).toList }
  | .startStepCharged copy config month step evidence =>
    match d.copies[copy]? with
    | none => d
    | some run => d.startCharged copy run (startStepCharged config month run step evidence d.store)
  | .chargeStep copy config month stepId kind =>
    match d.copies[copy]? with
    | none => d
    | some run => { d with store := after (chargeStep config month run stepId kind) d.store }
  | .saveStep runId evidence => { d with store := after (saveStep runId evidence) d.store }
  | .saveRun copy status errorCode failureClass =>
    match d.copies[copy]? with
    | none => d
    | some run =>
      d.save copy { run with
        status := status, errorCode := errorCode, failureClass := failureClass }
  | .cancelRun runId actor => { d with store := after (cancelRun runId actor) d.store }

end CostDesk

/-! ## What a charge appends -/

variable {cost : CostBreakdown} {s : CostStore} {month : Text} {run : RunRecord}

variable {entry : CostEntry} {stepId : Text} {kind : ChargeKind} {pricing : Pricing}

theorem amounts_append (left right : List CostEntry) :
    amounts (left ++ right) = amounts left + amounts right := by
  simp [amounts]

theorem checkedAdd_ok {a b sum : Nat} (added : checkedAdd a b = .ok sum) : sum = a + b := by
  unfold checkedAdd at added
  split at added
  · exact (Except.ok.inj added).symm
  · cases added

theorem sumMicros_ok {entries : List CostEntry} {total : Nat}
    (summed : sumMicros entries = .ok total) : total = amounts entries := by
  unfold sumMicros at summed
  split at summed
  · exact (Except.ok.inj summed).symm
  · cases summed

def costOf (entries : List CostEntry) : CostBreakdown where
  tools := amounts (entries.filter fun entry => entry.kind ≠ .process ∧ entry.kind ≠ .artifact)
  compute := amounts (entries.filter fun entry => entry.kind = .process)
  disk := amounts (entries.filter fun entry => entry.kind = .artifact)

theorem category_ok {done : List CostEntry}
    (added : category (costOf done) entry = .ok cost) : cost = costOf (done ++ [entry]) := by
  -- one checked addition, in the slot of the entry's kind
  have slot : ∀ {sum : Nat} {put : Nat → CostBreakdown},
      (checkedAdd sum entry.amountMicros).map put = .ok cost → cost = put (sum + entry.amountMicros) := by
    intro sum put mapped
    cases total : checkedAdd sum entry.amountMicros with
    | error e =>
      rw [total] at mapped
      cases mapped
    | ok value =>
      rw [total] at mapped
      rw [← checkedAdd_ok total]
      exact (Except.ok.inj mapped).symm
  unfold category at added
  cases kind : entry.kind <;> rw [kind] at added <;> rw [slot added] <;>
    simp [costOf, List.filter_append, kind, amounts]

/-- The cost that is read from the ledger is the sum of the run's entries. -/
theorem CostStore.runCostIn_ok {runId : Text}
    (read : s.runCostIn runId = .ok cost) : cost = costOf (s.runEntries runId) :=
  foldlM_run (fun done cost => cost = costOf done) rfl
    (fun _ _ _ _ sofar added => category_ok (sofar ▸ added)) read

/-- An entry within the limits, and within the budgets of the run it charges. -/
structure CostStore.Fits (s : CostStore) (limits : CountLimits) (run : RunRecord)
    (entry : CostEntry) : Prop where
  runId : entry.runId = run.runId
  workflowId : entry.workflowId = run.workflowId
  formal : entry.formal = run.activated
  steps : (s.runEntries run.runId).length < limits.maxStepsPerRun
  reads : entry.kind = .read → s.countOf run.runId .read < limits.maxReadsPerRun
  effects : entry.kind = .effect → s.countOf run.runId .effect < limits.maxEffectsPerRun
  perRun : amounts (s.runEntries run.runId) + entry.amountMicros ≤ run.budget.perRunMicros
  monthly : run.activated = true →
    amounts (s.monthEntries run.workflowId entry.month) + entry.amountMicros ≤
      run.budget.monthlyMicros

theorem CostStore.checkMonth_ok {amount : Nat}
    {u : Unit} (checked : s.checkMonth month run amount = .ok u) (activated : run.activated = true) :
    amounts (s.monthEntries run.workflowId month) + amount ≤ run.budget.monthlyMicros := by
  unfold CostStore.checkMonth at checked
  rw [if_pos activated] at checked
  obtain ⟨total, read, checked⟩ := bind_ok.mp checked
  obtain ⟨spent, added, checked⟩ := bind_ok.mp checked
  rw [refuseIf_ok, checkedAdd_ok added, sumMicros_ok read] at checked
  omega

theorem CostStore.appraise_ok
    (appraised : s.appraise month run stepId kind pricing (amounts (s.runEntries run.runId)) = .ok entry) :
    s.Fits pricing.limits run entry ∧ entry.stepId = stepId ∧ entry.kind = kind := by
  unfold CostStore.appraise CostStore.checkCounts at appraised
  obtain ⟨_, counted, appraised⟩ := bind_ok.mp appraised
  obtain ⟨_, steps, counted⟩ := bind_ok.mp counted
  obtain ⟨_, reads, effects⟩ := bind_ok.mp counted
  rw [refuseIf_ok] at steps reads effects
  obtain ⟨charge, -, appraised⟩ := bind_ok.mp appraised
  obtain ⟨spent, added, appraised⟩ := bind_ok.mp appraised
  obtain ⟨_, within, appraised⟩ := bind_ok.mp appraised
  obtain ⟨_, month, appraised⟩ := bind_ok.mp appraised
  obtain ⟨_, -, appraised⟩ := bind_ok.mp appraised
  rw [refuseIf_ok, checkedAdd_ok added] at within
  cases appraised
  refine ⟨⟨rfl, rfl, rfl, ?_, ?_, ?_, ?_, ?_⟩, rfl, rfl⟩
  · omega
  · intro isRead
    exact Nat.lt_of_not_le fun full => reads ⟨isRead, full⟩
  · intro isEffect
    exact Nat.lt_of_not_le fun full => effects ⟨isEffect, full⟩
  · exact Nat.le_of_not_lt within
  · exact CostStore.checkMonth_ok month

/-- A charge that returned left the store alone, or appended an entry and rebuilt the cost. -/
theorem chargeInTx_cases
    {t : CostStore}
    (charged : chargeInTx month run stepId kind pricing s = .ok cost t) : pricing.limitsError = none ∧
      (t = s ∨ ∃ entry, s.Fits pricing.limits run entry ∧ entry.stepId = stepId ∧
        entry.kind = kind ∧ (kind.chargedOnce = true → s.stepEntries run.runId stepId = []) ∧
        t.entries.rows = s.entries.rows ++ [entry] ∧
        t.runs.rows = s.runs.rows.map (RunRecord.setCost run.runId (costOf (t.runEntries run.runId)))) := by
  unfold chargeInTx at charged
  obtain ⟨_, readable, charged⟩ := query_bind.mp charged
  obtain ⟨total, summed, charged⟩ := query_bind.mp charged
  obtain ⟨again, asked, charged⟩ := query_bind.mp charged
  rw [sumMicros_ok summed] at charged
  refine ⟨by simpa using readable, ?_⟩
  by_cases repeated : again = true
  · rw [if_pos repeated] at charged
    exact .inl (query_returned.mp charged).2.symm
  rw [if_neg repeated] at charged
  obtain ⟨entry, appraised, charged⟩ := query_bind.mp charged
  obtain ⟨u, inserted, charged⟩ := execute_bind.mp charged
  obtain ⟨cost', read, charged⟩ := query_bind.mp charged
  obtain ⟨v, written, charged⟩ := execute_bind.mp charged
  obtain ⟨rfl, rfl⟩ := pure_returned.mp charged
  cases written
  unfold CostStore.insertEntry at inserted
  split at inserted
  · rename_i entries listed
    cases inserted
    obtain ⟨fits, atStep, ofKind⟩ := CostStore.appraise_ok appraised
    refine .inr ⟨entry, fits, atStep, ofKind, ?_, (Table.insert_cases listed).2, ?_⟩
    · intro once
      cases asked
      simpa [once] using repeated
    · rw [CostStore.runCostIn_ok read]
      rfl
  · cases inserted

end DuDuClaw.Workflow
