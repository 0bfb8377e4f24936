/-
# Workflow.CostBounds -- no run spends more than its budget

The ledger of charges under any interleaving of calls.  Every call changes the runs and the
entries in one of four ways (`CostStore.Change`), and of these only a charge adds an entry,
which fits the limits and the budgets of the store it is added to.  The charge is made on a
copy of the run, so that the invariant goes over the copies too: each has the authority of a
stored run.

* `CostStore.Sound.change`: totals, counts and costs are kept by every change.
* `CostDesk.run_sound`: and so in every state that calls lead to.
* `costs_bounded`: budgets, limits, single charges, costs and refusals together.
-/
import DuDuClaw.Workflow.CostLedger

namespace DuDuClaw.Workflow

open DuDuClaw.Lib

/-! ## What a call does to the runs and the entries -/

def CostStore.Holds (s : CostStore) (authority : RunAuthority) : Prop :=
  ∃ row ∈ s.runs.rows, row.toRunAuthority = authority

/-- A step from store `s` to store `t`; `made` says which charges the call makes. -/
inductive CostStore.Change (limits : CountLimits) (made : Text → Text → ChargeKind → Prop)
    (s t : CostStore) : Prop
  /-- No more than checkpoints are written. -/
  | steps (runs : t.runs.rows = s.runs.rows) (entries : t.entries.rows = s.entries.rows)
  | enqueue (run : RunAuthority) (fresh : ∀ row ∈ s.runs.rows, row.runId ≠ run.runId)
      (runs : t.runs.rows = s.runs.rows ++ [run.created]) (entries : t.entries.rows = s.entries.rows)
  /-- Records are written, their cost as it was or as the ledger has it. -/
  | rewrite (edit : RunRecord → RunRecord)
      (authority : ∀ row ∈ s.runs.rows, (edit row).toRunAuthority = row.toRunAuthority)
      (cost : ∀ row ∈ s.runs.rows,
        (edit row).cost = row.cost ∨ (edit row).cost = costOf (s.runEntries row.runId))
      (runs : t.runs.rows = s.runs.rows.map edit) (entries : t.entries.rows = s.entries.rows)
  | charge (run : RunRecord) (entry : CostEntry) (held : s.Holds run.toRunAuthority)
      (asked : made entry.runId entry.stepId entry.kind) (fits : s.Fits limits run entry)
      (once : entry.kind.chargedOnce = true → s.stepEntries run.runId entry.stepId = [])
      (entries : t.entries.rows = s.entries.rows ++ [entry])
      (runs : t.runs.rows =
        s.runs.rows.map (RunRecord.setCost run.runId (costOf (t.runEntries run.runId))))

namespace CostStore

variable {limits : CountLimits} {made : Text → Text → ChargeKind → Prop} {s t : CostStore}

theorem Change.holds (change : Change limits made s t) {authority : RunAuthority}
    (held : s.Holds authority) : t.Holds authority := by
  obtain ⟨row, listed, same⟩ := held
  cases change with
  | steps runs entries => exact ⟨row, runs ▸ listed, same⟩
  | enqueue run fresh runs entries =>
    exact ⟨row, by rw [runs]; exact List.mem_append_left _ listed, same⟩
  | rewrite edit kept cost runs entries =>
    refine ⟨edit row, ?_, (kept row listed).trans same⟩
    rw [runs]
    exact List.mem_map_of_mem listed
  | charge run entry held asked fits once entries runs =>
    refine ⟨row.setCost run.runId (costOf (t.runEntries run.runId)), ?_, ?_⟩
    · rw [runs]
      exact List.mem_map_of_mem listed
    · rw [RunRecord.setCost_authority, same]

/-- An entry is there before, or the call charges it. -/
theorem Change.entries (change : Change limits made s t) {entry : CostEntry} (listed : entry ∈ t.entries.rows) :
    entry ∈ s.entries.rows ∨ made entry.runId entry.stepId entry.kind := by
  cases change with
  | steps runs entries | enqueue run fresh runs entries | rewrite edit authority cost runs entries => exact .inl (entries ▸ listed)
  | charge run new held asked fits once entries runs =>
    rw [entries, List.mem_append, List.mem_singleton] at listed
    rcases listed with old | rfl
    · exact .inl old
    · exact .inr asked

theorem Change.of_frame {u : CostStore} (sameRuns : u.runs = s.runs)
    (sameEntries : u.entries = s.entries) (change : Change limits made u t) : Change limits made s t := by
  cases s with
  | mk runs steps entries =>
    cases u with
    | mk runs' steps' entries' =>
      obtain rfl : runs' = runs := sameRuns
      obtain rfl : entries' = entries := sameEntries
      cases change with
      | steps runs entries => exact .steps runs entries
      | enqueue run fresh runs entries => exact .enqueue run fresh runs entries
      | rewrite edit authority cost runs entries => exact .rewrite edit authority cost runs entries
      | charge run entry held asked fits once entries runs =>
        exact .charge run entry held asked { fits with } once entries runs

theorem findRun_some {runId : Text} {run : RunRecord} (found : s.findRun runId = some run) :
    run ∈ s.runs.rows ∧ run.runId = runId :=
  ⟨List.mem_of_find?_eq_some found, by simpa using List.find?_some found⟩

/-- A checkpoint is written, and nothing else. -/
theorem updateStep_frame {runId : Text} {evidence : StepEvidence}
    (updated : updateStep runId evidence s = .ok t) : t.runs = s.runs ∧ t.entries = s.entries := by
  unfold updateStep at updated
  split at updated
  · cases updated
    exact ⟨rfl, rfl⟩
  · cases updated

theorem insertSteps_frame (runId : Text) (stepIds : List Text) (s : CostStore) :
    (stepIds.foldl (insertStep runId) s).runs = s.runs ∧
      (stepIds.foldl (insertStep runId) s).entries = s.entries := by
  induction stepIds generalizing s with
  | nil => exact ⟨rfl, rfl⟩
  | cons stepId rest ih => exact ih (insertStep runId s stepId)

end CostStore

section
variable {limits : CountLimits} {made : Text → Text → ChargeKind → Prop} {s t : CostStore}

variable {month runId : Text} {run : RunRecord}

variable {cost : CostBreakdown} {config : Option TomlTable} {evidence : StepEvidence} {u : Unit}

/-- A charge made on a copy of a stored run. -/
theorem chargeInTx_change {stepId : Text} {kind : ChargeKind}
    {pricing : Pricing} (fixed : pricing.limitsError = none → pricing.limits = limits)
    (held : s.Holds run.toRunAuthority) (asked : made run.runId stepId kind)
    (charged : chargeInTx month run stepId kind pricing s = .ok cost t) : s.Change limits made t := by
  obtain ⟨readable, rfl | ⟨entry, fits, atStep, ofKind, once, entries, runs⟩⟩ :=
    chargeInTx_cases charged
  · exact .steps rfl rfl
  refine .charge run entry held ?_ (fixed readable ▸ fits) ?_ entries runs
  · rw [fits.runId, atStep, ofKind]
    exact asked
  · rw [atStep, ofKind]
    exact once

theorem startStepCharged_change
    {step : StepDefinition}
    (fixed : (loadPricing config).limitsError = none → (loadPricing config).limits = limits)
    (held : s.Holds run.toRunAuthority) (asked : made run.runId evidence.stepId (.of step.action))
    (charged : startStepCharged config month run step evidence s = .ok cost t) : s.Change limits made t := by
  rw [startStepCharged, transaction_returned] at charged
  obtain ⟨u, updated, charged⟩ := execute_bind.mp charged
  -- the charge is made in the store with the checkpoint, which has the same runs and entries
  obtain ⟨sameRuns, sameEntries⟩ := CostStore.updateStep_frame updated
  have heldStill : u.Holds run.toRunAuthority := by
    unfold CostStore.Holds
    rw [sameRuns]
    exact held
  exact (chargeInTx_change fixed heldStill asked charged).of_frame sameRuns sameEntries

theorem saveStep_change (saved : saveStep runId evidence s = .ok u t) : s.Change limits made t := by
  rw [saveStep, transaction_returned, execute_returned] at saved
  obtain ⟨runs, entries⟩ := CostStore.updateStep_frame saved
  exact .steps (by rw [runs]) (by rw [entries])

theorem saveRun_change (saved : saveRun run s = .ok u t) : s.Change limits made t := by
  rw [saveRun, transaction_returned] at saved
  obtain ⟨cost, read, saved⟩ := query_bind.mp saved
  rw [execute_returned] at saved
  unfold CostStore.updateRun at saved
  split at saved
  · cases saved
  rename_i stored found
  obtain ⟨listed, named⟩ := CostStore.findRun_some found
  split at saved
  · cases saved
  split at saved
  · cases saved
  rename_i same
  rw [not_not] at same
  cases saved
  refine .rewrite (RunRecord.replace { run with cost := cost }) ?_ ?_ rfl rfl
  · intro row inRuns
    unfold RunRecord.replace
    split
    · rename_i sameId
      rw [s.runs.unique inRuns listed (sameId.trans named.symm)]
      exact same.symm
    · rfl
  · intro row inRuns
    unfold RunRecord.replace
    split
    · rename_i sameId
      exact .inr (sameId ▸ CostStore.runCostIn_ok read)
    · exact .inl rfl

theorem cancelRun_change {actor : Text}
    (cancelled : cancelRun runId actor s = .ok run t) : s.Change limits made t := by
  rw [cancelRun, transaction_returned] at cancelled
  obtain ⟨_, -, cancelled⟩ := query_bind.mp cancelled
  obtain ⟨stored, found, cancelled⟩ := query_bind.mp cancelled
  obtain ⟨_, -, cancelled⟩ := query_bind.mp cancelled
  obtain ⟨listed, named⟩ := CostStore.findRun_some (okOr_ok.mp found)
  split at cancelled
  · obtain ⟨-, rfl⟩ := pure_returned.mp cancelled
    exact .steps rfl rfl
  obtain ⟨u, written, cancelled⟩ := execute_bind.mp cancelled
  obtain ⟨-, rfl⟩ := pure_returned.mp cancelled
  cases written
  -- the record was read in this transaction: its cost is the stored one
  have unchanged : ∀ row ∈ s.runs.rows, row.runId = stored.runId → row = stored :=
    fun row inRuns same => s.runs.unique inRuns listed same
  refine .rewrite (stored.cancel actor).replace ?_ ?_ rfl rfl
  · intro row inRuns
    unfold RunRecord.replace
    split
    · rename_i same
      rw [unchanged row inRuns same]
      rfl
    · rfl
  · intro row inRuns
    unfold RunRecord.replace
    split
    · rename_i same
      rw [unchanged row inRuns same]
      exact .inl rfl
    · exact .inl rfl

theorem enqueueRun_change {revisionFits : Bool}
    {run : RunAuthority} {stepIds : List Text}
    (enqueued : enqueueRun config month revisionFits run stepIds s = .ok runId t) : s.Change limits made t := by
  rw [enqueueRun, transaction_returned] at enqueued
  obtain ⟨_, -, enqueued⟩ := query_bind.mp enqueued
  obtain ⟨_, -, enqueued⟩ := query_bind.mp enqueued
  obtain ⟨u, inserted, enqueued⟩ := execute_bind.mp enqueued
  obtain ⟨stored, -, enqueued⟩ := query_bind.mp enqueued
  obtain ⟨_, -, enqueued⟩ := query_bind.mp enqueued
  obtain ⟨v, written, enqueued⟩ := execute_bind.mp enqueued
  obtain ⟨-, rfl⟩ := pure_returned.mp enqueued
  cases written
  obtain ⟨sameRuns, sameEntries⟩ := CostStore.insertSteps_frame stored.runId stepIds u
  unfold CostStore.insertRun at inserted
  split at inserted
  · cases inserted
    exact .steps (by rw [sameRuns]) (by rw [sameEntries])
  split at inserted
  · rename_i runs listed
    cases inserted
    obtain ⟨fresh, appended⟩ := Table.insert_cases listed
    exact .enqueue run fresh (by rw [sameRuns]; exact appended) (by rw [sameEntries])
  · cases inserted

end

/-! ## The invariant -/

namespace CostStore

structure Sound (limits : CountLimits) (s : CostStore) : Prop where
  /-- An entry charges a stored run. -/
  known : ∀ entry ∈ s.entries.rows, ∃ run ∈ s.runs.rows, run.runId = entry.runId
  perRun : ∀ run ∈ s.runs.rows, amounts (s.runEntries run.runId) ≤ run.budget.perRunMicros
  monthly : ∀ workflowId month budget,
    (∀ run ∈ s.runs.rows, run.workflowId = workflowId → run.activated = true →
      run.budget.monthlyMicros ≤ budget) →
    amounts (s.monthEntries workflowId month) ≤ budget
  steps : ∀ runId, (s.runEntries runId).length ≤ limits.maxStepsPerRun
  reads : ∀ runId, s.countOf runId .read ≤ limits.maxReadsPerRun
  effects : ∀ runId, s.countOf runId .effect ≤ limits.maxEffectsPerRun
  once : ∀ runId stepId, (s.stepEntries runId stepId).countP (·.kind.chargedOnce) ≤ 1
  cost : ∀ run ∈ s.runs.rows, run.cost = costOf (s.runEntries run.runId)

variable {limits : CountLimits} {s t : CostStore} {entry : CostEntry}

variable {run : RunRecord}

theorem runEntries_append (entries : t.entries.rows = s.entries.rows ++ [entry]) (runId : Text) :
    t.runEntries runId = s.runEntries runId ++ if entry.runId = runId then [entry] else [] := by
  unfold runEntries
  rw [entries, List.filter_append]
  by_cases own : entry.runId = runId <;> simp [own]

theorem runEntries_own (entries : t.entries.rows = s.entries.rows ++ [entry]) :
    t.runEntries entry.runId = s.runEntries entry.runId ++ [entry] := by
  rw [runEntries_append entries, if_pos rfl]

theorem runEntries_other (entries : t.entries.rows = s.entries.rows ++ [entry]) {runId : Text}
    (other : entry.runId ≠ runId) : t.runEntries runId = s.runEntries runId := by
  rw [runEntries_append entries, if_neg other, List.append_nil]

/-- Without a new entry nothing is charged, so that only the runs matter. -/
theorem Sound.of_runs (sound : s.Sound limits) (entries : t.entries.rows = s.entries.rows)
    (kept : ∀ row ∈ s.runs.rows, t.Holds row.toRunAuthority)
    (stored : ∀ row ∈ t.runs.rows, s.Holds row.toRunAuthority ∨ s.runEntries row.runId = [])
    (cost : ∀ row ∈ t.runs.rows, row.cost = costOf (s.runEntries row.runId)) : t.Sound limits := by
  have sameRun : ∀ runId, t.runEntries runId = s.runEntries runId := by
    intro runId
    unfold runEntries
    rw [entries]
  have sameMonth : ∀ workflowId month, t.monthEntries workflowId month = s.monthEntries workflowId month := by
    intro workflowId month
    unfold monthEntries
    rw [entries]
  have sameCount : ∀ runId kind, t.countOf runId kind = s.countOf runId kind := by
    intro runId kind
    unfold countOf
    rw [sameRun]
  constructor
  · intro entry listed
    rw [entries] at listed
    obtain ⟨run, inRuns, named⟩ := sound.known entry listed
    obtain ⟨row, inRows, same⟩ := kept run inRuns
    exact ⟨row, inRows, (congrArg RunAuthority.runId same).trans named⟩
  · intro row inRows
    rw [sameRun]
    rcases stored row inRows with ⟨run, inRuns, same⟩ | unused
    · rw [← same]
      exact sound.perRun run inRuns
    · rw [unused]
      exact Nat.zero_le _
  · intro workflowId month budget within
    rw [sameMonth]
    apply sound.monthly workflowId month budget
    intro run inRuns ofWorkflow activated
    obtain ⟨row, inRows, same⟩ := kept run inRuns
    rw [← same] at ofWorkflow activated ⊢
    exact within row inRows ofWorkflow activated
  · intro runId
    rw [sameRun]
    exact sound.steps runId
  · intro runId
    rw [sameCount]
    exact sound.reads runId
  · intro runId
    rw [sameCount]
    exact sound.effects runId
  · intro runId stepId
    unfold stepEntries
    rw [sameRun]
    exact sound.once runId stepId
  · intro row inRows
    rw [sameRun]
    exact cost row inRows

/-- A charge keeps the totals of every run and month within their budgets. -/
theorem Sound.charge_budgets (sound : s.Sound limits)
    (held : s.Holds run.toRunAuthority) (fits : s.Fits limits run entry)
    (entries : t.entries.rows = s.entries.rows ++ [entry]) :
    (∀ row ∈ s.runs.rows, amounts (t.runEntries row.runId) ≤ row.budget.perRunMicros) ∧
      ∀ workflowId month budget, (∀ row ∈ s.runs.rows, row.workflowId = workflowId → row.activated = true →
          row.budget.monthlyMicros ≤ budget) →
        amounts (t.monthEntries workflowId month) ≤ budget := by
  obtain ⟨stored, listed, same⟩ := held
  have named : stored.runId = run.runId := congrArg RunAuthority.runId same
  have ofWorkflow : stored.workflowId = run.workflowId := congrArg RunAuthority.workflowId same
  have activation : stored.activated = run.activated := congrArg RunAuthority.activated same
  have budget : stored.budget = run.budget := congrArg RunAuthority.budget same
  constructor
  · intro row inRows
    by_cases own : entry.runId = row.runId
    · -- the entry's run is the one whose copy was charged
      have isStored : row = stored :=
        s.runs.unique inRows listed (own.symm.trans (fits.runId.trans named.symm))
      have within := fits.perRun
      rw [isStored, named, ← fits.runId, runEntries_own entries, amounts_append, budget, fits.runId]
      exact within
    · rw [runEntries_other entries own]
      exact sound.perRun row inRows
  · intro workflowId month limit within
    have before := sound.monthly workflowId month limit within
    unfold monthEntries
    rw [entries, List.filter_append, amounts_append]
    by_cases counted : entry.workflowId = workflowId ∧ entry.month = month ∧ entry.formal = true
    · obtain ⟨rfl, rfl, formal⟩ := counted
      have activated : run.activated = true := fits.formal ▸ formal
      have spent := fits.monthly activated
      have allowed := within stored listed (ofWorkflow.trans fits.workflowId.symm)
        (activation.trans activated)
      rw [← fits.workflowId, ← budget] at spent
      have alone : amounts (List.filter (fun e : CostEntry => e.workflowId = entry.workflowId ∧
          e.month = entry.month ∧ e.formal = true) [entry]) = entry.amountMicros := by
        simp [amounts, formal]
      rw [alone]
      exact Nat.le_trans spent allowed
    · have none : List.filter (fun e : CostEntry => e.workflowId = workflowId ∧
          e.month = month ∧ e.formal = true) [entry] = [] := by
        simpa using counted
      rw [none]
      exact before

theorem Sound.charge_counts (sound : s.Sound limits)
    (fits : s.Fits limits run entry) (entries : t.entries.rows = s.entries.rows ++ [entry]) (runId : Text) :
    (t.runEntries runId).length ≤ limits.maxStepsPerRun ∧ t.countOf runId .read ≤ limits.maxReadsPerRun ∧
      t.countOf runId .effect ≤ limits.maxEffectsPerRun := by
  have steps := fits.steps
  have reads := fits.reads
  have effects := fits.effects
  have oldReads := sound.reads runId
  have oldEffects := sound.effects runId
  unfold countOf at *
  by_cases own : entry.runId = runId
  · subst own
    rw [← fits.runId] at steps reads effects
    rw [runEntries_own entries]
    simp only [List.length_append, List.countP_append, List.countP_singleton, List.length_singleton]
    refine ⟨steps, ?_, ?_⟩
    · by_cases isRead : entry.kind = .read
      · have room := reads isRead
        simp only [isRead, decide_true, if_true]
        omega
      · simpa [isRead] using oldReads
    · by_cases isEffect : entry.kind = .effect
      · have room := effects isEffect
        simp only [isEffect, decide_true, if_true]
        omega
      · simpa [isEffect] using oldEffects
  · rw [runEntries_other entries own]
    exact ⟨sound.steps runId, oldReads, oldEffects⟩

/-- A charge for a decision or an effect is the first one of its step. -/
theorem Sound.charge_once (sound : s.Sound limits) (fits : s.Fits limits run entry)
    (once : entry.kind.chargedOnce = true → s.stepEntries run.runId entry.stepId = [])
    (entries : t.entries.rows = s.entries.rows ++ [entry]) (runId stepId : Text) :
    (t.stepEntries runId stepId).countP (·.kind.chargedOnce) ≤ 1 := by
  have before := sound.once runId stepId
  by_cases own : entry.runId = runId ∧ entry.stepId = stepId ∧ entry.kind.chargedOnce = true
  · obtain ⟨rfl, rfl, paid⟩ := own
    have first := once paid
    rw [← fits.runId] at first
    unfold stepEntries at first ⊢
    rw [runEntries_own entries, List.filter_append, first, List.nil_append]
    exact Nat.le_trans List.countP_le_length (List.length_filter_le _ [entry])
  unfold stepEntries at before ⊢
  rw [runEntries_append entries, List.filter_append, List.countP_append]
  have unpaid : List.countP (fun e : CostEntry => e.kind.chargedOnce)
      (List.filter (fun e => decide (e.stepId = stepId))
        (if entry.runId = runId then [entry] else [])) = 0 := by
    rw [List.countP_eq_zero]
    intro e listed paid
    rw [List.mem_filter, decide_eq_true_eq] at listed
    split at listed
    · rename_i ofRun
      obtain rfl := List.mem_singleton.mp listed.1
      exact own ⟨ofRun, listed.2, paid⟩
    · cases listed.1
  rw [unpaid]
  exact before

theorem Sound.charge_cost (sound : s.Sound limits)
    (fits : s.Fits limits run entry) (entries : t.entries.rows = s.entries.rows ++ [entry])
    {row : RunRecord} (inRows : row ∈ s.runs.rows) :
    (row.setCost run.runId (costOf (t.runEntries run.runId))).cost = costOf (t.runEntries row.runId) := by
  unfold RunRecord.setCost
  split
  · rename_i own
    rw [own]
  · rename_i other
    rw [runEntries_other entries (fits.runId.trans_ne (Ne.symm other))]
    exact sound.cost row inRows

theorem Sound.change {made : Text → Text → ChargeKind → Prop} (sound : s.Sound limits)
    (change : s.Change limits made t) : t.Sound limits := by
  cases change with
  | steps runs entries =>
    refine sound.of_runs entries ?_ ?_ ?_
    · intro row listed
      exact ⟨row, runs ▸ listed, rfl⟩
    · intro row listed
      exact .inl ⟨row, runs ▸ listed, rfl⟩
    · intro row listed
      exact sound.cost row (runs ▸ listed)
  | enqueue run fresh runs entries =>
    -- no entry charges a run that is not stored
    have unused : s.runEntries run.runId = [] := by
      unfold runEntries
      rw [List.filter_eq_nil_iff]
      intro entry listed named
      obtain ⟨row, inRows, same⟩ := sound.known entry listed
      exact fresh row inRows (same.trans (by simpa using named))
    refine sound.of_runs entries ?_ ?_ ?_
    · intro row listed
      exact ⟨row, by rw [runs]; exact List.mem_append_left _ listed, rfl⟩
    · intro row listed
      rw [runs, List.mem_append, List.mem_singleton] at listed
      rcases listed with listed | rfl
      · exact .inl ⟨row, listed, rfl⟩
      · exact .inr unused
    · intro row listed
      rw [runs, List.mem_append, List.mem_singleton] at listed
      rcases listed with listed | rfl
      · exact sound.cost row listed
      · rw [show run.created.runId = run.runId from rfl, unused]
        rfl
  | rewrite edit authority cost runs entries =>
    refine sound.of_runs entries ?_ ?_ ?_
    · intro row listed
      exact ⟨edit row, by rw [runs]; exact List.mem_map_of_mem listed, authority row listed⟩
    · intro row listed
      rw [runs, List.mem_map] at listed
      obtain ⟨old, inRows, rfl⟩ := listed
      exact .inl ⟨old, inRows, (authority old inRows).symm⟩
    · intro row listed
      rw [runs, List.mem_map] at listed
      obtain ⟨old, inRows, rfl⟩ := listed
      rw [show (edit old).runId = old.runId from congrArg RunAuthority.runId (authority old inRows)]
      rcases cost old inRows with same | rebuilt
      · rw [same]
        exact sound.cost old inRows
      · exact rebuilt
  | charge run entry held asked fits once entries runs =>
    obtain ⟨perRun, monthly⟩ := sound.charge_budgets held fits entries
    have counts := sound.charge_counts fits entries
    have stored : ∀ row ∈ t.runs.rows, ∃ old ∈ s.runs.rows,
        old.setCost run.runId (costOf (t.runEntries run.runId)) = row := by
      intro row listed
      rwa [runs, List.mem_map] at listed
    constructor
    · intro e listed
      rw [entries, List.mem_append, List.mem_singleton] at listed
      obtain ⟨old, inRows, named⟩ : ∃ old ∈ s.runs.rows, old.runId = e.runId := by
        rcases listed with listed | rfl
        · exact sound.known e listed
        · obtain ⟨row, inRows, same⟩ := held
          exact ⟨row, inRows, (congrArg RunAuthority.runId same).trans fits.runId.symm⟩
      refine ⟨old.setCost run.runId (costOf (t.runEntries run.runId)), ?_, ?_⟩
      · rw [runs]
        exact List.mem_map_of_mem inRows
      · rw [RunRecord.setCost_authority, named]
    · intro row listed
      obtain ⟨old, inRows, rfl⟩ := stored row listed
      rw [RunRecord.setCost_authority]
      exact perRun old inRows
    · intro workflowId month budget within
      apply monthly workflowId month budget
      intro old inRows ofWorkflow activated
      have listed : old.setCost run.runId (costOf (t.runEntries run.runId)) ∈ t.runs.rows := by
        rw [runs]
        exact List.mem_map_of_mem inRows
      have allowed := within _ listed
      rw [RunRecord.setCost_authority] at allowed
      exact allowed ofWorkflow activated
    · intro runId
      exact (counts runId).1
    · intro runId
      exact (counts runId).2.1
    · intro runId
      exact (counts runId).2.2
    · exact sound.charge_once fits once entries
    · intro row listed
      obtain ⟨old, inRows, rfl⟩ := stored row listed
      rw [sound.charge_cost fits entries inRows, RunRecord.setCost_authority]

end CostStore

/-! ## Runs of the machine -/

/-- A charge that can read its limits reads these. -/
def CostMove.Fixes (limits : CountLimits) : CostMove → Prop
  | .startStepCharged _ config _ _ _ | .chargeStep _ config _ _ _ =>
    (loadPricing config).limitsError = none → (loadPricing config).limits = limits
  | _ => True

namespace CostDesk

def Charges (d : CostDesk) (move : CostMove) (runId stepId : Text) (kind : ChargeKind) : Prop :=
  match move with
  | .startStepCharged copy _ _ step evidence =>
    (∃ run, d.copies[copy]? = some run ∧ run.runId = runId) ∧
      evidence.stepId = stepId ∧ .of step.action = kind
  | .chargeStep copy _ _ id asked =>
    (∃ run, d.copies[copy]? = some run ∧ run.runId = runId) ∧ id = stepId ∧ asked = kind
  | _ => False

/-- The ledger is in order, and every copy is one of a stored run. -/
structure Sound (limits : CountLimits) (d : CostDesk) : Prop where
  store : d.store.Sound limits
  copies : ∀ copy ∈ d.copies, d.store.Holds copy.toRunAuthority

variable {limits : CountLimits} {d : CostDesk}

variable {move : CostMove}

/-- A store that was left as it was, or as a transaction that returned left it. -/
theorem after_change {α : Type} {made : Text → Text → ChargeKind → Prop} {body : Tx α}
    {s : CostStore} (returned : ∀ a t, transaction body s = .ok a t → s.Change limits made t) :
    s.Change limits made (after (transaction body) s) := by
  rcases after_transaction body s with same | ⟨a, ran⟩
  · rw [same]
    exact .steps rfl rfl
  · exact returned a _ (transaction_returned.mpr ran)

theorem step_change (sound : d.Sound limits) (fixed : move.Fixes limits) :
    d.store.Change limits (d.Charges move) (d.step move).store := by
  have held : ∀ {k : Nat} {run : RunRecord}, d.copies[k]? = some run → d.store.Holds run.toRunAuthority :=
    fun read => sound.copies _ (List.mem_of_getElem? read)
  cases move with
  | enqueueRun config month revisionFits run stepIds =>
    exact after_change fun _ _ => enqueueRun_change
  | getRun runId => exact .steps rfl rfl
  | startStepCharged copy config month step evidence =>
    simp only [CostDesk.step]
    cases read : d.copies[copy]? with
    | none => exact .steps rfl rfl
    | some run =>
      cases charged : startStepCharged config month run step evidence d.store with
      | ok cost store =>
        simp only [charged, startCharged]
        exact startStepCharged_change fixed (held read) ⟨⟨run, read, rfl⟩, rfl, rfl⟩ charged
      | error e store =>
        simp only [charged, startCharged]
        obtain rfl := transaction_refused charged
        exact .steps rfl rfl
  | chargeStep copy config month stepId kind =>
    simp only [CostDesk.step]
    cases read : d.copies[copy]? with
    | none => exact .steps rfl rfl
    | some run =>
      exact after_change fun _ _ charged =>
        chargeInTx_change fixed (held read) ⟨⟨run, read, rfl⟩, rfl, rfl⟩
          (transaction_returned.mp charged)
  | saveStep runId evidence => exact after_change fun _ _ => saveStep_change
  | saveRun copy status errorCode failureClass =>
    simp only [CostDesk.step]
    cases read : d.copies[copy]? with
    | none => exact .steps rfl rfl
    | some run => exact after_change fun _ _ => saveRun_change
  | cancelRun runId actor => exact after_change fun _ _ => cancelRun_change

/-- A copy is made by reading a run, and no call changes the authority in it. -/
theorem step_copies {copy : RunRecord} (listed : copy ∈ (d.step move).copies) :
    (∃ old ∈ d.copies, old.toRunAuthority = copy.toRunAuthority) ∨ copy ∈ d.store.runs.rows := by
  have edited : ∀ {k : Nat} {run run' : RunRecord}, d.copies[k]? = some run →
      copy ∈ d.copies.set k run' → run.toRunAuthority = run'.toRunAuthority →
      ∃ old ∈ d.copies, old.toRunAuthority = copy.toRunAuthority := by
    intro k run run' read inCopies same
    rcases List.mem_or_eq_of_mem_set inCopies with old | rfl
    · exact ⟨copy, old, rfl⟩
    · exact ⟨run, List.mem_of_getElem? read, same⟩
  have kept : copy ∈ d.copies → (∃ old ∈ d.copies, old.toRunAuthority = copy.toRunAuthority) ∨
      copy ∈ d.store.runs.rows := fun listed => .inl ⟨copy, listed, rfl⟩
  cases move with
  | getRun runId =>
    simp only [CostDesk.step, List.mem_append, Option.mem_toList] at listed
    rcases listed with old | found
    · exact kept old
    · exact .inr (CostStore.findRun_some found).1
  | startStepCharged k config month step evidence =>
    simp only [CostDesk.step] at listed
    cases read : d.copies[k]? with
    | none =>
      rw [read] at listed
      exact kept listed
    | some run =>
      rw [read] at listed
      cases charged : startStepCharged config month run step evidence d.store with
      | ok cost store =>
        simp only [charged, startCharged] at listed
        exact .inl (edited read listed rfl)
      | error e store =>
        simp only [charged, startCharged] at listed
        exact kept listed
  | saveRun k status errorCode failureClass =>
    simp only [CostDesk.step] at listed
    cases read : d.copies[k]? with
    | none =>
      rw [read] at listed
      exact kept listed
    | some run =>
      rw [read] at listed
      exact .inl (edited read listed rfl)
  | chargeStep k config month stepId kind =>
    simp only [CostDesk.step] at listed
    cases read : d.copies[k]? with
    | none | some run =>
      rw [read] at listed
      exact kept listed
  | enqueueRun config month revisionFits run stepIds | saveStep runId evidence
  | cancelRun runId actor => exact kept listed

theorem Sound.step (sound : d.Sound limits) (fixed : move.Fixes limits) : (d.step move).Sound limits := by
  have change := step_change sound fixed
  refine ⟨sound.store.change change, ?_⟩
  intro copy listed
  apply change.holds
  rcases step_copies listed with ⟨old, inCopies, same⟩ | stored
  · rw [← same]
    exact sound.copies old inCopies
  · exact ⟨copy, stored, rfl⟩

theorem sound_empty (limits : CountLimits) : CostDesk.Sound limits {} := by
  refine ⟨⟨?_, ?_, ?_, ?_, ?_, ?_, ?_, ?_⟩, ?_⟩
  · intro entry listed
    cases listed
  · intro run listed
    cases listed
  · intro _ _ budget _
    exact Nat.zero_le budget
  · intro _
    exact Nat.zero_le _
  · intro _
    exact Nat.zero_le _
  · intro _
    exact Nat.zero_le _
  · intro _ _
    exact Nat.zero_le _
  · intro run listed
    cases listed
  · intro copy listed
    cases listed

section
variable {moves : List CostMove}

theorem run_sound (fixed : ∀ move ∈ moves, move.Fixes limits) : (run CostDesk.step {} moves).Sound limits :=
  run_invariant (Sound limits) (fun _ _ sound allowed => sound.step allowed) (sound_empty limits)
    (obeys_of_forall fixed _)

theorem run_kinds (fixed : ∀ move ∈ moves, move.Fixes limits) {runId stepId : Text}
    {kinds : ChargeKind → Prop} (charged : Obeys CostDesk.step
      (fun d move => ∀ kind, d.Charges move runId stepId kind → kinds kind) {} moves) :
    ∀ entry ∈ (run CostDesk.step {} moves).store.entries.rows,
      entry.runId = runId → entry.stepId = stepId → kinds entry.kind := by
  suffices kept : (run CostDesk.step {} moves).Sound limits ∧
      ∀ entry ∈ (run CostDesk.step {} moves).store.entries.rows,
        entry.runId = runId → entry.stepId = stepId → kinds entry.kind from kept.2
  -- soundness goes along: a charge is made on a copy of a stored run
  refine run_invariant
    (fun d => d.Sound limits ∧ ∀ entry ∈ d.store.entries.rows,
      entry.runId = runId → entry.stepId = stepId → kinds entry.kind)
    ?_ ⟨sound_empty limits, List.forall_mem_nil _⟩ (charged.and (obeys_of_forall fixed _))
  intro d move ⟨sound, ofKinds⟩ ⟨asked, allowed⟩
  refine ⟨sound.step allowed, ?_⟩
  rintro entry listed rfl rfl
  rcases (step_change sound allowed).entries listed with old | new
  · exact ofKinds entry old rfl rfl
  · exact asked entry.kind new

end

end CostDesk

/-- Whatever runs are created, charged, saved and cancelled, in any order and over any copies,
no run spends more than its budget and no workflow more in a month than the monthly budget of
its activated runs; entries, reads and effects stay within the limits; a step that is charged
for decisions and effects only has one entry at most; a stored cost is what the ledger says.
A charge that is refused leaves the store as it was. -/
theorem costs_bounded (limits : CountLimits) (moves : List CostMove)
    (fixed : ∀ move ∈ moves, move.Fixes limits) : let s := (run CostDesk.step {} moves).store
    (∀ run ∈ s.runs.rows, amounts (s.runEntries run.runId) ≤ run.budget.perRunMicros) ∧
    (∀ workflowId month budget, (∀ run ∈ s.runs.rows, run.workflowId = workflowId → run.activated = true →
        run.budget.monthlyMicros ≤ budget) →
      amounts (s.monthEntries workflowId month) ≤ budget) ∧
    (∀ runId, (s.runEntries runId).length ≤ limits.maxStepsPerRun ∧
      s.countOf runId .read ≤ limits.maxReadsPerRun ∧ s.countOf runId .effect ≤ limits.maxEffectsPerRun) ∧
    (∀ runId stepId, (s.stepEntries runId stepId).countP (·.kind.chargedOnce) ≤ 1) ∧ (∀ runId stepId,
      Obeys CostDesk.step
        (fun d move => ∀ kind, d.Charges move runId stepId kind → kind.chargedOnce = true)
        {} moves →
      (s.stepEntries runId stepId).length ≤ 1) ∧
    (∀ run ∈ s.runs.rows, run.cost = costOf (s.runEntries run.runId)) ∧ (∀ config month run step evidence e t,
      startStepCharged config month run step evidence s = .error e t → t = s) ∧
    ∀ config month run stepId kind e t, chargeStep config month run stepId kind s = .error e t → t = s := by
  intro s
  have sound : s.Sound limits := (CostDesk.run_sound fixed).store
  refine ⟨sound.perRun, sound.monthly, ?_, sound.once, ?_, sound.cost, ?_, ?_⟩
  · intro runId
    exact ⟨sound.steps runId, sound.reads runId, sound.effects runId⟩
  · intro runId stepId charged
    have kinds := CostDesk.run_kinds fixed charged
    have paid : (s.stepEntries runId stepId).countP (·.kind.chargedOnce) =
        (s.stepEntries runId stepId).length := by
      rw [List.countP_eq_length]
      intro entry listed
      simp only [CostStore.stepEntries, CostStore.runEntries, List.mem_filter, decide_eq_true_eq] at listed
      exact kinds entry listed.1.1 listed.1.2 listed.2
    rw [← paid]
    exact sound.once runId stepId
  · intro config month run step evidence e t refused
    exact transaction_refused refused
  · intro config month run stepId kind e t refused
    exact transaction_refused refused

/-! An effect is started twice and a read of unknown price takes the rest of the budget; the run
is cancelled while another call holds a copy of it. -/

namespace CostSample

/-- An effect costs five; the price of a read is not a number. -/
def config : Option TomlTable :=
  some [("workflow", .table [("unit_cost_micros",
    .table [("effect", .integer 5), ("read", .other)])])]

def sent : RunAuthority where
  runId := ['r']
  triggerKey := ['t']
  workflowId := ['w']
  activated := true
  contract := ⟨[], [], [], none⟩
  budget := ⟨12, 20⟩
  createdAt := []

def effectStep : StepDefinition where
  stepId := ['e']
  action := .mcpEffect ['u'] ['m']
  input := .literal .null
  inputSchema := .null
  outputSchema := .null
  timeoutSeconds := 30
  maxReadAttempts := 1

def start : CostMove := .startStepCharged 0 config ['m'] effectStep ⟨['e'], .running, [], none⟩

def read : CostMove := .chargeStep 0 config ['m'] ['q'] .read

def moves : List CostMove :=
  [.enqueueRun config ['m'] true sent [['e'], ['q']], .getRun ['r'], .getRun ['r'], start, start,
    read, read, .cancelRun ['r'] ['u'], .saveRun 1 .running none none]

theorem moves_fixed : ∀ move ∈ moves, move.Fixes {} := by
  have limits : (loadPricing config).limits = {} := by decide
  simp [moves, start, read, CostMove.Fixes, limits]

end CostSample

theorem costs_of_cancelled_run :
    (run CostDesk.step {} CostSample.moves).store.entries.rows.map CostEntry.amountMicros = [5, 7] ∧
    (run CostDesk.step {} CostSample.moves).store.runs.rows.map RunRecord.status = [.cancelled] ∧
    ∀ row ∈ (run CostDesk.step {} CostSample.moves).store.runs.rows,
      row.cost = costOf ((run CostDesk.step {} CostSample.moves).store.runEntries row.runId) :=
  ⟨by decide, by decide, (costs_bounded {} CostSample.moves CostSample.moves_fixed).2.2.2.2.2.1⟩

end DuDuClaw.Workflow
