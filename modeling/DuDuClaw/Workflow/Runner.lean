/-
# Workflow.Runner -- the steps of a run

How `execute_claimed` of workflow/runner.rs carries values from step to step.  An
execution goes through the definition's steps in order: a step that has succeeded is
loaded from its checkpoint, any other passes the gate, resolves its input and stores its
output.  A run is executed many times over (a person decides in between, a lease is
lost), so that any number of executions share the stored checkpoints.

What a tool, a person or the operation ledger returns is an argument of the step that
receives it.  Of the gate only the ages of the run input and of the reads are modelled;
its other checks refuse more.

* `Run.Consistent`, `Job.Reachable.consistent`: what an execution holds is what is stored, and
  stored times lie between the run's start and now.
-/
import DuDuClaw.Lib.Runs
import DuDuClaw.Workflow.Definition

namespace DuDuClaw.Workflow

open DuDuClaw.Lib

/-! ## One step -/

mutual

def referencedSteps : InputRef → List Text
  | .array items => referencedItems items
  | .stepOutput stepId _ => [stepId]
  | .literal _ => []
  | .runInput _ => []

def referencedItems : List InputRef → List Text
  | [] => []
  | item :: rest => referencedSteps item ++ referencedItems rest

end

section
variable {runInput : TypedSchema} {outputs : List (Text × TypedSchema)}

mutual

theorem validateInputReference_named (reference : InputRef) {destination : TypedSchema}
    {depth nodes seen : Nat} {id : Text}
    (checked : validateInputReference runInput outputs reference destination depth nodes = .ok seen)
    (named : id ∈ referencedSteps reference) : ∃ schema, outputs.lookup id = some schema := by
  unfold validateInputReference at checked
  obtain ⟨-, -, checked⟩ := bind_ok.mp checked
  cases reference with
  | literal value | runInput pointer => cases named
  | stepOutput stepId pointer =>
    obtain ⟨source, known, -⟩ := bind_ok.mp checked
    obtain rfl := List.mem_singleton.mp named
    exact ⟨source, okOr_ok.mp known⟩
  | array items =>
    cases destination with
    | array itemSchema maxItems =>
      obtain ⟨-, -, checked⟩ := bind_ok.mp checked
      exact validateItems_named items checked named
    | _ => cases checked

theorem validateItems_named (items : List InputRef) {itemSchema : TypedSchema}
    {depth nodes seen : Nat} {id : Text}
    (checked : validateItems runInput outputs items itemSchema depth nodes = .ok seen)
    (named : id ∈ referencedItems items) : ∃ schema, outputs.lookup id = some schema := by
  cases items with
  | nil => cases named
  | cons item rest =>
    rw [validateItems] at checked
    obtain ⟨_, first, checked⟩ := bind_ok.mp checked
    rcases List.mem_append.mp named with here | later
    · exact validateInputReference_named item first here
    · exact validateItems_named rest checked later

end

end

def process (transform : ProcessTransform) (input : Value) : Except String Value :=
  match transform, input with
  | .identity, v => .ok v
  | .collect, .array items => .ok (.array items)
  | .collect, _ => .error "collect expects typed array"
  | .summary, .array items =>
    .ok (.object [("items".toList, .array items), ("count".toList, .number (.posInt items.length))])
  | .summary, _ => .error "summary expects typed array"

def StepAction.isRead : StepAction → Bool
  | .mcpRead _ => true
  | _ => false

def StepAction.isEffect : StepAction → Bool
  | .mcpEffect _ _ => true
  | _ => false

/-- The output of a step whose input is `v`; `outside` is what a tool or a person
answers. -/
def StepAction.output (action : StepAction) (v outside : Value) : Except String Value :=
  match action with
  | .process transform => Workflow.process transform v
  | .artifact _ => .ok v
  | .approval _ => .ok v
  | .mcpRead _ => .ok outside
  | .mcpEffect _ _ => .ok outside
  | .question _ => .ok outside

def StepDefinition.perform (step : StepDefinition) (input : Value) (outputs : List (Text × Value))
    (outside : Value) : Except String Value := do
  let v ← resolveInput step.input input outputs
  step.inputSchema.validate v
  let output ← step.action.output v outside
  step.outputSchema.validate output
  return output

theorem StepAction.output_passesThrough {action : StepAction}
    (through : action.passesThrough = true) (v outside : Value) : action.output v outside = .ok v := by
  cases action with
  | process transform =>
    cases transform with
    | identity => rfl
    | collect | summary => cases through
  | artifact _ | approval _ => rfl
  | mcpRead _ | mcpEffect _ _ | question _ => cases through

theorem StepAction.passesThrough_effect {action : StepAction} (effect : action.isEffect = true) :
    action.passesThrough = false := by
  cases action with
  | mcpEffect _ _ => rfl
  | _ => cases effect

theorem StepDefinition.perform_passesThrough {step : StepDefinition} {input outside output : Value}
    {outputs : List (Text × Value)} (through : step.action.passesThrough = true)
    (performed : step.perform input outputs outside = .ok output) :
    resolveInput step.input input outputs = .ok output := by
  unfold perform at performed
  obtain ⟨v, resolved, performed⟩ := bind_ok.mp performed
  obtain ⟨-, -, performed⟩ := bind_ok.mp performed
  obtain ⟨result, made, performed⟩ := bind_ok.mp performed
  obtain ⟨-, -, performed⟩ := bind_ok.mp performed
  cases performed
  rw [StepAction.output_passesThrough through] at made
  cases made
  exact resolved

/-! ## Gate -/

/-- Whether a step's input depends, directly or through earlier steps, on the run input;
`fuel` counts down where the source's depth counts up to 64. -/
def usesRunInput (d : WorkflowDefinition) : Nat → InputRef → Bool
  | 0, _ => true
  | fuel + 1, reference =>
    match reference with
    | .literal _ => false
    | .runInput _ => true
    | .array items => items.any (usesRunInput d fuel)
    | .stepOutput stepId _ =>
      match d.steps.find? (fun s => s.stepId == stepId) with
      | some step => usesRunInput d fuel step.input
      | none => true

def stepUsesRunInput (d : WorkflowDefinition) (stepId : Text) : Bool :=
  match d.steps.find? (fun s => s.stepId == stepId) with
  | some step => usesRunInput d 65 step.input
  | none => true

/-- What a check point needs beyond the gates that are always on. -/
structure GuardPoint where
  inputFreshness : Bool
  readObservations : List Int

/-- Times are nanoseconds. -/
def stale (now maxAge observed : Int) : Prop := observed > now ∨ now - observed > maxAge

instance (now maxAge observed : Int) : Decidable (stale now maxAge observed) :=
  inferInstanceAs (Decidable (_ ∨ _))

/-- The ages `guard_grant` checks. -/
def guardGrant (now maxAge inputObservedAt : Int) (point : GuardPoint) : Except String Unit := do
  refuseIf (point.inputFreshness = true ∧ stale now maxAge inputObservedAt) "workflow_input_expired"
  refuseIf (∃ observed ∈ point.readObservations, stale now maxAge observed)
    "workflow_read_data_expired"

/-- The check point before a step at `position`; `pending` when it was never started. -/
def guardPoint (d : WorkflowDefinition) (step : StepDefinition) (position : Nat) (pending : Bool)
    (readTimes : List (Text × Int)) : GuardPoint where
  inputFreshness :=
    (step.action.isEffect && stepUsesRunInput d step.stepId) || (position == 0 && pending)
  readObservations :=
    if step.action.isEffect then (referencedSteps step.input).filterMap fun id => readTimes.lookup id
    else []

/-! ## Runs -/

/-- What is fixed when a run is created; `inputMaxAge` is that of the run's grant, if it
has one. -/
structure Job where
  definition : WorkflowDefinition
  input : Value
  inputObservedAt : Int
  inputMaxAge : Option Int

structure Checkpoint where
  output : Value
  observedAt : Int

/-- What one call of `execute_claimed` holds in memory. -/
structure Execution where
  position : Nat := 0
  outputs : List (Text × Value) := []
  readTimes : List (Text × Int) := []
  /-- The gate of the step at `position` has been passed. -/
  gated : Bool := false

structure Run where
  clock : Int
  done : List (Text × Checkpoint)
  executions : Nat → Execution

inductive Action where
  | tick (later : Int)
  /-- A new call of `execute`. -/
  | start (k : Nat)
  /-- The step at hand has a succeeded checkpoint. -/
  | load (k : Nat)
  | gate (k : Nat) (pending : Bool)
  /-- The step runs and its checkpoint is stored. -/
  | finish (k : Nat) (outside : Value)
  /-- A running effect is found completed in the operation ledger. -/
  | recover (k : Nat) (outside : Value)

/-- The execution holds the output of one more step. -/
def Execution.advance (e : Execution) (step : StepDefinition) (c : Checkpoint) : Execution where
  position := e.position + 1
  outputs := (step.stepId, c.output) :: e.outputs
  readTimes :=
    if step.action.isRead then (step.stepId, c.observedAt) :: e.readTimes else e.readTimes
  gated := false

/-- A checkpoint is stored unless the step has succeeded already. -/
def Run.store (run : Run) (k : Nat) (step : StepDefinition) (output : Value) : Run :=
  let c : Checkpoint := ⟨output, run.clock⟩
  if (run.done.lookup step.stepId).isSome then run
  else { run with
    done := (step.stepId, c) :: run.done
    executions := Function.update run.executions k ((run.executions k).advance step c) }

namespace Job

variable (job : Job)

def current (e : Execution) : Option StepDefinition := job.definition.steps[e.position]?

def gate (run : Run) (k : Nat) (pending : Bool) (step : StepDefinition) : Except String Unit :=
  match job.inputMaxAge with
  | none => .ok ()
  | some maxAge =>
    guardGrant run.clock maxAge job.inputObservedAt
      (guardPoint job.definition step (run.executions k).position pending
        (run.executions k).readTimes)

def step (run : Run) : Action → Run
  | .tick later => if run.clock ≤ later then { run with clock := later } else run
  | .start k => { run with executions := Function.update run.executions k {} }
  | .load k =>
    match job.current (run.executions k) with
    | none => run
    | some step =>
      match run.done.lookup step.stepId with
      | none => run
      | some c =>
        { run with
          executions := Function.update run.executions k ((run.executions k).advance step c) }
  | .gate k pending =>
    match job.current (run.executions k) with
    | none => run
    | some step =>
      if (run.done.lookup step.stepId).isSome then run
      else match job.gate run k pending step with
        | .error _ => run
        | .ok _ =>
          { run with
            executions :=
              Function.update run.executions k { run.executions k with gated := true } }
  | .finish k outside =>
    match job.current (run.executions k) with
    | none => run
    | some step =>
      if (run.executions k).gated then
        match step.perform job.input (run.executions k).outputs outside with
        | .error _ => run
        | .ok output => run.store k step output
      else run
  | .recover k outside =>
    match job.current (run.executions k) with
    | none => run
    | some step =>
      if (run.executions k).gated ∧ step.action.isEffect ∧ step.outputSchema.accepts outside then
        run.store k step outside
      else run

/-- A run begins at a time no earlier than its input was observed. -/
def Begins (run : Run) : Prop :=
  job.inputObservedAt ≤ run.clock ∧ run.done = [] ∧ run.executions = fun _ => {}

def Reachable (run : Run) : Prop :=
  ∃ first actions, job.Begins first ∧ run = Lib.run job.step first actions

inductive Change (run : Run) : Run → Prop
  | none : Change run run
  | tick (later : Int) (forward : run.clock ≤ later) : Change run { run with clock := later }
  | start (k : Nat) :
      Change run { run with executions := Function.update run.executions k {} }
  | gate (k : Nat) :
      Change run { run with
        executions := Function.update run.executions k { run.executions k with gated := true } }
  | load (k : Nat) (step : StepDefinition) (c : Checkpoint)
      (at_ : job.current (run.executions k) = some step)
      (stored : run.done.lookup step.stepId = some c) :
      Change run { run with
        executions := Function.update run.executions k ((run.executions k).advance step c) }
  | store (k : Nat) (step : StepDefinition) (output : Value)
      (at_ : job.current (run.executions k) = some step)
      (fresh : run.done.lookup step.stepId = none)
      (passed : step.action.passesThrough = true →
        resolveInput step.input job.input (run.executions k).outputs = .ok output) :
      Change run { run with
        done := (step.stepId, ⟨output, run.clock⟩) :: run.done
        executions := Function.update run.executions k
          ((run.executions k).advance step ⟨output, run.clock⟩) }

variable {job}

theorem store_change {run : Run} {k : Nat} {step : StepDefinition} {output : Value}
    (at_ : job.current (run.executions k) = some step) (passed : step.action.passesThrough = true →
      resolveInput step.input job.input (run.executions k).outputs = .ok output) :
    job.Change run (run.store k step output) := by
  unfold Run.store
  split
  · exact .none
  · rename_i fresh
    exact .store k step output at_ (Option.not_isSome_iff_eq_none.mp fresh) passed

theorem step_change (run : Run) (action : Action) : job.Change run (job.step run action) := by
  cases action with
  | tick later =>
    simp only [step]
    split
    · exact .tick later ‹_›
    · exact .none
  | start k => exact .start k
  | load k =>
    simp only [step]
    split
    · exact .none
    · split
      · exact .none
      · exact .load k _ _ ‹_› ‹_›
  | gate k pending =>
    simp only [step]
    split
    · exact .none
    split
    · exact .none
    · split
      · exact .none
      · exact .gate k
  | finish k outside =>
    simp only [step]
    split
    · exact .none
    split
    · split
      · exact .none
      · rename_i performed
        exact store_change ‹_› fun through =>
          StepDefinition.perform_passesThrough through performed
    · exact .none
  | recover k outside =>
    simp only [step]
    split
    · exact .none
    split
    · rename_i effect
      refine store_change ‹_› fun through => ?_
      rw [StepAction.passesThrough_effect effect.2.1] at through
      cases through
    · exact .none

end Job

structure Execution.Holds (e : Execution) (steps : List StepDefinition)
    (done : List (Text × Checkpoint)) : Prop where
  behind : ∀ step ∈ steps.take e.position, ∃ c, done.lookup step.stepId = some c
  outputs : ∀ id v, e.outputs.lookup id = some v → ∃ c, done.lookup id = some c ∧ c.output = v
  times : ∀ id t, e.readTimes.lookup id = some t → ∃ c, done.lookup id = some c ∧ c.observedAt = t
  reads : ∀ step ∈ steps.take e.position, step.action.isRead = true →
    ∃ t, e.readTimes.lookup step.stepId = some t

namespace Execution.Holds

variable {e : Execution} {steps : List StepDefinition} {done done' : List (Text × Checkpoint)}

theorem nothing : Execution.Holds {} steps done := ⟨nofun, nofun, nofun, nofun⟩

theorem mono (holds : e.Holds steps done)
    (kept : ∀ id c, done.lookup id = some c → done'.lookup id = some c) : e.Holds steps done' := by
  refine ⟨fun step before => ?_, fun id v held => ?_, fun id t held => ?_, holds.reads⟩
  · obtain ⟨c, stored⟩ := holds.behind step before
    exact ⟨c, kept step.stepId c stored⟩
  · obtain ⟨c, stored, same⟩ := holds.outputs id v held
    exact ⟨c, kept id c stored, same⟩
  · obtain ⟨c, stored, same⟩ := holds.times id t held
    exact ⟨c, kept id c stored, same⟩

/-- An execution that goes on holds one more stored step. -/
theorem advance (holds : e.Holds steps done) {step : StepDefinition} {c : Checkpoint}
    (at_ : steps[e.position]? = some step) (stored : done.lookup step.stepId = some c) :
    (e.advance step c).Holds steps done := by
  have passed : ∀ other ∈ steps.take (e.position + 1), other ∈ steps.take e.position ∨ other = step := by
    intro other listed
    rw [List.take_add_one, at_] at listed
    simpa using listed
  refine ⟨fun other listed => ?_, fun id v held => ?_, fun id t held => ?_, fun other listed read => ?_⟩
  · rcases passed other listed with before | rfl
    · exact holds.behind other before
    · exact ⟨c, stored⟩
  · rcases lookup_cons_cases held with ⟨rfl, rfl⟩ | older
    · exact ⟨c, stored, rfl⟩
    · exact holds.outputs id v older
  · unfold Execution.advance at held
    split at held
    · rcases lookup_cons_cases held with ⟨rfl, rfl⟩ | older
      · exact ⟨c, stored, rfl⟩
      · exact holds.times id t older
    · exact holds.times id t held
  · unfold Execution.advance
    rcases passed other listed with before | rfl
    · obtain ⟨t, held⟩ := holds.reads other before read
      split
      · exact lookup_cons_some ⟨t, held⟩
      · exact ⟨t, held⟩
    · rw [if_pos read]
      exact ⟨c.observedAt, by simp⟩

end Execution.Holds

/-- What an execution holds is stored, and stored times lie between the observation of the
run input and now. -/
structure Run.Consistent (job : Job) (run : Run) : Prop where
  started : job.inputObservedAt ≤ run.clock
  times : ∀ id c, run.done.lookup id = some c → job.inputObservedAt ≤ c.observedAt ∧
    c.observedAt ≤ run.clock
  holds : ∀ k, (run.executions k).Holds job.definition.steps run.done

/-- A checkpoint stays as it is when another is stored. -/
theorem lookup_kept {done : List (Text × Checkpoint)} {new id : Text} {c c' : Checkpoint}
    (fresh : done.lookup new = none) (stored : done.lookup id = some c) :
    List.lookup id ((new, c') :: done) = some c := by
  have differ : id ≠ new := by
    rintro rfl
    rw [fresh] at stored
    cases stored
  rw [lookup_cons_other c' differ]
  exact stored

theorem Run.Consistent.begins {job : Job} {run : Run} (begins : job.Begins run) : run.Consistent job := by
  obtain ⟨started, empty, fresh⟩ := begins
  refine ⟨started, ?_, ?_⟩
  · rw [empty]
    nofun
  · intro k
    rw [fresh]
    exact .nothing

theorem Run.Consistent.change {job : Job} {run run' : Run} (fine : run.Consistent job)
    (change : job.Change run run') : run'.Consistent job := by
  cases change with
  | none => exact fine
  | tick later forward =>
    refine ⟨Int.le_trans fine.started forward, fun id c stored => ?_, fine.holds⟩
    exact ⟨(fine.times id c stored).1, Int.le_trans (fine.times id c stored).2 forward⟩
  | start k =>
    refine ⟨fine.started, fine.times, fun other => ?_⟩
    by_cases same : other = k
    · subst same
      simpa using .nothing
    · simpa [same] using fine.holds other
  | gate k =>
    refine ⟨fine.started, fine.times, fun other => ?_⟩
    by_cases same : other = k
    · subst same
      obtain ⟨behind, outputs, times, reads⟩ := fine.holds other
      simpa using ⟨behind, outputs, times, reads⟩
    · simpa [same] using fine.holds other
  | load k step c at_ stored =>
    refine ⟨fine.started, fine.times, fun other => ?_⟩
    by_cases same : other = k
    · subst same
      simpa using (fine.holds other).advance at_ stored
    · simpa [same] using fine.holds other
  | store k step output at_ fresh passed =>
    have kept : ∀ id c, run.done.lookup id = some c →
        List.lookup id ((step.stepId, ⟨output, run.clock⟩) :: run.done) = some c :=
      fun id c stored => lookup_kept fresh stored
    refine ⟨fine.started, fun id c stored => ?_, fun other => ?_⟩
    · rcases lookup_cons_cases stored with ⟨rfl, rfl⟩ | older
      · exact ⟨fine.started, Int.le_refl _⟩
      · exact fine.times id c older
    · by_cases same : other = k
      · subst same
        simpa using ((fine.holds other).mono kept).advance at_ (by simp)
      · simpa [same] using (fine.holds other).mono kept

theorem Job.current_split {job : Job} {e : Execution} {step : StepDefinition}
    (at_ : job.current e = some step) : job.definition.steps =
      job.definition.steps.take e.position ++ step :: job.definition.steps.drop (e.position + 1) := by
  obtain ⟨within, here⟩ := List.getElem?_eq_some_iff.mp at_
  rw [← here, List.getElem_cons_drop, List.take_append_drop]

theorem Job.Reachable.consistent {job : Job} {run : Run} (reachable : job.Reachable run) :
    run.Consistent job := by
  obtain ⟨first, actions, begins, rfl⟩ := reachable
  exact run_invariant (fun run => run.Consistent job)
    (fun run action fine _ => fine.change (job.step_change run action))
    (Run.Consistent.begins begins) (obeys_true first actions)

end DuDuClaw.Workflow
