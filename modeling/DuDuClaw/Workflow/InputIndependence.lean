/-
# Workflow.InputIndependence -- steps that do not depend on the run input

The age of the run input is checked before an effect only if `step_uses_run_input` says
that the effect's input depends on it.  The walk follows the references of a step through
arrays and earlier steps, so that a step it clears is determined by the definition and by
what the tools and the people of the run answer.

Each of two runs of one definition has a run input of its own, and both take their answers
from the same function of a step and its resolved input.

* `output_independent`: stored outputs that do not depend on the run input are the same.
* `input_independent`: so is the resolved input of a step that the walk clears.
-/
import DuDuClaw.Workflow.Runner

namespace DuDuClaw.Workflow

open DuDuClaw.Lib

/-! ## What a reference reads -/

mutual

theorem resolveInput_named (reference : InputRef) {input v : Value} {outputs : List (Text × Value)}
    {id : Text} (resolved : resolveInput reference input outputs = .ok v)
    (named : id ∈ referencedSteps reference) : ∃ output, outputs.lookup id = some output := by
  cases reference with
  | literal value | runInput pointer => cases named
  | stepOutput stepId pointer =>
    obtain rfl := List.mem_singleton.mp named
    rw [resolveInput, okOr_ok] at resolved
    obtain ⟨output, held, -⟩ := Option.bind_eq_some_iff.mp resolved
    exact ⟨output, held⟩
  | array items =>
    rw [resolveInput, map_ok] at resolved
    obtain ⟨vs, resolved, -⟩ := resolved
    exact resolveItems_named items resolved named

theorem resolveItems_named (items : List InputRef) {input : Value} {vs : List Value}
    {outputs : List (Text × Value)} {id : Text} (resolved : resolveItems items input outputs = .ok vs)
    (named : id ∈ referencedItems items) : ∃ output, outputs.lookup id = some output := by
  cases items with
  | nil => cases named
  | cons item rest =>
    rw [resolveItems] at resolved
    obtain ⟨v, first, resolved⟩ := bind_ok.mp resolved
    obtain ⟨others, later, -⟩ := bind_ok.mp resolved
    rcases List.mem_append.mp named with here | there
    · exact resolveInput_named item first here
    · exact resolveItems_named rest later there

end

section
variable {d : WorkflowDefinition}

theorem referencedItems_mem {items : List InputRef} {id : Text} :
    id ∈ referencedItems items ↔ ∃ item ∈ items, id ∈ referencedSteps item := by
  induction items with
  | nil => simp [referencedItems]
  | cons item rest ih => simp [referencedItems, ih]

theorem resolveItems_congr {items : List InputRef} {input input' : Value}
    {outputs outputs' : List (Text × Value)}
    (same : ∀ item ∈ items, resolveInput item input outputs = resolveInput item input' outputs') :
    resolveItems items input outputs = resolveItems items input' outputs' := by
  induction items with
  | nil => rfl
  | cons item rest ih =>
    rw [resolveItems, resolveItems, same item (List.mem_cons_self ..),
      ih fun other listed => same other (List.mem_cons_of_mem _ listed)]

/-- A reference that the walk clears reads the outputs it names and nothing else. -/
theorem resolveInput_congr {fuel : Nat} {reference : InputRef} {input input' : Value}
    {outputs outputs' : List (Text × Value)} (independent : usesRunInput d fuel reference = false)
    (same : ∀ id ∈ referencedSteps reference, outputs.lookup id = outputs'.lookup id) :
    resolveInput reference input outputs = resolveInput reference input' outputs' := by
  induction fuel generalizing reference with
  | zero => cases independent
  | succ fuel ih =>
    cases reference with
    | literal value => rfl
    | runInput pointer => cases independent
    | stepOutput stepId pointer =>
      rw [resolveInput, resolveInput, same stepId (List.mem_singleton_self _)]
    | array items =>
      rw [usesRunInput, List.any_eq_false] at independent
      rw [resolveInput, resolveInput, resolveItems_congr]
      intro item listed
      refine ih (Bool.eq_false_iff.mpr (independent item listed)) fun id named => ?_
      exact same id (referencedItems_mem.mpr ⟨item, listed, named⟩)

/-- The walk goes on behind a reference that it clears. -/
theorem usesRunInput_named {fuel : Nat} {reference : InputRef} {id : Text}
    (independent : usesRunInput d (fuel + 1) reference = false) (named : id ∈ referencedSteps reference) :
    (∃ step, d.steps.find? (fun s => s.stepId == id) = some step ∧ usesRunInput d fuel step.input = false) ∨
      ∃ item, usesRunInput d fuel item = false ∧ id ∈ referencedSteps item := by
  cases reference with
  | literal value => cases named
  | runInput pointer => cases independent
  | stepOutput stepId pointer =>
    obtain rfl := List.mem_singleton.mp named
    rw [usesRunInput] at independent
    split at independent
    · exact .inl ⟨_, ‹_›, independent⟩
    · cases independent
  | array items =>
    rw [usesRunInput, List.any_eq_false] at independent
    obtain ⟨item, listed, inside⟩ := referencedItems_mem.mp named
    exact .inr ⟨item, Bool.eq_false_iff.mpr (independent item listed), inside⟩

end

/-! ## Answered runs -/

/-- The output comes from outside: read, effect and question steps. -/
def StepAction.asks : StepAction → Bool
  | .mcpRead _ | .mcpEffect _ _ | .question _ => true
  | _ => false

theorem StepAction.output_unasked {action : StepAction} (own : action.asks = false)
    (v outside outside' : Value) : action.output v outside = action.output v outside' := by
  cases action with
  | process _ | artifact _ | approval _ => rfl
  | mcpRead _ | mcpEffect _ _ | question _ => cases own

theorem StepAction.output_effect {action : StepAction} (effect : action.isEffect = true)
    (v outside : Value) : action.output v outside = .ok outside := by
  cases action with
  | mcpEffect _ _ => rfl
  | _ => cases effect

/-- What is answered is `answer` of the step and its resolved input.  The completed effect
that a recovery finds was dispatched with the input that the step resolves. -/
def Job.AnswersBy (job : Job) (answer : Text → Value → Value) (run : Run) : Action → Prop
  | .finish k outside => ∀ step v, job.current (run.executions k) = some step →
      step.action.asks = true →
      resolveInput step.input job.input (run.executions k).outputs = .ok v →
        outside = answer step.stepId v
  | .recover k outside => ∀ step, job.current (run.executions k) = some step →
      ∃ v, resolveInput step.input job.input (run.executions k).outputs = .ok v ∧
        outside = answer step.stepId v
  | _ => True

/-- Reached by a run that is answered by `answer`. -/
def Job.ReachableBy (job : Job) (answer : Text → Value → Value) (run : Run) : Prop :=
  ∃ first actions, job.Begins first ∧ Obeys job.step (job.AnswersBy answer) first actions ∧
    run = Lib.run job.step first actions

/-- The output of a step is its own or the answer to its resolved input, which it resolved
from stored outputs. -/
def Explained (job : Job) (answer : Text → Value → Value) (done : List (Text × Checkpoint))
    (step : StepDefinition) (c : Checkpoint) : Prop :=
  ∃ outputs v, (∀ id output, outputs.lookup id = some output →
      ∃ c', done.lookup id = some c' ∧ c'.output = output) ∧
    resolveInput step.input job.input outputs = .ok v ∧
    step.action.output v (answer step.stepId v) = .ok c.output

def Run.Explained (job : Job) (answer : Text → Value → Value) (run : Run) : Prop :=
  ∀ step ∈ job.definition.steps, ∀ c, run.done.lookup step.stepId = some c →
    Workflow.Explained job answer run.done step c

section
variable {job : Job} {answer : Text → Value → Value} {run : Run}

theorem Explained.mono {done done' : List (Text × Checkpoint)} {step : StepDefinition}
    {c : Checkpoint} (explained : Explained job answer done step c)
    (kept : ∀ id c', done.lookup id = some c' → done'.lookup id = some c') :
    Explained job answer done' step c := by
  obtain ⟨outputs, v, stored, resolved, made⟩ := explained
  refine ⟨outputs, v, fun id output held => ?_, resolved, made⟩
  obtain ⟨c', known, same⟩ := stored id output held
  exact ⟨c', kept id c' known, same⟩

theorem store_done (run : Run) (k : Nat) (step : StepDefinition) (output : Value) :
    (run.store k step output).done = run.done ∨ run.done.lookup step.stepId = none ∧
        (run.store k step output).done = (step.stepId, ⟨output, run.clock⟩) :: run.done := by
  unfold Run.store
  split
  · exact .inl rfl
  · exact .inr ⟨Option.not_isSome_iff_eq_none.mp ‹_›, rfl⟩

theorem StepDefinition.perform_ok {step : StepDefinition} {input outside output : Value}
    {outputs : List (Text × Value)} (performed : step.perform input outputs outside = .ok output) :
    ∃ v, resolveInput step.input input outputs = .ok v ∧ step.action.output v outside = .ok output := by
  unfold perform at performed
  obtain ⟨v, resolved, performed⟩ := bind_ok.mp performed
  obtain ⟨-, -, performed⟩ := bind_ok.mp performed
  obtain ⟨result, made, performed⟩ := bind_ok.mp performed
  obtain ⟨-, -, performed⟩ := bind_ok.mp performed
  cases performed
  exact ⟨v, resolved, made⟩

theorem Job.step_done {action : Action} (answers : job.AnswersBy answer run action) :
    (job.step run action).done = run.done ∨ ∃ k step c v, job.current (run.executions k) = some step ∧
        run.done.lookup step.stepId = none ∧
        resolveInput step.input job.input (run.executions k).outputs = .ok v ∧
        step.action.output v (answer step.stepId v) = .ok c.output ∧
        (job.step run action).done = (step.stepId, c) :: run.done := by
  cases action with
  | tick later =>
    simp only [step]
    split <;> exact .inl rfl
  | start k => exact .inl rfl
  | load k =>
    simp only [step]
    split
    · exact .inl rfl
    · split <;> exact .inl rfl
  | gate k pending =>
    simp only [step]
    split
    · exact .inl rfl
    · split
      · exact .inl rfl
      · split <;> exact .inl rfl
  | finish k outside =>
    simp only [step]
    split
    · exact .inl rfl
    rename_i step at_
    split
    · split
      · exact .inl rfl
      rename_i output performed
      obtain ⟨v, resolved, made⟩ := StepDefinition.perform_ok performed
      refine (store_done run k step output).imp_right fun stored => ?_
      refine ⟨k, step, _, v, at_, stored.1, resolved, ?_, stored.2⟩
      cases asks : step.action.asks with
      | true => rw [← answers step v at_ asks resolved, made]
      | false => rw [StepAction.output_unasked asks v _ outside, made]
    · exact .inl rfl
  | recover k outside =>
    simp only [step]
    split
    · exact .inl rfl
    rename_i step at_
    split
    · rename_i found
      obtain ⟨v, resolved, rfl⟩ := answers step at_
      refine (store_done run k step _).imp_right fun stored => ?_
      exact ⟨k, step, _, v, at_, stored.1, resolved, StepAction.output_effect found.2.1 v _, stored.2⟩
    · exact .inl rfl

section
variable {allowedReads allowedEffects : List Text} {encodedLength : WorkflowDefinition → Nat}

theorem Run.Explained.step {action : Action}
    (valid : job.definition.validate allowedReads allowedEffects encodedLength = .ok ())
    (fine : run.Consistent job) (explained : run.Explained job answer)
    (answers : job.AnswersBy answer run action) : (job.step run action).Explained job answer := by
  obtain same | ⟨k, here, c, v, at_, fresh, resolved, made, done⟩ := Job.step_done answers
  · unfold Run.Explained
    rw [same]
    exact explained
  have kept : ∀ id c', run.done.lookup id = some c' → (job.step run action).done.lookup id = some c' := by
    intro id c' stored
    rw [done]
    exact lookup_kept fresh stored
  intro other listed c' stored
  rw [done] at stored
  rcases lookup_cons_cases stored with ⟨same, rfl⟩ | older
  · have unique : other = here := List.inj_on_of_nodup_map (validate_distinct valid) listed
      (List.mem_of_getElem? at_) same
    subst unique
    refine ⟨_, v, fun id output held => ?_, resolved, made⟩
    obtain ⟨c', known, same⟩ := (fine.holds k).outputs id output held
    exact ⟨c', kept id c' known, same⟩
  · exact (explained other listed c' older).mono kept

theorem Job.ReachableBy.reachable (reachable : job.ReachableBy answer run) : job.Reachable run := by
  obtain ⟨first, actions, begins, -, ended⟩ := reachable
  exact ⟨first, actions, begins, ended⟩

theorem Job.ReachableBy.explained (reachable : job.ReachableBy answer run)
    (valid : job.definition.validate allowedReads allowedEffects encodedLength = .ok ()) :
    run.Explained job answer := by
  obtain ⟨first, actions, begins, answered, rfl⟩ := reachable
  refine (run_invariant (fun run : Run => run.Consistent job ∧ run.Explained job answer)
    (fun run action both answers => ⟨both.1.change (job.step_change run action),
      both.2.step valid both.1 answers⟩) ⟨Run.Consistent.begins begins, ?_⟩ answered).2
  intro step _ c stored
  rw [begins.2.1] at stored
  cases stored

end

end

/-- An execution holds an output of every step before its own. -/
def Execution.Full (e : Execution) (steps : List StepDefinition) : Prop :=
  ∀ step ∈ steps.take e.position, ∃ v, e.outputs.lookup step.stepId = some v

theorem Execution.Full.advance {e : Execution} {steps : List StepDefinition} (full : e.Full steps)
    {step : StepDefinition} {c : Checkpoint} (at_ : steps[e.position]? = some step) :
    (e.advance step c).Full steps := by
  intro other listed
  rw [Execution.advance, List.take_add_one, at_] at listed
  rcases List.mem_append.mp listed with before | last
  · exact lookup_cons_some (full other before)
  · cases List.mem_singleton.mp last
    exact ⟨c.output, List.lookup_cons_self⟩

theorem Job.Reachable.full {job : Job} {run : Run} (reachable : job.Reachable run) (k : Nat) :
    (run.executions k).Full job.definition.steps := by
  obtain ⟨first, actions, begins, rfl⟩ := reachable
  refine run_invariant (fun run : Run => ∀ k, (run.executions k).Full job.definition.steps)
    (fun run action full _ k => ?_) ?_ (obeys_true first actions) k
  · have change := job.step_change run action
    revert change
    generalize job.step run action = run'
    intro change
    have updated : ∀ {other : Nat} {e : Execution}, e.Full job.definition.steps →
        (Function.update run.executions other e k).Full job.definition.steps := by
      intro other e held
      by_cases here : k = other
      · subst here
        rwa [Function.update_self]
      · rw [Function.update_of_ne here]
        exact full k
    cases change with
    | none | tick => exact full k
    | start other => exact updated nofun
    | gate other => exact updated (full other)
    | load other step c at_ stored => exact updated ((full other).advance at_)
    | store other step output at_ fresh passed => exact updated ((full other).advance at_)
  · intro k
    rw [begins.2.2]
    exact nofun

/-- A step refers to steps before it, whose outputs an execution at the step holds. -/
theorem Job.Reachable.held {allowedReads allowedEffects : List Text}
    {encodedLength : WorkflowDefinition → Nat} {job : Job} {run : Run}
    (valid : job.definition.validate allowedReads allowedEffects encodedLength = .ok ())
    (reachable : job.Reachable run) {k : Nat} {step : StepDefinition}
    (at_ : job.current (run.executions k) = some step) {id : Text} (named : id ∈ referencedSteps step.input) :
    ∃ c, run.done.lookup id = some c ∧ (run.executions k).outputs.lookup id = some c.output := by
  obtain ⟨seen, seen', covers, round⟩ := validate_at valid (Job.current_split at_)
  obtain ⟨-, ⟨nodes, checked⟩, -⟩ := validateStep_ok round
  obtain ⟨schema, known⟩ := validateInputReference_named _ checked named
  obtain ⟨source, before, rfl, -⟩ := covers.schemas id schema known
  obtain ⟨output, held⟩ := reachable.full k source before
  obtain ⟨c, stored, rfl⟩ := (reachable.consistent.holds k).outputs _ output held
  exact ⟨c, stored, held⟩

/-! ## Two runs -/

section
variable {first second : Job} {answer : Text → Value → Value} {run₁ run₂ : Run}

/-- **Stored outputs that the walk clears are the same in both runs.** -/
theorem output_independent (same : first.definition = second.definition)
    (explained₁ : run₁.Explained first answer) (explained₂ : run₂.Explained second answer)
    {fuel : Nat} {reference : InputRef}
    (independent : usesRunInput first.definition fuel reference = false) {id : Text}
    (named : id ∈ referencedSteps reference) {c₁ c₂ : Checkpoint}
    (stored₁ : run₁.done.lookup id = some c₁) (stored₂ : run₂.done.lookup id = some c₂) :
    c₁.output = c₂.output := by
  induction fuel generalizing reference id c₁ c₂ with
  | zero => cases independent
  | succ fuel ih =>
    obtain ⟨step, found, deeper⟩ | ⟨item, deeper, inside⟩ := usesRunInput_named independent named
    · have listed := List.mem_of_find?_eq_some found
      have sameId : step.stepId = id := by simpa using List.find?_some found
      subst sameId
      obtain ⟨outputs₁, v₁, known₁, resolved₁, made₁⟩ := explained₁ step listed c₁ stored₁
      obtain ⟨outputs₂, v₂, known₂, resolved₂, made₂⟩ :=
        explained₂ step (same ▸ listed) c₂ stored₂
      -- the step resolved the same value from either run's outputs
      have congr : resolveInput step.input first.input outputs₁ =
          resolveInput step.input second.input outputs₂ := by
        refine resolveInput_congr deeper fun other consumed => ?_
        obtain ⟨o₁, held₁⟩ := resolveInput_named _ resolved₁ consumed
        obtain ⟨o₂, held₂⟩ := resolveInput_named _ resolved₂ consumed
        obtain ⟨d₁, there₁, rfl⟩ := known₁ other o₁ held₁
        obtain ⟨d₂, there₂, rfl⟩ := known₂ other o₂ held₂
        rw [held₁, held₂, ih deeper consumed there₁ there₂]
      rw [resolved₁, resolved₂] at congr
      cases congr
      rw [made₁] at made₂
      exact Except.ok.inj made₂
    · exact ih deeper inside stored₁ stored₂

/-- **A step that does not use the run input resolves the same input in any two runs**,
whatever their run inputs are. -/
theorem input_independent {allowedReads allowedEffects : List Text}
    {encodedLength : WorkflowDefinition → Nat}
    (valid : first.definition.validate allowedReads allowedEffects encodedLength = .ok ())
    (same : first.definition = second.definition)
    (reachable₁ : first.ReachableBy answer run₁) (reachable₂ : second.ReachableBy answer run₂)
    {step : StepDefinition} (independent : stepUsesRunInput first.definition step.stepId = false)
    {k₁ k₂ : Nat} (at₁ : first.current (run₁.executions k₁) = some step)
    (at₂ : second.current (run₂.executions k₂) = some step) :
    resolveInput step.input first.input (run₁.executions k₁).outputs =
      resolveInput step.input second.input (run₂.executions k₂).outputs := by
  have valid₂ : second.definition.validate allowedReads allowedEffects encodedLength = .ok () :=
    same ▸ valid
  have cleared : usesRunInput first.definition 65 step.input = false := by
    rw [stepUsesRunInput, find_step valid (List.mem_of_getElem? at₁)] at independent
    exact independent
  refine resolveInput_congr cleared fun id named => ?_
  obtain ⟨c₁, stored₁, held₁⟩ := reachable₁.reachable.held valid at₁ named
  obtain ⟨c₂, stored₂, held₂⟩ := reachable₂.reachable.held valid₂ at₂ named
  rw [held₁, held₂, output_independent same (reachable₁.explained valid)
    (reachable₂.explained valid₂) cleared named stored₁ stored₂]

end

/-! An effect on what a read returned, behind a step that does use the run input. -/

namespace Cleared

def readStep : StepDefinition where
  stepId := ['r']
  action := .mcpRead ['t']
  input := .literal .null
  inputSchema := .null
  outputSchema := .string 8
  timeoutSeconds := 30
  maxReadAttempts := 1

def noteStep : StepDefinition where
  stepId := ['n']
  action := .artifact []
  input := .runInput []
  inputSchema := .string 8
  outputSchema := .string 8
  timeoutSeconds := 30
  maxReadAttempts := 1

def effectStep : StepDefinition where
  stepId := ['e']
  action := .mcpEffect ['u'] ['m']
  input := .array [.stepOutput ['r'] [], .literal (.string ['x'])]
  inputSchema := .array (.string 8) 2
  outputSchema := .null
  timeoutSeconds := 30
  maxReadAttempts := 1

def workflow : WorkflowDefinition where
  schemaVersion := 1
  workflowId := ['w']
  revision := 1
  skillRevisionHash := ['h']
  inputSchema := .string 8
  outputSchema := .null
  requiredCapabilities := []
  steps := [readStep, noteStep, effectStep]

def job (input : Char) : Job := ⟨workflow, .string [input], 0, none⟩

def answer (_ : Text) (_ : Value) : Value := .string ['o']

def begun : Run := ⟨0, [], fun _ => {}⟩

def actions : List Action :=
  [.gate 0 true, .finish 0 (.string ['o']), .gate 0 true, .finish 0 .null]

theorem answered (input : Char) : (job input).ReachableBy answer (run (job input).step begun actions) := by
  refine ⟨begun, actions, ⟨Int.le_refl _, rfl, rfl⟩, ⟨trivial, ?_, trivial, ?_, trivial⟩, rfl⟩
  · intro step v _ _ _
    rfl
  · intro step v at_ asks _
    cases at_
    cases asks

theorem input_independent_letters : resolveInput effectStep.input (job 'a').input
        ((run (job 'a').step begun actions).executions 0).outputs =
      resolveInput effectStep.input (job 'b').input
        ((run (job 'b').step begun actions).executions 0).outputs := by
  have valid : workflow.validate [['t']] [['u']] (fun _ => 1000) = .ok () := rfl
  have same : (job 'a').definition = (job 'b').definition := rfl
  exact input_independent valid same (answered 'a') (answered 'b') rfl rfl rfl

end Cleared

end DuDuClaw.Workflow
