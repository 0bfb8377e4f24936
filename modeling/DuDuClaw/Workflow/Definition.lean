/-
# Workflow.Definition -- workflow definitions and the input of a step

The definition of workflow/schema.rs, a sequence of typed steps whose inputs refer to
literals, to the run input and to the outputs of earlier steps; the validation a
definition passes before it is stored; and the resolution of a step's input in
runner/persist.rs.

The byte length of a definition's JSON is a parameter.

* `validateInputReference_sound`: a checked reference resolves to an accepted value.
* `validate_sound`: in a definition that passes validation every step's input resolves
  and is accepted, whatever accepted outputs the steps have.
-/
import DuDuClaw.Lib.Fallible
import DuDuClaw.Lib.Table
import DuDuClaw.Workflow.Schema

namespace DuDuClaw.Workflow

open DuDuClaw.Lib

/-! ## References -/

inductive InputRef where
  | literal (value : Value)
  | array (items : List InputRef)
  | runInput (pointer : Text)
  | stepOutput (stepId pointer : Text)

section
variable (runInput : TypedSchema) (outputs : List (Text × TypedSchema))

def checkFit (source : Except String TypedSchema) (destination : TypedSchema)
    (message : String) : Except String Unit := do
  let schema ← source
  refuseIf (schema.fits destination = false) message

mutual

/-- The result is the number of reference nodes seen so far. -/
def validateInputReference (reference : InputRef) (destination : TypedSchema)
    (depth nodes : Nat) : Except String Nat := do
  let nodes := nodes + 1
  refuseIf (depth > 32 ∨ nodes > 256) "workflow reference bounds exceeded"
  match reference with
  | .literal value => do
    destination.validate value
    return nodes
  | .runInput pointer => do
    checkFit (runInput.atPointer pointer) destination "workflow input reference type mismatch"
    return nodes
  | .stepOutput stepId pointer => do
    let source ← okOr (outputs.lookup stepId) "invalid forward/cyclic workflow reference"
    checkFit (source.atPointer pointer) destination "workflow step reference type mismatch"
    return nodes
  | .array items =>
    match destination with
    | .array itemSchema maxItems => do
      refuseIf (items.length > 64 ∨ items.length > maxItems) "workflow array reference items exceeded"
      validateItems items itemSchema (depth + 1) nodes
    | _ => .error "workflow array reference requires array schema"

def validateItems (items : List InputRef) (itemSchema : TypedSchema) (depth nodes : Nat) :
    Except String Nat :=
  match items with
  | [] => .ok nodes
  | item :: rest => do
    let nodes ← validateInputReference item itemSchema depth nodes
    validateItems rest itemSchema depth nodes

end

end

mutual

def resolveInput (reference : InputRef) (input : Value) (outputs : List (Text × Value)) :
    Except String Value :=
  match reference with
  | .array items => (resolveItems items input outputs).map Value.array
  | .literal value => .ok value
  | .runInput pointer => okOr (input.pointer pointer) "workflow run input reference missing"
  | .stepOutput stepId pointer =>
    okOr ((outputs.lookup stepId).bind fun v => v.pointer pointer)
      "workflow step output reference missing"

def resolveItems (items : List InputRef) (input : Value) (outputs : List (Text × Value)) :
    Except String (List Value) :=
  match items with
  | [] => .ok []
  | item :: rest => do
    let value ← resolveInput item input outputs
    let values ← resolveItems rest input outputs
    return value :: values

end

/-! ## Definitions -/

inductive ProcessTransform where
  | identity
  | collect
  | summary

inductive StepAction where
  | mcpRead (tool : Text)
  | mcpEffect (tool templateId : Text)
  | process (transform : ProcessTransform)
  | artifact (label : Text)
  | approval (summary : Text)
  | question (summary : Text)

/-- Identity, artifact and approval steps, whose output is their input. -/
def StepAction.passesThrough : StepAction → Bool
  | .process .identity => true
  | .artifact _ => true
  | .approval _ => true
  | _ => false

structure StepDefinition where
  stepId : Text
  action : StepAction
  input : InputRef
  inputSchema : TypedSchema
  outputSchema : TypedSchema
  timeoutSeconds : Nat
  maxReadAttempts : Nat

structure WorkflowDefinition where
  schemaVersion : Nat
  workflowId : Text
  revision : Int
  skillRevisionHash : Text
  inputSchema : TypedSchema
  outputSchema : TypedSchema
  requiredCapabilities : List Text
  steps : List StepDefinition

/-- What the validation loop has seen of the steps before. -/
structure Checked where
  previous : List Text := []
  outputSchemas : List (Text × TypedSchema) := []
  referenceNodes : Nat := 0

section
variable (allowedReads allowedEffects : List Text)

def StepDefinition.checkBounds (step : StepDefinition) (previous : List Text) :
    Except String Unit :=
  refuseIf
    (step.stepId = [] ∨ byteLength step.stepId > 64 ∨
      step.stepId.all (fun c => c.isAlphanum || c == '_' || c == '-') = false ∨
      previous.contains step.stepId ∨ ¬(1 ≤ step.timeoutSeconds ∧ step.timeoutSeconds ≤ 240) ∨
      ¬(1 ≤ step.maxReadAttempts ∧ step.maxReadAttempts ≤ 3))
    "invalid workflow step bounds"

def StepAction.checkTool : StepAction → Except String Unit
  | .mcpRead tool => refuseIf (allowedReads.contains tool = false) "unsupported workflow read tool"
  | .mcpEffect tool templateId =>
    refuseIf (allowedEffects.contains tool = false ∨ templateId = []) "unsupported workflow effect tool"
  | _ => .ok ()

/-- One round of the loop over the steps. -/
def validateStep (inputSchema : TypedSchema) (seen : Checked) (step : StepDefinition) :
    Except String Checked := do
  step.checkBounds seen.previous
  step.inputSchema.validateDefinition 0
  step.outputSchema.validateDefinition 0
  step.action.checkTool allowedReads allowedEffects
  let nodes ← validateInputReference inputSchema seen.outputSchemas step.input step.inputSchema 0
    seen.referenceNodes
  refuseIf (step.action.passesThrough ∧ step.inputSchema.fits step.outputSchema = false)
    "workflow identity output type mismatch"
  return {
    previous := step.stepId :: seen.previous
    outputSchemas := (step.stepId, step.outputSchema) :: seen.outputSchemas
    referenceNodes := nodes }

/-- `encodedLength` is the length of the definition's JSON. -/
def WorkflowDefinition.validate (encodedLength : WorkflowDefinition → Nat)
    (d : WorkflowDefinition) : Except String Unit := do
  refuseIf (d.schemaVersion ≠ 1 ∨ d.revision < 1 ∨ d.workflowId = [] ∨ d.skillRevisionHash = [] ∨
    d.steps = [] ∨ d.steps.length > maxSteps) "invalid workflow definition bounds"
  refuseIf (encodedLength d > maxJsonBytes) "workflow definition byte bound exceeded"
  d.inputSchema.validateDefinition 0
  d.outputSchema.validateDefinition 0
  let _ ← d.steps.foldlM (validateStep allowedReads allowedEffects d.inputSchema) {}
  -- the first check leaves a last step
  match d.steps.getLast? with
  | some last =>
    refuseIf (last.outputSchema.fits d.outputSchema = false) "workflow final output type mismatch"
  | none => .ok ()

end

/-! ## Soundness -/

section
variable {runInput : TypedSchema} {outputs : List (Text × TypedSchema)}

theorem checkFit_sound {source : Except String TypedSchema} {destination : TypedSchema}
    {message : String} {u : Unit} (checked : checkFit source destination message = .ok u) :
    ∃ schema, source = .ok schema ∧ schema.fits destination = true := by
  obtain ⟨schema, found, fit⟩ := bind_ok.mp checked
  exact ⟨schema, found, by simpa using fit⟩

/-- Every schema of a step before is that of a value it accepts. -/
def Assigned (outputs : List (Text × TypedSchema)) (values : List (Text × Value)) : Prop :=
  ∀ id schema, outputs.lookup id = some schema →
    ∃ v, values.lookup id = some v ∧ schema.accepts v = true

variable {input : Value} {values : List (Text × Value)}

mutual

/-- A checked reference resolves to a value that its destination accepts. -/
theorem validateInputReference_sound (reference : InputRef) {destination : TypedSchema}
    {depth nodes seen : Nat} (accepted : runInput.accepts input = true) (typed : Assigned outputs values)
    (checked : validateInputReference runInput outputs reference destination depth nodes = .ok seen) :
    ∃ v, resolveInput reference input values = .ok v ∧ destination.accepts v = true := by
  unfold validateInputReference at checked
  obtain ⟨-, -, checked⟩ := bind_ok.mp checked
  cases reference with
  | literal value =>
    obtain ⟨⟨⟩, valid, -⟩ := bind_ok.mp checked
    exact ⟨value, rfl, TypedSchema.validate_ok.mp valid⟩
  | runInput pointer =>
    obtain ⟨_, fit, -⟩ := bind_ok.mp checked
    obtain ⟨schema, pointed, fit⟩ := checkFit_sound fit
    obtain ⟨v, found, inner⟩ := TypedSchema.atPointer_sound pointed accepted
    refine ⟨v, ?_, TypedSchema.fits_sound _ _ v fit inner⟩
    rw [resolveInput, found]
    rfl
  | stepOutput stepId pointer =>
    obtain ⟨source, known, checked⟩ := bind_ok.mp checked
    obtain ⟨_, fit, -⟩ := bind_ok.mp checked
    obtain ⟨schema, pointed, fit⟩ := checkFit_sound fit
    obtain ⟨output, assigned, fine⟩ := typed stepId source (okOr_ok.mp known)
    obtain ⟨v, found, inner⟩ := TypedSchema.atPointer_sound pointed fine
    refine ⟨v, ?_, TypedSchema.fits_sound _ _ v fit inner⟩
    rw [resolveInput, assigned, Option.bind_some, found]
    rfl
  | array items =>
    cases destination with
    | array itemSchema maxItems =>
      obtain ⟨_, short, checked⟩ := bind_ok.mp checked
      obtain ⟨vs, resolved, all, same⟩ := validateItems_sound items accepted typed checked
      refine ⟨.array vs, by rw [resolveInput, resolved]; rfl, ?_⟩
      rw [TypedSchema.accepts]
      simp only [refuseIf_ok, not_or, Nat.not_lt] at short
      simp only [Value.asArray, Option.any_some, Bool.and_eq_true, decide_eq_true_eq, List.all_eq_true]
      exact ⟨by omega, all⟩
    | _ => cases checked

theorem validateItems_sound (items : List InputRef) {itemSchema : TypedSchema}
    {depth nodes seen : Nat} (accepted : runInput.accepts input = true) (typed : Assigned outputs values)
    (checked : validateItems runInput outputs items itemSchema depth nodes = .ok seen) :
    ∃ vs, resolveItems items input values = .ok vs ∧ (∀ v ∈ vs, itemSchema.accepts v = true) ∧
      vs.length = items.length := by
  cases items with
  | nil => exact ⟨[], rfl, by simp, rfl⟩
  | cons item rest =>
    rw [validateItems] at checked
    obtain ⟨nodes', first, checked⟩ := bind_ok.mp checked
    obtain ⟨v, resolved, fine⟩ := validateInputReference_sound item accepted typed first
    obtain ⟨vs, others, all, same⟩ := validateItems_sound rest accepted typed checked
    refine ⟨v :: vs, ?_, ?_, by simp [same]⟩
    · rw [resolveItems, resolved, others]
      rfl
    · simpa using ⟨fine, all⟩

end

end

structure Checked.Covers (seen : Checked) (done : List StepDefinition) : Prop where
  schemas : ∀ id schema, seen.outputSchemas.lookup id = some schema →
    ∃ step ∈ done, step.stepId = id ∧ step.outputSchema = schema
  ids : ∀ step ∈ done, step.stepId ∈ seen.previous
  distinct : (done.map StepDefinition.stepId).Nodup

section
variable {allowedReads allowedEffects : List Text} {inputSchema : TypedSchema}

variable {seen seen' last : Checked} {step : StepDefinition}

theorem validateStep_ok (round : validateStep allowedReads allowedEffects inputSchema seen step = .ok seen') :
    step.stepId ∉ seen.previous ∧
      (∃ nodes, validateInputReference inputSchema seen.outputSchemas step.input step.inputSchema 0
        seen.referenceNodes = .ok nodes) ∧
      (step.action.passesThrough = true → step.inputSchema.fits step.outputSchema = true) ∧
      seen'.previous = step.stepId :: seen.previous ∧
      seen'.outputSchemas = (step.stepId, step.outputSchema) :: seen.outputSchemas := by
  unfold validateStep at round
  obtain ⟨_, bounds, round⟩ := bind_ok.mp round
  obtain ⟨-, -, round⟩ := bind_ok.mp round
  obtain ⟨-, -, round⟩ := bind_ok.mp round
  obtain ⟨-, -, round⟩ := bind_ok.mp round
  obtain ⟨nodes, reference, round⟩ := bind_ok.mp round
  obtain ⟨_, passed, round⟩ := bind_ok.mp round
  cases round
  simp only [StepDefinition.checkBounds, refuseIf_ok, not_or] at bounds
  simp only [refuseIf_ok, not_and, Bool.not_eq_false] at passed
  have fresh : step.stepId ∉ seen.previous := by simpa using bounds.2.2.2.1
  exact ⟨fresh, ⟨nodes, reference⟩, passed, rfl, rfl⟩

theorem validateStep_covers {done : List StepDefinition} (covers : seen.Covers done)
    (round : validateStep allowedReads allowedEffects inputSchema seen step = .ok seen') :
    seen'.Covers (done ++ [step]) := by
  obtain ⟨fresh, -, -, previous, schemas⟩ := validateStep_ok round
  refine ⟨fun id schema found => ?_, fun other listed => ?_, ?_⟩
  · rw [schemas] at found
    rcases lookup_cons_cases found with ⟨rfl, rfl⟩ | older
    · exact ⟨step, by simp, rfl, rfl⟩
    · obtain ⟨other, listed, facts⟩ := covers.schemas id schema older
      exact ⟨other, List.mem_append_left _ listed, facts⟩
  · rw [previous]
    rcases List.mem_append.mp listed with before | this
    · exact List.mem_cons_of_mem _ (covers.ids other before)
    · rw [List.mem_singleton.mp this]
      exact List.mem_cons_self
  · apply nodup_map_concat covers.distinct
    intro other listed same
    exact fresh (same ▸ covers.ids other listed)

theorem loop_covers {steps : List StepDefinition}
    (run : steps.foldlM (validateStep allowedReads allowedEffects inputSchema) {} = .ok last) :
    last.Covers steps := by
  refine foldlM_run (fun done seen => seen.Covers done) ⟨nofun, nofun, List.nodup_nil⟩ ?_ run
  exact fun done st x st' covers stepped => validateStep_covers covers stepped

/-- The loop reaches each step knowing the steps before it. -/
theorem validate_reaches {front back : List StepDefinition}
    (run : (front ++ step :: back).foldlM (validateStep allowedReads allowedEffects inputSchema) {} =
      .ok last) :
    ∃ seen seen', seen.Covers front ∧
      validateStep allowedReads allowedEffects inputSchema seen step = .ok seen' := by
  obtain ⟨seen, seen', first, round⟩ := foldlM_at run
  exact ⟨seen, seen', loop_covers first, round⟩

variable {encodedLength : WorkflowDefinition → Nat} {d : WorkflowDefinition}

variable {front back : List StepDefinition} {step : StepDefinition}

theorem validate_ok (valid : d.validate allowedReads allowedEffects encodedLength = .ok ()) :
    (∃ last, d.steps.foldlM (validateStep allowedReads allowedEffects d.inputSchema) {} = .ok last) ∧
      ∃ step, d.steps.getLast? = some step ∧ step.outputSchema.fits d.outputSchema = true := by
  unfold WorkflowDefinition.validate at valid
  obtain ⟨_, bounds, valid⟩ := bind_ok.mp valid
  obtain ⟨-, -, valid⟩ := bind_ok.mp valid
  obtain ⟨-, -, valid⟩ := bind_ok.mp valid
  obtain ⟨-, -, valid⟩ := bind_ok.mp valid
  obtain ⟨last, run, valid⟩ := bind_ok.mp valid
  simp only [refuseIf_ok, not_or] at bounds
  refine ⟨⟨last, run⟩, ?_⟩
  split at valid
  · rename_i step ends
    exact ⟨step, ends, by simpa using valid⟩
  · rename_i empty
    exact absurd (List.getLast?_eq_none_iff.mp empty) bounds.2.2.2.2.1

/-- Validation reaches each step knowing the steps before it. -/
theorem validate_at (valid : d.validate allowedReads allowedEffects encodedLength = .ok ())
    (at_ : d.steps = front ++ step :: back) : ∃ seen seen', seen.Covers front ∧
      validateStep allowedReads allowedEffects d.inputSchema seen step = .ok seen' := by
  obtain ⟨⟨last, run⟩, -⟩ := validate_ok valid
  rw [at_] at run
  exact validate_reaches run

theorem validate_distinct (valid : d.validate allowedReads allowedEffects encodedLength = .ok ()) :
    (d.steps.map StepDefinition.stepId).Nodup := by
  obtain ⟨⟨last, run⟩, -⟩ := validate_ok valid
  exact (loop_covers run).distinct

theorem find_step (valid : d.validate allowedReads allowedEffects encodedLength = .ok ())
    (listed : step ∈ d.steps) : d.steps.find? (fun s => s.stepId == step.stepId) = some step :=
  (⟨d.steps, validate_distinct valid⟩ : Table StepDefinition.stepId).find?_key listed

/-- A step's input resolves from the outputs of the steps before it. -/
theorem step_sound (valid : d.validate allowedReads allowedEffects encodedLength = .ok ())
    (at_ : d.steps = front ++ step :: back) {input : Value}
    (accepted : d.inputSchema.accepts input = true) {outputs : List (Text × Value)}
    (typed : ∀ before ∈ front, ∃ v, outputs.lookup before.stepId = some v ∧
      before.outputSchema.accepts v = true) :
    ∃ v, resolveInput step.input input outputs = .ok v ∧ step.inputSchema.accepts v = true ∧
      (step.action.passesThrough = true → step.outputSchema.accepts v = true) := by
  obtain ⟨seen, seen', covers, round⟩ := validate_at valid at_
  obtain ⟨-, ⟨nodes, reference⟩, passes, -⟩ := validateStep_ok round
  have assigned : Assigned seen.outputSchemas outputs := by
    intro id schema found
    obtain ⟨before, listed, rfl, rfl⟩ := covers.schemas id schema found
    exact typed before listed
  obtain ⟨v, resolved, fine⟩ := validateInputReference_sound step.input accepted assigned reference
  exact ⟨v, resolved, fine, fun through => TypedSchema.fits_sound _ _ v (passes through) fine⟩

/-- **A validated workflow does not go wrong.**  Whatever accepted outputs the steps have,
each step's input resolves to a value its schema accepts, a step that passes its input on
passes on an accepted output, and the last output is one of the workflow's. -/
theorem validate_sound (valid : d.validate allowedReads allowedEffects encodedLength = .ok ())
    (input : Value) (accepted : d.inputSchema.validate input = .ok ()) (outputs : List (Text × Value))
    (typed : ∀ step ∈ d.steps, ∃ v, outputs.lookup step.stepId = some v ∧
      step.outputSchema.validate v = .ok ()) :
    (∀ step ∈ d.steps, ∃ v, resolveInput step.input input outputs = .ok v ∧
      step.inputSchema.validate v = .ok () ∧
      (step.action.passesThrough = true → step.outputSchema.validate v = .ok ())) ∧
    ∃ last v, d.steps.getLast? = some last ∧ outputs.lookup last.stepId = some v ∧
      d.outputSchema.validate v = .ok () := by
  simp only [TypedSchema.validate_ok] at accepted typed ⊢
  refine ⟨fun step listed => ?_, ?_⟩
  · obtain ⟨front, back, at_⟩ := List.append_of_mem listed
    refine step_sound valid at_ accepted fun before earlier => ?_
    exact typed before (at_ ▸ List.mem_append_left _ earlier)
  · obtain ⟨-, last, ends, fit⟩ := validate_ok valid
    obtain ⟨v, assigned, fine⟩ := typed last (List.mem_of_getLast? ends)
    exact ⟨last, v, ends, assigned, TypedSchema.fits_sound _ _ v fit fine⟩

end

/-! A workflow that reads a task, asks for a decision on its owner and reports both. -/

namespace Sample

def taskSchema : TypedSchema :=
  .object [(['o', '/', 'n'], .string 8), (['n'], .nullable .integer)] [['o', '/', 'n']]

def readStep : StepDefinition where
  stepId := ['r']
  action := .mcpRead ['t']
  input := .runInput ['/', 'i']
  inputSchema := .string 16
  outputSchema := taskSchema
  timeoutSeconds := 30
  maxReadAttempts := 3

def askStep : StepDefinition where
  stepId := ['a']
  action := .approval []
  input := .stepOutput ['r'] ['/', 'o', '~', '1', 'n']
  inputSchema := .string 12
  outputSchema := .nullable (.string 12)
  timeoutSeconds := 30
  maxReadAttempts := 1

def reportStep : StepDefinition where
  stepId := ['s']
  action := .process .summary
  input := .array [.stepOutput ['r'] [], .literal (.object [(['o', '/', 'n'], .string [])])]
  inputSchema := .array taskSchema 4
  outputSchema := .object [(['n'], .integer)] [['n']]
  timeoutSeconds := 30
  maxReadAttempts := 1

def workflow : WorkflowDefinition where
  schemaVersion := 1
  workflowId := ['w']
  revision := 1
  skillRevisionHash := ['h']
  inputSchema := .object [(['i'], .string 8)] [['i']]
  outputSchema := .object [(['n'], .number)] []
  requiredCapabilities := []
  steps := [readStep, askStep, reportStep]

def input : Value := .object [(['i'], .string ['7'])]

def outputs : List (Text × Value) :=
  [(['s'], .object [(['n'], .number (.posInt 2))]), (['a'], .null),
    (['r'], .object [(['n'], .null), (['o', '/', 'n'], .string ['m', 'e'])])]

theorem validate_sound_sample : (∀ step ∈ workflow.steps, ∃ v, resolveInput step.input input outputs = .ok v ∧
      step.inputSchema.validate v = .ok () ∧
      (step.action.passesThrough = true → step.outputSchema.validate v = .ok ())) ∧
    ∃ last v, workflow.steps.getLast? = some last ∧ outputs.lookup last.stepId = some v ∧
      workflow.outputSchema.validate v = .ok () := by
  have valid : workflow.validate [['t']] [] (fun _ => 1000) = .ok () := rfl
  refine validate_sound valid input rfl outputs fun step listed => ?_
  simp only [workflow, List.mem_cons, List.not_mem_nil, or_false] at listed
  rcases listed with rfl | rfl | rfl
  · exact ⟨_, rfl, rfl⟩
  · exact ⟨_, rfl, rfl⟩
  · exact ⟨_, rfl, rfl⟩

end Sample

end DuDuClaw.Workflow
