/-
# Workflow.Targets -- the record an effect changes

The pinning of effect targets in workflow/effect_targets.rs.  Each effect tool names
the argument that selects the record it changes, a template fixes that argument to one
id, and the definition must produce the id statically: from a literal, passed on by
identity, artifact or approval steps.

* `staticValue_sound`: what a reference yields statically it yields in every run.
* `pinned_target`: in every run the resolved input of a checked template's step is an
  object with the pinned id.
-/
import DuDuClaw.Workflow.Runner

namespace DuDuClaw.Workflow

open DuDuClaw.Lib

def tasksUpdate : Text := "tasks_update".toList

def updateCronTask : Text := "update_cron_task".toList

def nameKey : Text := "name".toList

/-- Effect tool and the argument that names the record it changes. -/
def effectTargets : List (Text × Text) :=
  [(tasksUpdate, "task_id".toList), (updateCronTask, "id".toList)]

def effectTargetParam (tool : Text) : Option Text := effectTargets.lookup tool

structure EffectTemplate where
  stepId : Text
  tool : Text
  resourceScope : List (Text × Value)

def templateTarget (template : EffectTemplate) : Except String (Text × Text) := do
  let param ← okOr (effectTargetParam template.tool)
    "workflow effect tool has no fixed target and cannot be an effect"
  let id ← okOr (((template.resourceScope.lookup param).bind Value.asStr).filter fun id => !isBlank id)
    "workflow effect target id must be fixed in the template scope"
  refuseIf (template.tool = updateCronTask ∧ (template.resourceScope.lookup nameKey).isSome)
    "workflow cron effect may not select by name"
  return (param, id)

/-- The value a reference yields at a pointer, where the definition itself fixes it;
`fuel` counts down where the source's depth counts up to 64. -/
def staticValue (d : WorkflowDefinition) : Nat → InputRef → Text → Option Value
  | 0, _, _ => none
  | fuel + 1, reference, pointer =>
    match reference with
    | .literal value => value.pointer pointer
    | .stepOutput stepId p =>
      match d.steps.find? (fun s => s.stepId == stepId) with
      | some step =>
        if step.action.passesThrough then staticValue d fuel step.input (p ++ pointer) else none
      | none => none
    | .runInput _ => none
    | .array _ => none

def checkStaticId (id : Text) : Option Value → Except String Unit
  | some (.string found) =>
    refuseIf (found ≠ id) "workflow effect target differs from the pinned id"
  | some _ => .error "workflow effect target differs from the pinned id"
  | none => .error "workflow effect target must be a fixed id, not a read result or run input"

/-- The static arguments are an object without a name. -/
def checkNoName : Option Value → Except String Unit
  | some (.object args) =>
    refuseIf (args.lookup nameKey).isSome "workflow cron effect may not select by name"
  | _ => .error "workflow cron effect may not select by name"

/-- The template pins a target and the step can only ever send that target. -/
def checkPinnedTarget (d : WorkflowDefinition) (template : EffectTemplate) : Except String Unit := do
  let (param, id) ← templateTarget template
  let step ← okOr (d.steps.find? fun s => s.stepId == template.stepId) "grant step missing"
  checkStaticId id (staticValue d 65 step.input ('/' :: param))
  if template.tool = updateCronTask then checkNoName (staticValue d 65 step.input [])

/-! ## Soundness -/

section
variable {allowedReads allowedEffects : List Text} {encodedLength : WorkflowDefinition → Nat}
  {d : WorkflowDefinition}

theorem reference_isPointer (valid : d.validate allowedReads allowedEffects encodedLength = .ok ())
    {step : StepDefinition} (listed : step ∈ d.steps) {stepId p : Text}
    (shape : step.input = .stepOutput stepId p) : Value.IsPointer p := by
  obtain ⟨front, back, at_⟩ := List.append_of_mem listed
  obtain ⟨seen, seen', -, round⟩ := validate_at valid at_
  obtain ⟨-, ⟨nodes, reference⟩, -⟩ := validateStep_ok round
  rw [shape] at reference
  unfold validateInputReference at reference
  obtain ⟨-, -, reference⟩ := bind_ok.mp reference
  obtain ⟨source, -, reference⟩ := bind_ok.mp reference
  obtain ⟨_, fit, -⟩ := bind_ok.mp reference
  obtain ⟨schema, pointed, -⟩ := checkFit_sound fit
  exact TypedSchema.atPointer_isPointer pointed

/-- Every stored output of a step that passes its input on has what the step's input
yields statically. -/
def PassedOn (d : WorkflowDefinition) (done : List (Text × Checkpoint)) : Prop :=
  ∀ step ∈ d.steps, step.action.passesThrough = true →
    ∀ c, done.lookup step.stepId = some c →
      ∀ fuel q v, Value.IsPointer q → staticValue d fuel step.input q = some v →
        c.output.pointer q = some v

/-- **What a reference yields statically it yields in every run**, as long as the outputs
it resolves from are stored ones. -/
theorem staticValue_sound (valid : d.validate allowedReads allowedEffects encodedLength = .ok ())
    {done : List (Text × Checkpoint)} (passedOn : PassedOn d done)
    {outputs : List (Text × Value)}
    (stored : ∀ id v, outputs.lookup id = some v → ∃ c, done.lookup id = some c ∧ c.output = v)
    {step : StepDefinition} (listed : step ∈ d.steps) {input resolved v : Value} {fuel : Nat}
    {q : Text} (run : resolveInput step.input input outputs = .ok resolved)
    (pointer : Value.IsPointer q) (static : staticValue d fuel step.input q = some v) :
    resolved.pointer q = some v := by
  cases fuel with
  | zero => cases static
  | succ fuel =>
    cases shape : step.input with
    | literal value =>
      rw [shape] at run static
      cases run
      exact static
    | stepOutput stepId p =>
      have isPointer := reference_isPointer valid listed shape
      rw [shape] at run static
      simp only [resolveInput, okOr_ok] at run
      obtain ⟨output, held, found⟩ := Option.bind_eq_some_iff.mp run
      obtain ⟨c, known, rfl⟩ := stored stepId output held
      simp only [staticValue] at static
      split at static
      · rename_i source sourceFound
        split at static
        · rename_i through
          have sameId : source.stepId = stepId := by simpa using List.find?_some sourceFound
          have whole := passedOn source (List.mem_of_find?_eq_some sourceFound) through c
            (sameId ▸ known) fuel (p ++ q) v (isPointer.append pointer) static
          rw [Value.pointer_append _ isPointer pointer, found] at whole
          exact whole
        · cases static
      · cases static
    | runInput p | array items => rw [shape] at static; cases static

theorem PassedOn.change {job : Job} {run run' : Run}
    (valid : job.definition.validate allowedReads allowedEffects encodedLength = .ok ())
    (fine : run.Consistent job) (passedOn : PassedOn job.definition run.done)
    (change : job.Change run run') : PassedOn job.definition run'.done := by
  cases change with
  | none | tick | start | gate | load => exact passedOn
  | store k step output at_ fresh passed =>
    intro other listed through c stored fuel q v pointer static
    rcases lookup_cons_cases stored with ⟨same, rfl⟩ | older
    · have here : step ∈ job.definition.steps := List.mem_of_getElem? at_
      have unique : other = step :=
        List.inj_on_of_nodup_map (validate_distinct valid) listed here same
      subst unique
      exact staticValue_sound valid passedOn (fine.holds k).outputs here (passed through) pointer
        static
    · exact passedOn other listed through c older fuel q v pointer static

theorem Job.Reachable.passedOn {job : Job} {run : Run} (reachable : job.Reachable run)
    (valid : job.definition.validate allowedReads allowedEffects encodedLength = .ok ()) :
    PassedOn job.definition run.done := by
  obtain ⟨first, actions, begins, rfl⟩ := reachable
  refine (run_invariant (fun run : Run => run.Consistent job ∧ PassedOn job.definition run.done)
    (fun run action both _ => ⟨both.1.change (job.step_change run action),
      both.2.change valid both.1 (job.step_change run action)⟩)
    ⟨Run.Consistent.begins begins, ?_⟩ (obeys_true first actions)).2
  intro step _ _ c stored
  rw [begins.2.1] at stored
  cases stored

end

/-- The arguments the tools name are plain field names. -/
theorem effectTargetParam_plain {tool param : Text} (found : effectTargetParam tool = some param) :
    '/' ∉ param ∧ '~' ∉ param ∧ Value.parseIndex param = none := by
  have listed := mem_of_lookup found
  simp only [effectTargets, List.mem_cons, Prod.mk.injEq, List.not_mem_nil, or_false] at listed
  rcases listed with ⟨-, rfl⟩ | ⟨-, rfl⟩ <;> decide

theorem checkStaticId_ok {id : Text} {found : Option Value} {u : Unit}
    (checked : checkStaticId id found = .ok u) : found = some (.string id) := by
  unfold checkStaticId at checked
  split at checked
  · simp only [refuseIf_ok, ne_eq, Decidable.not_not] at checked
    rw [checked]
  · cases checked
  · cases checked

theorem checkNoName_ok {found : Option Value} {u : Unit} (checked : checkNoName found = .ok u) :
    ∃ args, found = some (.object args) ∧ args.lookup nameKey = none := by
  unfold checkNoName at checked
  split at checked
  · rw [refuseIf_ok] at checked
    exact ⟨_, rfl, Option.not_isSome_iff_eq_none.mp checked⟩
  · cases checked

theorem templateTarget_param {template : EffectTemplate} {param id : Text}
    (target : templateTarget template = .ok (param, id)) : effectTargetParam template.tool = some param := by
  unfold templateTarget at target
  obtain ⟨param', known, target⟩ := bind_ok.mp target
  obtain ⟨id', -, target⟩ := bind_ok.mp target
  obtain ⟨-, -, target⟩ := bind_ok.mp target
  cases target
  exact okOr_ok.mp known

theorem checkPinnedTarget_ok {d : WorkflowDefinition} {template : EffectTemplate} {u : Unit}
    (pinned : checkPinnedTarget d template = .ok u) :
    ∃ param id step, templateTarget template = .ok (param, id) ∧
      d.steps.find? (fun s => s.stepId == template.stepId) = some step ∧
      staticValue d 65 step.input ('/' :: param) = some (.string id) ∧
      (template.tool = updateCronTask → ∃ args, staticValue d 65 step.input [] =
        some (.object args) ∧ args.lookup nameKey = none) := by
  unfold checkPinnedTarget at pinned
  obtain ⟨⟨param, id⟩, target, pinned⟩ := bind_ok.mp pinned
  obtain ⟨step, found, pinned⟩ := bind_ok.mp pinned
  obtain ⟨_, sameId, pinned⟩ := bind_ok.mp pinned
  refine ⟨param, id, step, target, okOr_ok.mp found, checkStaticId_ok sameId, fun cron => ?_⟩
  rw [if_pos cron] at pinned
  exact checkNoName_ok pinned

/-- **An effect changes the pinned record only.**  Whatever the run input, the reads, the
answers and the transforms are, the input that the template's step resolves to is an
object whose target argument is the pinned id, and which has no name where the tool could
select by it. -/
theorem pinned_target {allowedReads allowedEffects : List Text}
    {encodedLength : WorkflowDefinition → Nat} {job : Job} {run : Run} {k : Nat}
    {template : EffectTemplate} {step : StepDefinition} {v : Value}
    (valid : job.definition.validate allowedReads allowedEffects encodedLength = .ok ())
    (pinned : checkPinnedTarget job.definition template = .ok ()) (reachable : job.Reachable run)
    (listed : step ∈ job.definition.steps) (named : step.stepId = template.stepId)
    (resolved : resolveInput step.input job.input (run.executions k).outputs = .ok v) :
    ∃ param id fields, templateTarget template = .ok (param, id) ∧ v = .object fields ∧
      fields.lookup param = some (.string id) ∧
      (template.tool = updateCronTask → fields.lookup nameKey = none) := by
  obtain ⟨param, id, found, target, first, sameId, noName⟩ := checkPinnedTarget_ok pinned
  have unique := find_step valid listed
  rw [named, first] at unique
  obtain rfl := Option.some.inj unique
  have sound : ∀ q u, Value.IsPointer q → staticValue job.definition 65 found.input q = some u →
      v.pointer q = some u := fun q u pointer static =>
    staticValue_sound valid (reachable.passedOn valid) (reachable.consistent.holds k).outputs listed
      resolved pointer static
  obtain ⟨whole, plain, noIndex⟩ := effectTargetParam_plain (templateTarget_param target)
  obtain ⟨fields, rfl, here⟩ :=
    Value.object_of_pointer whole plain noIndex (sound _ _ (.inr ⟨param, rfl⟩) sameId)
  refine ⟨param, id, fields, target, rfl, here, fun cron => ?_⟩
  obtain ⟨args, static, absent⟩ := noName cron
  cases sound _ _ (.inl rfl) static
  exact absent

/-! An effect whose arguments come from a literal that an approval passes on. -/

namespace Pinned

def arguments : Value := .object [("id".toList, .string ['7']), (['p'], .bool true)]

def argumentSchema : TypedSchema :=
  .object [("id".toList, .string 8), (['p'], .boolean)] ["id".toList]

def approvalStep : StepDefinition where
  stepId := ['a']
  action := .approval []
  input := .literal (.object [(['x'], arguments)])
  inputSchema := .object [(['x'], argumentSchema)] [['x']]
  outputSchema := .object [(['x'], argumentSchema)] [['x']]
  timeoutSeconds := 30
  maxReadAttempts := 1

def effectStep : StepDefinition where
  stepId := ['e']
  action := .mcpEffect updateCronTask ['m']
  input := .stepOutput ['a'] ['/', 'x']
  inputSchema := argumentSchema
  outputSchema := .null
  timeoutSeconds := 30
  maxReadAttempts := 1

def workflow : WorkflowDefinition where
  schemaVersion := 1
  workflowId := ['w']
  revision := 1
  skillRevisionHash := ['h']
  inputSchema := .null
  outputSchema := .null
  requiredCapabilities := []
  steps := [approvalStep, effectStep]

def template : EffectTemplate := ⟨['e'], updateCronTask, [("id".toList, .string ['7'])]⟩

def job : Job := ⟨workflow, .null, 0, none⟩

def begun : Run := ⟨0, [], fun _ => {}⟩

def approved : Run := Lib.run job.step begun [.gate 0 true, .finish 0 .null]

theorem pinned_target_approved :
    resolveInput effectStep.input job.input (approved.executions 0).outputs = .ok arguments ∧
    ∃ param id fields, templateTarget template = .ok (param, id) ∧ arguments = .object fields ∧
      fields.lookup param = some (.string id) ∧
      (template.tool = updateCronTask → fields.lookup nameKey = none) := by
  have valid : workflow.validate [] [updateCronTask] (fun _ => 1000) = .ok () := rfl
  have resolved : resolveInput effectStep.input job.input (approved.executions 0).outputs =
      .ok arguments := rfl
  have reachable : job.Reachable approved := ⟨begun, _, ⟨Int.le_refl _, rfl, rfl⟩, rfl⟩
  have listed : effectStep ∈ job.definition.steps := by simp [job, workflow]
  exact ⟨resolved, pinned_target valid rfl reachable listed rfl resolved⟩

end Pinned

end DuDuClaw.Workflow
