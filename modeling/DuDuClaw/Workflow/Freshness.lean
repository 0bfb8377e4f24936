/-
# Workflow.Freshness -- the age of what feeds an effect

Before an effect the runner's gate compares the observation times of the reads that the
effect's own input names with the grant's maximal age, and the run input's time where
the input depends on it through any chain of steps.  A read can also reach the effect
through process, artifact and approval steps, which the gate does not look through.

* `gate_fresh`: where the effect depends on the run input, or names each read that
  flows into it or an earlier read, the gate lets no read pass that is too old.
* `waited_read_passes`: a read handed on by an approval passes however old it is.
-/
import DuDuClaw.Workflow.Runner

namespace DuDuClaw.Workflow

open DuDuClaw.Lib

/-- Process, artifact and approval steps, whose output is made of their input. -/
def StepAction.carries : StepAction → Bool
  | .process _ => true
  | .artifact _ => true
  | .approval _ => true
  | _ => false

/-- The output of the read flows into the reference, directly or through a chain of
steps that carry their input on. -/
inductive Flows (d : WorkflowDefinition) : InputRef → StepDefinition → Prop
  | read {reference : InputRef} {read : StepDefinition} {id : Text}
      (named : id ∈ referencedSteps reference)
      (found : d.steps.find? (fun s => s.stepId == id) = some read)
      (isRead : read.action.isRead = true) : Flows d reference read
  | carried {reference : InputRef} {step read : StepDefinition} {id : Text}
      (named : id ∈ referencedSteps reference)
      (found : d.steps.find? (fun s => s.stepId == id) = some step)
      (carries : step.action.carries = true) (inner : Flows d step.input read) :
      Flows d reference read

/-- For each read that flows into the step, its own input names that read or an earlier
one. -/
def NamesFirstReads (d : WorkflowDefinition) (step : StepDefinition) : Prop :=
  ∀ read, Flows d step.input read → ∃ front named back, d.steps = front ++ named :: back ∧
    named.action.isRead = true ∧ named.stepId ∈ referencedSteps step.input ∧
    (read = named ∨ read ∈ back)

section
variable {allowedReads allowedEffects : List Text} {encodedLength : WorkflowDefinition → Nat}
  {d : WorkflowDefinition}

theorem named_before (valid : d.validate allowedReads allowedEffects encodedLength = .ok ())
    {front back : List StepDefinition} {step other : StepDefinition} {id : Text}
    (at_ : d.steps = front ++ step :: back) (named : id ∈ referencedSteps step.input)
    (found : d.steps.find? (fun s => s.stepId == id) = some other) : other ∈ front := by
  obtain ⟨seen, seen', covers, round⟩ := validate_at valid at_
  obtain ⟨-, ⟨nodes, reference⟩, -⟩ := validateStep_ok round
  obtain ⟨schema, known⟩ := validateInputReference_named step.input reference named
  obtain ⟨before, listed, same, -⟩ := covers.schemas id schema known
  have inSteps : before ∈ d.steps := by
    rw [at_]
    exact List.mem_append_left _ listed
  have first := find_step valid inSteps
  rw [same, found] at first
  exact Option.some.inj first ▸ listed

theorem flows_before (valid : d.validate allowedReads allowedEffects encodedLength = .ok ())
    {reference : InputRef} {read : StepDefinition} (flows : Flows d reference read) :
    ∀ front step back, d.steps = front ++ step :: back → step.input = reference →
      read ∈ front ∧ read.action.isRead = true := by
  induction flows with
  | read named found isRead =>
    intro front step back at_ same
    exact ⟨named_before valid at_ (same ▸ named) found, isRead⟩
  | carried named found carries inner ih =>
    intro front step back at_ same
    have earlier := named_before valid at_ (same ▸ named) found
    obtain ⟨front', back', split⟩ := List.append_of_mem earlier
    have at' := at_
    rw [split, List.append_assoc, List.cons_append] at at'
    obtain ⟨listed, isRead⟩ := ih front' _ _ at' rfl
    exact ⟨split ▸ List.mem_append_left _ listed, isRead⟩

end

/-- Steps are stored in order: the steps before a stored one were stored no later. -/
def Run.Ordered (job : Job) (run : Run) : Prop :=
  ∀ front step back, job.definition.steps = front ++ step :: back →
    ∀ c, run.done.lookup step.stepId = some c →
      ∀ before ∈ front, ∃ c', run.done.lookup before.stepId = some c' ∧
        c'.observedAt ≤ c.observedAt

theorem Run.Ordered.change {job : Job} {run run' : Run}
    (distinct : (job.definition.steps.map StepDefinition.stepId).Nodup)
    (fine : run.Consistent job) (ordered : run.Ordered job) (change : job.Change run run') :
    run'.Ordered job := by
  cases change with
  | none | tick | start | gate | load => exact ordered
  | store k step output at_ fresh passed =>
    intro front later back split c stored before earlier
    rcases lookup_cons_cases stored with ⟨same, rfl⟩ | older
    · -- the new checkpoint: the execution stored or loaded every step before
      have here := Job.current_split at_
      have unique : later = step := by
        apply List.inj_on_of_nodup_map distinct _ _ same
        · rw [split]; simp
        · rw [here]; simp
      subst unique
      have once : (front ++ later :: back).Nodup := split ▸ List.Nodup.of_map _ distinct
      have alone := (List.nodup_cons.mp (List.nodup_middle.mp once)).1
      rw [List.mem_append, not_or] at alone
      obtain ⟨same, -⟩ :=
        (List.append_cons_inj_of_notMem alone.1 alone.2).mp (split.symm.trans here)
      rw [same] at earlier
      obtain ⟨c', known⟩ := (fine.holds k).behind before earlier
      exact ⟨c', lookup_kept fresh known, (fine.times _ c' known).2⟩
    · obtain ⟨c', known, order⟩ := ordered front later back split c older before earlier
      exact ⟨c', lookup_kept fresh known, order⟩

theorem Job.Reachable.ordered {allowedReads allowedEffects : List Text}
    {encodedLength : WorkflowDefinition → Nat} {job : Job} {run : Run} (reachable : job.Reachable run)
    (valid : job.definition.validate allowedReads allowedEffects encodedLength = .ok ()) : run.Ordered job := by
  obtain ⟨first, actions, begins, rfl⟩ := reachable
  refine (run_invariant (fun run : Run => run.Consistent job ∧ run.Ordered job)
    (fun run action both _ => ⟨both.1.change (job.step_change run action),
      both.2.change (validate_distinct valid) both.1 (job.step_change run action)⟩)
    ⟨Run.Consistent.begins begins, ?_⟩ (obeys_true first actions)).2
  intro front step back _ c stored
  rw [begins.2.1] at stored
  cases stored

theorem guardGrant_ok {now maxAge inputObservedAt : Int} {point : GuardPoint} {u : Unit}
    (passed : guardGrant now maxAge inputObservedAt point = .ok u) :
    (point.inputFreshness = true → ¬stale now maxAge inputObservedAt) ∧
      ∀ observed ∈ point.readObservations, ¬stale now maxAge observed := by
  unfold guardGrant at passed
  obtain ⟨_, input, reads⟩ := bind_ok.mp passed
  simp only [refuseIf_ok, not_and, not_exists] at input reads
  exact ⟨input, reads⟩

/-- **The gate lets no read pass that is too old**, where the effect depends on the run
input or names every read that flows into it. -/
theorem gate_fresh {allowedReads allowedEffects : List Text}
    {encodedLength : WorkflowDefinition → Nat} {job : Job} {run : Run} {k : Nat} {pending : Bool}
    {step : StepDefinition} {maxAge : Int} (granted : job.inputMaxAge = some maxAge)
    (valid : job.definition.validate allowedReads allowedEffects encodedLength = .ok ())
    (reachable : job.Reachable run) (at_ : job.current (run.executions k) = some step)
    (effect : step.action.isEffect = true) (covered : stepUsesRunInput job.definition step.stepId = true ∨
      NamesFirstReads job.definition step)
    (passed : job.gate run k pending step = .ok ()) : ∀ read, Flows job.definition step.input read →
      ∃ c, run.done.lookup read.stepId = some c ∧ run.clock - c.observedAt ≤ maxAge := by
  intro read flows
  have fine := reachable.consistent
  unfold Job.gate at passed
  rw [granted] at passed
  obtain ⟨inputFresh, readsFresh⟩ := guardGrant_ok passed
  have split := Job.current_split at_
  -- what this execution holds of a read is the time its checkpoint says
  have observed : ∀ other ∈ job.definition.steps.take (run.executions k).position,
      other.action.isRead = true → ∃ c, run.done.lookup other.stepId = some c ∧
        (run.executions k).readTimes.lookup other.stepId = some c.observedAt := by
    intro other before isRead
    obtain ⟨t, held⟩ := (fine.holds k).reads other before isRead
    obtain ⟨c, stored, rfl⟩ := (fine.holds k).times other.stepId t held
    exact ⟨c, stored, held⟩
  obtain ⟨before, isRead⟩ := flows_before valid flows _ _ _ split rfl
  obtain ⟨c, stored, held⟩ := observed read before isRead
  refine ⟨c, stored, ?_⟩
  rcases covered with uses | names
  · have fresh : ¬stale run.clock maxAge job.inputObservedAt :=
      inputFresh (by simp [guardPoint, effect, uses])
    have order := (fine.times read.stepId c stored).1
    unfold stale at fresh
    omega
  obtain ⟨front, named, back, at', namedRead, listed, order⟩ := names read flows
  have found := find_step valid (by rw [at']; simp : named ∈ job.definition.steps)
  have ahead := named_before valid split listed found
  obtain ⟨c', stored', held'⟩ := observed named ahead namedRead
  have fresh : ¬stale run.clock maxAge c'.observedAt := by
    apply readsFresh
    simp only [guardPoint, effect, if_true, List.mem_filterMap]
    exact ⟨named.stepId, listed, held'⟩
  have sooner : c'.observedAt ≤ c.observedAt := by
    rcases order with rfl | behind
    · rw [stored] at stored'
      exact Option.some.inj stored' ▸ Int.le_refl _
    obtain ⟨middle, rest, split'⟩ := List.append_of_mem behind
    obtain ⟨c'', known, order⟩ := (reachable.ordered valid) (front ++ named :: middle) read rest
      (by rw [at', split']; simp) c stored named (by simp)
    rw [stored'] at known
    exact Option.some.inj known ▸ order
  unfold stale at fresh
  omega

/-! A task is read, a person approves what was read, and the task is updated. -/

namespace Waiting

def stepOf (id : Char) (action : StepAction) (input : InputRef) : StepDefinition where
  stepId := [id]
  action := action
  input := input
  inputSchema := .nullable (.string 8)
  outputSchema := .nullable (.string 8)
  timeoutSeconds := 30
  maxReadAttempts := 1

def readStep : StepDefinition := stepOf 'r' (.mcpRead ['t']) (.literal .null)

def approvalStep : StepDefinition := stepOf 'a' (.approval []) (.stepOutput ['r'] [])

variable (source : Char)

/-- The effect's input is the output of the given step. -/
def effectStep : StepDefinition :=
  stepOf 'e' (.mcpEffect ['u'] ['m']) (.stepOutput [source] [])

def workflow : WorkflowDefinition where
  schemaVersion := 1
  workflowId := ['w']
  revision := 1
  skillRevisionHash := ['h']
  inputSchema := .null
  outputSchema := .nullable (.string 8)
  requiredCapabilities := []
  steps := [readStep, approvalStep, effectStep source]

/-- Reads may be a minute old. -/
def job : Job where
  definition := workflow source
  input := .null
  inputObservedAt := 0
  inputMaxAge := some 60000000000

def begun : Run := ⟨0, [], fun _ => {}⟩

/-- The read is made at once; the approval comes after `wait` nanoseconds. -/
def actions (wait : Int) : List Action :=
  [.start 0, .gate 0 true, .finish 0 (.string ['x']), .tick wait, .start 1, .load 1, .gate 1 false,
    .finish 1 .null]

def waited (wait : Int) : Run := Lib.run (job source).step begun (actions wait)

theorem waited_reachable (wait : Int) : (job source).Reachable (waited source wait) :=
  ⟨begun, actions wait, ⟨Int.le_refl _, rfl, rfl⟩, rfl⟩

theorem waited_read_passes : (workflow 'a').validate [['t']] [['u']] (fun _ => 1000) = .ok () ∧
    (job 'a').Reachable (waited 'a' 61000000000) ∧
    (job 'a').current ((waited 'a' 61000000000).executions 1) = some (effectStep 'a') ∧
    (effectStep 'a').action.isEffect = true ∧
    (job 'a').gate (waited 'a' 61000000000) 1 true (effectStep 'a') = .ok () ∧
    Flows (workflow 'a') (effectStep 'a').input readStep ∧
    (waited 'a' 61000000000).done.lookup readStep.stepId = some ⟨.string ['x'], 0⟩ ∧
    (job 'a').inputMaxAge = some 60000000000 ∧ (waited 'a' 61000000000).clock - 0 > 60000000000 := by
  refine ⟨rfl, waited_reachable _ _, rfl, rfl, rfl, ?_, rfl, rfl, by decide⟩
  have viaRead : Flows (workflow 'a') approvalStep.input readStep :=
    .read (List.mem_singleton_self _) rfl rfl
  exact .carried (List.mem_singleton_self _) rfl rfl viaRead

theorem gate_fresh_direct : (job 'r').gate (waited 'r' 60000000000) 1 true (effectStep 'r') = .ok () ∧
    ∀ read, Flows (workflow 'r') (effectStep 'r').input read →
      ∃ c, (waited 'r' 60000000000).done.lookup read.stepId = some c ∧
        (waited 'r' 60000000000).clock - c.observedAt ≤ 60000000000 := by
  have passed : (job 'r').gate (waited 'r' 60000000000) 1 true (effectStep 'r') = .ok () := rfl
  have valid : (workflow 'r').validate [['t']] [['u']] (fun _ => 1000) = .ok () := rfl
  refine ⟨passed, gate_fresh rfl valid (waited_reachable _ _) rfl rfl (.inr fun read flows => ?_)
    passed⟩
  refine ⟨[], readStep, [approvalStep, effectStep 'r'], rfl, rfl, by decide, ?_⟩
  obtain ⟨before, -⟩ := flows_before valid flows [readStep, approvalStep] (effectStep 'r') [] rfl rfl
  simp only [List.mem_cons, List.not_mem_nil, or_false] at before ⊢
  exact before.imp_right .inl

end Waiting

end DuDuClaw.Workflow
