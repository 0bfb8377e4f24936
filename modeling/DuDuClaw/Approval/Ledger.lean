/-
# Approval.Ledger -- operations, revision grants and revocations

The operation ledger of approval/operations.rs and the revision grants of
approval/workflow_grants.rs.  An operation is one side effect of one step of a run; it
is prepared under a human approval or under a workflow's revision grant, claimed under a
lease, begun, and settled.  Every function below is one transaction; one that returns an
error changes nothing.

What a function reads outside the ledger is an argument: the verdicts of the host policy,
of the bound task and of the approval card (`Verdicts`), and the card an operation is
prepared from.  The activation and the grant of a workflow run never change, so that the
runs are a table of their own that only grows.

* `claimOperation_ok`, `beginExecution_ok`, `settleOperation_ok`, `resolveUncertain_ok`:
  what a call that returned found in the ledger, and what it did to it.
-/
import Mathlib.Algebra.GroupWithZero.Nat
import DuDuClaw.Lib.Fallible
import DuDuClaw.Lib.Chars
import DuDuClaw.Lib.Value

namespace DuDuClaw.Approval

open DuDuClaw.Lib

abbrev Text := List Char

/-- `s.len()`. -/
def byteLength (s : Text) : Nat := (s.map Char.utf8Size).sum

/-! ## Rows -/

inductive OperationState where
  | prepared
  | executing
  | succeeded
  | failed
  | uncertain
  deriving DecidableEq

inductive AuthoritySource where
  | boundHumanApproval
  | activeWorkflowRevisionGrant
  deriving DecidableEq

structure GrantRef where
  grantId : Text
  epoch : Nat
  specHash : Text
  deriving DecidableEq

inductive RunOriginKind where
  | ingress
  | computerSession
  | workflow
  deriving DecidableEq

inductive ResumeHandler where
  | workflowV1
  | computerReobserveV1
  | liveOnlyV1
  | other (name : Text)
  deriving DecidableEq

/-- What an approved action is bound to; `material` stands for the fields that are only
compared. -/
structure ExecutionBinding where
  runId : Text
  runOriginKind : RunOriginKind
  resumeHandler : ResumeHandler
  material : Text
  deriving DecidableEq

def ExecutionBinding.isWorkflow (binding : ExecutionBinding) : Bool :=
  binding.runOriginKind = .workflow ∧ binding.resumeHandler = .workflowV1

structure Operation where
  operationId : Text
  runId : Text
  stepKey : Text
  approvalId : Text
  binding : ExecutionBinding
  payloadHash : Text
  providerKey : Option Text
  source : AuthoritySource
  grant : Option GrantRef
  /-- The activation and the grant of the run when the operation was prepared. -/
  runAuthority : Option (Text × GrantRef)
  state : OperationState := .prepared
  fence : Nat := 0
  leaseOwner : Option Text := none
  leaseToken : Option Text := none
  leaseUntil : Option Int := none
  receipt : Option Value := none
  errorCode : Option Text := none
  operatorResolution : Option (Text × Text) := none

structure OperationClaim where
  operationId : Text
  token : Text
  fence : Nat
  owner : Text

inductive GrantState where
  | prepared
  | active
  | revoked
  deriving DecidableEq

/-- Of the accepted specification: whose grant it is, its hash and when it ends. -/
structure GrantSpec where
  activationId : Text
  hash : Text
  expiresAt : Int
  deriving DecidableEq

structure RevisionGrant where
  grantId : Text
  activationId : Text
  acceptanceId : Text
  spec : GrantSpec
  epoch : Nat
  state : GrantState

/-- What the ledger reads of a workflow run. -/
structure RunRecord where
  runId : Text
  activationId : Option Text
  grant : Option GrantRef
  /-- The run was started by a fixture. -/
  fixture : Bool

structure Ledger where
  operations : List Operation := []
  grants : List RevisionGrant := []
  /-- Revoked activations, each with the hash it was revoked under. -/
  revocations : List (Text × Text) := []
  runs : List RunRecord := []

/-! ## Authority -/

/-- What is decided outside the ledger, at the time of the call. -/
structure Verdicts where
  /-- `require_credential_free_payload` and `binding.validate`. -/
  binding : Bool
  /-- `operation_context`: the payload, the host files and the policy are as bound. -/
  context : Bool
  /-- `check_task`. -/
  task : Bool
  /-- The card is an approved, unexpired one with the very binding, and no fixture's. -/
  card : Bool
  /-- `check_grant_revision`, the run's other fields, deadlines, budgets and template. -/
  material : Bool
  /-- `check_activation_acceptance`, the policy and the fixtures' age. -/
  acceptance : Bool

namespace Ledger

variable (s : Ledger)

def findRun (runId : Text) : Option RunRecord := s.runs.find? fun run => run.runId == runId

def findOperation (id : Text) : Option Operation :=
  s.operations.find? fun op => op.operationId == id

def checkActivationNotRevoked (activationId : Text) : Except String Unit :=
  refuseIf (s.revocations.lookup activationId).isSome "workflow activation authoritatively revoked"

def workflowRunAuthority (binding : ExecutionBinding) : Except String (Option (Text × GrantRef)) :=
  if binding.isWorkflow then do
    let run ← okOr (s.findRun binding.runId) "workflow run authority unavailable"
    match run.activationId, run.grant with
    | some activation, some reference => do
      s.checkActivationNotRevoked activation
      return some (activation, reference)
    | none, none =>
      if run.fixture then .ok none else .error "workflow run activation authority missing"
    | _, _ => .error "workflow run activation authority missing"
  else .ok none

def checkGrantedMaterial (reference : GrantRef) (binding : ExecutionBinding) (verdicts : Verdicts)
    (now : Int) : Except String Unit := do
  let grant ← okOr
    (s.grants.find? fun g => g.grantId == reference.grantId && g.epoch == reference.epoch &&
      g.spec.hash == reference.specHash && g.state == .active && decide (g.spec.expiresAt > now))
    "workflow grant revoked, changed or expired"
  s.checkActivationNotRevoked grant.spec.activationId
  let run ← okOr (s.findRun binding.runId) "workflow run authority missing"
  refuseIf (run.grant ≠ some reference ∨ run.activationId ≠ some grant.spec.activationId)
    "workflow run does not match active grant"
  refuseIf (binding.isWorkflow = false) "granted operation binding mismatch"
  refuseIf (verdicts.material = false) "workflow input stale or deadline exceeded"

/-- A human approval of a formal run's step needs the run's grant as well. -/
def checkHumanRun (binding : ExecutionBinding) (verdicts : Verdicts) (now : Int) :
    Except String Unit :=
  if binding.isWorkflow then do
    let run ← okOr (s.findRun binding.runId) "human workflow run authority unavailable"
    match run.activationId, run.grant with
    | some activation, some reference => do
      s.checkActivationNotRevoked activation
      s.checkGrantedMaterial reference binding verdicts now
    | none, none =>
      if run.fixture then .ok () else .error "human workflow activation authority missing"
    | _, _ => .error "human workflow activation authority missing"
  else .ok ()

def checkOperationAuthority (id : Text) (binding : ExecutionBinding) (verdicts : Verdicts)
    (now : Int) : Except String Unit := do
  let op ← okOr (s.findOperation id) "operation authority missing"
  if binding.isWorkflow then
    let current ← s.workflowRunAuthority binding
    refuseIf (op.runAuthority ≠ current) "operation workflow authority changed or missing"
  match op.source with
  | .boundHumanApproval => do
    refuseIf (op.approvalId = [] ∨ op.grant.isSome) "unknown or malformed operation authority"
    refuseIf (verdicts.card = false) "human operation authority revoked or expired"
    s.checkHumanRun binding verdicts now
  | .activeWorkflowRevisionGrant => do
    refuseIf (op.approvalId ≠ []) "unknown or malformed operation authority"
    let reference ← okOr op.grant "missing revision grant"
    s.checkGrantedMaterial reference binding verdicts now

/-! ## Operations -/

def findStep (runId stepKey : Text) : Option Operation :=
  s.operations.find? fun op => op.runId == runId && op.stepKey == stepKey

/-- INSERT, `ON CONFLICT(run_id, step_key) DO NOTHING`. -/
def insertOperation (op : Operation) : Except String Ledger :=
  if (s.findStep op.runId op.stepKey).isSome then .ok s
  else if (s.findOperation op.operationId).isSome then
    .error "UNIQUE constraint failed: approval_operations.operation_id"
  else .ok { s with operations := s.operations ++ [op] }

def setOperation (id : Text) (edit : Operation → Operation) : Ledger :=
  { s with operations := s.operations.map fun op => if op.operationId == id then edit op else op }

/-- UPDATE of the row with an id, where it also meets the guard. -/
def editOperation (id : Text) (guard : Operation → Bool) (edit : Operation → Operation)
    (message : String) : Except String Ledger :=
  match s.findOperation id with
  | none => .error message
  | some op => if guard op then .ok (s.setOperation id edit) else .error message

end Ledger

/-- The row is held by this very claim, whose lease has not run out. -/
def Operation.heldBy (op : Operation) (claim : OperationClaim) (now : Int) : Bool :=
  op.leaseToken = some claim.token ∧ op.fence = claim.fence ∧ op.leaseOwner = some claim.owner ∧
    op.leaseUntil.any (· > now)

def Operation.claimed (op : Operation) (owner token : Text) (leaseUntil : Int) : Operation :=
  { op with
    leaseOwner := some owner, leaseToken := some token, leaseUntil := some leaseUntil
    fence := op.fence + 1 }

structure Card where
  isApproval : Bool
  binding : Option ExecutionBinding
  payloadHash : Text

namespace Ledger

variable (s : Ledger)

/-- `newId` is the fresh id of the row; the result is the id of the step's operation. -/
def prepareOperation (approvalId stepKey : Text) (providerKey : Option Text) (card : Card)
    (newId : Text) (verdicts : Verdicts) : Except String (Text × Ledger) := do
  refuseIf (stepKey = [] ∨ byteLength stepKey > 256) "invalid step key"
  refuseIf (card.isApproval = false) "question cannot prepare an action"
  let binding ← okOr card.binding "legacy approval cannot prepare execution"
  refuseIf (verdicts.binding = false) "payload hash mismatch"
  let runAuthority ← s.workflowRunAuthority binding
  let s' ← s.insertOperation {
    operationId := newId, runId := binding.runId, stepKey := stepKey, approvalId := approvalId
    binding := binding, payloadHash := card.payloadHash, providerKey := providerKey
    source := .boundHumanApproval, grant := none, runAuthority := runAuthority }
  let existing ← okOr (s'.findStep binding.runId stepKey) "Query returned no rows"
  refuseIf (existing.binding ≠ binding ∨ existing.source ≠ .boundHumanApproval ∨
    existing.approvalId ≠ approvalId ∨ existing.providerKey ≠ providerKey ∨
    existing.payloadHash ≠ card.payloadHash) "step already exists with a different contract"
  refuseIf (existing.runAuthority ≠ runAuthority) "step workflow authority changed"
  return (existing.operationId, s')

def prepareGrantedOperation (reference : GrantRef) (stepKey payloadHash : Text)
    (binding : ExecutionBinding) (providerKey : Option Text) (newId : Text) (verdicts : Verdicts)
    (now : Int) : Except String (Text × Ledger) := do
  refuseIf (stepKey = [] ∨ byteLength stepKey > 256) "invalid granted operation step"
  refuseIf (verdicts.binding = false ∨ verdicts.context = false) "workflow operation policy changed"
  s.checkGrantedMaterial reference binding verdicts now
  refuseIf (verdicts.task = false) "task authority changed or task closed"
  let runAuthority ← s.workflowRunAuthority binding
  let s' ← s.insertOperation {
    operationId := newId, runId := binding.runId, stepKey := stepKey, approvalId := []
    binding := binding, payloadHash := payloadHash, providerKey := providerKey
    source := .activeWorkflowRevisionGrant, grant := some reference, runAuthority := runAuthority }
  let existing ← okOr (s'.findStep binding.runId stepKey) "Query returned no rows"
  refuseIf (existing.binding ≠ binding ∨ existing.payloadHash ≠ payloadHash ∨
    existing.providerKey ≠ providerKey ∨ existing.source ≠ .activeWorkflowRevisionGrant ∨
    existing.grant ≠ some reference) "step already has different effect authority or contract"
  return (existing.operationId, s')

def operationLeaseHeld : String := "operation_lease_held_by_another_executor"

def claimRefusal (id : Text) (now : Int) : String :=
  if (s.findOperation id).any fun op => op.state = .prepared ∧ op.leaseUntil.any (· > now) then
    operationLeaseHeld
  else "operation not approved, expired, consumed or already claimed"

/-- `token` is a fresh one; the new claim carries the new fence. -/
def claimOperation (id : Text) (expected : ExecutionBinding) (owner : Text) (leaseSeconds : Int)
    (token : Text) (verdicts : Verdicts) (now : Int) : Except String (OperationClaim × Ledger) := do
  refuseIf (owner = [] ∨ ¬(1 ≤ leaseSeconds ∧ leaseSeconds ≤ 300)) "invalid lease"
  refuseIf (verdicts.context = false) "policy changed"
  refuseIf (verdicts.task = false) "task authority changed or task closed"
  s.checkOperationAuthority id expected verdicts now
  let s' ← s.editOperation id
    (fun op => op.state = .prepared ∧ op.binding = expected ∧ op.leaseUntil.all (· ≤ now))
    (fun op => op.claimed owner token (now + leaseSeconds))
    (s.claimRefusal id now)
  let op ← okOr (s'.findOperation id) "Query returned no rows"
  return (⟨id, token, op.fence, owner⟩, s')

def beginExecution (claim : OperationClaim) (current : ExecutionBinding) (verdicts : Verdicts)
    (now : Int) : Except String Ledger := do
  refuseIf (verdicts.context = false) "policy changed"
  refuseIf (verdicts.task = false) "task authority changed or task closed"
  s.checkOperationAuthority claim.operationId current verdicts now
  s.editOperation claim.operationId
    (fun op => op.state = .prepared ∧ op.heldBy claim now ∧ op.binding = current)
    (fun op => { op with state := .executing })
    "execution authorization revoked or fenced"

def settleOperation (claim : OperationClaim) (state : OperationState) (receipt : Option Value)
    (error : Option Text) (now : Int) : Except String Ledger := do
  refuseIf (¬(state = .succeeded ∨ state = .failed ∨ state = .uncertain) ∨
    (state = .succeeded ∧ receipt.all Value.isNull = true))
    "terminal result requires an actual receipt"
  s.editOperation claim.operationId
    (fun op => op.state = .executing ∧ op.heldBy claim now)
    (fun op => { op with state := state, receipt := receipt, errorCode := error })
    "stale execution receipt refused by fence"

/-- Boot and recovery never repeat an action that may have been submitted. -/
def recoverOperations (now : Int) : Ledger :=
  { s with operations := s.operations.map fun op =>
      if op.state = .executing ∧ op.leaseUntil.any (· ≤ now) = true then
        { op with state := .uncertain, errorCode := some "execution_lease_lost".toList }
      else op }

def invalidateLiveOnRestart : Ledger :=
  { s with operations := s.operations.map fun op =>
      if op.state = .executing ∧ (op.binding.resumeHandler = .computerReobserveV1 ∨
          op.binding.resumeHandler = .liveOnlyV1) then
        { op with state := .uncertain, errorCode := some "gateway_restarted_during_execution".toList }
      else op }

def resolveUncertain (id : Text) (expectedFence : Nat) (succeeded : Bool) (receipt : Value)
    (actor reason : Text) : Except String Ledger := do
  refuseIf (actor = [] ∨ isBlank reason = true ∨ receipt.isNull = true)
    "reconciliation needs actor, reason and evidence"
  s.editOperation id
    (fun op => op.state = .uncertain ∧ op.fence = expectedFence)
    (fun op => { op with
      state := if succeeded then .succeeded else .failed
      receipt := some receipt, operatorResolution := some (actor, reason), fence := op.fence + 1 })
    "reconciliation state changed"

end Ledger

/-! What a call that returned found, and what it did. -/

namespace Ledger

variable {s s' : Ledger}

variable {id : Text} {verdicts : Verdicts} {now : Int} {claim : OperationClaim}

variable {op : Operation} {edit : Operation → Operation} {stepKey newId : Text} {providerKey : Option Text}

theorem findOperation_mem (found : s.findOperation id = some op) : op ∈ s.operations ∧ op.operationId = id :=
  ⟨List.mem_of_find?_eq_some found, by simpa using List.find?_some found⟩

theorem editOperation_ok {guard : Operation → Bool}
    {message : String} (edited : s.editOperation id guard edit message = .ok s') :
    ∃ op, s.findOperation id = some op ∧ guard op = true ∧ s' = s.setOperation id edit := by
  unfold editOperation at edited
  split at edited
  · cases edited
  rename_i op found
  split at edited
  · rename_i met
    exact ⟨op, found, met, (Except.ok.inj edited).symm⟩
  · cases edited

theorem findOperation_setOperation (keeps : ∀ op, (edit op).operationId = op.operationId) :
    (s.setOperation id edit).findOperation id = (s.findOperation id).map edit := by
  unfold findOperation setOperation
  rw [List.find?_map]
  have same : ((fun op : Operation => op.operationId == id) ∘
      fun op => if op.operationId == id then edit op else op) = fun op => op.operationId == id := by
    funext op
    show ((if op.operationId == id then edit op else op).operationId == id) = (op.operationId == id)
    split
    · rw [keeps]
    · rfl
  rw [same]
  cases found : s.operations.find? fun op => op.operationId == id with
  | none => rfl
  | some op =>
    have here := List.find?_some found
    simp only [Option.map_some, here, if_true]

theorem insertOperation_ok (inserted : s.insertOperation op = .ok s') :
    s' = s ∨ (s' = { s with operations := s.operations ++ [op] } ∧
      (∀ other ∈ s.operations, other.operationId ≠ op.operationId) ∧
      ∀ other ∈ s.operations, ¬(other.runId = op.runId ∧ other.stepKey = op.stepKey)) := by
  unfold insertOperation at inserted
  split at inserted
  · exact .inl (Except.ok.inj inserted).symm
  rename_i newStep
  split at inserted
  · cases inserted
  rename_i newId
  refine .inr ⟨(Except.ok.inj inserted).symm, fun other listed same => ?_, fun other listed same => ?_⟩
  · have none := List.find?_eq_none.mp (Option.not_isSome_iff_eq_none.mp newId) other listed
    simp [same] at none
  · have none := List.find?_eq_none.mp (Option.not_isSome_iff_eq_none.mp newStep) other listed
    simp [same.1, same.2] at none

theorem prepareOperation_ok {approvalId : Text} {card : Card}
    (prepared : s.prepareOperation approvalId stepKey providerKey card newId verdicts = .ok (id, s')) :
    ∃ op, s.insertOperation op = .ok s' ∧ op.state = .prepared ∧ op.leaseToken = none := by
  unfold prepareOperation at prepared
  obtain ⟨-, -, prepared⟩ := bind_ok.mp prepared
  obtain ⟨-, -, prepared⟩ := bind_ok.mp prepared
  obtain ⟨binding, -, prepared⟩ := bind_ok.mp prepared
  obtain ⟨-, -, prepared⟩ := bind_ok.mp prepared
  obtain ⟨runAuthority, -, prepared⟩ := bind_ok.mp prepared
  obtain ⟨inserted, insertion, prepared⟩ := bind_ok.mp prepared
  obtain ⟨existing, -, prepared⟩ := bind_ok.mp prepared
  obtain ⟨-, -, prepared⟩ := bind_ok.mp prepared
  obtain ⟨-, -, prepared⟩ := bind_ok.mp prepared
  cases prepared
  exact ⟨_, insertion, rfl, rfl⟩

theorem prepareGrantedOperation_ok {reference : GrantRef} {payloadHash : Text}
    {binding : ExecutionBinding}
    (prepared : s.prepareGrantedOperation reference stepKey payloadHash binding providerKey newId
      verdicts now = .ok (id, s')) :
    ∃ op, s.insertOperation op = .ok s' ∧ op.state = .prepared ∧ op.leaseToken = none := by
  unfold prepareGrantedOperation at prepared
  obtain ⟨-, -, prepared⟩ := bind_ok.mp prepared
  obtain ⟨-, -, prepared⟩ := bind_ok.mp prepared
  obtain ⟨-, -, prepared⟩ := bind_ok.mp prepared
  obtain ⟨-, -, prepared⟩ := bind_ok.mp prepared
  obtain ⟨runAuthority, -, prepared⟩ := bind_ok.mp prepared
  obtain ⟨inserted, insertion, prepared⟩ := bind_ok.mp prepared
  obtain ⟨existing, -, prepared⟩ := bind_ok.mp prepared
  obtain ⟨-, -, prepared⟩ := bind_ok.mp prepared
  cases prepared
  exact ⟨_, insertion, rfl, rfl⟩

theorem claimOperation_ok {expected : ExecutionBinding} {owner : Text}
    {leaseSeconds : Int} {token : Text}
    (claimed : s.claimOperation id expected owner leaseSeconds token verdicts now = .ok (claim, s')) :
    ∃ op ∈ s.operations, op.operationId = id ∧ op.state = .prepared ∧
      s' = s.setOperation id (fun op => op.claimed owner token (now + leaseSeconds)) ∧
      claim = ⟨id, token, op.fence + 1, owner⟩ := by
  unfold claimOperation at claimed
  obtain ⟨-, -, claimed⟩ := bind_ok.mp claimed
  obtain ⟨-, -, claimed⟩ := bind_ok.mp claimed
  obtain ⟨-, -, claimed⟩ := bind_ok.mp claimed
  obtain ⟨-, -, claimed⟩ := bind_ok.mp claimed
  obtain ⟨edited, edit, claimed⟩ := bind_ok.mp claimed
  obtain ⟨op', found, claimed⟩ := bind_ok.mp claimed
  cases claimed
  obtain ⟨op, here, met, rfl⟩ := editOperation_ok edit
  obtain ⟨listed, sameId⟩ := findOperation_mem here
  have keeps : ∀ op : Operation,
      (op.claimed owner token (now + leaseSeconds)).operationId = op.operationId := fun _ => rfl
  rw [okOr_ok, findOperation_setOperation keeps, here] at found
  obtain rfl := Option.some.inj found
  simp only [decide_eq_true_eq] at met
  exact ⟨op, listed, sameId, met.1, rfl, rfl⟩

theorem beginExecution_ok {current : ExecutionBinding}
    (begun : s.beginExecution claim current verdicts now = .ok s') :
    (∃ u, s.checkOperationAuthority claim.operationId current verdicts now = .ok u) ∧
    ∃ op ∈ s.operations, op.operationId = claim.operationId ∧ op.state = .prepared ∧
      op.heldBy claim now = true ∧ op.binding = current ∧
      s' = s.setOperation claim.operationId fun op => { op with state := .executing } := by
  unfold beginExecution at begun
  obtain ⟨-, -, begun⟩ := bind_ok.mp begun
  obtain ⟨-, -, begun⟩ := bind_ok.mp begun
  obtain ⟨u, authority, begun⟩ := bind_ok.mp begun
  obtain ⟨op, here, met, rfl⟩ := editOperation_ok begun
  obtain ⟨listed, sameId⟩ := findOperation_mem here
  simp only [decide_eq_true_eq] at met
  exact ⟨⟨u, authority⟩, op, listed, sameId, met.1, met.2.1, met.2.2, rfl⟩

theorem settleOperation_ok {state : OperationState}
    {receipt : Option Value} {error : Option Text}
    (settled : s.settleOperation claim state receipt error now = .ok s') :
    (state = .succeeded ∨ state = .failed ∨ state = .uncertain) ∧
    ∃ op ∈ s.operations, op.operationId = claim.operationId ∧ op.state = .executing ∧
      op.heldBy claim now = true ∧ s' = s.setOperation claim.operationId fun op =>
        { op with state := state, receipt := receipt, errorCode := error } := by
  unfold settleOperation at settled
  obtain ⟨_, result, settled⟩ := bind_ok.mp settled
  obtain ⟨op, here, met, rfl⟩ := editOperation_ok settled
  obtain ⟨listed, sameId⟩ := findOperation_mem here
  simp only [decide_eq_true_eq] at met
  rw [refuseIf_ok, not_or] at result
  exact ⟨Decidable.not_not.mp result.1, op, listed, sameId, met.1, met.2, rfl⟩

theorem resolveUncertain_ok {expectedFence : Nat} {succeeded : Bool} {receipt : Value}
    {actor reason : Text}
    (resolved : s.resolveUncertain id expectedFence succeeded receipt actor reason = .ok s') :
    ∃ op ∈ s.operations, op.operationId = id ∧ op.state = .uncertain ∧
      s' = s.setOperation id fun op => { op with
        state := if succeeded then .succeeded else .failed
        receipt := some receipt, operatorResolution := some (actor, reason)
        fence := op.fence + 1 } := by
  unfold resolveUncertain at resolved
  obtain ⟨-, -, resolved⟩ := bind_ok.mp resolved
  obtain ⟨op, here, met, rfl⟩ := editOperation_ok resolved
  obtain ⟨listed, sameId⟩ := findOperation_mem here
  simp only [decide_eq_true_eq] at met
  exact ⟨op, listed, sameId, met.1, rfl⟩

end Ledger

/-! ## Grants -/

structure AcceptedRevisionGrant where
  activationId : Text
  acceptanceId : Text
  /-- The acceptance the approved revision names. -/
  revisionAcceptanceId : Text
  spec : GrantSpec
  specHash : Text

structure GrantRevocation where
  reference : GrantRef
  executingOperations : List Text

def RevisionGrant.reference (g : RevisionGrant) : GrantRef := ⟨g.grantId, g.epoch, g.spec.hash⟩

def RevisionGrant.revoke (g : RevisionGrant) : RevisionGrant :=
  { g with state := .revoked, epoch := g.epoch + 1 }

namespace Ledger

variable (s : Ledger)

def findGrant (activationId : Text) : Option RevisionGrant :=
  s.grants.find? fun g => g.activationId == activationId

/-- INSERT, `ON CONFLICT(activation_id) DO NOTHING`. -/
def insertGrant (grant : RevisionGrant) : Except String Ledger :=
  if (s.findGrant grant.activationId).isSome then .ok s
  else if s.grants.any fun g => g.grantId == grant.grantId then
    .error "UNIQUE constraint failed: workflow_revision_grants.grant_id"
  else .ok { s with grants := s.grants ++ [grant] }

/-- UPDATE of the grants with an id, where they also meet the guard. -/
def editGrants (id : Text) (guard : RevisionGrant → Bool) (edit : RevisionGrant → RevisionGrant) :
    Ledger :=
  { s with grants := s.grants.map fun g => if g.grantId == id && guard g then edit g else g }

def prepareRevisionGrant (accepted : AcceptedRevisionGrant) (newId : Text) (verdicts : Verdicts) :
    Except String (GrantRef × Ledger) := do
  refuseIf (accepted.activationId ≠ accepted.spec.activationId ∨
    accepted.specHash ≠ accepted.spec.hash ∨
    accepted.acceptanceId ≠ accepted.revisionAcceptanceId) "accepted grant material mismatch"
  refuseIf (verdicts.acceptance = false) "activation acceptance does not bind grant material"
  s.checkActivationNotRevoked accepted.activationId
  let s' ← s.insertGrant {
    grantId := newId, activationId := accepted.activationId, acceptanceId := accepted.acceptanceId
    spec := accepted.spec, epoch := 1, state := .prepared }
  let existing ← okOr (s'.findGrant accepted.activationId) "Query returned no rows"
  refuseIf (existing.spec.hash ≠ accepted.specHash ∨ existing.acceptanceId ≠ accepted.acceptanceId)
    "activation already has different grant authority"
  return (existing.reference, s')

/-- The grant and its state are read before the transaction as well; the update compares
the same epoch and hash. -/
def activateRevisionGrant (reference : GrantRef) (verdicts : Verdicts) (now : Int) :
    Except String (GrantRef × Ledger) := do
  let grant ← okOr (s.grants.find? fun g => g.reference == reference)
    "workflow grant missing or changed"
  refuseIf (grant.state ≠ .prepared) "grant is not prepared"
  s.checkActivationNotRevoked grant.spec.activationId
  refuseIf (verdicts.acceptance = false) "activation policy changed"
  refuseIf (¬grant.spec.expiresAt > now) "activation grant revoked or changed"
  return ({ reference with epoch := reference.epoch + 1 },
    s.editGrants reference.grantId (fun g => g.reference == reference && g.state == .prepared)
      fun g => { g with state := .active, epoch := g.epoch + 1 })

def currentRevisionGrant (activationId : Text) : Option (GrantRef × GrantSpec × GrantState) :=
  (s.findGrant activationId).map fun g => (g.reference, g.spec, g.state)

def inspectRevisionGrant (reference : GrantRef) : Except String (GrantSpec × GrantState) := do
  let grant ← okOr (s.grants.find? fun g => g.reference == reference)
    "workflow grant missing or changed"
  return (grant.spec, grant.state)

def executingUnder (grantId activationId : Text) : List Text :=
  (s.operations.filter fun op => decide (op.state = .executing) &&
    (op.grant.any (·.grantId == grantId) || op.runAuthority.any (·.1 == activationId))).map
    Operation.operationId

/-- INSERT, `ON CONFLICT(activation_id) DO NOTHING`. -/
def addRevocation (activationId specHash : Text) : Ledger :=
  if (s.revocations.lookup activationId).isSome then s
  else { s with revocations := (activationId, specHash) :: s.revocations }

/-- Revokes even before the grant exists. -/
def revokeWorkflowActivation (activationId specHash reason : Text) :
    Except String (Option GrantRevocation × Ledger) := do
  refuseIf (activationId = [] ∨ specHash = [] ∨ isBlank reason = true)
    "activation revoke identity required"
  refuseIf ((s.revocations.lookup activationId).any fun hash => hash ≠ specHash)
    "activation revocation material mismatch"
  match (s.addRevocation activationId specHash).findGrant activationId with
  | none => return (none, s.addRevocation activationId specHash)
  | some grant => do
    refuseIf (grant.spec.hash ≠ specHash) "activation grant material mismatch"
    let revoked := if grant.state = .revoked then grant else grant.revoke
    return (some ⟨revoked.reference, s.executingUnder grant.grantId activationId⟩,
      (s.addRevocation activationId specHash).editGrants grant.grantId
        (fun g => g.epoch == grant.epoch && g.state != .revoked) RevisionGrant.revoke)

def revokeRevisionGrant (reference : GrantRef) (reason : Text) :
    Except String (GrantRevocation × Ledger) := do
  refuseIf (isBlank reason = true) "revocation reason required"
  let grant ← okOr (s.grants.find? fun g => g.reference == reference && g.state != .revoked)
    "grant revoke stale or already revoked"
  let s' := s.editGrants reference.grantId
    (fun g => g.reference == reference && g.state != .revoked) RevisionGrant.revoke
  return (⟨{ reference with epoch := reference.epoch + 1 },
    (s'.operations.filter fun op => decide (op.state = .executing) &&
      op.grant.any (·.grantId == grant.grantId)).map Operation.operationId⟩, s')

end Ledger

/-! What a call that returned found, and what it did. -/

namespace Ledger

variable {s s' : Ledger}

variable {verdicts : Verdicts} {reference : GrantRef} {reason : Text}

theorem insertGrant_ok {grant : RevisionGrant} (inserted : s.insertGrant grant = .ok s') :
    s' = s ∨ (s' = { s with grants := s.grants ++ [grant] } ∧
      (∀ other ∈ s.grants, other.grantId ≠ grant.grantId) ∧
      ∀ other ∈ s.grants, other.activationId ≠ grant.activationId) := by
  unfold insertGrant at inserted
  split at inserted
  · exact .inl (Except.ok.inj inserted).symm
  rename_i newActivation
  split at inserted
  · cases inserted
  rename_i newId
  refine .inr ⟨(Except.ok.inj inserted).symm, fun other listed same => ?_, fun other listed same => ?_⟩
  · exact newId (List.any_eq_true.mpr ⟨other, listed, by simp [same]⟩)
  · have none :=
      List.find?_eq_none.mp (Option.not_isSome_iff_eq_none.mp newActivation) other listed
    simp [same] at none

theorem prepareRevisionGrant_ok {accepted : AcceptedRevisionGrant} {newId : Text}
    (prepared : s.prepareRevisionGrant accepted newId verdicts = .ok (reference, s')) :
    accepted.spec.activationId = accepted.activationId ∧
    ∃ grant : RevisionGrant, s.insertGrant grant = .ok s' ∧ grant.state = .prepared ∧
      grant.spec = accepted.spec ∧ grant.activationId = accepted.activationId := by
  unfold prepareRevisionGrant at prepared
  obtain ⟨_, material, prepared⟩ := bind_ok.mp prepared
  obtain ⟨-, -, prepared⟩ := bind_ok.mp prepared
  obtain ⟨-, -, prepared⟩ := bind_ok.mp prepared
  obtain ⟨inserted, insertion, prepared⟩ := bind_ok.mp prepared
  obtain ⟨existing, -, prepared⟩ := bind_ok.mp prepared
  obtain ⟨-, -, prepared⟩ := bind_ok.mp prepared
  cases prepared
  simp only [refuseIf_ok, ne_eq, not_or, Decidable.not_not] at material
  exact ⟨material.1.symm, _, insertion, rfl, rfl, rfl⟩

theorem activateRevisionGrant_ok {activated : GrantRef} {now : Int}
    (run : s.activateRevisionGrant reference verdicts now = .ok (activated, s')) :
    ∃ grant ∈ s.grants, grant.reference = reference ∧ grant.state = .prepared ∧
      (s.revocations.lookup grant.spec.activationId).isSome = false ∧
      s' = s.editGrants reference.grantId (fun g => g.reference == reference && g.state == .prepared)
        fun g => { g with state := .active, epoch := g.epoch + 1 } := by
  unfold activateRevisionGrant at run
  obtain ⟨grant, found, run⟩ := bind_ok.mp run
  obtain ⟨_, state, run⟩ := bind_ok.mp run
  obtain ⟨_, live, run⟩ := bind_ok.mp run
  obtain ⟨-, -, run⟩ := bind_ok.mp run
  obtain ⟨-, -, run⟩ := bind_ok.mp run
  cases run
  rw [okOr_ok] at found
  simp only [checkActivationNotRevoked, refuseIf_ok, ne_eq, Decidable.not_not, Bool.not_eq_true] at state live
  exact ⟨grant, List.mem_of_find?_eq_some found, by simpa using List.find?_some found, state, live, rfl⟩

theorem revokeWorkflowActivation_ok {activationId specHash : Text}
    {revocation : Option GrantRevocation}
    (run : s.revokeWorkflowActivation activationId specHash reason = .ok (revocation, s')) :
    (s.findGrant activationId = none ∧ s' = s.addRevocation activationId specHash) ∨
    ∃ grant, s.findGrant activationId = some grant ∧
      s' = (s.addRevocation activationId specHash).editGrants grant.grantId
        (fun g => g.epoch == grant.epoch && g.state != .revoked) RevisionGrant.revoke := by
  have same : (s.addRevocation activationId specHash).findGrant activationId =
      s.findGrant activationId := by
    unfold addRevocation
    split <;> rfl
  unfold revokeWorkflowActivation at run
  obtain ⟨-, -, run⟩ := bind_ok.mp run
  obtain ⟨-, -, run⟩ := bind_ok.mp run
  rw [same] at run
  split at run
  · rename_i absent
    cases run
    exact .inl ⟨absent, rfl⟩
  rename_i grant found
  obtain ⟨-, -, run⟩ := bind_ok.mp run
  cases run
  exact .inr ⟨grant, found, rfl⟩

theorem revokeRevisionGrant_ok {revocation : GrantRevocation}
    (run : s.revokeRevisionGrant reference reason = .ok (revocation, s')) : s' = s.editGrants reference.grantId
      (fun g => g.reference == reference && g.state != .revoked) RevisionGrant.revoke := by
  unfold revokeRevisionGrant at run
  obtain ⟨-, -, run⟩ := bind_ok.mp run
  obtain ⟨grant, -, run⟩ := bind_ok.mp run
  cases run
  rfl

end Ledger

end DuDuClaw.Approval
