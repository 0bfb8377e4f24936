/-
# Workflow.Saga -- committing, revoking and stopping an activation

`commit_activation` and `revoke_activation` of workflow/activation.rs and `stop` of
workflow/suspension.rs, on one activation.  They keep three stores in step, each in
transactions of its own: the activation's projection, the grant in the approval ledger and
the routine's row in the cron table.  Any number of calls are interleaved, one storage
step at a time, and no storage step fails.

`store_activation` lets a projection that has been stopped only go further down.  It does
not mind what else it overwrites: a committer that read the grant before another one
activated it stores `grant_prepared` over `active`, fails to activate the grant a second
time and returns, while the routine stays enabled.

* `Saga.step_stopped`: no step resumes a stopped activation.
* `Saga.Ordered`: no committer stores `grant_prepared` over `active`.
* `saga_consistent`: when all calls have returned, the routine is enabled only if the
  activation and its grant are active.
-/
import DuDuClaw.Approval.Revocation

namespace DuDuClaw.Workflow

open DuDuClaw.Lib DuDuClaw.Approval

/-! ## The stores -/

inductive ActivationState where
  | prepared
  | grantPrepared
  | authorized
  | arming
  | active
  | revoking
  | revoked
  | failed
  | suspended
  | expired
  deriving DecidableEq

def ActivationState.isStopped : ActivationState → Bool
  | .revoking | .revoked | .suspended | .expired => true
  | _ => false

/-- The guard of `store_activation`. -/
def ActivationState.admits (stored new : ActivationState) : Bool :=
  !stored.isStopped || decide (stored = new) || decide (stored = .revoking ∧ new = .revoked) ||
    decide ((stored = .suspended ∨ stored = .expired) ∧ (new = .revoking ∨ new = .revoked))

structure ActivationRequest where
  activationId : Text
  acceptanceId : Text
  materialHash : Text
  spec : GrantSpec
  own : spec.activationId = activationId
  /-- The activation has a routine. -/
  cron : Bool

def ActivationRequest.accepted (a : ActivationRequest) : AcceptedRevisionGrant where
  activationId := a.activationId
  acceptanceId := a.acceptanceId
  revisionAcceptanceId := a.acceptanceId
  spec := a.spec
  specHash := a.spec.hash

/-- Of the projection's record: what changes. -/
structure ActivationRecord where
  state : ActivationState := .prepared
  grant : Option GrantRef := none

structure CronRow where
  /-- The row has the activation's employee and schedule, and no task. -/
  isProjection : Bool := true
  /-- The activation and the material of the row's workflow binding. -/
  binding : Option (Text × Text) := none
  enabled : Bool := false

structure Stores where
  record : ActivationRecord := {}
  ledger : Ledger := {}
  cron : Option CronRow := none

/-! ## The calls -/

/-- A call in progress, named after the storage step it has taken last. -/
inductive SagaCall where
  | idle
  | commitRead
  /-- The ledger has no grant of the activation. -/
  | commitAbsent
  /-- The grant is known, and whether it is active already. -/
  | commitReady (grant : GrantRef) (activated : Bool)
  | commitStored (grant : GrantRef) (activated : Bool)
  | commitActivated (grant : GrantRef)
  | commitNoRow (grant : GrantRef)
  | commitRow (grant : GrantRef)
  | commitChecked (grant : GrantRef)
  | commitBound (grant : GrantRef)
  | commitArming (grant : GrantRef)
  | commitArmed (grant : GrantRef)
  | commitInspected (grant : GrantRef)
  | commitFailing
  | revokeRead (grant : Option GrantRef)
  | revokeLedger (grant : Option GrantRef)
  | revokeStored (grant : Option GrantRef)
  | revokeDisabled (grant : Option GrantRef)
  | stopRead (grant : Option GrantRef) (expired : Bool)
  | stopMoved
  | stopRevoked

/-- What a step meets outside the three stores: the verdict of `validate_activation`, of the
acceptance and of the accepted revision, the verdicts of the ledger's own checks, a new
grant id, the clock and the reason of a revocation. -/
structure Env where
  valid : Bool
  verdicts : Verdicts
  newId : Text
  now : Int
  reason : Text

namespace Stores

variable (a : ActivationRequest) (s : Stores)

def setRecord (record : ActivationRecord) : Stores := { s with record := record }

def setLedger (ledger : Ledger) : Stores := { s with ledger := ledger }

def setCron (cron : Option CronRow) : Stores := { s with cron := cron }

/-- `store_activation`; the call goes on as `next`, or as `refused`. -/
def storeActivation (record : ActivationRecord) (next refused : SagaCall) : Stores × SagaCall :=
  if s.record.state.admits record.state then (s.setRecord record, next) else (s, refused)

/-- `set_enabled`, when the activation has a routine. -/
def setEnabled (enabled : Bool) : Stores :=
  if a.cron then s.setCron (s.cron.map fun row => { row with enabled := enabled }) else s

def bindWorkflow (row : CronRow) : Option CronRow :=
  match row.binding with
  | some binding => if binding = (a.activationId, a.materialHash) then some row else none
  | none =>
    if row.enabled then none else some { row with binding := some (a.activationId, a.materialHash) }

def perform (env : Env) : SagaCall → Stores × SagaCall
  | .idle => (s, .idle)
  | .commitRead =>
    if env.valid = false then (s, .idle)
    else
      match s.ledger.currentRevisionGrant a.activationId with
      | none => (s, .commitAbsent)
      | some (reference, spec, state) =>
        if spec ≠ a.spec ∨ state = .revoked then (s, .idle)
        else (s, .commitReady reference (decide (state = .active)))
  | .commitAbsent =>
    match s.ledger.prepareRevisionGrant a.accepted env.newId env.verdicts with
    | .ok (reference, ledger) => (s.setLedger ledger, .commitReady reference false)
    | .error _ => (s, .idle)
  | .commitReady reference activated =>
    s.storeActivation ⟨if activated then .authorized else .grantPrepared, some reference⟩
      (.commitStored reference activated) .idle
  | .commitStored reference false =>
    match s.ledger.activateRevisionGrant reference env.verdicts env.now with
    | .ok (activated, ledger) => (s.setLedger ledger, .commitActivated activated)
    | .error _ => (s, .idle)
  | .commitActivated reference =>
    s.storeActivation ⟨.authorized, some reference⟩ (.commitStored reference true) .idle
  | .commitStored reference true =>
    if a.cron = false then (s, .commitArmed reference)
    else
      match s.cron with
      | none => (s, .commitNoRow reference)
      | some _ => (s, .commitRow reference)
  | .commitNoRow reference =>
    -- the insert fails if another committer's row is there by now
    match s.cron with
    | none => (s.setCron (some {}), .commitRow reference)
    | some _ => (s, .idle)
  | .commitRow reference =>
    match s.cron with
    | none => (s, .idle)
    | some row => if row.isProjection then (s, .commitChecked reference) else (s, .idle)
  | .commitChecked reference =>
    match s.cron.bind (bindWorkflow a) with
    | none => (s, .idle)
    | some row => (s.setCron (some row), .commitBound reference)
  | .commitBound reference =>
    s.storeActivation ⟨.arming, some reference⟩ (.commitArming reference) .idle
  | .commitArming reference => (s.setEnabled a true, .commitArmed reference)
  | .commitArmed reference =>
    match s.ledger.inspectRevisionGrant reference with
    | .error _ => (s, .commitFailing)
    | .ok (spec, state) =>
      if state = .active ∧ spec = a.spec then (s, .commitInspected reference)
      else (s, .commitFailing)
  | .commitInspected reference =>
    s.storeActivation ⟨.active, some reference⟩ .idle .commitFailing
  | .commitFailing => (s.setEnabled a false, .idle)
  | .revokeRead grant =>
    match s.ledger.revokeWorkflowActivation a.activationId a.spec.hash env.reason with
    | .ok (revocation, ledger) =>
      (s.setLedger ledger, .revokeLedger ((revocation.map GrantRevocation.reference).or grant))
    | .error _ => (s, .idle)
  | .revokeLedger grant => s.storeActivation ⟨.revoking, grant⟩ (.revokeStored grant) .idle
  | .revokeStored grant => (s.setEnabled a false, .revokeDisabled grant)
  | .revokeDisabled grant => s.storeActivation ⟨.revoked, grant⟩ .idle .idle
  | .stopRead grant expired =>
    if s.record.state = .active then
      (s.setRecord ⟨if expired then .expired else .suspended, grant⟩, .stopMoved)
    else (s, .idle)
  | .stopMoved =>
    -- a ledger that refuses is left to the sweep
    match s.ledger.revokeWorkflowActivation a.activationId a.spec.hash env.reason with
    | .ok (_, ledger) => (s.setLedger ledger, .stopRevoked)
    | .error _ => (s, .stopRevoked)
  | .stopRevoked => (s.setEnabled a false, .idle)

end Stores

/-! ## Interleavings -/

structure Saga where
  stores : Stores
  calls : Nat → SagaCall := fun _ => .idle

inductive SagaStep where
  | commit (k : Nat)
  | revoke (k : Nat)
  | stop (k : Nat) (expired : Bool)
  | next (k : Nat) (env : Env)

/-- The first step of a call reads the projection. -/
def Saga.enter (g : Saga) (k : Nat) (call : SagaCall) : Saga :=
  match g.calls k with
  | .idle => { g with calls := Function.update g.calls k call }
  | _ => g

def Saga.step (a : ActivationRequest) (g : Saga) : SagaStep → Saga
  | .commit k =>
    -- an active one is only inspected
    if g.stores.record.state.isStopped ∨ g.stores.record.state = .failed ∨
        g.stores.record.state = .active then g
    else g.enter k .commitRead
  | .revoke k =>
    if g.stores.record.state = .revoked then g else g.enter k (.revokeRead g.stores.record.grant)
  | .stop k expired =>
    if g.stores.record.state ≠ .active then g
    else g.enter k (.stopRead g.stores.record.grant expired)
  | .next k env =>
    let (stores, call) := g.stores.perform a env (g.calls k)
    { stores := stores, calls := Function.update g.calls k call }

/-! ## One step -/

/-- The call has revoked the ledger's grant and is about to store that it revokes. -/
def SagaCall.isRevoking : SagaCall → Bool
  | .revokeLedger _ => true
  | _ => false

/-- The call is about to store `grant_prepared`. -/
def SagaCall.storesPrepared : SagaCall → Bool
  | .commitReady _ false => true
  | _ => false

/-- The call has found the grant active and is about to store that the activation is. -/
def SagaCall.isInspected : SagaCall → Bool
  | .commitInspected _ => true
  | _ => false

/-- The call has stopped the activation and has more to do. -/
def SagaCall.isMoved : SagaCall → Bool
  | .stopMoved | .revokeStored _ | .revokeDisabled _ => true
  | _ => false

/-- The call has found the routine's row to be the activation's. -/
def SagaCall.isChecked : SagaCall → Bool
  | .commitChecked _ => true
  | _ => false

/-- The call relies on nothing it has just read. -/
def SagaCall.isPlain (call : SagaCall) : Bool := !call.isInspected && !call.isChecked

/-- The call answers for an enabled routine: it is going to switch it off, or to arm it again
unless the activation is stopped. -/
def SagaCall.guards (stopped : Bool) : SagaCall → Bool
  | .commitArmed _ | .commitInspected _ | .commitFailing | .revokeStored _ | .stopMoved
  | .stopRevoked => true
  | .commitStored _ true | .commitRow _ | .commitChecked _ | .commitBound _ | .commitArming _ =>
    !stopped
  | _ => false

def GrantActive (ledger : Ledger) (activationId : Text) : Prop :=
  ∃ grant ∈ ledger.grants, grant.activationId = activationId ∧ grant.state = .active

def tombstoned (ledger : Ledger) (activationId : Text) : Bool :=
  (ledger.revocations.lookup activationId).isSome

def CronRow.isBound (a : ActivationRequest) (row : CronRow) : Bool :=
  row.binding = some (a.activationId, a.materialHash)

def Stores.routineOn (a : ActivationRequest) (s : Stores) : Bool :=
  a.cron && s.cron.any fun row => row.isBound a && row.enabled

/-- What a storage step of one call keeps or brings about. -/
structure Stores.StepOk (a : ActivationRequest) (s : Stores) (call : SagaCall) (s' : Stores)
    (call' : SagaCall) : Prop where
  sound : s.ledger.GrantsSound → s'.ledger.GrantsSound
  stopped : s.record.state.isStopped = true → s'.record.state.isStopped = true
  granted : GrantActive s.ledger a.activationId →
    GrantActive s'.ledger a.activationId ∨ tombstoned s'.ledger a.activationId = true
  revoked : tombstoned s.ledger a.activationId = true →
    tombstoned s'.ledger a.activationId = true
  revokes : tombstoned s'.ledger a.activationId = true →
    tombstoned s.ledger a.activationId = true ∨ call'.isRevoking = true ∨
      s'.record.state.isStopped = true
  revoking : call.isRevoking = true → s'.record.state.isStopped = true
  activates : s'.record.state = .active → s.record.state = .active ∨
    (call.isInspected = true ∧ s.record.state.isStopped = false)
  inspects : call'.isInspected = true → GrantActive s'.ledger a.activationId
  moves : call'.isMoved = true → s'.record.state.isStopped = true
  checks : call'.isChecked = true → s'.cron.any CronRow.isProjection = true
  checked : s.cron.any CronRow.isProjection = true → s'.cron.any CronRow.isProjection = true
  projects : (∀ row ∈ s.cron, row.isBound a = true → row.isProjection = true) →
    ∀ row ∈ s'.cron, row.isBound a = true → row.isProjection = true
  routine : s'.routineOn a = true → s'.record.state = .active ∨
    call'.guards s'.record.state.isStopped = true ∨
    (s.routineOn a = true ∧ call.guards s.record.state.isStopped = false ∧
      s.record.state ≠ .active ∧
      (s'.record.state.isStopped = true → s.record.state.isStopped = true))

section
variable {a : ActivationRequest} {s : Stores} {call call' : SagaCall}

variable {record : ActivationRecord} {ledger : Ledger} {reference : GrantRef} {env : Env} {row : CronRow}

theorem SagaCall.not_inspected_of_plain (plain : call.isPlain = true) : ¬call.isInspected = true := by
  intro inspected
  simp [isPlain, inspected] at plain

theorem SagaCall.not_checked_of_plain (plain : call.isPlain = true) : ¬call.isChecked = true := by
  intro checked
  simp [isPlain, checked] at plain

/-- `store_activation` refuses only what would resume a stopped activation. -/
theorem ActivationState.admits_false {stored new : ActivationState}
    (refused : stored.admits new = false) : stored.isStopped = true := by
  revert refused
  cases stored <;> cases new <;> decide

theorem Stores.StepOk.same (revoking : call.isRevoking = true → s.record.state.isStopped = true)
    (inspects : call'.isInspected = true → GrantActive s.ledger a.activationId)
    (moves : call'.isMoved = true → s.record.state.isStopped = true)
    (checks : call'.isChecked = true → s.cron.any CronRow.isProjection = true) (routine : s.routineOn a = true →
      call'.guards s.record.state.isStopped = true ∨ call.guards s.record.state.isStopped = false) :
    s.StepOk a call s call' where
  sound := id
  stopped := id
  granted := .inl
  revoked := id
  revokes := .inl
  revoking := revoking
  activates := .inl
  inspects := inspects
  moves := moves
  checks := checks
  checked := id
  projects := id
  routine := by
    intro on
    by_cases active : s.record.state = .active
    · exact .inl active
    · rcases routine on with guarded | unguarded
      · exact .inr (.inl guarded)
      · exact .inr (.inr ⟨on, unguarded, active, id⟩)

theorem Stores.StepOk.stored (admitted : s.record.state.admits record.state = true)
    (revoking : call.isRevoking = true → record.state.isStopped = true)
    (activates : record.state = .active → call.isInspected = true) (plain : call'.isPlain = true)
    (moves : call'.isMoved = true → record.state.isStopped = true)
    (routine : record.state = .active ∨ call'.guards record.state.isStopped = true ∨
      (call.guards s.record.state.isStopped = false ∧ s.record.state ≠ .active ∧
        (record.state.isStopped = true → s.record.state.isStopped = true))) :
    s.StepOk a call (s.setRecord record) call' where
  sound := id
  stopped := by
    intro stopped
    show record.state.isStopped = true
    revert admitted stopped
    cases s.record.state <;> cases record.state <;> decide
  granted := .inl
  revoked := id
  revokes := .inl
  revoking := revoking
  activates := by
    intro active
    replace active : record.state = .active := active
    refine .inr ⟨activates active, ?_⟩
    rw [active] at admitted
    revert admitted
    cases s.record.state <;> decide
  inspects := fun h => absurd h (SagaCall.not_inspected_of_plain plain)
  moves := moves
  checks := fun h => absurd h (SagaCall.not_checked_of_plain plain)
  checked := id
  projects := id
  routine := by
    intro on
    rcases routine with active | guarded | ⟨unguarded, inactive, stays⟩
    · exact .inl active
    · exact .inr (.inl guarded)
    · exact .inr (.inr ⟨on, unguarded, inactive, stays⟩)

theorem Stores.StepOk.granting (change : s.ledger.GrantChange ledger)
    (revocations : ledger.revocations = s.ledger.revocations)
    (granted : GrantActive s.ledger a.activationId → GrantActive ledger a.activationId)
    (idle : call.isRevoking = false) (plain : call'.isPlain = true)
    (moves : call'.isMoved = true → s.record.state.isStopped = true)
    (unguarded : call.guards s.record.state.isStopped = false) :
    s.StepOk a call (s.setLedger ledger) call' where
  sound := fun sound => sound.change change
  stopped := id
  granted := fun active => .inl (granted active)
  revoked := by
    unfold tombstoned setLedger
    rw [revocations]
    exact id
  revokes := by
    unfold tombstoned setLedger
    rw [revocations]
    exact .inl
  revoking := fun h => absurd (idle.symm.trans h) Bool.false_ne_true
  activates := .inl
  inspects := fun h => absurd h (SagaCall.not_inspected_of_plain plain)
  moves := moves
  checks := fun h => absurd h (SagaCall.not_checked_of_plain plain)
  checked := id
  projects := id
  routine := by
    intro on
    by_cases active : s.record.state = .active
    · exact .inl active
    · exact .inr (.inr ⟨on, unguarded, active, id⟩)

theorem Stores.StepOk.revocation {reason : Text} {revocation : Option GrantRevocation}
    (run : s.ledger.revokeWorkflowActivation a.activationId a.spec.hash reason = .ok (revocation, ledger))
    (announces : call'.isRevoking = true ∨ s.record.state.isStopped = true)
    (idle : call.isRevoking = false) (plain : call'.isPlain = true)
    (moves : call'.isMoved = true → s.record.state.isStopped = true)
    (routine : call'.guards s.record.state.isStopped = true ∨ call.guards s.record.state.isStopped = false) :
    s.StepOk a call (s.setLedger ledger) call' where
  sound := fun sound => sound.change (Ledger.revokeWorkflowActivation_change run)
  stopped := id
  granted := fun _ => .inr (Ledger.revokeWorkflowActivation_tombstone run)
  revoked := fun _ => Ledger.revokeWorkflowActivation_tombstone run
  revokes := fun _ => .inr announces
  revoking := fun h => absurd (idle.symm.trans h) Bool.false_ne_true
  activates := .inl
  inspects := fun h => absurd h (SagaCall.not_inspected_of_plain plain)
  moves := moves
  checks := fun h => absurd h (SagaCall.not_checked_of_plain plain)
  checked := id
  projects := id
  routine := by
    intro on
    by_cases active : s.record.state = .active
    · exact .inl active
    · rcases routine with guarded | unguarded
      · exact .inr (.inl guarded)
      · exact .inr (.inr ⟨on, unguarded, active, id⟩)

theorem Stores.StepOk.routined {cron : Option CronRow} (idle : call.isRevoking = false)
    (plain : call'.isPlain = true) (moves : call'.isMoved = true → s.record.state.isStopped = true)
    (checked : s.cron.any CronRow.isProjection = true → cron.any CronRow.isProjection = true)
    (projects : (∀ row ∈ s.cron, row.isBound a = true → row.isProjection = true) →
      ∀ row ∈ cron, row.isBound a = true → row.isProjection = true)
    (routine : (s.setCron cron).routineOn a = true → call'.guards s.record.state.isStopped = true ∨
      (s.routineOn a = true ∧ call.guards s.record.state.isStopped = false)) :
    s.StepOk a call (s.setCron cron) call' where
  sound := id
  stopped := id
  granted := .inl
  revoked := id
  revokes := .inl
  revoking := fun h => absurd (idle.symm.trans h) Bool.false_ne_true
  activates := .inl
  inspects := fun h => absurd h (SagaCall.not_inspected_of_plain plain)
  moves := moves
  checks := fun h => absurd h (SagaCall.not_checked_of_plain plain)
  checked := checked
  projects := projects
  routine := by
    intro on
    by_cases active : s.record.state = .active
    · exact .inl active
    · rcases routine on with guarded | ⟨before, unguarded⟩
      · exact .inr (.inl guarded)
      · exact .inr (.inr ⟨before, unguarded, active, id⟩)

/-- A call that goes on, or ends, without a write. -/
theorem Stores.StepOk.quiet (idle : call.isRevoking = false) (plain : call'.isPlain = true)
    (moves : call'.isMoved = true → s.record.state.isStopped = true) (routine : s.routineOn a = true →
      call'.guards s.record.state.isStopped = true ∨ call.guards s.record.state.isStopped = false) :
    s.StepOk a call s call' :=
  .same (fun h => absurd (idle.symm.trans h) Bool.false_ne_true)
    (fun h => absurd h (SagaCall.not_inspected_of_plain plain)) moves
    (fun h => absurd h (SagaCall.not_checked_of_plain plain)) routine

/-- A routine that is off needs nobody to answer for it. -/
theorem Stores.StepOk.off (idle : call.isRevoking = false) (plain : call'.isPlain = true)
    (moves : call'.isMoved = true → s.record.state.isStopped = true)
    (off : s.routineOn a = false) : s.StepOk a call s call' :=
  .quiet idle plain moves fun on => absurd (off.symm.trans on) Bool.false_ne_true

/-! ## The steps of the calls -/

theorem Stores.storeActivation_ok {next refused : SagaCall}
    (stored : s.record.state.admits record.state = true → s.StepOk a call (s.setRecord record) next)
    (kept : s.record.state.admits record.state = false → s.StepOk a call s refused) :
    s.StepOk a call (s.storeActivation record next refused).1
      (s.storeActivation record next refused).2 := by
  unfold storeActivation
  split
  · exact stored ‹_›
  · rename_i refusal
    exact kept (by simpa using refusal)

theorem Stores.prepared_ok
    (run : s.ledger.prepareRevisionGrant a.accepted env.newId env.verdicts = .ok (reference, ledger)) :
    s.StepOk a .commitAbsent (s.setLedger ledger) (.commitReady reference false) := by
  obtain ⟨own, grant, inserted, state, spec, activation⟩ := Ledger.prepareRevisionGrant_ok run
  rcases Ledger.insertGrant_ok inserted with rfl | ⟨rfl, newId, newActivation⟩
  · exact .granting (.quiet rfl rfl) rfl id rfl rfl nofun rfl
  refine .granting (.inserted grant newId newActivation state ?_) rfl ?_ rfl rfl nofun rfl
  · rw [spec, own, activation]
  · rintro ⟨active, listed, this⟩
    exact ⟨active, List.mem_append_left _ listed, this⟩

theorem Stores.activated_ok {activated : GrantRef}
    (run : s.ledger.activateRevisionGrant reference env.verdicts env.now = .ok (activated, ledger)) :
    s.StepOk a (.commitStored reference false) (s.setLedger ledger) (.commitActivated activated) := by
  obtain ⟨grant, listed, rfl, state, live, rfl⟩ := Ledger.activateRevisionGrant_ok run
  refine .granting (.activated grant listed state live) rfl ?_ rfl rfl nofun rfl
  rintro ⟨active, here, own, isActive⟩
  refine ⟨_, List.mem_map_of_mem here, ?_⟩
  -- only a prepared grant is edited
  rw [if_neg (by simp [isActive])]
  exact ⟨own, isActive⟩

theorem Stores.inspected_active (sound : s.ledger.GrantsSound)
    {spec : GrantSpec} {state : GrantState}
    (inspected : s.ledger.inspectRevisionGrant reference = .ok (spec, state))
    (active : state = .active) (same : spec = a.spec) : GrantActive s.ledger a.activationId := by
  unfold Ledger.inspectRevisionGrant at inspected
  obtain ⟨grant, found, inspected⟩ := bind_ok.mp inspected
  cases inspected
  have listed := List.mem_of_find?_eq_some (okOr_ok.mp found)
  refine ⟨grant, listed, ?_, active⟩
  rw [← sound.own grant listed, same, a.own]

theorem Stores.setEnabled_ok (idle : call.isRevoking = false) (plain : call'.isPlain = true)
    (moves : call'.isMoved = true → s.record.state.isStopped = true) (enabled : Bool)
    (guarded : enabled = true → call'.guards s.record.state.isStopped = true) :
    s.StepOk a call (s.setEnabled a enabled) call' := by
  unfold setEnabled
  split
  · refine .routined idle plain moves ?_ (fun projections row listed bound => ?_) fun on => .inl ?_
    · cases s.cron <;> exact id
    · obtain ⟨before, here, rfl⟩ := Option.map_eq_some_iff.mp listed
      exact projections before here bound
    · refine guarded ?_
      cases enabled with
      | true => rfl
      | false => cases found : s.cron <;> simp [routineOn, setCron, found] at on
  · rename_i noRoutine
    exact .off idle plain moves (by simp [routineOn, noRoutine])

theorem Stores.bindWorkflow_some {bound : CronRow} (run : bindWorkflow a row = some bound) :
    bound.isProjection = row.isProjection ∧ (bound.enabled = true → bound = row) := by
  unfold bindWorkflow at run
  split at run
  · split at run
    · cases run
      exact ⟨rfl, fun _ => rfl⟩
    · cases run
  split at run
  · cases run
  · rename_i disabled
    cases run
    exact ⟨rfl, fun enabled => absurd enabled disabled⟩

theorem Stores.bindWorkflow_none (run : bindWorkflow a row = none) : row.isBound a = false := by
  unfold bindWorkflow at run
  split at run
  · rename_i binding found
    split at run
    · cases run
    · rename_i other
      simpa [CronRow.isBound, found] using other
  · rename_i found
    simp [CronRow.isBound, found]

theorem Stores.row_ok (env : Env) (projections : ∀ row ∈ s.cron, row.isBound a = true → row.isProjection = true)
    (checked : call.isChecked = true → s.cron.any CronRow.isProjection = true)
    (stage : call = .commitStored reference true ∨ call = .commitNoRow reference ∨
      call = .commitRow reference ∨ call = .commitChecked reference) :
    s.StepOk a call (s.perform a env call).1 (s.perform a env call).2 := by
  have weak {next : SagaCall} (same : next.guards s.record.state.isStopped =
      call.guards s.record.state.isStopped) : next.guards s.record.state.isStopped = true ∨
        call.guards s.record.state.isStopped = false := by
    rw [same]
    cases call.guards s.record.state.isStopped with
    | true => exact .inl rfl
    | false => exact .inr rfl
  rcases stage with rfl | rfl | rfl | rfl
  · simp only [perform]
    split
    · rename_i noRoutine
      exact .off rfl rfl nofun (by simp [routineOn, noRoutine])
    split
    · rename_i absent
      exact .off rfl rfl nofun (by simp [routineOn, absent])
    · exact .quiet rfl rfl nofun fun _ => weak rfl
  · simp only [perform]
    split
    · refine .routined rfl rfl nofun (fun _ => rfl) (fun _ row listed bound => ?_) fun on => ?_
      · obtain rfl := Option.some.inj listed
        cases bound
      · simp [routineOn, setCron, CronRow.isBound] at on
    · exact .quiet rfl rfl nofun fun _ => .inr rfl
  · simp only [perform]
    split
    · rename_i absent
      exact .off rfl rfl nofun (by simp [routineOn, absent])
    rename_i row found
    split
    · rename_i own
      exact .same nofun nofun nofun (fun _ => by simp [found, own]) fun _ => weak rfl
    rename_i other
    have unbound : row.isBound a = false := by
      by_contra bound
      exact other (projections row found (by simpa using bound))
    exact .off rfl rfl nofun (by simp [routineOn, found, unbound])
  · simp only [perform]
    have known := checked rfl
    cases found : s.cron with
    | none => exact .off rfl rfl nofun (by simp [routineOn, found])
    | some row =>
      rw [found] at known
      simp only [Option.bind_some]
      split
      · rename_i refused
        exact .off rfl rfl nofun (by simp [routineOn, found, bindWorkflow_none refused])
      rename_i bound stored
      obtain ⟨sameProjection, sameRow⟩ := bindWorkflow_some stored
      have own : bound.isProjection = true := sameProjection.trans known
      refine .routined rfl rfl nofun (fun _ => own) (fun _ row' listed _ => ?_) fun on => ?_
      · obtain rfl := Option.some.inj listed
        exact own
      · refine (weak rfl).imp_right fun unguarded => ⟨?_, unguarded⟩
        -- an enabled row was bound before
        have enabled : bound.enabled = true := by
          simp only [routineOn, setCron, Option.any_some, Bool.and_eq_true] at on
          exact on.2.2
        rw [sameRow enabled] at on
        simpa [routineOn, setCron, found] using on

theorem Stores.perform_ok (env : Env) (ordered : call.storesPrepared = true → s.record.state ≠ .active)
    (sound : s.ledger.GrantsSound) (moved : call.isMoved = true → s.record.state.isStopped = true)
    (checked : call.isChecked = true → s.cron.any CronRow.isProjection = true)
    (projections : ∀ row ∈ s.cron, row.isBound a = true → row.isProjection = true) :
    s.StepOk a call (s.perform a env call).1 (s.perform a env call).2 := by
  have ends {call : SagaCall} (idle : call.isRevoking = false)
      (unguarded : call.guards s.record.state.isStopped = false) : s.StepOk a call s .idle :=
    .quiet idle rfl nofun fun _ => .inr unguarded
  cases call with
  | idle => exact ends rfl rfl
  | commitRead =>
    simp only [perform]
    split
    · exact ends rfl rfl
    split
    · exact .quiet rfl rfl nofun fun _ => .inr rfl
    · split
      · exact ends rfl rfl
      · exact .quiet rfl rfl nofun fun _ => .inr rfl
  | commitAbsent =>
    simp only [perform]
    split
    · exact prepared_ok ‹_›
    · exact ends rfl rfl
  | commitReady reference activated =>
    cases activated with
    | true =>
      exact storeActivation_ok (fun admitted => .stored admitted nofun nofun rfl nofun (.inr (.inl rfl)))
        fun _ => ends rfl rfl
    | false =>
      exact storeActivation_ok (fun admitted => .stored admitted nofun nofun rfl nofun
        (.inr (.inr ⟨rfl, ordered rfl, nofun⟩))) fun _ => ends rfl rfl
  | commitStored reference activated =>
    cases activated with
    | true => exact row_ok env projections checked (.inl rfl)
    | false =>
      simp only [perform]
      split
      · exact activated_ok ‹_›
      · exact ends rfl rfl
  | commitActivated reference =>
    exact storeActivation_ok (fun admitted => .stored admitted nofun nofun rfl nofun (.inr (.inl rfl)))
      fun _ => ends rfl rfl
  | commitNoRow reference => exact row_ok env projections checked (.inr (.inl rfl))
  | commitRow reference => exact row_ok env projections checked (.inr (.inr (.inl rfl)))
  | commitChecked reference => exact row_ok env projections checked (.inr (.inr (.inr rfl)))
  | commitBound reference =>
    refine storeActivation_ok (fun admitted => .stored admitted nofun nofun rfl nofun (.inr (.inl rfl)))
      fun refused => ends rfl ?_
    rw [ActivationState.admits_false refused]
    rfl
  | commitArming reference =>
    refine setEnabled_ok rfl rfl ?_ true fun _ => rfl
    exact nofun
  | commitArmed reference =>
    simp only [perform]
    split
    · exact .quiet rfl rfl nofun fun _ => .inl rfl
    rename_i inspected
    split
    · rename_i met
      exact .same nofun (fun _ => inspected_active sound inspected met.1 met.2) nofun nofun
        fun _ => .inl rfl
    · exact .quiet rfl rfl nofun fun _ => .inl rfl
  | commitInspected reference =>
    exact storeActivation_ok (fun admitted => .stored admitted nofun (fun _ => rfl) rfl nofun (.inl rfl))
      fun _ => .quiet rfl rfl nofun fun _ => .inl rfl
  | commitFailing | stopRevoked =>
    refine setEnabled_ok rfl rfl ?_ false nofun
    exact nofun
  | revokeRead grant =>
    simp only [perform]
    split
    · exact .revocation ‹_› (.inl rfl) rfl rfl nofun (.inr rfl)
    · exact ends rfl rfl
  | revokeLedger grant =>
    refine storeActivation_ok
      (fun admitted => .stored admitted (fun _ => rfl) nofun rfl (fun _ => rfl) (.inr (.inl rfl)))
      fun refused => ?_
    exact .same (fun _ => ActivationState.admits_false refused) nofun nofun nofun fun _ => .inr rfl
  | revokeStored grant => exact setEnabled_ok rfl rfl (fun _ => moved rfl) false nofun
  | revokeDisabled grant =>
    have stopped := moved rfl
    refine storeActivation_ok (fun admitted => .stored admitted nofun nofun rfl nofun
      (.inr (.inr ⟨rfl, fun active => ?_, fun _ => stopped⟩))) fun _ => ends rfl rfl
    rw [active] at stopped
    cases stopped
  | stopRead grant expired =>
    simp only [perform]
    split
    · rename_i active
      have stopped : (if expired then ActivationState.expired else .suspended).isStopped = true := by
        cases expired <;> rfl
      refine .stored (by rw [active]; rfl) nofun (fun resumed => ?_) rfl (fun _ => stopped)
        (.inr (.inl rfl))
      replace resumed : (if expired then ActivationState.expired else .suspended) = .active := resumed
      rw [resumed] at stopped
      cases stopped
    · exact ends rfl rfl
  | stopMoved =>
    simp only [perform]
    split
    · exact .revocation ‹_› (.inr (moved rfl)) rfl rfl nofun (.inl rfl)
    · exact .quiet rfl rfl nofun fun _ => .inl rfl

end

/-! ## Whole runs -/

/-- No committer stores `grant_prepared` over `active`. -/
def Saga.Ordered (g : Saga) : SagaStep → Prop
  | .next k _ => (g.calls k).storesPrepared = true → g.stores.record.state ≠ .active
  | _ => True

instance (g : Saga) : ∀ move, Decidable (g.Ordered move)
  | .next k _ =>
    inferInstanceAs (Decidable ((g.calls k).storesPrepared = true → g.stores.record.state ≠ .active))
  | .commit _ | .revoke _ | .stop _ _ => .isTrue trivial

/-- What holds between the stores and the calls in progress. -/
structure Saga.Consistent (a : ActivationRequest) (g : Saga) : Prop where
  sound : g.stores.ledger.GrantsSound
  revoked : tombstoned g.stores.ledger a.activationId = true →
    g.stores.record.state.isStopped = true ∨ ∃ k, (g.calls k).isRevoking = true
  active : g.stores.record.state = .active →
    GrantActive g.stores.ledger a.activationId ∨ ∃ k, (g.calls k).isRevoking = true
  inspected : ∀ k, (g.calls k).isInspected = true →
    GrantActive g.stores.ledger a.activationId ∨ tombstoned g.stores.ledger a.activationId = true
  moved : ∀ k, (g.calls k).isMoved = true → g.stores.record.state.isStopped = true
  checked : ∀ k, (g.calls k).isChecked = true → g.stores.cron.any CronRow.isProjection = true
  projections : ∀ row ∈ g.stores.cron, row.isBound a = true → row.isProjection = true
  guarded : g.stores.routineOn a = true → g.stores.record.state = .active ∨
    ∃ k, (g.calls k).guards g.stores.record.state.isStopped = true

section
variable {a : ActivationRequest} {g : Saga}

variable {k : Nat} {call : SagaCall}

variable {calls : Nat → SagaCall} {p : SagaCall → Bool} {stores : Stores}

/-- A property of a call holds of the updated call or of an earlier one. -/
theorem update_exists (found : p call = true ∨ ∃ j, j ≠ k ∧ p (calls j) = true) :
    ∃ j, p (Function.update calls k call j) = true := by
  rcases found with here | ⟨j, other, there⟩
  · exact ⟨k, by rwa [Function.update_self]⟩
  · exact ⟨j, by rwa [Function.update_of_ne other]⟩

/-- A property of an updated call is one of the new call or of an earlier one. -/
theorem update_cases {j : Nat}
    (found : p (Function.update calls k call j) = true) : p call = true ∨ p (calls j) = true := by
  by_cases same : j = k
  · rw [same, Function.update_self] at found
    exact .inl found
  · rw [Function.update_of_ne same] at found
    exact .inr found

/-- A revoker that has not stored it yet is still there, or the activation is stopped. -/
theorem Stores.StepOk.revoking_stays
    (ok : g.stores.StepOk a (g.calls k) stores call) (found : ∃ j, (g.calls j).isRevoking = true) :
    stores.record.state.isStopped = true ∨ ∃ j, (Function.update g.calls k call j).isRevoking = true := by
  obtain ⟨j, revoking⟩ := found
  by_cases same : j = k
  · subst same
    exact .inl (ok.revoking revoking)
  · exact .inr (update_exists (p := SagaCall.isRevoking) (.inr ⟨j, same, revoking⟩))

theorem Saga.Consistent.next (consistent : g.Consistent a) (ok : g.stores.StepOk a (g.calls k) stores call) :
    Saga.Consistent a { stores := stores, calls := Function.update g.calls k call } where
  sound := ok.sound consistent.sound
  revoked := by
    intro tombstone
    rcases ok.revokes tombstone with before | announced | stopped
    · rcases consistent.revoked before with stopped | found
      · exact .inl (ok.stopped stopped)
      · exact ok.revoking_stays found
    · exact .inr (update_exists (p := SagaCall.isRevoking) (.inl announced))
    · exact .inl stopped
  active := by
    intro active
    have notStopped : stores.record.state.isStopped ≠ true := by
      rw [show stores.record.state = .active from active]
      decide
    have stillRevoking (found : ∃ j, (g.calls j).isRevoking = true) :
        ∃ j, (Function.update g.calls k call j).isRevoking = true := by
      rcases ok.revoking_stays found with stopped | found'
      · exact absurd stopped notStopped
      · exact found'
    have fromRevoked (tombstone : tombstoned stores.ledger a.activationId = true) :
        ∃ j, (Function.update g.calls k call j).isRevoking = true := by
      rcases ok.revokes tombstone with before | announced | stopped
      · rcases consistent.revoked before with stopped | found
        · exact absurd (ok.stopped stopped) notStopped
        · exact stillRevoking found
      · exact update_exists (p := SagaCall.isRevoking) (.inl announced)
      · exact absurd stopped notStopped
    have fromGranted (granted : GrantActive g.stores.ledger a.activationId) :
        GrantActive stores.ledger a.activationId ∨ ∃ j, (Function.update g.calls k call j).isRevoking = true :=
      (ok.granted granted).imp_right fromRevoked
    rcases ok.activates active with before | ⟨inspected, -⟩
    · rcases consistent.active before with granted | found
      · exact fromGranted granted
      · exact .inr (stillRevoking found)
    · rcases consistent.inspected k inspected with granted | tombstone
      · exact fromGranted granted
      · exact .inr (fromRevoked (ok.revoked tombstone))
  inspected := by
    intro j inspected
    rcases update_cases (p := SagaCall.isInspected) inspected with now | before
    · exact .inl (ok.inspects now)
    · rcases consistent.inspected j before with granted | tombstone
      · exact ok.granted granted
      · exact .inr (ok.revoked tombstone)
  moved := by
    intro j moved
    rcases update_cases (p := SagaCall.isMoved) moved with now | before
    · exact ok.moves now
    · exact ok.stopped (consistent.moved j before)
  checked := by
    intro j checked
    rcases update_cases (p := SagaCall.isChecked) checked with now | before
    · exact ok.checks now
    · exact ok.checked (consistent.checked j before)
  projections := ok.projects consistent.projections
  guarded := by
    intro on
    rcases ok.routine on with active | guards | ⟨before, unguarded, inactive, stays⟩
    · exact .inl active
    · exact .inr (update_exists (p := SagaCall.guards stores.record.state.isStopped) (.inl guards))
    rcases consistent.guarded before with active | ⟨j, guards⟩
    · exact absurd active inactive
    refine .inr (update_exists (p := SagaCall.guards stores.record.state.isStopped)
      (.inr ⟨j, ?_, ?_⟩))
    · rintro rfl
      rw [unguarded] at guards
      cases guards
    · have same : stores.record.state.isStopped = g.stores.record.state.isStopped :=
        Bool.eq_iff_iff.mpr ⟨stays, ok.stopped⟩
      rwa [same]

theorem Saga.Consistent.enter (consistent : g.Consistent a) (k : Nat)
    (plain : call.isPlain = true) (unmoved : call.isMoved = false) : (g.enter k call).Consistent a := by
  unfold Saga.enter
  split
  · rename_i idle
    refine consistent.next ?_
    rw [idle]
    exact .quiet rfl plain (fun h => absurd (unmoved.symm.trans h) Bool.false_ne_true) fun _ => .inr rfl
  · exact consistent

theorem Saga.Consistent.step (consistent : g.Consistent a) {move : SagaStep}
    (ordered : g.Ordered move) : (g.step a move).Consistent a := by
  cases move with
  | commit k | revoke k | stop k expired =>
    simp only [Saga.step]
    split
    · exact consistent
    · exact consistent.enter k rfl rfl
  | next k env =>
    exact consistent.next (Stores.perform_ok env ordered consistent.sound (consistent.moved k)
      (consistent.checked k) consistent.projections)

end

/-! ## A stopped activation -/

variable {s : Stores} {a : ActivationRequest}

theorem Stores.storeActivation_stopped (stopped : s.record.state.isStopped = true)
    (record : ActivationRecord) (next refused : SagaCall) :
    (s.storeActivation record next refused).1.record.state.isStopped = true := by
  unfold storeActivation
  split
  · rename_i admitted
    show record.state.isStopped = true
    revert admitted stopped
    cases s.record.state <;> cases record.state <;> decide
  · exact stopped

theorem Stores.setEnabled_record (a : ActivationRequest) (s : Stores) (enabled : Bool) :
    (s.setEnabled a enabled).record = s.record := by
  unfold setEnabled
  split <;> rfl

theorem Stores.perform_stopped (env : Env) (call : SagaCall)
    (stopped : s.record.state.isStopped = true) : (s.perform a env call).1.record.state.isStopped = true := by
  cases call with
  | commitReady reference activated | commitActivated reference | commitBound reference
  | commitInspected reference | revokeLedger grant | revokeDisabled grant => exact storeActivation_stopped stopped _ _ _
  | commitArming reference | commitFailing | revokeStored grant | stopRevoked =>
    simp only [perform, setEnabled_record]
    exact stopped
  | stopRead grant expired =>
    simp only [perform]
    split
    · rename_i active
      rw [active] at stopped
      cases stopped
    · exact stopped
  | idle => exact stopped
  | commitAbsent | revokeRead grant | stopMoved | commitNoRow reference | commitChecked reference =>
    simp only [perform]
    split <;> exact stopped
  | commitRow reference | commitArmed reference =>
    simp only [perform]
    split
    · exact stopped
    · split <;> exact stopped
  | commitRead =>
    simp only [perform]
    split
    · exact stopped
    · split
      · exact stopped
      · split <;> exact stopped
  | commitStored reference activated =>
    cases activated with
    | true =>
      simp only [perform]
      split
      · exact stopped
      · split <;> exact stopped
    | false =>
      simp only [perform]
      split <;> exact stopped

theorem Saga.enter_stores (g : Saga) (k : Nat) (call : SagaCall) : (g.enter k call).stores = g.stores := by
  unfold enter
  split <;> rfl

theorem Saga.step_stopped {g : Saga} (move : SagaStep) (stopped : g.stores.record.state.isStopped = true) :
    (g.step a move).stores.record.state.isStopped = true := by
  cases move with
  | next k env => exact Stores.perform_stopped env _ stopped
  | _ =>
    simp only [step]
    split
    · exact stopped
    · rw [enter_stores]
      exact stopped

/-- An activation that has been requested: nothing of it is revoked or bound yet. -/
structure Stores.Fresh (a : ActivationRequest) (s : Stores) : Prop where
  requested : s.record.state = .prepared
  sound : s.ledger.GrantsSound
  authorised : tombstoned s.ledger a.activationId = false
  unbound : ∀ row ∈ s.cron, row.isBound a = false

theorem Stores.Fresh.consistent (fresh : s.Fresh a) : Saga.Consistent a { stores := s } where
  sound := fresh.sound
  revoked := fun tombstone => absurd (fresh.authorised.symm.trans tombstone) Bool.false_ne_true
  active := fun active => nomatch fresh.requested.symm.trans active
  inspected := fun _ h => absurd h Bool.false_ne_true
  moved := fun _ h => absurd h Bool.false_ne_true
  checked := fun _ h => absurd h Bool.false_ne_true
  projections := fun row listed bound =>
    absurd ((fresh.unbound row listed).symm.trans bound) Bool.false_ne_true
  guarded := by
    intro on
    obtain ⟨row, found, met⟩ := (Option.any_eq_true _ _).mp (Bool.and_eq_true_iff.mp on).2
    rw [fresh.unbound row found] at met
    cases met

/-- **The activation saga.**  Whatever the interleaving of the storage steps of commits,
revocations, suspensions and expiries: a stopped activation never becomes active again.
And if no committer stores `grant_prepared` over `active`: when all calls have returned,
the bound routine is enabled only if the activation's stored state and its ledger grant
are active. -/
theorem saga_consistent (a : ActivationRequest) (stores : Stores) (fresh : stores.Fresh a)
    (front back : List SagaStep) : let g := run (Saga.step a) { stores := stores } front
    (g.stores.record.state.isStopped = true →
      (run (Saga.step a) { stores := stores } (front ++ back)).stores.record.state ≠ .active) ∧
    (Obeys (Saga.step a) Saga.Ordered { stores := stores } front → (∀ k, g.calls k = .idle) →
      g.stores.routineOn a = true →
      g.stores.record.state = .active ∧ GrantActive g.stores.ledger a.activationId) := by
  intro g
  refine ⟨fun stopped active => ?_, fun ordered returned on => ?_⟩
  · have still : (run (Saga.step a) { stores := stores }
        (front ++ back)).stores.record.state.isStopped = true := by
      rw [run_append]
      exact run_invariant (fun g : Saga => g.stores.record.state.isStopped = true)
        (fun _ move stopped _ => Saga.step_stopped move stopped) stopped (obeys_true _ back)
    rw [active] at still
    cases still
  · have consistent : g.Consistent a :=
      run_invariant (Saga.Consistent a) (fun _ _ consistent ordered => consistent.step ordered)
        fresh.consistent ordered
    have active : g.stores.record.state = .active := by
      rcases consistent.guarded on with active | ⟨k, guards⟩
      · exact active
      · rw [returned k] at guards
        cases guards
    refine ⟨active, ?_⟩
    rcases consistent.active active with granted | ⟨k, revoking⟩
    · exact granted
    · rw [returned k] at revoking
      cases revoking

def SagaStep.key : SagaStep → Nat
  | .commit k | .revoke k | .stop k _ | .next k _ => k

theorem run_untouched {g : Saga} {moves : List SagaStep} {k : Nat}
    (other : ∀ move ∈ moves, k ≠ move.key) : (run (Saga.step a) g moves).calls k = g.calls k := by
  induction moves generalizing g with
  | nil => rfl
  | cons move rest ih =>
    have entered (j : Nat) (call : SagaCall) (ne : k ≠ j) : (g.enter j call).calls k = g.calls k := by
      unfold Saga.enter
      split
      · exact Function.update_of_ne ne _ _
      · rfl
    have one : (g.step a move).calls k = g.calls k := by
      have ne := other move List.mem_cons_self
      cases move with
      | next j env => exact Function.update_of_ne ne _ _
      | commit j | revoke j | stop j expired =>
        simp only [Saga.step]
        split
        · rfl
        · exact entered j _ ne
    rw [run_cons, ih fun later listed => other later (List.mem_cons_of_mem _ listed), one]

/-! Two committers, the second of which read the grant before the first activated it. -/

namespace Committed

def activation : ActivationRequest where
  activationId := ['a']
  acceptanceId := ['c']
  materialHash := ['m']
  spec := ⟨['a'], ['h'], 100⟩
  own := rfl
  cron := true

def env : Env := ⟨true, ⟨true, true, true, true, true, true⟩, ['g'], 0, ['r']⟩

/-- Several storage steps of one call. -/
def nexts (k n : Nat) : List SagaStep := List.replicate n (.next k env)

/-- From the read of the projection to `active`, when the grant is new. -/
def whole (k : Nat) : List SagaStep := .commit k :: nexts k 13

def raced : List SagaStep :=
  (.commit 0 :: nexts 0 2) ++ (.commit 1 :: nexts 1 1) ++ nexts 0 11 ++ nexts 1 2

def start : Saga := { stores := {} }

theorem start_fresh : start.stores.Fresh activation where
  requested := rfl
  sound := ⟨List.nodup_nil, List.nodup_nil, List.forall_mem_nil _⟩
  authorised := rfl
  unbound := nofun

/-- The activation is left `grant_prepared` with its routine enabled. -/
theorem routine_without_activation : (∀ k, (run (Saga.step activation) start raced).calls k = .idle) ∧
    (run (Saga.step activation) start raced).stores.routineOn activation = true ∧
    (run (Saga.step activation) start raced).stores.record.state = .grantPrepared := by
  refine ⟨fun k => ?_, by decide, by decide⟩
  by_cases known : k = 0 ∨ k = 1
  · rcases known with rfl | rfl
    · rfl
    · rfl
  rw [not_or] at known
  refine run_untouched fun move listed => ?_
  have keys : ∀ move ∈ raced, move.key = 0 ∨ move.key = 1 := by decide
  rcases keys move listed with key | key
  · rw [key]
    exact known.1
  · rw [key]
    exact known.2

theorem saga_consistent_committed :
    (run (Saga.step activation) start (whole 0)).stores.routineOn activation = true ∧
    (run (Saga.step activation) start (whole 0)).stores.record.state = .active ∧
    GrantActive (run (Saga.step activation) start (whole 0)).stores.ledger ['a'] := by
  have on : (run (Saga.step activation) start (whole 0)).stores.routineOn activation = true := by
    decide
  refine ⟨on, (saga_consistent activation start.stores start_fresh (whole 0) []).2
    (by decide) (fun k => ?_) on⟩
  by_cases known : k = 0
  · rw [known]
    rfl
  refine run_untouched fun move listed => ?_
  have keys : ∀ move ∈ whole 0, move.key = 0 := by decide
  rw [keys move listed]
  exact known

end Committed

end DuDuClaw.Workflow
