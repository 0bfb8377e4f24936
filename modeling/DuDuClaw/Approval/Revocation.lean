/-
# Approval.Revocation -- a revoked activation stays revoked

A revoked activation leaves a tombstone in the ledger.  Preparing or activating its grant
looks for the tombstone, and so does every begin of an operation of one of its runs, each
in its own transaction.

* `Ledger.GrantsSound`: an activation has one grant, whose specification names it.
* `activation_revocation_absolute`: once an activation is revoked, no grant of it is
  active and no operation of one of its runs begins.
-/
import DuDuClaw.Approval.Operations

namespace DuDuClaw.Approval

open DuDuClaw.Lib

/-! ## One step -/

/-- What one call can do to the grants and the revocations. -/
inductive Ledger.GrantChange (s : Ledger) : Ledger → Prop
  | quiet {s' : Ledger} (grants : s'.grants = s.grants) (revocations : s'.revocations = s.revocations) :
      GrantChange s s'
  | inserted (grant : RevisionGrant) (newId : ∀ other ∈ s.grants, other.grantId ≠ grant.grantId)
      (newActivation : ∀ other ∈ s.grants, other.activationId ≠ grant.activationId)
      (state : grant.state = .prepared) (own : grant.spec.activationId = grant.activationId) :
      GrantChange s { s with grants := s.grants ++ [grant] }
  | activated (grant : RevisionGrant) (listed : grant ∈ s.grants) (state : grant.state = .prepared)
      (live : (s.revocations.lookup grant.spec.activationId).isSome = false) :
      GrantChange s (s.editGrants grant.grantId
        (fun g => g.reference == grant.reference && g.state == .prepared)
        fun g => { g with state := .active, epoch := g.epoch + 1 })
  | revoked {s' : Ledger} (id : Text) (guard : RevisionGrant → Bool)
      (grants : s'.grants = (s.editGrants id guard RevisionGrant.revoke).grants)
      (kept : ∀ activation, (s.revocations.lookup activation).isSome = true →
        (s'.revocations.lookup activation).isSome = true) : GrantChange s s'

theorem Ledger.insertOperation_quiet {s s' : Ledger} {op : Operation}
    (inserted : s.insertOperation op = .ok s') : s.GrantChange s' := by
  rcases insertOperation_ok inserted with rfl | ⟨rfl, -⟩
  · exact .quiet rfl rfl
  · exact .quiet rfl rfl

/-- A revocation is never taken back. -/
theorem Ledger.addRevocation_kept (s : Ledger) (activationId specHash : Text) (activation : Text)
    (known : (s.revocations.lookup activation).isSome = true) :
    ((s.addRevocation activationId specHash).revocations.lookup activation).isSome = true := by
  unfold addRevocation
  split
  · exact known
  obtain ⟨hash, found⟩ := Option.isSome_iff_exists.mp known
  obtain ⟨hash', found'⟩ := @lookup_cons_some _ _ _ _ s.revocations activation activationId specHash
    ⟨hash, found⟩
  exact Option.isSome_iff_exists.mpr ⟨hash', found'⟩

theorem Ledger.addRevocation_added (s : Ledger) (activationId specHash : Text) :
    ((s.addRevocation activationId specHash).revocations.lookup activationId).isSome = true := by
  unfold addRevocation
  split
  · assumption
  · simp

theorem Ledger.addRevocation_grants (s : Ledger) (activationId specHash : Text) :
    (s.addRevocation activationId specHash).grants = s.grants := by
  unfold addRevocation
  split <;> rfl

theorem Ledger.revokeWorkflowActivation_change {s s' : Ledger} {activationId specHash reason : Text}
    {revocation : Option GrantRevocation}
    (run : s.revokeWorkflowActivation activationId specHash reason = .ok (revocation, s')) :
    s.GrantChange s' := by
  rcases revokeWorkflowActivation_ok run with ⟨-, rfl⟩ | ⟨grant, -, rfl⟩
  · refine .revoked [] (fun _ => false) ?_ (s.addRevocation_kept activationId specHash)
    rw [addRevocation_grants]
    simp [editGrants]
  refine .revoked grant.grantId (fun g => g.epoch == grant.epoch && g.state != .revoked) ?_
    (s.addRevocation_kept activationId specHash)
  unfold editGrants
  rw [addRevocation_grants]

theorem Machine.step_grantChange (m : Machine) (action : Action) :
    m.ledger.GrantChange (m.step action).ledger := by
  cases action with
  | prepareOperation approvalId stepKey providerKey card newId verdicts =>
    simp only [step]
    split
    · rename_i prepared
      obtain ⟨op, inserted, -⟩ := Ledger.prepareOperation_ok prepared
      exact Ledger.insertOperation_quiet inserted
    · exact .quiet rfl rfl
  | prepareGrantedOperation reference stepKey payloadHash binding providerKey newId verdicts now =>
    simp only [step]
    split
    · rename_i prepared
      obtain ⟨op, inserted, -⟩ := Ledger.prepareGrantedOperation_ok prepared
      exact Ledger.insertOperation_quiet inserted
    · exact .quiet rfl rfl
  | claimOperation id expected owner leaseSeconds token verdicts now =>
    simp only [step]
    split
    · rename_i claimed
      obtain ⟨op, -, -, -, rfl, -⟩ := Ledger.claimOperation_ok claimed
      exact .quiet rfl rfl
    · exact .quiet rfl rfl
  | beginExecution claim current verdicts now =>
    simp only [step]
    split
    · rename_i began
      obtain ⟨-, op, -, -, -, -, -, rfl⟩ := Ledger.beginExecution_ok began
      exact .quiet rfl rfl
    · exact .quiet rfl rfl
  | settleOperation claim state receipt error now =>
    simp only [step]
    split
    · rename_i settled
      obtain ⟨-, op, -, -, -, -, rfl⟩ := Ledger.settleOperation_ok settled
      exact .quiet rfl rfl
    · exact .quiet rfl rfl
  | recoverOperations now | invalidateLiveOnRestart => exact .quiet rfl rfl
  | resolveUncertain id expectedFence succeeded receipt actor reason =>
    simp only [step]
    split
    · rename_i resolved
      obtain ⟨op, -, -, -, rfl⟩ := Ledger.resolveUncertain_ok resolved
      exact .quiet rfl rfl
    · exact .quiet rfl rfl
  | prepareRevisionGrant accepted newId verdicts =>
    simp only [step]
    split
    · rename_i prepared
      obtain ⟨own, grant, inserted, state, spec, activation⟩ :=
        Ledger.prepareRevisionGrant_ok prepared
      rcases Ledger.insertGrant_ok inserted with rfl | ⟨rfl, newGrant, newActivation⟩
      · exact .quiet rfl rfl
      · exact .inserted grant newGrant newActivation state (by rw [spec, own, activation])
    · exact .quiet rfl rfl
  | activateRevisionGrant reference verdicts now =>
    simp only [step]
    split
    · rename_i activated
      obtain ⟨grant, listed, rfl, state, live, rfl⟩ := Ledger.activateRevisionGrant_ok activated
      exact .activated grant listed state live
    · exact .quiet rfl rfl
  | revokeWorkflowActivation activationId specHash reason =>
    simp only [step]
    split
    · rename_i revoked
      exact Ledger.revokeWorkflowActivation_change revoked
    · exact .quiet rfl rfl
  | revokeRevisionGrant reference reason =>
    simp only [step]
    split
    · rename_i revoked
      obtain rfl := Ledger.revokeRevisionGrant_ok revoked
      exact .revoked reference.grantId _ rfl fun _ known => known
    · exact .quiet rfl rfl
  | createRun run =>
    simp only [step]
    split
    · exact .quiet rfl rfl
    · exact .quiet rfl rfl

/-! ## Grants of one activation -/

/-- An activation has one grant, whose specification names it. -/
structure Ledger.GrantsSound (s : Ledger) : Prop where
  ids : (s.grants.map RevisionGrant.grantId).Nodup
  activations : (s.grants.map RevisionGrant.activationId).Nodup
  own : ∀ grant ∈ s.grants, grant.spec.activationId = grant.activationId

section
variable {s s' : Ledger}

variable {id activationId : Text}

variable {guard : RevisionGrant → Bool} {edit : RevisionGrant → RevisionGrant} {specHash reason : Text}
  {revocation : Option GrantRevocation} {binding : ExecutionBinding} {run : RunRecord}

theorem Ledger.editGrants_map {β : Type}
    {column : RevisionGrant → β} (keeps : ∀ g, column (edit g) = column g) :
    (s.editGrants id guard edit).grants.map column = s.grants.map column := by
  unfold editGrants
  rw [List.map_map]
  refine List.map_congr_left fun g _ => ?_
  show column (if g.grantId == id && guard g then edit g else g) = column g
  split
  · exact keeps g
  · rfl

theorem Ledger.editGrants_sound (sound : s.GrantsSound)
    (grants : s'.grants = (s.editGrants id guard edit).grants) (keepsId : ∀ g, (edit g).grantId = g.grantId)
    (keepsActivation : ∀ g, (edit g).activationId = g.activationId)
    (keepsSpec : ∀ g, (edit g).spec = g.spec) : s'.GrantsSound := by
  refine ⟨?_, ?_, ?_⟩
  · rw [grants, editGrants_map keepsId]
    exact sound.ids
  · rw [grants, editGrants_map keepsActivation]
    exact sound.activations
  · rw [grants]
    intro g after
    obtain ⟨before, listed, rfl⟩ := List.mem_map.mp after
    split
    · rw [keepsSpec, keepsActivation]
      exact sound.own before listed
    · exact sound.own before listed

theorem Ledger.GrantsSound.change (sound : s.GrantsSound) (change : s.GrantChange s') : s'.GrantsSound := by
  cases change with
  | quiet grants revocations =>
    exact ⟨grants ▸ sound.ids, grants ▸ sound.activations, grants ▸ sound.own⟩
  | inserted grant newId newActivation state own =>
    refine ⟨?_, ?_, ?_⟩
    · exact nodup_map_concat sound.ids newId
    · exact nodup_map_concat sound.activations newActivation
    · intro other after
      rcases List.mem_append.mp after with before | this
      · exact sound.own other before
      · exact List.mem_singleton.mp this ▸ own
  | activated grant listed state live =>
    exact editGrants_sound sound rfl (fun _ => rfl) (fun _ => rfl) fun _ => rfl
  | revoked id guard grants kept =>
    exact editGrants_sound sound grants (fun _ => rfl) (fun _ => rfl) fun _ => rfl

structure Ledger.Revoked (s : Ledger) (activationId : Text) : Prop where
  tombstone : (s.revocations.lookup activationId).isSome = true
  inactive : ∀ grant ∈ s.grants, grant.activationId = activationId → grant.state ≠ .active

theorem Ledger.Revoked.change (sound : s.GrantsSound)
    (revoked : s.Revoked activationId) (change : s.GrantChange s') : s'.Revoked activationId := by
  cases change with
  | quiet grants revocations =>
    exact ⟨revocations ▸ revoked.tombstone, grants ▸ revoked.inactive⟩
  | inserted grant newId newActivation state own =>
    refine ⟨revoked.tombstone, fun other after same => ?_⟩
    rcases List.mem_append.mp after with before | this
    · exact revoked.inactive other before same
    · rw [List.mem_singleton.mp this, state]
      intro active
      cases active
  | activated grant listed state live =>
    refine ⟨revoked.tombstone, fun other after same => ?_⟩
    obtain ⟨before, here, rfl⟩ := List.mem_map.mp after
    split
    · -- the activated grant is the one whose activation was found not revoked
      rename_i met
      rw [if_pos met] at same
      simp only [Bool.and_eq_true, beq_iff_eq] at met
      obtain rfl := List.inj_on_of_nodup_map sound.ids here listed met.1
      rw [sound.own _ here, show before.activationId = activationId from same, revoked.tombstone] at live
      cases live
    · rename_i kept
      rw [if_neg kept] at same
      exact revoked.inactive before here same
  | revoked id guard grants kept =>
    refine ⟨kept _ revoked.tombstone, fun other after same => ?_⟩
    rw [grants] at after
    obtain ⟨before, here, rfl⟩ := List.mem_map.mp after
    split
    · intro active
      cases active
    · rename_i unchanged
      rw [if_neg unchanged] at same
      exact revoked.inactive before here same

theorem Ledger.revokeWorkflowActivation_tombstone
    (run : s.revokeWorkflowActivation activationId specHash reason = .ok (revocation, s')) :
    (s'.revocations.lookup activationId).isSome = true := by
  rcases revokeWorkflowActivation_ok run with ⟨-, rfl⟩ | ⟨grant, -, rfl⟩
  · exact s.addRevocation_added activationId specHash
  · exact s.addRevocation_added activationId specHash

theorem Ledger.revokeWorkflowActivation_revoked (sound : s.GrantsSound)
    (run : s.revokeWorkflowActivation activationId specHash reason = .ok (revocation, s')) :
    s'.Revoked activationId := by
  have tombstone := revokeWorkflowActivation_tombstone run
  rcases revokeWorkflowActivation_ok run with ⟨absent, rfl⟩ | ⟨grant, found, rfl⟩
  · refine ⟨tombstone, fun other listed same => ?_⟩
    rw [addRevocation_grants] at listed
    have different := List.find?_eq_none.mp absent other listed
    exact absurd same (by simpa using different)
  refine ⟨tombstone, fun other after same => ?_⟩
  unfold editGrants at after
  rw [addRevocation_grants] at after
  obtain ⟨before, here, rfl⟩ := List.mem_map.mp after
  have sameActivation : before.activationId = activationId := by
    revert same
    split <;> exact id
  have foundActivation : grant.activationId = activationId := by
    simpa using List.find?_some found
  obtain rfl := List.inj_on_of_nodup_map sound.activations here (List.mem_of_find?_eq_some found)
    (sameActivation.trans foundActivation.symm)
  split
  · exact nofun
  · rename_i unchanged
    intro active
    exact unchanged (by simp [active])

theorem Ledger.workflowRunAuthority_live
    {authority : Option (Text × GrantRef)} (workflow : binding.isWorkflow = true)
    (read : s.workflowRunAuthority binding = .ok authority)
    (found : s.findRun binding.runId = some run) (activation : run.activationId = some activationId) :
    (s.revocations.lookup activationId).isSome = false := by
  unfold workflowRunAuthority at read
  rw [if_pos workflow, found] at read
  obtain ⟨record, same, read⟩ := bind_ok.mp read
  obtain rfl := Option.some.inj (okOr_ok.mp same)
  rw [activation] at read
  split at read
  · rename_i here _
    obtain rfl := Option.some.inj here
    obtain ⟨_, live, -⟩ := bind_ok.mp read
    rw [checkActivationNotRevoked, refuseIf_ok, Bool.not_eq_true] at live
    exact live
  · rename_i here _
    cases here
  · cases read

theorem Ledger.checkOperationAuthority_live
    {verdicts : Verdicts} {now : Int} {u : Unit} (workflow : binding.isWorkflow = true)
    (checked : s.checkOperationAuthority id binding verdicts now = .ok u)
    (found : s.findRun binding.runId = some run) (activation : run.activationId = some activationId) :
    (s.revocations.lookup activationId).isSome = false := by
  unfold checkOperationAuthority at checked
  obtain ⟨op, -, checked⟩ := bind_ok.mp checked
  rw [if_pos workflow] at checked
  obtain ⟨authority, read, -⟩ := bind_ok.mp checked
  exact workflowRunAuthority_live workflow read found activation

end

theorem run_grantsSound (actions : List Action) : (run Machine.step {} actions).ledger.GrantsSound := by
  have start : Ledger.GrantsSound {} :=
    ⟨List.nodup_nil, List.nodup_nil, List.forall_mem_nil _⟩
  exact run_invariant (fun m : Machine => m.ledger.GrantsSound)
    (fun m action sound _ => sound.change (m.step_grantChange action)) start (obeys_true _ actions)

/-- **The revocation of an activation is absolute.**  After it has returned, whatever calls
follow, no grant of the activation is active, and no begin returns for an operation of
one of its runs, whether a grant or a person authorised it. -/
theorem activation_revocation_absolute (actions later : List Action)
    {activationId specHash reason : Text} {revocation : Option GrantRevocation} {ledger : Ledger}
    (revoked : (run Machine.step {} actions).ledger.revokeWorkflowActivation activationId specHash
      reason = .ok (revocation, ledger)) :
    let m := run Machine.step {} (actions ++ .revokeWorkflowActivation activationId specHash reason :: later)
    (∀ grant ∈ m.ledger.grants, grant.activationId = activationId → grant.state ≠ .active) ∧
    ∀ claim current verdicts now after, m.ledger.beginExecution claim current verdicts now = .ok after →
      ∀ op ∈ m.ledger.operations, op.operationId = claim.operationId → op.binding.isWorkflow = true →
        ∀ record, m.ledger.findRun op.binding.runId = some record →
          record.activationId ≠ some activationId := by
  intro m
  have revokedNow : m.ledger.Revoked activationId := by
    have first : ((run Machine.step {} actions).step
        (.revokeWorkflowActivation activationId specHash reason)).ledger = ledger := by
      simp only [Machine.step, revoked]
    have sound := (run_grantsSound actions).change (Ledger.revokeWorkflowActivation_change revoked)
    have start := Ledger.revokeWorkflowActivation_revoked (run_grantsSound actions) revoked
    show (run Machine.step {} (actions ++ _ :: later)).ledger.Revoked activationId
    rw [run_append, run_cons]
    refine (run_invariant
      (fun m : Machine => m.ledger.GrantsSound ∧ m.ledger.Revoked activationId)
      (fun m action both _ => ?_) ?_ (obeys_true _ later)).2
    · have change := m.step_grantChange action
      exact ⟨both.1.change change, both.2.change both.1 change⟩
    · rw [first]
      exact ⟨sound, start⟩
  refine ⟨revokedNow.inactive, ?_⟩
  intro claim current verdicts now after began op listed same workflow record found activation
  obtain ⟨⟨u, checked⟩, held, here, heldId, -, -, rfl, -⟩ := Ledger.beginExecution_ok began
  obtain rfl := (run_sound _).unique here listed (heldId.trans same.symm)
  have live := Ledger.checkOperationAuthority_live workflow checked found activation
  rw [revokedNow.tombstone] at live
  cases live

/-! An operation under an active grant, claimed when the activation is revoked. -/

namespace Granted

def binding : ExecutionBinding := ⟨['r'], .workflow, .workflowV1, ['m']⟩

def passing : Verdicts := ⟨true, true, true, true, true, true⟩

def accepted : AcceptedRevisionGrant := ⟨['a'], ['c'], ['c'], ⟨['a'], ['h'], 100⟩, ['h']⟩

def actions : List Action :=
  [.prepareRevisionGrant accepted ['g'] passing, .activateRevisionGrant ⟨['g'], 1, ['h']⟩ passing 0,
    .createRun ⟨['r'], some ['a'], some ⟨['g'], 2, ['h']⟩, false⟩,
    .prepareGrantedOperation ⟨['g'], 2, ['h']⟩ ['k'] ['p'] binding none ['o'] passing 0,
    .claimOperation ['o'] binding ['w'] 10 ['t'] passing 0]

def claim : OperationClaim := ⟨['o'], ['t'], 1, ['w']⟩

def claimed : Machine := run Machine.step {} actions

def revoked : Machine :=
  run Machine.step {} (actions ++ [.revokeWorkflowActivation ['a'] ['h'] ['x']])

theorem activation_revocation_absolute_claimed :
    (∃ after, claimed.ledger.beginExecution claim binding passing 1 = .ok after) ∧
    (∀ grant ∈ revoked.ledger.grants, grant.activationId = ['a'] → grant.state ≠ .active) ∧
    ∀ after, revoked.ledger.beginExecution claim binding passing 1 ≠ .ok after := by
  obtain ⟨inactive, refused⟩ := @activation_revocation_absolute actions [] ['a'] ['h'] ['x'] _ _ rfl
  refine ⟨⟨_, rfl⟩, inactive, fun after began => ?_⟩
  obtain ⟨op, found⟩ : ∃ op, revoked.ledger.findOperation ['o'] = some op := ⟨_, rfl⟩
  obtain ⟨listed, same⟩ := Ledger.findOperation_mem found
  have bound : op.binding = binding := by
    cases found
    rfl
  exact refused claim binding passing 1 after began op listed same (by rw [bound]; rfl)
    ⟨['r'], some ['a'], some ⟨['g'], 2, ['h']⟩, false⟩ (by rw [bound]; rfl) rfl

end Granted

end DuDuClaw.Approval
