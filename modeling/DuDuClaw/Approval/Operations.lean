/-
# Approval.Operations -- side effects happen at most once

Any number of executors call the ledger, in any order; an executor may crash or stall
between two calls and wake up long after its lease was taken over.

The machine below keeps, beside the ledger, what the calls returned: every claim with
the end of its lease, and every claim that began.

* `Machine.Sound`, `run_sound`: a row is held by the latest claim of its operation, and
  an operation that is executing was begun by that claim.
* `operations_at_most_once`: one operation a step, one begin an operation, by the latest
  claim under a live lease; only that claim settles it; a success or a failure is final.
-/
import DuDuClaw.Lib.Runs
import DuDuClaw.Lib.Table
import DuDuClaw.Approval.Ledger

namespace DuDuClaw.Approval

open DuDuClaw.Lib

structure Machine where
  ledger : Ledger := {}
  /-- The claims that were returned and the end of their leases, newest first. -/
  claims : List (OperationClaim × Int) := []
  /-- The claims that began, newest first. -/
  begun : List OperationClaim := []

inductive Action where
  | prepareOperation (approvalId stepKey : Text) (providerKey : Option Text) (card : Card)
      (newId : Text) (verdicts : Verdicts)
  | prepareGrantedOperation (reference : GrantRef) (stepKey payloadHash : Text)
      (binding : ExecutionBinding) (providerKey : Option Text) (newId : Text)
      (verdicts : Verdicts) (now : Int)
  | claimOperation (id : Text) (expected : ExecutionBinding) (owner : Text) (leaseSeconds : Int)
      (token : Text) (verdicts : Verdicts) (now : Int)
  | beginExecution (claim : OperationClaim) (current : ExecutionBinding) (verdicts : Verdicts)
      (now : Int)
  | settleOperation (claim : OperationClaim) (state : OperationState) (receipt : Option Value)
      (error : Option Text) (now : Int)
  | recoverOperations (now : Int)
  | invalidateLiveOnRestart
  | resolveUncertain (id : Text) (expectedFence : Nat) (succeeded : Bool) (receipt : Value)
      (actor reason : Text)
  | prepareRevisionGrant (accepted : AcceptedRevisionGrant) (newId : Text) (verdicts : Verdicts)
  | activateRevisionGrant (reference : GrantRef) (verdicts : Verdicts) (now : Int)
  | revokeWorkflowActivation (activationId specHash reason : Text)
  | revokeRevisionGrant (reference : GrantRef) (reason : Text)
  /-- The workflow service creates a run. -/
  | createRun (run : RunRecord)

namespace Machine

variable (m : Machine)

/-- One call: its effect if it returns, none if it fails. -/
def step : Action → Machine
  | .prepareOperation approvalId stepKey providerKey card newId verdicts =>
    match m.ledger.prepareOperation approvalId stepKey providerKey card newId verdicts with
    | .ok (_, ledger) => { m with ledger := ledger }
    | .error _ => m
  | .prepareGrantedOperation reference stepKey payloadHash binding providerKey newId verdicts now =>
    match m.ledger.prepareGrantedOperation reference stepKey payloadHash binding providerKey newId
      verdicts now with
    | .ok (_, ledger) => { m with ledger := ledger }
    | .error _ => m
  | .claimOperation id expected owner leaseSeconds token verdicts now =>
    match m.ledger.claimOperation id expected owner leaseSeconds token verdicts now with
    | .ok (claim, ledger) =>
      { m with ledger := ledger, claims := (claim, now + leaseSeconds) :: m.claims }
    | .error _ => m
  | .beginExecution claim current verdicts now =>
    match m.ledger.beginExecution claim current verdicts now with
    | .ok ledger => { m with ledger := ledger, begun := claim :: m.begun }
    | .error _ => m
  | .settleOperation claim state receipt error now =>
    match m.ledger.settleOperation claim state receipt error now with
    | .ok ledger => { m with ledger := ledger }
    | .error _ => m
  | .recoverOperations now => { m with ledger := m.ledger.recoverOperations now }
  | .invalidateLiveOnRestart => { m with ledger := m.ledger.invalidateLiveOnRestart }
  | .resolveUncertain id expectedFence succeeded receipt actor reason =>
    match m.ledger.resolveUncertain id expectedFence succeeded receipt actor reason with
    | .ok ledger => { m with ledger := ledger }
    | .error _ => m
  | .prepareRevisionGrant accepted newId verdicts =>
    match m.ledger.prepareRevisionGrant accepted newId verdicts with
    | .ok (_, ledger) => { m with ledger := ledger }
    | .error _ => m
  | .activateRevisionGrant reference verdicts now =>
    match m.ledger.activateRevisionGrant reference verdicts now with
    | .ok (_, ledger) => { m with ledger := ledger }
    | .error _ => m
  | .revokeWorkflowActivation activationId specHash reason =>
    match m.ledger.revokeWorkflowActivation activationId specHash reason with
    | .ok (_, ledger) => { m with ledger := ledger }
    | .error _ => m
  | .revokeRevisionGrant reference reason =>
    match m.ledger.revokeRevisionGrant reference reason with
    | .ok (_, ledger) => { m with ledger := ledger }
    | .error _ => m
  | .createRun run =>
    if (m.ledger.findRun run.runId).isSome then m
    else { m with ledger := { m.ledger with runs := m.ledger.runs ++ [run] } }

/-- The claim an operation was last given to, and the end of its lease. -/
def latestClaim (id : Text) : Option (OperationClaim × Int) :=
  m.claims.find? fun entry => entry.1.operationId == id

end Machine

/-! ## One step -/

/-- An executing row that is given up is uncertain. -/
def Operation.lose (gone : Operation → Prop) [DecidablePred gone] (error : Text) (op : Operation) :
    Operation :=
  if op.state = .executing ∧ gone op then { op with state := .uncertain, errorCode := some error }
  else op

theorem Operation.lose_keeps (gone : Operation → Prop) [DecidablePred gone] (error : Text)
    (op : Operation) : (op.lose gone error).operationId = op.operationId ∧
      ((op.lose gone error).runId, (op.lose gone error).stepKey) = (op.runId, op.stepKey) := by
  unfold lose
  split <;> exact ⟨rfl, rfl⟩

theorem Operation.lose_cases (gone : Operation → Prop) [DecidablePred gone] (error : Text)
    (op : Operation) : op.lose gone error = op ∨
      (op.state = .executing ∧ (op.lose gone error).state = .uncertain) := by
  unfold lose
  split
  · rename_i both
    exact .inr ⟨both.1, rfl⟩
  · exact .inl rfl

/-- What one call can do to the operations. -/
inductive Machine.Change (m : Machine) : Machine → Prop
  | quiet {m' : Machine} (operations : m'.ledger.operations = m.ledger.operations)
      (claims : m'.claims = m.claims) (begun : m'.begun = m.begun) : Change m m'
  | prepared (op : Operation)
      (newId : ∀ other ∈ m.ledger.operations, other.operationId ≠ op.operationId)
      (newStep : ∀ other ∈ m.ledger.operations,
        ¬(other.runId = op.runId ∧ other.stepKey = op.stepKey))
      (state : op.state = .prepared) (free : op.leaseToken = none) :
      Change m { m with ledger := { m.ledger with operations := m.ledger.operations ++ [op] } }
  | claimed (op : Operation) (listed : op ∈ m.ledger.operations) (state : op.state = .prepared)
      (owner token : Text) (leaseUntil : Int) :
      Change m { m with
        ledger := m.ledger.setOperation op.operationId fun op => op.claimed owner token leaseUntil
        claims := (⟨op.operationId, token, op.fence + 1, owner⟩, leaseUntil) :: m.claims }
  | began (op : Operation) (listed : op ∈ m.ledger.operations) (state : op.state = .prepared)
      (claim : OperationClaim) (same : op.operationId = claim.operationId) (now : Int)
      (held : op.heldBy claim now = true) :
      Change m { m with
        ledger := m.ledger.setOperation op.operationId fun op => { op with state := .executing }
        begun := claim :: m.begun }
  | settled (op : Operation) (listed : op ∈ m.ledger.operations) (state : op.state = .executing)
      (result : OperationState)
      (terminal : result = .succeeded ∨ result = .failed ∨ result = .uncertain)
      (receipt : Option Value) (error : Option Text) :
      Change m { m with
        ledger := m.ledger.setOperation op.operationId fun op =>
          { op with state := result, receipt := receipt, errorCode := error } }
  | lost (gone : Operation → Prop) [DecidablePred gone] (error : Text) :
      Change m { m with ledger := { m.ledger with
        operations := m.ledger.operations.map (Operation.lose gone error) } }
  | resolved (op : Operation) (listed : op ∈ m.ledger.operations) (state : op.state = .uncertain)
      (succeeded : Bool) (receipt : Value) (resolution : Text × Text) :
      Change m { m with
        ledger := m.ledger.setOperation op.operationId fun op => { op with
          state := if succeeded then .succeeded else .failed
          receipt := some receipt, operatorResolution := some resolution, fence := op.fence + 1 } }

section
variable {m : Machine} {s : Ledger}

theorem Machine.Change.inserted {op : Operation} (inserted : m.ledger.insertOperation op = .ok s)
    (state : op.state = .prepared) (free : op.leaseToken = none) : m.Change { m with ledger := s } := by
  rcases Ledger.insertOperation_ok inserted with rfl | ⟨rfl, newId, newStep⟩
  · exact .quiet rfl rfl rfl
  · exact .prepared op newId newStep state free

/-- Only the operations' own calls write operations. -/
theorem Machine.Change.granted (operations : s.operations = m.ledger.operations) :
    m.Change { m with ledger := s } := .quiet operations rfl rfl

theorem Machine.step_change (m : Machine) (action : Action) : m.Change (m.step action) := by
  cases action with
  | prepareOperation approvalId stepKey providerKey card newId verdicts =>
    simp only [step]
    split
    · rename_i prepared
      obtain ⟨op, inserted, state, free⟩ := Ledger.prepareOperation_ok prepared
      exact .inserted inserted state free
    · exact .quiet rfl rfl rfl
  | prepareGrantedOperation reference stepKey payloadHash binding providerKey newId verdicts now =>
    simp only [step]
    split
    · rename_i prepared
      obtain ⟨op, inserted, state, free⟩ := Ledger.prepareGrantedOperation_ok prepared
      exact .inserted inserted state free
    · exact .quiet rfl rfl rfl
  | claimOperation id expected owner leaseSeconds token verdicts now =>
    simp only [step]
    split
    · rename_i claimed
      obtain ⟨op, listed, same, state, rfl, rfl⟩ := Ledger.claimOperation_ok claimed
      rw [← same]
      exact .claimed op listed state owner token (now + leaseSeconds)
    · exact .quiet rfl rfl rfl
  | beginExecution claim current verdicts now =>
    simp only [step]
    split
    · rename_i began
      obtain ⟨-, op, listed, same, state, held, -, rfl⟩ := Ledger.beginExecution_ok began
      rw [← same]
      exact .began op listed state claim same now held
    · exact .quiet rfl rfl rfl
  | settleOperation claim state receipt error now =>
    simp only [step]
    split
    · rename_i settled
      obtain ⟨terminal, op, listed, same, executing, -, rfl⟩ := Ledger.settleOperation_ok settled
      rw [← same]
      exact .settled op listed executing state terminal receipt error
    · exact .quiet rfl rfl rfl
  | recoverOperations now | invalidateLiveOnRestart => exact .lost _ _
  | resolveUncertain id expectedFence succeeded receipt actor reason =>
    simp only [step]
    split
    · rename_i resolved
      obtain ⟨op, listed, same, state, rfl⟩ := Ledger.resolveUncertain_ok resolved
      rw [← same]
      exact .resolved op listed state succeeded receipt (actor, reason)
    · exact .quiet rfl rfl rfl
  | prepareRevisionGrant accepted newId verdicts =>
    simp only [step]
    split
    · rename_i prepared
      obtain ⟨-, grant, inserted, -⟩ := Ledger.prepareRevisionGrant_ok prepared
      rcases Ledger.insertGrant_ok inserted with rfl | ⟨rfl, -⟩
      · exact .granted rfl
      · exact .granted rfl
    · exact .quiet rfl rfl rfl
  | activateRevisionGrant reference verdicts now =>
    simp only [step]
    split
    · rename_i activated
      obtain ⟨grant, -, -, -, -, rfl⟩ := Ledger.activateRevisionGrant_ok activated
      exact .granted rfl
    · exact .quiet rfl rfl rfl
  | revokeWorkflowActivation activationId specHash reason =>
    have kept : (m.ledger.addRevocation activationId specHash).operations =
        m.ledger.operations := by
      unfold Ledger.addRevocation
      split <;> rfl
    simp only [step]
    split
    · rename_i revoked
      rcases Ledger.revokeWorkflowActivation_ok revoked with ⟨-, rfl⟩ | ⟨grant, -, rfl⟩
      · exact .granted kept
      · exact .granted kept
    · exact .quiet rfl rfl rfl
  | revokeRevisionGrant reference reason =>
    simp only [step]
    split
    · rename_i revoked
      obtain rfl := Ledger.revokeRevisionGrant_ok revoked
      exact .granted rfl
    · exact .quiet rfl rfl rfl
  | createRun run =>
    simp only [step]
    split
    · exact .quiet rfl rfl rfl
    · exact .quiet rfl rfl rfl

end

/-- The row carries the token, the fence, the owner and the lease of the claim. -/
def Operation.CarriesClaim (op : Operation) : Option (OperationClaim × Int) → Prop
  | none => op.leaseToken = none
  | some (claim, leaseUntil) => op.leaseToken = some claim.token ∧ op.fence = claim.fence ∧
      op.leaseOwner = some claim.owner ∧ op.leaseUntil = some leaseUntil

/-- What is known of a row from the calls so far. -/
def Machine.Tracks (m : Machine) (op : Operation) : Prop :=
  (op.state = .prepared → op.CarriesClaim (m.latestClaim op.operationId)) ∧
  (op.state = .executing → ∃ claim leaseUntil,
    m.latestClaim op.operationId = some (claim, leaseUntil) ∧
    op.CarriesClaim (some (claim, leaseUntil)) ∧ claim ∈ m.begun)

structure Machine.Sound (m : Machine) : Prop where
  ids : (m.ledger.operations.map Operation.operationId).Nodup
  steps : (m.ledger.operations.map fun op => (op.runId, op.stepKey)).Nodup
  tracked : ∀ op ∈ m.ledger.operations, m.Tracks op
  claimed : ∀ entry ∈ m.claims, ∃ op ∈ m.ledger.operations, op.operationId = entry.1.operationId
  started : ∀ claim ∈ m.begun, ∃ op ∈ m.ledger.operations,
    op.operationId = claim.operationId ∧ op.state ≠ .prepared
  once : (m.begun.map OperationClaim.operationId).Nodup

namespace Machine.Sound

variable {m m' : Machine}

theorem unique (sound : m.Sound) {a b : Operation} (left : a ∈ m.ledger.operations)
    (right : b ∈ m.ledger.operations) (same : a.operationId = b.operationId) : a = b :=
  List.inj_on_of_nodup_map sound.ids left right same

/-- An update of one row, by a call that speaks for that row only. -/
theorem edit (sound : m.Sound) {op : Operation} (listed : op ∈ m.ledger.operations)
    {edit : Operation → Operation} (ledger : m'.ledger = m.ledger.setOperation op.operationId edit)
    (keepsId : ∀ o, (edit o).operationId = o.operationId)
    (keepsStep : ∀ o, ((edit o).runId, (edit o).stepKey) = (o.runId, o.stepKey))
    (others : ∀ id, id ≠ op.operationId → m'.latestClaim id = m.latestClaim id)
    (claims : ∀ entry ∈ m'.claims, entry ∈ m.claims ∨ entry.1.operationId = op.operationId)
    (kept : ∀ claim ∈ m.begun, claim ∈ m'.begun)
    (begun : ∀ claim ∈ m'.begun, claim ∈ m.begun ∨ claim.operationId = op.operationId)
    (tracked : m'.Tracks (edit op)) (started : (∃ claim ∈ m'.begun, claim.operationId = op.operationId) →
      (edit op).state ≠ .prepared)
    (once : (m'.begun.map OperationClaim.operationId).Nodup) : m'.Sound := by
  have rows : m'.ledger.operations = m.ledger.operations.map fun o =>
      if o.operationId == op.operationId then edit o else o := by rw [ledger]; rfl
  -- where a row of before is afterwards
  have image : ∀ o ∈ m.ledger.operations, o.operationId ≠ op.operationId → o ∈ m'.ledger.operations := by
    intro o before other
    rw [rows]
    exact List.mem_map.mpr ⟨o, before, by simp [other]⟩
  have edited : edit op ∈ m'.ledger.operations := by
    rw [rows]
    exact List.mem_map.mpr ⟨op, listed, by simp⟩
  refine ⟨?_, ?_, fun o after => ?_, fun entry here => ?_, fun claim here => ?_, once⟩
  · rw [rows, List.map_map]
    convert sound.ids using 2
    funext o
    show (if o.operationId == op.operationId then edit o else o).operationId = o.operationId
    split
    · exact keepsId o
    · rfl
  · rw [rows, List.map_map]
    convert sound.steps using 2
    funext o
    show ((if o.operationId == op.operationId then edit o else o).runId,
      (if o.operationId == op.operationId then edit o else o).stepKey) = (o.runId, o.stepKey)
    split
    · exact keepsStep o
    · rfl
  · rw [rows] at after
    obtain ⟨o, before, rfl⟩ := List.mem_map.mp after
    by_cases same : o.operationId = op.operationId
    · obtain rfl := sound.unique before listed same
      simpa using tracked
    obtain ⟨prepared, executing⟩ := sound.tracked o before
    rw [if_neg (by simpa using same)]
    refine ⟨fun state => ?_, fun state => ?_⟩
    · rw [others _ same]
      exact prepared state
    · rw [others _ same]
      obtain ⟨claim, leaseUntil, latest, carries, member⟩ := executing state
      exact ⟨claim, leaseUntil, latest, carries, kept claim member⟩
  · rcases claims entry here with old | new
    · obtain ⟨o, before, same⟩ := sound.claimed entry old
      by_cases this : o.operationId = op.operationId
      · exact ⟨edit op, edited, by rw [keepsId, ← same, this]⟩
      · exact ⟨o, image o before this, same⟩
    · exact ⟨edit op, edited, by rw [keepsId, new]⟩
  · by_cases this : claim.operationId = op.operationId
    · exact ⟨edit op, edited, by rw [keepsId, this], started ⟨claim, here, this⟩⟩
    rcases begun claim here with old | new
    · obtain ⟨o, before, same, state⟩ := sound.started claim old
      exact ⟨o, image o before (same ▸ this), same, state⟩
    · exact absurd new this

/-- A row that a claim holds is held by the latest claim. -/
theorem held (sound : m.Sound) {op : Operation} (listed : op ∈ m.ledger.operations)
    (state : op.state = .prepared ∨ op.state = .executing) {claim : OperationClaim} {now : Int}
    (same : op.operationId = claim.operationId) (holds : op.heldBy claim now = true) :
    ∃ leaseUntil, m.latestClaim op.operationId = some (claim, leaseUntil) ∧ now < leaseUntil ∧
      op.CarriesClaim (some (claim, leaseUntil)) ∧ (op.state = .executing → claim ∈ m.begun) := by
  simp only [Operation.heldBy, decide_eq_true_eq, Option.any_eq_true] at holds
  obtain ⟨token, fence, owner, until_, lease, live⟩ := holds
  obtain ⟨prepared, executing⟩ := sound.tracked op listed
  -- the latest claim of the row, which the row carries
  have latest : ∃ entry, m.latestClaim op.operationId = some entry ∧ op.CarriesClaim (some entry) ∧
      (op.state = .executing → entry.1 ∈ m.begun) := by
    rcases state with state | state
    · have carries := prepared state
      cases found : m.latestClaim op.operationId with
      | none =>
        rw [found] at carries
        rw [show op.leaseToken = none from carries] at token
        cases token
      | some entry =>
        rw [found] at carries
        exact ⟨entry, rfl, carries, fun executing => by rw [state] at executing; cases executing⟩
    · obtain ⟨other, leaseUntil, found, carries, member⟩ := executing state
      exact ⟨(other, leaseUntil), found, carries, fun _ => member⟩
  obtain ⟨⟨other, leaseUntil⟩, found, carries, member⟩ := latest
  obtain ⟨token', fence', owner', lease'⟩ := carries
  have sameClaim : other = claim := by
    have sameId : other.operationId = op.operationId := by
      simpa using List.find?_some found
    have sameToken : other.token = claim.token := Option.some.inj (token'.symm.trans token)
    have sameOwner : other.owner = claim.owner := Option.some.inj (owner'.symm.trans owner)
    have sameFence : other.fence = claim.fence := fence'.symm.trans fence
    cases other
    cases claim
    simp_all
  subst sameClaim
  rw [lease'] at lease
  obtain rfl := Option.some.inj lease
  exact ⟨leaseUntil, found, by simpa using live, ⟨token', fence', owner', lease'⟩, member⟩

theorem change (sound : m.Sound) (change : m.Change m') : m'.Sound := by
  cases change with
  | quiet operations claims begun =>
    have latest : ∀ id, m'.latestClaim id = m.latestClaim id := by
      intro id
      unfold latestClaim
      rw [claims]
    refine ⟨operations ▸ sound.ids, operations ▸ sound.steps, ?_, ?_, ?_, begun ▸ sound.once⟩
    · intro op listed
      obtain ⟨prepared, executing⟩ := sound.tracked op (operations ▸ listed)
      unfold Tracks
      rw [latest, begun]
      exact ⟨prepared, executing⟩
    · rw [claims, operations]
      exact sound.claimed
    · rw [begun, operations]
      exact sound.started
  | prepared op newId newStep state free =>
    refine ⟨?_, ?_, ?_, ?_, ?_, sound.once⟩
    · exact nodup_map_concat sound.ids newId
    · apply nodup_map_concat sound.steps
      intro other listed same
      exact newStep other listed (Prod.mk.inj same)
    · intro other after
      rcases List.mem_append.mp after with before | this
      · exact sound.tracked other before
      obtain rfl := List.mem_singleton.mp this
      -- no claim of an operation that did not exist was returned
      have none : m.latestClaim other.operationId = none := by
        refine List.find?_eq_none.mpr fun entry member claimed => ?_
        obtain ⟨known, listed, same⟩ := sound.claimed entry member
        exact newId known listed (same.trans (by simpa using claimed))
      refine ⟨fun _ => ?_, fun executing => by rw [state] at executing; cases executing⟩
      show other.CarriesClaim (m.latestClaim other.operationId)
      rw [none]
      exact free
    · intro entry member
      obtain ⟨known, listed, same⟩ := sound.claimed entry member
      exact ⟨known, List.mem_append_left _ listed, same⟩
    · intro claim member
      obtain ⟨known, listed, same⟩ := sound.started claim member
      exact ⟨known, List.mem_append_left _ listed, same⟩
  | claimed op listed state owner token leaseUntil =>
    refine sound.edit listed rfl (fun _ => rfl) (fun _ => rfl) ?_ ?_ (fun _ => id) (fun _ => .inl)
      ?_ ?_ sound.once
    · intro id other
      unfold latestClaim
      exact List.find?_cons_of_neg (by simpa using Ne.symm other)
    · intro entry member
      rcases List.mem_cons.mp member with rfl | old
      · exact .inr rfl
      · exact .inl old
    · refine ⟨fun _ => ?_, fun executing => ?_⟩
      · unfold latestClaim
        rw [List.find?_cons_of_pos (by simp [Operation.claimed])]
        exact ⟨rfl, rfl, rfl, rfl⟩
      · rw [show (op.claimed owner token leaseUntil).state = op.state from rfl, state] at executing
        cases executing
    · rintro ⟨claim, member, same⟩
      obtain ⟨known, before, sameId, started⟩ := sound.started claim member
      obtain rfl := sound.unique before listed (sameId.trans same)
      exact started
  | began op listed state claim same now holds =>
    obtain ⟨leaseUntil, latest, -, carries, -⟩ := sound.held listed (.inl state) same holds
    refine sound.edit listed rfl (fun _ => rfl) (fun _ => rfl) (fun _ _ => rfl) (fun _ => .inl)
      (fun _ => List.mem_cons_of_mem _) ?_ ?_ (fun _ => by simp) ?_
    · intro other member
      rcases List.mem_cons.mp member with rfl | old
      · exact .inr same.symm
      · exact .inl old
    · refine ⟨nofun, fun _ => ?_⟩
      exact ⟨claim, leaseUntil, latest, carries, List.mem_cons_self⟩
    · rw [List.map_cons, List.nodup_cons]
      refine ⟨fun before => ?_, sound.once⟩
      obtain ⟨other, member, sameId⟩ := List.mem_map.mp before
      obtain ⟨known, here, knownId, started⟩ := sound.started other member
      obtain rfl := sound.unique here listed (by rw [knownId, sameId, same])
      exact started state
  | settled op listed state result terminal receipt error =>
    refine sound.edit listed rfl (fun _ => rfl) (fun _ => rfl) (fun _ _ => rfl) (fun _ => .inl)
      (fun _ => id) (fun _ => .inl) ?_ (fun _ => ?_) sound.once
    · rcases terminal with rfl | rfl | rfl <;> exact ⟨nofun, nofun⟩
    · rcases terminal with rfl | rfl | rfl <;> exact nofun
  | lost gone error =>
    refine ⟨?_, ?_, ?_, ?_, ?_, sound.once⟩
    · rw [List.map_map]
      refine (List.map_congr_left fun op _ => ?_) ▸ sound.ids
      exact (Operation.lose_keeps gone error op).1.symm
    · rw [List.map_map]
      refine (List.map_congr_left fun op _ => ?_) ▸ sound.steps
      exact (Operation.lose_keeps gone error op).2.symm
    · intro op after
      obtain ⟨before, listed, rfl⟩ := List.mem_map.mp after
      rcases Operation.lose_cases gone error before with same | ⟨-, gone⟩
      · rw [same]
        exact sound.tracked before listed
      · unfold Tracks
        rw [gone]
        exact ⟨nofun, nofun⟩
    · intro entry member
      obtain ⟨known, listed, same⟩ := sound.claimed entry member
      exact ⟨_, List.mem_map_of_mem listed, (Operation.lose_keeps gone error known).1.trans same⟩
    · intro claim member
      obtain ⟨known, listed, same, started⟩ := sound.started claim member
      refine ⟨_, List.mem_map_of_mem listed, (Operation.lose_keeps gone error known).1.trans same, ?_⟩
      rcases Operation.lose_cases gone error known with kept | ⟨-, gone⟩
      · rw [kept]
        exact started
      · rw [gone]
        exact nofun
  | resolved op listed state succeeded receipt resolution =>
    refine sound.edit listed rfl (fun _ => rfl) (fun _ => rfl) (fun _ _ => rfl) (fun _ => .inl)
      (fun _ => id) (fun _ => .inl) ?_ (fun _ => ?_) sound.once
    · cases succeeded <;> exact ⟨nofun, nofun⟩
    · cases succeeded <;> exact nofun

end Machine.Sound

/-- **A row is held by the latest claim of its operation**, in every run. -/
theorem run_sound (actions : List Action) : (run Machine.step {} actions).Sound := by
  have start : Machine.Sound {} := by
    refine ⟨List.nodup_nil, List.nodup_nil, ?_, ?_, ?_, List.nodup_nil⟩
    · exact List.forall_mem_nil _
    · exact List.forall_mem_nil _
    · exact List.forall_mem_nil _
  exact run_invariant Machine.Sound (fun m action sound _ => sound.change (m.step_change action))
    start (obeys_true _ actions)

/-! ## What later calls leave -/

def OperationState.leads : OperationState → OperationState → Bool
  | .prepared, _ => true
  | .executing, later => later ≠ .prepared
  | .uncertain, later => later ≠ .prepared ∧ later ≠ .executing
  | now, later => now = later

theorem OperationState.leads_trans {a b c : OperationState} (first : a.leads b = true)
    (second : b.leads c = true) : a.leads c = true := by
  revert first second
  cases a <;> cases b <;> cases c <;> decide

/-- The same operation later; an uncertain one that is uncertain no more was resolved. -/
structure Operation.Leads (op op' : Operation) : Prop where
  same : op'.operationId = op.operationId
  state : op.state.leads op'.state = true
  resolution : op.operatorResolution.isSome = true → op'.operatorResolution.isSome = true
  resolved : op.state = .uncertain → op'.state ≠ .uncertain → op'.operatorResolution.isSome = true

theorem Operation.Leads.refl (op : Operation) : op.Leads op :=
  ⟨rfl, by cases op.state <;> rfl, id, fun same other => absurd same other⟩

theorem Operation.Leads.trans {a b c : Operation} (first : a.Leads b) (second : b.Leads c) : a.Leads c := by
  refine ⟨second.same.trans first.same, OperationState.leads_trans first.state second.state,
    second.resolution ∘ first.resolution, fun uncertain other => ?_⟩
  by_cases still : b.state = .uncertain
  · exact second.resolved still other
  · exact second.resolution (first.resolved uncertain still)

/-- Every operation is there later, in a state it can be in. -/
def Machine.Leads (m m' : Machine) : Prop :=
  ∀ op ∈ m.ledger.operations, ∃ op' ∈ m'.ledger.operations, op.Leads op'

theorem Machine.leads_edit {m m' : Machine} (sound : m.Sound) {op : Operation}
    (listed : op ∈ m.ledger.operations) {edit : Operation → Operation}
    (ledger : m'.ledger = m.ledger.setOperation op.operationId edit) (leads : op.Leads (edit op)) :
    m.Leads m' := by
  intro other before
  rw [ledger]
  refine ⟨_, List.mem_map_of_mem before, ?_⟩
  by_cases same : other.operationId = op.operationId
  · obtain rfl := sound.unique before listed same
    simpa using leads
  · rw [if_neg (by simpa using same)]
    exact .refl other

theorem Machine.Change.leads {m m' : Machine} (sound : m.Sound) (change : m.Change m') : m.Leads m' := by
  cases change with
  | quiet operations claims begun =>
    exact fun op listed => ⟨op, operations ▸ listed, .refl op⟩
  | prepared op newId newStep state free =>
    exact fun other listed => ⟨other, List.mem_append_left _ listed, .refl other⟩
  | claimed op listed state owner token leaseUntil =>
    have same := Operation.Leads.refl op
    exact leads_edit sound listed rfl ⟨rfl, same.state, id, same.resolved⟩
  | began op listed state claim same now holds =>
    refine leads_edit sound listed rfl ⟨rfl, ?_, id, fun uncertain => ?_⟩
    · rw [state]
      rfl
    · rw [state] at uncertain
      cases uncertain
  | settled op listed state result terminal receipt error =>
    refine leads_edit sound listed rfl ⟨rfl, ?_, id, fun uncertain => ?_⟩
    · rw [state]
      rcases terminal with rfl | rfl | rfl <;> rfl
    · rw [state] at uncertain
      cases uncertain
  | lost gone error =>
    intro op listed
    refine ⟨_, List.mem_map_of_mem listed, ?_⟩
    rcases Operation.lose_cases gone error op with kept | ⟨state, gone'⟩
    · rw [kept]
      exact .refl op
    refine ⟨(Operation.lose_keeps gone error op).1, by rw [state, gone']; rfl, ?_, ?_⟩
    · unfold Operation.lose
      split <;> exact id
    · intro uncertain
      rw [state] at uncertain
      cases uncertain
  | resolved op listed state succeeded receipt resolution =>
    refine leads_edit sound listed rfl ⟨rfl, ?_, fun _ => rfl, fun _ _ => rfl⟩
    rw [state]
    cases succeeded <;> rfl

theorem Machine.Sound.leads {m : Machine} (sound : m.Sound) (later : List Action) :
    m.Leads (run Machine.step m later) :=
  run_rel Machine.Sound Machine.Leads (fun m action sound _ => sound.change (m.step_change action))
    (fun m op listed => ⟨op, listed, .refl op⟩)
    (fun _ _ _ first second op listed => by
      obtain ⟨op', listed', leads⟩ := first op listed
      obtain ⟨op'', listed'', leads'⟩ := second op' listed'
      exact ⟨op'', listed'', leads.trans leads'⟩)
    (fun m action sound _ => (m.step_change action).leads sound) sound (obeys_true m later)

/-- **Side effects happen at most once.**  After any calls by any executors: a step has one
operation; an operation has begun at most once; a begin returns only for the latest claim,
under a live lease; a settlement only for the claim that began; and later an operation is
never prepared again, never executing again once it was more than that, succeeded or
failed for good, and uncertain until it is resolved. -/
theorem operations_at_most_once (actions : List Action) : let m := run Machine.step {} actions
    (m.ledger.operations.map fun op => (op.runId, op.stepKey)).Nodup ∧
    (m.begun.map OperationClaim.operationId).Nodup ∧ (∀ claim current verdicts now ledger,
      m.ledger.beginExecution claim current verdicts now = .ok ledger →
        ∃ leaseUntil, m.latestClaim claim.operationId = some (claim, leaseUntil) ∧ now < leaseUntil) ∧
    (∀ claim state receipt error now ledger,
      m.ledger.settleOperation claim state receipt error now = .ok ledger → claim ∈ m.begun) ∧
    ∀ later, ∀ op ∈ m.ledger.operations,
      ∃ op' ∈ (run Machine.step m later).ledger.operations, op.Leads op' := by
  have sound := run_sound actions
  refine ⟨sound.steps, sound.once, ?_, ?_, sound.leads⟩
  · intro claim current verdicts now ledger began
    obtain ⟨-, op, listed, same, state, holds, -⟩ := Ledger.beginExecution_ok began
    obtain ⟨leaseUntil, latest, live, -⟩ := sound.held listed (.inl state) same holds
    exact ⟨leaseUntil, same ▸ latest, live⟩
  · intro claim state receipt error now ledger settled
    obtain ⟨-, op, listed, same, executing, holds, -⟩ := Ledger.settleOperation_ok settled
    obtain ⟨leaseUntil, -, -, -, member⟩ := sound.held listed (.inr executing) same holds
    exact member executing

/-! One operation, from its preparation to a settlement that leaves its outcome open. -/

namespace Sample

def binding : ExecutionBinding := ⟨['r'], .ingress, .other ['h'], ['m']⟩

def passing : Verdicts := ⟨true, true, true, true, true, true⟩

def claim : OperationClaim := ⟨['o'], ['t'], 1, ['w']⟩

/-- The operation is prepared, and claimed for ten seconds. -/
def claimed : Machine :=
  run Machine.step {}
    [.prepareOperation ['a'] ['k'] none ⟨true, some binding, ['p']⟩ ['o'] passing,
      .claimOperation ['o'] binding ['w'] 10 ['t'] passing 0]

def executing : Machine := run Machine.step claimed [.beginExecution claim binding passing 1]

def settled : Machine := run Machine.step executing [.settleOperation claim .uncertain none none 2]

def resolved : Machine :=
  run Machine.step settled [.resolveUncertain ['o'] 1 true (.bool true) ['a'] ['r']]

theorem settled_then_resolved :
    (∃ ledger, executing.ledger.settleOperation claim .uncertain none none 2 = .ok ledger ∧
      settled.ledger = ledger) ∧
    (settled.ledger.findOperation ['o']).map Operation.state = some .uncertain ∧
    (resolved.ledger.findOperation ['o']).map Operation.state = some .succeeded :=
  ⟨⟨settled.ledger, rfl, rfl⟩, rfl, rfl⟩

theorem operations_at_most_once_claimed :
    (∃ ledger, claimed.ledger.beginExecution claim binding passing 1 = .ok ledger) ∧
    ∃ leaseUntil, claimed.latestClaim ['o'] = some (claim, leaseUntil) ∧ 1 < leaseUntil := by
  have began : claimed.ledger.beginExecution claim binding passing 1 = .ok executing.ledger := rfl
  have latest := (operations_at_most_once
    [.prepareOperation ['a'] ['k'] none ⟨true, some binding, ['p']⟩ ['o'] passing,
      .claimOperation ['o'] binding ['w'] 10 ['t'] passing 0]).2.2.1
  exact ⟨⟨_, began⟩, latest claim binding passing 1 _ began⟩

end Sample

end DuDuClaw.Approval
