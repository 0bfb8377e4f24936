/-
# Memory.Forget -- planning and applying a forget

`plan_forget_source` of engine/forget_source.rs and `apply_forget_plan` with the
transaction of apply.rs.  An apply recomputes its plan inside the transaction and
refuses when the hash differs; a failure rolls back, so the database it returns is the
one it got.  `Faults` says where the database fails.

Full-text rows, the secure-delete pragma and the housekeeping after a commit are left
out, as is a plan for a connector.

* `afterApply_memories`, `afterApply_keyFacts`, ..: the tables an apply leaves.
* `applyForgetPlan_cases`: an apply is refused, fails or writes what it recomputed.
-/
import DuDuClaw.Memory.Compute

namespace DuDuClaw.Memory

open DuDuClaw.Lib

/-! ## Planning -/

def defaultMaxRows : Nat := 50000

def hardMaxRows : Nat := 200000

def defaultTtlMinutes : Int := 30

def maxTtlMinutes : Int := 1440

def importSessionPrefix : Text := ['i', 'm', 'p', 'o', 'r', 't', ':']

def foreverTs : Text := "9999-12-31T23:59:59.999999Z".toList

def planSchema : Text := "duduclaw.memory.forget_plan.v1".toList

/-- The message keys of a selector, trimmed and without repetitions. -/
def freezeMessages : List Text → List Text → Except MemError (List Text)
  | [], kept => .ok kept
  | raw :: more, kept =>
    let m := trim raw
    if m.isEmpty || maxSourceKeyBytes < byteLength m || m.any isControl then
      .error .selectorMessage
    else freezeMessages more (if kept.contains m then kept else kept ++ [m])

def ForgetSelector.freeze (env : Env) (sel : ForgetSelector) (now : Int) :
    Except MemError FrozenSelector :=
  let session := trim sel.session
  if session.isEmpty || maxSourceKeyBytes < byteLength session then .error .selectorSession
  else if session.any isControl then .error .selectorControl
  else if systemSessionPrefix.isPrefixOf session || session == untrackedSession then
    .error .selectorSystem
  else
    match freezeMessages sel.messages [] with
    | .error error => .error error
    | .ok messages =>
      if 1000 < messages.length then .error .selectorTooMany
      else if !messages.isEmpty then
        .ok { session := session, messages := toSet textLt messages, uptoSeq := none
              uptoTime := none }
      else if sel.uptoSeq.any fun seq => seq < 0 then .error .selectorWatermark
      else if importSessionPrefix.isPrefixOf session then
        .ok { session := session, messages := [], uptoSeq := none, uptoTime := some foreverTs }
      else
        .ok { session := session, messages := [], uptoSeq := sel.uptoSeq
              uptoTime := some (env.formatTs (sel.uptoTime.getD now)) }

structure PlanOptions where
  maxRows : Option Nat
  ttlMinutes : Option Int

inductive PlanOutcome where
  | planned (plan : ForgetPlan)
  | nothingToForget (untrackedInNamespace : Nat)
  | tooLarge (reason : TooLarge)

/-- `plan_frozen` for a source; `planId` is the fresh UUID. -/
def Db.planFrozen (env : Env) (s : Db) (agentId : Text) (sel : FrozenSelector)
    (options : PlanOptions) (external : ExternalInputs) (now : Int) (planId : Id) :
    Except MemError PlanOutcome × Db :=
  if isBlank agentId then (.error .emptyNamespace, s)
  else
    let maxRows := max 1 (min (options.maxRows.getD defaultMaxRows) hardMaxRows)
    let ttl := max 1 (min (options.ttlMinutes.getD defaultTtlMinutes) maxTtlMinutes)
    match s.compute env agentId sel maxRows external.canonical (env.toRfc3339 now) with
    | .error error => (.error error, s)
    | .ok (.tooLarge reason) => (.ok (.tooLarge reason), s)
    | .ok (.done computed) =>
      if computed.isEmpty then
        (.ok (.nothingToForget computed.body.untrackedInNamespace), s)
      else
        let document : PlanDocument :=
          { schema := planSchema
            planId := planId
            dbInstanceId := s.instanceId
            agentId := agentId
            createdAt := env.formatTs now
            expiresAt := env.formatTs (now + ttl * 60000000)
            forgetEpoch := s.forgetEpoch agentId
            selector := sel
            maxRows := maxRows
            body := computed.body }
        let plan : ForgetPlan :=
          { planId := planId, planHash := document.planHash env, status := .planned
            appliedAt := none, document := document }
        match s.plans.insert plan with
        | none => (.error .unique, s)
        | some plans => (.ok (.planned plan), { s with plans := plans })

def Db.planForgetSource (env : Env) (s : Db) (agentId : Text) (sel : ForgetSelector)
    (options : PlanOptions) (external : ExternalInputs) (now : Int) (planId : Id) :
    Except MemError PlanOutcome × Db :=
  match sel.freeze env now with
  | .error error => (.error error, s)
  | .ok frozen => s.planFrozen env agentId frozen options external now planId

/-! ## Refusing -/

inductive StaleReason where
  | epoch (planned current : Int)
  | changed (targetsPlanned targetsNow added removed changed : Nat) (otherParts : List String)
  | tooLarge (reason : TooLarge)
  | alreadyStale
  | several (reasons : List StaleReason)

/-- The target a `HashMap` built from the list holds under a key: the last one. -/
def targetAt (targets : List TargetEntry) (key : StoreName × Id) : Option TargetEntry :=
  targets.reverse.find? fun t => t.store == key.1 && t.id == key.2

def diff (planned now : PlanBody) : StaleReason :=
  let keys body := toSet storeIdLt (PlanBody.targets body |>.map fun t => (t.store, t.id))
  let changed := (keys planned).filter fun key =>
    (targetAt now.targets key).any fun t => targetAt planned.targets key != some t
  let part name (same : Bool) : List String := if same then [] else [name]
  .changed planned.targets.length now.targets.length
    ((keys now).filter fun key => !(keys planned).contains key).length
    ((keys planned).filter fun key => !(keys now).contains key).length
    changed.length
    (part "tombstones" (planned.tombstones == now.tombstones) ++
      part "linked_turns" (planned.linkedTurns == now.linkedTurns) ++
      part "reaffirm_only" (planned.reaffirmOnly == now.reaffirmOnly) ++
      part "archive_ids" (planned.archiveIds == now.archiveIds) ++
      part "lineage_only" (planned.lineageOnly == now.lineageOnly) ++
      part "collateral" (planned.collateral == now.collateral) ++
      part "supersession_cuts" (planned.supersessionCuts == now.supersessionCuts) ++
      part "entity_embeddings_orphaned"
        (planned.entityEmbeddingsOrphaned == now.entityEmbeddingsOrphaned) ++
      part "orphan_entity_ids" (planned.orphanEntityIds == now.orphanEntityIds) ++
      part "wiki_pages" (planned.wikiPages == now.wikiPages) ++
      part "review_cards_matching" (planned.reviewCardsMatching == now.reviewCardsMatching) ++
      part "session_messages" (planned.sessionMessages == now.sessionMessages) ++
      part "steps" (planned.steps == now.steps) ++
      part "not_covered" (planned.notCovered == now.notCovered))

def combine : List StaleReason → StaleReason
  | [reason] => reason
  | reasons => .several reasons

/-- The stored document once its plan will not run (again): no content hashes. -/
def PlanDocument.scrubbed (doc : PlanDocument) : PlanDocument :=
  { doc with
    body := { doc.body with
      targets := doc.body.targets.map fun t => { t with contentSha256 := [] } } }

def Db.setStatus (s : Db) (planId : Id) (status : PlanStatus) : Db :=
  { s with
    plans := s.plans.update
      (fun plan =>
        if plan.planId = planId ∧ plan.status = .planned then
          { plan with status := status, document := plan.document.scrubbed }
        else plan)
      (by intro plan; split <;> rfl) }

/-! ## Writing -/

/-- The unique index of `forgotten_sources`. -/
def Tombstone.sameIndex (a b : Tombstone) : Bool :=
  a.agentId == b.agentId && a.session == b.session && a.scope == b.scope &&
    a.message == b.message && a.uptoSeq.getD (-1) == b.uptoSeq.getD (-1) &&
    a.uptoTime.getD [] == b.uptoTime.getD []

/-- `INSERT OR IGNORE` of tombstones. -/
def insertTombstones (known new : List Tombstone) : List Tombstone :=
  new.foldl (fun known f => if known.any f.sameIndex then known else known ++ [f]) known

/-- `INSERT OR IGNORE` into a table that is all key. -/
def insertMissing {α : Type} [DecidableEq α] (known new : List α) : List α :=
  new.foldl (fun known x => if known.contains x then known else known ++ [x]) known

/-- The rows `forgotten_memories` gets. -/
def Computed.forgottenKeys (c : Computed) : List (StoreName × Id) :=
  (c.memoryIds ++ c.archiveIds).map (fun id => (.memories, id)) ++
    c.factIds.map (fun id => (.keyFacts, id)) ++ c.lineageOnly

/-- The UPDATE that clears one pointer. -/
def Cut.apply (env : Env) (agentId now planId : Text) (cut : Cut) (row : MemoryRow) : MemoryRow :=
  if row.id = cut.other ∧ row.agentId = agentId then
    if cut.predecessor ∧ row.supersededBy = some cut.deleted then
      { row with supersededBy := none, metadata := env.setChainCut row.metadata now planId }
    else if ¬cut.predecessor ∧ row.supersedes = some cut.deleted then
      { row with supersedes := none, metadata := env.setChainCut row.metadata now planId }
    else row
  else row

theorem Cut.apply_id (env : Env) (agentId now planId : Text) (cut : Cut) (row : MemoryRow) :
    (cut.apply env agentId now planId row).id = row.id := by
  unfold Cut.apply
  split_ifs <;> rfl

def Cut.hits (agentId : Text) (cut : Cut) (row : MemoryRow) : Bool :=
  row.id == cut.other && row.agentId == agentId &&
    (if cut.predecessor then row.supersededBy else row.supersedes) == some cut.deleted

def cutPointers (env : Env) (agentId now planId : Text) (memories : Table MemoryRow.id) :
    List Cut → Table MemoryRow.id
  | [] => memories
  | cut :: more =>
    cutPointers env agentId now planId
      (memories.update (cut.apply env agentId now planId) (Cut.apply_id env agentId now planId cut))
      more

/-- How many pointers the cuts clear. -/
def countCuts (env : Env) (agentId now planId : Text) (memories : Table MemoryRow.id) :
    List Cut → Nat
  | [] => 0
  | cut :: more =>
    memories.rows.countP (cut.hits agentId) +
      countCuts env agentId now planId
        (memories.update (cut.apply env agentId now planId)
          (Cut.apply_id env agentId now planId cut))
        more

/-- The lineage rows that go: corroborations of rows that stay, and all lineage of the
rows that go. -/
def Computed.dropsOrigin (c : Computed) (agentId : Text) (o : Origin) : Bool :=
  o.agentId == agentId &&
    ((o.role == .reaffirm && c.reaffirmRows.any fun r => r.store == o.store &&
        r.memoryId == o.memoryId && r.session == o.session && r.message == o.message) ||
      (match o.store with
        | .memories => c.memoryIds.contains o.memoryId || c.archiveIds.contains o.memoryId
        | .keyFacts => c.factIds.contains o.memoryId) ||
      c.lineageOnly.contains (o.store, o.memoryId))

def Computed.dropsReaffirm (c : Computed) (agentId : Text) (o : Origin) : Bool :=
  o.agentId == agentId && o.role == .reaffirm && c.reaffirmRows.any fun r => r.store == o.store &&
    r.memoryId == o.memoryId && r.session == o.session && r.message == o.message

/-- The tables after an apply, but for its report. -/
def Db.afterApply (env : Env) (s : Db) (plan : ForgetPlan) (c : Computed) (now : Int) : Db :=
  let agentId := plan.document.agentId
  let nowText := env.formatTs now
  { s with
    tombstones := insertTombstones s.tombstones c.tombstones
    forgotten := insertMissing s.forgotten c.forgottenKeys
    memories := cutPointers env agentId nowText plan.planId
      (s.memories.deleteWhere fun row => row.agentId == agentId && c.memoryIds.contains row.id)
      c.cuts
    archive := s.archive.map fun table => table.deleteWhere fun row =>
      row.agentId == agentId && (c.memoryIds.contains row.id || c.archiveIds.contains row.id)
    keyFacts := s.keyFacts.deleteWhere fun row =>
      row.agentId == agentId && c.factIds.contains row.id
    origins := s.origins.filter fun o => !c.dropsOrigin agentId o
    stamps := s.stamps.filter fun stamp => !(match stamp.store with
      | .memories => c.memoryIds.contains stamp.memoryId || c.archiveIds.contains stamp.memoryId
      | .keyFacts => c.factIds.contains stamp.memoryId)
    embeddings := s.embeddings.filter fun e => !(e.1 == agentId && c.orphanEntities.contains e.2)
    steps := insertMissing s.steps (c.body.steps.map fun entry => ⟨plan.planId, entry⟩)
    fence := fun a =>
      if a = agentId then some (match s.fence agentId with | none => 1 | some epoch => epoch + 1)
      else s.fence a
    plans := s.plans.update
      (fun p => if p.planId = plan.planId then
          { p with status := .applied, appliedAt := some nowText
                   document := plan.document.scrubbed }
        else p)
      (by intro p; split <;> rfl) }

def Db.applyReport (env : Env) (s : Db) (plan : ForgetPlan) (c : Computed) (now : Int) :
    ApplyReport :=
  let agentId := plan.document.agentId
  let after := s.afterApply env plan c now
  { planId := plan.planId
    agentId := agentId
    planHash := plan.planHash
    memoriesDeleted := s.memories.rows.countP fun row =>
      row.agentId == agentId && c.memoryIds.contains row.id
    keyFactsDeleted := s.keyFacts.rows.countP fun row =>
      row.agentId == agentId && c.factIds.contains row.id
    archiveDeleted := (s.archive.map fun table => table.rows.countP fun row =>
      row.agentId == agentId &&
        (c.memoryIds.contains row.id || c.archiveIds.contains row.id)).getD 0
    entityEmbeddingsDeleted := s.embeddings.length - after.embeddings.length
    supersessionLinksCut := countCuts env agentId (env.formatTs now) plan.planId
      (s.memories.deleteWhere fun row => row.agentId == agentId && c.memoryIds.contains row.id)
      c.cuts
    reaffirmLineageRemoved := s.origins.countP (c.dropsReaffirm agentId)
    tombstonesWritten := after.tombstones.length - s.tombstones.length
    stepsPending := after.steps.length - s.steps.length
    forgetEpoch := after.forgetEpoch agentId
    untrackedInNamespacePlanned := plan.document.body.untrackedInNamespace
    untrackedInNamespaceAtApply := c.body.untrackedInNamespace
    otherNamespacesReferencingPlanned := plan.document.body.otherNamespacesReferencing
    otherNamespacesReferencingAtApply := c.body.otherNamespacesReferencing }

/-- `write_apply`; it fails when the plan already has a report. -/
def Db.writeApply (env : Env) (s : Db) (plan : ForgetPlan) (c : Computed) (now : Int) :
    Option (ApplyReport × Db) :=
  let report := s.applyReport env plan c now
  (s.reports.insert report).map fun reports =>
    (report, { s.afterApply env plan c now with reports := reports })

/-! ## Applying -/

inductive ApplyOutcome where
  | applied (report : ApplyReport)
  | alreadyApplied
  | notFound
  | expired
  | dbMismatch
  | stale (reason : StaleReason)

/-- Where the database fails during an apply. -/
structure Faults where
  begins : Bool
  computes : Bool
  writes : Bool
  commits : Bool
  setsStatus : Bool

def Faults.none : Faults := ⟨false, false, false, false, false⟩

/-- The checks inside the transaction: the epoch, then the recomputation. -/
def Db.recheck (env : Env) (s : Db) (plan : ForgetPlan) (external : ExternalInputs) (now : Int) :
    Except MemError (Except StaleReason Computed) :=
  let doc := plan.document
  let current := s.forgetEpoch doc.agentId
  let epoch := if current = doc.forgetEpoch then []
    else [StaleReason.epoch doc.forgetEpoch current]
  match s.compute env doc.agentId doc.selector doc.maxRows external (env.toRfc3339 now) with
  | .error error => .error error
  | .ok (.tooLarge reason) => .ok (.error (combine (epoch ++ [.tooLarge reason])))
  | .ok (.done c) =>
    let reasons := epoch ++
      if { doc with body := c.body }.planHash env = plan.planHash then [] else [diff doc.body c.body]
    if reasons.isEmpty then .ok (.ok c) else .ok (.error (combine reasons))

def Db.applyTransaction (env : Env) (s : Db) (plan : ForgetPlan) (external : ExternalInputs)
    (now : Int) (faults : Faults) : Except MemError ApplyOutcome × Db :=
  if faults.begins || faults.computes then (.error .database, s)
  else
    match s.recheck env plan external now with
    | .error error => (.error error, s)
    | .ok (.error reason) =>
      if faults.setsStatus then (.error .database, s)
      else (.ok (.stale reason), s.setStatus plan.planId .stale)
    | .ok (.ok c) =>
      if faults.writes then (.error .database, s)
      else
        match s.writeApply env plan c now with
        | none => (.error .unique, s)
        | some (report, next) =>
          if faults.commits then (.error .database, s) else (.ok (.applied report), next)

def Db.applyForgetPlan (env : Env) (s : Db) (planId : Id) (external : ExternalInputs) (now : Int)
    (faults : Faults) : Except MemError ApplyOutcome × Db :=
  match s.plans.rows.find? fun plan => plan.planId == planId with
  | none => (.ok .notFound, s)
  | some plan =>
    match plan.status with
    | .applied => (.ok .alreadyApplied, s)
    | .stale => (.ok (.stale .alreadyStale), s)
    | .expired => (.ok .expired, s)
    | .planned =>
      if plan.document.dbInstanceId ≠ s.instanceId then (.ok .dbMismatch, s)
      else if (env.parseRfc3339 plan.document.expiresAt).all fun t => t ≤ now then
        if faults.setsStatus then (.error .database, s)
        else (.ok .expired, s.setStatus planId .expired)
      else s.applyTransaction env plan external.canonical now faults

/-! ## What planning can do -/

/-- What planning stores: what was computed, with the current epoch and the hash of
the document. -/
structure PlannedStep (env : Env) (s t : Db) (agentId : Text) (external : ExternalInputs)
    (now : Int) (planId : Id) (plan : ForgetPlan) : Prop where
  isPlan : plan.planId = planId
  planned : plan.status = .planned
  hash : plan.planHash = plan.document.planHash env
  inNamespace : plan.document.agentId = agentId
  epoch : plan.document.forgetEpoch = s.forgetEpoch agentId
  dbInstance : plan.document.dbInstanceId = s.instanceId
  computed : ∃ c, s.compute env agentId plan.document.selector plan.document.maxRows
    external.canonical (env.toRfc3339 now) = .ok (.done c) ∧ plan.document.body = c.body
  written : ∃ plans, s.plans.insert plan = some plans ∧ t = { s with plans := plans }

theorem planForgetSource_cases {env : Env} {s : Db} {agentId : Text} {sel : ForgetSelector}
    {options : PlanOptions} {external : ExternalInputs} {now : Int} {planId : Id}
    {r : Except MemError PlanOutcome} {t : Db}
    (ran : s.planForgetSource env agentId sel options external now planId = (r, t)) :
    (∃ plan, r = .ok (.planned plan) ∧ PlannedStep env s t agentId external now planId plan) ∨
      ((∀ plan, r ≠ .ok (.planned plan)) ∧ t = s) := by
  unfold Db.planForgetSource at ran
  split at ran
  · cases ran
    refine .inr ⟨fun plan same => ?_, rfl⟩
    cases same
  unfold Db.planFrozen at ran
  split at ran
  · cases ran
    refine .inr ⟨fun plan same => ?_, rfl⟩
    cases same
  simp only at ran
  split at ran
  · cases ran
    refine .inr ⟨fun plan same => ?_, rfl⟩
    cases same
  · cases ran
    refine .inr ⟨fun plan same => ?_, rfl⟩
    cases same
  split at ran
  · cases ran
    refine .inr ⟨fun plan same => ?_, rfl⟩
    cases same
  split at ran
  · cases ran
    refine .inr ⟨fun plan same => ?_, rfl⟩
    cases same
  · rename_i c computed _ _ plans inserted
    cases ran
    exact .inl ⟨_, rfl, rfl, rfl, rfl, rfl, rfl, rfl, ⟨c, computed, rfl⟩, plans, inserted, rfl⟩

/-! ## What an apply can do -/

/-- The conditions under which an apply writes, and what it leaves: the plan was
planned, unexpired and of the current epoch, and `c` is what it recomputed, with the
hash of the stored plan. -/
structure AppliedStep (env : Env) (s t : Db) (planId : Id) (external : ExternalInputs) (now : Int)
    (report : ApplyReport) (plan : ForgetPlan) (c : Computed) : Prop where
  stored : plan ∈ s.plans.rows
  isPlan : plan.planId = planId
  planned : plan.status = .planned
  unexpired : ∃ expiry, env.parseRfc3339 plan.document.expiresAt = some expiry ∧ now < expiry
  epoch : s.forgetEpoch plan.document.agentId = plan.document.forgetEpoch
  computed : s.compute env plan.document.agentId plan.document.selector plan.document.maxRows
    external.canonical (env.toRfc3339 now) = .ok (.done c)
  hash : { plan.document with body := c.body }.planHash env = plan.planHash
  written : ∃ reports, t = { s.afterApply env plan c now with reports := reports }

/-- An apply that does not write retires its plan at most. -/
def Db.Refused (s t : Db) (planId : Id) : Prop :=
  t = s ∨ t = s.setStatus planId .stale ∨ t = s.setStatus planId .expired

variable {env : Env} {s : Db} {plan : ForgetPlan} {external : ExternalInputs} {now : Int}

variable {c : Computed} {faults : Faults} {r : Except MemError ApplyOutcome} {t : Db}

theorem recheck_ok (passed : s.recheck env plan external now = .ok (.ok c)) :
    s.forgetEpoch plan.document.agentId = plan.document.forgetEpoch ∧
      s.compute env plan.document.agentId plan.document.selector plan.document.maxRows external
        (env.toRfc3339 now) = .ok (.done c) ∧
      { plan.document with body := c.body }.planHash env = plan.planHash := by
  simp only [Db.recheck] at passed
  split at passed
  · cases passed
  · cases passed
  rename_i found computed
  by_cases sameEpoch : s.forgetEpoch plan.document.agentId = plan.document.forgetEpoch
  · by_cases sameHash : { plan.document with body := found.body }.planHash env = plan.planHash
    · simp only [sameEpoch, sameHash, if_true, List.append_nil, List.isEmpty_nil] at passed
      cases passed
      exact ⟨sameEpoch, computed, sameHash⟩
    · simp [sameEpoch, sameHash] at passed
  · simp [sameEpoch] at passed

theorem recheck_of (epoch : s.forgetEpoch plan.document.agentId = plan.document.forgetEpoch)
    (computed : s.compute env plan.document.agentId plan.document.selector plan.document.maxRows
      external (env.toRfc3339 now) = .ok (.done c))
    (hash : { plan.document with body := c.body }.planHash env = plan.planHash) :
    s.recheck env plan external now = .ok (.ok c) := by
  simp only [Db.recheck, computed, epoch, if_true]
  simp only [hash, if_true]
  rfl

theorem applyTransaction_cases (ran : s.applyTransaction env plan external now faults = (r, t)) :
    (∃ report c reports, r = .ok (.applied report) ∧ s.recheck env plan external now = .ok (.ok c) ∧
        t = { s.afterApply env plan c now with reports := reports }) ∨
      ((∀ report, r ≠ .ok (.applied report)) ∧ s.Refused t plan.planId) := by
  unfold Db.applyTransaction at ran
  split at ran
  · cases ran
    exact .inr ⟨nofun, .inl rfl⟩
  split at ran
  · cases ran
    exact .inr ⟨nofun, .inl rfl⟩
  · split at ran
    · cases ran
      exact .inr ⟨nofun, .inl rfl⟩
    · cases ran
      exact .inr ⟨nofun, .inr (.inl rfl)⟩
  rename_i c passed
  split at ran
  · cases ran
    exact .inr ⟨nofun, .inl rfl⟩
  split at ran
  · cases ran
    exact .inr ⟨nofun, .inl rfl⟩
  rename_i report next written
  split at ran
  · cases ran
    exact .inr ⟨nofun, .inl rfl⟩
  cases ran
  simp only [Db.writeApply, Option.map_eq_some_iff] at written
  obtain ⟨reports, -, same⟩ := written
  cases same
  exact .inl ⟨_, c, reports, rfl, passed, rfl⟩

/-- **An apply writes what it recomputed, or nothing but the status of its plan.** -/
theorem applyForgetPlan_cases {planId : Id} (ran : s.applyForgetPlan env planId external now faults = (r, t)) :
    (∃ report plan c, r = .ok (.applied report) ∧ AppliedStep env s t planId external now report plan c) ∨
      ((∀ report, r ≠ .ok (.applied report)) ∧ s.Refused t planId) := by
  unfold Db.applyForgetPlan at ran
  split at ran
  · cases ran
    exact .inr ⟨nofun, .inl rfl⟩
  rename_i plan found
  have isPlan : plan.planId = planId := by simpa using List.find?_some found
  split at ran
  · cases ran
    exact .inr ⟨nofun, .inl rfl⟩
  · cases ran
    exact .inr ⟨nofun, .inl rfl⟩
  · cases ran
    exact .inr ⟨nofun, .inl rfl⟩
  · rename_i planned
    split at ran
    · cases ran
      exact .inr ⟨nofun, .inl rfl⟩
    split at ran
    · split at ran
      · cases ran
        exact .inr ⟨nofun, .inl rfl⟩
      · cases ran
        exact .inr ⟨nofun, .inr (.inr rfl)⟩
    rename_i unexpired
    rcases applyTransaction_cases ran with ⟨report, c, reports, applied, passed, written⟩ | refused
    · obtain ⟨epoch, computed, hash⟩ := recheck_ok passed
      refine .inl ⟨report, plan, c, applied, ?_⟩
      refine
        { stored := List.mem_of_find?_eq_some found
          isPlan := isPlan
          planned := planned
          unexpired := ?_
          epoch := epoch
          computed := computed
          hash := hash
          written := ⟨reports, written⟩ }
      cases parsed : env.parseRfc3339 plan.document.expiresAt with
      | none => simp [parsed] at unexpired
      | some expiry => exact ⟨expiry, rfl, by simpa [parsed] using unexpired⟩
    · exact .inr (isPlan ▸ refused)

/-! ## The tables after an apply -/

section Pointers

variable (env : Env) (agentId now planId : Text)

def cutRow (cuts : List Cut) (row : MemoryRow) : MemoryRow :=
  cuts.foldl (fun row cut => cut.apply env agentId now planId row) row

theorem cutPointers_rows (cuts : List Cut) (memories : Table MemoryRow.id) :
    (cutPointers env agentId now planId memories cuts).rows =
      memories.rows.map (cutRow env agentId now planId cuts) := by
  induction cuts generalizing memories with
  | nil => exact (List.map_id' _).symm
  | cons cut more ih =>
    rw [cutPointers, ih, Table.update, List.map_map]
    rfl

theorem Cut.apply_agentId (cut : Cut) (row : MemoryRow) :
    (cut.apply env agentId now planId row).agentId = row.agentId := by
  unfold Cut.apply
  split_ifs <;> rfl

theorem cutRow_key (cuts : List Cut) (row : MemoryRow) : (cutRow env agentId now planId cuts row).id = row.id ∧
      (cutRow env agentId now planId cuts row).agentId = row.agentId := by
  induction cuts generalizing row with
  | nil => exact ⟨rfl, rfl⟩
  | cons cut more ih =>
    obtain ⟨sameId, sameAgent⟩ := ih (cut.apply env agentId now planId row)
    exact ⟨sameId.trans (Cut.apply_id ..), sameAgent.trans (Cut.apply_agentId ..)⟩

theorem Cut.apply_pointers (cut : Cut) (row : MemoryRow) :
    ((cut.apply env agentId now planId row).supersededBy = row.supersededBy ∨
        (cut.apply env agentId now planId row).supersededBy = none) ∧
      ((cut.apply env agentId now planId row).supersedes = row.supersedes ∨
        (cut.apply env agentId now planId row).supersedes = none) := by
  unfold Cut.apply
  split_ifs <;> simp

theorem cutRow_pointers (cuts : List Cut) (row : MemoryRow) :
    ((cutRow env agentId now planId cuts row).supersededBy = row.supersededBy ∨
        (cutRow env agentId now planId cuts row).supersededBy = none) ∧
      ((cutRow env agentId now planId cuts row).supersedes = row.supersedes ∨
        (cutRow env agentId now planId cuts row).supersedes = none) := by
  induction cuts generalizing row with
  | nil => exact ⟨.inl rfl, .inl rfl⟩
  | cons cut more ih =>
    obtain ⟨by_, of_⟩ := ih (cut.apply env agentId now planId row)
    obtain ⟨byFirst, ofFirst⟩ := cut.apply_pointers env agentId now planId row
    refine ⟨?_, ?_⟩
    · rcases by_ with same | cleared
      · exact byFirst.imp same.trans same.trans
      · exact .inr cleared
    · rcases of_ with same | cleared
      · exact ofFirst.imp same.trans same.trans
      · exact .inr cleared

/-- **The cuts clear every pointer they list.** -/
theorem cutRow_clears {cuts : List Cut} {cut : Cut} (listed : cut ∈ cuts) {row : MemoryRow}
    (isOther : row.id = cut.other) (inNamespace : row.agentId = agentId) : (cut.predecessor = true →
        (cutRow env agentId now planId cuts row).supersededBy ≠ some cut.deleted) ∧
      (cut.predecessor = false → (cutRow env agentId now planId cuts row).supersedes ≠ some cut.deleted) := by
  induction cuts generalizing row with
  | nil => cases listed
  | cons first more ih =>
    rcases List.mem_cons.mp listed with rfl | later
    · -- the cut itself clears the pointer, and no later cut sets one
      obtain ⟨by_, of_⟩ :=
        cutRow_pointers env agentId now planId more (cut.apply env agentId now planId row)
      refine ⟨fun isPredecessor points => ?_, fun isSuccessor points => ?_⟩
      · rcases by_ with same | cleared
        · have kept := same.symm.trans points
          unfold Cut.apply at kept
          simp only [isOther, inNamespace, and_self, if_true, isPredecessor, true_and] at kept
          split_ifs at kept
          all_goals simp_all
        · exact absurd (cleared.symm.trans points) nofun
      · rcases of_ with same | cleared
        · have kept := same.symm.trans points
          unfold Cut.apply at kept
          simp only [isOther, inNamespace, and_self, if_true, isSuccessor] at kept
          split_ifs at kept
          all_goals simp_all
        · exact absurd (cleared.symm.trans points) nofun
    · exact ih later ((Cut.apply_id ..).trans isOther) ((Cut.apply_agentId ..).trans inNamespace)

end Pointers

theorem mem_insertTombstones {known new : List Tombstone} {f : Tombstone}
    (listed : f ∈ insertTombstones known new) : f ∈ known ∨ f ∈ new := by
  induction new generalizing known with
  | nil => exact .inl listed
  | cons first more ih =>
    rw [insertTombstones, List.foldl_cons, ← insertTombstones] at listed
    rcases ih listed with old | later
    · split at old
      · exact .inl old
      · rcases List.mem_append.mp old with known | isFirst
        · exact .inl known
        · exact .inr (List.mem_singleton.mp isFirst ▸ List.mem_cons_self)
    · exact .inr (List.mem_cons_of_mem _ later)

theorem mem_insertMissing {α : Type} [DecidableEq α] {known new : List α} {x : α} :
    x ∈ insertMissing known new ↔ x ∈ known ∨ x ∈ new := by
  induction new generalizing known with
  | nil => simp [insertMissing]
  | cons first more ih =>
    rw [insertMissing, List.foldl_cons, ← insertMissing, ih, List.mem_cons]
    split
    · rename_i present
      rw [List.contains_iff_mem] at present
      constructor
      · rintro (old | later)
        · exact .inl old
        · exact .inr (.inr later)
      · rintro (old | rfl | later)
        · exact .inl old
        · exact .inl present
        · exact .inr later
    · simp [or_assoc]

/-- **The rows of `memories` an apply leaves**: those of other namespaces and those that
are no targets, with their pointers cut. -/
theorem afterApply_memories {c : Computed}
    {row : MemoryRow} : row ∈ (s.afterApply env plan c now).memories.rows ↔ ∃ old ∈ s.memories.rows,
        ¬(old.agentId = plan.document.agentId ∧ old.id ∈ c.memoryIds) ∧
        row = cutRow env plan.document.agentId (env.formatTs now) plan.planId c.cuts old := by
  simp only [Db.afterApply, cutPointers_rows, List.mem_map, Table.mem_deleteWhere]
  constructor
  · rintro ⟨old, ⟨listed, kept⟩, rfl⟩
    exact ⟨old, listed, by simpa using kept, rfl⟩
  · rintro ⟨old, listed, kept, rfl⟩
    exact ⟨old, ⟨listed, by simpa using kept⟩, rfl⟩

theorem afterApply_keyFacts {c : Computed}
    {row : KeyFactRow} : row ∈ (s.afterApply env plan c now).keyFacts.rows ↔
      row ∈ s.keyFacts.rows ∧ ¬(row.agentId = plan.document.agentId ∧ row.id ∈ c.factIds) := by
  simp [Db.afterApply]

section AfterApply

variable {env : Env} {s : Db} {plan : ForgetPlan} {c : Computed} {now : Int}

variable {store : StoreName} {id : Id}

theorem afterApply_present (present : (s.afterApply env plan c now).present store id) : s.present store id := by
  cases store with
  | memories =>
    simp only [Db.present, List.any_eq_true, beq_iff_eq] at present ⊢
    obtain ⟨row, listed, rfl⟩ := present
    obtain ⟨old, inOld, -, rfl⟩ := afterApply_memories.mp listed
    exact ⟨old, inOld, (cutRow_key ..).1.symm⟩
  | keyFacts =>
    simp only [Db.present, List.any_eq_true, beq_iff_eq] at present ⊢
    obtain ⟨row, listed, rfl⟩ := present
    exact ⟨row, (afterApply_keyFacts.mp listed).1, rfl⟩

theorem afterApply_live {agentId : Text} (live : s.rowExists store id agentId)
    (kept : agentId = plan.document.agentId → id ∉ c.targetIds store) :
    (s.afterApply env plan c now).rowExists store id agentId := by
  cases store with
  | memories =>
    simp only [Db.rowExists, List.any_eq_true, Bool.and_eq_true, beq_iff_eq] at live ⊢
    obtain ⟨row, listed, rfl, rfl⟩ := live
    refine ⟨_, afterApply_memories.mpr ⟨row, listed, fun target => ?_, rfl⟩, cutRow_key ..⟩
    exact kept target.1 target.2
  | keyFacts =>
    simp only [Db.rowExists, List.any_eq_true, Bool.and_eq_true, beq_iff_eq] at live ⊢
    obtain ⟨row, listed, rfl, rfl⟩ := live
    refine ⟨row, afterApply_keyFacts.mpr ⟨listed, fun target => ?_⟩, rfl, rfl⟩
    exact kept target.1 target.2

theorem afterApply_gone (spec : ComputedSpec s plan.document.agentId plan.document.selector c)
    (target : id ∈ c.targetIds store) : (s.afterApply env plan c now).present store id = false := by
  have live := spec.targetsLive store id target
  cases store with
  | memories =>
    simp only [Db.rowExists, List.any_eq_true, Bool.and_eq_true, beq_iff_eq] at live
    simp only [Db.present, List.any_eq_false, beq_iff_eq]
    obtain ⟨row, listed, rfl, inNamespace⟩ := live
    intro other isOther same
    obtain ⟨old, inOld, stays, rfl⟩ := afterApply_memories.mp isOther
    have isRow : old = row := s.memories.unique inOld listed ((cutRow_key ..).1.symm.trans same)
    subst isRow
    exact stays ⟨inNamespace, target⟩
  | keyFacts =>
    simp only [Db.rowExists, List.any_eq_true, Bool.and_eq_true, beq_iff_eq] at live
    simp only [Db.present, List.any_eq_false, beq_iff_eq]
    obtain ⟨row, listed, rfl, inNamespace⟩ := live
    intro other isOther same
    obtain ⟨inOld, stays⟩ := afterApply_keyFacts.mp isOther
    have isRow : other = row := s.keyFacts.unique inOld listed same
    subst isRow
    exact stays ⟨inNamespace, target⟩

end AfterApply

end DuDuClaw.Memory
