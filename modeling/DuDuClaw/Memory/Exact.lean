/-
# Memory.Exact -- an apply does what was planned, or nothing

Runs of plans and applies of a source with any other writes between them.  The body an
apply recomputes has the hash of the stored plan, so with an injective SHA-256 it lists
the rows the stored plan lists, and these are the rows the apply removes.

* `AppliedStep.exact`: one apply that writes.
* `Event.perform_ledger`: one event keeps the ledger of plans and epochs.
* `apply_exact_or_nothing`: every apply of every run, and no plan or epoch used twice.
-/
import DuDuClaw.Memory.Forget

namespace DuDuClaw.Memory

open DuDuClaw.Lib

/-! ## What an apply removes -/

def ForgetPlan.targetKeys (plan : ForgetPlan) : List (StoreName × Id) :=
  plan.document.body.targets.map fun t => (t.store, t.id)

def Db.archiveRows (s : Db) : List ArchiveRow := (s.archive.map Table.rows).getD []

/-- The step from `s` to `t` does exactly what the plan says. -/
structure Db.DoesPlan (env : Env) (s t : Db) (plan : ForgetPlan) (now : Int) : Prop where
  planned : plan.status = .planned
  unexpired : ∃ expiry, env.parseRfc3339 plan.document.expiresAt = some expiry ∧ now < expiry
  sameEpoch : s.forgetEpoch plan.document.agentId = plan.document.forgetEpoch
  /-- The rows that leave `memories` and `key_facts` are the targets. -/
  removed : ∀ store id,
    (s.present store id ∧ ¬t.present store id) ↔ (store, id) ∈ plan.targetKeys
  /-- No row is added. -/
  nothingNew : ∀ store id, t.present store id → s.present store id
  /-- The rows that leave the archive are the listed ones and the targets' copies. -/
  removedArchive : ∀ row,
    (row ∈ s.archiveRows ∧ row ∉ t.archiveRows) ↔
      row ∈ s.archiveRows ∧ row.agentId = plan.document.agentId ∧
        (row.id ∈ plan.document.body.archiveIds ∨ (.memories, row.id) ∈ plan.targetKeys)
  nothingNewArchive : ∀ row ∈ t.archiveRows, row ∈ s.archiveRows
  /-- Every listed archive id has its row. -/
  archived : ∀ id ∈ plan.document.body.archiveIds, s.archived id plan.document.agentId
  /-- No row that stays points to a target. -/
  noPointer : ∀ row ∈ t.memories.rows, row.agentId = plan.document.agentId →
    ∀ id, (.memories, id) ∈ plan.targetKeys →
      row.supersededBy ≠ some id ∧ row.supersedes ≠ some id
  nextEpoch : t.forgetEpoch plan.document.agentId = s.forgetEpoch plan.document.agentId + 1
  otherEpochs : ∀ agentId, agentId ≠ plan.document.agentId →
    t.forgetEpoch agentId = s.forgetEpoch agentId

/-! ## One apply -/

theorem mem_supersessionCuts {s : Db} {agentId : Text} {ids : List Id} {row : MemoryRow} {id : Id}
    (listed : row ∈ s.memories.rows) (inNamespace : row.agentId = agentId) (goes : id ∈ ids)
    (stays : row.id ∉ ids) :
    (row.supersededBy = some id → ⟨id, row.id, true⟩ ∈ s.supersessionCuts agentId ids) ∧
      (row.supersedes = some id → ⟨id, row.id, false⟩ ∈ s.supersessionCuts agentId ids) := by
  simp only [Db.supersessionCuts, mem_toSet, List.mem_append, List.mem_filterMap]
  constructor
  · intro points
    exact .inl ⟨row, listed, by simp [points, inNamespace, goes, stays]⟩
  · intro points
    exact .inr ⟨row, listed, by simp [points, inNamespace, goes, stays]⟩

section AfterApply

variable {env : Env} {s : Db} {plan : ForgetPlan} {c : Computed} {now : Int}

theorem afterApply_archiveRows {row : ArchiveRow} : row ∈ (s.afterApply env plan c now).archiveRows ↔
      row ∈ s.archiveRows ∧ ¬(row.agentId = plan.document.agentId ∧
        (row.id ∈ c.memoryIds ∨ row.id ∈ c.archiveIds)) := by
  cases isArchive : s.archive with
  | none | some table => simp [Db.archiveRows, Db.afterApply, isArchive]

/-- A row that stays points to no row that goes. -/
theorem afterApply_noPointer
    (spec : ComputedSpec s plan.document.agentId plan.document.selector c) {row : MemoryRow}
    (listed : row ∈ (s.afterApply env plan c now).memories.rows)
    (inNamespace : row.agentId = plan.document.agentId) {id : Id} (goes : id ∈ c.memoryIds) :
    row.supersededBy ≠ some id ∧ row.supersedes ≠ some id := by
  obtain ⟨old, inOld, stays, rfl⟩ := afterApply_memories.mp listed
  have sameAgent := (cutRow_key env plan.document.agentId (env.formatTs now) plan.planId c.cuts
    old).2
  have oldAgent := sameAgent.symm.trans inNamespace
  have notTarget : old.id ∉ c.memoryIds := fun target => stays ⟨oldAgent, target⟩
  obtain ⟨byCut, ofCut⟩ := mem_supersessionCuts inOld oldAgent goes notTarget
  obtain ⟨byKept, ofKept⟩ := cutRow_pointers env plan.document.agentId (env.formatTs now)
    plan.planId c.cuts old
  rw [← spec.cuts] at byCut ofCut
  constructor
  · intro points
    rcases byKept with same | cleared
    · exact (cutRow_clears env plan.document.agentId (env.formatTs now) plan.planId
        (byCut (same.symm.trans points)) rfl oldAgent).1 rfl points
    · exact absurd (cleared.symm.trans points) nofun
  · intro points
    rcases ofKept with same | cleared
    · exact (cutRow_clears env plan.document.agentId (env.formatTs now) plan.planId
        (ofCut (same.symm.trans points)) rfl oldAgent).2 rfl points
    · exact absurd (cleared.symm.trans points) nofun

theorem afterApply_epoch : (s.afterApply env plan c now).forgetEpoch plan.document.agentId =
      s.forgetEpoch plan.document.agentId + 1 := by
  cases known : s.fence plan.document.agentId <;> simp [Db.afterApply, Db.forgetEpoch, known]

theorem afterApply_otherEpoch {agentId : Text} (other : agentId ≠ plan.document.agentId) :
    (s.afterApply env plan c now).forgetEpoch agentId = s.forgetEpoch agentId := by
  simp [Db.afterApply, Db.forgetEpoch, other]

end AfterApply

theorem ComputedSpec.mem_targets {s : Db} {agentId : Text} {sel : FrozenSelector} {c : Computed}
    (spec : ComputedSpec s agentId sel c) {store : StoreName} {id : Id} :
    (store, id) ∈ c.body.targets.map (fun t => (t.store, t.id)) ↔ id ∈ c.targetIds store := by
  rw [spec.targets]
  cases store <;> simp [Computed.targetIds]

/-- **An apply that writes does exactly what its plan says**, if the plan has the hash
of its document. -/
theorem AppliedStep.exact {env : Env} (injective : Function.Injective env.sha256Hex) {s t : Db}
    {planId : Id} {external : ExternalInputs} {now : Int} {report : ApplyReport}
    {plan : ForgetPlan} {c : Computed} (step : AppliedStep env s t planId external now report plan c)
    (sound : plan.planHash = plan.document.planHash env) : s.DoesPlan env t plan now := by
  have spec := compute_spec step.computed
  obtain ⟨sameTargets, sameArchive⟩ := planHash_targets injective (step.hash.trans sound)
  -- what the stored plan lists is what was recomputed
  have isTarget : ∀ store id, (store, id) ∈ plan.targetKeys ↔ id ∈ c.targetIds store := by
    intro store id
    rw [ForgetPlan.targetKeys, ← sameTargets]
    exact spec.mem_targets
  have archiveIds : plan.document.body.archiveIds = c.archiveIds :=
    sameArchive.symm.trans spec.bodyArchive
  have inArchive {row : ArchiveRow} := @afterApply_archiveRows env s plan c now row
  obtain ⟨reports, rfl⟩ := step.written
  refine
    { planned := step.planned
      unexpired := step.unexpired
      sameEpoch := step.epoch
      removed := ?_
      nothingNew := @afterApply_present env s plan c now
      removedArchive := ?_
      nothingNewArchive := fun row listed => (inArchive.mp listed).1
      archived := ?_
      noPointer := ?_
      nextEpoch := @afterApply_epoch env s plan c now
      otherEpochs := @afterApply_otherEpoch env s plan c now }
  · intro store id
    rw [isTarget]
    constructor
    · rintro ⟨there, gone⟩
      by_contra kept
      obtain ⟨agentId, live⟩ := present_iff.mp there
      exact gone (present_iff.mpr ⟨agentId, afterApply_live live fun _ => kept⟩)
    · intro target
      refine ⟨present_iff.mpr ⟨_, spec.targetsLive store id target⟩, ?_⟩
      exact Bool.eq_false_iff.mp (afterApply_gone spec target)
  · intro row
    rw [archiveIds, isTarget]
    show _ ∧ row ∉ (s.afterApply env plan c now).archiveRows ↔ _
    rw [inArchive]
    constructor
    · rintro ⟨there, gone⟩
      have goes := not_not.mp fun kept => gone ⟨there, kept⟩
      exact ⟨there, goes.1, goes.2.symm⟩
    · rintro ⟨there, inNamespace, goes⟩
      exact ⟨there, fun stays => stays.2 ⟨inNamespace, goes.symm⟩⟩
  · intro id listed
    rw [archiveIds] at listed
    exact (spec.archiveIds id listed).1
  · intro row listed inNamespace id target
    exact afterApply_noPointer spec listed inNamespace ((isTarget _ _).mp target)

/-! ## A fresh plan -/

section Fresh
variable (env : Env) (s : Db) (plans : Table ForgetPlan.planId)

theorem storeTargets_plans (agentId : Text) (sel : FrozenSelector) (store : StoreName) (ids : List (Id × Via)) :
    { s with plans := plans }.storeTargets env agentId sel store ids =
      s.storeTargets env agentId sel store ids := by
  induction ids with
  | nil => rfl
  | cons first more ih =>
    simp only [Db.storeTargets, ih]
    rfl

theorem compute_plans (agentId : Text) (sel : FrozenSelector) (maxRows : Nat)
    (external : ExternalInputs) (now : Text) :
    { s with plans := plans }.compute env agentId sel maxRows external now =
      s.compute env agentId sel maxRows external now := by
  simp only [Db.compute, storeTargets_plans]
  rfl

end Fresh

/-- **A plan applied at once is applied**: nothing changed since, so its hash is met. -/
theorem PlannedStep.applies {env : Env} {s t : Db} {agentId : Text} {external : ExternalInputs}
    {now : Int} {planId : Id} {plan : ForgetPlan} (step : PlannedStep env s t agentId external now planId plan)
    (unexpired : ∃ expiry, env.parseRfc3339 plan.document.expiresAt = some expiry ∧ now < expiry)
    (noReport : ∀ report ∈ s.reports.rows, report.planId ≠ planId) :
    ∃ report next, t.applyForgetPlan env planId external now .none = (.ok (.applied report), next) := by
  obtain ⟨c, computed, sameBody⟩ := step.computed
  obtain ⟨plans, inserted, rfl⟩ := step.written
  obtain ⟨expiry, parsed, early⟩ := unexpired
  obtain ⟨-, rows⟩ := Table.insert_cases inserted
  obtain rfl := step.inNamespace
  obtain rfl := step.isPlan
  have stored : plan ∈ plans.rows := rows ▸ List.mem_append_right _ List.mem_cons_self
  have found := plans.find?_key stored
  have sameHash : { plan.document with body := c.body }.planHash env = plan.planHash := by
    rw [← sameBody]
    exact step.hash.symm
  have passed : { s with plans := plans }.recheck env plan external.canonical now =
      .ok (.ok c) := by
    refine recheck_of step.epoch.symm ?_ sameHash
    rw [compute_plans]
    exact computed
  obtain ⟨reports, reported⟩ := @Table.insert_fresh _ _ ApplyReport.planId _ s.reports
    ({ s with plans := plans }.applyReport env plan c now) noReport
  simp only [Db.applyForgetPlan, found, step.planned, step.dbInstance, parsed, Option.all_some,
    decide_eq_true_eq, early.not_ge, Db.applyTransaction, passed, Db.writeApply, reported,
    Faults.none, ne_eq, not_true_eq_false, if_false, Bool.or_self, Bool.false_eq_true, Option.map_some]
  exact ⟨_, _, rfl⟩

/-! ## Runs -/

/-- Any other write: it leaves the stored plans alone and lowers no epoch. -/
structure Write where
  run : Db → Db
  keepsPlans : ∀ s, (run s).plans = s.plans
  keepsEpochs : ∀ s agentId, s.forgetEpoch agentId ≤ (run s).forgetEpoch agentId

inductive Event where
  | write (w : Write)
  | plan (agentId : Text) (sel : ForgetSelector) (options : PlanOptions)
      (external : ExternalInputs) (now : Int) (planId : Id)
  | apply (planId : Id) (external : ExternalInputs) (now : Int) (faults : Faults)

/-- What a run did: a plan made in a namespace at its epoch then, or a plan applied. -/
inductive Record where
  | planned (planId : Id) (agentId : Text) (epoch : Int)
  | applied (planId : Id)

def Record.appliedId : Record → Option Id
  | .planned .. => none
  | .applied planId => some planId

structure Run where
  history : List Record
  db : Db

def Run.start (instanceId : Text) : Run := ⟨[], Db.empty instanceId⟩

def Event.perform (env : Env) (run : Run) : Event → Run
  | .write w => ⟨run.history, w.run run.db⟩
  | .plan agentId sel options external now planId =>
    match run.db.planForgetSource env agentId sel options external now planId with
    | (.ok (.planned _), next) =>
      ⟨run.history ++ [.planned planId agentId (run.db.forgetEpoch agentId)], next⟩
    | (_, next) => ⟨run.history, next⟩
  | .apply planId external now faults =>
    match run.db.applyForgetPlan env planId external now faults with
    | (.ok (.applied _), next) => ⟨run.history ++ [.applied planId], next⟩
    | (_, next) => ⟨run.history, next⟩

def Run.after (env : Env) (run : Run) (events : List Event) : Run :=
  events.foldl (Event.perform env) run

/-! ## The ledger -/

/-- The invariant of a run: a plan that may still be applied has the hash of its
document, and an applied one is of a past epoch of its namespace. -/
structure Run.Ledger (env : Env) (run : Run) : Prop where
  sound : ∀ plan ∈ run.db.plans.rows, plan.status = .planned →
    plan.planHash = plan.document.planHash env
  made : ∀ planId agentId epoch, .planned planId agentId epoch ∈ run.history →
    ∃ plan ∈ run.db.plans.rows, plan.planId = planId ∧ plan.document.agentId = agentId ∧
      plan.document.forgetEpoch = epoch
  done : ∀ planId, .applied planId ∈ run.history →
    ∃ plan ∈ run.db.plans.rows, plan.planId = planId ∧ plan.status = .applied ∧
      plan.document.forgetEpoch < run.db.forgetEpoch plan.document.agentId
  once : (run.history.filterMap Record.appliedId).Nodup
  perEpoch : ∀ a ∈ run.db.plans.rows, ∀ b ∈ run.db.plans.rows,
    .applied a.planId ∈ run.history → .applied b.planId ∈ run.history →
      a.document.agentId = b.document.agentId →
        a.document.forgetEpoch = b.document.forgetEpoch → a.planId = b.planId

/-- The plan `b` is the plan `a`, possibly retired. -/
structure ForgetPlan.Retires (a b : ForgetPlan) : Prop where
  planId : b.planId = a.planId
  agentId : b.document.agentId = a.document.agentId
  epoch : b.document.forgetEpoch = a.document.forgetEpoch
  stillPlanned : b.status = .planned → b = a
  stillApplied : a.status = .applied → b.status = .applied

theorem ForgetPlan.Retires.refl (plan : ForgetPlan) : plan.Retires plan :=
  ⟨rfl, rfl, rfl, fun _ => rfl, id⟩

/-- A step that adds no plan and forgets none. -/
structure Db.KeepsPlans (s t : Db) : Prop where
  back : ∀ b ∈ t.plans.rows, ∃ a ∈ s.plans.rows, a.Retires b
  forth : ∀ a ∈ s.plans.rows, ∃ b ∈ t.plans.rows, a.Retires b
  epochs : ∀ agentId, s.forgetEpoch agentId ≤ t.forgetEpoch agentId

theorem Run.Ledger.keep {env : Env} {history : List Record} {s t : Db}
    (ledger : Run.Ledger env ⟨history, s⟩) (keeps : s.KeepsPlans t) : Run.Ledger env ⟨history, t⟩ := by
  refine ⟨?_, ?_, ?_, ledger.once, ?_⟩
  · intro b listed planned
    obtain ⟨a, inOld, same⟩ := keeps.back b listed
    obtain rfl := same.stillPlanned planned
    exact ledger.sound b inOld planned
  · intro planId agentId epoch recorded
    obtain ⟨a, inOld, rfl, rfl, rfl⟩ := ledger.made planId agentId epoch recorded
    obtain ⟨b, listed, same⟩ := keeps.forth a inOld
    exact ⟨b, listed, same.planId, same.agentId, same.epoch⟩
  · intro planId recorded
    obtain ⟨a, inOld, rfl, applied, past⟩ := ledger.done planId recorded
    obtain ⟨b, listed, same⟩ := keeps.forth a inOld
    refine ⟨b, listed, same.planId, same.stillApplied applied, ?_⟩
    rw [same.epoch, same.agentId]
    exact lt_of_lt_of_le past (keeps.epochs _)
  · intro a inA b inB appliedA appliedB sameAgent sameEpoch
    obtain ⟨a', oldA, sameA⟩ := keeps.back a inA
    obtain ⟨b', oldB, sameB⟩ := keeps.back b inB
    rw [sameA.planId] at appliedA ⊢
    rw [sameB.planId] at appliedB ⊢
    refine ledger.perEpoch a' oldA b' oldB appliedA appliedB ?_ ?_
    · exact sameA.agentId.symm.trans (sameAgent.trans sameB.agentId)
    · exact sameA.epoch.symm.trans (sameEpoch.trans sameB.epoch)

theorem keepsPlans_of_update {s t : Db} {edit : ForgetPlan → ForgetPlan}
    (rows : t.plans.rows = s.plans.rows.map edit) (retires : ∀ plan ∈ s.plans.rows, plan.Retires (edit plan))
    (epochs : ∀ agentId, s.forgetEpoch agentId ≤ t.forgetEpoch agentId) : s.KeepsPlans t := by
  refine ⟨?_, ?_, epochs⟩
  · intro b listed
    obtain ⟨a, inOld, rfl⟩ := List.mem_map.mp (rows ▸ listed)
    exact ⟨a, inOld, retires a inOld⟩
  · intro a inOld
    exact ⟨edit a, rows ▸ List.mem_map_of_mem inOld, retires a inOld⟩

theorem setStatus_keepsPlans {s : Db} {planId : Id} {status : PlanStatus}
    (retired : status ≠ .planned) : s.KeepsPlans (s.setStatus planId status) := by
  refine keepsPlans_of_update rfl (fun plan _ => ?_) fun _ => le_rfl
  split
  · rename_i isPlan
    refine ⟨rfl, rfl, rfl, fun planned => absurd planned retired, fun applied => ?_⟩
    rw [isPlan.2] at applied
    cases applied
  · exact .refl plan

theorem Db.Refused.keepsPlans {s t : Db} {planId : Id} (refused : s.Refused t planId) : s.KeepsPlans t := by
  rcases refused with rfl | rfl | rfl
  · exact ⟨fun b listed => ⟨b, listed, .refl b⟩, fun a listed => ⟨a, listed, .refl a⟩, fun _ => le_rfl⟩
  · exact setStatus_keepsPlans nofun
  · exact setStatus_keepsPlans nofun

section AfterApply

variable {env : Env} {s t : Db} {planId : Id} {external : ExternalInputs} {now : Int}
  {report : ApplyReport} {plan : ForgetPlan} {c : Computed}

theorem AppliedStep.keepsPlans (step : AppliedStep env s t planId external now report plan c) :
    s.KeepsPlans t := by
  obtain ⟨reports, rfl⟩ := step.written
  refine keepsPlans_of_update rfl (fun a listed => ?_) fun agentId => ?_
  · split
    · rename_i isPlan
      have same : a = plan := s.plans.unique listed step.stored isPlan
      subst same
      exact ⟨rfl, rfl, rfl, nofun, fun _ => rfl⟩
    · exact .refl a
  · by_cases isAgent : agentId = plan.document.agentId
    · subst isAgent
      have grew := @afterApply_epoch env s plan c now
      show _ ≤ (s.afterApply env plan c now).forgetEpoch _
      omega
    · exact (@afterApply_otherEpoch env s plan c now agentId isAgent).ge

/-- The plan is applied afterwards, and its epoch is past. -/
theorem AppliedStep.retired (step : AppliedStep env s t planId external now report plan c) :
    ∃ b ∈ t.plans.rows, plan.Retires b ∧ b.status = .applied ∧
      b.document.forgetEpoch < t.forgetEpoch b.document.agentId := by
  obtain ⟨reports, rfl⟩ := step.written
  refine ⟨{ plan with status := .applied, appliedAt := some (env.formatTs now)
                      document := plan.document.scrubbed }, ?_, ?_, rfl, ?_⟩
  · exact List.mem_map.mpr ⟨plan, step.stored, if_pos rfl⟩
  · exact ⟨rfl, rfl, rfl, nofun, fun _ => rfl⟩
  · have grew := @afterApply_epoch env s plan c now
    have sameEpoch := step.epoch
    show plan.document.forgetEpoch < (s.afterApply env plan c now).forgetEpoch plan.document.agentId
    omega

end AfterApply

/-! ## Events keep the ledger -/

theorem Run.Ledger.plan {env : Env} {history : List Record} {s t : Db} {agentId : Text}
    {external : ExternalInputs} {now : Int} {planId : Id} {plan : ForgetPlan}
    (ledger : Run.Ledger env ⟨history, s⟩) (step : PlannedStep env s t agentId external now planId plan) :
    Run.Ledger env ⟨history ++ [.planned planId agentId (s.forgetEpoch agentId)], t⟩ := by
  obtain ⟨plans, inserted, rfl⟩ := step.written
  obtain ⟨fresh, rows⟩ := Table.insert_cases inserted
  have inOld : ∀ a ∈ s.plans.rows, a ∈ plans.rows := fun a listed =>
    rows ▸ List.mem_append_left _ listed
  have isNew : plan ∈ plans.rows := rows ▸ List.mem_append_right _ List.mem_cons_self
  have cases : ∀ a ∈ plans.rows, a ∈ s.plans.rows ∨ a = plan := by
    intro a listed
    simpa [rows] using listed
  have old : ∀ id, .applied id ∈ history ++ [.planned planId agentId (s.forgetEpoch agentId)] →
      .applied id ∈ history := by simp
  -- the new plan's id is no applied one: those have their rows
  have unused : .applied plan.planId ∉ history := by
    intro applied
    obtain ⟨a, listed, same, -⟩ := ledger.done _ applied
    exact fresh a listed same
  refine ⟨?_, ?_, ?_, ?_, ?_⟩
  · intro a listed planned
    rcases cases a listed with known | rfl
    · exact ledger.sound a known planned
    · exact step.hash
  · intro id agent epoch recorded
    rcases List.mem_append.mp recorded with before | now_
    · obtain ⟨a, listed, same⟩ := ledger.made id agent epoch before
      exact ⟨a, inOld a listed, same⟩
    · rw [List.mem_singleton] at now_
      cases now_
      exact ⟨plan, isNew, step.isPlan, step.inNamespace, step.epoch⟩
  · intro id applied
    obtain ⟨a, listed, same⟩ := ledger.done id (old id applied)
    exact ⟨a, inOld a listed, same⟩
  · rw [List.filterMap_append]
    show (_ ++ []).Nodup
    rw [List.append_nil]
    exact ledger.once
  · intro a inA b inB appliedA appliedB
    have knownA := (cases a inA).resolve_right fun same => unused (same ▸ old _ appliedA)
    have knownB := (cases b inB).resolve_right fun same => unused (same ▸ old _ appliedB)
    exact ledger.perEpoch a knownA b knownB (old _ appliedA) (old _ appliedB)

theorem Run.Ledger.apply {env : Env} {history : List Record} {s t : Db} {planId : Id}
    {external : ExternalInputs} {now : Int} {report : ApplyReport} {plan : ForgetPlan}
    {c : Computed} (ledger : Run.Ledger env ⟨history, s⟩)
    (step : AppliedStep env s t planId external now report plan c) :
    Run.Ledger env ⟨history ++ [.applied planId], t⟩ := by
  have kept := ledger.keep step.keepsPlans
  obtain ⟨b, isRow, retires, applied, past⟩ := step.retired
  have isPlan : b.planId = planId := retires.planId.trans step.isPlan
  -- an applied plan is not planned any more, so this one is applied the first time
  have unused : .applied planId ∉ history := by
    intro before
    obtain ⟨a, listed, same, done, -⟩ := ledger.done planId before
    rw [s.plans.unique listed step.stored (same.trans step.isPlan.symm), step.planned] at done
    cases done
  -- a plan applied before, in the same namespace, is of an earlier epoch
  have earlier : ∀ a ∈ t.plans.rows, .applied a.planId ∈ history → a.document.agentId = b.document.agentId →
        a.document.forgetEpoch ≠ b.document.forgetEpoch := by
    intro a listed before sameAgent
    obtain ⟨old, inOld, same⟩ := step.keepsPlans.back a listed
    obtain ⟨x, inX, sameId, -, pastX⟩ := ledger.done _ before
    obtain rfl := s.plans.unique inX inOld (sameId.trans same.planId)
    have agent : x.document.agentId = plan.document.agentId :=
      same.agentId.symm.trans (sameAgent.trans retires.agentId)
    rw [same.epoch, retires.epoch, ← step.epoch, ← agent]
    exact pastX.ne
  have split : ∀ id, .applied id ∈ history ++ [.applied planId] → .applied id ∈ history ∨ id = planId := by simp
  refine ⟨kept.sound, ?_, ?_, ?_, ?_⟩
  · intro id agent epoch recorded
    refine kept.made id agent epoch ?_
    simpa using recorded
  · intro id recorded
    rcases split id recorded with before | rfl
    · exact kept.done id before
    · exact ⟨b, isRow, isPlan, applied, past⟩
  · rw [List.filterMap_append, List.nodup_append]
    refine ⟨ledger.once, by simp [Record.appliedId], ?_⟩
    intro x before y now_
    obtain rfl : y = planId := by simpa [Record.appliedId] using now_
    rintro rfl
    obtain ⟨record, listed, isApplied⟩ := List.mem_filterMap.mp before
    cases record with
    | planned id agent epoch => cases isApplied
    | applied id =>
      cases isApplied
      exact unused listed
  · intro x inX y inY appliedX appliedY sameAgent sameEpoch
    rcases split _ appliedX with beforeX | isX
    · rcases split _ appliedY with beforeY | isY
      · exact kept.perEpoch x inX y inY beforeX beforeY sameAgent sameEpoch
      · obtain rfl := t.plans.unique inY isRow (isY.trans isPlan.symm)
        exact absurd sameEpoch (earlier x inX beforeX sameAgent)
    rcases split _ appliedY with beforeY | isY
    · obtain rfl := t.plans.unique inX isRow (isX.trans isPlan.symm)
      exact absurd sameEpoch.symm (earlier y inY beforeY sameAgent.symm)
    · exact isX.trans isY.symm

/-- **One event keeps the ledger.** -/
theorem Event.perform_ledger (env : Env) {run : Run} (event : Event) (ledger : run.Ledger env) :
    (event.perform env run).Ledger env := by
  cases event with
  | write w =>
    refine ledger.keep ⟨?_, ?_, w.keepsEpochs run.db⟩
    · intro b listed
      exact ⟨b, w.keepsPlans run.db ▸ listed, .refl b⟩
    · intro a listed
      exact ⟨a, (w.keepsPlans run.db).symm ▸ listed, .refl a⟩
  | plan agentId sel options external now planId =>
    cases ran : run.db.planForgetSource env agentId sel options external now planId with
    | mk r next =>
      rcases planForgetSource_cases ran with ⟨plan, rfl, step⟩ | ⟨notPlanned, rfl⟩
      · simp only [Event.perform, ran]
        exact ledger.plan step
      · simp only [Event.perform, ran]
        exact ledger
  | apply planId external now faults =>
    cases ran : run.db.applyForgetPlan env planId external now faults with
    | mk r next =>
      rcases applyForgetPlan_cases ran with ⟨report, plan, c, rfl, step⟩ | ⟨notApplied, refused⟩
      · simp only [Event.perform, ran]
        exact ledger.apply step
      · simp only [Event.perform, ran]
        exact ledger.keep refused.keepsPlans

theorem Run.ledger_start (env : Env) (instanceId : Text) : (Run.start instanceId).Ledger env := by
  refine ⟨?_, ?_, ?_, List.nodup_nil, ?_⟩
  · intro plan listed
    cases listed
  · intro planId agentId epoch recorded
    cases recorded
  · intro planId recorded
    cases recorded
  · intro plan listed
    cases listed

theorem Run.after_ledger (env : Env) {run : Run} (events : List Event) (ledger : run.Ledger env) :
    (run.after env events).Ledger env := by
  induction events generalizing run with
  | nil => exact ledger
  | cons event rest ih => exact ih (event.perform_ledger env ledger)

/-! ## Exactly the plan, or nothing -/

/-- The apply does exactly what its stored plan says and reports so, or it leaves all
but the status of a plan unchanged. -/
def Db.ExactOrNothing (env : Env) (s : Db) (planId : Id) (external : ExternalInputs) (now : Int)
    (faults : Faults) : Prop :=
  let (outcome, t) := s.applyForgetPlan env planId external now faults
  (∃ report plan, outcome = .ok (.applied report) ∧ plan ∈ s.plans.rows ∧ plan.planId = planId ∧
      s.DoesPlan env t plan now) ∨
    ((∀ report, outcome ≠ .ok (.applied report)) ∧ ∃ plans, t = { s with plans := plans })

/-- No plan is applied twice, nor two plans made in one namespace at one epoch. -/
def Run.AppliedOnce (run : Run) : Prop :=
  (run.history.filterMap Record.appliedId).Nodup ∧
    ∀ a b agentId epoch, .planned a agentId epoch ∈ run.history →
      .planned b agentId epoch ∈ run.history → .applied a ∈ run.history →
        .applied b ∈ run.history → a = b

/-- **Applying a forget plan does exactly what was planned, or nothing**, with whatever
writes between planning and applying; and each plan, and each epoch of a namespace, is
used at most once. -/
theorem apply_exact_or_nothing (env : Env) (injective : Function.Injective env.sha256Hex)
    (instanceId : Text) (events : List Event) : (∀ planId external now faults,
        ((Run.start instanceId).after env events).db.ExactOrNothing env planId external now
          faults) ∧
      ((Run.start instanceId).after env events).AppliedOnce := by
  have ledger := Run.after_ledger env events (Run.ledger_start env instanceId)
  refine ⟨?_, ledger.once, ?_⟩
  · intro planId external now faults
    unfold Db.ExactOrNothing
    split
    rename_i outcome t ran
    rcases applyForgetPlan_cases ran with ⟨report, plan, c, applied, step⟩ | ⟨notApplied, refused⟩
    · refine .inl ⟨report, plan, applied, step.stored, step.isPlan, ?_⟩
      exact step.exact injective (ledger.sound plan step.stored step.planned)
    refine .inr ⟨notApplied, ?_⟩
    rcases refused with rfl | rfl | rfl
    · exact ⟨_, rfl⟩
    · exact ⟨_, rfl⟩
    · exact ⟨_, rfl⟩
  · intro a b agentId epoch madeA madeB appliedA appliedB
    obtain ⟨planA, inA, rfl, agentA, epochA⟩ := ledger.made a agentId epoch madeA
    obtain ⟨planB, inB, rfl, agentB, epochB⟩ := ledger.made b agentId epoch madeB
    exact ledger.perEpoch planA inA planB inB appliedA appliedB (agentA.trans agentB.symm)
      (epochA.trans epochB.symm)

/-! ### A run in which the apply writes

One row with one message, which is forgotten.  The hashes are the real ones. -/

namespace Sample

def contentHash : Text :=
  Nat.toDigits 16 0xa9f74d1ec36ebdeb2da3f6e5868090cd2a2d20b3dcca7b62f60304b1d3d9ef42

def sourceHash : Text :=
  Nat.toDigits 16 0x5f4b585ee57b806ab5db22f3d898a49c6d7a76cfc82e859a9d301aad913dbb79

def documentHash : Text :=
  Nat.toDigits 16 0x37cad3b4d9e05b12d56f605cbbe9655662b9a127f8d5f4787bf42953ed8bfc9e

def madeAt : Text := "1970-01-01T00:00:00.000000Z".toList

def expiresAt : Text := "1970-01-01T00:30:00.000000Z".toList

def target : TargetEntry where
  store := .memories
  id := ['r']
  contentSha256 := contentHash
  layer := "semantic".toList
  predicate := none
  matched := [sourceHash.take 32]
  otherSources := []
  via := .origins
  direct := true

def body : PlanBody where
  systemRows := 0
  retainedShared := 0
  tombstones := [⟨.message, sourceHash.take 32⟩]
  targets := [target]
  reaffirmOnly := []
  archiveIds := []
  lineageOnly := []
  collateral := []
  supersessionCuts := []
  entityEmbeddingsOrphaned := 0
  orphanEntityIds := []
  untrackedInNamespace := 0
  otherNamespacesReferencing := 0
  linkedTurns := []
  wikiPages := []
  reviewCardsMatching := 0
  sessionMessages := []
  steps := [⟨.reviewScrub, "targets".toList⟩, ⟨.sessionHide, ['m']⟩,
    ⟨.sessionSummaryClear, "session".toList⟩]
  notCovered := notCovered

def document : PlanDocument where
  schema := planSchema
  planId := ['p']
  dbInstanceId := ['d']
  agentId := ['b', 'o', 't']
  createdAt := madeAt
  expiresAt := expiresAt
  forgetEpoch := 0
  selector := ⟨['s'], [['m']], none, none⟩
  maxRows := defaultMaxRows
  body := body

/-- SHA-256 on the three texts the run hashes, and injective elsewhere. -/
def sha256Hex (text : Text) : Text :=
  if text = ['t', 'e', 'a'] then contentHash
  else if text = ['b', 'o', 't', '|', 's', '|', 'm', '|'] then sourceHash
  else if text = document.hashed.canonicalJson then documentHash
  else '#' :: text

theorem sha256Hex_injective : Function.Injective sha256Hex := by
  have digests : contentHash ≠ sourceHash ∧ contentHash ≠ documentHash ∧ sourceHash ≠ documentHash := by decide
  have marks : contentHash.head? ≠ some '#' ∧ sourceHash.head? ≠ some '#' ∧
      documentHash.head? ≠ some '#' := by decide
  intro a b same
  unfold sha256Hex at same
  split_ifs at same <;> grind [List.head?_cons]

def env : Env where
  sha256Hex := sha256Hex
  formatTs now := if now = 0 then madeAt else expiresAt
  toRfc3339 _ := "1970-01-01T00:00:00+00:00".toList
  parseRfc3339 text := if text = expiresAt then some 1800000000 else none
  metadataSessionId _ := none
  metadataSourceIds _ := none
  parseIds _ := []
  setChainCut metadata _ _ := metadata
  toLowercase text := text.map Char.toLower

def row : MemoryRow where
  id := ['r']
  agentId := ['b', 'o', 't']
  content := ['t', 'e', 'a']
  timestamp := madeAt
  layer := "semantic".toList
  subject := none
  predicate := none
  object := none
  supersededBy := none
  supersedes := none
  derivedFrom := none
  metadata := ['\x7b', '\x7d']
  validUntil := none
  quarantined := false

def origin : Origin where
  store := .memories
  memoryId := ['r']
  agentId := ['b', 'o', 't']
  kind := .source .channelMessage
  session := ['s']
  message := ['m']
  seq := some 1
  observedAt := madeAt
  hash := none
  role := .direct
  via := none

def write : Write where
  run s := { s with memories := (s.memories.insert row).getD s.memories
                    origins := s.origins ++ [origin] }
  keepsPlans _ := rfl
  keepsEpochs _ _ := le_rfl

def noInputs : ExternalInputs := ⟨[], 0, []⟩

def events : List Event :=
  [.write write, .plan ['b', 'o', 't'] ⟨['s'], [['m']], none, none⟩ ⟨none, none⟩ noInputs 0 ['p']]

end Sample

/-- The plan of the run is applied; a row goes, and the theorem says what else. -/
theorem apply_exact_or_nothing_sample : Function.Injective Sample.env.sha256Hex ∧ (∃ report next,
        ((Run.start ['d']).after Sample.env Sample.events).db.applyForgetPlan Sample.env ['p']
          Sample.noInputs 0 .none = (.ok (.applied report), next)) ∧
      (∀ planId external now faults,
        ((Run.start ['d']).after Sample.env Sample.events).db.ExactOrNothing Sample.env planId
          external now faults) ∧
      ((Run.start ['d']).after Sample.env Sample.events).AppliedOnce := by
  refine ⟨Sample.sha256Hex_injective, ?_,
    apply_exact_or_nothing Sample.env Sample.sha256Hex_injective ['d'] Sample.events⟩
  obtain ⟨plan, made, ran, expiry⟩ : ∃ plan made,
      (Sample.write.run (Db.empty ['d'])).planForgetSource Sample.env ['b', 'o', 't']
        ⟨['s'], [['m']], none, none⟩ ⟨none, none⟩ Sample.noInputs 0 ['p'] =
          (.ok (.planned plan), made) ∧ plan.document.expiresAt = Sample.expiresAt :=
    ⟨_, _, rfl, rfl⟩
  have reached : ((Run.start ['d']).after Sample.env Sample.events).db = made := by
    simp only [Run.after, Sample.events, List.foldl_cons, List.foldl_nil, Event.perform, Run.start, ran]
  rcases planForgetSource_cases ran with ⟨stored, same, step⟩ | ⟨notPlanned, -⟩
  · cases same
    rw [reached]
    refine step.applies ⟨1800000000, ?_, by decide⟩ nofun
    rw [expiry]
    simp only [Sample.env, if_true]
  · exact absurd rfl (notPlanned plan)

end DuDuClaw.Memory
