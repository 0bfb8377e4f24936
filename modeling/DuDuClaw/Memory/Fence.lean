/-
# Memory.Fence -- forgotten sources do not come back

The writes of engine.rs that record lineage, and runs of writes, plans and applies from
an empty database.

The invariant is that every lineage row, of whatever role, belongs to a live row of its
namespace and matches no tombstone, and that no forgotten id is present.  A write keeps
it because the triggers check what is inserted and an upsert only raises a role; an
apply keeps it because it removes every lineage row its tombstones match.

* `Op.perform_fenced`: one operation keeps the invariant.
* `forgotten_never_returns`: it holds in every reachable state.
-/
import DuDuClaw.Memory.Forget

namespace DuDuClaw.Memory

open DuDuClaw.Lib

/-! ## Writes -/

inductive WriteOutcome where
  | stored (id : Id)
  | reaffirmed (id : Id)
  | fenced (refusal : FenceRefusal)

/-- The INSERTs of `store_temporal_locked`: row and lineage in one transaction. -/
def Db.storeMemory (env : Env) (s : Db) (agentId : Text) (row : MemoryRow)
    (provenance : Provenance) (derivedFrom : List Id) (now : Int) :
    Except MemError WriteOutcome × Db :=
  match s.resolve env agentId derivedFrom (env.formatTs now) provenance with
  | .error error => (.error error, s)
  | .ok (.error refusal) => (.ok (.fenced refusal), s)
  | .ok (.ok rows) =>
    if s.forgotten.contains (.memories, row.id) then (.error .memoryForgotten, s)
    else
      match s.memories.insert { row with agentId := agentId } with
      | none => (.error .unique, s)
      | some memories =>
        match { s with memories := memories }.insertOrigins .memories row.id agentId rows with
        | .error error => (.error error, s)
        | .ok next => (.ok (.stored row.id), next)

/-- `store_fact_outcome`. -/
def Db.storeFact (env : Env) (s : Db) (agentId : Text) (row : KeyFactRow)
    (provenance : Provenance) (now : Int) : Except MemError WriteOutcome × Db :=
  match s.resolve env agentId [] (env.formatTs now) provenance with
  | .error error => (.error error, s)
  | .ok (.error refusal) => (.ok (.fenced refusal), s)
  | .ok (.ok rows) =>
    if s.forgotten.contains (.keyFacts, row.id) then (.error .memoryForgotten, s)
    else
      match s.keyFacts.insert { row with agentId := agentId } with
      | none => (.error .unique, s)
      | some keyFacts =>
        match { s with keyFacts := keyFacts }.insertOrigins .keyFacts row.id agentId rows with
        | .error error => (.error error, s)
        | .ok next => (.ok (.stored row.id), next)

/-- A write that corroborates an active row of its namespace. -/
def Db.reaffirm (env : Env) (s : Db) (agentId : Text) (survivor : Id) (provenance : Provenance)
    (derivedFrom : List Id) (now : Int) : Except MemError WriteOutcome × Db :=
  match s.resolve env agentId derivedFrom (env.formatTs now) provenance with
  | .error error => (.error error, s)
  | .ok (.error refusal) => (.ok (.fenced refusal), s)
  | .ok (.ok rows) =>
    if !s.rowExists .memories survivor agentId then (.error .missingRow, s)
    else
      match s.addReaffirm env survivor agentId rows with
      | .error error => (.error error, s)
      | .ok (some refusal, next) => (.ok (.fenced refusal), next)
      | .ok (none, next) => (.ok (.reaffirmed survivor), next)

/-- The release of a quarantined row that an active one already says. -/
def Db.releaseAsReaffirm (env : Env) (s : Db) (agentId : Text) (fromId survivor : Id) :
    Except MemError WriteOutcome × Db :=
  if !s.rowExists .memories survivor agentId then (.error .missingRow, s)
  else
    match s.copyAsReaffirm env agentId fromId survivor with
    | .error error => (.error error, s)
    | .ok (some refusal, _) => (.ok (.fenced refusal), s)
    | .ok (none, next) => (.ok (.reaffirmed survivor), next)

/-- An UPDATE of columns of `memories` outside id and namespace: closing a row, pointing
it to its successor, counting an access. -/
structure MemoryEdit where
  apply : MemoryRow → MemoryRow
  keepsId : ∀ row, (apply row).id = row.id
  keepsAgent : ∀ row, (apply row).agentId = row.agentId

inductive Op where
  | store (agentId : Text) (row : MemoryRow) (provenance : Provenance) (derivedFrom : List Id)
      (now : Int)
  | storeFact (agentId : Text) (row : KeyFactRow) (provenance : Provenance) (now : Int)
  | reaffirm (agentId : Text) (survivor : Id) (provenance : Provenance) (derivedFrom : List Id)
      (now : Int)
  | releaseAsReaffirm (agentId : Text) (fromId survivor : Id)
  | edit (change : MemoryEdit)
  | plan (agentId : Text) (sel : ForgetSelector) (options : PlanOptions)
      (external : ExternalInputs) (now : Int) (planId : Id)
  | apply (planId : Id) (external : ExternalInputs) (now : Int) (faults : Faults)

def Op.perform (env : Env) (s : Db) : Op → Db
  | .store agentId row provenance derivedFrom now =>
    (s.storeMemory env agentId row provenance derivedFrom now).2
  | .storeFact agentId row provenance now => (s.storeFact env agentId row provenance now).2
  | .reaffirm agentId survivor provenance derivedFrom now =>
    (s.reaffirm env agentId survivor provenance derivedFrom now).2
  | .releaseAsReaffirm agentId fromId survivor =>
    (s.releaseAsReaffirm env agentId fromId survivor).2
  | .edit change => { s with memories := s.memories.update change.apply change.keepsId }
  | .plan agentId sel options external now planId =>
    (s.planForgetSource env agentId sel options external now planId).2
  | .apply planId external now faults => (s.applyForgetPlan env planId external now faults).2

def performAll (env : Env) (s : Db) (ops : List Op) : Db := ops.foldl (Op.perform env) s

/-! ## The invariant -/

/-- Lineage is of live rows and clear of tombstones; what was forgotten is absent. -/
structure Db.Fenced (s : Db) : Prop where
  good : ∀ o ∈ s.origins, o.Good s
  absent : ∀ key ∈ s.forgotten, s.present key.1 key.2 = false

variable {s t : Db} {agentId : Text} {env : Env} {provenance : Provenance} {now : Int}

theorem fenced_empty (instanceId : Text) : (Db.empty instanceId).Fenced := by
  constructor
  · intro o listed
    cases listed
  · intro key listed
    cases listed

theorem Db.Fenced.onlyLineage (fenced : s.Fenced) (same : s.OnlyLineage t)
    (good : ∀ o ∈ t.origins, o.Good t) : t.Fenced := by
  refine ⟨good, ?_⟩
  rw [same]
  exact fenced.absent

/-- A step that leaves lineage and tombstones alone, keeps the live rows and brings no
forgotten id back. -/
theorem Db.Fenced.keep (fenced : s.Fenced) (origins : t.origins = s.origins)
    (tombstones : t.tombstones = s.tombstones) (forgotten : t.forgotten = s.forgotten)
    (live : ∀ store id agentId, s.rowExists store id agentId → t.rowExists store id agentId)
    (absent : ∀ key ∈ s.forgotten, t.present key.1 key.2 = false) : t.Fenced := by
  refine ⟨fun o listed => ?_, forgotten ▸ absent⟩
  obtain ⟨isLive, clear⟩ := fenced.good o (origins ▸ listed)
  exact ⟨live _ _ _ isLive, tombstones ▸ clear⟩

theorem Db.Fenced.insertRow {next : Db} {store : StoreName} {id : Id}
    {rows : List OriginRow} (fenced : s.Fenced)
    (lineage : t.insertOrigins store id agentId rows = .ok next) (origins : t.origins = s.origins)
    (tombstones : t.tombstones = s.tombstones) (forgotten : t.forgotten = s.forgotten)
    (unknown : ¬s.forgotten.contains (store, id) = true)
    (live : ∀ store id agentId, s.rowExists store id agentId → t.rowExists store id agentId)
    (only : ∀ store' id', t.present store' id' = true →
      s.present store' id' = true ∨ (store', id') = (store, id))
    (stored : t.rowExists store id agentId) : next.Fenced := by
  have widened : t.Fenced := by
    refine fenced.keep origins tombstones forgotten live ?_
    intro key listed
    rw [Bool.eq_false_iff]
    intro present
    rcases only key.1 key.2 present with old | new
    · exact Bool.eq_false_iff.mp (fenced.absent key listed) old
    · exact unknown (List.contains_iff_mem.mpr (new ▸ listed))
  obtain ⟨same, good⟩ := insertOrigins_good stored widened.good lineage
  exact widened.onlyLineage same good

theorem storeMemory_fenced {row : MemoryRow}
    {derivedFrom : List Id} (fenced : s.Fenced) :
    (s.storeMemory env agentId row provenance derivedFrom now).2.Fenced := by
  unfold Db.storeMemory
  split
  · exact fenced
  · exact fenced
  rename_i rows _
  split
  · exact fenced
  rename_i unknown
  split
  · exact fenced
  rename_i memories inserted
  split
  · exact fenced
  rename_i next lineage
  obtain ⟨-, rowsNow⟩ := Table.insert_cases inserted
  refine fenced.insertRow lineage rfl rfl rfl unknown ?_ ?_ ?_
  · intro store id a live
    cases store with
    | memories =>
      simp only [Db.rowExists] at live ⊢
      rw [rowsNow, List.any_append, live, Bool.true_or]
    | keyFacts => exact live
  · intro store id present
    cases store with
    | memories =>
      simp only [Db.present, rowsNow, List.any_append, List.any_cons, List.any_nil,
        Bool.or_false, Bool.or_eq_true, beq_iff_eq] at present
      exact present.imp_right fun same => by rw [same]
    | keyFacts => exact .inl present
  · simp [Db.rowExists, rowsNow]

theorem storeFact_fenced {row : KeyFactRow} (fenced : s.Fenced) :
    (s.storeFact env agentId row provenance now).2.Fenced := by
  unfold Db.storeFact
  split
  · exact fenced
  · exact fenced
  rename_i rows _
  split
  · exact fenced
  rename_i unknown
  split
  · exact fenced
  rename_i keyFacts inserted
  split
  · exact fenced
  rename_i next lineage
  obtain ⟨-, rowsNow⟩ := Table.insert_cases inserted
  refine fenced.insertRow lineage rfl rfl rfl unknown ?_ ?_ ?_
  · intro store id a live
    cases store with
    | memories => exact live
    | keyFacts =>
      simp only [Db.rowExists] at live ⊢
      rw [rowsNow, List.any_append, live, Bool.true_or]
  · intro store id present
    cases store with
    | memories => exact .inl present
    | keyFacts =>
      simp only [Db.present, rowsNow, List.any_append, List.any_cons, List.any_nil,
        Bool.or_false, Bool.or_eq_true, beq_iff_eq] at present
      exact present.imp_right fun same => by rw [same]
  · simp [Db.rowExists, rowsNow]

theorem reaffirm_fenced {survivor : Id}
    {derivedFrom : List Id} (fenced : s.Fenced) :
    (s.reaffirm env agentId survivor provenance derivedFrom now).2.Fenced := by
  unfold Db.reaffirm
  split
  · exact fenced
  · exact fenced
  split
  · exact fenced
  rename_i live
  have live : s.rowExists .memories survivor agentId := by simpa using live
  split
  · exact fenced
  · rename_i refusal next added
    obtain ⟨same, good⟩ := addReaffirm_good live fenced.good added
    exact fenced.onlyLineage same good
  · rename_i next added
    obtain ⟨same, good⟩ := addReaffirm_good live fenced.good added
    exact fenced.onlyLineage same good

theorem releaseAsReaffirm_fenced {fromId survivor : Id}
    (fenced : s.Fenced) : (s.releaseAsReaffirm env agentId fromId survivor).2.Fenced := by
  unfold Db.releaseAsReaffirm
  split
  · exact fenced
  rename_i live
  have live : s.rowExists .memories survivor agentId := by simpa using live
  split
  · exact fenced
  · exact fenced
  rename_i next copied
  simp only [Db.copyAsReaffirm] at copied
  split at copied
  · cases copied
    exact fenced
  · obtain ⟨same, good⟩ := addReaffirm_good live fenced.good copied
    exact fenced.onlyLineage same good

theorem edit_fenced (change : MemoryEdit) (fenced : s.Fenced) :
    { s with memories := s.memories.update change.apply change.keepsId }.Fenced := by
  refine fenced.keep rfl rfl rfl ?_ ?_
  · intro store id a live
    cases store with
    | memories =>
      simp only [Db.rowExists, List.any_eq_true, Bool.and_eq_true, beq_iff_eq] at live ⊢
      obtain ⟨row, listed, sameId, sameAgent⟩ := live
      exact ⟨_, Table.mem_update.mpr ⟨row, listed, rfl⟩, (change.keepsId row).trans sameId,
        (change.keepsAgent row).trans sameAgent⟩
    | keyFacts => exact live
  · intro key listed
    have old := fenced.absent key listed
    obtain ⟨store, id⟩ := key
    cases store with
    | memories =>
      simp only [Db.present, List.any_eq_false, beq_iff_eq] at old ⊢
      intro row isRow
      obtain ⟨before, inBefore, rfl⟩ := Table.mem_update.mp isRow
      rw [change.keepsId]
      exact old before inBefore
    | keyFacts => exact old

/-! ## Applying a plan -/

section Apply

variable {env : Env} {s : Db} {plan : ForgetPlan} {c : Computed} {now : Int}

theorem dropsOrigin_false {o : Origin} (stays : c.dropsOrigin agentId o = false)
    (inNamespace : o.agentId = agentId) :
    o.memoryId ∉ c.targetIds o.store ∧ ¬(o.role = .reaffirm ∧ o ∈ c.reaffirmRows) := by
  simp only [Computed.dropsOrigin, inNamespace, beq_self_eq_true, Bool.true_and, Bool.or_eq_false_iff] at stays
  obtain ⟨⟨notReaffirm, notTarget⟩, -⟩ := stays
  constructor
  · cases isStore : o.store with
    | memories =>
      simp only [isStore, Bool.or_eq_false_iff] at notTarget
      simpa [Computed.targetIds] using notTarget.1
    | keyFacts =>
      simp only [isStore] at notTarget
      simpa [Computed.targetIds] using notTarget
  · rintro ⟨isReaffirm, listed⟩
    simp only [isReaffirm, beq_self_eq_true, Bool.true_and, List.any_eq_false] at notReaffirm
    exact notReaffirm o listed (by simp)

/-- **An apply keeps the invariant.** -/
theorem afterApply_fenced (fenced : s.Fenced)
    (spec : ComputedSpec s plan.document.agentId plan.document.selector c) :
    (s.afterApply env plan c now).Fenced := by
  -- every matched lineage row belongs to a live row, so nothing is found only in the
  -- archive or without its row
  have matchedLive : ∀ o ∈ s.matchedOrigins plan.document.agentId plan.document.selector,
      s.rowExists o.store o.memoryId plan.document.agentId := by
    intro o hit
    obtain ⟨listed, inNamespace, -⟩ := mem_matchedOrigins.mp hit
    exact inNamespace ▸ (fenced.good o listed).live
  refine ⟨fun o listed => ?_, fun key listed => ?_⟩
  · obtain ⟨inOld, stays⟩ := List.mem_filter.mp listed
    obtain ⟨live, clear⟩ := fenced.good o inOld
    have stays : c.dropsOrigin plan.document.agentId o = false := by simpa using stays
    refine ⟨afterApply_live live fun inNamespace => (dropsOrigin_false stays inNamespace).1, ?_⟩
    by_contra hit
    rw [Bool.not_eq_false] at hit
    obtain ⟨f, isTombstone, covers⟩ := List.any_eq_true.mp hit
    rcases mem_insertTombstones isTombstone with old | new
    · have before : o.fenced s.tombstones o.agentId := List.any_eq_true.mpr ⟨f, old, covers⟩
      rw [clear] at before
      cases before
    rw [spec.tombstones] at new
    have fencedNow : o.fenced (s.candidates plan.document.agentId plan.document.selector)
        o.agentId := List.any_eq_true.mpr ⟨f, new, covers⟩
    have inNamespace := (fenced_candidates fencedNow).1
    have hit := mem_matchedOrigins.mpr ⟨inOld, inNamespace, inNamespace ▸ fencedNow⟩
    obtain ⟨notTarget, notReaffirm⟩ := dropsOrigin_false stays inNamespace
    exact (spec.covered o hit (matchedLive o hit)).elim notTarget notReaffirm
  · rcases mem_insertMissing.mp listed with old | new
    · by_contra present
      rw [Bool.not_eq_false] at present
      have stillThere := afterApply_present present
      rw [fenced.absent key old] at stillThere
      cases stillThere
    simp only [Computed.forgottenKeys, List.map_append, List.mem_append, List.mem_map] at new
    rcases new with ((⟨id, isTarget, rfl⟩ | ⟨id, isArchived, rfl⟩) | ⟨id, isTarget, rfl⟩) | bare
    · exact @afterApply_gone env s plan c now .memories id spec isTarget
    · obtain ⟨-, o, hit, -, -, gone⟩ := spec.archiveIds id isArchived
      exact absurd (matchedLive o hit) gone
    · exact @afterApply_gone env s plan c now .keyFacts id spec isTarget
    · obtain ⟨o, hit, -, -, gone⟩ := spec.lineageOnly key bare
      exact absurd (matchedLive o hit) gone

end Apply

theorem planForgetSource_fenced {sel : ForgetSelector}
    {options : PlanOptions} {external : ExternalInputs} {planId : Id} (fenced : s.Fenced) :
    (s.planForgetSource env agentId sel options external now planId).2.Fenced := by
  cases ran : s.planForgetSource env agentId sel options external now planId with
  | mk r t =>
    rcases planForgetSource_cases ran with ⟨plan, -, step⟩ | ⟨-, same⟩
    · obtain ⟨plans, -, rfl⟩ := step.written
      exact fenced.keep rfl rfl rfl (fun _ _ _ live => live) fenced.absent
    · exact same ▸ fenced

theorem applyForgetPlan_fenced {planId : Id} {external : ExternalInputs}
    {faults : Faults} (fenced : s.Fenced) : (s.applyForgetPlan env planId external now faults).2.Fenced := by
  cases ran : s.applyForgetPlan env planId external now faults with
  | mk r t =>
    rcases applyForgetPlan_cases ran with ⟨report, plan, c, -, step⟩ | ⟨-, same | same | same⟩
    · obtain ⟨reports, rfl⟩ := step.written
      have after := @afterApply_fenced env s plan c now fenced (compute_spec step.computed)
      exact after.keep rfl rfl rfl (fun _ _ _ live => live) after.absent
    · exact same ▸ fenced
    · exact same ▸ fenced.keep rfl rfl rfl (fun _ _ _ live => live) fenced.absent
    · exact same ▸ fenced.keep rfl rfl rfl (fun _ _ _ live => live) fenced.absent

/-! ## Runs -/

/-- **One operation keeps the invariant.** -/
theorem Op.perform_fenced (env : Env) (op : Op) (fenced : s.Fenced) : (op.perform env s).Fenced := by
  cases op with
  | store agentId row provenance derivedFrom now => exact storeMemory_fenced fenced
  | storeFact agentId row provenance now => exact storeFact_fenced fenced
  | reaffirm agentId survivor provenance derivedFrom now => exact reaffirm_fenced fenced
  | releaseAsReaffirm agentId fromId survivor => exact releaseAsReaffirm_fenced fenced
  | edit change => exact edit_fenced change fenced
  | plan agentId sel options external now planId =>
    exact planForgetSource_fenced fenced
  | apply planId external now faults => exact applyForgetPlan_fenced fenced

theorem performAll_fenced (env : Env) (ops : List Op) (fenced : s.Fenced) : (performAll env s ops).Fenced := by
  induction ops generalizing s with
  | nil => exact fenced
  | cons op rest ih => exact ih (op.perform_fenced env fenced)

/-- No live row has direct or inherited lineage that a tombstone of its namespace
matches, and no forgotten id is present in its store. -/
def Db.NothingReturned (s : Db) : Prop :=
  (∀ store id agentId, s.rowExists store id agentId →
      ∀ o ∈ s.origins, o.store = store → o.memoryId = id → o.role ≠ .reaffirm →
        o.fenced s.tombstones agentId = false) ∧
    ∀ key ∈ s.forgotten, s.present key.1 key.2 = false

/-- **Forgotten sources never come back**, in whatever order rows are written,
corroborated and forgotten. -/
theorem forgotten_never_returns (env : Env) (instanceId : Text) (ops : List Op) :
    (performAll env (Db.empty instanceId) ops).NothingReturned := by
  have fenced := performAll_fenced env ops (fenced_empty instanceId)
  refine ⟨?_, fenced.absent⟩
  rintro store id agentId live o listed rfl rfl -
  obtain ⟨ownLive, clear⟩ := fenced.good o listed
  rw [rowExists_unique live ownLive]
  exact clear

end DuDuClaw.Memory
