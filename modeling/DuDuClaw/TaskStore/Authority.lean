/-
# TaskStore.Authority -- the revision an approval is bound to

The triggers of task_store/authority.rs and the timeout trigger of schema.rs, as parts of
the INSERT, UPDATE and DELETE of one row of `tasks`; an UPDATE of several rows writes them
one after the other.  A statement that a trigger, a CHECK or the primary key refuses leaves
everything as it was.

SQLite fires the AFTER triggers of one event in no promised order, so an UPDATE carries
the order that was taken.  An integer sum beyond `i64::MAX` becomes a REAL, above every
integer and never read back as a revision: `⊤`.

`floors` is `task_authority_epochs`; an id without an entry reads as 1.  The entry of an id
outlives its row.

An id is text; a row with another one is not stored.

* `TaskTable.triggers_grow`: what the triggers of one UPDATE can do, in any order.
* `TaskTable.execute_keeps`: what an id's revision is, or starts from, never falls, and a row
  that keeps its revision keeps its authority columns.
* `authority_aba_free`: both over every history, with the changes that must raise the
  revision.
-/
import DuDuClaw.Lib.Runs
import DuDuClaw.TaskStore.Tasks
import Mathlib.Algebra.Group.Int.Defs
import Mathlib.Order.MinMax
import Mathlib.Order.WithBot

namespace DuDuClaw.TaskStore

open DuDuClaw.Lib

/-! ## Rows -/

/-- `AUTHORITY_COLUMNS`. -/
inductive AuthorityColumn where
  | id
  | title
  | description
  | assignedTo
  | createdBy
  | createdAt
  | parentTaskId
  | goalId
  | tags
  | dependsOn
  | maxRetries
  | goalMode
  | acceptanceCriteria
  | acceptanceCriteriaBaseline
  | deadlineAt
  | costCapCents
  | timeoutSecs
  | riskBoundary
  | planPending
  | teamSpecJson
  | kind
  | sourceChannel
  | sourceChatId
  | sourceDiscordGuildId
  | discoverySpecJson
  | discoveryRunId
  | discoveryApprovalId
  | archived
  | retryCount
  | revisionRound
  deriving DecidableEq

def authorityColumns : List AuthorityColumn :=
  [.id, .title, .description, .assignedTo, .createdBy, .createdAt, .parentTaskId, .goalId, .tags,
    .dependsOn, .maxRetries, .goalMode, .acceptanceCriteria, .acceptanceCriteriaBaseline,
    .deadlineAt, .costCapCents, .timeoutSecs, .riskBoundary, .planPending, .teamSpecJson, .kind,
    .sourceChannel, .sourceChatId, .sourceDiscordGuildId, .discoverySpecJson, .discoveryRunId,
    .discoveryApprovalId, .archived, .retryCount, .revisionRound]

theorem mem_authorityColumns (column : AuthorityColumn) : column ∈ authorityColumns := by
  cases column <;> decide

inductive SqlValue where
  | null
  | integer (value : Int)
  | text (value : Text)
  deriving DecidableEq

/-- `⊤` is a sum that left the integers. -/
abbrev Revision := WithTop Int

-- The computable order of the integers, whatever else is imported.
local instance revisionOrder : Preorder Int := Int.instLinearOrder.toPreorder

local instance revisionLinearOrder : LinearOrder Revision := @WithTop.linearOrder Int Int.instLinearOrder

/-- `i64::MAX`. -/
def revisionMax : Int := 2 ^ 63 - 1

/-- `CHECK(authority_revision >= 1)`. -/
def revisionMin : Revision := ((1 : Int) : WithTop Int)

/-- `authority_revision + 1`. -/
def Revision.next : Revision → Revision
  | ⊤ => ⊤
  | (value : Int) => if value < revisionMax then ((value + 1 : Int) : WithTop Int) else ⊤

theorem Revision.lt_next (revision : Revision) : revision = ⊤ ∨ revision < revision.next := by
  induction revision using WithTop.recTopCoe with
  | top => exact .inl rfl
  | coe value =>
    right
    simp only [next]
    split
    · exact WithTop.coe_lt_coe.mpr (Int.lt_succ value)
    · exact WithTop.coe_lt_top value

theorem Revision.le_next (revision : Revision) : revision ≤ revision.next := by
  rcases lt_next revision with isTop | below
  · subst isTop
    exact le_rfl
  · exact below.le

structure AuthorityRow where
  columns : AuthorityColumn → SqlValue
  status : Text
  claimedBy : Option Text
  revision : Revision

/-- The status change starts a round or hands it in. -/
def exemptStatus (old new : Text) : Bool :=
  (["todo", "pending", "revising", "queued", "pending_approval"].any (·.toList == old) &&
      new == "in_progress".toList) ||
    (old == "in_progress".toList && new == "review".toList)

/-- The WHEN clause of `task_authority_revision_v1`. -/
def AuthorityRow.changes (old new : AuthorityRow) : Bool :=
  (authorityColumns.any fun column => old.columns column != new.columns column) ||
    (old.claimedBy.isSome && old.claimedBy != new.claimedBy) ||
    (old.status != new.status && !exemptStatus old.status new.status)

theorem AuthorityRow.columns_eq_of_unseen {old new : AuthorityRow}
    (unseen : old.changes new = false) (column : AuthorityColumn) :
    old.columns column = new.columns column := by
  simp only [changes, Bool.or_eq_false_iff, List.any_eq_false, bne_iff_ne, not_not] at unseen
  exact unseen.1.1 column (mem_authorityColumns column)

theorem AuthorityRow.changes_of_watched {old new : AuthorityRow}
    (watched : old.claimedBy.isSome = true ∧ new.claimedBy ≠ old.claimedBy ∨
      new.status ≠ old.status ∧ exemptStatus old.status new.status = false) :
    old.changes new = true := by
  simp only [changes, Bool.or_eq_true, Bool.and_eq_true, bne_iff_ne, Bool.not_eq_true']
  rcases watched with ⟨held, moved⟩ | ⟨moved, notExempt⟩
  · exact .inl (.inr ⟨held, Ne.symm moved⟩)
  · exact .inr ⟨Ne.symm moved, notExempt⟩

/-! ## Tables -/

/-- `tasks` by primary key, and the floors. -/
structure TaskTable where
  rows : Text → Option AuthorityRow
  keyed : ∀ id row, rows id = some row → row.columns .id = .text id
  floors : Text → Revision

def TaskTable.put (t : TaskTable) (id : Text) (row : AuthorityRow)
    (named : row.columns .id = .text id) : TaskTable where
  rows := Function.update t.rows id (some row)
  keyed other found isFound := by
    by_cases here : other = id
    · subst here
      rw [Function.update_self, Option.some.injEq] at isFound
      exact isFound ▸ named
    · rw [Function.update_of_ne here] at isFound
      exact t.keyed other found isFound
  floors := t.floors

def TaskTable.drop (t : TaskTable) (id : Text) : TaskTable where
  rows := Function.update t.rows id none
  keyed other found isFound := by
    by_cases here : other = id
    · subst here
      simp at isFound
    · rw [Function.update_of_ne here] at isFound
      exact t.keyed other found isFound
  floors := t.floors

/-- `INSERT INTO task_authority_epochs .. ON CONFLICT DO UPDATE SET MAX(..)`. -/
def TaskTable.raiseFloor (t : TaskTable) (id : Text) (revision : Revision) : TaskTable :=
  { t with floors := Function.update t.floors id (max (t.floors id) revision) }

/-! ## Triggers -/

/-- An UPDATE of `authority_revision` by a trigger: `task_revision_no_rewind` before it,
`task_epoch_update` after it. -/
def TaskTable.setRevision (t : TaskTable) (id : Text) (revision : Revision) : Option TaskTable :=
  match found : t.rows id with
  | none => some t
  | some row =>
    if revision < row.revision then none
    else
      some ((t.put id { row with revision := revision } (t.keyed id row found)).raiseFloor id
        revision)

/-- `task_authority_revision_v1`. -/
def TaskTable.authorityTrigger (t : TaskTable) (old new : AuthorityRow) (id : Text) :
    Option TaskTable :=
  if old.changes new then t.setRevision id (max old.revision.next (t.floors id)) else some t

/-- `UPDATE tasks SET timeout_secs = NULL`, which is watched by the trigger above. -/
def TaskTable.clearTimeout (t : TaskTable) (id : Text) : Option TaskTable :=
  match found : t.rows id with
  | none => some t
  | some row =>
    let cleared := { row with columns := Function.update row.columns .timeoutSecs .null }
    (t.put id cleared (t.keyed id row found)).authorityTrigger row cleared id

/-- The AFTER UPDATE triggers of `tasks`. -/
inductive AfterTrigger where
  | authority
  | epochUpdate
  | epochRename
  | timeout
  deriving DecidableEq

/-- One row before and after an UPDATE. -/
structure RowChange where
  oldId : Text
  newId : Text
  old : AuthorityRow
  new : AuthorityRow
  setsRevision : Bool

def TaskTable.fireTrigger (change : RowChange) (t : TaskTable) : AfterTrigger → Option TaskTable
  | .authority => t.authorityTrigger change.old change.new change.newId
  | .epochUpdate =>
    some (if change.setsRevision then t.raiseFloor change.newId change.new.revision else t)
  | .epochRename =>
    some
      (if change.oldId = change.newId then t
      else
        (t.raiseFloor change.oldId change.old.revision.next).raiseFloor change.newId
          change.old.revision.next)
  | .timeout =>
    if change.old.columns .assignedTo ≠ change.new.columns .assignedTo ∧
        change.new.columns .timeoutSecs ≠ .null then
      t.clearTimeout change.newId
    else some t

structure FiringOrder where
  triggers : List AfterTrigger
  complete : triggers.Perm [.authority, .epochUpdate, .epochRename, .timeout]

theorem FiringOrder.mem (order : FiringOrder) (trigger : AfterTrigger) : trigger ∈ order.triggers := by
  rw [order.complete.mem_iff]
  cases trigger <;> decide

/-! ## Statements -/

inductive AuthorityStatement where
  | insert (row : AuthorityRow)
  | delete (id : Text)
  | update (id : Text) (set_ : AuthorityRow → AuthorityRow) (setsRevision : Bool)
      (order : FiringOrder)

/-- INSERT, with `task_epoch_insert`. -/
def TaskTable.insertRow (t : TaskTable) (row : AuthorityRow) : Option TaskTable :=
  match named : row.columns .id with
  | .text id =>
    if row.revision < revisionMin ∨ (t.rows id).isSome then none
    else
      ((t.put id row named).setRevision id (max row.revision (t.floors id))).map fun stored =>
        stored.raiseFloor id (max row.revision (t.floors id))
  | _ => none

/-- DELETE, with `task_epoch_delete`. -/
def TaskTable.deleteRow (t : TaskTable) (id : Text) : TaskTable :=
  match t.rows id with
  | none => t
  | some row => (t.drop id).raiseFloor id row.revision.next

/-- The row an UPDATE writes, before its triggers. -/
def writtenRow (set_ : AuthorityRow → AuthorityRow) (setsRevision : Bool) (old : AuthorityRow) :
    AuthorityRow :=
  if setsRevision then set_ old else { set_ old with revision := old.revision }

def TaskTable.updateRow (t : TaskTable) (id : Text) (set_ : AuthorityRow → AuthorityRow)
    (setsRevision : Bool) (order : FiringOrder) : Option TaskTable :=
  match t.rows id with
  | none => some t
  | some old =>
    let new := writtenRow set_ setsRevision old
    match named : new.columns .id with
    | .text newId =>
      if new.revision < old.revision ∨ new.revision < revisionMin ∨
          newId ≠ id ∧ (t.rows newId).isSome then
        none
      else
        order.triggers.foldlM (TaskTable.fireTrigger ⟨id, newId, old, new, setsRevision⟩)
          ((t.drop id).put newId new named)
    | _ => none

/-- `none` is a statement that was refused. -/
def TaskTable.execute (t : TaskTable) : AuthorityStatement → Option TaskTable
  | .insert row => t.insertRow row
  | .delete id => some (t.deleteRow id)
  | .update id set_ setsRevision order => t.updateRow id set_ setsRevision order

def TaskTable.perform (t : TaskTable) (statement : AuthorityStatement) : TaskTable :=
  (t.execute statement).getD t

/-! ## What a trigger can do -/

/-- A trigger on the row `id`: it raises floors, and of the rows it touches only this one,
whose revision it never lowers. -/
structure TaskTable.Grows (id : Text) (t t' : TaskTable) : Prop where
  floors : ∀ other, t.floors other ≤ t'.floors other
  others : ∀ other, other ≠ id → t'.rows other = t.rows other
  row : ∀ row, t.rows id = some row → ∃ row', t'.rows id = some row' ∧
    row.revision ≤ row'.revision ∧ row'.status = row.status ∧ row'.claimedBy = row.claimedBy

namespace TaskTable

variable {t t' : TaskTable} {id : Text}

variable {other : Text} {row : AuthorityRow} {revision : Revision} {change : RowChange}

theorem Grows.refl (id : Text) (t : TaskTable) : Grows id t t where
  floors _ := le_rfl
  others _ _ := rfl
  row row found := ⟨row, found, le_rfl, rfl, rfl⟩

theorem Grows.trans {t'' : TaskTable} (first : Grows id t t') (second : Grows id t' t'') : Grows id t t'' where
  floors other := (first.floors other).trans (second.floors other)
  others other elsewhere := (second.others other elsewhere).trans (first.others other elsewhere)
  row row found := by
    obtain ⟨row', found', raised, status, claim⟩ := first.row row found
    obtain ⟨row'', found'', raised', status', claim'⟩ := second.row row' found'
    exact ⟨row'', found'', raised.trans raised', status'.trans status, claim'.trans claim⟩

@[simp] theorem put_rows_self (t : TaskTable) (id : Text) (row : AuthorityRow)
    (named : row.columns .id = .text id) : (t.put id row named).rows id = some row :=
  Function.update_self ..

theorem put_rows_of_ne (t : TaskTable) (row : AuthorityRow)
    (named : row.columns .id = .text id) (elsewhere : other ≠ id) :
    (t.put id row named).rows other = t.rows other :=
  Function.update_of_ne elsewhere ..

@[simp] theorem drop_rows_self (t : TaskTable) (id : Text) : (t.drop id).rows id = none :=
  Function.update_self ..

theorem drop_rows_of_ne (t : TaskTable) (elsewhere : other ≠ id) : (t.drop id).rows other = t.rows other :=
  Function.update_of_ne elsewhere ..

@[simp] theorem raiseFloor_rows (t : TaskTable) (id : Text) (revision : Revision) :
    (t.raiseFloor id revision).rows = t.rows := rfl

theorem raiseFloor_floors_self (t : TaskTable) (id : Text) (revision : Revision) :
    (t.raiseFloor id revision).floors id = max (t.floors id) revision :=
  Function.update_self ..

theorem le_raiseFloor (t : TaskTable) (id : Text) (revision : Revision) (other : Text) :
    t.floors other ≤ (t.raiseFloor id revision).floors other := by
  by_cases here : other = id
  · subst here
    rw [raiseFloor_floors_self]
    exact le_max_left ..
  · show _ ≤ Function.update t.floors id _ other
    rw [Function.update_of_ne here]

theorem raiseFloor_grows (t : TaskTable) (at_ : Text) (revision : Revision) :
    Grows id t (t.raiseFloor at_ revision) where
  floors := le_raiseFloor t at_ revision
  others _ _ := rfl
  row row found := ⟨row, found, le_rfl, rfl, rfl⟩

/-- Writing back a row with the same status and claim and no lower revision. -/
theorem put_grows (row' : AuthorityRow) (found : t.rows id = some row)
    (named : row'.columns .id = .text id) (raised : row.revision ≤ row'.revision)
    (status : row'.status = row.status) (claim : row'.claimedBy = row.claimedBy) :
    Grows id t (t.put id row' named) where
  floors _ := le_rfl
  others other elsewhere := put_rows_of_ne t row' named elsewhere
  row before isBefore := by
    obtain rfl : row = before := Option.some.inj (found.symm.trans isBefore)
    exact ⟨row', put_rows_self .., raised, status, claim⟩

theorem setRevision_row (found : t.rows id = some row) (accepted : t.setRevision id revision = some t') :
    row.revision ≤ revision ∧ t'.rows id = some { row with revision := revision } := by
  unfold setRevision at accepted
  split at accepted
  case h_1 absent =>
      rw [absent] at found
      cases found
  case h_2 row₀ found₀ =>
      obtain rfl : row₀ = row := Option.some.inj (found₀.symm.trans found)
      split at accepted
      · cases accepted
      · next notBelow =>
        cases accepted
        exact ⟨not_lt.mp notBelow, Function.update_self ..⟩

theorem setRevision_grows (accepted : t.setRevision id revision = some t') : Grows id t t' := by
  unfold setRevision at accepted
  split at accepted
  case h_1 =>
      cases accepted
      exact Grows.refl id t
  case h_2 row found =>
      split at accepted
      · cases accepted
      next notBelow =>
      cases accepted
      have written := put_grows { row with revision := revision } found (t.keyed id row found)
        (not_lt.mp notBelow) rfl rfl
      exact written.trans (raiseFloor_grows ..)

theorem authorityTrigger_grows {old new : AuthorityRow}
    (accepted : t.authorityTrigger old new id = some t') : Grows id t t' := by
  unfold authorityTrigger at accepted
  split at accepted
  · exact setRevision_grows accepted
  · cases accepted
    exact Grows.refl id t

theorem clearTimeout_grows (accepted : t.clearTimeout id = some t') : Grows id t t' := by
  unfold clearTimeout at accepted
  split at accepted
  case h_1 =>
      cases accepted
      exact Grows.refl id t
  case h_2 row found =>
      have named : Function.update row.columns .timeoutSecs .null .id = .text id :=
        t.keyed id row found
      have written := put_grows
        { row with columns := Function.update row.columns .timeoutSecs .null } found named le_rfl
        rfl rfl
      exact written.trans (authorityTrigger_grows accepted)

theorem fireTrigger_grows {trigger : AfterTrigger}
    (accepted : t.fireTrigger change trigger = some t') : Grows change.newId t t' := by
  cases trigger with
  | authority => exact authorityTrigger_grows accepted
  | epochUpdate =>
    simp only [fireTrigger, Option.some.injEq] at accepted
    subst accepted
    split
    · exact raiseFloor_grows ..
    · exact Grows.refl ..
  | epochRename =>
    simp only [fireTrigger, Option.some.injEq] at accepted
    subst accepted
    split
    · exact Grows.refl ..
    · exact (raiseFloor_grows ..).trans (raiseFloor_grows ..)
  | timeout =>
    simp only [fireTrigger] at accepted
    split at accepted
    · exact clearTimeout_grows accepted
    · cases accepted
      exact Grows.refl ..

theorem triggers_grow {triggers : List AfterTrigger}
    (accepted : triggers.foldlM (fireTrigger change) t = some t') : Grows change.newId t t' :=
  chain_rel (Grows change.newId) (Grows.refl _) (fun _ _ _ => Grows.trans)
    (fun _ _ _ => fireTrigger_grows) accepted

/-! ## What the triggers of one UPDATE do together -/

variable {change : RowChange} {order : FiringOrder}

/-- Where the trigger has something to do, it lifts the revision over the old one and over
the floor. -/
theorem authorityTrigger_row {old new row : AuthorityRow} (found : t.rows id = some row)
    (changes : old.changes new = true) (accepted : t.authorityTrigger old new id = some t') :
    ∃ row', t'.rows id = some row' ∧ max old.revision.next (t.floors id) ≤ row'.revision := by
  rw [authorityTrigger, if_pos changes] at accepted
  exact ⟨_, (setRevision_row found accepted).2, le_rfl⟩

theorem triggers_authority {row : AuthorityRow}
    (found : t.rows change.newId = some row) (changes : change.old.changes change.new = true)
    (accepted : order.triggers.foldlM (fireTrigger change) t = some t') :
    ∃ row', t'.rows change.newId = some row' ∧
      max change.old.revision.next (t.floors change.newId) ≤ row'.revision := by
  obtain ⟨front, back, before, after, first, here, last⟩ :=
    chain_at (order.mem .authority) accepted
  have grewFirst := triggers_grow first
  obtain ⟨row₁, found₁, -, -, -⟩ := grewFirst.row row found
  obtain ⟨row₂, found₂, lifted⟩ := authorityTrigger_row found₁ changes here
  obtain ⟨row₃, found₃, raised, -, -⟩ := (triggers_grow last).row row₂ found₂
  refine ⟨row₃, found₃, ?_⟩
  calc max change.old.revision.next (t.floors change.newId)
      ≤ max change.old.revision.next (before.floors change.newId) :=
        max_le_max le_rfl (grewFirst.floors _)
    _ ≤ row₂.revision := lifted
    _ ≤ row₃.revision := raised

theorem triggers_rename (renamed : change.oldId ≠ change.newId)
    (accepted : order.triggers.foldlM (fireTrigger change) t = some t') :
    change.old.revision.next ≤ t'.floors change.oldId := by
  obtain ⟨front, back, before, after, -, here, last⟩ :=
    chain_at (order.mem .epochRename) accepted
  simp only [fireTrigger, if_neg renamed, Option.some.injEq] at here
  subst here
  refine le_trans ?_ ((triggers_grow last).floors change.oldId)
  refine le_trans ?_ (le_raiseFloor _ change.newId _ change.oldId)
  rw [raiseFloor_floors_self]
  exact le_max_right ..

/-- An UPDATE that the authority trigger does not see leaves the written row as it is. -/
theorem fireTrigger_unseen {trigger : AfterTrigger} (unseen : change.old.changes change.new = false)
    (accepted : t.fireTrigger change trigger = some t') : t'.rows = t.rows := by
  cases trigger with
  | authority =>
    rw [fireTrigger, authorityTrigger, if_neg (by simp [unseen])] at accepted
    cases accepted
    rfl
  | epochUpdate | epochRename =>
    simp only [fireTrigger, Option.some.injEq] at accepted
    subst accepted
    split <;> rfl
  | timeout =>
    have sameAssignee := AuthorityRow.columns_eq_of_unseen unseen .assignedTo
    rw [fireTrigger, if_neg fun fires => fires.1 sameAssignee] at accepted
    cases accepted
    rfl

theorem triggers_unseen {triggers : List AfterTrigger} (unseen : change.old.changes change.new = false)
    (accepted : triggers.foldlM (fireTrigger change) t = some t') : t'.rows = t.rows :=
  chain_rel (fun s s' : TaskTable => s'.rows = s.rows) (fun _ => rfl)
    (fun _ _ _ first second => second.trans first)
    (fun _ _ _ => fireTrigger_unseen unseen) accepted

/-- What an accepted UPDATE of a row did. -/
structure Updated (t t' : TaskTable) (id newId : Text) (old new : AuthorityRow) : Prop where
  found : t.rows id = some old
  named : new.columns .id = .text newId
  free : newId = id ∨ t.rows newId = none
  raised : old.revision ≤ new.revision
  others : ∀ other, other ≠ id → other ≠ newId → t'.rows other = t.rows other
  floors : ∀ other, t.floors other ≤ t'.floors other
  stored : ∃ row, t'.rows newId = some row ∧ new.revision ≤ row.revision ∧
    row.status = new.status ∧ row.claimedBy = new.claimedBy
  seen : old.changes new = true → ∃ row, t'.rows newId = some row ∧
    max old.revision.next (t.floors newId) ≤ row.revision
  unseen : old.changes new = false → t'.rows newId = some new
  renamed : newId ≠ id → t'.rows id = none ∧ old.revision.next ≤ t'.floors id

theorem updateRow_cases {set_ : AuthorityRow → AuthorityRow} {setsRevision : Bool}
    (accepted : t.updateRow id set_ setsRevision order = some t') :
    t' = t ∨ ∃ newId old new, Updated t t' id newId old new := by
  unfold updateRow at accepted
  split at accepted
  case h_1 =>
      cases accepted
      exact .inl rfl
  case h_2 old found =>
      right
      dsimp only at accepted
      split at accepted
      case h_2 => cases accepted
      case h_1 newId named =>
          split at accepted
          · cases accepted
          next allowed =>
          simp only [not_or, not_lt, not_and, Option.not_isSome_iff_eq_none] at allowed
          obtain ⟨raised, -, free⟩ := allowed
          have grew := triggers_grow accepted
          have written := put_rows_self (t.drop id) newId _ named
          refine ⟨newId, old, writtenRow set_ setsRevision old, found, named, ?_, raised, ?_,
            grew.floors, grew.row _ written, ?_, ?_, ?_⟩
          · by_cases same : newId = id
            · exact .inl same
            · exact .inr (free same)
          · intro other notOld notNew
            rw [grew.others other notNew, put_rows_of_ne _ _ named notNew, drop_rows_of_ne t notOld]
          · intro changes
            exact triggers_authority written changes accepted
          · intro unseen
            rw [triggers_unseen unseen accepted]
            exact written
          · intro renamed
            refine ⟨?_, triggers_rename (Ne.symm renamed) accepted⟩
            rw [grew.others id (Ne.symm renamed), put_rows_of_ne _ _ named (Ne.symm renamed)]
            exact drop_rows_self t id

/-! ## Histories -/

/-- The revision of a row, or what a new row under this id starts from. -/
def mark (t : TaskTable) (id : Text) : Revision :=
  match t.rows id with
  | some row => row.revision
  | none => t.floors id

variable {row : AuthorityRow} {at_ : Text} {statement : AuthorityStatement}

theorem mark_of_row (found : t.rows id = some row) : t.mark id = row.revision := by
  simp only [mark, found]

theorem mark_of_absent (absent : t.rows id = none) : t.mark id = t.floors id := by
  simp only [mark, absent]

/-- The mark of the id never falls, and its row keeps the authority columns as long as the
mark stays at the row's revision. -/
structure Keeps (id : Text) (t t' : TaskTable) : Prop where
  mark : t.mark id ≤ t'.mark id
  row : ∀ row, t.rows id = some row → row.revision = ⊤ ∨ row.revision < t'.mark id ∨
    ∃ row', t'.rows id = some row' ∧ row'.revision = row.revision ∧ row'.columns = row.columns

theorem Keeps.trans {t'' : TaskTable} (first : Keeps id t t') (second : Keeps id t' t'') : Keeps id t t'' where
  mark := first.mark.trans second.mark
  row row found := by
    rcases first.row row found with isTop | passed | ⟨row', found', revision, columns⟩
    · exact .inl isTop
    · exact .inr (.inl (passed.trans_le second.mark))
    · rw [← revision, ← columns]
      exact second.row row' found'

theorem keeps_of_untouched (rows : t'.rows id = t.rows id) (floors : t.floors id ≤ t'.floors id) :
    Keeps id t t' where
  mark := by
    cases found : t.rows id with
    | some row => rw [mark_of_row found, mark_of_row (rows.trans found)]
    | none =>
      rw [mark_of_absent found, mark_of_absent (rows.trans found)]
      exact floors
  row row found := .inr (.inr ⟨row, rows.trans found, rfl, rfl⟩)

theorem Keeps.refl (id : Text) (t : TaskTable) : Keeps id t t := keeps_of_untouched rfl le_rfl

/-- An id without a row: a new row under it starts at its floor or above. -/
theorem keeps_of_absent (absent : t.rows id = none) (above : t.floors id ≤ t'.mark id) : Keeps id t t' where
  mark := by
    rw [mark_of_absent absent]
    exact above
  row row found := by
    rw [absent] at found
    cases found

theorem keeps_of_passed (found : t.rows id = some row)
    (passed : row.revision.next ≤ t'.mark id) : Keeps id t t' where
  mark := by
    rw [mark_of_row found]
    exact row.revision.le_next.trans passed
  row row₀ found₀ := by
    obtain rfl : row = row₀ := Option.some.inj (found.symm.trans found₀)
    rcases row.revision.lt_next with isTop | below
    · exact .inl isTop
    · exact .inr (.inl (below.trans_le passed))

/-- What an accepted INSERT under an id did. -/
structure Inserted (t t' : TaskTable) (at_ : Text) : Prop where
  absent : t.rows at_ = none
  others : ∀ other, other ≠ at_ → t'.rows other = t.rows other
  floors : ∀ other, t.floors other ≤ t'.floors other
  above : t.floors at_ ≤ t'.mark at_

theorem insertRow_cases (accepted : t.insertRow row = some t') : ∃ at_, Inserted t t' at_ := by
  unfold insertRow at accepted
  split at accepted
  case h_2 => cases accepted
  case h_1 at_ named =>
      split at accepted
      · cases accepted
      next allowed =>
      simp only [not_or, not_lt, Option.not_isSome_iff_eq_none] at allowed
      obtain ⟨stored, written, rfl⟩ := Option.map_eq_some_iff.mp accepted
      have grew := setRevision_grows written
      refine ⟨at_, allowed.2, ?_, ?_, ?_⟩
      · intro other elsewhere
        rw [raiseFloor_rows, grew.others other elsewhere, put_rows_of_ne t row named elsewhere]
      · intro other
        exact (grew.floors other).trans (le_raiseFloor ..)
      · have found := (setRevision_row (put_rows_self t at_ row named) written).2
        rw [mark_of_row (t := stored.raiseFloor at_ _) found]
        exact le_max_right ..

theorem Inserted.keeps (inserted : Inserted t t' at_) (id : Text) : Keeps id t t' := by
  by_cases here : id = at_
  · subst here
    exact keeps_of_absent inserted.absent inserted.above
  · exact keeps_of_untouched (inserted.others id here) (inserted.floors id)

theorem deleteRow_others (t : TaskTable) (elsewhere : id ≠ at_) : (t.deleteRow at_).rows id = t.rows id := by
  unfold deleteRow
  split
  · rfl
  · exact drop_rows_of_ne t elsewhere

theorem deleteRow_self (t : TaskTable) (id : Text) : (t.deleteRow id).rows id = none := by
  unfold deleteRow
  split
  · assumption
  · exact drop_rows_self t id

theorem deleteRow_keeps (t : TaskTable) (at_ id : Text) : Keeps id t (t.deleteRow at_) := by
  unfold deleteRow
  split
  case h_1 => exact Keeps.refl id t
  case h_2 row found =>
      by_cases here : id = at_
      · subst here
        refine keeps_of_passed found ?_
        rw [mark_of_absent (t := (t.drop id).raiseFloor id _) (drop_rows_self t id), raiseFloor_floors_self]
        exact le_max_right ..
      · refine keeps_of_untouched ?_ (le_raiseFloor (t.drop at_) ..)
        rw [raiseFloor_rows, drop_rows_of_ne t here]

theorem Updated.keeps {newId : Text} {old new : AuthorityRow}
    (updated : Updated t t' at_ newId old new) (id : Text) : Keeps id t t' := by
  by_cases isNew : id = newId
  · subst isNew
    cases seen : old.changes new with
    | true =>
      obtain ⟨row, found, lifted⟩ := updated.seen seen
      rcases updated.free with same | absent
      · subst same
        refine keeps_of_passed updated.found ?_
        rw [mark_of_row found]
        exact (le_max_left ..).trans lifted
      · refine keeps_of_absent absent ?_
        rw [mark_of_row found]
        exact (le_max_right ..).trans lifted
    | false =>
      -- The id is an authority column, so this is not a rename.
      have sameColumns := AuthorityRow.columns_eq_of_unseen seen
      obtain rfl : id = at_ := by
        have sameId := sameColumns .id
        rw [t.keyed at_ old updated.found, updated.named] at sameId
        exact (SqlValue.text.inj sameId).symm
      have found := updated.unseen seen
      refine ⟨?_, fun row isRow => ?_⟩
      · rw [mark_of_row updated.found, mark_of_row found]
        exact updated.raised
      · obtain rfl : old = row := Option.some.inj (updated.found.symm.trans isRow)
        rcases updated.raised.eq_or_lt with equal | above
        · exact .inr (.inr ⟨new, found, equal.symm, (funext sameColumns).symm⟩)
        · rw [mark_of_row found]
          exact .inr (.inl above)
  · by_cases isOld : id = at_
    · subst isOld
      obtain ⟨gone, floor⟩ := updated.renamed (Ne.symm isNew)
      refine keeps_of_passed updated.found ?_
      rw [mark_of_absent gone]
      exact floor
    · exact keeps_of_untouched (updated.others id isOld isNew) (updated.floors id)

theorem execute_keeps (accepted : t.execute statement = some t') (id : Text) : Keeps id t t' := by
  cases statement with
  | insert row =>
    obtain ⟨at_, inserted⟩ := insertRow_cases accepted
    exact inserted.keeps id
  | delete at_ =>
    rw [← Option.some.inj accepted]
    exact deleteRow_keeps t at_ id
  | update at_ set_ setsRevision order =>
    rcases updateRow_cases accepted with same | ⟨newId, old, new, updated⟩
    · rw [same]
      exact Keeps.refl id t
    · exact updated.keeps id

theorem perform_keeps (t : TaskTable) (statement : AuthorityStatement) (id : Text) :
    Keeps id t (t.perform statement) := by
  unfold perform
  cases accepted : t.execute statement with
  | none => exact Keeps.refl id t
  | some t' => exact execute_keeps accepted id

theorem run_keeps (t : TaskTable) (statements : List AuthorityStatement) (id : Text) :
    Keeps id t (run perform t statements) :=
  run_rel (fun _ => True) (Keeps id) (fun _ _ _ _ => trivial) (Keeps.refl id)
    (fun _ _ _ => Keeps.trans) (fun s a _ _ => perform_keeps s a id) trivial
    (obeys_true t statements)

/-- A row that has its id before and after a statement was left alone, or it is the row
an UPDATE wrote. -/
theorem execute_row {row' : AuthorityRow}
    (accepted : t.execute statement = some t') (found : t.rows id = some row)
    (found' : t'.rows id = some row') : row' = row ∨ ∃ new, Updated t t' id id row new := by
  have left : t'.rows id = t.rows id → row' = row := fun same =>
    Option.some.inj (found'.symm.trans (same.trans found))
  cases statement with
  | insert inserted =>
    obtain ⟨at_, done⟩ := insertRow_cases accepted
    refine .inl (left (done.others id ?_))
    rintro rfl
    exact absurd found (by simp [done.absent])
  | delete at_ =>
    rw [← Option.some.inj accepted] at found' left
    refine .inl (left (deleteRow_others t ?_))
    rintro rfl
    exact absurd found' (by simp [deleteRow_self])
  | update at_ set_ setsRevision order =>
    rcases updateRow_cases accepted with same | ⟨newId, old, new, updated⟩
    · exact .inl (left (by rw [same]))
    by_cases isOld : id = at_
    · subst isOld
      obtain rfl : old = row := Option.some.inj (updated.found.symm.trans found)
      by_cases renamed : newId = id
      · subst renamed
        exact .inr ⟨new, updated⟩
      · exact absurd found' (by simp [(updated.renamed renamed).1])
    refine .inl (left (updated.others id isOld ?_))
    rintro rfl
    rcases updated.free with same | absent
    · exact isOld same
    · exact absurd found (by simp [absent])

theorem perform_raises {row' : AuthorityRow}
    (found : t.rows id = some row) (found' : (t.perform statement).rows id = some row')
    (watched : row.claimedBy.isSome = true ∧ row'.claimedBy ≠ row.claimedBy ∨
      row'.status ≠ row.status ∧ exemptStatus row.status row'.status = false) :
    row.revision.next ≤ row'.revision := by
  have moved : row' ≠ row := by
    rintro rfl
    rcases watched with ⟨-, other⟩ | ⟨other, -⟩
    · exact other rfl
    · exact other rfl
  unfold perform at found'
  cases accepted : t.execute statement with
  | none =>
    rw [accepted, Option.getD_none] at found'
    exact absurd (Option.some.inj (found'.symm.trans found)) moved
  | some t' =>
    rw [accepted, Option.getD_some] at found'
    rcases execute_row accepted found found' with same | ⟨new, updated⟩
    · exact absurd same moved
    obtain ⟨stored, isStored, -, status, claim⟩ := updated.stored
    obtain rfl : stored = row' := Option.some.inj (isStored.symm.trans found')
    rw [status, claim] at watched
    obtain ⟨lifted, isLifted, above⟩ := updated.seen (AuthorityRow.changes_of_watched watched)
    obtain rfl : lifted = stored := Option.some.inj (isLifted.symm.trans found')
    exact (le_max_left ..).trans above

end TaskTable

/-- **Revisions are free of ABA.**  In every history of INSERTs, UPDATEs and DELETEs, in
any firing order of the triggers, the revision of an id never falls, over deletions too; two
rows of one id with the same integer revision agree in every authority column; and a
statement that releases or moves a claim or changes the status, exempt changes apart, raises
the revision. -/
theorem authority_aba_free (t : TaskTable) (earlier later : List AuthorityStatement) (id : Text) :
    (∀ row row', (run TaskTable.perform t earlier).rows id = some row →
      (run TaskTable.perform t (earlier ++ later)).rows id = some row' → row.revision ≤ row'.revision ∧
          ∀ value : Int, row.revision = value → row'.revision = value →
            ∀ column, row'.columns column = row.columns column) ∧
    ∀ statement row row', (run TaskTable.perform t earlier).rows id = some row →
      (run TaskTable.perform t (earlier ++ [statement])).rows id = some row' →
      (row.claimedBy.isSome = true ∧ row'.claimedBy ≠ row.claimedBy ∨
        row'.status ≠ row.status ∧ exemptStatus row.status row'.status = false) →
        ∀ value : Int, row.revision = value → row.revision < row'.revision := by
  refine ⟨fun row row' found found' => ?_, fun statement row row' found found' watched => ?_⟩
  · rw [run_append] at found'
    have keeps := TaskTable.run_keeps (run TaskTable.perform t earlier) later id
    have below := keeps.mark
    rw [TaskTable.mark_of_row found, TaskTable.mark_of_row found'] at below
    refine ⟨below, fun value isValue isValue' column => ?_⟩
    rcases keeps.row row found with isTop | passed | ⟨same, isSame, -, columns⟩
    · rw [isValue] at isTop
      exact absurd isTop WithTop.coe_ne_top
    · rw [TaskTable.mark_of_row found', isValue, isValue'] at passed
      exact absurd passed (lt_irrefl _)
    · obtain rfl : same = row' := Option.some.inj (isSame.symm.trans found')
      exact congrFun columns column
  · intro value isValue
    rw [run_append] at found'
    have lifted := TaskTable.perform_raises found found' watched
    rcases row.revision.lt_next with isTop | below
    · rw [isValue] at isTop
      exact absurd isTop WithTop.coe_ne_top
    · exact below.trans_le lifted

end DuDuClaw.TaskStore
