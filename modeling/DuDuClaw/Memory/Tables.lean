/-
# Memory.Tables -- the memory database

The tables of engine.rs and lineage/db.rs that lineage and forgetting read or write,
with the one expression that says which sources a tombstone matches.  Columns only
shown to people (digests and times of tombstones, full-text copies) are left out.

* `tombstoneMatch`: `tombstone_match_sql`.
* `rowExists_unique`: a row is live in one namespace.
-/
import DuDuClaw.Lib.Table
import DuDuClaw.Memory.Plan

namespace DuDuClaw.Memory

open DuDuClaw.Lib

/-! ## Rows -/

/-- A row of `memories`. -/
structure MemoryRow where
  id : Id
  agentId : Text
  content : Text
  timestamp : Text
  layer : Text
  subject : Option Text
  predicate : Option Text
  object : Option Text
  supersededBy : Option Id
  supersedes : Option Id
  /-- A JSON array of ids. -/
  derivedFrom : Option Text
  metadata : Text
  validUntil : Option Text
  quarantined : Bool

structure KeyFactRow where
  id : Id
  agentId : Text
  fact : Text
  sourceSession : Text
  timestamp : Text

structure ArchiveRow where
  id : Id
  agentId : Text

inductive SourceKind where
  | channelMessage
  | dispatchRun
  | mcpTurn
  | mcpExternal
  | importItem
  | footprintDay
  | system
  | upstreamUnknown
  deriving DecidableEq

/-- `source_kind`; `untrackedParent` is the placeholder for a parent without lineage. -/
inductive OriginKind where
  | source (kind : SourceKind)
  | untrackedParent
  deriving DecidableEq

/-- `role`, weakest first. -/
inductive Role where
  | reaffirm
  | inherited
  | direct
  deriving DecidableEq

def Role.rank : Role → Nat
  | .reaffirm => 1
  | .inherited => 2
  | .direct => 3

/-- A row of `memory_origins`. -/
structure Origin where
  store : StoreName
  memoryId : Id
  agentId : Text
  kind : OriginKind
  session : Text
  message : Text
  seq : Option Int
  observedAt : Text
  hash : Option Text
  role : Role
  via : Option Id

/-- A row of `memory_connector_stamps`; `none` is the role `unknown` that a migration
of old stamps leaves. -/
structure Stamp where
  store : StoreName
  memoryId : Id
  reference : Text
  observedAt : Text
  session : Text
  message : Text
  role : Option Role

structure Tombstone where
  agentId : Text
  session : Text
  scope : Scope
  message : Text
  uptoSeq : Option Int
  uptoTime : Option Text

structure TurnLink where
  session : Text
  userMessage : Text
  turnMessage : Text
  deriving DecidableEq

structure ForgottenConnector where
  agentId : Text
  reference : Text
  uptoTime : Text

inductive PlanStatus where
  | planned
  | applied
  | stale
  | expired
  deriving DecidableEq

/-- A row of `memory_forget_plans`, its JSON read back. -/
structure ForgetPlan where
  planId : Id
  planHash : Text
  status : PlanStatus
  appliedAt : Option Text
  document : PlanDocument

/-- A row of `memory_forget_steps` as an apply writes it: `pending`, no attempts. -/
structure ForgetStep where
  planId : Id
  entry : StepEntry
  deriving DecidableEq

structure ApplyReport where
  planId : Id
  agentId : Text
  planHash : Text
  memoriesDeleted : Nat
  keyFactsDeleted : Nat
  archiveDeleted : Nat
  entityEmbeddingsDeleted : Nat
  supersessionLinksCut : Nat
  reaffirmLineageRemoved : Nat
  tombstonesWritten : Nat
  stepsPending : Nat
  forgetEpoch : Int
  untrackedInNamespacePlanned : Nat
  untrackedInNamespaceAtApply : Nat
  otherNamespacesReferencingPlanned : Nat
  otherNamespacesReferencingAtApply : Nat

/-- The database.  `archive` is `none` until its table is created, `fence` holds the
forget epochs, `embeddings` the entities that have an embedding. -/
structure Db where
  memories : Table MemoryRow.id
  keyFacts : Table KeyFactRow.id
  archive : Option (Table ArchiveRow.id)
  origins : List Origin
  stamps : List Stamp
  turnLinks : List TurnLink
  tombstones : List Tombstone
  forgotten : List (StoreName × Id)
  forgottenConnectors : List ForgottenConnector
  fence : Text → Option Int
  instanceId : Text
  plans : Table ForgetPlan.planId
  steps : List ForgetStep
  reports : Table ApplyReport.planId
  aliases : List (Text × Text × Text)
  embeddings : List (Text × Text)

def Db.empty (instanceId : Text) : Db where
  memories := .empty
  keyFacts := .empty
  archive := none
  origins := []
  stamps := []
  turnLinks := []
  tombstones := []
  forgotten := []
  forgottenConnectors := []
  fence _ := none
  instanceId := instanceId
  plans := .empty
  steps := []
  reports := .empty
  aliases := []
  embeddings := []

def Db.forgetEpoch (s : Db) (agentId : Text) : Int := (s.fence agentId).getD 0

def Db.rowExists (s : Db) (store : StoreName) (id : Id) (agentId : Text) : Bool :=
  match store with
  | .memories => s.memories.rows.any fun row => row.id == id && row.agentId == agentId
  | .keyFacts => s.keyFacts.rows.any fun row => row.id == id && row.agentId == agentId

/-- `archived`, where the table exists. -/
def Db.archived (s : Db) (id : Id) (agentId : Text) : Bool :=
  s.archive.any fun table => table.rows.any fun row => row.id == id && row.agentId == agentId

def Db.present (s : Db) (store : StoreName) (id : Id) : Bool :=
  match store with
  | .memories => s.memories.rows.any fun row => row.id == id
  | .keyFacts => s.keyFacts.rows.any fun row => row.id == id

variable {s : Db} {store : StoreName} {id : Id}

theorem present_iff : s.present store id ↔ ∃ agentId, s.rowExists store id agentId := by
  cases store <;>
    · simp only [Db.present, Db.rowExists, List.any_eq_true, Bool.and_eq_true, beq_iff_eq]
      constructor
      · rintro ⟨row, listed, sameId⟩
        exact ⟨row.agentId, row, listed, sameId, rfl⟩
      · rintro ⟨agentId, row, listed, sameId, -⟩
        exact ⟨row, listed, sameId⟩

/-- **A row is live in one namespace.** -/
theorem rowExists_unique {a b : Text}
    (inA : s.rowExists store id a) (inB : s.rowExists store id b) : a = b := by
  cases store <;>
    · simp only [Db.rowExists, List.any_eq_true, Bool.and_eq_true, beq_iff_eq] at inA inB
      obtain ⟨row, listed, sameId, rfl⟩ := inA
      obtain ⟨other, otherListed, otherId, rfl⟩ := inB
      rw [Table.unique _ listed otherListed (sameId.trans otherId.symm)]

/-! ## Tombstones -/

/-- Tombstone `f` matches the source: one message, or a session up to a watermark, by
sequence number where both sides have one and otherwise by time. -/
def Tombstone.covers (f : Tombstone) (agentId session message : Text) (seq : Option Int)
    (observed : Text) : Bool :=
  f.agentId == agentId && f.session == session &&
    match f.scope with
    | .message => f.message == message
    | .sessionUpto =>
      match seq, f.uptoSeq with
      | some n, some upto => n ≤ upto && f.uptoTime.all fun time => observed ≤ time
      | _, _ => f.uptoTime.any fun time => observed ≤ time

/-- `tombstone_match_sql`. -/
def tombstoneMatch (tombstones : List Tombstone) (agentId session message : Text)
    (seq : Option Int) (observed : Text) : Bool :=
  tombstones.any fun f => f.covers agentId session message seq observed

/-- The lineage row matches a tombstone of the namespace. -/
def Origin.fenced (o : Origin) (tombstones : List Tombstone) (agentId : Text) : Bool :=
  tombstoneMatch tombstones agentId o.session o.message o.seq o.observedAt

end DuDuClaw.Memory
