/-
# Knowledge.Access -- the collections a request may read

The queries of acl.rs over the grants: what the person of a request may read, what its
employee may, and how a narrowing shrinks the result.

* `AllowedSet`: a sorted set of collections.
* `not_agentOk_of_archived`: the grants of an employee on its archived own collection do
  not count, so that neither query finds it.
-/
import DuDuClaw.Knowledge.Collections
import Mathlib.Data.List.Dedup

namespace DuDuClaw.Knowledge

open DuDuClaw.Lib

inductive HumanMode where
  | full
  | channelOnly
  | internalOnly
  deriving DecidableEq

/-- The person a request acts for. -/
structure HumanCtx where
  mode : HumanMode
  userId : Option Text
  userDepartment : Option Text
  channel : Option Text
  channelChat : Option Text
  isAdmin : Bool
  isPrivate : Bool
  publicOnly : Bool

inductive AgentNarrowing where
  | all
  | only (slugs : List Text)

structure AgentCtx where
  agentId : Text
  department : Option Text
  narrowing : AgentNarrowing

structure Narrowing where
  only : Option (List Text) := none

/-- The collections a request may read. -/
structure AllowedSet where
  ids : List Text
  sorted : ids.Pairwise (· < ·)

namespace AllowedSet

/-- Through a `BTreeSet`. -/
def fromIds (ids : List Text) : AllowedSet where
  ids := (ids.insertionSort (· ≤ ·)).dedup
  sorted := by
    have ordered := (List.pairwise_insertionSort (· ≤ ·) ids).sublist (List.dedup_sublist _)
    exact (ordered.and (List.nodup_dedup _)).imp fun both => lt_of_le_of_ne both.1 both.2

@[simp] theorem mem_fromIds {ids : List Text} {id : Text} : id ∈ (fromIds ids).ids ↔ id ∈ ids := by
  simp [fromIds]

end AllowedSet

def idsForSlugs (slugs : List Text) (db : Db) : List Text × List Text :=
  slugs.foldl
    (fun found slug => match db.collections.rows.find? (·.slug == slug) with
      | some c => (found.1 ++ [c.id], found.2)
      | none => (found.1, found.2 ++ [slug]))
    ([], [])

/-! ## Grants that count -/

def reads (role : Role) : Bool := role == .viewer || role == .editor

def Grant.forDepartment (g : Grant) (department : Option Text) : Bool :=
  g.kind == .department && department.filter (!·.isEmpty) == some g.id && reads g.role

def Grant.forAgent (g : Grant) (agent : AgentCtx) : Bool :=
  g.kind == .agent && g.id == agent.agentId && g.role == .viewer ||
    g.forDepartment agent.department

def Grant.forHuman (g : Grant) (human : HumanCtx) : Bool :=
  human.mode == .full &&
      (g.kind == .user && human.userId == some g.id || g.forDepartment human.userDepartment) ||
    g.kind == .channel && g.role == .viewer &&
      (human.channel == some g.id || human.channelChat == some g.id)

/-- `SELECT collection_id FROM agent_own_collections WHERE agent_id = .. AND archived_at IS
NOT NULL`. -/
def archivedOwn (agentId : Text) (db : Db) : List Text :=
  (db.own.rows.filter fun own => own.agentId == agentId && own.archivedAt.isSome).map
    OwnCollection.collectionId

def agentOk (agent : AgentCtx) (db : Db) : List Text :=
  (db.acl.rows.filter fun row =>
    row.grant.forAgent agent && !(archivedOwn agent.agentId db).contains row.collectionId).map
    AclRow.collectionId

def humanOk (human : HumanCtx) (db : Db) : List Text :=
  (db.acl.rows.filter (·.grant.forHuman human)).map AclRow.collectionId

def AgentNarrowing.keep (narrowing : AgentNarrowing) (db : Db) (ids : List Text) : List Text :=
  match narrowing with
  | .all => ids
  | .only slugs => ids.filter (idsForSlugs slugs db).1.contains

/-! ## Queries -/

def isOpen (s : Sensitivity) : Bool := s == .public_ || s == .internal

/-- `EFFECTIVE_SQL`. -/
def effectiveIds (human : HumanCtx) (agent : Option AgentCtx) (db : Db) : List Text :=
  (db.collections.rows.filter fun c =>
    (agent.all fun a => (agentOk a db).contains c.id) &&
      (human.isAdmin && human.mode == .full || (humanOk human db).contains c.id ||
        human.mode == .internalOnly && isOpen c.sensitivity) &&
      (human.isPrivate || isOpen c.sensitivity) &&
      (!human.publicOnly || c.sensitivity == .public_)).map Collection.id

def effectiveCollections (human : HumanCtx) (agent : Option AgentCtx) (narrowing : Narrowing)
    (db : Db) : AllowedSet :=
  let ids := effectiveIds human agent db
  let ids := agent.elim ids fun a => a.narrowing.keep db ids
  let ids := narrowing.only.elim ids fun only =>
    ids.filter fun id => (idsForSlugs only db).1.contains id || only.contains id
  .fromIds ids

def agentSideCollections (agent : AgentCtx) (db : Db) : AllowedSet :=
  .fromIds (agent.narrowing.keep db (agentOk agent db).dedup)

section Spec

variable {db : Db} {human : HumanCtx} {agent : AgentCtx} {narrowing : Narrowing} {id : Text}
  {own : OwnCollection}

theorem not_agentOk_of_archived (listed : own ∈ db.own.rows) (owner : own.agentId = agent.agentId)
    (archived : own.archivedAt.isSome) : own.collectionId ∉ agentOk agent db := by
  intro granted
  obtain ⟨row, serves, same⟩ := List.mem_map.mp granted
  have open_ := (List.mem_filter.mp serves).2
  rw [Bool.and_eq_true, Bool.not_eq_eq_eq_not, Bool.not_true, List.contains_eq_mem,
    decide_eq_false_iff_not, same] at open_
  refine open_.2 (List.mem_map.mpr ⟨own, List.mem_filter.mpr ⟨listed, ?_⟩, rfl⟩)
  simp [owner, archived]

theorem mem_keep {ids : List Text} (kept : id ∈ agent.narrowing.keep db ids) : id ∈ ids := by
  unfold AgentNarrowing.keep at kept
  split at kept
  · exact kept
  · exact (List.mem_filter.mp kept).1

theorem agentOk_of_effective (allowed : id ∈ (effectiveCollections human (some agent) narrowing db).ids) :
    id ∈ agentOk agent db := by
  unfold effectiveCollections at allowed
  rw [AllowedSet.mem_fromIds] at allowed
  have narrowed : id ∈ agent.narrowing.keep db (effectiveIds human (some agent) db) := by
    cases only : narrowing.only with
    | none => simpa [only] using allowed
    | some slugs =>
      simp only [only, Option.elim_some] at allowed
      exact (List.mem_filter.mp allowed).1
  obtain ⟨c, listed, rfl⟩ := List.mem_map.mp (mem_keep narrowed)
  have every := (List.mem_filter.mp listed).2
  simp only [Bool.and_eq_true, Option.all_some, List.contains_eq_mem, decide_eq_true_eq] at every
  exact every.1.1.1

theorem agentOk_of_agentSide (allowed : id ∈ (agentSideCollections agent db).ids) : id ∈ agentOk agent db := by
  unfold agentSideCollections at allowed
  rw [AllowedSet.mem_fromIds] at allowed
  exact List.mem_dedup.mp (mem_keep allowed)

end Spec

end DuDuClaw.Knowledge
