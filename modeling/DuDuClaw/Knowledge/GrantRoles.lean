/-
# Knowledge.GrantRoles -- what a person reads and what it manages

`EFFECTIVE_SQL` matches the grants in the database; `user_role` of acl.rs parses them and folds over them.
Here a row of `collection_acl` may have any text for its kind and its role.

* `AclText.forHuman_eq`: the conditions on the texts are those on the parsed grant.
* `reads_iff_manages`: a dashboard user reads the collections it has a role on, and an employee or a
  narrowing only shrinks what is read.
-/
import DuDuClaw.Knowledge.Access

namespace DuDuClaw.Knowledge

open DuDuClaw.Lib

/-! ## Rows of texts -/

structure AclText where
  collectionId : Text
  kind : Text
  id : Text
  role : Text

namespace AclText

variable (row : AclText)

/-- The grant that `user_role` reads; a malformed row has none. -/
def grant : Option Grant := do
  return ⟨← PrincipalKind.parse row.kind, row.id, ← Role.parse row.role⟩

def is (kind : PrincipalKind) : Bool := row.kind == kind.asStr

/-- `role IN (..)`. -/
def roleIn (roles : List Role) : Bool := roles.any fun role => row.role == role.asStr

def forDepartment (department : Option Text) : Bool :=
  row.is .department && department.filter (!·.isEmpty) == some row.id && row.roleIn [.viewer, .editor]

def forAgent (agent : AgentCtx) : Bool :=
  row.is .agent && row.id == agent.agentId && row.roleIn [.viewer] || row.forDepartment agent.department

def forHuman (human : HumanCtx) : Bool :=
  row.roleIn [.viewer, .editor, .owner] && (human.mode == .full &&
      (row.is .user && human.userId == some row.id || row.forDepartment human.userDepartment)) ||
    row.is .channel && row.roleIn [.viewer] &&
      (human.channel == some row.id || human.channelChat == some row.id)

end AclText

/-! ## Queries, with the rows `acl` in the place of the table -/

section Queries

variable (acl : List AclText) (db : Db)

def agentRows (agent : AgentCtx) : List Text :=
  (acl.filter fun row =>
    row.forAgent agent && !(archivedOwn agent.agentId db).contains row.collectionId).map AclText.collectionId

/-- `EFFECTIVE_SQL`. -/
def effectiveRows (human : HumanCtx) (agent : Option AgentCtx) : List Text :=
  let humanOk := (acl.filter (·.forHuman human)).map AclText.collectionId
  (db.collections.rows.filter fun c =>
    (agent.all fun a => (agentRows acl db a).contains c.id) &&
      (human.isAdmin && human.mode == .full || humanOk.contains c.id ||
        human.mode == .internalOnly && isOpen c.sensitivity) &&
      (human.isPrivate || isOpen c.sensitivity) &&
      (!human.publicOnly || c.sensitivity == .public_)).map Collection.id

/-- `effective_collections`. -/
def effectiveOf (human : HumanCtx) (agent : Option AgentCtx) (narrowing : Narrowing) : AllowedSet :=
  let ids := effectiveRows acl db human agent
  let ids := agent.elim ids fun a => a.narrowing.keep db ids
  let ids := narrowing.only.elim ids fun only =>
    ids.filter fun id => (idsForSlugs only db).1.contains id || only.contains id
  .fromIds ids

/-- `agent_side_collections`. -/
def agentSideOf (agent : AgentCtx) : AllowedSet :=
  .fromIds (agent.narrowing.keep db (agentRows acl db agent).dedup)

end Queries

/-! ## Roles -/

def Role.rank : Role → Nat
  | .viewer => 0
  | .editor => 1
  | .owner => 2

/-- `best.max(Some(role))`. -/
def Role.max (role : Role) : Option Role → Role
  | none => role
  | some best => if best.rank ≤ role.rank then role else best

def Grant.hit (g : Grant) (userId : Text) (department : Option Text) : Bool :=
  match g.kind with
  | .user => g.id == userId
  | .department => department.filter (!·.isEmpty) == some g.id
  | _ => false

def roleFromGrants (grants : List Grant) (userId : Text) (department : Option Text) : Option Role :=
  grants.foldl (fun best g =>
    if g.kind.allows g.role && g.hit userId department then some (g.role.max best) else best) none

def userRole (acl : List AclText) (db : Db) (collectionId userId : Text) (department : Option Text)
    (isAdmin : Bool) : Option Role :=
  if (db.find collectionId).isNone then none
  else if isAdmin then some .owner
  else
    roleFromGrants ((acl.filter (·.collectionId == collectionId)).filterMap AclText.grant) userId department

def HumanCtx.dashboard (userId : Text) (department : Option Text) (isAdmin : Bool) : HumanCtx where
  mode := .full
  userId := some userId
  userDepartment := department.filter (!·.isEmpty)
  channel := none
  channelChat := none
  isAdmin := isAdmin
  isPrivate := true
  publicOnly := false

/-! ## One reading -/

section Agree

variable {row : AclText} {g : Grant} {userId id : Text} {department : Option Text} {isAdmin : Bool}
  {acl : List AclText} {db : Db} {human : HumanCtx}

theorem kind_parse {s : Text} {kind : PrincipalKind} : PrincipalKind.parse s = some kind ↔ s = kind.asStr := by
  refine ⟨fun parsed => ?_, fun same => same ▸ kind.parse_asStr⟩
  unfold PrincipalKind.parse at parsed
  split_ifs at parsed with user agent dept channel <;> cases parsed <;> assumption

theorem role_parse {s : Text} {role : Role} : Role.parse s = some role ↔ s = role.asStr := by
  refine ⟨fun parsed => ?_, fun same => same ▸ role.parse_asStr⟩
  unfold Role.parse at parsed
  split_ifs at parsed <;> cases parsed <;> assumption

theorem AclText.forHuman_eq : row.forHuman human = row.grant.any (·.forHuman human) := by
  have kinds : ∀ kind, row.is kind = (PrincipalKind.parse row.kind == some kind) := fun kind => by
    rw [Bool.eq_iff_iff]
    simp [AclText.is, kind_parse]
  have roles : ∀ role : Role, (row.role == role.asStr) = (Role.parse row.role == some role) := fun role => by
    rw [Bool.eq_iff_iff]
    simp [role_parse]
  simp only [AclText.forHuman, AclText.forDepartment, AclText.roleIn, AclText.grant, List.any_cons, List.any_nil,
    kinds, roles]
  rcases PrincipalKind.parse row.kind with _ | kind <;> rcases Role.parse row.role with _ | role
  · simp
  · simp
  · simp
  · cases kind <;> cases role <;> simp [Grant.forHuman, Grant.forDepartment, reads]

theorem forHuman_dashboard : g.forHuman (.dashboard userId department isAdmin) =
    (g.kind.allows g.role && g.hit userId department) := by
  obtain ⟨kind, gid, role⟩ := g
  have user : (some userId == some gid) = (gid == userId) := by rw [Bool.eq_iff_iff]; simp [@eq_comm _ userId gid]
  cases kind <;> cases role <;>
    simp [Grant.forHuman, Grant.forDepartment, Grant.hit, PrincipalKind.allows, HumanCtx.dashboard, reads, user]

theorem roleFromGrants_isSome {grants : List Grant} : (roleFromGrants grants userId department).isSome = true ↔
    ∃ g ∈ grants, (g.kind.allows g.role && g.hit userId department) = true := by
  have fold : ∀ best : Option Role, (grants.foldl (fun best g =>
      if g.kind.allows g.role && g.hit userId department then some (g.role.max best) else best) best).isSome = true ↔
        best.isSome = true ∨ ∃ g ∈ grants, (g.kind.allows g.role && g.hit userId department) = true := by
    induction grants with
    | nil => simp
    | cons g rest ih =>
      intro best
      rw [List.foldl_cons, ih, List.exists_mem_cons_iff]
      split_ifs with counts
      · simp [counts]
      · simp [counts]
  simpa [roleFromGrants] using fold none

theorem mem_keep_iff {narrowing : AgentNarrowing} {ids : List Text} : id ∈ narrowing.keep db ids ↔
    id ∈ ids ∧ ∀ slugs, narrowing = .only slugs → id ∈ (idsForSlugs slugs db).1 := by
  cases narrowing <;> simp [AgentNarrowing.keep]

end Agree

/-- **Reading and managing agree**: a dashboard user reads exactly the collections on which it has a role; and
what is read through an employee is on the employee's side, and read without the narrowing. -/
theorem reads_iff_manages (acl : List AclText) (db : Db) :
    (∀ userId department isAdmin id,
      id ∈ (effectiveOf acl db (.dashboard userId department isAdmin) none ⟨none⟩).ids ↔
        (userRole acl db id userId department isAdmin).isSome = true) ∧
    ∀ human agent narrowing,
      (effectiveOf acl db human agent narrowing).ids ⊆ (effectiveOf acl db human agent ⟨none⟩).ids ∧
      ∀ a ∈ agent, (effectiveOf acl db human agent narrowing).ids ⊆ (agentSideOf acl db a).ids := by
  constructor
  · intro userId department isAdmin id
    have matched : (∃ row ∈ acl, row.forHuman (.dashboard userId department isAdmin) = true ∧ row.collectionId = id) ↔
        (roleFromGrants ((acl.filter (·.collectionId == id)).filterMap AclText.grant) userId department).isSome := by
      rw [roleFromGrants_isSome]
      simp only [AclText.forHuman_eq, forHuman_dashboard, Option.any_eq_true, List.mem_filterMap, List.mem_filter,
        beq_iff_eq]
      tauto
    have known : (∃ c ∈ db.collections.rows, c.id = id) ↔ (db.find id).isNone = false := by
      simp [Db.find]
    have reads : id ∈ (effectiveOf acl db (.dashboard userId department isAdmin) none ⟨none⟩).ids ↔
        (∃ c ∈ db.collections.rows, c.id = id) ∧ (isAdmin = true ∨ ∃ row ∈ acl,
          row.forHuman (.dashboard userId department isAdmin) = true ∧ row.collectionId = id) := by
      simp only [effectiveOf, effectiveRows, AllowedSet.mem_fromIds, Option.elim_none, List.mem_map, List.mem_filter]
      simp [HumanCtx.dashboard]
      grind
    rw [reads, known, matched, userRole]
    cases (db.find id).isNone <;> cases isAdmin <;> simp
  · intro human agent narrowing
    have wider : (effectiveOf acl db human agent narrowing).ids ⊆ (effectiveOf acl db human agent ⟨none⟩).ids := by
      intro id allowed
      simp only [effectiveOf, AllowedSet.mem_fromIds] at allowed ⊢
      cases only : narrowing.only with
      | none => simpa [only] using allowed
      | some slugs =>
        rw [only] at allowed
        exact (List.mem_filter.mp allowed).1
    refine ⟨wider, fun a given id allowed => ?_⟩
    obtain rfl := Option.mem_def.mp given
    have inside := wider allowed
    simp only [effectiveOf, agentSideOf, AllowedSet.mem_fromIds, Option.elim_some, Option.elim_none, mem_keep_iff,
      List.mem_dedup] at inside ⊢
    obtain ⟨⟨c, listed, rfl⟩, kept⟩ := inside.imp_left List.mem_map.mp
    have every := (List.mem_filter.mp listed).2
    simp only [Bool.and_eq_true, Option.all_some, List.contains_eq_mem, decide_eq_true_eq] at every
    exact ⟨every.1.1.1, kept⟩

end DuDuClaw.Knowledge
