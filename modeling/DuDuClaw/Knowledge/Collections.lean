/-
# Knowledge.Collections -- collections and their grants

The rows of knowledge.db that say who may read what, with the statements of store.rs and
acl.rs that write them.  A timestamp is the number of milliseconds that its text shows.

* `createCollectionIn_cases`, `setAcl_cases`, `deleteCollection_cases`: what each operation
  leaves when it returns.
-/
import DuDuClaw.Lib.Table
import DuDuClaw.Lib.Transaction
import DuDuClaw.Lib.Utf8
import Mathlib.Data.Char
import Mathlib.Data.List.Lex
import Mathlib.Data.List.Sort

namespace DuDuClaw.Knowledge

open DuDuClaw.Lib

abbrev Text := List Char

abbrev Millis := Int

inductive KbError where
  /-- A constraint of the schema. -/
  | db
  | permissionDenied
  | invalid (message : String)
  | conflict (message : String)
  | rejected (code message : String)
  deriving DecidableEq

/-! ## Names -/

def isAsciiLowerOrDigit (c : Char) : Bool := c.isLower || c.isDigit

def validSlug (slug : Text) : Bool :=
  !slug.isEmpty && byteLength slug ≤ 64 && slug.head?.any isAsciiLowerOrDigit &&
    slug.all fun c => isAsciiLowerOrDigit c || c == '-'

/-- `trim_end_matches('-')`. -/
def trimEndDashes (s : Text) : Text := (s.reverse.dropWhile (· == '-')).reverse

/-- One character of `derive_slug`. -/
def slugPush (s : Text) (c : Char) : Text :=
  if c.isAlphanum then s ++ [c.toLower]
  else if s.getLast? ≠ some '-' && !s.isEmpty then s ++ ['-'] else s

/-- `derive_slug`, where `uuid` is drawn for a name without a letter or digit.  The text
before the cut is ASCII, so that its bytes are its characters. -/
def deriveSlug (name uuid : Text) : Text :=
  let s := trimMatches (· == '-') (name.foldl slugPush [])
  let s := trimEndDashes (s.take 48)
  if s.isEmpty then "kb-".toList ++ uuid.take 8 else s

def cleanName (name : Text) : Except KbError Text :=
  let name := (trim name).filter fun c => !isControl c
  if name.isEmpty then .error (.invalid "請輸入集合名稱。")
  else if 80 < name.length then .error (.invalid "集合名稱最多 80 個字。")
  else .ok name

def cleanDescription (d : Text) : Except KbError Text :=
  if 2000 < d.length then .error (.invalid "說明最多 2000 個字。") else .ok (trim d)

def isValidDepartment (name : Text) : Bool :=
  if name.isEmpty || 64 < byteLength name || name.head? = some '.' then false
  else !name.any fun c => c == '/' || c == '\\' || c.toNat == 0 || isControl c || isWhitespace c

def cleanDepartment (d : Option Text) : Except KbError (Option Text) :=
  match (d.map trim).filter (!·.isEmpty) with
  | none => .ok none
  | some d =>
    if isValidDepartment d then .ok (some d) else .error (.invalid "部門名稱格式不正確。")

inductive Sensitivity where
  | public_
  | internal
  | personal
  | restricted
  deriving DecidableEq

def Sensitivity.parse (s : Text) : Option Sensitivity :=
  let s := toAsciiLowercase (trim s)
  if s = "public".toList then some .public_
  else if s = "internal".toList then some .internal
  else if s = "personal".toList then some .personal
  else if s = "restricted".toList then some .restricted
  else none

def cleanSensitivity (s : Option Text) : Except KbError Sensitivity :=
  match (s.map trim).filter (!·.isEmpty) with
  | none => .ok .internal
  | some s =>
    okOr (Sensitivity.parse s)
      (.invalid "敏感度只能是 public、internal、personal 或 restricted。")

inductive EmbeddingPolicy where
  | inherit
  | localOnly

def cleanPolicy (p : Text) : Except KbError EmbeddingPolicy :=
  if p = "inherit".toList then .ok .inherit
  else if p = "local_only".toList then .ok .localOnly
  else .error (.invalid "向量政策只能是 inherit 或 local_only。")

/-! ## Grants -/

inductive PrincipalKind where
  | user
  | agent
  | department
  | channel
  deriving DecidableEq

inductive Role where
  | viewer
  | editor
  | owner
  deriving DecidableEq

def PrincipalKind.asStr : PrincipalKind → Text
  | .user => "user".toList
  | .agent => "agent".toList
  | .department => "department".toList
  | .channel => "channel".toList

def PrincipalKind.parse (s : Text) : Option PrincipalKind :=
  if s = "user".toList then some .user
  else if s = "agent".toList then some .agent
  else if s = "department".toList then some .department
  else if s = "channel".toList then some .channel
  else none

def Role.asStr : Role → Text
  | .viewer => "viewer".toList
  | .editor => "editor".toList
  | .owner => "owner".toList

def Role.parse (s : Text) : Option Role :=
  if s = "viewer".toList then some .viewer
  else if s = "editor".toList then some .editor
  else if s = "owner".toList then some .owner
  else none

@[simp] theorem PrincipalKind.parse_asStr (kind : PrincipalKind) : parse kind.asStr = some kind := by
  cases kind <;> decide

@[simp] theorem Role.parse_asStr (role : Role) : parse role.asStr = some role := by
  cases role <;> decide

def PrincipalKind.allows : PrincipalKind → Role → Bool
  | .user, _ => true
  | .department, role => role ≠ .owner
  | .agent, role | .channel, role => role = .viewer

def isValidAgentId (s : Text) : Bool :=
  !s.isEmpty && byteLength s ≤ 64 && s.all fun c => c.isAlphanum || c == '-' || c == '_'

/-- `id.split_once(':')`. -/
def splitChannel (id : Text) : Text × Option Text :=
  match id.dropWhile (· != ':') with
  | [] => (id, none)
  | _ :: rest => (id.takeWhile (· != ':'), some rest)

def validChannelPrincipal (id : Text) : Bool :=
  let (channel, chat) := splitChannel id
  !channel.isEmpty && byteLength channel ≤ 32 &&
    channel.all (fun c => isAsciiLowerOrDigit c || c == '_') &&
    chat.all fun c => !c.isEmpty && byteLength c ≤ 256 && !c.any isControl

structure Grant where
  kind : PrincipalKind
  id : Text
  role : Role
  deriving DecidableEq

def Grant.principal (g : Grant) : PrincipalKind × Text := (g.kind, g.id)

/-- `ORDER BY principal_kind, principal_id`. -/
def Grant.listedBefore (a b : Grant) : Prop :=
  a.kind.asStr < b.kind.asStr ∨ a.kind = b.kind ∧ a.id ≤ b.id

instance : DecidableRel Grant.listedBefore := fun a b =>
  inferInstanceAs (Decidable (a.kind.asStr < b.kind.asStr ∨ a.kind = b.kind ∧ a.id ≤ b.id))

def Grant.isUserOwner (g : Grant) : Bool := g.kind == .user && g.role == .owner

def validateEntry (g : Grant) : Except KbError Unit := do
  refuseIf (g.kind.allows g.role = false) (.invalid (match g.kind with
    | .department => "部門只能設為檢視者或編輯者。"
    | _ => "AI 員工與通道只能設為檢視者。"))
  let ok := match g.kind with
    | .user => !g.id.isEmpty && byteLength g.id ≤ 128 && !g.id.any isControl
    | .agent => isValidAgentId g.id
    | .department => isValidDepartment g.id
    | .channel => validChannelPrincipal g.id
  refuseIf (ok = false) (.invalid "授權對象的名稱格式不正確。")

/-! ## Tables -/

structure Collection where
  id : Text
  slug : Text
  name : Text
  description : Text
  department : Option Text
  sensitivity : Sensitivity
  embeddingPolicy : EmbeddingPolicy
  aclRevision : Int
  createdBy : Text
  createdAt : Millis
  updatedAt : Millis

/-- A row of `collection_acl`. -/
structure AclRow where
  collectionId : Text
  grant : Grant
  grantedBy : Text
  grantedAt : Millis

def AclRow.key (row : AclRow) : Text × PrincipalKind × Text :=
  (row.collectionId, row.grant.kind, row.grant.id)

/-- A row of `agent_own_collections`; the archived grants are the text of the column. -/
structure OwnCollection where
  agentId : Text
  collectionId : Text
  shareChatUsers : Bool
  createdBy : Text
  createdAt : Millis
  archivedAt : Option Millis
  archivedGrants : Option Text

structure Db where
  collections : Table Collection.id
  acl : Table AclRow.key
  own : Table OwnCollection.agentId

def Db.empty : Db := ⟨.empty, .empty, .empty⟩

namespace Db

def ids (db : Db) : List Text := db.collections.rows.map Collection.id

def find (db : Db) (id : Text) : Option Collection := db.collections.rows.find? (·.id == id)

/-- `get_collection(..)?.ok_or(PermissionDenied)`. -/
def getCollection (id : Text) (db : Db) : Except KbError Collection :=
  okOr (db.find id) .permissionDenied

def aclRows (db : Db) (id : Text) : List AclRow := db.acl.rows.filter (·.collectionId == id)

def grants (db : Db) (id : Text) : List Grant := (db.aclRows id).map AclRow.grant

/-- `get_acl`: the grants in the order of their principals, and the revision. -/
def getAcl (id : Text) (db : Db) : Except KbError (List Grant × Int) := do
  let c ← db.getCollection id
  return ((db.grants id).insertionSort Grant.listedBefore, c.aclRevision)

/-- INSERT: a slug is unique as well. -/
def insertCollection (row : Collection) (db : Db) : Except KbError Db := do
  refuseIf (row.slug ∈ db.collections.rows.map Collection.slug) .db
  let collections ← okOr (db.collections.insert row) .db
  return { db with collections }

/-- INSERT: the collection must exist, the role fit the principal, and the principal have
no grant on the collection. -/
def insertGrant (id : Text) (g : Grant) (actor : Text) (now : Millis) (db : Db) :
    Except KbError Db := do
  refuseIf (id ∉ db.ids) .db
  refuseIf (g.kind.allows g.role = false) .db
  let acl ← okOr (db.acl.insert ⟨id, g, actor, now⟩) .db
  return { db with acl }

def deleteGrants (id : Text) (sel : Grant → Bool) (db : Db) : Db :=
  { db with acl := db.acl.deleteWhere fun row => row.collectionId == id && sel row.grant }

/-- `SET acl_revision = acl_revision + 1, updated_at = now`. -/
def bumpRevision (id : Text) (now : Millis) (db : Db) : Db :=
  { db with
    collections := db.collections.update
      (fun c => if c.id = id then { c with aclRevision := c.aclRevision + 1, updatedAt := now }
        else c)
      fun _ => keep_ite Collection.id rfl }

end Db

/-! ## Operations -/

structure NewCollection where
  name : Text
  slug : Option Text := none
  description : Text := []
  department : Option Text := none
  sensitivity : Option Text := none

/-- What a request draws: two UUIDs without hyphens, and the clock. -/
structure Draw where
  id : Text
  slug : Text
  now : Millis

def chooseSlug (new : NewCollection) (name uuid : Text) : Except KbError Text :=
  match (new.slug.map trim).filter (!·.isEmpty) with
  | some s =>
    if validSlug s then .ok s
    else .error (.invalid
      "代號只能用小寫英文字母、數字與連字號（-），最多 64 字，且開頭不能是連字號。")
  | none => .ok (deriveSlug name uuid)

def quotaMessage (maxCollections : Nat) : String :=
  "集合數量已達上限（" ++ toString maxCollections ++ " 個）。"

def slugMessage (slug : Text) : String :=
  "代號「" ++ String.ofList slug ++ "」已被使用，請換一個。"

def createCollectionIn (new : NewCollection) (createdBy : Text) (maxCollections : Nat)
    (draw : Draw) : EStateM KbError Db Text := do
  let name ← query fun _ => cleanName new.name
  let description ← query fun _ => cleanDescription new.description
  let department ← query fun _ => cleanDepartment new.department
  let sensitivity ← query fun _ => cleanSensitivity new.sensitivity
  let slug ← query fun _ => chooseSlug new name draw.slug
  let _ ← query fun db =>
    refuseIf (maxCollections ≤ db.collections.rows.length)
      (.rejected "quota_collections" (quotaMessage maxCollections))
  let _ ← query fun db =>
    refuseIf (slug ∈ db.collections.rows.map Collection.slug) (.invalid (slugMessage slug))
  let id := "col_".toList ++ draw.id
  execute (Db.insertCollection
    { id, slug, name, description, department, sensitivity, embeddingPolicy := .inherit
      aclRevision := 0, createdBy, createdAt := draw.now, updatedAt := draw.now })
  execute (Db.insertGrant id ⟨.user, createdBy, .owner⟩ createdBy draw.now)
  return id

def createCollection (new : NewCollection) (createdBy : Text) (maxCollections : Nat) (draw : Draw) :
    EStateM KbError Db Collection := do
  let id ← transaction (createCollectionIn new createdBy maxCollections draw)
  query (Db.getCollection id)

structure CollectionPatch where
  name : Option Text := none
  description : Option Text := none
  /-- An empty text clears the department. -/
  department : Option Text := none
  sensitivity : Option Text := none
  embeddingPolicy : Option Text := none

/-- The values that `update_collection` writes. -/
structure Edit where
  name : Text
  description : Text
  department : Option Text
  sensitivity : Sensitivity
  embeddingPolicy : EmbeddingPolicy

def changedElsewhere : KbError := .conflict "集合已被其他人修改，請重新載入後再儲存。"

/-- The first half of `update_collection`: what it reads, and the values it will write. -/
def readEdit (id : Text) (patch : CollectionPatch) (expectedUpdatedAt : Millis) (db : Db) :
    Except KbError Edit := do
  let current ← db.getCollection id
  refuseIf (current.updatedAt ≠ expectedUpdatedAt) changedElsewhere
  let name ← patch.name.elim (.ok current.name) cleanName
  let description ← patch.description.elim (.ok current.description) cleanDescription
  let department ← patch.department.elim (.ok current.department) fun d => cleanDepartment (some d)
  let sensitivity ← patch.sensitivity.elim (.ok current.sensitivity) fun s => cleanSensitivity (some s)
  let embeddingPolicy ← patch.embeddingPolicy.elim (.ok current.embeddingPolicy) cleanPolicy
  return { name, description, department, sensitivity, embeddingPolicy }

def Edit.on (edit : Edit) (now : Millis) (c : Collection) : Collection :=
  { c with
    name := edit.name
    description := edit.description
    department := edit.department
    sensitivity := edit.sensitivity
    embeddingPolicy := edit.embeddingPolicy
    updatedAt := now }

/-- The second half: the UPDATE of the row that still carries the token. -/
def writeEdit (id : Text) (edit : Edit) (expectedUpdatedAt now : Millis) (db : Db) :
    Except KbError Db := do
  refuseIf (db.collections.rows.all fun c => !(c.id == id && c.updatedAt == expectedUpdatedAt))
    changedElsewhere
  return { db with
    collections := db.collections.update
      (fun c => if c.id = id ∧ c.updatedAt = expectedUpdatedAt then edit.on now c else c)
      fun _ => keep_ite Collection.id rfl }

def noOwner : KbError := .invalid "至少要保留一位擁有者。"

def staleRevision : KbError := .conflict "權限已被其他人修改，請重新載入後再儲存。"

/-- Every entry is valid, no principal occurs twice and an owner remains. -/
def checkEntries (entries : List Grant) : Except KbError Unit := do
  entries.forM validateEntry
  refuseIf (¬(entries.map Grant.principal).Nodup) (.invalid "同一個授權對象不能出現兩次。")
  refuseIf (entries.all (!·.isUserOwner)) noOwner

def insertAll (id : Text) (entries : List Grant) (actor : Text) (now : Millis) (db : Db) :
    Except KbError Db := entries.foldlM (fun db g => db.insertGrant id g actor now) db

def setAcl (id : Text) (entries : List Grant) (expectedRevision : Int) (actor : Text)
    (now : Millis) : EStateM KbError Db Int := do
  let _ ← query fun _ => checkEntries entries
  transaction do
    let current ← query (Db.getCollection id)
    let _ ← query fun _ => refuseIf (current.aclRevision ≠ expectedRevision) staleRevision
    execute fun db => .ok (db.deleteGrants id fun _ => true)
    execute (insertAll id entries actor now)
    execute fun db => .ok (db.bumpRevision id now)
    return current.aclRevision + 1

/-- The rows that go with a collection: its grants and its row of an employee. -/
def Db.dropCollection (id : Text) (db : Db) : Db where
  collections := db.collections.deleteWhere (·.id == id)
  acl := db.acl.deleteWhere (·.collectionId == id)
  own := db.own.deleteWhere (·.collectionId == id)

def deleteCollection (id confirmName : Text) : EStateM KbError Db Unit := do
  let current ← query (Db.getCollection id)
  let _ ← query fun _ => refuseIf (current.name ≠ confirmName)
    (.invalid "輸入的名稱與集合名稱不符，未刪除。")
  transaction (execute fun db => .ok (db.dropCollection id))

/-! ## What an operation leaves -/

section Spec

variable {db db' : Db} {id other actor : Text} {now expectedUpdatedAt : Millis} {edit : Edit}
  {entries : List Grant} {c : Collection}

variable {g : Grant} {expectedRevision : Int} {confirmName : Text}

theorem find_mem (found : db.find id = some c) : c ∈ db.collections.rows ∧ c.id = id :=
  ⟨List.mem_of_find?_eq_some found, by simpa using List.find?_some found⟩

theorem find_of_ids (known : id ∈ db.ids) : ∃ c, db.find id = some c := by
  obtain ⟨c, listed, rfl⟩ := List.mem_map.mp known
  exact ⟨c, db.collections.find?_key listed⟩

theorem find_of_mem (listed : c ∈ db.collections.rows) : db.find c.id = some c :=
  db.collections.find?_key listed

@[simp] theorem find_bumpRevision : (db.bumpRevision id now).find other = (db.find other).map fun c =>
      if c.id = id then { c with aclRevision := c.aclRevision + 1, updatedAt := now } else c := by
  unfold Db.find Db.bumpRevision
  rw [Table.find?_update]

@[simp] theorem ids_bumpRevision : (db.bumpRevision id now).ids = db.ids := by
  unfold Db.ids Db.bumpRevision Table.update
  rw [List.map_map]
  exact List.map_congr_left fun _ _ => keep_ite Collection.id rfl

/-- An UPDATE that finds its token edits that row and no other. -/
theorem writeEdit_cases (wrote : writeEdit id edit expectedUpdatedAt now db = .ok db') :
    ∃ c, db.find id = some c ∧ c.updatedAt = expectedUpdatedAt ∧
      db'.find id = some (edit.on now c) ∧ (∀ other, other ≠ id → db'.find other = db.find other) ∧
      db'.acl = db.acl ∧ db'.own = db.own := by
  unfold writeEdit at wrote
  obtain ⟨_, held, wrote⟩ := bind_ok.mp wrote
  cases wrote
  rw [refuseIf_ok, List.all_eq_true] at held
  push Not at held
  obtain ⟨c, listed, fits⟩ := held
  simp only [Bool.not_eq_true, Bool.not_eq_eq_eq_not, Bool.not_false, Bool.and_eq_true, beq_iff_eq] at fits
  obtain ⟨rfl, token⟩ := fits
  have found := find_of_mem listed
  refine ⟨c, found, token, ?_, fun other differ => ?_, rfl, rfl⟩ <;>
    unfold Db.find at found ⊢ <;> dsimp only <;> rw [Table.find?_update]
  · rw [found, Option.map_some, if_pos ⟨rfl, token⟩]
  · cases there : db.collections.rows.find? fun row => row.id == other with
    | none => rfl
    | some d =>
      have named : d.id = other := by simpa using List.find?_some there
      rw [Option.map_some, if_neg fun both => differ (named ▸ both.1)]

/-! ### Grants -/

theorem grants_distinct (db : Db) (id : Text) : ((db.grants id).map Grant.principal).Nodup := by
  unfold Db.grants Db.aclRows
  rw [List.map_map]
  have rows := (List.Nodup.of_map AclRow.key db.acl.distinct).filter (·.collectionId == id)
  refine rows.map_on fun a left b right same => ?_
  obtain ⟨listed, here⟩ := List.mem_filter.mp left
  obtain ⟨listed', here'⟩ := List.mem_filter.mp right
  refine db.acl.unique listed listed' (Prod.ext ?_ same)
  exact (beq_iff_eq.mp here).trans (beq_iff_eq.mp here').symm

theorem insertGrant_succeeds (actor : Text) (now : Millis) (known : id ∈ db.ids) (fits : g.kind.allows g.role = true)
    (fresh : g.principal ∉ (db.grants id).map Grant.principal) :
    ∃ db', db.insertGrant id g actor now = .ok db' := by
  have free : ∀ row ∈ db.acl.rows, row.key ≠ (⟨id, g, actor, now⟩ : AclRow).key := by
    intro row listed same
    obtain ⟨here, principal⟩ := Prod.ext_iff.mp same
    refine fresh (List.mem_map.mpr ⟨row.grant, ?_, principal⟩)
    exact List.mem_map.mpr ⟨row, List.mem_filter.mpr ⟨listed, by simpa [AclRow.key] using here⟩, rfl⟩
  obtain ⟨acl, inserted⟩ := Table.insert_fresh free
  refine ⟨{ db with acl }, ?_⟩
  unfold Db.insertGrant
  rw [bind_ok]
  refine ⟨(), by simpa using known, bind_ok.mpr ⟨(), by simp [fits], ?_⟩⟩
  exact bind_ok.mpr ⟨acl, okOr_ok.mpr inserted, rfl⟩

theorem insertGrant_cases (wrote : db.insertGrant id g actor now = .ok db') :
    db'.collections = db.collections ∧ db'.own = db.own ∧
      db'.acl.rows = db.acl.rows ++ [⟨id, g, actor, now⟩] := by
  unfold Db.insertGrant at wrote
  obtain ⟨_, -, wrote⟩ := bind_ok.mp wrote
  obtain ⟨_, -, wrote⟩ := bind_ok.mp wrote
  obtain ⟨acl, inserted, wrote⟩ := bind_ok.mp wrote
  cases wrote
  exact ⟨rfl, rfl, (Table.insert_cases (okOr_ok.mp inserted)).2⟩

theorem insertAll_cases (wrote : insertAll id entries actor now db = .ok db') :
    db'.collections = db.collections ∧ db'.own = db.own ∧
      db'.acl.rows = db.acl.rows ++ entries.map (⟨id, ·, actor, now⟩) := by
  unfold insertAll at wrote
  refine foldlM_run (fun done (st : Db) => st.collections = db.collections ∧ st.own = db.own ∧
    st.acl.rows = db.acl.rows ++ done.map (⟨id, ·, actor, now⟩)) ⟨rfl, rfl, by simp⟩ ?_ wrote
  rintro done st g st' ⟨collections, own, rows⟩ one
  obtain ⟨collections', own', rows'⟩ := insertGrant_cases one
  refine ⟨collections'.trans collections, own'.trans own, ?_⟩
  rw [rows', rows, List.map_append, List.append_assoc]
  rfl

theorem grants_append {rows : List AclRow} (same : db'.acl.rows = db.acl.rows ++ rows) :
    db'.grants id = db.grants id ++ (rows.filter (·.collectionId == id)).map AclRow.grant := by
  unfold Db.grants Db.aclRows
  rw [same, List.filter_append, List.map_append]

theorem grants_insertGrant (wrote : db.insertGrant id g actor now = .ok db') :
    db'.grants id = db.grants id ++ [g] ∧ ∀ other, other ≠ id → db'.grants other = db.grants other := by
  obtain ⟨-, -, rows⟩ := insertGrant_cases wrote
  constructor
  · rw [grants_append rows]
    simp
  · intro other differ
    rw [grants_append rows]
    simp [Ne.symm differ]

theorem grants_insertAll (wrote : insertAll id entries actor now db = .ok db') :
    db'.grants id = db.grants id ++ entries ∧ ∀ other, other ≠ id → db'.grants other = db.grants other := by
  obtain ⟨-, -, rows⟩ := insertAll_cases wrote
  constructor
  · rw [grants_append rows]
    simp [List.filter_map, List.map_map, Function.comp_def]
  · intro other differ
    rw [grants_append rows]
    simp [List.filter_map, Function.comp_def, Ne.symm differ]

theorem grants_deleteGrants {sel : Grant → Bool} :
    (db.deleteGrants id sel).grants id = (db.grants id).filter (!sel ·) ∧
      ∀ other, other ≠ id → (db.deleteGrants id sel).grants other = db.grants other := by
  unfold Db.deleteGrants Db.grants Db.aclRows Table.deleteWhere
  constructor
  · dsimp only
    rw [List.filter_filter, List.filter_map, List.filter_filter]
    refine congrArg _ (List.filter_congr fun row _ => ?_)
    cases row.collectionId == id <;> simp
  · intro other differ
    dsimp only
    rw [List.filter_filter]
    refine congrArg _ (List.filter_congr fun row _ => ?_)
    by_cases here : row.collectionId = other
    · simp [here, differ]
    · simp [here]

theorem forM_ok {f : Grant → Except KbError Unit} : entries.forM f = .ok () ↔ ∀ g ∈ entries, f g = .ok () := by
  induction entries with
  | nil => exact iff_of_true rfl (List.forall_mem_nil _)
  | cons g rest ih =>
    change (f g >>= fun _ => rest.forM f) = .ok () ↔ _
    rw [bind_ok, List.forall_mem_cons, ← ih]
    exact ⟨fun ⟨_, first, others⟩ => ⟨first, others⟩, fun both => ⟨(), both⟩⟩

theorem checkEntries_ok : checkEntries entries = .ok () ↔
    (∀ g ∈ entries, validateEntry g = .ok ()) ∧ (entries.map Grant.principal).Nodup ∧
      ∃ g ∈ entries, g.isUserOwner := by
  unfold checkEntries
  rw [← forM_ok]
  simp only [bind_ok, refuseIf_ok, exists_const, not_not, List.all_eq_true,
    Bool.not_eq_eq_eq_not, Bool.not_true, not_forall, Bool.not_eq_false, exists_prop]
  constructor
  · rintro ⟨_, all⟩
    exact all
  · exact fun all => ⟨(), all⟩

theorem createCollectionIn_cases {new : NewCollection} {createdBy : Text} {maxCollections : Nat}
    {draw : Draw} (returned : createCollectionIn new createdBy maxCollections draw db = .ok id db') :
    db'.ids = db.ids ++ [id] ∧ db'.grants id = db.grants id ++ [⟨.user, createdBy, .owner⟩] ∧
      (∀ other, other ≠ id → db'.grants other = db.grants other) ∧ db'.own = db.own := by
  unfold createCollectionIn at returned
  obtain ⟨name, -, returned⟩ := query_bind.mp returned
  obtain ⟨description, -, returned⟩ := query_bind.mp returned
  obtain ⟨department, -, returned⟩ := query_bind.mp returned
  obtain ⟨sensitivity, -, returned⟩ := query_bind.mp returned
  obtain ⟨slug, -, returned⟩ := query_bind.mp returned
  obtain ⟨_, -, returned⟩ := query_bind.mp returned
  obtain ⟨_, -, returned⟩ := query_bind.mp returned
  obtain ⟨made, inserted, returned⟩ := execute_bind.mp returned
  obtain ⟨owned, granted, returned⟩ := execute_bind.mp returned
  obtain ⟨rfl, rfl⟩ := pure_returned.mp returned
  unfold Db.insertCollection at inserted
  obtain ⟨_, -, inserted⟩ := bind_ok.mp inserted
  obtain ⟨collections, fresh, inserted⟩ := bind_ok.mp inserted
  cases inserted
  obtain ⟨same, own, -⟩ := insertGrant_cases granted
  obtain ⟨here, elsewhere⟩ := grants_insertGrant granted
  refine ⟨?_, here, elsewhere, own⟩
  unfold Db.ids
  rw [same, (Table.insert_cases (okOr_ok.mp fresh)).2, List.map_append]
  rfl

theorem clean_setAcl : Clean (setAcl id entries expectedRevision actor now) :=
  clean_query_bind fun _ => clean_transaction _

/-- Grants that are replaced: the collection's are the new ones, and its revision is the
next one. -/
theorem setAcl_cases {revision : Int}
    (returned : setAcl id entries expectedRevision actor now db = .ok revision db') :
    checkEntries entries = .ok () ∧ ∃ c, db.find id = some c ∧ c.aclRevision = expectedRevision ∧
      db'.find id = some { c with aclRevision := c.aclRevision + 1, updatedAt := now } ∧
      (∀ other, other ≠ id → db'.find other = db.find other) ∧
      db'.grants id = entries ∧ (∀ other, other ≠ id → db'.grants other = db.grants other) ∧
      db'.own = db.own ∧ db'.ids = db.ids := by
  unfold setAcl at returned
  obtain ⟨⟨⟩, checked, returned⟩ := query_bind.mp returned
  rw [transaction_returned] at returned
  obtain ⟨c, found, returned⟩ := query_bind.mp returned
  obtain ⟨_, current, returned⟩ := query_bind.mp returned
  obtain ⟨emptied, deleted, returned⟩ := execute_bind.mp returned
  obtain ⟨filled, inserted, returned⟩ := execute_bind.mp returned
  obtain ⟨bumped, wrote, returned⟩ := execute_bind.mp returned
  obtain ⟨-, rfl⟩ := pure_returned.mp returned
  cases deleted
  cases wrote
  obtain ⟨collections, own, -⟩ := insertAll_cases inserted
  obtain ⟨here, elsewhere⟩ := grants_insertAll inserted
  obtain ⟨none_, others⟩ := @grants_deleteGrants db id fun _ => true
  have kept : ∀ other, filled.find other = db.find other := fun other => by
    unfold Db.find
    rw [collections]
    rfl
  have found := okOr_ok.mp found
  refine ⟨checked, c, found, by simpa using current, ?_, fun other differ => ?_, ?_, ?_, own, ?_⟩
  · rw [find_bumpRevision, kept, found, Option.map_some, if_pos (find_mem found).2]
  · rw [find_bumpRevision, kept]
    cases there : db.find other with
    | none => rfl
    | some d => rw [Option.map_some, if_neg fun same => differ ((find_mem there).2 ▸ same)]
  · refine here.trans ?_
    rw [none_]
    simp
  · exact fun other differ => (elsewhere other differ).trans (others other differ)
  · rw [ids_bumpRevision]
    exact congrArg (fun t => t.rows.map Collection.id) collections

theorem clean_deleteCollection : Clean (deleteCollection id confirmName) :=
  clean_query_bind fun _ => clean_query_bind fun _ => clean_transaction _

theorem deleteCollection_cases {u : Unit}
    (returned : deleteCollection id confirmName db = .ok u db') : db' = db.dropCollection id := by
  unfold deleteCollection at returned
  obtain ⟨current, -, returned⟩ := query_bind.mp returned
  obtain ⟨_, -, returned⟩ := query_bind.mp returned
  rw [transaction_returned] at returned
  cases execute_returned.mp returned
  rfl

theorem mem_ids_dropCollection : other ∈ (db.dropCollection id).ids ↔ other ∈ db.ids ∧ other ≠ id := by
  simp only [Db.ids, Db.dropCollection, List.mem_map, Table.mem_deleteWhere]
  constructor
  · rintro ⟨c, ⟨listed, kept⟩, rfl⟩
    exact ⟨⟨c, listed, rfl⟩, by simpa using kept⟩
  · rintro ⟨⟨c, listed, rfl⟩, kept⟩
    exact ⟨c, ⟨listed, by simpa using kept⟩, rfl⟩

theorem grants_dropCollection : (db.dropCollection id).grants other =
    if other = id then [] else db.grants other := by
  unfold Db.dropCollection Db.grants Db.aclRows Table.deleteWhere
  dsimp only
  rw [List.filter_filter]
  split
  · rename_i here
    rw [List.filter_eq_nil_iff.mpr (by simp [here]), List.map_nil]
  rename_i differ
  refine congrArg _ (List.filter_congr fun row _ => ?_)
  by_cases here : row.collectionId = other
  · simp [here, differ]
  · simp [here]

end Spec

end DuDuClaw.Knowledge
