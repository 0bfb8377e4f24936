/-
# Knowledge.AgentOwn -- an employee's own collection

agent_own.rs: the collection is created with its default grants, loses all but its owners
while the employee is archived, and gets them back when the employee is restored.  Each
operation is one transaction.

* `create_cases`, `archive_cases`, `restore_cases`: what each operation leaves.
* `restore_succeeds`: an archived collection whose saved grants are valid can be restored.
-/
import DuDuClaw.Knowledge.GrantJson

namespace DuDuClaw.Knowledge

open DuDuClaw.Lib

/-- `<display name> 的資料`. -/
def ownName (displayName agentId : Text) : Text :=
  let base := (trim displayName).filter fun c => !isControl c
  let base := if base.isEmpty then agentId else base
  base.take 60 ++ " 的資料".toList

def baseSlugPush (s : Text) (c : Char) : Text :=
  if c.isAlphanum then s ++ [c.toLower] else if s.getLast? ≠ some '-' then s ++ ['-'] else s

/-- `agent-<id>` as a slug. -/
def baseSlug (agentId : Text) : Text :=
  trimEndDashes ((agentId.foldl baseSlugPush "agent-".toList).take 48)

def slugTaken (slug : Text) (db : Db) : Bool := db.collections.rows.any (·.slug == slug)

/-- A free slug; `suffix` holds the UUIDs drawn by the eight attempts. -/
def uniqueSlug (agentId : Text) (suffix : Nat → Text) (db : Db) : Except KbError Text :=
  let base := baseSlug agentId
  let free := fun slug => validSlug slug && !slugTaken slug db
  if free base then .ok base
  else okOr (((List.range 8).map fun i => base ++ '-' :: (suffix i).take 6).find? free)
    (.invalid "無法為這位 AI 員工產生集合代號，請稍後再試。")

/-- The first grant of a principal wins. -/
def merge (base extra : List Grant) : List Grant :=
  extra.foldl (fun base g => if base.any (·.principal == g.principal) then base else base ++ [g]) base

structure NewOwn where
  agentId : Text
  displayName : Text
  sensitivity : Option Text
  shareChatUsers : Bool
  createdBy : Text
  readers : List Grant

/-- What `create` draws besides the new collection's own draw. -/
structure OwnDraw extends Draw where
  suffix : Nat → Text
  createdAt : Millis
  grantedAt : Millis

inductive Ensured where
  | created (c : Collection)
  | existing (c : Collection)

def getOwn (agentId : Text) (db : Db) : Option OwnCollection :=
  db.own.rows.find? (·.agentId == agentId)

/-- INSERT: the collection must exist and be nobody's own yet. -/
def insertOwn (own : OwnCollection) (db : Db) : Except KbError Db := do
  refuseIf (own.collectionId ∉ db.ids) .db
  refuseIf (own.collectionId ∈ db.own.rows.map OwnCollection.collectionId) .db
  let rows ← okOr (db.own.insert own) .db
  return { db with own := rows }

def setArchived (agentId : Text) (archivedAt : Option Millis) (archivedGrants : Option Text) (db : Db) :
    Db :=
  { db with
    own := db.own.update
      (fun own => if own.agentId = agentId then { own with archivedAt, archivedGrants } else own)
      fun _ => keep_ite OwnCollection.agentId rfl }

def existingAnswer (own : OwnCollection) (db : Db) : Except KbError Collection := do
  refuseIf own.archivedAt.isSome
    (.invalid "這位 AI 員工已封存，資料來源暫停使用；請先恢復這位員工。")
  db.getCollection own.collectionId

/-- Grants that are each validated before they are written. -/
def insertGrants (id : Text) (grants : List Grant) (actor : Text) (now : Millis) (db : Db) :
    Except KbError Db := do
  let db ← grants.foldlM
    (fun db g => do
      validateEntry g
      db.insertGrant id g actor now)
    db
  return db.bumpRevision id now

def ownGrant (agentId : Text) : Grant := ⟨.agent, agentId, .viewer⟩

def defaultGrants (new : NewOwn) : List Grant :=
  (merge [ownGrant new.agentId] new.readers).filter fun g =>
    !(g.kind == .user && g.id == new.createdBy)

/-- The branch of `create` for an employee without a collection. -/
def createOwnIn (new : NewOwn) (maxCollections : Nat) (draw : OwnDraw) : EStateM KbError Db Text := do
  let slug ← query (uniqueSlug new.agentId draw.suffix)
  let id ← createCollectionIn
    { name := ownName new.displayName new.agentId, slug := some slug, sensitivity := new.sensitivity }
    new.createdBy maxCollections draw.toDraw
  execute (insertOwn
    ⟨new.agentId, id, new.shareChatUsers, new.createdBy, draw.createdAt, none, none⟩)
  execute (insertGrants id (defaultGrants new) new.createdBy draw.grantedAt)
  return id

def ensure (new : NewOwn) (maxCollections : Nat) (draw : OwnDraw) :
    EStateM KbError Db (Collection ⊕ Text) := transaction do
  match ← query fun db => .ok (getOwn new.agentId db) with
  | some existing => return .inl (← query (existingAnswer existing))
  | none => return .inr (← createOwnIn new maxCollections draw)

def create (new : NewOwn) (maxCollections : Nat) (draw : OwnDraw) : EStateM KbError Db Ensured := do
  match ← ensure new maxCollections draw with
  | .inl c => return .existing c
  | .inr id => return .created (← query (Db.getCollection id))

structure Archived where
  collectionId : Text
  removed : List Grant

def deletePrincipals (id : Text) (removed : List Grant) (db : Db) : Db :=
  removed.foldl (fun db g => db.deleteGrants id fun h => h.principal == g.principal) db

def archive (serde : Serde) (agentId : Text) (now : Millis) : EStateM KbError Db (Option Archived) :=
  transaction do
    match ← query fun db => .ok (getOwn agentId db) with
    | none => return none
    | some own =>
      if own.archivedAt.isSome then return none
      else do
        let entries ← query (Db.getAcl own.collectionId)
        let removed := entries.1.filter (!·.isUserOwner)
        execute fun db => .ok (deletePrincipals own.collectionId removed db)
        execute fun db => .ok (db.bumpRevision own.collectionId now)
        execute fun db => .ok (setArchived agentId (some now) (some (grantsToJson serde removed)) db)
        return some ⟨own.collectionId, removed⟩

def restore (serde : Serde) (agentId actor : Text) (now : Millis) :
    EStateM KbError Db (Option (List Grant)) :=
  transaction do
    match ← query fun db => .ok (getOwn agentId db) with
    | none => return none
    | some own =>
      if own.archivedAt.isNone then return none
      else do
        let entries ← query (Db.getAcl own.collectionId)
        let wanted := merge [ownGrant agentId] (grantsFromJson serde own.archivedGrants)
        let added := wanted.filter fun g => !entries.1.any (·.principal == g.principal)
        execute (insertGrants own.collectionId added actor now)
        execute fun db => .ok (setArchived agentId none none db)
        return some added

/-! ## Merged grants -/

section Merge

variable {base extra : List Grant} {g : Grant}

theorem mem_of_merge (listed : g ∈ merge base extra) : g ∈ base ∨ g ∈ extra := by
  unfold merge at listed
  induction extra generalizing base with
  | nil => exact .inl listed
  | cons h more ih =>
    rw [List.foldl_cons] at listed
    obtain early | late := ih listed
    · split at early
      · exact .inl early
      · obtain old | new := List.mem_append.mp early
        · exact .inl old
        · exact .inr (List.mem_singleton.mp new ▸ List.mem_cons_self ..)
    · exact .inr (List.mem_cons_of_mem h late)

theorem mem_merge_of_base (listed : g ∈ base) : g ∈ merge base extra := by
  unfold merge
  induction extra generalizing base with
  | nil => exact listed
  | cons h more ih =>
    rw [List.foldl_cons]
    refine ih ?_
    split
    · exact listed
    · exact List.mem_append_left _ listed

theorem principal_mem_merge (listed : g ∈ extra) : g.principal ∈ (merge base extra).map Grant.principal := by
  induction extra generalizing base with
  | nil => cases listed
  | cons h more ih =>
    obtain rfl | later := List.mem_cons.mp listed
    · unfold merge
      rw [List.foldl_cons]
      split
      · rename_i taken
        obtain ⟨k, there, same⟩ := List.any_eq_true.mp taken
        exact List.mem_map.mpr ⟨k, mem_merge_of_base there, beq_iff_eq.mp same⟩
      · exact List.mem_map.mpr ⟨g, mem_merge_of_base (List.mem_append_right _ (by simp)), rfl⟩
    · exact ih later

theorem merge_distinct (distinct : (base.map Grant.principal).Nodup) :
    ((merge base extra).map Grant.principal).Nodup := by
  unfold merge
  induction extra generalizing base with
  | nil => exact distinct
  | cons h more ih =>
    rw [List.foldl_cons]
    refine ih ?_
    split
    · exact distinct
    · rename_i free
      refine nodup_map_concat distinct fun other listed same => free ?_
      exact List.any_eq_true.mpr ⟨other, listed, beq_iff_eq.mpr same⟩

end Merge

/-! ## What each operation leaves -/

section Spec

variable {db db' : Db} {id other actor agentId : Text} {now : Millis} {gs : List Grant} {g : Grant}
  {own : OwnCollection} {serde : Serde}

theorem getOwn_mem (found : getOwn agentId db = some own) : own ∈ db.own.rows ∧ own.agentId = agentId :=
  ⟨List.mem_of_find?_eq_some found, by simpa using List.find?_some found⟩

theorem getOwn_of_mem (listed : own ∈ db.own.rows) : getOwn own.agentId db = some own :=
  db.own.find?_key listed

/-- Nobody who owns a collection is an employee. -/
theorem ownGrant_fresh (owners : ∀ g ∈ gs, g.isUserOwner) :
    (ownGrant agentId).principal ∉ gs.map Grant.principal := by
  intro taken
  obtain ⟨g, granted, principal⟩ := List.mem_map.mp taken
  have owner := owners g granted
  have kind : g.kind = .agent := congrArg Prod.fst principal
  simp [Grant.isUserOwner, kind] at owner

theorem fits_of_valid (valid : validateEntry g = .ok ()) : g.kind.allows g.role = true := by
  unfold validateEntry at valid
  obtain ⟨_, fits, -⟩ := bind_ok.mp valid
  simpa using refuseIf_ok.mp fits

theorem eq_ownGrant (valid : validateEntry g = .ok ())
    (same : g.principal = (ownGrant agentId).principal) : g = ownGrant agentId := by
  have fits := fits_of_valid valid
  obtain ⟨kind, id, role⟩ := g
  simp only [Grant.principal, ownGrant, Prod.mk.injEq] at same fits ⊢
  obtain ⟨rfl, rfl⟩ := same
  simpa [PrincipalKind.allows] using fits

theorem insertGrants_cases (wrote : insertGrants id gs actor now db = .ok db') :
    (∀ g ∈ gs, validateEntry g = .ok ()) ∧ db'.ids = db.ids ∧ db'.own = db.own ∧
      db'.grants id = db.grants id ++ gs ∧ ∀ other, other ≠ id → db'.grants other = db.grants other := by
  unfold insertGrants at wrote
  obtain ⟨filled, ran, wrote⟩ := bind_ok.mp wrote
  cases wrote
  rw [ids_bumpRevision]
  refine foldlM_run (fun done (st : Db) => (∀ g ∈ done, validateEntry g = .ok ()) ∧
    st.ids = db.ids ∧ st.own = db.own ∧ st.grants id = db.grants id ++ done ∧
      ∀ other, other ≠ id → st.grants other = db.grants other)
    ⟨by simp, rfl, rfl, by simp, fun _ _ => rfl⟩ ?_ ran
  rintro done st g st' ⟨valid, ids, own, here, elsewhere⟩ one
  obtain ⟨_, entry, one⟩ := bind_ok.mp one
  obtain ⟨collections', own', -⟩ := insertGrant_cases one
  obtain ⟨here', elsewhere'⟩ := grants_insertGrant one
  refine ⟨?_, ?_, own'.trans own, ?_, fun other differ => ?_⟩
  · simpa [or_imp, forall_and] using ⟨valid, entry⟩
  · rw [← ids, Db.ids, Db.ids, collections']
  · rw [here', here, List.append_assoc]
  · exact (elsewhere' other differ).trans (elsewhere other differ)

theorem insertGrants_succeeds (actor : Text) (now : Millis) (known : id ∈ db.ids) (valid : ∀ g ∈ gs, validateEntry g = .ok ())
    (distinct : ((db.grants id ++ gs).map Grant.principal).Nodup) :
    ∃ db', insertGrants id gs actor now db = .ok db' := by
  suffices filled : ∃ db', gs.foldlM (fun db g => do
      validateEntry g
      db.insertGrant id g actor now) db = .ok db' by
    obtain ⟨filled, ran⟩ := filled
    exact ⟨_, bind_ok.mpr ⟨filled, ran, rfl⟩⟩
  induction gs generalizing db with
  | nil => exact ⟨db, rfl⟩
  | cons g more ih =>
    have fresh : g.principal ∉ (db.grants id).map Grant.principal := by
      intro taken
      rw [List.map_append, List.map_cons] at distinct
      exact List.disjoint_of_nodup_append distinct taken (List.mem_cons_self ..)
    obtain ⟨db₁, wrote⟩ := insertGrant_succeeds actor now known
      (fits_of_valid (valid g (List.mem_cons_self ..))) fresh
    obtain ⟨same, -, -⟩ := insertGrant_cases wrote
    have known₁ : id ∈ db₁.ids := by rwa [Db.ids, same]
    obtain ⟨filled, ran⟩ := ih known₁ (fun h later => valid h (List.mem_cons_of_mem g later))
      (by rwa [(grants_insertGrant wrote).1, List.append_assoc])
    refine ⟨filled, ?_⟩
    rw [List.foldlM_cons, bind_ok]
    exact ⟨db₁, bind_ok.mpr ⟨(), valid g (List.mem_cons_self ..), wrote⟩, ran⟩

theorem getAcl_ok {entries : List Grant × Int} (read : db.getAcl id = .ok entries) :
    entries.1.Perm (db.grants id) := by
  unfold Db.getAcl at read
  obtain ⟨c, -, read⟩ := bind_ok.mp read
  cases read
  exact List.perm_insertionSort _ _

theorem getAcl_succeeds (known : id ∈ db.ids) : ∃ entries, db.getAcl id = .ok entries := by
  obtain ⟨c, found⟩ := find_of_ids known
  exact ⟨_, bind_ok.mpr ⟨c, okOr_ok.mpr found, rfl⟩⟩

theorem createOwnIn_cases {new : NewOwn} {maxCollections : Nat} {draw : OwnDraw}
    (returned : createOwnIn new maxCollections draw db = .ok id db') : db'.ids = db.ids ++ [id] ∧
      db'.grants id = db.grants id ++ ⟨.user, new.createdBy, .owner⟩ :: defaultGrants new ∧
      (∀ other, other ≠ id → db'.grants other = db.grants other) ∧
      (∀ g ∈ defaultGrants new, validateEntry g = .ok ()) ∧
      ∃ own, own.agentId = new.agentId ∧ own.collectionId = id ∧ own.archivedGrants = none ∧
        db'.own.rows = db.own.rows ++ [own] := by
  unfold createOwnIn at returned
  obtain ⟨slug, -, returned⟩ := query_bind.mp returned
  obtain ⟨made, db₁, collection, returned⟩ := bind_returned.mp returned
  obtain ⟨db₂, inserted, returned⟩ := execute_bind.mp returned
  obtain ⟨db₃, granted, returned⟩ := execute_bind.mp returned
  obtain ⟨rfl, rfl⟩ := pure_returned.mp returned
  obtain ⟨ids₁, here₁, elsewhere₁, own₁⟩ := createCollectionIn_cases collection
  unfold insertOwn at inserted
  obtain ⟨_, -, inserted⟩ := bind_ok.mp inserted
  obtain ⟨_, -, inserted⟩ := bind_ok.mp inserted
  obtain ⟨rows, fresh, inserted⟩ := bind_ok.mp inserted
  cases inserted
  obtain ⟨valid, ids₃, own₃, here₃, elsewhere₃⟩ := insertGrants_cases granted
  refine ⟨ids₃.trans ids₁, ?_, fun other differ => ?_, valid, ?_⟩
  · rw [here₃]
    change db₁.grants made ++ defaultGrants new = _
    rw [here₁, List.append_assoc, List.singleton_append]
  · exact (elsewhere₃ other differ).trans (elsewhere₁ other differ)
  · have rows := (Table.insert_cases (okOr_ok.mp fresh)).2
    rw [own₁] at rows
    rw [own₃]
    refine ⟨_, ?_, ?_, ?_, rows⟩ <;> rfl

/-- A call of `create` finds an own collection, or makes one. -/
theorem after_create (new : NewOwn) (maxCollections : Nat) (draw : OwnDraw) (db : Db) :
    after (create new maxCollections draw) db = db ∨ getOwn new.agentId db = none ∧
        ∃ id, createOwnIn new maxCollections draw db = .ok id (after (create new maxCollections draw) db) := by
  have same : after (create new maxCollections draw) db = after (ensure new maxCollections draw) db := by
    refine after_bind_reads (fun made t => ?_) db
    cases made with
    | inl c => rfl
    | inr id => exact (after_bind_reads (fun _ _ => rfl) t).trans (after_query _ t)
  rw [same]
  obtain refused | ⟨made, ran⟩ := after_transaction _ db
  · exact .inl refused
  change after (ensure new maxCollections draw) db = db ∨ _
  obtain ⟨found, asked, ran⟩ := query_bind.mp ran
  cases asked
  cases known : getOwn new.agentId db with
  | some existing =>
    rw [known] at ran
    obtain ⟨c, -, ran⟩ := query_bind.mp ran
    exact .inl (pure_returned.mp ran).2.symm
  | none =>
    rw [known] at ran
    obtain ⟨id, t, ran, last⟩ := bind_returned.mp ran
    exact .inr ⟨rfl, id, (pure_returned.mp last).2 ▸ ran⟩

/-! ### Archiving -/

theorem deletePrincipals_cases (removed : List Grant) (db : Db) :
    (deletePrincipals id removed db).ids = db.ids ∧ (deletePrincipals id removed db).own = db.own ∧
      (deletePrincipals id removed db).grants id =
        (db.grants id).filter (fun g => !removed.any (·.principal == g.principal)) ∧
      ∀ other, other ≠ id → (deletePrincipals id removed db).grants other = db.grants other := by
  unfold deletePrincipals
  induction removed generalizing db with
  | nil => exact ⟨rfl, rfl, by simp, fun _ _ => rfl⟩
  | cons r more ih =>
    obtain ⟨ids, own, here, elsewhere⟩ := ih (db.deleteGrants id fun h => h.principal == r.principal)
    obtain ⟨here', elsewhere'⟩ := @grants_deleteGrants db id fun h => h.principal == r.principal
    refine ⟨ids, own, ?_, fun other differ => (elsewhere other differ).trans (elsewhere' other differ)⟩
    rw [List.foldl_cons, here, here', List.filter_filter]
    refine List.filter_congr fun g _ => ?_
    rw [List.any_cons, Bool.not_or, Bool.and_comm, BEq.comm (a := g.principal)]

theorem unique_principal {h : Grant} (left : g ∈ db.grants id) (right : h ∈ db.grants id)
    (same : g.principal = h.principal) : g = h :=
  List.inj_on_of_nodup_map (grants_distinct db id) left right same

/-- Among the grants of a collection, the removed ones are told by their principals. -/
theorem kept_iff_owner {removed : List Grant}
    (listed : removed.Perm ((db.grants id).filter (!·.isUserOwner))) (granted : g ∈ db.grants id) :
    (!removed.any (·.principal == g.principal)) = g.isUserOwner := by
  cases owner : g.isUserOwner with
  | true =>
    rw [Bool.not_eq_eq_eq_not, Bool.not_true, List.any_eq_false]
    intro r there same
    obtain ⟨granted', other⟩ := List.mem_filter.mp (listed.mem_iff.mp there)
    rw [unique_principal granted' granted (beq_iff_eq.mp same)] at other
    simp [owner] at other
  | false =>
    rw [Bool.not_eq_eq_eq_not, Bool.not_false, List.any_eq_true]
    refine ⟨g, listed.mem_iff.mpr (List.mem_filter.mpr ⟨granted, ?_⟩), beq_self_eq_true _⟩
    rw [owner, Bool.not_false]

structure Archives (serde : Serde) (agentId : Text) (now : Millis) (own : OwnCollection)
    (removed : List Grant) (db db' : Db) : Prop where
  found : getOwn agentId db = some own
  active : own.archivedAt = none
  removed_perm : removed.Perm ((db.grants own.collectionId).filter (!·.isUserOwner))
  ids : db'.ids = db.ids
  kept : db'.grants own.collectionId = (db.grants own.collectionId).filter Grant.isUserOwner
  elsewhere : ∀ other, other ≠ own.collectionId → db'.grants other = db.grants other
  row : db'.own = (setArchived agentId (some now) (some (grantsToJson serde removed)) db).own

theorem clean_archive : Clean (archive serde agentId now) := clean_transaction _

theorem archive_cases {result : Option Archived} (returned : archive serde agentId now db = .ok result db') :
    db' = db ∧ result = none ∨ ∃ own removed, result = some ⟨own.collectionId, removed⟩ ∧
      Archives serde agentId now own removed db db' := by
  unfold archive at returned
  rw [transaction_returned] at returned
  obtain ⟨found, asked, returned⟩ := query_bind.mp returned
  cases asked
  cases known : getOwn agentId db with
  | none =>
    rw [known] at returned
    obtain ⟨rfl, rfl⟩ := pure_returned.mp returned
    exact .inl ⟨rfl, rfl⟩
  | some own =>
    rw [known] at returned
    dsimp only at returned
    split at returned
    · obtain ⟨rfl, rfl⟩ := pure_returned.mp returned
      exact .inl ⟨rfl, rfl⟩
    rename_i active
    obtain ⟨entries, read, returned⟩ := query_bind.mp returned
    obtain ⟨db₁, deleted, returned⟩ := execute_bind.mp returned
    obtain ⟨db₂, bumped, returned⟩ := execute_bind.mp returned
    obtain ⟨db₃, wrote, returned⟩ := execute_bind.mp returned
    obtain ⟨rfl, rfl⟩ := pure_returned.mp returned
    cases deleted
    cases bumped
    cases wrote
    have listed := (getAcl_ok read).filter (!·.isUserOwner)
    obtain ⟨ids, rows, here, elsewhere⟩ :=
      @deletePrincipals_cases own.collectionId (entries.1.filter (!·.isUserOwner)) db
    refine .inr ⟨own, _, rfl, known, by simpa using active, listed, ?_, ?_, elsewhere, ?_⟩
    · exact ids_bumpRevision.trans ids
    · exact here.trans (List.filter_congr fun g granted => kept_iff_owner listed granted)
    · unfold setArchived Db.bumpRevision
      rw [rows]

/-! ### Restoring -/

structure Restores (serde : Serde) (agentId : Text) (own : OwnCollection) (added : List Grant)
    (db db' : Db) : Prop where
  found : getOwn agentId db = some own
  archived : own.archivedAt.isSome
  ids : db'.ids = db.ids
  grants : db'.grants own.collectionId = db.grants own.collectionId ++ added
  elsewhere : ∀ other, other ≠ own.collectionId → db'.grants other = db.grants other
  valid : ∀ g ∈ added, validateEntry g = .ok ()
  mem_added : ∀ g, g ∈ added ↔
    g ∈ merge [ownGrant agentId] (grantsFromJson serde own.archivedGrants) ∧
      g.principal ∉ (db.grants own.collectionId).map Grant.principal
  row : db'.own = (setArchived agentId none none db).own

theorem clean_restore : Clean (restore serde agentId actor now) := clean_transaction _

theorem restore_cases {result : Option (List Grant)}
    (returned : restore serde agentId actor now db = .ok result db') : db' = db ∧ result = none ∨
      ∃ own added, result = some added ∧ Restores serde agentId own added db db' := by
  unfold restore at returned
  rw [transaction_returned] at returned
  obtain ⟨found, asked, returned⟩ := query_bind.mp returned
  cases asked
  cases known : getOwn agentId db with
  | none =>
    rw [known] at returned
    obtain ⟨rfl, rfl⟩ := pure_returned.mp returned
    exact .inl ⟨rfl, rfl⟩
  | some own =>
    rw [known] at returned
    dsimp only at returned
    split at returned
    · obtain ⟨rfl, rfl⟩ := pure_returned.mp returned
      exact .inl ⟨rfl, rfl⟩
    rename_i archived
    obtain ⟨entries, read, returned⟩ := query_bind.mp returned
    obtain ⟨db₁, granted, returned⟩ := execute_bind.mp returned
    obtain ⟨db₂, wrote, returned⟩ := execute_bind.mp returned
    obtain ⟨rfl, rfl⟩ := pure_returned.mp returned
    cases wrote
    obtain ⟨valid, ids, rows, here, elsewhere⟩ := insertGrants_cases granted
    refine .inr ⟨own, _, rfl, known, ?_, ids, here, elsewhere, valid, fun g => ?_, ?_⟩
    · simpa [Option.isSome_iff_ne_none] using archived
    · have current := (getAcl_ok read).map Grant.principal
      rw [← current.mem_iff, List.mem_filter]
      simp
    · unfold setArchived
      rw [rows]

/-- An archived collection whose saved grants are valid can be restored. -/
theorem restore_succeeds (actor : Text) (now : Millis) (found : getOwn agentId db = some own) (archived : own.archivedAt.isSome)
    (known : own.collectionId ∈ db.ids) (self : validateEntry (ownGrant agentId) = .ok ())
    (saved : ∀ g ∈ grantsFromJson serde own.archivedGrants, validateEntry g = .ok ()) :
    ∃ added db', restore serde agentId actor now db = .ok (some added) db' := by
  obtain ⟨entries, read⟩ := getAcl_succeeds known
  have current := (getAcl_ok read).map Grant.principal
  let added := (merge [ownGrant agentId] (grantsFromJson serde own.archivedGrants)).filter
    fun g => !entries.1.any (·.principal == g.principal)
  have valid : ∀ g ∈ added, validateEntry g = .ok () := by
    intro g listed
    obtain own_ | old := mem_of_merge (List.mem_filter.mp listed).1
    · rwa [List.mem_singleton.mp own_]
    · exact saved g old
  have distinct : ((db.grants own.collectionId ++ added).map Grant.principal).Nodup := by
    rw [List.map_append, List.nodup_append']
    refine ⟨grants_distinct db _, ?_, ?_⟩
    · exact (merge_distinct (by simp)).sublist (List.filter_sublist.map _)
    · intro principal taken new
      obtain ⟨g, listed, rfl⟩ := List.mem_map.mp new
      obtain ⟨h, there, same⟩ := List.mem_map.mp (current.mem_iff.mpr taken)
      have apart := (List.mem_filter.mp listed).2
      simp only [Bool.not_eq_eq_eq_not, Bool.not_true, List.any_eq_false, beq_iff_eq] at apart
      exact apart h there same
  obtain ⟨db₁, granted⟩ := insertGrants_succeeds actor now known valid distinct
  refine ⟨added, setArchived agentId none none db₁, ?_⟩
  unfold restore
  rw [transaction_returned, query_bind]
  refine ⟨_, rfl, ?_⟩
  rw [found]
  dsimp only
  rw [if_neg (by simpa [Option.isSome_iff_ne_none] using archived), query_bind]
  refine ⟨entries, read, ?_⟩
  exact execute_bind.mpr ⟨db₁, granted, execute_bind.mpr ⟨_, rfl, rfl⟩⟩

end Spec

end DuDuClaw.Knowledge
