/-
# Knowledge.Grants -- grants through an employee's life

Collections are created, shared and deleted, and the own collections of employees are
created, archived and restored, in any order from an empty database.

* `Sound`: every collection has an owner, and what is granted or saved is valid.
* `sound_change`: each operation keeps it, whether it succeeds or not.
* `own_kept`: an archived row stays as it is while the grants of its collection do.
* `grants_sound`: the three laws of the grants, in every run.
-/
import DuDuClaw.Knowledge.Access
import DuDuClaw.Knowledge.AgentOwn
import DuDuClaw.Lib.Runs

namespace DuDuClaw.Knowledge

open DuDuClaw.Lib

inductive Change where
  | createCollection (new : NewCollection) (createdBy : Text) (maxCollections : Nat) (draw : Draw)
  | setAcl (id : Text) (entries : List Grant) (expectedRevision : Int) (actor : Text) (now : Millis)
  | create (new : NewOwn) (maxCollections : Nat) (draw : OwnDraw)
  | archive (agentId : Text) (now : Millis)
  | restore (agentId actor : Text) (now : Millis)
  | deleteCollection (id confirmName : Text)

variable (serde : Serde)

def change (db : Db) : Change → Db
  | .createCollection new createdBy maxCollections draw =>
    after (createCollection new createdBy maxCollections draw) db
  | .setAcl id entries expectedRevision actor now =>
    after (setAcl id entries expectedRevision actor now) db
  | .create new maxCollections draw => after (create new maxCollections draw) db
  | .archive agentId now => after (archive serde agentId now) db
  | .restore agentId actor now => after (restore serde agentId actor now) db
  | .deleteCollection id confirmName => after (deleteCollection id confirmName) db

inductive Changed (db : Db) : Change → Db → Prop
  | createCollection {new createdBy maxCollections draw id db'}
      (returned : createCollectionIn new createdBy maxCollections draw db = .ok id db') :
      Changed db (.createCollection new createdBy maxCollections draw) db'
  | setAcl {id entries expectedRevision actor now revision db'}
      (returned : setAcl id entries expectedRevision actor now db = .ok revision db') :
      Changed db (.setAcl id entries expectedRevision actor now) db'
  | create {new maxCollections draw id db'}
      (returned : createOwnIn new maxCollections draw db = .ok id db') :
      Changed db (.create new maxCollections draw) db'
  | archive {agentId now own removed db'} (archives : Archives serde agentId now own removed db db') :
      Changed db (.archive agentId now) db'
  | restore {agentId actor now own added db'} (restores : Restores serde agentId own added db db') :
      Changed db (.restore agentId actor now) db'
  | deleteCollection {id confirmName} :
      Changed db (.deleteCollection id confirmName) (db.dropCollection id)

theorem change_cases (db : Db) (c : Change) :
    change serde db c = db ∨ Changed serde db c (change serde db c) := by
  cases c with
  | createCollection new createdBy maxCollections draw =>
    simp only [change, createCollection, after_bind_reads fun id t => after_query _ t]
    exact (after_transaction _ db).imp_right fun ⟨id, returned⟩ => .createCollection returned
  | setAcl id entries expectedRevision actor now =>
    exact (clean_setAcl.after_cases db).imp_right fun ⟨revision, returned⟩ => .setAcl returned
  | create new maxCollections draw =>
    exact (after_create new maxCollections draw db).imp_right fun ⟨_, id, returned⟩ =>
      .create returned
  | archive agentId now =>
    obtain same | ⟨result, returned⟩ := clean_archive.after_cases db
    · exact .inl same
    · exact (archive_cases returned).imp And.left fun ⟨_, _, _, archives⟩ => .archive archives
  | restore agentId actor now =>
    obtain same | ⟨result, returned⟩ := clean_restore.after_cases db
    · exact .inl same
    · exact (restore_cases returned).imp And.left fun ⟨_, _, _, restores⟩ => .restore restores
  | deleteCollection id confirmName =>
    refine (clean_deleteCollection.after_cases db).imp_right fun ⟨u, returned⟩ => ?_
    rw [change, deleteCollection_cases returned]
    exact .deleteCollection

/-- Every collection has an owner, and what is granted or saved is valid. -/
structure Sound (db : Db) : Prop where
  owned : ∀ id ∈ db.ids, ∃ g ∈ db.grants id, g.isUserOwner
  valid : ∀ id, ∀ g ∈ db.grants id, g.isUserOwner ∨ validateEntry g = .ok ()
  held : ∀ own ∈ db.own.rows, own.collectionId ∈ db.ids ∧
    validateEntry (ownGrant own.agentId) = .ok ()
  saved : ∀ own ∈ db.own.rows, ∀ g ∈ grantsFromJson serde own.archivedGrants,
    validateEntry g = .ok ()

theorem sound_empty : Sound serde .empty :=
  ⟨by simp [Db.ids, Db.empty, Table.empty], by simp [Db.grants, Db.aclRows, Db.empty, Table.empty],
    by simp [Db.empty, Table.empty], by simp [Db.empty, Table.empty]⟩

section OneChange

variable {serde} {db db' : Db} {id agentId : Text} {own : OwnCollection}

variable {at_ : Option Millis} {text : Option Text}

variable {maxCollections : Nat} {now : Millis}

/-- Where one collection is written, the others need no further look. -/
theorem Sound.write (sound : Sound serde db) (ids : ∀ other ∈ db'.ids, other ∈ db.ids ∨ other = id)
    (elsewhere : ∀ other, other ≠ id → db'.grants other = db.grants other)
    (owned : id ∈ db'.ids → ∃ g ∈ db'.grants id, g.isUserOwner)
    (valid : ∀ g ∈ db'.grants id, g.isUserOwner ∨ validateEntry g = .ok ())
    (held : ∀ own ∈ db'.own.rows, own.collectionId ∈ db'.ids ∧ validateEntry (ownGrant own.agentId) = .ok ())
    (saved : ∀ own ∈ db'.own.rows, ∀ g ∈ grantsFromJson serde own.archivedGrants,
      validateEntry g = .ok ()) : Sound serde db' := by
  refine ⟨fun other known => ?_, fun other => ?_, held, saved⟩
  · by_cases here : other = id
    · exact here ▸ owned (here ▸ known)
    · rw [elsewhere other here]
      exact sound.owned other ((ids other known).resolve_right here)
  · by_cases here : other = id
    · exact here ▸ valid
    · rw [elsewhere other here]
      exact sound.valid other

theorem sound_createCollection (sound : Sound serde db) {new : NewCollection} {createdBy : Text}
    {draw : Draw}
    (returned : createCollectionIn new createdBy maxCollections draw db = .ok id db') : Sound serde db' := by
  obtain ⟨ids, here, elsewhere, own⟩ := createCollectionIn_cases returned
  have owner : (⟨.user, createdBy, .owner⟩ : Grant).isUserOwner := rfl
  refine sound.write (by simp [ids]) elsewhere (fun _ => ?_) (fun g listed => ?_) ?_ ?_
  · exact ⟨_, here ▸ List.mem_append_right _ (List.mem_singleton_self _), owner⟩
  · rw [here, List.mem_append] at listed
    obtain old | new := listed
    · exact sound.valid id g old
    · exact .inl (List.mem_singleton.mp new ▸ owner)
  · rw [own, ids]
    exact fun own listed => (sound.held own listed).imp_left (List.mem_append_left _)
  · rw [own]
    exact sound.saved

theorem sound_setAcl (sound : Sound serde db) {entries : List Grant}
    {expectedRevision revision : Int} {actor : Text}
    (returned : setAcl id entries expectedRevision actor now db = .ok revision db') : Sound serde db' := by
  obtain ⟨checked, c, -, -, -, -, here, elsewhere, own, ids⟩ := setAcl_cases returned
  obtain ⟨valid, -, g, listed, owner⟩ := checkEntries_ok.mp checked
  refine sound.write (by rw [ids]; exact fun _ => .inl) elsewhere (fun _ => ?_) ?_ ?_ ?_
  · exact ⟨g, by rwa [here], owner⟩
  · rw [here]
    exact fun g listed => .inr (valid g listed)
  · rw [own, ids]
    exact sound.held
  · rw [own]
    exact sound.saved

theorem ownGrant_mem_defaultGrants (new : NewOwn) : ownGrant new.agentId ∈ defaultGrants new := by
  refine List.mem_filter.mpr ⟨mem_merge_of_base (List.mem_singleton_self _), ?_⟩
  simp [ownGrant]

theorem sound_create (sound : Sound serde db) {new : NewOwn} {draw : OwnDraw}
    (returned : createOwnIn new maxCollections draw db = .ok id db') : Sound serde db' := by
  obtain ⟨ids, here, elsewhere, valid, own, agent, collection, active, rows⟩ := createOwnIn_cases returned
  have owner : (⟨.user, new.createdBy, .owner⟩ : Grant).isUserOwner := rfl
  have self := valid _ (ownGrant_mem_defaultGrants new)
  refine sound.write (by simp [ids]) elsewhere (fun _ => ?_) (fun g listed => ?_) ?_ ?_
  · exact ⟨_, here ▸ List.mem_append_right _ (List.mem_cons_self ..), owner⟩
  · rw [here, List.mem_append, List.mem_cons] at listed
    obtain old | rfl | new := listed
    · exact sound.valid id g old
    · exact .inl owner
    · exact .inr (valid g new)
  · rw [rows, ids]
    intro row listed
    obtain old | new := List.mem_append.mp listed
    · exact (sound.held row old).imp_left (List.mem_append_left _)
    · rw [List.mem_singleton.mp new, agent, collection]
      exact ⟨by simp, self⟩
  · rw [rows]
    intro row listed
    obtain old | new := List.mem_append.mp listed
    · exact sound.saved row old
    · rw [List.mem_singleton.mp new, active]
      simp [grantsFromJson]

theorem mem_setArchived {row : OwnCollection} (listed : row ∈ (setArchived agentId at_ text db).own.rows) :
    row ∈ db.own.rows ∨ ∃ old ∈ db.own.rows, row.agentId = old.agentId ∧
      row.collectionId = old.collectionId ∧ row.archivedGrants = text := by
  unfold setArchived at listed
  simp only [Table.mem_update] at listed
  obtain ⟨old, there, rfl⟩ := listed
  split
  · exact .inr ⟨old, there, rfl, rfl, rfl⟩
  · exact .inl there

/-- Setting the archived columns keeps the rows good, where the saved grants are. -/
theorem Sound.setArchived (sound : Sound serde db)
    (ids : db'.ids = db.ids) (row : db'.own = (setArchived agentId at_ text db).own)
    (good : ∀ g ∈ grantsFromJson serde text, validateEntry g = .ok ()) :
    (∀ own ∈ db'.own.rows, own.collectionId ∈ db'.ids ∧ validateEntry (ownGrant own.agentId) = .ok ()) ∧
    ∀ own ∈ db'.own.rows, ∀ g ∈ grantsFromJson serde own.archivedGrants, validateEntry g = .ok () := by
  rw [row, ids]
  constructor
  · intro own listed
    obtain same | ⟨old, there, agent, collection, -⟩ := mem_setArchived listed
    · exact sound.held own same
    · rw [agent, collection]
      exact sound.held old there
  · intro own listed
    obtain same | ⟨old, -, -, -, saved⟩ := mem_setArchived listed
    · exact sound.saved own same
    · rwa [saved]

theorem sound_archive (roundTrip : serde.RoundTrip) (sound : Sound serde db)
    {removed : List Grant} (archives : Archives serde agentId now own removed db db') : Sound serde db' := by
  have good : ∀ g ∈ grantsFromJson serde (some (grantsToJson serde removed)), validateEntry g = .ok () := by
    rw [grantsFromJson_toJson roundTrip]
    intro g listed
    obtain ⟨granted, other⟩ := List.mem_filter.mp (archives.removed_perm.mem_iff.mp listed)
    exact (sound.valid own.collectionId g granted).resolve_left (by simpa using other)
  obtain ⟨held, saved⟩ := sound.setArchived archives.ids archives.row good
  have known := (sound.held own (getOwn_mem archives.found).1).1
  obtain ⟨g, granted, owner⟩ := sound.owned _ known
  refine sound.write (by rw [archives.ids]; exact fun _ => .inl) archives.elsewhere ?_ ?_ held saved
  · exact fun _ => ⟨g, by rw [archives.kept]; exact List.mem_filter.mpr ⟨granted, owner⟩, owner⟩
  · rw [archives.kept]
    exact fun g listed => .inl (List.mem_filter.mp listed).2

theorem sound_restore (sound : Sound serde db) {added : List Grant}
    (restores : Restores serde agentId own added db db') : Sound serde db' := by
  obtain ⟨held, saved⟩ := sound.setArchived restores.ids restores.row (by simp [grantsFromJson])
  have known := (sound.held own (getOwn_mem restores.found).1).1
  obtain ⟨g, granted, owner⟩ := sound.owned _ known
  refine sound.write (by rw [restores.ids]; exact fun _ => .inl) restores.elsewhere ?_ ?_ held saved
  · exact fun _ => ⟨g, by rw [restores.grants]; exact List.mem_append_left _ granted, owner⟩
  · rw [restores.grants]
    intro g listed
    obtain old | new := List.mem_append.mp listed
    · exact sound.valid _ g old
    · exact .inr (restores.valid g new)

theorem sound_dropCollection (sound : Sound serde db) (id : Text) : Sound serde (db.dropCollection id) := by
  refine sound.write (fun other known => .inl (mem_ids_dropCollection.mp known).1)
    (fun other (differ : other ≠ id) => grants_dropCollection.trans (if_neg differ)) (fun known => ?_) ?_ ?_ ?_
  · exact absurd rfl (mem_ids_dropCollection.mp known).2
  · simp [grants_dropCollection]
  · intro own listed
    obtain ⟨old, other⟩ := Table.mem_deleteWhere.mp listed
    refine (sound.held own old).imp_left fun known => mem_ids_dropCollection.mpr ⟨known, ?_⟩
    simpa using other
  · intro own listed
    exact sound.saved own (Table.mem_deleteWhere.mp listed).1

theorem sound_change (roundTrip : serde.RoundTrip) (sound : Sound serde db) (c : Change) :
    Sound serde (change serde db c) := by
  obtain same | changed := change_cases serde db c
  · rwa [same]
  generalize change serde db c = db' at changed ⊢
  cases changed with
  | createCollection returned => exact sound_createCollection sound returned
  | setAcl returned => exact sound_setAcl sound returned
  | create returned => exact sound_create sound returned
  | archive archives => exact sound_archive roundTrip sound archives
  | restore restores => exact sound_restore sound restores
  | deleteCollection => exact sound_dropCollection sound _

theorem getOwn_setArchived {other : Text} (found : getOwn agentId db = some own) (differ : agentId ≠ other)
    (row : db'.own = (setArchived other at_ text db).own) : getOwn agentId db' = some own := by
  unfold getOwn at found ⊢
  rw [row, setArchived, Table.find?_update, found, Option.map_some]
  have named : own.agentId = agentId := by simpa using List.find?_some found
  rw [if_neg (named ▸ differ)]

/-- An archived row stays as it is while the grants of its collection do. -/
theorem own_kept (sound : Sound serde db) (found : getOwn agentId db = some own)
    (archived : own.archivedAt.isSome) (owners : ∀ g ∈ db.grants own.collectionId, g.isUserOwner)
    {c : Change} (same : (change serde db c).grants own.collectionId = db.grants own.collectionId) :
    getOwn agentId (change serde db c) = some own := by
  obtain ⟨listed, named⟩ := getOwn_mem found
  obtain kept | changed := change_cases serde db c
  · rwa [kept]
  generalize change serde db c = db' at changed same ⊢
  cases changed with
  | createCollection returned =>
    rwa [getOwn, (createCollectionIn_cases returned).2.2.2]
  | setAcl returned =>
    obtain ⟨-, c, -, -, -, -, -, -, rows, -⟩ := setAcl_cases returned
    rwa [getOwn, rows]
  | create returned =>
    obtain ⟨-, -, -, -, new_, -, -, -, rows⟩ := createOwnIn_cases returned
    unfold getOwn at found ⊢
    rw [rows, List.find?_append, found, Option.some_or]
  | archive archives =>
    refine getOwn_setArchived found ?_ archives.row
    rintro rfl
    cases archives.found.symm.trans found
    simp [archives.active] at archived
  | restore restores =>
    refine getOwn_setArchived found ?_ restores.row
    rintro rfl
    -- Restoring would add the employee's own grant.
    cases restores.found.symm.trans found
    rw [restores.grants, List.append_right_eq_self] at same
    have self := (restores.mem_added (ownGrant agentId)).mpr
      ⟨mem_merge_of_base (List.mem_singleton_self _), ownGrant_fresh owners⟩
    simp [same] at self
  | deleteCollection =>
    rw [grants_dropCollection] at same
    split at same
    · obtain ⟨g, granted, -⟩ := sound.owned _ (sound.held own listed).1
      simp [← same] at granted
    · rename_i differ
      rw [← named]
      exact getOwn_of_mem (Table.mem_deleteWhere.mpr ⟨listed, by simpa using differ⟩)

end OneChange

/-! ## Runs -/

/-- The laws of the grants in the runs of some changes. -/
structure GrantsSound (changes : List Change) : Prop where
  owned : ∀ id ∈ (run (change serde) .empty changes).ids,
    ∃ g ∈ (run (change serde) .empty changes).grants id, g.isUserOwner
  single : ∀ id, (((run (change serde) .empty changes).grants id).map Grant.principal).Nodup
  hidden : ∀ own ∈ (run (change serde) .empty changes).own.rows, own.archivedAt.isSome →
    ∀ agent : AgentCtx, agent.agentId = own.agentId →
      (∀ human narrowing, own.collectionId ∉ (effectiveCollections human (some agent) narrowing
        (run (change serde) .empty changes)).ids) ∧
      own.collectionId ∉ (agentSideCollections agent (run (change serde) .empty changes)).ids
  restored : ∀ front mid back agentId actor now now' archived db,
    changes = front ++ .archive agentId now :: (mid ++ .restore agentId actor now' :: back) →
    archive serde agentId now (run (change serde) .empty front) = .ok (some archived) db →
    (∀ m₁ m₂, mid = m₁ ++ m₂ →
      (run (change serde) db m₁).grants archived.collectionId = db.grants archived.collectionId) →
    ∃ added db', restore serde agentId actor now' (run (change serde) db mid) = .ok (some added) db' ∧
      ∀ g, g ∈ db'.grants archived.collectionId ↔
        g ∈ (run (change serde) .empty front).grants archived.collectionId ∨ g = ownGrant agentId

section Runs

variable {serde}

theorem sound_run (roundTrip : serde.RoundTrip) {db : Db} (sound : Sound serde db)
    (changes : List Change) : Sound serde (run (change serde) db changes) :=
  run_invariant (Sound serde) (fun _ c sound _ => sound_change roundTrip sound c) sound
    (obeys_true db changes)

/-- Who is an owner, or is added back, had a grant before or is the employee. -/
theorem mem_owners_or_added {db : Db} (sound : Sound serde db) {id agentId : Text}
    {removed added : List Grant} (listed : removed.Perm ((db.grants id).filter (!·.isUserOwner)))
    (mem_added : ∀ g, g ∈ added ↔ g ∈ merge [ownGrant agentId] removed ∧
      g.principal ∉ ((db.grants id).filter Grant.isUserOwner).map Grant.principal) (g : Grant) :
    g ∈ (db.grants id).filter Grant.isUserOwner ++ added ↔ g ∈ db.grants id ∨ g = ownGrant agentId := by
  have mem_removed : ∀ h, h ∈ removed ↔ h ∈ db.grants id ∧ h.isUserOwner = false := by
    intro h
    rw [listed.mem_iff, List.mem_filter, Bool.not_eq_eq_eq_not, Bool.not_true]
  rw [List.mem_append, List.mem_filter, mem_added]
  constructor
  · rintro (⟨granted, -⟩ | ⟨merged, -⟩)
    · exact .inl granted
    · obtain self | old := mem_of_merge merged
      · exact .inr (List.mem_singleton.mp self)
      · exact .inl ((mem_removed g).mp old).1
  · rintro (granted | rfl)
    · cases owner : g.isUserOwner with
      | true => exact .inl ⟨granted, rfl⟩
      | false =>
        refine .inr ⟨?_, fun taken => ?_⟩
        · have again : g.principal ∈ (merge [ownGrant agentId] removed).map Grant.principal :=
            principal_mem_merge ((mem_removed g).mpr ⟨granted, owner⟩)
          obtain ⟨h, merged, same⟩ := List.mem_map.mp again
          obtain self | old := mem_of_merge merged
          · rw [List.mem_singleton.mp self] at same merged
            have valid := (sound.valid id g granted).resolve_left (by simp [owner])
            rwa [eq_ownGrant valid same.symm]
          · rwa [← unique_principal ((mem_removed h).mp old).1 granted same]
        · obtain ⟨h, kept, same⟩ := List.mem_map.mp taken
          obtain ⟨granted', owner'⟩ := List.mem_filter.mp kept
          rw [unique_principal granted' granted same, owner] at owner'
          cases owner'
    · refine .inr ⟨mem_merge_of_base (List.mem_singleton_self _), ownGrant_fresh ?_⟩
      exact fun h kept => (List.mem_filter.mp kept).2

/-- Where the grants stay as archiving left them, restoring brings back what it removed. -/
theorem restore_after_archive (roundTrip : serde.RoundTrip) {db db₁ : Db} (sound : Sound serde db)
    {agentId actor : Text} {now now' : Millis} {archived : Archived} {mid : List Change}
    (returned : archive serde agentId now db = .ok (some archived) db₁) (constant : ∀ m₁ m₂, mid = m₁ ++ m₂ →
      (run (change serde) db₁ m₁).grants archived.collectionId = db₁.grants archived.collectionId) :
    ∃ added db', restore serde agentId actor now' (run (change serde) db₁ mid) = .ok (some added) db' ∧
      ∀ g, g ∈ db'.grants archived.collectionId ↔
        g ∈ db.grants archived.collectionId ∨ g = ownGrant agentId := by
  obtain ⟨-, impossible⟩ | ⟨own, removed, same, archives⟩ := archive_cases returned
  · cases impossible
  cases same
  dsimp only at constant ⊢
  let row : OwnCollection :=
    { own with archivedAt := some now, archivedGrants := some (grantsToJson serde removed) }
  have named : own.agentId = agentId := (getOwn_mem archives.found).2
  have found : getOwn agentId db₁ = some row := by
    have before := archives.found
    unfold getOwn at before ⊢
    rw [archives.row, setArchived, Table.find?_update, before, Option.map_some, if_pos named]
  have owners : ∀ g ∈ db₁.grants own.collectionId, g.isUserOwner := by
    rw [archives.kept]
    exact fun g listed => (List.mem_filter.mp listed).2
  have obeys : Obeys (change serde) (fun t c =>
      (change serde t c).grants own.collectionId = db₁.grants own.collectionId) db₁ mid := by
    refine obeys_iff.mpr fun front c back split => ?_
    have still := constant (front ++ [c]) back (by rw [split, List.append_assoc]; rfl)
    rwa [run_append] at still
  obtain ⟨sound₂, found₂, grants₂⟩ := run_invariant
    (fun t => Sound serde t ∧ getOwn agentId t = some row ∧
      t.grants own.collectionId = db₁.grants own.collectionId)
    (fun t c ⟨sound, found, grants⟩ still => ⟨sound_change roundTrip sound c,
      own_kept sound found rfl (grants ▸ owners) (still.trans grants.symm), still⟩)
    ⟨sound_archive roundTrip sound archives, found, rfl⟩ obeys
  have listed := (getOwn_mem found₂).1
  obtain ⟨known, self⟩ := sound₂.held row listed
  have self : validateEntry (ownGrant agentId) = .ok () := by rwa [← named]
  obtain ⟨added, db', ran⟩ := restore_succeeds actor now' found₂ rfl known self
    (sound₂.saved row listed)
  refine ⟨added, db', ran, fun g => ?_⟩
  obtain ⟨-, impossible⟩ | ⟨own', added', same, restores⟩ := restore_cases ran
  · cases impossible
  cases same
  cases restores.found.symm.trans found₂
  have mem_added := restores.mem_added
  rw [grantsFromJson_toJson roundTrip] at mem_added
  change ∀ g, g ∈ added ↔ _ ∧ g.principal ∉
    ((run (change serde) db₁ mid).grants own.collectionId).map Grant.principal at mem_added
  rw [grants₂, archives.kept] at mem_added
  rw [restores.grants]
  change g ∈ (run (change serde) db₁ mid).grants own.collectionId ++ added ↔ _
  rw [grants₂, archives.kept]
  exact mem_owners_or_added sound archives.removed_perm mem_added g

theorem grants_sound (serde : Serde) (roundTrip : serde.RoundTrip) (changes : List Change) :
    GrantsSound serde changes := by
  have sound := sound_run roundTrip (sound_empty serde) changes
  refine ⟨sound.owned, grants_distinct _, ?_, ?_⟩
  · intro own listed archived agent named
    have hidden := not_agentOk_of_archived listed named.symm archived
    exact ⟨fun human narrowing allowed => hidden (agentOk_of_effective allowed),
      fun allowed => hidden (agentOk_of_agentSide allowed)⟩
  · rintro front mid back agentId actor now now' archived db - returned constant
    exact restore_after_archive roundTrip (sound_run roundTrip (sound_empty serde) front) returned
      constant

end Runs

/-- An employee gets a collection, is archived while a person is let in, and comes back. -/
def employeeLife : List Change :=
  [.create ⟨"bot".toList, "Bot".toList, none, true, "ann".toList, [⟨.user, "bob".toList, .viewer⟩]⟩ 5
      ⟨⟨"1".toList, [], 0⟩, fun _ => [], 0, 0⟩,
    .archive "bot".toList 1,
    .setAcl "col_1".toList [⟨.user, "ann".toList, .owner⟩, ⟨.agent, "bot".toList, .viewer⟩] 2
      "ann".toList 2,
    .restore "bot".toList "ann".toList 3]

theorem grants_sound_employeeLife : GrantsSound Serde.compact employeeLife :=
  grants_sound Serde.compact compact_roundTrip employeeLife

end DuDuClaw.Knowledge
