/-
# Knowledge.Edits -- edits by several clients

Clients load a collection or its grants and save them later, each with the token of its
last load: `updated_at` for the fields, `acl_revision` for the grants.  An update is two
statements, and anything may happen between them.

* `version_step`: what a step does to the two tokens of a collection.
* `grants_kept`: no save of grants overwrites another, in any run.
* `edits_kept`: no update overwrites another commit, in a run whose commits renew the timestamp.
-/
import DuDuClaw.Knowledge.Collections
import DuDuClaw.Lib.Runs

namespace DuDuClaw.Knowledge

open DuDuClaw.Lib

abbrev Client := Nat

structure PendingUpdate where
  id : Text
  edit : Edit
  expectedUpdatedAt : Millis

/-- The database, and what each client has loaded and is doing. -/
structure Desk where
  db : Db
  loadedAt : Client → Text → Option Millis
  loadedRevision : Client → Text → Option Int
  pending : Client → Option PendingUpdate

inductive Event where
  | loadCollection (client : Client) (id : Text)
  | loadAcl (client : Client) (id : Text)
  | beginUpdate (client : Client) (id : Text) (patch : CollectionPatch)
  | commitUpdate (client : Client) (now : Millis)
  | setAcl (client : Client) (id : Text) (entries : List Grant) (actor : Text) (now : Millis)

/-- A client does nothing else while it is between the statements of an update. -/
def Event.busy (s : Desk) : Event → Bool
  | .loadCollection client _ | .loadAcl client _ | .beginUpdate client _ _
  | .setAcl client _ _ _ _ => (s.pending client).isSome
  | .commitUpdate _ _ => false

def act (s : Desk) : Event → Desk
  | .loadCollection client id =>
    let loaded := Function.update (s.loadedAt client) id ((s.db.find id).map Collection.updatedAt)
    { s with loadedAt := Function.update s.loadedAt client loaded }
  | .loadAcl client id =>
    let loaded :=
      Function.update (s.loadedRevision client) id ((s.db.find id).map Collection.aclRevision)
    { s with loadedRevision := Function.update s.loadedRevision client loaded }
  | .beginUpdate client id patch =>
    match s.loadedAt client id with
    | none => s
    | some token =>
      match readEdit id patch token s.db with
      | .ok edit =>
        { s with pending := Function.update s.pending client (some ⟨id, edit, token⟩) }
      | .error _ => s
  | .commitUpdate client now =>
    match s.pending client with
    | none => s
    | some p =>
      { s with
        db := (writeEdit p.id p.edit p.expectedUpdatedAt now s.db).toOption.getD s.db
        pending := Function.update s.pending client none }
  | .setAcl client id entries actor now =>
    match s.loadedRevision client id with
    | none => s
    | some token => { s with db := after (setAcl id entries token actor now) s.db }

def step (s : Desk) (e : Event) : Desk := if e.busy s then s else act s e

/-! ## Commits -/

/-- The event is the successful end of an update of the collection by the client. -/
def Edits (s : Desk) (e : Event) (client : Client) (id : Text) : Prop :=
  ∃ now p, e = .commitUpdate client now ∧ s.pending client = some p ∧ p.id = id ∧
    ∃ db, writeEdit id p.edit p.expectedUpdatedAt now s.db = .ok db

/-- The event is a successful save of the collection's grants by the client. -/
def Shares (s : Desk) (e : Event) (client : Client) (id : Text) : Prop :=
  ∃ entries actor now token revision db, e = .setAcl client id entries actor now ∧
    s.pending client = none ∧ s.loadedRevision client id = some token ∧
    setAcl id entries token actor now s.db = .ok revision db

/-- Somebody commits an update or a save of grants. -/
def Commits (s : Desk) (e : Event) (id : Text) : Prop :=
  ∃ client, Edits s e client id ∨ Shares s e client id

def LoadsCollection (s : Desk) (e : Event) (client : Client) (id : Text) : Prop :=
  e = .loadCollection client id ∧ s.pending client = none

def LoadsAcl (s : Desk) (e : Event) (client : Client) (id : Text) : Prop :=
  e = .loadAcl client id ∧ s.pending client = none

/-- Between a load and the commit that relies on it nothing else was committed. -/
structure NoLostEdit (s : Desk) (events : List Event) : Prop where
  edits : ∀ front a mid b back client id, events = front ++ a :: (mid ++ b :: back) →
    LoadsCollection (run step s front) a client id →
    (∀ m₁ x m₂, mid = m₁ ++ x :: m₂ →
      ¬LoadsCollection (run step s (front ++ a :: m₁)) x client id) →
    Edits (run step s (front ++ a :: mid)) b client id →
    ∀ m₁ x m₂, mid = m₁ ++ x :: m₂ → ¬Commits (run step s (front ++ a :: m₁)) x id
  grants : ∀ front a mid b back client id, events = front ++ a :: (mid ++ b :: back) →
    LoadsAcl (run step s front) a client id →
    (∀ m₁ x m₂, mid = m₁ ++ x :: m₂ → ¬LoadsAcl (run step s (front ++ a :: m₁)) x client id) →
    Shares (run step s (front ++ a :: mid)) b client id →
    ∀ m₁ x m₂, mid = m₁ ++ x :: m₂ → ∀ other,
      ¬Shares (run step s (front ++ a :: m₁)) x other id

/-- The reading of the clock that an event stamps its row with. -/
def Event.now : Event → Option Millis
  | .commitUpdate _ now | .setAcl _ _ _ _ now => some now
  | _ => none

/-- An update reads a clock later than its token, and a save with the current revision one
later than the timestamp it replaces. -/
def Renews (s : Desk) : Event → Prop
  | .commitUpdate client now => ∀ p ∈ s.pending client, p.expectedUpdatedAt < now
  | .setAcl client id _ _ now =>
    ∀ c ∈ s.db.find id, s.loadedRevision client id = some c.aclRevision → c.updatedAt < now
  | _ => True

instance (s : Desk) (e : Event) : Decidable (Renews s e) :=
  match e with
  | .commitUpdate client now =>
    inferInstanceAs (Decidable (∀ p ∈ s.pending client, p.expectedUpdatedAt < now))
  | .setAcl client id _ _ now =>
    inferInstanceAs (Decidable (∀ c ∈ s.db.find id,
      s.loadedRevision client id = some c.aclRevision → c.updatedAt < now))
  | .loadCollection _ _ | .loadAcl _ _ | .beginUpdate _ _ _ => inferInstanceAs (Decidable True)

section OneStep

variable {s : Desk} {e : Event} {client : Client} {id : Text} {c : Collection}

theorem busy_of_commits (commits : Commits s e id) : e.busy s = false := by
  obtain ⟨client, ⟨now, p, rfl, -⟩ | ⟨_, _, _, _, _, _, rfl, free, -⟩⟩ := commits
  · rfl
  · simp [Event.busy, free]

theorem step_free (free : e.busy s = false) : step s e = act s e :=
  if_neg (by simp [free])

/-- What a step does to a collection: nothing, or a commit of one of the two kinds. -/
def Moves (s : Desk) (e : Event) (id : Text) (c c' : Collection) : Prop :=
  c' = c ∧ ¬Commits s e id ∨
    (∃ client, Edits s e client id) ∧ e.now = some c'.updatedAt ∧ c'.aclRevision = c.aclRevision ∨
    (∃ client, Shares s e client id) ∧ e.now = some c'.updatedAt ∧
      c'.aclRevision = c.aclRevision + 1

theorem commits_commitUpdate {now : Millis} : Commits s (.commitUpdate client now) id ↔
    ∃ p, s.pending client = some p ∧ p.id = id ∧
      ∃ db, writeEdit id p.edit p.expectedUpdatedAt now s.db = .ok db := by
  constructor
  · rintro ⟨_, ⟨_, p, same, wrote⟩ | ⟨_, _, _, _, _, _, same, -⟩⟩ <;> cases same
    exact ⟨p, wrote⟩
  · rintro ⟨p, wrote⟩
    exact ⟨client, .inl ⟨now, p, rfl, wrote⟩⟩

theorem commitUpdate_moves {now : Millis} (found : s.db.find id = some c) :
    ∃ c', (act s (.commitUpdate client now)).db.find id = some c' ∧
      Moves s (.commitUpdate client now) id c c' := by
  unfold act Moves
  dsimp only
  rw [commits_commitUpdate]
  cases begun : s.pending client with
  | none => exact ⟨c, found, .inl ⟨rfl, by simp⟩⟩
  | some p =>
    dsimp only
    cases wrote : writeEdit p.id p.edit p.expectedUpdatedAt now s.db with
    | error e =>
      refine ⟨c, found, .inl ⟨rfl, ?_⟩⟩
      rintro ⟨_, same, rfl, db, again⟩
      cases same
      simp [wrote] at again
    | ok db' =>
      obtain ⟨old, there, -, here, elsewhere, -⟩ := writeEdit_cases wrote
      by_cases same : p.id = id
      · subst same
        cases there.symm.trans found
        exact ⟨_, here, .inr (.inl ⟨⟨client, now, p, rfl, begun, rfl, db', wrote⟩, rfl, rfl⟩)⟩
      refine ⟨c, (elsewhere id (Ne.symm same)).trans found, .inl ⟨rfl, ?_⟩⟩
      rintro ⟨_, again, named, -⟩
      cases again
      exact same named

theorem setAcl_moves {other actor : Text} {entries : List Grant} {now : Millis}
    (free : s.pending client = none) (found : s.db.find id = some c) :
    ∃ c', (act s (.setAcl client other entries actor now)).db.find id = some c' ∧
      Moves s (.setAcl client other entries actor now) id c c' := by
  have quiet : (∀ token revision db, s.loadedRevision client id = some token → other = id →
      setAcl id entries token actor now s.db ≠ .ok revision db) →
      ¬Commits s (.setAcl client other entries actor now) id := by
    rintro never ⟨_, ⟨_, _, same, -⟩ | ⟨_, _, _, token, revision, db, same, -, loaded, wrote⟩⟩ <;>
      cases same
    exact never token revision db loaded rfl wrote
  unfold act
  dsimp only
  cases loaded : s.loadedRevision client other with
  | none =>
    refine ⟨c, found, .inl ⟨rfl, quiet ?_⟩⟩
    rintro token revision db held rfl
    simp [loaded] at held
  | some token =>
    dsimp only [after]
    cases ran : setAcl other entries token actor now s.db with
    | error e db' =>
      refine ⟨c, ?_, .inl ⟨rfl, quiet ?_⟩⟩
      · dsimp only
        rwa [clean_setAcl _ _ _ ran]
      · rintro again revision db held rfl
        cases loaded.symm.trans held
        simp [ran]
    | ok revision db' =>
      obtain ⟨-, old, there, -, here, elsewhere, -⟩ := setAcl_cases ran
      by_cases same : other = id
      · subst same
        cases there.symm.trans found
        refine ⟨_, here, .inr (.inr ⟨⟨client, ?_⟩, rfl, rfl⟩)⟩
        exact ⟨entries, actor, now, token, revision, db', rfl, free, loaded, ran⟩
      · refine ⟨c, (elsewhere id (Ne.symm same)).trans found, .inl ⟨rfl, quiet ?_⟩⟩
        exact fun _ _ _ _ named => absurd named same

theorem version_step (found : s.db.find id = some c) :
    ∃ c', (step s e).db.find id = some c' ∧ Moves s e id c c' := by
  cases busy : e.busy s with
  | true =>
    rw [step, if_pos busy]
    refine ⟨c, found, .inl ⟨rfl, fun commits => ?_⟩⟩
    simp [busy_of_commits commits] at busy
  | false =>
    rw [step_free busy]
    cases e with
    | loadCollection client other | loadAcl client other =>
      refine ⟨c, found, .inl ⟨rfl, ?_⟩⟩
      rintro ⟨_, ⟨_, _, same, -⟩ | ⟨_, _, _, _, _, _, same, -⟩⟩ <;> cases same
    | beginUpdate client other patch =>
      refine ⟨c, ?_, .inl ⟨rfl, ?_⟩⟩
      · unfold act
        dsimp only
        split
        · exact found
        · split <;> exact found
      · rintro ⟨_, ⟨_, _, same, -⟩ | ⟨_, _, _, _, _, _, same, -⟩⟩ <;> cases same
    | commitUpdate client now => exact commitUpdate_moves found
    | setAcl client other entries actor now =>
      exact setAcl_moves (by simpa [Event.busy] using busy) found

theorem revision_grows (found : s.db.find id = some c) :
    ∃ c', (step s e).db.find id = some c' ∧ c.aclRevision ≤ c'.aclRevision ∧
      ((∃ other, Shares s e other id) → c.aclRevision < c'.aclRevision) := by
  obtain ⟨c', after, moved⟩ := version_step (e := e) found
  refine ⟨c', after, ?_⟩
  obtain ⟨rfl, quiet⟩ | ⟨⟨other, now, p, rfl, -⟩, -, same⟩ | ⟨-, -, next⟩ := moved
  · exact ⟨Int.le_refl _, fun ⟨other, shares⟩ => absurd ⟨other, .inr shares⟩ quiet⟩
  · refine ⟨Int.le_of_eq same.symm, ?_⟩
    rintro ⟨_, _, _, _, _, _, _, shares, -⟩
    cases shares
  · exact ⟨by omega, fun _ => by omega⟩

theorem updatedAt_grows (renews : Renews s e) (found : s.db.find id = some c) :
    ∃ c', (step s e).db.find id = some c' ∧ c.updatedAt ≤ c'.updatedAt ∧
      (Commits s e id → c.updatedAt < c'.updatedAt) := by
  obtain ⟨c', after, moved⟩ := version_step (e := e) found
  refine ⟨c', after, ?_⟩
  obtain ⟨rfl, quiet⟩ | ⟨⟨other, now, p, rfl, begun, named, db, wrote⟩, reads, -⟩ |
    ⟨⟨other, entries, actor, now, token, revision, db, rfl, -, held, wrote⟩, reads, -⟩ := moved
  · exact ⟨Int.le_refl _, fun commits => absurd commits quiet⟩
  · obtain ⟨old, there, current, -⟩ := writeEdit_cases wrote
    cases there.symm.trans found
    have later : p.expectedUpdatedAt < now := renews p begun
    rw [← current, Option.some.inj reads] at later
    exact ⟨Int.le_of_lt later, fun _ => later⟩
  obtain ⟨-, old, there, current, -⟩ := setAcl_cases wrote
  cases there.symm.trans found
  have later : c.updatedAt < now := renews c found (current ▸ held)
  rw [Option.some.inj reads] at later
  exact ⟨Int.le_of_lt later, fun _ => later⟩

/-! ### The tokens of a client -/

/-- What a client has loaded of a collection, and the update it has begun with that. -/
structure Holds (client : Client) (id : Text) (token : Option Millis) (s : Desk) : Prop where
  loaded : s.loadedAt client id = token
  begun : ∀ p, s.pending client = some p → p.id = id → token = some p.expectedUpdatedAt

theorem holds_load (loads : LoadsCollection s e client id) :
    Holds client id ((s.db.find id).map Collection.updatedAt) (step s e) := by
  obtain ⟨rfl, free⟩ := loads
  rw [step_free (by simp [Event.busy, free])]
  exact ⟨by simp [act], by simp [act, free]⟩

theorem holds_step {token : Option Millis} (holds : Holds client id token s)
    (quiet : ¬LoadsCollection s e client id) : Holds client id token (step s e) := by
  cases busy : e.busy s with
  | true =>
    rw [step, if_pos busy]
    exact holds
  | false =>
    rw [step_free busy]
    obtain ⟨loaded, begun⟩ := holds
    cases e with
    | loadCollection other key =>
      refine ⟨?_, begun⟩
      have free : s.pending other = none := by simpa [Event.busy] using busy
      by_cases self : client = other
      · subst self
        have differ : id ≠ key := fun same => quiet (same ▸ ⟨rfl, free⟩)
        simp [act, differ, loaded]
      · simp [act, self, loaded]
    | loadAcl other key => exact ⟨loaded, begun⟩
    | beginUpdate other key patch =>
      unfold act
      dsimp only
      split
      · exact ⟨loaded, begun⟩
      rename_i held
      split
      · refine ⟨loaded, fun p pending named => ?_⟩
        by_cases self : client = other
        · subst self
          simp only [Function.update_self, Option.some.injEq] at pending
          subst pending named
          exact loaded.symm.trans held
        · exact begun p (by simpa [self] using pending) named
      · exact ⟨loaded, begun⟩
    | commitUpdate other now =>
      unfold act
      dsimp only
      split
      · exact ⟨loaded, begun⟩
      refine ⟨loaded, fun p pending named => ?_⟩
      by_cases self : client = other
      · simp [self] at pending
      · exact begun p (by simpa [self] using pending) named
    | setAcl other key entries actor now =>
      unfold act
      dsimp only
      split <;> exact ⟨loaded, begun⟩

theorem revision_load (loads : LoadsAcl s e client id) :
    (step s e).loadedRevision client id = (s.db.find id).map Collection.aclRevision := by
  obtain ⟨rfl, free⟩ := loads
  rw [step_free (by simp [Event.busy, free])]
  simp [act]

theorem revision_step (quiet : ¬LoadsAcl s e client id) :
    (step s e).loadedRevision client id = s.loadedRevision client id := by
  cases busy : e.busy s with
  | true => rw [step, if_pos busy]
  | false =>
    rw [step_free busy]
    cases e with
    | loadAcl other key =>
      have free : s.pending other = none := by simpa [Event.busy] using busy
      by_cases self : client = other
      · subst self
        have differ : id ≠ key := fun same => quiet (same ▸ ⟨rfl, free⟩)
        simp [act, differ]
      · simp [act, self]
    | loadCollection other key => rfl
    | beginUpdate other key patch =>
      unfold act
      dsimp only
      split
      · rfl
      · split <;> rfl
    | commitUpdate other now | setAcl other key entries actor now =>
      unfold act
      dsimp only
      split <;> rfl

end OneStep

/-! ## Runs -/

section ManySteps

variable {s : Desk} {events : List Event} {client : Client} {id : Text} {c : Collection}

section Value

/-! A value of a collection that no allowed step lowers and every step of a kind raises. -/

variable {ok kind : Desk → Event → Prop} {value : Collection → Int}
  (grows : ∀ {s e c}, ok s e → s.db.find id = some c →
    ∃ c', (step s e).db.find id = some c' ∧ value c ≤ value c' ∧ (kind s e → value c < value c'))
include grows

theorem value_run (obeys : Obeys step ok s events) (found : s.db.find id = some c) :
    ∃ c', (run step s events).db.find id = some c' ∧ value c ≤ value c' := by
  induction events generalizing s c with
  | nil => exact ⟨c, found, Int.le_refl _⟩
  | cons e rest ih =>
    obtain ⟨c₁, first, rise, -⟩ := grows obeys.1 found
    obtain ⟨c₂, last, risen⟩ := ih obeys.2 first
    exact ⟨c₂, last, Int.le_trans rise risen⟩

/-- Between two states with the same value there is no step of the kind. -/
theorem not_kind_between {m₁ m₂ : List Event} {x : Event} {c' : Collection}
    (obeys : Obeys step ok s (m₁ ++ x :: m₂)) (found : s.db.find id = some c)
    (last : (run step s (m₁ ++ x :: m₂)).db.find id = some c') (same : value c' = value c) :
    ¬kind (run step s m₁) x := by
  intro raises
  obtain ⟨obeys₁, allowed, obeys₂⟩ := obeys_append.mp obeys
  obtain ⟨c₁, found₁, rise₁⟩ := value_run grows obeys₁ found
  obtain ⟨c₂, found₂, -, strict⟩ := grows allowed found₁
  obtain ⟨c₃, found₃, rise₃⟩ := value_run grows obeys₂ found₂
  rw [run_append, run_cons, found₃] at last
  cases last
  have := strict raises
  omega

end Value

variable {a b x : Event} {mid m₁ m₂ : List Event}

/-- A load of the grants and a save that relies on it have no other save between them. -/
theorem grants_kept (loads : LoadsAcl s a client id)
    (last : Obeys step (fun t x => ¬LoadsAcl t x client id) (step s a) (m₁ ++ x :: m₂))
    (shares : Shares (run step (step s a) (m₁ ++ x :: m₂)) b client id) :
    ¬∃ other, Shares (run step (step s a) m₁) x other id := by
  obtain ⟨entries, actor, now, token, revision, db, -, -, held, wrote⟩ := shares
  obtain ⟨-, c', found', current, -⟩ := setAcl_cases wrote
  have kept := run_invariant
    (fun t : Desk => t.loadedRevision client id = (s.db.find id).map Collection.aclRevision)
    (fun t x same quiet => (revision_step quiet).trans same) (revision_load loads) last
  cases found : s.db.find id with
  | none => simp [held, found] at kept
  | some c =>
    obtain ⟨rfl, -⟩ := loads
    have unchanged : (step s (.loadAcl client id)).db.find id = some c := by
      unfold step act
      split <;> exact found
    refine not_kind_between (fun _ => revision_grows) (obeys_true _ _) unchanged found' ?_
    have token_eq : token = c.aclRevision := by simpa [held, found] using kept
    rw [current, token_eq]

/-- So have a load of the fields and an update, where commits renew the timestamp. -/
theorem edits_kept (loads : LoadsCollection s a client id)
    (last : Obeys step (fun t x => ¬LoadsCollection t x client id) (step s a) (m₁ ++ x :: m₂))
    (renew : Obeys step Renews (step s a) (m₁ ++ x :: m₂))
    (edits : Edits (run step (step s a) (m₁ ++ x :: m₂)) b client id) :
    ¬Commits (run step (step s a) m₁) x id := by
  obtain ⟨now, p, -, begun, named, db, wrote⟩ := edits
  obtain ⟨c', found', current, -⟩ := writeEdit_cases wrote
  have kept := run_invariant (Holds client id ((s.db.find id).map Collection.updatedAt))
    (fun t x same quiet => holds_step same quiet) (holds_load loads) last
  have token := kept.begun p begun named
  cases found : s.db.find id with
  | none => simp [found] at token
  | some c =>
    obtain ⟨rfl, -⟩ := loads
    have unchanged : (step s (.loadCollection client id)).db.find id = some c := by
      unfold step act
      split <;> exact found
    refine not_kind_between (fun renews => updatedAt_grows renews) renew unchanged found' ?_
    have token_eq : c.updatedAt = p.expectedUpdatedAt := by simpa [found] using token
    rw [current, token_eq]

end ManySteps

/-- No edit is lost in a run whose commits renew the timestamp. -/
theorem noLostEdit_of_renews (s : Desk) (events : List Event)
    (renew : Obeys step Renews s events) : NoLostEdit s events := by
  constructor
  · rintro front a mid b back client id rfl loads alone edits m₁ x m₂ rfl
    rw [run_append, run_cons] at edits ⊢
    refine edits_kept loads ?_ ?_ edits
    · refine obeys_iff.mpr fun m₁' x' m₂' split => ?_
      have := alone m₁' x' m₂' split
      rwa [run_append, run_cons] at this
    · exact (obeys_append.mp (obeys_append.mp renew).2.2).1
  · rintro front a mid b back client id rfl loads alone shares m₁ x m₂ rfl other
    rw [run_append, run_cons] at shares ⊢
    refine fun saved => grants_kept loads ?_ shares ⟨other, saved⟩
    refine obeys_iff.mpr fun m₁' x' m₂' split => ?_
    have := alone m₁' x' m₂' split
    rwa [run_append, run_cons] at this

/-! ### Two clients -/

def collectionId : Text := "col_1".toList

/-- A collection that was last saved at reading 5. -/
def desk : Desk where
  db :=
    { Db.empty with
      collections := ⟨[⟨collectionId, "kb".toList, "kb".toList, [], none, .internal, .inherit, 0,
        "ann".toList, 5, 5⟩], List.nodup_singleton _⟩ }
  loadedAt _ _ := none
  loadedRevision _ _ := none
  pending _ := none

/-- Both clients load the collection, and then both save a name. -/
def twoClients (first second : Millis) : List Event :=
  [.loadCollection 0 collectionId, .loadCollection 1 collectionId,
    .beginUpdate 0 collectionId { name := some "a".toList }, .commitUpdate 0 first,
    .beginUpdate 1 collectionId { name := some "b".toList }, .commitUpdate 1 second]

theorem noLostEdit_twoClients : NoLostEdit desk (twoClients 6 7) :=
  noLostEdit_of_renews desk (twoClients 6 7) (by decide)

/-- Within one reading of the clock the second name overwrites the first. -/
theorem sameMillisecond_lost :
    ((twoClients 5 5).filterMap Event.now).Pairwise (· ≤ ·) ∧ ¬NoLostEdit desk (twoClients 5 5) := by
  refine ⟨by decide, fun kept => ?_⟩
  refine kept.edits [.loadCollection 0 collectionId] (.loadCollection 1 collectionId)
    [.beginUpdate 0 collectionId { name := some "a".toList }, .commitUpdate 0 5,
      .beginUpdate 1 collectionId { name := some "b".toList }] (.commitUpdate 1 5) [] 1 collectionId
    rfl ⟨rfl, rfl⟩ ?_ ⟨5, _, rfl, rfl, rfl, _, rfl⟩
    [.beginUpdate 0 collectionId { name := some "a".toList }] (.commitUpdate 0 5) _ rfl
    ⟨0, .inl ⟨5, _, rfl, rfl, rfl, _, rfl⟩⟩
  rintro m₁ x m₂ split ⟨rfl, -⟩
  have listed : Event.loadCollection 1 collectionId ∈ m₁ ++ .loadCollection 1 collectionId :: m₂ :=
    List.mem_append_right m₁ (List.mem_cons_self ..)
  rw [← split] at listed
  simp at listed

end DuDuClaw.Knowledge
