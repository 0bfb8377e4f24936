/-
# Ccr.Revocation -- what is revoked stays revoked

A subject is a scope, a call or an artifact version; its tombstone stands in one of the
three tables.

* `Sound`: no stored row is under a tombstone, and no two rows are of one call.
* `Event.step_keeps`: every operation keeps that, and no tombstone is lost.
* `revocation_permanent`: over every run, and what later calls do with a revoked subject.
* `expired_replay_replaces`: a replay with other content after the entry has expired is
  saved like a new call.
-/
import DuDuClaw.Ccr.Capacity
import DuDuClaw.Ccr.Operations

namespace DuDuClaw.Ccr

open DuDuClaw.Lib

variable (env : Env) (limits : Limits) (search : Search)

/-! ## Subjects -/

/-- What a tombstone stands against. -/
inductive Subject where
  | scope (scope : CcrScope)
  | call (call : SourceCall)
  | version (version : ArtifactVersion)

/-- A call, made with or without an artifact, is one of the subject's. -/
def Subject.Covers (call : SourceCall) (artifact : Option CcrSourceArtifact) : Subject → Prop
  | .scope whole => call.scope = whole
  | .call other => call = other
  | .version old => ∃ bound ∈ artifact, bound.inTenant call.scope.tenantId = old

def EntryRow.artifact (row : EntryRow) : Option CcrSourceArtifact :=
  row.binding.map ArtifactBinding.artifact

def EntryRow.IsOf (row : EntryRow) (subject : Subject) : Prop :=
  subject.Covers row.call row.artifact

def CcrStore.Revoked (s : CcrStore) : Subject → Prop
  | .scope scope => scope ∈ s.revokedScopes
  | .call call => call ∈ s.revokedSources
  | .version version => version ∈ s.revokedArtifactVersions

variable {s t saved : CcrStore} {row : EntryRow}

theorem sweep_revoked (s : CcrStore) (now : Int) (subject : Subject) :
    (s.sweepExpiredIfDue now).Revoked subject ↔ s.Revoked subject := by
  obtain ⟨-, -, sources, scopes, versions⟩ := sweep_rows s now
  cases subject with
  | scope scope => simp only [CcrStore.Revoked, scopes]
  | call call => simp only [CcrStore.Revoked, sources]
  | version version => simp only [CcrStore.Revoked, versions]

theorem met_revoked (s : CcrStore) (put : PutCall) (subject : Subject) :
    (s.met put).Revoked subject ↔ s.Revoked subject := by
  rw [← sweep_revoked s put.sweepNow subject]
  cases subject <;> rfl

theorem revokeCall_revoked (s : CcrStore) (call : SourceCall) (subject : Subject) :
    (s.revokeCall call).Revoked subject ↔ subject = .call call ∨ s.Revoked subject := by
  cases subject with
  | scope scope | version version => simp [CcrStore.Revoked, CcrStore.revokeCall, CcrStore.deleteWhere]
  | call other => simp [CcrStore.Revoked, CcrStore.revokeCall]

/-- The tombstones standing against a call are those `put` asks for. -/
theorem refuses_iff (s : CcrStore) (put : PutCall) : s.refuses put = true ↔
      ∃ subject, s.Revoked subject ∧ subject.Covers put.call put.artifact := by
  simp only [CcrStore.refuses, Bool.or_eq_true, Option.any_eq_true, List.contains_iff_mem]
  constructor
  · rintro ((⟨artifact, given, gone⟩ | gone) | gone)
    · exact ⟨.version _, gone, artifact, given, rfl⟩
    · exact ⟨.call _, gone, rfl⟩
    · exact ⟨.scope _, gone, rfl⟩
  · rintro ⟨scope | call | version, gone, covers⟩
    · exact .inr (covers ▸ gone)
    · exact .inl (.inr (covers ▸ gone))
    · obtain ⟨artifact, given, same⟩ := covers
      exact .inl (.inl ⟨artifact, given, same ▸ gone⟩)

/-! ## The invariant -/

/-- No row is under a tombstone, a binding is of the row's own tenant, and no two rows are
of one call. -/
structure CcrStore.Sound (s : CcrStore) : Prop where
  clean : ∀ row ∈ s.entries.rows, ∀ subject, s.Revoked subject → ¬ row.IsOf subject
  tenant : ∀ row ∈ s.entries.rows, ∀ binding ∈ row.binding,
    binding.tenantId = row.call.scope.tenantId
  single : ∀ a ∈ s.entries.rows, ∀ b ∈ s.entries.rows, a.call = b.call → a = b

/-- Fewer rows stay sound when the new tombstones cover none of them. -/
theorem CcrStore.Sound.shrink (sound : s.Sound) (rows : t.entries.rows ⊆ s.entries.rows)
    (clean : ∀ row ∈ t.entries.rows, ∀ subject, t.Revoked subject →
      s.Revoked subject ∨ ¬ row.IsOf subject) : t.Sound where
  clean row listed subject gone := by
    rcases clean row listed subject gone with old | other
    · exact sound.clean row (rows listed) subject old
    · exact other
  tenant row listed := sound.tenant row (rows listed)
  single a left b right := sound.single a (rows left) b (rows right)

theorem CcrStore.Sound.sweep (sound : s.Sound) (now : Int) : (s.sweepExpiredIfDue now).Sound :=
  sound.shrink (sweep_sublist s now).subset fun _ _ subject gone =>
    .inl ((sweep_revoked s now subject).mp gone)

theorem CcrStore.Sound.met (sound : s.Sound) (put : PutCall) : (s.met put).Sound :=
  sound.shrink (met_sublist s put).subset fun _ _ subject gone =>
    .inl ((met_revoked s put subject).mp gone)

theorem CcrStore.Sound.revokeCall (sound : s.Sound) (call : SourceCall) : (s.revokeCall call).Sound := by
  refine sound.shrink List.filter_sublist.subset ?_
  intro row listed subject gone
  rcases (revokeCall_revoked s call subject).mp gone with rfl | old
  · right
    have other := (Table.mem_deleteWhere.mp listed).2
    rwa [beq_eq_false_iff_ne] at other
  · exact .inl old

/-- The store keeps what it is sound about, and every tombstone. -/
def Keeps (s t : CcrStore) : Prop :=
  (s.Sound → t.Sound) ∧ ∀ subject, s.Revoked subject → t.Revoked subject

theorem Keeps.trans {u : CcrStore} (first : Keeps s t) (second : Keeps t u) : Keeps s u :=
  ⟨second.1 ∘ first.1, fun subject gone => second.2 subject (first.2 subject gone)⟩

theorem keeps_refl (s : CcrStore) : Keeps s s := ⟨id, fun _ => id⟩

theorem keeps_sweep (s : CcrStore) (now : Int) : Keeps s (s.sweepExpiredIfDue now) :=
  ⟨fun sound => sound.sweep now, fun subject => (sweep_revoked s now subject).mpr⟩

theorem keeps_met (s : CcrStore) (put : PutCall) : Keeps s (s.met put) :=
  ⟨fun sound => sound.met put, fun subject => (met_revoked s put subject).mpr⟩

theorem keeps_revokeCall (s : CcrStore) (call : SourceCall) : Keeps s (s.revokeCall call) :=
  ⟨fun sound => sound.revokeCall call, fun subject gone =>
    (revokeCall_revoked s call subject).mpr (.inr gone)⟩

theorem keeps_revokeCalls (s : CcrStore) (calls : List SourceCall) :
    Keeps s (calls.foldl CcrStore.revokeCall s) := by
  induction calls generalizing s with
  | nil => exact keeps_refl s
  | cons call rest ih => exact (keeps_revokeCall s call).trans (ih _)

/-! ## Each operation -/

theorem keeps_revokeScope (s : CcrStore) (scope : CcrScope) (sweepNow : Int) :
    Keeps s (s.revokeScope scope sweepNow).2 := by
  unfold CcrStore.revokeScope
  split
  · exact keeps_refl s
  refine (keeps_sweep s sweepNow).trans ⟨fun sound => ?_, ?_⟩
  · refine sound.shrink List.filter_sublist.subset ?_
    intro row listed subject gone
    have other := (Table.mem_deleteWhere.mp listed).2
    rw [beq_eq_false_iff_ne] at other
    cases subject with
    | scope new =>
      rcases List.mem_insert_iff.mp gone with rfl | old
      · exact .inr other
      · exact .inl old
    | call call | version version => exact .inl gone
  · intro subject gone
    cases subject with
    | scope old => exact List.mem_insert_of_mem gone
    | call call | version version => exact gone

theorem mem_foldl_insert {α : Type} [DecidableEq α] {items start : List α} {x : α} :
    x ∈ items.foldl (fun all item => all.insert item) start ↔ x ∈ items ∨ x ∈ start := by
  induction items generalizing start with
  | nil => simp
  | cons item rest ih =>
    rw [List.foldl_cons, ih, List.mem_insert_iff, List.mem_cons]
    tauto

theorem boundTo_iff {version : ArtifactVersion}
    (tenant : ∀ binding ∈ row.binding, binding.tenantId = row.call.scope.tenantId) :
    row.boundTo version = true ↔ row.IsOf (.version version) := by
  unfold EntryRow.boundTo EntryRow.IsOf Subject.Covers EntryRow.artifact
  cases bound : row.binding with
  | none => simp
  | some binding =>
    have same := tenant binding bound
    simp [ArtifactBinding.boundVersion, same]

theorem keeps_revokeArtifactVersion (s : CcrStore) (version : ArtifactVersion) (sweepNow : Int) :
    Keeps s (s.revokeArtifactVersion version sweepNow).2 := by
  unfold CcrStore.revokeArtifactVersion
  split
  · exact keeps_refl s
  refine (keeps_sweep s sweepNow).trans ⟨fun sound => ?_, ?_⟩
  · refine sound.shrink List.filter_sublist.subset ?_
    intro row listed subject gone
    obtain ⟨inside, unbound⟩ := Table.mem_deleteWhere.mp listed
    cases subject with
    | scope scope => exact .inl gone
    | call call =>
      rcases mem_foldl_insert.mp gone with new | old
      · right
        rintro rfl
        -- the call is that of a deleted row, which would be this one
        obtain ⟨deleted, there, same⟩ := List.mem_map.mp new
        obtain ⟨listed, bound⟩ := List.mem_filter.mp there
        rw [sound.single deleted listed row inside same, unbound] at bound
        cases bound
      · exact .inl old
    | version other =>
      rcases List.mem_insert_iff.mp gone with rfl | old
      · right
        rw [← boundTo_iff (sound.tenant row inside), unbound]
        exact Bool.false_ne_true
      · exact .inl old
  · intro subject gone
    cases subject with
    | scope scope => exact gone
    | call call => exact mem_foldl_insert.mpr (.inr gone)
    | version other => exact List.mem_insert_of_mem gone

theorem keeps_ensureSourceCallContent (s : CcrStore) (call : SourceCall) (original : Text)
    (sweepNow now : Int) : Keeps s (s.ensureSourceCallContent env call original sweepNow now).2 := by
  unfold CcrStore.ensureSourceCallContent
  split
  · exact keeps_refl s
  dsimp only
  split
  · exact keeps_sweep s sweepNow
  · split
    · exact (keeps_sweep s sweepNow).trans (keeps_revokeCall _ call)
    · exact keeps_sweep s sweepNow

theorem keeps_revokeUnlistedSourceCalls (s : CcrStore) (scope : CcrScope) (allowed : List Text)
    (sweepNow : Int) : Keeps s (s.revokeUnlistedSourceCalls scope allowed sweepNow).2 := by
  unfold CcrStore.revokeUnlistedSourceCalls
  split
  · exact keeps_refl s
  · exact (keeps_sweep s sweepNow).trans (keeps_revokeCalls _ _)

theorem insertEvicting_rows {limits : Limits}
    (inserted : s.insertEvicting limits row = some saved) : saved.entries.rows ⊆ s.entries.rows ++ [row] ∧
      ∀ subject, saved.Revoked subject ↔ s.Revoked subject := by
  obtain ⟨full, kept, last, ends, rfl⟩ := insertEvicting_cases inserted
  refine ⟨?_, ?_⟩
  · rw [← last]
    exact fun _ listed => List.filter_sublist.subset (evictBytes_subset ends listed)
  · intro subject
    cases subject <;> rfl

/-- The row a `put` adds is under no tombstone and the only one of its call. -/
theorem CcrStore.Sound.insert (sound : s.Sound) {put : PutCall}
    (admitted : s.refuses put = false) (fresh : s.rowsOf put.call = [])
    (inserted : s.insertEvicting limits (put.newRow env limits) = some saved) : saved.Sound := by
  obtain ⟨rows, revoked⟩ := insertEvicting_rows inserted
  have apart : ∀ row ∈ s.entries.rows, row.call ≠ put.call := by
    intro row listed same
    have found := mem_rowsOf.mpr ⟨listed, same⟩
    rw [fresh] at found
    cases found
  have place : ∀ row ∈ saved.entries.rows, row ∈ s.entries.rows ∨ row = put.newRow env limits := by
    intro row listed
    simpa using rows listed
  constructor
  · intro row listed subject gone
    rw [revoked] at gone
    rcases place row listed with old | rfl
    · exact sound.clean row old subject gone
    intro covers
    have artifact : (put.newRow env limits).artifact = put.artifact := by
      unfold EntryRow.artifact PutCall.newRow
      rw [Option.map_map]
      exact Option.map_id'
    rw [EntryRow.IsOf, artifact] at covers
    have refused := (refuses_iff s put).mpr ⟨subject, gone, covers⟩
    rw [admitted] at refused
    cases refused
  · intro row listed binding bound
    rcases place row listed with old | rfl
    · exact sound.tenant row old binding bound
    · obtain ⟨artifact, -, rfl⟩ := Option.map_eq_some_iff.mp bound
      rfl
  · intro a left b right same
    rcases place a left with oldA | rfl
    · rcases place b right with oldB | rfl
      · exact sound.single a oldA b oldB same
      · exact absurd same (apart a oldA)
    · rcases place b right with oldB | rfl
      · exact absurd same.symm (apart b oldB)
      · rfl

theorem keeps_reuse (s : CcrStore) (row : EntryRow) (expiresAt : Int) : Keeps s (s.reuse row expiresAt).2 := by
  unfold CcrStore.reuse
  dsimp only
  split
  · refine ⟨fun sound => ?_, fun subject gone => by cases subject <;> exact gone⟩
    have origin : ∀ new ∈ (shortenExpiry s.entries row.id expiresAt).rows,
        ∃ old ∈ s.entries.rows, new.call = old.call ∧ new.binding = old.binding ∧
          new = if old.id = row.id then { old with expiresAt := expiresAt } else old := by
      intro new listed
      obtain ⟨old, inside, rfl⟩ := Table.mem_update.mp listed
      refine ⟨old, inside, ?_, ?_, rfl⟩ <;> split <;> rfl
    constructor
    · intro new listed subject gone
      obtain ⟨old, inside, call, binding, -⟩ := origin new listed
      have clean := sound.clean old inside subject (by cases subject <;> exact gone)
      rwa [EntryRow.IsOf, EntryRow.artifact, call, binding]
    · intro new listed
      obtain ⟨old, inside, call, binding, -⟩ := origin new listed
      rw [call, binding]
      exact sound.tenant old inside
    · intro a left b right same
      obtain ⟨oldA, insideA, callA, -, rfl⟩ := origin a left
      obtain ⟨oldB, insideB, callB, -, rfl⟩ := origin b right
      rw [callA, callB] at same
      rw [sound.single oldA insideA oldB insideB same]
  · exact keeps_refl s

theorem keeps_put (s : CcrStore) (put : PutCall) : Keeps s (s.putWithArtifact env limits put).2 := by
  rcases put_cases env limits s put with
    ⟨e, refused | refused⟩ | ⟨-, -, conflict⟩ | ⟨row, others, -, -, -, reused⟩ |
      ⟨saved, admitted, fresh, inserted, returned⟩
  · rw [refused]
    exact keeps_refl s
  · rw [refused]
    exact keeps_sweep s put.sweepNow
  · rw [conflict]
    exact (keeps_met s put).trans (keeps_revokeCall _ put.call)
  · rw [reused]
    exact (keeps_met s put).trans (keeps_reuse _ row _)
  · rw [returned]
    refine (keeps_met s put).trans ⟨fun sound => ?_, fun subject => ?_⟩
    · -- expired rows are no tombstones, so the test before their deletion still counts
      exact sound.insert env limits admitted fresh inserted
    · exact ((insertEvicting_rows inserted).2 subject).mpr

theorem validatedSavedOriginal_opens (s : CcrStore) (call : SourceCall) (id : Text)
    (originalBytes : Nat) (sweepNow now : Int) :
    Keeps s (s.validatedSavedOriginal env call id originalBytes sweepNow now).2 := by
  unfold CcrStore.validatedSavedOriginal
  split
  · exact keeps_refl s
  · exact keeps_sweep s sweepNow

theorem retrieve_opens (s : CcrStore) (scope : CcrScope) (id : Text) (query : Option Text)
    (offset maxBytes : Nat) (source : Option CcrBoundSource) (sweepNow now : Int) :
    Keeps s (s.retrieve env scope id query offset maxBytes source sweepNow now).2 := by
  unfold CcrStore.retrieve
  split
  · exact keeps_refl s
  have opened := keeps_sweep s sweepNow
  dsimp only
  split
  · exact opened
  split
  · exact opened
  split
  · exact opened
  · split
    · exact opened
    · split <;> exact opened

theorem find_opens (s : CcrStore) (scope : CcrScope) (query : Text)
    (allowed : Option (List Text)) (sweepNow now : Int) :
    Keeps s (s.find env search scope query allowed sweepNow now).2 := by
  unfold CcrStore.find
  split
  · exact keeps_refl s
  · split
    · exact keeps_refl s
    · exact keeps_sweep s sweepNow

/-- **Every operation keeps the invariant and every tombstone.** -/
theorem Event.step_keeps (s : CcrStore) (event : Event) : Keeps s (Event.step env limits search s event) := by
  cases event with
  | put args => exact keeps_put env limits s args
  | revokeScope scope sweepNow => exact keeps_revokeScope s scope sweepNow
  | revokeSourceCall call sweepNow =>
    show Keeps s (s.revokeSourceCall call sweepNow).2
    unfold CcrStore.revokeSourceCall
    split
    · exact keeps_refl s
    · exact (keeps_sweep s sweepNow).trans (keeps_revokeCall _ call)
  | revokeArtifactVersion version sweepNow => exact keeps_revokeArtifactVersion s version sweepNow
  | ensureSourceCallContent call original sweepNow now =>
    exact keeps_ensureSourceCallContent env s call original sweepNow now
  | revokeUnlistedSourceCalls scope allowed sweepNow =>
    exact keeps_revokeUnlistedSourceCalls s scope allowed sweepNow
  | validSavedReference call id originalBytes sweepNow now =>
    exact validatedSavedOriginal_opens env s call id originalBytes sweepNow now
  | retrieve scope id query offset maxBytes source sweepNow now =>
    exact retrieve_opens env s scope id query offset maxBytes source sweepNow now
  | find scope query allowed sweepNow now =>
    exact find_opens env search s scope query allowed sweepNow now

theorem run_keeps (s : CcrStore) (events : List Event) :
    Keeps s (run (Event.step env limits search) s events) :=
  run_rel (fun _ => True) Keeps (fun _ _ _ _ => trivial) keeps_refl (fun _ _ _ => Keeps.trans)
    (fun s event _ _ => Event.step_keeps env limits search s event) trivial (obeys_true s events)

theorem sound_empty : CcrStore.empty.Sound where
  clean := nofun
  tenant := nofun
  single := nofun

/-! ## What a revoked subject meets -/

def Event.Revokes (s : CcrStore) (subject : Subject) : Event → Prop
  | .revokeScope scope sweepNow =>
    subject = .scope scope ∧ ∃ n, (s.revokeScope scope sweepNow).1 = .ok n
  | .revokeSourceCall call sweepNow =>
    subject = .call call ∧ ∃ n, (s.revokeSourceCall call sweepNow).1 = .ok n
  | .revokeArtifactVersion version sweepNow =>
    subject = .version version ∧ ∃ n, (s.revokeArtifactVersion version sweepNow).1 = .ok n
  | _ => False

variable {s : CcrStore} {subject : Subject} {sweepNow now : Int}

variable {scope : CcrScope} {id : Text} {put : PutCall} {row : EntryRow}

/-- A guarded call that returned a count went past its guard. -/
theorem revoked_of_returned {invalid : Prop} [Decidable invalid] {error : CcrError} {count n : Nat}
    {t : CcrStore} (tombstone : t.Revoked subject)
    (returned : (if invalid then (Except.error error, s) else (.ok count, t)).1 = .ok n) :
    (if invalid then (Except.error error, s) else (.ok count, t)).2.Revoked subject := by
  split at returned
  · cases returned
  · rename_i valid
    rw [if_neg valid]
    exact tombstone

/-- A revocation that returned has left its tombstone. -/
theorem revokes_revoked {event : Event} (revokes : event.Revokes s subject) :
    (Event.step env limits search s event).Revoked subject := by
  cases event with
  | revokeScope scope sweepNow | revokeSourceCall call sweepNow
  | revokeArtifactVersion version sweepNow =>
    obtain ⟨rfl, n, returned⟩ := revokes
    refine revoked_of_returned ?_ returned
    exact List.mem_insert_self
  | _ => exact revokes.elim

/-- Nothing of the subject comes in, and no read returns anything of it: what a read
returns is of a stored row of another subject. -/
structure CcrStore.Shuts (s : CcrStore) (subject : Subject) : Prop where
  put : ∀ put : PutCall, subject.Covers put.call put.artifact → ∀ e,
    (s.putWithArtifact env limits put).1 ≠ .ok e
  find : ∀ scope query allowed sweepNow now hits,
    (s.find env search scope query allowed sweepNow now).1 = .ok hits → ∀ hit ∈ hits,
      ∃ row ∈ s.entries.rows, row.id = hit.1.id ∧ row.call.scope = scope ∧ ¬ row.IsOf subject
  retrieve : ∀ scope id query offset maxBytes source sweepNow now chunk,
    (s.retrieve env scope id query offset maxBytes source sweepNow now).1 = .ok chunk →
      ∃ row ∈ s.entries.rows, row.id = id ∧ row.call.scope = scope ∧ ¬ row.IsOf subject
  reference : ∀ call id originalBytes sweepNow now,
    s.validSavedReference env call id originalBytes sweepNow now = true →
      ∃ row ∈ s.entries.rows, row.id = id ∧ row.call = call ∧ ¬ row.IsOf subject

theorem put_refused (gone : s.Revoked subject) (put : PutCall)
    (covers : subject.Covers put.call put.artifact) (e : CcrEntry) :
    (s.putWithArtifact env limits put).1 ≠ .ok e := by
  have opened := (sweep_revoked s put.sweepNow subject).mpr gone
  have refused := (refuses_iff _ put).mpr ⟨subject, opened, covers⟩
  rcases put_cases env limits s put with
    ⟨e, same | same⟩ | ⟨admitted, -⟩ | ⟨row, others, admitted, -⟩ | ⟨saved, admitted, -⟩
  · rw [same]
    nofun
  · rw [same]
    nofun
  all_goals
    rw [refused] at admitted
    cases admitted

theorem find_hits {query : Text} {allowed : Option (List Text)}
    {hits : List (CcrFindHit × Option CcrBoundSource)}
    (returned : (s.find env search scope query allowed sweepNow now).1 = .ok hits)
    {hit : CcrFindHit × Option CcrBoundSource} (listed : hit ∈ hits) :
    ∃ row ∈ s.entries.rows, row.id = hit.1.id ∧ row.call.scope = scope := by
  unfold CcrStore.find at returned
  split at returned
  · cases returned
  split at returned
  · cases returned
  cases returned
  obtain ⟨ranked, inside, rfl⟩ := List.mem_map.mp listed
  rw [List.mem_insertionSort, List.mem_filterMap] at inside
  obtain ⟨row, selected, asHit⟩ := inside
  obtain ⟨stored, matched⟩ := List.mem_filter.mp (search.selected_subset _ _ selected)
  have sameScope : row.call.scope = scope := by
    simp only [Bool.and_eq_true, beq_iff_eq] at matched
    exact matched.1.1.1.1
  refine ⟨row, (sweep_sublist s sweepNow).subset stored, ?_, sameScope⟩
  unfold EntryRow.hit at asHit
  split at asHit
  · cases asHit
  obtain ⟨rank, -, shape⟩ := Option.bind_eq_some_iff.mp asHit
  dsimp only at shape
  split at shape
  · split at shape
    · cases shape
    · cases shape
      rfl
  · cases shape
    rfl

theorem retrieve_row {query : Option Text}
    {offset maxBytes : Nat} {source : Option CcrBoundSource}
    {chunk : RetrievedChunk} (returned : (s.retrieve env scope id query offset maxBytes source sweepNow now).1 =
      .ok chunk) :
    ∃ row ∈ s.entries.rows, row.id = id ∧ row.call.scope = scope := by
  unfold CcrStore.retrieve at returned
  split at returned
  · cases returned
  dsimp only at returned
  split at returned
  · cases returned
  split at returned
  · cases returned
  rename_i row found
  have stored := (sweep_sublist s sweepNow).subset (List.mem_of_find?_eq_some found)
  have matched := List.find?_some found
  simp only [Bool.and_eq_true, beq_iff_eq] at matched
  exact ⟨row, stored, matched.1.1.1, matched.1.1.2⟩

theorem reference_row {call : SourceCall} {originalBytes : Nat}
    (valid : s.validSavedReference env call id originalBytes sweepNow now = true) :
    ∃ row ∈ s.entries.rows, row.id = id ∧ row.call = call := by
  unfold CcrStore.validSavedReference CcrStore.validatedSavedOriginal at valid
  split at valid
  · cases valid
  rw [Option.isSome_map, Option.isSome_iff_exists] at valid
  obtain ⟨row, saved⟩ := valid
  have found := (Option.filter_eq_some_iff.mp saved).1
  have stored := (sweep_sublist s sweepNow).subset (List.mem_of_find?_eq_some found)
  have matched := List.find?_some found
  simp only [Bool.and_eq_true, beq_iff_eq] at matched
  exact ⟨row, stored, matched.1.1.1.1, matched.1.1.1.2⟩

theorem shuts_of_revoked (sound : s.Sound) (gone : s.Revoked subject) : s.Shuts env limits search subject where
  put put covers e := put_refused env limits gone put covers e
  find scope query allowed sweepNow now hits returned hit listed := by
    obtain ⟨row, stored, same, inScope⟩ := find_hits env search returned listed
    exact ⟨row, stored, same, inScope, sound.clean row stored subject gone⟩
  retrieve scope id query offset maxBytes source sweepNow now chunk returned := by
    obtain ⟨row, stored, same, inScope⟩ := retrieve_row env returned
    exact ⟨row, stored, same, inScope, sound.clean row stored subject gone⟩
  reference call id originalBytes sweepNow now valid := by
    obtain ⟨row, stored, same, ofCall⟩ := reference_row env valid
    exact ⟨row, stored, same, ofCall, sound.clean row stored subject gone⟩

/-! ## Replays -/

/-- The replay passes the checks `put` makes before it looks at the saved rows. -/
def PutCall.Admissible (s : CcrStore) (put : PutCall) : Prop :=
  put.check = .ok () ∧ (∀ deadline ∈ put.retentionAt, put.now < deadline) ∧
    ∀ artifact ∈ put.artifact, ¬ s.Revoked (.version (artifact.inTenant put.call.scope.tenantId))

/-- The replay neither replaces nor adds a row, and one that is admissible revokes the
call. -/
structure CcrStore.Conflicts (s : CcrStore) (put : PutCall) : Prop where
  refused : ∀ e, (s.putWithArtifact env limits put).1 ≠ .ok e
  rows : (s.putWithArtifact env limits put).2.entries.rows ⊆ s.entries.rows
  revokes : put.Admissible s →
    (s.putWithArtifact env limits put).1 = .error .revoked ∧
      (s.putWithArtifact env limits put).2.Revoked (.call put.call) ∧
      ∀ row ∈ (s.putWithArtifact env limits put).2.entries.rows, row.call ≠ put.call

/-- An admissible replay of an unrevoked call with other content revokes it. -/
theorem replay_revokes (sound : s.Sound)
    (stored : row ∈ (s.met put).entries.rows) (ofCall : row.call = put.call)
    (differs : row.original ≠ put.original) (admissible : put.Admissible s) :
    s.putWithArtifact env limits put = (.error .revoked, (s.met put).revokeCall put.call) := by
  obtain ⟨checked, retained, current⟩ := admissible
  have before := (met_sublist s put).subset stored
  have open_ : (s.sweepExpiredIfDue put.sweepNow).refuses put = false := by
    rw [Bool.eq_false_iff]
    intro refused
    obtain ⟨subject, gone, covers⟩ := (refuses_iff _ put).mp refused
    rw [sweep_revoked] at gone
    cases subject with
    | scope scope => exact sound.clean row before _ gone ((congrArg _ ofCall).trans covers)
    | call call => exact sound.clean row before _ gone (ofCall.trans covers)
    | version version =>
      obtain ⟨artifact, given, rfl⟩ := covers
      exact current artifact given gone
  have conflict : ((s.met put).rowsOf put.call).any (fun row =>
      !row.bindingMatches put.artifact || !row.contentMatches env put.original) = true := by
    refine List.any_eq_true.mpr ⟨row, mem_rowsOf.mpr ⟨stored, ofCall⟩, ?_⟩
    simp [EntryRow.contentMatches, differs]
  have early : ¬ (put.retentionAt.any fun deadline => decide (deadline ≤ put.now)) = true := by
    intro late
    rw [Option.any_eq_true] at late
    obtain ⟨deadline, given, past⟩ := late
    have future := retained deadline given
    rw [decide_eq_true_eq] at past
    omega
  unfold CcrStore.putWithArtifact
  rw [checked]
  dsimp only
  rw [if_neg early]
  unfold CcrStore.putTransaction
  rw [open_, if_neg Bool.false_ne_true]
  exact if_pos conflict

theorem replay_conflicts (sound : s.Sound)
    (stored : row ∈ (s.met put).entries.rows) (ofCall : row.call = put.call)
    (differs : row.original ≠ put.original) : s.Conflicts env limits put := by
  have there := mem_rowsOf.mpr ⟨stored, ofCall⟩
  have ends : (∀ e, (s.putWithArtifact env limits put).1 ≠ .ok e) ∧
      (s.putWithArtifact env limits put).2.entries.rows ⊆ s.entries.rows := by
    rcases put_cases env limits s put with
      ⟨e, same | same⟩ | ⟨-, -, same⟩ | ⟨first, others, -, -, agree, -⟩ | ⟨saved, -, fresh, -⟩
    · rw [same]
      exact ⟨nofun, fun _ listed => listed⟩
    · rw [same]
      exact ⟨nofun, (sweep_sublist s put.sweepNow).subset⟩
    · rw [same]
      exact ⟨nofun, (List.filter_sublist.trans (met_sublist s put)).subset⟩
    · -- the saved row holds other content
      have content := (agree row there).2
      simp [EntryRow.contentMatches, differs] at content
    · rw [fresh] at there
      cases there
  refine ⟨ends.1, ends.2, fun admissible => ?_⟩
  rw [replay_revokes env limits sound stored ofCall differs admissible]
  refine ⟨rfl, (revokeCall_revoked _ _ _).mpr (.inl rfl), ?_⟩
  intro row listed
  have other := (Table.mem_deleteWhere.mp listed).2
  rwa [beq_eq_false_iff_ne] at other

/-! ## Whole runs -/

/-- **What is revoked stays revoked.**  After any events on a new store: no stored row is of
a subject with a tombstone, and no two are of one call; a subject that was revoked at any
time before is shut; and a replay with other content, while the saved row is unexpired,
neither replaces nor doubles it but revokes the call. -/
theorem revocation_permanent (events : List Event) : let s := run (Event.step env limits search) .empty events
    (∀ row ∈ s.entries.rows, ∀ subject, s.Revoked subject → ¬ row.IsOf subject) ∧
    (∀ a ∈ s.entries.rows, ∀ b ∈ s.entries.rows, a.call = b.call → a = b) ∧
    (∀ earlier revocation later subject, events = earlier ++ revocation :: later →
      revocation.Revokes (run (Event.step env limits search) .empty earlier) subject →
      s.Revoked subject ∧ s.Shuts env limits search subject) ∧
    ∀ put : PutCall, ∀ row ∈ (s.met put).entries.rows, row.call = put.call →
      row.original ≠ put.original → s.Conflicts env limits put := by
  intro s
  have sound : s.Sound := (run_keeps env limits search .empty events).1 sound_empty
  refine ⟨sound.clean, sound.single, ?_, ?_⟩
  · intro earlier revocation later subject split revokes
    have gone : s.Revoked subject := by
      show CcrStore.Revoked (run _ _ events) subject
      rw [split, run_append, run_cons]
      exact (run_keeps env limits search _ later).2 subject
        (revokes_revoked env limits search revokes)
    exact ⟨gone, shuts_of_revoked env limits search sound gone⟩
  · intro put row stored ofCall differs
    exact replay_conflicts env limits sound stored ofCall differs

/-- `with_limits(1800, 64)`. -/
theorem manyEntries_positive : 1 ≤ 64 := by decide

def manyEntries : Limits where
  ttlSeconds := 1800
  maxEntries := 64
  ttlPositive := sampleTtl_positive
  entriesPositive := manyEntries_positive

/-- The call `x` again, with other content. -/
def otherContent (now : Int) : PutCall :=
  { samplePut 'x' now with original := ['z'], id := ['z'] }

/-- **A replay after the entry has expired** is saved like a new call: other content takes
the call's place, and nothing is revoked. -/
theorem expired_replay_replaces : let first := CcrStore.empty.afterPut sampleEnv manyEntries (samplePut 'x' 100)
    let again := first.putWithArtifact sampleEnv manyEntries (otherContent 2000)
    first.entries.rows = [(samplePut 'x' 100).newRow sampleEnv manyEntries] ∧
      again.1 = .ok (((otherContent 2000).newRow sampleEnv manyEntries).toEntry 3800) ∧
      again.2.entries.rows = [(otherContent 2000).newRow sampleEnv manyEntries] ∧
      ¬ again.2.Revoked (.call (samplePut 'x' 100).call) := by
  refine ⟨by decide, by decide, by decide, ?_⟩
  show _ ∉ _
  decide

end DuDuClaw.Ccr
