/-
# Ccr.Store -- saved originals of compressed tool results

The store of duduclaw-llm/src/ccr: post-redaction texts under an opaque id, each for one
tool call in one caller scope, with an expiry and possibly bound to a version of an
upstream artifact.  Three tables of tombstones record what was revoked.

Every operation opens the database first, which sweeps expired rows at most once a minute
of its own clock reading, and then runs one transaction.  A clock reading is an argument;
the clock may step back between any two.  A row of `ccr_artifact_bindings` belongs to one
entry and goes with it, so that it is a column of the entry here.  Rows stand in the order
of their rowids.

* `put_cases`: the ways a `put` can end, and what each leaves behind.
-/
import DuDuClaw.Lib.Table
import DuDuClaw.Lib.Utf8
import Mathlib.Algebra.Group.Int.Defs
import Mathlib.Data.List.Sort

namespace DuDuClaw.Ccr

open DuDuClaw.Lib

abbrev Text := List Char

def maxOriginalBytes : Nat := 2 * 1024 * 1024

def maxStoreBytes : Nat := 64 * 1024 * 1024

def ccrEntryVersion : Int := 1

def expirySweepMinIntervalSeconds : Int := 60

/-- `i64::MAX`. -/
def maxInt : Int := 2 ^ 63 - 1

inductive CcrError where
  | invalidScope
  | invalidQuery
  | tooLarge
  | notFound
  | revoked
  | corrupt
  | storage
  deriving DecidableEq

/-! ## Rows -/

structure CcrScope where
  tenantId : Text
  agentId : Text
  sessionId : Text
  sourceAcl : Text
  deriving DecidableEq

def CcrScope.valid (scope : CcrScope) : Bool :=
  [scope.tenantId, scope.agentId, scope.sessionId, scope.sourceAcl].all fun v => !isBlank v

/-- One tool call in one scope, the key of `ccr_revoked_sources`. -/
structure SourceCall where
  scope : CcrScope
  tool : Text
  callId : Text
  deriving DecidableEq

def SourceCall.valid (call : SourceCall) : Bool :=
  call.scope.valid && !isBlank call.tool && !isBlank call.callId

structure CcrSourceArtifact where
  connector : Text
  artifactId : Text
  version : Text
  aclRevision : Text
  deriving DecidableEq

def CcrSourceArtifact.valid (artifact : CcrSourceArtifact) : Bool :=
  [artifact.connector, artifact.artifactId, artifact.version, artifact.aclRevision].all
    fun v => !isBlank v && byteLength v ≤ 512

/-- The key of `ccr_revoked_artifact_versions`. -/
structure ArtifactVersion where
  tenantId : Text
  connector : Text
  artifactId : Text
  version : Text
  deriving DecidableEq

def CcrSourceArtifact.inTenant (artifact : CcrSourceArtifact) (tenantId : Text) :
    ArtifactVersion :=
  ⟨tenantId, artifact.connector, artifact.artifactId, artifact.version⟩

/-- A row of `ccr_artifact_bindings`, without its key. -/
structure ArtifactBinding where
  tenantId : Text
  artifact : CcrSourceArtifact
  deriving DecidableEq

def ArtifactBinding.boundVersion (binding : ArtifactBinding) : ArtifactVersion :=
  binding.artifact.inTenant binding.tenantId

structure EntryRow where
  id : Text
  call : SourceCall
  contentSha256 : Text
  transformVersion : Int
  bindingRequired : Bool
  original : Text
  contentBytes : Nat
  createdAt : Int
  expiresAt : Int
  binding : Option ArtifactBinding
  deriving DecidableEq

/-- What `put` returns. -/
structure CcrEntry where
  id : Text
  call : SourceCall
  contentSha256 : Text
  transformVersion : Int
  contentBytes : Nat
  createdAt : Int
  expiresAt : Int
  deriving DecidableEq

/-- The tables, and the second of the last expiry sweep. -/
structure CcrStore where
  entries : Table EntryRow.id
  revokedSources : List SourceCall
  revokedScopes : List CcrScope
  revokedArtifactVersions : List ArtifactVersion
  lastExpirySweep : Int

/-- `ttl_seconds` and `max_entries`, which `with_limits` keeps positive. -/
structure Limits where
  ttlSeconds : Int
  maxEntries : Nat
  ttlPositive : 1 ≤ ttlSeconds
  entriesPositive : 1 ≤ maxEntries

/-- SHA-256 in hexadecimal. -/
structure Env where
  sha256Hex : Text → Text

def CcrStore.empty : CcrStore where
  entries := .empty
  revokedSources := []
  revokedScopes := []
  revokedArtifactVersions := []
  lastExpirySweep := 0

/-! ## Statements -/

/-- `DELETE FROM ccr_entries WHERE ..`, with the bindings of the deleted rows. -/
def CcrStore.deleteWhere (s : CcrStore) (sel : EntryRow → Bool) : CcrStore :=
  { s with entries := s.entries.deleteWhere sel }

variable (s : CcrStore) (rows : List EntryRow) (env : Env)

def CcrStore.deleteExpired (now : Int) : CcrStore :=
  s.deleteWhere fun row => row.expiresAt ≤ now

def CcrStore.sweepExpiredIfDue (now : Int) : CcrStore :=
  if s.lastExpirySweep ≠ 0 ∧ now - s.lastExpirySweep < expirySweepMinIntervalSeconds then s
  else { s.deleteExpired now with lastExpirySweep := now }

/-- `INSERT OR IGNORE INTO ccr_revoked_sources` and the DELETE that goes with it. -/
def CcrStore.revokeCall (call : SourceCall) : CcrStore :=
  { s.deleteWhere fun row => row.call == call with
    revokedSources := s.revokedSources.insert call }

/-- `ORDER BY created_at DESC, rowid DESC`. -/
def newestFirst : List EntryRow :=
  rows.reverse.insertionSort fun a b => b.createdAt ≤ a.createdAt

/-- `ORDER BY created_at, rowid LIMIT 1`. -/
def oldest : Option EntryRow :=
  rows.find? fun row => rows.all fun other => row.createdAt ≤ other.createdAt

def totalBytes : Nat := (rows.map EntryRow.contentBytes).sum

/-- `max_entries as i64`; SQLite takes a negative OFFSET as zero. -/
def Limits.offset (limits : Limits) : Nat :=
  if limits.maxEntries < 2 ^ 63 then limits.maxEntries else 0

/-- `DELETE .. WHERE id IN (SELECT id .. LIMIT -1 OFFSET n)`. -/
def evictCount (offset : Nat) (entries : Table EntryRow.id) : Table EntryRow.id :=
  entries.deleteWhere fun row =>
    (((newestFirst entries.rows).drop offset).map EntryRow.id).contains row.id

/-- The loop that deletes the oldest row while the total is too large; `none` is the error
of a query without a row.  Every round deletes a row, so their number is enough fuel. -/
def evictBytes : Nat → Int → Table EntryRow.id → Option (Table EntryRow.id)
  | fuel, total, entries =>
    if total ≤ maxStoreBytes then some entries
    else
      match fuel, oldest entries.rows with
      | fuel + 1, some row =>
        evictBytes fuel (total - row.contentBytes)
          (entries.deleteWhere fun other => other.id == row.id)
      | _, _ => none

/-! ## `put` -/

/-- The arguments of `put_with_artifact`, the id it draws and its clock readings. -/
structure PutCall where
  call : SourceCall
  original : Text
  artifact : Option CcrSourceArtifact
  retentionAt : Option Int
  id : Text
  sweepNow : Int
  now : Int

/-- The checks before the database is opened. -/
def PutCall.check (put : PutCall) : Except CcrError Unit :=
  if !put.call.valid then .error .invalidScope
  else if put.artifact.any fun artifact => !artifact.valid then .error .invalidScope
  else if maxOriginalBytes < byteLength put.original then .error .tooLarge
  else .ok ()

/-- The smaller of the end of the time to live and the retention deadline. -/
def PutCall.expiresAt (put : PutCall) (limits : Limits) : Int :=
  min (min (put.now + limits.ttlSeconds) maxInt) (put.retentionAt.getD maxInt)

def CcrStore.refuses (put : PutCall) : Bool :=
  (put.artifact.any fun artifact =>
      s.revokedArtifactVersions.contains (artifact.inTenant put.call.scope.tenantId)) ||
    s.revokedSources.contains put.call || s.revokedScopes.contains put.call.scope

def CcrStore.rowsOf (call : SourceCall) : List EntryRow :=
  newestFirst (s.entries.rows.filter fun row => row.call == call)

def EntryRow.bindingMatches (row : EntryRow) (artifact : Option CcrSourceArtifact) : Bool :=
  match row.binding, artifact with
  | none, none => !row.bindingRequired
  | some saved, some expected => row.bindingRequired && saved.artifact == expected
  | _, _ => false

def EntryRow.contentMatches (row : EntryRow) (original : Text) : Bool :=
  row.transformVersion == ccrEntryVersion && row.contentBytes == byteLength row.original &&
    row.original == original && row.contentSha256 == env.sha256Hex original

def PutCall.newRow (limits : Limits) (put : PutCall) : EntryRow where
  id := put.id
  call := put.call
  contentSha256 := env.sha256Hex put.original
  transformVersion := ccrEntryVersion
  bindingRequired := put.artifact.isSome
  original := put.original
  contentBytes := byteLength put.original
  createdAt := put.now
  expiresAt := put.expiresAt limits
  binding := put.artifact.map fun artifact => ⟨put.call.scope.tenantId, artifact⟩

def EntryRow.toEntry (row : EntryRow) (expiresAt : Int) : CcrEntry :=
  ⟨row.id, row.call, row.contentSha256, row.transformVersion, row.contentBytes, row.createdAt,
    expiresAt⟩

/-- `UPDATE ccr_entries SET expires_at=?1 WHERE id=?2`. -/
def shortenExpiry (entries : Table EntryRow.id) (id : Text) (expiresAt : Int) :
    Table EntryRow.id :=
  entries.update (fun row => if row.id = id then { row with expiresAt := expiresAt } else row) (by
    intro row
    split <;> rfl)

/-- A replay of an identical call: the saved handle, with the shorter of the two
lifetimes. -/
def CcrStore.reuse (row : EntryRow) (expiresAt : Int) : CcrEntry × CcrStore :=
  (row.toEntry (min row.expiresAt expiresAt),
    if expiresAt < row.expiresAt then
      { s with entries := shortenExpiry s.entries row.id expiresAt }
    else s)

/-- A new row, and the evictions after it; `none` is an error of the database, which rolls
the transaction back. -/
def CcrStore.insertEvicting (limits : Limits) (row : EntryRow) :
    Option CcrStore :=
  match s.entries.insert row with
  | none => none
  | some inserted =>
    let kept := evictCount limits.offset inserted
    (evictBytes kept.rows.length (totalBytes kept.rows) kept).map fun entries =>
      { s with entries := entries }

/-- The transaction of `put_with_artifact`. -/
def CcrStore.putTransaction (limits : Limits) (s : CcrStore) (put : PutCall) :
    Except CcrError CcrEntry × CcrStore :=
  if s.refuses put then (.error .revoked, s)
  else
    let live := s.deleteExpired put.now
    let existing := live.rowsOf put.call
    if existing.any fun row =>
        !row.bindingMatches put.artifact || !row.contentMatches env put.original then
      (.error .revoked, live.revokeCall put.call)
    else
      match existing with
      | row :: _ =>
        let reused := live.reuse row (put.expiresAt limits)
        (.ok reused.1, reused.2)
      | [] =>
        match live.insertEvicting limits (put.newRow env limits) with
        | none => (.error .storage, s)
        | some saved => (.ok ((put.newRow env limits).toEntry (put.expiresAt limits)), saved)

/-- `put_with_artifact`; `put` is the call without an artifact and a deadline. -/
def CcrStore.putWithArtifact (limits : Limits) (s : CcrStore) (put : PutCall) :
    Except CcrError CcrEntry × CcrStore :=
  match put.check with
  | .error e => (.error e, s)
  | .ok () =>
    let opened := s.sweepExpiredIfDue put.sweepNow
    if put.retentionAt.any fun deadline => deadline ≤ put.now then (.error .revoked, opened)
    else opened.putTransaction env limits put

/-! ## What a `put` can do -/

/-- The rows a `put` meets: those neither swept when it opens the database nor expired at
its own reading of the clock. -/
def CcrStore.met (put : PutCall) : CcrStore :=
  (s.sweepExpiredIfDue put.sweepNow).deleteExpired put.now

theorem sweep_rows (now : Int) :
    ∃ sel, (s.sweepExpiredIfDue now).entries = s.entries.deleteWhere sel ∧
      (s.sweepExpiredIfDue now).revokedSources = s.revokedSources ∧
      (s.sweepExpiredIfDue now).revokedScopes = s.revokedScopes ∧
      (s.sweepExpiredIfDue now).revokedArtifactVersions = s.revokedArtifactVersions := by
  unfold CcrStore.sweepExpiredIfDue
  split
  · refine ⟨fun _ => false, ?_, rfl, rfl, rfl⟩
    cases s.entries
    simp [Table.deleteWhere]
  · exact ⟨_, rfl, rfl, rfl, rfl⟩

/-- **The ways a `put` can end.** -/
theorem put_cases (limits : Limits) (s : CcrStore) (put : PutCall) :
    (∃ e, s.putWithArtifact env limits put = (.error e, s) ∨
      s.putWithArtifact env limits put = (.error e, s.sweepExpiredIfDue put.sweepNow)) ∨
    ((s.sweepExpiredIfDue put.sweepNow).refuses put = false ∧ (s.met put).rowsOf put.call ≠ [] ∧
      s.putWithArtifact env limits put = (.error .revoked, (s.met put).revokeCall put.call)) ∨
    (∃ row others, (s.sweepExpiredIfDue put.sweepNow).refuses put = false ∧
      (s.met put).rowsOf put.call = row :: others ∧ (∀ row ∈ (s.met put).rowsOf put.call,
        row.bindingMatches put.artifact ∧ row.contentMatches env put.original) ∧
      s.putWithArtifact env limits put = (.ok (row.toEntry (min row.expiresAt (put.expiresAt limits))),
          ((s.met put).reuse row (put.expiresAt limits)).2)) ∨
    (∃ saved, (s.sweepExpiredIfDue put.sweepNow).refuses put = false ∧ (s.met put).rowsOf put.call = [] ∧
      (s.met put).insertEvicting limits (put.newRow env limits) = some saved ∧
      s.putWithArtifact env limits put =
        (.ok ((put.newRow env limits).toEntry (put.expiresAt limits)), saved)) := by
  unfold CcrStore.putWithArtifact
  split
  · rename_i e _
    exact .inl ⟨e, .inl rfl⟩
  dsimp only
  split
  · exact .inl ⟨.revoked, .inr rfl⟩
  unfold CcrStore.putTransaction
  split
  · exact .inl ⟨.revoked, .inr rfl⟩
  rename_i admitted
  rw [Bool.not_eq_true] at admitted
  dsimp only
  have same : (s.sweepExpiredIfDue put.sweepNow).deleteExpired put.now = s.met put := rfl
  rw [same]
  split
  · rename_i conflict
    refine .inr (.inl ⟨admitted, ?_, rfl⟩)
    intro empty
    rw [empty] at conflict
    cases conflict
  rename_i agree
  have matches_ : ∀ row ∈ (s.met put).rowsOf put.call,
      row.bindingMatches put.artifact ∧ row.contentMatches env put.original := by
    intro row listed
    have clean := fun bad => agree (List.any_eq_true.mpr ⟨row, listed, bad⟩)
    simpa [not_or] using clean
  split
  · rename_i row others existing
    exact .inr (.inr (.inl ⟨row, others, admitted, existing, matches_, rfl⟩))
  rename_i existing
  split
  · exact .inl ⟨.storage, .inr rfl⟩
  · rename_i saved inserted
    exact .inr (.inr (.inr ⟨saved, admitted, existing, inserted, rfl⟩))

end DuDuClaw.Ccr
