/-
# Ccr.Operations -- revocations and reads

The revocations of ccr/revocation.rs, and the reads of retrieve.rs and find.rs, each of
which asks all three tables of tombstones.  A revocation writes its tombstone and deletes
the rows it covers in one transaction; nothing deletes a tombstone.

* `Event.step`: the store after any one of the calls.
-/
import DuDuClaw.Lib.Substring
import DuDuClaw.Ccr.Store

namespace DuDuClaw.Ccr

open DuDuClaw.Lib

/-! ## Revocations -/

variable (s : CcrStore)

def CcrStore.revokeScope (scope : CcrScope) (sweepNow : Int) :
    Except CcrError Nat × CcrStore :=
  if !scope.valid then (.error .invalidScope, s)
  else
    let opened := s.sweepExpiredIfDue sweepNow
    (.ok (opened.entries.rows.countP fun row => row.call.scope == scope),
      { opened.deleteWhere fun row => row.call.scope == scope with
        revokedScopes := opened.revokedScopes.insert scope })

def CcrStore.revokeSourceCall (call : SourceCall) (sweepNow : Int) :
    Except CcrError Nat × CcrStore :=
  if !call.valid then (.error .invalidScope, s)
  else
    let opened := s.sweepExpiredIfDue sweepNow
    (.ok (opened.entries.rows.countP fun row => row.call == call), opened.revokeCall call)

def EntryRow.boundTo (version : ArtifactVersion) (row : EntryRow) : Bool :=
  row.binding.any fun binding => binding.boundVersion == version

/-- `revoke_artifact_version`: the calls of the deleted rows are tombstoned too. -/
def CcrStore.revokeArtifactVersion (version : ArtifactVersion) (sweepNow : Int) :
    Except CcrError Nat × CcrStore :=
  if isBlank version.tenantId || [version.connector, version.artifactId, version.version].any
      fun value => isBlank value || 512 < byteLength value then
    (.error .invalidScope, s)
  else
    let opened := s.sweepExpiredIfDue sweepNow
    let bound := opened.entries.rows.filter (EntryRow.boundTo version)
    (.ok bound.length,
      { opened.deleteWhere (EntryRow.boundTo version) with
        revokedArtifactVersions := opened.revokedArtifactVersions.insert version
        revokedSources := (bound.map EntryRow.call).foldl (fun calls call => calls.insert call)
          opened.revokedSources })

def CcrStore.ensureSourceCallContent (env : Env) (s : CcrStore) (call : SourceCall)
    (original : Text) (sweepNow now : Int) : Except CcrError Unit × CcrStore :=
  if !call.valid then (.error .invalidScope, s)
  else
    let opened := s.sweepExpiredIfDue sweepNow
    if opened.revokedScopes.contains call.scope || opened.revokedSources.contains call then
      (.error .revoked, opened)
    else if opened.entries.rows.any fun row =>
        row.call == call && now < row.expiresAt && !row.contentMatches env original then
      (.error .revoked, opened.revokeCall call)
    else (.ok (), opened)

/-- `revoke_unlisted_source_calls`: the calls of a scope whose tool is no longer allowed. -/
def CcrStore.revokeUnlistedSourceCalls (scope : CcrScope) (allowed : List Text)
    (sweepNow : Int) : Except CcrError Nat × CcrStore :=
  if !scope.valid then (.error .invalidScope, s)
  else
    let opened := s.sweepExpiredIfDue sweepNow
    let removed := (opened.entries.rows.filter fun row =>
      row.call.scope == scope && !allowed.contains row.call.tool).map EntryRow.call
    (.ok removed.length, removed.foldl CcrStore.revokeCall opened)

/-! ## Reads -/

/-- The `NOT EXISTS` clauses of every read. -/
def CcrStore.unrevoked (row : EntryRow) : Bool :=
  !s.revokedScopes.contains row.call.scope && !s.revokedSources.contains row.call &&
    row.binding.all fun binding => !s.revokedArtifactVersions.contains binding.boundVersion

/-- A required binding is there, and it is of the row's tenant. -/
def EntryRow.bindingSound (row : EntryRow) : Bool :=
  (!row.bindingRequired || row.binding.isSome) &&
    row.binding.all fun binding => binding.tenantId == row.call.scope.tenantId

def EntryRow.intact (env : Env) (row : EntryRow) : Bool :=
  row.transformVersion == ccrEntryVersion && row.contentBytes == byteLength row.original &&
    byteLength row.original ≤ maxOriginalBytes && row.contentSha256 == env.sha256Hex row.original

def CcrStore.validatedSavedOriginal (env : Env) (s : CcrStore) (call : SourceCall) (id : Text)
    (originalBytes : Nat) (sweepNow now : Int) : Option Text × CcrStore :=
  if !call.scope.valid || isBlank id || call.tool.isEmpty || call.callId.isEmpty then (none, s)
  else
    let opened := s.sweepExpiredIfDue sweepNow
    let saved := opened.entries.rows.find? fun row =>
      row.id == id && row.call == call && now < row.expiresAt && row.bindingSound &&
        opened.unrevoked row
    ((saved.filter fun row => row.intact env && row.contentBytes == originalBytes).map
      EntryRow.original, opened)

def CcrStore.validSavedReference (env : Env) (s : CcrStore) (call : SourceCall) (id : Text)
    (originalBytes : Nat) (sweepNow now : Int) : Bool :=
  (s.validatedSavedOriginal env call id originalBytes sweepNow now).1.isSome

structure CcrBoundSource where
  artifact : CcrSourceArtifact
  savedSha256 : Text

structure RetrievedChunk where
  text : Text
  byteOffset : Nat
  totalBytes : Nat
  truncated : Bool
  deriving DecidableEq

def maxReturnBytes : Nat := 64 * 1024

/-- The longest prefix of whole characters in `n` bytes. -/
def takeBytes : Nat → Text → Text
  | _, [] => []
  | n, c :: rest => if c.utf8Size ≤ n then c :: takeBytes (n - c.utf8Size) rest else []

/-- The fragment from `offset`, or from the first match of the query after it. -/
def chunkOf (original : Text) (query : Option Text) (offset maxBytes : Nat) :
    Option RetrievedChunk := do
  let skipped := takeBytes offset original
  let rest := original.drop skipped.length
  let before ← match query.filter (!·.isEmpty) with
    | some q => findSub q rest
    | none => some 0
  let text := takeBytes (min (max maxBytes 1) maxReturnBytes) (rest.drop before)
  return {
    text := text
    byteOffset := byteLength (skipped ++ rest.take before)
    totalBytes := byteLength original
    truncated := text.length < (rest.drop before).length }

/-- The caller may read the row: without a source it has just validated, an unbound one. -/
def EntryRow.authorized (row : EntryRow) (scope : CcrScope) :
    Option CcrBoundSource → Bool
  | none => !row.bindingRequired && row.binding.isNone
  | some bound => row.binding == some ⟨scope.tenantId, bound.artifact⟩ &&
      row.contentSha256 == bound.savedSha256

/-- `retrieve_with_validated_source`; `retrieve` is the call without a source. -/
def CcrStore.retrieve (env : Env) (s : CcrStore) (scope : CcrScope) (id : Text)
    (query : Option Text) (offset maxBytes : Nat) (source : Option CcrBoundSource)
    (sweepNow now : Int) : Except CcrError RetrievedChunk × CcrStore :=
  if !scope.valid then (.error .invalidScope, s)
  else
    let opened := s.sweepExpiredIfDue sweepNow
    if isBlank id then (.error .invalidScope, opened)
    else
      match opened.entries.rows.find? fun row =>
          row.id == id && row.call.scope == scope && now < row.expiresAt &&
            opened.unrevoked row with
      | none => (.error .notFound, opened)
      | some row =>
        if !row.authorized scope source then (.error .revoked, opened)
        else if !row.intact env then (.error .corrupt, opened)
        else
          match chunkOf row.original query offset maxBytes with
          | none => (.error .notFound, opened)
          | some chunk => (.ok chunk, opened)

structure CcrFindHit where
  id : Text
  byteOffset : Nat
  totalBytes : Nat
  exactPhrase : Bool
  matchedTerms : Nat

structure FindRank where
  exact : Bool
  matchedTerms : Nat
  gap : Nat
  byteOffset : Nat
  deriving DecidableEq

/-- The lexical search: which rows of the scope the statement returns, and
`lexical_find_rank`.  All that matters here is that the statement makes up no rows. -/
structure Search where
  selected : Text → List EntryRow → List EntryRow
  rank : Text → Text → Option FindRank
  selected_subset : ∀ query rows, selected query rows ⊆ rows

def FindRank.before (a b : FindRank) : Bool :=
  (a.exact && !b.exact) || (a.exact == b.exact && (b.matchedTerms < a.matchedTerms ||
    (a.matchedTerms == b.matchedTerms && a.gap ≤ b.gap)))

def EntryRow.hit (env : Env) (search : Search) (query : Text) (allowed : Option (List Text))
    (row : EntryRow) : Option (FindRank × CcrFindHit × Option CcrBoundSource) :=
  if (allowed.any fun tools => !tools.contains row.call.tool) || !row.intact env then none
  else
    (search.rank row.original query).bind fun rank =>
      let hit : CcrFindHit :=
        ⟨row.id, rank.byteOffset, byteLength row.original, rank.exact, rank.matchedTerms⟩
      match row.binding with
      | none => if row.bindingRequired then none else some (rank, hit, none)
      | some binding => some (rank, hit, some ⟨binding.artifact, row.contentSha256⟩)

def CcrStore.find (env : Env) (search : Search) (s : CcrStore) (scope : CcrScope) (query : Text)
    (allowed : Option (List Text)) (sweepNow now : Int) :
    Except CcrError (List (CcrFindHit × Option CcrBoundSource)) × CcrStore :=
  if !scope.valid then (.error .invalidScope, s)
  else if byteLength query < 3 || 128 < byteLength query || isBlank query then
    (.error .invalidQuery, s)
  else
    let opened := s.sweepExpiredIfDue sweepNow
    let inScope := opened.entries.rows.filter fun row =>
      row.call.scope == scope && now < row.expiresAt && row.bindingSound &&
        (allowed.all fun tools => tools.contains row.call.tool) && opened.unrevoked row
    let ranked := (search.selected query inScope).filterMap (EntryRow.hit env search query allowed)
    (.ok ((ranked.insertionSort fun a b => a.1.before b.1).map Prod.snd), opened)

/-! ## Runs -/

inductive Event where
  | put (args : PutCall)
  | revokeScope (scope : CcrScope) (sweepNow : Int)
  | revokeSourceCall (call : SourceCall) (sweepNow : Int)
  | revokeArtifactVersion (version : ArtifactVersion) (sweepNow : Int)
  | ensureSourceCallContent (call : SourceCall) (original : Text) (sweepNow now : Int)
  | revokeUnlistedSourceCalls (scope : CcrScope) (allowed : List Text) (sweepNow : Int)
  | validSavedReference (call : SourceCall) (id : Text) (originalBytes : Nat) (sweepNow now : Int)
  | retrieve (scope : CcrScope) (id : Text) (query : Option Text) (offset maxBytes : Nat)
      (source : Option CcrBoundSource) (sweepNow now : Int)
  | find (scope : CcrScope) (query : Text) (allowed : Option (List Text)) (sweepNow now : Int)

variable (env : Env) (limits : Limits) (search : Search)

def Event.step (s : CcrStore) : Event → CcrStore
  | .put args => (s.putWithArtifact env limits args).2
  | .revokeScope scope sweepNow => (s.revokeScope scope sweepNow).2
  | .revokeSourceCall call sweepNow => (s.revokeSourceCall call sweepNow).2
  | .revokeArtifactVersion version sweepNow => (s.revokeArtifactVersion version sweepNow).2
  | .ensureSourceCallContent call original sweepNow now =>
    (s.ensureSourceCallContent env call original sweepNow now).2
  | .revokeUnlistedSourceCalls scope allowed sweepNow =>
    (s.revokeUnlistedSourceCalls scope allowed sweepNow).2
  | .validSavedReference call id originalBytes sweepNow now =>
    (s.validatedSavedOriginal env call id originalBytes sweepNow now).2
  | .retrieve scope id query offset maxBytes source sweepNow now =>
    (s.retrieve env scope id query offset maxBytes source sweepNow now).2
  | .find scope query allowed sweepNow now =>
    (s.find env search scope query allowed sweepNow now).2

end DuDuClaw.Ccr
