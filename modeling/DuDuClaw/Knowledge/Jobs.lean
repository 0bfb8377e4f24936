/-
# Knowledge.Jobs -- sources and their jobs

A source goes through jobs that a worker claims under a lease: ingest, reindex and embed.
Three operations put a job in the queue, each with a guard of its own, and the status of a
source and the state of its jobs are written by different statements.

* `Follows`: what one step does to a job that stays in the table.
* `step_rows`: every job after a step follows one before it, or is new.
-/
import DuDuClaw.Knowledge.Collections

namespace DuDuClaw.Knowledge

open DuDuClaw.Lib

namespace Jobs

def MAX_ATTEMPTS : Nat := 3

inductive Status where
  | awaitingApproval
  | queued
  | extracting
  | indexing
  | embedding
  | ready
  | failed
  | deleting
  deriving DecidableEq

inductive JobKind where
  | ingest
  | reindex
  | embed
  deriving DecidableEq

inductive JobState where
  | queued
  | running
  | done
  | failed
  | cancelled
  deriving DecidableEq

def JobState.active (state : JobState) : Bool := state == .queued || state == .running

structure Source where
  id : Text
  collectionId : Text
  blobSha256 : Text
  bytes : Nat
  chunkCount : Nat
  status : Status
  errorCode : Option Text
  errorMessage : Option Text
  createdAt : Millis
  updatedAt : Millis
  deriving DecidableEq

structure Job where
  id : Nat
  sourceId : Text
  kind : JobKind
  state : JobState
  attempts : Nat
  leaseUntil : Option Millis
  errorCode : Option Text
  errorMessage : Option Text
  createdAt : Millis
  startedAt : Option Millis
  finishedAt : Option Millis
  deriving DecidableEq

/-- The tables, and the last id that AUTOINCREMENT gave to a job. -/
structure Store where
  collections : List Text
  sources : Table Source.id
  jobs : Table Job.id
  lastJob : Nat

def Store.start (collections : List Text) : Store := ⟨collections, .empty, .empty, 0⟩

namespace Store

def find (s : Store) (id : Text) : Option Source := s.sources.rows.find? (·.id == id)

/-- INSERT: the collection must exist and not have the blob yet. -/
def insertSource (row : Source) (s : Store) : Except KbError Store := do
  refuseIf (row.collectionId ∉ s.collections) .db
  refuseIf ((row.collectionId, row.blobSha256) ∈
    s.sources.rows.map fun other => (other.collectionId, other.blobSha256)) .db
  let sources ← okOr (s.sources.insert row) .db
  return { s with sources }

/-- `enqueue_tx`: the source must exist. -/
def enqueueTx (sourceId : Text) (kind : JobKind) (now : Millis) (s : Store) : Except KbError Store := do
  refuseIf (sourceId ∉ s.sources.rows.map Source.id) .db
  let jobs ← okOr (s.jobs.insert
    ⟨s.lastJob + 1, sourceId, kind, .queued, 0, none, none, none, now, none, none⟩) .db
  return { s with jobs, lastJob := s.lastJob + 1 }

/-- UPDATE of the selected jobs. -/
def editJobs (sel : Job → Bool) (edit : Job → Job) (keeps : ∀ j, (edit j).id = j.id) (s : Store) :
    Store :=
  { s with
    jobs := s.jobs.update (fun j => if sel j then edit j else j) fun j => keep_ite Job.id (keeps j) }

def editSources (sel : Source → Bool) (edit : Source → Source) (keeps : ∀ r, (edit r).id = r.id)
    (s : Store) : Store :=
  { s with
    sources :=
      s.sources.update (fun r => if sel r then edit r else r) fun r => keep_ite Source.id (keeps r) }

end Store

/-! ## The queue -/

def Job.claim (leaseUntil now : Millis) (j : Job) : Job :=
  { j with
    state := .running
    attempts := j.attempts + 1
    leaseUntil := some leaseUntil
    startedAt := j.startedAt.or (some now) }

theorem Job.claim_id (leaseUntil now : Millis) (j : Job) : (j.claim leaseUntil now).id = j.id := rfl

/-- `SELECT id FROM ingest_jobs WHERE state = 'queued' ORDER BY id LIMIT 1`. -/
def oldestQueued (s : Store) : Option Nat :=
  ((s.jobs.rows.filter (·.state == .queued)).map Job.id).min?

def claimNext (leaseUntil now : Millis) (s : Store) : Option Job × Store :=
  match oldestQueued s with
  | none => (none, s)
  | some id =>
    let s := s.editJobs (·.id == id) (Job.claim leaseUntil now) (Job.claim_id leaseUntil now)
    (s.jobs.rows.find? (·.id == id), s)

def renew (id : Nat) (leaseUntil : Millis) (s : Store) : Store :=
  s.editJobs (fun j => j.id == id && j.state == .running)
    (fun j => { j with leaseUntil := some leaseUntil }) fun _ => rfl

def complete (id : Nat) (now : Millis) (s : Store) : Store :=
  s.editJobs (fun j => j.id == id && j.state == .running)
    (fun j => { j with state := .done, leaseUntil := none, finishedAt := some now }) fun _ => rfl

def Job.failWith (code message : Text) (now : Millis) (j : Job) : Job :=
  { j with
    state := .failed
    leaseUntil := none
    errorCode := some code
    errorMessage := some message
    finishedAt := some now }

theorem Job.failWith_id (code message : Text) (now : Millis) (j : Job) :
    (j.failWith code message now).id = j.id := rfl

def fail (id : Nat) (code message : Text) (now : Millis) (s : Store) : Store :=
  s.editJobs (fun j => j.id == id && j.state == .running)
    (Job.failWith code (message.take 500) now) (Job.failWith_id _ _ _)

/-- A source that has an index stays searchable. -/
def recordFailure (id code message : Text) (now : Millis) (s : Store) : Store :=
  s.editSources (fun r => r.id == id && r.status ≠ .deleting)
    (fun r => { r with
      status := if 0 < r.chunkCount then .ready else .failed
      errorCode := some code
      errorMessage := some (message.take 500)
      updatedAt := now }) fun _ => rfl

def retryExhausted : Text := "retry_exhausted".toList

def exhaustedMessage : Text :=
  "處理這份文件時 DuDuClaw 多次中斷，已停止重試。請刪除後重新上傳，或聯絡管理員。".toList

def Job.expired (now : Millis) (j : Job) : Bool :=
  j.state == .running && j.leaseUntil.any (· < now)

def giveUp (now : Millis) (s : Store) (j : Job) : Store :=
  recordFailure j.sourceId retryExhausted exhaustedMessage now
    (s.editJobs (·.id == j.id) (Job.failWith retryExhausted exhaustedMessage now)
      (Job.failWith_id _ _ _))

def requeueExpired (now : Millis) (s : Store) : (Nat × List Text) × Store :=
  let exhausted := s.jobs.rows.filter fun j => j.expired now && MAX_ATTEMPTS ≤ j.attempts
  let s := exhausted.foldl (giveUp now) s
  let requeued := (s.jobs.rows.filter (Job.expired now)).length
  let s := s.editJobs (Job.expired now)
    (fun j => { j with state := .queued, leaseUntil := none }) fun _ => rfl
  ((requeued, exhausted.map Job.sourceId), s)

/-! ## Sources -/

structure KnowledgeConfig where
  maxSourceBytes : Nat
  maxSourcesPerCollection : Nat
  maxCollectionBytes : Nat
  maxTotalBytes : Nat
  maxChunksTotal : Nat

structure NewSource where
  collectionId : Text
  blobSha256 : Text
  bytes : Nat

inductive Added where
  | new (source : Source)
  | duplicate (source : Source)

/-- `{:.1}` of so many bytes in GiB. -/
def gib (b : Nat) : String :=
  let whole := b * 10 / 2 ^ 30
  let rest := b * 10 % 2 ^ 30
  let tenths :=
    if 2 ^ 29 < rest ∨ rest = 2 ^ 29 ∧ whole % 2 = 1 then whole + 1 else whole
  toString (tenths / 10) ++ "." ++ toString (tenths % 10)

def ofCollection (s : Store) (id : Text) : List Source :=
  s.sources.rows.filter (·.collectionId == id)

def totalBytes (rows : List Source) : Nat := (rows.map Source.bytes).sum

variable (new : NewSource)

def checkQuota (cfg : KnowledgeConfig) (s : Store) : Except KbError Unit := do
  refuseIf (cfg.maxSourcesPerCollection ≤ (ofCollection s new.collectionId).length)
    (.rejected "quota_sources"
      ("這個集合的來源數量已達上限（" ++ toString cfg.maxSourcesPerCollection ++ " 份）。"))
  refuseIf (cfg.maxCollectionBytes < totalBytes (ofCollection s new.collectionId) + new.bytes)
    (.rejected "quota_bytes" ("這個集合的原始檔總量已達上限（" ++ gib cfg.maxCollectionBytes ++ " GB）。"))
  refuseIf (cfg.maxTotalBytes < totalBytes s.sources.rows + new.bytes)
    (.rejected "quota_bytes" ("知識庫的原始檔總量已達上限（" ++ gib cfg.maxTotalBytes ++ " GB）。"))

def duplicateOf (s : Store) : Option Source :=
  s.sources.rows.find? fun r => r.collectionId == new.collectionId && r.blobSha256 == new.blobSha256

/-- The transaction of `add_source`: the id of the source, and whether it is new. -/
def addSourceIn (cfg : KnowledgeConfig) (uuid : Text) (now : Millis) :
    EStateM KbError Store (Bool × Text) := do
  match ← query fun s => .ok (duplicateOf new s) with
  | some existing => return (false, existing.id)
  | none =>
    let _ ← query (checkQuota new cfg)
    let id := "src_".toList ++ uuid
    execute (Store.insertSource
      ⟨id, new.collectionId, new.blobSha256, new.bytes, 0, .queued, none, none, now, now⟩)
    execute (Store.enqueueTx id .ingest now)
    return (true, id)

/-- `add_source` up to its commit. -/
def insertNew (cfg : KnowledgeConfig) (uuid : Text) (now : Millis) :
    EStateM KbError Store (Bool × Text) := do
  let _ ← query fun _ => refuseIf (cfg.maxSourceBytes < new.bytes) (.rejected "too_large"
    ("檔案超過 " ++ toString (cfg.maxSourceBytes / (1024 * 1024)) ++ " MB 上限。"))
  transaction (addSourceIn new cfg uuid now)

def getSource (id : Text) (s : Store) : Except KbError Source := okOr (s.find id) .permissionDenied

def addSource (cfg : KnowledgeConfig) (uuid : Text) (now : Millis) :
    EStateM KbError Store Added := do
  let added ← insertNew new cfg uuid now
  let source ← query (getSource added.2)
  return if added.1 then .new source else .duplicate source

/-- No-op on a source that is being deleted. -/
def setStatus (id : Text) (status : Status) (now : Millis) (s : Store) : Store :=
  s.editSources (fun r => r.id == id && r.status ≠ .deleting)
    (fun r => { r with status, updatedAt := now }) fun _ => rfl

def deleteSource (id : Text) (now : Millis) : EStateM KbError Store (Option Text) := transaction do
  let source ← query (getSource id)
  execute fun s => .ok (s.editSources (·.id == id) (fun r => { r with status := .deleting }) fun _ => rfl)
  execute fun s => .ok (s.editJobs (fun j => j.sourceId == id && j.state.active)
    (fun j => { j with state := .cancelled, finishedAt := some now }) fun _ => rfl)
  -- The jobs of the source go with it.
  execute fun s => .ok { s with
    sources := s.sources.deleteWhere (·.id == id)
    jobs := s.jobs.deleteWhere (·.sourceId == id) }
  let shared ← query fun s => .ok (s.sources.rows.any (·.blobSha256 == source.blobSha256))
  return if shared then none else some source.blobSha256

def reindexable : Status → Except KbError Unit
  | .deleting => .error .permissionDenied
  | .queued | .extracting | .indexing => .error (.invalid "這份來源正在處理中，請等完成後再重建。")
  | .awaitingApproval => .error (.invalid "這份來源還在等待審批。")
  | .embedding | .ready | .failed => .ok ()

def requestReindex (id : Text) (now : Millis) : EStateM KbError Store Unit := transaction do
  let source ← query (getSource id)
  let _ ← query fun _ => reindexable source.status
  let kind := if source.status = .failed then JobKind.ingest else .reindex
  execute fun s => .ok (if kind = .ingest then
    s.editSources (·.id == id)
      (fun r => { r with status := .queued, errorCode := none, errorMessage := none, updatedAt := now })
      fun _ => rfl
    else s)
  execute (Store.enqueueTx id kind now)

def busy (id : Text) (s : Store) : Bool := s.jobs.rows.any fun j => j.sourceId == id && j.state.active

def searchable (status : Status) : Bool := status == .ready || status == .embedding

def queueEmbed (id : Text) (now : Millis) : EStateM KbError Store Bool := transaction do
  let refused ← query fun s => .ok (busy id s || !(s.find id).any fun r => searchable r.status)
  if refused then return false
  else do
    execute (Store.enqueueTx id .embed now)
    execute fun s => .ok (s.editSources (·.id == id)
      (fun r => { r with status := .embedding, updatedAt := now }) fun _ => rfl)
    return true

def otherChunks (id : Text) (s : Store) : Nat :=
  ((s.sources.rows.filter (·.id ≠ id)).map Source.chunkCount).sum

def deletedAlready : KbError := .invalid "這份來源已被刪除。"

def writeIndex (id : Text) (chunks : Nat) (cfg : KnowledgeConfig) (now : Millis) :
    EStateM KbError Store Nat := transaction do
  let source ← query fun s => okOr (s.find id) deletedAlready
  let _ ← query fun _ => refuseIf (source.status = .deleting) deletedAlready
  let _ ← query fun s => refuseIf (cfg.maxChunksTotal < otherChunks id s + chunks)
    (.rejected "quota_chunks"
      ("知識庫的段落總數已達上限（" ++ toString cfg.maxChunksTotal ++ " 段），這份文件未匯入。"))
  execute fun s => .ok (s.editSources (·.id == id)
    (fun r => { r with
      status := .ready, chunkCount := chunks, errorCode := none, errorMessage := none
      updatedAt := now }) fun _ => rfl)
  return chunks

def finishEmbed (id : Text) (now : Millis) (s : Store) : Store :=
  s.editSources (fun r => r.id == id && searchable r.status)
    (fun r => { r with status := .ready, updatedAt := now }) fun _ => rfl

/-! ## Steps -/

inductive Event where
  | addSource (new : NewSource) (cfg : KnowledgeConfig) (uuid : Text) (now : Millis)
  | requestReindex (id : Text) (now : Millis)
  | queueEmbed (id : Text) (now : Millis)
  | claimNext (leaseUntil now : Millis)
  | renew (id : Nat) (leaseUntil : Millis)
  | complete (id : Nat) (now : Millis)
  | fail (id : Nat) (code message : Text) (now : Millis)
  | requeueExpired (now : Millis)
  | setStatus (id : Text) (status : Status) (now : Millis)
  | recordFailure (id code message : Text) (now : Millis)
  | writeIndex (id : Text) (chunks : Nat) (cfg : KnowledgeConfig) (now : Millis)
  | finishEmbed (id : Text) (now : Millis)
  | deleteSource (id : Text) (now : Millis)

def step (s : Store) : Event → Store
  | .addSource new cfg uuid now => after (addSource new cfg uuid now) s
  | .requestReindex id now => after (requestReindex id now) s
  | .queueEmbed id now => after (queueEmbed id now) s
  | .claimNext leaseUntil now => (claimNext leaseUntil now s).2
  | .renew id leaseUntil => renew id leaseUntil s
  | .complete id now => complete id now s
  | .fail id code message now => fail id code message now s
  | .requeueExpired now => (requeueExpired now s).2
  | .setStatus id status now => setStatus id status now s
  | .recordFailure id code message now => recordFailure id code message now s
  | .writeIndex id chunks cfg now => after (writeIndex id chunks cfg now) s
  | .finishEmbed id now => finishEmbed id now s
  | .deleteSource id now => after (deleteSource id now) s

/-! ## What a step does -/

def claimedBy (s : Store) : Event → Option Nat
  | .claimNext _ _ => oldestQueued s
  | _ => none

/-- What a step may do to a job that stays. -/
structure Follows (claimed : Option Nat) (j j' : Job) : Prop where
  id : j'.id = j.id
  source : j'.sourceId = j.sourceId
  moves :
    claimed = some j.id ∧ j.state = .queued ∧ j'.state = .running ∧ j'.attempts = j.attempts + 1 ∨
    claimed ≠ some j.id ∧ j'.attempts = j.attempts ∧
      (j'.state = j.state ∨ j.state = .running ∧ j'.state.active = false ∨
        j.state = .running ∧ j'.state = .queued ∧ j.attempts < MAX_ATTEMPTS)

/-- A request to reindex that passes its test. -/
def Reindexes (s : Store) (e : Event) (id : Text) : Prop :=
  ∃ now, e = .requestReindex id now ∧ ∃ source, s.find id = some source ∧
    reindexable source.status = .ok ()

/-- The three ways a step can go. -/
inductive Stepped (s : Store) (e : Event) (s' : Store) : Prop
  | edit (ids : s'.sources.rows.map Source.id = s.sources.rows.map Source.id)
      (lastJob : s'.lastJob = s.lastJob)
      (rows : ∀ j' ∈ s'.jobs.rows, ∃ j ∈ s.jobs.rows, Follows (claimedBy s e) j j')
  | enqueue (job : Job) (idle : claimedBy s e = none)
      (ids : ∀ id ∈ s.sources.rows.map Source.id, id ∈ s'.sources.rows.map Source.id)
      (known : job.sourceId ∈ s'.sources.rows.map Source.id) (lastJob : s'.lastJob = s.lastJob + 1)
      (fresh : job.id = s.lastJob + 1) (queued : job.state = .queued) (attempts : job.attempts = 0)
      (free : busy job.sourceId s = false ∨ Reindexes s e job.sourceId)
      (rows : s'.jobs.rows = s.jobs.rows ++ [job])
  | delete (id : Text) (idle : claimedBy s e = none)
      (ids : ∀ other ∈ s.sources.rows.map Source.id,
        other ≠ id → other ∈ s'.sources.rows.map Source.id)
      (lastJob : s'.lastJob = s.lastJob)
      (rows : ∀ j' ∈ s'.jobs.rows, j'.sourceId ≠ id ∧ j' ∈ s.jobs.rows)

section Spec

variable {s s' : Store} {e : Event} {id : Text} {now : Millis}

@[simp] theorem ids_editSources {sel : Source → Bool} {edit : Source → Source}
    (keeps : ∀ r, (edit r).id = r.id) :
    (s.editSources sel edit keeps).sources.rows.map Source.id = s.sources.rows.map Source.id := by
  unfold Store.editSources Table.update
  rw [List.map_map]
  exact List.map_congr_left fun r _ => keep_ite Source.id (keeps r)

theorem mem_editJobs {sel : Job → Bool} {edit : Job → Job} {keeps : ∀ j, (edit j).id = j.id} {j' : Job} :
    j' ∈ (s.editJobs sel edit keeps).jobs.rows ↔ ∃ j ∈ s.jobs.rows, (if sel j then edit j else j) = j' := by
  unfold Store.editJobs
  simp only [Table.mem_update]

theorem Follows.same {claimed : Option Nat} {j : Job} (other : claimed ≠ some j.id) :
    Follows claimed j j := ⟨rfl, rfl, .inr ⟨other, rfl, .inl rfl⟩⟩

theorem Stepped.of_jobs (idle : claimedBy s e = none)
    (ids : s'.sources.rows.map Source.id = s.sources.rows.map Source.id) (jobs : s'.jobs = s.jobs)
    (lastJob : s'.lastJob = s.lastJob) : Stepped s e s' :=
  .edit ids lastJob fun j listed => ⟨j, jobs ▸ listed, .same (by simp [idle])⟩

/-- An UPDATE of jobs that stops some of the running ones, or leaves their states. -/
theorem Stepped.of_editJobs (idle : claimedBy s e = none) {sel : Job → Bool} {edit : Job → Job}
    (keeps : ∀ j, (edit j).id = j.id) (source : ∀ j, (edit j).sourceId = j.sourceId)
    (attempts : ∀ j, (edit j).attempts = j.attempts) (moves : ∀ j, sel j → j.state = .running ∧
      ((edit j).state = j.state ∨ (edit j).state.active = false)) :
    Stepped s e (s.editJobs sel edit keeps) := by
  refine .edit rfl rfl fun j' listed => ?_
  rw [mem_editJobs] at listed
  obtain ⟨j, before, rfl⟩ := listed
  refine ⟨j, before, ?_⟩
  split
  · rename_i selected
    obtain ⟨running, same | stopped⟩ := moves j selected
    · exact ⟨keeps j, source j, .inr ⟨by simp [idle], attempts j, .inl same⟩⟩
    · exact ⟨keeps j, source j, .inr ⟨by simp [idle], attempts j, .inr (.inl ⟨running, stopped⟩)⟩⟩
  · exact .same (by simp [idle])

theorem running_of_selected {id : Nat} {j : Job} (selected : (j.id == id && j.state == .running) = true) :
    j.state = .running := beq_iff_eq.mp (Bool.and_eq_true_iff.mp selected).2

theorem stepped_renew {id : Nat} {leaseUntil : Millis} :
    Stepped s (.renew id leaseUntil) (renew id leaseUntil s) := by
  unfold renew
  exact .of_editJobs rfl _ (fun _ => rfl) (fun _ => rfl) fun j selected =>
    ⟨running_of_selected selected, .inl rfl⟩

theorem stepped_complete {id : Nat} : Stepped s (.complete id now) (complete id now s) := by
  unfold complete
  exact .of_editJobs rfl _ (fun _ => rfl) (fun _ => rfl) fun j selected =>
    ⟨running_of_selected selected, .inr rfl⟩

theorem stepped_fail {id : Nat} {code message : Text} :
    Stepped s (.fail id code message now) (fail id code message now s) := by
  unfold fail
  exact .of_editJobs rfl _ (fun _ => rfl) (fun _ => rfl) fun j selected =>
    ⟨running_of_selected selected, .inr rfl⟩

theorem oldestQueued_mem {n : Nat} (oldest : oldestQueued s = some n) :
    ∃ j ∈ s.jobs.rows, j.id = n ∧ j.state = .queued := by
  have listed := List.min?_mem oldest
  obtain ⟨j, queued, rfl⟩ := List.mem_map.mp listed
  obtain ⟨before, state⟩ := List.mem_filter.mp queued
  exact ⟨j, before, rfl, by simpa using state⟩

theorem stepped_claimNext {leaseUntil : Millis} :
    Stepped s (.claimNext leaseUntil now) (claimNext leaseUntil now s).2 := by
  unfold claimNext
  cases oldest : oldestQueued s with
  | none => exact .of_jobs oldest rfl rfl rfl
  | some n =>
    obtain ⟨first, there, rfl, queued⟩ := oldestQueued_mem oldest
    dsimp only
    refine .edit rfl rfl fun j' listed => ?_
    rw [mem_editJobs] at listed
    obtain ⟨j, before, rfl⟩ := listed
    refine ⟨j, before, ?_⟩
    have claimed : claimedBy s (.claimNext leaseUntil now) = some first.id := oldest
    rw [claimed]
    split
    · rename_i taken
      have same := s.jobs.unique there before (beq_iff_eq.mp taken).symm
      exact ⟨rfl, rfl, .inl ⟨congrArg (some ·.id) same, same ▸ queued, rfl, rfl⟩⟩
    · rename_i other
      exact .same fun same => other (beq_iff_eq.mpr (Option.some.inj same).symm)

/-! ### Expired leases -/

theorem mem_giveUp {g j' : Job} (listed : j' ∈ (giveUp now s g).jobs.rows) :
    ∃ j ∈ s.jobs.rows, (if j.id == g.id then j.failWith retryExhausted exhaustedMessage now else j) = j' := by
  unfold giveUp recordFailure Store.editSources at listed
  dsimp only at listed
  rwa [mem_editJobs] at listed

/-- A job is given up when it is on the list, and left alone otherwise. -/
theorem mem_giveUps {given : List Job} {j' : Job} (listed : j' ∈ (given.foldl (giveUp now) s).jobs.rows) :
    ∃ j ∈ s.jobs.rows, j' = j ∧ (∀ g ∈ given, g.id ≠ j.id) ∨
      j' = j.failWith retryExhausted exhaustedMessage now ∧ ∃ g ∈ given, g.id = j.id := by
  induction given generalizing s with
  | nil => exact ⟨j', listed, .inl ⟨rfl, by simp⟩⟩
  | cons g more ih =>
    obtain ⟨j, middle, moved⟩ := ih listed
    obtain ⟨j₀, before, rfl⟩ := mem_giveUp middle
    refine ⟨j₀, before, ?_⟩
    split at moved
    · rename_i same
      have here : ∃ h ∈ g :: more, h.id = j₀.id := ⟨g, List.mem_cons_self .., (beq_iff_eq.mp same).symm⟩
      obtain ⟨rfl, -⟩ | ⟨rfl, -⟩ := moved
      · exact .inr ⟨rfl, here⟩
      · exact .inr ⟨rfl, here⟩
    rename_i other
    have apart : g.id ≠ j₀.id := fun same => other (beq_iff_eq.mpr same.symm)
    obtain ⟨rfl, rest⟩ | ⟨rfl, h, there, same⟩ := moved
    · exact .inl ⟨rfl, List.forall_mem_cons.mpr ⟨apart, rest⟩⟩
    · exact .inr ⟨rfl, h, List.mem_cons_of_mem g there, same⟩

theorem giveUps_frame (given : List Job) (s : Store) :
    (given.foldl (giveUp now) s).sources.rows.map Source.id = s.sources.rows.map Source.id ∧
      (given.foldl (giveUp now) s).lastJob = s.lastJob := by
  induction given generalizing s with
  | nil => exact ⟨rfl, rfl⟩
  | cons g more ih =>
    obtain ⟨ids, lastJob⟩ := ih (giveUp now s g)
    refine ⟨ids.trans ?_, lastJob⟩
    unfold giveUp recordFailure
    rw [ids_editSources]
    rfl

theorem stepped_requeueExpired : Stepped s (.requeueExpired now) (requeueExpired now s).2 := by
  unfold requeueExpired
  dsimp only
  generalize given_eq : (s.jobs.rows.filter fun j => j.expired now && MAX_ATTEMPTS ≤ j.attempts) = given
  obtain ⟨ids, lastJob⟩ := @giveUps_frame now given s
  refine .edit ids lastJob fun j' listed => ?_
  rw [mem_editJobs] at listed
  obtain ⟨j₁, middle, rfl⟩ := listed
  obtain ⟨j, before, moved⟩ := mem_giveUps middle
  refine ⟨j, before, ?_⟩
  have idle : claimedBy s (.requeueExpired now) ≠ some j.id := by simp [claimedBy]
  have on_list : ∀ g ∈ given, g.id = j.id → j.expired now ∧ MAX_ATTEMPTS ≤ j.attempts := by
    intro g there same
    rw [← given_eq] at there
    obtain ⟨listed, spent⟩ := List.mem_filter.mp there
    rw [← s.jobs.unique listed before same]
    simpa using spent
  obtain ⟨rfl, off_list⟩ | ⟨rfl, g, there, same⟩ := moved
  · split
    · rename_i expired
      have running : j₁.state = .running := by
        simp only [Job.expired, Bool.and_eq_true, beq_iff_eq] at expired
        exact expired.1
      refine ⟨rfl, rfl, .inr ⟨idle, rfl, .inr (.inr ⟨running, rfl, ?_⟩)⟩⟩
      by_contra spent
      refine off_list j₁ ?_ rfl
      rw [← given_eq]
      exact List.mem_filter.mpr ⟨before, by simp [expired, Nat.le_of_not_lt spent]⟩
    · exact .same idle
  · have running : j.state = .running := by
      have expired := (on_list g there same).1
      simp only [Job.expired, Bool.and_eq_true, beq_iff_eq] at expired
      exact expired.1
    rw [if_neg (by simp [Job.expired, Job.failWith])]
    exact ⟨rfl, rfl, .inr ⟨idle, rfl, .inr (.inl ⟨running, rfl⟩)⟩⟩

/-! ### New jobs -/

/-- What holds of the tables in every run. -/
structure Sound (s : Store) : Prop where
  ids : ∀ j ∈ s.jobs.rows, j.id ≤ s.lastJob
  refs : ∀ j ∈ s.jobs.rows, j.sourceId ∈ s.sources.rows.map Source.id
  queued : ∀ j ∈ s.jobs.rows, j.state = .queued → j.attempts < MAX_ATTEMPTS
  running : ∀ j ∈ s.jobs.rows, j.state = .running → j.attempts ≤ MAX_ATTEMPTS

theorem enqueueTx_cases {kind : JobKind} (wrote : s.enqueueTx id kind now = .ok s') :
    id ∈ s.sources.rows.map Source.id ∧ s'.sources = s.sources ∧ s'.lastJob = s.lastJob + 1 ∧
      ∃ job : Job, job.id = s.lastJob + 1 ∧ job.sourceId = id ∧ job.state = .queued ∧
        job.attempts = 0 ∧ s'.jobs.rows = s.jobs.rows ++ [job] := by
  unfold Store.enqueueTx at wrote
  obtain ⟨_, known, wrote⟩ := bind_ok.mp wrote
  obtain ⟨jobs, inserted, wrote⟩ := bind_ok.mp wrote
  cases wrote
  refine ⟨by simpa using refuseIf_ok.mp known, rfl, rfl, ?_⟩
  have rows := (Table.insert_cases (okOr_ok.mp inserted)).2
  refine ⟨_, ?_, ?_, ?_, ?_, rows⟩ <;> rfl

theorem enqueueTx_succeeds (kind : JobKind) (now : Millis) (known : id ∈ s.sources.rows.map Source.id)
    (ids : ∀ j ∈ s.jobs.rows, j.id ≤ s.lastJob) : ∃ s', s.enqueueTx id kind now = .ok s' := by
  let job : Job := ⟨s.lastJob + 1, id, kind, .queued, 0, none, none, none, now, none, none⟩
  have fresh : ∀ j ∈ s.jobs.rows, j.id ≠ job.id := by
    intro j listed same
    have := ids j listed
    dsimp only [job] at same
    omega
  obtain ⟨jobs, inserted⟩ := Table.insert_fresh fresh
  refine ⟨_, bind_ok.mpr ⟨(), by simpa using known, bind_ok.mpr ⟨jobs, ?_, rfl⟩⟩⟩
  exact okOr_ok.mpr inserted

/-- A job that is put in the queue after the sources were written. -/
theorem Stepped.of_enqueue (mid : Store) {kind : JobKind} (idle : claimedBy s e = none)
    (ids : ∀ other ∈ s.sources.rows.map Source.id, other ∈ mid.sources.rows.map Source.id)
    (jobs : mid.jobs = s.jobs) (lastJob : mid.lastJob = s.lastJob)
    (free : busy id s = false ∨ Reindexes s e id) (wrote : mid.enqueueTx id kind now = .ok s') :
    Stepped s e s' := by
  obtain ⟨known, sources, last, job, fresh, source, queued, attempts, rows⟩ := enqueueTx_cases wrote
  rw [lastJob] at fresh last
  rw [jobs] at rows
  subst source
  exact .enqueue job idle (by rwa [sources]) (by rwa [sources]) last fresh queued attempts free rows

theorem Stepped.editSources {sel : Source → Bool} {edit : Source → Source}
    (stepped : Stepped s e s') (keeps : ∀ r, (edit r).id = r.id) :
    Stepped s e (s'.editSources sel edit keeps) := by
  cases stepped with
  | edit ids lastJob rows => exact .edit ((ids_editSources keeps).trans ids) lastJob rows
  | enqueue job idle ids known lastJob fresh queued attempts free rows =>
    refine .enqueue job idle ?_ ?_ lastJob fresh queued attempts free rows
    · rwa [ids_editSources]
    · rwa [ids_editSources]
  | delete gone idle ids lastJob rows =>
    refine .delete gone idle ?_ lastJob rows
    rwa [ids_editSources]

theorem find_some {source : Source} (found : s.find id = some source) :
    source ∈ s.sources.rows ∧ source.id = id :=
  ⟨List.mem_of_find?_eq_some found, by simpa using List.find?_some found⟩

/-- `add_source` writes nothing, or a row and its job. -/
theorem addSource_cases (new : NewSource) (cfg : KnowledgeConfig) (uuid : Text) (now : Millis) (s : Store) :
    after (addSource new cfg uuid now) s = s ∨ ∃ row mid, row.blobSha256 = new.blobSha256 ∧
      s.insertSource row = .ok mid ∧
        mid.enqueueTx row.id .ingest now = .ok (after (addSource new cfg uuid now) s) := by
  have clean : Clean (insertNew new cfg uuid now) := clean_query_bind fun _ => clean_transaction _
  rw [addSource, after_bind_reads fun added t => (after_bind_reads (fun _ _ => rfl) t).trans (after_query _ t)]
  obtain same | ⟨added, returned⟩ := clean.after_cases s
  · exact .inl same
  generalize after (insertNew new cfg uuid now) s = s' at returned ⊢
  obtain ⟨_, -, returned⟩ := query_bind.mp returned
  rw [transaction_returned] at returned
  obtain ⟨existing, asked, returned⟩ := query_bind.mp returned
  cases asked
  cases twin : duplicateOf new s with
  | some existing =>
    rw [twin] at returned
    exact .inl (pure_returned.mp returned).2.symm
  | none =>
    rw [twin] at returned
    obtain ⟨_, -, returned⟩ := query_bind.mp returned
    obtain ⟨mid, inserted, returned⟩ := execute_bind.mp returned
    obtain ⟨last, queued, returned⟩ := execute_bind.mp returned
    obtain ⟨-, rfl⟩ := pure_returned.mp returned
    exact .inr ⟨_, mid, rfl, inserted, queued⟩

theorem insertSource_cases {row : Source} (inserted : s.insertSource row = .ok s') :
    ∃ sources, (∀ other ∈ s.sources.rows, other.id ≠ row.id) ∧
      sources.rows = s.sources.rows ++ [row] ∧ s' = { s with sources } := by
  unfold Store.insertSource at inserted
  obtain ⟨_, -, inserted⟩ := bind_ok.mp inserted
  obtain ⟨_, -, inserted⟩ := bind_ok.mp inserted
  obtain ⟨sources, fresh, inserted⟩ := bind_ok.mp inserted
  cases inserted
  obtain ⟨fresh, rows⟩ := Table.insert_cases (okOr_ok.mp fresh)
  exact ⟨sources, fresh, rows, rfl⟩

theorem stepped_addSource (sound : Sound s) {new : NewSource} {cfg : KnowledgeConfig} {uuid : Text} :
    Stepped s (.addSource new cfg uuid now) (after (addSource new cfg uuid now) s) := by
  obtain same | ⟨row, mid, -, inserted, queued⟩ := addSource_cases new cfg uuid now s
  · rw [same]
    exact .of_jobs rfl rfl rfl rfl
  obtain ⟨sources, fresh, rows, rfl⟩ := insertSource_cases inserted
  refine .of_enqueue { s with sources } rfl (fun other known => ?_) rfl rfl (.inl ?_) queued
  · dsimp only
    rw [rows, List.map_append]
    exact List.mem_append_left _ known
  · -- A new source has no job yet.
    rw [busy, List.any_eq_false]
    intro j listed own
    obtain ⟨source, known, same⟩ := List.mem_map.mp (sound.refs j listed)
    refine fresh source known (same.trans ?_)
    exact beq_iff_eq.mp (Bool.and_eq_true_iff.mp own).1

theorem stepped_requestReindex : Stepped s (.requestReindex id now) (after (requestReindex id now) s) := by
  obtain same | ⟨_, returned⟩ := after_transaction _ s
  · rw [requestReindex, same]
    exact .of_jobs rfl rfl rfl rfl
  obtain ⟨source, found, returned⟩ := query_bind.mp returned
  obtain ⟨_, passes, returned⟩ := query_bind.mp returned
  obtain ⟨mid, wrote, returned⟩ := execute_bind.mp returned
  cases wrote
  refine .of_enqueue _ rfl ?_ ?_ ?_ (.inr ⟨now, rfl, source, okOr_ok.mp found, passes⟩)
    (execute_returned.mp returned) <;> split
  · simp
  · simp
  · rfl
  · rfl
  · rfl
  · rfl

theorem stepped_queueEmbed : Stepped s (.queueEmbed id now) (after (queueEmbed id now) s) := by
  obtain same | ⟨_, returned⟩ := after_transaction _ s
  · rw [queueEmbed, same]
    exact .of_jobs rfl rfl rfl rfl
  change Stepped s _ (after (transaction _) s)
  generalize after (transaction _) s = s' at returned ⊢
  obtain ⟨refused, asked, returned⟩ := query_bind.mp returned
  cases asked
  split at returned
  · obtain ⟨-, rfl⟩ := pure_returned.mp returned
    exact .of_jobs rfl rfl rfl rfl
  rename_i free
  obtain ⟨mid, queued, returned⟩ := execute_bind.mp returned
  obtain ⟨last, wrote, returned⟩ := execute_bind.mp returned
  obtain ⟨-, rfl⟩ := pure_returned.mp returned
  cases wrote
  rw [Bool.not_eq_true, Bool.or_eq_false_iff] at free
  exact (Stepped.of_enqueue s rfl (fun _ known => known) rfl rfl (.inl free.1) queued).editSources _

theorem stepped_writeIndex {chunks : Nat} {cfg : KnowledgeConfig} :
    Stepped s (.writeIndex id chunks cfg now) (after (writeIndex id chunks cfg now) s) := by
  have still : Stepped s (.writeIndex id chunks cfg now) s := .of_jobs rfl rfl rfl rfl
  obtain same | ⟨_, returned⟩ := after_transaction _ s
  · rwa [writeIndex, same]
  change Stepped s _ (after (transaction _) s)
  generalize after (transaction _) s = s' at returned ⊢
  obtain ⟨source, -, returned⟩ := query_bind.mp returned
  obtain ⟨_, -, returned⟩ := query_bind.mp returned
  obtain ⟨_, -, returned⟩ := query_bind.mp returned
  obtain ⟨mid, wrote, returned⟩ := execute_bind.mp returned
  obtain ⟨-, rfl⟩ := pure_returned.mp returned
  cases wrote
  exact still.editSources _

/-- `delete_source` writes nothing, or deletes the source with its jobs. -/
theorem deleteSource_cases (id : Text) (now : Millis) (s : Store) :
    after (deleteSource id now) s = s ∨ ∃ marked stopped,
      marked = s.editSources (·.id == id) (fun r => { r with status := .deleting }) (fun _ => rfl) ∧
      stopped = marked.editJobs (fun j => j.sourceId == id && j.state.active)
        (fun j => { j with state := .cancelled, finishedAt := some now }) (fun _ => rfl) ∧
      after (deleteSource id now) s = { stopped with
        sources := stopped.sources.deleteWhere (·.id == id)
        jobs := stopped.jobs.deleteWhere (·.sourceId == id) } := by
  obtain same | ⟨_, returned⟩ := after_transaction _ s
  · exact .inl same
  change _ ∨ ∃ marked stopped, _ ∧ _ ∧ after (transaction _) s = _
  generalize after (transaction _) s = s' at returned ⊢
  obtain ⟨source, -, returned⟩ := query_bind.mp returned
  obtain ⟨marked, wrote, returned⟩ := execute_bind.mp returned
  obtain ⟨stopped, cancelled, returned⟩ := execute_bind.mp returned
  obtain ⟨gone, deleted, returned⟩ := execute_bind.mp returned
  obtain ⟨shared, -, returned⟩ := query_bind.mp returned
  obtain ⟨-, rfl⟩ := pure_returned.mp returned
  cases wrote
  cases cancelled
  cases deleted
  exact .inr ⟨_, _, rfl, rfl, rfl⟩

theorem stepped_deleteSource : Stepped s (.deleteSource id now) (after (deleteSource id now) s) := by
  obtain same | ⟨marked, stopped, rfl, rfl, gone⟩ := deleteSource_cases id now s
  · rw [same]
    exact .of_jobs rfl rfl rfl rfl
  rw [gone]
  refine .delete id rfl (fun other known differ => ?_) rfl fun j' listed => ?_
  · dsimp only
    rw [← @ids_editSources s (·.id == id) (fun r => { r with status := .deleting }) fun _ => rfl]
      at known
    obtain ⟨row, there, rfl⟩ := List.mem_map.mp known
    exact List.mem_map.mpr ⟨row, Table.mem_deleteWhere.mpr ⟨there, by simpa using differ⟩, rfl⟩
  · obtain ⟨listed, apart⟩ := Table.mem_deleteWhere.mp listed
    have apart : j'.sourceId ≠ id := by simpa using apart
    rw [mem_editJobs] at listed
    obtain ⟨j, before, rfl⟩ := listed
    split at apart
    · rename_i selected
      simp only [Bool.and_eq_true, beq_iff_eq] at selected
      exact absurd selected.1 apart
    · rename_i left
      rw [if_neg left]
      exact ⟨apart, before⟩

theorem stepped (sound : Sound s) (e : Event) : Stepped s e (step s e) := by
  cases e with
  | addSource new cfg uuid now => exact stepped_addSource sound
  | requestReindex id now => exact stepped_requestReindex
  | queueEmbed id now => exact stepped_queueEmbed
  | claimNext leaseUntil now => exact stepped_claimNext
  | renew id leaseUntil => exact stepped_renew
  | complete id now => exact stepped_complete
  | fail id code message now => exact stepped_fail
  | requeueExpired now => exact stepped_requeueExpired
  | setStatus id status now => exact .of_jobs rfl (by simp [step, setStatus]) rfl rfl
  | recordFailure id code message now => exact .of_jobs rfl (by simp [step, recordFailure]) rfl rfl
  | writeIndex id chunks cfg now => exact stepped_writeIndex
  | finishEmbed id now => exact .of_jobs rfl (by simp [step, finishEmbed]) rfl rfl
  | deleteSource id now => exact stepped_deleteSource

end Spec

end Jobs

end DuDuClaw.Knowledge
