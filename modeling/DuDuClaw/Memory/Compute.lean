/-
# Memory.Compute -- what a forget plan would remove

`compute` of engine/forget_source/body.rs with turns.rs and body_aux.rs: the rows whose
lineage matches the selected sources, rows of before lineage was kept, everything
derived from them, and what goes with them.  Plan and apply both run it.

* `compute_spec`: what its result says about the database.
* `legacyClosure_exact`: the closure over recorded parents adds exactly the rows they lead to.
-/
import DuDuClaw.Memory.Lineage
import Mathlib.Data.List.Perm.Subperm

namespace DuDuClaw.Memory

open DuDuClaw.Lib

def bfsMaxNodes : Nat := 10000

def bfsMaxDepth : Nat := 32

/-! ## Tombstones of a selector -/

def storeIdLt (a b : StoreName × Id) : Bool :=
  match a.1, b.1 with
  | .keyFacts, .memories => true
  | .memories, .keyFacts => false
  | _, _ => textLt a.2 b.2

def tombstoneSpecs (agentId : Text) (sel : FrozenSelector) : List Tombstone :=
  if sel.messages.isEmpty then
    [{ agentId := agentId, session := sel.session, scope := .sessionUpto, message := []
       uptoSeq := sel.uptoSeq, uptoTime := sel.uptoTime }]
  else
    sel.messages.map fun message =>
      { agentId := agentId, session := sel.session, scope := .message, message := message
        uptoSeq := none, uptoTime := none }

/-- The turn keys that belong to the selected messages, or to the whole session. -/
def Db.linkedTurnKeys (s : Db) (agentId : Text) (sel : FrozenSelector) : List Text :=
  if sel.messages.isEmpty then
    (s.origins.filter fun o => o.agentId == agentId && o.session == sel.session &&
      o.kind == .source .mcpTurn && o.fenced (tombstoneSpecs agentId sel) o.agentId).map
        Origin.message
  else
    (sel.messages.filter fun m => ['m', ':'].isPrefixOf m).flatMap fun m =>
      ((s.turnLinks.filter fun link => link.session == sel.session && link.userMessage == m).map
        TurnLink.turnMessage) ++
      ((s.origins.filter fun t => t.session == sel.session && t.kind == .source .mcpTurn &&
        t.role == .direct && s.origins.any fun c =>
          c.store == t.store && c.memoryId == t.memoryId && c.agentId == t.agentId &&
            c.session == sel.session && c.kind == .source .channelMessage && c.role == .direct &&
            c.message == m).map Origin.message)

def Db.linkedTurnSpecs (s : Db) (agentId : Text) (sel : FrozenSelector) : List Tombstone :=
  ((toSet textLt (s.linkedTurnKeys agentId sel)).filter fun key => !sel.messages.contains key).map
    fun key =>
      { agentId := agentId, session := sel.session, scope := .message, message := key
        uptoSeq := none, uptoTime := none }

/-- The tombstones a plan of the selector would write. -/
def Db.candidates (s : Db) (agentId : Text) (sel : FrozenSelector) : List Tombstone :=
  tombstoneSpecs agentId sel ++ s.linkedTurnSpecs agentId sel

/-- `tombstone_upto_label`. -/
def uptoLabel (f : Tombstone) : Text :=
  match f.uptoSeq, f.uptoTime with
  | none, none => []
  | seq, time =>
    "seq:".toList ++ (seq.map JsonOf.numText).getD [] ++ "|time:".toList ++ time.getD []

def Tombstone.digest (env : Env) (f : Tombstone) : Text :=
  sourceDigest env f.agentId f.session f.message (uptoLabel f)

/-! ## Rows found through lineage -/

def Db.matchedOrigins (s : Db) (agentId : Text) (sel : FrozenSelector) : List Origin :=
  s.origins.filter fun o => o.agentId == agentId && o.session == sel.session &&
    o.fenced (s.candidates agentId sel) o.agentId

structure FoundRow where
  store : StoreName
  id : Id
  keys : List Origin

/-- `found.rows`: the matched lineage by row, in the order of store and id. -/
def Db.foundRows (s : Db) (agentId : Text) (sel : FrozenSelector) : List FoundRow :=
  let hits := s.matchedOrigins agentId sel
  (toSet storeIdLt (hits.map fun o => (o.store, o.memoryId))).map fun key =>
    { store := key.1, id := key.2
      keys := hits.filter fun o => o.store == key.1 && o.memoryId == key.2 }

def FoundRow.deleting (row : FoundRow) : Bool := row.keys.any fun o => o.role != .reaffirm

def FoundRow.live (s : Db) (agentId : Text) (row : FoundRow) : Bool :=
  s.rowExists row.store row.id agentId

/-- The rows of one store that go because of their own lineage. -/
def Db.foundIds (s : Db) (agentId : Text) (sel : FrozenSelector) (store : StoreName) :
    List (Id × Via) :=
  ((s.foundRows agentId sel).filter fun row =>
    row.deleting && row.live s agentId && row.store == store).map fun row => (row.id, .origins)

/-- Archived rows without a live copy. -/
def Db.foundArchive (s : Db) (agentId : Text) (sel : FrozenSelector) : List Id :=
  ((s.foundRows agentId sel).filter fun row =>
    row.deleting && !row.live s agentId && row.store == .memories && s.archived row.id agentId).map
      FoundRow.id

def Db.foundLineageOnly (s : Db) (agentId : Text) (sel : FrozenSelector) : List (StoreName × Id) :=
  ((s.foundRows agentId sel).filter fun row =>
    row.deleting && !row.live s agentId &&
      !(row.store == .memories && s.archived row.id agentId)).map fun row => (row.store, row.id)

def Db.foundReaffirm (s : Db) (agentId : Text) (sel : FrozenSelector) : List FoundRow :=
  (s.foundRows agentId sel).filter fun row => !row.deleting && row.live s agentId

/-! ## Rows of before lineage -/

def Db.untracked (s : Db) (store : StoreName) (id : Id) : Bool :=
  !s.origins.any fun o => o.store == store && o.memoryId == id

def keepOr (ids : List (Id × Via)) (id : Id) (via : Via) : List (Id × Via) :=
  insertWith textLt (fun old => old) id via ids

/-- The `key_facts` half of `legacy_session_rows`. -/
def Db.legacyFacts (env : Env) (s : Db) (agentId session : Text) (upto : Int) : List Id :=
  (s.keyFacts.rows.filter fun row => row.agentId == agentId && row.sourceSession == session &&
    s.untracked .keyFacts row.id && (env.parseRfc3339 row.timestamp).any fun t => t ≤ upto).map
      KeyFactRow.id

/-- The `memories` half. -/
def Db.legacyMemories (env : Env) (s : Db) (agentId session : Text) (upto : Int) : List Id :=
  (s.memories.rows.filter fun row => row.agentId == agentId &&
    env.metadataSessionId row.metadata == some session && s.untracked .memories row.id &&
    (env.parseRfc3339 row.timestamp).any fun t => t ≤ upto).map MemoryRow.id

def Db.recordedChildren (env : Env) (s : Db) (agentId : Text) : List (Id × Id × Via) :=
  (s.memories.rows.filter fun row => row.agentId == agentId).flatMap fun row =>
    ((row.derivedFrom.map env.parseIds).getD []).map (fun p => (p, row.id, Via.derivedFrom)) ++
      (((env.metadataSourceIds row.metadata).map env.parseIds).getD []).map fun p =>
        (p, row.id, Via.sourceIds)

inductive TooLarge where
  | rows (total limit : Nat)
  | depth
  | nodes

/-- The state of `legacy_closure`. -/
structure Walk where
  visited : List Id
  queue : List (Id × Nat)
  discovered : Nat
  ids : List (Id × Via)

/-- The loop over the children of one node. -/
def Walk.visit (depth : Nat) : List (Id × Via) → Walk → Except TooLarge Walk
  | [], w => .ok w
  | (kid, via) :: more, w =>
    if w.visited.contains kid then Walk.visit depth more w
    else if bfsMaxDepth < depth + 1 then .error .depth
    else if bfsMaxNodes < w.discovered + 1 then .error .nodes
    else
      Walk.visit depth more
        { visited := kid :: w.visited
          queue := w.queue ++ [(kid, depth + 1)]
          discovered := w.discovered + 1
          ids := keepOr w.ids kid via }

/-- The breadth-first loop; every node was queued once, so the roots and the nodes that
may be discovered are enough. -/
def legacyWalk (children : List (Id × Id × Via)) : Nat → Walk → Except TooLarge Walk
  | 0, w => .ok w
  | fuel + 1, w =>
    match w.queue with
    | [] => .ok w
    | (node, depth) :: rest =>
      let kids := (children.filter fun c => c.1 == node).map Prod.snd
      match Walk.visit depth kids { w with queue := rest } with
      | .error reason => .error reason
      | .ok next => legacyWalk children fuel next

def Db.legacyClosure (env : Env) (s : Db) (agentId : Text) (roots : List Id)
    (ids : List (Id × Via)) : Except TooLarge (List (Id × Via)) :=
  (legacyWalk (s.recordedChildren env agentId) (roots.length + bfsMaxNodes)
    { visited := roots, queue := roots.map fun root => (root, 0), discovered := 0, ids := ids }).map
      Walk.ids

/-! ## Details -/

def Db.targetEntry (env : Env) (s : Db) (agentId : Text) (store : StoreName) (id : Id) (via : Via)
    (direct : Bool) (hits : List (Text × Text)) : Except MemError TargetEntry :=
  let row : Option (Text × Text × Option Text) :=
    match store with
    | .memories =>
      (s.memories.rows.find? fun row => row.id == id && row.agentId == agentId).map fun row =>
        (row.content, row.layer, row.predicate)
    | .keyFacts =>
      (s.keyFacts.rows.find? fun row => row.id == id && row.agentId == agentId).map fun row =>
        (row.fact, "key_fact".toList, none)
  match row with
  | none => .error .missingRow
  | some (content, layer, predicate) =>
    let keys := (s.origins.filter fun o => o.store == store && o.memoryId == id &&
      o.kind != .source .upstreamUnknown).map fun o => (o.session, o.message)
    let digests keys := toSet textLt
      (keys.map fun key : Text × Text => sourceDigest env agentId key.1 key.2 [])
    .ok
      { store := store
        id := id
        contentSha256 := env.sha256Hex content
        layer := layer
        predicate := predicate
        matched := digests (keys.filter fun key => hits.contains key)
        otherSources := digests (keys.filter fun key => !hits.contains key)
        via := via
        direct := direct }

/-- The targets of one store; a row is direct when one of its own sources goes. -/
def Db.storeTargets (env : Env) (s : Db) (agentId : Text) (sel : FrozenSelector)
    (store : StoreName) : List (Id × Via) → Except MemError (List TargetEntry)
  | [] => .ok []
  | (id, via) :: more =>
    let own := (s.foundRows agentId sel).filter fun row => row.store == store && row.id == id
    let hits := (own.filter FoundRow.deleting).flatMap fun row =>
      row.keys.map fun o => (o.session, o.message)
    let direct := match via with
      | .origins => own.any fun row => row.keys.any fun o => o.role == .direct
      | .keyFactsSourceSession | .metadataSessionId => true
      | _ => false
    match s.targetEntry env agentId store id via direct hits with
    | .error error => .error error
    | .ok entry =>
      match s.storeTargets env agentId sel store more with
      | .error error => .error error
      | .ok entries => .ok (entry :: entries)

def collateralOf (targets : List TargetEntry) : List CollateralEntry :=
  ((targets.flatMap TargetEntry.otherSources).foldl
    (fun counts digest => insertWith textLt (· + 1) digest 1 counts) []).map fun entry =>
      { sourceDigest := entry.1, rowsLost := entry.2 }

def Cut.lt (a b : Cut) : Bool :=
  textLt a.deleted b.deleted || (a.deleted == b.deleted &&
    (textLt a.other b.other || (a.other == b.other && !a.predecessor && b.predecessor)))

/-- `supersession_cuts`: the pointers of rows that stay to rows that go. -/
def Db.supersessionCuts (s : Db) (agentId : Text) (ids : List Id) : List Cut :=
  let scan (pointer : MemoryRow → Option Id) (predecessor : Bool) : List Cut :=
    s.memories.rows.filterMap fun row =>
      match pointer row with
      | some pointed =>
        if row.agentId == agentId && ids.contains pointed && !ids.contains row.id then
          some { deleted := pointed, other := row.id, predecessor := predecessor }
        else none
      | none => none
  toSet Cut.lt (scan MemoryRow.supersededBy true ++ scan MemoryRow.supersedes false)

def normalizeEntity (env : Env) (raw : Text) : Text := env.toLowercase (trim raw)

/-- `load_alias_map`, later entries first. -/
def Db.aliasMap (env : Env) (s : Db) (agentId : Text) : List (Text × Text) :=
  ((s.aliases.filter fun entry => entry.1 == agentId).map fun entry =>
    (normalizeEntity env entry.2.1, normalizeEntity env entry.2.2)).filter (fun entry =>
      !entry.1.isEmpty && !entry.2.isEmpty && entry.1 != entry.2) |>.reverse

def canonicalEntity (env : Env) (aliasMap : List (Text × Text)) (raw : Text) : Text :=
  let name := normalizeEntity env raw
  ((aliasMap.find? fun entry => entry.1 == name).map Prod.snd).getD name

def Db.aliveEntities (env : Env) (s : Db) (agentId : Text) (ids : List Id) (now : Text) :
    List Text :=
  (s.memories.rows.filter fun row => row.agentId == agentId && row.subject.isSome &&
    row.validUntil.all (fun until_ => now < until_) && !row.quarantined &&
    !ids.contains row.id).flatMap fun row =>
      let subject := row.subject.getD []
      if (normalizeEntity env subject).isEmpty then []
      else
        canonicalEntity env (s.aliasMap env agentId) subject ::
          ((row.object.filter fun o => !(normalizeEntity env o).isEmpty).map
            (canonicalEntity env (s.aliasMap env agentId))).toList

def Db.orphanEntities (env : Env) (s : Db) (agentId : Text) (ids : List Id) (now : Text) :
    List Text :=
  let rows := s.memories.rows.filter fun row => row.agentId == agentId && ids.contains row.id
  let names := rows.flatMap fun row =>
    (row.subject.toList ++ row.object.toList).map (canonicalEntity env (s.aliasMap env agentId))
  (toSet textLt (names.filter fun name => !name.isEmpty)).filter fun name =>
    !(s.aliveEntities env agentId ids now).contains name && s.embeddings.contains (agentId, name)

def Db.untrackedCount (s : Db) (agentId : Text) (memoryIds factIds : List Id) : Nat :=
  let unknown store id := s.untracked store id || s.origins.any fun o =>
    o.store == store && o.memoryId == id && o.kind == .source .upstreamUnknown
  (s.memories.rows.countP fun row =>
    row.agentId == agentId && unknown .memories row.id && !memoryIds.contains row.id) +
  (s.keyFacts.rows.countP fun row =>
    row.agentId == agentId && unknown .keyFacts row.id && !factIds.contains row.id)

def Db.otherNamespaces (s : Db) (agentId session : Text) : Nat :=
  (toSet storeIdLt ((s.origins.filter fun o =>
    o.session == session && o.agentId != agentId).map fun o => (o.store, o.memoryId))).length

def planSteps (sel : FrozenSelector) (external : ExternalInputs) (rowsGo : Bool) : List StepEntry :=
  external.wikiPages.map (fun page => ⟨.wikiPageDelete, page.path⟩) ++
  (if rowsGo then [⟨.reviewScrub, "targets".toList⟩] else []) ++
  (if sel.messages.isEmpty then [⟨.sessionHide, "upto".toList⟩]
    else sel.messages.map fun m => ⟨.sessionHide, m⟩) ++
  [⟨.sessionSummaryClear, "session".toList⟩]

def notCovered : List Text :=
  ["transcript_text", "backups", "tool_calls_log", "mistake_notebook", "shared_wiki_copies",
    "night_cache", "causal_claims", "entity_alias", "employee_wiki_pages", "task_board",
    "working_state", "agent_mail", "goal_state_and_judge_feedback", "handoff_copies",
    "sub_agent_replies", "other_approval_cards", "runtime_cli_transcripts",
    "gemini_cli_runtime_mcp_writes", "grok_runtime_mcp_writes_unverified",
    "imported_file_at_another_path", "host_sources_removed_by_direct_edit", "rl_trajectories",
    "local_first_inference_tool_writes"].map String.toList

/-! ## `compute` -/

/-- Everything an apply needs besides the hashed body. -/
structure Computed where
  body : PlanBody
  tombstones : List Tombstone
  memoryIds : List Id
  factIds : List Id
  archiveIds : List Id
  lineageOnly : List (StoreName × Id)
  reaffirmRows : List Origin
  cuts : List Cut
  orphanEntities : List Text

def Computed.isEmpty (c : Computed) : Bool :=
  c.memoryIds.isEmpty && c.factIds.isEmpty && c.archiveIds.isEmpty && c.lineageOnly.isEmpty &&
    c.reaffirmRows.isEmpty && c.body.wikiPages.isEmpty && c.body.sessionMessages.isEmpty

/-- The live rows of one store that go. -/
def Computed.targetIds (c : Computed) : StoreName → List Id
  | .memories => c.memoryIds
  | .keyFacts => c.factIds

inductive Computation where
  | done (computed : Computed)
  | tooLarge (reason : TooLarge)

/-- The ids of both stores after the legacy session rows were added. -/
def Db.sessionIds (env : Env) (s : Db) (agentId : Text) (sel : FrozenSelector) :
    List (Id × Via) × List (Id × Via) :=
  let memoryIds := s.foundIds agentId sel .memories
  let factIds := s.foundIds agentId sel .keyFacts
  match sel.uptoTime.bind env.parseRfc3339 with
  | none => (memoryIds, factIds)
  | some upto =>
    ((s.legacyMemories env agentId sel.session upto).foldl
        (fun ids id => keepOr ids id .metadataSessionId) memoryIds,
      (s.legacyFacts env agentId sel.session upto).foldl
        (fun ids id => keepOr ids id .keyFactsSourceSession) factIds)

def Db.planBody (env : Env) (s : Db) (agentId : Text) (sel : FrozenSelector)
    (external : ExternalInputs) (now : Text) (memoryIds factIds : List Id)
    (targets : List TargetEntry) : PlanBody :=
  let archiveIds := s.foundArchive agentId sel
  let orphans := s.orphanEntities env agentId memoryIds now
  { systemRows := 0
    retainedShared := 0
    tombstones := (s.candidates agentId sel).map fun f => ⟨f.scope, f.digest env⟩
    targets := targets
    reaffirmOnly := (s.foundReaffirm agentId sel).map fun row =>
      { store := row.store, id := row.id
        removedSources := toSet textLt
          (row.keys.map fun o => sourceDigest env agentId o.session o.message []) }
    archiveIds := archiveIds
    lineageOnly := s.foundLineageOnly agentId sel
    collateral := collateralOf targets
    supersessionCuts := s.supersessionCuts agentId memoryIds
    entityEmbeddingsOrphaned := orphans.length
    orphanEntityIds := orphans
    untrackedInNamespace := s.untrackedCount agentId memoryIds factIds
    otherNamespacesReferencing := s.otherNamespaces agentId sel.session
    linkedTurns := (s.linkedTurnSpecs agentId sel).map Tombstone.message
    wikiPages := external.wikiPages
    reviewCardsMatching := external.reviewCardsMatching
    sessionMessages := external.sessionMessages
    steps := planSteps sel external (!memoryIds.isEmpty || !archiveIds.isEmpty)
    notCovered := notCovered }

/-- `compute`; `now` is the time the surviving triples are judged at. -/
def Db.compute (env : Env) (s : Db) (agentId : Text) (sel : FrozenSelector) (maxRows : Nat)
    (external : ExternalInputs) (now : Text) : Except MemError Computation :=
  let archiveIds := s.foundArchive agentId sel
  let lineageOnly := s.foundLineageOnly agentId sel
  let (sessionMemories, facts) := s.sessionIds env agentId sel
  let total ids := List.length ids + facts.length + archiveIds.length + lineageOnly.length
  if maxRows < total sessionMemories then
    .ok (.tooLarge (.rows (total sessionMemories) maxRows))
  else
    let roots := sessionMemories.map Prod.fst ++ archiveIds ++
      (lineageOnly.filter fun key => key.1 == .memories).map Prod.snd
    match s.legacyClosure env agentId roots sessionMemories with
    | .error reason => .ok (.tooLarge reason)
    | .ok memories =>
      if maxRows < total memories then .ok (.tooLarge (.rows (total memories) maxRows))
      else
        match s.storeTargets env agentId sel .memories memories with
        | .error error => .error error
        | .ok memoryTargets =>
          match s.storeTargets env agentId sel .keyFacts facts with
          | .error error => .error error
          | .ok factTargets =>
            let memoryIds := memories.map Prod.fst
            let factIds := facts.map Prod.fst
            .ok (.done
              { body := s.planBody env agentId sel external now memoryIds factIds
                  (memoryTargets ++ factTargets)
                tombstones := s.candidates agentId sel
                memoryIds := memoryIds
                factIds := factIds
                archiveIds := archiveIds
                lineageOnly := lineageOnly
                reaffirmRows := (s.foundReaffirm agentId sel).flatMap FoundRow.keys
                cuts := s.supersessionCuts agentId memoryIds
                orphanEntities := s.orphanEntities env agentId memoryIds now })

/-! ## The walk over recorded parents -/

theorem keepOr_keys {ids : List (Id × Via)} {id other : Id} {via : Via} :
    other ∈ (keepOr ids id via).map Prod.fst ↔ other = id ∨ other ∈ ids.map Prod.fst :=
  mem_keys_insertWith textLt

/-- A live row of the namespace records `parent`, in `derived_from` or in `metadata.source_ids`. -/
def Db.Records (env : Env) (s : Db) (agentId : Text) (parent child : Id) : Prop :=
  ∃ row ∈ s.memories.rows, row.agentId = agentId ∧ row.id = child ∧
    (parent ∈ (row.derivedFrom.map env.parseIds).getD [] ∨
      parent ∈ ((env.metadataSourceIds row.metadata).map env.parseIds).getD [])

/-- So many recorded links lead from a root to the row. -/
def Reaches (records : Id → Id → Prop) (roots : List Id) : Nat → Id → Prop
  | 0, id => id ∈ roots
  | n + 1, id => ∃ parent, Reaches records roots n parent ∧ records parent id

/-- More rows than the limit are reached besides the roots, or one of them on no short way. -/
def Oversized (records : Id → Id → Prop) (roots : List Id) : Prop :=
  (∃ ids : List Id, ids.Nodup ∧ bfsMaxNodes < ids.length ∧
      ∀ id ∈ ids, id ∉ roots ∧ ∃ n, Reaches records roots n id) ∨
    ∃ id, (∃ n, Reaches records roots n id) ∧ ∀ n ≤ bfsMaxDepth, ¬Reaches records roots n id

/-- What holds between two nodes of the walk; the rows in `open_` may have children left to visit. -/
structure Walk.Sound (records : Id → Id → Prop) (roots start : List Id) (open_ : List Id) (new : List Id)
    (w : Walk) : Prop where
  visited : w.visited = new ++ roots
  distinct : new.Nodup
  fresh : ∀ id ∈ new, id ∉ roots
  counted : new.length = w.discovered
  room : w.discovered ≤ bfsMaxNodes
  ids : ∀ id, id ∈ w.ids.map Prod.fst ↔ id ∈ start ∨ id ∈ new
  near : ∀ id ∈ w.visited, ∃ n ≤ bfsMaxDepth, Reaches records roots n id
  least : ∀ e ∈ w.queue, Reaches records roots e.2 e.1 ∧ ∀ n < e.2, ¬Reaches records roots n e.1
  ordered : w.queue.Pairwise fun a b => a.2 ≤ b.2 ∧ b.2 ≤ a.2 + 1
  closed : ∀ p ∈ w.visited, p ∈ open_ ∨ p ∈ w.queue.map Prod.fst ∨ ∀ c, records p c → c ∈ w.visited

section Walk

variable {records : Id → Id → Prop} {roots start new : List Id} {w next : Walk} {depth : Nat} {node : Id}

theorem Walk.Sound.front (sound : w.Sound records roots start [] new) (later : ∀ e ∈ w.queue, depth ≤ e.2) :
    ∀ n ≤ depth, ∀ id, Reaches records roots n id → id ∈ w.visited := by
  intro n
  induction n with
  | zero =>
    intro _ id root
    rw [sound.visited]
    exact List.mem_append_right _ root
  | succ n ih =>
    rintro short id ⟨parent, reached, link⟩
    rcases sound.closed parent (ih (by omega) parent reached) with none_ | queued | closed
    · exact absurd none_ List.not_mem_nil
    · obtain ⟨e, listed, rfl⟩ := List.mem_map.mp queued
      have far := later e listed
      exact absurd reached ((sound.least e listed).2 n (by omega))
    · exact closed id link

/-- **The children of one node**: each of them is visited, unless there are too many rows or one is too far. -/
theorem visit_sound {kids : List (Id × Via)} (links : ∀ kid ∈ kids, records node kid.1)
    (reached : Reaches records roots depth node)
    (front : ∀ n ≤ depth, ∀ id, Reaches records roots n id → id ∈ w.visited)
    (short : ∀ e ∈ w.queue, depth ≤ e.2 ∧ e.2 ≤ depth + 1) (sound : w.Sound records roots start [node] new) :
    match Walk.visit depth kids w with
    | .error _ => Oversized records roots
    | .ok next => ∃ new', next.Sound records roots start [node] new' ∧
        (∀ e ∈ next.queue, depth ≤ e.2 ∧ e.2 ≤ depth + 1) ∧
        (∀ id ∈ w.visited, id ∈ next.visited) ∧ (∀ kid ∈ kids, kid.1 ∈ next.visited) ∧
        next.queue.length + w.discovered = w.queue.length + next.discovered := by
  induction kids generalizing w new with
  | nil => exact ⟨new, sound, short, fun _ listed => listed, List.forall_mem_nil _, rfl⟩
  | cons kid more ih =>
    obtain ⟨kid, via⟩ := kid
    obtain ⟨link, links⟩ := List.forall_mem_cons.mp links
    have isReached : Reaches records roots (depth + 1) kid := ⟨node, reached, link⟩
    rw [Walk.visit]
    simp only [List.contains_iff_mem]
    split_ifs with known deep full
    · have rest := ih links front short sound
      split at rest
      · exact rest
      · obtain ⟨new', sound', short', kept, all, size⟩ := rest
        exact ⟨new', sound', short', kept, List.forall_mem_cons.mpr ⟨kept kid (known), all⟩, size⟩
    · exact .inr ⟨kid, ⟨_, isReached⟩, fun n few again => known (front n (by omega) kid again)⟩
    · refine .inl ⟨kid :: new, ?_, ?_, List.forall_mem_cons.mpr ⟨⟨?_, _, isReached⟩, fun id listed => ?_⟩⟩
      · exact List.nodup_cons.mpr ⟨fun old => known (by simp [sound.visited, old]), sound.distinct⟩
      · have counted := sound.counted
        simp only [List.length_cons]
        omega
      · exact fun root => known (by simp [sound.visited, root])
      · obtain ⟨n, -, here⟩ := sound.near id (by simp [sound.visited, listed])
        exact ⟨sound.fresh id listed, n, here⟩
    · have pushed : Walk.Sound records roots start [node] (kid :: new)
          ⟨kid :: w.visited, w.queue ++ [(kid, depth + 1)], w.discovered + 1, keepOr w.ids kid via⟩ := by
        refine ⟨by simp [sound.visited], ?_, ?_, by simp [sound.counted],
          Nat.le_of_not_lt full, ?_, ?_, ?_, ?_, ?_⟩
        · exact List.nodup_cons.mpr ⟨fun old => known (by simp [sound.visited, old]), sound.distinct⟩
        · exact List.forall_mem_cons.mpr ⟨fun root => known (by simp [sound.visited, root]), sound.fresh⟩
        · intro id
          rw [keepOr_keys, sound.ids, List.mem_cons]
          tauto
        · exact List.forall_mem_cons.mpr ⟨⟨_, by omega, isReached⟩, sound.near⟩
        · rw [List.forall_mem_append, List.forall_mem_singleton]
          exact ⟨sound.least, isReached, fun n few again => known (front n (by omega) kid again)⟩
        · rw [List.pairwise_append]
          refine ⟨sound.ordered, List.pairwise_singleton _ _, fun e listed last same => ?_⟩
          have bounds := short e listed
          rw [List.mem_singleton.mp same]
          omega
        · intro p listed
          simp only [List.map_append, List.mem_append, List.mem_cons]
          rcases List.mem_cons.mp listed with rfl | old
          · simp
          · rcases sound.closed p old with here | queued | closed
            · exact .inl (by simpa using here)
            · exact .inr (.inl (.inl queued))
            · exact .inr (.inr fun c link => .inr (closed c link))
      have front' : ∀ n ≤ depth, ∀ id, Reaches records roots n id → id ∈ kid :: w.visited :=
        fun n few id here => List.mem_cons_of_mem _ (front n few id here)
      have short' : ∀ e ∈ w.queue ++ [(kid, depth + 1)], depth ≤ e.2 ∧ e.2 ≤ depth + 1 := by
        rw [List.forall_mem_append, List.forall_mem_singleton]
        exact ⟨short, by omega⟩
      have rest := ih links front' short' pushed
      split at rest
      · exact rest
      · obtain ⟨new', sound', short', kept, all, size⟩ := rest
        refine ⟨new', sound', short', (List.forall_mem_cons.mp kept).2,
          List.forall_mem_cons.mpr ⟨(List.forall_mem_cons.mp kept).1, all⟩, ?_⟩
        simp only [List.length_append, List.length_singleton] at size
        omega

theorem sound_start (records : Id → Id → Prop) (roots : List Id) (ids : List (Id × Via)) :
    Walk.Sound records roots (ids.map Prod.fst) [] [] ⟨roots, roots.map fun root => (root, 0), 0, ids⟩ where
  visited := rfl
  distinct := List.nodup_nil
  fresh := List.forall_mem_nil _
  counted := rfl
  room := Nat.zero_le _
  ids := by simp
  near := fun id root => ⟨0, Nat.zero_le _, root⟩
  least := by simp [Reaches]
  ordered := List.pairwise_map.mpr (List.pairwise_of_forall fun _ _ => by simp)
  closed := fun p root => .inr (.inl (by simpa using root))

/-- **The walk visits its whole queue**, unless there are too many rows or one is too far. -/
theorem legacyWalk_sound {children : List (Id × Id × Via)} {fuel : Nat}
    (links : ∀ parent child, records parent child ↔ ∃ via, (parent, child, via) ∈ children)
    (enough : w.queue.length + (bfsMaxNodes - w.discovered) ≤ fuel)
    (sound : w.Sound records roots start [] new) : match legacyWalk children fuel w with
    | .error _ => Oversized records roots
    | .ok last => ∃ new', last.Sound records roots start [] new' ∧ last.queue = [] := by
  induction fuel generalizing w new with
  | zero => exact ⟨new, sound, List.length_eq_zero_iff.mp (by omega)⟩
  | succ fuel ih =>
    obtain ⟨visited, queue, discovered, ids⟩ := w
    cases queue with
    | nil => exact ⟨new, sound, rfl⟩
    | cons first rest =>
      obtain ⟨node, depth⟩ := first
      obtain ⟨behind, ordered⟩ := List.pairwise_cons.mp sound.ordered
      obtain ⟨⟨reached, -⟩, least⟩ := List.forall_mem_cons.mp sound.least
      have kids : ∀ kid ∈ (children.filter fun c => c.1 == node).map Prod.snd, records node kid.1 := by
        simp only [List.mem_map, List.mem_filter, beq_iff_eq]
        rintro _ ⟨⟨parent, kid, via⟩, ⟨listed, rfl⟩, rfl⟩
        exact (links _ _).mpr ⟨via, listed⟩
      have popped : Walk.Sound records roots start [node] new ⟨visited, rest, discovered, ids⟩ := by
        refine { sound with least, ordered, closed := fun p listed => ?_ }
        rcases sound.closed p listed with none_ | queued | closed
        · exact absurd none_ List.not_mem_nil
        · rcases List.mem_cons.mp queued with rfl | later
          · exact .inl (List.mem_singleton_self _)
          · exact .inr (.inl later)
        · exact .inr (.inr closed)
      have front := sound.front
        (List.forall_mem_cons.mpr ⟨Nat.le_refl depth, fun e listed => (behind e listed).1⟩)
      have done := visit_sound (w := ⟨visited, rest, discovered, ids⟩) kids reached front behind popped
      rw [legacyWalk]
      dsimp only
      split at done
      · rename_i reason stopped
        rw [stopped]
        exact done
      rename_i next went
      obtain ⟨new', sound', -, -, all, size⟩ := done
      rw [went]
      have closed : next.Sound records roots start [] new' := by
        refine { sound' with closed := fun p listed => ?_ }
        rcases sound'.closed p listed with here | further
        · refine .inr (.inr fun c link => ?_)
          rw [List.mem_singleton.mp here] at link
          obtain ⟨via, isChild⟩ := (links _ _).mp link
          exact all (c, via) (List.mem_map.mpr ⟨_, List.mem_filter.mpr ⟨isChild, beq_self_eq_true _⟩, rfl⟩)
        · exact .inr further
      have room := sound'.room
      have room' := sound.room
      simp only [List.length_cons] at enough size room'
      exact ih (by omega) closed

end Walk

theorem recordedChildren_iff (env : Env) (s : Db) (agentId : Text) (parent child : Id) :
    s.Records env agentId parent child ↔ ∃ via, (parent, child, via) ∈ s.recordedChildren env agentId := by
  simp only [Db.Records, Db.recordedChildren, List.mem_flatMap, List.mem_filter, List.mem_append, List.mem_map,
    beq_iff_eq, Prod.mk.injEq]
  constructor
  · rintro ⟨row, listed, own, rfl, derived | source⟩
    · exact ⟨_, row, ⟨listed, own⟩, .inl ⟨_, derived, rfl, rfl, rfl⟩⟩
    · exact ⟨_, row, ⟨listed, own⟩, .inr ⟨_, source, rfl, rfl, rfl⟩⟩
  · rintro ⟨via, row, ⟨listed, own⟩, ⟨_, derived, rfl, rfl, rfl⟩ | ⟨_, source, rfl, rfl, rfl⟩⟩
    · exact ⟨row, listed, own, rfl, .inl derived⟩
    · exact ⟨row, listed, own, rfl, .inr source⟩

theorem legacyWalk_exact {records : Id → Id → Prop} {children : List (Id × Id × Via)}
    (links : ∀ parent child, records parent child ↔ ∃ via, (parent, child, via) ∈ children)
    (roots : List Id) (ids : List (Id × Via)) : match legacyWalk children (roots.length + bfsMaxNodes)
      { visited := roots, queue := roots.map fun root => (root, 0), discovered := 0, ids := ids } with
    | .error _ => Oversized records roots
    | .ok last => ¬Oversized records roots ∧ ∀ id, id ∈ last.ids.map Prod.fst ↔
        id ∈ ids.map Prod.fst ∨ id ∉ roots ∧ ∃ n, Reaches records roots n id := by
  have enough : (roots.map fun root => (root, 0)).length + (bfsMaxNodes - 0) ≤ roots.length + bfsMaxNodes := by
    simp
  have walked := legacyWalk_sound links enough (sound_start _ roots ids)
  split at walked
  · exact walked
  rename_i last went
  obtain ⟨new, sound, empty⟩ := walked
  have all : ∀ n id, Reaches records roots n id → id ∈ last.visited := fun n id reached =>
    sound.front (by simp [empty]) n (Nat.le_refl n) id reached
  have members : ∀ id, id ∈ new ↔ id ∉ roots ∧ ∃ n, Reaches records roots n id := by
    intro id
    constructor
    · intro listed
      obtain ⟨n, -, reached⟩ := sound.near id (by simp [sound.visited, listed])
      exact ⟨sound.fresh id listed, n, reached⟩
    · rintro ⟨other, n, reached⟩
      have listed := all n id reached
      rw [sound.visited] at listed
      exact (List.mem_append.mp listed).resolve_right other
  refine ⟨?_, fun id => by rw [sound.ids, members]⟩
  rintro (⟨many, distinct, more, reached⟩ | ⟨id, ⟨n, reached⟩, far⟩)
  · have short := (List.Nodup.subperm distinct fun id listed => (members id).mpr (reached id listed)).length_le
    have counted := sound.counted
    have room := sound.room
    omega
  · obtain ⟨k, near, again⟩ := sound.near id (all n id reached)
    exact far k near again

/-- **The closure is exact.**  It is refused exactly when too many rows are reached or one of them is too far;
otherwise it adds exactly the rows that recorded links lead to from a root. -/
theorem legacyClosure_exact (env : Env) (s : Db) (agentId : Text) (roots : List Id) (ids : List (Id × Via)) :
    match s.legacyClosure env agentId roots ids with
    | .error _ => Oversized (s.Records env agentId) roots
    | .ok closed => ¬Oversized (s.Records env agentId) roots ∧ ∀ id, id ∈ closed.map Prod.fst ↔
        id ∈ ids.map Prod.fst ∨ id ∉ roots ∧ ∃ n, Reaches (s.Records env agentId) roots n id := by
  have walked := legacyWalk_exact (recordedChildren_iff env s agentId) roots ids
  unfold Db.legacyClosure
  split at walked
  · rename_i reason stopped
    rw [stopped]
    exact walked
  · rename_i last went
    rw [went]
    exact walked

/-! ## What `compute` finds -/

variable {s : Db} {agentId : Text} {sel : FrozenSelector} {o : Origin} {id : Id} {env : Env}

theorem candidates_session {f : Tombstone}
    (listed : f ∈ s.candidates agentId sel) : f.agentId = agentId ∧ f.session = sel.session := by
  rcases List.mem_append.mp listed with spec | turn
  · unfold tombstoneSpecs at spec
    split at spec
    · rw [List.mem_singleton.mp spec]
      exact ⟨rfl, rfl⟩
    · obtain ⟨message, -, rfl⟩ := List.mem_map.mp spec
      exact ⟨rfl, rfl⟩
  · obtain ⟨key, -, rfl⟩ := List.mem_map.mp turn
    exact ⟨rfl, rfl⟩

theorem fenced_candidates {fence : Text}
    (hit : o.fenced (s.candidates agentId sel) fence) : fence = agentId ∧ o.session = sel.session := by
  obtain ⟨f, listed, covers⟩ := List.any_eq_true.mp hit
  obtain ⟨sameAgent, sameSession⟩ := candidates_session listed
  simp only [Tombstone.covers, Bool.and_eq_true, beq_iff_eq] at covers
  exact ⟨covers.1.1.symm.trans sameAgent, covers.1.2.symm.trans sameSession⟩

theorem mem_matchedOrigins : o ∈ s.matchedOrigins agentId sel ↔
      o ∈ s.origins ∧ o.agentId = agentId ∧ o.fenced (s.candidates agentId sel) agentId := by
  simp only [Db.matchedOrigins, List.mem_filter, Bool.and_eq_true, beq_iff_eq]
  constructor
  · rintro ⟨listed, ⟨rfl, -⟩, hit⟩
    exact ⟨listed, rfl, hit⟩
  · rintro ⟨listed, rfl, hit⟩
    exact ⟨listed, ⟨rfl, (fenced_candidates hit).2⟩, hit⟩

theorem exists_foundRow (hit : o ∈ s.matchedOrigins agentId sel) : ∃ row ∈ s.foundRows agentId sel,
      row.store = o.store ∧ row.id = o.memoryId ∧ o ∈ row.keys := by
  have listed : (o.store, o.memoryId) ∈
      toSet storeIdLt ((s.matchedOrigins agentId sel).map fun o => (o.store, o.memoryId)) :=
    (mem_toSet storeIdLt).mpr (List.mem_map_of_mem hit)
  refine ⟨_, List.mem_map_of_mem listed, rfl, rfl, ?_⟩
  simp [hit]

theorem foundRow_matched {row : FoundRow} (listed : row ∈ s.foundRows agentId sel) :
    ∃ o ∈ s.matchedOrigins agentId sel, o.store = row.store ∧ o.memoryId = row.id := by
  simp only [Db.foundRows, List.mem_map] at listed
  obtain ⟨key, inSet, rfl⟩ := listed
  obtain ⟨o, hit, rfl⟩ := List.mem_map.mp ((mem_toSet storeIdLt).mp inSet)
  exact ⟨o, hit, rfl, rfl⟩

theorem foundIds_live {store : StoreName}
    (listed : id ∈ (s.foundIds agentId sel store).map Prod.fst) : s.rowExists store id agentId := by
  simp only [Db.foundIds, List.map_map] at listed
  obtain ⟨row, inFound, rfl⟩ := List.mem_map.mp listed
  simp only [List.mem_filter, Bool.and_eq_true, beq_iff_eq, FoundRow.live] at inFound
  obtain ⟨-, ⟨-, live⟩, rfl⟩ := inFound
  exact live

/-- A fold of `keepOr` adds exactly the listed ids. -/
theorem mem_foldl_keepOr {ids : List Id} {via : Via} {m : List (Id × Via)} :
    id ∈ (ids.foldl (fun m id => keepOr m id via) m).map Prod.fst ↔ id ∈ ids ∨ id ∈ m.map Prod.fst := by
  induction ids generalizing m with
  | nil => simp
  | cons first more ih =>
    rw [List.foldl_cons, ih, keepOr_keys, List.mem_cons]
    tauto

theorem sessionIds_memories : (id ∈ (s.foundIds agentId sel .memories).map Prod.fst →
        id ∈ (s.sessionIds env agentId sel).1.map Prod.fst) ∧
      (id ∈ (s.sessionIds env agentId sel).1.map Prod.fst → s.rowExists .memories id agentId) := by
  unfold Db.sessionIds
  split
  · exact ⟨fun listed => listed, foundIds_live⟩
  rename_i upto _
  simp only [mem_foldl_keepOr]
  refine ⟨.inr, ?_⟩
  rintro (legacy | found)
  · simp only [Db.legacyMemories, List.mem_map, List.mem_filter, Bool.and_eq_true, beq_iff_eq] at legacy
    obtain ⟨row, ⟨listed, ⟨⟨sameAgent, -⟩, -⟩, -⟩, rfl⟩ := legacy
    exact List.any_eq_true.mpr ⟨row, listed, by simp [sameAgent]⟩
  · exact foundIds_live found

theorem sessionIds_facts : (id ∈ (s.foundIds agentId sel .keyFacts).map Prod.fst →
        id ∈ (s.sessionIds env agentId sel).2.map Prod.fst) ∧
      (id ∈ (s.sessionIds env agentId sel).2.map Prod.fst → s.rowExists .keyFacts id agentId) := by
  unfold Db.sessionIds
  split
  · exact ⟨fun listed => listed, foundIds_live⟩
  rename_i upto _
  simp only [mem_foldl_keepOr]
  refine ⟨.inr, ?_⟩
  rintro (legacy | found)
  · simp only [Db.legacyFacts, List.mem_map, List.mem_filter, Bool.and_eq_true, beq_iff_eq] at legacy
    obtain ⟨row, ⟨listed, ⟨⟨sameAgent, -⟩, -⟩, -⟩, rfl⟩ := legacy
    exact List.any_eq_true.mpr ⟨row, listed, by simp [sameAgent]⟩
  · exact foundIds_live found

theorem legacyClosure_ids {roots : List Id}
    {ids closed : List (Id × Via)} (closure : s.legacyClosure env agentId roots ids = .ok closed) :
    (∀ id ∈ ids.map Prod.fst, id ∈ closed.map Prod.fst) ∧ ∀ id ∈ closed.map Prod.fst,
        id ∈ ids.map Prod.fst ∨ s.rowExists .memories id agentId := by
  have walked := legacyWalk_exact (recordedChildren_iff env s agentId) roots ids
  unfold Db.legacyClosure at closure
  split at walked
  · rename_i reason stopped
    rw [stopped] at closure
    cases closure
  rename_i last went
  rw [went] at closure
  cases closure
  refine ⟨fun id listed => (walked.2 id).mpr (.inl listed), fun id listed => ?_⟩
  refine ((walked.2 id).mp listed).imp_right fun reached => ?_
  obtain ⟨other, n, here⟩ := reached
  cases n with
  | zero => exact absurd here other
  | succ n =>
    obtain ⟨parent, -, row, isRow, own, rfl, -⟩ := here
    exact List.any_eq_true.mpr ⟨row, isRow, by simp [own]⟩

theorem storeTargets_keys
    {store : StoreName} {ids : List (Id × Via)} {entries : List TargetEntry}
    (listed : s.storeTargets env agentId sel store ids = .ok entries) :
    entries.map (fun t => (t.store, t.id)) = ids.map fun entry => (store, entry.1) := by
  induction ids generalizing entries with
  | nil =>
    cases listed
    rfl
  | cons entry more ih =>
    obtain ⟨id, via⟩ := entry
    simp only [Db.storeTargets] at listed
    split at listed
    · cases listed
    rename_i first target
    split at listed
    · cases listed
    rename_i rest others
    cases listed
    have key : (first.store, first.id) = (store, id) := by
      simp only [Db.targetEntry] at target
      split at target
      · cases target
      · cases target
        rfl
    rw [List.map_cons, List.map_cons, ih others, key]

/-- What the result of `compute` says about the database. -/
structure ComputedSpec (s : Db) (agentId : Text) (sel : FrozenSelector) (c : Computed) : Prop where
  tombstones : c.tombstones = s.candidates agentId sel
  /-- A matched lineage row of a live row goes, with its row or alone. -/
  covered : ∀ o ∈ s.matchedOrigins agentId sel, s.rowExists o.store o.memoryId agentId →
    o.memoryId ∈ c.targetIds o.store ∨ (o.role = .reaffirm ∧ o ∈ c.reaffirmRows)
  targetsLive : ∀ store, ∀ id ∈ c.targetIds store, s.rowExists store id agentId
  /-- Archived rows and bare lineage belong to rows that are not live. -/
  archiveIds : ∀ id ∈ c.archiveIds, s.archived id agentId ∧
    ∃ o ∈ s.matchedOrigins agentId sel,
      o.store = .memories ∧ o.memoryId = id ∧ ¬s.rowExists o.store o.memoryId agentId
  lineageOnly : ∀ key ∈ c.lineageOnly, ∃ o ∈ s.matchedOrigins agentId sel,
    o.store = key.1 ∧ o.memoryId = key.2 ∧ ¬s.rowExists o.store o.memoryId agentId
  targets : c.body.targets.map (fun t => (t.store, t.id)) =
    c.memoryIds.map (fun id => (StoreName.memories, id)) ++
      c.factIds.map fun id => (StoreName.keyFacts, id)
  bodyArchive : c.body.archiveIds = c.archiveIds
  cuts : c.cuts = s.supersessionCuts agentId c.memoryIds

theorem covered_of_found
    (hit : o ∈ s.matchedOrigins agentId sel) (live : s.rowExists o.store o.memoryId agentId) :
    (o.store = .memories ∧ o.memoryId ∈ (s.sessionIds env agentId sel).1.map Prod.fst) ∨
      (o.store = .keyFacts ∧ o.memoryId ∈ (s.sessionIds env agentId sel).2.map Prod.fst) ∨
      (o.role = .reaffirm ∧ o ∈ (s.foundReaffirm agentId sel).flatMap FoundRow.keys) := by
  obtain ⟨row, listed, sameStore, sameId, isKey⟩ := exists_foundRow hit
  have rowLive : row.live s agentId = true := by
    rw [FoundRow.live, sameStore, sameId]
    exact live
  by_cases deleting : row.deleting
  · have found : o.memoryId ∈ (s.foundIds agentId sel o.store).map Prod.fst := by
      rw [Db.foundIds, List.map_map, ← sameId]
      refine List.mem_map_of_mem (List.mem_filter.mpr ⟨listed, ?_⟩)
      simp [deleting, rowLive, sameStore]
    cases isStore : o.store with
    | memories => exact .inl ⟨rfl, sessionIds_memories.1 (isStore ▸ found)⟩
    | keyFacts => exact .inr (.inl ⟨rfl, sessionIds_facts.1 (isStore ▸ found)⟩)
  · refine .inr (.inr ⟨?_, ?_⟩)
    · rw [FoundRow.deleting, List.any_eq_true] at deleting
      by_contra stronger
      exact deleting ⟨o, isKey, by simpa using stronger⟩
    · refine List.mem_flatMap.mpr ⟨row, List.mem_filter.mpr ⟨listed, ?_⟩, isKey⟩
      simp [deleting, rowLive]

theorem foundArchive_spec
    (listed : id ∈ s.foundArchive agentId sel) : s.archived id agentId ∧ ∃ o ∈ s.matchedOrigins agentId sel,
      o.store = .memories ∧ o.memoryId = id ∧ ¬s.rowExists o.store o.memoryId agentId := by
  obtain ⟨row, inFound, rfl⟩ := List.mem_map.mp listed
  simp only [List.mem_filter, Bool.and_eq_true, beq_iff_eq, FoundRow.live, Bool.not_eq_true'] at inFound
  obtain ⟨isFound, ⟨⟨-, gone⟩, isMemory⟩, archived⟩ := inFound
  obtain ⟨o, hit, sameStore, sameId⟩ := foundRow_matched isFound
  refine ⟨archived, o, hit, sameStore.trans isMemory, sameId, ?_⟩
  rw [sameStore, sameId, gone]
  exact Bool.false_ne_true

theorem foundLineageOnly_spec
    {key : StoreName × Id} (listed : key ∈ s.foundLineageOnly agentId sel) : ∃ o ∈ s.matchedOrigins agentId sel,
      o.store = key.1 ∧ o.memoryId = key.2 ∧ ¬s.rowExists o.store o.memoryId agentId := by
  obtain ⟨row, inFound, rfl⟩ := List.mem_map.mp listed
  simp only [List.mem_filter, Bool.and_eq_true, FoundRow.live, Bool.not_eq_true'] at inFound
  obtain ⟨isFound, ⟨-, gone⟩, -⟩ := inFound
  obtain ⟨o, hit, sameStore, sameId⟩ := foundRow_matched isFound
  refine ⟨o, hit, sameStore, sameId, ?_⟩
  rw [sameStore, sameId, gone]
  exact Bool.false_ne_true

/-- **What `compute` finds.** -/
theorem compute_spec {maxRows : Nat}
    {external : ExternalInputs} {now : Text} {c : Computed}
    (computed : s.compute env agentId sel maxRows external now = .ok (.done c)) :
    ComputedSpec s agentId sel c := by
  simp only [Db.compute] at computed
  split at computed
  · cases computed
  split at computed
  · cases computed
  rename_i memories closure
  split at computed
  · cases computed
  split at computed
  · cases computed
  rename_i memoryTargets listedMemories
  split at computed
  · cases computed
  rename_i factTargets listedFacts
  obtain ⟨kept, added⟩ := legacyClosure_ids closure
  cases computed
  refine
    { tombstones := rfl
      covered := fun o hit live => ?_
      targetsLive := fun store id listed => ?_
      archiveIds := fun id listed => foundArchive_spec listed
      lineageOnly := fun key listed => foundLineageOnly_spec listed
      targets := ?_
      bodyArchive := rfl
      cuts := rfl }
  · rcases covered_of_found hit live with ⟨isMemory, found⟩ | ⟨isFact, found⟩ | corroborates
    · rw [isMemory]
      exact .inl (kept _ found)
    · rw [isFact]
      exact .inl found
    · exact .inr corroborates
  · cases store with
    | memories => exact (added id listed).elim sessionIds_memories.2 fun live => live
    | keyFacts => exact sessionIds_facts.2 listed
  · simp only [Db.planBody, List.map_append, storeTargets_keys listedMemories,
      storeTargets_keys listedFacts, List.map_map]
    rfl

end DuDuClaw.Memory
