/-
# Memory.Lineage -- lineage rows and the source fence

lineage.rs, lineage/db.rs, lineage/connectors.rs and lineage/links.rs: a write's
provenance is resolved into the lineage rows it gets, refused when a source was
forgotten, and the rows are inserted with the row itself, in one transaction.  The
triggers check every inserted row once more.

* `insertOrigins_good`: what inserting lineage rows adds, and that none of it matches
  a tombstone.
* `addReaffirm_good`: the same for a write that only corroborates a row.
-/
import DuDuClaw.Memory.Tables

namespace DuDuClaw.Memory

open DuDuClaw.Lib

/-! ## Sources and provenance -/

def maxLineageSources : Nat := 512

def maxSourceKeyBytes : Nat := 512

def systemSessionPrefix : Text := ['s', 'y', 's', 't', 'e', 'm', ':']

def untrackedSession : Text := ['u', 'n', 't', 'r', 'a', 'c', 'k', 'e', 'd']

inductive SourceError where
  | marker
  | systemKind
  | emptyKey (name : String)
  | longKey (name : String)
  | controlInKey (name : String)
  | reserved (session : Text)
  | channelSeq
  | straySeq
  | contentHash

/-- The errors a write or a plan can end with; the last ones are raised by the
database. -/
inductive MemError where
  | invalidStamps
  | noSource
  | producer
  | invalidSource (error : SourceError)
  | derivedEmpty
  | stampLimit
  | selectorSession
  | selectorControl
  | selectorSystem
  | selectorMessage
  | selectorTooMany
  | selectorWatermark
  | emptyNamespace
  | missingRow
  | memoryForgotten
  | sourceForgotten
  | connectorForgotten
  | unique
  | database

structure SourceRef where
  kind : SourceKind
  session : Text
  message : Text
  seq : Option Int
  observedAt : Int
  contentHash : Option Text

def checkKey (name : String) (value : Text) : Option SourceError :=
  if isBlank value then some (.emptyKey name)
  else if maxSourceKeyBytes < byteLength value then some (.longKey name)
  else if value.any isControl then some (.controlInKey name)
  else none

def isLowerHex (c : Char) : Bool := c.isDigit || ('a' ≤ c && c ≤ 'f')

/-- `validate`: the first thing wrong with the source. -/
def SourceRef.validate (source : SourceRef) : Option SourceError :=
  if source.kind = .upstreamUnknown then
    if source.session ≠ untrackedSession ∨ source.seq.isSome then some .marker
    else checkKey "message" source.message
  else if source.kind = .system then some .systemKind
  else
    (checkKey "session" source.session).or <|
    (checkKey "message" source.message).or <|
    if systemSessionPrefix.isPrefixOf source.session ∨ source.session = untrackedSession then
      some (.reserved source.session)
    else if source.kind = .channelMessage ∧ ¬source.seq.any (fun seq => 0 ≤ seq) then
      some .channelSeq
    else if source.kind ≠ .channelMessage ∧ source.seq.isSome then some .straySeq
    else if source.contentHash.any fun hash => byteLength hash != 64 || !hash.all isLowerHex then
      some .contentHash
    else none

inductive Provenance where
  | sources (direct : List SourceRef)
  | derived (parents : List Id) (extra : List SourceRef)
  | system (producer : Text)
  | connectors (provenance : Provenance) (refs : List Text) (observedAt : Option Int)

inductive FenceReason where
  | sourceForgotten
  | parentForgotten
  | parentMissing
  | lineageOverflow

structure FenceRefusal where
  reason : FenceReason
  sourceDigest : Option Text
  parentId : Option Id

/-! ## Resolving a provenance -/

/-- A lineage row to be written, with its connector stamps. -/
structure OriginRow where
  kind : OriginKind
  session : Text
  message : Text
  seq : Option Int
  observedAt : Text
  hash : Option Text
  role : Role
  via : Option Id
  connectors : List (Text × Text)

def pairLt (a b : Text × Text) : Bool := textLt a.1 b.1 || (a.1 == b.1 && textLt a.2 b.2)

def validRef (reference : Text) : Bool :=
  !reference.isEmpty && byteLength reference ≤ 512 && !reference.any isControl &&
    (["unknown", "none", "google:home", "google:delegation"].any (fun s => s.toList == reference) ||
      ["google:person:", "db:", "remote_mcp:", "channel:"].any fun p =>
        p.toList.isPrefixOf reference && p.toList.length < reference.length)

/-- `fenced`: a stamp at or before the time its connector was forgotten. -/
def Db.stampsFenced (s : Db) (agentId : Text) (rows : List OriginRow) : Except MemError Bool :=
  let references := toSet textLt (rows.flatMap fun row => row.connectors.map Prod.fst)
  if maxLineageSources < references.length then .error .stampLimit
  else .ok (rows.any fun row => row.connectors.any fun stamp =>
    s.forgottenConnectors.any fun f =>
      f.agentId == agentId && f.reference == stamp.1 && stamp.2 ≤ f.uptoTime)

/-- `load_origin`: the stamps of one origin and role, and the unattributed ones. -/
def Db.loadOrigin (s : Db) (memoryId : Id) (o : Origin) : List (Text × Text) :=
  let ofRow := s.stamps.filter fun stamp => stamp.store == .memories && stamp.memoryId == memoryId
  let own := ofRow.filter fun stamp =>
    stamp.session == o.session && stamp.message == o.message && stamp.role == some o.role
  let unknown := ofRow.filter fun stamp => stamp.role == none
  toSet pairLt ((own ++ unknown).map (fun stamp => (stamp.reference, stamp.observedAt)) ++
    unknown.map fun stamp => ("unknown".toList, stamp.observedAt))

def Db.parentOrigins (s : Db) (agentId : Text) (memoryId : Id) : List OriginRow :=
  (s.origins.filter fun o =>
    o.store == .memories && o.memoryId == memoryId && o.agentId == agentId).map fun o =>
      { kind := o.kind, session := o.session, message := o.message, seq := o.seq
        observedAt := o.observedAt, hash := o.hash, role := o.role, via := o.via
        connectors := s.loadOrigin memoryId o }

/-- `add`: on one key the stronger role stays, with the stamps of both. -/
def addRow (rows : List ((Text × Text) × OriginRow)) (row : OriginRow) :
    List ((Text × Text) × OriginRow) :=
  insertWith pairLt
    (fun existing =>
      let stamps := toSet pairLt (existing.connectors ++ row.connectors)
      if existing.role.rank < row.role.rank then { row with connectors := stamps }
      else { existing with connectors := stamps })
    (row.session, row.message) row rows

def Db.parentCheck (s : Db) (agentId : Text) (parent : Id) : Option FenceRefusal :=
  if s.forgotten.contains (.memories, parent) then some ⟨.parentForgotten, none, some parent⟩
  else if !s.rowExists .memories parent agentId && !s.archived parent agentId then
    some ⟨.parentMissing, none, some parent⟩
  else none

/-- The rows a parent hands down: its direct and inherited lineage, or a placeholder. -/
def Db.inheritedRows (s : Db) (agentId : Text) (parent : Id) (now : Text) : List OriginRow :=
  let inherited := (s.parentOrigins agentId parent).filter fun row => row.role != .reaffirm
  if inherited.isEmpty then
    [{ kind := .untrackedParent, session := untrackedSession, message := parent, seq := none
       observedAt := now, hash := none, role := .inherited, via := some parent, connectors := [] }]
  else inherited.map fun row => { row with role := .inherited, via := some parent }

def Db.addParents (s : Db) (agentId now : Text) :
    List Id → List ((Text × Text) × OriginRow) →
      Except FenceRefusal (List ((Text × Text) × OriginRow))
  | [], rows => .ok rows
  | parent :: more, rows =>
    match s.parentCheck agentId parent with
    | some refusal => .error refusal
    | none => s.addParents agentId now more ((s.inheritedRows agentId parent now).foldl addRow rows)

def Db.firstForgotten (env : Env) (s : Db) (agentId : Text) (rows : List OriginRow) :
    Option FenceRefusal :=
  (rows.find? fun row =>
    tombstoneMatch s.tombstones agentId row.session row.message row.seq row.observedAt).map
      fun row => ⟨.sourceForgotten, some (sourceDigest env agentId row.session row.message []), none⟩

/-- `resolve` below the connector wrapper: `rows` are those of a system producer. -/
def Db.resolveRows (env : Env) (s : Db) (agentId : Text) (rows : List ((Text × Text) × OriginRow))
    (direct : List SourceRef) (parents extraParents : List Id) (isDerived : Bool) (now : Text) :
    Except MemError (Except FenceRefusal (List OriginRow)) :=
  match direct.findSome? SourceRef.validate with
  | some error => .error (.invalidSource error)
  | none =>
    let rows := direct.foldl (fun rows source => addRow rows
      { kind := .source source.kind, session := source.session, message := source.message
        seq := source.seq, observedAt := env.formatTs source.observedAt
        hash := source.contentHash, role := .direct, via := none, connectors := [] }) rows
    let allParents := extraParents.foldl
      (fun acc parent => if acc.contains parent then acc else acc ++ [parent]) parents
    if isDerived && allParents.isEmpty && direct.isEmpty then .error .derivedEmpty
    else
      match s.addParents agentId now allParents rows with
      | .error refusal => .ok (.error refusal)
      | .ok entries =>
        let rows := entries.map Prod.snd
        match s.stampsFenced agentId rows with
        | .error error => .error error
        | .ok true => .ok (.error ⟨.sourceForgotten, none, none⟩)
        | .ok false =>
          match s.firstForgotten env agentId rows with
          | some refusal => .ok (.error refusal)
          | none =>
            if maxLineageSources < rows.length then
              .ok (.error ⟨.lineageOverflow, none, none⟩)
            else .ok (.ok rows)

/-- The stamps a turn puts on the rows it is a direct source of. -/
def stampRow (env : Env) (refs : List Text) (observedAt : Option Int) (row : OriginRow) :
    OriginRow :=
  if row.role ≠ .direct then row
  else
    let at_ := (observedAt.map env.formatTs).getD row.observedAt
    { row with connectors := row.connectors ++ refs.map fun reference => (reference, at_) }

def Db.resolve (env : Env) (s : Db) (agentId : Text) (extraParents : List Id) (now : Text) :
    Provenance → Except MemError (Except FenceRefusal (List OriginRow))
  | .sources direct =>
    if direct.isEmpty then .error .noSource
    else s.resolveRows env agentId [] direct [] extraParents false now
  | .derived parents extra => s.resolveRows env agentId [] extra parents extraParents true now
  | .system producer =>
    if isBlank producer || producer.any isControl then .error .producer
    else
      s.resolveRows env agentId
        (addRow []
          { kind := .source .system, session := systemSessionPrefix ++ producer, message := []
            seq := none, observedAt := now, hash := none, role := .direct, via := none
            connectors := [] })
        [] [] extraParents false now
  | .connectors provenance refs observedAt =>
    if maxLineageSources < refs.length || refs.any (fun r => !validRef r) then
      .error .invalidStamps
    else
      match s.resolve env agentId extraParents now provenance with
      | .error error => .error error
      | .ok (.error refusal) => .ok (.error refusal)
      | .ok (.ok rows) =>
        let refs := if refs.isEmpty then ["none".toList] else refs
        let rows := rows.map (stampRow env refs observedAt)
        match s.stampsFenced agentId rows with
        | .error error => .error error
        | .ok true => .ok (.error ⟨.sourceForgotten, none, none⟩)
        | .ok false => .ok (.ok rows)

/-! ## Inserting lineage rows -/

def Origin.sameKey (a b : Origin) : Bool :=
  a.store == b.store && a.memoryId == b.memoryId && a.session == b.session && a.message == b.message

/-- The upsert of `memory_origins`: on a conflict only the role changes, to the stronger
one. -/
def upsertOrigin (origins : List Origin) (o : Origin) : List Origin :=
  if origins.any (Origin.sameKey o) then
    origins.map fun e =>
      if o.sameKey e then { e with role := if e.role.rank < o.role.rank then o.role else e.role }
      else e
  else origins ++ [o]

/-- One INSERT, behind its trigger. -/
def Db.insertOrigin (s : Db) (o : Origin) : Except MemError Db :=
  if o.fenced s.tombstones o.agentId then .error .sourceForgotten
  else .ok { s with origins := upsertOrigin s.origins o }

def OriginRow.toOrigin (row : OriginRow) (store : StoreName) (memoryId : Id) (agentId : Text) :
    Origin where
  store := store
  memoryId := memoryId
  agentId := agentId
  kind := row.kind
  session := row.session
  message := row.message
  seq := row.seq
  observedAt := row.observedAt
  hash := row.hash
  role := row.role
  via := row.via

def Db.insertOriginRows (store : StoreName) (memoryId : Id) (agentId : Text) :
    List OriginRow → Db → Except MemError Db
  | [], s => .ok s
  | row :: more, s =>
    match s.insertOrigin (row.toOrigin store memoryId agentId) with
    | .error error => .error error
    | .ok next => insertOriginRows store memoryId agentId more next

/-- The stamp triggers: a forgotten connector of a namespace the row has lineage in. -/
def Db.stampFenced (s : Db) (stamp : Stamp) : Bool :=
  s.origins.any fun o => o.store == stamp.store && o.memoryId == stamp.memoryId &&
    s.forgottenConnectors.any fun f =>
      f.agentId == o.agentId && f.reference == stamp.reference && stamp.observedAt ≤ f.uptoTime

def Stamp.sameKey (a b : Stamp) : Bool :=
  a.store == b.store && a.memoryId == b.memoryId && a.reference == b.reference &&
    a.session == b.session && a.message == b.message && a.role == b.role

def Stamp.earlier (a b : Stamp) : Stamp :=
  if a.observedAt ≤ b.observedAt then a else { a with observedAt := b.observedAt }

/-- The upsert of `memory_connector_stamps`: the earliest observation stays. -/
def Db.insertStamp (s : Db) (stamp : Stamp) : Except MemError Db :=
  if s.stampFenced stamp then .error .connectorForgotten
  else
    match s.stamps.find? stamp.sameKey with
    | none => .ok { s with stamps := s.stamps ++ [stamp] }
    | some existing =>
      if s.stampFenced (existing.earlier stamp) then .error .connectorForgotten
      else .ok { s with stamps := s.stamps.map fun e =>
        if stamp.sameKey e then e.earlier stamp else e }

def Db.insertStampList : List Stamp → Db → Except MemError Db
  | [], s => .ok s
  | stamp :: more, s =>
    match s.insertStamp stamp with
    | .error error => .error error
    | .ok next => insertStampList more next

/-- `connectors::insert`. -/
def Db.insertStamps (s : Db) (store : StoreName) (memoryId : Id) (rows : List OriginRow) :
    Except MemError Db :=
  s.insertStampList (rows.flatMap fun row => row.connectors.map fun stamp =>
    { store := store, memoryId := memoryId, reference := stamp.1, observedAt := stamp.2
      session := row.session, message := row.message, role := some row.role })

/-- `record_turn_links`: every turn and user message among the direct sources. -/
def Db.recordTurnLinks (s : Db) (rows : List OriginRow) : Db :=
  let direct := rows.filter fun row => row.role == .direct
  let turns := direct.filter fun row => row.kind == .source .mcpTurn
  let messages := direct.filter fun row => row.kind == .source .channelMessage
  let links := turns.flatMap fun turn =>
    (messages.filter fun m => m.session == turn.session).map fun m =>
      TurnLink.mk turn.session m.message turn.message
  let addLink known link := if known.contains link then known else known ++ [link]
  { s with turnLinks := links.foldl addLink s.turnLinks }

def Db.insertOrigins (s : Db) (store : StoreName) (memoryId : Id) (agentId : Text)
    (rows : List OriginRow) : Except MemError Db :=
  match insertOriginRows store memoryId agentId rows s with
  | .error error => .error error
  | .ok next =>
    match next.insertStamps store memoryId rows with
    | .error error => .error error
    | .ok stamped => .ok (stamped.recordTurnLinks rows)

def Db.countAfterMerge (s : Db) (store : StoreName) (memoryId : Id) (rows : List OriginRow) : Nat :=
  let own := s.origins.filter fun o => o.store == store && o.memoryId == memoryId
  (toSet pairLt ((own.map fun o => (o.session, o.message)) ++
    rows.map fun row => (row.session, row.message))).length

/-- `add_reaffirm`: past the cap the corroboration counts but is not recorded. -/
def Db.addReaffirm (env : Env) (s : Db) (survivor : Id) (agentId : Text) (rows : List OriginRow) :
    Except MemError (Option FenceRefusal × Db) :=
  let linked := s.recordTurnLinks rows
  let asReaffirm := rows.map fun row => { row with role := .reaffirm }
  if maxLineageSources < linked.countAfterMerge .memories survivor asReaffirm then
    match linked.firstForgotten env agentId asReaffirm with
    | some refusal => .ok (some refusal, linked)
    | none =>
      match linked.stampsFenced agentId asReaffirm with
      | .error error => .error error
      | .ok true => .ok (some ⟨.sourceForgotten, none, none⟩, linked)
      | .ok false =>
        match linked.insertStamps .memories survivor asReaffirm with
        | .error error => .error error
        | .ok stamped => .ok (none, stamped)
  else
    match linked.insertOrigins .memories survivor agentId asReaffirm with
    | .error error => .error error
    | .ok next => .ok (none, next)

/-- `copy_as_reaffirm` inside one namespace. -/
def Db.copyAsReaffirm (env : Env) (s : Db) (agentId : Text) (fromId toId : Id) :
    Except MemError (Option FenceRefusal × Db) :=
  let rows := s.parentOrigins agentId fromId
  if rows.isEmpty then .ok (none, s) else s.addReaffirm env toId agentId rows

/-! ## What the inserts do -/

def Db.OnlyLineage (s t : Db) : Prop :=
  t = { s with origins := t.origins, stamps := t.stamps, turnLinks := t.turnLinks }

variable {s t : Db} {o : Origin} {agentId : Text} {rows : List OriginRow}

variable {store : StoreName} {memoryId : Id}

theorem Db.OnlyLineage.refl (s : Db) : s.OnlyLineage s := rfl

theorem Db.OnlyLineage.trans {u : Db} (first : s.OnlyLineage t) (second : t.OnlyLineage u) :
    s.OnlyLineage u := by
  unfold Db.OnlyLineage at *
  rw [second, first]

/-- A lineage row of a live row of its namespace that matches no tombstone. -/
structure Origin.Good (s : Db) (o : Origin) : Prop where
  live : s.rowExists o.store o.memoryId o.agentId
  clear : o.fenced s.tombstones o.agentId = false

theorem Origin.Good.role (good : o.Good s) (role : Role) :
    { o with role := role }.Good s := ⟨good.live, good.clear⟩

theorem Origin.Good.onlyLineage (good : o.Good s) (same : s.OnlyLineage t) : o.Good t := by
  rw [same]
  exact ⟨good.live, good.clear⟩

theorem upsertOrigin_good {origins : List Origin}
    (good : ∀ e ∈ origins, e.Good s) (fresh : o.Good s) : ∀ e ∈ upsertOrigin origins o, e.Good s := by
  intro e listed
  unfold upsertOrigin at listed
  split at listed
  · obtain ⟨old, inOrigins, rfl⟩ := List.mem_map.mp listed
    split
    · exact (good old inOrigins).role _
    · exact good old inOrigins
  · rcases List.mem_append.mp listed with old | new
    · exact good e old
    · exact List.mem_singleton.mp new ▸ fresh

theorem insertOriginRows_good (live : s.rowExists store memoryId agentId)
    (good : ∀ o ∈ s.origins, o.Good s) (inserted : Db.insertOriginRows store memoryId agentId rows s = .ok t) :
    s.OnlyLineage t ∧ ∀ o ∈ t.origins, o.Good t := by
  induction rows generalizing s with
  | nil =>
    cases inserted
    exact ⟨.refl _, good⟩
  | cons row more ih =>
    simp only [Db.insertOriginRows] at inserted
    unfold Db.insertOrigin at inserted
    split at inserted
    · cases inserted
    rename_i next step
    split at step
    · cases step
    rename_i clear
    have fresh : (row.toOrigin store memoryId agentId).Good s :=
      ⟨live, by simpa using clear⟩
    have first : s.OnlyLineage next := by
      cases step
      rfl
    have nextGood : ∀ o ∈ next.origins, o.Good next := by
      intro o listed
      have good := upsertOrigin_good good fresh o (by cases step; exact listed)
      exact good.onlyLineage first
    have nextLive : next.rowExists store memoryId agentId := by
      rw [first]
      exact live
    obtain ⟨same, allGood⟩ := ih nextLive nextGood inserted
    exact ⟨first.trans same, allGood⟩

theorem insertStampList_onlyLineage {stamps : List Stamp}
    (inserted : Db.insertStampList stamps s = .ok t) : s.OnlyLineage t ∧ t.origins = s.origins := by
  induction stamps generalizing s with
  | nil =>
    cases inserted
    exact ⟨.refl _, rfl⟩
  | cons stamp more ih =>
    simp only [Db.insertStampList] at inserted
    split at inserted
    · cases inserted
    rename_i next step
    have first : s.OnlyLineage next ∧ next.origins = s.origins := by
      unfold Db.insertStamp at step
      split at step
      · cases step
      split at step
      · cases step
        exact ⟨rfl, rfl⟩
      split at step
      · cases step
      · cases step
        exact ⟨rfl, rfl⟩
    obtain ⟨same, origins⟩ := ih inserted
    exact ⟨first.1.trans same, origins.trans first.2⟩

/-- **Inserting lineage rows keeps the fence.** -/
theorem insertOrigins_good (live : s.rowExists store memoryId agentId)
    (good : ∀ o ∈ s.origins, o.Good s) (inserted : s.insertOrigins store memoryId agentId rows = .ok t) :
    s.OnlyLineage t ∧ ∀ o ∈ t.origins, o.Good t := by
  unfold Db.insertOrigins at inserted
  split at inserted
  · cases inserted
  rename_i next lineage
  obtain ⟨same, nextGood⟩ := insertOriginRows_good live good lineage
  split at inserted
  · cases inserted
  rename_i stamped stamps
  cases inserted
  obtain ⟨stampedSame, origins⟩ := insertStampList_onlyLineage stamps
  refine ⟨(same.trans stampedSame).trans rfl, fun o listed => ?_⟩
  have inNext : o ∈ next.origins := origins ▸ listed
  exact ((nextGood o inNext).onlyLineage stampedSame).onlyLineage rfl

/-- **So does corroborating a live row.** -/
theorem addReaffirm_good {env : Env} {survivor : Id}
    {refusal : Option FenceRefusal} (live : s.rowExists .memories survivor agentId)
    (good : ∀ o ∈ s.origins, o.Good s) (added : s.addReaffirm env survivor agentId rows = .ok (refusal, t)) :
    s.OnlyLineage t ∧ ∀ o ∈ t.origins, o.Good t := by
  have linkedSame : s.OnlyLineage (s.recordTurnLinks rows) := rfl
  have linkedGood : ∀ o ∈ (s.recordTurnLinks rows).origins, o.Good (s.recordTurnLinks rows) :=
    fun o listed => (good o listed).onlyLineage linkedSame
  simp only [Db.addReaffirm] at added
  split at added
  · split at added
    · cases added
      exact ⟨linkedSame, linkedGood⟩
    split at added
    · cases added
    · cases added
      exact ⟨linkedSame, linkedGood⟩
    split at added
    · cases added
    rename_i stamped stamps
    cases added
    obtain ⟨same, origins⟩ := insertStampList_onlyLineage stamps
    refine ⟨linkedSame.trans same, fun o listed => ?_⟩
    exact (linkedGood o (origins ▸ listed)).onlyLineage same
  · split at added
    · cases added
    rename_i next inserted
    cases added
    have linkedLive : (s.recordTurnLinks rows).rowExists .memories survivor agentId := live
    obtain ⟨same, nextGood⟩ := insertOrigins_good linkedLive linkedGood inserted
    exact ⟨linkedSame.trans same, nextGood⟩

end DuDuClaw.Memory
