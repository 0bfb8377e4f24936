/-
# Knowledge.Vectors -- chunks, their vectors and a loaded copy

The rows of knowledge.db that search by vectors reads, the operations that write them, and
`Snapshot`, the copy of one model's vectors in memory.  A number of a vector is its 32 bits.

* `decode_encode`: what is stored for a vector is read back as that vector.
* `rows_load`: a loaded copy has the rows that the query selects, each with its collection.
-/
import DuDuClaw.Knowledge.Jobs
import Mathlib.Data.List.Perm.Subperm

namespace DuDuClaw.Knowledge.Vectors

open DuDuClaw.Lib

/-! ## Bytes -/

/-- An `f32`, as its bits. -/
abbrev F32 := UInt32

def toLeBytes (x : F32) : List UInt8 :=
  [UInt8.ofNat x.toNat, UInt8.ofNat (x.toNat / 256), UInt8.ofNat (x.toNat / 65536),
    UInt8.ofNat (x.toNat / 16777216)]

def fromLeBytes (a b c d : UInt8) : F32 :=
  UInt32.ofNat (a.toNat + 256 * b.toNat + 65536 * c.toNat + 16777216 * d.toNat)

def encode (v : List F32) : List UInt8 := v.flatMap toLeBytes

/-- `as_chunks::<4>()`: the rest that does not fill a chunk is dropped. -/
def words : List UInt8 → List F32
  | a :: b :: c :: d :: rest => fromLeBytes a b c d :: words rest
  | _ => []

def decode (bytes : List UInt8) (dim : Nat) : Option (List F32) :=
  if bytes.length ≠ dim * 4 then none else some (words bytes)

theorem fromLeBytes_toLeBytes (x : F32) :
    fromLeBytes (UInt8.ofNat x.toNat) (UInt8.ofNat (x.toNat / 256)) (UInt8.ofNat (x.toNat / 65536))
      (UInt8.ofNat (x.toNat / 16777216)) = x := by
  have bound := x.toNat_lt
  unfold fromLeBytes
  apply UInt32.toNat.inj
  simp only [UInt32.toNat_ofNat', UInt8.toNat_ofNat']
  omega

theorem decode_encode (v : List F32) : decode (encode v) v.length = some v := by
  have size : (encode v).length = v.length * 4 := by
    induction v with
    | nil => rfl
    | cons x rest ih =>
      rw [encode, List.flatMap_cons, List.length_append, ← encode, ih]
      simp only [toLeBytes, List.length_cons, List.length_nil]
      omega
  have back : words (encode v) = v := by
    clear size
    induction v with
    | nil => rfl
    | cons x rest ih =>
      rw [encode, List.flatMap_cons, ← encode]
      change fromLeBytes _ _ _ _ :: words (encode rest) = x :: rest
      rw [fromLeBytes_toLeBytes, ih]
  rw [decode, if_neg (by simp [size]), back]

theorem length_words (bytes : List UInt8) : (words bytes).length = bytes.length / 4 := by
  induction bytes using words.induct with
  | case1 a b c d rest ih =>
    rw [words, List.length_cons, ih]
    simp only [List.length_cons]
    omega
  | case2 bytes short =>
    rw [words]
    · rw [List.length_nil]
      have few : bytes.length < 4 := by
        rcases bytes with _ | ⟨a, _ | ⟨b, _ | ⟨c, _ | ⟨d, rest⟩⟩⟩⟩
        · decide
        · simp
        · simp
        · simp
        · exact absurd rfl (short a b c d rest)
      omega
    · exact short

theorem toLeBytes_fromLeBytes (a b c d : UInt8) : toLeBytes (fromLeBytes a b c d) = [a, b, c, d] := by
  have ⟨ha, hb, hc, hd⟩ : _ ∧ _ ∧ _ ∧ _ := ⟨a.toNat_lt, b.toNat_lt, c.toNat_lt, d.toNat_lt⟩
  have whole : (fromLeBytes a b c d).toNat =
      a.toNat + 256 * b.toNat + 65536 * c.toNat + 16777216 * d.toNat := by
    rw [fromLeBytes, UInt32.toNat_ofNat']
    omega
  simp only [toLeBytes, whole, List.cons.injEq, and_true]
  refine ⟨?_, ?_, ?_, ?_⟩ <;> (apply UInt8.toNat.inj; rw [UInt8.toNat_ofNat']; omega)

theorem encode_words : (bytes : List UInt8) → bytes.length % 4 = 0 → encode (words bytes) = bytes
  | [], _ => rfl
  | a :: b :: c :: d :: rest, full => by
    rw [words, encode, List.flatMap_cons, toLeBytes_fromLeBytes, ← encode, encode_words rest]
    · rfl
    · simp only [List.length_cons] at full
      omega

theorem length_decode {bytes : List UInt8} {dim : Nat} {v : List F32}
    (read : decode bytes dim = some v) : v.length = dim := by
  unfold decode at read
  split at read
  · cases read
  rename_i size
  cases read
  rw [length_words]
  omega

/-! ## Tables -/

structure Source where
  id : Text
  collectionId : Text
  status : Jobs.Status

structure Chunk where
  id : Nat
  sourceId : Text
  collectionId : Text
  ord : Nat
  textSha : Text

structure Embedding where
  chunkId : Nat
  modelId : Text
  dim : Nat
  vec : List UInt8

def Embedding.key (e : Embedding) : Nat × Text := (e.chunkId, e.modelId)

structure Collection where
  id : Text
  name : Text

/-- The tables and the counter in `kb_meta`.  The limit on collections is far below 2³². -/
structure Index where
  collections : Table Collection.id
  sources : Table Source.id
  chunks : Table Chunk.id
  embeddings : Table Embedding.key
  generation : Int
  fk : ∀ c ∈ chunks.rows, c.collectionId ∈ collections.rows.map Collection.id
  room : collections.rows.length ≤ 2 ^ 32

namespace Index

def bumpGeneration (db : Index) : Index := { db with generation := db.generation + 1 }

/-- DELETE of chunks, and with them of their vectors. -/
def deleteChunks (sel : Chunk → Bool) (db : Index) : Index :=
  { db with
    chunks := db.chunks.deleteWhere sel
    embeddings := db.embeddings.deleteWhere fun e =>
      db.chunks.rows.any fun c => sel c && c.id == e.chunkId
    fk := fun c listed => db.fk c (Table.mem_deleteWhere.mp listed).1 }

def nextChunkId (db : Index) : Nat := (db.chunks.rows.map Chunk.id).max?.getD 0 + 1

/-- INSERT: the source and the collection must exist, and the source have no such passage yet. -/
def insertChunk (sourceId collectionId : Text) (ord : Nat) (textSha : Text) (db : Index) :
    Except KbError Index :=
  let row : Chunk := ⟨db.nextChunkId, sourceId, collectionId, ord, textSha⟩
  if known : collectionId ∈ db.collections.rows.map Collection.id then do
    refuseIf (sourceId ∉ db.sources.rows.map Source.id) .db
    refuseIf ((sourceId, ord) ∈ db.chunks.rows.map fun c => (c.sourceId, c.ord)) .db
    return { db with
      chunks := db.chunks.put row
      fk := fun c listed => (Table.mem_put.mp listed).elim (fun old => db.fk c old.1) (· ▸ known) }
  else .error .db

def chunk (db : Index) (id : Nat) : Option Chunk := db.chunks.rows.find? (·.id == id)

def insertOrIgnore (db : Index) (e : Embedding) : Index :=
  match db.embeddings.insert e with
  | some embeddings => { db with embeddings }
  | none => db

def insertOrReplace (db : Index) (e : Embedding) : Index :=
  if (db.chunk e.chunkId).isSome then { db with embeddings := db.embeddings.put e } else db

def find (db : Index) (id : Text) : Option Source := db.sources.rows.find? (·.id == id)

def setSource (id : Text) (status : Jobs.Status) (db : Index) : Index :=
  { db with
    sources := db.sources.update (fun r => if r.id == id then { r with status } else r) fun r => by
      split <;> rfl }

end Index

/-! ## Writers -/

structure KnowledgeConfig where
  maxSourceChars : Nat
  maxChunksTotal : Nat
  deriving DecidableEq

structure Passage where
  ord : Nat
  textSha : Text
  deriving DecidableEq

structure Prepared where
  chunks : List Passage
  chars : Nat
  deriving DecidableEq

/-- What `write_index` refuses before its transaction. -/
def readable (prepared : Prepared) (cfg : KnowledgeConfig) : Except KbError Unit := do
  refuseIf (prepared.chunks = []) (.rejected "empty_text" "文件裡沒有可讀取的文字。")
  refuseIf (cfg.maxSourceChars < prepared.chars) (.rejected "too_many_chars"
    ("文件文字超過 " ++ toString cfg.maxSourceChars ++ " 字的上限，整份未匯入。"))

/-- `kb_carry`: the vectors of a source, each with the hash of its passage. -/
def carry (sourceId : Text) (db : Index) : List (Text × Embedding) :=
  (db.chunks.rows.filter (·.sourceId == sourceId)).flatMap fun c =>
    (db.embeddings.rows.filter (·.chunkId == c.id)).map fun e => (c.textSha, e)

/-- The join of the new chunks of a source with what was carried. -/
def carried (sourceId : Text) (kept : List (Text × Embedding)) (db : Index) : List Embedding :=
  (db.chunks.rows.filter (·.sourceId == sourceId)).flatMap fun c =>
    (kept.filter (·.1 == c.textSha)).map fun k => { k.2 with chunkId := c.id }

def writeIndex (sourceId : Text) (prepared : Prepared) (cfg : KnowledgeConfig) :
    EStateM KbError Index Nat := transaction do
  let source ← query fun db => okOr (db.find sourceId) Jobs.deletedAlready
  let _ ← query fun _ => refuseIf (source.status = .deleting) Jobs.deletedAlready
  let _ ← query fun db => refuseIf
    (cfg.maxChunksTotal < (db.chunks.rows.filter (·.sourceId ≠ sourceId)).length + prepared.chunks.length)
    (.rejected "quota_chunks"
      ("知識庫的段落總數已達上限（" ++ toString cfg.maxChunksTotal ++ " 段），這份文件未匯入。"))
  let kept ← query fun db => .ok (carry sourceId db)
  execute fun db => .ok (db.deleteChunks (·.sourceId == sourceId))
  execute fun db => prepared.chunks.foldlM
    (fun db c => db.insertChunk sourceId source.collectionId c.ord c.textSha) db
  execute fun db => .ok ((carried sourceId kept db).foldl Index.insertOrIgnore db)
  execute fun db => .ok (db.setSource sourceId .ready)
  execute fun db => .ok db.bumpGeneration
  return prepared.chunks.length

def deleteSource (id : Text) : EStateM KbError Index Unit := transaction do
  let _ ← query fun db => okOr (db.find id) .permissionDenied
  execute fun db => .ok (db.setSource id .deleting)
  execute fun db => .ok (db.deleteChunks (·.sourceId == id))
  execute fun db => .ok { db with sources := db.sources.deleteWhere (·.id == id) }
  execute fun db => .ok db.bumpGeneration

/-- What `delete_collection` refuses before its transaction. -/
def confirmed (id confirmName : Text) (db : Index) : Except KbError Unit := do
  let current ← okOr (db.collections.rows.find? (·.id == id)) .permissionDenied
  refuseIf (current.name ≠ confirmName) (.invalid "輸入的名稱與集合名稱不符，未刪除。")

/-- The sources of a collection go with it, and their chunks with them. -/
def Index.dropCollection (id : Text) (db : Index) : Index :=
  let gone := (db.sources.rows.filter (·.collectionId == id)).map Source.id
  { db.deleteChunks fun c => c.collectionId == id || gone.contains c.sourceId with
    collections := db.collections.deleteWhere (·.id == id)
    sources := db.sources.deleteWhere (·.collectionId == id)
    fk := by
      intro c listed
      obtain ⟨before, left⟩ := Table.mem_deleteWhere.mp listed
      obtain ⟨coll, known, same⟩ := List.mem_map.mp (db.fk c before)
      refine List.mem_map.mpr ⟨coll, Table.mem_deleteWhere.mpr ⟨known, ?_⟩, same⟩
      rw [same]
      exact (Bool.or_eq_false_iff.mp left).1
    room := (List.length_filter_le _ _).trans db.room }

def deleteCollection (id : Text) : EStateM KbError Index Unit := transaction do
  execute fun db => .ok (db.deleteChunks (·.collectionId == id))
  execute fun db => .ok (db.dropCollection id)
  execute fun db => .ok db.bumpGeneration

/-- `store`: a row whose chunk is gone is skipped. -/
def store (modelId : Text) (rows : List (Nat × List F32)) : EStateM KbError Index Nat := transaction do
  let n ← query fun db => .ok (rows.filter fun row => (db.chunk row.1).isSome).length
  execute fun db => .ok (rows.foldl
    (fun db row => db.insertOrReplace ⟨row.1, modelId, row.2.length, encode row.2⟩) db)
  execute fun db => .ok db.bumpGeneration
  return n

/-- The vector that `reuse_by_sha` finds for a chunk. -/
def twin (modelId : Text) (db : Index) (c : Chunk) : Option Embedding :=
  let owns (id : Nat) (e : Embedding) : Bool := e.chunkId == id && e.modelId == modelId
  if db.embeddings.rows.any (owns c.id) then none
  else do
    let other ← db.chunks.rows.find? fun c2 =>
      c2.textSha == c.textSha && c2.id ≠ c.id && db.embeddings.rows.any (owns c2.id)
    let e ← db.embeddings.rows.find? (owns other.id)
    return { e with chunkId := c.id }

/-- The INSERT of `reuse_by_sha`: how many vectors were filled. -/
def reuseBySha (sourceId modelId : Text) (excluded : List Text) (db : Index) : Nat × Index :=
  let chunks := db.chunks.rows.filter fun c => c.sourceId == sourceId && !excluded.contains c.collectionId
  let filled := chunks.filterMap (twin modelId db)
  (filled.length, filled.foldl Index.insertOrIgnore db)

/-! ## Loading -/

structure Snapshot where
  modelId : Text
  generation : Int
  dim : Nat
  ids : List Nat
  collIdx : List UInt32
  collections : List Text
  data : List F32
  deriving DecidableEq

/-- A snapshot in the loop of `load`, with the places that collections have in it. -/
structure Loading where
  snap : Snapshot
  index : List (Text × UInt32)

structure Row where
  id : Nat
  coll : Text
  blob : List UInt8

/-- The SELECT of `load`. -/
def rowsOf (modelId : Text) (dim : Nat) (db : Index) : List Row :=
  ((db.embeddings.rows.filter fun e => e.modelId == modelId && e.dim == dim).mergeSort
    fun a b => a.chunkId ≤ b.chunkId).filterMap fun e =>
      (db.chunk e.chunkId).map fun c => ⟨e.chunkId, c.collectionId, e.vec⟩

def Snapshot.add (s : Snapshot) (id : Nat) (ci : UInt32) (new : List Text) (v : List F32) : Snapshot :=
  { s with
    ids := s.ids ++ [id]
    collIdx := s.collIdx ++ [ci]
    collections := s.collections ++ new
    data := s.data ++ v }

/-- A malformed row is skipped, never misread. -/
def Loading.push (l : Loading) (row : Row) : Loading :=
  match decode row.blob l.snap.dim with
  | none => l
  | some v =>
    let next := UInt32.ofNat l.snap.collections.length
    match l.index.lookup row.coll with
    | some ci => { l with snap := l.snap.add row.id ci [] v }
    | none => ⟨l.snap.add row.id next [row.coll] v, (row.coll, next) :: l.index⟩

def load (modelId : Text) (dim : Nat) (generation : Int) (db : Index) : Snapshot :=
  ((rowsOf modelId dim db).foldl Loading.push ⟨⟨modelId, generation, dim, [], [], [], []⟩, []⟩).snap

/-- The rows as `knn` reads them: id, collection and vector. -/
def Snapshot.rows (s : Snapshot) : List (Nat × Option Text × List F32) :=
  (s.ids.zip s.collIdx).mapIdx fun row (id, ci) =>
    (id, s.collections[ci.toNat]?, (s.data.drop (row * s.dim)).take s.dim)

/-- The vectors of the model and dimension, each with its chunk's collection. -/
def selected (modelId : Text) (dim : Nat) (db : Index) : List (Nat × Option Text × List F32) :=
  (rowsOf modelId dim db).filterMap fun row =>
    (decode row.blob dim).map fun v => (row.id, some row.coll, v)

/-- The columns of a snapshot have one length, and its rows point to its collections. -/
structure Shaped (s : Snapshot) : Prop where
  collIdx : s.collIdx.length = s.ids.length
  data : s.data.length = s.ids.length * s.dim
  inRange : ∀ ci ∈ s.collIdx, ci.toNat < s.collections.length

section Load

variable {s : Snapshot} {l : Loading} {known : List Text} {id : Nat} {ci : UInt32} {new : List Text}
  {v : List F32} {row : Row}

theorem shaped_add (shaped : Shaped s) (inRange : ci.toNat < (s.collections ++ new).length)
    (size : v.length = s.dim) : Shaped (s.add id ci new v) := by
  refine ⟨?_, ?_, fun ci' listed => ?_⟩
  · simp [Snapshot.add, shaped.collIdx]
  · simp only [Snapshot.add, List.length_append, List.length_singleton, shaped.data, size]
    rw [Nat.add_mul, Nat.one_mul]
  · obtain old | rfl := List.mem_append.mp listed |>.imp_right List.mem_singleton.mp
    · have := shaped.inRange ci' old
      simp only [Snapshot.add, List.length_append]
      omega
    · exact inRange

/-- A row at the end, and maybe a collection, change no row before. -/
theorem rows_add (shaped : Shaped s) (size : v.length = s.dim) :
    (s.add id ci new v).rows = s.rows ++ [(id, (s.collections ++ new)[ci.toNat]?, v)] := by
  unfold Snapshot.rows Snapshot.add
  dsimp only
  rw [List.zip_append shaped.collIdx.symm]
  change List.mapIdx _ (_ ++ [(id, ci)]) = _
  rw [List.mapIdx_concat]
  have count : (s.ids.zip s.collIdx).length = s.ids.length := by
    rw [List.length_zip, shaped.collIdx, Nat.min_self]
  congr 1
  · apply List.ext_getElem
    · simp
    · intro i before _
      rw [List.length_mapIdx, count] at before
      simp only [List.getElem_mapIdx, List.getElem_zip]
      have inside : i < s.collIdx.length := by rwa [shaped.collIdx]
      have listed : s.collIdx[i] ∈ s.collIdx := List.getElem_mem inside
      rw [List.getElem?_append_left (shaped.inRange _ listed)]
      have fits : i * s.dim + s.dim ≤ s.data.length := by
        rw [shaped.data, ← Nat.succ_mul]
        exact Nat.mul_le_mul_right _ before
      rw [List.drop_append_of_le_length (by omega), List.take_append_of_le_length]
      rw [List.length_drop]
      omega
  · rw [count, ← shaped.data, List.drop_left, List.take_of_length_le (by rw [size])]

/-- The loop of `load` over the rows of a table, the collections of which are `known`. -/
structure Loaded (known : List Text) (l : Loading) : Prop where
  shaped : Shaped l.snap
  distinct : l.snap.collections.Nodup
  subset : l.snap.collections ⊆ known
  index : ∀ coll, l.index.lookup coll =
    if coll ∈ l.snap.collections then some (UInt32.ofNat (l.snap.collections.idxOf coll)) else none

theorem toNat_place {n : Nat} (room : n < 2 ^ 32) : (UInt32.ofNat n).toNat = n := by
  rw [UInt32.toNat_ofNat', Nat.mod_eq_of_lt room]

theorem loaded_push (room : known.length ≤ 2 ^ 32) (loaded : Loaded known l) (listed : row.coll ∈ known) :
    Loaded known (l.push row) ∧ (l.push row).snap.rows = l.snap.rows ++
      ((decode row.blob l.snap.dim).map fun v => (row.id, some row.coll, v)).toList := by
  unfold Loading.push
  cases read : decode row.blob l.snap.dim with
  | none => exact ⟨loaded, by simp⟩
  | some v =>
    have size := length_decode read
    dsimp only
    rw [loaded.index]
    by_cases seen : row.coll ∈ l.snap.collections
    · rw [if_pos seen]
      have place := List.idxOf_lt_length_of_mem seen
      have few := (loaded.distinct.subperm loaded.subset).length_le
      have back := toNat_place (place.trans_le (few.trans room))
      refine ⟨⟨shaped_add loaded.shaped ?_ size, ?_, ?_, ?_⟩, ?_⟩
      · rwa [back, List.append_nil]
      · simpa [Snapshot.add] using loaded.distinct
      · simpa [Snapshot.add] using loaded.subset
      · simpa [Snapshot.add] using loaded.index
      · rw [rows_add loaded.shaped size, back, List.append_nil, List.getElem?_idxOf seen]
        rfl
    · rw [if_neg seen]
      have distinct : (l.snap.collections ++ [row.coll]).Nodup := by
        rw [← List.concat_eq_append]
        exact loaded.distinct.concat seen
      have subset : l.snap.collections ++ [row.coll] ⊆ known := by
        apply List.append_subset.mpr
        exact ⟨loaded.subset, by simpa using listed⟩
      have few := (distinct.subperm subset).length_le
      rw [List.length_append, List.length_singleton] at few
      have back := toNat_place (n := l.snap.collections.length) (by omega)
      refine ⟨⟨shaped_add loaded.shaped ?_ size, distinct, subset, fun coll => ?_⟩, ?_⟩
      · rw [back, List.length_append, List.length_singleton]
        exact Nat.lt_succ_self _
      · dsimp only [Snapshot.add]
        rw [List.lookup_cons]
        by_cases same : coll = row.coll
        · subst same
          simp [List.idxOf_append_of_notMem seen]
        rw [beq_false_of_ne same, loaded.index]
        by_cases old : coll ∈ l.snap.collections
        · simp [old, List.idxOf_append_of_mem old]
        · simp [old, same]
      · rw [rows_add loaded.shaped size, back, List.getElem?_concat_length]
        rfl

theorem label_push : (l.push row).snap.modelId = l.snap.modelId ∧
    (l.push row).snap.dim = l.snap.dim ∧ (l.push row).snap.generation = l.snap.generation := by
  unfold Loading.push
  split
  · exact ⟨rfl, rfl, rfl⟩
  · dsimp only
    split <;> exact ⟨rfl, rfl, rfl⟩

theorem label_foldl (rows : List Row) : (rows.foldl Loading.push l).snap.modelId = l.snap.modelId ∧
    (rows.foldl Loading.push l).snap.dim = l.snap.dim ∧
      (rows.foldl Loading.push l).snap.generation = l.snap.generation := by
  induction rows generalizing l with
  | nil => exact ⟨rfl, rfl, rfl⟩
  | cons row rest ih => simpa only [List.foldl_cons, label_push] using @ih (l.push row)

theorem loaded_foldl (room : known.length ≤ 2 ^ 32) {rows : List Row}
    (listed : ∀ row ∈ rows, row.coll ∈ known) (loaded : Loaded known l) :
    (rows.foldl Loading.push l).snap.rows = l.snap.rows ++ rows.filterMap fun row =>
      (decode row.blob l.snap.dim).map fun v => (row.id, some row.coll, v) := by
  induction rows generalizing l with
  | nil => simp
  | cons row rest ih =>
    obtain ⟨here, later⟩ := List.forall_mem_cons.mp listed
    obtain ⟨next, added⟩ := loaded_push room loaded here
    rw [List.foldl_cons, ih later next, label_push.2.1, added, List.append_assoc, List.filterMap_cons]
    cases decode row.blob l.snap.dim <;> rfl

end Load

section Select

variable {db : Index} {modelId : Text} {dim : Nat}

theorem mem_rowsOf {row : Row} : row ∈ rowsOf modelId dim db ↔
    ∃ e ∈ db.embeddings.rows, ∃ c ∈ db.chunks.rows, e.modelId = modelId ∧ e.dim = dim ∧
      c.id = e.chunkId ∧ row = ⟨c.id, c.collectionId, e.vec⟩ := by
  unfold rowsOf
  rw [List.mem_filterMap]
  constructor
  · rintro ⟨e, listed, joined⟩
    rw [List.mem_mergeSort, List.mem_filter, Bool.and_eq_true, beq_iff_eq, beq_iff_eq] at listed
    obtain ⟨c, found, rfl⟩ := Option.map_eq_some_iff.mp joined
    have same : c.id = e.chunkId := by simpa using List.find?_some found
    exact ⟨e, listed.1, c, List.mem_of_find?_eq_some found, listed.2.1, listed.2.2, same, by rw [same]⟩
  · rintro ⟨e, listed, c, known, rfl, rfl, same, rfl⟩
    refine ⟨e, ?_, ?_⟩
    · rw [List.mem_mergeSort, List.mem_filter]
      exact ⟨listed, by simp⟩
    · have found := db.chunks.find?_key known
      rw [same] at found
      rw [Index.chunk, found, same]
      rfl

theorem label_load (generation : Int) : (load modelId dim generation db).modelId = modelId ∧
    (load modelId dim generation db).dim = dim ∧
      (load modelId dim generation db).generation = generation := label_foldl _

theorem rows_load (generation : Int) : (load modelId dim generation db).rows = selected modelId dim db := by
  have listed : ∀ row ∈ rowsOf modelId dim db, row.coll ∈ db.collections.rows.map Collection.id := by
    intro row listed
    obtain ⟨e, -, c, known, -, -, -, rfl⟩ := mem_rowsOf.mp listed
    exact db.fk c known
  have room : (db.collections.rows.map Collection.id).length ≤ 2 ^ 32 := by
    rw [List.length_map]
    exact db.room
  unfold load
  rw [loaded_foldl room listed]
  · rfl
  · exact ⟨⟨rfl, by simp, by simp⟩, List.nodup_nil, List.nil_subset _, by simp⟩

theorem distinct_chunkId : (db.embeddings.rows.filter fun e =>
    e.modelId == modelId && e.dim == dim).Pairwise fun a b => a.chunkId ≠ b.chunkId := by
  have keys := (List.pairwise_map.mp db.embeddings.distinct).filter fun e =>
    e.modelId == modelId && e.dim == dim
  refine keys.imp_of_mem fun left right differ same => differ ?_
  simp only [List.mem_filter, Bool.and_eq_true, beq_iff_eq] at left right
  exact Prod.ext same (left.2.1.trans right.2.1.symm)

theorem sorted_rowsOf : (rowsOf modelId dim db).Pairwise fun a b => a.id < b.id := by
  unfold rowsOf
  generalize matching : db.embeddings.rows.filter _ = rows
  have apart : rows.Pairwise fun a b => a.chunkId ≠ b.chunkId := matching ▸ distinct_chunkId
  have trans : ∀ a b c : Embedding, decide (a.chunkId ≤ b.chunkId) → decide (b.chunkId ≤ c.chunkId) →
      decide (a.chunkId ≤ c.chunkId) := by
    intro a b c first second
    simp only [decide_eq_true_eq] at first second ⊢
    omega
  have total : ∀ a b : Embedding, decide (a.chunkId ≤ b.chunkId) || decide (b.chunkId ≤ a.chunkId) := by
    intro a b
    simp only [Bool.or_eq_true, decide_eq_true_eq]
    omega
  have sorted := List.pairwise_mergeSort trans total rows
  have distinct := ((List.mergeSort_perm rows fun a b => a.chunkId ≤ b.chunkId).pairwise_iff
    fun differ same => differ same.symm).mpr apart
  refine List.pairwise_filterMap.mpr ((sorted.and distinct).imp ?_)
  rintro a b ⟨le, ne⟩ row found row' found'
  obtain ⟨c, -, rfl⟩ := Option.map_eq_some_iff.mp found
  obtain ⟨c', -, rfl⟩ := Option.map_eq_some_iff.mp found'
  exact Nat.lt_of_le_of_ne (by simpa using le) ne

/-- The table has this vector of the model and dimension, for a chunk of the collection. -/
def Current (db : Index) (modelId : Text) (dim id : Nat) (coll : Text) (v : List F32) : Prop :=
  ∃ c ∈ db.chunks.rows, ∃ e ∈ db.embeddings.rows, c.id = id ∧ c.collectionId = coll ∧
    e.chunkId = id ∧ e.modelId = modelId ∧ e.dim = dim ∧ decode e.vec dim = some v

theorem mem_selected {entry : Nat × Option Text × List F32} : entry ∈ selected modelId dim db ↔
    ∃ id coll v, entry = (id, some coll, v) ∧ Current db modelId dim id coll v := by
  unfold selected
  rw [List.mem_filterMap]
  constructor
  · rintro ⟨row, listed, read⟩
    obtain ⟨e, stored, c, known, model, size, same, rfl⟩ := mem_rowsOf.mp listed
    obtain ⟨v, decoded, rfl⟩ := Option.map_eq_some_iff.mp read
    exact ⟨_, _, _, rfl, c, known, e, stored, rfl, rfl, same.symm, model, size, decoded⟩
  · rintro ⟨id, coll, v, rfl, c, known, e, stored, rfl, rfl, same, model, size, decoded⟩
    exact ⟨_, mem_rowsOf.mpr ⟨e, stored, c, known, model, size, same.symm, rfl⟩, by simp [decoded]⟩

theorem sorted_selected : (selected modelId dim db).Pairwise fun a b => a.1 < b.1 := by
  refine List.pairwise_filterMap.mpr (sorted_rowsOf.imp fun lt a read b read' => ?_)
  obtain ⟨v, -, rfl⟩ := Option.map_eq_some_iff.mp read
  obtain ⟨v', -, rfl⟩ := Option.map_eq_some_iff.mp read'
  exact lt

end Select

/-! ## Counting -/

section Counting

variable {db db' : Index}

variable {sourceId id : Text} {n : Nat} {u : Unit}

@[simp] theorem generation_insertOrIgnore (e : Embedding) :
    (db.insertOrIgnore e).generation = db.generation := by
  unfold Index.insertOrIgnore
  split <;> rfl

@[simp] theorem generation_insertOrReplace (e : Embedding) :
    (db.insertOrReplace e).generation = db.generation := by
  unfold Index.insertOrReplace
  split <;> rfl

theorem generation_insertChunk {collectionId textSha : Text} {ord : Nat}
    (inserted : db.insertChunk sourceId collectionId ord textSha = .ok db') :
    db'.generation = db.generation := by
  unfold Index.insertChunk at inserted
  dsimp only at inserted
  split at inserted
  · obtain ⟨_, -, inserted⟩ := bind_ok.mp inserted
    obtain ⟨_, -, inserted⟩ := bind_ok.mp inserted
    cases inserted
    rfl
  · cases inserted

theorem generation_foldl {α : Type} {f : Index → α → Index}
    (same : ∀ db a, (f db a).generation = db.generation) (items : List α) :
    (items.foldl f db).generation = db.generation := by
  induction items generalizing db with
  | nil => rfl
  | cons a rest ih => rw [List.foldl_cons, ih, same]

theorem generation_writeIndex {prepared : Prepared} {cfg : KnowledgeConfig}
    (returned : writeIndex sourceId prepared cfg db = .ok n db') : db'.generation = db.generation + 1 := by
  unfold writeIndex at returned
  rw [transaction_returned] at returned
  obtain ⟨source, -, returned⟩ := query_bind.mp returned
  obtain ⟨_, -, returned⟩ := query_bind.mp returned
  obtain ⟨_, -, returned⟩ := query_bind.mp returned
  obtain ⟨kept, -, returned⟩ := query_bind.mp returned
  obtain ⟨emptied, deleted, returned⟩ := execute_bind.mp returned
  obtain ⟨written, inserted, returned⟩ := execute_bind.mp returned
  obtain ⟨filled, joined, returned⟩ := execute_bind.mp returned
  obtain ⟨marked, set, returned⟩ := execute_bind.mp returned
  obtain ⟨counted, bumped, returned⟩ := execute_bind.mp returned
  obtain ⟨-, rfl⟩ := pure_returned.mp returned
  cases deleted
  cases joined
  cases set
  cases bumped
  have kept : written.generation = db.generation :=
    foldlM_run (fun _ st => st.generation = db.generation) rfl
      (fun _ _ _ _ holds inserted => (generation_insertChunk inserted).trans holds) inserted
  change (List.foldl _ written _).generation + 1 = _
  rw [generation_foldl (fun _ e => generation_insertOrIgnore e), kept]

theorem generation_deleteSource (returned : deleteSource id db = .ok u db') :
    db'.generation = db.generation + 1 := by
  unfold deleteSource at returned
  rw [transaction_returned] at returned
  obtain ⟨source, -, returned⟩ := query_bind.mp returned
  obtain ⟨_, wrote, returned⟩ := execute_bind.mp returned
  cases wrote
  obtain ⟨_, wrote, returned⟩ := execute_bind.mp returned
  cases wrote
  obtain ⟨_, wrote, returned⟩ := execute_bind.mp returned
  cases wrote
  cases execute_returned.mp returned
  rfl

theorem generation_deleteCollection
    (returned : deleteCollection id db = .ok u db') : db'.generation = db.generation + 1 := by
  unfold deleteCollection at returned
  rw [transaction_returned] at returned
  obtain ⟨_, wrote, returned⟩ := execute_bind.mp returned
  cases wrote
  obtain ⟨_, wrote, returned⟩ := execute_bind.mp returned
  cases wrote
  cases execute_returned.mp returned
  rfl

theorem generation_store {modelId : Text} {rows : List (Nat × List F32)}
    (returned : store modelId rows db = .ok n db') : db'.generation = db.generation + 1 := by
  unfold store at returned
  rw [transaction_returned] at returned
  obtain ⟨_, -, returned⟩ := query_bind.mp returned
  obtain ⟨_, wrote, returned⟩ := execute_bind.mp returned
  cases wrote
  obtain ⟨_, wrote, returned⟩ := execute_bind.mp returned
  cases wrote
  obtain ⟨-, rfl⟩ := pure_returned.mp returned
  change (List.foldl _ db _).generation + 1 = _
  rw [generation_foldl fun _ _ => generation_insertOrReplace _]

theorem generation_reuseBySha (sourceId modelId : Text) (excluded : List Text) :
    (reuseBySha sourceId modelId excluded db).2.generation = db.generation :=
  generation_foldl (fun _ e => generation_insertOrIgnore e) _

end Counting

end DuDuClaw.Knowledge.Vectors
