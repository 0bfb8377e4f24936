/-
# Knowledge.VectorLimit -- the limit on the vectors of a model

`embed_source` (embed/job.rs): it copies the vectors of passages with the same text, then embeds batch
by batch.  `max_rows` is looked at before each batch, not before the copies.

* `rows_embedLoop`: the batches stay within the limit.
* `rows_run`: so does a run whose copies fit when they are made.
* `copies_pass_limit`: copies that do not fit.
-/
import Mathlib.Data.List.Sort
import DuDuClaw.Knowledge.Vectors
import DuDuClaw.Lib.Runs

namespace DuDuClaw.Knowledge.Vectors

open DuDuClaw.Lib

/-! ## The job -/

inductive EmbedJobError where
  | embed
  | cancelled

structure EmbedOutcome where
  embedded : Nat
  reused : Nat
  capped : Bool

/-- A round of the loop that `keep_going` lets through: the collections excluded now, and what
`embed_passages` answers. -/
structure Round where
  excluded : List Text
  vecs : Option (List (List F32))

structure EmbedCall where
  sourceId : Text
  excluded : List Text
  rounds : List Round

def isFinite (x : F32) : Bool := x &&& 0x7F800000 != 0x7F800000

variable (sourceId modelId : Text) (dim batch maxRows : Nat)

def vectorRows (db : Index) : Nat := (db.embeddings.rows.filter (·.modelId == modelId)).length

/-- `ORDER BY ord LIMIT`. -/
def pending (excluded : List Text) (limit : Nat) (db : Index) : List Nat :=
  let missing := db.chunks.rows.filter fun c => c.sourceId == sourceId && !(excluded.contains c.collectionId) &&
    !(db.embeddings.rows.any fun e => e.chunkId == c.id && e.modelId == modelId)
  ((missing.insertionSort fun a b => a.ord ≤ b.ord).take limit).map Chunk.id

/-- The loop; where the rounds end, `keep_going` says stop. -/
def embedLoop : List Round → EmbedOutcome → Index → Except EmbedJobError EmbedOutcome × Index
  | [], _, db => (.error .cancelled, db)
  | round :: later, out, db =>
    let rows := vectorRows modelId db
    if maxRows ≤ rows then (.ok { out with capped := true }, db)
    else
      let ids := pending sourceId modelId round.excluded (min (max batch 1) (maxRows - rows)) db
      if ids.isEmpty then (.ok out, db)
      else
        let fits (vecs : List (List F32)) : Bool :=
          vecs.length == ids.length && vecs.all fun v => v.length == dim && v.all isFinite
        match round.vecs.filter fits with
        | none => (.error .embed, db)
        | some vecs =>
          embedLoop later { out with embedded := out.embedded + ids.length }
            (after (store modelId (ids.zip vecs)) db)

def embedSource (call : EmbedCall) (db : Index) : Except EmbedJobError EmbedOutcome × Index :=
  let (reused, db) := reuseBySha call.sourceId modelId call.excluded db
  embedLoop call.sourceId modelId dim batch maxRows call.rounds ⟨0, reused, false⟩
    (if reused = 0 then db else db.bumpGeneration)

/-- The passages of the source that get a copy of a vector. -/
def copies (excluded : List Text) (db : Index) : Nat :=
  db.chunks.rows.countP fun c =>
    (twin modelId db c).isSome && (c.sourceId == sourceId && !(excluded.contains c.collectionId))

def embedStep (db : Index) (call : EmbedCall) : Index := (embedSource modelId dim batch maxRows call db).2

/-! ## How many vectors there are -/

section Limit

variable {sourceId modelId : Text} {dim batch maxRows : Nat} {db : Index}

theorem rows_insertOrIgnore (db : Index) (e : Embedding) :
    vectorRows modelId (db.insertOrIgnore e) ≤ vectorRows modelId db + 1 := by
  unfold Index.insertOrIgnore
  cases inserted : db.embeddings.insert e with
  | none => simp
  | some embeddings =>
    show (embeddings.rows.filter _).length ≤ _
    rw [(Table.insert_cases inserted).2, List.filter_append, List.length_append]
    exact Nat.add_le_add_left (List.length_filter_le _ [e]) _

theorem rows_insertOrReplace (db : Index) (e : Embedding) :
    vectorRows modelId (db.insertOrReplace e) ≤ vectorRows modelId db + 1 := by
  unfold Index.insertOrReplace
  split
  · show ((db.embeddings.put e).rows.filter _).length ≤ _
    rw [Table.put, List.filter_append, List.length_append]
    exact Nat.add_le_add ((List.filter_sublist.filter _).length_le) (List.length_filter_le _ [e])
  · simp

theorem rows_foldl {α : Type} {f : Index → α → Index}
    (one : ∀ db x, vectorRows modelId (f db x) ≤ vectorRows modelId db + 1) (xs : List α) (db : Index) :
    vectorRows modelId (xs.foldl f db) ≤ vectorRows modelId db + xs.length := by
  induction xs generalizing db with
  | nil => simp
  | cons x xs ih =>
    have first := one db x
    have others := ih (f db x)
    rw [List.foldl_cons, List.length_cons]
    omega

theorem rows_store (rows : List (Nat × List F32)) :
    vectorRows modelId (after (store modelId rows) db) ≤ vectorRows modelId db + rows.length :=
  rows_foldl (fun db _ => rows_insertOrReplace db _) rows db

theorem rows_embedLoop (rounds : List Round) (out : EmbedOutcome) (within : vectorRows modelId db ≤ maxRows) :
    vectorRows modelId (embedLoop sourceId modelId dim batch maxRows rounds out db).2 ≤ maxRows := by
  induction rounds generalizing out db with
  | nil => exact within
  | cons round later ih =>
    rw [embedLoop]
    dsimp only
    split_ifs with full done
    · exact within
    · exact within
    · split
      · exact within
      · refine ih _ ((rows_store _).trans ?_)
        have batch_le : (pending sourceId modelId round.excluded
            (min (max batch 1) (maxRows - vectorRows modelId db)) db).length ≤ maxRows - vectorRows modelId db := by
          rw [pending, List.length_map, List.length_take]
          omega
        rw [List.length_zip]
        omega

theorem reuseBySha_fst (excluded : List Text) :
    (reuseBySha sourceId modelId excluded db).1 = copies sourceId modelId excluded db := by
  rw [reuseBySha, copies, List.length_filterMap_eq_countP, List.countP_filter]

/-- A call whose copies fit stays within the limit. -/
theorem rows_embedSource (call : EmbedCall)
    (fits : vectorRows modelId db + copies call.sourceId modelId call.excluded db ≤ maxRows) :
    vectorRows modelId (embedSource modelId dim batch maxRows call db).2 ≤ maxRows := by
  have copied : vectorRows modelId (reuseBySha call.sourceId modelId call.excluded db).2 ≤ maxRows := by
    refine (rows_foldl rows_insertOrIgnore _ db).trans ?_
    rwa [← reuseBySha_fst] at fits
  refine rows_embedLoop _ _ ?_
  split_ifs
  · exact copied
  · exact copied

end Limit

/-- **The limit holds where the copies fit**: in a run of calls on any sources, each of which copies no more
vectors than there is room for, the model never has more vectors than the limit. -/
theorem rows_run (s : Index) (calls : List EmbedCall) (start : vectorRows modelId s ≤ maxRows)
    (fits : Obeys (embedStep modelId dim batch maxRows) (fun db call =>
      vectorRows modelId db + copies call.sourceId modelId call.excluded db ≤ maxRows) s calls) :
    ∀ front back, calls = front ++ back →
      vectorRows modelId (run (embedStep modelId dim batch maxRows) s front) ≤ maxRows := by
  rintro front back rfl
  exact run_invariant (fun db => vectorRows modelId db ≤ maxRows)
    (fun _ call _ fits => rows_embedSource call fits) start (obeys_append.mp fits).1

/-- Two sources with one passage each, of the same text; the first one has its vector. -/
def twoSources : Index where
  collections := Table.empty.put ⟨['c'], ['c']⟩
  sources := (Table.empty.put ⟨['a'], ['c'], .ready⟩).put ⟨['b'], ['c'], .ready⟩
  chunks := (Table.empty.put ⟨1, ['a'], ['c'], 0, ['t']⟩).put ⟨2, ['b'], ['c'], 0, ['t']⟩
  embeddings := Table.empty.put ⟨1, ['m'], 1, encode [0]⟩
  generation := 0
  fk := by decide
  room := by decide

theorem rows_run_room :
    vectorRows ['m'] (run (embedStep ['m'] 1 8 2) twoSources [⟨['b'], [], [⟨[], none⟩]⟩]) ≤ 2 :=
  rows_run ['m'] 1 8 2 twoSources [⟨['b'], [], [⟨[], none⟩]⟩] (by decide) (by decide) _ []
    (List.append_nil _).symm

/-- The second source gets a copy where there is no room. -/
theorem copies_pass_limit : vectorRows ['m'] twoSources ≤ 1 ∧
    vectorRows ['m'] (run (embedStep ['m'] 1 8 1) twoSources [⟨['b'], [], [⟨[], none⟩]⟩]) = 2 := by
  decide

end DuDuClaw.Knowledge.Vectors
