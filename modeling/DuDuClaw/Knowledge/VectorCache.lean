/-
# Knowledge.VectorCache -- the vectors in memory

Any number of writers and of readers, each with a connection of its own, and one cached
snapshot.  A transaction holds the write lock from its begin and is seen by others at its
commit; `reuse_by_sha` writes in two statements; a reader asks for the generation, looks at
the cache, loads and puts what it loaded into the cache, each as a step.

* `turn_step`: a step leaves the tables alone, counts its change, or leaves a writer that has
  one to count.
* `coherent_step`: no snapshot, cached or on its way, claims more than it has.
* `snapshot_exact`: a call while nobody writes returns the current vectors.
-/
import DuDuClaw.Knowledge.Vectors
import DuDuClaw.Lib.Versioned
import DuDuClaw.Lib.Runs

namespace DuDuClaw.Knowledge.Vectors

open DuDuClaw.Lib

inductive Change where
  | writeIndex (sourceId : Text) (prepared : Prepared) (cfg : KnowledgeConfig)
  | deleteSource (id : Text)
  | deleteCollection (id confirmName : Text)
  | store (modelId : Text) (rows : List (Nat × List F32))
  deriving DecidableEq

def Change.check : Change → Index → Except KbError Unit
  | .writeIndex _ prepared cfg, _ => readable prepared cfg
  | .deleteSource _, _ => .ok ()
  | .deleteCollection id confirmName, db => confirmed id confirmName db
  | .store _ _, _ => .ok ()

/-- The tables after the transaction, committed or rolled back. -/
def commit : Change → Index → Index
  | .writeIndex sourceId prepared cfg, db => after (writeIndex sourceId prepared cfg) db
  | .deleteSource id, db => after (deleteSource id) db
  | .deleteCollection id _, db => after (deleteCollection id) db
  | .store modelId rows, db => after (store modelId rows) db

inductive Writer where
  | idle
  /-- Before BEGIN IMMEDIATE. -/
  | ready (change : Change)
  | writing (change : Change)
  /-- `reuse_by_sha` between its statements. -/
  | reusing
  deriving DecidableEq

/-- A call of `snapshot`. -/
inductive Caller where
  | idle
  | asked (modelId : Text) (dim : Nat) (generation : Int)
  | missed (modelId : Text) (dim : Nat) (generation : Int)
  | loaded (snap : Snapshot)
  deriving DecidableEq

structure World where
  db : Index
  /-- Whether a transaction is open. -/
  lock : Bool
  writers : Nat → Writer
  cache : Option Snapshot
  callers : Nat → Caller

def World.start (db : Index) : World := ⟨db, false, fun _ => .idle, none, fun _ => .idle⟩

inductive Event where
  | change (writer : Nat) (change : Change)
  | reuse (writer : Nat) (sourceId modelId : Text) (excluded : List Text)
  | work (writer : Nat)
  | call (caller : Nat) (modelId : Text) (dim : Nat)
  | advance (caller : Nat)
  | clear
  deriving DecidableEq

namespace World

def setWriter (w : World) (k : Nat) (writer : Writer) : World :=
  { w with writers := Function.update w.writers k writer }

def setCaller (w : World) (c : Nat) (caller : Caller) : World :=
  { w with callers := Function.update w.callers c caller }

def hit (w : World) (modelId : Text) (dim : Nat) (generation : Int) : Option Snapshot :=
  w.cache.filter fun s => s.generation == generation && s.modelId == modelId && s.dim == dim

def prepare (w : World) (k : Nat) (change : Change) : World :=
  if w.writers k = .idle ∧ change.check w.db = .ok () then w.setWriter k (.ready change) else w

/-- The INSERT of `reuse_by_sha`, which waits for the lock. -/
def reuse (w : World) (k : Nat) (sourceId modelId : Text) (excluded : List Text) : World :=
  if w.writers k ≠ .idle ∨ w.lock then w
  else
    let (n, db) := reuseBySha sourceId modelId excluded w.db
    if 0 < n then { w with db }.setWriter k .reusing else w

def work (w : World) (k : Nat) : World :=
  match w.writers k with
  | .idle => w
  | .ready change => if w.lock then w else { w with lock := true }.setWriter k (.writing change)
  | .writing change => { w with db := commit change w.db, lock := false }.setWriter k .idle
  | .reusing => if w.lock then w else { w with db := w.db.bumpGeneration }.setWriter k .idle

def call (w : World) (c : Nat) (modelId : Text) (dim : Nat) : World :=
  if w.callers c = .idle then w.setCaller c (.asked modelId dim w.db.generation) else w

def advance (w : World) (c : Nat) : World :=
  match w.callers c with
  | .idle => w
  | .asked modelId dim generation =>
    match w.hit modelId dim generation with
    | some _ => w.setCaller c .idle
    | none => w.setCaller c (.missed modelId dim generation)
  | .missed modelId dim generation => w.setCaller c (.loaded (load modelId dim generation w.db))
  | .loaded snap => { w with cache := some snap }.setCaller c .idle

def step (w : World) : Event → World
  | .change k change => w.prepare k change
  | .reuse k sourceId modelId excluded => w.reuse k sourceId modelId excluded
  | .work k => w.work k
  | .call c modelId dim => w.call c modelId dim
  | .advance c => w.advance c
  | .clear => { w with cache := none }

def returned (c : Nat) (w : World) : Event → Option Snapshot
  | .advance c' =>
    if c' = c then
      match w.callers c with
      | .asked modelId dim generation => w.hit modelId dim generation
      | .loaded snap => some snap
      | _ => none
    else none
  | _ => none

/-- What a call that is under way returns in a run. -/
def answer (c : Nat) : World → List Event → Option Snapshot
  | _, [] => none
  | w, e :: rest => (w.returned c e).or (answer c (w.step e) rest)

def Quiet (w : World) : Prop := ∀ k, w.writers k = .idle

end World

def Event.reads : Event → Bool
  | .call _ _ _ | .advance _ | .clear => true
  | _ => false

open World

/-! ## Steps -/

section Step

variable {w : World} {e : Event}

def Pending (w : World) : Prop := ∃ k, w.writers k = .reusing

/-- The three ways a step can go for the tables. -/
inductive Turn (w w' : World) : Prop
  | same (db : w'.db = w.db) (keeps : Pending w → Pending w')
  | counted (grows : w.db.generation < w'.db.generation)
  | uncounted (generation : w'.db.generation = w.db.generation) (pending : Pending w')

theorem counted_after {α : Type} {body : EStateM KbError Index α} {db : Index}
    (counts : ∀ {a t}, transaction body db = .ok a t → t.generation = db.generation + 1) :
    after (transaction body) db = db ∨ (after (transaction body) db).generation = db.generation + 1 :=
  (after_transaction body db).imp_right fun ⟨_, ran⟩ => counts (transaction_returned.mpr ran)

theorem commit_cases (change : Change) (db : Index) :
    commit change db = db ∨ (commit change db).generation = db.generation + 1 := by
  cases change with
  | writeIndex sourceId prepared cfg => exact counted_after generation_writeIndex
  | deleteSource id => exact counted_after generation_deleteSource
  | deleteCollection id confirmName => exact counted_after generation_deleteCollection
  | store modelId rows => exact counted_after generation_store

/-- A writer with nothing to count may go on. -/
theorem pending_setWriter {k : Nat} (other : w.writers k ≠ .reusing) (writer : Writer) :
    Pending w → Pending (w.setWriter k writer) := by
  rintro ⟨j, reusing⟩
  refine ⟨j, ?_⟩
  have apart : j ≠ k := by
    rintro rfl
    exact other reusing
  simp [setWriter, apart, reusing]

theorem turn_work (k : Nat) : Turn w (w.work k) := by
  unfold World.work
  cases at_ : w.writers k with
  | idle => exact .same rfl id
  | ready change =>
    dsimp only
    split
    · exact .same rfl id
    · exact .same rfl (@pending_setWriter { w with lock := true } k (by simp [at_]) _)
  | writing change =>
    obtain same | counted := commit_cases change w.db
    · refine .same same ?_
      exact @pending_setWriter { w with db := commit change w.db, lock := false } k (by simp [at_]) _
    · refine .counted ?_
      change _ < (commit change w.db).generation
      omega
  | reusing =>
    dsimp only
    split
    · exact .same rfl id
    · refine .counted ?_
      exact Int.lt_succ _

theorem turn_reuse (k : Nat) (sourceId modelId : Text) (excluded : List Text) :
    Turn w (w.reuse k sourceId modelId excluded) := by
  unfold World.reuse
  split
  · exact .same rfl id
  dsimp only
  split
  · refine .uncounted (generation_reuseBySha sourceId modelId excluded) ⟨k, ?_⟩
    simp [setWriter]
  · exact .same rfl id

theorem turn_step (e : Event) : Turn w (w.step e) := by
  cases e with
  | change k change =>
    change Turn w (w.prepare k change)
    unfold World.prepare
    split
    · rename_i free
      exact .same rfl (pending_setWriter (by simp [free.1]) _)
    · exact .same rfl id
  | reuse k sourceId modelId excluded => exact turn_reuse k sourceId modelId excluded
  | work k => exact turn_work k
  | call c modelId dim =>
    change Turn w (w.call c modelId dim)
    unfold World.call
    split <;> exact .same rfl id
  | advance c =>
    change Turn w (w.advance c)
    unfold World.advance
    split
    · exact .same rfl id
    · split <;> exact .same rfl id
    · exact .same rfl id
    · exact .same rfl id
  | clear => exact .same rfl id

/-! ## Snapshots -/

/-- No snapshot claims more than it has, and no call is ahead of the tables. -/
def HonestIn (w : World) (s : Snapshot) : Prop :=
  Honest Index.generation (selected s.modelId s.dim) (Pending w) w.db s.generation s.rows

def HonestCaller (w : World) : Caller → Prop
  | .idle => True
  | .asked _ _ generation | .missed _ _ generation => generation ≤ w.db.generation
  | .loaded s => HonestIn w s

structure Coherent (w : World) : Prop where
  cache : ∀ s, w.cache = some s → HonestIn w s
  callers : ∀ c, HonestCaller w (w.callers c)

theorem coherent_start (db : Index) : Coherent (.start db) := by
  constructor
  · intro s cached
    cases cached
  · exact fun _ => trivial

theorem honest_load (w : World) (modelId : Text) (dim : Nat) {generation : Int}
    (le : generation ≤ w.db.generation) : HonestIn w (load modelId dim generation w.db) := by
  obtain ⟨model, size, label⟩ := @label_load w.db modelId dim generation
  unfold HonestIn
  rw [rows_load, model, size, label]
  exact .of_view le

theorem honest_turn {w' : World} {s : Snapshot} (turn : Turn w w') (honest : HonestIn w s) : HonestIn w' s := by
  cases turn with
  | same db keeps => exact Honest.same honest (by rw [db]) (by rw [db]) keeps
  | counted grows => exact Honest.counted honest grows
  | uncounted generation pending => exact Honest.uncounted honest (by rw [generation]) pending

theorem honestCaller_turn {w' : World} {caller : Caller} (turn : Turn w w')
    (honest : HonestCaller w caller) : HonestCaller w' caller := by
  have le : w.db.generation ≤ w'.db.generation := by
    cases turn with
    | same db keeps => rw [db]
    | counted grows => exact Int.le_of_lt grows
    | uncounted generation pending => rw [generation]
  cases caller with
  | idle => trivial
  | asked modelId dim generation | missed modelId dim generation => exact Int.le_trans honest le
  | loaded s => exact honest_turn turn honest

/-- What is new after a step was honest before it. -/
theorem coherent_turn {w' : World} (coherent : Coherent w) (turn : Turn w w')
    (cache : ∀ s, w'.cache = some s → w.cache = some s ∨ HonestIn w s)
    (callers : ∀ c, w'.callers c = w.callers c ∨ HonestCaller w (w'.callers c)) : Coherent w' := by
  constructor
  · intro s cached
    obtain old | honest := cache s cached
    · exact honest_turn turn (coherent.cache s old)
    · exact honest_turn turn honest
  · intro c
    obtain old | honest := callers c
    · rw [old]
      exact honestCaller_turn turn (coherent.callers c)
    · exact honestCaller_turn turn honest

theorem readers_step (writes : e.reads = false) :
    (w.step e).cache = w.cache ∧ (w.step e).callers = w.callers := by
  cases e with
  | change k change =>
    change (w.prepare k change).cache = _ ∧ (w.prepare k change).callers = _
    unfold World.prepare
    split <;> exact ⟨rfl, rfl⟩
  | reuse k sourceId modelId excluded =>
    change (w.reuse k sourceId modelId excluded).cache = _ ∧ (w.reuse k sourceId modelId excluded).callers = _
    unfold World.reuse
    split
    · exact ⟨rfl, rfl⟩
    · dsimp only
      split <;> exact ⟨rfl, rfl⟩
  | work k =>
    change (w.work k).cache = _ ∧ (w.work k).callers = _
    unfold World.work
    split
    · exact ⟨rfl, rfl⟩
    · split <;> exact ⟨rfl, rfl⟩
    · exact ⟨rfl, rfl⟩
    · split <;> exact ⟨rfl, rfl⟩
  | call c modelId dim | advance c | clear => cases writes

theorem coherent_write (coherent : Coherent w) (writes : e.reads = false) : Coherent (w.step e) := by
  obtain ⟨cache, callers⟩ := readers_step writes
  refine coherent_turn coherent (turn_step e) (fun s cached => .inl ?_) fun c => .inl ?_
  · rwa [cache] at cached
  · rw [callers]

theorem callers_setCaller {c c' : Nat} (caller : Caller) (honest : HonestCaller w caller) :
    (w.setCaller c caller).callers c' = w.callers c' ∨ HonestCaller w ((w.setCaller c caller).callers c') := by
  by_cases same : c' = c
  · subst same
    exact .inr (by simpa [setCaller] using honest)
  · exact .inl (by simp [setCaller, same])

theorem cache_advance (coherent : Coherent w) (c : Nat) (s : Snapshot)
    (cached : (w.advance c).cache = some s) : w.cache = some s ∨ HonestIn w s := by
  have own := coherent.callers c
  unfold World.advance at cached
  split at cached
  · exact .inl cached
  · split at cached <;> exact .inl cached
  · exact .inl cached
  · rename_i snap at_
    cases cached
    rw [at_] at own
    exact .inr own

theorem callers_advance (coherent : Coherent w) (c c' : Nat) :
    (w.advance c).callers c' = w.callers c' ∨ HonestCaller w ((w.advance c).callers c') := by
  have own := coherent.callers c
  unfold World.advance
  split
  · exact .inl rfl
  · rename_i at_
    rw [at_] at own
    split
    · exact callers_setCaller .idle trivial
    · exact callers_setCaller (.missed _ _ _) own
  · rename_i modelId dim generation at_
    rw [at_] at own
    exact callers_setCaller (.loaded _) (honest_load w modelId dim own)
  · exact callers_setCaller .idle trivial

theorem coherent_call (coherent : Coherent w) (c : Nat) (modelId : Text) (dim : Nat) :
    Coherent (w.call c modelId dim) := by
  refine coherent_turn coherent (turn_step (.call c modelId dim)) (fun s cached => .inl ?_) fun c' => ?_
  · unfold World.call at cached
    split at cached <;> exact cached
  · unfold World.call
    split
    · exact callers_setCaller (.asked _ _ _) (Int.le_refl _)
    · exact .inl rfl

theorem coherent_step (coherent : Coherent w) (e : Event) : Coherent (w.step e) := by
  cases e with
  | change k change | reuse k sourceId modelId excluded | work k => exact coherent_write coherent rfl
  | call c modelId dim => exact coherent_call coherent c modelId dim
  | advance c =>
    exact coherent_turn coherent (turn_step (.advance c)) (cache_advance coherent c)
      (callers_advance coherent c)
  | clear =>
    refine coherent_turn coherent (turn_step .clear) (fun s cached => ?_) fun c => .inl rfl
    cases cached

end Step

/-! ## Calls -/

/-- A snapshot has the current vectors of the model and dimension, each once and with its
chunk's current collection. -/
structure Exact (snap : Snapshot) (modelId : Text) (dim : Nat) (db : Index) : Prop where
  model : snap.modelId = modelId
  size : snap.dim = dim
  label : snap.generation = db.generation
  sorted : snap.rows.Pairwise fun a b => a.1 < b.1
  mem : ∀ entry, entry ∈ snap.rows ↔
    ∃ id coll v, entry = (id, some coll, v) ∧ Current db modelId dim id coll v

section Call

variable {w : World} {e : Event} {c : Nat} {modelId : Text} {dim : Nat} {snap : Snapshot}

theorem exact_of_rows (model : snap.modelId = modelId) (size : snap.dim = dim)
    (label : snap.generation = w.db.generation) (rows : snap.rows = selected modelId dim w.db) :
    Exact snap modelId dim w.db := by
  refine ⟨model, size, label, ?_, ?_⟩
  · rw [rows]
    exact sorted_selected
  · intro entry
    rw [rows]
    exact mem_selected

theorem exact_load : Exact (load modelId dim w.db.generation w.db) modelId dim w.db := by
  obtain ⟨model, size, label⟩ := @label_load w.db modelId dim w.db.generation
  exact exact_of_rows model size label (rows_load _)

/-- What is cached under the current generation is current while nobody writes. -/
theorem exact_hit (coherent : Coherent w) (quiet : Quiet w)
    (hit : w.hit modelId dim w.db.generation = some snap) : Exact snap modelId dim w.db := by
  obtain ⟨cached, labels⟩ := Option.filter_eq_some_iff.mp hit
  simp only [Bool.and_eq_true, beq_iff_eq] at labels
  obtain ⟨⟨label, rfl⟩, rfl⟩ := labels
  have settled : ¬Pending w := by
    rintro ⟨k, reusing⟩
    simp [quiet k] at reusing
  exact exact_of_rows rfl rfl label ((coherent.cache snap cached).eq_view label settled)

/-- A call on its way, with the steps that it still takes. -/
inductive Calling (w : World) (c : Nat) (modelId : Text) (dim : Nat) : Nat → Prop
  | asked (at_ : w.callers c = .asked modelId dim w.db.generation) : Calling w c modelId dim 3
  | missed (at_ : w.callers c = .missed modelId dim w.db.generation) : Calling w c modelId dim 2
  | loaded (at_ : w.callers c = .loaded (load modelId dim w.db.generation w.db)) :
      Calling w c modelId dim 1

theorem tables_step (reads : e.reads) : (w.step e).db = w.db ∧ (w.step e).writers = w.writers := by
  cases e with
  | change k change | reuse k sourceId modelId excluded | work k => cases reads
  | call c modelId dim =>
    change (w.call c modelId dim).db = _ ∧ (w.call c modelId dim).writers = _
    unfold World.call
    split <;> exact ⟨rfl, rfl⟩
  | advance c =>
    change (w.advance c).db = _ ∧ (w.advance c).writers = _
    unfold World.advance
    split
    · exact ⟨rfl, rfl⟩
    · split <;> exact ⟨rfl, rfl⟩
    · exact ⟨rfl, rfl⟩
    · exact ⟨rfl, rfl⟩
  | clear => exact ⟨rfl, rfl⟩

/-- A call waits while others take their steps. -/
theorem callers_step (reads : e.reads) (other : e ≠ .advance c) (busy : w.callers c ≠ .idle) :
    (w.step e).callers c = w.callers c := by
  cases e with
  | change k change | reuse k sourceId modelId excluded | work k => cases reads
  | call c' modelId dim =>
    change (w.call c' modelId dim).callers c = _
    unfold World.call
    split
    · rename_i idle
      have apart : c ≠ c' := by
        rintro rfl
        exact busy idle
      simp [setCaller, apart]
    · rfl
  | advance c' =>
    have apart : c ≠ c' := fun same => other (by rw [same])
    change (w.advance c').callers c = _
    unfold World.advance
    split
    · rfl
    · split <;> simp [setCaller, apart]
    · simp [setCaller, apart]
    · simp [setCaller, apart]
  | clear => rfl

/-- The call's own step: it returns, or has a step less to take. -/
theorem calling_advance (coherent : Coherent w) (quiet : Quiet w) {n : Nat}
    (calling : Calling w c modelId dim n) :
    (∃ snap, w.returned c (.advance c) = some snap ∧ Exact snap modelId dim w.db) ∨
      w.returned c (.advance c) = none ∧ ∃ m, Calling (w.advance c) c modelId dim m ∧ m < n := by
  unfold World.returned World.advance
  cases calling with
  | asked at_ =>
    simp only [if_true, at_]
    cases found : w.hit modelId dim w.db.generation with
    | some snap => exact .inl ⟨snap, rfl, exact_hit coherent quiet found⟩
    | none => exact .inr ⟨rfl, 2, .missed (by simp [setCaller]), by decide⟩
  | missed at_ =>
    simp only [if_true, at_]
    exact .inr ⟨trivial, 1, .loaded (by simp [setCaller]), by decide⟩
  | loaded at_ =>
    simp only [if_true, at_]
    exact .inl ⟨_, rfl, exact_load⟩

theorem calling_other (reads : e.reads) (other : e ≠ .advance c) {n : Nat}
    (calling : Calling w c modelId dim n) : w.returned c e = none ∧ Calling (w.step e) c modelId dim n := by
  have db := (@tables_step w e reads).1
  constructor
  · unfold World.returned
    split
    · split
      · rename_i same
        exact absurd (congrArg Event.advance same) other
      · rfl
    · rfl
  · cases calling with
    | asked at_ => exact .asked (by rw [callers_step reads other (by simp [at_]), at_, db])
    | missed at_ => exact .missed (by rw [callers_step reads other (by simp [at_]), at_, db])
    | loaded at_ => exact .loaded (by rw [callers_step reads other (by simp [at_]), at_, db])

theorem answer_exact (coherent : Coherent w) (quiet : Quiet w) {n : Nat}
    (calling : Calling w c modelId dim n) {during : List Event} (reads : ∀ e ∈ during, e.reads) :
    (∀ snap, answer c w during = some snap → Exact snap modelId dim w.db) ∧
      (n ≤ during.count (.advance c) → ∃ snap, answer c w during = some snap) := by
  induction during generalizing w n with
  | nil =>
    refine ⟨fun snap answered => ?_, fun enough => ?_⟩
    · cases answered
    · cases calling <;> cases enough
  | cons e rest ih =>
    obtain ⟨here, later⟩ := List.forall_mem_cons.mp reads
    obtain ⟨db, writers⟩ := @tables_step w e here
    have quiet' : Quiet (w.step e) := fun k => by rw [writers, quiet k]
    unfold World.answer
    by_cases own : e = .advance c
    · subst own
      obtain ⟨snap, answered, exact_⟩ | ⟨silent, m, further, less⟩ := calling_advance coherent quiet calling
      · rw [answered]
        refine ⟨fun snap' same => ?_, fun _ => ⟨snap, rfl⟩⟩
        cases same
        exact exact_
      obtain ⟨good, served⟩ := ih (coherent_step coherent _) quiet' further later
      rw [silent, Option.none_or, ← db]
      refine ⟨good, fun enough => served ?_⟩
      rw [List.count_cons_self] at enough
      omega
    · obtain ⟨silent, further⟩ := calling_other here own calling
      obtain ⟨good, served⟩ := ih (coherent_step coherent _) quiet' further later
      rw [silent, Option.none_or, ← db]
      refine ⟨good, fun enough => served ?_⟩
      rwa [List.count_cons_of_ne own] at enough

end Call

/-- A call that begins and goes on while no operation is in progress returns, after three steps
of its own at most, exactly the current vectors. -/
def SnapshotExact (w : World) : Prop :=
  ∀ c modelId dim during, Quiet w → w.callers c = .idle → (∀ e ∈ during, e.reads) →
    let begun := w.step (.call c modelId dim)
    (∀ snap, answer c begun during = some snap → Exact snap modelId dim w.db) ∧
      (3 ≤ during.count (.advance c) → ∃ snap, answer c begun during = some snap)

theorem snapshot_exact (db : Index) (before : List Event) :
    SnapshotExact (run World.step (.start db) before) := by
  intro c modelId dim during quiet idle reads
  have coherent : Coherent (run World.step (.start db) before) :=
    run_invariant Coherent (fun _ e coherent _ => coherent_step coherent e) (coherent_start db)
      (obeys_true _ _)
  generalize run World.step (.start db) before = w at quiet idle coherent ⊢
  have begun : w.step (.call c modelId dim) = w.setCaller c (.asked modelId dim w.db.generation) :=
    if_pos idle
  have quiet' : Quiet (w.step (.call c modelId dim)) := by rwa [begun]
  have calling : Calling (w.step (.call c modelId dim)) c modelId dim 3 := by
    rw [begun]
    exact .asked (by simp [setCaller])
  have same : (w.step (.call c modelId dim)).db = w.db := by rw [begun]; rfl
  have answered := answer_exact (coherent_step coherent _) quiet' calling reads
  rwa [same] at answered

end DuDuClaw.Knowledge.Vectors
