/-
# Concurrency.Gate -- the checked lane of the concurrency gate

`try_acquire_checked`, `renew_checked` and `release_checked` of concurrency_gate.rs
over the lease file.  Each takes the lock, reads the file, and writes it at most once,
by a temporary file and a rename; `Host` says which of these the system refuses and
what the clock shows under the lock.

A lease id ends in a fresh UUID, so ids of different draws differ whatever their
classes (`leaseId_inj`).

* `tryAcquireChecked_cases`, `renewChecked_cases`, `releaseChecked_cases`: all a call
  can do to the file.
* `tryAcquireChecked_clean` and its siblings: a call that returns an error has not
  touched it.
-/
import DuDuClaw.Lib.Table
import DuDuClaw.Lib.Transaction
import DuDuClaw.Lib.Utf8

namespace DuDuClaw.Concurrency

open DuDuClaw.Lib

abbrev Text := List Char

abbrev Millis := Int

/-! ## Leases -/

structure Lease where
  id : Option Text
  cls : Text

inductive AcquireOutcome where
  | admitted (lease : Lease)
  | atCapacity (active limit : UInt32)

structure LeaseRec where
  cls : Text
  expiresMs : Millis

abbrev State := Table (Prod.fst : Text × LeaseRec → Text)

/-- What `concurrency_leases.json` decodes to. -/
inductive StateFile where
  | missing
  | malformed
  | leases (state : State)

namespace StateFile

def rows : StateFile → List (Text × LeaseRec)
  | .leases state => state.rows
  | _ => []

end StateFile

/-- A version 4 UUID as it prints. -/
structure Uuid where
  text : Text
  hyphenated : text.length = 36
  deriving DecidableEq

/-- `format!("{class}-{}", uuid)`. -/
def leaseId (cls : Text) (uuid : Uuid) : Text := cls ++ '-' :: uuid.text

theorem leaseId_inj {cls cls' : Text} {uuid uuid' : Uuid}
    (same : leaseId cls uuid = leaseId cls' uuid') : uuid = uuid' := by
  have tails : '-' :: uuid.text = '-' :: uuid'.text := by
    refine (List.append_inj' same ?_).2
    rw [List.length_cons, List.length_cons, uuid.hyphenated, uuid'.hyphenated]
  cases uuid
  cases uuid'
  simpa using tails

/-! ## One call's surroundings -/

inductive IoFault where
  | wouldBlock
  | permissionDenied
  | other (code : Int)

inductive Error where
  | invalidInput (message : String)
  | invalidData
  | io (fault : IoFault)

/-- What the system refuses to one call, and its clock. -/
structure Host where
  now : Millis
  lock : Option IoFault := none
  read : Option IoFault := none
  save : Option IoFault := none

abbrev Gate := EStateM Error StateFile

def u64Max : Nat := 2 ^ 64 - 1

def i64Max : Nat := 2 ^ 63 - 1

/-- `ttl_secs.checked_mul(1000)` as an `i64`. -/
def leaseTtl (ttlSecs : UInt64) : Except Error Nat := do
  let millis ← okOr (if ttlSecs.toNat * 1000 ≤ u64Max then some (ttlSecs.toNat * 1000) else none)
    (.invalidInput "lease TTL overflow")
  okOr (if millis ≤ i64Max then some millis else none) (.invalidInput "lease TTL overflow")

/-- `now_ms.checked_add(ttl_ms)`. -/
def leaseExpiry (now : Millis) (ttl : Nat) : Except Error Millis :=
  okOr (if now + ttl ≤ i64Max then some (now + ttl) else none)
    (.invalidInput "lease expiry overflow")

namespace Host

variable (host : Host)

/-- The lock file, or the refusal after the deadline. -/
def checkedStateLock : Except Error Unit :=
  match host.lock with
  | some fault => .error (.io fault)
  | none => .ok ()

/-- The leases in the file; `none` where there is no file. -/
def readState (file : StateFile) : Except Error (Option State) :=
  match host.read, file with
  | some fault, _ => .error (.io fault)
  | none, .missing => .ok none
  | none, .malformed => .error .invalidData
  | none, .leases state => .ok (some state)

/-- `save_state`: the rename puts the new file in place as a whole or not at all. -/
def saveState (state : State) (_ : StateFile) : Except Error StateFile :=
  match host.save with
  | some fault => .error (.io fault)
  | none => .ok (.leases state)

end Host

/-! ## The calls -/

def isLive (now : Millis) (rec : LeaseRec) : Bool := decide (now < rec.expiresMs)

namespace State

variable (state : State)

def pruneExpired (now : Millis) : State :=
  state.deleteWhere fun row => !isLive now row.2

/-- The rows that `count_class` counts. -/
def countLive (rows : List (Text × LeaseRec)) (cls : Text) (now : Millis) : Nat :=
  rows.countP fun row => row.2.cls == cls && isLive now row.2

/-- `count_class`, with its cast. -/
def countClass (cls : Text) (now : Millis) : UInt32 :=
  UInt32.ofNat (countLive state.rows cls now)

def get (id : Text) : Option LeaseRec :=
  (state.rows.find? fun row => row.1 == id).map Prod.snd

/-- Writes a new expiry into the record under the id. -/
def setExpiry (id : Text) (expiry : Millis) : State :=
  state.update (fun row => if row.1 = id then (row.1, { row.2 with expiresMs := expiry }) else row)
    fun _ => keep_ite Prod.fst rfl

def remove (id : Text) : State := state.deleteWhere fun row => row.1 == id

end State

theorem State.get_of_mem {state : State} {id : Text} {record : LeaseRec}
    (held : State.get state id = some record) {row : Text × LeaseRec} (listed : row ∈ state.rows)
    (named : row.1 = id) : row.2 = record := by
  obtain ⟨found, search, rfl⟩ := Option.map_eq_some_iff.mp held
  have same : found.1 = id := by simpa using List.find?_some search
  rw [state.unique listed (List.mem_of_find?_eq_some search) (named.trans same.symm)]

def isClassByte (c : Char) : Bool := c.isAlphanum || c == '-' || c == '_'

def tryAcquireChecked (host : Host) (uuid : Uuid) (cls : Text) (limit : Option UInt32)
    (ttlSecs : UInt64) : Gate AcquireOutcome := do
  let cap ← query fun _ => okOr (limit.filter fun cap => 0 < cap)
    (.invalidInput "checked admission requires a positive finite cap")
  let _ ← query fun _ =>
    refuseIf (cls.isEmpty ∨ 128 < byteLength cls ∨ cls.all isClassByte = false)
      (.invalidInput "invalid checked admission class")
  let ttl ← query fun _ => leaseTtl ttlSecs
  let _ ← query fun _ =>
    refuseIf (ttl = 0) (.invalidInput "checked admission requires a positive TTL")
  let _ ← query fun _ => host.checkedStateLock
  let found ← query host.readState
  let state := found.getD .empty
  let active := State.countClass state cls host.now
  if cap ≤ active then pure (.atCapacity active cap)
  else do
    let expiry ← query fun _ => leaseExpiry host.now ttl
    let id := leaseId cls uuid
    let _ ← execute (host.saveState ((State.pruneExpired state host.now).put (id, ⟨cls, expiry⟩)))
    pure (.admitted ⟨some id, cls⟩)

def renewChecked (host : Host) (lease : Lease) (ttlSecs : UInt64) : Gate Bool :=
  match lease.id with
  | none => pure false
  | some id => do
    let ttl ← query fun _ => leaseTtl ttlSecs
    if ttl = 0 then pure false
    else do
      let _ ← query fun _ => host.checkedStateLock
      let found ← query host.readState
      match found with
      | none => pure false
      | some state =>
        match State.get state id with
        | none => pure false
        | some record =>
          if record.cls ≠ lease.cls ∨ record.expiresMs ≤ host.now then pure false
          else do
            let expiry ← query fun _ => leaseExpiry host.now ttl
            let _ ← execute (host.saveState (State.setExpiry state id expiry))
            pure true

def releaseChecked (host : Host) (lease : Lease) : Gate Bool :=
  match lease.id with
  | none => pure false
  | some id => do
    let _ ← query fun _ => host.checkedStateLock
    let found ← query host.readState
    match found with
    | none => pure false
    | some state =>
      if (State.get state id).any (fun record => record.cls == lease.cls) = false then
        pure false
      else do
        let _ ← execute (host.saveState (State.remove state id))
        pure true

/-! ## What a call does to the file -/

variable {host : Host} {file file' : StateFile}

theorem leaseExpiry_later {now expiry : Millis} {ttl : Nat} (positive : ttl ≠ 0)
    (later : leaseExpiry now ttl = .ok expiry) : now < expiry := by
  unfold leaseExpiry at later
  rw [okOr_ok] at later
  split at later
  · cases later
    exact Int.lt_add_of_pos_right now (Int.natCast_pos.mpr (Nat.pos_of_ne_zero positive))
  · cases later

theorem saveState_ok {state : State}
    (saved : host.saveState state file = .ok file') : file' = .leases state := by
  unfold Host.saveState at saved
  split at saved
  · cases saved
  · cases saved
    rfl

/-- The leases a call starts from are those of the file. -/
theorem rows_of_readState {found : Option State}
    (read : host.readState file = .ok found) : (found.getD .empty).rows = file.rows := by
  unfold Host.readState at read
  split at read
  · cases read
  · cases read
    rfl
  · cases read
  · cases read
    rfl

theorem tryAcquireChecked_cases {uuid : Uuid} {cls : Text} {limit : Option UInt32}
    {ttlSecs : UInt64} {outcome : AcquireOutcome}
    (returned : tryAcquireChecked host uuid cls limit ttlSecs file = .ok outcome file') :
    (∃ active cap, outcome = .atCapacity active cap ∧ file' = file) ∨
      ∃ cap state expiry, limit = some cap ∧ state.rows = file.rows ∧
        State.countClass state cls host.now < cap ∧ host.now < expiry ∧
        outcome = .admitted ⟨some (leaseId cls uuid), cls⟩ ∧
        file' = .leases ((State.pruneExpired state host.now).put
          (leaseId cls uuid, ⟨cls, expiry⟩)) := by
  unfold tryAcquireChecked at returned
  simp only [query_bind] at returned
  obtain ⟨cap, capped, _, _, ttl, _, _, positive, _, _, found, read, returned⟩ := returned
  rw [okOr_ok, Option.filter_eq_some_iff] at capped
  split at returned
  · obtain ⟨rfl, rfl⟩ := pure_returned.mp returned
    exact .inl ⟨_, _, rfl, rfl⟩
  rename_i below
  rw [query_bind] at returned
  obtain ⟨expiry, later, returned⟩ := returned
  rw [execute_bind] at returned
  obtain ⟨written, saved, returned⟩ := returned
  obtain ⟨rfl, rfl⟩ := pure_returned.mp returned
  refine .inr ⟨cap, found.getD .empty, expiry, capped.1, rows_of_readState read,
    UInt32.not_le.mp below, ?_, rfl, saveState_ok saved⟩
  exact leaseExpiry_later (refuseIf_ok.mp positive) later

theorem renewChecked_cases {lease : Lease} {ttlSecs : UInt64}
    {renewed : Bool}
    (returned : renewChecked host lease ttlSecs file = .ok renewed file') : (renewed = false ∧ file' = file) ∨
      ∃ id state record expiry, lease.id = some id ∧ state.rows = file.rows ∧
        State.get state id = some record ∧ record.cls = lease.cls ∧
        host.now < record.expiresMs ∧ host.now < expiry ∧ renewed = true ∧
        file' = .leases (State.setExpiry state id expiry) := by
  unfold renewChecked at returned
  rcases named : lease.id with _ | id
  · rw [named] at returned
    obtain ⟨rfl, rfl⟩ := pure_returned.mp returned
    exact .inl ⟨rfl, rfl⟩
  rw [named] at returned
  rw [query_bind] at returned
  obtain ⟨ttl, _, returned⟩ := returned
  split at returned
  · obtain ⟨rfl, rfl⟩ := pure_returned.mp returned
    exact .inl ⟨rfl, rfl⟩
  rename_i positive
  simp only [query_bind] at returned
  obtain ⟨_, _, found, read, returned⟩ := returned
  rcases found with _ | state
  · obtain ⟨rfl, rfl⟩ := pure_returned.mp returned
    exact .inl ⟨rfl, rfl⟩
  dsimp only at returned
  rcases held : State.get state id with _ | record
  · rw [held] at returned
    obtain ⟨rfl, rfl⟩ := pure_returned.mp returned
    exact .inl ⟨rfl, rfl⟩
  rw [held] at returned
  dsimp only at returned
  split at returned
  · obtain ⟨rfl, rfl⟩ := pure_returned.mp returned
    exact .inl ⟨rfl, rfl⟩
  rename_i mine
  rw [not_or, not_not, Int.not_le] at mine
  rw [query_bind] at returned
  obtain ⟨expiry, later, returned⟩ := returned
  rw [execute_bind] at returned
  obtain ⟨written, saved, returned⟩ := returned
  obtain ⟨rfl, rfl⟩ := pure_returned.mp returned
  exact .inr ⟨id, state, record, expiry, rfl, rows_of_readState read, held, mine.1, mine.2,
    leaseExpiry_later positive later, rfl, saveState_ok saved⟩

theorem releaseChecked_cases {lease : Lease}
    {released : Bool} (returned : releaseChecked host lease file = .ok released file') :
    (released = false ∧ file' = file) ∨ ∃ id state record, lease.id = some id ∧ state.rows = file.rows ∧
        State.get state id = some record ∧ record.cls = lease.cls ∧ released = true ∧
        file' = .leases (State.remove state id) := by
  unfold releaseChecked at returned
  cases named : lease.id with
  | none =>
    rw [named] at returned
    obtain ⟨rfl, rfl⟩ := pure_returned.mp returned
    exact .inl ⟨rfl, rfl⟩
  | some id => ?_
  rw [named] at returned
  simp only [query_bind] at returned
  obtain ⟨_, _, found, read, returned⟩ := returned
  rcases found with _ | state
  · obtain ⟨rfl, rfl⟩ := pure_returned.mp returned
    exact .inl ⟨rfl, rfl⟩
  dsimp only at returned
  split at returned
  · obtain ⟨rfl, rfl⟩ := pure_returned.mp returned
    exact .inl ⟨rfl, rfl⟩
  rename_i mine
  rw [Bool.not_eq_false, Option.any_eq_true] at mine
  obtain ⟨record, held, same⟩ := mine
  rw [execute_bind] at returned
  obtain ⟨written, saved, returned⟩ := returned
  obtain ⟨rfl, rfl⟩ := pure_returned.mp returned
  exact .inr ⟨id, state, record, rfl, rows_of_readState read, held, eq_of_beq same, rfl, saveState_ok saved⟩

/-! ## Refusals leave the file -/

theorem tryAcquireChecked_clean (host : Host) (uuid : Uuid) (cls : Text) (limit : Option UInt32)
    (ttlSecs : UInt64) : Clean (tryAcquireChecked host uuid cls limit ttlSecs) := by
  unfold tryAcquireChecked
  refine clean_query_bind fun cap => clean_query_bind fun _ => clean_query_bind fun ttl =>
    clean_query_bind fun _ => clean_query_bind fun _ => clean_query_bind fun found => ?_
  apply clean_ite
  · exact clean_pure _
  · exact clean_query_bind fun expiry => clean_execute_bind _ _

theorem renewChecked_clean (host : Host) (lease : Lease) (ttlSecs : UInt64) :
    Clean (renewChecked host lease ttlSecs) := by
  unfold renewChecked
  cases lease.id with
  | none => exact clean_pure _
  | some id =>
    refine clean_query_bind fun ttl => clean_ite (clean_pure _) ?_
    refine clean_query_bind fun _ => clean_query_bind fun found => ?_
    cases found with
    | none => exact clean_pure _
    | some state =>
      cases held : State.get state id with
      | none =>
        simp only [held]
        exact clean_pure _
      | some record =>
        simp only [held]
        refine clean_ite (clean_pure _) ?_
        exact clean_query_bind fun expiry => clean_execute_bind _ _

theorem releaseChecked_clean (host : Host) (lease : Lease) : Clean (releaseChecked host lease) := by
  unfold releaseChecked
  cases lease.id with
  | none => exact clean_pure _
  | some id =>
    refine clean_query_bind fun _ => clean_query_bind fun found => ?_
    cases found with
    | none => exact clean_pure _
    | some state => exact clean_ite (clean_pure _) (clean_execute_bind _ _)

end DuDuClaw.Concurrency
