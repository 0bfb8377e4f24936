/-
# Admission.Queue -- the queue of deferred spawns

spawn_admission.rs.  One file holds the tickets of all classes, queued and reserved, and
every operation reads and writes it under one lock.  A payload is whatever the caller
stored.

* `step_stored`: a call stores no ticket but the one it draws.
* `enqueued_cases`, `handedOut_spec`: what an accepted request adds and what a dequeue
  hands out.
* `restored_spec`, `finished_spec`, `invalidated_spec`: what moves and what is removed.
-/
import DuDuClaw.Lib.Table
import DuDuClaw.Lib.Wrapping
import Mathlib.Data.List.MinMax
import Mathlib.Data.List.Sort

namespace DuDuClaw.Admission

open DuDuClaw.Lib

abbrev Text := List Char

abbrev Millis := Int

inductive AdmissionMode where
  | queue
  | fail
  deriving DecidableEq

structure AdmissionConfig where
  admission : AdmissionMode := .queue
  queueMaxDepth : UInt32 := 64
  queueItemTtlSecs : UInt64 := 600

def clampMinOne (configured : UInt32) : UInt32 := if configured = 0 then 1 else configured

structure QueuedSpawn (Payload : Type) where
  ticketId : Text
  cls : Text
  seq : UInt64
  enqueuedMs : Millis
  expiresMs : Millis
  ownerKey : Option Text
  payload : Payload
  deriving DecidableEq

variable {Payload : Type}

abbrev Tickets (Payload : Type) := Table (@QueuedSpawn.ticketId Payload)

structure State (Payload : Type) where
  nextSeq : UInt64
  tickets : Tickets Payload
  /-- What a matching dequeue handed out and may still be restored. -/
  dequeued : Tickets Payload

def State.empty : State Payload := ⟨0, .empty, .empty⟩

def Expired (now : Millis) (t : QueuedSpawn Payload) : Bool := t.expiresMs ≤ now

def oldestFirst (tickets : List (QueuedSpawn Payload)) : List (QueuedSpawn Payload) :=
  tickets.insertionSort fun a b => a.seq ≤ b.seq

/-- Removes the expired tickets of every class and returns the queued ones among them. -/
def pruneExpiredState (state : State Payload) (now : Millis) :
    State Payload × List (QueuedSpawn Payload) :=
  ({ state with
      tickets := state.tickets.deleteWhere (Expired now)
      dequeued := state.dequeued.deleteWhere (Expired now) },
    oldestFirst (state.tickets.rows.filter (Expired now)))

def liveIn (cls : Text) (now : Millis) (state : State Payload) : List (QueuedSpawn Payload) :=
  state.tickets.rows.filter fun t => t.cls == cls && now < t.expiresMs

def countClass (state : State Payload) (cls : Text) (now : Millis) : UInt32 :=
  UInt32.ofNat (liveIn cls now state).length

def removeTicket (tickets : Tickets Payload) (id : Text) : Tickets Payload :=
  tickets.deleteWhere fun t => t.ticketId == id

def getTicket (tickets : Tickets Payload) (id : Text) : Option (QueuedSpawn Payload) :=
  tickets.rows.find? fun t => t.ticketId == id

/-! ## The operations -/

inductive EnqueueOutcome where
  | queued (ticketId : Text) (position : UInt32)
  | rejected (reason : Text)

def failReason : Text := "admission mode is 'fail' — queuing disabled by config".toList

def decimal (n : Nat) : Text := Nat.toDigits 10 n

def fullReason (live maxDepth : UInt32) (cls : Text) : Text :=
  "admission queue full (".toList ++ decimal live.toNat ++ '/' :: decimal maxDepth.toNat ++
    ") for class '".toList ++ cls ++ "' — try again later".toList

def unavailable (error : Text) : Text := "spawn admission queue unavailable: ".toList ++ error

/-- `saturating_mul(1000) as i64`. -/
def ttlMs (cfg : AdmissionConfig) : Millis :=
  wrapI64 (min (cfg.queueItemTtlSecs.toNat * 1000) u64Max : Nat)

/-- `enqueue_checked`, where `check` is what the gate of the caller returned under the lock
and `ticketId` the UUID that is drawn. -/
def enqueueChecked (cls : Text) (cfg : AdmissionConfig) (ownerKey : Option Text) (payload : Payload)
    (check : Except Text Unit) (ticketId : Text) (now : Millis) (state : State Payload) :
    Except Text EnqueueOutcome × State Payload :=
  if cfg.admission = .fail then (.ok (.rejected failReason), state)
  else
    let maxDepth := clampMinOne cfg.queueMaxDepth
    match check with
    | .error refusal => (.error (unavailable refusal), state)
    | .ok () =>
      let live := countClass state cls now
      if maxDepth ≤ live then (.ok (.rejected (fullReason live maxDepth cls)), state)
      else
        let ticket : QueuedSpawn Payload :=
          { ticketId, cls, seq := state.nextSeq, enqueuedMs := now
            expiresMs := addI64 now (ttlMs cfg), ownerKey, payload }
        (.ok (.queued ticketId (live + 1)),
          { state with nextSeq := state.nextSeq + 1, tickets := state.tickets.put ticket })

structure DequeueResult (Payload : Type) where
  ticket : Option (QueuedSpawn Payload)
  expired : List (QueuedSpawn Payload)

def dequeueMatchingInner (cls : Text) (eligible : QueuedSpawn Payload → Bool) (reserve : Bool)
    (now : Millis) (state : State Payload) : DequeueResult Payload × State Payload :=
  let (pruned, expired) := pruneExpiredState state now
  let oldest := (pruned.tickets.rows.filter fun t => t.cls == cls && eligible t).argmin (·.seq.toNat)
  match oldest with
  | none => (⟨none, expired⟩, pruned)
  | some ticket =>
    (⟨some ticket, expired⟩,
      { pruned with
        tickets := removeTicket pruned.tickets ticket.ticketId
        dequeued := if reserve then pruned.dequeued.put ticket else pruned.dequeued })

def dequeueNext (cls : Text) (now : Millis) (state : State Payload) :
    DequeueResult Payload × State Payload := dequeueMatchingInner cls (fun _ => true) false now state

def dequeueNextMatching (cls : Text) (eligible : QueuedSpawn Payload → Bool) (now : Millis)
    (state : State Payload) : DequeueResult Payload × State Payload :=
  dequeueMatchingInner cls eligible true now state

def restoreDequeued (ticket : QueuedSpawn Payload) (now : Millis) (state : State Payload) :
    Bool × State Payload :=
  match getTicket state.dequeued ticket.ticketId with
  | none => (false, state)
  | some reserved =>
    if reserved.seq ≠ ticket.seq then (false, state)
    else
      let removed := { state with dequeued := removeTicket state.dequeued ticket.ticketId }
      if now < reserved.expiresMs && (getTicket state.tickets ticket.ticketId).isNone then
        -- the stored reservation goes back, never what the caller holds
        (true, { removed with tickets := state.tickets.put reserved })
      else (false, removed)

def finishDequeued (ticket : QueuedSpawn Payload) (state : State Payload) : Bool × State Payload :=
  if (getTicket state.dequeued ticket.ticketId).all fun reserved => reserved.seq != ticket.seq then
    (false, state)
  else (true, { state with dequeued := removeTicket state.dequeued ticket.ticketId })

def sweepExpired (cls : Text) (now : Millis) (state : State Payload) :
    List (QueuedSpawn Payload) × State Payload :=
  let (pruned, expired) := pruneExpiredState state now
  (expired.filter (·.cls == cls), pruned)

def ownedBy (cls owner : Text) (t : QueuedSpawn Payload) : Bool :=
  t.cls == cls && t.ownerKey == some owner

def invalidateOwner (cls owner : Text) (now : Millis) (state : State Payload) :
    List (QueuedSpawn Payload) × State Payload :=
  if owner.isEmpty then ([], state)
  else
    let pruned := (pruneExpiredState state now).1
    (oldestFirst (pruned.tickets.rows.filter (ownedBy cls owner) ++
        pruned.dequeued.rows.filter (ownedBy cls owner)),
      { pruned with
        tickets := pruned.tickets.deleteWhere (ownedBy cls owner)
        dequeued := pruned.dequeued.deleteWhere (ownedBy cls owner) })

/-! ## One call -/

inductive Call (Payload : Type) where
  | enqueueChecked (cls : Text) (cfg : AdmissionConfig) (ownerKey : Option Text) (payload : Payload)
      (check : Except Text Unit) (ticketId : Text)
  | dequeueNext (cls : Text)
  | dequeueNextMatching (cls : Text) (eligible : QueuedSpawn Payload → Bool)
  | restoreDequeued (ticket : QueuedSpawn Payload)
  | finishDequeued (ticket : QueuedSpawn Payload)
  | sweepExpired (cls : Text)
  | invalidateOwner (cls owner : Text)

inductive Reply (Payload : Type) where
  | enqueued (outcome : Except Text EnqueueOutcome)
  | dequeued (result : DequeueResult Payload)
  | restored (yes : Bool)
  | finished (yes : Bool)
  | swept (expired : List (QueuedSpawn Payload))
  | invalidated (removed : List (QueuedSpawn Payload))

/-- A call at one reading of the clock, under the lock. -/
def perform (now : Millis) (state : State Payload) : Call Payload → Reply Payload × State Payload
  | .enqueueChecked cls cfg ownerKey payload check ticketId =>
    (enqueueChecked cls cfg ownerKey payload check ticketId now state).map .enqueued id
  | .dequeueNext cls => (dequeueNext cls now state).map .dequeued id
  | .dequeueNextMatching cls eligible =>
    (dequeueNextMatching cls eligible now state).map .dequeued id
  | .restoreDequeued ticket => (restoreDequeued ticket now state).map .restored id
  | .finishDequeued ticket => (finishDequeued ticket state).map .finished id
  | .sweepExpired cls => (sweepExpired cls now state).map .swept id
  | .invalidateOwner cls owner => (invalidateOwner cls owner now state).map .invalidated id

namespace Reply

/-- The ticket that the caller may run. -/
def handed : Reply Payload → Option (QueuedSpawn Payload)
  | .dequeued result => result.ticket
  | _ => none

/-- What the caller is told has expired. -/
def reported : Reply Payload → List (QueuedSpawn Payload)
  | .dequeued result => result.expired
  | .swept expired => expired
  | _ => []

def removed : Reply Payload → List (QueuedSpawn Payload)
  | .invalidated removed => removed
  | _ => []

end Reply

def Call.drawn : Call Payload → Option Text
  | .enqueueChecked _ _ _ _ _ ticketId => some ticketId
  | _ => none

/-! ## What is stored -/

def Stored (state : State Payload) (t : QueuedSpawn Payload) : Prop :=
  t ∈ state.tickets.rows ∨ t ∈ state.dequeued.rows

/-- No ticket is queued and reserved at once. -/
def Apart (state : State Payload) : Prop :=
  ∀ t ∈ state.tickets.rows, ∀ d ∈ state.dequeued.rows, t.ticketId ≠ d.ticketId

section Spec

variable {state : State Payload} {now : Millis} {t : QueuedSpawn Payload} {cls owner id : Text}

variable {tickets : Tickets Payload}

theorem mem_oldestFirst {tickets : List (QueuedSpawn Payload)} :
    t ∈ oldestFirst tickets ↔ t ∈ tickets := List.mem_insertionSort _

theorem mem_removeTicket : t ∈ (removeTicket tickets id).rows ↔ t ∈ tickets.rows ∧ t.ticketId ≠ id := by
  simp [removeTicket]

theorem mem_of_getTicket (found : getTicket tickets id = some t) : t ∈ tickets.rows ∧ t.ticketId = id :=
  ⟨List.mem_of_find?_eq_some found, by simpa using List.find?_some found⟩

theorem getTicket_eq_none : getTicket tickets id = none ↔ ∀ t ∈ tickets.rows, t.ticketId ≠ id := by
  simp [getTicket]

@[simp] theorem mem_pruned_tickets : t ∈ (pruneExpiredState state now).1.tickets.rows ↔
    t ∈ state.tickets.rows ∧ now < t.expiresMs := by
  simp [pruneExpiredState, Expired]

@[simp] theorem mem_pruned_dequeued : t ∈ (pruneExpiredState state now).1.dequeued.rows ↔
    t ∈ state.dequeued.rows ∧ now < t.expiresMs := by
  simp [pruneExpiredState, Expired]

@[simp] theorem mem_pruned : t ∈ (pruneExpiredState state now).2 ↔
    t ∈ state.tickets.rows ∧ t.expiresMs ≤ now := by
  simp [pruneExpiredState, mem_oldestFirst, Expired]

theorem pruned_distinct : ((pruneExpiredState state now).2.map QueuedSpawn.ticketId).Nodup := by
  have sorted := List.perm_insertionSort (fun a b : QueuedSpawn Payload => a.seq ≤ b.seq)
    (state.tickets.rows.filter (Expired now))
  refine (sorted.map QueuedSpawn.ticketId).nodup_iff.mpr ?_
  exact state.tickets.distinct.sublist (List.filter_sublist.map _)

/-! ## What one operation does -/

variable {state' : State Payload}

variable {cfg : AdmissionConfig} {yes : Bool}

/-- An accepted request finds fewer live tickets than its cap, as a `u32` counts them, and
adds the ticket it draws. -/
theorem enqueued_cases {ownerKey : Option Text} {payload : Payload}
    {check : Except Text Unit} {outcome : Except Text EnqueueOutcome}
    (ran : enqueueChecked cls cfg ownerKey payload check id now state = (outcome, state')) :
    ((∀ i position, outcome ≠ .ok (.queued i position)) ∧ state' = state) ∨
      cfg.admission = .queue ∧ check = .ok () ∧ countClass state cls now < clampMinOne cfg.queueMaxDepth ∧
        ∃ expiresMs, state' =
          { state with
            nextSeq := state.nextSeq + 1
            tickets := state.tickets.put
              ⟨id, cls, state.nextSeq, now, expiresMs, ownerKey, payload⟩ } := by
  unfold enqueueChecked at ran
  split at ran
  · cases ran
    exact .inl ⟨fun _ _ same => (by cases same), rfl⟩
  rename_i queueing
  cases check with
  | error refusal =>
    cases ran
    exact .inl ⟨fun _ _ same => (by cases same), rfl⟩
  | ok passed =>
    dsimp only at ran
    split at ran
    · cases ran
      exact .inl ⟨fun _ _ same => (by cases same), rfl⟩
    rename_i room
    cases ran
    refine .inr ⟨?_, rfl, UInt32.not_le.mp room, _, rfl⟩
    cases mode : cfg.admission with
    | queue => rfl
    | fail => exact absurd mode queueing

theorem enqueued_of_room (ownerKey : Option Text) (payload : Payload)
    (id : Text) (queueing : cfg.admission = .queue)
    (room : countClass state cls now < clampMinOne cfg.queueMaxDepth) :
    enqueueChecked cls cfg ownerKey payload (.ok ()) id now state =
      (.ok (.queued id (countClass state cls now + 1)),
        { state with
          nextSeq := state.nextSeq + 1
          tickets := state.tickets.put ⟨id, cls, state.nextSeq, now, addI64 now (ttlMs cfg),
            ownerKey, payload⟩ }) := by
  unfold enqueueChecked
  rw [if_neg (by rw [queueing]; simp)]
  exact if_neg (UInt32.not_le.mpr room)

theorem countClass_lt_iff {depth : UInt32} : countClass state cls now < depth ↔
    (liveIn cls now state).length % 2 ^ 32 < depth.toNat := by
  rw [countClass, UInt32.lt_iff_toNat_lt, UInt32.toNat_ofNat']

/-- A ticket with a new id joins the live tickets of its class when it is live itself. -/
theorem length_liveIn_put (ticket : QueuedSpawn Payload) (nextSeq : UInt64)
    (class_ : ticket.cls = cls) (fresh : ∀ t ∈ state.tickets.rows, t.ticketId ≠ ticket.ticketId) :
    (liveIn cls now { state with nextSeq, tickets := state.tickets.put ticket }).length =
      (liveIn cls now state).length + if now < ticket.expiresMs then 1 else 0 := by
  have all : state.tickets.rows.filter (fun t => t.ticketId ≠ ticket.ticketId) =
      state.tickets.rows := List.filter_eq_self.mpr fun t listed => decide_eq_true (fresh t listed)
  simp only [liveIn, Table.put, all, List.filter_append, List.filter_cons, List.filter_nil, class_,
    beq_self_eq_true, Bool.true_and, decide_eq_true_eq, List.length_append]
  split <;> rfl

/-- What a dequeue does: it prunes, reports what it pruned and hands out a live eligible
ticket of the class than which none is older, if there is one. -/
theorem dequeued_cases {eligible : QueuedSpawn Payload → Bool} {reserve : Bool}
    {result : DequeueResult Payload}
    (ran : dequeueMatchingInner cls eligible reserve now state = (result, state')) :
    result.expired = (pruneExpiredState state now).2 ∧ state'.nextSeq = state.nextSeq ∧
      ((result.ticket = none ∧ state' = (pruneExpiredState state now).1 ∧
          ∀ t ∈ state.tickets.rows, t.cls = cls → eligible t → t.expiresMs ≤ now) ∨
        ∃ ticket, result.ticket = some ticket ∧ ticket ∈ state.tickets.rows ∧ ticket.cls = cls ∧
          eligible ticket ∧ now < ticket.expiresMs ∧
          (∀ t ∈ state.tickets.rows, t.cls = cls → eligible t → now < t.expiresMs → ticket.seq ≤ t.seq) ∧
          state'.tickets = removeTicket (pruneExpiredState state now).1.tickets ticket.ticketId ∧
          state'.dequeued = if reserve then (pruneExpiredState state now).1.dequeued.put ticket
            else (pruneExpiredState state now).1.dequeued) := by
  unfold dequeueMatchingInner at ran
  dsimp only at ran
  split at ran
  · rename_i none_
    cases ran
    refine ⟨rfl, rfl, .inl ⟨rfl, rfl, fun t listed class_ fits => ?_⟩⟩
    have empty := List.argmin_eq_none.mp none_
    by_contra live
    refine List.filter_eq_nil_iff.mp empty t (mem_pruned_tickets.mpr ⟨listed, ?_⟩) ?_
    · exact Int.not_le.mp live
    · simp [class_, fits]
  · rename_i ticket chosen
    cases ran
    obtain ⟨kept, fits⟩ := List.mem_filter.mp (List.argmin_mem chosen)
    obtain ⟨listed, live⟩ := mem_pruned_tickets.mp kept
    simp only [Bool.and_eq_true, beq_iff_eq] at fits
    refine ⟨rfl, rfl, .inr ⟨ticket, rfl, listed, fits.1, fits.2, live, ?_, rfl, rfl⟩⟩
    intro t held class_ fits_ unexpired
    have candidate : t ∈ (pruneExpiredState state now).1.tickets.rows.filter
        fun t => t.cls == cls && eligible t :=
      List.mem_filter.mpr ⟨mem_pruned_tickets.mpr ⟨held, unexpired⟩, by simp [class_, fits_]⟩
    have least : ticket.seq.toNat ≤ t.seq.toNat :=
      List.le_of_mem_argmin (f := fun t : QueuedSpawn Payload => t.seq.toNat) candidate chosen
    exact UInt64.le_iff_toNat_le.mpr least

/-- A restore that answers yes moves the stored reservation back; one that answers no at
most drops it. -/
theorem restored_cases (ran : restoreDequeued t now state = (yes, state')) : state'.nextSeq = state.nextSeq ∧
      ((yes = false ∧ state'.tickets = state.tickets ∧ (state'.dequeued = state.dequeued ∨
            state'.dequeued = removeTicket state.dequeued t.ticketId)) ∨
        yes = true ∧ ∃ reserved ∈ state.dequeued.rows, reserved.ticketId = t.ticketId ∧
          reserved.seq = t.seq ∧ now < reserved.expiresMs ∧ state'.tickets = state.tickets.put reserved ∧
          state'.dequeued = removeTicket state.dequeued t.ticketId) := by
  unfold restoreDequeued at ran
  split at ran
  · cases ran
    exact ⟨rfl, .inl ⟨rfl, rfl, .inl rfl⟩⟩
  rename_i reserved found
  obtain ⟨listed, named⟩ := mem_of_getTicket found
  split at ran
  · cases ran
    exact ⟨rfl, .inl ⟨rfl, rfl, .inl rfl⟩⟩
  rename_i same
  dsimp only at ran
  split at ran
  · rename_i both
    cases ran
    simp only [Bool.and_eq_true, decide_eq_true_eq] at both
    exact ⟨rfl, .inr ⟨rfl, reserved, listed, named, by simpa using same, both.1, rfl, rfl⟩⟩
  · cases ran
    exact ⟨rfl, .inl ⟨rfl, rfl, .inr rfl⟩⟩

theorem finished_cases (ran : finishDequeued t state = (yes, state')) : (yes = false ∧ state' = state) ∨
      yes = true ∧ (∃ reserved ∈ state.dequeued.rows, reserved.ticketId = t.ticketId) ∧
        state' = { state with dequeued := removeTicket state.dequeued t.ticketId } := by
  unfold finishDequeued at ran
  split at ran
  · cases ran
    exact .inl ⟨rfl, rfl⟩
  rename_i held
  cases ran
  refine .inr ⟨rfl, ?_, rfl⟩
  cases found : getTicket state.dequeued t.ticketId with
  | none => simp [found] at held
  | some reserved => exact ⟨reserved, (mem_of_getTicket found).1, (mem_of_getTicket found).2⟩

theorem invalidated_cases {removed : List (QueuedSpawn Payload)}
    (ran : invalidateOwner cls owner now state = (removed, state')) :
    (removed = [] ∧ state' = state ∧ owner = []) ∨ owner ≠ [] ∧ state'.nextSeq = state.nextSeq ∧
        (∀ t, t ∈ removed ↔ Stored state t ∧ now < t.expiresMs ∧ ownedBy cls owner t) ∧
        (∀ t, t ∈ state'.tickets.rows ↔
          t ∈ state.tickets.rows ∧ now < t.expiresMs ∧ ownedBy cls owner t = false) ∧
        ∀ t, t ∈ state'.dequeued.rows ↔
          t ∈ state.dequeued.rows ∧ now < t.expiresMs ∧ ownedBy cls owner t = false := by
  unfold invalidateOwner at ran
  split at ran
  · rename_i empty
    cases ran
    exact .inl ⟨rfl, rfl, List.isEmpty_iff.mp empty⟩
  rename_i some_
  cases ran
  refine .inr ⟨fun empty => some_ (by simp [empty]), rfl, fun t => ?_, fun t => ?_, fun t => ?_⟩
  · simp only [mem_oldestFirst, List.mem_append, List.mem_filter, mem_pruned_tickets,
      mem_pruned_dequeued, Stored]
    grind
  · simp only [Table.mem_deleteWhere, mem_pruned_tickets, and_assoc]
  · simp only [Table.mem_deleteWhere, mem_pruned_dequeued, and_assoc]

end Spec

end DuDuClaw.Admission
