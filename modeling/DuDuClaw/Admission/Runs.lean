/-
# Admission.Runs -- runs of the admission queue

Calls of any callers on any classes, one after another under the file lock.  A ticket
moves between the queue, a reservation and its caller.

* `step_effect`: the four things a call can do to the tickets.
* `stored_run`, `gone_run`: no ticket comes from anywhere but its enqueue, and one that is
  gone stays so.
* `fifo_kept_iff`: when a run keeps the queue's promises.
-/
import DuDuClaw.Admission.Queue
import DuDuClaw.Lib.Runs
import Mathlib.Data.List.Perm.Subperm

namespace DuDuClaw.Admission

open DuDuClaw.Lib

variable {Payload : Type}

/-! ## The machine -/

structure Step (Payload : Type) where
  now : Millis
  call : Call Payload

def step (state : State Payload) (a : Step Payload) : State Payload :=
  (perform a.now state a.call).2

def reply (state : State Payload) (a : Step Payload) : Reply Payload :=
  (perform a.now state a.call).1

/-- The reservation that a step moves back into the queue. -/
def Restores (state : State Payload) (a : Step Payload) (id : Text) : Prop :=
  ∃ ticket : QueuedSpawn Payload, a.call = .restoreDequeued ticket ∧ ticket.ticketId = id ∧
    reply state a = .restored true

def Finishes (state : State Payload) (a : Step Payload) (id : Text) : Prop :=
  ∃ ticket : QueuedSpawn Payload, a.call = .finishDequeued ticket ∧ ticket.ticketId = id ∧
    reply state a = .finished true

def drawnIds (steps : List (Step Payload)) : List Text := steps.filterMap fun a => a.call.drawn

/-- The clock does not go back, and every ticket id is a new one. -/
structure Schedule (steps : List (Step Payload)) : Prop where
  clock : (steps.map Step.now).Pairwise (· ≤ ·)
  fresh : (drawnIds steps).Nodup

/-! ## One step -/

/-- **The four things a step can do**: nothing but remove tickets, queue the one it draws,
hand one out, or move a reservation back. -/
inductive Effect (state : State Payload) (a : Step Payload) (r : Reply Payload)
    (after : State Payload) : Prop where
  | removes (quiet : r.handed = none) (counter : after.nextSeq = state.nextSeq)
      (queued : ∀ t ∈ after.tickets.rows, t ∈ state.tickets.rows)
      (reserved : ∀ t ∈ after.dequeued.rows, t ∈ state.dequeued.rows)
  | queues (ticket : QueuedSpawn Payload) (quiet : r.handed = none)
      (drawn : a.call.drawn = some ticket.ticketId) (number : ticket.seq = state.nextSeq)
      (counter : after.nextSeq = state.nextSeq + 1)
      (queued : after.tickets = state.tickets.put ticket)
      (reserved : after.dequeued = state.dequeued)
  | hands (ticket : QueuedSpawn Payload) (handed : r.handed = some ticket)
      (listed : ticket ∈ state.tickets.rows) (live : a.now < ticket.expiresMs)
      (counter : after.nextSeq = state.nextSeq)
      (queued : ∀ t ∈ after.tickets.rows, t ∈ state.tickets.rows ∧ t.ticketId ≠ ticket.ticketId)
      (reserved : ∀ t ∈ after.dequeued.rows, t ∈ state.dequeued.rows ∨ t = ticket)
  | restores (ticket : QueuedSpawn Payload) (quiet : r.handed = none)
      (held : ticket ∈ state.dequeued.rows) (live : a.now < ticket.expiresMs)
      (asked : ∃ stale : QueuedSpawn Payload, a.call = .restoreDequeued stale ∧
        stale.ticketId = ticket.ticketId ∧ r = .restored true)
      (counter : after.nextSeq = state.nextSeq)
      (queued : after.tickets = state.tickets.put ticket)
      (reserved : after.dequeued = removeTicket state.dequeued ticket.ticketId)

section OneStep

variable {state : State Payload} {a : Step Payload} {t : QueuedSpawn Payload} {id : Text}

theorem dequeue_effect {cls : Text} {eligible : QueuedSpawn Payload → Bool} {reserve : Bool}
    {result : DequeueResult Payload} {after : State Payload}
    (ran : dequeueMatchingInner cls eligible reserve a.now state = (result, after)) :
    Effect state a (.dequeued result) after := by
  obtain ⟨-, counter, ⟨quiet, rfl, -⟩ | ⟨ticket, handed, listed, -, -, live, -, queued, reserved⟩⟩ :=
    dequeued_cases ran
  · exact .removes quiet rfl (fun t kept => (mem_pruned_tickets.mp kept).1)
      fun t kept => (mem_pruned_dequeued.mp kept).1
  refine .hands ticket handed listed live counter (fun t kept => ?_) fun t kept => ?_
  · rw [queued, mem_removeTicket, mem_pruned_tickets] at kept
    exact ⟨kept.1.1, kept.2⟩
  · rw [reserved] at kept
    split at kept
    · rcases Table.mem_put.mp kept with ⟨before, -⟩ | rfl
      · exact .inl (mem_pruned_dequeued.mp before).1
      · exact .inr rfl
    · exact .inl (mem_pruned_dequeued.mp kept).1

theorem step_effect (state : State Payload) (a : Step Payload) :
    Effect state a (reply state a) (step state a) := by
  obtain ⟨now, call⟩ := a
  unfold reply step
  cases call with
  | enqueueChecked cls cfg ownerKey payload check ticketId =>
    rcases ran : enqueueChecked cls cfg ownerKey payload check ticketId now state with ⟨outcome, after⟩
    simp only [perform, ran, Prod.map_apply, id_eq]
    obtain ⟨-, rfl⟩ | ⟨-, -, -, expiresMs, rfl⟩ := enqueued_cases ran
    · exact .removes rfl rfl (fun _ kept => kept) fun _ kept => kept
    · exact .queues _ rfl rfl rfl rfl rfl rfl
  | dequeueNext cls =>
    rcases ran : dequeueNext cls now state with ⟨result, after⟩
    simp only [perform, ran, Prod.map_apply, id_eq]
    exact dequeue_effect ran
  | dequeueNextMatching cls eligible =>
    rcases ran : dequeueNextMatching cls eligible now state with ⟨result, after⟩
    simp only [perform, ran, Prod.map_apply, id_eq]
    exact dequeue_effect ran
  | restoreDequeued ticket =>
    rcases ran : restoreDequeued ticket now state with ⟨yes, after⟩
    simp only [perform, ran, Prod.map_apply, id_eq]
    obtain ⟨counter, ⟨-, queued, reserved⟩ | ⟨rfl, ticket', held, named, -, live, queued, reserved⟩⟩ :=
      restored_cases ran
    · refine .removes rfl counter (fun t kept => queued ▸ kept) fun t kept => ?_
      rcases reserved with same | dropped
      · exact same ▸ kept
      · rw [dropped, mem_removeTicket] at kept
        exact kept.1
    · exact .restores ticket' rfl held live ⟨ticket, rfl, named.symm, rfl⟩ counter queued
        (named ▸ reserved)
  | finishDequeued ticket =>
    rcases ran : finishDequeued ticket state with ⟨yes, after⟩
    simp only [perform, ran, Prod.map_apply, id_eq]
    obtain ⟨-, rfl⟩ | ⟨-, -, rfl⟩ := finished_cases ran
    · exact .removes rfl rfl (fun _ kept => kept) fun _ kept => kept
    · exact .removes rfl rfl (fun _ kept => kept) fun _ kept => (mem_removeTicket.mp kept).1
  | sweepExpired cls =>
    exact .removes rfl rfl (fun t kept => (mem_pruned_tickets.mp kept).1)
      fun t kept => (mem_pruned_dequeued.mp kept).1
  | invalidateOwner cls owner =>
    rcases ran : invalidateOwner cls owner now state with ⟨removed, after⟩
    simp only [perform, ran, Prod.map_apply, id_eq]
    obtain ⟨-, rfl, -⟩ | ⟨-, counter, -, queued, reserved⟩ := invalidated_cases ran
    · exact .removes rfl rfl (fun _ kept => kept) fun _ kept => kept
    · exact .removes rfl counter (fun t kept => ((queued t).mp kept).1)
        fun t kept => ((reserved t).mp kept).1

theorem stored_step (stored : Stored (step state a) t) :
    Stored state t ∨ a.call.drawn = some t.ticketId ∧ t.seq = state.nextSeq ∧
      (step state a).nextSeq = state.nextSeq + 1 := by
  cases step_effect state a with
  | removes _ _ queued reserved => exact .inl (stored.imp (queued t) (reserved t))
  | queues ticket _ drawn number counter queued reserved =>
    rw [Stored, queued, reserved, Table.mem_put] at stored
    rcases stored with (⟨before, -⟩ | rfl) | held
    · exact .inl (.inl before)
    · exact .inr ⟨drawn, number, counter⟩
    · exact .inl (.inr held)
  | hands ticket _ listed _ _ queued reserved =>
    rcases stored with kept | held
    · exact .inl (.inl (queued t kept).1)
    · rcases reserved t held with before | rfl
      · exact .inl (.inr before)
      · exact .inl (.inl listed)
  | restores ticket _ held _ _ _ queued reserved =>
    rw [Stored, queued, reserved, Table.mem_put, mem_removeTicket] at stored
    rcases stored with (⟨before, -⟩ | rfl) | kept
    · exact .inl (.inl before)
    · exact .inl (.inr held)
    · exact .inl (.inr kept.1)

/-- The counter stays, or moves on with the id that is drawn. -/
theorem counter_step (state : State Payload) (a : Step Payload) : (step state a).nextSeq = state.nextSeq ∨
      (step state a).nextSeq = state.nextSeq + 1 ∧ a.call.drawn.isSome := by
  cases step_effect state a with
  | removes _ counter _ _ | hands _ _ _ _ counter _ _ | restores _ _ _ _ _ counter _ _ => exact .inl counter
  | queues _ _ drawn _ counter _ _ => exact .inr ⟨counter, by rw [drawn]; rfl⟩

theorem queued_step (queued : t ∈ (step state a).tickets.rows) :
    t ∈ state.tickets.rows ∨ a.call.drawn = some t.ticketId ∨ Restores state a t.ticketId := by
  cases step_effect state a with
  | removes _ _ kept _ => exact .inl (kept t queued)
  | queues ticket _ drawn _ _ put _ =>
    rw [put, Table.mem_put] at queued
    rcases queued with ⟨before, -⟩ | rfl
    · exact .inl before
    · exact .inr (.inl drawn)
  | hands ticket _ _ _ _ kept _ => exact .inl (kept t queued).1
  | restores ticket _ _ _ asked _ put _ =>
    rw [put, Table.mem_put] at queued
    rcases queued with ⟨before, -⟩ | rfl
    · exact .inl before
    · exact .inr (.inr asked)

/-- An id names at most one stored ticket. -/
theorem unique_of_apart {u : QueuedSpawn Payload} (apart : Apart state) (left : Stored state t)
    (right : Stored state u) (same : t.ticketId = u.ticketId) : t = u := by
  rcases left with left | left <;> rcases right with right | right
  · exact state.tickets.unique left right same
  · exact absurd same (apart t left u right)
  · exact absurd same.symm (apart u right t left)
  · exact state.dequeued.unique left right same

/-- A step whose id is new keeps the queued and the reserved tickets apart. -/
theorem apart_step (apart : Apart state)
    (fresh : ∀ t, Stored state t → a.call.drawn ≠ some t.ticketId) : Apart (step state a) := by
  intro t queued d held
  cases step_effect state a with
  | removes _ _ before before' => exact apart t (before t queued) d (before' d held)
  | queues ticket _ drawn _ _ put same =>
    rw [put, Table.mem_put] at queued
    rw [same] at held
    rcases queued with ⟨before, -⟩ | rfl
    · exact apart t before d held
    · exact fun equal => fresh d (.inr held) (equal ▸ drawn)
  | hands ticket _ listed _ _ kept moved =>
    obtain ⟨before, other⟩ := kept t queued
    rcases moved d held with there | rfl
    · exact apart t before d there
    · exact other
  | restores ticket _ there _ _ _ put removed =>
    rw [put, Table.mem_put] at queued
    rw [removed, mem_removeTicket] at held
    rcases queued with ⟨before, -⟩ | rfl
    · exact apart t before d held.1
    · exact Ne.symm held.2

theorem handed_step (handed : (reply state a).handed = some t) : t ∈ state.tickets.rows ∧ a.now < t.expiresMs ∧
      ∀ u ∈ (step state a).tickets.rows, u.ticketId ≠ t.ticketId := by
  cases step_effect state a with
  | removes quiet _ _ _ | queues _ quiet _ _ _ _ _ | restores _ quiet _ _ _ _ _ _ => rw [quiet] at handed; cases handed
  | hands ticket named listed live _ kept _ =>
    rw [named] at handed
    cases handed
    exact ⟨listed, live, fun u queued => (kept u queued).2⟩

/-- A restore that succeeds puts the stored reservation back as it was stored. -/
theorem restores_step (restores : Restores state a id) :
    ∃ reserved ∈ state.dequeued.rows, reserved.ticketId = id ∧ a.now < reserved.expiresMs ∧
      reserved ∈ (step state a).tickets.rows := by
  obtain ⟨stale, asked, rfl, yes⟩ := restores
  obtain ⟨now, call⟩ := a
  cases asked
  rcases ran : restoreDequeued stale now state with ⟨answer, after⟩
  simp only [reply, perform, ran, Prod.map_apply, Reply.restored.injEq] at yes
  subst yes
  obtain ⟨-, ⟨impossible, -⟩ | ⟨-, reserved, held, named, -, live, queued, -⟩⟩ := restored_cases ran
  · cases impossible
  · refine ⟨reserved, held, named, live, ?_⟩
    simp only [step, perform, ran, Prod.map_apply, id_eq, queued]
    exact Table.mem_put.mpr (.inr rfl)

/-- A finish that succeeds takes a reservation away. -/
theorem finishes_cases (finishes : Finishes state a id) :
    (∃ reserved ∈ state.dequeued.rows, reserved.ticketId = id) ∧
      step state a = { state with dequeued := removeTicket state.dequeued id } := by
  obtain ⟨stale, asked, rfl, yes⟩ := finishes
  obtain ⟨now, call⟩ := a
  cases asked
  rcases ran : finishDequeued stale state with ⟨answer, after⟩
  simp only [reply, perform, ran, Prod.map_apply, Reply.finished.injEq] at yes
  subst yes
  simp only [step, perform, ran, Prod.map_apply, id_eq]
  obtain ⟨impossible, -⟩ | ⟨-, held, rfl⟩ := finished_cases ran
  · cases impossible
  · exact ⟨held, rfl⟩

theorem finishes_step (apart : Apart state) (finishes : Finishes state a id)
    (stored : Stored (step state a) t) : t.ticketId ≠ id := by
  obtain ⟨⟨reserved, held, named⟩, taken⟩ := finishes_cases finishes
  rw [taken] at stored
  rcases stored with queued | kept
  · exact fun same => apart t queued reserved held (same.trans named.symm)
  · exact (mem_removeTicket.mp kept).2

theorem removed_stored {gone : QueuedSpawn Payload} (listed : gone ∈ (reply state a).removed) :
    Stored state gone := by
  obtain ⟨now, call⟩ := a
  cases call with
  | invalidateOwner cls owner =>
    rcases ran : invalidateOwner cls owner now state with ⟨removed, after⟩
    simp only [reply, perform, ran, Prod.map_apply] at listed
    obtain ⟨rfl, -, -⟩ | ⟨-, -, told, -, -⟩ := invalidated_cases ran
    · exact absurd listed List.not_mem_nil
    · exact ((told gone).mp listed).1
  | _ => exact absurd listed List.not_mem_nil

/-- An invalidated ticket is stored no more. -/
theorem removed_step (apart : Apart state) {gone : QueuedSpawn Payload}
    (listed : gone ∈ (reply state a).removed) (stored : Stored (step state a) t) :
    t.ticketId ≠ gone.ticketId := by
  obtain ⟨now, call⟩ := a
  cases call with
  | invalidateOwner cls owner =>
    rcases ran : invalidateOwner cls owner now state with ⟨removed, after⟩
    simp only [reply, perform, ran, Prod.map_apply] at listed
    simp only [step, perform, ran, Prod.map_apply, id_eq] at stored
    obtain ⟨rfl, -, -⟩ | ⟨-, -, told, queued, reserved⟩ := invalidated_cases ran
    · exact absurd listed List.not_mem_nil
    obtain ⟨before, -, owned⟩ := (told gone).mp listed
    -- the removed ticket is its owner's, and what is left is not
    have other : Stored state t ∧ ownedBy cls owner t = false := by
      rcases stored with left | left
      · exact ⟨.inl ((queued t).mp left).1, ((queued t).mp left).2.2⟩
      · exact ⟨.inr ((reserved t).mp left).1, ((reserved t).mp left).2.2⟩
    intro same
    have equal : t = gone := unique_of_apart apart other.1 before same
    rw [equal, owned] at other
    cases other.2
  | _ => exact absurd listed List.not_mem_nil

/-- The tickets that a call may hand out. -/
def Eligible : Call Payload → QueuedSpawn Payload → Prop
  | .dequeueNext cls, t => t.cls = cls
  | .dequeueNextMatching cls eligible, t => t.cls = cls ∧ eligible t
  | _, _ => False

/-- A dequeue hands out the oldest live ticket that it may, if there is one. -/
theorem oldest_step (state : State Payload) (a : Step Payload) : match (reply state a).handed with
    | none => ∀ t ∈ state.tickets.rows, Eligible a.call t → t.expiresMs ≤ a.now
    | some t => Eligible a.call t ∧
        ∀ u ∈ state.tickets.rows, Eligible a.call u → a.now < u.expiresMs → t.seq ≤ u.seq := by
  obtain ⟨now, call⟩ := a
  cases call with
  | dequeueNext cls =>
    rcases ran : dequeueNext cls now state with ⟨result, after⟩
    simp only [reply, perform, ran, Prod.map_apply, Reply.handed, Eligible]
    obtain ⟨-, -, ⟨none_, -, nothing⟩ | ⟨ticket, handed, -, fits, -, -, least, -, -⟩⟩ :=
      dequeued_cases ran
    · rw [none_]
      exact fun t queued class_ => nothing t queued class_ rfl
    · rw [handed]
      exact ⟨fits, fun u queued class_ live => least u queued class_ rfl live⟩
  | dequeueNextMatching cls eligible =>
    rcases ran : dequeueNextMatching cls eligible now state with ⟨result, after⟩
    simp only [reply, perform, ran, Prod.map_apply, Reply.handed, Eligible]
    obtain ⟨-, -, ⟨none_, -, nothing⟩ | ⟨ticket, handed, -, fits, may, -, least, -, -⟩⟩ :=
      dequeued_cases ran
    · rw [none_]
      exact fun t queued both => nothing t queued both.1 both.2
    · rw [handed]
      exact ⟨⟨fits, may⟩, fun u queued both live => least u queued both.1 both.2 live⟩
  | _ => exact fun t _ never => never.elim

/-- The request that a step makes counts fewer than 2^32 live tickets, or counts no fewer
than its cap in a `u32`. -/
def Counted (state : State Payload) (a : Step Payload) : Prop :=
  ∀ cls cfg ownerKey payload id, a.call = .enqueueChecked cls cfg ownerKey payload (.ok ()) id →
    cfg.admission = .queue → (liveIn cls a.now state).length < 2 ^ 32 ∨
      (clampMinOne cfg.queueMaxDepth).toNat ≤ (liveIn cls a.now state).length % 2 ^ 32

/-- A request that is accepted leaves its class within the cap. -/
def WithinDepth (state : State Payload) (a : Step Payload) : Prop :=
  ∀ cls cfg ownerKey payload check id position,
    a.call = .enqueueChecked cls cfg ownerKey payload check id →
    reply state a = .enqueued (.ok (.queued id position)) →
    (liveIn cls a.now (step state a)).length ≤ (clampMinOne cfg.queueMaxDepth).toNat

/-- **An accepted request leaves its class within the cap exactly when it is counted.** -/
theorem withinDepth_iff (fresh : ∀ t ∈ state.tickets.rows, a.call.drawn ≠ some t.ticketId) :
    WithinDepth state a ↔ Counted state a := by
  obtain ⟨now, call⟩ := a
  constructor
  · rintro within cls cfg ownerKey payload id rfl queueing
    by_contra uncounted
    obtain ⟨many, room⟩ := not_or.mp uncounted
    have ran := enqueued_of_room ownerKey payload id queueing
      (countClass_lt_iff.mpr (Nat.not_le.mp room))
    have bound := within cls cfg ownerKey payload (.ok ()) id (countClass state cls now + 1) rfl
      (by simp only [reply, perform, ran, Prod.map_apply])
    simp only [step, perform, ran, Prod.map_apply, id_eq] at bound many
    -- more than 2^32 live tickets are left, and no cap is as large
    have small := (clampMinOne cfg.queueMaxDepth).toNat_lt
    rw [length_liveIn_put] at bound
    · omega
    · rfl
    · exact fun t queued same => fresh t queued (congrArg some same.symm)
  · rintro counted cls cfg ownerKey payload check id position rfl accepted
    rcases ran : enqueueChecked cls cfg ownerKey payload check id now state with ⟨outcome, after⟩
    simp only [reply, perform, ran, Prod.map_apply, Reply.enqueued.injEq] at accepted
    simp only [step, perform, ran, Prod.map_apply, id_eq]
    obtain ⟨refused, -⟩ | ⟨queueing, rfl, room, expiresMs, rfl⟩ := enqueued_cases ran
    · exact absurd accepted (refused id position)
    have below := countClass_lt_iff.mp room
    have counted_ := counted cls cfg ownerKey payload id rfl queueing
    dsimp only at counted_ below
    rw [length_liveIn_put]
    · rcases counted_ with few | full
      · rw [Nat.mod_eq_of_lt few] at below
        split <;> omega
      · exact absurd full (Nat.not_le.mpr below)
    · rfl
    · exact fun t queued same => fresh t queued (congrArg some same.symm)

end OneStep

/-! ## Runs -/

section Runs

variable {state : State Payload} {t u : QueuedSpawn Payload} {id : Text}
  {steps front mid back : List (Step Payload)} {a b : Step Payload}

def stateAfter (steps : List (Step Payload)) : State Payload := run step State.empty steps

theorem stateAfter_append (front back : List (Step Payload)) :
    stateAfter (front ++ back) = run step (stateAfter front) back := run_append ..

theorem stateAfter_concat (front : List (Step Payload)) (a : Step Payload) :
    stateAfter (front ++ [a]) = step (stateAfter front) a := stateAfter_append front [a]

theorem drawnIds_append (front back : List (Step Payload)) :
    drawnIds (front ++ back) = drawnIds front ++ drawnIds back := List.filterMap_append

theorem mem_drawnIds : id ∈ drawnIds steps ↔ ∃ a ∈ steps, a.call.drawn = some id :=
  List.mem_filterMap

/-- What is stored after some steps was stored before them or is drawn by one of them. -/
theorem stored_run (stored : Stored (run step state mid) t) : Stored state t ∨ t.ticketId ∈ drawnIds mid := by
  obtain before | ⟨m₁, a, m₂, split, drawn⟩ := run_origin (Stored · t)
    (fun _ a => a.call.drawn = some t.ticketId) (fun s a after => (stored_step after).imp_right And.left)
    stored
  · exact .inl before
  · exact .inr (mem_drawnIds.mpr ⟨a, by simp [split], drawn⟩)

/-- What is queued after some steps was queued before them, or was drawn or restored by one
of them. -/
theorem queued_run (queued : t ∈ (run step state mid).tickets.rows) :
    t ∈ state.tickets.rows ∨ t.ticketId ∈ drawnIds mid ∨
      ∃ m₁ c m₂, mid = m₁ ++ c :: m₂ ∧ Restores (run step state m₁) c t.ticketId := by
  obtain before | ⟨m₁, c, m₂, split, drawn | restores⟩ :=
    run_origin (t ∈ ·.tickets.rows)
      (fun s a => a.call.drawn = some t.ticketId ∨ Restores s a t.ticketId)
      (fun s a => queued_step) queued
  · exact .inl before
  · exact .inr (.inl (mem_drawnIds.mpr ⟨c, by simp [split], drawn⟩))
  · exact .inr (.inr ⟨m₁, c, m₂, split, restores⟩)

theorem stored_drawn (stored : Stored (stateAfter front) t) : t.ticketId ∈ drawnIds front := by
  rcases stored_run stored with never | drawn
  · rcases never with queued | reserved
    · exact absurd queued List.not_mem_nil
    · exact absurd reserved List.not_mem_nil
  · exact drawn

theorem Schedule.earlier (schedule : Schedule (front ++ back)) : Schedule front where
  clock := schedule.clock.sublist ((List.sublist_append_left front back).map _)
  fresh := schedule.fresh.sublist ((List.sublist_append_left front back).filterMap _)

theorem Schedule.not_again (schedule : Schedule (front ++ back)) (drawn : id ∈ drawnIds front) :
    id ∉ drawnIds back := by
  have distinct := schedule.fresh
  rw [drawnIds_append] at distinct
  exact fun again => (List.nodup_append.mp distinct).2.2 id drawn id again rfl

theorem apart_after (schedule : Schedule front) : Apart (stateAfter front) := by
  induction front using List.reverseRecOn with
  | nil => exact List.forall_mem_nil _
  | append_singleton front a ih =>
    rw [stateAfter_concat]
    refine apart_step (ih schedule.earlier) fun t stored drawn => ?_
    exact schedule.not_again (stored_drawn stored) (mem_drawnIds.mpr ⟨a, by simp, drawn⟩)

/-- Sequence numbers are below the counter and tell the tickets apart. -/
structure Numbered (state : State Payload) : Prop where
  below : ∀ t, Stored state t → t.seq.toNat < state.nextSeq.toNat
  distinct : ∀ t u, Stored state t → Stored state u → t.seq = u.seq → t.ticketId = u.ticketId

theorem toNat_succ {n : UInt64} (room : n.toNat + 1 < 2 ^ 64) : (n + 1).toNat = n.toNat + 1 := by
  rw [UInt64.toNat_add, UInt64.toNat_one, Nat.mod_eq_of_lt room]

theorem numbered_step (numbered : Numbered state)
    (room : a.call.drawn.isSome → state.nextSeq.toNat + 1 < 2 ^ 64) : Numbered (step state a) := by
  constructor
  · intro t stored
    rcases stored_step stored with before | ⟨drawn, number, counter⟩
    · have below := numbered.below t before
      rcases counter_step state a with same | ⟨next, drawn⟩
      · rw [same]
        exact below
      · rw [next, toNat_succ (room drawn)]
        omega
    · rw [counter, number, toNat_succ (room (by rw [drawn]; rfl))]
      omega
  · intro t u first second same
    rcases stored_step first with before | ⟨drawn, number, -⟩ <;>
      rcases stored_step second with before' | ⟨drawn', number', -⟩
    · exact numbered.distinct t u before before' same
    · have below := numbered.below t before
      rw [same, number'] at below
      omega
    · have below := numbered.below u before'
      rw [← same, number] at below
      omega
    · exact Option.some.inj (drawn.symm.trans drawn')

theorem numbered_after (few : (drawnIds front).length < 2 ^ 64) :
    Numbered (stateAfter front) ∧ (stateAfter front).nextSeq.toNat ≤ (drawnIds front).length := by
  induction front using List.reverseRecOn with
  | nil =>
    refine ⟨⟨fun t never => ?_, fun t _ never => ?_⟩, Nat.le_refl 0⟩ <;>
      exact absurd (@stored_drawn Payload t [] never) List.not_mem_nil
  | append_singleton front a ih =>
    rw [drawnIds_append, List.length_append] at few ⊢
    obtain ⟨numbered, bound⟩ := ih (by omega)
    have one : a.call.drawn.isSome → (drawnIds [a]).length = 1 := by
      intro some_
      obtain ⟨id, drawn⟩ := Option.isSome_iff_exists.mp some_
      simp [drawnIds, drawn]
    have room : a.call.drawn.isSome → (stateAfter front).nextSeq.toNat + 1 < 2 ^ 64 := by
      intro some_
      have := one some_
      omega
    rw [stateAfter_concat]
    refine ⟨numbered_step numbered room, ?_⟩
    rcases counter_step (stateAfter front) a with same | ⟨next, some_⟩
    · rw [same]
      omega
    · rw [next, toNat_succ (room some_), one some_]
      omega

/-! ## The promises -/

/-- From here on the ticket is not handed out, and does not come back into the queue. -/
structure Retired (steps front : List (Step Payload)) (id : Text) : Prop where
  handed : ∀ mid b back, steps = front ++ mid ++ b :: back →
    ∀ t, (reply (stateAfter (front ++ mid)) b).handed = some t → t.ticketId ≠ id
  queued : ∀ mid b back, steps = front ++ mid ++ b :: back →
    ¬Restores (stateAfter (front ++ mid)) b id ∧ b.call.drawn ≠ some id

structure Kept (steps : List (Step Payload)) : Prop where
  depth : ∀ front a back, steps = front ++ a :: back → WithinDepth (stateAfter front) a
  oldest : ∀ front a back, steps = front ++ a :: back →
    match (reply (stateAfter front) a).handed with
    | none => ∀ t ∈ (stateAfter front).tickets.rows, Eligible a.call t → t.expiresMs ≤ a.now
    | some t => t ∈ (stateAfter front).tickets.rows ∧ Eligible a.call t ∧ a.now < t.expiresMs ∧
        ∀ u ∈ (stateAfter front).tickets.rows, Eligible a.call u → a.now < u.expiresMs → u ≠ t →
          t.seq < u.seq
  again : ∀ front a mid b back, steps = front ++ a :: (mid ++ b :: back) →
    ∀ t u, (reply (stateAfter front) a).handed = some t →
      (reply (stateAfter (front ++ a :: mid)) b).handed = some u → u.ticketId = t.ticketId →
      u = t ∧ ∃ m₁ c m₂, mid = m₁ ++ c :: m₂ ∧
        Restores (stateAfter (front ++ a :: m₁)) c t.ticketId
  restored : ∀ front a back, steps = front ++ a :: back → ∀ id, Restores (stateAfter front) a id →
    ∃ reserved ∈ (stateAfter front).dequeued.rows, reserved.ticketId = id ∧
      a.now < reserved.expiresMs ∧ reserved ∈ (stateAfter (front ++ [a])).tickets.rows
  finished : ∀ front a back, steps = front ++ a :: back → ∀ id, Finishes (stateAfter front) a id →
    Retired steps (front ++ [a]) id ∧
      ∀ t, Stored (stateAfter (front ++ [a])) t → t.ticketId ≠ id
  invalidated : ∀ front a back, steps = front ++ a :: back →
    ∀ gone ∈ (reply (stateAfter front) a).removed, Retired steps (front ++ [a]) gone.ticketId ∧
      ∀ t, Stored (stateAfter (front ++ [a])) t → t.ticketId ≠ gone.ticketId
  expired : ∀ front a back, steps = front ++ a :: back → ∀ t, Stored (stateAfter front) t →
    t.expiresMs ≤ a.now → Retired steps front t.ticketId

theorem retired_of_gone (schedule : Schedule steps) (drawn : id ∈ drawnIds front)
    (gone : ∀ t, Stored (stateAfter front) t → t.ticketId ≠ id) : Retired steps front id := by
  have never : ∀ mid b back', steps = front ++ mid ++ b :: back' →
      ∀ t, Stored (stateAfter (front ++ mid)) t → t.ticketId ≠ id := by
    intro mid b back' split' t stored same
    rw [stateAfter_append] at stored
    rcases stored_run stored with before | again
    · exact gone t before same
    rw [split', List.append_assoc] at schedule
    refine schedule.not_again drawn ?_
    rw [drawnIds_append]
    exact List.mem_append_left _ (same ▸ again)
  constructor
  · intro mid b back' split' t handed
    exact never mid b back' split' t (.inl (handed_step handed).1)
  · intro mid b back' split'
    refine ⟨fun restores => ?_, fun again => ?_⟩
    · obtain ⟨reserved, held, named, -⟩ := restores_step restores
      exact never mid b back' split' reserved (.inr held) named
    · rw [split', List.append_assoc] at schedule
      exact schedule.not_again drawn (mem_drawnIds.mpr ⟨b, by simp, again⟩)

/-- What is finished or invalidated is retired, and stored no more. -/
theorem retired_after (schedule : Schedule steps)
    {gone : QueuedSpawn Payload} (before : Stored (stateAfter front) gone)
    (after : ∀ t, Stored (step (stateAfter front) a) t → t.ticketId ≠ gone.ticketId) :
    Retired steps (front ++ [a]) gone.ticketId ∧
      ∀ t, Stored (stateAfter (front ++ [a])) t → t.ticketId ≠ gone.ticketId := by
  rw [← stateAfter_concat] at after
  refine ⟨retired_of_gone schedule ?_ after, after⟩
  rw [drawnIds_append]
  exact List.mem_append_left _ (stored_drawn before)

theorem Schedule.le_of_order (schedule : Schedule (front ++ a :: (mid ++ b :: back))) : a.now ≤ b.now := by
  have later := (schedule.clock.sublist ((List.sublist_append_right front _).map _))
  rw [List.map_cons, List.map_append, List.map_cons] at later
  exact List.rel_of_pairwise_cons later (by simp)

/-- The last clock reading before a step, or its own. -/
theorem Schedule.le_of_split (schedule : Schedule steps) (split : steps = front ++ a :: back)
    {back' : List (Step Payload)} (split' : steps = front ++ mid ++ b :: back') : a.now ≤ b.now := by
  rw [split, List.append_assoc] at split'
  have rest := List.append_cancel_left split'
  cases mid with
  | nil =>
    obtain ⟨rfl, -⟩ := List.cons.inj rest
    exact Int.le_refl _
  | cons first others =>
    obtain ⟨rfl, rfl⟩ := List.cons.inj rest
    exact (split ▸ schedule).le_of_order

theorem again_kept (schedule : Schedule (front ++ a :: (mid ++ b :: back)))
    (first : (reply (stateAfter front) a).handed = some t)
    (second : (reply (stateAfter (front ++ a :: mid)) b).handed = some u) (same : u.ticketId = t.ticketId) :
    u = t ∧ ∃ m₁ c m₂, mid = m₁ ++ c :: m₂ ∧ Restores (stateAfter (front ++ a :: m₁)) c t.ticketId := by
  obtain ⟨listed, -, gone⟩ := handed_step first
  have drawn : t.ticketId ∈ drawnIds front := stored_drawn (.inl listed)
  have queued := (handed_step second).1
  have newer : t.ticketId ∉ drawnIds (a :: mid) := by
    have never := schedule.not_again drawn
    rw [← List.cons_append, drawnIds_append] at never
    exact fun again => never (List.mem_append_left _ again)
  constructor
  · rw [stateAfter_append] at queued
    rcases stored_run (.inl queued) with before | again
    · exact unique_of_apart (apart_after schedule.earlier) before (.inl listed) same
    · exact absurd (same ▸ again) newer
  · have split : front ++ a :: mid = front ++ [a] ++ mid := by simp
    rw [split, stateAfter_append, stateAfter_concat] at queued
    obtain kept | again | ⟨m₁, c, m₂, cut, restores⟩ := queued_run queued
    · exact absurd same (gone u kept)
    · refine absurd (same ▸ again) fun again => newer ?_
      rw [← List.singleton_append, drawnIds_append]
      exact List.mem_append_right _ again
    refine ⟨m₁, c, m₂, cut, ?_⟩
    have split' : front ++ a :: m₁ = front ++ [a] ++ m₁ := by simp
    rw [split', stateAfter_append, stateAfter_concat, ← same]
    exact restores

theorem expired_retired (schedule : Schedule steps) (split : steps = front ++ a :: back)
    (stored : Stored (stateAfter front) t) (late : t.expiresMs ≤ a.now) : Retired steps front t.ticketId := by
  have drawn := stored_drawn stored
  have apart : Apart (stateAfter front) := apart_after (split ▸ schedule).earlier
  have newer : ∀ mid b back', steps = front ++ mid ++ b :: back' →
      t.ticketId ∉ drawnIds mid ∧ b.call.drawn ≠ some t.ticketId := by
    intro mid b back' split'
    rw [split', List.append_assoc] at schedule
    have never := schedule.not_again drawn
    rw [drawnIds_append] at never
    refine ⟨fun again => never (List.mem_append_left _ again), fun again => never ?_⟩
    exact List.mem_append_right _ (mem_drawnIds.mpr ⟨b, by simp, again⟩)
  -- whatever has its id later is the ticket itself
  have same : ∀ mid b back', steps = front ++ mid ++ b :: back' →
      ∀ u, Stored (stateAfter (front ++ mid)) u → u.ticketId = t.ticketId → u = t := by
    intro mid b back' split' u stored' named
    rw [stateAfter_append] at stored'
    rcases stored_run stored' with before | again
    · exact unique_of_apart apart before stored named
    · exact absurd (named ▸ again) (newer mid b back' split').1
  constructor
  · intro mid b back' split' u handed named
    obtain ⟨queued, live, -⟩ := handed_step handed
    have order := schedule.le_of_split split split'
    rw [same mid b back' split' u (.inl queued) named] at live
    exact absurd (Int.le_trans late order) (Int.not_le.mpr live)
  · intro mid b back' split'
    refine ⟨fun restores => ?_, (newer mid b back' split').2⟩
    obtain ⟨reserved, held, named, live, -⟩ := restores_step restores
    have order := schedule.le_of_split split split'
    rw [same mid b back' split' reserved (.inr held) named] at live
    exact absurd (Int.le_trans late order) (Int.not_le.mpr live)

theorem oldest_kept (few : (drawnIds front).length < 2 ^ 64) : match (reply (stateAfter front) a).handed with
    | none => ∀ t ∈ (stateAfter front).tickets.rows, Eligible a.call t → t.expiresMs ≤ a.now
    | some t => t ∈ (stateAfter front).tickets.rows ∧ Eligible a.call t ∧ a.now < t.expiresMs ∧
        ∀ u ∈ (stateAfter front).tickets.rows, Eligible a.call u → a.now < u.expiresMs → u ≠ t →
          t.seq < u.seq := by
  have oldest := oldest_step (stateAfter front) a
  cases handed : (reply (stateAfter front) a).handed with
  | none =>
    rw [handed] at oldest
    exact oldest
  | some t =>
    rw [handed] at oldest
    obtain ⟨listed, live, -⟩ := handed_step handed
    refine ⟨listed, oldest.1, live, fun u queued may unexpired other => ?_⟩
    have least := oldest.2 u queued may unexpired
    refine UInt64.lt_of_le_of_ne least fun equal => other ?_
    have named := (numbered_after few).1.distinct t u (.inl listed) (.inl queued) equal
    exact ((stateAfter front).tickets.unique listed queued named).symm

/-- **A run keeps the promises of the queue exactly when every request it accepts is
counted.** -/
theorem fifo_kept_iff (schedule : Schedule steps) (few : (drawnIds steps).length < 2 ^ 64) :
    Kept steps ↔ Obeys step Counted State.empty steps := by
  have fresh : ∀ front a back, steps = front ++ a :: back →
      ∀ t ∈ (stateAfter front).tickets.rows, a.call.drawn ≠ some t.ticketId := by
    rintro front a back rfl t queued drawn
    exact schedule.not_again (stored_drawn (.inl queued)) (mem_drawnIds.mpr ⟨a, by simp, drawn⟩)
  rw [obeys_iff]
  constructor
  · intro kept front a back split
    exact (withinDepth_iff (fresh front a back split)).mp (kept.depth front a back split)
  · intro counted
    refine ⟨?_, ?_, ?_, ?_, ?_, ?_, ?_⟩
    · intro front a back split
      exact (withinDepth_iff (fresh front a back split)).mpr (counted front a back split)
    · rintro front a back rfl
      refine oldest_kept ?_
      rw [drawnIds_append, List.length_append] at few
      omega
    · rintro front a mid b back rfl t u first second same
      exact again_kept schedule first second same
    · intro front a back split id restores
      rw [stateAfter_concat]
      exact restores_step restores
    · rintro front a back split id finishes
      have apart := apart_after (split ▸ schedule).earlier
      obtain ⟨reserved, held, named⟩ := (finishes_cases finishes).1
      rw [← named]
      refine retired_after schedule (.inr held) fun t stored => ?_
      exact named ▸ finishes_step apart finishes stored
    · intro front a back split gone listed
      have apart := apart_after (split ▸ schedule).earlier
      exact retired_after schedule (removed_stored listed)
        fun t stored => removed_step apart listed stored
    · intro front a back split t stored late
      exact expired_retired schedule split stored late

/-- A run with fewer than 2^32 requests counts every one of them. -/
theorem counted_of_few (few : (drawnIds steps).length < 2 ^ 32) : Obeys step Counted State.empty steps := by
  refine obeys_iff.mpr fun front a back split cls _ _ _ _ _ _ => .inl ?_
  have known : (stateAfter front).tickets.rows.map QueuedSpawn.ticketId ⊆ drawnIds front := by
    intro id listed
    obtain ⟨t, queued, rfl⟩ := List.mem_map.mp listed
    exact stored_drawn (.inl queued)
  have bound := ((stateAfter front).tickets.distinct.subperm known).length_le
  have live : (liveIn cls a.now (stateAfter front)).length ≤ _ := List.length_filter_le ..
  unfold stateAfter at live bound
  rw [split, drawnIds_append, List.length_append] at few
  rw [List.length_map] at bound
  omega

end Runs

/-! ## Two runs -/

def ephemeral : Text := "ephemeral".toList

def hexDigits : Nat → Nat → Text
  | 0, _ => []
  | k + 1, i => hexDigits k (i / 16) ++ [Nat.digitChar (i % 16)]

/-- A UUID whose last twelve digits are free. -/
def uuid (i : Nat) : Text := "00000000-0000-4000-8000-".toList ++ hexDigits 12 i

variable {i j n : Nat}

theorem digitChar_inj {a b : Nat} (left : a < 16) (right : b < 16)
    (same : Nat.digitChar a = Nat.digitChar b) : a = b := by
  have all : ∀ a b : Fin 16, Nat.digitChar a = Nat.digitChar b → a = b := by decide
  exact congrArg Fin.val (all ⟨a, left⟩ ⟨b, right⟩ same)

theorem hexDigits_inj {k : Nat} (left : i < 16 ^ k) (right : j < 16 ^ k)
    (same : hexDigits k i = hexDigits k j) : i = j := by
  induction k generalizing i j with
  | zero => omega
  | succ k ih =>
    obtain ⟨front, last⟩ := List.append_inj' same rfl
    rw [Nat.pow_succ'] at left right
    have high : i / 16 = j / 16 :=
      ih (Nat.div_lt_of_lt_mul left) (Nat.div_lt_of_lt_mul right) front
    have low : i % 16 = j % 16 :=
      digitChar_inj (Nat.mod_lt _ (by decide)) (Nat.mod_lt _ (by decide)) (List.cons.inj last).1
    omega

theorem uuid_inj (left : i < 16 ^ 12) (right : j < 16 ^ 12) (same : uuid i = uuid j) : i = j := by
  unfold uuid at same
  exact hexDigits_inj left right (List.append_cancel_left same)

def enqueueAt (now : Millis) (cfg : AdmissionConfig) (i : Nat) : Step Unit :=
  ⟨now, .enqueueChecked ephemeral cfg none () (.ok ()) (uuid i)⟩

/-- The first of two tickets is handed out, restored and handed out again. -/
def pausedRun : List (Step Unit) :=
  [enqueueAt 0 {} 0, enqueueAt 1 {} 1, ⟨2, .dequeueNextMatching ephemeral fun _ => true⟩,
    ⟨3, .restoreDequeued ⟨uuid 0, ephemeral, 0, 0, 0, none, ()⟩⟩, ⟨4, .dequeueNext ephemeral⟩]

theorem fifo_kept_pausedRun : Kept pausedRun :=
  (fifo_kept_iff ⟨by decide, by decide⟩ (by decide)).mpr (counted_of_few (by decide))

/-! ### More tickets than a `u32` counts -/

def depthOne : AdmissionConfig := { queueMaxDepth := 1 }

/-- The `i`th ticket of the runs below. -/
def ticketAt (i : Nat) : QueuedSpawn Unit :=
  ⟨uuid i, ephemeral, UInt64.ofNat i, 0, 600000, none, ()⟩

def reserveNext (i : Nat) : List (Step Unit) :=
  [enqueueAt 0 depthOne i, ⟨0, .dequeueNextMatching ephemeral fun _ => true⟩]

/-- Every ticket is handed out before the next one is queued, and then all are restored. -/
def reserveAll (n : Nat) : List (Step Unit) := (List.range n).flatMap reserveNext

def restoreAll (n : Nat) : List (Step Unit) :=
  (List.range n).map fun i => ⟨0, .restoreDequeued (ticketAt i)⟩

def overfullRun (n : Nat) : List (Step Unit) :=
  reserveAll n ++ restoreAll n ++ [enqueueAt 0 depthOne n]

theorem ticketAt_expires (n : Nat) : addI64 0 (ttlMs depthOne) = (ticketAt n).expiresMs := by
  show addI64 0 (ttlMs depthOne) = 600000
  decide

theorem ticketAt_live (i : Nat) : 0 < (ticketAt i).expiresMs := by
  show (0 : Int) < 600000
  decide

/-- A request in depth one that finds no live ticket. -/
theorem step_enqueueAt {state : State Unit} (counter : state.nextSeq = UInt64.ofNat n)
    (room : (liveIn ephemeral 0 state).length % 2 ^ 32 = 0) :
    (step state (enqueueAt 0 depthOne n)).nextSeq = UInt64.ofNat (n + 1) ∧
      (step state (enqueueAt 0 depthOne n)).tickets = state.tickets.put (ticketAt n) ∧
      (step state (enqueueAt 0 depthOne n)).dequeued = state.dequeued := by
  have ran := @enqueued_of_room Unit state 0 ephemeral depthOne none () (uuid n) rfl (countClass_lt_iff.mpr (by
    rw [room]
    decide) : countClass state ephemeral 0 < _)
  rw [ticketAt_expires n, counter] at ran
  simp only [step, perform, enqueueAt, ran, Prod.map_apply, id_eq]
  exact ⟨(UInt64.ofNat_add n 1).symm, rfl, trivial⟩

theorem reserved_reserveAll (few : n ≤ 16 ^ 12) :
    (stateAfter (reserveAll n)).nextSeq = UInt64.ofNat n ∧ (∀ t, t ∉ (stateAfter (reserveAll n)).tickets.rows) ∧
      ∀ i < n, ticketAt i ∈ (stateAfter (reserveAll n)).dequeued.rows := by
  induction n with
  | zero => exact ⟨rfl, fun t => List.not_mem_nil, fun i none_ => absurd none_ (Nat.not_lt_zero i)⟩
  | succ n ih =>
    obtain ⟨counter, queued, reserved⟩ := ih (by omega)
    have empty : liveIn ephemeral 0 (stateAfter (reserveAll n)) = [] :=
      List.filter_eq_nil_iff.mpr fun t listed => absurd listed (queued t)
    obtain ⟨next, put, same⟩ := step_enqueueAt counter (by rw [empty]; rfl)
    have split : stateAfter (reserveAll (n + 1)) =
        step (step (stateAfter (reserveAll n)) (enqueueAt 0 depthOne n))
          ⟨0, .dequeueNextMatching ephemeral fun _ => true⟩ := by
      have cut : reserveAll (n + 1) = reserveAll n ++ reserveNext n := by
        simp [reserveAll, List.range_succ]
      rw [cut, stateAfter_append]
      rfl
    rw [split]
    generalize step (stateAfter (reserveAll n)) (enqueueAt 0 depthOne n) = between at next put same ⊢
    have only : ∀ t ∈ between.tickets.rows, t = ticketAt n := by
      intro t listed
      rw [put, Table.mem_put] at listed
      rcases listed with ⟨before, -⟩ | this
      · exact absurd before (queued t)
      · exact this
    have first : ticketAt n ∈ between.tickets.rows := by
      rw [put]
      exact Table.mem_put.mpr (.inr rfl)
    rcases ran : dequeueNextMatching ephemeral (fun _ => true) 0 between with ⟨result, after⟩
    simp only [step, perform, ran, Prod.map_apply, id_eq]
    obtain ⟨-, counter', ⟨-, -, nothing⟩ | ⟨t, -, listed, -, -, -, -, tickets, dequeued⟩⟩ :=
      dequeued_cases ran
    · exact absurd (nothing _ first rfl rfl) (Int.not_le.mpr (ticketAt_live n))
    cases only t listed
    refine ⟨counter'.trans next, fun t kept => ?_, fun i below => ?_⟩
    · rw [tickets, mem_removeTicket, mem_pruned_tickets] at kept
      exact kept.2 (congrArg QueuedSpawn.ticketId (only t kept.1.1))
    · rw [dequeued, if_pos rfl, Table.mem_put, mem_pruned_dequeued, same]
      rcases Nat.lt_succ_iff_lt_or_eq.mp below with earlier | rfl
      · refine .inl ⟨⟨reserved i earlier, ticketAt_live i⟩, fun equal => ?_⟩
        exact absurd (uuid_inj (by omega) (by omega) equal) (Nat.ne_of_lt earlier)
      · exact .inr rfl

theorem queued_restoreAll (few : n ≤ 16 ^ 12) (part : j ≤ n) :
    (stateAfter (reserveAll n ++ restoreAll j)).nextSeq = UInt64.ofNat n ∧
      (stateAfter (reserveAll n ++ restoreAll j)).tickets.rows = (List.range j).map ticketAt ∧
      ∀ i, j ≤ i → i < n → ticketAt i ∈ (stateAfter (reserveAll n ++ restoreAll j)).dequeued.rows := by
  induction j with
  | zero =>
    obtain ⟨counter, queued, reserved⟩ := reserved_reserveAll few
    have same : reserveAll n ++ restoreAll 0 = reserveAll n := List.append_nil _
    rw [same]
    exact ⟨counter, List.eq_nil_iff_forall_not_mem.mpr queued, fun i _ below => reserved i below⟩
  | succ j ih =>
    obtain ⟨counter, queued, reserved⟩ := ih (by omega)
    have split : reserveAll n ++ restoreAll (j + 1) =
        reserveAll n ++ restoreAll j ++ [⟨0, .restoreDequeued (ticketAt j)⟩] := by
      simp [restoreAll, List.range_succ]
    rw [split, stateAfter_concat]
    generalize stateAfter (reserveAll n ++ restoreAll j) = between at counter queued reserved ⊢
    have held : getTicket between.dequeued (uuid j) = some (ticketAt j) :=
      between.dequeued.find?_key (reserved j (Nat.le_refl j) (by omega))
    have other : ∀ i, i < n → i ≠ j → uuid i ≠ uuid j := fun i below differ same =>
      differ (uuid_inj (by omega) (by omega) same)
    have absent : ∀ t ∈ between.tickets.rows, t.ticketId ≠ uuid j := by
      rw [queued]
      intro t listed
      obtain ⟨i, below, rfl⟩ := List.mem_map.mp listed
      have below := List.mem_range.mp below
      exact other i (by omega) (by omega)
    have ran : restoreDequeued (ticketAt j) 0 between = (true,
        { between with
          dequeued := removeTicket between.dequeued (uuid j)
          tickets := between.tickets.put (ticketAt j) }) := by
      unfold restoreDequeued
      rw [show (ticketAt j).ticketId = uuid j from rfl, held, getTicket_eq_none.mpr absent]
      dsimp only
      rw [if_neg (not_not.mpr rfl), if_pos (by simp [ticketAt_live])]
    simp only [step, perform, ran, Prod.map_apply, id_eq]
    refine ⟨counter, ?_, fun i from_ below => ?_⟩
    · have all : between.tickets.rows.filter (fun t => t.ticketId ≠ uuid j) =
          between.tickets.rows :=
        List.filter_eq_self.mpr fun t listed => decide_eq_true (absent t listed)
      rw [Table.put]
      dsimp only
      rw [show (ticketAt j).ticketId = uuid j from rfl, all, queued, List.range_succ, List.map_append]
      rfl
    · rw [mem_removeTicket]
      exact ⟨reserved i (by omega) below, other i below (by omega)⟩

theorem drawnIds_overfullRun (n : Nat) : drawnIds (overfullRun n) = (List.range (n + 1)).map uuid := by
  have first : ∀ m, drawnIds (reserveAll m) = (List.range m).map uuid := by
    intro m
    induction m with
    | zero => rfl
    | succ m ih =>
      have cut : reserveAll (m + 1) = reserveAll m ++ reserveNext m := by
        simp [reserveAll, List.range_succ]
      rw [cut, drawnIds_append, ih, List.range_succ, List.map_append]
      rfl
  have second : drawnIds (restoreAll n) = [] := by
    simp [drawnIds, restoreAll, Call.drawn]
  rw [overfullRun, drawnIds_append, drawnIds_append, first, second, List.append_nil,
    List.range_succ, List.map_append]
  rfl

theorem overfullRun_scheduled (few : n < 16 ^ 12) : Schedule (overfullRun n) where
  clock := by
    have still : ∀ now ∈ (overfullRun n).map Step.now, now = 0 := by
      intro now listed
      obtain ⟨a, at_, rfl⟩ := List.mem_map.mp listed
      simp only [overfullRun, reserveAll, reserveNext, restoreAll, List.mem_append, List.mem_flatMap,
        List.mem_map, List.mem_cons, List.not_mem_nil, or_false] at at_
      obtain (⟨i, -, rfl | rfl⟩ | ⟨i, -, rfl⟩) | rfl := at_ <;> rfl
    refine List.pairwise_of_forall_mem_list fun a first b second => ?_
    rw [still a first, still b second]
  fresh := by
    rw [drawnIds_overfullRun]
    refine List.nodup_range.map_on fun i below j below' same => ?_
    have below := List.mem_range.mp below
    have below' := List.mem_range.mp below'
    exact uuid_inj (by omega) (by omega) same

/-- **With 2^32 live tickets a class of depth one accepts another**: a `u32` counts none. -/
theorem overfull_accepted : ¬∀ steps : List (Step Unit), Schedule steps →
    (drawnIds steps).length < 2 ^ 64 → Kept steps := by
  intro claimed
  have few : 2 ^ 32 < 16 ^ 12 := by decide
  have schedule := overfullRun_scheduled few
  generalize size : 2 ^ 32 = n at few schedule
  have kept := claimed (overfullRun n) schedule (by
    rw [drawnIds_overfullRun, List.length_map, List.length_range]
    omega)
  obtain ⟨counter, queued, -⟩ := queued_restoreAll (Nat.le_of_lt few) (Nat.le_refl n)
  have live : liveIn ephemeral 0 (stateAfter (reserveAll n ++ restoreAll n)) =
      (List.range n).map ticketAt := by
    rw [liveIn, queued]
    refine List.filter_eq_self.mpr fun t listed => ?_
    obtain ⟨i, -, rfl⟩ := List.mem_map.mp listed
    exact Bool.and_eq_true_iff.mpr ⟨rfl, decide_eq_true (ticketAt_live i)⟩
  have depth := kept.depth (reserveAll n ++ restoreAll n) (enqueueAt 0 depthOne n) [] rfl
  have counted := (withinDepth_iff fun t listed drawn => ?_).mp depth ephemeral depthOne none ()
    (uuid n) rfl rfl
  · dsimp only [enqueueAt] at counted
    rw [live, List.length_map, List.length_range, size, Nat.mod_self] at counted
    rcases counted with small | none_
    · exact absurd small (Nat.lt_irrefl n)
    · exact absurd none_ (by decide)
  · rw [queued] at listed
    obtain ⟨i, below, rfl⟩ := List.mem_map.mp listed
    have below := List.mem_range.mp below
    exact absurd (uuid_inj (by omega) (by omega) (Option.some.inj drawn)) (Nat.ne_of_gt below)

end DuDuClaw.Admission
