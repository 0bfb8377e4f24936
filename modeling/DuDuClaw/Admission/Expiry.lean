/-
# Admission.Expiry -- how an expiry is reported

A ticket that expires in the queue stays there until a dequeue, a sweep or an
invalidation removes it, of whatever class these are.

* `expired_removed_step`: which call removes an expired ticket, and what it reports.
* `expiry_observed`: over a run, what is removed is reported once or, by an invalidation,
  not at all.
-/
import DuDuClaw.Admission.Runs

namespace DuDuClaw.Admission

open DuDuClaw.Lib

variable {Payload : Type}

def replay : State Payload → List (Step Payload) → List (Step Payload × Reply Payload)
  | _, [] => []
  | state, a :: rest => (a, reply state a) :: replay (step state a) rest

def reportedIds (log : List (Step Payload × Reply Payload)) : List Text :=
  log.flatMap fun entry => entry.2.reported.map QueuedSpawn.ticketId

def Prunes : Call Payload → Prop
  | .dequeueNext _ | .dequeueNextMatching _ _ | .sweepExpired _ => True
  | .invalidateOwner _ owner => owner ≠ []
  | _ => False

/-- The calls that report an expired ticket of the class that they remove. -/
def Tells (cls : Text) : Call Payload → Prop
  | .dequeueNext _ | .dequeueNextMatching _ _ => True
  | .sweepExpired swept => swept = cls
  | _ => False

def Silent : Call Payload → Prop
  | .invalidateOwner _ _ => True
  | _ => False

section OneStep

variable {state : State Payload} {a : Step Payload} {t u : QueuedSpawn Payload}

theorem live_of_prunes (prunes : Prunes a.call) (stored : Stored (step state a) t) :
    Stored state t ∧ a.now < t.expiresMs := by
  obtain ⟨now, call⟩ := a
  have pruned : ∀ {t}, Stored (pruneExpiredState state now).1 t → Stored state t ∧ now < t.expiresMs := by
    rintro t (kept | kept)
    · exact ⟨.inl (mem_pruned_tickets.mp kept).1, (mem_pruned_tickets.mp kept).2⟩
    · exact ⟨.inr (mem_pruned_dequeued.mp kept).1, (mem_pruned_dequeued.mp kept).2⟩
  have dequeue : ∀ {cls eligible reserve result after},
      dequeueMatchingInner cls eligible reserve now state = (result, after) → Stored after t →
        Stored state t ∧ now < t.expiresMs := by
    intro cls eligible reserve result after ran stored
    obtain ⟨-, -, ⟨-, rfl, -⟩ | ⟨ticket, -, listed, -, -, live, -, queued, reserved⟩⟩ :=
      dequeued_cases ran
    · exact pruned stored
    rw [Stored, queued, reserved, mem_removeTicket] at stored
    rcases stored with kept | kept
    · exact pruned (.inl kept.1)
    split at kept
    · rcases Table.mem_put.mp kept with ⟨before, -⟩ | rfl
      · exact pruned (.inr before)
      · exact ⟨.inl listed, live⟩
    · exact pruned (.inr kept)
  cases call with
  | dequeueNext cls =>
    rcases ran : dequeueNext cls now state with ⟨result, after⟩
    simp only [step, perform, ran, Prod.map_apply, id_eq] at stored
    exact dequeue ran stored
  | dequeueNextMatching cls eligible =>
    rcases ran : dequeueNextMatching cls eligible now state with ⟨result, after⟩
    simp only [step, perform, ran, Prod.map_apply, id_eq] at stored
    exact dequeue ran stored
  | sweepExpired cls => exact pruned stored
  | invalidateOwner cls owner =>
    rcases ran : invalidateOwner cls owner now state with ⟨removed, after⟩
    simp only [step, perform, ran, Prod.map_apply, id_eq] at stored
    obtain ⟨-, -, empty⟩ | ⟨-, -, -, queued, reserved⟩ := invalidated_cases ran
    · exact absurd empty prunes
    · rcases stored with kept | kept
      · exact ⟨.inl ((queued t).mp kept).1, ((queued t).mp kept).2.1⟩
      · exact ⟨.inr ((reserved t).mp kept).1, ((reserved t).mp kept).2.1⟩
  | enqueueChecked _ _ _ _ _ _ | restoreDequeued _ | finishDequeued _ => exact prunes.elim

/-- What a step reports: nothing, the expired tickets of every class, or those of the class
it sweeps. -/
theorem reported_cases (state : State Payload) (a : Step Payload) :
    (reply state a).reported = [] ∧ ¬Tells t.cls a.call ∨ Prunes a.call ∧ ∃ keep : QueuedSpawn Payload → Bool,
        (reply state a).reported = (pruneExpiredState state a.now).2.filter keep ∧
          (Tells t.cls a.call → keep t) := by
  obtain ⟨now, call⟩ := a
  have every : ∀ {cls eligible reserve result after},
      dequeueMatchingInner cls eligible reserve now state = (result, after) →
        result.expired = (pruneExpiredState state now).2.filter fun _ => true := by
    intro cls eligible reserve result after ran
    rw [(dequeued_cases ran).1, List.filter_true]
  cases call with
  | dequeueNext cls =>
    rcases ran : dequeueNext cls now state with ⟨result, after⟩
    simp only [reply, perform, ran, Prod.map_apply]
    exact .inr ⟨trivial, _, every ran, fun _ => rfl⟩
  | dequeueNextMatching cls eligible =>
    rcases ran : dequeueNextMatching cls eligible now state with ⟨result, after⟩
    simp only [reply, perform, ran, Prod.map_apply]
    exact .inr ⟨trivial, _, every ran, fun _ => rfl⟩
  | sweepExpired cls =>
    refine .inr ⟨trivial, fun t => t.cls == cls, rfl, fun same => ?_⟩
    exact beq_iff_eq.mpr (Eq.symm same)
  | enqueueChecked _ _ _ _ _ _ | restoreDequeued _ | finishDequeued _ | invalidateOwner _ _ => exact .inl ⟨rfl, id⟩

theorem reported_step (reported : t ∈ (reply state a).reported) :
    Prunes a.call ∧ t ∈ state.tickets.rows ∧ t.expiresMs ≤ a.now := by
  obtain ⟨none_, -⟩ | ⟨prunes, keep, listed, -⟩ := @reported_cases Payload t state a
  · rw [none_] at reported
    exact absurd reported List.not_mem_nil
  · rw [listed] at reported
    exact ⟨prunes, mem_pruned.mp (List.mem_filter.mp reported).1⟩

theorem gone_of_prunes (apart : Apart state) (prunes : Prunes a.call) (before : Stored state t)
    (late : t.expiresMs ≤ a.now) (stored : Stored (step state a) u) : u.ticketId ≠ t.ticketId := by
  intro same
  obtain ⟨listed, live⟩ := live_of_prunes prunes stored
  rw [unique_of_apart apart listed before same] at live
  exact absurd late (Int.not_le.mpr live)

theorem reported_distinct (state : State Payload) (a : Step Payload) :
    ((reply state a).reported.map QueuedSpawn.ticketId).Nodup := by
  cases all : (reply state a).reported with
  | nil => exact List.nodup_nil
  | cons t rest =>
    obtain ⟨none_, -⟩ | ⟨-, keep, listed, -⟩ := @reported_cases Payload t state a
    · rw [none_] at all
      cases all
    · rw [← all, listed]
      exact pruned_distinct.sublist (List.filter_sublist.map _)

theorem queued_of_not_prunes (apart : Apart state) (queued : t ∈ state.tickets.rows)
    (fresh : a.call.drawn ≠ some t.ticketId) (keeps : ¬Prunes a.call) : t ∈ (step state a).tickets.rows := by
  obtain ⟨now, call⟩ := a
  cases call with
  | enqueueChecked cls cfg ownerKey payload check ticketId =>
    rcases ran : enqueueChecked cls cfg ownerKey payload check ticketId now state with ⟨outcome, after⟩
    simp only [step, perform, ran, Prod.map_apply, id_eq]
    obtain ⟨-, rfl⟩ | ⟨-, -, -, expiresMs, rfl⟩ := enqueued_cases ran
    · exact queued
    · exact Table.mem_put.mpr (.inl ⟨queued, fun same => fresh (congrArg some same.symm)⟩)
  | restoreDequeued stale =>
    rcases ran : restoreDequeued stale now state with ⟨yes, after⟩
    simp only [step, perform, ran, Prod.map_apply, id_eq]
    obtain ⟨-, ⟨-, same, -⟩ | ⟨-, reserved, held, -, -, -, put, -⟩⟩ := restored_cases ran
    · rw [same]
      exact queued
    · rw [put]
      exact Table.mem_put.mpr (.inl ⟨queued, apart t queued reserved held⟩)
  | finishDequeued stale =>
    rcases ran : finishDequeued stale state with ⟨yes, after⟩
    simp only [step, perform, ran, Prod.map_apply, id_eq]
    obtain ⟨-, rfl⟩ | ⟨-, -, rfl⟩ := finished_cases ran <;> exact queued
  | invalidateOwner cls owner =>
    rcases ran : invalidateOwner cls owner now state with ⟨removed, after⟩
    simp only [step, perform, ran, Prod.map_apply, id_eq]
    obtain ⟨-, rfl, -⟩ | ⟨some_, -⟩ := invalidated_cases ran
    · exact queued
    · exact absurd some_ keeps
  | dequeueNext _ | dequeueNextMatching _ _ | sweepExpired _ => exact absurd trivial keeps

/-- **A queued ticket that has expired is removed by a call that prunes**, which reports it
when it is a dequeue or a sweep of its class. -/
theorem expired_removed_step (apart : Apart state) (queued : t ∈ state.tickets.rows)
    (late : t.expiresMs ≤ a.now) (fresh : a.call.drawn ≠ some t.ticketId)
    (removed : t ∉ (step state a).tickets.rows) :
    Prunes a.call ∧ (Tells t.cls a.call → t ∈ (reply state a).reported) := by
  have prunes : Prunes a.call := by
    by_contra keeps
    exact removed (queued_of_not_prunes apart queued fresh keeps)
  refine ⟨prunes, fun tells => ?_⟩
  obtain ⟨-, mute⟩ | ⟨-, keep, listed, kept⟩ := @reported_cases Payload t state a
  · exact absurd tells mute
  · rw [listed]
    exact List.mem_filter.mpr ⟨mem_pruned.mpr ⟨queued, late⟩, kept tells⟩

end OneStep

/-! ## Runs -/

section Runs

variable {state : State Payload} {t : QueuedSpawn Payload} {id : Text}
  {steps front mid back : List (Step Payload)} {a b : Step Payload}

theorem replay_append (front back : List (Step Payload)) :
    replay state (front ++ back) = replay state front ++ replay (run step state front) back := by
  induction front generalizing state with
  | nil => rfl
  | cons a rest ih => simp only [List.cons_append, replay, ih, run_cons]

theorem reportedIds_append (log log' : List (Step Payload × Reply Payload)) :
    reportedIds (log ++ log') = reportedIds log ++ reportedIds log' := List.flatMap_append

theorem reportedIds_concat (front : List (Step Payload)) (a : Step Payload) :
    reportedIds (replay State.empty (front ++ [a])) = reportedIds (replay State.empty front) ++
      (reply (stateAfter front) a).reported.map QueuedSpawn.ticketId := by
  rw [replay_append, reportedIds_append]
  simp only [reportedIds, replay, List.flatMap_cons, List.flatMap_nil, List.append_nil]
  rfl

theorem reported_gone (schedule : Schedule front) (reported : id ∈ reportedIds (replay State.empty front)) :
    id ∈ drawnIds front ∧ ∀ t, Stored (stateAfter front) t → t.ticketId ≠ id := by
  induction front using List.reverseRecOn with
  | nil => exact absurd reported List.not_mem_nil
  | append_singleton front a ih =>
    rw [reportedIds_concat, List.mem_append] at reported
    rw [drawnIds_append, stateAfter_concat]
    rcases reported with before | here
    · obtain ⟨drawn, gone⟩ := ih schedule.earlier before
      refine ⟨List.mem_append_left _ drawn, fun t stored same => ?_⟩
      rcases stored_step stored with old | ⟨again, -⟩
      · exact gone t old same
      · exact schedule.not_again drawn (mem_drawnIds.mpr ⟨a, by simp, same ▸ again⟩)
    obtain ⟨t, told, rfl⟩ := List.mem_map.mp here
    obtain ⟨prunes, queued, late⟩ := reported_step told
    refine ⟨List.mem_append_left _ (stored_drawn (.inl queued)), fun u stored => ?_⟩
    exact gone_of_prunes (apart_after schedule.earlier) prunes (.inl queued) late stored

theorem reportedIds_nodup (schedule : Schedule front) : (reportedIds (replay State.empty front)).Nodup := by
  induction front using List.reverseRecOn with
  | nil => exact List.nodup_nil
  | append_singleton front a ih =>
    rw [reportedIds_concat, List.nodup_append]
    refine ⟨ih schedule.earlier, reported_distinct _ _, fun id before id' here same => ?_⟩
    obtain ⟨t, told, named⟩ := List.mem_map.mp here
    have queued := (reported_step told).2.1
    exact (reported_gone schedule.earlier before).2 t (.inl queued) (named.trans same.symm)

theorem reportedIds_known (reported : id ∈ reportedIds (replay state back)) :
    (∃ t, Stored state t ∧ t.ticketId = id) ∨ id ∈ drawnIds back := by
  induction back generalizing state with
  | nil => exact absurd reported List.not_mem_nil
  | cons a rest ih =>
    rw [← List.singleton_append, drawnIds_append]
    rcases List.mem_append.mp reported with here | later
    · obtain ⟨t, told, named⟩ := List.mem_map.mp here
      exact .inl ⟨t, .inl (reported_step told).2.1, named⟩
    obtain ⟨t, stored, named⟩ | drawn := ih later
    · rcases stored_step stored with before | ⟨drawn, -⟩
      · exact .inl ⟨t, before, named⟩
      · exact .inr (List.mem_append_left _ (mem_drawnIds.mpr ⟨a, by simp, named ▸ drawn⟩))
    · exact .inr (List.mem_append_right _ drawn)

/-- What a run does with expired tickets. -/
structure Observed (steps : List (Step Payload)) : Prop where
  /-- No ticket is reported twice, and what is reported was queued and had expired. -/
  once : (reportedIds (replay State.empty steps)).Nodup
  due : ∀ front a back, steps = front ++ a :: back →
    ∀ t ∈ (reply (stateAfter front) a).reported,
      t ∈ (stateAfter front).tickets.rows ∧ t.expiresMs ≤ a.now
  /-- An expired ticket that is removed is removed by a call that prunes, and is not handed
  out again.  A dequeue and a sweep of its class report it; an invalidation does not, and
  then nothing does. -/
  removed : ∀ front a back, steps = front ++ a :: back → ∀ t ∈ (stateAfter front).tickets.rows,
    t.expiresMs ≤ a.now → t ∉ (stateAfter (front ++ [a])).tickets.rows →
      Prunes a.call ∧ Retired steps (front ++ [a]) t.ticketId ∧
        (Tells t.cls a.call → t ∈ (reply (stateAfter front) a).reported) ∧
        (Silent a.call → t.ticketId ∉ reportedIds (replay State.empty steps))
  /-- Nothing is handed out at its expiry or later. -/
  live : ∀ front a back, steps = front ++ a :: back →
    ∀ t, (reply (stateAfter front) a).handed = some t → a.now < t.expiresMs

theorem unreported_of_silent (schedule : Schedule (front ++ a :: back))
    (queued : t ∈ (stateAfter front).tickets.rows) (silent : Silent a.call)
    (gone : ∀ u, Stored (stateAfter (front ++ [a])) u → u.ticketId ≠ t.ticketId) :
    t.ticketId ∉ reportedIds (replay State.empty (front ++ a :: back)) := by
  have split : front ++ a :: back = front ++ [a] ++ back := by simp
  have quiet : (reply (stateAfter front) a).reported = [] := by
    obtain ⟨now, call⟩ := a
    cases call with
    | invalidateOwner cls owner => rfl
    | _ => exact silent.elim
  rw [split, replay_append, reportedIds_append, reportedIds_concat, quiet, List.map_nil,
    List.append_nil, List.mem_append, not_or]
  constructor
  · intro before
    exact (reported_gone schedule.earlier before).2 t (.inl queued) rfl
  · intro later
    obtain ⟨u, stored, named⟩ | drawn := reportedIds_known later
    · exact gone u stored named
    have drawn' : t.ticketId ∈ drawnIds (front ++ [a]) := by
      rw [drawnIds_append]
      exact List.mem_append_left _ (stored_drawn (.inl queued))
    exact (split ▸ schedule).not_again drawn' drawn

/-- **Over every run an expiry is reported once or, by an invalidation, not at all**, and
no ticket is handed out after it. -/
theorem expiry_observed (schedule : Schedule steps) : Observed steps where
  once := reportedIds_nodup schedule
  due front a back _ t reported := (reported_step reported).2
  removed := by
    rintro front a back rfl t queued late removed
    have apart : Apart (stateAfter front) := apart_after schedule.earlier
    have drawn := stored_drawn (.inl queued)
    have fresh : a.call.drawn ≠ some t.ticketId := fun again =>
      schedule.not_again drawn (mem_drawnIds.mpr ⟨a, by simp, again⟩)
    rw [stateAfter_concat] at removed
    obtain ⟨prunes, tells⟩ := expired_removed_step apart queued late fresh removed
    obtain ⟨retired, gone⟩ := retired_after schedule (.inl queued)
      fun u stored => gone_of_prunes apart prunes (.inl queued) late stored
    exact ⟨prunes, retired, tells, fun silent => unreported_of_silent schedule queued silent gone⟩
  live front a back _ t handed := (handed_step handed).2.1

end Runs

/-! ## Short-lived tickets -/

def oneSecond : AdmissionConfig := { queueItemTtlSecs := 1 }

/-- The first of two tickets expires and is swept. -/
def sweptRun : List (Step Unit) :=
  [enqueueAt 0 oneSecond 0, enqueueAt 500 oneSecond 1, ⟨1000, .sweepExpired ephemeral⟩,
    ⟨1400, .dequeueNext ephemeral⟩]

theorem expiry_observed_sweptRun : Observed sweptRun := expiry_observed ⟨by decide, by decide⟩

/-- The ids that the replies of some calls of a run report as expired. -/
def reportedBy (some_ : Call Unit → Bool) (steps : List (Step Unit)) : List Text :=
  reportedIds ((replay State.empty steps).filter fun entry => some_ entry.1.call)

def handedIds (steps : List (Step Unit)) : List Text :=
  (replay State.empty steps).filterMap fun entry => entry.2.handed.map QueuedSpawn.ticketId

def reporter : Call Unit → Bool
  | .dequeueNext _ | .sweepExpired _ => true
  | _ => false

/-- Every expired ticket that is removed is reported once by `dequeue_next` or
`sweep_expired`, by no other call, and has not been handed out. -/
def ReportedOnce (steps : List (Step Unit)) : Prop :=
  ∀ front a back, steps = front ++ a :: back → ∀ t ∈ (stateAfter front).tickets.rows,
    t.expiresMs ≤ a.now → t ∉ (stateAfter (front ++ [a])).tickets.rows →
      (reportedBy reporter steps).count t.ticketId = 1 ∧
        t.ticketId ∉ reportedBy (fun call => !reporter call) steps ∧
        t.ticketId ∉ handedIds steps

def firstTicket : QueuedSpawn Unit := ⟨uuid 0, ephemeral, 0, 0, 1000, none, ()⟩

def invalidatedRun : List (Step Unit) :=
  [enqueueAt 0 oneSecond 0, ⟨1000, .invalidateOwner ephemeral "turn".toList⟩]

def matchingRun : List (Step Unit) :=
  [enqueueAt 0 oneSecond 0, ⟨1000, .dequeueNextMatching ephemeral fun _ => true⟩]

def restoredRun : List (Step Unit) :=
  [enqueueAt 0 oneSecond 0, ⟨1, .dequeueNextMatching ephemeral fun _ => true⟩,
    ⟨2, .restoreDequeued firstTicket⟩, ⟨1000, .sweepExpired ephemeral⟩]

/-- An invalidation removes without a report, a matching dequeue reports as well, and what
was handed out and restored is reported when it expires. -/
theorem reportedOnce_fails : (Schedule invalidatedRun ∧ ¬ReportedOnce invalidatedRun) ∧
      (Schedule matchingRun ∧ ¬ReportedOnce matchingRun) ∧
      Schedule restoredRun ∧ ¬ReportedOnce restoredRun := by
  refine ⟨⟨⟨by decide, by decide⟩, fun claimed => ?_⟩, ⟨⟨by decide, by decide⟩, fun claimed => ?_⟩,
    ⟨by decide, by decide⟩, fun claimed => ?_⟩
  · have once := (claimed [_] _ [] rfl firstTicket (by decide) (by decide) (by decide)).1
    exact absurd once (by decide)
  · have once := (claimed [_] _ [] rfl firstTicket (by decide) (by decide) (by decide)).1
    exact absurd once (by decide)
  · have apart := (claimed [_, _, _] _ [] rfl firstTicket (by decide) (by decide)
      (by decide)).2.2
    exact apart (by decide)

end DuDuClaw.Admission
