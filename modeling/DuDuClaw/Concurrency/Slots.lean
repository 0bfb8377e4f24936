/-
# Concurrency.Slots -- runs of the checked lane

Acquisitions, renewals and releases by any holders, one after another under the file
lock, with what the system refuses to each.

* `within_step`: a call keeps every class within its cap.
* `not_live_step`: a call makes no lease live whose id it does not draw.
* `checked_lane_safe`: the cap holds at every instant of a run, a lease that is no longer
  live stays so, a released lease is not live, and a call that returns an error leaves the
  leases as they were.
-/
import DuDuClaw.Lib.Runs
import DuDuClaw.Concurrency.Gate

namespace DuDuClaw.Concurrency

open DuDuClaw.Lib

/-! ## The machine -/

inductive Call where
  | tryAcquire (uuid : Uuid) (cls : Text) (limit : Option UInt32) (ttlSecs : UInt64)
  | renew (lease : Lease) (ttlSecs : UInt64)
  | release (lease : Lease)

inductive Reply where
  | acquired (outcome : AcquireOutcome)
  | renewed (extended : Bool)
  | released (freed : Bool)

namespace Call

def perform (host : Host) : Call → Gate Reply
  | .tryAcquire uuid cls limit ttlSecs => do
    return .acquired (← tryAcquireChecked host uuid cls limit ttlSecs)
  | .renew lease ttlSecs => do return .renewed (← renewChecked host lease ttlSecs)
  | .release lease => do return .released (← releaseChecked host lease)

def uuid? : Call → Option Uuid
  | .tryAcquire uuid _ _ _ => some uuid
  | _ => none

end Call

structure Step where
  host : Host
  call : Call

def step (file : StateFile) (s : Step) : StateFile := after (s.call.perform s.host) file

theorem perform_clean (host : Host) (call : Call) : Clean (call.perform host) := by
  cases call with
  | tryAcquire uuid cls limit ttlSecs =>
    exact clean_bind_pure (tryAcquireChecked_clean host uuid cls limit ttlSecs) Reply.acquired
  | renew lease ttlSecs => exact clean_bind_pure (renewChecked_clean host lease ttlSecs) Reply.renewed
  | release lease => exact clean_bind_pure (releaseChecked_clean host lease) Reply.released

/-! ## Live leases -/

def Held (file : StateFile) (id : Text) : Prop := ∃ row ∈ file.rows, row.1 = id

def Live (file : StateFile) (id : Text) (now : Millis) : Prop :=
  ∃ row ∈ file.rows, row.1 = id ∧ now < row.2.expiresMs

/-- Every class has at most its cap of live leases; a class without one has none. -/
def Within (limits : Text → Option UInt32) (file : StateFile) (now : Millis) : Prop :=
  ∀ cls, State.countLive file.rows cls now ≤ ((limits cls).getD 0).toNat

theorem Within.later {limits : Text → Option UInt32} {file : StateFile} {now later : Millis}
    (within : Within limits file now) (order : now ≤ later) : Within limits file later := by
  intro cls
  refine Nat.le_trans (List.countP_mono_left fun row _ counted => ?_) (within cls)
  simp only [isLive, Bool.and_eq_true, decide_eq_true_eq] at counted ⊢
  exact ⟨counted.1, Int.lt_of_le_of_lt order counted.2⟩

theorem Live.earlier {file : StateFile} {id : Text} {now later : Millis}
    (live : Live file id later) (order : now ≤ later) : Live file id now := by
  obtain ⟨row, listed, named, unexpired⟩ := live
  exact ⟨row, listed, named, Int.lt_of_le_of_lt order unexpired⟩

/-! ## What one call does to the rows -/

/-- The four things a call can do to the leases. -/
theorem step_cases (file : StateFile) (s : Step) : (step file s).rows = file.rows ∨
      (∃ uuid cls cap ttlSecs state expiry, s.call = .tryAcquire uuid cls (some cap) ttlSecs ∧
        state.rows = file.rows ∧ State.countClass state cls s.host.now < cap ∧ s.host.now < expiry ∧
        (step file s).rows = ((State.pruneExpired state s.host.now).put
          (leaseId cls uuid, ⟨cls, expiry⟩)).rows) ∨
      (∃ id state record expiry, state.rows = file.rows ∧ State.get state id = some record ∧
        s.host.now < record.expiresMs ∧ s.host.now < expiry ∧
        (step file s).rows = (State.setExpiry state id expiry).rows) ∨
      ∃ lease id state record, s.call = .release lease ∧ lease.id = some id ∧
        state.rows = file.rows ∧ State.get state id = some record ∧
        (step file s).rows = (State.remove state id).rows := by
  rcases (perform_clean s.host s.call).after_cases file with same | ⟨reply, ran⟩
  · exact .inl (congrArg StateFile.rows same)
  change s.call.perform s.host file = .ok reply (step file s) at ran
  rcases called : s.call with ⟨uuid, cls, limit, ttlSecs⟩ | ⟨lease, ttlSecs⟩ | lease
  · rw [called, Call.perform, bind_returned] at ran
    obtain ⟨outcome, t, returned, last⟩ := ran
    obtain ⟨-, rfl⟩ := pure_returned.mp last
    obtain ⟨_, _, _, same⟩ | ⟨cap, state, expiry, rfl, rows, below, later, _, written⟩ :=
      tryAcquireChecked_cases returned
    · exact .inl (congrArg StateFile.rows same)
    · exact .inr (.inl ⟨uuid, cls, cap, ttlSecs, state, expiry, rfl, rows, below, later,
        congrArg StateFile.rows written⟩)
  · rw [called, Call.perform, bind_returned] at ran
    obtain ⟨renewed, t, returned, last⟩ := ran
    obtain ⟨-, rfl⟩ := pure_returned.mp last
    obtain ⟨_, same⟩ | ⟨id, state, record, expiry, _, rows, held, _, live, later, _, written⟩ :=
      renewChecked_cases returned
    · exact .inl (congrArg StateFile.rows same)
    · exact .inr (.inr (.inl ⟨id, state, record, expiry, rows, held, live, later,
        congrArg StateFile.rows written⟩))
  · rw [called, Call.perform, bind_returned] at ran
    obtain ⟨released, t, returned, last⟩ := ran
    obtain ⟨-, rfl⟩ := pure_returned.mp last
    obtain ⟨_, same⟩ | ⟨id, state, record, named, rows, held, _, _, written⟩ :=
      releaseChecked_cases returned
    · exact .inl (congrArg StateFile.rows same)
    · exact .inr (.inr (.inr ⟨lease, id, state, record, rfl, named, rows, held,
        congrArg StateFile.rows written⟩))

/-! ## The cap -/

theorem countLive_put {state : State} {row : Text × LeaseRec} {now : Millis} (cls : Text) :
    State.countLive ((State.pruneExpired state now).put row).rows cls now ≤
      State.countLive state.rows cls now + if row.2.cls = cls then 1 else 0 := by
  have kept : ((State.pruneExpired state now).rows.filter fun other => other.1 ≠ row.1).Sublist
      state.rows := List.filter_sublist.trans List.filter_sublist
  rw [State.countLive, Table.put, List.countP_append, List.countP_singleton]
  refine Nat.add_le_add kept.countP_le ?_
  by_cases same : row.2.cls = cls
  · rw [if_pos same]
    split <;> omega
  · have differ : (row.2.cls == cls) = false := beq_false_of_ne same
    rw [if_neg same, differ, Bool.false_and]
    exact Nat.le_refl 0

/-- A renewal neither adds nor drops a live lease at its instant. -/
theorem countLive_setExpiry {state : State} {id : Text} {record : LeaseRec} {now expiry : Millis}
    (held : State.get state id = some record) (live : now < record.expiresMs)
    (later : now < expiry) (cls : Text) : State.countLive (State.setExpiry state id expiry).rows cls now =
      State.countLive state.rows cls now := by
  rw [State.countLive, State.setExpiry, Table.update, List.countP_map]
  apply List.countP_congr
  intro row listed
  rw [Function.comp_apply]
  split
  · rename_i named
    have same : row.2 = record := State.get_of_mem held listed named
    simp [isLive, same, live, later]
  · rfl

/-- A call keeps every class within its cap. -/
theorem within_step {limits : Text → Option UInt32} {file : StateFile} {s : Step}
    (capped : ∀ uuid cls limit ttlSecs, s.call = .tryAcquire uuid cls limit ttlSecs → limit = limits cls)
    (within : Within limits file s.host.now) : Within limits (step file s) s.host.now := by
  intro cls
  have before := within cls
  obtain same | ⟨uuid, cls', cap, ttlSecs, state, expiry, called, rows, below, _, written⟩ |
    ⟨id, state, record, expiry, rows, held, live, later, written⟩ |
    ⟨_, id, state, _, _, _, rows, _, written⟩ := step_cases file s
  · rwa [same]
  · rw [← rows] at before
    rw [written]
    refine Nat.le_trans (countLive_put cls) ?_
    by_cases mine : cls' = cls
    · rw [if_pos mine]
      subst mine
      rw [← capped _ _ _ _ called, Option.getD_some] at before ⊢
      -- within its cap the count is below 2^32, so the cast keeps it
      have exact_ : (State.countClass state cls' s.host.now).toNat =
          State.countLive state.rows cls' s.host.now :=
        UInt32.toNat_ofNat_of_lt' (Nat.lt_of_le_of_lt before cap.toNat_lt)
      have room := UInt32.lt_iff_toNat_lt.mp below
      omega
    · rw [if_neg mine, Nat.add_zero]
      exact before
  · rw [written, countLive_setExpiry held live later, rows]
    exact before
  · rw [written]
    rw [← rows] at before
    exact Nat.le_trans List.filter_sublist.countP_le before

/-! ## Ids -/

/-- No call of the run draws the id. -/
def Undrawn (id : Text) (steps : List Step) : Prop :=
  ∀ s ∈ steps, ∀ uuid ∈ s.call.uuid?, ∀ cls, leaseId cls uuid ≠ id

/-- A call makes no lease live whose id it does not draw. -/
theorem not_live_step {file : StateFile} {id : Text} {s : Step} {now : Millis}
    (undrawn : Undrawn id [s]) (order : now ≤ s.host.now) (dead : ¬Live file id now) :
    ¬Live (step file s) id now := by
  rintro ⟨row, listed, named, unexpired⟩
  apply dead
  obtain same | ⟨uuid, cls, cap, ttlSecs, state, expiry, called, rows, _, _, written⟩ |
    ⟨id', state, record, expiry, rows, held, live, _, written⟩ |
    ⟨_, id', state, _, _, _, rows, _, written⟩ := step_cases file s
  · exact ⟨row, same ▸ listed, named, unexpired⟩
  · rw [written, Table.mem_put] at listed
    rcases listed with ⟨old, _⟩ | rfl
    · rw [State.pruneExpired, Table.mem_deleteWhere, rows] at old
      exact ⟨row, old.1, named, unexpired⟩
    · refine absurd named (undrawn s (List.mem_singleton_self s) uuid ?_ cls)
      rw [called]
      rfl
  · rw [written, State.setExpiry, Table.mem_update] at listed
    obtain ⟨old, listed, rfl⟩ := listed
    by_cases mine : old.1 = id'
    · -- a lease is renewed only while it is live
      have same : old.2 = record := State.get_of_mem held listed mine
      rw [if_pos mine] at named
      exact ⟨old, rows ▸ listed, named, same ▸ Int.lt_of_le_of_lt order live⟩
    · rw [if_neg mine] at named unexpired
      exact ⟨old, rows ▸ listed, named, unexpired⟩
  · rw [written, State.remove, Table.mem_deleteWhere, rows] at listed
    exact ⟨row, listed.1, named, unexpired⟩

/-! ## Runs -/

/-- A run by a clock that does not go back, with one cap for each class and UUIDs drawn
afresh. -/
structure Schedule (limits : Text → Option UInt32) (file : StateFile) (start : Millis)
    (steps : List Step) : Prop where
  clock : (start :: steps.map fun s => s.host.now).Pairwise (· ≤ ·)
  capped : ∀ s ∈ steps, ∀ uuid cls limit ttlSecs, s.call = .tryAcquire uuid cls limit ttlSecs →
    limit = limits cls
  distinct : (steps.filterMap fun s => s.call.uuid?).Nodup
  fresh : ∀ id, Held file id → Undrawn id steps

def lastClock (start : Millis) (steps : List Step) : Millis :=
  steps.foldl (fun _ s => s.host.now) start

theorem held_step {file : StateFile} {id : Text} {s : Step} (held : Held (step file s) id) :
    Held file id ∨ ∃ uuid ∈ s.call.uuid?, ∃ cls, leaseId cls uuid = id := by
  obtain ⟨row, listed, named⟩ := held
  obtain same | ⟨uuid, cls, cap, ttlSecs, state, expiry, called, rows, _, _, written⟩ |
    ⟨id', state, _, expiry, rows, _, _, _, written⟩ |
    ⟨_, id', state, _, _, _, rows, _, written⟩ := step_cases file s
  · exact .inl ⟨row, same ▸ listed, named⟩
  · rw [written, Table.mem_put] at listed
    rcases listed with ⟨old, _⟩ | rfl
    · rw [State.pruneExpired, Table.mem_deleteWhere, rows] at old
      exact .inl ⟨row, old.1, named⟩
    · exact .inr ⟨uuid, by rw [called]; rfl, cls, named⟩
  · rw [written, State.setExpiry, Table.mem_update] at listed
    obtain ⟨old, listed, rfl⟩ := listed
    refine .inl ⟨old, rows ▸ listed, ?_⟩
    rw [← named]
    split
    · rfl
    · rfl
  · rw [written, State.remove, Table.mem_deleteWhere, rows] at listed
    exact .inl ⟨row, listed.1, named⟩

namespace Schedule

variable {limits : Text → Option UInt32} {file : StateFile} {start : Millis}

theorem tail {s : Step} {rest : List Step} (schedule : Schedule limits file start (s :: rest)) :
    Schedule limits (step file s) s.host.now rest where
  clock := schedule.clock.of_cons
  capped t listed := schedule.capped t (List.mem_cons_of_mem s listed)
  distinct := by
    refine schedule.distinct.sublist ?_
    exact (List.sublist_cons_self s rest).filterMap _
  fresh := by
    intro id held t listed uuid drawn cls same
    obtain known | ⟨uuid', drawn', cls', same'⟩ := held_step held
    · exact schedule.fresh id known t (List.mem_cons_of_mem s listed) uuid drawn cls same
    -- both calls would have drawn the same UUID
    obtain rfl := leaseId_inj (same.trans same'.symm)
    have apart := schedule.distinct
    rw [List.filterMap_cons_some (f := fun s : Step => s.call.uuid?) drawn', List.nodup_cons] at apart
    exact apart.1 (List.mem_filterMap.mpr ⟨t, listed, drawn⟩)

theorem drop {front back : List Step} (schedule : Schedule limits file start (front ++ back)) :
    Schedule limits (run step file front) (lastClock start front) back := by
  induction front generalizing file start with
  | nil => exact schedule
  | cons s rest ih => exact ih schedule.tail

/-- No call of the run comes before its start. -/
theorem start_le {steps : List Step} (schedule : Schedule limits file start steps) {s : Step}
    (listed : s ∈ steps) : start ≤ s.host.now :=
  List.rel_of_pairwise_cons schedule.clock (List.mem_map_of_mem listed)

theorem take {front back : List Step} (schedule : Schedule limits file start (front ++ back)) :
    Schedule limits file start front where
  clock := by
    refine schedule.clock.sublist (.cons_cons start ?_)
    exact (List.sublist_append_left front back).map _
  capped s listed := schedule.capped s (List.mem_append_left back listed)
  distinct := schedule.distinct.sublist ((List.sublist_append_left front back).filterMap _)
  fresh id held s listed := schedule.fresh id held s (List.mem_append_left back listed)

/-- Every state of a run is within the caps. -/
theorem within {steps : List Step} (schedule : Schedule limits file start steps)
    (within : Within limits file start) : Within limits (run step file steps) (lastClock start steps) := by
  induction steps generalizing file start with
  | nil => exact within
  | cons s rest ih =>
    refine ih schedule.tail (within_step (schedule.capped s (List.mem_cons_self ..)) ?_)
    exact within.later (schedule.start_le (List.mem_cons_self ..))

end Schedule

theorem not_live_run {file : StateFile} {id : Text} {steps : List Step} {now : Millis}
    (undrawn : Undrawn id steps) (order : ∀ s ∈ steps, now ≤ s.host.now)
    (dead : ¬Live file id now) : ¬Live (run step file steps) id now := by
  induction steps generalizing file with
  | nil => exact dead
  | cons s rest ih =>
    refine ih (fun t listed => undrawn t (List.mem_cons_of_mem s listed))
      (fun t listed => order t (List.mem_cons_of_mem s listed)) ?_
    refine not_live_step (fun t listed => ?_) (order s (List.mem_cons_self ..)) dead
    rw [List.mem_singleton.mp listed]
    exact undrawn s (List.mem_cons_self ..)

theorem released_not_held {host : Host} {lease : Lease} {file file' : StateFile}
    (returned : (Call.release lease).perform host file = .ok (.released true) file') :
    ∃ id, lease.id = some id ∧ Held file id ∧ ¬Held file' id := by
  rw [Call.perform, bind_returned] at returned
  obtain ⟨released, t, ran, last⟩ := returned
  obtain ⟨yes, rfl⟩ := pure_returned.mp last
  obtain ⟨no, _⟩ | ⟨id, state, record, named, rows, held, _, _, rfl⟩ := releaseChecked_cases ran
  · rw [no] at yes
    cases yes
  refine ⟨id, named, ?_, ?_⟩
  · obtain ⟨found, search, -⟩ := Option.map_eq_some_iff.mp held
    refine ⟨found, rows ▸ List.mem_of_find?_eq_some search, ?_⟩
    simpa using List.find?_some search
  · rintro ⟨row, listed, same⟩
    simp only [StateFile.rows, State.remove, Table.mem_deleteWhere, beq_eq_false_iff_ne] at listed
    exact listed.2 same

/-- **The checked lane keeps its promises**: over every run, at every instant between two
calls, each class has at most its cap of live leases; a lease that the file held and that
is no longer live, having expired or been released, is live at no later instant; so is one
whose release succeeded; and a call that returns an error, in any state, leaves the file
as it was. -/
theorem checked_lane_safe {limits : Text → Option UInt32} {file : StateFile} {start : Millis}
    {steps : List Step} (schedule : Schedule limits file start steps) (within : Within limits file start) :
    (∀ front back, steps = front ++ back → ∀ now, lastClock start front ≤ now →
        Within limits (run step file front) now) ∧
      (∀ first second third rest, steps = first ++ second ++ third ++ rest → ∀ id now,
        Held (run step file first) id → ¬Live (run step file (first ++ second)) id now →
        (∀ s ∈ third, now ≤ s.host.now) →
        ∀ later, now ≤ later → ¬Live (run step file (first ++ second ++ third)) id later) ∧
      (∀ front host lease middle rest file', steps = front ++ ⟨host, .release lease⟩ :: (middle ++ rest) →
        (Call.release lease).perform host (run step file front) = .ok (.released true) file' →
        ∃ id, lease.id = some id ∧ Held (run step file front) id ∧ ∀ later, host.now ≤ later →
          ¬Live (run step file (front ++ ⟨host, .release lease⟩ :: middle)) id later) ∧
      ∀ (before : StateFile) (s : Step) e file', s.call.perform s.host before = .error e file' →
        file' = before := by
  refine ⟨?_, ?_, ?_, ?_⟩
  · rintro front back rfl now order
    exact (schedule.take.within within).later order
  · rintro first second third rest rfl id now held dead order later after
    have undrawn : Undrawn id third := by
      intro s listed
      rw [List.append_assoc, List.append_assoc] at schedule
      refine schedule.drop.fresh id held s ?_
      exact List.mem_append_right second (List.mem_append_left rest listed)
    rw [run_append]
    intro live
    exact not_live_run undrawn order dead (live.earlier after)
  · rintro front host lease middle rest file' rfl returned
    obtain ⟨id, named, held, gone⟩ := released_not_held returned
    refine ⟨id, named, held, fun later after live => ?_⟩
    have freed : step (run step file front) ⟨host, .release lease⟩ = file' := by
      rw [step, DuDuClaw.Lib.after, returned]
    rw [run_append, run_cons, freed] at live
    have ahead := schedule.drop
    refine not_live_run ?_ ?_ ?_ (live.earlier after)
    · intro s listed
      exact ahead.fresh id held s (List.mem_cons_of_mem _ (List.mem_append_left rest listed))
    · intro s listed
      exact ahead.tail.start_le (List.mem_append_left rest listed)
    · rintro ⟨row, listed, same, _⟩
      exact gone ⟨row, listed, same⟩
  · intro before s e file' refused
    exact perform_clean s.host s.call before e file' refused

/-! ## A run -/

def goal : Text := "goal".toList

def uuidOf (c : Char) : Uuid := ⟨List.replicate 36 c, List.length_replicate⟩

def oneGoal (cls : Text) : Option UInt32 := if cls = goal then some 1 else none

/-- Two holders of a class with one slot: the second gets it after the release. -/
def handover : List Step :=
  let held : Lease := ⟨some (leaseId goal (uuidOf 'a')), goal⟩
  [⟨⟨0, none, none, none⟩, .tryAcquire (uuidOf 'a') goal (some 1) 60⟩,
    ⟨⟨500, none, none, none⟩, .tryAcquire (uuidOf 'b') goal (some 1) 60⟩,
    ⟨⟨900, none, none, none⟩, .renew held 60⟩,
    ⟨⟨1000, none, none, some (.other 28)⟩, .release held⟩,
    ⟨⟨2000, none, none, none⟩, .release held⟩,
    ⟨⟨2000, none, none, none⟩, .tryAcquire (uuidOf 'c') goal (some 1) 60⟩]

theorem handover_scheduled : Schedule oneGoal .missing 0 handover where
  clock := by decide
  capped := by
    intro s listed uuid cls limit ttlSecs called
    simp only [handover, List.mem_cons, List.not_mem_nil, or_false] at listed
    rcases listed with rfl | rfl | rfl | rfl | rfl | rfl <;> cases called <;> rfl
  distinct := by decide
  fresh := by
    rintro id ⟨row, listed, -⟩
    cases listed

set_option maxRecDepth 20000 in
theorem checked_lane_handover : Within oneGoal (run step .missing handover) 2000 ∧
      ¬Live (run step .missing handover) (leaseId goal (uuidOf 'a')) 2000 := by
  obtain ⟨caps, -, releases, -⟩ := checked_lane_safe handover_scheduled fun _ => Nat.zero_le _
  refine ⟨caps handover [] rfl 2000 (Int.le_refl 2000), ?_⟩
  obtain ⟨id, named, -, gone⟩ := releases (handover.take 4) ⟨2000, none, none, none⟩
    ⟨some (leaseId goal (uuidOf 'a')), goal⟩ (handover.drop 5) [] _ rfl rfl
  cases named
  exact gone 2000 (Int.le_refl 2000)

end DuDuClaw.Concurrency
