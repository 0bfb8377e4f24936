/-
# Knowledge.JobRuns -- one job at a time

Runs of the operations on sources and jobs, from tables without a source.

* `claims_le_budget`: a job has a budget of claims that every claim uses up.
* `settled_step`: a job that is over stays over.
* `oneJob_step`: a step keeps one job at a time exactly when it is no reindex request for a
  source that has one.
* `oneJobAtATime_iff`: the same for runs, with the laws that need no condition.
-/
import DuDuClaw.Knowledge.Jobs
import DuDuClaw.Lib.Runs

namespace DuDuClaw.Knowledge.Jobs

open DuDuClaw.Lib

section OneStep

variable {s s' : Store} {e : Event}

variable {id : Nat} {j j' : Job}

theorem sound_start (collections : List Text) : Sound (.start collections) := by
  constructor <;> simp [Store.start, Table.empty]

theorem sound_stepped (sound : Sound s) (stepped : Stepped s e s') : Sound s' := by
  obtain ⟨ids, refs, queued, running⟩ := sound
  cases stepped with
  | edit same lastJob rows =>
    refine ⟨fun j' listed => ?_, fun j' listed => ?_, fun j' listed state => ?_,
      fun j' listed state => ?_⟩ <;> obtain ⟨j, before, id, source, moves⟩ := rows j' listed
    · rw [id, lastJob]
      exact ids j before
    · rw [source, same]
      exact refs j before
    · obtain ⟨-, -, now_, -⟩ | ⟨-, count, kept | ⟨-, stopped⟩ | ⟨-, -, room⟩⟩ := moves
      · simp [now_] at state
      · rw [count]
        exact queued j before (kept ▸ state)
      · simp [state, JobState.active] at stopped
      · omega
    · obtain ⟨-, was, -, count⟩ | ⟨-, count, kept | ⟨-, stopped⟩ | ⟨-, back, -⟩⟩ := moves
      · have := queued j before was
        omega
      · rw [count]
        exact running j before (kept ▸ state)
      · simp [state, JobState.active] at stopped
      · simp [back] at state
  | enqueue job idle known here lastJob fresh state attempts free rows =>
    refine ⟨fun j listed => ?_, fun j listed => ?_, fun j listed => ?_, fun j listed => ?_⟩ <;>
      rw [rows, List.mem_append, List.mem_singleton] at listed <;>
      obtain before | rfl := listed
    · have := ids j before
      omega
    · omega
    · exact known _ (refs j before)
    · exact here
    · exact queued j before
    · exact fun _ => by rw [attempts]; decide
    · exact running j before
    · exact fun _ => by rw [attempts]; decide
  | delete gone idle known lastJob rows =>
    refine ⟨fun j listed => ?_, fun j listed => ?_, fun j listed => ?_, fun j listed => ?_⟩ <;>
      obtain ⟨apart, before⟩ := rows j listed
    · rw [lastJob]
      exact ids j before
    · exact known _ (refs j before) apart
    · exact queued j before
    · exact running j before

theorem sound_step (sound : Sound s) (e : Event) : Sound (step s e) :=
  sound_stepped sound (stepped sound e)

/-! ## Claims -/

/-- How often a job may still be claimed. -/
def budget (s : Store) (id : Nat) : Nat :=
  match s.jobs.rows.find? (·.id == id) with
  | some j => if j.state.active then MAX_ATTEMPTS - j.attempts else 0
  | none => if id ≤ s.lastJob then 0 else MAX_ATTEMPTS

/-- How often a job is claimed in a run. -/
def claims : Store → List Event → Nat → Nat
  | _, [], _ => 0
  | s, e :: rest, id => (if claimedBy s e = some id then 1 else 0) + claims (step s e) rest id

/-- The job is over: done, failed, cancelled or gone with its source. -/
def Settled (s : Store) (id : Nat) : Prop :=
  id ≤ s.lastJob ∧ ∀ j ∈ s.jobs.rows, j.id = id → j.state.active = false

theorem claimedBy_mem (claimed : claimedBy s e = some id) :
    ∃ j ∈ s.jobs.rows, j.id = id ∧ j.state = .queued := by
  cases e <;> first | exact oldestQueued_mem claimed | cases claimed

theorem budget_of_mem (listed : j ∈ s.jobs.rows) :
    budget s j.id = if j.state.active then MAX_ATTEMPTS - j.attempts else 0 := by
  unfold budget
  rw [s.jobs.find?_key listed]

theorem budget_of_none (gone : ∀ j ∈ s.jobs.rows, j.id ≠ id) :
    budget s id = if id ≤ s.lastJob then 0 else MAX_ATTEMPTS := by
  unfold budget
  rw [List.find?_eq_none.mpr fun j listed => by simpa using gone j listed]

/-- An id that no job has any more is used up, and one that none had yet is not. -/
theorem budget_gone_le (sound : Sound s) (gone : ∀ j ∈ s'.jobs.rows, j.id ≠ id)
    (lastJob : s.lastJob ≤ s'.lastJob) : budget s' id ≤ budget s id := by
  rw [budget_of_none gone]
  split
  · exact Nat.zero_le _
  rename_i beyond
  have never : ∀ j ∈ s.jobs.rows, j.id ≠ id := by
    rintro j listed rfl
    have := sound.ids j listed
    omega
  rw [budget_of_none never, if_neg (by omega)]

theorem budget_follows (sound : Sound s) (listed : j ∈ s.jobs.rows)
    (listed' : j' ∈ s'.jobs.rows) (follows : Follows (claimedBy s e) j j') :
    (if claimedBy s e = some j.id then 1 else 0) + budget s' j.id ≤ budget s j.id := by
  obtain ⟨id, -, moves⟩ := follows
  have later := budget_of_mem listed'
  rw [id] at later
  rw [later, budget_of_mem listed]
  obtain ⟨claimed, was, now_, count⟩ | ⟨free, count, kept | ⟨-, stopped⟩ | ⟨was, back, -⟩⟩ := moves
  · have room := sound.queued j listed was
    rw [if_pos claimed, was, now_, count]
    simp only [JobState.active]
    simp
    omega
  · rw [if_neg free, kept, count, Nat.zero_add]
  · rw [if_neg free, stopped]
    simp
  · rw [if_neg free, was, back, count, Nat.zero_add]
    simp [JobState.active]

theorem lastJob_le (stepped : Stepped s e s') : s.lastJob ≤ s'.lastJob := by
  cases stepped with
  | edit ids lastJob rows | delete gone idle ids lastJob rows => exact lastJob.ge
  | enqueue job idle ids known lastJob => omega

/-- A claim uses up one of the job's claims, and no step gives one back. -/
theorem budget_step (sound : Sound s) (e : Event) (id : Nat) :
    (if claimedBy s e = some id then 1 else 0) + budget (step s e) id ≤ budget s id := by
  have stepped := stepped sound e
  generalize step s e = s' at stepped ⊢
  by_cases there : ∃ j' ∈ s'.jobs.rows, j'.id = id
  · obtain ⟨j', listed', rfl⟩ := there
    cases stepped with
    | edit ids lastJob rows =>
      obtain ⟨j, listed, follows⟩ := rows j' listed'
      rw [follows.id]
      exact budget_follows sound listed listed' follows
    | enqueue job idle ids known lastJob fresh queued attempts free rows =>
      rw [idle, if_neg (by simp), Nat.zero_add]
      rw [rows, List.mem_append, List.mem_singleton] at listed'
      obtain before | rfl := listed'
      · rw [budget_of_mem before, budget_of_mem (rows ▸ List.mem_append_left _ before)]
      have never : ∀ j ∈ s.jobs.rows, j.id ≠ j'.id := by
        intro j listed same
        have := sound.ids j listed
        omega
      rw [budget_of_none never, if_neg (by omega),
        budget_of_mem (rows ▸ List.mem_append_right _ (List.mem_singleton_self _)), attempts]
      split <;> omega
    | delete gone idle ids lastJob rows =>
      rw [idle, if_neg (by simp), Nat.zero_add, budget_of_mem listed', budget_of_mem (rows j' listed').2]
  · have gone : ∀ j' ∈ s'.jobs.rows, j'.id ≠ id := fun j' listed same => there ⟨j', listed, same⟩
    have lastJob := lastJob_le stepped
    split
    · rename_i claimed
      obtain ⟨j, listed, rfl, queued⟩ := claimedBy_mem claimed
      have known := sound.ids j listed
      have room := sound.queued j listed queued
      rw [budget_of_none gone, if_pos (by omega), budget_of_mem listed, queued]
      simp only [JobState.active, beq_self_eq_true, Bool.true_or, if_true]
      omega
    · rw [Nat.zero_add]
      exact budget_gone_le sound gone lastJob

theorem claims_le_budget (sound : Sound s) (events : List Event) (id : Nat) :
    claims s events id ≤ budget s id := by
  induction events generalizing s with
  | nil => exact Nat.zero_le _
  | cons e rest ih =>
    have here := budget_step sound e id
    have later := ih (sound_step sound e)
    unfold claims
    omega

/-! ## Jobs that are over -/

theorem settled_of_mem (sound : Sound s) (listed : j ∈ s.jobs.rows)
    (ended : j.state.active = false) : Settled s j.id := by
  refine ⟨sound.ids j listed, fun k there same => ?_⟩
  rwa [s.jobs.unique there listed same]

theorem settled_step (sound : Sound s) (settled : Settled s id) (e : Event) : Settled (step s e) id := by
  have stepped := stepped sound e
  generalize step s e = s' at stepped ⊢
  obtain ⟨known, ended⟩ := settled
  refine ⟨Nat.le_trans known (lastJob_le stepped), fun j' listed same => ?_⟩
  cases stepped with
  | edit ids lastJob rows =>
    obtain ⟨j, before, id', -, moves⟩ := rows j' listed
    have still := ended j before (id'.symm.trans same)
    obtain ⟨-, was, -⟩ | ⟨-, -, kept | ⟨was, -⟩ | ⟨was, -⟩⟩ := moves
    · simp [was, JobState.active] at still
    · rw [kept, still]
    · simp [was, JobState.active] at still
    · simp [was, JobState.active] at still
  | enqueue job idle ids here lastJob fresh queued attempts free rows =>
    rw [rows, List.mem_append, List.mem_singleton] at listed
    obtain before | rfl := listed
    · exact ended j' before same
    · omega
  | delete gone idle ids lastJob rows => exact ended j' (rows j' listed).2 same

theorem not_claimed_of_settled (settled : Settled s id) : claimedBy s e ≠ some id := by
  intro claimed
  obtain ⟨j, listed, same, queued⟩ := claimedBy_mem claimed
  have ended := settled.2 j listed same
  simp [queued, JobState.active] at ended

/-! ## One at a time -/

/-- At most one job of a source is queued or running. -/
def OneJob (s : Store) : Prop :=
  ∀ j ∈ s.jobs.rows, ∀ k ∈ s.jobs.rows, j.state.active → k.state.active →
    j.sourceId = k.sourceId → j = k

/-- No reindex request that passes its test finds a job of its source queued or running. -/
def Idle (s : Store) : Event → Prop
  | .requestReindex id _ =>
    ∀ source ∈ s.find id, reindexable source.status = .ok () → busy id s = false
  | _ => True

theorem busy_false {id : Text} : busy id s = false ↔ ∀ j ∈ s.jobs.rows, j.state.active → j.sourceId ≠ id := by
  rw [busy, List.any_eq_false]
  refine forall₂_congr fun j _ => ?_
  cases j.state.active <;> simp

theorem active_before {claimed : Option Nat} (follows : Follows claimed j j')
    (active : j'.state.active) : j.state.active := by
  obtain ⟨-, was, -⟩ | ⟨-, -, kept | ⟨-, stopped⟩ | ⟨was, -⟩⟩ := follows.moves
  · rw [was]
    rfl
  · rwa [← kept]
  · simp [active] at stopped
  · rw [was]
    rfl

theorem oneJob_of_idle (sound : Sound s) (one : OneJob s) (idle : Idle s e) : OneJob (step s e) := by
  have stepped := stepped sound e
  generalize step s e = s' at stepped ⊢
  intro j' left k' right active active' same
  cases stepped with
  | edit ids lastJob rows =>
    obtain ⟨j, before, follows⟩ := rows j' left
    obtain ⟨k, before', follows'⟩ := rows k' right
    have joined := one j before k before' (active_before follows active)
      (active_before follows' active') (follows.source.symm.trans (same.trans follows'.source))
    exact s'.jobs.unique left right (follows.id.trans (joined ▸ follows'.id.symm))
  | enqueue job quiet ids known lastJob fresh queued attempts free rows =>
    have unbusy : busy job.sourceId s = false := by
      obtain free | ⟨now, rfl, source, found, passes⟩ := free
      · exact free
      · exact idle source found passes
    rw [busy_false] at unbusy
    rw [rows, List.mem_append, List.mem_singleton] at left right
    obtain before | rfl := left <;> obtain before' | rfl := right
    · exact one j' before k' before' active active' same
    · exact absurd same (unbusy j' before active)
    · exact absurd same.symm (unbusy k' before' active')
    · rfl
  | delete gone quiet ids lastJob rows =>
    exact one j' (rows j' left).2 k' (rows k' right).2 active active' same

theorem requestReindex_queues (sound : Sound s) {id : Text} {source : Source}
    (found : s.find id = some source) (passes : reindexable source.status = .ok ()) (now : Millis) :
    ∃ job : Job, job.id = s.lastJob + 1 ∧ job.sourceId = id ∧ job.state = .queued ∧
      (step s (.requestReindex id now)).jobs.rows = s.jobs.rows ++ [job] := by
  let kind := if source.status = .failed then JobKind.ingest else .reindex
  let mid := if kind = .ingest then
    s.editSources (·.id == id)
      (fun r => { r with status := .queued, errorCode := none, errorMessage := none, updatedAt := now })
      fun _ => rfl
    else s
  have same : mid.sources.rows.map Source.id = s.sources.rows.map Source.id ∧ mid.jobs = s.jobs ∧
      mid.lastJob = s.lastJob := by
    unfold mid
    split
    · exact ⟨by simp, rfl, rfl⟩
    · exact ⟨rfl, rfl, rfl⟩
  obtain ⟨ids, jobs, lastJob⟩ := same
  obtain ⟨listed, named⟩ := find_some found
  have known : id ∈ mid.sources.rows.map Source.id := by
    rw [ids, ← named]
    exact List.mem_map_of_mem listed
  obtain ⟨s', wrote⟩ := enqueueTx_succeeds kind now known (by rw [jobs, lastJob]; exact sound.ids)
  obtain ⟨-, -, -, job, fresh, own, queued, -, rows⟩ := enqueueTx_cases wrote
  have ran : requestReindex id now s = .ok () s' := by
    rw [requestReindex, transaction_returned]
    refine query_bind.mpr ⟨source, okOr_ok.mpr found, query_bind.mpr ⟨(), passes, ?_⟩⟩
    exact execute_bind.mpr ⟨mid, rfl, execute_returned.mpr wrote⟩
  refine ⟨job, lastJob ▸ fresh, own, queued, ?_⟩
  simp only [step, after, ran]
  rw [rows, jobs]

theorem idle_of_oneJob (sound : Sound s) (one : OneJob (step s e)) : Idle s e := by
  cases e with
  | requestReindex id now =>
    intro source found passes
    obtain ⟨job, fresh, own, queued, rows⟩ := requestReindex_queues sound found passes now
    rw [busy_false]
    rintro j listed active rfl
    have same := one j (rows ▸ List.mem_append_left _ listed) job
      (rows ▸ List.mem_append_right _ (List.mem_singleton_self _)) active (by rw [queued]; rfl) own.symm
    have := sound.ids j listed
    rw [same] at this
    omega
  | _ => trivial

theorem oneJob_step (s : Store) (e : Event) (holds : Sound s ∧ OneJob s) :
    Sound (step s e) ∧ OneJob (step s e) ↔ Idle s e :=
  ⟨fun both => idle_of_oneJob holds.1 both.2,
    fun idle => ⟨sound_step holds.1 e, oneJob_of_idle holds.1 holds.2 idle⟩⟩

end OneStep

/-! ## Runs -/

structure OneJobAtATime (s : Store) (events : List Event) : Prop where
  one : ∀ front back, events = front ++ back → OneJob (run step s front)
  attempts : ∀ id, claims s events id ≤ MAX_ATTEMPTS
  final : ∀ front back, events = front ++ back → ∀ j ∈ (run step s front).jobs.rows,
    j.state.active = false →
      (∀ k ∈ (run step s events).jobs.rows, k.id = j.id → k.state.active = false) ∧
      claims (run step s front) back j.id = 0

section Runs

variable {s : Store}

theorem sound_run (sound : Sound s) (events : List Event) : Sound (run step s events) :=
  run_invariant Sound (fun _ e sound _ => sound_step sound e) sound (obeys_true s events)

theorem settled_run {id : Nat} (sound : Sound s) (settled : Settled s id) (events : List Event) :
    Settled (run step s events) id ∧ claims s events id = 0 := by
  induction events generalizing s with
  | nil => exact ⟨settled, rfl⟩
  | cons e rest ih =>
    obtain ⟨last, none_⟩ := ih (sound_step sound e) (settled_step sound settled e)
    refine ⟨last, ?_⟩
    rw [claims, if_neg (not_claimed_of_settled settled), none_]

end Runs

/-- A run has one job at a time exactly when every reindex request that passes its test finds
no job of its source queued or running; the other two laws hold in any case. -/
theorem oneJobAtATime_iff (collections : List Text) (events : List Event) :
    OneJobAtATime (.start collections) events ↔ Obeys step Idle (.start collections) events := by
  have sound := sound_start collections
  have empty : OneJob (.start collections) := by
    intro j listed
    simp [Store.start, Table.empty] at listed
  rw [← run_always_iff (fun s => Sound s ∧ OneJob s) (fun s e holds => oneJob_step s e holds)
    ⟨sound, empty⟩]
  constructor
  · exact fun laws front back split => ⟨sound_run sound front, laws.one front back split⟩
  · refine fun always => ⟨fun front back split => (always front back split).2, fun id => ?_, ?_⟩
    · refine Nat.le_trans (claims_le_budget sound events id) ?_
      rw [budget_of_none (by simp [Store.start, Table.empty])]
      split
      · exact Nat.zero_le _
      · exact Nat.le_refl _
    · rintro front back rfl j listed ended
      have sound' := sound_run sound front
      obtain ⟨last, none_⟩ := settled_run sound' (settled_of_mem sound' listed ended) back
      rw [run_append]
      exact ⟨last.2, none_⟩

/-- An indexed source whose reindex is requested twice. -/
def reindexTwice : List Event :=
  [.addSource ⟨"c".toList, "b".toList, 1⟩ ⟨9, 9, 9, 9, 9⟩ "1".toList 0, .claimNext 600 1,
    .writeIndex "src_1".toList 1 ⟨9, 9, 9, 9, 9⟩ 2, .complete 1 3,
    .requestReindex "src_1".toList 4, .requestReindex "src_1".toList 5]

theorem reindexTwice_queued : ¬OneJobAtATime (.start ["c".toList]) reindexTwice := by
  intro laws
  have one := laws.one reindexTwice [] (by simp)
  revert one
  unfold OneJob
  decide

end DuDuClaw.Knowledge.Jobs
