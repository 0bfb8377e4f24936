/-
# Responsibility.FireKeys -- one fact for a key, while the retention keeps it

The row of a fact is what stops a second one with its key; the retention removes the row
30 days after the fact was settled.

* `Accepts`: the call records a new fact for a responsibility and a key.
* `perform_held`, `run_held`: the row of an accepted fact stays, or the retention took it.
* `accepted_again`: a key is accepted again only after the retention.
* `key_accepted_twice`: and then it is.
-/
import DuDuClaw.Responsibility.Effects

namespace DuDuClaw.Responsibility

open DuDuClaw.Lib
open DuDuClaw.TaskStore (Text Id InsertEnv InsertError NewTask StoreOp)

variable {env : InsertEnv} {s t : RespStore} {responsibilityId : Id} {fireKey : Text}

/-- The call records a new fact for this responsibility, under this key. -/
def RespStore.Accepts (env : InsertEnv) (s : RespStore) (responsibilityId : Id) (fireKey : Text) :
    Operation → Prop
  | .recordFire fireId fire advance now =>
    fire.fireKey = fireKey ∧
      (∃ wakeup ∈ s.wakeups.rows,
        wakeup.wakeupId = fire.wakeupId ∧ wakeup.responsibilityId = responsibilityId) ∧
      ∃ t, s.recordFire env fireId fire advance now = .ok (true, t)
  | _ => False

/-- The fact of an accepted call at `early`; it is settled no earlier. -/
structure FireRow.Since (early : Instant) (fireId responsibilityId : Id) (fireKey : Text)
    (fire : FireRow) : Prop where
  fireId : fire.fireId = fireId
  responsibilityId : fire.responsibilityId = responsibilityId
  fireKey : fire.fireKey = fireKey
  settled : fire.state = .pending ∨ ∃ at_, fire.settledAt = some at_ ∧ respTs early ≤ at_

/-- The retention may take the fact at `late`. -/
def FireRow.Outlived (late : Instant) (fire : FireRow) : Prop :=
  fire.state ≠ .pending ∧ ∃ at_, fire.settledAt = some at_ ∧ at_ < respTs (late - fireRetention)

variable {late early : Instant} {fire : FireRow} {fireId : Id} {op : Operation} {front : List Operation}

theorem FireRow.outlived_of_prunable {now : Instant}
    (prunable : fire.prunable now = true) (le : now ≤ late) : fire.Outlived late := by
  simp only [FireRow.prunable, Bool.and_eq_true, bne_iff_ne, Option.any_eq_true, decide_eq_true_eq] at prunable
  obtain ⟨settled, at_, isAt, old⟩ := prunable
  exact ⟨settled, at_, isAt, old.trans_le (respTs_le_respTs (Int.sub_le_sub_right le _))⟩

theorem FireRow.Since.outlived
    (since : fire.Since early fireId responsibilityId fireKey) (outlived : fire.Outlived late) :
    early + fireRetention < late := by
  obtain ⟨settled, at_, isAt, old⟩ := outlived
  rcases since.settled with pending | ⟨other, isOther, le⟩
  · exact absurd pending settled
  obtain rfl : at_ = other := Option.some.inj (isAt.symm.trans isOther)
  by_contra short
  have ordered : respTs (late - fireRetention) ≤ respTs early :=
    respTs_le_respTs (Int.sub_right_le_of_le_add (not_lt.mp short))
  exact absurd (le.trans_lt old) (not_lt.mpr ordered)

theorem FireRow.Since.moves {now : Option Instant}
    {fire' : FireRow} (since : fire.Since early fireId responsibilityId fireKey)
    (later : ∀ instant, now = some instant → early ≤ instant) (moves : fire.Moves now fire') :
    fire'.Since early fireId responsibilityId fireKey := by
  rcases moves with rfl | ⟨-, instant, how, isNow, rfl⟩
  · exact since
  have stamp : ∃ at_, (fire.settle how (respTs instant)).settledAt = some at_ ∧ respTs early ≤ at_ := by
    refine ⟨respTs instant, ?_, respTs_le_respTs (later instant isNow)⟩
    cases how <;> rfl
  refine ⟨?_, ?_, ?_, .inr stamp⟩
  · rw [← since.fireId]
    cases how <;> rfl
  · rw [← since.responsibilityId]
    cases how <;> rfl
  · rw [← since.fireKey]
    cases how <;> rfl

/-! ## Steps and runs -/

def RespStore.Held (s : RespStore) (early : Instant) (fireId responsibilityId : Id)
    (fireKey : Text) : Prop :=
  ∃ fire ∈ s.fires.rows, fire.Since early fireId responsibilityId fireKey

/-- The row is there, and it may be taken at `late`. -/
def RespStore.Fading (s : RespStore) (early late : Instant) (fireId responsibilityId : Id)
    (fireKey : Text) : Prop :=
  ∃ fire ∈ s.fires.rows, fire.Since early fireId responsibilityId fireKey ∧ fire.Outlived late

/-- **One operation** leaves the row of the fact, or finds that the retention may take it. -/
theorem perform_held (env : InsertEnv) (held : s.Held early fireId responsibilityId fireKey)
    (later : ∀ now, op.now = some now → early ≤ now ∧ now ≤ late) :
    (op.perform env s).Held early fireId responsibilityId fireKey ∨
      s.Fading early late fireId responsibilityId fireKey := by
  obtain ⟨fire, listed, since⟩ := held
  have moved : ∀ {fires : Indexed FireRow.keys}, s.fires.MapsBy (FireRow.Moves op.now) fires →
      ∃ fire' ∈ fires.rows, fire'.Since early fireId responsibilityId fireKey := by
    intro fires moves
    obtain ⟨fire', listed', moved⟩ := moves.forth listed
    exact ⟨fire', listed', since.moves (fun now isNow => (later now isNow).1) moved⟩
  have kept : (op.perform env s).fires = s.fires →
      (op.perform env s).Held early fireId responsibilityId fireKey := by
    intro same
    exact ⟨fire, same ▸ listed, since⟩
  cases perform_effect env s op with
  | quiet only => exact .inl (kept only.fires)
  | inserted checks free rows fires occurrences => exact .inl (kept fires)
  | edited runs edited => exact .inl (moved edited.fires)
  | expired expired => exact .inl (moved expired.fires)
  | settledFires responsibilities fires occurrences => exact .inl (moved fires)
  | settled named settled => exact .inl (kept settled.fires)
  | recorded returned recorded =>
    obtain ⟨gone, prunable, cases⟩ := recorded.fires
    by_cases isGone : gone fire = true
    · right
      refine ⟨fire, listed, since, ?_⟩
      exact FireRow.outlived_of_prunable (prunable fire listed isGone) (later _ rfl).2
    left
    have stays : fire ∈ s.fires.rows.filter fun f => !gone f :=
      List.mem_filter.mpr ⟨listed, by simpa using isGone⟩
    refine ⟨fire, ?_, since⟩
    rcases cases with ⟨-, rows⟩ | ⟨-, row, rows, -⟩
    · rw [rows]
      exact stays
    · rw [rows]
      exact List.mem_append_left _ stays
  | created created =>
    obtain ⟨fire', listed', change⟩ := created.fires.forth listed
    refine .inl ⟨fire', listed', since.moves (fun now isNow => (later now isNow).1) ?_⟩
    rcases change with ⟨same, -⟩ | ⟨pending, same | ⟨-, same⟩⟩
    · exact .inl same
    · exact .inr ⟨pending, _, _, rfl, same⟩
    · exact .inr ⟨pending, _, _, rfl, same⟩

/-- **A run** leaves the row of the fact, or comes to a state in which the retention may take
it. -/
theorem run_held (env : InsertEnv) {ops : List Operation} (held : s.Held early fireId responsibilityId fireKey)
    (later : ∀ op ∈ ops, ∀ now, op.now = some now → early ≤ now ∧ now ≤ late) :
    (run (Operation.perform env) s ops).Held early fireId responsibilityId fireKey ∨
      ∃ sofar rest, ops = sofar ++ rest ∧ (run (Operation.perform env) s sofar).Fading early late
        fireId responsibilityId fireKey := by
  induction ops generalizing s with
  | nil => exact .inl held
  | cons op rest ih =>
    rcases perform_held env held (later op (List.mem_cons_self ..)) with still | fading
    · rcases ih still fun other listed => later other (List.mem_cons_of_mem op listed) with
        last | ⟨sofar, more, split, fading⟩
      · exact .inl last
      · exact .inr ⟨op :: sofar, more, congrArg (List.cons op) split, fading⟩
    · exact .inr ⟨[], op :: rest, rfl, fading⟩

/-! ## Acceptance -/

/-- What an accepted call does to the facts: some that the retention may take are gone, and
there is a new one. -/
theorem RespStore.Accepts.written (accepted : s.Accepts env responsibilityId fireKey op) :
    ∃ fireId fire advance now, op = .recordFire fireId fire advance now ∧
      ∃ (gone : FireRow → Bool) (row : FireRow), (∀ f ∈ s.fires.rows, gone f = true → f.prunable now = true) ∧
        (op.perform env s).fires.rows = s.fires.rows.filter (fun f => !gone f) ++ [row] ∧
        row.Since now fireId responsibilityId fireKey := by
  cases op with
  | recordFire fireId fire advance now =>
    obtain ⟨isKey, ⟨wakeup, isWakeup, named, owner⟩, after, returned⟩ := accepted
    refine ⟨fireId, fire, advance, now, rfl, ?_⟩
    rw [Operation.perform, returned]
    obtain ⟨gone, prunable, ⟨isFalse, -⟩ | ⟨-, row, rows, isNew, key, -, stamped, -, other, isOther,
      sameId, ofOther⟩⟩ := (recordFire_recorded returned).fires
    · cases isFalse
    have sameWakeup : other = wakeup :=
      s.wakeup_unique isOther isWakeup (sameId.trans named.symm)
    refine ⟨gone, row, prunable, rows, isNew, ?_, key.trans isKey, ?_⟩
    · rw [← ofOther, sameWakeup, owner]
    · rcases stamped with pending | settled
      · exact .inl pending
      · exact .inr ⟨_, settled, Int.le_refl _⟩
  | _ => exact absurd accepted id

theorem RespStore.Accepts.held (accepted : s.Accepts env responsibilityId fireKey op) :
    ∃ fireId fire advance early, op = .recordFire fireId fire advance early ∧
      (op.perform env s).Held early fireId responsibilityId fireKey := by
  obtain ⟨fireId, fire, advance, early, isCall, gone, row, -, rows, since⟩ := accepted.written
  refine ⟨fireId, fire, advance, early, isCall, row, ?_, since⟩
  rw [rows]
  exact List.mem_append_right _ (List.mem_singleton_self row)

/-- A call is accepted only where the retention may take the row of the earlier fact. -/
theorem RespStore.Accepts.fading (held : s.Held early fireId responsibilityId fireKey)
    (accepted : s.Accepts env responsibilityId fireKey op) :
    ∃ late, op.now = some late ∧ s.Fading early late fireId responsibilityId fireKey := by
  obtain ⟨old, listed, since⟩ := held
  obtain ⟨newId, fire, advance, late, rfl, gone, row, prunable, rows, isNew⟩ := accepted.written
  refine ⟨late, rfl, old, listed, since, ?_⟩
  by_cases isGone : gone old = true
  · exact FireRow.outlived_of_prunable (prunable old listed isGone) (Int.le_refl late)
  -- The old row would still be there, and its key taken.
  have stays : old ∈ s.fires.rows.filter fun f => !gone f :=
    List.mem_filter.mpr ⟨listed, by simpa using isGone⟩
  have apart := ((Operation.recordFire newId fire advance late).perform env s).fires.apart
  rw [rows, List.pairwise_append] at apart
  have disjoint := apart.2.2 old stays row (List.mem_singleton_self row)
  have ofOld : FireIndex.fireKey responsibilityId fireKey ∈ old.keys := by
    simp [FireRow.keys, since.responsibilityId, since.fireKey]
  have ofRow : FireIndex.fireKey responsibilityId fireKey ∈ row.keys := by
    simp [FireRow.keys, isNew.responsibilityId, isNew.fireKey]
  exact absurd ofRow (disjoint ofOld)

/-- The times of the operations between two others, in a run at non-decreasing times. -/
theorem between {middle : List Operation} {first second : Operation}
    (forward : ((front ++ first :: (middle ++ [second])).filterMap Operation.now).Pairwise (· ≤ ·))
    (isFirst : first.now = some early) (isSecond : second.now = some late) :
    ∀ op ∈ middle, ∀ now, op.now = some now → early ≤ now ∧ now ≤ late := by
  intro op listed now isNow
  have among : now ∈ middle.filterMap Operation.now := List.mem_filterMap.mpr ⟨op, listed, isNow⟩
  rw [List.filterMap_append, List.filterMap_cons_some isFirst, List.filterMap_append,
    List.filterMap_cons_some isSecond, List.pairwise_append] at forward
  have ordered := List.pairwise_cons.mp forward.2.1
  have last := (List.pairwise_append.mp ordered.2).2.2
  exact ⟨ordered.1 now (List.mem_append_left _ among), last now among late (List.mem_cons_self ..)⟩

/-- **A key is accepted again only after the retention.**  In a run at non-decreasing times in
which two calls are accepted for one responsibility and one key, the first fact was settled in
a state between them, at a time more than the retention before the second call. -/
theorem accepted_again (env : InsertEnv) (tasks : TaskStore.Store)
    {front middle : List Operation} {first second : Operation} {responsibilityId : Id}
    {fireKey : Text}
    (forward : ((front ++ first :: (middle ++ [second])).filterMap Operation.now).Pairwise (· ≤ ·))
    (accepted : (reached env tasks front).Accepts env responsibilityId fireKey first)
    (again : (reached env tasks (front ++ first :: middle)).Accepts env responsibilityId fireKey
      second) :
    ∃ fireId fire advance early late, first = .recordFire fireId fire advance early ∧
      second.now = some late ∧ early + fireRetention < late ∧ ∃ sofar rest, middle = sofar ++ rest ∧
        ∃ fact ∈ (reached env tasks (front ++ first :: sofar)).fires.rows,
          fact.fireId = fireId ∧ fact.responsibilityId = responsibilityId ∧
          fact.fireKey = fireKey ∧ fact.state ≠ .pending ∧
          ∃ settled, fact.settledAt = some settled ∧ settled < respTs (late - fireRetention) := by
  obtain ⟨fireId, fire, advance, early, rfl, held⟩ := accepted.held
  obtain ⟨_, _, _, late, isCall, -⟩ := again.written
  have isLate : second.now = some late := by
    rw [isCall]
    rfl
  have after : ∀ sofar, reached env tasks (front ++ .recordFire fireId fire advance early :: sofar) =
      run (Operation.perform env)
        ((Operation.recordFire fireId fire advance early).perform env (reached env tasks front)) sofar :=
    fun sofar => reached_append env tasks front _
  -- The row is taken on the way, or by the second call.
  have fading : ∃ sofar rest, middle = sofar ++ rest ∧
      (reached env tasks (front ++ .recordFire fireId fire advance early :: sofar)).Fading early late
        fireId responsibilityId fireKey := by
    rcases run_held env held (between forward rfl isLate) with
      still | ⟨sofar, rest, split, fading⟩
    · rw [← after] at still
      obtain ⟨late', isLate', fading⟩ := again.fading still
      obtain rfl : late = late' := Option.some.inj (isLate.symm.trans isLate')
      exact ⟨middle, [], (List.append_nil middle).symm, fading⟩
    · rw [← after] at fading
      exact ⟨sofar, rest, split, fading⟩
  obtain ⟨sofar, rest, split, fact, listed, since, outlived⟩ := fading
  exact ⟨fireId, fire, advance, early, late, rfl, isLate, since.outlived outlived, sofar, rest, split,
    fact, listed, since.fireId, since.responsibilityId, since.fireKey, outlived.1, outlived.2⟩

/-! ## The same key after a month -/

/-- The first fact is dropped, ten seconds after it was recorded. -/
def sampleDrop : Operation := .dropPendingFires ['r'] ['t', 'i', 'm', 'e'] ['d'] (10 * second)

theorem sampleFire_accepts {fireId key : Text} {seconds : Int}
    (armed : ∃ wakeup ∈ (afterOperations front).wakeups.rows,
      wakeup.wakeupId = ['w'] ∧ wakeup.responsibilityId = ['r'])
    (returned : ((afterOperations front).recordFire TaskStore.sampleInsertEnv fireId
      { wakeupId := ['w'], fireKey := key, reason := ['t', 'i', 'm', 'e'], dataJson := none
        guardFlagsJson := none, dropped := none } none (seconds * second)).toOption.map Prod.fst = some true) :
    (afterOperations front).Accepts TaskStore.sampleInsertEnv ['r'] key
      (sampleFire fireId key seconds) :=
  ⟨rfl, armed, ok_of_fst returned⟩

theorem sampleDrop_forward : (([sampleResponsibility 1 5 5 2] ++ sampleFire ['f'] ['k'] 0 ::
      ([sampleDrop] ++ [sampleFire ['g'] ['k'] (31 * 86400)])).filterMap Operation.now).Pairwise
        (· ≤ ·) := by decide

theorem sampleDrop_accepts :
    (afterOperations [sampleResponsibility 1 5 5 2]).Accepts TaskStore.sampleInsertEnv ['r'] ['k']
        (sampleFire ['f'] ['k'] 0) ∧
      (afterOperations [sampleResponsibility 1 5 5 2, sampleFire ['f'] ['k'] 0, sampleDrop]).Accepts
        TaskStore.sampleInsertEnv ['r'] ['k'] (sampleFire ['g'] ['k'] (31 * 86400)) :=
  ⟨sampleFire_accepts (by decide) (by decide), sampleFire_accepts (by decide) (by decide)⟩

/-- The month is over, and the fact was settled before its key came again. -/
theorem accepted_again_month : ∃ sofar rest, [sampleDrop] = sofar ++ rest ∧
      ∃ fact ∈ (afterOperations ([sampleResponsibility 1 5 5 2] ++
          sampleFire ['f'] ['k'] 0 :: sofar)).fires.rows,
        fact.fireKey = ['k'] ∧ fact.state ≠ .pending := by
  obtain ⟨-, -, -, -, -, -, -, -, sofar, rest, split, fact, listed, -, -, key, settled, -⟩ :=
    accepted_again TaskStore.sampleInsertEnv (TaskStore.Store.start []) sampleDrop_forward
      sampleDrop_accepts.1 sampleDrop_accepts.2
  exact ⟨sofar, rest, split, fact, listed, key, settled⟩

/-- **One key, two facts**: a month after the first was dropped, its key is accepted again. -/
theorem key_accepted_twice : ¬∀ (env : InsertEnv) (tasks : TaskStore.Store) (front middle : List Operation)
      (first second : Operation) (responsibilityId : Id) (fireKey : Text),
      ((front ++ first :: (middle ++ [second])).filterMap Operation.now).Pairwise (· ≤ ·) →
      (reached env tasks front).Accepts env responsibilityId fireKey first →
      ¬(reached env tasks (front ++ first :: middle)).Accepts env responsibilityId fireKey second := by
  intro once
  exact once TaskStore.sampleInsertEnv (TaskStore.Store.start []) [sampleResponsibility 1 5 5 2]
    [sampleDrop] (sampleFire ['f'] ['k'] 0) (sampleFire ['g'] ['k'] (31 * 86400)) ['r'] ['k']
    sampleDrop_forward sampleDrop_accepts.1 sampleDrop_accepts.2

end DuDuClaw.Responsibility
