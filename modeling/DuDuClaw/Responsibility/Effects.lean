/-
# Responsibility.Effects -- what an operation does to the tables

Every operation has one of a few effects on the responsibilities, the facts and the
occurrences; `perform_effect` says which.  Nothing later unfolds an operation.

* `Edited`: one UPDATE of a responsibility; pending facts may be settled with it.
* `Recorded`: facts pruned, and at most one new fact.
* `Created`: one occurrence for the earliest pending fact.
* `Settled`: one open occurrence closed, and the streak of its responsibility moved.
-/
import DuDuClaw.Lib.Fallible
import DuDuClaw.Responsibility.Occurrences

namespace DuDuClaw.Responsibility

open DuDuClaw.Lib
open DuDuClaw.TaskStore (Text Id InsertEnv InsertError NewTask StoreOp)

variable {env : InsertEnv} {s t u : RespStore}

/-! ## Frames -/

structure OnlyWakeups (s t : RespStore) : Prop where
  responsibilities : t.responsibilities = s.responsibilities
  fires : t.fires = s.fires
  occurrences : t.occurrences = s.occurrences

theorem OnlyWakeups.refl (s : RespStore) : OnlyWakeups s s := ⟨rfl, rfl, rfl⟩

theorem OnlyWakeups.trans (first : OnlyWakeups s t) (second : OnlyWakeups t u) : OnlyWakeups s u :=
  ⟨second.responsibilities.trans first.responsibilities, second.fires.trans first.fires,
    second.occurrences.trans first.occurrences⟩

theorem insertWakeup_frame {wakeup : WakeupRow} (stored : s.insertWakeup env wakeup = .ok t) :
    OnlyWakeups s t := by
  unfold RespStore.insertWakeup at stored
  split at stored
  · cases stored
  split at stored
  · cases stored
  · cases stored
    exact ⟨rfl, rfl, rfl⟩

theorem insertWakeups_frame {wakeups : List WakeupRow}
    (stored : s.insertWakeups env wakeups = .ok t) : OnlyWakeups s t := by
  apply foldlM_run (fun _ after => OnlyWakeups s after) (OnlyWakeups.refl s) _ stored
  intro _ before wakeup after sofar step
  exact sofar.trans (insertWakeup_frame step)

theorem armWakeup_frame {wakeup : WakeupRow} {agentLimit : Option Nat}
    (armed : s.armWakeup env wakeup agentLimit = .ok t) : OnlyWakeups s t := by
  unfold RespStore.armWakeup at armed
  split at armed
  · cases armed
  split at armed
  · cases armed
  dsimp only at armed
  split at armed
  · cases armed
  · exact insertWakeup_frame armed

/-! ## Facts that move -/

/-- A pending fact may be settled at `now`; any other stays as it is. -/
def FireRow.Moves (now : Option Instant) (fire fire' : FireRow) : Prop :=
  fire' = fire ∨ fire.state = .pending ∧
    ∃ instant how, now = some instant ∧ fire' = fire.settle how (respTs instant)

theorem FireRow.settle_state (how : FireEnd) (at_ : Instant) (fire : FireRow) :
    (fire.settle how at_).state ≠ .pending := by
  cases how <;> simp [settle]

theorem FireRow.Moves.trans {now : Option Instant} {a b c : FireRow} (first : a.Moves now b)
    (second : b.Moves now c) : a.Moves now c := by
  rcases first with rfl | ⟨wasPending, instant, how, isNow, rfl⟩
  · exact second
  · rcases second with rfl | ⟨stillPending, -⟩
    · exact .inr ⟨wasPending, instant, how, isNow, rfl⟩
    · exact absurd stillPending (settle_state how _ a)

theorem FireRow.settleIf_moves (sel : FireRow → Bool) (how : FireEnd) (instant : Instant)
    (fire : FireRow) : fire.Moves (some instant) (fire.settleIf sel how (respTs instant)) := by
  unfold settleIf
  split
  · rename_i chosen
    simp only [Bool.and_eq_true, beq_iff_eq] at chosen
    exact .inr ⟨chosen.1, instant, how, rfl, rfl⟩
  · exact .inl rfl

theorem settleFires_moves (s : RespStore) (sel : FireRow → Bool) (how : FireEnd) (instant : Instant) :
    s.fires.MapsBy (FireRow.Moves (some instant)) (s.settleFires sel how (respTs instant)).fires :=
  ⟨_, fun fire _ => fire.settleIf_moves sel how instant, rfl⟩

theorem still_moves (now : Option Instant) (s : RespStore) : s.fires.MapsBy (FireRow.Moves now) s.fires :=
  Indexed.MapsBy.refl fun _ _ => .inl rfl

/-! ## One UPDATE of a responsibility -/

/-- The store after an UPDATE of `responsibilities`; the call may have settled pending facts
and written wake-ups. -/
structure Edited (edit : RespEdit) (now : Option Instant) (s t : RespStore) : Prop where
  responsibilities : t.responsibilities = (s.updateResponsibilities edit).responsibilities
  fires : s.fires.MapsBy (FireRow.Moves now) t.fires
  occurrences : t.occurrences = s.occurrences

theorem updateResponsibilities_edited (edit : RespEdit) (now : Option Instant) (s : RespStore) :
    Edited edit now s (s.updateResponsibilities edit) :=
  ⟨rfl, still_moves now s, rfl⟩

theorem Edited.wakeups {edit : RespEdit} {now : Option Instant} (edited : Edited edit now s t)
    (only : OnlyWakeups t u) : Edited edit now s u :=
  ⟨only.responsibilities.trans edited.responsibilities, only.fires ▸ edited.fires,
    only.occurrences.trans edited.occurrences⟩

theorem Edited.retire {edit : RespEdit} {now : Instant} (edited : Edited edit (some now) s t)
    (id : Id) (wakeupState : WakeupState) (dropReason : Text) :
    Edited edit (some now) s (t.retireSubscriptions env id wakeupState dropReason (respTs now)) where
  responsibilities := edited.responsibilities
  fires := edited.fires.trans (fun _ _ _ => FireRow.Moves.trans) (settleFires_moves ..)
  occurrences := edited.occurrences

def Operation.Runs (env : InsertEnv) (op : Operation) (edit : RespEdit) : Prop :=
  match op with
  | .pause id epoch reason => edit = RespStore.pauseEdit env id epoch reason
  | .resume id epoch => edit = RespStore.resumeEdit id epoch
  | .clearFailures id epoch => edit = RespStore.clearFailuresEdit id epoch
  | .disable id epoch reason _ => edit = RespStore.disableEdit env id epoch reason
  | .enable id epoch _ => edit = RespStore.enableEdit id epoch
  | .updateContract id revision contract resubscribe _ => ∃ checks,
      edit = RespStore.updateContractEdit id revision contract checks resubscribe.isSome
  | .markBudgetPaused id period => edit = RespStore.budgetPauseEdit id period
  | .resumeBudgetWindow id period => edit = RespStore.budgetResumeEdit id period
  | .materialize req => ∃ id, edit = RespStore.budgetPauseEdit id req.periodKey
  | _ => False

def Operation.now : Operation → Option Instant
  | .disable _ _ _ now | .updateContract _ _ _ _ now | .expireDue now | .recordFire _ _ _ now
  | .dropPendingFires _ _ _ now | .settle _ _ _ _ now => some now
  | .materialize req => some req.now
  | _ => none

theorem disable_edited (id : Id) (epoch : Int) (reason : Text) (now : Instant) :
    Edited (RespStore.disableEdit env id epoch reason) (some now) s
      (s.disableResponsibility env id epoch reason now).2 := by
  unfold RespStore.disableResponsibility
  dsimp only
  split
  · exact (updateResponsibilities_edited ..).retire id _ _
  · exact updateResponsibilities_edited ..

theorem enable_edited {id : Id} {epoch : Int} {result : RespCas}
    {make : ResponsibilityRow → List WakeupRow → Except Text (List WakeupRow)}
    (returned : s.enableResponsibility env id epoch make = .ok (result, t)) :
    Edited (RespStore.enableEdit id epoch) none s t := by
  unfold RespStore.enableResponsibility at returned
  dsimp only at returned
  split at returned
  · split at returned
    · cases returned
    split at returned
    · cases returned
    · obtain ⟨after, stored, same⟩ := map_ok.mp returned
      cases same
      exact (updateResponsibilities_edited ..).wakeups (insertWakeups_frame stored)
  · cases returned
    exact updateResponsibilities_edited ..

theorem updateContract_edited {id : Id} {revision : Int} {contract : Contract} {result : RespCas}
    {resubscribe : Option (Int → Except Text (List WakeupRow))} {now : Instant}
    (returned : s.updateResponsibilityContract env id revision contract resubscribe now = .ok (result, t)) :
    t = s ∨ ∃ checks, Edited
      (RespStore.updateContractEdit id revision contract checks resubscribe.isSome) (some now) s t := by
  unfold RespStore.updateResponsibilityContract at returned
  split at returned
  · cases returned
  split at returned
  · rename_i checks
    right
    refine ⟨checks, ?_⟩
    dsimp only at returned
    split at returned
    · split at returned
      · cases returned
      obtain ⟨after, stored, same⟩ := map_ok.mp returned
      cases same
      exact ((updateResponsibilities_edited ..).retire id _ _).wakeups
        (insertWakeups_frame stored)
    · cases returned
      exact updateResponsibilities_edited ..
  · split at returned
    · cases returned
    · cases returned
      exact .inl rfl

/-! ## Expiry -/

def ResponsibilityRow.Expires (row row' : ResponsibilityRow) : Prop :=
  row' = row ∨ row.state ≠ .expired ∧ row' =
    { row with
      state := .expired, controlEpoch := row.controlEpoch + 1
      stateReason := some "stop_at".toList }

theorem ResponsibilityRow.Expires.trans {a b c : ResponsibilityRow} (first : a.Expires b)
    (second : b.Expires c) : a.Expires c := by
  rcases first with rfl | ⟨wasLive, rfl⟩
  · exact second
  · rcases second with rfl | ⟨stillLive, -⟩
    · exact .inr ⟨wasLive, rfl⟩
    · exact absurd rfl stillLive

structure Expired (now : Instant) (s t : RespStore) : Prop where
  responsibilities : s.responsibilities.MapsBy ResponsibilityRow.Expires t.responsibilities
  fires : s.fires.MapsBy (FireRow.Moves (some now)) t.fires
  occurrences : t.occurrences = s.occurrences

theorem Expired.refl (now : Instant) (s : RespStore) : Expired now s s :=
  ⟨Indexed.MapsBy.refl fun _ _ => .inl rfl, still_moves _ s, rfl⟩

theorem Expired.trans {now : Instant} (first : Expired now s t) (second : Expired now t u) : Expired now s u :=
  ⟨first.responsibilities.trans (fun _ _ _ => ResponsibilityRow.Expires.trans)
      second.responsibilities,
    first.fires.trans (fun _ _ _ => FireRow.Moves.trans) second.fires,
    second.occurrences.trans first.occurrences⟩

theorem expireEdit_expires (id : Id) (row : ResponsibilityRow) :
    row.Expires ((RespStore.expireEdit id).apply row) := by
  unfold RespEdit.apply
  split
  · rename_i chosen
    simp only [RespStore.expireEdit, Bool.and_eq_true, beq_iff_eq, bne_iff_ne] at chosen
    exact .inr ⟨chosen.2, rfl⟩
  · exact .inl rfl

theorem expireOne_expired (now : Instant) (s : RespStore) (id : Id) :
    Expired now s (RespStore.expireOne env now s id) := by
  have written : Expired now s (s.updateResponsibilities (RespStore.expireEdit id)) :=
    ⟨⟨_, fun row _ => expireEdit_expires id row, rfl⟩, still_moves _ s, rfl⟩
  unfold RespStore.expireOne
  dsimp only
  split
  · exact ⟨written.responsibilities, settleFires_moves .., rfl⟩
  · exact written

theorem expireDue_expired (now : Instant) (s : RespStore) :
    Expired now s (s.expireDueResponsibilities env now) := by
  unfold RespStore.expireDueResponsibilities
  exact run_rel (fun _ => True) (Expired now) (fun _ _ _ _ => trivial) (Expired.refl now)
    (fun _ _ _ => Expired.trans) (fun s id _ _ => expireOne_expired now s id) trivial
    (obeys_true _ _)

/-! ## New facts -/

/-- A fact the retention removes at `now`. -/
def FireRow.prunable (now : Instant) (fire : FireRow) : Bool :=
  fire.state != .pending && fire.settledAt.any fun settled => settled < respTs (now - fireRetention)

/-- The facts after `record_fire`: some prunable ones are gone, and `written` says whether
there is a new one. -/
structure Recorded (fireId : Id) (fire : NewFire) (now : Instant) (written : Bool)
    (s t : RespStore) : Prop where
  responsibilities : t.responsibilities = s.responsibilities
  occurrences : t.occurrences = s.occurrences
  fires : ∃ gone : FireRow → Bool, (∀ f ∈ s.fires.rows, gone f = true → f.prunable now = true) ∧
    (written = false ∧ t.fires.rows = s.fires.rows.filter (fun f => !gone f) ∨
      written = true ∧ ∃ row : FireRow,
        t.fires.rows = s.fires.rows.filter (fun f => !gone f) ++ [row] ∧
        row.fireId = fireId ∧ row.fireKey = fire.fireKey ∧ row.occurrenceTaskId = none ∧
        (row.state = .pending ∨ row.settledAt = some (respTs now)) ∧
        (∃ resp ∈ s.responsibilities.rows, resp.responsibilityId = row.responsibilityId ∧
          resp.controlEpoch = row.controlEpoch ∧ resp.state ≠ .expired) ∧
        ∃ wakeup ∈ s.wakeups.rows, wakeup.wakeupId = fire.wakeupId ∧
          wakeup.responsibilityId = row.responsibilityId)

theorem prunedFor_rows (s : RespStore) (wakeupId : Id) (now : Instant) :
    ∃ gone : FireRow → Bool, (∀ f, gone f = true → f.prunable now = true) ∧ s.prunedFor wakeupId now =
        { s with fires := s.fires.deleteWhere gone } := by
  unfold RespStore.prunedFor
  split
  · refine ⟨fun _ => false, fun _ gone => absurd gone Bool.false_ne_true, ?_⟩
    have kept : s.fires.deleteWhere (fun _ => false) = s.fires := by
      simp [Indexed.deleteWhere]
    rw [kept]
  rename_i wakeup _
  refine ⟨_, fun f gone => ?_, rfl⟩
  simp only [Bool.and_eq_true] at gone
  simp only [FireRow.prunable, Bool.and_eq_true]
  exact ⟨gone.1.2, gone.2⟩

theorem liveWakeup_cases {wakeupId : Id} {wakeup : WakeupRow} (live : s.liveWakeup wakeupId = some wakeup) :
    wakeup ∈ s.wakeups.rows ∧ wakeup.wakeupId = wakeupId ∧
      ∃ resp ∈ s.responsibilities.rows, resp.responsibilityId = wakeup.responsibilityId ∧
        resp.controlEpoch = wakeup.controlEpoch ∧ resp.state ≠ .expired := by
  have chosen := List.find?_some live
  simp only [Bool.and_eq_true, beq_iff_eq, List.any_eq_true, bne_iff_ne] at chosen
  obtain ⟨⟨named, -⟩, resp, listed, ⟨owner, epoch⟩, notExpired⟩ := chosen
  exact ⟨List.mem_of_find?_eq_some live, named, resp, listed, owner, epoch.symm, notExpired⟩

theorem insertFire_cases {row : FireRow} {written : Bool} (returned : s.insertFire row = .ok (written, t)) :
    written = false ∧ t = s ∨
      written = true ∧ ∃ fires, s.fires.insert row = some fires ∧ t = { s with fires := fires } := by
  unfold RespStore.insertFire at returned
  split at returned
  · cases returned
  split at returned
  · cases returned
    exact .inl ⟨rfl, rfl⟩
  split at returned
  · cases returned
  · rename_i fires inserted
    cases returned
    exact .inr ⟨rfl, fires, inserted, rfl⟩

theorem newFireRow_settled (fireId : Id) (fire : NewFire) (wakeup : WakeupRow) (overCap : Bool)
    (at_ : Instant) : (RespStore.newFireRow env fireId fire wakeup overCap at_).state = .pending ∨
      (RespStore.newFireRow env fireId fire wakeup overCap at_).settledAt = some at_ := by
  simp only [RespStore.newFireRow]
  cases fire.dropped.isSome || overCap with
  | false => exact .inl rfl
  | true => exact .inr rfl

theorem advanceDue_frame (s : RespStore) (wakeupId : Id) (advance : Option (Text × Text)) :
    OnlyWakeups s (s.advanceDue wakeupId advance) := by
  unfold RespStore.advanceDue
  split
  · exact ⟨rfl, rfl, rfl⟩
  · exact OnlyWakeups.refl s

/-- The row `record_fire` wrote, if it wrote one. -/
theorem recordPruned_cases {fireId : Id} {fire : NewFire} {advance : Option (Text × Text)}
    {now : Instant} {written : Bool}
    (returned : s.recordPruned env fireId fire advance now = .ok (written, t)) :
    t.responsibilities = s.responsibilities ∧ t.occurrences = s.occurrences ∧
      (written = false ∧ t.fires.rows = s.fires.rows ∨
        written = true ∧ ∃ wakeup overCap, s.liveWakeup fire.wakeupId = some wakeup ∧
          t.fires.rows = s.fires.rows ++
            [RespStore.newFireRow env fireId fire wakeup overCap (respTs now)]) := by
  unfold RespStore.recordPruned at returned
  split at returned
  · cases returned
    have only := advanceDue_frame s fire.wakeupId advance
    exact ⟨only.responsibilities, only.occurrences, .inl ⟨rfl, by rw [only.fires]⟩⟩
  rename_i wakeup live
  obtain ⟨⟨wrote, after⟩, inserted, same⟩ := map_ok.mp returned
  cases same
  have only := advanceDue_frame after fire.wakeupId advance
  rcases insertFire_cases inserted with ⟨rfl, rfl⟩ | ⟨rfl, fires, stored, rfl⟩
  · exact ⟨only.responsibilities, only.occurrences, .inl ⟨rfl, by rw [only.fires]⟩⟩
  · have rows := (congrArg Indexed.rows only.fires).trans (Indexed.insert_cases stored).2
    exact ⟨only.responsibilities, only.occurrences, .inr ⟨rfl, wakeup, _, live, rows⟩⟩

theorem recordFire_recorded {fireId : Id} {fire : NewFire} {advance : Option (Text × Text)}
    {now : Instant} {written : Bool} (returned : s.recordFire env fireId fire advance now = .ok (written, t)) :
    Recorded fireId fire now written s t := by
  obtain ⟨gone, prunable, pruned⟩ := prunedFor_rows s fire.wakeupId now
  rw [RespStore.recordFire, pruned] at returned
  obtain ⟨responsibilities, occurrences, cases⟩ := recordPruned_cases returned
  refine ⟨responsibilities, occurrences, gone, fun f _ => prunable f, ?_⟩
  rcases cases with ⟨isFalse, fires⟩ | ⟨isTrue, wakeup, overCap, live, fires⟩
  · exact .inl ⟨isFalse, fires⟩
  obtain ⟨listed, named, resp, isResp, owner, epoch, notExpired⟩ := liveWakeup_cases live
  refine .inr ⟨isTrue, _, fires, rfl, rfl, rfl, newFireRow_settled .., ?_, ?_⟩
  · exact ⟨resp, isResp, owner, epoch, notExpired⟩
  · exact ⟨wakeup, listed, named, rfl⟩

/-! ## One more occurrence -/

/-- The fact `first`, pending and on the current epoch, became an occurrence of `resp`;
every pending fact of `resp` went into it. -/
structure Created (req : MaterializeRequest) (resp : ResponsibilityRow) (first : FireRow)
    (s t : RespStore) : Prop where
  isResp : resp ∈ s.responsibilities.rows
  active : resp.state = .active
  isFirst : first ∈ s.fires.rows
  owner : first.responsibilityId = resp.responsibilityId
  pending : first.state = .pending
  epoch : first.controlEpoch = resp.controlEpoch
  room : s.overBudget resp req = false
  occurrences : t.occurrences.rows = s.occurrences.rows ++ [RespStore.newOccurrence resp first req]
  free : s.occurrences.Free (RespStore.newOccurrence resp first req)
  responsibilities : t.responsibilities =
    (s.updateResponsibilities (RespStore.stampEdit resp.responsibilityId (respTs req.now))).responsibilities
  fires : s.fires.MapsBy (fun fire fire' =>
      fire' = fire ∧ fire ≠ first ∨
        fire.state = .pending ∧ (fire' = fire.settle (.consumed req.task.row.id) (respTs req.now) ∨
          fire ≠ first ∧ fire' = fire.settle (.coalesced req.task.row.id) (respTs req.now)))
    t.fires

variable {resp : ResponsibilityRow} {first : FireRow} {req : MaterializeRequest} {outcome : MaterializeOutcome}

theorem mem_pendingFires {id : Id} {fire : FireRow} : fire ∈ s.pendingFires id ↔
      fire ∈ s.fires.rows ∧ fire.responsibilityId = id ∧ fire.state = .pending := by
  unfold RespStore.pendingFires
  rw [(List.perm_insertionSort _ _).mem_iff]
  simp

theorem getResponsibility_cases {id : Id} (found : s.getResponsibility id = some resp) :
    resp ∈ s.responsibilities.rows ∧ resp.responsibilityId = id :=
  ⟨List.mem_of_find?_eq_some found, by simpa using List.find?_some found⟩

/-- The first fact is consumed, the other pending ones are coalesced. -/
theorem consumeFires_fires
    (listed : first ∈ s.fires.rows) (pending : first.state = .pending) (taskId : Id) (at_ : Instant) :
    s.fires.MapsBy (fun fire fire' =>
        fire' = fire ∧ fire ≠ first ∨ fire.state = .pending ∧ (fire' = fire.settle (.consumed taskId) at_ ∨
            fire ≠ first ∧ fire' = fire.settle (.coalesced taskId) at_))
      (s.consumeFires resp first taskId at_).fires := by
  refine ⟨FireRow.settleIf _ (.coalesced taskId) at_ ∘ FireRow.settleIf _ (.consumed taskId) at_,
    fun fire isFire => ?_, List.map_map ..⟩
  by_cases isFirst : fire = first
  · subst isFirst
    have consumed : fire.settleIf (fun other => other.fireId == fire.fireId) (.consumed taskId) at_ =
        fire.settle (.consumed taskId) at_ := by simp [FireRow.settleIf, pending]
    right
    refine ⟨pending, .inl ?_⟩
    rw [Function.comp_apply, consumed]
    exact if_neg (by simp [FireRow.settle])
  · have otherId : fire.fireId ≠ first.fireId := fun same =>
      isFirst (s.fire_unique isFire listed same)
    have kept : fire.settleIf (fun other => other.fireId == first.fireId) (.consumed taskId) at_ =
        fire := by simp [FireRow.settleIf, otherId]
    rw [Function.comp_apply, kept]
    unfold FireRow.settleIf
    split
    · rename_i chosen
      simp only [Bool.and_eq_true, beq_iff_eq] at chosen
      exact .inr ⟨chosen.1, .inr ⟨isFirst, rfl⟩⟩
    · exact .inl ⟨rfl, isFirst⟩

theorem createOccurrence_cases (returned : s.createOccurrence env resp first req = .ok (outcome, t)) :
    t = s ∧ outcome = .occurrenceOpen ∨ (∃ coalesced, outcome = .created req.task.row.id coalesced) ∧
      ∃ tasks occurrences, s.occurrences.insert (RespStore.newOccurrence resp first req) = some occurrences ∧
        t = ({ s with tasks := tasks, occurrences := occurrences } : RespStore).consumeFires resp
          first req.task.row.id (respTs req.now) := by
  unfold RespStore.createOccurrence at returned
  split at returned
  · cases returned
  split at returned
  · cases returned
    exact .inl ⟨rfl, rfl⟩
  · rename_i occurrences inserted
    cases returned
    exact .inr ⟨⟨_, rfl⟩, _, occurrences, inserted, rfl⟩

theorem createOccurrence_created (isResp : resp ∈ s.responsibilities.rows) (active : resp.state = .active)
    (isFirst : first ∈ s.fires.rows) (owner : first.responsibilityId = resp.responsibilityId)
    (pending : first.state = .pending) (epoch : first.controlEpoch = resp.controlEpoch)
    (room : s.overBudget resp req = false)
    (returned : s.createOccurrence env resp first req = .ok (outcome, t)) : t = s ∧ outcome = .occurrenceOpen ∨
      (∃ coalesced, outcome = .created req.task.row.id coalesced) ∧ Created req resp first s t := by
  rcases createOccurrence_cases returned with same | ⟨done, tasks, occurrences, inserted, rfl⟩
  · exact .inl same
  obtain ⟨free, rows⟩ := Indexed.insert_cases inserted
  exact .inr ⟨done, isResp, active, isFirst, owner, pending, epoch, room, rows, free, rfl,
    consumeFires_fires (s := { s with tasks := tasks, occurrences := occurrences }) isFirst pending
      _ _⟩

/-- The outcomes of `materialize_occurrence`. -/
theorem materialize_cases (returned : s.materializeOccurrence env req = .ok (outcome, t)) :
    t = s ∧ (∀ taskId coalesced, outcome ≠ .created taskId coalesced) ∨
      (outcome = .epochChanged ∧ ∃ sel how, t = s.settleFires sel how (respTs req.now)) ∨
      (outcome = .budgetExhausted ∧ ∃ id,
        t = s.updateResponsibilities (RespStore.budgetPauseEdit id req.periodKey)) ∨
      (∃ coalesced, outcome = .created req.task.row.id coalesced) ∧
        ∃ resp first, Created req resp first s t := by
  unfold RespStore.materializeOccurrence at returned
  split at returned
  · cases returned
    exact .inl ⟨rfl, nofun⟩
  rename_i resp found
  split at returned
  · cases returned
    exact .inl ⟨rfl, nofun⟩
  rename_i live
  split at returned
  · cases returned
    exact .inl ⟨rfl, nofun⟩
  rename_i first others isPending
  split at returned
  · cases returned
    exact .inr (.inl ⟨rfl, _, _, rfl⟩)
  rename_i sameEpoch
  split at returned
  · cases returned
    exact .inl ⟨rfl, nofun⟩
  split at returned
  · cases returned
    exact .inl ⟨rfl, nofun⟩
  split at returned
  · cases returned
    exact .inl ⟨rfl, nofun⟩
  split at returned
  · cases returned
    exact .inr (.inr (.inl ⟨rfl, _, rfl⟩))
  rename_i room
  simp only [Bool.or_eq_true, bne_iff_ne, not_or, not_not] at live sameEpoch
  have listed : first ∈ s.pendingFires resp.responsibilityId := by
    rw [isPending]
    exact List.mem_cons_self ..
  obtain ⟨isFirst, owner, pending⟩ := mem_pendingFires.mp listed
  rcases createOccurrence_created (getResponsibility_cases found).1 live.1 isFirst owner pending
    sameEpoch.1 (Bool.eq_false_iff.mpr room) returned with ⟨same, isOpen⟩ | ⟨done, created⟩
  · refine .inl ⟨same, ?_⟩
    rw [isOpen]
    exact nofun
  · exact .inr (.inr (.inr ⟨done, resp, first, created⟩))

/-! ## Settlement -/

/-- A row after an occurrence of `id` ended with this outcome. -/
def ResponsibilityRow.afterOutcome (id : Id) (outcome : Outcome) (row : ResponsibilityRow) :
    ResponsibilityRow :=
  match outcome with
  | .done => (RespStore.streakResetEdit id).apply row
  | .failed | .cancelled | .stoppedCounted | .blocked =>
    (RespStore.failurePauseEdit id).apply ((RespStore.streakEdit id).apply row)
  | .stopped => row

theorem ResponsibilityRow.afterOutcome_of {id : Id} {row : ResponsibilityRow}
    (prop : ResponsibilityRow → Prop) (untouched : prop row)
    (reset : prop ((RespStore.streakResetEdit id).apply row))
    (counted : prop ((RespStore.failurePauseEdit id).apply ((RespStore.streakEdit id).apply row)))
    (outcome : Outcome) : prop (row.afterOutcome id outcome) := by
  cases outcome with
  | done => exact reset
  | stopped => exact untouched
  | failed | cancelled | stoppedCounted | blocked => exact counted

/-- The open occurrence of a task is closed, and its responsibility counts the outcome. -/
structure Settled (taskId : Id) (outcome : Outcome) (charged : Int) (basis : CostBasis)
    (now : Instant) (occurrence : OccurrenceRow) (s t : RespStore) : Prop where
  listed : occurrence ∈ s.occurrences.rows
  task : occurrence.taskId = taskId
  isOpen : occurrence.isOpen = true
  occurrences : t.occurrences.rows =
    s.occurrences.rows.map (RespStore.settledRow taskId outcome charged basis (respTs now))
  responsibilities : t.responsibilities.rows =
    s.responsibilities.rows.map
      (ResponsibilityRow.afterOutcome occurrence.responsibilityId outcome)
  fires : t.fires = s.fires

theorem streakAfter_rows (s : RespStore) (id : Id) (outcome : Outcome) :
    (s.streakAfter id outcome).responsibilities.rows =
        s.responsibilities.rows.map (ResponsibilityRow.afterOutcome id outcome) ∧
      (s.streakAfter id outcome).occurrences = s.occurrences ∧ (s.streakAfter id outcome).fires = s.fires := by
  cases outcome with
  | done => exact ⟨rfl, rfl, rfl⟩
  | failed | cancelled | stoppedCounted | blocked => exact ⟨List.map_map .., rfl, rfl⟩
  | stopped => exact ⟨(List.map_id _).symm, rfl, rfl⟩

theorem settle_cases {taskId : Id} {outcome : Text} {charged : Int} {basis : CostBasis}
    {now : Instant} {result : Option ResponsibilityRow}
    (returned : s.settleOccurrence taskId outcome charged basis now = .ok (result, t)) :
    t = s ∨ ∃ ended occurrence, Outcome.ofText outcome = some ended ∧
      Settled taskId ended charged basis now occurrence s t := by
  unfold RespStore.settleOccurrence at returned
  split at returned
  · cases returned
  rename_i ended isEnded
  split at returned
  · cases returned
    exact .inl rfl
  rename_i occurrence found
  cases returned
  have chosen := List.find?_some found
  simp only [Bool.and_eq_true, beq_iff_eq] at chosen
  obtain ⟨rows, occurrences, fires⟩ := streakAfter_rows
    { s with
      occurrences := s.occurrences.update
        (RespStore.settledRow taskId ended charged basis (respTs now))
        (RespStore.settledRow_keys taskId ended charged basis (respTs now)) }
    occurrence.responsibilityId ended
  refine .inr ⟨ended, occurrence, isEnded, List.mem_of_find?_eq_some found, chosen.1, chosen.2, ?_, rows, fires⟩
  rw [occurrences]
  rfl

/-! ## All operations -/

/-- A row as `insert_responsibility` stores it. -/
def storedRow (env : InsertEnv) (row : ResponsibilityRow) : ResponsibilityRow :=
  { row with stateReason := row.stateReason.map env.maskDerivedText }

theorem insertResponsibility_cases {row : ResponsibilityRow} {wakeups : List WakeupRow}
    (returned : s.insertResponsibility env row wakeups = .ok t) :
    (storedRow env row).Checks ∧ s.responsibilities.Free (storedRow env row) ∧
      t.responsibilities.rows = s.responsibilities.rows ++ [storedRow env row] ∧
      t.fires = s.fires ∧ t.occurrences = s.occurrences := by
  unfold RespStore.insertResponsibility at returned
  dsimp only at returned
  split at returned
  · cases returned
  split at returned
  · rename_i checks
    split at returned
    · cases returned
    rename_i responsibilities inserted
    have only := insertWakeups_frame returned
    obtain ⟨free, rows⟩ := Indexed.insert_cases inserted
    exact ⟨checks, free, (congrArg Indexed.rows only.responsibilities).trans rows, only.fires, only.occurrences⟩
  · cases returned

inductive Effect (env : InsertEnv) (s t : RespStore) : Operation → Prop where
  | quiet {op : Operation} (only : OnlyWakeups s t) : Effect env s t op
  | inserted {row : ResponsibilityRow} {wakeups : List WakeupRow}
      (checks : (storedRow env row).Checks) (free : s.responsibilities.Free (storedRow env row))
      (rows : t.responsibilities.rows = s.responsibilities.rows ++ [storedRow env row])
      (fires : t.fires = s.fires) (occurrences : t.occurrences = s.occurrences) :
      Effect env s t (.insertResponsibility row wakeups)
  | edited {op : Operation} {edit : RespEdit} (runs : op.Runs env edit)
      (edited : Edited edit op.now s t) : Effect env s t op
  | expired {now : Instant} (expired : Expired now s t) : Effect env s t (.expireDue now)
  | recorded {fireId : Id} {fire : NewFire} {advance : Option (Text × Text)} {now : Instant}
      {written : Bool} (returned : s.recordFire env fireId fire advance now = .ok (written, t))
      (recorded : Recorded fireId fire now written s t) :
      Effect env s t (.recordFire fireId fire advance now)
  | settledFires {op : Operation} (responsibilities : t.responsibilities = s.responsibilities)
      (fires : s.fires.MapsBy (FireRow.Moves op.now) t.fires)
      (occurrences : t.occurrences = s.occurrences) : Effect env s t op
  | created {req : MaterializeRequest} {resp : ResponsibilityRow} {first : FireRow}
      (created : Created req resp first s t) : Effect env s t (.materialize req)
  | settled {taskId : Id} {outcome : Text} {charged : Int} {basis : CostBasis} {now : Instant}
      {ended : Outcome} {occurrence : OccurrenceRow} (named : Outcome.ofText outcome = some ended)
      (settled : Settled taskId ended charged basis now occurrence s t) :
      Effect env s t (.settle taskId outcome charged basis now)

theorem Effect.unchanged (env : InsertEnv) (s : RespStore) (op : Operation) :
    Effect env s s op := .quiet (OnlyWakeups.refl s)

/-- The effect of a call is the effect of its return: an error changes nothing. -/
theorem settled_effect {α : Type} {op : Operation} (call : Except RespError (α × RespStore))
    (returned : ∀ a t, call = .ok (a, t) → Effect env s t op) : Effect env s (settled s call) op := by
  cases call with
  | error e => exact .unchanged env s op
  | ok r => exact returned r.1 r.2 rfl

/-- **Every operation has one of the effects.** -/
theorem perform_effect (env : InsertEnv) (s : RespStore) (op : Operation) :
    Effect env s (op.perform env s) op := by
  cases op with
  | insertResponsibility row wakeups =>
    refine settled_effect _ fun _ t returned => ?_
    obtain ⟨_, stored, same⟩ := map_ok.mp returned
    cases same
    obtain ⟨checks, free, rows, fires, occurrences⟩ := insertResponsibility_cases stored
    exact .inserted checks free rows fires occurrences
  | pause id epoch reason | resume id epoch | clearFailures id epoch | markBudgetPaused id period
  | resumeBudgetWindow id period => exact .edited rfl (updateResponsibilities_edited ..)
  | disable id epoch reason now => exact .edited rfl (disable_edited ..)
  | enable id epoch make =>
    exact settled_effect _ fun _ _ returned => .edited rfl (enable_edited returned)
  | updateContract id revision contract resubscribe now =>
    refine settled_effect _ fun _ t returned => ?_
    rcases updateContract_edited returned with rfl | ⟨checks, edited⟩
    · exact .unchanged ..
    · exact .edited ⟨checks, rfl⟩ edited
  | expireDue now => exact .expired (expireDue_expired now s)
  | armWakeup wakeup limit =>
    refine settled_effect _ fun _ t returned => ?_
    obtain ⟨_, armed, same⟩ := map_ok.mp returned
    cases same
    exact .quiet (armWakeup_frame armed)
  | advanceWakeupDue id oldDue newDue | task op => exact .quiet ⟨rfl, rfl, rfl⟩
  | recordFire fireId fire advance now =>
    exact settled_effect _ fun _ _ returned => .recorded returned (recordFire_recorded returned)
  | dropPendingFires id reason dropReason now =>
    exact .settledFires rfl (settleFires_moves ..) rfl
  | materialize req =>
    refine settled_effect _ fun outcome t returned => ?_
    rcases materialize_cases returned with
      ⟨rfl, -⟩ | ⟨-, sel, how, rfl⟩ | ⟨-, id, rfl⟩ | ⟨-, resp, first, created⟩
    · exact .unchanged ..
    · exact .settledFires rfl (settleFires_moves ..) rfl
    · exact .edited ⟨id, rfl⟩ (updateResponsibilities_edited ..)
    · exact .created created
  | settle taskId outcome charged basis now =>
    refine settled_effect _ fun result t returned => ?_
    rcases settle_cases returned with rfl | ⟨ended, occurrence, named, done⟩
    · exact .unchanged ..
    · exact .settled named done

end DuDuClaw.Responsibility
