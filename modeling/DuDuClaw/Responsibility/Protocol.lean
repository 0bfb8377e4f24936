/-
# Responsibility.Protocol -- facts, epochs and occurrences

A fact is recorded once, under the epoch of its subscription; it is pending until an
occurrence takes it, or until it is dropped, and never pending again.  The row may be
pruned, and its id is not drawn a second time: the ids are fresh UUIDs.

* `Sound`: what holds of the facts and the occurrences of one store.
* `Follows`: what the facts known to a store are in any later one.
* `run_follows`: both over runs in which no id is drawn twice.
* `occurrence_protocol`: one open occurrence, one consumption of a fact, and no primary fact
  of an older epoch.
-/
import DuDuClaw.Responsibility.Effects

namespace DuDuClaw.Responsibility

open DuDuClaw.Lib
open DuDuClaw.TaskStore (Text Id InsertEnv InsertError NewTask StoreOp)

variable {env : InsertEnv} {s t u : RespStore} {used : List Id}

def Operation.drawn : Operation → List Id
  | .recordFire fireId _ _ _ => [fireId]
  | _ => []

/-! ## One fact -/

/-- The fact keeps what it was recorded with; only a pending one changes, and it is then
settled. -/
structure FireRow.Continues (fire fire' : FireRow) : Prop where
  fireId : fire'.fireId = fire.fireId
  responsibilityId : fire'.responsibilityId = fire.responsibilityId
  controlEpoch : fire'.controlEpoch = fire.controlEpoch
  settled : fire.state ≠ .pending → fire' = fire
  pending : fire'.state = .pending → fire' = fire

variable {fire fire' first : FireRow} {req : MaterializeRequest} {resp : ResponsibilityRow}
  {occurrence a b : OccurrenceRow} {fireId taskId : Id} {ops front back : List Operation}

theorem FireRow.continues_settle (how : FireEnd) (at_ : Instant)
    (pending : fire.state = .pending) : fire.Continues (fire.settle how at_) where
  fireId := by cases how <;> rfl
  responsibilityId := by cases how <;> rfl
  controlEpoch := by cases how <;> rfl
  settled other := absurd pending other
  pending still := absurd still (settle_state how at_ fire)

theorem FireRow.Moves.continues {now : Option Instant}
    (moves : fire.Moves now fire') : fire.Continues fire' := by
  rcases moves with rfl | ⟨pending, instant, how, -, rfl⟩
  · exact ⟨rfl, rfl, rfl, fun _ => rfl, fun _ => rfl⟩
  · exact continues_settle how _ pending

theorem Created.continues
    (created : Created req resp first s t) : s.fires.MapsBy FireRow.Continues t.fires := by
  refine created.fires.mono ?_
  rintro fire _ fire' (⟨rfl, -⟩ | ⟨pending, rfl | ⟨-, rfl⟩⟩)
  · exact ⟨rfl, rfl, rfl, fun _ => rfl, fun _ => rfl⟩
  · exact FireRow.continues_settle _ _ pending
  · exact FireRow.continues_settle _ _ pending

/-! ## One store -/

/-- The facts and the occurrences after the ids in `used` were drawn. -/
structure Sound (used : List Id) (s : RespStore) : Prop where
  drawn : ∀ fire ∈ s.fires.rows, fire.fireId ∈ used
  keys : ∀ occurrence ∈ s.occurrences.rows, occurrence.occurrenceKey ∈ used
  pending : ∀ fire ∈ s.fires.rows, fire.state = .pending → fire.occurrenceTaskId = none
  primary : ∀ occurrence ∈ s.occurrences.rows, ∀ fire ∈ s.fires.rows,
    fire.fireId = occurrence.occurrenceKey → fire.occurrenceTaskId = some occurrence.taskId
  once : ∀ a ∈ s.occurrences.rows, ∀ b ∈ s.occurrences.rows,
    a.occurrenceKey = b.occurrenceKey → a.taskId = b.taskId

/-- The occurrence was made from the fact, or took it along. -/
def RespStore.Consumes (s : RespStore) (occurrence : OccurrenceRow) (fireId : Id) : Prop :=
  occurrence ∈ s.occurrences.rows ∧ (occurrence.occurrenceKey = fireId ∨
    ∃ fire ∈ s.fires.rows, fire.fireId = fireId ∧ fire.occurrenceTaskId = some occurrence.taskId)

structure RespStore.Taken (s : RespStore) (fireId taskId : Id) : Prop where
  fires : ∀ fire ∈ s.fires.rows, fire.fireId = fireId → fire.occurrenceTaskId = some taskId
  occurrences : ∀ occurrence ∈ s.occurrences.rows, occurrence.occurrenceKey = fireId →
    occurrence.taskId = taskId

/-- The owner and the epoch of the fact, as long as its row is there. -/
def RespStore.Stamped (s : RespStore) (fireId owner : Id) (epoch : Int) : Prop :=
  ∀ fire ∈ s.fires.rows, fire.fireId = fireId →
    fire.responsibilityId = owner ∧ fire.controlEpoch = epoch

theorem Sound.taken (sound : Sound used s)
    (consumes : s.Consumes occurrence fireId) : fireId ∈ used ∧ s.Taken fireId occurrence.taskId := by
  obtain ⟨listed, rfl | ⟨fire, isFire, rfl, took⟩⟩ := consumes
  · refine ⟨sound.keys occurrence listed, fun fire isFire same => ?_, fun other isOther same => ?_⟩
    · exact sound.primary occurrence listed fire isFire same
    · exact sound.once other isOther occurrence listed same
  refine ⟨sound.drawn fire isFire, fun other isOther same => ?_, fun other isOther same => ?_⟩
  · rw [s.fire_unique isOther isFire same]
    exact took
  · have taken := sound.primary other isOther fire isFire same.symm
    rw [took] at taken
    exact (Option.some.inj taken).symm

theorem RespStore.Taken.consumes (taken : s.Taken fireId taskId)
    (consumes : s.Consumes occurrence fireId) : occurrence.taskId = taskId := by
  obtain ⟨listed, key | ⟨fire, isFire, same, took⟩⟩ := consumes
  · exact taken.occurrences occurrence listed key
  · have fromFire := taken.fires fire isFire same
    rw [took] at fromFire
    exact Option.some.inj fromFire

/-! ## Two stores -/

/-- What a later store knows of the facts drawn before, and of the epochs. -/
structure Follows (used : List Id) (s t : RespStore) : Prop where
  taken : ∀ fireId ∈ used, ∀ taskId, s.Taken fireId taskId → t.Taken fireId taskId
  stamped : ∀ fireId ∈ used, ∀ owner epoch,
    s.Stamped fireId owner epoch → t.Stamped fireId owner epoch
  epochs : ∀ row ∈ s.responsibilities.rows, ∃ row' ∈ t.responsibilities.rows,
    row'.responsibilityId = row.responsibilityId ∧ row.controlEpoch ≤ row'.controlEpoch

theorem Follows.refl (used : List Id) (s : RespStore) : Follows used s s :=
  ⟨fun _ _ _ taken => taken, fun _ _ _ _ stamped => stamped,
    fun row listed => ⟨row, listed, rfl, Int.le_refl _⟩⟩

theorem Follows.trans {used' : List Id} (first : Follows used s t)
    (second : Follows (used ++ used') t u) : Follows used s u where
  taken fireId listed taskId taken :=
    second.taken fireId (List.mem_append_left _ listed) taskId (first.taken fireId listed taskId taken)
  stamped fireId listed owner epoch stamped :=
    second.stamped fireId (List.mem_append_left _ listed) owner epoch
      (first.stamped fireId listed owner epoch stamped)
  epochs row listed := by
    obtain ⟨row', listed', sameId, grown⟩ := first.epochs row listed
    obtain ⟨row'', listed'', sameId', grown'⟩ := second.epochs row' listed'
    exact ⟨row'', listed'', sameId'.trans sameId, grown.trans grown'⟩

/-- A step that only moves facts: no new fact, no new occurrence. -/
theorem sound_of_moves (sound : Sound used s) (fires : s.fires.MapsBy FireRow.Continues t.fires)
    (occurrences : ∀ occurrence ∈ t.occurrences.rows, ∃ old ∈ s.occurrences.rows,
      occurrence.occurrenceKey = old.occurrenceKey ∧ occurrence.taskId = old.taskId) :
    Sound used t where
  drawn fire' listed' := by
    obtain ⟨fire, listed, continues⟩ := fires.back listed'
    rw [continues.fireId]
    exact sound.drawn fire listed
  keys occurrence listed := by
    obtain ⟨old, isOld, key, -⟩ := occurrences occurrence listed
    rw [key]
    exact sound.keys old isOld
  pending fire' listed' isPending := by
    obtain ⟨fire, listed, continues⟩ := fires.back listed'
    have same := continues.pending isPending
    rw [same] at isPending ⊢
    exact sound.pending fire listed isPending
  primary occurrence isOne fire' listed' same := by
    obtain ⟨old, isOld, key, task⟩ := occurrences occurrence isOne
    obtain ⟨fire, listed, continues⟩ := fires.back listed'
    have took := sound.primary old isOld fire listed (continues.fireId.symm.trans (same.trans key))
    have notPending : fire.state ≠ .pending := fun isPending => by
      rw [sound.pending fire listed isPending] at took
      cases took
    rw [continues.settled notPending, task]
    exact took
  once a isA b isB same := by
    obtain ⟨a₀, isA₀, keyA, taskA⟩ := occurrences a isA
    obtain ⟨b₀, isB₀, keyB, taskB⟩ := occurrences b isB
    rw [taskA, taskB]
    exact sound.once a₀ isA₀ b₀ isB₀ (keyA.symm.trans (same.trans keyB))

theorem taken_of_moves (sound : Sound used s) (fires : s.fires.MapsBy FireRow.Continues t.fires)
    (taken : s.Taken fireId taskId)
    (occurrences : ∀ occurrence ∈ t.occurrences.rows, occurrence.occurrenceKey = fireId →
      occurrence.taskId = taskId) : t.Taken fireId taskId where
  fires fire' listed' same := by
    obtain ⟨fire, listed, continues⟩ := fires.back listed'
    have took := taken.fires fire listed (continues.fireId.symm.trans same)
    have notPending : fire.state ≠ .pending := fun isPending => by
      rw [sound.pending fire listed isPending] at took
      cases took
    rw [continues.settled notPending]
    exact took
  occurrences := occurrences

theorem stamped_of_moves (fires : s.fires.MapsBy FireRow.Continues t.fires) {owner : Id}
    {epoch : Int} (stamped : s.Stamped fireId owner epoch) : t.Stamped fireId owner epoch := by
  intro fire' listed' same
  obtain ⟨fire, listed, continues⟩ := fires.back listed'
  rw [continues.responsibilityId, continues.controlEpoch]
  exact stamped fire listed (continues.fireId.symm.trans same)

/-! ## Steps -/

theorem ResponsibilityRow.afterOutcome_epoch (id : Id) (outcome : Outcome) (row : ResponsibilityRow) :
    (row.afterOutcome id outcome).responsibilityId = row.responsibilityId ∧
      row.controlEpoch ≤ (row.afterOutcome id outcome).controlEpoch := by
  refine ResponsibilityRow.afterOutcome_of
    (fun after => after.responsibilityId = row.responsibilityId ∧
      row.controlEpoch ≤ after.controlEpoch) ⟨rfl, Int.le_refl _⟩ ?_ ?_ outcome
  · exact ⟨RespEdit.apply_id .., RespEdit.apply_epoch ..⟩
  · exact ⟨(RespEdit.apply_id ..).trans (RespEdit.apply_id ..),
      (RespEdit.apply_epoch ..).trans (RespEdit.apply_epoch ..)⟩

/-- **No operation rewinds an epoch**, and none removes a responsibility. -/
theorem perform_epochs (env : InsertEnv) (s : RespStore) (op : Operation) :
    ∀ row ∈ s.responsibilities.rows, ∃ row' ∈ (op.perform env s).responsibilities.rows,
      row'.responsibilityId = row.responsibilityId ∧ row.controlEpoch ≤ row'.controlEpoch := by
  intro row listed
  have kept : ∀ {t : RespStore}, t.responsibilities = s.responsibilities → ∃ row' ∈ t.responsibilities.rows,
        row'.responsibilityId = row.responsibilityId ∧ row.controlEpoch ≤ row'.controlEpoch := by
    intro t same
    exact ⟨row, same ▸ listed, rfl, Int.le_refl _⟩
  have edited : ∀ {t : RespStore} (edit : RespEdit),
      t.responsibilities = (s.updateResponsibilities edit).responsibilities →
      ∃ row' ∈ t.responsibilities.rows,
        row'.responsibilityId = row.responsibilityId ∧ row.controlEpoch ≤ row'.controlEpoch := by
    intro t edit same
    refine ⟨edit.apply row, ?_, edit.apply_id row, edit.apply_epoch row⟩
    rw [same]
    exact RespStore.mem_updateResponsibilities.mpr ⟨row, listed, rfl⟩
  cases perform_effect env s op with
  | quiet only => exact kept only.responsibilities
  | inserted checks free rows fires occurrences =>
    refine ⟨row, ?_, rfl, Int.le_refl _⟩
    rw [rows]
    exact List.mem_append_left _ listed
  | edited runs done => exact edited _ done.responsibilities
  | expired expired =>
    obtain ⟨row', listed', rfl | ⟨-, rfl⟩⟩ := expired.responsibilities.forth listed
    · exact ⟨row', listed', rfl, Int.le_refl _⟩
    · exact ⟨_, listed', rfl, Int.le_add_one (Int.le_refl _)⟩
  | recorded returned recorded => exact kept recorded.responsibilities
  | settledFires responsibilities fires occurrences => exact kept responsibilities
  | created created => exact edited _ created.responsibilities
  | settled named settled =>
    obtain ⟨sameId, grown⟩ := row.afterOutcome_epoch _ _
    refine ⟨_, ?_, sameId, grown⟩
    rw [settled.responsibilities]
    exact List.mem_map_of_mem listed

/-- A new fact under a fresh id. -/
theorem Recorded.sound {fire : NewFire} {now : Instant} {written : Bool}
    (recorded : Recorded fireId fire now written s t) (sound : Sound used s) (fresh : fireId ∉ used) :
    Sound (used ++ [fireId]) t ∧ (∀ id ∈ used, ∀ taskId, s.Taken id taskId → t.Taken id taskId) ∧
      ∀ id ∈ used, ∀ owner epoch, s.Stamped id owner epoch → t.Stamped id owner epoch := by
  obtain ⟨gone, -, cases⟩ := recorded.fires
  -- A fact is an old one, or the new one.
  have rows : ∀ f ∈ t.fires.rows, f ∈ s.fires.rows ∨ f.fireId = fireId ∧ f.occurrenceTaskId = none := by
    intro f listed
    rcases cases with ⟨-, rows⟩ | ⟨-, row, rows, isNew, -, free, -⟩
    · rw [rows] at listed
      exact .inl (List.mem_of_mem_filter listed)
    rw [rows, List.mem_append, List.mem_singleton] at listed
    rcases listed with before | rfl
    · exact .inl (List.mem_of_mem_filter before)
    · exact .inr ⟨isNew, free⟩
  have known : ∀ f ∈ t.fires.rows, f.fireId ∈ used → f ∈ s.fires.rows := by
    intro f listed isUsed
    rcases rows f listed with before | ⟨isNew, -⟩
    · exact before
    · exact absurd (isNew ▸ isUsed) fresh
  refine ⟨⟨fun f listed => ?_, fun occurrence listed => ?_, fun f listed isPending => ?_,
    fun occurrence isOne f listed same => ?_, fun a isA b isB => ?_⟩,
    fun id isUsed taskId taken => ⟨fun f listed same => ?_, fun occurrence listed => ?_⟩,
    fun id isUsed owner epoch stamped f listed same => ?_⟩
  · rcases rows f listed with before | ⟨isNew, -⟩
    · exact List.mem_append_left _ (sound.drawn f before)
    · exact List.mem_append_right _ (List.mem_singleton.mpr isNew)
  · rw [recorded.occurrences] at listed
    exact List.mem_append_left _ (sound.keys occurrence listed)
  · rcases rows f listed with before | ⟨-, free⟩
    · exact sound.pending f before isPending
    · exact free
  · rw [recorded.occurrences] at isOne
    have isUsed : f.fireId ∈ used := same ▸ sound.keys occurrence isOne
    exact sound.primary occurrence isOne f (known f listed isUsed) same
  · rw [recorded.occurrences] at isA isB
    exact sound.once a isA b isB
  · exact taken.fires f (known f listed (same ▸ isUsed)) same
  · rw [recorded.occurrences] at listed
    exact taken.occurrences occurrence listed
  · exact stamped f (known f listed (same ▸ isUsed)) same

/-- A new occurrence for a pending fact, which no other has. -/
theorem Created.sound (created : Created req resp first s t) (sound : Sound used s) :
    Sound used t ∧ (∀ id taskId, s.Taken id taskId → t.Taken id taskId) := by
  have unclaimed := sound.pending first created.isFirst created.pending
  have rows : ∀ occurrence ∈ t.occurrences.rows, occurrence ∈ s.occurrences.rows ∨
      occurrence.occurrenceKey = first.fireId ∧ occurrence.taskId = req.task.row.id := by
    intro occurrence listed
    rw [created.occurrences, List.mem_append, List.mem_singleton] at listed
    rcases listed with before | rfl
    · exact .inl before
    · exact .inr ⟨rfl, rfl⟩
  -- No earlier occurrence was made from the fact.
  have unused : ∀ occurrence ∈ s.occurrences.rows, occurrence.occurrenceKey ≠ first.fireId := by
    intro occurrence listed same
    have took := sound.primary occurrence listed first created.isFirst same.symm
    rw [unclaimed] at took
    cases took
  have earlier : Sound used { t with occurrences := s.occurrences } :=
    sound_of_moves (t := { t with occurrences := s.occurrences }) sound created.continues
      fun occurrence listed => ⟨occurrence, listed, rfl, rfl⟩
  refine ⟨⟨earlier.drawn, fun occurrence listed => ?_, earlier.pending,
    fun occurrence isOne fire' listed' same => ?_, fun a isA b isB same => ?_⟩,
    fun id taskId taken => taken_of_moves sound created.continues taken
      fun occurrence listed same => ?_⟩
  · rcases rows occurrence listed with before | ⟨key, -⟩
    · exact sound.keys occurrence before
    · rw [key]
      exact sound.drawn first created.isFirst
  · rcases rows occurrence isOne with before | ⟨key, task⟩
    · exact earlier.primary occurrence before fire' listed' same
    obtain ⟨fire, listed, moved⟩ := created.fires.back listed'
    have sameId : fire'.fireId = fire.fireId := by
      rcases moved with ⟨rfl, -⟩ | ⟨-, rfl | ⟨-, rfl⟩⟩
      · rfl
      · rfl
      · rfl
    obtain rfl : fire = first :=
      s.fire_unique listed created.isFirst (sameId.symm.trans (same.trans key))
    rcases moved with ⟨-, other⟩ | ⟨-, rfl | ⟨other, -⟩⟩
    · exact absurd rfl other
    · rw [task]
      rfl
    · exact absurd rfl other
  · rcases rows a isA with beforeA | ⟨keyA, taskA⟩
    · rcases rows b isB with beforeB | ⟨keyB, -⟩
      · exact sound.once a beforeA b beforeB same
      · exact absurd (same.trans keyB) (unused a beforeA)
    · rcases rows b isB with beforeB | ⟨-, taskB⟩
      · exact absurd (same.symm.trans keyA) (unused b beforeB)
      · rw [taskA, taskB]
  · rcases rows occurrence listed with before | ⟨key, -⟩
    · exact taken.occurrences occurrence before same
    · have took := taken.fires first created.isFirst (key.symm.trans same)
      rw [unclaimed] at took
      cases took

theorem Sound.grow (sound : Sound used s) (more : List Id) : Sound (used ++ more) s where
  drawn fire listed := List.mem_append_left _ (sound.drawn fire listed)
  keys occurrence listed := List.mem_append_left _ (sound.keys occurrence listed)
  pending := sound.pending
  primary := sound.primary
  once := sound.once

theorem moves_follows (sound : Sound used s) (fires : s.fires.MapsBy FireRow.Continues t.fires)
    (occurrences : ∀ occurrence ∈ t.occurrences.rows, ∃ old ∈ s.occurrences.rows,
      occurrence.occurrenceKey = old.occurrenceKey ∧ occurrence.taskId = old.taskId) :
    Sound used t ∧ (∀ id taskId, s.Taken id taskId → t.Taken id taskId) ∧
      ∀ id owner epoch, s.Stamped id owner epoch → t.Stamped id owner epoch := by
  refine ⟨sound_of_moves sound fires occurrences, fun id taskId taken => ?_,
    fun id owner epoch stamped => stamped_of_moves fires stamped⟩
  refine taken_of_moves sound fires taken fun occurrence listed same => ?_
  obtain ⟨old, isOld, key, task⟩ := occurrences occurrence listed
  rw [task]
  exact taken.occurrences old isOld (key.symm.trans same)

/-- **One operation** keeps the facts and the occurrences sound, and what it finds known of
them. -/
theorem perform_follows (env : InsertEnv) {op : Operation} (sound : Sound used s)
    (fresh : ∀ id ∈ op.drawn, id ∉ used) :
    Sound (used ++ op.drawn) (op.perform env s) ∧ Follows used s (op.perform env s) := by
  have epochs := perform_epochs env s op
  -- Every effect but two only moves facts.
  have moved : s.fires.MapsBy FireRow.Continues (op.perform env s).fires →
      (∀ occurrence ∈ (op.perform env s).occurrences.rows, ∃ old ∈ s.occurrences.rows,
        occurrence.occurrenceKey = old.occurrenceKey ∧ occurrence.taskId = old.taskId) →
      Sound (used ++ op.drawn) (op.perform env s) ∧ Follows used s (op.perform env s) := by
    intro fires occurrences
    obtain ⟨after, taken, stamped⟩ := moves_follows sound fires occurrences
    exact ⟨after.grow _, fun id _ => taken id, fun id _ => stamped id, epochs⟩
  have still : s.fires.MapsBy FireRow.Continues s.fires :=
    Indexed.MapsBy.refl fun _ _ => ⟨rfl, rfl, rfl, fun _ => rfl, fun _ => rfl⟩
  have continues : ∀ {now : Option Instant} {fires : Indexed FireRow.keys},
      s.fires.MapsBy (FireRow.Moves now) fires → s.fires.MapsBy FireRow.Continues fires :=
    fun moves => moves.mono fun _ _ _ => FireRow.Moves.continues
  have same : (op.perform env s).occurrences = s.occurrences →
      ∀ occurrence ∈ (op.perform env s).occurrences.rows, ∃ old ∈ s.occurrences.rows,
        occurrence.occurrenceKey = old.occurrenceKey ∧ occurrence.taskId = old.taskId :=
    fun kept occurrence listed => ⟨occurrence, kept ▸ listed, rfl, rfl⟩
  cases perform_effect env s op with
  | quiet only => exact moved (only.fires ▸ still) (same only.occurrences)
  | inserted checks free rows fires occurrences => exact moved (fires ▸ still) (same occurrences)
  | edited runs edited => exact moved (continues edited.fires) (same edited.occurrences)
  | expired expired => exact moved (continues expired.fires) (same expired.occurrences)
  | settledFires responsibilities fires occurrences => exact moved (continues fires) (same occurrences)
  | recorded returned recorded =>
    obtain ⟨after, taken, stamped⟩ := recorded.sound sound (fresh _ (List.mem_singleton_self _))
    exact ⟨after, taken, stamped, epochs⟩
  | created created =>
    obtain ⟨after, taken⟩ := created.sound sound
    exact ⟨after.grow _, fun id _ => taken id,
      fun id _ owner epoch => stamped_of_moves created.continues, epochs⟩
  | settled named settled =>
    refine moved (settled.fires ▸ still) fun occurrence listed => ?_
    rw [settled.occurrences] at listed
    obtain ⟨old, isOld, rfl⟩ := List.mem_map.mp listed
    refine ⟨old, isOld, ?_⟩
    unfold RespStore.settledRow
    split
    · exact ⟨rfl, rfl⟩
    · exact ⟨rfl, rfl⟩

/-- The run lemma: no id is drawn twice. -/
theorem run_follows (env : InsertEnv) (sound : Sound used s)
    (fresh : (used ++ ops.flatMap Operation.drawn).Nodup) :
    Sound (used ++ ops.flatMap Operation.drawn) (run (Operation.perform env) s ops) ∧
      Follows used s (run (Operation.perform env) s ops) := by
  induction ops generalizing used s with
  | nil =>
    simp only [List.flatMap_nil, List.append_nil]
    exact ⟨sound, .refl used s⟩
  | cons op rest ih =>
    rw [List.flatMap_cons, ← List.append_assoc] at fresh ⊢
    have firstFresh : (used ++ op.drawn).Nodup := fresh.of_append_left
    obtain ⟨after, follows⟩ := perform_follows env sound fun id listed isUsed =>
      (List.nodup_append.mp firstFresh).2.2 id isUsed id listed rfl
    obtain ⟨last, later⟩ := ih after fresh
    exact ⟨last, follows.trans later⟩

theorem sound_empty (tasks : TaskStore.Store) : Sound [] (.empty tasks) where
  drawn _ listed := absurd listed List.not_mem_nil
  keys _ listed := absurd listed List.not_mem_nil
  pending _ listed := absurd listed List.not_mem_nil
  primary _ listed := absurd listed List.not_mem_nil
  once _ listed := absurd listed List.not_mem_nil

/-! ## The protocol -/

theorem one_open (s : RespStore) (left : a ∈ s.occurrences.rows)
    (right : b ∈ s.occurrences.rows) (leftOpen : a.isOpen = true) (rightOpen : b.isOpen = true)
    (same : a.responsibilityId = b.responsibilityId) : a = b := by
  refine s.occurrences.unique (k := .oneOpen b.responsibilityId) left right ?_ ?_
  · simp [OccurrenceRow.keys, leftOpen, same]
  · simp [OccurrenceRow.keys, rightOpen]

theorem reached_sound (env : InsertEnv) (tasks : TaskStore.Store)
    (fresh : (ops.flatMap Operation.drawn).Nodup) :
    Sound (ops.flatMap Operation.drawn) (reached env tasks ops) :=
  (run_follows env (sound_empty tasks) fresh).1

/-- What a later state of a run knows of an earlier one. -/
theorem reached_follows (env : InsertEnv) (tasks : TaskStore.Store)
    (fresh : ((front ++ back).flatMap Operation.drawn).Nodup) :
    Follows (front.flatMap Operation.drawn) (reached env tasks front) (reached env tasks (front ++ back)) := by
  rw [List.flatMap_append] at fresh
  rw [reached_append]
  exact (run_follows env (reached_sound env tasks fresh.of_append_left) fresh).2

/-- Two occurrences with one fact, in two states of a run, are one. -/
theorem consumes_once (env : InsertEnv) (tasks : TaskStore.Store)
    (fresh : ((front ++ back).flatMap Operation.drawn).Nodup)
    (before : (reached env tasks front).Consumes a fireId)
    (after : (reached env tasks (front ++ back)).Consumes b fireId) : a.taskId = b.taskId := by
  have freshFront : (front.flatMap Operation.drawn).Nodup := by
    rw [List.flatMap_append] at fresh
    exact fresh.of_append_left
  obtain ⟨isUsed, taken⟩ := (reached_sound env tasks freshFront).taken before
  have takenLater := (reached_follows env tasks fresh).taken fireId isUsed a.taskId taken
  exact (takenLater.consumes after).symm

/-- A fact keeps its owner and its epoch, as long as it is there. -/
theorem stamped_later (env : InsertEnv) (tasks : TaskStore.Store) (front back : List Operation)
    (fresh : ((front ++ back).flatMap Operation.drawn).Nodup)
    (listed : fire ∈ (reached env tasks front).fires.rows)
    (listed' : fire' ∈ (reached env tasks (front ++ back)).fires.rows) (same : fire'.fireId = fire.fireId) :
    fire'.responsibilityId = fire.responsibilityId ∧ fire'.controlEpoch = fire.controlEpoch := by
  have freshFront : (front.flatMap Operation.drawn).Nodup := by
    rw [List.flatMap_append] at fresh
    exact fresh.of_append_left
  have isUsed := (reached_sound env tasks freshFront).drawn fire listed
  have stamped : (reached env tasks front).Stamped fire.fireId fire.responsibilityId
      fire.controlEpoch := by
    intro other isOther sameId
    rw [RespStore.fire_unique _ isOther listed sameId]
    exact ⟨rfl, rfl⟩
  exact (reached_follows env tasks fresh).stamped _ isUsed _ _ stamped fire' listed' same

/-- **The occurrence protocol**, in any three states of a run, one after the other, in which
no fact id is drawn twice.  A responsibility has at most one open occurrence; a fact is
consumed by at most one, at whatever times; the primary fact of a new occurrence is on the
epoch of its responsibility, and is none that was recorded on an epoch left since. -/
theorem occurrence_protocol (env : InsertEnv) (tasks : TaskStore.Store)
    {front middle back : List Operation} (fresh : ((front ++ middle ++ back).flatMap Operation.drawn).Nodup) :
    (∀ a ∈ (reached env tasks front).occurrences.rows,
      ∀ b ∈ (reached env tasks front).occurrences.rows, a.isOpen = true → b.isOpen = true →
        a.responsibilityId = b.responsibilityId → a = b) ∧
    (∀ fireId a b, (reached env tasks front).Consumes a fireId →
      ((reached env tasks front).Consumes b fireId → a = b) ∧
      ((reached env tasks (front ++ middle)).Consumes b fireId → a.taskId = b.taskId)) ∧
    ∀ req taskId coalesced later, (reached env tasks (front ++ middle ++ back)).materializeOccurrence env req =
        .ok (.created taskId coalesced, later) →
      ∃ resp ∈ (reached env tasks (front ++ middle ++ back)).responsibilities.rows,
      ∃ primary ∈ (reached env tasks (front ++ middle ++ back)).fires.rows, ∃ occurrence,
        later.occurrences.rows =
          (reached env tasks (front ++ middle ++ back)).occurrences.rows ++ [occurrence] ∧
        occurrence.taskId = taskId ∧ occurrence.responsibilityId = resp.responsibilityId ∧
        occurrence.occurrenceKey = primary.fireId ∧
        primary.responsibilityId = resp.responsibilityId ∧ primary.state = .pending ∧
        primary.controlEpoch = resp.controlEpoch ∧ ∀ old ∈ (reached env tasks front).fires.rows,
          ∀ left ∈ (reached env tasks (front ++ middle)).responsibilities.rows,
            left.responsibilityId = old.responsibilityId → old.controlEpoch < left.controlEpoch →
              primary.fireId ≠ old.fireId := by
  have freshMiddle : ((front ++ middle).flatMap Operation.drawn).Nodup := by
    rw [List.flatMap_append] at fresh
    exact fresh.of_append_left
  have freshFront : (front.flatMap Operation.drawn).Nodup := by
    rw [List.flatMap_append] at freshMiddle
    exact freshMiddle.of_append_left
  refine ⟨fun a isA b isB => one_open _ isA isB, fun fireId a b before => ⟨fun also => ?_, ?_⟩, ?_⟩
  · have taken := ((reached_sound env tasks freshFront).taken before).2
    exact RespStore.occurrence_unique _ before.1 also.1 (taken.consumes also).symm
  · exact consumes_once env tasks freshMiddle before
  intro req taskId coalesced later returned
  rcases materialize_cases returned with
    ⟨-, not⟩ | ⟨other, -⟩ | ⟨other, -⟩ | ⟨⟨count, named⟩, resp, primary, created⟩
  · exact absurd rfl (not taskId coalesced)
  · cases other
  · cases other
  obtain ⟨rfl, -⟩ := MaterializeOutcome.created.inj named
  refine ⟨resp, created.isResp, primary, created.isFirst, _, created.occurrences, rfl, rfl, rfl,
    created.owner, created.pending, created.epoch, fun old isOld left isLeft owner older same => ?_⟩
  -- The fact kept its epoch, and that of its responsibility went on from `left`.
  obtain ⟨ownerKept, epochKept⟩ := stamped_later env tasks front (middle ++ back)
    (by rwa [← List.append_assoc]) isOld (by rw [← List.append_assoc]; exact created.isFirst) same
  obtain ⟨now, isNow, nowId, grown⟩ := (reached_follows env tasks fresh).epochs left isLeft
  obtain rfl : now = resp := RespStore.responsibility_unique _ isNow created.isResp
    (nowId.trans (owner.trans (ownerKept.symm.trans created.owner)))
  have current := created.epoch
  omega

/-- A fact is pending when its responsibility is disabled and enabled again, with a new
subscription. -/
def sampleRenewal : List Operation :=
  [.disable ['r'] 1 [] second,
    .enable ['r'] 2 fun row _ => .ok
      [{ wakeupId := ['v'], responsibilityId := ['r'], controlEpoch := row.controlEpoch
         kind := .event, recurring := true, dueAt := none, eventFilterJson := none
         armedBy := ['u'], state := .armed, createdAt := [] }]]

def sampleRenewedFire : Operation :=
  .recordFire ['g']
    { wakeupId := ['v'], fireKey := ['k', 'k'], reason := ['t', 'i', 'm', 'e'], dataJson := none
      guardFlagsJson := none, dropped := none }
    none (2 * second)

def sampleRenewedRequest : MaterializeRequest where
  responsibilityId := ['r']
  expectedFireId := ['g']
  expectedEpoch := 3
  task :=
    { row := TaskStore.sampleRow ['t'] .todo none, contracts := [], timeoutSecs := none
      discoveryRunId := none, discoverySpecJson := none, ownerRefused := false }
  periodKey := ['p']
  periodSpentCents := 0
  predecessorTaskId := none
  now := 3 * second

/-- The occurrence of the renewed subscription is made from its own fact. -/
theorem occurrence_protocol_renewed :
    ∃ resp ∈ (afterOperations ([sampleResponsibility 1 5 5 2, sampleFire ['f'] ['k'] 0] ++
        sampleRenewal ++ [sampleRenewedFire])).responsibilities.rows,
    ∃ primary ∈ (afterOperations ([sampleResponsibility 1 5 5 2, sampleFire ['f'] ['k'] 0] ++
        sampleRenewal ++ [sampleRenewedFire])).fires.rows,
      primary.state = .pending ∧ primary.controlEpoch = resp.controlEpoch := by
  have isCreated : ((afterOperations ([sampleResponsibility 1 5 5 2, sampleFire ['f'] ['k'] 0] ++
      sampleRenewal ++ [sampleRenewedFire])).materializeOccurrence TaskStore.sampleInsertEnv
        sampleRenewedRequest).toOption.map Prod.fst = some (.created ['t'] 0) := by decide
  have fresh : (([sampleResponsibility 1 5 5 2, sampleFire ['f'] ['k'] 0] ++ sampleRenewal ++
      [sampleRenewedFire]).flatMap Operation.drawn).Nodup := by decide
  obtain ⟨-, -, created⟩ :=
    occurrence_protocol TaskStore.sampleInsertEnv (TaskStore.Store.start []) fresh
  obtain ⟨later, returned⟩ := ok_of_fst isCreated
  obtain ⟨resp, isResp, primary, isPrimary, -, -, -, -, -, -, pending, epoch, -⟩ :=
    created sampleRenewedRequest ['t'] 0 later returned
  exact ⟨resp, isResp, primary, isPrimary, pending, epoch⟩

end DuDuClaw.Responsibility
