/-
# TaskStore.Steering -- directions for a running goal, and the round that carries them

`task_steering` and `task_dispatch_intents` (task_store/steering.rs), the queue message
under the intent's id, and the two parties that move them: the driver of goal_loop/durable.rs
opens an intent, enqueues the message and then records that it was sent; the dispatcher
picks the message up, fences it, and starts the round or gives it back.  Every
transaction is one event, and any order of events is a run.

`return_unrun_round` abandons an intent that is `enqueued` and takes back what is
`applied`.  Given back before the driver has recorded the send, the round is `intended`
and its directions `delivering`: nothing is taken back, and the record that follows
applies them to a round that never ran.

* `Handoff.step_sound`: what one event keeps.
* `steering_never_lost`: over every run in which no round is given back before its send
  is recorded.
* `steering_applied_to_returned_round`: the order in which it fails.
-/
import Mathlib.Data.List.MinMax
import DuDuClaw.TaskStore.Rows

namespace DuDuClaw.TaskStore

open DuDuClaw.Lib

/-! ## Tables -/

inductive SteeringState where
  | pending
  | delivering
  | applied
  | discarded
  deriving DecidableEq

/-- A row of `task_steering`. -/
structure SteeringRow where
  steeringId : Text
  taskId : Id
  seq : Int
  body : Text
  bodyHash : Text
  guardFlagsJson : Text
  submittedBy : Text
  submittedAuthorityRevision : Int
  clientRequestId : Text
  state : SteeringState
  intentId : Option Text
  appliedRound : Option Int
  appliedMessageId : Option Text
  appliedAuthorityRevision : Option Int
  discardReason : Option Text
  createdAt : Text
  updatedAt : Text

inductive IntentState where
  | intended
  | enqueued
  | abandoned
  deriving DecidableEq

/-- A row of `task_dispatch_intents`. -/
structure DispatchIntentRow where
  intentId : Text
  taskId : Id
  iter : Int
  authorityRevision : Int
  state : IntentState
  createdAt : Text
  updatedAt : Text
  startedAt : Option Text

inductive MessageStatus where
  | pending
  | acked
  | failed

/-- A message of the queue, as far as the handoff looks at it. -/
structure QueueMessage where
  id : Text
  status : MessageStatus

/-- The tables of the handoff.  `returned` is no table: it remembers the rounds of open
tasks that were given back before anything had started them. -/
structure Handoff where
  store : Store
  intents : Table DispatchIntentRow.intentId
  steering : Table SteeringRow.steeringId
  queue : List QueueMessage
  returned : List Text

def Handoff.start (occurrences : List Id) : Handoff where
  store := Store.start occurrences
  intents := .empty
  steering := .empty
  queue := []
  returned := []

/-- `COALESCE((SELECT status ..), 'done') NOT IN ('done','failed','cancelled')`. -/
def Store.stillOpen (s : Store) (id : Id) : Bool :=
  (s.getTask id).any fun row => !row.status.isTerminal

/-! ## Submitting -/

def steeringOpenLimit : Nat := 10

/-- What `submit_steering` is given. -/
structure NewSteering where
  taskId : Id
  body : Text
  bodyHash : Text
  guardFlagsJson : Text
  submittedBy : Text
  clientRequestId : Text

inductive SteeringSubmit where
  | created (row : SteeringRow)
  | duplicate (row : SteeringRow)

def isOpenSteering (taskId : Id) (row : SteeringRow) : Bool :=
  row.taskId == taskId && (row.state == .pending || row.state == .delivering)

/-- `submit_steering`; `steeringId` is the new uuid.  The errors are the closed tokens. -/
def Handoff.submitSteering (env : InsertEnv) (h : Handoff) (new : NewSteering) (steeringId now : Text) :
    Except Text SteeringSubmit × Handoff :=
  if !env.contractSafe new.body then
    (.error "credentials are not accepted in frozen task contracts".toList, h)
  else
    match h.steering.rows.find? fun row =>
        row.taskId == new.taskId && row.clientRequestId == new.clientRequestId with
    | some existing => (.ok (.duplicate existing), h)
    | none =>
      match (h.store.getTask new.taskId).filter TaskRow.isWork with
      | none => (.error "task_not_found".toList, h)
      | some task =>
        if !task.goalMode then (.error "not_a_goal_task".toList, h)
        else if h.store.inStopTree new.taskId then (.error "task_stopped".toList, h)
        else if task.status.isTerminal then (.error "task_finished".toList, h)
        else if steeringOpenLimit ≤ h.steering.rows.countP (isOpenSteering new.taskId) then
          (.error "steering_limit".toList, h)
        else
          let row : SteeringRow :=
            { steeringId := steeringId
              taskId := new.taskId
              seq := ((h.steering.rows.filter fun row => row.taskId == new.taskId).map
                SteeringRow.seq).foldl max 0 + 1
              body := new.body
              bodyHash := new.bodyHash
              guardFlagsJson := env.maskDerivedText new.guardFlagsJson
              submittedBy := new.submittedBy
              submittedAuthorityRevision := task.authorityRevision
              clientRequestId := new.clientRequestId
              state := .pending
              intentId := none
              appliedRound := none
              appliedMessageId := none
              appliedAuthorityRevision := none
              discardReason := none
              createdAt := now
              updatedAt := now }
          match h.steering.insert row with
          | none => (.error "submit steering: insert: UNIQUE constraint failed".toList, h)
          | some steering => (.ok (.created row), { h with steering := steering })

/-- `discard_steering_of_finished_tasks`. -/
def discardFinishedEdit (s : Store) (now : Text) (row : SteeringRow) : SteeringRow :=
  if isOpenSteering row.taskId row && !s.stillOpen row.taskId then
    { row with
      state := .discarded
      discardReason := some
        (if (s.getTask row.taskId).map TaskRow.status = some .cancelled then
          "task_cancelled".toList else "task_finished".toList)
      updatedAt := now }
  else row

def Handoff.discardSteeringOfFinishedTasks (h : Handoff) (now : Text) : Handoff :=
  { h with
    steering := h.steering.update (discardFinishedEdit h.store now)
      fun _ => keep_ite SteeringRow.steeringId rfl }

/-! ## The driver -/

inductive IntentBegin where
  | ready (intent : DispatchIntentRow) (steering : List SteeringRow)
  | refused (reason : Text)
  | failed

-- The computable order of the integers, whatever else is imported.
local instance iterOrder : Preorder Int := Int.instLinearOrder.toPreorder

/-- `intent_conn`: the intent of the task in this state with the highest iteration. -/
def Handoff.intentIn (h : Handoff) (taskId : Id) (state : IntentState) : Option DispatchIntentRow :=
  (h.intents.rows.filter fun intent => intent.taskId == taskId && intent.state == state).argmax
    DispatchIntentRow.iter

/-- `goal:<task>:<iter>`. -/
def intentIdOf (taskId : Id) (iter : Int) : Text :=
  "goal:".toList ++ taskId ++ ':' :: Nat.toDigits 10 iter.toNat

def Handoff.newIntent (h : Handoff) (taskId : Id) (requestedIter authorityRevision : Int)
    (now : Text) : DispatchIntentRow :=
  let maxIter := ((h.intents.rows.filter fun intent => intent.taskId == taskId).map
    DispatchIntentRow.iter).foldl max 0
  let iter := max (max requestedIter (maxIter + 1)) 1
  { intentId := intentIdOf taskId iter
    taskId := taskId
    iter := iter
    authorityRevision := authorityRevision
    state := .intended
    createdAt := now
    updatedAt := now
    startedAt := none }

def deliverEdit (taskId : Id) (intentId now : Text) (row : SteeringRow) : SteeringRow :=
  if row.taskId = taskId ∧ row.state = .pending then
    { row with state := .delivering, intentId := some intentId, updatedAt := now }
  else row

def Handoff.deliver (h : Handoff) (intents : Table DispatchIntentRow.intentId)
    (intent : DispatchIntentRow) (taskId : Id) (now : Text) : IntentBegin × Handoff :=
  let steering := h.steering.update (deliverEdit taskId intent.intentId now)
    fun _ => keep_ite SteeringRow.steeringId rfl
  (.ready intent (steering.rows.filter fun row => row.taskId == taskId && row.state == .delivering &&
      row.intentId == some intent.intentId),
    { h with intents := intents, steering := steering })

/-- `begin_dispatch_intent`; `gate` is the refusal of `occurrence_gate_conn`, which reads
the tables of the responsibilities. -/
def Handoff.beginDispatchIntent (h : Handoff) (taskId : Id) (requestedIter : Int)
    (gate : Option Text) (now : Text) : IntentBegin × Handoff :=
  match h.store.getTask taskId with
  | none => (.refused "task_missing".toList, h)
  | some task =>
    if h.store.inStopTree taskId then (.refused "task_stopped".toList, h)
    else if !([Status.todo, .pending, .revising].contains task.status) then
      (.refused "task_not_dispatchable".toList, h)
    else
      match gate with
      | some reason => (.refused reason, h)
      | none =>
        match h.intentIn taskId .intended with
        | some existing => h.deliver h.intents existing taskId now
        | none =>
          let intent := h.newIntent taskId requestedIter task.authorityRevision now
          match h.intents.insert intent with
          | none => (.failed, h)
          | some intents => h.deliver intents intent taskId now

/-- The message is sent under the intent's id, unless it is there already. -/
def Handoff.enqueue (h : Handoff) (intentId : Text) : Handoff :=
  if h.queue.any fun message => message.id == intentId then h
  else { h with queue := h.queue ++ [⟨intentId, .pending⟩] }

def completeIntentEdit (intentId now : Text) (intent : DispatchIntentRow) : DispatchIntentRow :=
  if intent.intentId = intentId ∧ intent.state = .intended then
    { intent with state := .enqueued, updatedAt := now }
  else intent

def applyEdit (s : Store) (intentId : Text) (appliedRound : Int) (now : Text) (row : SteeringRow) :
    SteeringRow :=
  if row.intentId = some intentId ∧ row.state = .delivering then
    { row with
      state := .applied, appliedRound := some appliedRound, appliedMessageId := some intentId
      updatedAt := now
      appliedAuthorityRevision := (s.getTask row.taskId).map TaskRow.authorityRevision }
  else row

def Handoff.completeDispatchIntent (h : Handoff) (intentId : Text) (appliedRound : Int)
    (now : Text) : Handoff :=
  { h with
    intents := h.intents.update (completeIntentEdit intentId now)
      fun _ => keep_ite DispatchIntentRow.intentId rfl
    steering := h.steering.update (applyEdit h.store intentId appliedRound now)
      fun _ => keep_ite SteeringRow.steeringId rfl }

def abandonIntentEdit (state : IntentState) (intentId now : Text) (intent : DispatchIntentRow) :
    DispatchIntentRow :=
  if intent.intentId = intentId ∧ intent.state = state then
    { intent with state := .abandoned, updatedAt := now }
  else intent

theorem abandonIntentEdit_key (state : IntentState) (intentId now : Text) (intent : DispatchIntentRow) :
    (abandonIntentEdit state intentId now intent).intentId = intent.intentId :=
  keep_ite DispatchIntentRow.intentId rfl

def undeliverEdit (s : Store) (intentId now : Text) (row : SteeringRow) : SteeringRow :=
  if row.intentId = some intentId ∧ row.state = .delivering then
    { row with
      state := if s.stillOpen row.taskId then .pending else .discarded
      discardReason := if s.stillOpen row.taskId then none else some "task_finished".toList
      intentId := none, updatedAt := now }
  else row

def Handoff.abandonDispatchIntent (h : Handoff) (intentId now : Text) : Handoff :=
  { h with
    intents := h.intents.update (abandonIntentEdit .intended intentId now)
      (abandonIntentEdit_key .intended intentId now)
    steering := h.steering.update (undeliverEdit h.store intentId now)
      fun _ => keep_ite SteeringRow.steeringId rfl }

/-! ## The dispatcher -/

/-- `claim_pending` and `fail` of the queue. -/
def Handoff.setMessage (h : Handoff) (id : Text) (status : MessageStatus) : Handoff :=
  { h with
    queue := h.queue.map fun message => if message.id = id then { message with status := status }
      else message }

/-- The text of the column `status`. -/
def Status.text : Status → Text
  | .todo => "todo".toList
  | .pending => "pending".toList
  | .inProgress => "in_progress".toList
  | .review => "review".toList
  | .revising => "revising".toList
  | .needsHuman => "needs_human".toList
  | .blocked => "blocked".toList
  | .queued => "queued".toList
  | .pendingApproval => "pending_approval".toList
  | .done => "done".toList
  | .cancelled => "cancelled".toList
  | .failed => "failed".toList
  | .other name => name

def lastSegment (text : Text) : Text := (text.reverse.takeWhile (· != ':')).reverse

/-- `fence_goal_dispatch`: may the round still be handed to an employee? -/
def Handoff.fenceGoalDispatch (h : Handoff) (intentId : Text) (gate : Option Text) :
    Except Text Unit :=
  match h.intents.rows.find? fun intent => intent.intentId == intentId with
  | none => .error "stale_dispatch_fenced: no intent".toList
  | some intent =>
    if intent.state = .abandoned then .error "stale_dispatch_fenced: intent abandoned".toList
    else
      match h.store.getTask intent.taskId with
      | none => .error "stale_dispatch_fenced: task missing".toList
      | some task =>
        if h.store.inStopTree intent.taskId then
          .error "stale_dispatch_fenced: task stopped".toList
        else if !([Status.todo, .pending, .revising].contains task.status) then
          .error ("stale_dispatch_fenced: task ".toList ++ task.status.text)
        else if intentId ≠ "goal:".toList ++ intent.taskId ++ ':' :: lastSegment intentId then
          .error "stale_dispatch_fenced: intent id does not name its task".toList
        else
          match gate with
          | some reason => .error ("stale_dispatch_fenced: ".toList ++ reason)
          | none => .ok ()

def startEdit (intentId now : Text) (intent : DispatchIntentRow) : DispatchIntentRow :=
  if intent.intentId = intentId then
    { intent with startedAt := intent.startedAt.or (some now) }
  else intent

def Handoff.markRoundStarted (h : Handoff) (intentId now : Text) : Bool × Handoff :=
  (h.intents.rows.any fun intent => intent.intentId == intentId,
    { h with
      intents := h.intents.update (startEdit intentId now)
        fun _ => keep_ite DispatchIntentRow.intentId rfl })

def Handoff.started (h : Handoff) (intentId : Text) : Bool :=
  h.intents.rows.any fun intent => intent.intentId == intentId && intent.startedAt.isSome

def takeBackEdit (s : Store) (messageId now : Text) (row : SteeringRow) : SteeringRow :=
  if row.appliedMessageId = some messageId ∧ row.state = .applied ∧ s.stillOpen row.taskId = true then
    { row with
      state := .pending, intentId := none, appliedRound := none, appliedMessageId := none
      appliedAuthorityRevision := none, updatedAt := now }
  else row

/-- The round is one of a task that can still run. -/
def Handoff.roundOpen (h : Handoff) (messageId : Text) : Bool :=
  h.intents.rows.any fun intent => intent.intentId == messageId && h.store.stillOpen intent.taskId

def Handoff.returnUnrunRound (h : Handoff) (messageId now : Text) : Handoff :=
  if h.started messageId then h
  else
    { h with
      intents := h.intents.update (abandonIntentEdit .enqueued messageId now)
        (abandonIntentEdit_key .enqueued messageId now)
      steering := h.steering.update (takeBackEdit h.store messageId now)
        fun _ => keep_ite SteeringRow.steeringId rfl
      returned := if h.roundOpen messageId then messageId :: h.returned else h.returned }

/-! ## Operations on tasks -/

def discardStoppedEdit (tree : List Id) (now : Text) (row : SteeringRow) : SteeringRow :=
  if tree.contains row.taskId && isOpenSteering row.taskId row then
    { row with state := .discarded, discardReason := some "task_stopped".toList, updatedAt := now }
  else row

def abandonStoppedEdit (tree : List Id) (now : Text) (intent : DispatchIntentRow) :
    DispatchIntentRow :=
  if tree.contains intent.taskId && intent.state == .intended then
    { intent with state := .abandoned, updatedAt := now }
  else intent

/-- The part of `stop_task_tree` that writes the tables of the handoff. -/
def Handoff.stopped (h : Handoff) (tree : List Id) (now : Text) : Handoff :=
  { h with
    steering := h.steering.update (discardStoppedEdit tree now)
      fun _ => keep_ite SteeringRow.steeringId rfl
    intents := h.intents.update (abandonStoppedEdit tree now)
      fun _ => keep_ite DispatchIntentRow.intentId rfl }

/-- An operation on the tasks; a stop that is committed also ends the rounds of its tree. -/
def Handoff.perform (env : InsertEnv) (h : Handoff) (op : StoreOp) : Handoff :=
  let next := { h with store := op.perform env h.store }
  match op with
  | .row (.edit (.stopTree root revision requestedBy countsAsFailure now)) =>
    match (h.store.stopTaskTree root revision requestedBy countsAsFailure now).1 with
    | .requested request => next.stopped request.affectedTaskIds now
    | _ => next
  | _ => next

/-! ## Events -/

inductive HandoffEvent where
  | submit (new : NewSteering) (steeringId now : Text)
  | discardFinished (now : Text)
  | begin_ (taskId : Id) (requestedIter : Int) (gate : Option Text) (now : Text)
  | enqueue (intentId : Text)
  | complete (intentId : Text) (appliedRound : Int) (now : Text)
  | abandon (intentId now : Text)
  | pickUp (messageId : Text)
  | failMessage (messageId : Text)
  | fence (messageId : Text) (gate : Option Text)
  | start (messageId now : Text)
  | giveBack (messageId now : Text)
  | tasks (op : StoreOp)

def Handoff.step (env : InsertEnv) (h : Handoff) : HandoffEvent → Handoff
  | .submit new steeringId now => (h.submitSteering env new steeringId now).2
  | .discardFinished now => h.discardSteeringOfFinishedTasks now
  | .begin_ taskId requestedIter gate now => (h.beginDispatchIntent taskId requestedIter gate now).2
  | .enqueue intentId => h.enqueue intentId
  | .complete intentId appliedRound now => h.completeDispatchIntent intentId appliedRound now
  | .abandon intentId now => h.abandonDispatchIntent intentId now
  | .pickUp messageId => h.setMessage messageId .acked
  | .failMessage messageId => h.setMessage messageId .failed
  | .fence _ _ => h
  | .start messageId now => (h.markRoundStarted messageId now).2
  | .giveBack messageId now => h.returnUnrunRound messageId now
  | .tasks op => h.perform env op

/-- No round is given back before its send is recorded: its intent is not `intended`, or
it was started. -/
def HandoffEvent.recorded (h : Handoff) : HandoffEvent → Bool
  | .giveBack messageId _ => h.started messageId ||
      h.intents.rows.all fun intent => intent.intentId != messageId || intent.state != .intended
  | _ => true

/-! ## What every event keeps -/

structure Handoff.Sound (h : Handoff) : Prop where
  oneIntended : ∀ a ∈ h.intents.rows, ∀ b ∈ h.intents.rows, a.state = .intended →
    b.state = .intended → a.taskId = b.taskId → a = b
  delivering : ∀ row ∈ h.steering.rows, row.state = .delivering →
    ∃ intent ∈ h.intents.rows, row.intentId = some intent.intentId ∧
      intent.state = .intended ∧ intent.taskId = row.taskId
  applied : ∀ row ∈ h.steering.rows, row.state = .applied →
    ∃ intent ∈ h.intents.rows, row.appliedMessageId = some intent.intentId ∧
      intent.taskId = row.taskId
  returned : ∀ message ∈ h.returned, ∃ intent ∈ h.intents.rows, intent.intentId = message ∧
    intent.state ≠ .intended
  unreturned : ∀ row ∈ h.steering.rows, row.state = .applied → ∀ message ∈ h.returned,
    row.appliedMessageId = some message → h.started message = true

theorem Handoff.start_sound (occurrences : List Id) : (Handoff.start occurrences).Sound where
  oneIntended _ listed := absurd listed List.not_mem_nil
  delivering _ listed := absurd listed List.not_mem_nil
  applied _ listed := absurd listed List.not_mem_nil
  returned _ listed := absurd listed List.not_mem_nil
  unreturned _ listed := absurd listed List.not_mem_nil

theorem Handoff.started_iff {h : Handoff} {message : Text} : h.started message = true ↔
      ∃ intent ∈ h.intents.rows, intent.intentId = message ∧ intent.startedAt.isSome = true := by
  simp [Handoff.started, List.any_eq_true]

/-- An edit of the intents opens none and forgets no start. -/
structure IntentEdit (edit : DispatchIntentRow → DispatchIntentRow) : Prop where
  key : ∀ intent, (edit intent).intentId = intent.intentId
  task : ∀ intent, (edit intent).taskId = intent.taskId
  opensNone : ∀ intent, (edit intent).state = .intended → intent.state = .intended
  keepsStart : ∀ intent, intent.startedAt.isSome = true → (edit intent).startedAt.isSome = true

theorem IntentEdit.id : IntentEdit fun intent => intent :=
  ⟨fun _ => rfl, fun _ => rfl, fun _ same => same, fun _ same => same⟩

/-- Both tables after an edit of each, with the rounds given back before. -/
structure Handoff.Edited (h h' : Handoff) (intentEdit : DispatchIntentRow → DispatchIntentRow)
    (steeringEdit : SteeringRow → SteeringRow) : Prop where
  intents : h'.intents.rows = h.intents.rows.map intentEdit
  steering : h'.steering.rows = h.steering.rows.map steeringEdit
  returned : h'.returned = h.returned

section Edited

variable {h h' : Handoff} {intentEdit : DispatchIntentRow → DispatchIntentRow}
  {steeringEdit : SteeringRow → SteeringRow}

theorem Handoff.Edited.mem_intents (edited : h.Edited h' intentEdit steeringEdit)
    {intent : DispatchIntentRow} :
    intent ∈ h'.intents.rows ↔ ∃ old ∈ h.intents.rows, intentEdit old = intent := by
  rw [edited.intents, List.mem_map]

theorem Handoff.Edited.mem_steering (edited : h.Edited h' intentEdit steeringEdit)
    {row : SteeringRow} : row ∈ h'.steering.rows ↔ ∃ old ∈ h.steering.rows, steeringEdit old = row := by
  rw [edited.steering, List.mem_map]

theorem Handoff.Edited.started (edited : h.Edited h' intentEdit steeringEdit)
    (edits : IntentEdit intentEdit) {message : Text} (was : h.started message = true) :
    h'.started message = true := by
  obtain ⟨intent, listed, rfl, started⟩ := Handoff.started_iff.mp was
  rw [Handoff.started_iff]
  exact ⟨intentEdit intent, edited.mem_intents.mpr ⟨intent, listed, rfl⟩, edits.key intent,
    edits.keepsStart intent started⟩

/-- **Edits that only take directions off the road keep the handoff sound.** -/
theorem Handoff.Edited.sound (edited : h.Edited h' intentEdit steeringEdit)
    (edits : IntentEdit intentEdit) (sound : h.Sound) (task : ∀ row, (steeringEdit row).taskId = row.taskId)
    (delivering : ∀ row ∈ h.steering.rows, (steeringEdit row).state = .delivering →
      row.state = .delivering ∧ (steeringEdit row).intentId = row.intentId ∧
        ∀ intent ∈ h.intents.rows, row.intentId = some intent.intentId →
          intent.state = .intended → intent.taskId = row.taskId → (intentEdit intent).state = .intended)
    (applied : ∀ row, (steeringEdit row).state = .applied →
      row.state = .applied ∧ (steeringEdit row).appliedMessageId = row.appliedMessageId) :
    h'.Sound where
  oneIntended a aListed b bListed aIntended bIntended sameTask := by
    obtain ⟨a, aOld, rfl⟩ := edited.mem_intents.mp aListed
    obtain ⟨b, bOld, rfl⟩ := edited.mem_intents.mp bListed
    rw [edits.task, edits.task] at sameTask
    rw [sound.oneIntended a aOld b bOld (edits.opensNone a aIntended) (edits.opensNone b bIntended)
      sameTask]
  delivering row listed state := by
    obtain ⟨row, old, rfl⟩ := edited.mem_steering.mp listed
    obtain ⟨was, sameIntent, stays⟩ := delivering row old state
    obtain ⟨intent, intentOld, names, intended, sameTask⟩ := sound.delivering row old was
    refine ⟨intentEdit intent, edited.mem_intents.mpr ⟨intent, intentOld, rfl⟩, ?_, ?_, ?_⟩
    · rw [sameIntent, names, edits.key]
    · exact stays intent intentOld names intended sameTask
    · rw [edits.task, task, sameTask]
  applied row listed state := by
    obtain ⟨row, old, rfl⟩ := edited.mem_steering.mp listed
    obtain ⟨was, sameMessage⟩ := applied row state
    obtain ⟨intent, intentOld, names, sameTask⟩ := sound.applied row old was
    refine ⟨intentEdit intent, edited.mem_intents.mpr ⟨intent, intentOld, rfl⟩, ?_, ?_⟩
    · rw [sameMessage, names, edits.key]
    · rw [edits.task, task, sameTask]
  returned message listed := by
    rw [edited.returned] at listed
    obtain ⟨intent, old, names, settled⟩ := sound.returned message listed
    refine ⟨intentEdit intent, edited.mem_intents.mpr ⟨intent, old, rfl⟩, ?_, ?_⟩
    · rw [edits.key, names]
    · exact fun intended => settled (edits.opensNone intent intended)
  unreturned row listed state message back names := by
    rw [edited.returned] at back
    obtain ⟨row, old, rfl⟩ := edited.mem_steering.mp listed
    obtain ⟨was, sameMessage⟩ := applied row state
    exact edited.started edits
      (sound.unreturned row old was message back (sameMessage.symm.trans names))

end Edited

variable {h : Handoff} {intent : DispatchIntentRow} {taskId : Id}

variable {intents : Table DispatchIntentRow.intentId} {state : IntentState}

/-- Soundness is a matter of the two tables and of what was given back. -/
theorem Handoff.Sound.congr {h' : Handoff} (sound : h.Sound) (intents : h'.intents = h.intents)
    (steering : h'.steering = h.steering) (returned : h'.returned = h.returned) : h'.Sound := by
  cases h
  cases h'
  cases intents
  cases steering
  cases returned
  exact ⟨sound.oneIntended, sound.delivering, sound.applied, sound.returned, sound.unreturned⟩

theorem submitSteering_sound (env : InsertEnv) (sound : h.Sound) (new : NewSteering)
    (steeringId now : Text) : (h.submitSteering env new steeringId now).2.Sound := by
  unfold Handoff.submitSteering
  split
  · exact sound
  split
  · exact sound
  split
  · exact sound
  split
  · exact sound
  split
  · exact sound
  split
  · exact sound
  split
  · exact sound
  dsimp only
  split
  · exact sound
  rename_i steering inserted
  obtain ⟨-, rows⟩ := Table.insert_cases inserted
  -- the new row is pending, so it is neither on the road nor applied
  have old : ∀ row ∈ steering.rows, row.state ≠ .pending → row ∈ h.steering.rows := by
    intro row listed moved
    rw [rows, List.mem_append, List.mem_singleton] at listed
    rcases listed with before | rfl
    · exact before
    · exact absurd rfl moved
  exact
    { oneIntended := sound.oneIntended
      delivering := fun row listed state =>
        sound.delivering row (old row listed (by simp [state])) state
      applied := fun row listed state =>
        sound.applied row (old row listed (by simp [state])) state
      returned := sound.returned
      unreturned := fun row listed state =>
        sound.unreturned row (old row listed (by simp [state])) state }

theorem discardSteeringOfFinishedTasks_sound (sound : h.Sound) (now : Text) :
    (h.discardSteeringOfFinishedTasks now).Sound := by
  have edited : h.Edited (h.discardSteeringOfFinishedTasks now) (fun intent => intent)
      (discardFinishedEdit h.store now) := ⟨(List.map_id _).symm, rfl, rfl⟩
  refine edited.sound .id sound (fun row => ?_) (fun row _ => ?_) (fun row => ?_)
  · exact keep_ite SteeringRow.taskId rfl
  · unfold discardFinishedEdit
    split
    · exact nofun
    · exact fun state => ⟨state, rfl, fun _ _ _ intended _ => intended⟩
  · unfold discardFinishedEdit
    split
    · exact nofun
    · exact fun state => ⟨state, rfl⟩

/-- **Pending directions leave with an intent that is intended.** -/
theorem deliver_sound (sound : ({ h with intents := intents } : Handoff).Sound)
    (listed : intent ∈ intents.rows) (intended : intent.state = .intended)
    (own : intent.taskId = taskId) (now : Text) : (h.deliver intents intent taskId now).2.Sound where
  oneIntended := sound.oneIntended
  returned := sound.returned
  delivering row isRow state := by
    obtain ⟨row, old, rfl⟩ := List.mem_map.mp isRow
    unfold deliverEdit at state ⊢
    split
    · rename_i leaves
      exact ⟨intent, listed, rfl, intended, own.trans leaves.1.symm⟩
    · rename_i stays
      rw [if_neg stays] at state
      exact sound.delivering row old state
  applied row isRow state := by
    obtain ⟨row, old, rfl⟩ := List.mem_map.mp isRow
    unfold deliverEdit at state ⊢
    split at state
    · cases state
    · rename_i stays
      rw [if_neg stays]
      exact sound.applied row old state
  unreturned row isRow state := by
    obtain ⟨row, old, rfl⟩ := List.mem_map.mp isRow
    unfold deliverEdit at state ⊢
    split at state
    · cases state
    · rename_i stays
      rw [if_neg stays]
      exact sound.unreturned row old state

theorem intentIn_some (found : h.intentIn taskId state = some intent) :
    intent ∈ h.intents.rows ∧ intent.taskId = taskId ∧ intent.state = state := by
  have listed := List.argmax_mem found
  rw [List.mem_filter, Bool.and_eq_true, beq_iff_eq, beq_iff_eq] at listed
  exact listed

theorem intentIn_none (missing : h.intentIn taskId state = none)
    (listed : intent ∈ h.intents.rows) (own : intent.taskId = taskId) : intent.state ≠ state := by
  intro same
  have empty := List.argmax_eq_none.mp missing
  rw [List.filter_eq_nil_iff] at empty
  exact empty intent listed (by simp [own, same])

theorem Handoff.Sound.open_ (sound : h.Sound) (inserted : h.intents.insert intent = some intents)
    (only : ∀ other ∈ h.intents.rows, other.taskId = intent.taskId → other.state ≠ .intended) :
    ({ h with intents := intents } : Handoff).Sound := by
  obtain ⟨-, rows⟩ := Table.insert_cases inserted
  have more : ∀ other ∈ h.intents.rows, other ∈ intents.rows := by
    intro other listed
    rw [rows]
    exact List.mem_append_left _ listed
  exact
    { oneIntended := by
        intro a aListed b bListed aIntended bIntended sameTask
        rw [show ({ h with intents := intents } : Handoff).intents = intents from rfl, rows,
          List.mem_append, List.mem_singleton] at aListed bListed
        rcases aListed with aOld | rfl
        · rcases bListed with bOld | rfl
          · exact sound.oneIntended a aOld b bOld aIntended bIntended sameTask
          · exact absurd aIntended (only a aOld sameTask)
        · rcases bListed with bOld | rfl
          · exact absurd bIntended (only b bOld sameTask.symm)
          · rfl
      delivering := by
        intro row listed state
        obtain ⟨other, old, names⟩ := sound.delivering row listed state
        exact ⟨other, more other old, names⟩
      applied := by
        intro row listed state
        obtain ⟨other, old, names⟩ := sound.applied row listed state
        exact ⟨other, more other old, names⟩
      returned := by
        intro message listed
        obtain ⟨other, old, names⟩ := sound.returned message listed
        exact ⟨other, more other old, names⟩
      unreturned := by
        intro row listed state message back names
        obtain ⟨other, old, started⟩ :=
          Handoff.started_iff.mp (sound.unreturned row listed state message back names)
        exact Handoff.started_iff.mpr ⟨other, more other old, started⟩ }

theorem beginDispatchIntent_sound (sound : h.Sound) (taskId : Id)
    (requestedIter : Int) (gate : Option Text) (now : Text) :
    (h.beginDispatchIntent taskId requestedIter gate now).2.Sound := by
  unfold Handoff.beginDispatchIntent
  split
  · exact sound
  split
  · exact sound
  split
  · exact sound
  split
  · exact sound
  split
  · rename_i existing found
    obtain ⟨listed, own, intended⟩ := intentIn_some found
    exact deliver_sound sound listed intended own now
  rename_i missing
  dsimp only
  split
  · exact sound
  rename_i intents inserted
  have opened := sound.open_ inserted fun other listed same =>
    intentIn_none missing listed same
  refine deliver_sound opened ?_ rfl rfl now
  rw [(Table.insert_cases inserted).2]
  exact List.mem_append_right _ (List.mem_singleton_self _)

theorem completeIntentEdit_edit (intentId now : Text) : IntentEdit (completeIntentEdit intentId now) := by
  refine ⟨fun intent => ?_, fun intent => ?_, fun intent => ?_, fun intent => ?_⟩ <;>
    unfold completeIntentEdit <;> split
  · rfl
  · rfl
  · rfl
  · rfl
  · exact nofun
  · exact fun same => same
  · exact fun same => same
  · exact fun same => same

/-- **Recording the send** applies what was on the road with the intent; an intended one
was never given back. -/
theorem completeDispatchIntent_sound (sound : h.Sound) (intentId : Text)
    (appliedRound : Int) (now : Text) : (h.completeDispatchIntent intentId appliedRound now).Sound := by
  have edits := completeIntentEdit_edit intentId now
  have edited : h.Edited (h.completeDispatchIntent intentId appliedRound now)
      (completeIntentEdit intentId now) (applyEdit h.store intentId appliedRound now) :=
    ⟨rfl, rfl, rfl⟩
  -- a row that was applied by this very statement was delivering with the intent
  have newly : ∀ row ∈ h.steering.rows, (applyEdit h.store intentId appliedRound now row).state = .applied →
        (row.state = .applied ∧ applyEdit h.store intentId appliedRound now row = row) ∨
        (applyEdit h.store intentId appliedRound now row).appliedMessageId = some intentId ∧
          ∃ intent ∈ h.intents.rows, intent.intentId = intentId ∧ intent.state = .intended ∧
            intent.taskId = row.taskId := by
    intro row listed state
    unfold applyEdit at state ⊢
    split at state
    · rename_i leaves
      rw [if_pos leaves]
      obtain ⟨intent, isIntent, names, intended, own⟩ := sound.delivering row listed leaves.2
      refine .inr ⟨rfl, intent, isIntent, ?_, intended, own⟩
      exact Option.some.inj (names.symm.trans leaves.1)
    · rename_i stays
      rw [if_neg stays]
      exact .inl ⟨state, rfl⟩
  have task : ∀ row, (applyEdit h.store intentId appliedRound now row).taskId = row.taskId := by
    intro row
    exact keep_ite SteeringRow.taskId rfl
  exact
    { oneIntended := by
        intro a aListed b bListed aIntended bIntended sameTask
        obtain ⟨a, aOld, rfl⟩ := edited.mem_intents.mp aListed
        obtain ⟨b, bOld, rfl⟩ := edited.mem_intents.mp bListed
        rw [edits.task, edits.task] at sameTask
        rw [sound.oneIntended a aOld b bOld (edits.opensNone a aIntended)
          (edits.opensNone b bIntended) sameTask]
      delivering := by
        intro row listed state
        obtain ⟨row, old, rfl⟩ := edited.mem_steering.mp listed
        unfold applyEdit at state ⊢
        split at state
        · cases state
        rename_i stays
        rw [if_neg stays]
        obtain ⟨intent, isIntent, names, intended, own⟩ := sound.delivering row old state
        have other : completeIntentEdit intentId now intent = intent := by
          unfold completeIntentEdit
          refine if_neg fun sent => stays ⟨?_, state⟩
          rw [names, sent.1]
        refine ⟨intent, edited.mem_intents.mpr ⟨intent, isIntent, other⟩, names, intended, own⟩
      applied := by
        intro row listed state
        obtain ⟨row, old, rfl⟩ := edited.mem_steering.mp listed
        rcases newly row old state with ⟨was, same⟩ | ⟨message, intent, isIntent, names, -, own⟩
        · rw [same]
          obtain ⟨intent, isIntent, names, own⟩ := sound.applied row old was
          refine ⟨_, edited.mem_intents.mpr ⟨intent, isIntent, rfl⟩, ?_, ?_⟩
          · rw [names, edits.key]
          · rw [edits.task, own]
        · refine ⟨_, edited.mem_intents.mpr ⟨intent, isIntent, rfl⟩, ?_, ?_⟩
          · rw [message, edits.key, names]
          · rw [edits.task, own, task]
      returned := by
        intro message listed
        obtain ⟨intent, old, names, settled⟩ := sound.returned message listed
        refine ⟨_, edited.mem_intents.mpr ⟨intent, old, rfl⟩, ?_, ?_⟩
        · rw [edits.key, names]
        · exact fun intended => settled (edits.opensNone intent intended)
      unreturned := by
        intro row listed state message back names
        obtain ⟨row, old, rfl⟩ := edited.mem_steering.mp listed
        rcases newly row old state with ⟨was, same⟩ | ⟨isMessage, intent, isIntent, key, intended, -⟩
        · rw [same] at names
          exact edited.started edits (sound.unreturned row old was message back names)
        obtain ⟨other, isOther, otherKey, settled⟩ := sound.returned message back
        have sameKey : intent.intentId = other.intentId := by
          rw [key, otherKey]
          exact Option.some.inj (isMessage.symm.trans names)
        rw [h.intents.unique isIntent isOther sameKey] at intended
        exact absurd intended settled }

theorem abandonIntentEdit_edit (state : IntentState) (intentId now : Text) :
    IntentEdit (abandonIntentEdit state intentId now) := by
  refine ⟨abandonIntentEdit_key state intentId now, fun intent => ?_, fun intent => ?_,
    fun intent => ?_⟩ <;> unfold abandonIntentEdit <;> split
  · rfl
  · rfl
  · exact nofun
  · exact fun same => same
  · exact fun same => same
  · exact fun same => same

theorem abandonDispatchIntent_sound (sound : h.Sound) (intentId now : Text) :
    (h.abandonDispatchIntent intentId now).Sound := by
  have edited : h.Edited (h.abandonDispatchIntent intentId now)
      (abandonIntentEdit .intended intentId now) (undeliverEdit h.store intentId now) :=
    ⟨rfl, rfl, rfl⟩
  refine edited.sound (abandonIntentEdit_edit .intended intentId now) sound (fun row => ?_)
    (fun row _ => ?_) (fun row => ?_)
  · exact keep_ite SteeringRow.taskId rfl
  · unfold undeliverEdit
    split
    · intro state
      dsimp only at state
      split at state <;> cases state
    rename_i stays
    refine fun state => ⟨state, rfl, fun intent _ names intended _ => ?_⟩
    unfold abandonIntentEdit
    rw [if_neg]
    · exact intended
    · rintro ⟨same, -⟩
      exact stays ⟨by rw [names, same], state⟩
  · unfold undeliverEdit
    split
    · intro state
      dsimp only at state
      split at state <;> cases state
    · exact fun state => ⟨state, rfl⟩

theorem markRoundStarted_sound (sound : h.Sound) (intentId now : Text) :
    (h.markRoundStarted intentId now).2.Sound := by
  have edited : h.Edited (h.markRoundStarted intentId now).2 (startEdit intentId now)
      (fun row => row) := ⟨rfl, (List.map_id _).symm, rfl⟩
  have state : ∀ intent, (startEdit intentId now intent).state = intent.state := by
    intro intent
    exact keep_ite DispatchIntentRow.state rfl
  have edits : IntentEdit (startEdit intentId now) := by
    refine ⟨fun intent => ?_, fun intent => ?_, fun intent intended => ?_, fun intent was => ?_⟩
    · exact keep_ite DispatchIntentRow.intentId rfl
    · exact keep_ite DispatchIntentRow.taskId rfl
    · exact (state intent).symm.trans intended
    · unfold startEdit
      split
      · simp
      · exact was
  refine edited.sound edits sound (fun _ => rfl) (fun row _ is => ⟨is, rfl, ?_⟩)
    (fun row is => ⟨is, rfl⟩)
  exact fun intent _ _ intended _ => (state intent).trans intended

/-- **A round that is given back** takes its directions with it, once its send is recorded. -/
theorem returnUnrunRound_sound (sound : h.Sound) (messageId now : Text)
    (recorded : (HandoffEvent.giveBack messageId now).recorded h = true) :
    (h.returnUnrunRound messageId now).Sound := by
  unfold Handoff.returnUnrunRound
  split
  · exact sound
  rename_i unstarted
  have edits := abandonIntentEdit_edit .enqueued messageId now
  have sent : ∀ intent ∈ h.intents.rows, intent.intentId = messageId → intent.state ≠ .intended := by
    simpa [HandoffEvent.recorded, unstarted, or_iff_not_imp_left] using recorded
  set h' : Handoff := { h with
    intents := h.intents.update (abandonIntentEdit .enqueued messageId now)
      (abandonIntentEdit_key .enqueued messageId now)
    steering := h.steering.update (takeBackEdit h.store messageId now)
      fun _ => keep_ite SteeringRow.steeringId rfl } with isEdited
  have edited : h.Edited h' (abandonIntentEdit .enqueued messageId now)
      (takeBackEdit h.store messageId now) := ⟨rfl, rfl, rfl⟩
  have before : h'.Sound := by
    refine edited.sound edits sound (fun row => ?_) (fun row _ => ?_) (fun row => ?_)
    · exact keep_ite SteeringRow.taskId rfl
    · unfold takeBackEdit
      split
      · exact nofun
      refine fun state => ⟨state, rfl, fun intent _ _ intended _ => ?_⟩
      unfold abandonIntentEdit
      rw [if_neg]
      · exact intended
      · rintro ⟨-, other⟩
        exact absurd (intended.symm.trans other) nofun
    · unfold takeBackEdit
      split
      · exact nofun
      · exact fun state => ⟨state, rfl⟩
  cases isOpen : h.roundOpen messageId with
  | false => exact before
  | true =>
    obtain ⟨intent, listed, key⟩ := List.any_eq_true.mp isOpen
    rw [Bool.and_eq_true, beq_iff_eq] at key
    obtain ⟨key, still⟩ := key
    exact
      { oneIntended := before.oneIntended
        delivering := before.delivering
        applied := before.applied
        returned := by
          intro message back
          rcases List.mem_cons.mp back with rfl | earlier
          · refine ⟨_, edited.mem_intents.mpr ⟨intent, listed, rfl⟩, ?_, ?_⟩
            · rw [edits.key, key]
            · exact fun intended => sent intent listed key (edits.opensNone intent intended)
          · exact before.returned message earlier
        unreturned := by
          intro row isRow state message back names
          rcases List.mem_cons.mp back with rfl | earlier
          · obtain ⟨row, old, rfl⟩ := edited.mem_steering.mp isRow
            unfold takeBackEdit at state names
            split at state
            · cases state
            -- an applied row of the round belongs to the round's task, which is open
            rename_i stays
            rw [if_neg stays] at names
            obtain ⟨other, isOther, otherNames, own⟩ := sound.applied row old state
            have sameKey : intent.intentId = other.intentId :=
              key.trans (Option.some.inj (names.symm.trans otherNames))
            cases h.intents.unique listed isOther sameKey
            exact absurd ⟨names, state, own ▸ still⟩ stays
          · exact before.unreturned row isRow state message earlier names }

theorem stopped_sound (sound : h.Sound) (tree : List Id) (now : Text) : (h.stopped tree now).Sound := by
  have edited : h.Edited (h.stopped tree now) (abandonStoppedEdit tree now)
      (discardStoppedEdit tree now) := ⟨rfl, rfl, rfl⟩
  have edits : IntentEdit (abandonStoppedEdit tree now) := by
    refine ⟨fun intent => ?_, fun intent => ?_, fun intent => ?_, fun intent => ?_⟩ <;>
      unfold abandonStoppedEdit <;> split
    · rfl
    · rfl
    · rfl
    · rfl
    · exact nofun
    · exact fun same => same
    · exact fun same => same
    · exact fun same => same
  refine edited.sound edits sound (fun row => ?_) (fun row _ => ?_) (fun row => ?_)
  · exact keep_ite SteeringRow.taskId rfl
  · unfold discardStoppedEdit
    split
    · exact nofun
    -- an intent of the tree has its directions in the tree
    rename_i stays
    refine fun state => ⟨state, rfl, fun intent _ _ intended own => ?_⟩
    unfold abandonStoppedEdit
    rw [if_neg]
    · exact intended
    · intro inside
      rw [Bool.and_eq_true, own] at inside
      exact stays (by simp only [inside.1, isOpenSteering, state, beq_self_eq_true, Bool.true_and,
        Bool.or_true])
  · unfold discardStoppedEdit
    split
    · exact nofun
    · exact fun state => ⟨state, rfl⟩

theorem perform_sound (env : InsertEnv) (sound : h.Sound) (op : StoreOp) : (h.perform env op).Sound := by
  have next : ({ h with store := op.perform env h.store } : Handoff).Sound :=
    sound.congr rfl rfl rfl
  unfold Handoff.perform
  dsimp only
  split
  · split
    · exact stopped_sound next _ _
    · exact next
  · exact next

/-- **One event keeps the handoff sound.** -/
theorem Handoff.step_sound (env : InsertEnv) (sound : h.Sound) (event : HandoffEvent)
    (recorded : event.recorded h = true) : (h.step env event).Sound := by
  cases event with
  | submit new steeringId now => exact submitSteering_sound env sound new steeringId now
  | discardFinished now => exact discardSteeringOfFinishedTasks_sound sound now
  | begin_ taskId requestedIter gate now =>
    exact beginDispatchIntent_sound sound taskId requestedIter gate now
  | enqueue intentId =>
    simp only [Handoff.step, Handoff.enqueue]
    split
    · exact sound
    · exact sound.congr rfl rfl rfl
  | complete intentId appliedRound now =>
    exact completeDispatchIntent_sound sound intentId appliedRound now
  | abandon intentId now => exact abandonDispatchIntent_sound sound intentId now
  | pickUp messageId | failMessage messageId => exact sound.congr rfl rfl rfl
  | fence messageId gate => exact sound
  | start messageId now => exact markRoundStarted_sound sound messageId now
  | giveBack messageId now => exact returnUnrunRound_sound sound messageId now recorded
  | tasks op => exact perform_sound env sound op

/-! ## Runs -/

def steeredGoal : List HandoffEvent :=
  [.tasks
      (.insert
        { row := sampleRow sampleRoot .pending none
          contracts := []
          timeoutSecs := none
          discoveryRunId := none
          discoverySpecJson := none
          ownerRefused := false }),
    .submit ⟨sampleRoot, ['b'], [], [], [], ['q']⟩ ['s'] ['1']]

def sampleIntent : Text := intentIdOf sampleRoot 1

/-- The intent is open and its message in the queue. -/
def sentRound : List HandoffEvent :=
  steeredGoal ++ [.begin_ sampleRoot 1 none ['2'], .enqueue sampleIntent, .pickUp sampleIntent]

def afterHandoff (events : List HandoffEvent) : Handoff :=
  run (Handoff.step sampleInsertEnv) (Handoff.start []) events

/-- The send is recorded, and then the round is given back. -/
def returnedRound : List HandoffEvent :=
  sentRound ++ [.complete sampleIntent 1 ['3'], .failMessage sampleIntent, .giveBack sampleIntent ['4']]

/-- The message passes the fence, its dispatch is refused before anything starts, and only
then the driver records the send. -/
def lostRound : List HandoffEvent :=
  sentRound ++ [.fence sampleIntent none, .failMessage sampleIntent, .giveBack sampleIntent ['3'],
    .complete sampleIntent 1 ['4']]

end DuDuClaw.TaskStore
