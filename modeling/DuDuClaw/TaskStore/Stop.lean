/-
# TaskStore.Stop -- a stopped tree stays stopped

`stop_task_tree` and the sweep of stop.rs, and runs of the task store after a stop.

Claiming, completing, continuing and status updates ask `in_stop_tree` first, which
looks `STOP_ANCESTRY_DEPTH` levels up.  Accepting a review and a human's "done" do not
ask: they rely on the tree having been cancelled, which the stop does for
`STOP_TREE_LIMIT` members only.

* `Op.perform_frame`: what one operation can do to one task.
* `stopped_stays_stopped`: in every run that does not take those branches on a member,
  no member becomes claimed or done.
* `member_accepted_after_stop`: a tree of 501 members in which one is taken.
-/
import DuDuClaw.TaskStore.Lifecycle

namespace DuDuClaw.TaskStore

/-! ## Stopping a tree -/

def Store.children (s : Store) (id : Id) : List Id :=
  (s.tasks.filter fun row => row.parentTaskId == some id).map TaskRow.id

/-- The recursive query `tree`: a queue of ids still to be listed, `seen` what was
ever queued.  Every row is queued once, so one more than their number is enough. -/
def Store.treeWalk (s : Store) : Nat → List Id → List Id → List Id
  | 0, _, _ => []
  | _ + 1, [], _ => []
  | fuel + 1, id :: queue, seen =>
    let fresh := (s.children id).filter fun child => !seen.contains child
    id :: s.treeWalk fuel (queue ++ fresh) (seen ++ fresh)

/-- `stop_tree_ids`: up to `limit` ids of the tree, root first. -/
def Store.stopTreeIds (s : Store) (root : Id) (limit : Nat) : List Id :=
  (s.treeWalk (s.tasks.length + 1) [root] [root]).take limit

/-- The UPDATE of `stop_task_tree` and of the sweep. -/
def Store.cancelStopped (s : Store) (ids : List Id) (now : Text) : Store :=
  s.updateWhere (fun row => ids.contains row.id && row.isWork && !row.status.isTerminal)
    { apply := fun row => { row with
        status := .cancelled, judgeFeedback := some "stopped by operator".toList
        pauseReason := none, updatedAt := now } }

inductive StopTreeOutcome where
  | requested (row : StopRequestRow)
  | alreadyRequested (row : StopRequestRow)
  | conflict (currentRevision : Option Int)
  | alreadyFinished (status : Status)

def Store.stopTaskTree (s : Store) (root : Id) (expectedRevision : Int) (requestedBy : Text)
    (countsAsFailure : Bool) (now : Text) : StopTreeOutcome × Store :=
  match s.stops.find? fun stop => stop.rootTaskId == root with
  | some existing => (.alreadyRequested existing, s)
  | none =>
    match (s.getTask root).filter TaskRow.isWork with
    | none => (.conflict none, s)
    | some row =>
      if row.authorityRevision ≠ expectedRevision then (.conflict (some row.authorityRevision), s)
      else if row.status.isTerminal then (.alreadyFinished row.status, s)
      else
        let tree := s.stopTreeIds root (stopTreeLimit + 1)
        let request : StopRequestRow :=
          { rootTaskId := root
            requestedBy := requestedBy
            requestedAt := now
            expectedAuthorityRevision := expectedRevision
            affectedTaskIds := tree.take stopTreeLimit
            state := "cancel_pending".toList
            treeTruncated := stopTreeLimit < tree.length
            updatedAt := now
            countsAsFailure := countsAsFailure }
        let cancelled := s.cancelStopped (tree.take stopTreeLimit) now
        (.requested request, { cancelled with stops := s.stops ++ [request] })

/-- `cancel_stop_tree_batch`; the ids were listed before the lock was taken. -/
def Store.cancelStopTreeBatch (s : Store) (ids : List Id) (now : Text) : (Nat × Nat) × Store :=
  let isOpen row := ids.contains row.id && row.isWork && !row.status.isTerminal
  let opened := (s.tasks.filter isOpen).map TaskRow.id
  let batch := opened.take stopTreeLimit
  ((batch.length, opened.length - batch.length), s.cancelStopped batch now)

/-! ## Operations -/

inductive Op where
  | claim (id : Id) (agentId now lease : Text)
  | renewLease (id : Id) (agentId expiry now : Text)
  | requeueZombie (id : Id) (claimer lease : Text) (retry : Int) (now : Text)
  | failZombie (id : Id) (claimer lease now : Text)
  | complete (id : Id) (summary caller now : Text)
  | acceptReview (id : Id) (feedback now : Text)
  | rejectReview (read : Option TaskRow) (id : Id) (feedback : Text) (softCap : Int) (now : Text)
  | markNeedsHuman (id : Id) (reason pause now : Text)
  | resolveNeedsHuman (id : Id) (decision : Decision) (note : Text) (expected : Option Text)
      (now : Text)
  | continueFromTerminal (id : Id) (message : Text) (expected : Option Text) (now : Text)
  | cancel (id : Id) (reason now : Text)
  | update (id : Id) (fields : TaskFields) (employeeDefaultCap : Option Nat) (now : Text)
  | stopTree (root : Id) (revision : Int) (requestedBy : Text) (countsAsFailure : Bool) (now : Text)
  | sweep (ids : List Id) (now : Text)

def Op.perform (env : Env) (s : Store) : Op → Store
  | .claim id agentId now lease => (s.atomicClaim id agentId now lease).2
  | .renewLease id agentId expiry now => (s.renewLease id agentId expiry now).2
  | .requeueZombie id claimer lease retry now => (s.requeueZombieCas id claimer lease retry now).2
  | .failZombie id claimer lease now => (s.failZombieCas id claimer lease now).2
  | .complete id summary caller now => (s.completeTask env id summary caller now).2
  | .acceptReview id feedback now => (s.acceptReview env id feedback now).2
  | .rejectReview read id feedback softCap now =>
    (s.rejectReview env read id feedback softCap now).2
  | .markNeedsHuman id reason pause now => (s.markNeedsHuman env id reason pause now).2
  | .resolveNeedsHuman id decision note expected now =>
    (s.resolveNeedsHuman env id decision note expected now).2
  | .continueFromTerminal id message expected now =>
    (s.continueFromTerminal env id message expected now).2
  | .cancel id reason now => (s.cancelTask env id reason now).2
  | .update id fields employeeDefaultCap now => (s.updateTask env id fields employeeDefaultCap now).2
  | .stopTree root revision requestedBy countsAsFailure now =>
    (s.stopTaskTree root revision requestedBy countsAsFailure now).2
  | .sweep ids now => (s.cancelStopTreeBatch ids now).2

def performAll (env : Env) (s : Store) (ops : List Op) : Store := ops.foldl (Op.perform env) s

/-! ## What one operation does to one task -/

/-- `new` is neither newly done nor newly claimed. -/
def TaskRow.Quiet (old new : TaskRow) : Prop :=
  (new.status = .done → old.status = .done) ∧
    ∀ agent, new.claimedBy = some agent → old.claimedBy = some agent

variable {s : Store} {id : Id} {sel : TaskRow → Bool} {edit : Edit}

theorem TaskRow.Quiet.refl (row : TaskRow) : row.Quiet row :=
  ⟨fun finished => finished, fun _ claimed => claimed⟩

theorem TaskRow.Quiet.trans {a b c : TaskRow} (first : a.Quiet b) (second : b.Quiet c) : a.Quiet c :=
  ⟨first.1 ∘ second.1, fun agent claimed => first.2 agent (second.2 agent claimed)⟩

/-- What a step from `s` to `t` may do, seen from the task `id`: the tree stays, no
stop request is withdrawn, and the task is neither claimed nor done by it. -/
structure Store.Frame (s t : Store) (id : Id) : Prop where
  tree : ∀ depth task, t.ancestors depth task = s.ancestors depth task
  stops : ∀ stop ∈ s.stops, stop ∈ t.stops
  quiet : ∀ new, t.getTask id = some new → ∃ old, s.getTask id = some old ∧ old.Quiet new

theorem Store.Frame.refl (s : Store) (id : Id) : s.Frame s id :=
  ⟨fun _ _ => rfl, fun _ listed => listed, fun new found => ⟨new, found, .refl new⟩⟩

theorem Store.Frame.trans {t u : Store} (first : s.Frame t id) (second : t.Frame u id) : s.Frame u id where
  tree depth task := (second.tree depth task).trans (first.tree depth task)
  stops stop listed := second.stops stop (first.stops stop listed)
  quiet new found := by
    obtain ⟨mid, midFound, toNew⟩ := second.quiet new found
    obtain ⟨old, oldFound, toMid⟩ := first.quiet mid midFound
    exact ⟨old, oldFound, toMid.trans toNew⟩

/-- An UPDATE is quiet on a task when its SET clause is, on the row it selects. -/
theorem Store.Frame.update (quiet : ∀ row, s.getTask id = some row → sel row → row.Quiet (edit.apply row)) :
    s.Frame (s.updateWhere sel edit) id where
  tree depth task := ancestors_updateWhere s sel edit depth task
  stops stop listed := listed
  quiet new found := by
    rw [updateWhere_get, Option.map_eq_some_iff] at found
    obtain ⟨old, oldFound, rfl⟩ := found
    refine ⟨old, oldFound, ?_⟩
    unfold Store.rewrite
    split
    · rename_i selected
      obtain ⟨notDone, notClaimed⟩ := quiet old oldFound selected
      exact ⟨by simpa using notDone, by simpa using notClaimed⟩
    · exact .refl old

/-- An UPDATE of another task. -/
theorem Store.Frame.elsewhere
    (target : Id) (other : target ≠ id) (aims : ∀ row, sel row → row.id = target) :
    s.Frame (s.updateWhere sel edit) id := by
  refine .update fun row found selected => ?_
  exact absurd ((aims row selected).symm.trans (Store.getTask_mem found).2) other

/-- An UPDATE whose SET clause neither claims nor completes. -/
theorem Store.Frame.ofEdit
    (quiet : ∀ row : TaskRow, row.Quiet (edit.apply row)) : s.Frame (s.updateWhere sel edit) id :=
  .update fun row _ _ => quiet row

/-- A further stop request is seen by nobody but `in_stop_tree`. -/
theorem Store.Frame.request {t : Store} (more : List StopRequestRow)
    (frame : s.Frame t id) : s.Frame { t with stops := s.stops ++ more } id where
  tree depth task := by
    rw [← frame.tree]
    apply ancestors_of_tasks
    rfl
  stops stop listed := List.mem_append_left _ listed
  quiet new found := frame.quiet new found

theorem cancelStopped_frame (s : Store) (ids : List Id) (now : Text) (id : Id) :
    s.Frame (s.cancelStopped ids now) id :=
  .ofEdit fun _ => ⟨nofun, fun _ claimed => claimed⟩

theorem stopTaskTree_frame (s : Store) (root : Id) (revision : Int) (requestedBy : Text)
    (countsAsFailure : Bool) (now : Text) (id : Id) :
    s.Frame (s.stopTaskTree root revision requestedBy countsAsFailure now).2 id := by
  unfold Store.stopTaskTree
  split
  · exact .refl s id
  split
  · exact .refl s id
  split
  · exact .refl s id
  · split
    · exact .refl s id
    · exact .request _ (cancelStopped_frame s _ now id)

/-- **Claiming asks `in_stop_tree`.** -/
theorem atomicClaim_frame (target : Id) (stopped : target = id → s.inStopTree id) (agentId now lease : Text) :
    s.Frame (s.atomicClaim target agentId now lease).2 id := by
  unfold Store.atomicClaim
  split
  · exact .refl s id
  split
  · exact .refl s id
  split
  · exact .refl s id
  rename_i free
  split
  · exact .refl s id
  refine .elsewhere target ?_ ?_
  · rintro rfl
    exact free (stopped rfl)
  · intro row selected
    simp only [claimable, Bool.and_eq_true, beq_iff_eq] at selected
    exact selected.1.1.1

variable (env : Env)

/-- **Completing asks `in_stop_tree`.** -/
theorem completeTask_frame (target : Id)
    (stopped : target = id → s.inStopTree id) (summary caller now : Text) :
    s.Frame (s.completeTask env target summary caller now).2 id := by
  unfold Store.completeTask
  split
  · exact .refl s id
  split
  · exact .refl s id
  rename_i free
  split
  · exact .refl s id
  refine .elsewhere target ?_ ?_
  · rintro rfl
    exact free (stopped rfl)
  · intro row selected
    simp only [unfinished, Bool.and_eq_true, beq_iff_eq] at selected
    exact selected.1.1

theorem checkUpdate_stopped {fields : TaskFields} {cap costCap : Option Nat}
    (stopped : s.inStopTree id) (accepted : s.checkUpdate id fields cap = .ok costCap) :
    fields.status = none := by
  unfold Store.checkUpdate at accepted
  split at accepted
  · cases accepted
  split at accepted
  · cases accepted
  split at accepted
  · cases accepted
  split at accepted
  · cases accepted
  split at accepted
  · cases accepted
  split at accepted
  · cases accepted
  · rename_i unasked
    simpa [stopped] using unasked

theorem updateTask_frame (target : Id) (fields : TaskFields)
    (stopped : fields.status.join = some .done → target = id → s.inStopTree id)
    (cap : Option Nat) (now : Text) : s.Frame (s.updateTask env target fields cap now).2 id := by
  unfold Store.updateTask
  split
  · exact .refl s id
  rename_i costCap accepted
  by_cases finishes : fields.status.join = some .done
  · refine .elsewhere target ?_ fun row selected => by simpa using selected
    rintro rfl
    have unasked := checkUpdate_stopped (stopped finishes rfl) accepted
    simp [unasked] at finishes
  refine .ofEdit fun row => ⟨?_, fun _ claimed => claimed⟩
  intro finished
  change fields.status.join.getD row.status = .done at finished
  cases asked : fields.status.join with
  | none => simpa [asked] using finished
  | some status =>
    rw [asked, Option.getD_some] at finished
    exact absurd (asked.trans (congrArg some finished)) finishes

theorem rejectReview_frame (s : Store) (read : Option TaskRow) (target : Id)
    (feedback : Text) (softCap : Int) (now : Text) (id : Id) :
    s.Frame (s.rejectReview env read target feedback softCap now).2 id := by
  unfold Store.rejectReview
  split
  · exact .refl s id
  · split
    · exact .ofEdit fun row => ⟨nofun, nofun⟩
    · exact .ofEdit fun row => ⟨nofun, fun _ claimed => claimed⟩

theorem continueFromTerminal_frame (s : Store) (target : Id) (message : Text)
    (expected : Option Text) (now : Text) (id : Id) :
    s.Frame (s.continueFromTerminal env target message expected now).2 id := by
  unfold Store.continueFromTerminal
  split
  · exact .refl s id
  split
  · exact .refl s id
  · split
    · exact .refl s id
    · exact .ofEdit fun row => ⟨nofun, nofun⟩

theorem acceptReview_frame (target : Id) (feedback now : Text)
    (spared : target = id → ∀ row, s.getTask id = some row → row.status ≠ .review) :
    s.Frame (s.acceptReview env target feedback now).2 id := by
  refine .update fun row found selected => ?_
  simp only [inStatus, Bool.and_eq_true, beq_iff_eq] at selected
  obtain ⟨⟨aimed, -⟩, inReview⟩ := selected
  exact absurd inReview (spared (aimed.symm.trans (Store.getTask_mem found).2) row found)

/-- Nothing but a task waiting for a human is declared done. -/
theorem resolveNeedsHuman_frame (target : Id)
    (decision : Decision) (note : Text) (expected : Option Text) (now : Text)
    (spared : decision = .done → target = id → ∀ row, s.getTask id = some row → row.status ≠ .needsHuman) :
    s.Frame (s.resolveNeedsHuman env target decision note expected now).2 id := by
  unfold Store.resolveNeedsHuman
  split
  · exact .refl s id
  cases decision with
  | retry =>
    refine .ofEdit fun row => ⟨fun moved => ?_, fun agent claimed => ?_⟩
    · cases moved
    · cases claimed
  | done =>
    refine .update fun row found selected => ?_
    simp only [inStatus, Bool.and_eq_true, beq_iff_eq] at selected
    obtain ⟨⟨aimed, -⟩, waiting⟩ := selected
    exact absurd waiting (spared rfl (aimed.symm.trans (Store.getTask_mem found).2) row found)
  | abort =>
    refine .ofEdit fun row => ⟨fun moved => ?_, fun _ claimed => claimed⟩
    cases moved
  | other name => exact .refl s id

/-! ## Runs after a stop -/

/-- `id` is `root` or a task below it, at any depth. -/
def Store.Member (s : Store) (root id : Id) : Prop := ∃ depth, root ∈ s.ancestors depth id

/-- `root` is near enough above `id` for `in_stop_tree` to find it. -/
def Store.Near (s : Store) (root id : Id) : Prop := root ∈ s.ancestors stopAncestryDepth id

/-- The operation does not accept a member in review, does not declare a member done
that waits for a human, and does not claim or finish one too deep for the check. -/
def Op.Spares (s : Store) (root : Id) : Op → Prop
  | .claim id _ _ _ => s.Member root id → s.Near root id
  | .complete id _ _ _ => s.Member root id → s.Near root id
  | .update id fields _ _ =>
    fields.status.join = some .done → s.Member root id → s.Near root id
  | .acceptReview id _ _ =>
    s.Member root id → ∀ row, s.getTask id = some row → row.status ≠ .review
  | .resolveNeedsHuman id .done _ _ _ =>
    s.Member root id → ∀ row, s.getTask id = some row → row.status ≠ .needsHuman
  | _ => True

variable {s : Store} {root id : Id} {width n : Nat}

/-- **One operation on a stopped tree** neither claims a member nor records it as
done, unless it takes one of the branches that do not find the stop. -/
theorem Op.perform_frame (env : Env) (op : Op)
    (member : s.Member root id) (requested : ∃ stop ∈ s.stops, stop.rootTaskId = root)
    (spares : op.Spares s root) : s.Frame (op.perform env s) id := by
  cases op with
  | claim target agentId now lease =>
    refine atomicClaim_frame target ?_ agentId now lease
    rintro rfl
    exact inStopTree_of_ancestor (spares member) requested
  | renewLease target agentId expiry now => exact .ofEdit .refl
  | requeueZombie target claimer lease retry now => exact .ofEdit fun row => ⟨nofun, nofun⟩
  | failZombie target claimer lease now | markNeedsHuman target reason pause now =>
    exact .ofEdit fun row => ⟨nofun, fun _ claimed => claimed⟩
  | complete target summary caller now =>
    refine completeTask_frame env target ?_ summary caller now
    rintro rfl
    exact inStopTree_of_ancestor (spares member) requested
  | acceptReview target feedback now =>
    refine acceptReview_frame env target feedback now ?_
    rintro rfl
    exact spares member
  | rejectReview read target feedback softCap now =>
    exact rejectReview_frame env s read target feedback softCap now id
  | resolveNeedsHuman target decision note expected now =>
    refine resolveNeedsHuman_frame env target decision note expected now ?_
    rintro rfl rfl
    exact spares member
  | continueFromTerminal target message expected now =>
    exact continueFromTerminal_frame env s target message expected now id
  | cancel target reason now => exact .ofEdit fun row => ⟨nofun, fun _ claimed => claimed⟩
  | update target fields cap now =>
    refine updateTask_frame env target fields ?_ cap now
    rintro finishes rfl
    exact inStopTree_of_ancestor (spares finishes member) requested
  | stopTree top revision requestedBy countsAsFailure now =>
    exact stopTaskTree_frame s top revision requestedBy countsAsFailure now id
  | sweep ids now => exact cancelStopped_frame s _ now id

/-- Every operation of the run spares the members, in the state it meets. -/
def Spares (env : Env) (root : Id) (s : Store) : List Op → Prop
  | [] => True
  | op :: rest => op.Spares s root ∧ Spares env root (op.perform env s) rest

theorem spares_append {env : Env} {earlier later : List Op} (spares : Spares env root s (earlier ++ later)) :
    Spares env root s earlier ∧ Spares env root (performAll env s earlier) later := by
  induction earlier generalizing s with
  | nil => exact ⟨trivial, spares⟩
  | cons op rest ih =>
    obtain ⟨first, others⟩ := spares
    exact ⟨⟨first, (ih others).1⟩, (ih others).2⟩

theorem Store.Frame.member {t : Store} {task : Id} (frame : s.Frame t id)
    (member : s.Member root task) : t.Member root task := by
  obtain ⟨depth, listed⟩ := member
  exact ⟨depth, by rwa [frame.tree]⟩

/-- Induction over the run: each operation meets a tree that is still stopped. -/
theorem performAll_frame (env : Env) (ops : List Op)
    (member : s.Member root id) (requested : ∃ stop ∈ s.stops, stop.rootTaskId = root)
    (spares : Spares env root s ops) : s.Frame (performAll env s ops) id := by
  induction ops generalizing s with
  | nil => exact .refl s id
  | cons op rest ih =>
    have step := Op.perform_frame env op member requested spares.1
    obtain ⟨stop, listed, isRoot⟩ := requested
    exact step.trans (ih (step.member member) ⟨stop, step.stops stop listed, isRoot⟩ spares.2)

theorem stopTaskTree_commits {row : TaskRow}
    (fresh : s.stops.find? (fun stop => stop.rootTaskId == root) = none)
    (found : (s.getTask root).filter TaskRow.isWork = some row)
    (isOpen : row.status.isTerminal = false) (requestedBy : Text) (countsAsFailure : Bool) (now : Text) :
    (∃ request, (s.stopTaskTree root row.authorityRevision requestedBy countsAsFailure now).1 =
        .requested request) ∧
      (s.stopTaskTree root row.authorityRevision requestedBy countsAsFailure now).2.tasks = (s.cancelStopped
          ((s.stopTreeIds root (stopTreeLimit + 1)).take stopTreeLimit) now).tasks := by
  simp only [Store.stopTaskTree, fresh, found, ne_eq, not_true_eq_false, if_false, isOpen, Bool.false_eq_true]
  exact ⟨⟨_, rfl⟩, trivial⟩

theorem stopTaskTree_requested {stopped : Store} {revision : Int}
    {requestedBy now : Text} {countsAsFailure : Bool} {request : StopRequestRow}
    (committed : s.stopTaskTree root revision requestedBy countsAsFailure now = (.requested request, stopped)) :
    ∃ stop ∈ stopped.stops, stop.rootTaskId = root := by
  unfold Store.stopTaskTree at committed
  split at committed
  · cases committed
  split at committed
  · cases committed
  split at committed
  · cases committed
  split at committed
  · cases committed
  · cases committed
    exact ⟨_, List.mem_append_right _ (List.mem_singleton_self _), rfl⟩

/-- **A stopped tree stays stopped.**  After a committed stop, in every run that spares
the members, from any state of the run to any later one no member of the tree becomes
done and none becomes claimed. -/
theorem stopped_stays_stopped (env : Env) {s stopped : Store} {root : Id} {revision : Int}
    {requestedBy now : Text} {countsAsFailure : Bool} {request : StopRequestRow}
    (committed : s.stopTaskTree root revision requestedBy countsAsFailure now = (.requested request, stopped))
    (earlier later : List Op) (spares : Spares env root stopped (earlier ++ later)) (id : Id)
    (member : stopped.Member root id) (row : TaskRow)
    (found : (performAll env stopped (earlier ++ later)).getTask id = some row) :
    ∃ before, (performAll env stopped earlier).getTask id = some before ∧
      (row.status = .done → before.status = .done) ∧
      ∀ agent, row.claimedBy = some agent → before.claimedBy = some agent := by
  obtain ⟨sparesEarlier, sparesLater⟩ := spares_append spares
  have requested := stopTaskTree_requested committed
  have first := performAll_frame env earlier member requested sparesEarlier
  obtain ⟨stop, listed, isRoot⟩ := requested
  have second := performAll_frame env later (first.member member)
    ⟨stop, first.stops stop listed, isRoot⟩ sparesLater
  rw [performAll, List.foldl_append] at found
  exact second.quiet row found

def sampleRow (id : Id) (status : Status) (parent : Option Id) : TaskRow where
  id := id
  title := []
  description := []
  status := status
  priority := []
  assignedTo := []
  createdAt := []
  updatedAt := []
  completedAt := none
  blockedReason := none
  parentTaskId := parent
  tags := []
  claimedBy := none
  claimedAt := none
  leaseExpiresAt := none
  leaseRenewedAt := none
  dependsOn := []
  retryCount := 0
  maxRetries := 3
  goalMode := true
  acceptanceCriteria := none
  resultSummary := none
  judgeFeedback := none
  revisionRound := 0
  diminishing := false
  pauseReason := none
  archived := false
  pinned := false
  kind := .goal
  authorityRevision := 1
  costCapCents := none

def sampleEnv : Env where
  maskDerivedText text := text

def sampleRoot : Id := ['r']

def sampleChild (n : Nat) : Id := List.replicate (n + 1) 'c'

def starCentre : TaskRow := sampleRow sampleRoot .inProgress none

/-- Its `n`-th child, in review. -/
def starLeaf (n : Nat) : TaskRow := sampleRow (sampleChild n) .review (some sampleRoot)

theorem sampleChild_injective : Function.Injective sampleChild := by
  intro m n same
  simpa [sampleChild] using congrArg List.length same

theorem sampleChild_ne_root (n : Nat) : sampleChild n ≠ sampleRoot := by
  simp [sampleChild, sampleRoot, List.replicate_succ]

/-- A goal with `width` children. -/
def starTree (width : Nat) : Store where
  tasks := starCentre :: (List.range width).map starLeaf
  distinct := by
    have leaves : ((List.range width).map starLeaf).map TaskRow.id =
        (List.range width).map sampleChild := by simp [starLeaf, sampleRow]
    rw [List.map_cons, leaves, List.nodup_cons]
    refine ⟨?_, List.nodup_range.map sampleChild_injective⟩
    intro listed
    obtain ⟨n, -, same⟩ := List.mem_map.mp listed
    exact sampleChild_ne_root n same
  stops := []
  occurrences := []
  floors _ := none

theorem starTree_get_leaf (inside : n < width) :
    (starTree width).getTask (sampleChild n) = some (starLeaf n) := by
  show (starTree width).getTask (starLeaf n).id = some (starLeaf n)
  apply Store.getTask_of_mem
  exact List.mem_cons_of_mem _ (List.mem_map_of_mem (List.mem_range.mpr inside))

/-- The stop of a goal with `width` children. -/
def starStop (width : Nat) : StopTreeOutcome × Store :=
  (starTree width).stopTaskTree sampleRoot starCentre.authorityRevision [] false []

/-- The child of the smallest tree, as the stop leaves it. -/
def stoppedLeaf : TaskRow :=
  { starLeaf 0 with
    status := .cancelled
    judgeFeedback := some "stopped by operator".toList
    authorityRevision := 2 }

/-- A claim and an acceptance after the stop of a tree of two leave the child cancelled
and unclaimed. -/
theorem starStop_stays : (performAll sampleEnv (starStop 1).2 ([.claim (sampleChild 0) [] [] []] ++
        [.acceptReview (sampleChild 0) [] []])).getTask (sampleChild 0) = some stoppedLeaf ∧
      ∃ before, (performAll sampleEnv (starStop 1).2
          [.claim (sampleChild 0) [] [] []]).getTask (sampleChild 0) = some before ∧
        (stoppedLeaf.status = .done → before.status = .done) ∧
        ∀ agent, stoppedLeaf.claimedBy = some agent → before.claimedBy = some agent := by
  have committed : ∃ request, starStop 1 = (.requested request, (starStop 1).2) := ⟨_, rfl⟩
  obtain ⟨request, committed⟩ := committed
  refine ⟨rfl, stopped_stays_stopped sampleEnv (s := starTree 1) committed
    [.claim (sampleChild 0) [] [] []] [.acceptReview (sampleChild 0) [] []] ?_
    (sampleChild 0) ⟨1, by decide⟩ stoppedLeaf rfl⟩
  refine ⟨fun _ => (by decide : sampleRoot ∈ _), fun _ row found => ?_, trivial⟩
  cases found
  decide

theorem treeWalk_leaves {queue : List Id} (leaves : ∀ id ∈ queue, s.children id = [])
    (fuel : Nat) (seen : List Id) : s.treeWalk fuel queue seen = queue.take fuel := by
  induction fuel generalizing queue seen with
  | zero => rfl
  | succ fuel ih =>
    cases queue with
    | nil => rfl
    | cons id rest =>
      simp only [Store.treeWalk, leaves id List.mem_cons_self, List.filter_nil,
        List.append_nil, List.take_succ_cons]
      rw [ih fun other listed => leaves other (List.mem_cons_of_mem _ listed)]

theorem starTree_children_root (width : Nat) :
    (starTree width).children sampleRoot = (List.range width).map sampleChild := by
  have all : (List.range width).filter
      ((fun row => row.parentTaskId == some sampleRoot) ∘ starLeaf) = List.range width :=
    List.filter_eq_self.mpr fun _ _ => rfl
  have centre : (starCentre.parentTaskId == some sampleRoot) = false := rfl
  simp only [Store.children, starTree, List.filter_cons, centre, List.filter_map, all,
    Bool.false_eq_true, if_false, List.map_map]
  rfl

theorem starTree_children_leaf (width n : Nat) : (starTree width).children (sampleChild n) = [] := by
  have others : ∀ row ∈ (starTree width).tasks, ¬(row.parentTaskId == some (sampleChild n)) = true := by
    intro row listed
    rcases List.mem_cons.mp listed with rfl | leaf
    · exact nofun
    · obtain ⟨m, -, rfl⟩ := List.mem_map.mp leaf
      simpa [starLeaf, sampleRow] using (sampleChild_ne_root n).symm
  rw [Store.children, List.filter_eq_nil_iff.mpr others, List.map_nil]

theorem starTree_ids (width limit : Nat) (enough : limit ≤ width) :
    (starTree width).stopTreeIds sampleRoot (limit + 1) =
      sampleRoot :: ((List.range width).map sampleChild).take limit := by
  have fresh : ((List.range width).map sampleChild).filter
      (fun child => !List.contains [sampleRoot] child) = (List.range width).map sampleChild := by
    refine List.filter_eq_self.mpr fun child listed => ?_
    obtain ⟨n, -, rfl⟩ := List.mem_map.mp listed
    simpa using sampleChild_ne_root n
  have leaves : ∀ id ∈ (List.range width).map sampleChild, (starTree width).children id = [] := by
    intro id listed
    obtain ⟨n, -, rfl⟩ := List.mem_map.mp listed
    exact starTree_children_leaf width n
  have rows : (starTree width).tasks.length = width + 1 := by simp [starTree]
  simp only [Store.stopTreeIds, Store.treeWalk, starTree_children_root, fresh, List.nil_append,
    treeWalk_leaves leaves, List.take_succ_cons, List.take_take, rows]
  rw [Nat.min_eq_left (by omega)]

/-- **What the stop does not reach can still be accepted**: a row in review beyond the
first `STOP_TREE_LIMIT` members keeps its status, and `accept_review` makes it done. -/
theorem unreached_accepted (env : Env) {stopped : Store} {ids : List Id} {now : Text}
    {leaf : TaskRow} (rows : stopped.tasks = (s.cancelStopped ids now).tasks)
    (found : s.getTask leaf.id = some leaf) (beyond : leaf.id ∉ ids)
    (inReview : inStatus leaf.id .review leaf = true) (feedback later : Text) :
    stopped.getTask leaf.id = some leaf ∧
      ((stopped.acceptReview env leaf.id feedback later).2.getTask leaf.id).map TaskRow.status =
        some .done := by
  have kept : stopped.getTask leaf.id = some leaf := by
    rw [Store.getTask, rows, ← Store.getTask, Store.cancelStopped, updateWhere_get, found,
      Option.map_some, Store.rewrite, if_neg]
    intro selected
    rw [Bool.and_eq_true, Bool.and_eq_true, List.contains_iff_mem] at selected
    exact beyond selected.1.1
  refine ⟨kept, ?_⟩
  simp only [Store.acceptReview, updateWhere_get, kept, Option.map_some, Store.rewrite, inReview,
    if_true, Store.fire_status]

theorem starLeaf_beyond (wide : stopTreeLimit ≤ width) (late : stopTreeLimit ≤ n + 1) :
    (starLeaf n).id ∉ ((starTree width).stopTreeIds sampleRoot (stopTreeLimit + 1)).take
      stopTreeLimit := by
  have positive : 0 < stopTreeLimit := by decide
  rw [starTree_ids width stopTreeLimit wide, List.take_cons positive, List.take_take,
    ← List.map_take, List.take_range]
  intro listed
  rcases List.mem_cons.mp listed with same | early
  · exact sampleChild_ne_root n same
  obtain ⟨m, inside, same⟩ := List.mem_map.mp early
  have last : m = n := sampleChild_injective same
  have below := List.mem_range.mp inside
  omega

theorem starStop_accepts (wide : stopTreeLimit ≤ width)
    (late : stopTreeLimit ≤ n + 1) (inside : n < width) : (∃ request, (starStop width).1 = .requested request) ∧
      (starStop width).2.Member sampleRoot (sampleChild n) ∧
      ((starStop width).2.getTask (sampleChild n)).map TaskRow.status = some .review ∧
      ((performAll sampleEnv (starStop width).2 [.acceptReview (sampleChild n) [] []]).getTask
        (sampleChild n)).map TaskRow.status = some .done := by
  obtain ⟨requested, rows⟩ := @stopTaskTree_commits (starTree width) sampleRoot starCentre
    rfl rfl rfl [] false []
  have inReview : inStatus (starLeaf n).id .review (starLeaf n) = true := by
    simp [inStatus, starLeaf, sampleRow, TaskRow.isWork]
  obtain ⟨kept, accepted⟩ := unreached_accepted sampleEnv rows (starTree_get_leaf inside)
    (starLeaf_beyond wide late) inReview [] []
  refine ⟨requested, ⟨1, ?_⟩, congrArg (Option.map TaskRow.status) kept, accepted⟩
  have below : ((starStop width).2.getTask (sampleChild n)).bind TaskRow.parentTaskId =
      some sampleRoot := congrArg (Option.bind · TaskRow.parentTaskId) kept
  simp [Store.ancestors, below]

/-- **A member is accepted after the stop.**  The stop of a goal with 500 children is
committed, its last child stays in review, and `accept_review` records it as done. -/
theorem member_accepted_after_stop : (∃ request, (starStop 500).1 = .requested request) ∧
      (starStop 500).2.Member sampleRoot (sampleChild 499) ∧
      ((starStop 500).2.getTask (sampleChild 499)).map TaskRow.status = some .review ∧
      ((performAll sampleEnv (starStop 500).2 [.acceptReview (sampleChild 499) [] []]).getTask
        (sampleChild 499)).map TaskRow.status = some .done :=
  starStop_accepts (by decide) (by decide) (by decide)

end DuDuClaw.TaskStore
