/-
# TaskStore.Ledger -- the ledger is conserved

Runs of the operations on the two tables, from a store without rounds.

* `Keeps`: a write other than a submission changes no submission and no sealed row.
* `submit_spec`: a submission stamps one row that had none, and returns its seconds.
* `ledger_conserved`: the column is the sum of the rows as long as the sum is a 64-bit
  integer; each row is submitted at most once; a sealed row keeps all but its pause class.
* `clock_left`: a goal completed often enough has a REAL in its column.
-/
import DuDuClaw.Lib.Runs
import DuDuClaw.TaskStore.Iterations

namespace DuDuClaw.TaskStore

open DuDuClaw.Lib

/-! ## Rows over time -/

structure IterationRow.Later (old new : IterationRow) : Prop where
  id : new.id = old.id
  taskId : new.taskId = old.taskId
  dispatchedAt : new.dispatchedAt = old.dispatchedAt
  submitted : ∀ stamp, old.submittedAt = some stamp → new.submittedAt = some stamp
  isSealed : old.isSealed = true → ∃ pause, new = { old with pauseReason := pause }

namespace IterationRow

theorem Later.refl (row : IterationRow) : row.Later row :=
  ⟨rfl, rfl, rfl, fun _ stamped => stamped, fun _ => ⟨row.pauseReason, rfl⟩⟩

theorem Later.trans {a b c : IterationRow} (first : a.Later b) (second : b.Later c) : a.Later c := by
  refine ⟨second.id.trans first.id, second.taskId.trans first.taskId,
    second.dispatchedAt.trans first.dispatchedAt,
    fun stamp stamped => second.submitted stamp (first.submitted stamp stamped), fun done => ?_⟩
  obtain ⟨pause, rfl⟩ := first.isSealed done
  obtain ⟨pause', rfl⟩ := second.isSealed done
  exact ⟨pause', rfl⟩

/-- A row that is not sealed may change in all but a few columns. -/
theorem later_of_open {old new : IterationRow} (opened : old.isSealed = false) (id : new.id = old.id)
    (taskId : new.taskId = old.taskId) (dispatchedAt : new.dispatchedAt = old.dispatchedAt)
    (submitted : ∀ stamp, old.submittedAt = some stamp → new.submittedAt = some stamp) : old.Later new := by
  refine ⟨id, taskId, dispatchedAt, submitted, fun done => ?_⟩
  rw [opened] at done
  cases done

/-- `round_seconds` of a submitted row. -/
def seconds (env : LedgerEnv) (row : IterationRow) : Int :=
  match row.submittedAt with
  | none => 0
  | some stamp => roundSeconds env row.dispatchedAt stamp

theorem seconds_congr {env : LedgerEnv} {old new : IterationRow}
    (dispatchedAt : new.dispatchedAt = old.dispatchedAt) (submittedAt : new.submittedAt = old.submittedAt) :
    new.seconds env = old.seconds env := by
  unfold seconds
  rw [dispatchedAt, submittedAt]

end IterationRow

theorem roundSeconds_nonneg (env : LedgerEnv) (dispatchedAt submittedAt : Text) :
    0 ≤ roundSeconds env dispatchedAt submittedAt := by
  unfold roundSeconds
  split
  · dsimp only
    split
    · exact Int.le_refl 0
    · rename_i least
      exact Int.not_lt.mp least
  · exact Int.le_refl 0

namespace Iterations

variable {env : LedgerEnv} {its its' its'' : Iterations}

/-- The seconds of the submitted rows of a task. -/
def seconds (env : LedgerEnv) (its : Iterations) (id : Id) : Int :=
  ((its.rows.filter fun row => row.taskId == id).map (IterationRow.seconds env)).sum

def Submitted (its : Iterations) (r : Nat) : Prop := ∃ row ∈ its.rows, row.id = r ∧ row.submittedAt.isSome

/-- Every row is still there, as what it may become. -/
def Later (its its' : Iterations) : Prop := ∀ row ∈ its.rows, ∃ row' ∈ its'.rows, row.Later row'

variable {row : IterationRow} {f : IterationRow → IterationRow}

variable {id : Nat} {keeps : ∀ row, (f row).id = row.id} {taskId : Id}

theorem Later.refl (its : Iterations) : its.Later its :=
  fun row listed => ⟨row, listed, IterationRow.Later.refl row⟩

theorem Later.trans (first : its.Later its') (second : its'.Later its'') : its.Later its'' := by
  intro row listed
  obtain ⟨row', listed', later⟩ := first row listed
  obtain ⟨row'', listed'', later'⟩ := second row' listed'
  exact ⟨row'', listed'', later.trans later'⟩

theorem Later.submitted {r : Nat} (later : its.Later its') (stamped : its.Submitted r) : its'.Submitted r := by
  obtain ⟨row, listed, rfl, some_⟩ := stamped
  obtain ⟨row', listed', after⟩ := later row listed
  obtain ⟨stamp, there⟩ := Option.isSome_iff_exists.mp some_
  exact ⟨row', listed', after.id, Option.isSome_iff_exists.mpr ⟨stamp, after.submitted stamp there⟩⟩

/-- A write that submits nothing. -/
structure Keeps (env : LedgerEnv) (its its' : Iterations) : Prop where
  later : its.Later its'
  seconds : ∀ id, its'.seconds env id = its.seconds env id
  submitted : ∀ r, its'.Submitted r → its.Submitted r

theorem Keeps.refl (env : LedgerEnv) (its : Iterations) : its.Keeps env its :=
  ⟨Later.refl its, fun _ => rfl, fun _ stamped => stamped⟩

theorem latest_some {sel : IterationRow → Bool} (found : its.latest sel = some row) :
    row ∈ its.rows ∧ sel row = true := by
  have listed : row ∈ (its.rows.filter sel).insertionSort IterationRow.Before :=
    List.mem_of_mem_head? found
  rw [List.mem_insertionSort] at listed
  exact List.mem_filter.mp listed

theorem insert_keeps (unsubmitted : row.submittedAt = none) : its.Keeps env (its.insert row).2 := by
  have rows : (its.insert row).2.rows = its.rows ++ [row.withId its.next] := rfl
  refine ⟨fun old listed => ⟨old, ?_, IterationRow.Later.refl old⟩, fun id => ?_, fun r => ?_⟩
  · rw [rows]
    exact List.mem_append_left _ listed
  · have zero : (row.withId its.next).seconds env = 0 := by
      simp only [IterationRow.seconds, IterationRow.withId, unsubmitted]
    unfold seconds
    rw [rows, List.filter_append, List.map_append, List.sum_append, List.filter_singleton]
    cases (row.withId its.next).taskId == id with
    | false => simp
    | true => simp [zero]
  · rintro ⟨other, listed, named, some_⟩
    rw [rows] at listed
    rcases List.mem_append.mp listed with old | new
    · exact ⟨other, old, named, some_⟩
    · rw [List.mem_singleton.mp new] at some_
      simp [IterationRow.withId, unsubmitted] at some_

theorem edit_rows :
    (its.edit id f keeps).rows = its.rows.map fun row => if row.id = id then f row else row := rfl

/-- An UPDATE of one row that leaves its submission. -/
theorem edit_keeps (becomes : ∀ row ∈ its.rows, row.id = id → row.Later (f row) ∧
      (f row).submittedAt = row.submittedAt) : its.Keeps env (its.edit id f keeps) := by
  let g := fun row : IterationRow => if row.id = id then f row else row
  have becomes' : ∀ row ∈ its.rows, row.Later (g row) ∧ (g row).submittedAt = row.submittedAt := by
    intro row listed
    by_cases named : row.id = id
    · rw [show g row = f row from if_pos named]
      exact becomes row listed named
    · rw [show g row = row from if_neg named]
      exact ⟨IterationRow.Later.refl row, rfl⟩
  refine ⟨fun row listed => ⟨g row, List.mem_map_of_mem listed, (becomes' row listed).1⟩, fun task => ?_,
    fun r => ?_⟩
  · unfold seconds
    rw [edit_rows, List.filter_map, List.map_map]
    have same : its.rows.filter ((fun row => row.taskId == task) ∘ g) =
        its.rows.filter fun row => row.taskId == task := by
      apply List.filter_congr
      intro row listed
      rw [Function.comp_apply, (becomes' row listed).1.taskId]
    rw [same]
    congr 1
    apply List.map_congr_left
    intro row listed
    obtain ⟨later, stamp⟩ := becomes' row (List.mem_of_mem_filter listed)
    exact IterationRow.seconds_congr later.dispatchedAt stamp
  · rintro ⟨row', listed, named, some_⟩
    obtain ⟨row, old, rfl⟩ := List.mem_map.mp listed
    obtain ⟨later, stamp⟩ := becomes' row old
    refine ⟨row, old, later.id.symm.trans named, ?_⟩
    rw [← stamp]
    exact some_

/-- An UPDATE of a row that is not sealed. -/
theorem edit_open (listed : row ∈ its.rows) (opened : row.isSealed = false)
    (taskId : (f row).taskId = row.taskId) (dispatchedAt : (f row).dispatchedAt = row.dispatchedAt)
    (submittedAt : (f row).submittedAt = row.submittedAt) : its.Keeps env (its.edit row.id f keeps) := by
  apply edit_keeps
  intro other there named
  rw [its.table.unique there listed named]
  refine ⟨IterationRow.later_of_open opened (keeps row) taskId dispatchedAt ?_, submittedAt⟩
  intro stamp stamped
  rw [submittedAt]
  exact stamped

theorem editUnjudged_keeps (task : ∀ row, (f row).taskId = row.taskId)
    (dispatchedAt : ∀ row, (f row).dispatchedAt = row.dispatchedAt)
    (submittedAt : ∀ row, (f row).submittedAt = row.submittedAt) :
    its.Keeps env (its.editUnjudged taskId f keeps) := by
  unfold editUnjudged
  cases found : its.unjudged taskId with
  | none => exact Keeps.refl env its
  | some row =>
    obtain ⟨listed, selected⟩ := latest_some found
    have opened : row.isSealed = false := by simpa using (Bool.and_eq_true_iff.mp selected).2
    exact edit_open listed opened (task row) (dispatchedAt row) (submittedAt row)

/-! ## Each write -/

theorem dispatch_keeps {round : Int} {now : Text} {stateHash : Option Text}
    {repeatStreak : Option Int} {ledger : IterationDispatchLedger}
    (wrote : its.dispatch env taskId round now stateHash repeatStreak ledger = .ok its') :
    its.Keeps env its' := by
  unfold dispatch at wrote
  obtain ⟨_, -, wrote⟩ := bind_ok.mp wrote
  split at wrote
  · cases wrote
    exact insert_keeps rfl
  rename_i row found
  obtain ⟨listed, -⟩ := latest_some found
  split at wrote
  · cases wrote
    exact insert_keeps rfl
  · rename_i opened
    cases wrote
    exact edit_open listed (Bool.eq_false_iff.mpr opened) rfl rfl rfl

theorem judge_keeps (taskId verdict feedback : Text)
    (verdictJson workerExcerpt knobsJson pauseReason : Option Text) (now : Text) :
    its.Keeps env (its.judge env taskId verdict feedback verdictJson workerExcerpt knobsJson
      pauseReason now) :=
  editUnjudged_keeps (fun _ => rfl) (fun _ => rfl) fun _ => rfl

theorem escalateSeal_keeps (taskId pauseReason : Text) (workerExcerpt knobsJson : Option Text)
    (now : Text) : its.Keeps env (its.escalateSeal env taskId pauseReason workerExcerpt knobsJson now) :=
  editUnjudged_keeps (fun _ => rfl) (fun _ => rfl) fun _ => rfl

theorem recordEvaluatorVerdict_keeps (taskId evaluatorVerdict : Text) :
    its.Keeps env (its.recordEvaluatorVerdict env taskId evaluatorVerdict) :=
  editUnjudged_keeps (fun _ => rfl) (fun _ => rfl) fun _ => rfl

theorem setCriteriaLedger_keeps {taskId ledgerJson : Text}
    (wrote : its.setCriteriaLedger env taskId ledgerJson = .ok its') : its.Keeps env its' := by
  unfold setCriteriaLedger at wrote
  obtain ⟨_, -, wrote⟩ := bind_ok.mp wrote
  cases wrote
  exact editUnjudged_keeps (fun _ => rfl) (fun _ => rfl) fun _ => rfl

/-- The pause class of a sealed row may still come. -/
theorem stampPause_keeps (taskId pause : Text) : its.Keeps env (its.stampPause env taskId pause) := by
  unfold stampPause
  split
  · exact Keeps.refl env its
  split
  · exact Keeps.refl env its
  · apply edit_keeps
    intro row _ _
    exact ⟨⟨rfl, rfl, rfl, fun _ stamped => stamped, fun _ => ⟨_, rfl⟩⟩, rfl⟩

/-! ## Submission -/

section Submission

variable {taskId fallbackDispatch now : Text} {fallbackRound : Int}

theorem attempt_spec (its : Iterations) (taskId fallbackDispatch : Text) (fallbackRound : Int) :
    let out := its.attempt taskId fallbackRound fallbackDispatch
    its.Keeps env out.2 ∧ out.1 ∈ out.2.rows ∧ out.1.taskId = taskId ∧ out.1.submittedAt = none ∧
      out.1.isSealed = false := by
  intro out
  have taken : out = its.attempt taskId fallbackRound fallbackDispatch := rfl
  unfold attempt at taken
  split at taken
  · rename_i row found
    obtain ⟨listed, selected⟩ := latest_some found
    simp only [Bool.and_eq_true, Option.isNone_iff_eq_none, Bool.not_eq_true'] at selected
    rw [taken]
    exact ⟨Keeps.refl env its, listed, eq_of_beq selected.1.1, selected.1.2, selected.2⟩
  · rw [taken]
    refine ⟨insert_keeps rfl, ?_, rfl, rfl, rfl⟩
    exact List.mem_append_right _ (List.mem_singleton_self _)

/-- An UPDATE of one row leaves what is around it. -/
theorem edit_split
    {keeps : ∀ row, (f row).id = row.id} (listed : row ∈ its.rows) :
    ∃ front back, its.rows = front ++ row :: back ∧
      (its.edit row.id f keeps).rows = front ++ f row :: back := by
  obtain ⟨front, back, split⟩ := List.append_of_mem listed
  have distinct : (its.rows.map IterationRow.id).Nodup := its.table.distinct
  rw [split, (List.perm_middle.map IterationRow.id).nodup_iff, List.map_cons, List.nodup_cons] at distinct
  have untouched : ∀ part : List IterationRow, (∀ other ∈ part, other ∈ front ++ back) →
      part.map (fun other => if other.id = row.id then f other else other) = part := by
    intro part inside
    refine (List.map_congr_left fun other there => if_neg fun same => ?_).trans (List.map_id _)
    exact distinct.1 (List.mem_map.mpr ⟨other, inside other there, same⟩)
  refine ⟨front, back, split, ?_⟩
  rw [edit_rows, split, List.map_append, List.map_cons,
    untouched front fun _ there => List.mem_append_left _ there,
    untouched back fun _ there => List.mem_append_right _ there, if_pos rfl]

theorem stamp_spec (listed : row ∈ its.rows) (opened : row.isSealed = false)
    (unsubmitted : row.submittedAt = none) : let out := its.edit row.id (IterationRow.stamp now)
    its.Later out ∧ (∀ r, out.Submitted r ↔ its.Submitted r ∨ r = row.id) ∧
      ∀ id, out.seconds env id = its.seconds env id +
        if id = row.taskId then roundSeconds env row.dispatchedAt now else 0 := by
  intro out
  obtain ⟨front, back, before, after⟩ : ∃ front back, its.rows = front ++ row :: back ∧
      out.rows = front ++ row.stamp now :: back := edit_split listed
  have later : row.Later (row.stamp now) := by
    refine IterationRow.later_of_open opened rfl rfl rfl fun stamp there => ?_
    rw [unsubmitted] at there
    cases there
  refine ⟨fun other there => ?_, fun r => ?_, fun id => ?_⟩
  · rw [before] at there
    rcases List.mem_append.mp there with inFront | rest
    · exact ⟨other, by simp [after, inFront], IterationRow.Later.refl other⟩
    · rcases List.mem_cons.mp rest with rfl | inBack
      · exact ⟨other.stamp now, by simp [after], later⟩
      · exact ⟨other, by simp [after, inBack], IterationRow.Later.refl other⟩
  · constructor
    · rintro ⟨other, there, named, some_⟩
      rw [after] at there
      rcases List.mem_append.mp there with inFront | rest
      · exact .inl ⟨other, by simp [before, inFront], named, some_⟩
      · rcases List.mem_cons.mp rest with rfl | inBack
        · exact .inr named.symm
        · exact .inl ⟨other, by simp [before, inBack], named, some_⟩
    · rintro (⟨other, there, named, some_⟩ | rfl)
      · rw [before] at there
        rcases List.mem_append.mp there with inFront | rest
        · exact ⟨other, by simp [after, inFront], named, some_⟩
        rcases List.mem_cons.mp rest with rfl | inBack
        · rw [unsubmitted] at some_
          cases some_
        · exact ⟨other, by simp [after, inBack], named, some_⟩
      · exact ⟨row.stamp now, by simp [after], rfl, rfl⟩
  · have was : row.seconds env = 0 := by simp only [IterationRow.seconds, unsubmitted]
    have is : (row.stamp now).seconds env = roundSeconds env row.dispatchedAt now := rfl
    have same : (row.stamp now).taskId = row.taskId := rfl
    unfold seconds
    rw [before, after, List.filter_append, List.filter_append, List.map_append, List.map_append,
      List.sum_append, List.sum_append]
    by_cases itsTask : id = row.taskId
    · rw [if_pos itsTask, List.filter_cons_of_pos (by simp [same, itsTask]),
        List.filter_cons_of_pos (a := row) (by simp [itsTask]), List.map_cons, List.map_cons,
        List.sum_cons, List.sum_cons, was, is]
      omega
    · rw [if_neg itsTask, List.filter_cons_of_neg (by simpa [same] using Ne.symm itsTask),
        List.filter_cons_of_neg (a := row) (by simpa using Ne.symm itsTask)]
      omega

/-- A submission stamps one row that had none, and returns its seconds. -/
theorem submit_spec (its : Iterations) (taskId now fallbackDispatch : Text) (fallbackRound : Int) :
    let r := (its.attempt taskId fallbackRound fallbackDispatch).1.id
    let out := its.submit env taskId now fallbackRound fallbackDispatch
    its.Later out.2 ∧ 0 ≤ out.1 ∧ ¬its.Submitted r ∧
      (∀ other, out.2.Submitted other ↔ its.Submitted other ∨ other = r) ∧
      ∀ id, out.2.seconds env id = its.seconds env id + if id = taskId then out.1 else 0 := by
  intro r out
  obtain ⟨keeps, listed, itsTask, unsubmitted, opened⟩ :=
    @attempt_spec env its taskId fallbackDispatch fallbackRound
  obtain ⟨later, submitted, seconds⟩ := @stamp_spec env _ _ now listed opened unsubmitted
  have fresh : ¬its.Submitted r := by
    intro stamped
    obtain ⟨row, there, named, some_⟩ := keeps.later.submitted stamped
    have same := (its.attempt taskId fallbackRound fallbackDispatch).2.table.unique there listed named
    rw [same, unsubmitted] at some_
    cases some_
  refine ⟨keeps.later.trans later, roundSeconds_nonneg env _ _, fresh, fun other => ?_, fun id => ?_⟩
  · refine (submitted other).trans (or_congr_left ⟨keeps.submitted other, keeps.later.submitted⟩)
  · refine (seconds id).trans ?_
    rw [keeps.seconds, itsTask]
    rfl

end Submission

end Iterations

/-! ## Operations -/

variable {env : LedgerEnv}

def LedgerOp.submits (s : LedgerStore) : LedgerOp → Option Nat
  | .task (.complete id _ caller _) => (s.handedIn id caller).map fun row =>
    (s.iterations.attempt id (row.revisionRound + 1) (row.claimedAt.getD row.createdAt)).1.id
  | _ => none

/-- The sum of the task's rounds stays a 64-bit integer. -/
def LedgerOp.Fits (env : LedgerEnv) (s : LedgerStore) : LedgerOp → Prop
  | .task (.complete id _ caller now) => ∀ row ∈ s.handedIn id caller,
      let secs := (s.iterations.submit env id now (row.revisionRound + 1)
        (row.claimedAt.getD row.createdAt)).1
      0 < secs → s.iterations.seconds env id + secs ≤ agentSecondsMax
  | _ => True

namespace LedgerStore

/-- The column is the sum of the rows. -/
def Balanced (env : LedgerEnv) (s : LedgerStore) : Prop :=
  ∀ id, s.agentSeconds id = .seconds (s.iterations.seconds env id)

/-- An operation that submits nothing. -/
structure Keeps (env : LedgerEnv) (s t : LedgerStore) : Prop where
  clocks : t.agentSeconds = s.agentSeconds
  iterations : s.iterations.Keeps env t.iterations

theorem Keeps.balanced {s t : LedgerStore} (keeps : s.Keeps env t) : t.Balanced env ↔ s.Balanced env := by
  unfold Balanced
  rw [keeps.clocks]
  exact forall_congr' fun id => by rw [keeps.iterations.seconds]

theorem acceptReview_keeps (s : LedgerStore) (id feedback : Text) (verdictJson knobsJson : Option Text)
    (now : Text) : s.Keeps env (s.acceptReview env id feedback verdictJson knobsJson now) := by
  unfold acceptReview
  dsimp only
  split
  · exact ⟨rfl, Iterations.judge_keeps ..⟩
  · exact ⟨rfl, Iterations.Keeps.refl env _⟩

theorem rejectReview_keeps (s : LedgerStore) (read : Option TaskRow) (id feedback : Text)
    (softCap : Int) (verdictJson knobsJson : Option Text) (now : Text) :
    s.Keeps env (s.rejectReview env read id feedback softCap verdictJson knobsJson now) := by
  unfold rejectReview
  cases read with
  | none => exact ⟨rfl, Iterations.Keeps.refl env _⟩
  | some row =>
    dsimp only
    split
    · exact ⟨rfl, Iterations.judge_keeps ..⟩
    · exact ⟨rfl, Iterations.Keeps.refl env _⟩

theorem markNeedsHumanSealingRound_keeps (s : LedgerStore) (id reason pause : Text)
    (knobsJson : Option Text) (now : Text) :
    s.Keeps env (s.markNeedsHumanSealingRound env id reason pause knobsJson now) := by
  unfold markNeedsHumanSealingRound
  dsimp only
  split
  · exact ⟨rfl, Iterations.escalateSeal_keeps ..⟩
  · exact ⟨rfl, Iterations.Keeps.refl env _⟩

theorem write_keeps {s : LedgerStore} {wrote : Except Text Iterations}
    (keeps : ∀ its, wrote = .ok its → s.iterations.Keeps env its) : s.Keeps env (s.write wrote) := by
  cases wrote with
  | ok its => exact ⟨rfl, keeps its rfl⟩
  | error e => exact ⟨rfl, Iterations.Keeps.refl env _⟩

end LedgerStore

variable {s : LedgerStore} {op : LedgerOp}

theorem perform_keeps (submits : op.submits s = none) : s.Keeps env (op.perform env s) := by
  cases op with
  | task op =>
    cases op with
    | complete id summary caller now =>
      have none_ : s.handedIn id caller = none := Option.map_eq_none_iff.mp submits
      simp only [LedgerOp.perform, LedgerStore.completeTask, none_]
      exact ⟨rfl, Iterations.Keeps.refl env _⟩
    | acceptReview id feedback now => exact s.acceptReview_keeps id feedback none none now
    | rejectReview read id feedback softCap now =>
      exact s.rejectReview_keeps read id feedback softCap none none now
    | _ => exact ⟨rfl, Iterations.Keeps.refl env _⟩
  | dispatch taskId round now stateHash repeatStreak ledger =>
    exact LedgerStore.write_keeps fun its wrote => Iterations.dispatch_keeps wrote
  | acceptReview id feedback verdictJson knobsJson now =>
    exact s.acceptReview_keeps id feedback verdictJson knobsJson now
  | rejectReview read id feedback softCap verdictJson knobsJson now =>
    exact s.rejectReview_keeps read id feedback softCap verdictJson knobsJson now
  | markNeedsHumanSealingRound id reason pause knobsJson now =>
    exact s.markNeedsHumanSealingRound_keeps id reason pause knobsJson now
  | evaluatorVerdict taskId verdict => exact ⟨rfl, Iterations.recordEvaluatorVerdict_keeps ..⟩
  | criteriaLedger taskId ledgerJson =>
    exact LedgerStore.write_keeps fun its wrote => Iterations.setCriteriaLedger_keeps wrote
  | stampPause taskId pause => exact ⟨rfl, Iterations.stampPause_keeps ..⟩

theorem submits_cases {r : Nat} (submits : op.submits s = some r) :
    ∃ id summary caller now row, op = .task (.complete id summary caller now) ∧
      s.handedIn id caller = some row ∧
      (s.iterations.attempt id (row.revisionRound + 1) (row.claimedAt.getD row.createdAt)).1.id = r := by
  unfold LedgerOp.submits at submits
  split at submits
  · rename_i id summary caller now
    obtain ⟨row, handed, same⟩ := Option.map_eq_some_iff.mp submits
    exact ⟨id, summary, caller, now, row, rfl, handed, same⟩
  · cases submits

theorem completeTask_handed {id summary caller now : Text} {row : TaskRow}
    (handed : s.handedIn id caller = some row) :
    let out := s.iterations.submit env id now (row.revisionRound + 1) (row.claimedAt.getD row.createdAt)
    (s.completeTask env id summary caller now).iterations = out.2 ∧
      (s.completeTask env id summary caller now).agentSeconds =
        if 0 < out.1 then Function.update s.agentSeconds id ((s.agentSeconds id).add out.1)
        else s.agentSeconds := by
  simp only [LedgerStore.completeTask, handed, and_self]

theorem perform_spec (s : LedgerStore) (op : LedgerOp) : s.iterations.Later (op.perform env s).iterations ∧
      (∀ r, op.submits s = some r → ¬s.iterations.Submitted r) ∧
      ∀ r, (op.perform env s).iterations.Submitted r ↔ s.iterations.Submitted r ∨ op.submits s = some r := by
  cases submits : op.submits s with
  | none =>
    obtain ⟨-, keeps⟩ := @perform_keeps env _ _ submits
    refine ⟨keeps.later, ?_, fun r => ⟨fun stamped => .inl (keeps.submitted r stamped), ?_⟩⟩
    · intro r here
      cases here
    · rintro (stamped | here)
      · exact keeps.later.submitted stamped
      · cases here
  | some r =>
    obtain ⟨id, summary, caller, now, row, rfl, handed, rfl⟩ := submits_cases submits
    obtain ⟨later, -, fresh, submitted, -⟩ := @Iterations.submit_spec env s.iterations id now
      (row.claimedAt.getD row.createdAt) (row.revisionRound + 1)
    obtain ⟨same, -⟩ := @completeTask_handed env _ _ summary _ now _ handed
    show s.iterations.Later (s.completeTask env id summary caller now).iterations ∧ _ ∧
      ∀ r, (s.completeTask env id summary caller now).iterations.Submitted r ↔ _
    rw [same]
    refine ⟨later, ?_, fun other => (submitted other).trans (or_congr_right ?_)⟩
    · intro other here
      rw [← Option.some.inj here]
      exact fresh
    · exact ⟨fun here => congrArg some here.symm, fun here => (Option.some.inj here).symm⟩

/-- The column stays the sum exactly when the sum stays a 64-bit integer. -/
theorem balanced_iff_fits (balanced : s.Balanced env) : (op.perform env s).Balanced env ↔ op.Fits env s := by
  cases submits : op.submits s with
  | none =>
    refine iff_of_true ((perform_keeps submits).balanced.mpr balanced) ?_
    unfold LedgerOp.Fits
    split
    · intro row handed
      rw [LedgerOp.submits, Option.mem_def.mp handed] at submits
      cases submits
    · trivial
  | some r =>
    obtain ⟨id, summary, caller, now, row, rfl, handed, -⟩ := submits_cases submits
    obtain ⟨-, nonneg, -, -, seconds⟩ := @Iterations.submit_spec env s.iterations id now
      (row.claimedAt.getD row.createdAt) (row.revisionRound + 1)
    obtain ⟨same, clocks⟩ := @completeTask_handed env _ _ summary _ now _ handed
    have fits : LedgerOp.Fits env s (.task (.complete id summary caller now)) ↔
        (0 < (s.iterations.submit env id now (row.revisionRound + 1)
          (row.claimedAt.getD row.createdAt)).1 → s.iterations.seconds env id +
            (s.iterations.submit env id now (row.revisionRound + 1)
              (row.claimedAt.getD row.createdAt)).1 ≤ agentSecondsMax) := by
      refine ⟨fun every => every row handed, fun one other listed => ?_⟩
      rw [handed] at listed
      cases listed
      exact one
    rw [fits]
    unfold LedgerStore.Balanced
    show (∀ other, (s.completeTask env id summary caller now).agentSeconds other =
      .seconds ((s.completeTask env id summary caller now).iterations.seconds env other)) ↔ _
    rw [same, clocks]
    generalize s.iterations.submit env id now (row.revisionRound + 1)
      (row.claimedAt.getD row.createdAt) = out at *
    by_cases some_ : 0 < out.1
    · rw [if_pos some_]
      have added : (s.agentSeconds id).add out.1 = .seconds (s.iterations.seconds env id + out.1) ↔
          s.iterations.seconds env id + out.1 ≤ agentSecondsMax := by
        rw [balanced id, AgentClock.add]
        split
        · rename_i within
          exact iff_of_true rfl within
        · rename_i beyond
          exact iff_of_false (fun equal => nomatch equal) beyond
      constructor
      · intro after _
        have here := after id
        rw [Function.update_self, seconds, if_pos rfl] at here
        exact added.mp here
      · intro within other
        by_cases itsTask : other = id
        · rw [itsTask, Function.update_self, seconds, if_pos rfl]
          exact added.mpr (within some_)
        · rw [Function.update_of_ne itsTask, seconds, if_neg itsTask, Int.add_zero]
          exact balanced other
    · have zero : out.1 = 0 := by omega
      rw [if_neg some_]
      refine iff_of_true (fun other => ?_) fun more => absurd more some_
      rw [seconds, zero, ite_self, Int.add_zero]
      exact balanced other

/-! ## Runs -/

/-- The rows that the completions of a run submit, in their order. -/
def submissions (env : LedgerEnv) : LedgerStore → List LedgerOp → List Nat
  | _, [] => []
  | s, op :: rest => (op.submits s).toList ++ submissions env (op.perform env s) rest

theorem submitted_iff (s : LedgerStore) (ops : List LedgerOp) (r : Nat) :
    (run (LedgerOp.perform env) s ops).iterations.Submitted r ↔
      s.iterations.Submitted r ∨ r ∈ submissions env s ops := by
  induction ops generalizing s with
  | nil => simp [submissions]
  | cons op rest ih =>
    rw [run_cons, ih, (perform_spec s op).2.2, submissions, List.mem_append, Option.mem_toList, or_assoc]

theorem submissions_once (s : LedgerStore) (ops : List LedgerOp) :
    (submissions env s ops).Nodup ∧ ∀ r ∈ submissions env s ops, ¬s.iterations.Submitted r := by
  induction ops generalizing s with
  | nil => exact ⟨List.nodup_nil, by simp [submissions]⟩
  | cons op rest ih =>
    obtain ⟨later, fresh, submitted⟩ := @perform_spec env s op
    obtain ⟨distinct, new⟩ := ih (op.perform env s)
    rw [submissions]
    refine ⟨List.nodup_append.mpr ⟨?_, distinct, ?_⟩, ?_⟩
    · cases op.submits s with
      | none => exact List.nodup_nil
      | some r => exact List.nodup_singleton r
    · rintro r first _ again rfl
      exact new r again ((submitted r).mpr (.inr (Option.mem_toList.mp first)))
    · intro r listed
      rcases List.mem_append.mp listed with first | again
      · exact fresh r (Option.mem_toList.mp first)
      · exact fun before => new r again ((submitted r).mpr (.inl before))

theorem run_later (s : LedgerStore) (ops : List LedgerOp) :
    s.iterations.Later (run (LedgerOp.perform env) s ops).iterations :=
  run_rel (fun _ => True) (fun s t : LedgerStore => s.iterations.Later t.iterations)
    (fun _ _ _ _ => trivial) (fun s => Iterations.Later.refl s.iterations)
    (fun _ _ _ => Iterations.Later.trans) (fun s op _ _ => (perform_spec s op).1) trivial
    (obeys_true s ops)

/-- **The ledger is conserved.**  The column of every task is the sum of its submitted rows in
every state of a run exactly when each completion finds the sum within 64 bits; no row is
submitted twice; a sealed row keeps all but its pause class. -/
theorem ledger_conserved (env : LedgerEnv) (tasks : Store) (ops : List LedgerOp) :
    ((∀ front back, ops = front ++ back → (run (LedgerOp.perform env) (.start tasks) front).Balanced env) ↔
      Obeys (LedgerOp.perform env) (fun s op => op.Fits env s) (.start tasks) ops) ∧
    ((submissions env (.start tasks) ops).Nodup ∧
      ∀ r, (run (LedgerOp.perform env) (.start tasks) ops).iterations.Submitted r ↔
        r ∈ submissions env (.start tasks) ops) ∧
    ∀ front back, ops = front ++ back →
      ∀ row ∈ (run (LedgerOp.perform env) (.start tasks) front).iterations.rows, row.isSealed = true →
        ∃ row' ∈ (run (LedgerOp.perform env) (.start tasks) ops).iterations.rows,
          ∃ pause, row' = { row with pauseReason := pause } := by
  refine ⟨?_, ⟨(submissions_once _ ops).1, fun r => ?_⟩, ?_⟩
  · apply run_always_iff (LedgerStore.Balanced env)
    · exact fun s op balanced => balanced_iff_fits balanced
    · exact fun id => rfl
  · refine (submitted_iff _ ops r).trans (or_iff_right ?_)
    rintro ⟨row, listed, -⟩
    cases listed
  · rintro front back rfl row listed done
    rw [run_append]
    obtain ⟨row', listed', later⟩ := @run_later env _ back row listed
    exact ⟨row', listed', later.isSealed done⟩

/-! ## Out of range -/

def openedAt : Text := "2025-01-01T00:00:00+00:00".toList

def doneAt : Text := "2026-01-01T00:00:00+00:00".toList

/-- The parser on two stamps that are a year apart; the clock stands at the second. -/
def yearApart : LedgerEnv where
  maskDerivedText := id
  safeContract _ := true
  workerExcerpt := id
  parse stamp :=
    if stamp = openedAt then some 1735689600000000000
    else if stamp = doneAt then some 1767225600000000000
    else none

def goalRow : TaskRow where
  id := "g".toList
  title := []
  description := []
  status := .pending
  priority := []
  assignedTo := []
  createdAt := openedAt
  updatedAt := openedAt
  completedAt := none
  blockedReason := none
  parentTaskId := none
  tags := []
  claimedBy := none
  claimedAt := none
  leaseExpiresAt := none
  leaseRenewedAt := none
  dependsOn := []
  retryCount := 0
  maxRetries := 0
  goalMode := true
  acceptanceCriteria := none
  resultSummary := none
  judgeFeedback := none
  revisionRound := 0
  diminishing := false
  pauseReason := none
  archived := false
  pinned := false
  kind := .goal
  authorityRevision := 1
  costCapCents := none

def oneGoal : Store := ⟨[goalRow], by decide, [], [], fun _ => none⟩

def handIn : LedgerOp := .task (.complete "g".toList "done".toList "w".toList doneAt)

/-- The goal waits for another completion by anyone. -/
structure Waiting (s : LedgerStore) (total : Int) : Prop where
  task : ∃ row, s.tasks.tasks = [row] ∧ row.id = "g".toList ∧ row.kind = .goal ∧ row.goalMode = true ∧
    (row.status = .pending ∨ row.status = .review) ∧ row.claimedBy = none ∧ row.claimedAt = none ∧
    row.createdAt = openedAt
  stops : s.tasks.stops = []
  rows : ∀ row ∈ s.iterations.rows, row.submittedAt.isSome
  seconds : s.iterations.seconds yearApart "g".toList = total
  bounded : ∀ m, s.agentSeconds "g".toList = .seconds m → m ≤ agentSecondsMax

theorem waiting_start : Waiting (.start oneGoal) 0 := by
  refine ⟨⟨goalRow, rfl, rfl, rfl, rfl, .inl rfl, rfl, rfl, rfl⟩, rfl, ?_, rfl, ?_⟩
  · intro row listed
    cases listed
  · intro m same
    cases same
    decide

theorem AgentClock.add_bounded {clock : AgentClock} {n m : Int} (sum : clock.add n = .seconds m) :
    m ≤ agentSecondsMax := by
  cases clock with
  | real => cases sum
  | seconds a =>
    rw [AgentClock.add] at sum
    split at sum
    · rename_i within
      cases sum
      exact within
    · cases sum

theorem Store.fire_revision (s : Store) (old new : TaskRow) :
    ∃ revision, s.fire old new = { new with authorityRevision := revision } := by
  unfold Store.fire
  split
  · exact ⟨_, rfl⟩
  · exact ⟨new.authorityRevision, rfl⟩

theorem attempt_of_submitted {its : Iterations} {taskId fallbackDispatch : Text} {fallbackRound : Int}
    (all : ∀ row ∈ its.rows, row.submittedAt.isSome) : its.attempt taskId fallbackRound fallbackDispatch =
      its.insert (IterationRow.opened taskId fallbackRound fallbackDispatch) := by
  have nothing : its.rows.filter (fun row => row.taskId == taskId && row.submittedAt.isNone &&
      !row.isSealed) = [] := by
    rw [List.filter_eq_nil_iff]
    intro row listed selected
    simp only [Bool.and_eq_true, Option.isNone_iff_eq_none] at selected
    have some_ := all row listed
    rw [selected.1.2] at some_
    cases some_
  rw [Iterations.attempt, Iterations.latest, nothing]
  rfl

/-- Every completion opens a round for itself, back to when the goal was created. -/
theorem waiting_step {total : Int} (waiting : Waiting s total) :
    Waiting (handIn.perform yearApart s) (total + 31536000) := by
  obtain ⟨⟨row, only, named, kind, goal, status, free, unclaimed, created⟩, stops, rows, seconds,
    bounded⟩ := waiting
  have work : row.isWork = true := by simp [TaskRow.isWork, kind]
  have selected : unfinished "g".toList row = true := by
    rcases status with pending | review
    · simp [unfinished, named, work, pending]
    · simp [unfinished, named, work, review]
  have found : (s.tasks.getTask "g".toList).filter TaskRow.isWork = some row := by
    rw [Store.getTask, only, List.find?_cons_of_pos (by simp [named])]
    simp [work]
  have going : s.tasks.inStopTree "g".toList = false := by simp [Store.inStopTree, stops]
  have handed : s.handedIn "g".toList "w".toList = some row := by
    have one : s.tasks.changes (unfinished "g".toList) = 1 := by
      rw [Store.changes, only, List.countP_singleton, if_pos selected]
    unfold LedgerStore.handedIn
    rw [found]
    dsimp only
    rw [if_neg (by simp only [going, Bool.false_eq_true, not_false_eq_true]),
      if_neg (by simp only [free, Option.any_none, Bool.false_eq_true, not_false_eq_true]),
      if_pos (by simp only [goal, one, Bool.true_and, beq_self_eq_true])]
  obtain ⟨iterations, clocks⟩ :=
    @completeTask_handed yearApart _ _ "done".toList _ doneAt _ handed
  obtain ⟨-, -, -, -, sums⟩ := @Iterations.submit_spec yearApart s.iterations "g".toList doneAt
    (row.claimedAt.getD row.createdAt) (row.revisionRound + 1)
  have attempt := @attempt_of_submitted _ "g".toList (row.claimedAt.getD row.createdAt)
    (row.revisionRound + 1) rows
  have secs : (s.iterations.submit yearApart "g".toList doneAt (row.revisionRound + 1)
      (row.claimedAt.getD row.createdAt)).1 = 31536000 := by
    rw [Iterations.submit, attempt]
    show roundSeconds yearApart (row.claimedAt.getD row.createdAt) doneAt = _
    rw [unclaimed, created]
    decide
  obtain ⟨edit, tasks, applied⟩ : ∃ edit : Edit,
      (s.completeTask yearApart "g".toList "done".toList "w".toList doneAt).tasks =
        s.tasks.updateWhere (unfinished "g".toList) edit ∧
      edit.apply row = { row with
        status := .review, resultSummary := some "done".toList, leaseExpiresAt := none
        updatedAt := doneAt } := by
    refine ⟨{ apply := fun row => { row with
        status := .review, resultSummary := some "done".toList, leaseExpiresAt := none
        updatedAt := doneAt } }, ?_, rfl⟩
    simp only [LedgerStore.completeTask, handed]
    unfold Store.completeTask
    rw [found]
    dsimp only
    rw [if_neg (by simp only [going, Bool.false_eq_true, not_false_eq_true]),
      if_neg (by simp only [free, Option.any_none, Bool.false_eq_true, not_false_eq_true]),
      if_pos goal]
    rfl
  obtain ⟨revision, fired⟩ := s.tasks.fire_revision row (edit.apply row)
  rw [applied] at fired
  have after : handIn.perform yearApart s =
      s.completeTask yearApart "g".toList "done".toList "w".toList doneAt := rfl
  rw [after]
  refine ⟨⟨s.tasks.fire row (edit.apply row), ?_, ?_⟩, ?_, ?_, ?_, ?_⟩
  · rw [tasks]
    show s.tasks.tasks.map _ = _
    rw [only, List.map_singleton, Store.rewrite, if_pos selected]
  · rw [applied, fired]
    exact ⟨named, kind, goal, .inr rfl, free, unclaimed, created⟩
  · rw [tasks]
    exact stops
  · rw [iterations, Iterations.submit, attempt]
    intro row' listed
    obtain ⟨old, there, rfl⟩ := List.mem_map.mp listed
    split
    · rfl
    rename_i other
    rcases List.mem_append.mp there with before | new
    · exact rows old before
    · exact absurd (congrArg IterationRow.id (List.mem_singleton.mp new)) other
  · rw [iterations, sums, if_pos rfl, secs, seconds]
  · intro m same
    rw [clocks, secs, if_pos (by decide), Function.update_self] at same
    exact AgentClock.add_bounded same

theorem waiting_run {total : Int} (waiting : Waiting s total) (n : Nat) :
    Waiting (run (LedgerOp.perform yearApart) s (List.replicate n handIn)) (total + 31536000 * n) := by
  induction n generalizing s total with
  | zero =>
    rw [show total + 31536000 * ((0 : Nat) : Int) = total by omega]
    exact waiting
  | succ n ih =>
    rw [List.replicate_succ, run_cons]
    rw [show total + 31536000 * ((n + 1 : Nat) : Int) = total + 31536000 + 31536000 * n by omega]
    exact ih (waiting_step waiting)

/-- So many completions, each a year after the goal was created, are not in the column. -/
theorem clock_left : ¬∀ front back, List.replicate 292471208678 handIn = front ++ back →
      (run (LedgerOp.perform yearApart) (.start oneGoal) front).Balanced yearApart := by
  intro always
  have last := waiting_run waiting_start 292471208678
  have balanced := always (List.replicate 292471208678 handIn) [] (List.append_nil _).symm
  have within := last.bounded _ (balanced "g".toList)
  rw [last.seconds] at within
  exact absurd within (by decide)

end DuDuClaw.TaskStore
