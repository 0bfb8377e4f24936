/-
# TaskStore.Plans -- plans and their ordered steps

The steps of a plan (task_store/plans.rs) in the order of their `step_order`, an `i64`
that an insertion or a move takes from the gap between two neighbours.  Arithmetic wraps
as it does in a release build.

* `planOrderForInsert_eq_slot`: within the range of an `i64` the key is that of
  `Lib.GapOrder`.
-/
import DuDuClaw.Lib.Fallible
import DuDuClaw.Lib.GapOrder
import DuDuClaw.Lib.Table
import DuDuClaw.TaskStore.Tasks

namespace DuDuClaw.TaskStore

open DuDuClaw.Lib

/-! ## Rows -/

def planStepOrderGap : Int := 1024

/-- `i64` arithmetic: the value modulo 2^64. -/
def wrap (n : Int) : Int := (n + 9223372036854775808) % 18446744073709551616 - 9223372036854775808

def stepOrderMax : Int := 9223372036854775807

theorem wrap_of_range {n : Int} (low : -9223372036854775808 ≤ n) (high : n ≤ stepOrderMax) : wrap n = n := by
  unfold stepOrderMax at high
  unfold wrap
  omega

def planAssigneeKinds : List Text := ["user".toList, "agent".toList]

/-- A row of `plans`, as far as its steps touch it. -/
structure PlanRow where
  id : Id
  updatedAt : Text

structure PlanStepRow where
  id : Id
  planId : Id
  text : Text
  assigneeKind : Text
  assignee : Text
  status : Text
  stepOrder : Int
  createdAt : Text
  updatedAt : Text

/-- `ORDER BY step_order ASC, created_at ASC, id ASC`. -/
def PlanStepRow.Before (a b : PlanStepRow) : Prop :=
  a.stepOrder < b.stepOrder ∨ a.stepOrder = b.stepOrder ∧
    (a.createdAt < b.createdAt ∨ a.createdAt = b.createdAt ∧ ¬b.id < a.id)

instance : DecidableRel PlanStepRow.Before := fun a b => by
  unfold PlanStepRow.Before
  infer_instance

structure PlanStore where
  plans : Table PlanRow.id
  steps : Table PlanStepRow.id

/-! ## Reading -/

namespace PlanStore

variable (s : PlanStore)

def listPlanSteps (planId : Id) : List PlanStepRow :=
  (s.steps.rows.filter fun row => row.planId == planId).insertionSort PlanStepRow.Before

def planStepOrders (planId : Id) : List Int := (s.listPlanSteps planId).map PlanStepRow.stepOrder

def getPlanStep (stepId : Id) : Option PlanStepRow :=
  s.steps.rows.find? fun row => row.id == stepId

/-! ## Places -/

/-- `UPDATE plan_steps SET step_order = .., updated_at = .. WHERE id = ..`. -/
def setOrder (stepId : Id) (order : Int) (now : Text) : PlanStore :=
  { s with
    steps := s.steps.update
      (fun row => if row.id = stepId then { row with stepOrder := order, updatedAt := now } else row)
      fun _ => keep_ite PlanStepRow.id rfl }

/-- `UPDATE plans SET updated_at = .. WHERE id = ..`. -/
def touch (planId : Id) (now : Text) : PlanStore :=
  { s with
    plans := s.plans.update
      (fun row => if row.id = planId then { row with updatedAt := now } else row)
      fun _ => keep_ite PlanRow.id rfl }

/-- One UPDATE for each step, in display order. -/
def renormalizePlanSteps (planId : Id) (now : Text) : PlanStore :=
  (s.listPlanSteps planId).zipIdx.foldl
    (fun t (row, i) => t.setOrder row.id (wrap (((i : Int) + 1) * planStepOrderGap)) now) s

end PlanStore

def planOrderForInsert (orders : List Int) (index : Nat) : Option Int :=
  match orders[index]? with
  | none => some (wrap (orders.getLast?.getD 0 + planStepOrderGap))
  | some next =>
    let prev := floorOf orders index
    let mid := wrap (prev + (wrap (next - prev)).tdiv 2)
    if prev < mid ∧ mid < next then some mid else none

def renormalizationFailed : Text := "plan ordering renormalization failed".toList

/-- The key for a place among the orders that `ordersOf` reads, after renumbering the plan
where its neighbours leave no room. -/
def PlanStore.placed (s : PlanStore) (planId : Id) (now : Text) (ordersOf : PlanStore → List Int)
    (index : Nat) : Except Text (Int × PlanStore) :=
  match planOrderForInsert (ordersOf s) index with
  | some order => .ok (order, s)
  | none => do
    let t := s.renormalizePlanSteps planId now
    let order ← okOr (planOrderForInsert (ordersOf t) index) renormalizationFailed
    return (order, t)

/-! ## Writes -/

def invalidAssigneeKind (kind : Text) : Text := "invalid assignee_kind: ".toList ++ kind

def stepTextRequired : Text := "step text is required".toList

def planNotFound (planId : Id) : Text := "plan not found: ".toList ++ planId

def stepExists : Text := "insert step: UNIQUE constraint failed: plan_steps.id".toList

namespace PlanStore

/-- `mask` is `mask_derived_text`, `now` the clock. -/
def addPlanStep (mask : Text → Text) (now : Text) (s : PlanStore)
    (planId stepId text assigneeKind assignee : Text) (position : Option Nat) :
    Except Text (PlanStepRow × PlanStore) := do
  refuseIf (assigneeKind ∉ planAssigneeKinds) (invalidAssigneeKind assigneeKind)
  refuseIf ((trim text).isEmpty = true) stepTextRequired
  refuseIf (planId ∉ s.plans.rows.map PlanRow.id) (planNotFound planId)
  let orders := s.planStepOrders planId
  let index := min (position.getD orders.length) orders.length
  let (order, t) ← s.placed planId now (fun t => t.planStepOrders planId) index
  let row : PlanStepRow :=
    { id := stepId
      planId := planId
      text := mask (trim text)
      assigneeKind := assigneeKind
      assignee := assignee
      status := "todo".toList
      stepOrder := order
      createdAt := now
      updatedAt := now }
  let steps ← okOr (t.steps.insert row) stepExists
  return (row, { t with steps := steps }.touch planId now)

def ordersWithout (planId stepId : Id) (s : PlanStore) : List Int :=
  ((s.listPlanSteps planId).filter fun row => row.id ≠ stepId).map PlanStepRow.stepOrder

def movePlanStep (now : Text) (s : PlanStore) (planId stepId : Id) (newIndex : Nat) :
    Except Text (Bool × PlanStore) :=
  let steps := s.listPlanSteps planId
  match steps.findIdx? fun row => row.id == stepId with
  | none => .ok (false, s)
  | some cur =>
    let target := min newIndex (steps.length - 1)
    if target = cur then .ok (true, s)
    else do
      let (order, t) ← s.placed planId now (ordersWithout planId stepId) target
      return (true, (t.setOrder stepId order now).touch planId now)

def removePlanStep (now : Text) (s : PlanStore) (stepId : Id) : Option PlanStepRow × PlanStore :=
  match s.getPlanStep stepId with
  | none => (none, s)
  | some row =>
    (some row,
      { s with steps := s.steps.deleteWhere fun row => row.id == stepId }.touch row.planId now)

end PlanStore

/-! ## Keys within range -/

/-- Within the range of an `i64` the key is the one of the general construction. -/
theorem planOrderForInsert_eq_slot {orders : List Int} {index : Nat} (ladder : Ladder orders)
    (bounded : ∀ k ∈ orders, k ≤ stepOrderMax)
    (room : orders.length ≤ index → orders.getLast?.getD 0 + planStepOrderGap ≤ stepOrderMax) :
    planOrderForInsert orders index = slot planStepOrderGap orders index := by
  unfold planOrderForInsert slot
  cases there : orders[index]? with
  | none =>
    have fits := room (List.getElem?_eq_none_iff.mp there)
    have low := ladder.last_nonneg
    unfold planStepOrderGap at fits ⊢
    dsimp only
    rw [wrap_of_range (by omega) fits]
  | some next =>
    have listed : next ∈ orders := List.mem_of_getElem? there
    have low := ladder.positive next listed
    have high := bounded next listed
    obtain ⟨nonneg, less⟩ := ladder.floorOf_lt there
    dsimp only
    generalize floorOf orders index = prev at *
    have inner : wrap (next - prev) = next - prev :=
      wrap_of_range (by omega) (by unfold stepOrderMax at high ⊢; omega)
    have halved : (next - prev).tdiv 2 = (next - prev) / 2 :=
      Int.tdiv_eq_ediv_of_nonneg (by omega)
    have outer : wrap (prev + (next - prev) / 2) = prev + (next - prev) / 2 :=
      wrap_of_range (by omega) (by unfold stepOrderMax at high ⊢; omega)
    rw [inner, halved, outer]

end DuDuClaw.TaskStore
