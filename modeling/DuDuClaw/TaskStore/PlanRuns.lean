/-
# TaskStore.PlanRuns -- edits of plans, one after another

Additions, moves and removals of steps of any plans, at any places, from a store without
steps, against the same operations on a map from plans to lists.

* `step_refines`: one call with room for its keys is one operation on the lists.
* `plan_steps_refine`: over every run of calls with room the display lists are those of the
  operations, the keys are positive and distinct, and no placement is refused.
* `order_wraps`: a long enough run without room reaches a negative key.
-/
import DuDuClaw.Lib.Runs
import DuDuClaw.TaskStore.PlanOrder

namespace DuDuClaw.TaskStore

open DuDuClaw.Lib

/-! ## Calls -/

inductive PlanOp where
  | add (planId stepId text assigneeKind assignee : Text) (position : Option Nat)
  | move (planId stepId : Id) (newIndex : Nat)
  | remove (stepId : Id)

structure PlanCall where
  now : Text
  op : PlanOp

namespace PlanStore

/-- The reply, without its value, and the store after it: a refused transaction leaves the
store as it was. -/
def perform (mask : Text → Text) (s : PlanStore) (call : PlanCall) :
    Except Text Unit × PlanStore :=
  match call.op with
  | .add planId stepId text assigneeKind assignee position =>
    match s.addPlanStep mask call.now planId stepId text assigneeKind assignee position with
    | .ok (_, t) => (.ok (), t)
    | .error e => (.error e, s)
  | .move planId stepId newIndex =>
    match s.movePlanStep call.now planId stepId newIndex with
    | .ok (_, t) => (.ok (), t)
    | .error e => (.error e, s)
  | .remove stepId => (.ok (), (s.removePlanStep call.now stepId).2)

def step (mask : Text → Text) (s : PlanStore) (call : PlanCall) : PlanStore :=
  (s.perform mask call).2

end PlanStore

/-- A place for a key: the plan, the orders that are read and the index among them. -/
structure Place where
  planId : Id
  ordersOf : PlanStore → List Int
  index : Nat

/-- The place that a call looks for, where it looks for one. -/
def PlanOp.place (s : PlanStore) : PlanOp → Option Place
  | .add planId stepId text assigneeKind _ position =>
    if s.Accepts planId stepId text assigneeKind then
      some ⟨planId, fun t => t.planStepOrders planId, s.addIndex planId position⟩
    else none
  | .move planId stepId newIndex =>
    match (s.listPlanSteps planId).findIdx? fun row => row.id == stepId with
    | none => none
    | some cur =>
      if s.moveIndex planId newIndex = cur then none
      else some ⟨planId, PlanStore.ordersWithout planId stepId, s.moveIndex planId newIndex⟩
  | .remove _ => none

/-- The key after the last one, or the renumbering where it is due, is within range. -/
def PlanCall.Roomy (s : PlanStore) (call : PlanCall) : Prop :=
  ∀ place, call.op.place s = some place → s.HasRoom place.planId (place.ordersOf s) place.index

instance (s : PlanStore) (call : PlanCall) : Decidable (call.Roomy s) :=
  decidable_of_iff (∀ place ∈ call.op.place s, s.HasRoom place.planId (place.ordersOf s) place.index)
    Iff.rfl

/-- A placement is carried out; where its neighbours leave no room the renumbering keeps
every list and the second look finds a key. -/
structure PlanCall.Settles (mask : Text → Text) (s : PlanStore) (call : PlanCall) : Prop where
  returns : ∀ place, call.op.place s = some place → (s.perform mask call).1 = .ok ()
  retry : ∀ place, call.op.place s = some place →
    planOrderForInsert (place.ordersOf s) place.index = none →
      (s.renormalizePlanSteps place.planId call.now).lists = s.lists ∧
        ∃ k, planOrderForInsert
          (place.ordersOf (s.renormalizePlanSteps place.planId call.now)) place.index = some k

/-! ## Lists -/

/-- Insertion, move and removal on the lists of some plans.  A step has one place in one
list. -/
noncomputable def PlanOp.onLists (mask : Text → Text) (plans : List Id) (now : Text)
    (lists : Id → List StepContent) : PlanOp → Id → List StepContent
  | .add planId stepId text assigneeKind assignee position =>
    open Classical in
    if assigneeKind ∈ planAssigneeKinds ∧ (trim text).isEmpty = false ∧ planId ∈ plans ∧
        ∀ other, ∀ c ∈ lists other, c.id ≠ stepId then
      Function.update lists planId ((lists planId).insertIdx
        (min (position.getD (lists planId).length) (lists planId).length)
        ⟨stepId, mask (trim text), assigneeKind, assignee, "todo".toList, now⟩)
    else lists
  | .move planId stepId newIndex =>
    Function.update lists planId (PlanStore.moved stepId newIndex (lists planId))
  | .remove stepId => fun other => (lists other).filter fun c => c.id ≠ stepId

noncomputable def PlanCall.onLists (mask : Text → Text) (plans : List Id)
    (lists : Id → List StepContent) (call : PlanCall) : Id → List StepContent :=
  call.op.onLists mask plans call.now lists

/-! ## One call -/

section Calls

variable {mask : Text → Text} {s : PlanStore} {call : PlanCall}

/-- A place reads the keys of a plan, but for one of its steps. -/
theorem place_reads {op : PlanOp} {place : Place} (given : op.place s = some place) :
    ∃ sel : Id → Bool, ∀ t : PlanStore, place.ordersOf t =
      ((t.listPlanSteps place.planId).filter fun row => sel row.id).map PlanStepRow.stepOrder := by
  cases op with
  | add planId stepId text assigneeKind assignee position =>
    simp only [PlanOp.place] at given
    split at given
    · cases given
      exact ⟨fun _ => true, fun t => by simp [PlanStore.planStepOrders]⟩
    · cases given
  | move planId stepId newIndex =>
    simp only [PlanOp.place] at given
    split at given
    · cases given
    split at given
    · cases given
    · cases given
      exact ⟨fun id => decide (id ≠ stepId), fun _ => rfl⟩
  | remove stepId => cases given

theorem fresh_iff {stepId : Id} :
    (∀ row ∈ s.steps.rows, row.id ≠ stepId) ↔ ∀ other, ∀ c ∈ s.lists other, c.id ≠ stepId := by
  constructor
  · intro fresh other c there
    obtain ⟨row, listed, -, rfl⟩ := PlanStore.mem_lists.mp there
    exact fresh row listed
  · intro fresh row listed
    exact fresh row.planId row.content (PlanStore.mem_lists.mpr ⟨row, listed, rfl, rfl⟩)

theorem accepts_iff {planId stepId text assigneeKind : Text} : s.Accepts planId stepId text assigneeKind ↔
      assigneeKind ∈ planAssigneeKinds ∧ (trim text).isEmpty = false ∧
        planId ∈ s.plans.rows.map PlanRow.id ∧ ∀ other, ∀ c ∈ s.lists other, c.id ≠ stepId := by
  constructor
  · rintro ⟨kind, filled, plan, fresh⟩
    exact ⟨kind, filled, plan, fresh_iff.mp fresh⟩
  · rintro ⟨kind, filled, plan, fresh⟩
    exact ⟨kind, filled, plan, fresh_iff.mpr fresh⟩

theorem lists_update {t : PlanStore} {planId : Id} {steps : List StepContent}
    (here : t.lists planId = steps) (others : ∀ other, other ≠ planId → t.lists other = s.lists other) :
    t.lists = Function.update s.lists planId steps := by
  funext other
  by_cases same : other = planId
  · rw [same, Function.update_self]
    exact here
  · rw [Function.update_of_ne same]
    exact others other same

theorem step_refines (ordered : s.Ordered) (roomy : call.Roomy s) : (s.step mask call).Ordered ∧
      (s.step mask call).plans.rows.map PlanRow.id = s.plans.rows.map PlanRow.id ∧
      (s.step mask call).lists = call.onLists mask (s.plans.rows.map PlanRow.id) s.lists ∧
      ∀ place, call.op.place s = some place → (s.perform mask call).1 = .ok () := by
  obtain ⟨now, op⟩ := call
  cases op with
  | add planId stepId text kind assignee position =>
    by_cases accepts : s.Accepts planId stepId text kind
    · obtain ⟨row, t, added, ordered', plans, here, others⟩ :=
        @PlanStore.addPlanStep_spec _ now _ _ _ assignee mask _ _ ordered accepts
          (roomy _ (if_pos accepts))
      have after : s.perform mask ⟨now, .add planId stepId text kind assignee position⟩ =
          (.ok (), t) := by simp only [PlanStore.perform, added]
      rw [PlanStore.step, after]
      refine ⟨ordered', plans, ?_, fun _ _ => rfl⟩
      rw [lists_update here others]
      exact (if_pos (accepts_iff.mp accepts)).symm
    · obtain ⟨e, refused⟩ := @PlanStore.addPlanStep_refused _ now _ _ _ assignee mask position _
        accepts
      have after : s.perform mask ⟨now, .add planId stepId text kind assignee position⟩ =
          (.error e, s) := by simp only [PlanStore.perform, refused]
      rw [PlanStore.step, after]
      refine ⟨ordered, rfl, (if_neg fun all => accepts (accepts_iff.mpr all)).symm, ?_⟩
      intro place given
      rw [PlanOp.place, if_neg accepts] at given
      cases given
  | move planId stepId newIndex =>
    obtain ⟨moved, t, done, ordered', plans, here, others⟩ :=
      @PlanStore.movePlanStep_spec _ now _ stepId newIndex ordered (by
        intro cur found apart
        exact roomy ⟨planId, PlanStore.ordersWithout planId stepId, s.moveIndex planId newIndex⟩ (by
          simp only [PlanOp.place, found]
          exact if_neg apart))
    have after : s.perform mask ⟨now, .move planId stepId newIndex⟩ = (.ok (), t) := by
      simp only [PlanStore.perform, done]
    rw [PlanStore.step, after]
    exact ⟨ordered', plans, lists_update here others, fun _ _ => rfl⟩
  | remove stepId =>
    obtain ⟨ordered', plans, lists⟩ := s.removePlanStep_spec now stepId ordered
    exact ⟨ordered', plans, funext lists, fun _ _ => rfl⟩

theorem settles_of_roomy (ordered : s.Ordered) (roomy : call.Roomy s) : call.Settles mask s := by
  refine ⟨(step_refines ordered roomy).2.2.2, fun place given full => ?_⟩
  obtain ⟨sel, reads⟩ := place_reads given
  obtain ⟨k, t, placed, -, same, others, -⟩ :=
    @PlanStore.placed_spec _ call.now _ _ _ ordered sel reads (roomy place given)
  rw [PlanStore.placed, full] at placed
  obtain ⟨order, again, done⟩ := bind_ok.mp placed
  cases done
  refine ⟨funext fun other => ?_, k, okOr_ok.mp again⟩
  by_cases here : other = place.planId
  · rw [here]
    exact same
  · rw [PlanStore.lists, others other here, PlanStore.lists]

end Calls

/-! ## Runs -/

/-- What the calls so far leave: keys positive and distinct, and the lists of the operations. -/
structure PlanStore.Follows (mask : Text → Text) (plans : List Id) (done : List PlanCall)
    (s : PlanStore) : Prop where
  positive : ∀ planId, ∀ k ∈ s.planStepOrders planId, 0 < k
  distinct : ∀ planId, (s.planStepOrders planId).Nodup
  lists : s.lists = run (PlanCall.onLists mask plans) (fun _ => []) done

theorem run_follows {mask : Text → Text} {plans : Table PlanRow.id} {calls : List PlanCall}
    (roomy : Obeys (PlanStore.step mask) (fun s call => call.Roomy s) ⟨plans, .empty⟩ calls) :
    (run (PlanStore.step mask) ⟨plans, .empty⟩ calls).Ordered ∧
      (run (PlanStore.step mask) ⟨plans, .empty⟩ calls).plans.rows.map PlanRow.id = plans.rows.map PlanRow.id ∧
      (run (PlanStore.step mask) ⟨plans, .empty⟩ calls).lists =
        run (PlanCall.onLists mask (plans.rows.map PlanRow.id)) (fun _ => []) calls := by
  induction calls using List.reverseRecOn with
  | nil =>
    have none : ∀ planId k, k ∉ PlanStore.planStepOrders ⟨plans, .empty⟩ planId :=
      fun _ _ listed => nomatch listed
    refine ⟨fun planId => ⟨⟨List.Pairwise.nil, ?_⟩, ?_⟩, rfl, rfl⟩
    · exact fun k listed => absurd listed (none planId k)
    · exact fun k listed => absurd listed (none planId k)
  | append_singleton front call ih =>
    obtain ⟨before, this⟩ := obeys_append.mp roomy
    obtain ⟨ordered, ids, lists⟩ := ih before
    obtain ⟨ordered', ids', lists', -⟩ := @step_refines mask _ _ ordered this.1
    rw [run_append, run_append]
    refine ⟨ordered', ids'.trans ids, ?_⟩
    rw [ids, lists] at lists'
    exact lists'

/-- **The display lists are those of the operations.**  In every state of a run whose calls
have room for their keys, and for the next call there. -/
theorem plan_steps_refine (mask : Text → Text) (plans : Table PlanRow.id) (calls : List PlanCall)
    (roomy : Obeys (PlanStore.step mask) (fun s call => call.Roomy s) ⟨plans, .empty⟩ calls) :
    ∀ front back, calls = front ++ back → (run (PlanStore.step mask) ⟨plans, .empty⟩ front).Follows mask
          (plans.rows.map PlanRow.id) front ∧
        ∀ call rest, back = call :: rest →
          call.Settles mask (run (PlanStore.step mask) ⟨plans, .empty⟩ front) := by
  intro front back split
  subst split
  obtain ⟨before, after⟩ := obeys_append.mp roomy
  obtain ⟨ordered, -, lists⟩ := run_follows before
  refine ⟨⟨fun planId => (ordered planId).1.positive, fun planId => ?_, lists⟩, ?_⟩
  · exact (ordered planId).1.rises.imp fun less => Int.ne_of_lt less
  · rintro call rest rfl
    exact settles_of_roomy ordered after.1

/-- Two steps, a third put before the first, a move to the end and a removal. -/
def fewEdits : List PlanCall :=
  let add (step : String) (position : Option Nat) : PlanOp :=
    .add "p".toList step.toList "read it".toList "user".toList "u".toList position
  [⟨"1".toList, add "a" none⟩, ⟨"2".toList, add "b" none⟩, ⟨"3".toList, add "c" (some 0)⟩,
    ⟨"4".toList, .move "p".toList "c".toList 7⟩, ⟨"5".toList, .remove "a".toList⟩]

def onePlan : Table PlanRow.id := ⟨[⟨"p".toList, "0".toList⟩], by decide⟩

theorem fewEdits_refine : Obeys (PlanStore.step id) (fun s call => call.Roomy s) ⟨onePlan, .empty⟩ fewEdits ∧
      ∀ front back, fewEdits = front ++ back → (run (PlanStore.step id) ⟨onePlan, .empty⟩ front).Follows id
            (onePlan.rows.map PlanRow.id) front ∧
          ∀ call rest, back = call :: rest →
            call.Settles id (run (PlanStore.step id) ⟨onePlan, .empty⟩ front) :=
  have roomy : Obeys (PlanStore.step id) (fun s call => call.Roomy s) ⟨onePlan, .empty⟩ fewEdits := by
    decide
  ⟨roomy, plan_steps_refine id onePlan fewEdits roomy⟩

/-! ## Without room -/

def append (step : String) : PlanCall :=
  ⟨"1".toList, .add "p".toList step.toList "read it".toList "user".toList "u".toList none⟩

def remove (step : String) : PlanCall := ⟨"1".toList, .remove step.toList⟩

structure Single (s : PlanStore) (step : String) (k : Int) : Prop where
  plans : s.plans.rows.map PlanRow.id = ["p".toList]
  only : ∃ row, s.steps.rows = [row] ∧ row.id = step.toList ∧ row.planId = "p".toList ∧
    row.stepOrder = k

section Appending

variable {s : PlanStore} {x y : String} {k : Int}

theorem appended (single : Single s x k) (differ : x.toList ≠ y.toList) :
    (s.step id (append y)).plans.rows.map PlanRow.id = ["p".toList] ∧
      ∃ row new, (s.step id (append y)).steps.rows = [row, new] ∧ row.id = x.toList ∧
        new.id = y.toList ∧ new.planId = "p".toList ∧ new.stepOrder = wrap (k + planStepOrderGap) := by
  obtain ⟨plans, row, only, named, itsPlan, key⟩ := single
  have listing : s.listPlanSteps "p".toList = [row] := by
    rw [PlanStore.listPlanSteps, only, List.filter_singleton, itsPlan]
    rfl
  have orders : s.planStepOrders "p".toList = [k] := by
    rw [PlanStore.planStepOrders, listing, List.map_singleton, key]
  let new : PlanStepRow := ⟨y.toList, "p".toList, "read it".toList, "user".toList, "u".toList,
    "todo".toList, wrap (k + planStepOrderGap), "1".toList, "1".toList⟩
  obtain ⟨steps, inserted⟩ := @Table.insert_fresh _ _ _ _ s.steps new (by
    rw [only]
    intro other listed same
    rw [List.mem_singleton.mp listed] at same
    exact differ (named.symm.trans same))
  have added : s.addPlanStep id "1".toList "p".toList y.toList "read it".toList "user".toList
      "u".toList none = .ok (new, ({ s with steps := steps } : PlanStore).touch "p".toList "1".toList) := by
    have known : ¬"p".toList ∉ s.plans.rows.map PlanRow.id := by
      rw [plans]
      decide
    have placed : s.placed "p".toList "1".toList (fun t => t.planStepOrders "p".toList) 1 =
        .ok (wrap (k + planStepOrderGap), s) := by
      rw [PlanStore.placed, orders]
      rfl
    simp only [PlanStore.addPlanStep, bind_ok, refuseIf_ok, okOr_ok, orders]
    exact ⟨(), by decide, (), by decide, (), known, (wrap (k + planStepOrderGap), s), placed, steps,
      inserted, rfl⟩
  have after : s.step id (append y) =
      ({ s with steps := steps } : PlanStore).touch "p".toList "1".toList := by
    simp only [PlanStore.step, PlanStore.perform, append, added]
  rw [after]
  refine ⟨(PlanStore.touch_ids _ _ _).trans plans, row, new, ?_, named, rfl, rfl, rfl⟩
  show steps.rows = _
  rw [(Table.insert_cases inserted).2, only]
  rfl

/-- The next step takes the place of the only one. -/
theorem replaced (single : Single s x k) (differ : x.toList ≠ y.toList)
    (room : k + planStepOrderGap ≤ stepOrderMax) (positive : 0 < k) :
    Single (run (PlanStore.step id) s [append y, remove x]) y (k + planStepOrderGap) := by
  obtain ⟨plans, row, new, both, named, named', itsPlan, key⟩ := appended single differ
  rw [wrap_of_range (by unfold planStepOrderGap; omega) room] at key
  rw [run_cons, run_cons, run_nil]
  generalize PlanStore.step id s (append y) = t at *
  have found : t.getPlanStep x.toList = some row := by
    rw [PlanStore.getPlanStep, both]
    exact List.find?_cons_of_pos (beq_iff_eq.mpr named)
  have after : t.step id (remove x) =
      ({ t with steps := t.steps.deleteWhere fun row => row.id == x.toList } : PlanStore).touch
        row.planId "1".toList := by
    simp only [PlanStore.step, PlanStore.perform, remove, PlanStore.removePlanStep, found]
  rw [after]
  refine ⟨(PlanStore.touch_ids _ _ _).trans plans, new, ?_, named', itsPlan, key⟩
  show t.steps.rows.filter _ = _
  have apart : (new.id == x.toList) = false := beq_false_of_ne fun same => differ (same.symm.trans named')
  rw [both, List.filter_cons_of_neg (by simp [named]), List.filter_cons_of_pos (by simp [apart])]
  rfl

end Appending

/-- Two replacements, after which the only step is the first one again. -/
def cycle : List PlanCall := [append "b", remove "a"] ++ [append "a", remove "b"]

def cycles (n : Nat) : List PlanCall := (List.replicate n cycle).flatten

theorem cycles_single {n : Nat} {s : PlanStore} {k : Int} (single : Single s "a" k) (positive : 0 < k)
    (room : k + 2 * planStepOrderGap * n ≤ stepOrderMax) :
    Single (run (PlanStore.step id) s (cycles n)) "a" (k + 2 * planStepOrderGap * n) := by
  induction n generalizing s k with
  | zero =>
    rw [show k + 2 * planStepOrderGap * (0 : Nat) = k by simp]
    exact single
  | succ n ih =>
    unfold planStepOrderGap at *
    have split : cycles (n + 1) = cycle ++ cycles n := by
      rw [cycles, List.replicate_succ, List.flatten_cons, cycles]
    have once := replaced (y := "b") single (by decide)
      (by unfold planStepOrderGap; omega) positive
    have twice := replaced (y := "a") once (by decide) (by unfold planStepOrderGap; omega)
      (by unfold planStepOrderGap; omega)
    rw [← run_append] at twice
    unfold planStepOrderGap at twice
    have rest := ih twice (by omega) (by omega)
    rw [split, run_append]
    rw [show k + 2 * 1024 * ((n + 1 : Nat) : Int) = k + 1024 + 1024 + 2 * 1024 * n by omega]
    exact rest

/-- A first step, replaced until its key is the last multiple of the gap, and one more. -/
def longRun : List PlanCall := append "a" :: cycles 4503599627370495 ++ [append "b"]

/-- The key of the step after that is negative. -/
theorem order_wraps :
    ¬∀ k ∈ (run (PlanStore.step id) ⟨onePlan, .empty⟩ longRun).planStepOrders "p".toList, 0 < k := by
  intro positive
  have first : Single (PlanStore.step id ⟨onePlan, .empty⟩ (append "a")) "a" planStepOrderGap :=
    ⟨by decide, _, rfl, by decide, by decide, by decide⟩
  have last := cycles_single (n := 4503599627370495) first (by decide) (by decide)
  obtain ⟨-, row, new, both, -, -, itsPlan, key⟩ := appended (y := "b") last (by decide)
  have whole : run (PlanStore.step id) ⟨onePlan, .empty⟩ longRun =
      PlanStore.step id (run (PlanStore.step id)
        (PlanStore.step id ⟨onePlan, .empty⟩ (append "a")) (cycles 4503599627370495)) (append "b") := by
    rw [longRun, List.cons_append, run_cons, run_append, run_cons, run_nil]
  rw [whole] at positive
  have listed : new.stepOrder ∈ (PlanStore.step id (run (PlanStore.step id)
      (PlanStore.step id ⟨onePlan, .empty⟩ (append "a")) (cycles 4503599627370495))
        (append "b")).planStepOrders "p".toList := by
    refine List.mem_map_of_mem (PlanStore.mem_list.mpr ⟨?_, itsPlan⟩)
    rw [both]
    exact List.mem_cons_of_mem row (List.mem_singleton_self new)
  have sign := positive _ listed
  rw [key] at sign
  exact absurd sign (by decide)

end DuDuClaw.TaskStore
