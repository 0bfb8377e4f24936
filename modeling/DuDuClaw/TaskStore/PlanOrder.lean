/-
# TaskStore.PlanOrder -- the steps of a plan are a list

One addition, move or removal of a step against insertion, move and removal on an ordinary
list.  The keys are unbounded in the list and an `i64` in the row: `HasRoom` says that the
next key, or the renumbering, is within range.

* `list_eq`: the rows of a plan, in any order with a ladder of keys, are its display list.
* `renormalize_spec`: the renumbering keeps every display list.
* `placed_spec`: a key is found, at once or after the renumbering.
* `addPlanStep_spec`, `movePlanStep_spec`, `removePlanStep_spec`: the three writes.
-/
import DuDuClaw.TaskStore.Plans

namespace DuDuClaw.TaskStore

open DuDuClaw.Lib

/-! ## Display lists -/

structure StepContent where
  id : Id
  text : Text
  assigneeKind : Text
  assignee : Text
  status : Text
  createdAt : Text

def PlanStepRow.content (row : PlanStepRow) : StepContent :=
  ⟨row.id, row.text, row.assigneeKind, row.assignee, row.status, row.createdAt⟩

namespace PlanStore

variable {s : PlanStore} {planId : Id}

variable {row : PlanStepRow} {rows front back : List PlanStepRow} {now planId text kind assignee : Text}
  {k : Int} {index : Nat} {ordersOf : PlanStore → List Int} {t : PlanStore} {stepId : Id} {mask : Text → Text}
  {position : Option Nat}

theorem list_perm (s : PlanStore) (planId : Id) :
    (s.listPlanSteps planId).Perm (s.steps.rows.filter fun row => row.planId == planId) :=
  List.perm_insertionSort _ _

@[simp] theorem mem_list : row ∈ s.listPlanSteps planId ↔ row ∈ s.steps.rows ∧ row.planId = planId := by
  simp [listPlanSteps, List.mem_insertionSort]

/-- The rows of a plan, in an order with a ladder of keys, are its display list. -/
theorem list_eq (perm : rows.Perm (s.steps.rows.filter fun row => row.planId == planId))
    (ladder : Ladder (rows.map PlanStepRow.stepOrder)) : s.listPlanSteps planId = rows := by
  refine insertionSort_eq perm ((List.pairwise_map.mp ladder.rises).imp fun {a b} less => ?_)
  refine ⟨.inl less, ?_⟩
  rintro (more | ⟨same, -⟩)
  · exact Int.lt_irrefl _ (Int.lt_trans less more)
  · exact Int.ne_of_lt less same.symm

/-- Every plan's keys are a ladder within range. -/
def Ordered (s : PlanStore) : Prop :=
  ∀ planId, Ladder (s.planStepOrders planId) ∧ ∀ k ∈ s.planStepOrders planId, k ≤ stepOrderMax

theorem list_distinct (s : PlanStore) (planId : Id) : ((s.listPlanSteps planId).map PlanStepRow.id).Nodup := by
  have distinct := s.steps.distinct.sublist
    ((List.filter_sublist (p := fun row : PlanStepRow => row.planId == planId)).map PlanStepRow.id)
  exact (((list_perm s planId).map PlanStepRow.id).nodup_iff).mpr distinct

/-! ## Renumbering -/

/-- The row after the loop: its place in the list, if it is there, gives its key. -/
def numbered (now : Text) (targets : List (PlanStepRow × Nat)) (row : PlanStepRow) : PlanStepRow :=
  match targets.find? fun target => target.1.id == row.id with
  | some target =>
    { row with stepOrder := wrap (((target.2 : Int) + 1) * planStepOrderGap), updatedAt := now }
  | none => row

theorem numbered_content (now : Text) (targets : List (PlanStepRow × Nat)) (row : PlanStepRow) :
    (numbered now targets row).content = row.content ∧ (numbered now targets row).planId = row.planId := by
  unfold numbered
  split
  · simp only [PlanStepRow.content, and_self]
  · exact ⟨rfl, rfl⟩

theorem setOrder_rows (s : PlanStore) (stepId : Id) (order : Int) (now : Text) :
    (s.setOrder stepId order now).steps.rows = s.steps.rows.map fun row =>
      if row.id = stepId then { row with stepOrder := order, updatedAt := now } else row := rfl

theorem foldl_setOrder (now : Text) (targets : List (PlanStepRow × Nat)) (s : PlanStore)
    (distinct : (targets.map fun target => target.1.id).Nodup) : let t := targets.foldl (fun t target =>
      t.setOrder target.1.id (wrap (((target.2 : Int) + 1) * planStepOrderGap)) now) s
    t.plans = s.plans ∧ t.steps.rows = s.steps.rows.map (numbered now targets) := by
  induction targets generalizing s with
  | nil => exact ⟨rfl, (List.map_id _).symm⟩
  | cons first rest ih =>
    obtain ⟨new, distinct⟩ := List.nodup_cons.mp distinct
    obtain ⟨plans, rows⟩ := ih (s.setOrder first.1.id _ now) distinct
    refine ⟨plans, rows.trans ?_⟩
    rw [setOrder_rows, List.map_map]
    apply List.map_congr_left
    intro row _
    by_cases here : row.id = first.1.id
    · -- the later updates name other steps
      have others : rest.find? (fun target => target.1.id == row.id) = none := by
        rw [List.find?_eq_none]
        intro target listed same
        exact new (List.mem_map.mpr ⟨target, listed, (eq_of_beq same).trans here⟩)
      have found : (first :: rest).find? (fun target => target.1.id == row.id) = some first :=
        List.find?_cons_of_pos (by simp [here])
      simp only [Function.comp_apply, if_pos here, numbered, others, found]
    · have found : (first :: rest).find? (fun target => target.1.id == row.id) =
          rest.find? fun target => target.1.id == row.id :=
        List.find?_cons_of_neg (by simpa using Ne.symm here)
      simp only [Function.comp_apply, if_neg here, numbered, found]

/-- The place of a row in its list is the one the loop finds. -/
theorem numbered_of_mem {target : PlanStepRow × Nat}
    (distinct : (rows.map PlanStepRow.id).Nodup) (listed : target ∈ rows.zipIdx) :
    (numbered now rows.zipIdx target.1).stepOrder = wrap (((target.2 : Int) + 1) * planStepOrderGap) := by
  have ids : (rows.zipIdx.map fun other => other.1.id).Nodup := by
    rw [show (fun other : PlanStepRow × Nat => other.1.id) = PlanStepRow.id ∘ Prod.fst from rfl,
      ← List.map_map, List.zipIdx_map_fst]
    exact distinct
  unfold numbered
  cases found : rows.zipIdx.find? fun other => other.1.id == target.1.id with
  | none =>
    rw [List.find?_eq_none] at found
    exact absurd (beq_self_eq_true _) (found target listed)
  | some other =>
    have same : other = target := by
      refine List.inj_on_of_nodup_map ids (List.mem_of_find?_eq_some found) listed ?_
      simpa using List.find?_some found
    rw [same]

/-- What a renumbering does to the keys of a plan within range. -/
theorem numbered_orders (distinct : (rows.map PlanStepRow.id).Nodup)
    (fits : (rows.length : Int) * planStepOrderGap ≤ stepOrderMax) :
    (rows.map (numbered now rows.zipIdx)).map PlanStepRow.stepOrder =
      multiples planStepOrderGap rows.length := by
  have places : rows.zipIdx.map Prod.snd = List.range rows.length := by
    rw [List.zipIdx_map_snd, List.range_eq_range']
  calc (rows.map (numbered now rows.zipIdx)).map PlanStepRow.stepOrder
      = rows.zipIdx.map fun target => (numbered now rows.zipIdx target.1).stepOrder := by
        conv_lhs => rw [← List.zipIdx_map_fst 0 rows]
        rw [List.map_map, List.map_map]
        simp only [List.zipIdx_map_fst]
        rfl
    _ = rows.zipIdx.map fun target => ((target.2 : Int) + 1) * planStepOrderGap := by
        apply List.map_congr_left
        intro target listed
        rw [numbered_of_mem distinct listed]
        have inside := List.mem_zipIdx listed
        unfold planStepOrderGap stepOrderMax at *
        exact wrap_of_range (by omega) (by unfold stepOrderMax; omega)
    _ = multiples planStepOrderGap rows.length := by
        rw [multiples, ← places, List.map_map]
        rfl

theorem renormalize_spec (s : PlanStore) (planId : Id) (now : Text)
    (fits : ((s.listPlanSteps planId).length : Int) * planStepOrderGap ≤ stepOrderMax) :
    let t := s.renormalizePlanSteps planId now
    t.plans = s.plans ∧ (t.listPlanSteps planId).map PlanStepRow.content =
        (s.listPlanSteps planId).map PlanStepRow.content ∧
      (t.listPlanSteps planId).map PlanStepRow.stepOrder =
        multiples planStepOrderGap (s.listPlanSteps planId).length ∧
      ∀ other, other ≠ planId → t.listPlanSteps other = s.listPlanSteps other := by
  have distinct := list_distinct s planId
  have ids : ((s.listPlanSteps planId).zipIdx.map fun target => target.1.id).Nodup := by
    rw [show (fun target : PlanStepRow × Nat => target.1.id) = PlanStepRow.id ∘ Prod.fst from rfl,
      ← List.map_map, List.zipIdx_map_fst]
    exact distinct
  obtain ⟨plans, rows⟩ := foldl_setOrder now (s.listPlanSteps planId).zipIdx s ids
  intro t
  have keeps : ∀ other, (t.steps.rows.filter fun row => row.planId == other) =
      (s.steps.rows.filter fun row => row.planId == other).map
        (numbered now (s.listPlanSteps planId).zipIdx) := by
    intro other
    rw [show t.steps.rows = _ from rows, List.filter_map]
    congr 1
    apply List.filter_congr
    intro row _
    rw [Function.comp_apply, (numbered_content now _ row).2]
  have orders := @numbered_orders _ now distinct fits
  have listing : t.listPlanSteps planId =
      (s.listPlanSteps planId).map (numbered now (s.listPlanSteps planId).zipIdx) := by
    apply list_eq
    · rw [keeps]
      exact (list_perm s planId).map _
    · rw [orders]
      exact (spaced_multiples (by decide) _).ladder (by decide)
  refine ⟨plans, ?_, ?_, ?_⟩
  · rw [listing, List.map_map]
    exact List.map_congr_left fun row _ => (numbered_content now _ row).1
  · rw [listing, orders]
  · intro other apart
    rw [listPlanSteps, keeps, listPlanSteps]
    congr 1
    refine (List.map_congr_left fun row listed => ?_).trans (List.map_id _)
    -- a row of another plan is not in the list
    unfold numbered
    rw [List.find?_eq_none.mpr]
    · rfl
    · intro target there same
      have inList : target.1 ∈ s.listPlanSteps planId := by
        rw [← List.zipIdx_map_fst 0 (s.listPlanSteps planId)]
        exact List.mem_map_of_mem there
      obtain ⟨inTable, itsPlan⟩ := mem_list.mp inList
      obtain ⟨inTable', itsPlan'⟩ := List.mem_filter.mp listed
      have equal := s.steps.unique inTable inTable' (eq_of_beq same)
      exact apart ((eq_of_beq itsPlan').symm.trans (equal ▸ itsPlan))

/-! ## Finding a key -/

/-- The neighbours of a place are next to each other. -/
def Exhausted (orders : List Int) (index : Nat) : Prop :=
  ∃ next, orders[index]? = some next ∧ next ≤ floorOf orders index + 1

/-- The key after the last one, or the renumbering of the plan, is within range, where it is
what the place needs. -/
structure HasRoom (s : PlanStore) (planId : Id) (orders : List Int) (index : Nat) : Prop where
  append : orders.length ≤ index → orders.getLast?.getD 0 + planStepOrderGap ≤ stepOrderMax
  renumber : Exhausted orders index →
    ((s.listPlanSteps planId).length : Int) * planStepOrderGap ≤ stepOrderMax

instance (orders : List Int) (index : Nat) : Decidable (Exhausted orders index) :=
  decidable_of_iff (∃ next ∈ orders[index]?, next ≤ floorOf orders index + 1) Iff.rfl

instance (s : PlanStore) (planId : Id) (orders : List Int) (index : Nat) :
    Decidable (s.HasRoom planId orders index) :=
  decidable_of_iff ((orders.length ≤ index →
      orders.getLast?.getD 0 + planStepOrderGap ≤ stepOrderMax) ∧ (Exhausted orders index →
      ((s.listPlanSteps planId).length : Int) * planStepOrderGap ≤ stepOrderMax))
    ⟨fun ⟨append, renumber⟩ => ⟨append, renumber⟩, fun ⟨append, renumber⟩ => ⟨append, renumber⟩⟩

theorem filter_content (rows : List PlanStepRow) (sel : Id → Bool) :
    (rows.filter fun row => sel row.id).map PlanStepRow.content =
      (rows.map PlanStepRow.content).filter fun c => sel c.id := by
  rw [List.filter_map]
  rfl

/-- A key between two parts of what the orders were read from. -/
theorem key_splits (ladder : Ladder (rows.map PlanStepRow.stepOrder))
    (bounded : ∀ o ∈ rows.map PlanStepRow.stepOrder, o ≤ stepOrderMax)
    (append : (rows.map PlanStepRow.stepOrder).length ≤ index →
      (rows.map PlanStepRow.stepOrder).getLast?.getD 0 + planStepOrderGap ≤ stepOrderMax)
    (given : planOrderForInsert (rows.map PlanStepRow.stepOrder) index = some k)
    (split : rows = front ++ back) (here : front.length = index) :
    Ladder (front.map PlanStepRow.stepOrder ++ k :: back.map PlanStepRow.stepOrder) ∧ k ≤ stepOrderMax := by
  rw [planOrderForInsert_eq_slot ladder bounded append] at given
  subst split here
  rw [List.map_append] at ladder bounded append given
  rw [← List.length_map (f := PlanStepRow.stepOrder)] at append given
  obtain ⟨still, last, below⟩ := slot_splits ladder (by decide) given
  refine ⟨still, ?_⟩
  cases back with
  | nil =>
    rw [last rfl]
    simpa using append
  | cons row rest =>
    have less := below row.stepOrder (by simp)
    have high := bounded row.stepOrder (by simp)
    omega

theorem placed_spec (ordered : s.Ordered) (sel : Id → Bool) (reads : ∀ t : PlanStore, ordersOf t =
      ((t.listPlanSteps planId).filter fun row => sel row.id).map PlanStepRow.stepOrder)
    (room : HasRoom s planId (ordersOf s) index) :
    ∃ k t, s.placed planId now ordersOf index = .ok (k, t) ∧ t.plans = s.plans ∧
      (t.listPlanSteps planId).map PlanStepRow.content = (s.listPlanSteps planId).map PlanStepRow.content ∧
      (∀ other, other ≠ planId → t.listPlanSteps other = s.listPlanSteps other) ∧ t.Ordered ∧
      ∀ front back, ((t.listPlanSteps planId).filter fun row => sel row.id) = front ++ back →
        front.length = index → Ladder (front.map PlanStepRow.stepOrder ++ k :: back.map PlanStepRow.stepOrder) ∧
          k ≤ stepOrderMax := by
  obtain ⟨ladder, bounded⟩ := ordered planId
  have fewer : (ordersOf s).Sublist (s.planStepOrders planId) := by
    rw [reads]
    exact List.filter_sublist.map PlanStepRow.stepOrder
  have ladder' := ladder.sublist fewer
  have bounded' : ∀ o ∈ ordersOf s, o ≤ stepOrderMax := fun o listed => bounded o (fewer.subset listed)
  cases given : planOrderForInsert (ordersOf s) index with
  | some k =>
    refine ⟨k, s, ?_, rfl, rfl, fun _ _ => rfl, ordered, fun front back split here => ?_⟩
    · rw [placed, given]
    · have append := room.append
      rw [reads] at given ladder' bounded' append
      exact key_splits ladder' bounded' append given split here
  | none =>
    have full := given
    rw [planOrderForInsert_eq_slot ladder' bounded' room.append] at full
    obtain ⟨next, there, tight⟩ := slot_none full
    have fits := room.renumber ⟨next, there, tight⟩
    obtain ⟨plans, contents, orders, others⟩ := renormalize_spec s planId now fits
    have spaced := spaced_multiples (show 0 < planStepOrderGap by decide)
      (s.listPlanSteps planId).length
    rw [← orders] at spaced
    have fewer' : (ordersOf (s.renormalizePlanSteps planId now)).Sublist
        (((s.renormalizePlanSteps planId now).listPlanSteps planId).map PlanStepRow.stepOrder) := by
      rw [reads]
      exact List.filter_sublist.map PlanStepRow.stepOrder
    have spaced' := spaced.sublist fewer'
    have high : ∀ o ∈ ((s.renormalizePlanSteps planId now).listPlanSteps planId).map
        PlanStepRow.stepOrder, o ≤ stepOrderMax := by
      intro o listed
      rw [orders] at listed
      obtain ⟨i, inside, rfl⟩ := List.mem_map.mp listed
      have below := List.mem_range.mp inside
      unfold planStepOrderGap stepOrderMax at *
      omega
    -- as many steps as before, so the place is not behind the last of them
    have size : (ordersOf (s.renormalizePlanSteps planId now)).length = (ordersOf s).length := by
      rw [reads, reads, List.length_map, List.length_map,
        ← List.length_map (f := PlanStepRow.content), filter_content, contents, ← filter_content,
        List.length_map]
    have inside : index < (ordersOf (s.renormalizePlanSteps planId now)).length := by
      rw [size]
      exact (List.getElem?_eq_some_iff.mp there).1
    have append : (ordersOf (s.renormalizePlanSteps planId now)).length ≤ index →
        (ordersOf (s.renormalizePlanSteps planId now)).getLast?.getD 0 + planStepOrderGap ≤
          stepOrderMax := fun behind => by omega
    have ladder'' := spaced'.ladder (by decide)
    have bounded'' : ∀ o ∈ ordersOf (s.renormalizePlanSteps planId now), o ≤ stepOrderMax :=
      fun o listed => high o (fewer'.subset listed)
    have found : ∃ k, planOrderForInsert (ordersOf (s.renormalizePlanSteps planId now)) index =
        some k := by
      rw [planOrderForInsert_eq_slot ladder'' bounded'' append]
      have split := List.take_append_drop index (ordersOf (s.renormalizePlanSteps planId now))
      have here := List.length_take_of_le (Nat.le_of_lt inside)
      rw [← split] at spaced'
      obtain ⟨k, there'⟩ := @slot_of_spaced _ _ _ planStepOrderGap spaced' (by decide)
      rw [split, here] at there'
      exact ⟨k, there'⟩
    obtain ⟨k, again⟩ := found
    refine ⟨k, s.renormalizePlanSteps planId now, ?_, plans, contents, others, ?_, ?_⟩
    · rw [placed, given]
      simp only [again]
      rfl
    · intro other
      by_cases same : other = planId
      · rw [same]
        exact ⟨spaced.ladder (by decide), high⟩
      · rw [planStepOrders, others other same]
        exact ordered other
    · intro front back split here
      rw [reads] at again ladder'' bounded'' append
      exact key_splits ladder'' bounded'' append again split here

/-! ## The writes -/

/-- The display list of a plan without its keys. -/
def lists (s : PlanStore) (planId : Id) : List StepContent :=
  (s.listPlanSteps planId).map PlanStepRow.content

/-- A store with one row at another place, and the rest in the order it had. -/
theorem ordered_of_placed {u : PlanStore} (ordered : t.Ordered)
    (listing : u.listPlanSteps planId = front ++ row :: back)
    (others : ∀ other, other ≠ planId → u.listPlanSteps other = t.listPlanSteps other)
    (ladder : Ladder (front.map PlanStepRow.stepOrder ++ row.stepOrder ::
      back.map PlanStepRow.stepOrder)) (high : row.stepOrder ≤ stepOrderMax)
    (bounded : ∀ o ∈ (front ++ back).map PlanStepRow.stepOrder, o ≤ stepOrderMax) : u.Ordered := by
  intro other
  by_cases same : other = planId
  · subst same
    rw [planStepOrders, listing, List.map_append, List.map_cons]
    refine ⟨ladder, fun o there => ?_⟩
    rw [List.map_append] at bounded
    rcases List.mem_append.mp there with left | right
    · exact bounded o (List.mem_append_left _ left)
    · rcases List.mem_cons.mp right with rfl | later
      · exact high
      · exact bounded o (List.mem_append_right _ later)
  · rw [planStepOrders, others other same]
    exact ordered other

theorem insert_spec {steps : Table PlanStepRow.id} (ordered : t.Ordered)
    (inserted : t.steps.insert row = some steps) (split : t.listPlanSteps row.planId = front ++ back)
    (ladder : Ladder (front.map PlanStepRow.stepOrder ++ row.stepOrder ::
      back.map PlanStepRow.stepOrder)) (high : row.stepOrder ≤ stepOrderMax) :
    let u : PlanStore := { t with steps := steps }
    u.Ordered ∧ u.listPlanSteps row.planId = front ++ row :: back ∧
      ∀ other, other ≠ row.planId → u.listPlanSteps other = t.listPlanSteps other := by
  intro u
  obtain ⟨-, rows⟩ := Table.insert_cases inserted
  have listing : u.listPlanSteps row.planId = front ++ row :: back := by
    apply list_eq
    · show (front ++ row :: back).Perm (steps.rows.filter fun r => r.planId == row.planId)
      have perm := list_perm t row.planId
      rw [split] at perm
      rw [rows, List.filter_append, List.filter_singleton, beq_self_eq_true]
      exact (List.perm_middle.trans (perm.cons row)).trans (List.perm_append_singleton _ _).symm
    · rw [List.map_append, List.map_cons]
      exact ladder
  have others : ∀ other, other ≠ row.planId → u.listPlanSteps other = t.listPlanSteps other := by
    intro other apart
    have elsewhere : (row.planId == other) = false := beq_false_of_ne (Ne.symm apart)
    show (steps.rows.filter _).insertionSort _ = (t.steps.rows.filter _).insertionSort _
    rw [rows, List.filter_append, List.filter_singleton, elsewhere]
    simp
  have bounded := (ordered row.planId).2
  rw [planStepOrders, split] at bounded
  exact ⟨ordered_of_placed ordered listing others ladder high bounded, listing, others⟩

theorem setOrder_spec (ordered : t.Ordered) (listed : row ∈ t.steps.rows) (named : row.id = stepId)
    (split : ((t.listPlanSteps row.planId).filter fun r => r.id ≠ stepId) = front ++ back)
    (ladder : Ladder (front.map PlanStepRow.stepOrder ++ k :: back.map PlanStepRow.stepOrder))
    (high : k ≤ stepOrderMax) : let u := t.setOrder stepId k now
    u.Ordered ∧ u.listPlanSteps row.planId = front ++ { row with stepOrder := k, updatedAt := now } :: back ∧
      ∀ other, other ≠ row.planId → u.listPlanSteps other = t.listPlanSteps other := by
  intro u
  let edit := fun r : PlanStepRow =>
    if r.id = stepId then { r with stepOrder := k, updatedAt := now } else r
  have keeps : ∀ other, (u.steps.rows.filter fun r => r.planId == other) =
      (t.steps.rows.filter fun r => r.planId == other).map edit := by
    intro other
    show ((t.steps.rows.map edit).filter _) = _
    rw [List.filter_map]
    congr 1
    apply List.filter_congr
    intro r _
    have same : (edit r).planId = r.planId := keep_ite PlanStepRow.planId rfl
    rw [Function.comp_apply, same]
  have untouched : ∀ rows : List PlanStepRow, (∀ r ∈ rows, r.id ≠ stepId) → rows.map edit = rows := by
    intro rows differ
    refine (List.map_congr_left fun r there => ?_).trans (List.map_id _)
    exact if_neg (differ r there)
  have edited : edit row = { row with stepOrder := k, updatedAt := now } := if_pos named
  obtain ⟨before, after, whole⟩ :=
    List.append_of_mem (mem_list.mpr ⟨listed, rfl⟩ : row ∈ t.listPlanSteps row.planId)
  have apart : ∀ r ∈ before ++ after, r.id ≠ stepId := by
    have distinct := list_distinct t row.planId
    rw [whole, (List.perm_middle.map PlanStepRow.id).nodup_iff, List.map_cons, List.nodup_cons] at distinct
    intro r there same
    exact distinct.1 (List.mem_map.mpr ⟨r, there, same.trans named.symm⟩)
  have rest : before ++ after = front ++ back := by
    rw [← split, whole, List.filter_append, List.filter_cons_of_neg (by simp [named]),
      ← List.filter_append, List.filter_eq_self.mpr]
    intro r there
    simpa using apart r there
  have listing : u.listPlanSteps row.planId =
      front ++ { row with stepOrder := k, updatedAt := now } :: back := by
    apply list_eq
    · rw [keeps]
      have perm := (list_perm t row.planId).map edit
      rw [whole] at perm
      refine List.Perm.trans ?_ perm
      rw [List.map_append, List.map_cons, edited]
      refine List.perm_middle.trans (List.Perm.trans ?_ List.perm_middle.symm)
      rw [← List.map_append, untouched _ apart, rest]
    · rw [List.map_append, List.map_cons]
      exact ladder
  have others : ∀ other, other ≠ row.planId → u.listPlanSteps other = t.listPlanSteps other := by
    intro other differ
    rw [listPlanSteps, keeps, untouched, listPlanSteps]
    intro r there same
    obtain ⟨inTable, itsPlan⟩ := List.mem_filter.mp there
    have equal := t.steps.unique inTable listed (same.trans named.symm)
    exact differ ((eq_of_beq itsPlan).symm.trans (equal ▸ rfl))
  have bounded : ∀ o ∈ (front ++ back).map PlanStepRow.stepOrder, o ≤ stepOrderMax := by
    intro o inside
    rw [← split] at inside
    exact (ordered row.planId).2 o ((List.filter_sublist.map _).subset inside)
  exact ⟨ordered_of_placed ordered listing others ladder high bounded, listing, others⟩

@[simp] theorem mem_lists {c : StepContent} :
    c ∈ s.lists planId ↔ ∃ row ∈ s.steps.rows, row.planId = planId ∧ row.content = c := by
  simp [lists, and_assoc]

@[simp] theorem touch_ids (s : PlanStore) (planId : Id) (now : Text) :
    (s.touch planId now).plans.rows.map PlanRow.id = s.plans.rows.map PlanRow.id := by
  show (s.plans.rows.map _).map PlanRow.id = _
  rw [List.map_map]
  exact List.map_congr_left fun row _ => keep_ite PlanRow.id rfl

/-- What `add_plan_step` asks of a step before it looks for a place. -/
structure Accepts (s : PlanStore) (planId stepId text assigneeKind : Text) : Prop where
  kind : assigneeKind ∈ planAssigneeKinds
  text : (trim text).isEmpty = false
  plan : planId ∈ s.plans.rows.map PlanRow.id
  fresh : ∀ row ∈ s.steps.rows, row.id ≠ stepId

instance (s : PlanStore) (planId stepId text assigneeKind : Text) :
    Decidable (s.Accepts planId stepId text assigneeKind) :=
  decidable_of_iff (assigneeKind ∈ planAssigneeKinds ∧ (trim text).isEmpty = false ∧
      planId ∈ s.plans.rows.map PlanRow.id ∧ ∀ row ∈ s.steps.rows, row.id ≠ stepId)
    ⟨fun ⟨kind, text, plan, fresh⟩ => ⟨kind, text, plan, fresh⟩,
      fun ⟨kind, text, plan, fresh⟩ => ⟨kind, text, plan, fresh⟩⟩

/-- The display index an addition goes to. -/
def addIndex (s : PlanStore) (planId : Id) (position : Option Nat) : Nat :=
  min (position.getD (s.lists planId).length) (s.lists planId).length

theorem addIndex_eq (s : PlanStore) (planId : Id) (position : Option Nat) :
    min (position.getD (s.planStepOrders planId).length) (s.planStepOrders planId).length =
      s.addIndex planId position := by
  simp [addIndex, planStepOrders, lists]

theorem addPlanStep_spec {stepId : Text} (ordered : s.Ordered) (accepts : s.Accepts planId stepId text kind)
    (room : HasRoom s planId (s.planStepOrders planId) (s.addIndex planId position)) :
    ∃ row t, s.addPlanStep mask now planId stepId text kind assignee position = .ok (row, t) ∧
      t.Ordered ∧ t.plans.rows.map PlanRow.id = s.plans.rows.map PlanRow.id ∧
      t.lists planId = (s.lists planId).insertIdx (s.addIndex planId position)
        ⟨stepId, mask (trim text), kind, assignee, "todo".toList, now⟩ ∧
      ∀ other, other ≠ planId → t.lists other = s.lists other := by
  obtain ⟨k, t, placed, plans, contents, others, ordered', key⟩ :=
    @placed_spec s now planId _ (fun t => t.planStepOrders planId) ordered (fun _ => true)
      (fun t => by simp [planStepOrders]) room
  have same : ∀ other, t.lists other = s.lists other := by
    intro other
    by_cases here : other = planId
    · rw [here]
      exact contents
    · rw [lists, others other here, lists]
  have size : (s.addIndex planId position) ≤ (t.listPlanSteps planId).length := by
    rw [← List.length_map (f := PlanStepRow.content)]
    exact Nat.le_trans (Nat.min_le_right _ _) (Nat.le_of_eq (congrArg List.length (same planId).symm))
  have fresh : ∀ row ∈ t.steps.rows, row.id ≠ stepId := by
    intro row listed
    have there : row.content ∈ s.lists row.planId := same row.planId ▸ mem_lists.mpr ⟨row, listed, rfl, rfl⟩
    obtain ⟨row', listed', -, equal⟩ := mem_lists.mp there
    have ids : row'.id = row.id := congrArg StepContent.id equal
    exact ids ▸ accepts.fresh row' listed'
  let front := (t.listPlanSteps planId).take (s.addIndex planId position)
  let back := (t.listPlanSteps planId).drop (s.addIndex planId position)
  have split : t.listPlanSteps planId = front ++ back := (List.take_append_drop _ _).symm
  have here : front.length = s.addIndex planId position := List.length_take_of_le size
  obtain ⟨ladder, high⟩ := key front back (by simpa using split) here
  let row : PlanStepRow :=
    ⟨stepId, planId, mask (trim text), kind, assignee, "todo".toList, k, now, now⟩
  obtain ⟨steps, inserted⟩ := @Table.insert_fresh _ _ _ _ t.steps row fresh
  obtain ⟨ordered'', listing, others'⟩ :=
    @insert_spec row _ _ t steps ordered' inserted split ladder high
  refine ⟨row, ({ t with steps := steps } : PlanStore).touch planId now, ?_, ordered'', ?_, ?_, ?_⟩
  · have known : ¬planId ∉ s.plans.rows.map PlanRow.id := not_not.mpr accepts.plan
    have kinds : ¬kind ∉ planAssigneeKinds := not_not.mpr accepts.kind
    have filled : ¬(trim text).isEmpty = true := by
      rw [accepts.text]
      exact Bool.false_ne_true
    simp only [addPlanStep, refuseIf, if_neg known, if_neg kinds, if_neg filled, addIndex_eq]
    show (s.placed planId now (fun t => t.planStepOrders planId)
      (s.addIndex planId position)).bind _ = _
    rw [placed]
    show (do
      let steps ← okOr (t.steps.insert row) stepExists
      return (row, ({ t with steps := steps } : PlanStore).touch planId now)) = _
    rw [inserted]
    rfl
  · rw [touch_ids]
    exact congrArg (fun plans : Table PlanRow.id => plans.rows.map PlanRow.id) plans
  · show (PlanStore.listPlanSteps { t with steps := steps } planId).map PlanStepRow.content = _
    rw [show PlanStore.listPlanSteps { t with steps := steps } planId = _ from listing,
      ← same planId, lists, split, List.map_append, List.map_append, List.map_cons, ← here,
      ← List.length_map (f := PlanStepRow.content), insertIdx_split]
    rfl
  · intro other apart
    show (PlanStore.listPlanSteps { t with steps := steps } other).map PlanStepRow.content = _
    rw [show PlanStore.listPlanSteps { t with steps := steps } other = _ from others' other apart]
    exact same other

theorem placed_ids (placed : s.placed planId now ordersOf index = .ok (k, t)) :
    t.steps.rows.map PlanStepRow.id = s.steps.rows.map PlanStepRow.id := by
  unfold PlanStore.placed at placed
  split at placed
  · cases placed
    rfl
  rw [bind_ok] at placed
  obtain ⟨order, -, same⟩ := placed
  cases same
  have ids : ((s.listPlanSteps planId).zipIdx.map fun target => target.1.id).Nodup := by
    rw [show (fun target : PlanStepRow × Nat => target.1.id) = PlanStepRow.id ∘ Prod.fst from rfl,
      ← List.map_map, List.zipIdx_map_fst]
    exact list_distinct s planId
  obtain ⟨-, rows⟩ := foldl_setOrder now (s.listPlanSteps planId).zipIdx s ids
  show (PlanStore.renormalizePlanSteps s planId now).steps.rows.map PlanStepRow.id = _
  rw [show (PlanStore.renormalizePlanSteps s planId now).steps.rows = _ from rows, List.map_map]
  exact List.map_congr_left fun row _ => congrArg StepContent.id (numbered_content now _ row).1

theorem addPlanStep_refused
    {stepId : Text} (refused : ¬s.Accepts planId stepId text kind) :
    ∃ e, s.addPlanStep mask now planId stepId text kind assignee position = .error e := by
  cases ran : s.addPlanStep mask now planId stepId text kind assignee position with
  | error e => exact ⟨e, rfl⟩
  | ok result =>
    exfalso
    simp only [addPlanStep, bind_ok, refuseIf_ok, okOr_ok] at ran
    obtain ⟨_, kinds, _, filled, _, known, ⟨k, t⟩, placed, steps, inserted, -⟩ := ran
    refine refused ⟨not_not.mp kinds, by simpa using filled, not_not.mp known, ?_⟩
    intro row listed same
    have taken : stepId ∈ t.steps.rows.map PlanStepRow.id := by
      rw [placed_ids placed]
      exact List.mem_map.mpr ⟨row, listed, same⟩
    obtain ⟨other, there, named⟩ := List.mem_map.mp taken
    exact (Table.insert_cases inserted).1 other there named

def moved (stepId : Id) (newIndex : Nat) (steps : List StepContent) : List StepContent :=
  match steps.find? fun c => c.id == stepId with
  | none => steps
  | some c => (steps.filter fun c => c.id ≠ stepId).insertIdx (min newIndex (steps.length - 1)) c

theorem findIdx?_content (rows : List PlanStepRow) (stepId : Id) : rows.findIdx? (fun row => row.id == stepId) =
      (rows.map PlanStepRow.content).findIdx? fun c => c.id == stepId := by
  rw [List.findIdx?_map]
  rfl

theorem split_at {rows : List StepContent} {cur : Nat}
    (distinct : (rows.map StepContent.id).Nodup) (found : rows.findIdx? (fun c => c.id == stepId) = some cur) :
    ∃ front c back, rows = front ++ c :: back ∧ front.length = cur ∧ c.id = stepId ∧
      rows.find? (fun c => c.id == stepId) = some c ∧ rows.filter (fun c => c.id ≠ stepId) = front ++ back := by
  obtain ⟨inside, here, before⟩ := List.findIdx?_eq_some_iff_getElem.mp found
  have split : rows = rows.take cur ++ rows[cur] :: rows.drop (cur + 1) := by
    rw [← List.drop_eq_getElem_cons inside, List.take_append_drop]
  have named : rows[cur].id = stepId := eq_of_beq here
  have apart : ∀ c ∈ rows.take cur ++ rows.drop (cur + 1), c.id ≠ stepId := by
    rw [split, (List.perm_middle.map StepContent.id).nodup_iff, List.map_cons, List.nodup_cons] at distinct
    intro c there same
    exact distinct.1 (List.mem_map.mpr ⟨c, there, same.trans named.symm⟩)
  refine ⟨rows.take cur, rows[cur], rows.drop (cur + 1), split,
    List.length_take_of_le (Nat.le_of_lt inside), named, ?_, ?_⟩
  · conv_lhs => rw [split]
    rw [List.find?_append, List.find?_eq_none.mpr, Option.none_or, List.find?_cons_of_pos (by simp [named])]
    intro c there same
    exact apart c (List.mem_append_left _ there) (eq_of_beq same)
  · conv_lhs => rw [split]
    rw [List.filter_append, List.filter_cons_of_neg (by simp [named]), ← List.filter_append,
      List.filter_eq_self.mpr]
    intro c there
    simpa using apart c there

theorem lists_distinct (s : PlanStore) (planId : Id) : ((s.lists planId).map StepContent.id).Nodup := by
  rw [lists, List.map_map]
  exact list_distinct s planId

def moveIndex (s : PlanStore) (planId : Id) (newIndex : Nat) : Nat :=
  min newIndex ((s.listPlanSteps planId).length - 1)

theorem movePlanStep_spec {newIndex : Nat} (ordered : s.Ordered)
    (room : ∀ cur, ((s.listPlanSteps planId).findIdx? fun row => row.id == stepId) = some cur →
      s.moveIndex planId newIndex ≠ cur →
      HasRoom s planId (s.ordersWithout planId stepId) (s.moveIndex planId newIndex)) :
    ∃ b t, s.movePlanStep now planId stepId newIndex = .ok (b, t) ∧ t.Ordered ∧
      t.plans.rows.map PlanRow.id = s.plans.rows.map PlanRow.id ∧
      t.lists planId = moved stepId newIndex (s.lists planId) ∧
      ∀ other, other ≠ planId → t.lists other = s.lists other := by
  have size : (s.lists planId).length = (s.listPlanSteps planId).length := List.length_map ..
  cases found : (s.listPlanSteps planId).findIdx? fun row => row.id == stepId with
  | none =>
    refine ⟨false, s, ?_, ordered, rfl, ?_, fun _ _ => rfl⟩
    · simp only [movePlanStep, found]
    · have missing : ((s.lists planId).find? fun c => c.id == stepId) = none := by
        rw [findIdx?_content, List.findIdx?_eq_none_iff] at found
        rw [List.find?_eq_none]
        intro c there same
        rw [found c there] at same
        cases same
      rw [moved, missing]
  | some cur =>
    have whole := found
    rw [findIdx?_content] at whole
    obtain ⟨front, c, back, split, here, named, there, rest⟩ :=
      split_at (lists_distinct s planId) whole
    have target : s.moveIndex planId newIndex = min newIndex ((s.lists planId).length - 1) := by
      rw [size]
      rfl
    by_cases still : s.moveIndex planId newIndex = cur
    · refine ⟨true, s, ?_, ordered, rfl, ?_, fun _ _ => rfl⟩
      · simp only [movePlanStep, found]
        exact if_pos still
      · rw [moved, there]
        dsimp only
        rw [rest, ← target, still, ← here, insertIdx_split]
        exact split
    · obtain ⟨k, t, placed, plans, contents, others, ordered', key⟩ :=
        @placed_spec s now planId _ (ordersWithout planId stepId) ordered
          (fun id => decide (id ≠ stepId)) (fun _ => rfl) (room cur found still)
      have same : t.lists planId = s.lists planId := contents
      obtain ⟨row, listed, itsPlan, content⟩ := mem_lists.mp
        (show c ∈ t.lists planId by rw [same, split]; simp)
      have itsId : row.id = stepId := (congrArg StepContent.id content).trans named
      subst itsPlan
      let without := (t.listPlanSteps row.planId).filter fun r => r.id ≠ stepId
      have left : without.map PlanStepRow.content = front ++ back := by
        rw [show without.map PlanStepRow.content = _ from
          filter_content (t.listPlanSteps row.planId) fun id => decide (id ≠ stepId)]
        exact (congrArg (List.filter fun c => decide (c.id ≠ stepId)) same).trans rest
      have fits : s.moveIndex row.planId newIndex ≤ without.length := by
        have count : (front ++ back).length + 1 = (s.lists row.planId).length := by
          rw [split]
          simp
          omega
        rw [← List.length_map (f := PlanStepRow.content), left, target]
        omega
      obtain ⟨before, after, halves, place⟩ : ∃ before after, without = before ++ after ∧
          before.length = s.moveIndex row.planId newIndex :=
        ⟨_, _, (List.take_append_drop _ _).symm, List.length_take_of_le fits⟩
      obtain ⟨ladder, high⟩ := key _ _ halves place
      obtain ⟨ordered'', listing, others'⟩ :=
        @setOrder_spec _ _ _ now _ _ _ ordered' listed itsId halves ladder high
      refine ⟨true, (t.setOrder stepId k now).touch row.planId now, ?_, ordered'', ?_, ?_, ?_⟩
      · simp only [movePlanStep, found]
        refine (if_neg still).trans ?_
        show (s.placed row.planId now (ordersWithout row.planId stepId)
          (s.moveIndex row.planId newIndex)).bind _ = _
        rw [placed]
        rfl
      · rw [touch_ids]
        exact congrArg (fun plans : Table PlanRow.id => plans.rows.map PlanRow.id) plans
      · rw [moved, there]
        dsimp only
        rw [rest, ← target, ← left, halves, List.map_append, ← place,
          ← List.length_map (f := PlanStepRow.content), insertIdx_split]
        show (PlanStore.listPlanSteps (t.setOrder stepId k now) row.planId).map _ = _
        rw [listing, List.map_append, List.map_cons, ← content]
        rfl
      · intro other apart
        show (PlanStore.listPlanSteps (t.setOrder stepId k now) other).map _ = _
        rw [others' other apart, others other apart]
        rfl

theorem removePlanStep_spec (now : Text) (stepId : Id) (ordered : s.Ordered) :
    (s.removePlanStep now stepId).2.Ordered ∧
      (s.removePlanStep now stepId).2.plans.rows.map PlanRow.id = s.plans.rows.map PlanRow.id ∧
      ∀ other, (s.removePlanStep now stepId).2.lists other = (s.lists other).filter fun c => c.id ≠ stepId := by
  have kept : ∀ other, ((s.steps.deleteWhere fun row => row.id == stepId).rows.filter
      fun row => row.planId == other) =
      (s.steps.rows.filter fun row => row.planId == other).filter fun row => row.id ≠ stepId := by
    intro other
    show (s.steps.rows.filter _).filter _ = _
    rw [List.filter_filter, List.filter_filter]
    apply List.filter_congr
    intro row _
    rw [Bool.and_comm]
    congr 1
    by_cases same : row.id = stepId
    · simp [same]
    · simp [same]
  unfold removePlanStep
  cases found : s.getPlanStep stepId with
  | none =>
    refine ⟨ordered, rfl, fun other => (List.filter_eq_self.mpr ?_).symm⟩
    intro c there
    obtain ⟨row, listed, -, rfl⟩ := mem_lists.mp there
    have differ := List.find?_eq_none.mp found row listed
    exact decide_eq_true fun same => differ (beq_iff_eq.mpr same)
  | some row =>
    have listing : ∀ other, PlanStore.listPlanSteps
        { s with steps := s.steps.deleteWhere fun row => row.id == stepId } other =
        (s.listPlanSteps other).filter fun row => row.id ≠ stepId := by
      intro other
      apply list_eq
      · show List.Perm _ ((s.steps.deleteWhere fun row => row.id == stepId).rows.filter _)
        rw [kept]
        exact (list_perm s other).filter _
      · exact (ordered other).1.sublist (List.filter_sublist.map _)
    refine ⟨fun other => ?_, touch_ids _ _ _, fun other => ?_⟩
    · show Ladder ((PlanStore.listPlanSteps
        { s with steps := s.steps.deleteWhere fun row => row.id == stepId } other).map
          PlanStepRow.stepOrder) ∧ ∀ o ∈ (PlanStore.listPlanSteps
        { s with steps := s.steps.deleteWhere fun row => row.id == stepId } other).map
          PlanStepRow.stepOrder, o ≤ stepOrderMax
      rw [listing]
      exact ⟨(ordered other).1.sublist (List.filter_sublist.map _), fun o there =>
        (ordered other).2 o ((List.filter_sublist.map _).subset there)⟩
    · show (PlanStore.listPlanSteps
        { s with steps := s.steps.deleteWhere fun row => row.id == stepId } other).map
          PlanStepRow.content = _
      rw [listing]
      exact filter_content _ fun id => decide (id ≠ stepId)

end PlanStore

end DuDuClaw.TaskStore
