/-
# TaskStore.Goals -- the goal tree

Rows of `goals` and their parents (task_store/goals.rs, pure.rs).  A write checks the
parent it is given inside its transaction: the parent is there, and the chain above it
does not come back to the goal.

The walk of `introduces_parent_cycle` has one round more than there are rows.  It never
needs another, so the rounds do not decide.

* `introducesParentCycle_iff`: the walk refuses exactly the parents below the goal.
* `loopless_write`: a write that repoints one goal, as it was checked, closes no loop.
* `goalAncestry_eq`: the ancestry loop returns the chain of a goal, if that fits.
* `goals_forest`: over every run, no goal is its own ancestor, every goal has a chain, and
  a chain of at most sixteen members is what the loop returns.
-/
import DuDuClaw.Lib.Chase
import DuDuClaw.Lib.Fallible
import DuDuClaw.Lib.Runs
import DuDuClaw.Lib.Search
import DuDuClaw.Lib.Table
import DuDuClaw.Lib.Value
import DuDuClaw.TaskStore.Tasks

namespace DuDuClaw.TaskStore

open DuDuClaw.Lib
open Relation

/-! ## Rows -/

structure GoalRow where
  id : Id
  title : Text
  description : Text
  parentGoalId : Option Id
  status : Text
  createdAt : Text

abbrev GoalTable := Table GoalRow.id

namespace GoalTable

def getGoal (goals : GoalTable) (id : Id) : Option GoalRow :=
  goals.rows.find? fun row => row.id == id

def goalParentEdges (goals : GoalTable) : List (Id × Option Id) :=
  goals.rows.map fun row => (row.id, row.parentGoalId)

end GoalTable

/-! ## The cycle check -/

/-- `parent_of.get(node)`, of a map in which a later entry replaces an earlier one. -/
def parentOf (edges : List (Id × Option Id)) (node : Id) : Option Id :=
  (edges.reverse.lookup node).join

def parentWalk (edges : List (Id × Option Id)) (child : Id) : Nat → List Id → Id → Bool
  | 0, _, _ => true
  | rounds + 1, seen, node =>
    if node = child then true
    else if node ∈ seen then true
    else
      match parentOf edges node with
      | none => false
      | some up => parentWalk edges child rounds (node :: seen) up

def introducesParentCycle (edges : List (Id × Option Id)) (child newParent : Id) : Bool :=
  if child = newParent then true else parentWalk edges child (edges.length + 1) [] newParent

/-! ## Writes -/

def parentNotFound (parent : Id) : Text := "parent goal not found: ".toList ++ parent

def goalCycleRejected (id parent : Id) : Text :=
  "goal cycle rejected: ".toList ++ id ++ " → ".toList ++ parent ++ " would close a loop".toList

def goalExists : Text := "insert goal: UNIQUE constraint failed: goals.id".toList

def noGoalFields : Text := "no goal fields to update".toList

namespace GoalTable

/-- The check both writes make of a parent that is given. -/
def checkParent (goals : GoalTable) (id : Id) : Option Id → Except Text Unit
  | none => .ok ()
  | some parent => do
    refuseIf ((goals.getGoal parent).isNone = true) (parentNotFound parent)
    refuseIf (introducesParentCycle goals.goalParentEdges id parent = true)
      (goalCycleRejected id parent)

/-- `mask` is `mask_derived_text`. -/
def insertGoal (mask : Text → Text) (goals : GoalTable) (row : GoalRow) :
    Except Text GoalTable := do
  goals.checkParent row.id row.parentGoalId
  okOr (goals.insert { row with title := mask row.title, description := mask row.description })
    goalExists

/-- `fields.get(key).and_then(|v| v.as_str())`. -/
def goalField (fields : Value) (key : String) : Option Text :=
  (fields.get key.toList).bind Value.asStr

/-- The `SET` clauses of an UPDATE, one for each field that is a string. -/
def setGoal (mask : Text → Text) (fields : Value) (row : GoalRow) : GoalRow :=
  { row with
    title := ((goalField fields "title").map mask).getD row.title
    description := ((goalField fields "description").map mask).getD row.description
    status := (goalField fields "status").getD row.status
    parentGoalId := (goalField fields "parent_goal_id").or row.parentGoalId }

def updateGoal (mask : Text → Text) (goals : GoalTable) (id : Id) (fields : Value) :
    Except Text (Option GoalRow × GoalTable) := do
  goals.checkParent id (goalField fields "parent_goal_id")
  refuseIf ((["title", "description", "status", "parent_goal_id"].all fun key =>
    (goalField fields key).isNone) = true) noGoalFields
  let updated := goals.update (fun row => if row.id = id then setGoal mask fields row else row)
    fun _ => keep_ite GoalRow.id rfl
  return (getGoal updated id, updated)

/-! ## The ancestry -/

/-- `GOAL_ANCESTRY_MAX_DEPTH`. -/
def maxDepth : Nat := 16

/-- The loop, with the room left in the chain; the goal first. -/
def ancestryLoop (goals : GoalTable) : Nat → List Id → Option Id → List GoalRow
  | _, _, none => []
  | 0, _, some _ => []
  | room + 1, seen, some id =>
    if id ∈ seen then []
    else
      match goals.getGoal id with
      | none => []
      | some goal => goal :: goals.ancestryLoop room (id :: seen) goal.parentGoalId

def goalAncestry (goals : GoalTable) (id : Id) : List GoalRow :=
  (goals.ancestryLoop maxDepth [] (some id)).reverse

end GoalTable

/-! ## Parents -/

namespace GoalTable

variable {goals : GoalTable}

def parent (goals : GoalTable) (id : Id) : Option Id :=
  (goals.getGoal id).bind GoalRow.parentGoalId

theorem getGoal_of_mem {row : GoalRow} (listed : row ∈ goals.rows) :
    goals.getGoal row.id = some row := goals.find?_key listed

theorem getGoal_some {id : Id} {row : GoalRow} (found : goals.getGoal id = some row) :
    row ∈ goals.rows ∧ row.id = id := by
  refine ⟨List.mem_of_find?_eq_some found, ?_⟩
  simpa using List.find?_some found

theorem parent_inside (a b : Id) (edge : goals.parent a = some b) : a ∈ goals.rows.map GoalRow.id := by
  obtain ⟨row, found, -⟩ := Option.bind_eq_some_iff.mp edge
  obtain ⟨listed, rfl⟩ := getGoal_some found
  exact List.mem_map_of_mem listed

/-- The map of the walk reads the rows. -/
theorem parentOf_goalParentEdges (goals : GoalTable) (id : Id) :
    parentOf goals.goalParentEdges id = goals.parent id := by
  unfold parentOf parent goalParentEdges
  cases found : (goals.rows.map fun row => (row.id, row.parentGoalId)).reverse.lookup id with
  | some parent =>
    have listed := mem_of_lookup found
    rw [List.mem_reverse, List.mem_map] at listed
    obtain ⟨row, listed, same⟩ := listed
    cases same
    rw [getGoal_of_mem listed]
    rfl
  | none =>
    rw [List.lookup_eq_none_iff] at found
    have unknown : goals.getGoal id = none := by
      rw [getGoal, List.find?_eq_none]
      intro row listed same
      have differ := found (row.id, row.parentGoalId)
        (List.mem_reverse.mpr (List.mem_map_of_mem listed))
      rw [eq_of_beq same, bne_self_eq_false] at differ
      cases differ
    rw [unknown]
    rfl

end GoalTable

theorem parentWalk_eq_chase (edges : List (Id × Option Id)) (child : Id) (rounds : Nat)
    (seen : List Id) (node : Id) :
    parentWalk edges child rounds seen node = chase (parentOf edges) child rounds seen node := by
  induction rounds generalizing seen node with
  | zero => rfl
  | succ rounds ih =>
    by_cases here : node = child
    · simp only [parentWalk, chase, if_pos here]
    by_cases passed : node ∈ seen
    · simp only [parentWalk, chase, if_neg here, if_pos passed]
    simp only [parentWalk, chase, if_neg here, if_neg passed]
    cases parentOf edges node with
    | none => rfl
    | some up => exact ih (node :: seen) up

namespace GoalTable

variable {goals : GoalTable}

variable {id : Id} {u : Unit} {goals' : GoalTable} {mask : Text → Text} {chain : List GoalRow}

/-- **The cycle check is exact**: it refuses the parents that the goal is an ancestor of. -/
theorem introducesParentCycle_iff (loopless : Loopless goals.parent) (child newParent : Id) :
    introducesParentCycle goals.goalParentEdges child newParent = true ↔
      ReflTransGen (Points goals.parent) newParent child := by
  have same : parentOf goals.goalParentEdges = goals.parent :=
    funext (parentOf_goalParentEdges goals)
  have exact_ : chase goals.parent child (goals.goalParentEdges.length + 1) [] newParent = true ↔
      ReflTransGen (Points goals.parent) newParent child :=
    chase_iff parent_inside loopless (.start newParent) (by simp [goalParentEdges])
  rw [introducesParentCycle, parentWalk_eq_chase, same]
  split
  · rename_i self
    simp only [true_iff]
    exact self ▸ .refl
  · exact exact_

theorem checkParent_ok {parent : Id} (checked : goals.checkParent id (some parent) = .ok u) :
    (∃ row, goals.getGoal parent = some row) ∧
      introducesParentCycle goals.goalParentEdges id parent = false := by
  rw [checkParent, bind_ok] at checked
  obtain ⟨_, known, clear⟩ := checked
  rw [refuseIf_ok] at known clear
  exact ⟨Option.ne_none_iff_exists'.mp (by simpa using known), by simpa using clear⟩

/-- A write that repoints one goal, to the parent it checked or not at all. -/
theorem loopless_write {given : Option Id}
    (loopless : Loopless goals.parent) (checked : goals.checkParent id given = .ok u)
    (others : ∀ a, a ≠ id → goals'.parent a = goals.parent a)
    (this : goals'.parent id = given ∨ goals'.parent id = goals.parent id) : Loopless goals'.parent := by
  rcases this with repointed | kept
  · have same : ∀ a b, a ≠ id → (Points goals'.parent a b ↔ Points goals.parent a b) := by
      intro a b other
      rw [Points, Points, others a other]
    refine (acyclic_rewire same loopless).mpr ?_
    intro parent edge back
    rw [Points, repointed] at edge
    subst edge
    have refused := (introducesParentCycle_iff loopless id parent).mpr back
    rw [(checkParent_ok checked).2] at refused
    cases refused
  · have same : goals'.parent = goals.parent := by
      funext a
      by_cases here : a = id
      · rw [here, kept]
      · exact others a here
    rw [same]
    exact loopless

/-! ## What the writes do to the parents -/

theorem insertGoal_parent {row : GoalRow}
    (inserted : goals.insertGoal mask row = .ok goals') : goals.checkParent row.id row.parentGoalId = .ok () ∧
      (∀ a, a ≠ row.id → goals'.parent a = goals.parent a) ∧ goals'.parent row.id = row.parentGoalId := by
  rw [insertGoal, bind_ok] at inserted
  obtain ⟨_, checked, put⟩ := inserted
  rw [okOr_ok] at put
  obtain ⟨fresh, rows⟩ := Table.insert_cases put
  refine ⟨checked, ?_, ?_⟩
  · intro a other
    have elsewhere : (row.id == a) = false := beq_false_of_ne (Ne.symm other)
    simp only [parent, getGoal, rows, List.find?_append, List.find?_singleton, elsewhere,
      Bool.false_eq_true, if_false, Option.or_none]
  · have unknown : goals.rows.find? (fun other => other.id == row.id) = none := by
      rw [List.find?_eq_none]
      intro other listed same
      exact fresh other listed (eq_of_beq same)
    simp only [parent, getGoal, rows, List.find?_append, unknown, List.find?_singleton,
      beq_self_eq_true, if_true, Option.none_or, Option.bind_some]

theorem getGoal_update {edit : GoalRow → GoalRow} (keeps : ∀ row, (edit row).id = row.id) (a : Id) :
    getGoal (goals.update edit keeps) a = (goals.getGoal a).map edit := by
  simp only [getGoal, Table.update, List.find?_map, Function.comp_def, keeps]

theorem updateGoal_parent {fields : Value}
    {shown : Option GoalRow} (updated : goals.updateGoal mask id fields = .ok (shown, goals')) :
    goals.checkParent id (goalField fields "parent_goal_id") = .ok () ∧
      (∀ a, a ≠ id → goals'.parent a = goals.parent a) ∧ (goals'.parent id = goalField fields "parent_goal_id" ∨
        goals'.parent id = goals.parent id) := by
  rw [updateGoal, bind_ok] at updated
  obtain ⟨_, checked, updated⟩ := updated
  rw [bind_ok] at updated
  obtain ⟨_, _, written⟩ := updated
  cases written
  refine ⟨checked, ?_, ?_⟩
  · intro a other
    rw [parent, getGoal_update, parent]
    cases found : goals.getGoal a with
    | none => rfl
    | some row =>
      have elsewhere : row.id ≠ id := (getGoal_some found).2.symm ▸ other
      rw [Option.map_some, if_neg elsewhere]
  · rw [parent, getGoal_update, parent]
    cases found : goals.getGoal id with
    | none => exact .inr rfl
    | some row =>
      rw [Option.map_some, if_pos (getGoal_some found).2]
      cases given : goalField fields "parent_goal_id" with
      | none => exact .inr (by simp [setGoal, given])
      | some parent => exact .inl (by simp [setGoal, given])

/-! ## The ancestry -/

/-- A goal and the goals above it, up to one whose parent, if it names one, is not there. -/
inductive Chain (goals : GoalTable) : Id → List GoalRow → Prop where
  | root {id : Id} {goal : GoalRow} (found : goals.getGoal id = some goal)
      (top : ∀ parent ∈ goal.parentGoalId, goals.getGoal parent = none) : Chain goals id [goal]
  | up {id parent : Id} {goal : GoalRow} {above : List GoalRow}
      (found : goals.getGoal id = some goal) (edge : goal.parentGoalId = some parent)
      (chain : Chain goals parent above) : Chain goals id (goal :: above)

theorem exists_chain (loopless : Loopless goals.parent) {goal : GoalRow}
    (found : goals.getGoal id = some goal) : ∃ chain, Chain goals id chain := by
  have every : ∀ a, ∀ goal, goals.getGoal a = some goal → ∃ chain, Chain goals a chain := by
    refine acyclic_induction parent_inside loopless fun a above goal found => ?_
    cases edge : goal.parentGoalId with
    | none => exact ⟨[goal], .root found fun parent named => by rw [edge] at named; cases named⟩
    | some parent =>
      cases there : goals.getGoal parent with
      | none =>
        refine ⟨[goal], .root found fun other named => ?_⟩
        rw [edge] at named
        cases named
        exact there
      | some row =>
        have points : goals.parent a = some parent := by rw [GoalTable.parent, found]; exact edge
        obtain ⟨chain, rest⟩ := above parent points row there
        exact ⟨goal :: chain, .up found edge rest⟩
  exact every id goal found

theorem ancestryLoop_none (room : Nat) (seen : List Id) : goals.ancestryLoop room seen none = [] := by
  cases room <;> rfl

/-- The loop returns the chain that fits in the room it has. -/
theorem ancestryLoop_eq (loopless : Loopless goals.parent)
    (above : Chain goals id chain) {room : Nat} {seen : List Id}
    (passed : Passed goals.parent seen id) (fits : chain.length ≤ room) :
    goals.ancestryLoop room seen (some id) = chain := by
  induction above generalizing room seen with
  | @root id goal found top =>
    obtain ⟨room, rfl⟩ : ∃ n, room = n + 1 := ⟨room - 1, by rw [List.length_singleton] at fits; omega⟩
    rw [ancestryLoop, if_neg (passed.new loopless), found]
    show goal :: _ = [goal]
    congr 1
    cases edge : goal.parentGoalId with
    | none => exact ancestryLoop_none room _
    | some parent =>
      cases room with
      | zero => rfl
      | succ room =>
        rw [ancestryLoop, top parent edge]
        split <;> rfl
  | @up id parent goal chain found edge _ ih =>
    obtain ⟨room, rfl⟩ : ∃ n, room = n + 1 := ⟨room - 1, by rw [List.length_cons] at fits; omega⟩
    rw [ancestryLoop, if_neg (passed.new loopless), found]
    show goal :: _ = goal :: chain
    have points : goals.parent id = some parent := by rw [GoalTable.parent, found]; exact edge
    rw [edge, ih (passed.push loopless points)]
    rw [List.length_cons] at fits
    omega

/-- The ancestry of a goal whose chain has at most sixteen members. -/
theorem goalAncestry_eq (loopless : Loopless goals.parent)
    (above : Chain goals id chain) (fits : chain.length ≤ maxDepth) :
    goals.goalAncestry id = chain.reverse := by
  rw [goalAncestry, ancestryLoop_eq loopless above (.start id) fits]

end GoalTable

/-! ## Runs -/

inductive GoalOp where
  | insert (row : GoalRow)
  | update (id : Id) (fields : Value)

/-- The table after an operation; a refused one rolls its transaction back. -/
def GoalTable.step (mask : Text → Text) (goals : GoalTable) : GoalOp → GoalTable
  | .insert row => (goals.insertGoal mask row).toOption.getD goals
  | .update id fields => ((goals.updateGoal mask id fields).toOption.map Prod.snd).getD goals

theorem GoalTable.step_loopless {mask : Text → Text} {goals : GoalTable} (op : GoalOp)
    (loopless : Loopless goals.parent) : Loopless (goals.step mask op).parent := by
  cases op with
  | insert row =>
    rw [step]
    cases ran : goals.insertGoal mask row with
    | error message => exact loopless
    | ok goals' =>
      obtain ⟨checked, others, this⟩ := insertGoal_parent ran
      exact loopless_write loopless checked others (.inl this)
  | update id fields =>
    rw [step]
    cases ran : goals.updateGoal mask id fields with
    | error message => exact loopless
    | ok result =>
      obtain ⟨checked, others, this⟩ := updateGoal_parent ran
      exact loopless_write loopless checked others this

/-- **The goal tree stays a forest**: after any sequence of inserts and updates, refused or
not, no goal is its own ancestor, every goal has a chain of existing parents, and where
that has at most sixteen members the ancestry is the chain, root first. -/
theorem goals_forest (mask : Text → Text) (ops : List GoalOp) :
    let goals : GoalTable := run (GoalTable.step mask) .empty ops
    (∀ id, ¬TransGen (fun a b => goals.parent a = some b) id id) ∧
      (∀ id goal, goals.getGoal id = some goal → ∃ chain, goals.Chain id chain) ∧
      ∀ id chain, goals.Chain id chain → chain.length ≤ GoalTable.maxDepth →
        goals.goalAncestry id = chain.reverse := by
  intro goals
  have loopless : Loopless goals.parent := by
    refine run_invariant (fun g : GoalTable => Loopless g.parent)
      (fun g op holds _ => g.step_loopless op holds) ?_ (obeys_true _ ops)
    intro id cycle
    obtain ⟨parent, edge, -⟩ := TransGen.head'_iff.mp cycle
    cases edge
  refine ⟨loopless, fun id goal found => GoalTable.exists_chain loopless found, ?_⟩
  intro id chain above fits
  exact GoalTable.goalAncestry_eq loopless above fits

end DuDuClaw.TaskStore
