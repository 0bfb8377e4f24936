/-
# Causal.Identify -- the backdoor check of a reviewed model

`check_backdoor_adjustment` (causal_identify.rs) over the store: what it refuses, what it leaves
unknown and why, and what it admits.  The store is read at one moment.

* `backdoorReason_spec`: the graph part is the backdoor criterion.
* `checkBackdoorAdjustment_iff`: the whole check of a set of an approved, curated model.
-/
import DuDuClaw.Causal.Curated
import DuDuClaw.Lib.Backdoor
import Mathlib.Data.Char
import Mathlib.Data.List.Sort

namespace DuDuClaw.Causal

open DuDuClaw.Lib DuDuClaw.Lib.Dag Relation

inductive AdjustmentReadiness where
  | unknown (reasons : List Text)
  | graphicallyAdmissible (adjustmentVariableIds : List Text)
  deriving DecidableEq

structure HashOrders where
  names : HashOrder
  adjusted : HashOrder
  neighbors : NeighborOrder

/-! ## The check -/

/-- `variables.get(id)`. -/
def nameOf (members : List (Text × Text)) (id : Text) : Option Text :=
  (members.find? fun member => member.1 = id).map Prod.snd

/-- The names of the adjusted variables, or why they cannot be adjusted for. -/
def adjustedNames (members : List (Text × Text)) (treatmentId outcomeId : Text) :
    List Text → Except Text (List Text)
  | [] => .ok []
  | id :: ids =>
    if id = treatmentId ∨ id = outcomeId then
      .error "adjustment contains treatment or outcome".toList
    else
      match nameOf members id with
      | none => .error "adjustment variable is absent from scoped model".toList
      | some name =>
        match adjustedNames members treatmentId outcomeId ids with
        | .error reason => .error reason
        | .ok names => .ok (name :: names)

/-- What the graph says against a set, if anything. -/
def backdoorReason (order : NeighborOrder) (names : List Text) (edges : List (Text × Text))
    (treatment outcome : Text) (adjusted : List Text) : Option (Option Text) := do
  let treatmentDescendants ← descendants edges treatment
  if adjusted.any treatmentDescendants.contains then
    return some "adjustment includes a treatment descendant".toList
  let backdoorEdges := edges.filter fun edge => edge.1 ≠ treatment
  let separated ← dSeparated order names backdoorEdges treatment outcome adjusted
  if !separated then return some "adjustment does not block every backdoor path".toList
  return none

/-- `check_backdoor_adjustment`; `none` stands for a loop that does not end. -/
def CausalStore.checkBackdoorAdjustment (s : CausalStore) (orders : HashOrders) (evidence : Evidence)
    (scope : EvidenceScope) (modelId : Text) (adjustmentVariableIds : List Text) :
    Option (Except CausalStoreError AdjustmentReadiness) :=
  if !scope.valid || isBlank modelId || 128 < adjustmentVariableIds.length ||
      adjustmentVariableIds.any isBlank || ¬adjustmentVariableIds.Nodup then
    some (.error .invalidInput)
  else
    match s.modelState evidence scope modelId with
    | .error e => some (.error e)
    | .ok state =>
      if state ≠ "approved".toList then
        some (.ok (.unknown ["model_state:".toList ++ state]))
      else
        match s.model scope modelId with
        | none => some (.error .notFound)
        | some model =>
          let members := s.variablesOf scope modelId
          match nameOf members model.treatmentVariableId, nameOf members model.outcomeVariableId with
          | some treatment, some outcome =>
            match adjustedNames members model.treatmentVariableId model.outcomeVariableId
                adjustmentVariableIds with
            | .error reason => some (.ok (.unknown [reason]))
            | .ok inserted =>
              (backdoorReason orders.neighbors (orders.names.iterate (members.map Prod.snd))
                  (s.edgesOf scope modelId) treatment outcome
                  (orders.adjusted.iterate inserted)).map fun
                | some reason => .ok (.unknown [reason])
                | none => .ok (.graphicallyAdmissible
                    (adjustmentVariableIds.insertionSort (· ≤ ·)))
          | _, _ => some (.error .invalidInput)

/-! ## The graph -/

section Graph

variable {edges : List (Text × Text)} {names adjusted : List Text} {treatment outcome : Text}

theorem edge_filter : Edge (edges.filter fun edge => edge.1 ≠ treatment) = Cut (Edge edges) treatment := by
  funext a b
  rw [Edge, List.mem_filter]
  simp [Cut, Edge]

/-- **The graph part is the backdoor criterion.** -/
theorem backdoorReason_spec (order : NeighborOrder) (acyclic : Acyclic (Edge edges))
    (declared : ∀ edge ∈ edges, edge.1 ∈ names ∧ edge.2 ∈ names) (differ : treatment ≠ outcome)
    (outside : treatment ∉ adjusted) (outside' : outcome ∉ adjusted) :
    ∃ reason, backdoorReason order names edges treatment outcome adjusted = some reason ∧
      (reason = none ↔ Backdoor (Edge edges) (· ∈ adjusted) treatment outcome) := by
  obtain ⟨found, marked, all⟩ := descendants_spec edges treatment
  have left : ∀ edge ∈ edges.filter fun edge => edge.1 ≠ treatment, edge.2 ∈ names :=
    fun edge listed => (declared edge (List.mem_filter.mp listed).1).2
  have cut : Acyclic (Edge (edges.filter fun edge => edge.1 ≠ treatment)) := by
    rw [edge_filter]
    exact acyclic.cut treatment
  obtain ⟨separated, searched, exact⟩ := dSeparated_spec order cut left outside outside'
  rw [edge_filter] at exact
  unfold backdoorReason
  rw [marked, Option.bind_eq_bind, Option.bind_some]
  by_cases descends : adjusted.any found.contains = true
  · rw [if_pos descends]
    refine ⟨_, rfl, iff_of_false (Option.some_ne_none _) fun backdoor => ?_⟩
    obtain ⟨z, inside, after⟩ := List.any_eq_true.mp descends
    exact backdoor.apart z inside ((all z).mp (List.contains_iff_mem.mp after))
  rw [if_neg descends]
  have apart : ∀ z, z ∈ adjusted → ¬TransGen (Edge edges) treatment z := by
    intro z inside path
    exact descends (List.any_eq_true.mpr ⟨z, inside, List.contains_iff_mem.mpr ((all z).mpr path)⟩)
  dsimp only [Option.bind_eq_bind]
  rw [searched, Option.bind_some]
  have criterion := exact.trans (backdoor_iff acyclic differ outside apart)
  cases separated with
  | true =>
    refine ⟨none, rfl, iff_of_true rfl ⟨apart, criterion.mp rfl⟩⟩
  | false =>
    refine ⟨_, rfl, iff_of_false (Option.some_ne_none _) fun backdoor => ?_⟩
    exact Bool.false_ne_true (criterion.mpr backdoor.blocks)

end Graph

/-! ## The model -/

section Model

variable {members edges : List (Text × Text)} {treatmentId outcomeId : Text}

theorem nameOf_iff (ids : (members.map Prod.fst).Nodup) {id name : Text} :
    nameOf members id = some name ↔ (id, name) ∈ members := by
  rw [nameOf, Option.map_eq_some_iff]
  constructor
  · rintro ⟨⟨_, _⟩, found, rfl⟩
    have picked := List.find?_some found
    cases of_decide_eq_true picked
    exact List.mem_of_find?_eq_some found
  · intro listed
    have same : (fun member : Text × Text => decide (member.1 = id)) = (·.1 == id) :=
      funext fun member => (beq_eq_decide member.1 id).symm
    refine ⟨(id, name), ?_, rfl⟩
    rw [same]
    exact Table.find?_key ⟨members, ids⟩ listed

theorem exists_name {id : Text} (listed : id ∈ members.map Prod.fst) : ∃ name, (id, name) ∈ members := by
  obtain ⟨⟨_, name⟩, inside, rfl⟩ := List.mem_map.mp listed
  exact ⟨name, inside⟩

theorem adjustedNames_spec (ids : (members.map Prod.fst).Nodup) :
    (adjustment : List Text) → (∀ id ∈ adjustment, id ∈ members.map Prod.fst ∧ id ≠ treatmentId ∧
      id ≠ outcomeId) →
    ∃ names, adjustedNames members treatmentId outcomeId adjustment = .ok names ∧
      ∀ name, name ∈ names ↔ ∃ id ∈ adjustment, (id, name) ∈ members
  | [], _ => ⟨[], rfl, fun name => by simp⟩
  | id :: rest, known => by
    obtain ⟨listed, other, other'⟩ := known id List.mem_cons_self
    obtain ⟨names, same, all⟩ :=
      adjustedNames_spec ids rest fun id listed => known id (List.mem_cons_of_mem _ listed)
    obtain ⟨name, inside⟩ := exists_name listed
    have found := (nameOf_iff ids).mpr inside
    refine ⟨name :: names, ?_, ?_⟩
    · rw [adjustedNames, if_neg (by tauto), found, same]
    · intro other
      rw [List.mem_cons, all, List.exists_mem_cons_iff]
      refine or_congr_left ?_
      rw [← nameOf_iff ids, found, Option.some_inj]
      exact eq_comm

theorem Curated.outside (curated : Curated members edges treatmentId outcomeId)
    {id name : Text} {adjustment : List Text} (listed : (id, name) ∈ members)
    (others : ∀ other ∈ adjustment, other ≠ id) : ¬∃ other ∈ adjustment, (other, name) ∈ members := by
  rintro ⟨other, adjusted, inside⟩
  have same := List.inj_on_of_nodup_map curated.names inside listed rfl
  exact others other adjusted (congrArg Prod.fst same)

end Model

variable {s : CausalStore} {evidence : Evidence} {model : ModelRow}

variable {scope : EvidenceScope} {modelId : Text} {adjustment : List Text}

/-- What an approved state says: the scope is valid, and the model is there. -/
theorem CausalStore.modelState_ok
    {state : Text} (ran : s.modelState evidence scope modelId = .ok state) : scope.valid = true := by
  unfold modelState at ran
  split at ran
  · cases ran
  · rename_i valid
    simpa using valid

theorem CausalStore.model_of_mem
    (listed : model ∈ s.causalModels.rows) : s.model model.scope model.id = some model := by
  unfold CausalStore.model
  cases found : s.causalModels.rows.find? fun row => row.id = model.id ∧ row.scope = model.scope with
  | none => exact absurd (decide_eq_true ⟨rfl, rfl⟩) (List.find?_eq_none.mp found model listed)
  | some other =>
    have picked := List.find?_some found
    rw [s.causalModels.unique (List.mem_of_find?_eq_some found) listed (of_decide_eq_true picked).1]

/-- **The whole check**, for a set of other variables of an approved, curated model. -/
theorem checkBackdoorAdjustment_iff (orders : HashOrders)
    (approved : s.modelState evidence scope modelId = .ok "approved".toList)
    (stored : s.model scope modelId = some model) (visible : isBlank modelId = false)
    (curated : Curated (s.variablesOf scope modelId) (s.edgesOf scope modelId)
      model.treatmentVariableId model.outcomeVariableId)
    (single : adjustment.Nodup) (others : ∀ id ∈ adjustment, id ∈ (s.variablesOf scope modelId).map Prod.fst ∧
      id ≠ model.treatmentVariableId ∧ id ≠ model.outcomeVariableId)
    {treatment outcome : Text}
    (isTreatment : (model.treatmentVariableId, treatment) ∈ s.variablesOf scope modelId)
    (isOutcome : (model.outcomeVariableId, outcome) ∈ s.variablesOf scope modelId) :
    ∃ answer, s.checkBackdoorAdjustment orders evidence scope modelId adjustment = some answer ∧
      ((∃ ids, answer = .ok (.graphicallyAdmissible ids)) ↔ Backdoor (Edge (s.edgesOf scope modelId))
          (fun name => ∃ id ∈ adjustment, (id, name) ∈ s.variablesOf scope modelId) treatment outcome) := by
  have valid := CausalStore.modelState_ok approved
  have few : adjustment.length ≤ 128 := by
    have inside : adjustment ⊆ (s.variablesOf scope modelId).map Prod.fst :=
      fun id listed => (others id listed).1
    have fits := (List.subperm_of_subset single inside).length_le
    rw [List.length_map] at fits
    exact fits.trans curated.few
  have seen : adjustment.any isBlank = false := by
    rw [List.any_eq_false]
    intro id listed
    rw [curated.visible id (others id listed).1]
    exact Bool.false_ne_true
  have passes : ¬((!scope.valid || isBlank modelId || 128 < adjustment.length ||
      adjustment.any isBlank || ¬adjustment.Nodup) = true) := by
    simp [valid, visible, few, seen, single]
  obtain ⟨inserted, adjusted, all⟩ := adjustedNames_spec curated.ids adjustment others
  have sets : (· ∈ orders.adjusted.iterate inserted) =
      fun name => ∃ id ∈ adjustment, (id, name) ∈ s.variablesOf scope modelId := by
    funext name
    exact propext ((orders.adjusted.all inserted name).trans (all name))
  have declared : ∀ edge ∈ s.edgesOf scope modelId,
      edge.1 ∈ orders.names.iterate ((s.variablesOf scope modelId).map Prod.snd) ∧
        edge.2 ∈ orders.names.iterate ((s.variablesOf scope modelId).map Prod.snd) := by
    intro edge listed
    rw [orders.names.all, orders.names.all]
    exact curated.declared edge listed
  have differ : treatment ≠ outcome := by
    rintro rfl
    have same := List.inj_on_of_nodup_map curated.names isTreatment isOutcome rfl
    exact curated.differ (congrArg Prod.fst same)
  have outside : treatment ∉ orders.adjusted.iterate inserted := by
    show ¬(· ∈ orders.adjusted.iterate inserted) treatment
    rw [sets]
    exact curated.outside isTreatment fun id listed => (others id listed).2.1
  have outside' : outcome ∉ orders.adjusted.iterate inserted := by
    show ¬(· ∈ orders.adjusted.iterate inserted) outcome
    rw [sets]
    exact curated.outside isOutcome fun id listed => (others id listed).2.2
  obtain ⟨reason, ran, exact⟩ :=
    backdoorReason_spec orders.neighbors curated.acyclic declared differ outside outside'
  unfold CausalStore.checkBackdoorAdjustment
  rw [if_neg passes, approved]
  dsimp only
  rw [if_neg (by simp), stored]
  dsimp only
  rw [(nameOf_iff curated.ids).mpr isTreatment, (nameOf_iff curated.ids).mpr isOutcome]
  dsimp only
  rw [adjusted]
  dsimp only
  rw [ran, ← sets, ← exact]
  refine ⟨_, rfl, ?_⟩
  cases reason with
  | none => exact iff_of_true ⟨_, rfl⟩ rfl
  | some text =>
    refine iff_of_false ?_ (Option.some_ne_none _)
    rintro ⟨_, same⟩
    cases same

/-- **Identification is the classical criterion.**  For a graph without cycles between declared
nodes, the search in the moral graph says whether every path is blocked; for an approved model of
such a graph, what is admitted is what meets the backdoor criterion. -/
theorem identification_classical (orders : HashOrders) :
    (∀ (nodes : List Text) (edges : List (Text × Text)) (treatment outcome : Text)
      (adjusted : List Text), Acyclic (Edge edges) →
      (∀ edge ∈ edges, edge.1 ∈ nodes ∧ edge.2 ∈ nodes) → treatment ∉ adjusted → outcome ∉ adjusted →
      ∃ answer, dSeparated orders.neighbors nodes edges treatment outcome adjusted = some answer ∧
        (answer = true ↔ ∀ path, UndirectedPath (Edge edges) treatment outcome path →
          Blocked (Edge edges) (· ∈ adjusted) path)) ∧
    ∀ (s : CausalStore) (evidence : Evidence) (scope : EvidenceScope) (modelId : Text)
      (model : ModelRow) (adjustment : List Text) (treatment outcome : Text),
      s.modelState evidence scope modelId = .ok "approved".toList →
      s.model scope modelId = some model → isBlank modelId = false →
      Curated (s.variablesOf scope modelId) (s.edgesOf scope modelId) model.treatmentVariableId
        model.outcomeVariableId →
      adjustment.Nodup → (∀ id ∈ adjustment, id ∈ (s.variablesOf scope modelId).map Prod.fst ∧
        id ≠ model.treatmentVariableId ∧ id ≠ model.outcomeVariableId) →
      (model.treatmentVariableId, treatment) ∈ s.variablesOf scope modelId →
      (model.outcomeVariableId, outcome) ∈ s.variablesOf scope modelId →
      ∃ answer, s.checkBackdoorAdjustment orders evidence scope modelId adjustment = some answer ∧
        ((∃ ids, answer = .ok (.graphicallyAdmissible ids)) ↔
          (∀ id ∈ adjustment, ∀ name, (id, name) ∈ s.variablesOf scope modelId →
            ¬TransGen (Edge (s.edgesOf scope modelId)) treatment name) ∧
          ∀ path, UndirectedPath (Edge (s.edgesOf scope modelId)) treatment outcome path →
            Enters (Edge (s.edgesOf scope modelId)) path → Blocked (Edge (s.edgesOf scope modelId))
              (fun name => ∃ id ∈ adjustment, (id, name) ∈ s.variablesOf scope modelId) path) := by
  constructor
  · intro nodes edges treatment outcome adjusted acyclic declared outside outside'
    exact dSeparated_spec orders.neighbors acyclic (fun edge listed => (declared edge listed).2)
      outside outside'
  · intro s evidence scope modelId model adjustment treatment outcome approved stored visible curated
      single others isTreatment isOutcome
    obtain ⟨answer, ran, exact⟩ := checkBackdoorAdjustment_iff orders approved stored visible curated
      single others isTreatment isOutcome
    refine ⟨answer, ran, exact.trans ⟨?_, ?_⟩⟩
    · intro backdoor
      exact ⟨fun id listed name member => backdoor.apart name ⟨id, listed, member⟩, backdoor.blocks⟩
    · rintro ⟨apart, blocks⟩
      exact ⟨fun name ⟨id, listed, member⟩ => apart id listed name member, blocks⟩

/-! ## A confounder -/

def sampleScope : EvidenceScope := ⟨"tenant-a".toList, "private".toList⟩

def sampleEvidence : Evidence := ⟨fun _ => true, fun _ => (0, [])⟩

def sampleOrders : HashOrders := ⟨.insertion, .insertion, fun _ => .insertion⟩

def sampleVariable (name : String) (id : Uuid) : Call :=
  .registerVariable sampleScope name.toList "v1".toList "test variable".toList "units".toList
    .continuous id

/-- `W` causes the treatment `A` and the outcome `Y`, and `A` causes `Y`. -/
def sampleStore : CausalStore :=
  run CausalStore.after .empty
    [sampleVariable "W" ⟨"w".toList, by decide⟩, sampleVariable "A" ⟨"a".toList, by decide⟩,
      sampleVariable "Y" ⟨"y".toList, by decide⟩,
      .addClaim sampleScope "W".toList "A".toList .asserted ⟨"wa".toList, by decide⟩,
      .addClaim sampleScope "W".toList "Y".toList .asserted ⟨"wy".toList, by decide⟩,
      .addClaim sampleScope "A".toList "Y".toList .asserted ⟨"ay".toList, by decide⟩,
      .otherWrites (fun _ => "accepted".toList) [],
      .createModel .insertion sampleScope
        ⟨"test-DAG".toList, "v1".toList, "a".toList, "y".toList, "support tickets".toList, 1, 100,
          ["w".toList, "a".toList, "y".toList], ["wa".toList, "wy".toList, "ay".toList]⟩
        ⟨"m".toList, by decide⟩,
      .reviewModelChecked sampleEvidence sampleScope "m".toList "reviewer".toList true false none none]

def sampleModel : ModelRow :=
  ⟨"m".toList, sampleScope, "test-DAG".toList, "v1".toList, "a".toList, "y".toList,
    "support tickets".toList, 1, 100, "approved".toList, false, []⟩

/-- `A` and `Y` both cause `C`. -/
def sampleCollider : List (Text × Text) :=
  [("A".toList, "C".toList), ("Y".toList, "C".toList)]

set_option maxRecDepth 20000 in
/-- A collider that is adjusted for opens its path; the confounder blocks every way in. -/
theorem identification_sample : (¬∀ path, UndirectedPath (Edge sampleCollider) "A".toList "Y".toList path →
      Blocked (Edge sampleCollider) (· ∈ ["C".toList]) path) ∧
    ∀ path, UndirectedPath (Edge (sampleStore.edgesOf sampleScope "m".toList)) "A".toList "Y".toList
        path → Enters (Edge (sampleStore.edgesOf sampleScope "m".toList)) path →
      Blocked (Edge (sampleStore.edgesOf sampleScope "m".toList))
        (fun name => ∃ id ∈ ["w".toList], (id, name) ∈ sampleStore.variablesOf sampleScope "m".toList)
        path := by
  constructor
  · have declared : ∀ edge ∈ sampleCollider, edge.1 ∈ ["A".toList, "Y".toList, "C".toList] ∧
        edge.2 ∈ ["A".toList, "Y".toList, "C".toList] := by decide
    obtain ⟨free, checked, exact⟩ := acyclic_spec .insertion (by decide) declared
    have accepted : acyclic .insertion sampleCollider ["A".toList, "Y".toList, "C".toList] = some true := by
      decide
    rw [accepted, Option.some_inj] at checked
    obtain ⟨answer, ran, separates⟩ := (identification_classical sampleOrders).1
      ["A".toList, "Y".toList, "C".toList] sampleCollider "A".toList "Y".toList ["C".toList]
      (exact.mp checked.symm) declared (by decide) (by decide)
    have joined : dSeparated sampleOrders.neighbors ["A".toList, "Y".toList, "C".toList] sampleCollider
        "A".toList "Y".toList ["C".toList] = some false := by decide
    rw [joined, Option.some_inj] at ran
    rw [← separates, ← ran]
    exact Bool.false_ne_true
  · have listed : sampleModel ∈ sampleStore.causalModels.rows := by decide
    obtain ⟨visible, curated⟩ := (run_sound _).models sampleModel listed
    obtain ⟨answer, ran, exact⟩ := (identification_classical sampleOrders).2 sampleStore sampleEvidence
      sampleScope "m".toList sampleModel ["w".toList] "A".toList "Y".toList (by decide) (by decide)
      visible curated (by decide) (by decide) (by decide) (by decide)
    have admitted : sampleStore.checkBackdoorAdjustment sampleOrders sampleEvidence sampleScope
        "m".toList ["w".toList] = some (.ok (.graphicallyAdmissible ["w".toList])) := by decide
    rw [admitted, Option.some_inj] at ran
    exact (exact.mp ⟨_, ran.symm⟩).2

end DuDuClaw.Causal
