/-
# Causal.ParentAdjustment -- adjusting for the parents of the treatment

`suggest_parent_backdoor_adjustment` (causal_identify.rs) passes the parents of the treatment
to the check, whatever the graph is.

* `suggestion_admissible_iff`: in every run the check admits them, unless the outcome is one.
-/
import DuDuClaw.Causal.Identify

namespace DuDuClaw.Causal

open DuDuClaw.Lib DuDuClaw.Lib.Dag

def CausalStore.parentIds (s : CausalStore) (scope : EvidenceScope) (modelId treatmentName : Text) :
    List Text :=
  (((s.variablesOf scope modelId).filter fun member =>
    (s.edgesOf scope modelId).contains (member.2, treatmentName)).map Prod.fst).dedup

/-- `suggest_parent_backdoor_adjustment`. -/
def CausalStore.suggestParentBackdoorAdjustment (s : CausalStore) (orders : HashOrders)
    (evidence : Evidence) (scope : EvidenceScope) (modelId : Text) :
    Option (Except CausalStoreError AdjustmentReadiness) :=
  if !scope.valid || isBlank modelId then some (.error .invalidInput)
  else
    match s.modelState evidence scope modelId with
    | .error e => some (.error e)
    | .ok state =>
      if state ≠ "approved".toList then
        some (.ok (.unknown ["model_state:".toList ++ state]))
      else
        match (s.model scope modelId).bind fun model =>
            s.variableName scope model.treatmentVariableId with
        | none => some (.error .notFound)
        | some treatmentName =>
          s.checkBackdoorAdjustment orders evidence scope modelId
            ((s.parentIds scope modelId treatmentName).insertionSort (· ≤ ·))

variable {s : CausalStore} {orders : HashOrders} {evidence : Evidence} {scope : EvidenceScope}

variable {modelId treatment outcome : Text} {model : ModelRow}

theorem mem_parentIds {id : Text} : id ∈ s.parentIds scope modelId treatment ↔
    ∃ name, (id, name) ∈ s.variablesOf scope modelId ∧ Edge (s.edgesOf scope modelId) name treatment := by
  simp only [CausalStore.parentIds, List.mem_dedup, List.mem_map, List.mem_filter, List.contains_eq_mem,
    decide_eq_true_eq, Prod.exists, exists_and_right, exists_eq_right, Edge]

theorem variableName_of_mem {id name : Text} (listed : (id, name) ∈ s.variablesOf scope modelId) :
    s.variableName scope id = some name := by
  obtain ⟨link, -, named⟩ := List.mem_filterMap.mp listed
  obtain ⟨_, found, same⟩ := Option.map_eq_some_iff.mp named
  cases same
  exact found

theorem adjustedNames_outcome (members : List (Text × Text)) (treatmentId : Text) {outcomeId : Text} :
    (ids : List Text) → outcomeId ∈ ids →
      ∃ reason, adjustedNames members treatmentId outcomeId ids = .error reason
  | id :: ids, listed => by
    rw [adjustedNames]
    by_cases ends : id = treatmentId ∨ id = outcomeId
    · exact ⟨_, if_pos ends⟩
    rw [if_neg ends]
    obtain ⟨reason, refused⟩ := adjustedNames_outcome members treatmentId ids
      ((List.mem_cons.mp listed).resolve_left fun same => ends (.inr same.symm))
    rw [refused]
    cases nameOf members id with
    | none => exact ⟨_, rfl⟩
    | some name => exact ⟨reason, rfl⟩

/-- A set with the outcome is not admitted. -/
theorem outcome_refused {adjustment : List Text} (stored : s.model scope modelId = some model)
    (listed : model.outcomeVariableId ∈ adjustment) :
    ∃ answer, s.checkBackdoorAdjustment orders evidence scope modelId adjustment = some answer ∧
      ¬∃ ids, answer = .ok (.graphicallyAdmissible ids) := by
  unfold CausalStore.checkBackdoorAdjustment
  obtain ⟨reason, refused⟩ := adjustedNames_outcome (s.variablesOf scope modelId)
    model.treatmentVariableId adjustment listed
  rw [stored]
  dsimp only
  rw [refused]
  have other (answer : Except CausalStoreError AdjustmentReadiness)
      (differ : ∀ ids, answer ≠ .ok (.graphicallyAdmissible ids)) :
      ∃ a, some answer = some a ∧ ¬∃ ids, a = .ok (.graphicallyAdmissible ids) :=
    ⟨answer, rfl, not_exists.mpr differ⟩
  split
  · exact other _ nofun
  split
  · exact other _ nofun
  split
  · exact other _ nofun
  split
  · exact other _ nofun
  · exact other _ nofun

/-- **The parents of the treatment.**  Whatever was called before, the suggestion for an approved
model is an adjustment that the check admits, unless the outcome causes the treatment. -/
theorem suggestion_admissible_iff (orders : HashOrders) (calls : List Call)
    (reached : run CausalStore.after .empty calls = s) (listed : model ∈ s.causalModels.rows)
    (approved : s.modelState evidence model.scope model.id = .ok "approved".toList) :
    ∃ treatment outcome answer, (model.treatmentVariableId, treatment) ∈ s.variablesOf model.scope model.id ∧
      (model.outcomeVariableId, outcome) ∈ s.variablesOf model.scope model.id ∧
      s.suggestParentBackdoorAdjustment orders evidence model.scope model.id = some answer ∧
      ((∃ ids, answer = .ok (.graphicallyAdmissible ids)) ↔
        ¬Edge (s.edgesOf model.scope model.id) outcome treatment) := by
  obtain ⟨visible, curated⟩ := (reached ▸ run_sound calls : Sound s).models model listed
  obtain ⟨treatment, isTreatment⟩ := exists_name curated.treatment
  obtain ⟨outcome, isOutcome⟩ := exists_name curated.outcome
  have stored := CausalStore.model_of_mem listed
  have passed : s.suggestParentBackdoorAdjustment orders evidence model.scope model.id =
      s.checkBackdoorAdjustment orders evidence model.scope model.id
        ((s.parentIds model.scope model.id treatment).insertionSort (· ≤ ·)) := by
    unfold CausalStore.suggestParentBackdoorAdjustment
    rw [if_neg (by simp [CausalStore.modelState_ok approved, visible]), approved]
    dsimp only
    rw [if_neg (by simp), stored, Option.bind_some, variableName_of_mem isTreatment]
  have member {id : Text} : id ∈ (s.parentIds model.scope model.id treatment).insertionSort (· ≤ ·) ↔
      ∃ name, (id, name) ∈ s.variablesOf model.scope model.id ∧
        Edge (s.edgesOf model.scope model.id) name treatment :=
    (List.mem_insertionSort _).trans mem_parentIds
  rw [passed]
  by_cases causes : Edge (s.edgesOf model.scope model.id) outcome treatment
  · obtain ⟨answer, ran, other⟩ := outcome_refused stored (member.mpr ⟨outcome, isOutcome, causes⟩)
    exact ⟨treatment, outcome, answer, isTreatment, isOutcome, ran, iff_of_false other (not_not_intro causes)⟩
  have single : ((s.parentIds model.scope model.id treatment).insertionSort (· ≤ ·)).Nodup :=
    (List.perm_insertionSort _ _).nodup_iff.mpr (List.nodup_dedup _)
  have others : ∀ id ∈ (s.parentIds model.scope model.id treatment).insertionSort (· ≤ ·),
      id ∈ (s.variablesOf model.scope model.id).map Prod.fst ∧ id ≠ model.treatmentVariableId ∧
        id ≠ model.outcomeVariableId := by
    intro id parent
    obtain ⟨name, inside, edge⟩ := member.mp parent
    refine ⟨List.mem_map_of_mem inside, ?_, ?_⟩
    · rintro rfl
      cases List.inj_on_of_nodup_map curated.ids inside isTreatment rfl
      exact curated.acyclic _ (.single edge)
    · rintro rfl
      cases List.inj_on_of_nodup_map curated.ids inside isOutcome rfl
      exact causes edge
  obtain ⟨answer, ran, exact⟩ :=
    checkBackdoorAdjustment_iff orders approved stored visible curated single others isTreatment isOutcome
  have sets : (fun name => ∃ id ∈ (s.parentIds model.scope model.id treatment).insertionSort (· ≤ ·),
      (id, name) ∈ s.variablesOf model.scope model.id) = (Edge (s.edgesOf model.scope model.id) · treatment) := by
    funext name
    refine propext ⟨?_, fun edge => ?_⟩
    · rintro ⟨id, parent, inside⟩
      obtain ⟨other, inside', edge⟩ := member.mp parent
      cases List.inj_on_of_nodup_map curated.ids inside inside' rfl
      exact edge
    · obtain ⟨⟨id, _⟩, inside, rfl⟩ := List.mem_map.mp (curated.declared _ edge).1
      exact ⟨id, member.mpr ⟨_, inside, edge⟩, inside⟩
  rw [sets] at exact
  exact ⟨treatment, outcome, answer, isTreatment, isOutcome, ran,
    iff_of_true (exact.mpr (backdoor_parents curated.acyclic causes)) causes⟩

set_option maxRecDepth 20000 in
theorem suggestion_of_sample : ∃ treatment outcome answer,
    (sampleModel.treatmentVariableId, treatment) ∈ sampleStore.variablesOf sampleScope "m".toList ∧
      (sampleModel.outcomeVariableId, outcome) ∈ sampleStore.variablesOf sampleScope "m".toList ∧
      sampleStore.suggestParentBackdoorAdjustment sampleOrders sampleEvidence sampleScope "m".toList =
        some answer ∧
      ((∃ ids, answer = .ok (.graphicallyAdmissible ids)) ↔
        ¬Edge (sampleStore.edgesOf sampleScope "m".toList) outcome treatment) :=
  @suggestion_admissible_iff sampleStore sampleEvidence sampleModel sampleOrders _ rfl (by decide) (by decide)

end DuDuClaw.Causal
