/-
# Causal.Curated -- every stored model is a graph of its own variables without cycles

`create_model` asks of a draft what the identification rests on.  No later statement takes it
away: ids are given once, the links of a model are never written again, and names, causes and
effects keep what they were inserted with.

* `acyclic_spec`: the check of a draft is exact.
* `createModel_sound`, `Frame.sound`: one call.
* `run_sound`: every store of every run.
-/
import DuDuClaw.Causal.Store
import DuDuClaw.Lib.Runs

namespace DuDuClaw.Causal

open DuDuClaw.Lib DuDuClaw.Lib.Dag

/-- What holds of the members of a model, with their names, and of its edges. -/
structure Curated (members edges : List (Text × Text)) (treatmentId outcomeId : Text) : Prop where
  visible : ∀ id ∈ members.map Prod.fst, isBlank id = false
  ids : (members.map Prod.fst).Nodup
  names : (members.map Prod.snd).Nodup
  few : members.length ≤ 128
  differ : treatmentId ≠ outcomeId
  treatment : treatmentId ∈ members.map Prod.fst
  outcome : outcomeId ∈ members.map Prod.fst
  declared : ∀ edge ∈ edges, edge.1 ∈ members.map Prod.snd ∧ edge.2 ∈ members.map Prod.snd
  acyclic : Acyclic (Edge edges)

/-- What holds of a store: links have both ends, and models are curated. -/
structure Sound (s : CausalStore) : Prop where
  visible : ∀ row ∈ s.causalVariables.rows, isBlank row.id = false
  members : ∀ link ∈ s.modelVariables, (∃ row ∈ s.causalModels.rows, row.id = link.1) ∧
    ∃ row ∈ s.causalVariables.rows, row.id = link.2
  claims : ∀ link ∈ s.modelEdges, (∃ row ∈ s.causalModels.rows, row.id = link.1) ∧
    ∃ row ∈ s.causalClaims.rows, row.id = link.2
  models : ∀ row ∈ s.causalModels.rows, isBlank row.id = false ∧
    Curated (s.variablesOf row.scope row.id) (s.edgesOf row.scope row.id) row.treatmentVariableId
      row.outcomeVariableId

/-! ## Drafts -/

/-- **The check for cycles is exact**, between declared names. -/
theorem acyclic_spec (order : HashOrder) {edges : List (Text × Text)} {names : List Text}
    (single : names.Nodup) (declared : ∀ edge ∈ edges, edge.1 ∈ names ∧ edge.2 ∈ names) :
    ∃ answer, acyclic order edges names = some answer ∧ (answer = true ↔ Acyclic (Edge edges)) := by
  have start : Drained edges names [] ((order.iterate names).filter fun name => waits edges [] name = 0)
      (waits edges []) := by
    refine drained_start ((order.once names).filter _) fun v => ?_
    rw [List.mem_filter, order.all]
    simp
  obtain ⟨visited, ran, exact⟩ := drains_spec start single declared (Nat.lt_succ_self _)
  refine ⟨visited == names.length, ?_, ?_⟩
  · exact congrArg (Option.map (· == names.length)) ran
  · rw [beq_iff_eq]
    exact exact

namespace CausalStore

variable {s : CausalStore} {scope : EvidenceScope}

variable {order : HashOrder} {draft : ModelDraft} {links : List (Text × Text)} {added : List Text}
  {modelId id : Text}

theorem variableNames_spec (ids : List Text) {names out : List Text}
    (ran : s.variableNames scope names ids = .ok out) (single : names.Nodup) :
    out.Nodup ∧ ∃ fresh, out = names ++ fresh ∧
      (ids.filterMap fun id => (s.variableName scope id).map (id, ·)).map Prod.fst = ids ∧
      (ids.filterMap fun id => (s.variableName scope id).map (id, ·)).map Prod.snd = fresh := by
  induction ids generalizing names with
  | nil =>
    cases ran
    exact ⟨single, [], (List.append_nil _).symm, rfl, rfl⟩
  | cons id ids ih =>
    rw [variableNames] at ran
    cases found : s.variableName scope id with
    | none =>
      rw [found] at ran
      cases ran
    | some name =>
      rw [found] at ran
      dsimp only at ran
      split at ran
      · cases ran
      rename_i new
      rw [List.contains_iff_mem] at new
      have longer : (names ++ [name]).Nodup := by
        refine List.nodup_append.mpr ⟨single, List.nodup_singleton _, ?_⟩
        rintro a listed b here rfl
        exact new (List.mem_singleton.mp here ▸ listed)
      obtain ⟨distinct, fresh, whole, firsts, seconds⟩ := ih ran longer
      refine ⟨distinct, name :: fresh, by rw [whole, List.append_assoc]; rfl, ?_, ?_⟩
      · rw [List.filterMap_cons_some (by rw [found]; rfl), List.map_cons, firsts]
      · rw [List.filterMap_cons_some (by rw [found]; rfl), List.map_cons, seconds]

theorem draftEdges_spec (names ids : List Text) {edges out : List (Text × Text)}
    (ran : s.draftEdges scope names edges ids = .ok out) : ∃ fresh, out = edges ++ fresh ∧
      (ids.filterMap fun id => (s.claim scope id).map ClaimRow.edge) = fresh ∧
      (∀ edge ∈ fresh, edge.1 ∈ names ∧ edge.2 ∈ names) ∧ ∀ id ∈ ids, ∃ row, s.claim scope id = some row := by
  induction ids generalizing edges with
  | nil =>
    cases ran
    exact ⟨[], (List.append_nil _).symm, rfl, List.forall_mem_nil _, List.forall_mem_nil _⟩
  | cons id ids ih =>
    rw [draftEdges] at ran
    cases found : s.claim scope id with
    | none =>
      rw [found] at ran
      cases ran
    | some row =>
      rw [found] at ran
      dsimp only at ran
      split at ran
      · cases ran
      rename_i kept
      have inside : row.causeVariable ∈ names ∧ row.effectVariable ∈ names := by
        simp only [Bool.or_eq_true, not_or, Bool.not_eq_true, Bool.not_eq_false', List.contains_iff_mem] at kept
        exact ⟨kept.1.2, kept.2⟩
      obtain ⟨fresh, whole, same, declared, known⟩ := ih ran
      refine ⟨row.edge :: fresh, by rw [whole, List.append_assoc]; rfl, ?_, ?_, ?_⟩
      · rw [List.filterMap_cons_some (by rw [found]; rfl), same]
      · intro edge listed
        rcases List.mem_cons.mp listed with rfl | later
        · exact inside
        · exact declared edge later
      · intro other listed
        rcases List.mem_cons.mp listed with rfl | later
        · exact ⟨row, found⟩
        · exact known other later

theorem checkDraft_spec (passed : s.checkDraft order scope draft = .ok ()) :
    draft.refused = false ∧ ∃ names edges, s.variableNames scope [] draft.variableIds = .ok names ∧
      s.draftEdges scope names [] draft.claimIds = .ok edges ∧ acyclic order edges names = some true := by
  rw [checkDraft] at passed
  cases refused : (!scope.valid || draft.refused) with
  | true =>
    rw [refused] at passed
    cases passed
  | false =>
    rw [refused] at passed
    have accepted := (Bool.or_eq_false_iff.mp refused).2
    cases named : s.variableNames scope [] draft.variableIds with
    | error e =>
      rw [named] at passed
      cases passed
    | ok names =>
      rw [named] at passed
      cases drafted : s.draftEdges scope names [] draft.claimIds with
      | error e =>
        simp only [bind, Except.bind, drafted] at passed
        cases passed
      | ok edges =>
        simp only [bind, Except.bind, drafted] at passed
        refine ⟨accepted, names, edges, rfl, drafted, ?_⟩
        by_contra cyclic
        rw [if_pos cyclic] at passed
        cases passed

/-! ## One call -/

theorem createModel_cases (order : HashOrder) (draft : ModelDraft) (id : Uuid) :
    (s.createModel order scope draft id).2 = s ∨ s.checkDraft order scope draft = .ok () ∧
      (∀ row ∈ s.causalModels.rows, row.id ≠ id.text) ∧
      ∃ rows, rows.rows = s.causalModels.rows ++ [draftRow scope draft id] ∧
        (s.createModel order scope draft id).2 =
          { s with
            causalModels := rows
            modelVariables := s.modelVariables ++ draft.variableIds.map (id.text, ·)
            modelEdges := s.modelEdges ++ draft.claimIds.map (id.text, ·) } := by
  unfold createModel
  cases passed : s.checkDraft order scope draft with
  | error e => exact .inl rfl
  | ok _ =>
    cases stored : s.insertModel (draftRow scope draft id) with
    | none => exact .inl rfl
    | some rows =>
      refine .inr ⟨rfl, ?_⟩
      rw [insertModel] at stored
      split at stored
      · cases stored
      · obtain ⟨fresh, whole⟩ := Table.insert_cases stored
        exact ⟨fresh, rows, whole, rfl⟩

/-- The links of a model that another one adds none to. -/
theorem filter_links {other : Text} (differ : other ≠ modelId) :
    (links ++ added.map (modelId, ·)).filter (·.1 = other) = links.filter (·.1 = other) := by
  have none : (added.map (modelId, ·)).filter (·.1 = other) = [] := by
    rw [List.filter_eq_nil_iff]
    intro link listed
    obtain ⟨_, -, rfl⟩ := List.mem_map.mp listed
    simpa using Ne.symm differ
  rw [List.filter_append, none, List.append_nil]

theorem filter_new_links (fresh : ∀ link ∈ links, link.1 ≠ modelId) :
    (links ++ added.map (modelId, ·)).filter (·.1 = modelId) = added.map (modelId, ·) := by
  rw [List.filter_append, List.filter_eq_nil_iff.mpr (fun link listed => by simpa using fresh link listed),
    List.nil_append, List.filter_eq_self]
  intro link listed
  obtain ⟨_, -, rfl⟩ := List.mem_map.mp listed
  simp

theorem row_of_variableName {name : Text} (found : s.variableName scope id = some name) :
    ∃ row ∈ s.causalVariables.rows, row.id = id := by
  obtain ⟨row, here, -⟩ := Option.map_eq_some_iff.mp found
  have picked := List.find?_some here
  exact ⟨row, List.mem_of_find?_eq_some here, (of_decide_eq_true picked).1⟩

theorem row_of_claim {row : ClaimRow} (found : s.claim scope id = some row) :
    ∃ row ∈ s.causalClaims.rows, row.id = id := by
  have picked := List.find?_some found
  exact ⟨row, List.mem_of_find?_eq_some found, (of_decide_eq_true picked).1⟩

/-- **A draft that passes is curated.** -/
theorem curated_of_checkDraft (visible : ∀ row ∈ s.causalVariables.rows, isBlank row.id = false)
    (passed : s.checkDraft order scope draft = .ok ()) :
    (∀ id ∈ draft.variableIds, ∃ row ∈ s.causalVariables.rows, row.id = id) ∧
      (∀ id ∈ draft.claimIds, ∃ row ∈ s.causalClaims.rows, row.id = id) ∧
      Curated (draft.variableIds.filterMap fun id => (s.variableName scope id).map (id, ·))
        (draft.claimIds.filterMap fun id => (s.claim scope id).map ClaimRow.edge)
        draft.treatmentVariableId draft.outcomeVariableId := by
  obtain ⟨accepted, names, edges, named, drafted, checked⟩ := checkDraft_spec passed
  obtain ⟨single, fresh, rfl, firsts, seconds⟩ := variableNames_spec _ named .nil
  obtain ⟨_, rfl, same, declared, known⟩ := draftEdges_spec _ _ drafted
  simp only [ModelDraft.refused, Bool.or_eq_false_iff, decide_eq_false_iff_not, not_not,
    Bool.not_eq_false', List.contains_iff_mem] at accepted
  have here : ∀ id ∈ draft.variableIds, ∃ row ∈ s.causalVariables.rows, row.id = id := by
    intro id listed
    rw [← firsts] at listed
    obtain ⟨pair, inside, rfl⟩ := List.mem_map.mp listed
    obtain ⟨other, -, found⟩ := List.mem_filterMap.mp inside
    obtain ⟨name, stored, rfl⟩ := Option.map_eq_some_iff.mp found
    exact row_of_variableName stored
  refine ⟨here, fun id listed => (known id listed).elim fun row found => row_of_claim found, ?_⟩
  have many : (draft.variableIds.filterMap fun id => (s.variableName scope id).map (id, ·)).length =
      draft.variableIds.length := by
    have lengths := congrArg List.length firsts
    rwa [List.length_map] at lengths
  constructor
  · intro id listed
    rw [firsts] at listed
    obtain ⟨row, stored, rfl⟩ := here id listed
    exact visible row stored
  · rw [firsts]
    tauto
  · rwa [seconds]
  · rw [many]
    omega
  · tauto
  · rw [firsts]
    tauto
  · rw [firsts]
    tauto
  · rw [seconds, same]
    exact declared
  · rw [same]
    obtain ⟨answer, ran, exact⟩ := acyclic_spec order single declared
    rw [ran, Option.some_inj] at checked
    exact exact.mp checked

/-- **A new model** is curated, and leaves the others as they were. -/
theorem createModel_sound (sound : Sound s) (order : HashOrder) (draft : ModelDraft) (id : Uuid) :
    Sound (s.createModel order scope draft id).2 := by
  rcases createModel_cases order draft id with same | ⟨passed, fresh, rows, whole, same⟩
  · rw [same]
    exact sound
  obtain ⟨members, claims, curated⟩ := curated_of_checkDraft sound.visible passed
  have old : ∀ row ∈ s.causalModels.rows, row ∈ rows.rows := by
    intro row listed
    rw [whole]
    exact List.mem_append_left _ listed
  have added : draftRow scope draft id ∈ rows.rows := by
    rw [whole]
    exact List.mem_append_right _ List.mem_cons_self
  rw [same]
  constructor
  · exact sound.visible
  · intro link listed
    rcases List.mem_append.mp listed with before | new
    · obtain ⟨⟨row, inside, ends⟩, known⟩ := sound.members link before
      exact ⟨⟨row, old row inside, ends⟩, known⟩
    · obtain ⟨member, inside, rfl⟩ := List.mem_map.mp new
      exact ⟨⟨_, added, rfl⟩, members member inside⟩
  · intro link listed
    rcases List.mem_append.mp listed with before | new
    · obtain ⟨⟨row, inside, ends⟩, known⟩ := sound.claims link before
      exact ⟨⟨row, old row inside, ends⟩, known⟩
    · obtain ⟨member, inside, rfl⟩ := List.mem_map.mp new
      exact ⟨⟨_, added, rfl⟩, claims member inside⟩
  · intro row listed
    rw [whole] at listed
    unfold variablesOf edgesOf
    dsimp only
    rcases List.mem_append.mp listed with before | new
    · have differ := fresh row before
      rw [filter_links differ, filter_links differ]
      exact sound.models row before
    rw [List.mem_singleton.mp new]
    have unlinked : ∀ link ∈ s.modelVariables, link.1 ≠ id.text := by
      intro link listed ends
      obtain ⟨⟨row, inside, here⟩, -⟩ := sound.members link listed
      exact fresh row inside (here.trans ends)
    have unlinked' : ∀ link ∈ s.modelEdges, link.1 ≠ id.text := by
      intro link listed ends
      obtain ⟨⟨row, inside, here⟩, -⟩ := sound.claims link listed
      exact fresh row inside (here.trans ends)
    refine ⟨id.visible, ?_⟩
    show Curated (((s.modelVariables ++ draft.variableIds.map (id.text, ·)).filter
      (·.1 = id.text)).filterMap _) (((s.modelEdges ++ draft.claimIds.map (id.text, ·)).filter
      (·.1 = id.text)).filterMap _) _ _
    rw [filter_new_links unlinked, filter_new_links unlinked', List.filterMap_map, List.filterMap_map]
    exact curated

/-! ## The other calls -/

end CausalStore

/-- What the other calls leave as it is. -/
structure Frame (s t : CausalStore) : Prop where
  links : t.modelVariables = s.modelVariables
  edges : t.modelEdges = s.modelEdges
  visible : ∀ row ∈ t.causalVariables.rows, isBlank row.id = false
  members : ∀ row ∈ s.causalVariables.rows, ∃ other ∈ t.causalVariables.rows, other.id = row.id
  claims : ∀ row ∈ s.causalClaims.rows, ∃ other ∈ t.causalClaims.rows, other.id = row.id
  models : ∀ row ∈ s.causalModels.rows, ∃ other ∈ t.causalModels.rows, other.id = row.id
  named : ∀ scope, ∀ row ∈ s.causalVariables.rows,
    t.variableName scope row.id = s.variableName scope row.id
  claimed : ∀ scope, ∀ row ∈ s.causalClaims.rows,
    (t.claim scope row.id).map ClaimRow.edge = (s.claim scope row.id).map ClaimRow.edge
  drafted : ∀ row ∈ t.causalModels.rows, ∃ other ∈ s.causalModels.rows, other.id = row.id ∧
    other.scope = row.scope ∧ other.treatmentVariableId = row.treatmentVariableId ∧
    other.outcomeVariableId = row.outcomeVariableId

/-- **A call that leaves the links alone** keeps every model curated. -/
theorem Frame.sound {s t : CausalStore} (frame : Frame s t) (sound : Sound s) : Sound t := by
  have same : ∀ scope id, t.variablesOf scope id = s.variablesOf scope id := by
    intro scope id
    unfold CausalStore.variablesOf
    rw [frame.links]
    refine List.filterMap_congr fun link listed => ?_
    obtain ⟨-, row, inside, ends⟩ := sound.members link (List.mem_filter.mp listed).1
    rw [← ends, frame.named scope row inside]
  have same' : ∀ scope id, t.edgesOf scope id = s.edgesOf scope id := by
    intro scope id
    unfold CausalStore.edgesOf
    rw [frame.edges]
    refine List.filterMap_congr fun link listed => ?_
    obtain ⟨-, row, inside, ends⟩ := sound.claims link (List.mem_filter.mp listed).1
    rw [← ends, frame.claimed scope row inside]
  constructor
  · exact frame.visible
  · intro link listed
    rw [frame.links] at listed
    obtain ⟨⟨row, inside, ends⟩, other, known, ends'⟩ := sound.members link listed
    obtain ⟨row', inside', here⟩ := frame.models row inside
    obtain ⟨other', known', here'⟩ := frame.members other known
    exact ⟨⟨row', inside', here.trans ends⟩, other', known', here'.trans ends'⟩
  · intro link listed
    rw [frame.edges] at listed
    obtain ⟨⟨row, inside, ends⟩, other, known, ends'⟩ := sound.claims link listed
    obtain ⟨row', inside', here⟩ := frame.models row inside
    obtain ⟨other', known', here'⟩ := frame.claims other known
    exact ⟨⟨row', inside', here.trans ends⟩, other', known', here'.trans ends'⟩
  · intro row listed
    obtain ⟨old, inside, id, scope, treatment, outcome⟩ := frame.drafted row listed
    rw [same, same', ← id, ← scope, ← treatment, ← outcome]
    exact sound.models old inside

section Calls

variable {s : CausalStore}

theorem Frame.refl (sound : Sound s) : Frame s s where
  links := rfl
  edges := rfl
  visible := sound.visible
  members := fun row listed => ⟨row, listed, rfl⟩
  claims := fun row listed => ⟨row, listed, rfl⟩
  models := fun row listed => ⟨row, listed, rfl⟩
  named := fun _ _ _ => rfl
  claimed := fun _ _ _ => rfl
  drafted := fun row listed => ⟨row, listed, rfl, rfl, rfl, rfl⟩

/-- A row with a new id answers no query for an old one. -/
theorem find?_concat {ρ : Type} {rows : List ρ} {row : ρ} {p : ρ → Bool} (other : p row = false) :
    (rows ++ [row]).find? p = rows.find? p := by
  rw [List.find?_append, List.find?_singleton, other]
  simp

theorem registerVariable_frame (sound : Sound s) (scope : EvidenceScope)
    (name version definition unit : Text) (kind : VariableKind) (id : Uuid) :
    Frame s (s.registerVariable scope name version definition unit kind id).2 := by
  have same := Frame.refl sound
  unfold CausalStore.registerVariable
  split
  · exact same
  split
  · exact same
  split
  · split
    · exact same
    · exact same
  split
  · exact same
  rename_i stored
  obtain ⟨fresh, whole⟩ := Table.insert_cases stored
  refine { same with visible := ?_, members := ?_, named := ?_ }
  · intro row listed
    dsimp only at listed
    rw [whole] at listed
    rcases List.mem_append.mp listed with before | new
    · exact sound.visible row before
    · rw [List.mem_singleton.mp new]
      exact id.visible
  · intro row listed
    refine ⟨row, ?_, rfl⟩
    dsimp only
    rw [whole]
    exact List.mem_append_left _ listed
  · intro scope row listed
    have differ := fresh row listed
    unfold CausalStore.variableName
    dsimp only
    rw [whole, find?_concat (by simpa using fun ends => absurd ends.symm differ)]

theorem addClaim_frame (sound : Sound s) (scope : EvidenceScope) (causeVariable effectVariable : Text)
    (modality : ClaimModality) (id : Uuid) :
    Frame s (s.addClaim scope causeVariable effectVariable modality id).2 := by
  have same := Frame.refl sound
  unfold CausalStore.addClaim
  split
  · exact same
  split
  · exact same
  rename_i stored
  obtain ⟨fresh, whole⟩ := Table.insert_cases stored
  refine { same with claims := ?_, claimed := ?_ }
  · intro row listed
    refine ⟨row, ?_, rfl⟩
    dsimp only
    rw [whole]
    exact List.mem_append_left _ listed
  · intro scope row listed
    have differ := fresh row listed
    unfold CausalStore.claim
    dsimp only
    rw [whole, find?_concat (by simpa using fun ends => absurd ends.symm differ)]

theorem reviewModelChecked_frame (sound : Sound s) (evidence : Evidence) (scope : EvidenceScope)
    (modelId reviewer : Text) (approve acknowledgeConflicts : Bool)
    (expectedState expectedOppositionDigest : Option Text) :
    Frame s (s.reviewModelChecked evidence scope modelId reviewer approve acknowledgeConflicts
      expectedState expectedOppositionDigest).2 := by
  have same := Frame.refl sound
  unfold CausalStore.reviewModelChecked
  split
  · exact same
  split
  · exact same
  dsimp only
  split
  · exact same
  split
  · exact same
  split
  · exact same
  split
  · exact same
  refine { same with models := ?_, drafted := ?_ }
  · intro row listed
    exact ⟨_, List.mem_map_of_mem listed, keep_ite ModelRow.id rfl⟩
  · intro row listed
    obtain ⟨old, inside, here⟩ := List.mem_map.mp listed
    split at here
    · cases here
      exact ⟨old, inside, rfl, rfl, rfl, rfl⟩
    · cases here
      exact ⟨_, inside, rfl, rfl, rfl, rfl⟩

theorem otherWrites_frame (sound : Sound s) (states : Text → Text)
    (aliases : List (EvidenceScope × Text)) : Frame s (s.otherWrites states aliases) := by
  refine { Frame.refl sound with claims := ?_, claimed := ?_ }
  · intro row listed
    exact ⟨_, List.mem_map_of_mem listed, rfl⟩
  · intro scope row listed
    unfold CausalStore.otherWrites CausalStore.claim Table.update
    dsimp only
    rw [List.find?_map, Option.map_map]
    rfl

end Calls

/-! ## Runs -/

inductive Call where
  | registerVariable (scope : EvidenceScope) (name version definition unit : Text)
      (kind : VariableKind) (id : Uuid)
  | addClaim (scope : EvidenceScope) (causeVariable effectVariable : Text) (modality : ClaimModality)
      (id : Uuid)
  | createModel (order : HashOrder) (scope : EvidenceScope) (draft : ModelDraft) (id : Uuid)
  | reviewModelChecked (evidence : Evidence) (scope : EvidenceScope) (modelId reviewer : Text)
      (approve acknowledgeConflicts : Bool) (expectedState expectedOppositionDigest : Option Text)
  | otherWrites (states : Text → Text) (aliases : List (EvidenceScope × Text))

def CausalStore.after (s : CausalStore) : Call → CausalStore
  | .registerVariable scope name version definition unit kind id =>
    (s.registerVariable scope name version definition unit kind id).2
  | .addClaim scope cause effect modality id => (s.addClaim scope cause effect modality id).2
  | .createModel order scope draft id => (s.createModel order scope draft id).2
  | .reviewModelChecked evidence scope modelId reviewer approve acknowledge state digest =>
    (s.reviewModelChecked evidence scope modelId reviewer approve acknowledge state digest).2
  | .otherWrites states aliases => s.otherWrites states aliases

def CausalStore.empty : CausalStore := ⟨.empty, [], .empty, .empty, [], []⟩

theorem sound_empty : Sound CausalStore.empty where
  visible := List.forall_mem_nil _
  members := List.forall_mem_nil _
  claims := List.forall_mem_nil _
  models := List.forall_mem_nil _

theorem after_sound {s : CausalStore} (sound : Sound s) (call : Call) : Sound (s.after call) := by
  cases call with
  | registerVariable scope name version definition unit kind id =>
    exact (registerVariable_frame sound scope name version definition unit kind id).sound sound
  | addClaim scope cause effect modality id =>
    exact (addClaim_frame sound scope cause effect modality id).sound sound
  | createModel order scope draft id => exact CausalStore.createModel_sound sound order draft id
  | reviewModelChecked evidence scope modelId reviewer approve acknowledge state digest =>
    exact (reviewModelChecked_frame sound evidence scope modelId reviewer approve acknowledge state
      digest).sound sound
  | otherWrites states aliases => exact (otherWrites_frame sound states aliases).sound sound

/-- **Every store of every run**: all its models are curated. -/
theorem run_sound (calls : List Call) : Sound (run CausalStore.after .empty calls) :=
  run_invariant Sound (fun _ call sound _ => after_sound sound call) sound_empty (obeys_true _ calls)

end DuDuClaw.Causal
