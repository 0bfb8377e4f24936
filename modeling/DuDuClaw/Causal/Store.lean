/-
# Causal.Store -- curated models

The tables of causal.rs that say what a model is, and their writers in causal_model.rs.  A model
is drafted from variables and claims; `create_model` takes only drafts whose edges are between
their own variables and close no cycle.  What the evidence tables say is given to a call.

* `modelState`: whether a model may be used.
* `createModel`: what is asked of a draft, and what is stored.
-/
import DuDuClaw.Causal.Separation
import DuDuClaw.Lib.Kahn
import DuDuClaw.Lib.Table

namespace DuDuClaw.Causal

open DuDuClaw.Lib DuDuClaw.Lib.Dag

/-! ## Rows -/

inductive CausalStoreError where
  | invalidInput
  | notFound
  | conflict
  | missingSupport
  | sqlite
  deriving DecidableEq

structure EvidenceScope where
  tenantId : Text
  acl : Text
  deriving DecidableEq

def EvidenceScope.valid (scope : EvidenceScope) : Bool :=
  !isBlank scope.tenantId && !isBlank scope.acl

inductive VariableKind where
  | binary
  | count
  | continuous
  | categorical
  deriving DecidableEq

inductive ClaimModality where
  | asserted
  | speculated
  | negated
  | questioned
  deriving DecidableEq

structure Uuid where
  text : Text
  visible : isBlank text = false

/-- A row of `causal_variables`. -/
structure VariableRow where
  id : Text
  scope : EvidenceScope
  name : Text
  version : Text
  definition : Text
  unit : Text
  valueKind : VariableKind

/-- A row of `causal_claims`. -/
structure ClaimRow where
  id : Text
  scope : EvidenceScope
  causeVariable : Text
  effectVariable : Text
  modality : ClaimModality
  reviewState : Text

def ClaimRow.edge (row : ClaimRow) : Text × Text := (row.causeVariable, row.effectVariable)

/-- A row of `causal_models`. -/
structure ModelRow where
  id : Text
  scope : EvidenceScope
  name : Text
  version : Text
  treatmentVariableId : Text
  outcomeVariableId : Text
  population : Text
  windowStart : Int
  windowEnd : Int
  reviewState : Text
  conflictsAcknowledged : Bool
  acknowledgedOppositionDigest : Text
  deriving DecidableEq

structure ModelDraft where
  name : Text
  version : Text
  treatmentVariableId : Text
  outcomeVariableId : Text
  population : Text
  windowStart : Int
  windowEnd : Int
  variableIds : List Text
  claimIds : List Text

structure CausalStore where
  causalVariables : Table VariableRow.id
  /-- `causal_variable_aliases`. -/
  aliases : List (EvidenceScope × Text)
  causalClaims : Table ClaimRow.id
  causalModels : Table ModelRow.id
  /-- `causal_model_variables`: a model and a variable. -/
  modelVariables : List (Text × Text)
  /-- `causal_model_edges`: a model and a claim. -/
  modelEdges : List (Text × Text)

/-- What the evidence tables say at the time of a call. -/
structure Evidence where
  /-- A span of an active artifact supports the claim. -/
  supported : Text → Bool
  /-- `opposition_fingerprint`: how many active spans oppose a model, and their digest. -/
  opposition : Text → Nat × Text

namespace CausalStore

/-! ## Queries -/

variable (s : CausalStore)

def variableName (scope : EvidenceScope) (id : Text) : Option Text :=
  (s.causalVariables.rows.find? fun row => row.id = id ∧ row.scope = scope).map VariableRow.name

def claim (scope : EvidenceScope) (id : Text) : Option ClaimRow :=
  s.causalClaims.rows.find? fun row => row.id = id ∧ row.scope = scope

def model (scope : EvidenceScope) (id : Text) : Option ModelRow :=
  s.causalModels.rows.find? fun row => row.id = id ∧ row.scope = scope

def variablesOf (scope : EvidenceScope) (modelId : Text) : List (Text × Text) :=
  (s.modelVariables.filter (·.1 = modelId)).filterMap fun link =>
    (s.variableName scope link.2).map (link.2, ·)

def edgesOf (scope : EvidenceScope) (modelId : Text) : List (Text × Text) :=
  (s.modelEdges.filter (·.1 = modelId)).filterMap fun link =>
    (s.claim scope link.2).map ClaimRow.edge

def claimsOf (modelId : Text) : List ClaimRow :=
  (s.modelEdges.filter (·.1 = modelId)).filterMap fun link =>
    s.causalClaims.rows.find? fun row => row.id = link.2

def modelState (evidence : Evidence) (scope : EvidenceScope) (modelId : Text) :
    Except CausalStoreError Text :=
  if !scope.valid then .error .invalidInput
  else
    match s.model scope modelId with
    | none => .error .notFound
    | some row =>
      if row.reviewState ≠ "approved".toList then .ok row.reviewState
      else
        let invalid := (s.claimsOf modelId).countP fun row =>
          row.reviewState ≠ "accepted".toList || !evidence.supported row.id
        let (activeConflicts, activeDigest) := evidence.opposition modelId
        let unreviewedConflicts := 0 < activeConflicts &&
          (!row.conflictsAcknowledged || activeDigest ≠ row.acknowledgedOppositionDigest)
        .ok (if invalid = 0 && !unreviewedConflicts then "approved".toList
          else "needs_review".toList)

end CausalStore

/-! ## Drafts -/

/-- `acyclic`; `none` stands for a loop that does not end. -/
def acyclic (order : HashOrder) (edges : List (Text × Text)) (variableNames : List Text) :
    Option Bool :=
  let indegree := waits edges []
  (drains (targets edges) (variableNames.length + 1) indegree
    ((order.iterate variableNames).filter fun name => indegree name = 0) 0).map
      (· == variableNames.length)

/-- What is wrong with a draft before the store is read. -/
def ModelDraft.refused (draft : ModelDraft) : Bool :=
  [draft.name, draft.version, draft.population, draft.treatmentVariableId,
      draft.outcomeVariableId].any isBlank ||
    draft.windowEnd ≤ draft.windowStart ||
    draft.treatmentVariableId = draft.outcomeVariableId ||
    draft.variableIds.length < 2 || 128 < draft.variableIds.length ||
    draft.claimIds.isEmpty || 256 < draft.claimIds.length ||
    ¬draft.variableIds.Nodup || ¬draft.claimIds.Nodup ||
    !draft.variableIds.contains draft.treatmentVariableId ||
    !draft.variableIds.contains draft.outcomeVariableId

namespace CausalStore

def variableNames (s : CausalStore) (scope : EvidenceScope) :
    List Text → List Text → Except CausalStoreError (List Text)
  | names, [] => .ok names
  | names, id :: ids =>
    match s.variableName scope id with
    | none => .error .notFound
    | some name =>
      if names.contains name then .error .invalidInput
      else s.variableNames scope (names ++ [name]) ids

def draftEdges (s : CausalStore) (scope : EvidenceScope) (names : List Text) :
    List (Text × Text) → List Text → Except CausalStoreError (List (Text × Text))
  | edges, [] => .ok edges
  | edges, id :: ids =>
    match s.claim scope id with
    | none => .error .notFound
    | some row =>
      if row.modality ≠ .asserted || !names.contains row.causeVariable ||
          !names.contains row.effectVariable then .error .invalidInput
      else s.draftEdges scope names (edges ++ [row.edge]) ids

variable (s : CausalStore)

/-- Everything `create_model` asks of a draft. -/
def checkDraft (order : HashOrder) (scope : EvidenceScope) (draft : ModelDraft) :
    Except CausalStoreError Unit := do
  if !scope.valid || draft.refused then throw .invalidInput
  let names ← s.variableNames scope [] draft.variableIds
  let edges ← s.draftEdges scope names [] draft.claimIds
  if acyclic order edges names ≠ some true then throw .invalidInput

def draftRow (scope : EvidenceScope) (draft : ModelDraft) (id : Uuid) : ModelRow :=
  ⟨id.text, scope, draft.name, draft.version, draft.treatmentVariableId, draft.outcomeVariableId,
    draft.population, draft.windowStart, draft.windowEnd, "draft".toList, false, []⟩

/-- INSERT, with UNIQUE(tenant_id, acl, name, version). -/
def insertModel (row : ModelRow) : Option (Table ModelRow.id) :=
  if s.causalModels.rows.any fun other =>
      other.scope = row.scope ∧ other.name = row.name ∧ other.version = row.version then none
  else s.causalModels.insert row

def createModel (order : HashOrder) (scope : EvidenceScope) (draft : ModelDraft)
    (id : Uuid) : Except CausalStoreError ModelRow × CausalStore :=
  match s.checkDraft order scope draft with
  | .error e => (.error e, s)
  | .ok () =>
    match s.insertModel (draftRow scope draft id) with
    | none => (.error .sqlite, s)
    | some rows =>
      (.ok (draftRow scope draft id),
        { s with
          causalModels := rows
          modelVariables := s.modelVariables ++ draft.variableIds.map (id.text, ·)
          modelEdges := s.modelEdges ++ draft.claimIds.map (id.text, ·) })

/-! ## The other writers -/

/-- `register_variable`; the new row takes this id. -/
def registerVariable (scope : EvidenceScope) (name version definition unit : Text)
    (kind : VariableKind) (id : Uuid) : Except CausalStoreError Text × CausalStore :=
  if !scope.valid || [name, version, definition, unit].any isBlank then (.error .invalidInput, s)
  else if s.aliases.contains (scope, name) then (.error .invalidInput, s)
  else
    match s.causalVariables.rows.find? fun row =>
        row.scope = scope ∧ row.name = name ∧ row.version = version with
    | some old =>
      if old.definition ≠ definition || old.unit ≠ unit || old.valueKind ≠ kind then
        (.error .invalidInput, s)
      else (.ok old.id, s)
    | none =>
      match s.causalVariables.insert ⟨id.text, scope, name, version, definition, unit, kind⟩ with
      | none => (.error .sqlite, s)
      | some rows => (.ok id.text, { s with causalVariables := rows })

def addClaim (scope : EvidenceScope) (causeVariable effectVariable : Text)
    (modality : ClaimModality) (id : Uuid) : Except CausalStoreError Text × CausalStore :=
  if !scope.valid || isBlank causeVariable || isBlank effectVariable ||
      causeVariable = effectVariable then (.error .invalidInput, s)
  else
    match s.causalClaims.insert
        ⟨id.text, scope, causeVariable, effectVariable, modality, "candidate".toList⟩ with
    | none => (.error .sqlite, s)
    | some rows => (.ok id.text, { s with causalClaims := rows })

def reviewModelChecked (evidence : Evidence) (scope : EvidenceScope)
    (modelId reviewer : Text) (approve acknowledgeConflicts : Bool) (expectedState : Option Text)
    (expectedOppositionDigest : Option Text) : Except CausalStoreError Unit × CausalStore :=
  if !scope.valid || isBlank reviewer then (.error .invalidInput, s)
  else
    match s.model scope modelId with
    | none => (.error .notFound, s)
    | some row =>
      let (conflicts, fingerprint) := evidence.opposition modelId
      if expectedState.any (· ≠ row.reviewState) then (.error .conflict, s)
      else if expectedOppositionDigest.any (· ≠ fingerprint) then (.error .conflict, s)
      else if approve && (s.claimsOf modelId).any fun row =>
          row.reviewState ≠ "accepted".toList || row.modality ≠ .asserted ||
            !evidence.supported row.id then (.error .missingSupport, s)
      else if approve && 0 < conflicts && !acknowledgeConflicts then (.error .invalidInput, s)
      else
        (.ok (),
          { s with
            causalModels := s.causalModels.update (fun other =>
                if other.id = modelId ∧ other.scope = scope then
                  { other with
                    reviewState := if approve then "approved".toList else "rejected".toList
                    conflictsAcknowledged := acknowledgeConflicts
                    acknowledgedOppositionDigest := if approve then fingerprint else [] }
                else other)
              fun _ => keep_ite ModelRow.id rfl })

/-- What other operations write to these tables: the review state of claims, and the aliases. -/
def otherWrites (states : Text → Text) (aliases : List (EvidenceScope × Text)) :
    CausalStore :=
  { s with
    aliases := aliases
    causalClaims := s.causalClaims.update (fun row => { row with reviewState := states row.id }) fun _ => rfl }

end CausalStore

end DuDuClaw.Causal
