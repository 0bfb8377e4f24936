/-
# Memory.Plan -- forget plans and their hash

The plan document of engine/forget_source.rs: what an operator asked to forget,
frozen, and the body that lists every row that would go.  A plan is stored with the
hash of its canonical JSON, in which the counts that are only shown are zero.

Plans for a connector (`connector_ref`) are not modelled.

* `planHash_targets`: with an injective SHA-256, two documents of one hash list the
  same targets and the same archived rows.
-/
import Mathlib.Algebra.GroupWithZero.Nat
import DuDuClaw.Lib.Chars
import DuDuClaw.Lib.Json
import DuDuClaw.Lib.OrdMap

namespace DuDuClaw.Memory

open DuDuClaw.Lib

abbrev Text := List Char

abbrev Id := Text

/-- Rust orders strings by their bytes, which for UTF-8 is the order of code points. -/
def textLt (a b : Text) : Bool := decide (a < b)

/-- `s.len()`. -/
def byteLength (s : Text) : Nat := (s.map Char.utf8Size).sum

/-- `char::is_control`: the Unicode category `Cc`. -/
def isControl (c : Char) : Bool := c.toNat < 0x20 || (0x7F ≤ c.toNat && c.toNat < 0xA0)

/-- What the code takes from libraries: SHA-256, the clock's two formats, SQLite's and
serde's reading of JSON columns, and Unicode lower case. -/
structure Env where
  sha256Hex : Text → Text
  /-- `format_ts`, of microseconds since the epoch. -/
  formatTs : Int → Text
  /-- `to_rfc3339`. -/
  toRfc3339 : Int → Text
  parseRfc3339 : Text → Option Int
  /-- `json_extract(metadata, '$.session_id')`, where `json_valid(metadata)`. -/
  metadataSessionId : Text → Option Text
  /-- `json_extract(metadata, '$.source_ids')`, where it is an array. -/
  metadataSourceIds : Text → Option Text
  /-- `serde_json::from_str::<Vec<String>>`, or no ids. -/
  parseIds : Text → List Id
  /-- `json_set(metadata, '$.lineage_chain_cut', marker)`, where `json_valid(metadata)`. -/
  setChainCut : Text → (now planId : Text) → Text
  toLowercase : Text → Text

/-- `source_digest`: the first 16 bytes, in hex. -/
def sourceDigest (env : Env) (agentId session message upto : Text) : Text :=
  (env.sha256Hex (agentId ++ '|' :: session ++ '|' :: message ++ '|' :: upto)).take 32

/-! ## Selectors -/

/-- `memory_store`. -/
inductive StoreName where
  | memories
  | keyFacts
  deriving DecidableEq

def StoreName.asStr : StoreName → String
  | .memories => "memories"
  | .keyFacts => "key_facts"

/-- `scope` of a tombstone. -/
inductive Scope where
  | message
  | sessionUpto
  deriving DecidableEq

def Scope.asStr : Scope → String
  | .message => "message"
  | .sessionUpto => "session_upto"

structure ForgetSelector where
  session : Text
  messages : List Text
  uptoSeq : Option Int
  uptoTime : Option Int

structure FrozenSelector where
  session : Text
  messages : List Text
  uptoSeq : Option Int
  uptoTime : Option Text

structure WikiPageRef where
  path : Text
  fileSha256 : Text
  deriving DecidableEq

structure SessionMessageRef where
  sessionDigest : Text
  seq : Int
  deriving DecidableEq

structure ExternalInputs where
  wikiPages : List WikiPageRef
  reviewCardsMatching : Nat
  sessionMessages : List SessionMessageRef

def WikiPageRef.lt (a b : WikiPageRef) : Bool :=
  textLt a.path b.path || (a.path == b.path && textLt a.fileSha256 b.fileSha256)

def SessionMessageRef.lt (a b : SessionMessageRef) : Bool :=
  textLt a.sessionDigest b.sessionDigest || (a.sessionDigest == b.sessionDigest && a.seq < b.seq)

/-- `ExternalInputs::canonical`: sorted, without duplicates. -/
def ExternalInputs.canonical (inputs : ExternalInputs) : ExternalInputs where
  wikiPages := toSet WikiPageRef.lt inputs.wikiPages
  reviewCardsMatching := inputs.reviewCardsMatching
  sessionMessages := toSet SessionMessageRef.lt inputs.sessionMessages

/-! ## The document -/

structure TombstoneEntry where
  scope : Scope
  digest : Text
  deriving DecidableEq

/-- How a target was found. -/
inductive Via where
  | origins
  | derivedFrom
  | sourceIds
  | keyFactsSourceSession
  | metadataSessionId
  deriving DecidableEq

def Via.asStr : Via → String
  | .origins => "origins"
  | .derivedFrom => "derived_from"
  | .sourceIds => "source_ids"
  | .keyFactsSourceSession => "key_facts.source_session"
  | .metadataSessionId => "metadata.session_id"

structure TargetEntry where
  store : StoreName
  id : Id
  contentSha256 : Text
  layer : Text
  predicate : Option Text
  matched : List Text
  otherSources : List Text
  via : Via
  direct : Bool
  deriving DecidableEq

structure ReaffirmOnlyEntry where
  store : StoreName
  id : Id
  removedSources : List Text
  deriving DecidableEq

structure CollateralEntry where
  sourceDigest : Text
  rowsLost : Nat
  deriving DecidableEq

/-- `Cut` and `CutEntry`: a pointer to a deleted row that is cleared; `predecessor`
for `superseded_by`, otherwise `supersedes`. -/
structure Cut where
  deleted : Id
  other : Id
  predecessor : Bool
  deriving DecidableEq

inductive Step where
  | wikiPageDelete
  | reviewScrub
  | sessionHide
  | sessionSummaryClear
  deriving DecidableEq

def Step.asStr : Step → String
  | .wikiPageDelete => "wiki_page_delete"
  | .reviewScrub => "review_scrub"
  | .sessionHide => "session_hide"
  | .sessionSummaryClear => "session_summary_clear"

structure StepEntry where
  step : Step
  target : Text
  deriving DecidableEq

structure PlanBody where
  systemRows : Nat
  retainedShared : Nat
  tombstones : List TombstoneEntry
  targets : List TargetEntry
  reaffirmOnly : List ReaffirmOnlyEntry
  archiveIds : List Id
  lineageOnly : List (StoreName × Id)
  collateral : List CollateralEntry
  supersessionCuts : List Cut
  entityEmbeddingsOrphaned : Nat
  orphanEntityIds : List Text
  untrackedInNamespace : Nat
  otherNamespacesReferencing : Nat
  linkedTurns : List Text
  wikiPages : List WikiPageRef
  reviewCardsMatching : Nat
  sessionMessages : List SessionMessageRef
  steps : List StepEntry
  notCovered : List Text

structure PlanDocument where
  schema : Text
  planId : Id
  dbInstanceId : Text
  agentId : Text
  createdAt : Text
  expiresAt : Text
  forgetEpoch : Int
  selector : FrozenSelector
  maxRows : Nat
  body : PlanBody

/-! ## Canonical JSON -/

def field (name : String) (value : Json) : Text × Json := (name.toList, value)

def jsonNat (n : Nat) : Json := .num n

def jsonTexts (items : List Text) : Json := .arr (items.map .str)

def jsonOption {α : Type} (toJson : α → Json) : Option α → Json
  | none => .null
  | some value => toJson value

def FrozenSelector.toJson (sel : FrozenSelector) : Json :=
  .obj
    [ field "session" (.str sel.session),
      field "messages" (jsonTexts sel.messages),
      field "upto_seq" (jsonOption .num sel.uptoSeq),
      field "upto_time" (jsonOption .str sel.uptoTime) ]

def TombstoneEntry.toJson (entry : TombstoneEntry) : Json :=
  .obj [field "scope" (.str entry.scope.asStr.toList), field "digest" (.str entry.digest)]

def TargetEntry.toJson (entry : TargetEntry) : Json :=
  .obj
    [ field "store" (.str entry.store.asStr.toList),
      field "id" (.str entry.id),
      field "content_sha256" (.str entry.contentSha256),
      field "layer" (.str entry.layer),
      field "predicate" (jsonOption .str entry.predicate),
      field "matched" (jsonTexts entry.matched),
      field "other_sources" (jsonTexts entry.otherSources),
      field "via" (.str entry.via.asStr.toList),
      field "direct" (.bool entry.direct) ]

def ReaffirmOnlyEntry.toJson (entry : ReaffirmOnlyEntry) : Json :=
  .obj
    [ field "store" (.str entry.store.asStr.toList),
      field "id" (.str entry.id),
      field "removed_sources" (jsonTexts entry.removedSources) ]

def storeIdToJson (entry : StoreName × Id) : Json :=
  .obj [field "store" (.str entry.1.asStr.toList), field "id" (.str entry.2)]

def CollateralEntry.toJson (entry : CollateralEntry) : Json :=
  .obj
    [ field "source_digest" (.str entry.sourceDigest),
      field "rows_lost" (jsonNat entry.rowsLost) ]

def Cut.toJson (cut : Cut) : Json :=
  .obj
    [ field "deleted" (.str cut.deleted),
      field "other" (.str cut.other),
      field "relation" (.str (if cut.predecessor then "predecessor" else "successor").toList),
      field "action" (.str (if cut.predecessor then "leave_closed" else "clear_pointer").toList) ]

def WikiPageRef.toJson (page : WikiPageRef) : Json :=
  .obj [field "path" (.str page.path), field "file_sha256" (.str page.fileSha256)]

def SessionMessageRef.toJson (message : SessionMessageRef) : Json :=
  .obj [field "session_digest" (.str message.sessionDigest), field "seq" (.num message.seq)]

def StepEntry.toJson (entry : StepEntry) : Json :=
  .obj [field "step" (.str entry.step.asStr.toList), field "target" (.str entry.target)]

/-- The fields of the body; three of them are left out when they are zero or empty. -/
def PlanBody.fields (body : PlanBody) : List (Text × Json) :=
  (if body.systemRows = 0 then [] else [field "system_rows" (jsonNat body.systemRows)]) ++
  (if body.retainedShared = 0 then []
    else [field "retained_shared" (jsonNat body.retainedShared)]) ++
  [ field "tombstones" (.arr (body.tombstones.map TombstoneEntry.toJson)),
    field "targets" (.arr (body.targets.map TargetEntry.toJson)),
    field "reaffirm_only" (.arr (body.reaffirmOnly.map ReaffirmOnlyEntry.toJson)),
    field "archive_ids" (jsonTexts body.archiveIds),
    field "lineage_only" (.arr (body.lineageOnly.map storeIdToJson)),
    field "collateral" (.arr (body.collateral.map CollateralEntry.toJson)),
    field "supersession_cuts" (.arr (body.supersessionCuts.map Cut.toJson)),
    field "entity_embeddings_orphaned" (jsonNat body.entityEmbeddingsOrphaned) ] ++
  (if body.orphanEntityIds = [] then []
    else [field "orphan_entity_ids" (jsonTexts body.orphanEntityIds)]) ++
  [ field "untracked_in_namespace" (jsonNat body.untrackedInNamespace),
    field "other_namespaces_referencing" (jsonNat body.otherNamespacesReferencing),
    field "linked_turns" (jsonTexts body.linkedTurns),
    field "wiki_pages" (.arr (body.wikiPages.map WikiPageRef.toJson)),
    field "review_cards_matching" (jsonNat body.reviewCardsMatching),
    field "session_messages" (.arr (body.sessionMessages.map SessionMessageRef.toJson)),
    field "steps" (.arr (body.steps.map StepEntry.toJson)),
    field "not_covered" (jsonTexts body.notCovered) ]

def PlanDocument.fields (doc : PlanDocument) : List (Text × Json) :=
  [ field "schema" (.str doc.schema),
    field "plan_id" (.str doc.planId),
    field "db_instance_id" (.str doc.dbInstanceId),
    field "agent_id" (.str doc.agentId),
    field "created_at" (.str doc.createdAt),
    field "expires_at" (.str doc.expiresAt),
    field "forget_epoch" (.num doc.forgetEpoch),
    field "selector" doc.selector.toJson,
    field "limits" (.obj [field "max_rows" (jsonNat doc.maxRows)]) ] ++ doc.body.fields

variable (doc : PlanDocument)

def PlanDocument.canonicalJson : Text := (JsonOf.obj doc.fields).canonical

/-- The document `plan_hash` is taken of: the informational counts are zero. -/
def PlanDocument.hashed : PlanDocument :=
  { doc with
    body :=
      { doc.body with
        untrackedInNamespace := 0
        systemRows := 0
        retainedShared := 0
        otherNamespacesReferencing := 0 } }

def PlanDocument.planHash (env : Env) (doc : PlanDocument) : Text :=
  env.sha256Hex doc.hashed.canonicalJson

/-! ## What the hash determines -/

theorem StoreName.asStr_injective : Function.Injective StoreName.asStr := by
  intro a b same
  cases a <;> cases b <;> first | rfl | exact absurd same (by decide)

theorem canonicalTexts_injective {xs ys : List Text}
    (same : (jsonTexts xs).canonical = (jsonTexts ys).canonical) : xs = ys := by
  have items := JsonOf.canonical_arr same
  rw [List.map_map, List.map_map] at items
  exact List.map_injective_iff.mpr (fun _ _ => JsonOf.canonical_str) items

/-- A target's text names its store and its id. -/
theorem TargetEntry.canonical_key {a b : TargetEntry}
    (same : a.toJson.canonical = b.toJson.canonical) : a.store = b.store ∧ a.id = b.id := by
  have stores : (JsonOf.str a.store.asStr.toList).canonical =
      (JsonOf.str b.store.asStr.toList).canonical :=
    JsonOf.canonical_obj same "store".toList (by simp [field]) (by simp [field])
  have ids : (JsonOf.str a.id).canonical = (JsonOf.str b.id).canonical :=
    JsonOf.canonical_obj same "id".toList (by simp [field]) (by simp [field])
  refine ⟨StoreName.asStr_injective (String.toList_injective (JsonOf.canonical_str stores)), ?_⟩
  exact JsonOf.canonical_str ids

theorem canonicalTargets_keys {xs ys : List TargetEntry}
    (same : (JsonOf.arr (xs.map TargetEntry.toJson)).canonical =
      (JsonOf.arr (ys.map TargetEntry.toJson)).canonical) :
    xs.map (fun t => (t.store, t.id)) = ys.map fun t => (t.store, t.id) := by
  have items := JsonOf.canonical_arr same
  rw [List.map_map, List.map_map] at items
  induction xs generalizing ys with
  | nil =>
    cases ys with
    | nil => rfl
    | cons y ys => cases items
  | cons x xs ih =>
    cases ys with
    | nil => cases items
    | cons y ys =>
      obtain ⟨first, rest⟩ := List.cons.inj items
      obtain ⟨stores, ids⟩ := TargetEntry.canonical_key first
      rw [List.map_cons, List.map_cons, stores, ids, ih ?_ rest]
      simp only [JsonOf.canonical, JsonOf.canonicalItems_eq, List.map_map, rest]

theorem mem_fields_targets (value : Json) : ("targets".toList, value) ∈ doc.fields ↔
      value = .arr (doc.body.targets.map TargetEntry.toJson) := by
  simp [PlanDocument.fields, PlanBody.fields, field]

theorem mem_fields_archiveIds (value : Json) :
    ("archive_ids".toList, value) ∈ doc.fields ↔ value = jsonTexts doc.body.archiveIds := by
  simp [PlanDocument.fields, PlanBody.fields, field]

/-- **The hash determines what goes.** -/
theorem planHash_targets {env : Env} (injective : Function.Injective env.sha256Hex)
    {a b : PlanDocument} (same : a.planHash env = b.planHash env) :
    a.body.targets.map (fun t => (t.store, t.id)) = b.body.targets.map (fun t => (t.store, t.id)) ∧
      a.body.archiveIds = b.body.archiveIds := by
  have texts : a.hashed.canonicalJson = b.hashed.canonicalJson := injective same
  have targets := JsonOf.canonical_obj texts "targets".toList
    ((mem_fields_targets a.hashed _).mpr rfl) fun w => (mem_fields_targets b.hashed w).mp
  have archived := JsonOf.canonical_obj texts "archive_ids".toList
    ((mem_fields_archiveIds a.hashed _).mpr rfl) fun w => (mem_fields_archiveIds b.hashed w).mp
  exact ⟨canonicalTargets_keys targets, canonicalTexts_injective archived⟩

end DuDuClaw.Memory
