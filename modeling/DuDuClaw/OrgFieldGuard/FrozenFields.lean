/-
# OrgFieldGuard.FrozenFields -- which changes to a protected file are refused

`check_protected_toml_write_as` (org_field_guard/mod.rs) with the table of frozen fields
(rules.rs) and the comparison of each of its rows (matcher.rs).  The TOML parser and its
printer are parameters.

* `frozenFields`: the table.
* `diffFrozen`: what one row finds changed.
* `checkProtectedTomlWriteAs`: the decision.
-/
import Mathlib.Data.List.Sort
import DuDuClaw.Lib.TomlValue
import DuDuClaw.OrgFieldGuard.Lanes

namespace DuDuClaw.OrgFieldGuard

open DuDuClaw.Lib

abbrev Text := List Char

/-- `toml::Table`, as it was parsed. -/
structure Document where
  entries : TomlEntries
  ordered : (TomlValue.table entries).AllOrdered

/-- The `toml` crate: a text is a document or has an error, and a value has a text. -/
structure TomlCrate where
  parse : Text → Except Text Document
  display : TomlValue → Text

/-! ## The table -/

def agentOrgFields : List Text := ["reports_to", "department", "name"].map String.toList

def agentSection : Text := "agent".toList

def agentCapabilitySection : Text := "capabilities".toList

def agentEditableSections : List Text :=
  ["agent", "model", "prompt", "heartbeat", "proactive", "research", "goal_intent", "memory",
    "skills", "sticker", "cultural_context", "preset", "planner"].map String.toList

def agentSecurityKeys : List (Text × List Text) :=
  [("agent".toList, ["role".toList]), ("prompt".toList, ["cli_bare_mode".toList]),
    ("model".toList, ["account_pool".toList])]

def configProtectedSections : List Text := ["delegation", "acp"].map String.toList

inductive ProtectedTomlKind where
  | agentToml
  | homeConfigToml
  deriving DecidableEq

def agentTomlName : Text := "agent.toml".toList

def ProtectedTomlKind.fileName : ProtectedTomlKind → Text
  | agentToml => agentTomlName
  | homeConfigToml => configName

/-- How a row is compared. -/
inductive FrozenShape where
  | stringKeys (section_ : Text) (keys : List Text)
  | tableKeys (section_ : Text)
  | wholeSection (section_ : Text)
  | valueKeys (section_ : Text) (keys : List Text)
  | allSectionsExcept (editable : List Text)

inductive FrozenVerdict where
  | orgField
  | protectedField
  | protectedSection
  | agentSecuritySection
  deriving DecidableEq

inductive FrozenCallers where
  | everyone
  | agentsOnly
  deriving DecidableEq

structure FrozenField where
  kind : ProtectedTomlKind
  shape : FrozenShape
  verdict : FrozenVerdict
  callers : FrozenCallers

def frozenFields : List FrozenField :=
  [⟨.agentToml, .stringKeys agentSection agentOrgFields, .orgField, .everyone⟩,
    ⟨.agentToml, .tableKeys agentCapabilitySection, .protectedField, .everyone⟩] ++
  configProtectedSections.map (fun name =>
    ⟨.homeConfigToml, .wholeSection name, .protectedSection, .everyone⟩) ++
  [⟨.agentToml, .allSectionsExcept agentEditableSections, .agentSecuritySection, .agentsOnly⟩] ++
  agentSecurityKeys.map (fun (name, keys) =>
    ⟨.agentToml, .valueKeys name keys, .agentSecuritySection, .agentsOnly⟩)

def frozenForCaller (kind : ProtectedTomlKind) (agentCaller : Bool) : List FrozenField :=
  frozenFields.filter fun f => f.kind == kind && (agentCaller || f.callers == .everyone)

/-! ## Comparing -/

namespace Document

/-- `table.get(name)`. -/
def get (doc : Document) (name : Text) : Option TomlValue := doc.entries.lookup name

def tableValue (doc : Document) (section_ key : Text) : Option TomlValue :=
  ((doc.get section_).bind TomlValue.asTable).bind fun entries => entries.lookup key

/-- `string_field`: anything but a string reads as empty. -/
def stringField (doc : Document) (section_ field : Text) : Text :=
  ((doc.tableValue section_ field).bind TomlValue.asStr).getD []

/-- `section_table`: absent reads as empty, anything but a table as `none`. -/
def sectionTable (doc : Document) (section_ : Text) : Option TomlEntries :=
  match doc.get section_ with
  | none => some []
  | some v => v.asTable

end Document

def truncateChars (s : Text) (maxChars : Nat) : Text := s.take maxChars

variable (toml : TomlCrate)

def describeSection : Option TomlValue → Text
  | none => "（不存在）".toList
  | some v =>
    truncateChars ((toml.display v).map fun c => if c = '\n' then ' ' else c) 80

def firstLine (s : Text) : Text :=
  let line := s.takeWhile (· != '\n')
  let line := if s.contains '\n' && line.getLast? == some '\r' then line.dropLast else line
  truncateChars line 120

def unionKeys (before after : TomlEntries) : List Text :=
  let old := before.map Prod.fst
  (old ++ (after.map Prod.fst).filter fun key => !old.contains key).insertionSort (· ≤ ·)

def changed (name : Text) (before after : Option TomlValue) : Option Text :=
  if TomlValue.eqOption before after then none
  else some (name ++ "：".toList ++ describeSection toml before ++ " → ".toList ++
    describeSection toml after)

/-- `section.key`. -/
def dotted (section_ key : Text) : Text := section_ ++ '.' :: key

/-- `[section]`. -/
def bracketed (section_ : Text) : Text := '[' :: section_ ++ [']']

def diffTableKeys (section_ : Text) (old new : Document) : List Text :=
  match old.sectionTable section_, new.sectionTable section_ with
  | some before, some after =>
    (unionKeys before after).filterMap fun key =>
      changed toml (dotted section_ key) (before.lookup key) (after.lookup key)
  | _, _ => (changed toml (bracketed section_) (old.get section_) (new.get section_)).toList

def diffFrozen (shape : FrozenShape) (old new : Document) : List Text :=
  match shape with
  | .stringKeys section_ keys =>
    keys.filterMap fun field =>
      let before := old.stringField section_ field
      let after := new.stringField section_ field
      if before = after then none
      else some (field ++ "：「".toList ++ before ++ "」→「".toList ++ after ++ "」".toList)
  | .tableKeys section_ => diffTableKeys toml section_ old new
  | .allSectionsExcept editable =>
    ((unionKeys old.entries new.entries).filter fun key => !editable.contains key).flatMap
      fun key => diffTableKeys toml key old new
  | .valueKeys section_ keys =>
    keys.filterMap fun key =>
      changed toml (dotted section_ key) (old.tableValue section_ key) (new.tableValue section_ key)
  | .wholeSection section_ =>
    (changed toml (bracketed section_) (old.get section_) (new.get section_)).toList

/-! ## The decision -/

def fileName (p : Path) : Option Text :=
  match p.getLast? with
  | some (.normal name) => some name
  | _ => none

def classifyProtectedToml (filePath home : Path) : Option ProtectedTomlKind :=
  let normalized := filePath.lexicalNormalize
  match fileName filePath with
  | none => none
  | some name =>
    if name = agentTomlName then
      match componentsAfterCi normalized (Path.lexicalNormalize (home ++ [.normal agentsDir])) with
      | none => none
      | some rest =>
        if rest.length = 2 then some .agentToml
        else if rest.length = 3 && rest.head?.any (eqIgnoreAsciiCase · ephemeralDirName) then
          some .agentToml
        else none
    else if name = configName then
      if (componentsAfterCi normalized (Path.lexicalNormalize (home ++ [.normal configName]))).any
          List.isEmpty then some .homeConfigToml
      else none
    else none

/-- `GuardDecision`, of this check. -/
inductive TomlDecision where
  | notAgentFile
  | allowedAgentWrite
  | blockedUnverifiable (fileName : Text) (attemptedPath : Path) (reason : Text)
  | blockedOrgFieldChange (fileName : Text) (attemptedPath : Path) (changed : List Text)
  | blockedProtectedField (fileName : Text) (attemptedPath : Path) (changed : List Text)
  | blockedProtectedSection (fileName : Text) (attemptedPath : Path) (changed : List Text)
  | blockedAgentSecuritySection (fileName : Text) (attemptedPath : Path) (changed : List Text)
  deriving DecidableEq

def FrozenVerdict.decision (verdict : FrozenVerdict) (fileName : Text) (attemptedPath : Path)
    (changed : List Text) : TomlDecision :=
  match verdict with
  | orgField => .blockedOrgFieldChange fileName attemptedPath changed
  | protectedField => .blockedProtectedField fileName attemptedPath changed
  | protectedSection => .blockedProtectedSection fileName attemptedPath changed
  | agentSecuritySection => .blockedAgentSecuritySection fileName attemptedPath changed

abbrev VerdictGroup := FrozenVerdict × List Text

/-- Changes of one more row; they join the last group if the verdict is the same. -/
def pushGroup (groups : List VerdictGroup) (verdict : FrozenVerdict) (changed : List Text) :
    List VerdictGroup :=
  match groups.getLast? with
  | some (last, acc) =>
    if last = verdict then groups.dropLast ++ [(last, acc ++ changed)]
    else groups ++ [(verdict, changed)]
  | none => groups ++ [(verdict, changed)]

def verdictGroups (kind : ProtectedTomlKind) (agentCaller : Bool)
    (old new : Document) : List VerdictGroup :=
  (frozenForCaller kind agentCaller).foldl
    (fun groups entry => pushGroup groups entry.verdict (diffFrozen toml entry.shape old new)) []

def protectedTomlWrite (filePath home : Path) (agentCaller : Bool)
    (existing : Option Text) (newContent : Text) : TomlDecision :=
  match classifyProtectedToml filePath home with
  | none => .notAgentFile
  | some kind =>
    let attemptedPath := filePath.lexicalNormalize
    match toml.parse newContent with
    | .error e =>
      .blockedUnverifiable kind.fileName attemptedPath
        ("寫入內容不是合法的 TOML：".toList ++ firstLine e)
    | .ok newTable =>
      match existing with
      | none => .allowedAgentWrite
      | some existing =>
        match toml.parse existing with
        | .error e =>
          .blockedUnverifiable kind.fileName attemptedPath
            ("現有檔案不是合法的 TOML，無法比對受保護欄位：".toList ++ firstLine e)
        | .ok oldTable =>
          match (verdictGroups toml kind agentCaller oldTable newTable).find?
              fun group => !group.2.isEmpty with
          | some (verdict, changed) => verdict.decision kind.fileName attemptedPath changed
          | none => .allowedAgentWrite

/-- `check_protected_toml_write_as`; `HookCaller::Absent` is `none`. -/
def checkProtectedTomlWriteAs (filePath home : Path) (caller : Option HookCaller)
    (existing : Option Text) (newContent : Text) : TomlDecision :=
  protectedTomlWrite toml filePath home caller.isSome existing newContent

end DuDuClaw.OrgFieldGuard
