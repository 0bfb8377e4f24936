/-
# OrgFieldGuard.TomlFreeze -- the freeze of a protected file is exact but for NaN

What a row of the table finds changed is nothing exactly when what it protects is the same in
both documents and holds no float that is not a number: `toml` compares such a float as
different from itself, so a document that holds one where it is protected can never be written
again, not even as it is.

* `diffTableKeys_nil_iff`, `changed_none_iff`: the comparisons, one by one.
* `agentToml_allowed_iff`, `homeConfig_allowed_iff`: what an allowed write leaves as it was.
* `agentToml_freeze`: the freeze of `agent.toml` is exact if and only if no NaN is where the two
  documents agree in everything protected.
* `nan_refused`: a write that changes nothing and is refused.
-/
import DuDuClaw.OrgFieldGuard.FrozenFields

namespace DuDuClaw.OrgFieldGuard

open DuDuClaw.Lib

/-! ## What is to be the same -/

def Document.section (doc : Document) (name : Text) : TomlValue := (doc.get name).getD (.table [])

/-- Equal values: the zeros are one number, and what is not a number is like itself. -/
def SameValue (v w : TomlValue) : Prop := v.normal = w.normal

/-- Equal values, or both absent. -/
def SameOption (v w : Option TomlValue) : Prop := v.map TomlValue.normal = w.map TomlValue.normal

/-- What everyone has to leave as it is, and an agent, in `agent.toml`. -/
def SameProtected (agentCaller : Bool) (old new : Document) : Prop :=
  (∀ field ∈ agentOrgFields,
    old.stringField agentSection field = new.stringField agentSection field) ∧
  if agentCaller then
    (∀ name, name ∉ agentEditableSections → SameValue (old.section name) (new.section name)) ∧
      ∀ row ∈ agentSecurityKeys, ∀ key ∈ row.2,
        SameOption (old.tableValue row.1 key) (new.tableValue row.1 key)
  else SameValue (old.section agentCapabilitySection) (new.section agentCapabilitySection)

/-- Every float among the protected values is a number. -/
def NumericProtected (agentCaller : Bool) (doc : Document) : Prop :=
  if agentCaller then
    (∀ name, name ∉ agentEditableSections → (doc.section name).numeric = true) ∧
      ∀ row ∈ agentSecurityKeys, ∀ key ∈ row.2, ∀ v ∈ doc.tableValue row.1 key, v.numeric = true
  else (doc.section agentCapabilitySection).numeric = true

/-! ## One comparison -/

section Compare

variable {toml : TomlCrate} {old new : Document}

variable {name : Text} {doc : Document}

variable {before after : Option TomlValue} {entries : TomlEntries} {key : Text} {v : TomlValue}

theorem changed_none_iff :
    changed toml name before after = none ↔ (∀ v ∈ before, v.numeric = true) ∧ SameOption before after := by
  rw [SameOption, ← TomlValue.eqOption_iff, changed]
  split
  · rename_i same
    exact iff_of_true rfl same
  · rename_i differ
    exact iff_of_false (Option.some_ne_none _) differ

theorem changed_toList_nil_iff : (changed toml name before after).toList = [] ↔
      (∀ v ∈ before, v.numeric = true) ∧ SameOption before after := by
  rw [← @changed_none_iff toml name before after]
  cases changed toml name before after <;> simp

theorem isSome_lookup_iff : key ∈ entries.map Prod.fst ↔ (entries.lookup key).isSome := by
  rw [List.lookup_isSome_iff, List.mem_map]
  refine exists_congr fun entry => and_congr_right fun _ => ?_
  rw [beq_iff_eq]
  exact eq_comm

theorem mem_unionKeys {before after : TomlEntries} :
    key ∈ unionKeys before after ↔ (before.lookup key).isSome ∨ (after.lookup key).isSome := by
  have known : ∀ entries : TomlEntries, key ∈ entries.map Prod.fst ↔ (entries.lookup key).isSome :=
    fun _ => isSome_lookup_iff
  rw [unionKeys, List.mem_insertionSort, List.mem_append, List.mem_filter, known, known]
  by_cases here : (before.lookup key).isSome
  · simp [here]
  · simp [here, (known before).not.mpr here]

theorem sectionTable_of_absent (absent : doc.get name = none) :
    doc.sectionTable name = some [] ∧ doc.section name = .table [] := by
  rw [Document.sectionTable, Document.section, absent]
  exact ⟨rfl, rfl⟩

theorem sectionTable_of_found (found : doc.get name = some v) :
    doc.sectionTable name = v.asTable ∧ doc.section name = v := by
  rw [Document.sectionTable, Document.section, found]
  exact ⟨rfl, rfl⟩

theorem section_of_table (read : doc.sectionTable name = some entries) :
    doc.section name = .table entries ∧ TomlValue.Ordered entries := by
  cases found : doc.get name with
  | none =>
    obtain ⟨table, value⟩ := sectionTable_of_absent found
    cases table.symm.trans read
    exact ⟨value, List.Pairwise.nil⟩
  | some v =>
    obtain ⟨table, value⟩ := sectionTable_of_found found
    rw [table] at read
    cases v with
    | table inner =>
      cases read
      exact ⟨value, (TomlValue.AllOrderedEntries.of_lookup doc.ordered.2 found).1⟩
    | _ => cases read

theorem section_of_other (read : doc.sectionTable name = none) :
    ∃ v, doc.get name = some v ∧ doc.section name = v ∧ v.asTable = none := by
  cases found : doc.get name with
  | none =>
    rw [(sectionTable_of_absent found).1] at read
    cases read
  | some v =>
    obtain ⟨table, value⟩ := sectionTable_of_found found
    exact ⟨v, rfl, value, table ▸ read⟩

theorem tables_compare {before after : TomlEntries} (left : TomlValue.Ordered before)
    (right : TomlValue.Ordered after) {section_ : Text} : (unionKeys before after).filterMap (fun key =>
        changed toml (dotted section_ key) (before.lookup key) (after.lookup key)) = [] ↔
      (TomlValue.table before).numeric = true ∧ SameValue (.table before) (.table after) := by
  rw [List.filterMap_eq_nil_iff]
  have each : (∀ key ∈ unionKeys before after,
        changed toml (dotted section_ key) (before.lookup key) (after.lookup key) = none) ↔
      ∀ key, (∀ v ∈ before.lookup key, v.numeric = true) ∧
        SameOption (before.lookup key) (after.lookup key) := by
    constructor
    · intro all key
      by_cases listed : key ∈ unionKeys before after
      · exact changed_none_iff.mp (all key listed)
      rw [mem_unionKeys, not_or, Option.not_isSome_iff_eq_none, Option.not_isSome_iff_eq_none]
        at listed
      rw [listed.1, listed.2]
      refine ⟨?_, rfl⟩
      intro v found
      cases found
    · exact fun all key _ => changed_none_iff.mpr (all key)
  rw [each, forall_and]
  simp only [TomlValue.numeric, SameValue, TomlValue.normal, TomlValue.table.injEq]
  rw [TomlValue.numericEntries_iff left, TomlValue.normalEntries_eq_iff left right]
  rfl

theorem differs_from_table (other : v.asTable = none) (entries : TomlEntries) :
    ¬SameValue v (.table entries) := by
  cases v with
  | table inner => cases other
  | string _ | integer _ | float _ | boolean _ | datetime _ | array _ =>
    exact fun same => nomatch same

/-- **One section**: nothing changed in it exactly when it is equal and all its floats are
numbers, an absent section being an empty table. -/
theorem diffTableKeys_nil_iff (section_ : Text) : diffTableKeys toml section_ old new = [] ↔
      (old.section section_).numeric = true ∧ SameValue (old.section section_) (new.section section_) := by
  unfold diffTableKeys
  cases left : old.sectionTable section_ with
  | some before =>
    obtain ⟨value, ordered⟩ := section_of_table left
    cases right : new.sectionTable section_ with
    | some after =>
      obtain ⟨value', ordered'⟩ := section_of_table right
      rw [value, value']
      exact tables_compare ordered ordered'
    | none =>
      obtain ⟨w, found, value', other⟩ := section_of_other right
      refine iff_of_false ?_ ?_
      · dsimp only
        rw [changed_toList_nil_iff, found]
        rintro ⟨-, same⟩
        cases there : old.get section_ with
        | none =>
          rw [there] at same
          cases same
        | some v =>
          rw [there] at same
          obtain ⟨-, here⟩ := sectionTable_of_found there
          rw [here] at value
          subst value
          exact differs_from_table other before (Option.some.inj same).symm
      · rw [value, value']
        exact fun both => differs_from_table other before both.2.symm
  | none =>
    obtain ⟨v, found, value, other⟩ := section_of_other left
    dsimp only
    rw [changed_toList_nil_iff, found, value]
    cases there : new.get section_ with
    | none =>
      rw [(sectionTable_of_absent there).2]
      exact iff_of_false (fun both => nomatch both.2)
        fun both => differs_from_table other [] both.2
    | some w =>
      rw [(sectionTable_of_found there).2]
      simp [SameOption, SameValue]

theorem diffStringKeys_nil_iff (section_ : Text) (keys : List Text) :
    diffFrozen toml (.stringKeys section_ keys) old new = [] ↔
      ∀ field ∈ keys, old.stringField section_ field = new.stringField section_ field := by
  rw [diffFrozen, List.filterMap_eq_nil_iff]
  refine forall₂_congr fun field _ => ?_
  dsimp only
  split
  · rename_i same
    exact iff_of_true rfl same
  · rename_i differ
    exact iff_of_false (Option.some_ne_none _) differ

theorem diffValueKeys_nil_iff (section_ : Text) (keys : List Text) :
    diffFrozen toml (.valueKeys section_ keys) old new = [] ↔
      ∀ key ∈ keys, (∀ v ∈ old.tableValue section_ key, v.numeric = true) ∧
        SameOption (old.tableValue section_ key) (new.tableValue section_ key) := by
  rw [diffFrozen, List.filterMap_eq_nil_iff]
  exact forall₂_congr fun key _ => changed_none_iff

/-- **The sections that are not editable**, also those that are in neither document. -/
theorem diffAllSections_nil_iff (editable : List Text) :
    diffFrozen toml (.allSectionsExcept editable) old new = [] ↔
      ∀ name, name ∉ editable → (old.section name).numeric = true ∧
        SameValue (old.section name) (new.section name) := by
  rw [diffFrozen, List.flatMap_eq_nil_iff]
  simp only [List.mem_filter, Bool.not_eq_true', List.contains_eq_mem, decide_eq_false_iff_not,
    diffTableKeys_nil_iff]
  constructor
  · intro all name frozen
    by_cases listed : name ∈ unionKeys old.entries new.entries
    · exact all name ⟨listed, frozen⟩
    rw [mem_unionKeys, not_or, Option.not_isSome_iff_eq_none, Option.not_isSome_iff_eq_none]
      at listed
    rw [(sectionTable_of_absent listed.1).2, (sectionTable_of_absent listed.2).2]
    exact ⟨rfl, rfl⟩
  · exact fun all name listed => all name listed.2

end Compare

/-! ## The groups -/

theorem pushGroup_quiet {groups : List VerdictGroup} {verdict : FrozenVerdict}
    {changed : List Text} : (∀ group ∈ pushGroup groups verdict changed, group.2 = []) ↔
      (∀ group ∈ groups, group.2 = []) ∧ changed = [] := by
  unfold pushGroup
  split
  · rename_i last acc found
    split
    · obtain ⟨front, rfl⟩ := List.getLast?_eq_some_iff.mp found
      rw [List.dropLast_concat]
      simp only [List.mem_append, List.mem_singleton, or_imp, forall_and, forall_eq,
        List.append_eq_nil_iff, and_assoc]
    · simp only [List.mem_append, List.mem_singleton, or_imp, forall_and, forall_eq]
  · simp only [List.mem_append, List.mem_singleton, or_imp, forall_and, forall_eq]

theorem groups_quiet (rows : List FrozenField) (diff : FrozenField → List Text) (groups : List VerdictGroup) :
    (∀ group ∈ rows.foldl (fun groups entry => pushGroup groups entry.verdict (diff entry)) groups,
        group.2 = []) ↔
      (∀ group ∈ groups, group.2 = []) ∧ ∀ entry ∈ rows, diff entry = [] := by
  induction rows generalizing groups with
  | nil => simp
  | cons entry rest ih =>
    rw [List.foldl_cons, ih, pushGroup_quiet, List.forall_mem_cons, and_assoc]

/-! ## The decision -/

section Decide

variable {toml : TomlCrate} {filePath home : Path} {existing newContent : Text}
  {old new : Document}

/-- A write that is read on both sides is allowed exactly when no row finds a change. -/
theorem allowed_iff_quiet {kind : ProtectedTomlKind} (caller : Option HookCaller)
    (protected_ : classifyProtectedToml filePath home = some kind)
    (oldParsed : toml.parse existing = .ok old) (newParsed : toml.parse newContent = .ok new) :
    checkProtectedTomlWriteAs toml filePath home caller (some existing) newContent = .allowedAgentWrite ↔
      ∀ entry ∈ frozenForCaller kind caller.isSome, diffFrozen toml entry.shape old new = [] := by
  have quiet := groups_quiet (frozenForCaller kind caller.isSome)
    (fun entry => diffFrozen toml entry.shape old new) []
  simp only [List.not_mem_nil, false_implies, implies_true, true_and] at quiet
  rw [← quiet, checkProtectedTomlWriteAs, protectedTomlWrite, protected_]
  dsimp only
  rw [newParsed, oldParsed]
  dsimp only
  split
  · rename_i verdict changed found
    refine iff_of_false ?_ ?_
    · intro allowed
      cases verdict <;> cases allowed
    · intro all
      have listed := List.mem_of_find?_eq_some found
      have loud := List.find?_some found
      rw [all _ listed] at loud
      cases loud
  · rename_i none
    refine iff_of_true rfl fun group listed => ?_
    simpa using List.find?_eq_none.mp none group listed

/-- **An allowed write of `agent.toml`** leaves everything protected as it was, and that holds
nothing that is not a number; any such write is allowed. -/
theorem agentToml_allowed_iff (caller : Option HookCaller)
    (protected_ : classifyProtectedToml filePath home = some .agentToml)
    (oldParsed : toml.parse existing = .ok old) (newParsed : toml.parse newContent = .ok new) :
    checkProtectedTomlWriteAs toml filePath home caller (some existing) newContent = .allowedAgentWrite ↔
      SameProtected caller.isSome old new ∧ NumericProtected caller.isSome old := by
  rw [allowed_iff_quiet caller protected_ oldParsed newParsed]
  have names := @diffStringKeys_nil_iff toml old new agentSection agentOrgFields
  have envelope := @diffTableKeys_nil_iff toml old new agentCapabilitySection
  cases caller with
  | none =>
    have rows : frozenForCaller .agentToml (none : Option HookCaller).isSome =
        [⟨.agentToml, .stringKeys agentSection agentOrgFields, .orgField, .everyone⟩,
          ⟨.agentToml, .tableKeys agentCapabilitySection, .protectedField, .everyone⟩] := rfl
    rw [rows]
    simp only [List.forall_mem_cons, List.not_mem_nil, false_implies, implies_true, and_true, names]
    rw [diffFrozen, envelope]
    simp only [SameProtected, NumericProtected, Option.isSome_none, Bool.false_eq_true, if_false]
    tauto
  | some agent =>
    have rows : frozenForCaller .agentToml (some agent).isSome =
        [⟨.agentToml, .stringKeys agentSection agentOrgFields, .orgField, .everyone⟩,
          ⟨.agentToml, .tableKeys agentCapabilitySection, .protectedField, .everyone⟩,
          ⟨.agentToml, .allSectionsExcept agentEditableSections, .agentSecuritySection, .agentsOnly⟩] ++
        agentSecurityKeys.map (fun row =>
          ⟨.agentToml, .valueKeys row.1 row.2, .agentSecuritySection, .agentsOnly⟩) := rfl
    rw [rows]
    simp only [List.forall_mem_append, List.forall_mem_cons, List.not_mem_nil, false_implies,
      implies_true, and_true, names, diffAllSections_nil_iff, List.forall_mem_map, diffValueKeys_nil_iff]
    rw [diffFrozen, envelope]
    simp only [SameProtected, NumericProtected, Option.isSome_some, if_true]
    -- the envelope is one of the sections that are not editable
    have frozen : agentCapabilitySection ∉ agentEditableSections := by decide
    constructor
    · rintro ⟨⟨org, -, sections⟩, keys⟩
      exact ⟨⟨org, fun name out => (sections name out).2, fun row listed key inside =>
        (keys row listed key inside).2⟩, fun name out => (sections name out).1,
        fun row listed key inside => (keys row listed key inside).1⟩
    · rintro ⟨⟨org, sections, keys⟩, numbers, keyNumbers⟩
      exact ⟨⟨org, ⟨numbers _ frozen, sections _ frozen⟩,
        fun name out => ⟨numbers name out, sections name out⟩⟩,
        fun row listed key inside => ⟨keyNumbers row listed key inside, keys row listed key inside⟩⟩

/-- An allowed write of the home's `config.toml`, by whomever: here an absent section is not an
empty one. -/
theorem homeConfig_allowed_iff (caller : Option HookCaller)
    (protected_ : classifyProtectedToml filePath home = some .homeConfigToml)
    (oldParsed : toml.parse existing = .ok old) (newParsed : toml.parse newContent = .ok new) :
    checkProtectedTomlWriteAs toml filePath home caller (some existing) newContent = .allowedAgentWrite ↔
      ∀ name ∈ configProtectedSections, (∀ v ∈ old.get name, v.numeric = true) ∧
        SameOption (old.get name) (new.get name) := by
  rw [allowed_iff_quiet caller protected_ oldParsed newParsed]
  have rows : frozenForCaller .homeConfigToml caller.isSome =
      configProtectedSections.map fun name =>
        ⟨.homeConfigToml, .wholeSection name, .protectedSection, .everyone⟩ := by
    cases caller <;> rfl
  rw [rows, List.forall_mem_map]
  exact forall₂_congr fun name _ => changed_toList_nil_iff

/-- **The freeze of `agent.toml` is exact if and only if** the documents differ in something
protected or everything protected is a number: for an agent the fields of `[agent]` as strings,
every section that is not editable and the protected keys; for the operator the fields and the
capabilities. -/
theorem agentToml_freeze (caller : Option HookCaller)
    (protected_ : classifyProtectedToml filePath home = some .agentToml)
    (oldParsed : toml.parse existing = .ok old) (newParsed : toml.parse newContent = .ok new) :
    (checkProtectedTomlWriteAs toml filePath home caller (some existing) newContent =
        .allowedAgentWrite ↔ SameProtected caller.isSome old new) ↔
      (¬SameProtected caller.isSome old new ∨ NumericProtected caller.isSome old) := by
  rw [agentToml_allowed_iff caller protected_ oldParsed newParsed]
  tauto

end Decide

/-! ### Three documents -/

def emptyDocument : Document := ⟨[], List.Pairwise.nil, trivial⟩

def oneKey (section_ key : Text) (v : TomlValue) (leaf : v.AllOrdered) : Document where
  entries := [(section_, .table [(key, v)])]
  ordered := ⟨List.pairwise_singleton _ _, ⟨List.pairwise_singleton _ _, leaf, trivial⟩, trivial⟩

def heartbeatDocument : Document := oneKey "heartbeat".toList "enabled".toList (.boolean true) trivial

def nanDocument : Document := oneKey "budget".toList "limit".toList (.float FloatBits.nan) trivial

def heartbeatText : Text := "[heartbeat]\nenabled = true".toList

def nanText : Text := "[budget]\nlimit = nan".toList

def sampleCrate : TomlCrate where
  parse text :=
    if text = [] then .ok emptyDocument
    else if text = heartbeatText then .ok heartbeatDocument
    else if text = nanText then .ok nanDocument
    else .error []
  display _ := "nan".toList

def employeeHome : Path := [.rootDir, .normal ['h']]

def employeeToml : Path := [.rootDir, .normal ['h'], .normal agentsDir, .normal ['a'], .normal agentTomlName]

theorem heartbeat_same : SameProtected true emptyDocument heartbeatDocument := by
  have numbers : NumericProtected true emptyDocument := by
    refine ⟨fun _ _ => rfl, ?_⟩
    intro row _ key _ v found
    cases found
  have allowed : checkProtectedTomlWriteAs sampleCrate employeeToml employeeHome
      (some (.agent ['a'])) (some []) heartbeatText = .allowedAgentWrite := by decide
  exact ((@agentToml_freeze sampleCrate _ _ _ _ _ _ (some (.agent ['a']))
    (show classifyProtectedToml employeeToml employeeHome = some .agentToml by decide)
    rfl rfl).mpr (.inr numbers)).mp allowed

theorem heartbeat_in_homeConfig :
    checkProtectedTomlWriteAs sampleCrate (employeeHome ++ [.normal "config.toml".toList]) employeeHome none
      (some []) heartbeatText = .allowedAgentWrite ↔ ∀ name ∈ configProtectedSections,
        (∀ v ∈ emptyDocument.get name, v.numeric = true) ∧
          SameOption (emptyDocument.get name) (heartbeatDocument.get name) :=
  @homeConfig_allowed_iff sampleCrate _ _ _ _ _ _ none
    (show classifyProtectedToml (employeeHome ++ [.normal "config.toml".toList]) employeeHome =
      some .homeConfigToml by decide) rfl rfl

/-- **A write that changes nothing and is refused**: the employee's file holds `limit = nan`
under `[budget]`, and is written again as it is. -/
theorem nan_refused : SameProtected true nanDocument nanDocument ∧
      checkProtectedTomlWriteAs sampleCrate employeeToml employeeHome (some (.agent ['a']))
          (some nanText) nanText =
        .blockedAgentSecuritySection agentTomlName employeeToml
          ["budget.limit：nan → nan".toList] := by
  refine ⟨⟨fun _ _ => rfl, fun _ _ => rfl, fun _ _ _ _ => rfl⟩, ?_⟩
  decide

end DuDuClaw.OrgFieldGuard
