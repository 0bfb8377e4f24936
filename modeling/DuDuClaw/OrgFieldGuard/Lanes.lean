/-
# OrgFieldGuard.Lanes -- the two write lanes

Whether an AI employee may write a path is decided twice, in code written separately:
`caller_scope_at` (org_field_guard/mod.rs) for the Write and Edit tools, and
`classify_home_rest` (matcher.rs) with `Ctx::refused` (bash_parse.rs) for a path a Bash
command writes.  Both look at the components after the home directory, without regard to
ASCII case.

* `bashRefuses_iff`, `writeBlocks_iff`: each lane as a function of those components.
* `lanes_agree`: they agree on every path, caller and home, except for the employee
  named like the removed area, in the scaffold `agents/.ephemeral/_trash/`.
* `lanes_differ_trash`: there the Bash lane lets the write through.
-/
import DuDuClaw.Lib.Chars
import DuDuClaw.Lib.Path

namespace DuDuClaw.OrgFieldGuard

open DuDuClaw.Lib

/-! ## Names -/

/-- `components_after_ci`: the components of `path` after those of `prefix_`. -/
def componentsAfterCi : Path → Path → Option (List (List Char))
  | path, [] => some (path.map Component.text)
  | [], _ :: _ => none
  | actual :: path, wanted :: prefix_ =>
    if eqIgnoreAsciiCase wanted.text actual.text then componentsAfterCi path prefix_ else none

def agentsDir : List Char := "agents".toList

def configName : List Char := "config.toml".toList

def ephemeralDirName : List Char := ".ephemeral".toList

def agentTrashDir : List Char := "_trash".toList

def homeWritableDirs : List (List Char) := ["attachments".toList]

def homeEvidenceBasenames : List (List Char) :=
  ["tool_calls.jsonl".toList, "security_audit.jsonl".toList]

/-- `is_valid_agent_id`; every character it allows is one byte long. -/
def isValidAgentId (s : List Char) : Bool :=
  !s.isEmpty && s.length ≤ 64 && s.all fun c => c.isAlphanum || c == '-' || c == '_'

/-- `HookCaller` other than `Absent`, which both lanes let pass before they look. -/
inductive HookCaller where
  | agent (id : List Char)
  | untrusted (claimed : List Char)

def HookCaller.claimed : HookCaller → List Char
  | .agent id | .untrusted id => id

def HookCaller.isUntrusted : HookCaller → Bool
  | .agent _ => false
  | .untrusted _ => true

/-! ## The Write lane -/

inductive GuardDecision where
  | notAgentFile
  | blockedHomeConfigWrite (caller : List Char) (attemptedPath : Path)
  | blockedHomeStateWrite (caller : List Char) (attemptedPath : Path)
  | blockedUntrustedCaller (caller : List Char) (attemptedPath : Path)
  | blockedRemovedAgentArea (caller : List Char) (attemptedPath : Path)
  | blockedForeignAgentDir (caller owner : List Char) (attemptedPath : Path)
  deriving DecidableEq

/-- `is_allowed`, on the decisions of this lane. -/
def GuardDecision.isAllowed : GuardDecision → Bool
  | .notAgentFile => true
  | _ => false

def owningAgentDir (normalized home : Path) : Option (List Char) :=
  match componentsAfterCi normalized (Path.lexicalNormalize (home ++ [.normal agentsDir])) with
  | none => none
  | some rest =>
    match rest.head? with
    | none => none
    | some first =>
      if eqIgnoreAsciiCase first ephemeralDirName then
        if 3 ≤ rest.length then rest[1]? else none
      else if 2 ≤ rest.length then rest[0]? else none

/-- Rule 1 of `caller_scope_at`, under `agents`. -/
def agentDirScope (owner : Option (List Char)) (normalized : Path) : HookCaller → GuardDecision
  | .untrusted claimed => .blockedUntrustedCaller claimed normalized
  | .agent id =>
    match owner with
    | none => .blockedHomeStateWrite id normalized
    | some owner =>
      if eqIgnoreAsciiCase owner agentTrashDir then .blockedRemovedAgentArea id normalized
      else if eqIgnoreAsciiCase owner id then .notAgentFile
      else .blockedForeignAgentDir id owner normalized

variable (rest : List (List Char))

/-- Rule 3, elsewhere under the home. -/
def homeStateScope (normalized : Path) (caller : HookCaller) :
    GuardDecision :=
  if 2 ≤ rest.length && homeWritableDirs.any fun dir =>
      rest.head?.any (eqIgnoreAsciiCase · dir) then
    .notAgentFile
  else .blockedHomeStateWrite caller.claimed normalized

def callerScopeAt (filePath home : Path) (caller : HookCaller) : GuardDecision :=
  let normalized := filePath.lexicalNormalize
  let homeConfig := Path.lexicalNormalize (home ++ [.normal configName])
  if (componentsAfterCi normalized homeConfig).any List.isEmpty then
    .blockedHomeConfigWrite caller.claimed normalized
  else
    match componentsAfterCi normalized home.lexicalNormalize with
    | none => .notAgentFile
    | some rest =>
      if rest.head?.any (eqIgnoreAsciiCase · agentsDir) then
        agentDirScope (owningAgentDir normalized home) normalized caller
      else homeStateScope rest normalized caller

/-! ## The Bash lane -/

inductive HomeTarget where
  | ownAgentDir
  | foreignAgentDir (owner : List Char)
  | removedArea
  | state (rest : List (List Char))
  deriving DecidableEq

/-- `classify_home_rest`, on lowercased components. -/
def classifyHomeRest (caller : List Char) : Option HomeTarget :=
  let trash := toAsciiLowercase agentTrashDir
  match rest with
  | [] => some (.state rest)
  | first :: below =>
    if homeWritableDirs.contains first && 2 ≤ rest.length then none
    else if first = agentsDir then
      match below with
      | [] => some (.state rest)
      | owner :: inner =>
        if owner = trash then some .removedArea
        else if owner = ephemeralDirName then
          match inner with
          | [] => some (.state rest)
          | scaffold :: _ =>
            if scaffold = caller && rest.length == 3 then some (.state rest)
            else if scaffold = caller then some .ownAgentDir
            else some (.foreignAgentDir scaffold)
        else if owner = caller && rest.length == 2 then some (.state rest)
        else if owner = caller then some .ownAgentDir
        else if rest.length == 2 && !isValidAgentId owner then some (.state rest)
        else some (.foreignAgentDir owner)
    else some (.state rest)

/-- What of `Ctx` the judgement of a path reads. -/
structure Ctx where
  home : Path
  homeReal : Option Path
  caller : List Char
  untrusted : Bool

/-- The context `bash_home_state_write` builds, where the home has no links. -/
def Ctx.of (home : Path) (caller : HookCaller) : Ctx where
  home := home.lexicalNormalize
  homeReal := some home.lexicalNormalize
  caller := toAsciiLowercase caller.claimed
  untrusted := caller.isUntrusted

def Ctx.targetOf (ctx : Ctx) (abs home : Path) (evidence : Option (List Char)) :
    Option HomeTarget :=
  match componentsAfterCi abs home with
  | none => none
  | some rest =>
    match classifyHomeRest (rest.map toAsciiLowercase) ctx.caller, evidence with
    | some .ownAgentDir, some name => some (.state [name])
    | other, _ => other

def Ctx.refused (ctx : Ctx) : HomeTarget → Bool
  | .ownAgentDir => ctx.untrusted
  | _ => true

/-- `word.rsplit(['/', '\\']).next()`, lowercased. -/
def baseOf (word : List Char) : List Char :=
  toAsciiLowercase (word.reverse.takeWhile fun c => c != '/' && c != '\\').reverse

/-- The base name of a word, when it is one of an audit log or of its rotations. -/
def evidenceOf (word : List Char) : Option (List Char) :=
  if homeEvidenceBasenames.any fun name =>
      baseOf word == name || (name.isPrefixOf (baseOf word) &&
        ((baseOf word).drop name.length).head? == some '.') then
    some (baseOf word)
  else none

/-- `Ctx::classify` of a word that names the path `raw`, once `resolve_real_path` has
answered; `none` is its error. -/
def Ctx.classify (ctx : Ctx) (word : List Char) (raw : Path) (real : Option Path) :
    Option HomeTarget :=
  let lexical := ctx.targetOf raw.lexicalNormalize ctx.home (evidenceOf word)
  if lexical.any ctx.refused then lexical
  else
    match real with
    | some real =>
      match ctx.homeReal with
      | some homeReal =>
        let target := ctx.targetOf real homeReal (evidenceOf word)
        if target.any ctx.refused then target else lexical
      | none => lexical
    | none =>
      some (.state (((componentsAfterCi raw.lexicalNormalize ctx.home).filter
        (!·.isEmpty)).getD [baseOf word]))

/-! ## Both lanes by the components after home -/

/-- The components of a path after the home directory, lowercased. -/
def homeRest (path home : Path) : Option (List (List Char)) :=
  (componentsAfterCi path.lexicalNormalize home.lexicalNormalize).map (·.map toAsciiLowercase)

/-- Something inside a directory everybody may write. -/
def inWritableDir : List (List Char) → Bool
  | first :: _ :: _ => homeWritableDirs.contains first
  | _ => false

/-- The employee whose directory or scaffold something lies inside. -/
def areaOwner : List (List Char) → Option (List Char)
  | first :: owner :: name :: inner =>
    if first ≠ agentsDir then none
    else if owner ≠ ephemeralDirName then some owner
    else if inner = [] then none
    else some name
  | _ => none

/-- Something inside `agents/.ephemeral/`. -/
def inScaffold : List (List Char) → Bool
  | first :: owner :: _ => first == agentsDir && owner == ephemeralDirName
  | _ => false

def writeBlocks (home path : Path) (caller : HookCaller) : Bool :=
  !(callerScopeAt path home caller).isAllowed

/-- The Bash lane refuses it as a write target, when neither it nor the home has links. -/
def bashRefuses (home path : Path) (caller : HookCaller) (word : List Char) : Bool :=
  ((Ctx.of home caller).classify word path (some path.lexicalNormalize)).any
    (Ctx.of home caller).refused

/-- One more component of the directory is one fewer of the rest. -/
theorem componentsAfterCi_concat (path dir : Path) (last : Component) : componentsAfterCi path (dir ++ [last]) =
      (componentsAfterCi path dir).bind fun rest =>
        match rest with
        | [] => none
        | first :: below => if eqIgnoreAsciiCase last.text first then some below else none := by
  induction dir generalizing path with
  | nil =>
    cases path with
    | nil => rfl
    | cons first below =>
      simp only [List.nil_append, componentsAfterCi, List.map_cons, Option.bind_some]
  | cons wanted dir ih =>
    cases path with
    | nil => rfl
    | cons actual path =>
      simp only [List.cons_append, componentsAfterCi]
      split
      · exact ih path
      · rfl

theorem toAsciiLowercase_trash : toAsciiLowercase agentTrashDir = agentTrashDir := by decide

theorem ephemeral_ne_trash : ephemeralDirName ≠ agentTrashDir := by decide

/-- A target is no target of the home only in a directory everybody may write. -/
theorem classifyHomeRest_none (caller : List Char) :
    classifyHomeRest rest caller = none ↔ inWritableDir rest := by
  match rest with
  | [] => simp [classifyHomeRest, inWritableDir]
  | [first] =>
    simp only [classifyHomeRest, inWritableDir]
    split_ifs <;> simp_all
  | first :: owner :: inner =>
    simp only [classifyHomeRest, inWritableDir]
    by_cases writable : first ∈ homeWritableDirs
    · simp [writable]
    · cases inner <;> simp [writable] <;> split_ifs <;> simp

/-- It is the caller's own inside the caller's directory or scaffold; the removed area is
nobody's, but a scaffold of its name is. -/
theorem classifyHomeRest_own (caller : List Char) :
    classifyHomeRest rest caller = some .ownAgentDir ↔
      inWritableDir rest = false ∧ areaOwner rest = some caller ∧
        (inScaffold rest ∨ caller ≠ agentTrashDir) := by
  match rest with
  | [] => simp [classifyHomeRest, areaOwner]
  | [first] =>
    simp only [classifyHomeRest, areaOwner]
    split_ifs <;> simp_all
  | [first, owner] =>
    simp only [classifyHomeRest, areaOwner]
    split_ifs <;> simp_all
  | first :: owner :: name :: inner =>
    simp only [classifyHomeRest, areaOwner, inScaffold, inWritableDir, toAsciiLowercase_trash]
    by_cases writable : first ∈ homeWritableDirs
    · simp [writable]
    by_cases agents : first = agentsDir
    · by_cases scaffold : owner = ephemeralDirName
      · cases inner with
        | nil =>
          simp_all [ephemeral_ne_trash]
          split_ifs <;> simp
        | cons deeper rest => simp_all [ephemeral_ne_trash]
      by_cases trash : owner = agentTrashDir
      · simp_all
      · simp_all
        rintro rfl
        exact trash
    · simp [agents, writable]

theorem owningAgentDir_lower {path home : Path} {raw : List (List Char)}
    (found : componentsAfterCi path home.lexicalNormalize = some raw) :
    (owningAgentDir path home).map toAsciiLowercase = areaOwner (raw.map toAsciiLowercase) := by
  unfold owningAgentDir
  rw [Path.lexicalNormalize_concat_normal, componentsAfterCi_concat, found]
  match raw with
  | [] => rfl
  | first :: below =>
    have agents : eqIgnoreAsciiCase (Component.normal agentsDir).text first ↔
        toAsciiLowercase first = agentsDir := by
      rw [eqIgnoreAsciiCase_iff]
      exact eq_comm
    have scaffold : ∀ name, eqIgnoreAsciiCase name ephemeralDirName ↔
        toAsciiLowercase name = ephemeralDirName := fun name => eqIgnoreAsciiCase_iff
    simp only [Option.bind_some, agents]
    by_cases under : toAsciiLowercase first = agentsDir
    · match below with
      | [] => simp [under, areaOwner]
      | [owner] =>
        simp only [under, if_true, areaOwner, List.head?_cons, scaffold, List.map_cons, List.map_nil]
        split_ifs <;> simp_all
      | owner :: name :: inner =>
        simp only [under, if_true, areaOwner, List.head?_cons, scaffold, List.map_cons]
        by_cases inside : toAsciiLowercase owner = ephemeralDirName
        · cases inner <;> simp [inside]
        · simp [inside]
    · match below with
      | [] => simp [under, areaOwner]
      | [_] => simp [under, areaOwner]
      | _ :: _ :: _ => simp [under, areaOwner]

/-- Without links the second judgement repeats the first. -/
theorem classify_unlinked (home path : Path) (caller : HookCaller) (word : List Char) :
    (Ctx.of home caller).classify word path (some path.lexicalNormalize) =
      (Ctx.of home caller).targetOf path.lexicalNormalize home.lexicalNormalize
        (evidenceOf word) := by
  have twice : ∀ (target : Option HomeTarget) (refused : Bool),
      (if refused then target else if refused then target else target) = target := by
    intro target refused
    cases refused <;> rfl
  exact twice _ _

/-- **The Bash lane**, by the components after home. -/
theorem bashRefuses_iff (home path : Path) (caller : HookCaller) (word : List Char) :
    bashRefuses home path caller word ↔ ∃ rest, homeRest path home = some rest ∧ inWritableDir rest = false ∧
        (areaOwner rest = some (toAsciiLowercase caller.claimed) →
          (inScaffold rest ∨ toAsciiLowercase caller.claimed ≠ agentTrashDir) →
          caller.isUntrusted ∨ (evidenceOf word).isSome) := by
  unfold bashRefuses homeRest
  rw [classify_unlinked, Ctx.targetOf]
  cases componentsAfterCi path.lexicalNormalize home.lexicalNormalize with
  | none => simp
  | some raw =>
    simp only [Option.map_some, Option.some.injEq, exists_eq_left']
    have free := classifyHomeRest_none (raw.map toAsciiLowercase) (Ctx.of home caller).caller
    have own := classifyHomeRest_own (raw.map toAsciiLowercase) (Ctx.of home caller).caller
    cases target : classifyHomeRest (raw.map toAsciiLowercase) (Ctx.of home caller).caller with
    | none => simp [free.mp target]
    | some place =>
      have shut : inWritableDir (raw.map toAsciiLowercase) = false := by
        by_contra writable
        rw [Bool.not_eq_false] at writable
        rw [free.mpr writable] at target
        cases target
      by_cases mine : place = .ownAgentDir
      · subst mine
        obtain ⟨-, area, reached⟩ := own.mp target
        have area : areaOwner (raw.map toAsciiLowercase) =
          some (toAsciiLowercase caller.claimed) := area
        have reached : inScaffold (raw.map toAsciiLowercase) ∨
          toAsciiLowercase caller.claimed ≠ agentTrashDir := reached
        cases evidenceOf word with
        | none => simp [shut, area, reached, Ctx.refused, Ctx.of]
        | some name => simp [shut, Ctx.refused]
      · have others : ¬(areaOwner (raw.map toAsciiLowercase) =
            some (toAsciiLowercase caller.claimed) ∧ (inScaffold (raw.map toAsciiLowercase) ∨
            toAsciiLowercase caller.claimed ≠ agentTrashDir)) := by
          intro area
          rw [own.mpr ⟨shut, area⟩] at target
          exact mine (Option.some.inj target).symm
        have refused : (Ctx.of home caller).refused place = true := by
          cases place <;> simp_all [Ctx.refused]
        have kept : (match some place, evidenceOf word with
            | some .ownAgentDir, some name => some (.state [name])
            | other, _ => other) = some place := by
          cases place <;> simp_all
        simp only [kept, Option.any_some, refused, true_iff]
        exact ⟨shut, fun area reached => absurd ⟨area, reached⟩ others⟩

theorem agentDirScope_blocks {owner : Option (List Char)} (normalized : Path) (caller : HookCaller) :
    (agentDirScope owner normalized caller).isAllowed = false ↔
      (owner.map toAsciiLowercase = some (toAsciiLowercase caller.claimed) →
        toAsciiLowercase caller.claimed ≠ agentTrashDir → caller.isUntrusted) := by
  cases caller with
  | untrusted claimed => simp [agentDirScope, GuardDecision.isAllowed, HookCaller.isUntrusted]
  | agent id =>
    cases owner with
    | none => simp [agentDirScope, GuardDecision.isAllowed]
    | some owner =>
      simp only [agentDirScope, eqIgnoreAsciiCase_iff, toAsciiLowercase_trash, Option.map_some,
        Option.some.injEq, HookCaller.claimed, HookCaller.isUntrusted, Bool.false_eq_true]
      split_ifs with trash mine
      · refine iff_of_true rfl fun mine other => other (mine.symm.trans trash)
      · refine iff_of_false nofun fun blocked => blocked mine ?_
        exact fun same => trash (mine.trans same)
      · exact iff_of_true rfl fun same => absurd same mine

theorem homeStateScope_blocks {rest : List (List Char)} (normalized : Path) (caller : HookCaller) :
    (homeStateScope rest normalized caller).isAllowed = false ↔
      inWritableDir (rest.map toAsciiLowercase) = false := by
  have lower : ∀ dir ∈ homeWritableDirs, toAsciiLowercase dir = dir := by decide
  have allowed : (2 ≤ rest.length && homeWritableDirs.any fun dir =>
      rest.head?.any (eqIgnoreAsciiCase · dir)) = inWritableDir (rest.map toAsciiLowercase) := by
    match rest with
    | [] => rfl
    | [_] => rfl
    | first :: second :: below =>
      rw [Bool.eq_iff_iff]
      simp only [List.length_cons, inWritableDir, List.map_cons, List.contains_iff_mem,
        List.head?_cons, Option.any_some, Bool.and_eq_true, decide_eq_true_eq, List.any_eq_true,
        eqIgnoreAsciiCase_iff]
      constructor
      · rintro ⟨-, dir, listed, same⟩
        rwa [same, lower dir listed]
      · intro listed
        exact ⟨by omega, _, listed, (lower _ listed).symm⟩
  unfold homeStateScope
  rw [allowed]
  cases inWritableDir (rest.map toAsciiLowercase) <;> simp [GuardDecision.isAllowed]

theorem homeConfig_single (path home : Path) (named : (componentsAfterCi path.lexicalNormalize
      (Path.lexicalNormalize (home ++ [.normal configName]))).any List.isEmpty) :
    ∃ only, componentsAfterCi path.lexicalNormalize home.lexicalNormalize = some [only] := by
  rw [Path.lexicalNormalize_concat_normal, componentsAfterCi_concat] at named
  cases found : componentsAfterCi path.lexicalNormalize home.lexicalNormalize with
  | none => simp [found] at named
  | some raw =>
    rw [found, Option.bind_some] at named
    match raw with
    | [] => simp at named
    | [only] => exact ⟨only, rfl⟩
    | first :: second :: rest =>
      dsimp only at named
      split at named <;> simp at named

/-- **The Write lane**, by the components after home. -/
theorem writeBlocks_iff (home path : Path) (caller : HookCaller) : writeBlocks home path caller ↔
      ∃ rest, homeRest path home = some rest ∧ inWritableDir rest = false ∧
        (areaOwner rest = some (toAsciiLowercase caller.claimed) →
          toAsciiLowercase caller.claimed ≠ agentTrashDir → caller.isUntrusted) := by
  unfold writeBlocks homeRest callerScopeAt
  dsimp only
  have config := homeConfig_single path home
  cases found : componentsAfterCi path.lexicalNormalize home.lexicalNormalize with
  | none =>
    rw [found] at config
    split
    · rename_i named
      obtain ⟨only, single⟩ := config named
      cases single
    · simp [GuardDecision.isAllowed]
  | some raw =>
    rw [found] at config
    have owner := owningAgentDir_lower found
    simp only [Option.map_some, Option.some.injEq, exists_eq_left', Bool.not_eq_true']
    split
    · rename_i named
      obtain ⟨only, single⟩ := config named
      cases single
      exact iff_of_true rfl ⟨rfl, nofun⟩
    rw [← owner]
    split
    · rename_i under
      rw [agentDirScope_blocks]
      have shut : inWritableDir (raw.map toAsciiLowercase) = false := by
        match raw with
        | [] => rfl
        | [_] => rfl
        | first :: second :: rest =>
          simp only [List.head?_cons, Option.any_some, eqIgnoreAsciiCase_iff] at under
          simp only [inWritableDir, List.map_cons, under]
          decide
      exact (and_iff_right shut).symm
    · rename_i elsewhere
      rw [homeStateScope_blocks, owner]
      have nobody : areaOwner (raw.map toAsciiLowercase) = none := by
        match raw with
        | [] => rfl
        | [_] => rfl
        | [_, _] => rfl
        | first :: second :: third :: rest =>
          simp only [List.head?_cons, Option.any_some, eqIgnoreAsciiCase_iff] at elsewhere
          exact if_pos elsewhere
      rw [nobody]
      exact (and_iff_left nofun).symm

/-! ## Agreement -/

/-- The employee with the name of the removed area, inside its own scaffold. -/
def TrashScaffold (home path : Path) (caller : HookCaller) : Prop :=
  ∃ id rest, caller = .agent id ∧ toAsciiLowercase id = agentTrashDir ∧
    homeRest path home = some rest ∧ inScaffold rest ∧ areaOwner rest = some agentTrashDir

/-- **The two lanes agree**, for every home, path and caller, exactly outside the scaffold
of the employee named `_trash`: what the Write lane blocks the Bash lane refuses, and what
the Bash lane refuses, audit log names apart, the Write lane blocks. -/
theorem lanes_agree (home path : Path) (caller : HookCaller) (word : List Char) :
    ((writeBlocks home path caller → bashRefuses home path caller word) ∧
      (evidenceOf word = none → bashRefuses home path caller word → writeBlocks home path caller)) ↔
      ¬(TrashScaffold home path caller ∧ evidenceOf word = none) := by
  rw [writeBlocks_iff, bashRefuses_iff]
  constructor
  · rintro ⟨refused, -⟩ ⟨⟨id, rest, rfl, named, found, scaffold, area⟩, plain⟩
    have shut : inWritableDir rest = false := by
      match rest with
      | [] => rfl
      | [_] => rfl
      | first :: _ :: _ =>
        simp only [inScaffold, Bool.and_eq_true, beq_iff_eq] at scaffold
        simp only [inWritableDir, scaffold.1]
        decide
    obtain ⟨rest', found', -, trusted⟩ :=
      refused ⟨rest, found, shut, fun _ other => absurd named other⟩
    rw [found, Option.some.injEq] at found'
    subst found'
    simpa [HookCaller.isUntrusted, plain] using
      trusted (area.trans (congrArg some named.symm)) (.inl scaffold)
  · intro other
    constructor
    · rintro ⟨rest, found, shut, blocked⟩
      refine ⟨rest, found, shut, ?_⟩
      intro area reached
      by_cases named : toAsciiLowercase caller.claimed = agentTrashDir
      · by_cases plain : evidenceOf word = none
        · have scaffold : inScaffold rest := reached.resolve_right (not_not_intro named)
          cases caller with
          | untrusted claimed => exact .inl rfl
          | agent id =>
            have area : areaOwner rest = some agentTrashDir := area.trans (congrArg some named)
            exact absurd ⟨⟨id, rest, rfl, named, found, scaffold, area⟩, plain⟩ other
        · exact .inr (Option.isSome_iff_ne_none.mpr plain)
      · exact .inl (blocked area named)
    · rintro plain ⟨rest, found, shut, refused⟩
      refine ⟨rest, found, shut, ?_⟩
      intro area named
      rcases refused area (.inr named) with untrusted | evidence
      · exact untrusted
      · rw [plain] at evidence
        cases evidence

/-- `/home/u/.duduclaw`. -/
def sampleHome : Path :=
  [.rootDir, .normal "home".toList, .normal "u".toList, .normal ".duduclaw".toList]

/-- `/home/u/.duduclaw/agents/.ephemeral/_trash/notes.md`. -/
def trashNote : Path :=
  sampleHome ++ [.normal "agents".toList, .normal ".ephemeral".toList, .normal "_trash".toList,
    .normal "notes.md".toList]

/-- **The lanes differ** on a file in the scaffold of the employee `_trash`, whose id is
valid: the Write lane reports the removed area, the Bash lane its own directory. -/
theorem lanes_differ_trash : isValidAgentId "_trash".toList ∧ trashNote.isAbsolute ∧
      trashNote.lexicalNormalize = trashNote ∧ callerScopeAt trashNote sampleHome (.agent "_trash".toList) =
        .blockedRemovedAgentArea "_trash".toList trashNote ∧
      ¬(writeBlocks sampleHome trashNote (.agent "_trash".toList) →
        bashRefuses sampleHome trashNote (.agent "_trash".toList)
          "/home/u/.duduclaw/agents/.ephemeral/_trash/notes.md".toList) := by
  refine ⟨by decide, by decide, by decide, by decide, ?_⟩
  decide

end DuDuClaw.OrgFieldGuard
