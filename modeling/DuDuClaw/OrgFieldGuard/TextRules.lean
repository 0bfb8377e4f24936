/-
# OrgFieldGuard.TextRules -- the rules that search the text

The rules of the Bash guard that look for names in the lowercased command: operator
commands, the agents' directories, the caller's own structure files and the protected
base names (org_field_guard/bash_lane.rs, matcher.rs).  Each is asked about two spellings
of the command.

`agents_dir_segments` goes by byte offsets; as elsewhere `none` is a program stopped at a
slice or an index.

* `agentsDirSegments_isSome`: its offsets lie between characters.
* `textRules_isSome`: so the rules always answer.
-/
import DuDuClaw.Lib.Substring
import DuDuClaw.OrgFieldGuard.BashCommand
import DuDuClaw.OrgFieldGuard.Lanes

namespace DuDuClaw.OrgFieldGuard

open DuDuClaw.Lib

inductive BashDecision where
  | notAgentFile
  | blockedOperatorMemoryCommand (caller command : List Char)
  | blockedUntrustedCaller (caller : List Char) (attemptedPath : Path)
  | blockedRemovedAgentArea (caller : List Char) (attemptedPath : Path)
  | blockedForeignAgentDir (caller owner : List Char) (attemptedPath : Path)
  | blockedOwnSoulWrite (caller : List Char) (attemptedPath : Path)
  | blockedOwnContractWrite (caller : List Char) (attemptedPath : Path)
  | blockedOwnInstructionsWrite (caller : List Char) (attemptedPath : Path)
  | blockedBashProtectedWrite (fileName verb : List Char)
  | blockedHomeStateWrite (caller : List Char) (attemptedPath : Path)

def BashDecision.isAllowed : BashDecision → Bool
  | .notAgentFile => true
  | _ => false

/-! ## Names in the text -/

/-- `s.contains(pat)`. -/
def containsText (s pat : List Char) : Bool := (findSub pat s).isSome

def writeVerbs : List (List Char) := table
  [">", "tee", "sed -i", "sed --in-place", "perl -i", "perl -pi", "mv ", "cp ", "rm ", "dd ",
    "truncate", "install ", "python", "ruby", "node ", "cat <<", "printf", "ln ", "chmod", "chown",
    "unlink", "rmdir", "shred", "rsync", "sqlite3", "touch ", "ditto"]

variable (normalized : List Char) (c : Char)

def writeVerb : Option (List Char) :=
  writeVerbs.find? (containsText normalized)

def agentsSlash : List Char := "agents/".toList

def isIdByte (b : UInt8) : Bool :=
  (0x61 ≤ b && b ≤ 0x7a) || (0x30 ≤ b && b ≤ 0x39) || b == 0x5f || b == 0x2d

def isIdChar : Bool := c.isAlphanum || c == '-' || c == '_'

/-- `boundary_ok`: the byte before the match is no byte of a name. -/
def boundaryOk (s : List Char) (matchStart : Nat) : Option Bool :=
  if matchStart == 0 then some true
  else (bytes s)[matchStart - 1]?.map fun before => !isIdByte before

/-- The loop of `agents_dir_segments`, from a byte offset; every round takes the
characters of a match. -/
def agentsDirFrom (s : List Char) : Nat → Nat → Option (List (List Char))
  | 0, _ => some []
  | fuel + 1, searchFrom => do
    let (_, tail) ← splitAtByte searchFrom s
    match findSub agentsSlash tail with
    | none => some []
    | some i =>
      let matchStart := searchFrom + byteLength (tail.take i)
      let ok ← boundaryOk s matchStart
      let segStart := matchStart + byteLength agentsSlash
      let (_, rest) ← splitAtByte segStart s
      let (seg, _) ← splitAtByte (byteLength (rest.takeWhile isIdChar)) rest
      let later ← agentsDirFrom s fuel segStart
      return (if ok && !seg.isEmpty then [seg] else []) ++ later

def agentsDirSegments (s : List Char) : Option (List (List Char)) :=
  agentsDirFrom s (s.length + 1) 0

def endsComponent : Bool :=
  isWhitespace c || ['/', '\'', '"', ';', '&', '|', '(', ')', '<', '>', '='].contains c

def mentionsRemovedAgentArea : Bool :=
  (normalized.splitOnP endsComponent).contains (toAsciiLowercase agentTrashDir)

def mentionsOtherAgentDir (normalized callerId : List Char) : Option (Option (List Char)) :=
  (agentsDirSegments normalized).map fun segs => segs.find? (· != toAsciiLowercase callerId)

/-- One segment of `lexical_dir`. -/
def lexicalDirStep (out : List (List Char)) (seg : List Char) : List (List Char) :=
  if seg == [] || seg == ['.'] then out
  else if seg == ['.', '.'] then
    match out.getLast? with
    | some last => if last != ['.', '.'] then out.dropLast else out ++ [seg]
    | none => out ++ [seg]
  else out ++ [seg]

def lexicalDir (dir : List Char) : List Char :=
  (List.intersperse ['/'] ((dir.splitOn '/').foldl lexicalDirStep [])).flatten

def quotesToken : Bool := c == '\'' || c == '"' || c == '>' || c == '<'

/-- Whether a token names the caller's own file. -/
def isOwnFile (callerLower basename tok : List Char) : Option Bool :=
  match stripSuffix basename tok with
  | none => some false
  | some rest =>
    match stripSuffix ['/'] rest with
    | none => some rest.isEmpty
    | some dir =>
      if (lexicalDir dir).isEmpty then some true
      else (agentsDirSegments (lexicalDir dir)).map (·.contains callerLower)

/-- `any`, of a test that may stop the program. -/
def anyStopping {α : Type} (test : α → Option Bool) : List α → Option Bool
  | [] => some false
  | a :: rest => (test a).bind fun found => if found then some true else anyStopping test rest

def mentionsOwnAgentFile (normalized callerId basename : List Char) : Option Bool :=
  anyStopping (fun raw => isOwnFile (toAsciiLowercase callerId) basename (trimMatches quotesToken raw))
    (splitWhitespace normalized)

def mentionsOwnSoulMd (normalized callerId : List Char) : Option Bool :=
  mentionsOwnAgentFile normalized callerId "soul.md".toList

def mentionsOwnContractToml (normalized callerId : List Char) : Option Bool :=
  mentionsOwnAgentFile normalized callerId "contract.toml".toList

def mentionsOwnInstructionsMd (normalized callerId : List Char) : Option Bool :=
  anyStopping (mentionsOwnAgentFile normalized callerId)
    (table ["instructions.md", "user.md", "identity.md"])

/-! ## The rules -/

/-- The binaries `bash_operator_memory_command` looks for, and their subcommands. -/
def operatorBinaries : List (List Char) :=
  table ["duduclaw", "duduclaw.exe", "duduclaw-pro", "duduclaw-pro.exe"]

def operatorMemorySubcommands : List (List Char) := table ["forget-source", "migrate-namespace"]

def memoryName : List Char := "memory".toList

def splitsCommand : Bool :=
  c == ';' || c == '&' || c == '|' || c == '\n' || c == '(' || c == ')' || c == backquote

/-- `rest.windows(2).find_map(..)`. -/
def memorySubcommand : List (List Char) → Option (List Char)
  | first :: second :: rest =>
    if first == memoryName && operatorMemorySubcommands.contains second then some second
    else memorySubcommand (second :: rest)
  | _ => none

def operatorSubcommand (part : List Char) : Option (List Char) :=
  let tokens := (splitWhitespace part).map (trimMatches fun c => c == '\'' || c == '"')
  let isBinary := fun (t : List Char) =>
    operatorBinaries.contains (t.reverse.takeWhile fun c => c != '/' && c != '\\').reverse
  memorySubcommand ((tokens.dropWhile fun t => !isBinary t).drop 1)

/-- `bash_operator_memory_command`; the caller `none` is `Absent`. -/
def bashOperatorMemoryCommand : Option HookCaller → BashDecision
  | none => .notAgentFile
  | some caller =>
    match (normalized.splitOnP splitsCommand).findSome? operatorSubcommand with
    | some sub => .blockedOperatorMemoryCommand caller.claimed sub
    | none => .notAgentFile

/-- `if matched && write_verb(normalized).is_some() { return blocked }`, and the rest. -/
def whenWritten (matched : Option Bool) (blocked : BashDecision)
    (rest : Option BashDecision) : Option BashDecision :=
  matched.bind fun found =>
    if found && (writeVerb normalized).isSome then some blocked else rest

def namesAgentsArea (normalized claimed : List Char) : Option Bool :=
  anyStopping (fun test => test ())
    [fun (_ : Unit) => some (mentionsRemovedAgentArea normalized),
      fun _ => (agentsDirSegments normalized).map (!·.isEmpty),
      fun _ => mentionsOwnSoulMd normalized claimed,
      fun _ => mentionsOwnContractToml normalized claimed,
      fun _ => mentionsOwnInstructionsMd normalized claimed]

def bashNameRules (home : Path) : Option HookCaller → Option BashDecision
  | none => some .notAgentFile
  | some (.untrusted claimed) =>
    whenWritten normalized (namesAgentsArea normalized claimed)
      (.blockedUntrustedCaller claimed (home.joinText agentsDir)) (some .notAgentFile)
  | some (.agent id) =>
    let agents := home.joinText agentsDir
    whenWritten normalized (some (mentionsRemovedAgentArea normalized))
      (.blockedRemovedAgentArea id (agents.joinText agentTrashDir))
      ((mentionsOtherAgentDir normalized id).bind fun other =>
        match other.filter fun _ => (writeVerb normalized).isSome with
        | some owner => some (.blockedForeignAgentDir id owner (agents.joinText owner))
        | none =>
          whenWritten normalized (mentionsOwnSoulMd normalized id)
            (.blockedOwnSoulWrite id ((agents.joinText id).joinText "SOUL.md".toList))
            (whenWritten normalized (mentionsOwnContractToml normalized id)
              (.blockedOwnContractWrite id
                ((agents.joinText id).joinText "CONTRACT.toml".toList))
              (whenWritten normalized (mentionsOwnInstructionsMd normalized id)
                (.blockedOwnInstructionsWrite id
                  ((agents.joinText id).joinText "INSTRUCTIONS.md".toList))
                (some .notAgentFile))))

/-- A file of the home directory is named: by its path, or below `.duduclaw/`. -/
def mentionsHomeFile (home : Path) (name : List Char) : Bool :=
  containsText normalized
      ((toAsciiLowercase (home.joinText name).lexicalNormalize.text).map fun c =>
        if c == '\\' then '/' else c) ||
    containsText normalized (".duduclaw/".toList ++ name)

def orgStoreFile : List Char := "org.toml".toList

def orgSeededFile : List Char := ".org-seeded".toList

def identityKeyFile : List Char := "identity.key".toList

def hookSettingsFiles : List (List Char) := table ["settings.json", "settings.local.json"]

/-- The protected file a command names, by the name it is reported under. -/
def protectedFile (home : Path) : Option (List Char) :=
  if containsText normalized "autonomy_pause.".toList then some "autonomy_pause.json".toList
  else if containsText normalized "agent.toml".toList then some "agent.toml".toList
  else if [orgStoreFile, orgSeededFile].any (mentionsHomeFile normalized home) then
    some orgStoreFile
  else if mentionsHomeFile normalized home configName then some configName
  else if containsText normalized identityKeyFile then some identityKeyFile
  else if containsText normalized ".mcp.json".toList then some ".mcp.json".toList
  else if hookSettingsFiles.any fun f => containsText normalized (".claude/".toList ++ f) then
    some "settings.json".toList
  else none

def bashProtectedBasenames (home : Path) : BashDecision :=
  match protectedFile normalized home with
  | none => .notAgentFile
  | some fileName =>
    match writeVerb normalized with
    | none => .notAgentFile
    | some verb => .blockedBashProtectedWrite fileName verb

def firstBlock : List (Unit → Option BashDecision) → Option BashDecision
  | [] => some .notAgentFile
  | rule :: rest =>
    (rule ()).bind fun d => if d.isAllowed then firstBlock rest else some d

/-- The three loops of `check_bash_protected_write_in` over the two spellings. -/
def textRules (unescaped slashed : List Char) (home : Path) (caller : Option HookCaller) :
    Option BashDecision :=
  firstBlock
    [fun _ => some (bashOperatorMemoryCommand unescaped caller),
      fun _ => some (bashOperatorMemoryCommand slashed caller),
      fun _ => bashNameRules unescaped home caller,
      fun _ => bashNameRules slashed home caller,
      fun _ => some (bashProtectedBasenames unescaped home),
      fun _ => some (bashProtectedBasenames slashed home)]

/-! ## The rules always answer -/

variable {s front back : List Char}

theorem boundaryOk_isSome {matchStart : Nat} (inside : matchStart ≤ byteLength s) :
    (boundaryOk s matchStart).isSome := by
  unfold boundaryOk
  split
  · rfl
  rename_i later
  rw [beq_iff_eq] at later
  have bound : matchStart - 1 < (bytes s).length := by
    rw [length_bytes]
    omega
  rw [List.getElem?_eq_getElem bound]
  rfl

/-- A round from an offset between two characters ends the search, or goes on from a later
such offset. -/
theorem agentsDirFrom_round (whole : s = front ++ back) :
    (∀ fuel, agentsDirFrom s (fuel + 1) (byteLength front) = some []) ∨
      ∃ here next rest, s = next ++ rest ∧ rest.length < back.length ∧
        ∀ fuel, agentsDirFrom s (fuel + 1) (byteLength front) =
          (agentsDirFrom s fuel (byteLength next)).map (here ++ ·) := by
  have cut : splitAtByte (byteLength front) s = some (front, back) := by
    rw [whole, splitAtByte_append]
  cases found : findSub agentsSlash back with
  | none =>
    left
    intro fuel
    simp [agentsDirFrom, cut, found]
  | some i =>
    right
    obtain ⟨⟨rest, occurs⟩, -⟩ := findSub_eq_some_iff.mp found
    have parts : back = back.take i ++ (agentsSlash ++ rest) := by
      rw [occurs, List.take_append_drop]
    have start : byteLength front + byteLength (back.take i) = byteLength (front ++ back.take i) :=
      (byteLength_append _ _).symm
    have after : byteLength (front ++ back.take i) + byteLength agentsSlash =
        byteLength (front ++ back.take i ++ agentsSlash) := (byteLength_append _ _).symm
    have shape : s = (front ++ back.take i ++ agentsSlash) ++ rest := by
      rw [whole, List.append_assoc, List.append_assoc, ← parts]
    have tail : splitAtByte (byteLength (front ++ back.take i ++ agentsSlash)) s =
        some (front ++ back.take i ++ agentsSlash, rest) := by
      rw [shape]
      exact splitAtByte_append _ _
    have name : splitAtByte (byteLength (rest.takeWhile isIdChar)) rest =
        some (rest.takeWhile isIdChar, rest.dropWhile isIdChar) := by
      have split := splitAtByte_append (rest.takeWhile isIdChar) (rest.dropWhile isIdChar)
      rw [List.takeWhile_append_dropWhile] at split
      exact split
    have inside : byteLength (front ++ back.take i) ≤ byteLength s := by
      have size := congrArg byteLength shape
      rw [byteLength_append, ← after] at size
      omega
    obtain ⟨ok, before⟩ := Option.isSome_iff_exists.mp (boundaryOk_isSome inside)
    refine ⟨if ok && !(rest.takeWhile isIdChar).isEmpty then [rest.takeWhile isIdChar] else [],
      front ++ back.take i ++ agentsSlash, rest, shape, ?_, ?_⟩
    · have slash : agentsSlash.length = 7 := rfl
      have lengths := congrArg List.length parts
      rw [List.length_append, List.length_append, slash] at lengths
      omega
    · intro fuel
      rw [agentsDirFrom]
      simp only [cut, found, Option.bind_eq_bind, Option.bind_some, start, before, after, tail, name]
      cases agentsDirFrom s fuel (byteLength (front ++ back.take i ++ agentsSlash)) <;> rfl

theorem agentsDirFrom_isSome (whole : s = front ++ back) (fuel : Nat) :
    (agentsDirFrom s fuel (byteLength front)).isSome := by
  induction fuel generalizing front back with
  | zero => rfl
  | succ fuel ih =>
    rcases agentsDirFrom_round whole with last | ⟨here, next, rest, shape, -, round⟩
    · rw [last]
      rfl
    · rw [round, Option.isSome_map]
      exact ih shape

/-- More rounds than characters change nothing. -/
theorem agentsDirFrom_fuel (whole : s = front ++ back) {fuel : Nat}
    (enough : back.length < fuel) : agentsDirFrom s fuel (byteLength front) =
      agentsDirFrom s (back.length + 1) (byteLength front) := by
  induction fuel using Nat.strongRecOn generalizing front back with
  | _ fuel ih =>
    obtain ⟨fuel, rfl⟩ : ∃ n, fuel = n + 1 := ⟨fuel - 1, by omega⟩
    rcases agentsDirFrom_round whole with last | ⟨here, next, rest, shape, shorter, round⟩
    · rw [last, last]
    rw [round, round, ih fuel (by omega) shape (by omega)]
    by_cases fewer : back.length < fuel + 1
    · rw [ih back.length fewer shape (by omega)]
    · omega

/-- **The offsets of `agents_dir_segments` lie between characters.** -/
theorem agentsDirSegments_isSome (s : List Char) : (agentsDirSegments s).isSome :=
  agentsDirFrom_isSome (List.nil_append s).symm (s.length + 1)

theorem anyStopping_isSome {α : Type} {test : α → Option Bool} {l : List α}
    (answers : ∀ a ∈ l, (test a).isSome) : (anyStopping test l).isSome := by
  induction l with
  | nil => rfl
  | cons a rest ih =>
    obtain ⟨found, answer⟩ := Option.isSome_iff_exists.mp (answers a List.mem_cons_self)
    rw [anyStopping, answer, Option.bind_some]
    split
    · rfl
    · exact ih fun b later => answers b (List.mem_cons_of_mem a later)

theorem isOwnFile_isSome (callerLower basename tok : List Char) :
    (isOwnFile callerLower basename tok).isSome := by
  unfold isOwnFile
  split
  · rfl
  split
  · rfl
  split
  · rfl
  · rw [Option.isSome_map]
    exact agentsDirSegments_isSome _

theorem mentionsOwnAgentFile_isSome (normalized callerId basename : List Char) :
    (mentionsOwnAgentFile normalized callerId basename).isSome :=
  anyStopping_isSome fun _ _ => isOwnFile_isSome _ _ _

theorem mentionsOwnInstructionsMd_isSome (normalized callerId : List Char) :
    (mentionsOwnInstructionsMd normalized callerId).isSome :=
  anyStopping_isSome fun _ _ => mentionsOwnAgentFile_isSome _ _ _

theorem namesAgentsArea_isSome (normalized claimed : List Char) :
    (namesAgentsArea normalized claimed).isSome := by
  refine anyStopping_isSome ?_
  simp only [List.forall_mem_cons]
  refine ⟨rfl, ?_, ?_, ?_, ?_, nofun⟩
  · rw [Option.isSome_map]
    exact agentsDirSegments_isSome normalized
  · exact mentionsOwnAgentFile_isSome _ _ _
  · exact mentionsOwnAgentFile_isSome _ _ _
  · exact mentionsOwnInstructionsMd_isSome _ _

theorem whenWritten_isSome {normalized : List Char} {matched : Option Bool} {blocked : BashDecision}
    {rest : Option BashDecision} (answers : matched.isSome) (goesOn : rest.isSome) :
    (whenWritten normalized matched blocked rest).isSome := by
  obtain ⟨found, rfl⟩ := Option.isSome_iff_exists.mp answers
  rw [whenWritten, Option.bind_some]
  split
  · rfl
  · exact goesOn

theorem bashNameRules_isSome (normalized : List Char) (home : Path) (caller : Option HookCaller) :
    (bashNameRules normalized home caller).isSome := by
  cases caller with
  | none => rfl
  | some caller =>
    cases caller with
    | untrusted claimed => exact whenWritten_isSome (namesAgentsArea_isSome _ _) rfl
    | agent id =>
      have segs := Option.isSome_iff_exists.mp (agentsDirSegments_isSome normalized)
      obtain ⟨segs, found⟩ := segs
      refine whenWritten_isSome rfl ?_
      rw [mentionsOtherAgentDir, found, Option.map_some, Option.bind_some]
      split
      · rfl
      · refine whenWritten_isSome (mentionsOwnAgentFile_isSome _ _ _) ?_
        refine whenWritten_isSome (mentionsOwnAgentFile_isSome _ _ _) ?_
        exact whenWritten_isSome (mentionsOwnInstructionsMd_isSome _ _) rfl

theorem firstBlock_isSome {rules : List (Unit → Option BashDecision)}
    (answers : ∀ rule ∈ rules, (rule ()).isSome) : (firstBlock rules).isSome := by
  induction rules with
  | nil => rfl
  | cons rule rest ih =>
    obtain ⟨d, answer⟩ := Option.isSome_iff_exists.mp (answers rule List.mem_cons_self)
    rw [firstBlock, answer, Option.bind_some]
    split
    · exact ih fun other later => answers other (List.mem_cons_of_mem rule later)
    · rfl

/-- **The rules always answer.** -/
theorem textRules_isSome (unescaped slashed : List Char) (home : Path)
    (caller : Option HookCaller) : (textRules unescaped slashed home caller).isSome := by
  refine firstBlock_isSome ?_
  simp only [List.forall_mem_cons]
  exact ⟨rfl, rfl, bashNameRules_isSome _ _ _, bashNameRules_isSome _ _ _, rfl, rfl, nofun⟩

end DuDuClaw.OrgFieldGuard
