/-
# OrgFieldGuard.OperatorCmd -- commands of the operator

The check of operator_cmd.rs, which stands before the subcommands an agent must not run.  It
looks in every command of the line for the binary and, behind its options, for the words of a
protected path, and reads the texts that `echo`, `printf`, `eval` and a shell's `-c` are given
as command lines of their own, two levels deep.

* `Runs`: a line in which a command calls a protected path, there or in such a text.
* `operator_command_reported`: every such line is reported.
* `unknown_option_unread`: an unknown option does not take a value, so that a path behind the
  value is not.
-/
import DuDuClaw.Lib.Fallible
import DuDuClaw.OrgFieldGuard.CommandWords
import DuDuClaw.OrgFieldGuard.OptionSlices
import DuDuClaw.OrgFieldGuard.Quoting

namespace DuDuClaw.OrgFieldGuard.OperatorCmd

open DuDuClaw.Lib

/-! ## Tables -/

structure OperatorCommand where
  name : List Char
  path : List (List Char)

def egressLeaseCommands : List OperatorCommand :=
  [⟨"duduclaw egress-leases".toList, table ["egress-leases"]⟩]

def mcpKeyCommands : List OperatorCommand :=
  [⟨"duduclaw mcp init".toList, table ["mcp", "init"]⟩,
    ⟨"duduclaw mcp issue-refresh-token".toList, table ["mcp", "issue-refresh-token"]⟩]

def binaries : List (List Char) :=
  table ["duduclaw", "duduclaw.exe", "duduclaw-pro", "duduclaw-pro.exe"]

def valueOptions : List (List Char) := table ["--home", "--redact"]

def grepFamily : List (List Char) := table ["grep", "egrep", "fgrep"]

def printers : List (List Char) := table ["echo", "printf"]

def shells : List (List Char) := table ["bash", "sh", "zsh", "dash"]

def shellFiles : List (List Char) := table ["--rcfile", "--init-file"]

def evalName : List Char := "eval".toList

def maxShellReparseDepth : Nat := 2

def maxPrintReparseBytes : Nat := 64 * 1024

/-! ## The check -/

/-- `skip_options`, on the words from `at` on. -/
def skipOptions : List (List Char) → List (List Char)
  | [] => []
  | word :: rest =>
    if word == dashDash then rest
    else if word.head? != some '-' then word :: rest
    else if valueOptions.contains word then
      match rest with
      | [] => []
      | _ :: more => skipOptions more
    else skipOptions rest

/-- `cmd.path.iter().all(..)`, on the words behind the binary. -/
def matchesPath : List (List Char) → List (List Char) → Bool
  | [], _ => true
  | part :: path, words =>
    match skipOptions words with
    | [] => false
    | word :: rest => word == part && matchesPath path rest

/-- `word.rsplit(['/', '\\']).next()`. -/
def lastPart (word : List Char) : List Char :=
  (word.reverse.takeWhile fun c => c != '/' && c != '\\').reverse

/-- The loop over the positions of the binary, on words in lower case. -/
def calledPath (protected_ : List OperatorCommand) : List (List Char) → Option (List Char)
  | [] => none
  | word :: rest =>
    if binaries.contains (lastPart word) then
      match protected_.find? fun cmd => !cmd.path.isEmpty && matchesPath cmd.path rest with
      | some cmd => some cmd.name
      | none => calledPath protected_ rest
    else calledPath protected_ rest

/-- `short_flags` of an argument, when it has them. -/
def shortFlags (arg : List Char) : List Char := if dashDash.isPrefixOf arg then [] else arg.tail

def takesWord (arg : List Char) : Bool :=
  (shortFlags arg).contains 'o' || (shortFlags arg).contains 'O' || shellFiles.contains arg

/-- The loop of `shell_payload`. -/
def commandString : Bool → List (List Char) → Option (List Char)
  | _, [] => none
  | commandMode, arg :: rest =>
    if arg == dashDash then if commandMode then rest.head? else none
    else if arg == dash || arg.head? != some '-' then if commandMode then some arg else none
    else if takesWord arg then
      match rest with
      | [] => none
      | _ :: more => commandString (commandMode || (shortFlags arg).contains 'c') more
    else commandString (commandMode || (shortFlags arg).contains 'c') rest

def shellPayload (cmd : List Char) (args : List (List Char)) : Option (List Char) :=
  if cmd == evalName then if args.isEmpty then none else some ([' '].intercalate args)
  else if shells.contains cmd then commandString false args
  else none

/-- The texts of a command that are read as command lines. -/
def reparsed (p : Parsed) : List (List Char) :=
  (if printers.contains p.cmd then p.args.filter fun arg => byteLength arg ≤ maxPrintReparseBytes
    else []) ++ (shellPayload p.cmd p.args).toList

/-- What the check does with one command; `none` is a panic in `command_and_args`. -/
def judge (protected_ : List OperatorCommand) (deeper : List Char → Option (Option (List Char)))
    (words : List (List Char)) : Option (Option (List Char)) :=
  (commandAndArgs words).bind fun parsed =>
    if parsed.any fun p => grepFamily.contains p.cmd then some none
    else
      match calledPath protected_ (words.map toAsciiLowercase) with
      | some name => some (some name)
      | none => (parsed.toList.flatMap reparsed).findSomeM? deeper

/-- `bash_invokes_operator_command_at_depth`, by the levels that are left. -/
def invokesAtDepth (protected_ : List OperatorCommand) :
    Nat → List Char → Option (Option (List Char))
  | 0, command => (commandWords command).bind fun segments =>
    segments.findSomeM? (judge protected_ fun _ => some none)
  | left + 1, command => (commandWords command).bind fun segments =>
    segments.findSomeM? (judge protected_ (invokesAtDepth protected_ left))

def bashInvokesOperatorCommand (command : List Char) (protected_ : List OperatorCommand) :
    Option (Option (List Char)) :=
  invokesAtDepth protected_ maxShellReparseDepth command

/-! ## Lines that call a protected command -/

/-- Options as the command line has them: words that begin with a dash, of which two take a
value, and `--` as the last. -/
inductive CliOptions : List (List Char) → List (List Char) → Prop
  | none (words : List (List Char)) : CliOptions words words
  | ended (rest : List (List Char)) : CliOptions (dashDash :: rest) rest
  | flag {word : List Char} {rest left : List (List Char)} (option : word.head? = some '-')
      (plain : toAsciiLowercase word ∉ dashDash :: valueOptions) (more : CliOptions rest left) :
      CliOptions (word :: rest) left
  | valued {word value : List Char} {rest left : List (List Char)}
      (takes : toAsciiLowercase word ∈ valueOptions) (more : CliOptions rest left) :
      CliOptions (word :: value :: rest) left

/-- Options of any kind: words that begin with a dash, each with a value or without. -/
inductive AnyOptions : List (List Char) → List (List Char) → Prop
  | none (words : List (List Char)) : AnyOptions words words
  | flag {word : List Char} {rest left : List (List Char)} (option : word.head? = some '-')
      (more : AnyOptions rest left) : AnyOptions (word :: rest) left
  | valued {word value : List Char} {rest left : List (List Char)}
      (option : word.head? = some '-') (more : AnyOptions rest left) :
      AnyOptions (word :: value :: rest) left

/-- The string a shell runs, in its arguments behind those of which one was `-c` or none. -/
inductive CommandString : Bool → List (List Char) → List Char → Prop
  | operand {text : List Char} (rest : List (List Char))
      (plain : text = dash ∨ text.head? ≠ some '-') : CommandString true (text :: rest) text
  | ended (text : List Char) (rest : List (List Char)) :
      CommandString true (dashDash :: text :: rest) text
  | flag {commandMode : Bool} {arg text : List Char} {rest : List (List Char)}
      (option : arg.head? = some '-') (plain : arg ≠ dash ∧ arg ≠ dashDash)
      (alone : takesWord arg = false)
      (more : CommandString (commandMode || (shortFlags arg).contains 'c') rest text) :
      CommandString commandMode (arg :: rest) text
  | valued {commandMode : Bool} {arg value text : List Char} {rest : List (List Char)}
      (option : arg.head? = some '-') (plain : arg ≠ dash ∧ arg ≠ dashDash)
      (takes : takesWord arg = true)
      (more : CommandString (commandMode || (shortFlags arg).contains 'c') rest text) :
      CommandString commandMode (arg :: value :: rest) text

/-- What is left open: the options before the first word of a path and between its words, and
the arguments of `echo` and `printf` that count. -/
structure Forms where
  before : List (List Char) → List (List Char) → Prop
  between : List (List Char) → List (List Char) → Prop
  printed : List Char → Prop

def codeForms : Forms := ⟨CliOptions, CliOptions, fun arg => byteLength arg ≤ maxPrintReparseBytes⟩

def anyForms : Forms := ⟨AnyOptions, Eq, fun _ => True⟩

section
variable (forms : Forms) (protected_ : List OperatorCommand)

/-- The words begin with a path, behind options. -/
def PathBehind (before between : List (List Char) → List (List Char) → Prop) :
    List (List Char) → List (List Char) → Prop
  | [], _ => True
  | part :: path, words => ∃ word rest, before words (word :: rest) ∧
      toAsciiLowercase word = part ∧ PathBehind between between path rest

/-- The binary is one of the words, and a protected path stands behind it. -/
def Calls (words : List (List Char)) : Prop :=
  ∃ front binary behind, words = front ++ binary :: behind ∧
    lastPart (toAsciiLowercase binary) ∈ binaries ∧
    ∃ cmd ∈ protected_, PathBehind forms.before forms.between cmd.path behind

def Exempt (words : List (List Char)) : Prop :=
  ∃ p, commandAndArgs words = some (some p) ∧ p.cmd ∈ grepFamily

/-- The command is given the text to run, or to print. -/
inductive GivesText (p : Parsed) : List Char → Prop
  | printed {arg : List Char} (printer : p.cmd ∈ printers) (listed : arg ∈ p.args)
      (counts : forms.printed arg) : GivesText p arg
  | eval (command : p.cmd = evalName) (some_ : p.args ≠ []) :
      GivesText p ([' '].intercalate p.args)
  | shell {text : List Char} (command : p.cmd ∈ shells)
      (given : CommandString false p.args text) : GivesText p text

/-- A text of a line without redirects: none is removed from it. -/
structure Line (marks : List Mark) : Prop where
  ok : ∀ m ∈ marks, m.ok
  kept : keeps (lineText marks) 0 (lineText marks).length

/-- A command of the line calls a protected path, or is given a line that does, at most so
many levels down. -/
inductive Runs : Nat → List Mark → Prop
  | calls {depth : Nat} {marks : List Mark} {words : List (List Char)} (line : Line marks)
      (segment : words ∈ lineSegments marks) (counts : ¬Exempt words)
      (called : Calls forms protected_ words) : Runs depth marks
  | inside {depth : Nat} {marks inner : List Mark} {words : List (List Char)} {p : Parsed}
      (line : Line marks) (segment : words ∈ lineSegments marks)
      (command : commandAndArgs words = some (some p))
      (given : GivesText forms p (lineText inner)) (runs : Runs depth inner) :
      Runs (depth + 1) marks

end

/-- A path is in lower case, and none of its words is read as an option. -/
def OperatorCommand.ok (cmd : OperatorCommand) : Bool :=
  !cmd.path.isEmpty && cmd.path.all fun part =>
    part.head? != some '-' && toAsciiLowercase part == part

variable {word text : List Char} {words : List (List Char)} {protected_ : List OperatorCommand} {p : Parsed}

theorem protected_ok : (egressLeaseCommands ++ mcpKeyCommands).all OperatorCommand.ok := by
  decide

/-- Nothing stops the check: no redirect is removed twice, and no option of a prefix command
is cut within a character. -/
def Calm : Nat → List Char → Prop
  | 0, command => ∃ segments, commandWords command = some segments ∧
      ∀ words ∈ segments, cutsCommand words = false
  | left + 1, command => ∃ segments, commandWords command = some segments ∧
      ∀ words ∈ segments, cutsCommand words = false ∧
        ∀ p, commandAndArgs words = some (some p) → ∀ text ∈ reparsed p, Calm left text

/-! ## Options and paths -/

theorem head_lower (option : word.head? = some '-') : (toAsciiLowercase word).head? = some '-' := by
  rw [toAsciiLowercase, List.head?_map, option]
  rfl

theorem skipOptions_cons (word : List Char) (rest : List (List Char)) : skipOptions (word :: rest) =
      if word == dashDash then rest
      else if word.head? != some '-' then word :: rest
      else if valueOptions.contains word then skipOptions rest.tail
      else skipOptions rest := by
  cases rest <;> rfl

/-- Whatever is read as an option, the first word behind it that is none is found. -/
theorem skipOptions_eq {left : List (List Char)}
    (options : CliOptions words (word :: left)) (plain : (toAsciiLowercase word).head? ≠ some '-') :
    skipOptions (words.map toAsciiLowercase) = (word :: left).map toAsciiLowercase := by
  generalize shape : word :: left = ahead at options
  induction options with
  | none words =>
    subst shape
    have other : toAsciiLowercase word ≠ dashDash := by
      intro same
      rw [same] at plain
      exact plain rfl
    simp [skipOptions_cons, other, plain]
  | ended rest =>
    have lower : toAsciiLowercase dashDash = dashDash := rfl
    simp [skipOptions_cons, lower]
  | @flag option rest ahead dash other more ih =>
    rw [List.mem_cons, not_or] at other
    simp [skipOptions_cons, other.1, other.2, head_lower dash, ih shape]
  | @valued option value rest ahead takes more ih =>
    have listed := takes
    simp only [valueOptions, table, List.map_cons, List.map_nil, List.mem_cons, List.not_mem_nil,
      or_false] at takes
    have other : toAsciiLowercase option ≠ dashDash ∧ (toAsciiLowercase option).head? = some '-' := by
      rcases takes with same | same <;> rw [same] <;> decide
    simp [skipOptions_cons, other.1, other.2, listed, ih shape]

theorem matchesPath_of_behind {path : List (List Char)} (plain : ∀ part ∈ path, part.head? ≠ some '-')
    (behind : PathBehind CliOptions CliOptions path words) : matchesPath path (words.map toAsciiLowercase) := by
  induction path generalizing words with
  | nil => rfl
  | cons part path ih =>
    obtain ⟨word, rest, options, same, more⟩ := behind
    have first : (toAsciiLowercase word).head? ≠ some '-' := by
      rw [same]
      exact plain part (List.mem_cons_self ..)
    have later := ih (fun other listed => plain other (List.mem_cons_of_mem _ listed)) more
    simp [matchesPath, skipOptions_eq options first, same, later]

theorem calledPath_isSome {front behind : List (List Char)}
    {binary : List Char} (known : lastPart binary ∈ binaries) {cmd : OperatorCommand}
    (listed : cmd ∈ protected_) (nonempty : cmd.path ≠ []) (found : matchesPath cmd.path behind) :
    (calledPath protected_ (front ++ binary :: behind)).isSome := by
  have here : (calledPath protected_ (binary :: behind)).isSome := by
    have some_ : (protected_.find? fun cmd =>
        !cmd.path.isEmpty && matchesPath cmd.path behind).isSome := by
      rw [List.find?_isSome]
      exact ⟨cmd, listed, by simp [nonempty, found]⟩
    obtain ⟨first, same⟩ := Option.isSome_iff_exists.mp some_
    simp [calledPath, known, same]
  induction front with
  | nil => exact here
  | cons word front ih =>
    rw [List.cons_append, calledPath]
    split
    · split
      · rfl
      · exact ih
    · exact ih

theorem calledPath_of_calls (written : ∀ cmd ∈ protected_, cmd.ok) (called : Calls codeForms protected_ words) :
    ∃ name, calledPath protected_ (words.map toAsciiLowercase) = some name := by
  obtain ⟨front, binary, behind, rfl, known, cmd, listed, path⟩ := called
  have ok := written cmd listed
  simp only [OperatorCommand.ok, Bool.and_eq_true, Bool.not_eq_true', List.isEmpty_eq_false_iff,
    List.all_eq_true, bne_iff_ne] at ok
  have found := matchesPath_of_behind (fun part inside => (ok.2 part inside).1) path
  rw [List.map_append, List.map_cons]
  exact Option.isSome_iff_exists.mp (calledPath_isSome known listed ok.1 found)

/-! ## Texts that are read again -/

theorem commandString_cons (commandMode : Bool) (arg : List Char) (rest : List (List Char)) :
    commandString commandMode (arg :: rest) = if arg == dashDash then if commandMode then rest.head? else none
      else if arg == dash || arg.head? != some '-' then if commandMode then some arg else none
      else
        commandString (commandMode || (shortFlags arg).contains 'c')
          (if takesWord arg then rest.tail else rest) := by
  cases rest with
  | nil | cons value more =>
    rw [commandString]
    split
    · rfl
    · split
      · rfl
      · split <;> rfl

theorem commandString_eq {commandMode : Bool} {args : List (List Char)}
    (given : CommandString commandMode args text) : commandString commandMode args = some text := by
  induction given with
  | operand rest plain =>
    rename_i text
    have other : text ≠ dashDash := by
      rintro rfl
      rcases plain with same | other
      · exact absurd same (by decide)
      · exact other rfl
    have last : (text == dash || text.head? != some '-') = true := by
      rcases plain with rfl | plain
      · rfl
      · simp [plain]
    rw [commandString_cons, if_neg (by simpa using other), if_pos last]
    rfl
  | ended text rest =>
    rw [commandString_cons, if_pos (by simp)]
    rfl
  | flag option plain alone more ih =>
    rw [commandString_cons, if_neg (by simpa using plain.2), if_neg (by simp [option, plain.1]), alone]
    exact ih
  | valued option plain takes more ih =>
    rw [commandString_cons, if_neg (by simpa using plain.2), if_neg (by simp [option, plain.1]), takes]
    exact ih

theorem mem_reparsed (given : GivesText codeForms p text) : text ∈ reparsed p := by
  rw [reparsed, List.mem_append]
  cases given with
  | printed printer listed counts =>
    left
    rw [if_pos (by simpa using printer), List.mem_filter]
    exact ⟨listed, by simpa [codeForms] using counts⟩
  | eval command some_ =>
    right
    simp [shellPayload, command, some_]
  | shell command given =>
    right
    have other : p.cmd ≠ evalName := by
      intro same
      rw [same] at command
      exact absurd command (by decide)
    simp [shellPayload, command, other, commandString_eq given]

theorem not_exempt_of_gives (given : GivesText codeForms p text) : p.cmd ∉ grepFamily := by
  have apart : ∀ cmd ∈ evalName :: (printers ++ shells), cmd ∉ grepFamily := by decide
  refine apart p.cmd ?_
  cases given with
  | printed printer => exact List.mem_cons_of_mem _ (List.mem_append_left _ printer)
  | eval command => exact command ▸ List.mem_cons_self ..
  | shell command => exact List.mem_cons_of_mem _ (List.mem_append_right _ command)

/-! ## Every such line is reported -/

section
variable {protected_ : List OperatorCommand}

theorem commandAndArgs_ends {words : List (List Char)} (whole : cutsCommand words = false) :
    commandAndArgs words ≠ none := by
  intro stopped
  rw [commandAndArgs_eq_none_iff, whole] at stopped
  cases stopped

theorem judge_ends {deeper : List Char → Option (Option (List Char))} {words : List (List Char)}
    (whole : cutsCommand words = false)
    (texts : ∀ p, commandAndArgs words = some (some p) → ∀ text ∈ reparsed p, deeper text ≠ none) :
    judge protected_ deeper words ≠ none := by
  obtain ⟨parsed, same⟩ := Option.ne_none_iff_exists'.mp (commandAndArgs_ends whole)
  rw [judge, same, Option.bind_some]
  split
  · exact Option.some_ne_none _
  split
  · exact Option.some_ne_none _
  refine findSomeM_ends fun text listed => ?_
  obtain ⟨p, command, inside⟩ := List.mem_flatMap.mp listed
  rw [Option.mem_toList] at command
  exact texts p (same.trans (congrArg some command)) text inside

def below (protected_ : List OperatorCommand) : Nat → List Char → Option (Option (List Char))
  | 0 => fun _ => some none
  | left + 1 => invokesAtDepth protected_ left

theorem invokesAtDepth_eq (depth : Nat) (command : List Char) : invokesAtDepth protected_ depth command =
      (commandWords command).bind fun segments =>
        segments.findSomeM? (judge protected_ (below protected_ depth)) := by
  cases depth <;> rfl

variable {depth : Nat} {words : List (List Char)} {p : Parsed} {marks : List Mark}

variable (protected_) in
theorem Calm.commands {command : List Char} (calm : Calm depth command) :
    ∃ segments, commandWords command = some segments ∧ ∀ words ∈ segments, cutsCommand words = false ∧
        ∀ p, commandAndArgs words = some (some p) →
          ∀ text ∈ reparsed p, below protected_ depth text ≠ none := by
  induction depth generalizing command with
  | zero =>
    obtain ⟨segments, same, whole⟩ := calm
    exact ⟨segments, same, fun words listed =>
      ⟨whole words listed, fun _ _ _ _ => Option.some_ne_none _⟩⟩
  | succ depth ih =>
    obtain ⟨segments, same, whole⟩ := calm
    refine ⟨segments, same, fun words listed => ⟨(whole words listed).1, ?_⟩⟩
    intro p named text given
    obtain ⟨inner, read_all, calm⟩ := ih ((whole words listed).2 p named text given)
    rw [below, invokesAtDepth_eq, read_all, Option.bind_some]
    exact findSomeM_ends fun words inside => judge_ends (calm words inside).1 (calm words inside).2

theorem judge_calls (written : ∀ cmd ∈ protected_, cmd.ok)
    (deeper : List Char → Option (Option (List Char))) (whole : cutsCommand words = false)
    (counts : ¬Exempt words) (called : Calls codeForms protected_ words) :
    ∃ name, judge protected_ deeper words = some (some name) := by
  obtain ⟨parsed, same⟩ := Option.ne_none_iff_exists'.mp (commandAndArgs_ends whole)
  obtain ⟨name, found⟩ := calledPath_of_calls written called
  have other : (parsed.any fun p => grepFamily.contains p.cmd) = false := by
    cases parsed with
    | none => rfl
    | some p =>
      have free : p.cmd ∉ grepFamily := fun listed => counts ⟨p, same, listed⟩
      simpa using free
  refine ⟨name, ?_⟩
  rw [judge, same, Option.bind_some, other, found]
  rfl

/-- So is a command that is given a text that is reported. -/
theorem judge_gives
    {deeper : List Char → Option (Option (List Char))} {text : List Char}
    (command : commandAndArgs words = some (some p)) (given : GivesText codeForms p text)
    (ends : ∀ other ∈ reparsed p, deeper other ≠ none) (found : ∃ name, deeper text = some (some name)) :
    ∃ name, judge protected_ deeper words = some (some name) := by
  have other : grepFamily.contains p.cmd = false := by simpa using not_exempt_of_gives given
  rw [judge, command, Option.bind_some, Option.any_some, other]
  cases calledPath protected_ (words.map toAsciiLowercase) with
  | some name => exact ⟨name, rfl⟩
  | none =>
    have texts : (some p).toList.flatMap reparsed = reparsed p := by simp
    rw [texts]
    exact findSomeM_found ends (mem_reparsed given) found

theorem commandWords_of_line (line : Line marks) : commandWords (lineText marks) =
      some ((lineSegments marks).filter fun words => !words.isEmpty) := by
  refine commandWords_line line.ok ?_
  have copied := Copies.keep (by omega) line.kept []
  simp only [Nat.zero_add, List.drop_zero, List.take_length, List.nil_append] at copied
  exact Copies.whole copied

theorem mem_commands (segment : words ∈ lineSegments marks) (nonempty : words ≠ []) :
    words ∈ (lineSegments marks).filter fun words => !words.isEmpty := by
  rw [List.mem_filter]
  exact ⟨segment, by simpa using nonempty⟩

theorem Calls.nonempty {forms : Forms} (called : Calls forms protected_ words) : words ≠ [] := by
  obtain ⟨front, binary, behind, rfl, _⟩ := called
  simp

theorem nonempty_of_command (command : commandAndArgs words = some (some p)) : words ≠ [] := by
  rintro rfl
  cases command

theorem invokesAtDepth_found (line : Line marks) (calm : Calm depth (lineText marks))
    (segment : words ∈ lineSegments marks) (nonempty : words ≠ []) (found : cutsCommand words = false →
      (∀ p, commandAndArgs words = some (some p) → ∀ text ∈ reparsed p, below protected_ depth text ≠ none) →
      ∃ name, judge protected_ (below protected_ depth) words = some (some name)) :
    ∃ name, invokesAtDepth protected_ depth (lineText marks) = some (some name) := by
  have listed := mem_commands segment nonempty
  have read_all := commandWords_of_line line
  obtain ⟨segments, same, whole⟩ := calm.commands protected_
  rw [read_all] at same
  cases same
  rw [invokesAtDepth_eq, read_all, Option.bind_some]
  exact findSomeM_found (fun other inside => judge_ends (whole other inside).1 (whole other inside).2)
    listed (found (whole words listed).1 (whole words listed).2)

theorem calm_given (line : Line marks) (calm : Calm (depth + 1) (lineText marks))
    (segment : words ∈ lineSegments marks) (command : commandAndArgs words = some (some p)) {text : List Char}
    (given : GivesText codeForms p text) : Calm depth text := by
  obtain ⟨segments, same, whole⟩ := calm
  rw [commandWords_of_line line] at same
  cases same
  exact (whole words (mem_commands segment (nonempty_of_command command))).2 p command text
    (mem_reparsed given)

theorem runs_reported (written : ∀ cmd ∈ protected_, cmd.ok)
    (calm : Calm depth (lineText marks)) (runs : Runs codeForms protected_ depth marks) :
    ∃ name, invokesAtDepth protected_ depth (lineText marks) = some (some name) := by
  induction runs with
  | calls line segment counts called =>
    exact invokesAtDepth_found line calm segment called.nonempty fun whole _ =>
      judge_calls written _ whole counts called
  | inside line segment command given runs ih =>
    exact invokesAtDepth_found line calm segment (nonempty_of_command command) fun _ ends =>
      judge_gives command given (ends _ command) (ih (calm_given line calm segment command given))

end

/-- **Operator commands are reported**, however they are quoted, whatever the case of their
letters and however deep they stand within what is read again. -/
theorem operator_command_reported {protected_ : List OperatorCommand}
    (written : ∀ cmd ∈ protected_, cmd.ok) {marks : List Mark}
    (calm : Calm maxShellReparseDepth (lineText marks))
    (runs : Runs codeForms protected_ maxShellReparseDepth marks) :
    ∃ name, bashInvokesOperatorCommand (lineText marks) protected_ = some (some name) :=
  runs_reported written calm runs

/-- A text without quotes or separators. -/
def plainMarks (s : List Char) : List Mark :=
  s.map fun c => if c = ' ' then .blank c else .bare c

/-- `duduclaw --home . Egress-Leases`, and the shell that is told to run it. -/
def leaseText : List Char := "duduclaw --home . Egress-Leases".toList

def leaseWords : List (List Char) := table ["duduclaw", "--home", ".", "Egress-Leases"]

def shellMarks : List Mark := plainMarks "sh -c ".toList ++ [.single leaseText]

def shellWords : List (List Char) := [['s', 'h'], ['-', 'c'], leaseText]

theorem leaseText_marks : lineText (plainMarks leaseText) = leaseText := by decide

theorem leaseLine : Line (plainMarks leaseText) := ⟨by decide, by decide⟩

theorem leaseCommand :
    commandAndArgs leaseWords = some (some ⟨"duduclaw".toList, leaseWords.tail, false, []⟩) := by
  decide

theorem shellCommand : commandAndArgs shellWords = some (some ⟨['s', 'h'], shellWords.tail, false, []⟩) := by
  decide

theorem lease_reparsed : reparsed ⟨"duduclaw".toList, leaseWords.tail, false, []⟩ = [] := by decide

theorem shell_reparsed : reparsed ⟨['s', 'h'], shellWords.tail, false, []⟩ = [leaseText] := by
  decide

theorem leases_run (depth : Nat) : Runs codeForms egressLeaseCommands depth (plainMarks leaseText) := by
  have segment : leaseWords ∈ lineSegments (plainMarks leaseText) := by decide
  refine .calls leaseLine segment ?_ ?_
  · rintro ⟨p, command, listed⟩
    rw [leaseCommand] at command
    cases command
    exact absurd listed (by decide)
  · exact ⟨[], _, _, rfl, by decide, _, List.mem_cons_self .., _, [],
      .valued (by decide) (.none _), by decide, trivial⟩

/-- Nothing stops the check of a command of one segment whose texts are calm. -/
theorem calm_one {depth : Nat} {command : List Char} {words : List (List Char)} {p : Parsed}
    (read_all : commandWords command = some [words]) (whole : cutsCommand words = false)
    (named : commandAndArgs words = some (some p)) (texts : ∀ text ∈ reparsed p, Calm depth text) :
    Calm (depth + 1) command := by
  refine ⟨[words], read_all, ?_⟩
  intro other listed
  obtain rfl := List.mem_singleton.mp listed
  refine ⟨whole, fun q same => ?_⟩
  rw [named] at same
  cases same
  exact texts

theorem shell_reported : ∃ name, bashInvokesOperatorCommand (lineText shellMarks) egressLeaseCommands =
      some (some name) := by
  have segment : shellWords ∈ lineSegments shellMarks := by decide
  have line : Line shellMarks := ⟨by decide, by decide⟩
  have lease : Calm 1 leaseText := by
    refine calm_one (by decide) (by decide) leaseCommand fun text listed => ?_
    rw [lease_reparsed] at listed
    cases listed
  refine operator_command_reported (by decide) (calm_one (by decide) (by decide) shellCommand ?_)
    (.inside line segment shellCommand (.shell (by decide) ?_) (leases_run 1))
  · intro text listed
    rw [shell_reparsed, List.mem_singleton] at listed
    exact listed ▸ lease
  · rw [leaseText_marks]
    exact .flag rfl (by decide) (by decide) (.operand _ (.inr (by decide)))

/-- `duduclaw --x y egress-leases`. -/
def unknownOption : List Char := "duduclaw --x y egress-leases".toList

def unknownWords : List (List Char) := table ["duduclaw", "--x", "y", "egress-leases"]

theorem unknownCommand :
    commandAndArgs unknownWords = some (some ⟨"duduclaw".toList, unknownWords.tail, false, []⟩) := by
  decide

theorem unknown_segments : commandWords unknownOption = some [unknownWords] := by decide

theorem unknown_reparsed : reparsed ⟨"duduclaw".toList, unknownWords.tail, false, []⟩ = [] := by
  decide

theorem unknown_silent : bashInvokesOperatorCommand unknownOption egressLeaseCommands = some none := by
  have other : grepFamily.contains "duduclaw".toList = false := by decide
  have called : calledPath egressLeaseCommands (unknownWords.map toAsciiLowercase) = none := by
    decide
  rw [bashInvokesOperatorCommand, invokesAtDepth_eq, unknown_segments, Option.bind_some,
    List.findSomeM?_cons, judge, unknownCommand, Option.bind_some, Option.any_some, other, called,
    Option.toList_some, List.flatMap_singleton, unknown_reparsed]
  rfl

/-- An option that the check does not know takes no value, so that a path behind its value is
not found. -/
theorem unknown_option_unread : ¬∀ protected_ marks, (∀ cmd ∈ protected_, cmd.ok) →
      Calm maxShellReparseDepth (lineText marks) → Runs anyForms protected_ maxShellReparseDepth marks →
      ∃ name, bashInvokesOperatorCommand (lineText marks) protected_ = some (some name) := by
  intro reported
  have text : lineText (plainMarks unknownOption) = unknownOption := by decide
  have segment : unknownWords ∈ lineSegments (plainMarks unknownOption) := by decide
  have calm : Calm maxShellReparseDepth (lineText (plainMarks unknownOption)) := by
    rw [text]
    refine calm_one unknown_segments (by decide) unknownCommand fun text listed => ?_
    rw [unknown_reparsed] at listed
    cases listed
  have counts : ¬Exempt unknownWords := by
    rintro ⟨p, command, listed⟩
    rw [unknownCommand] at command
    cases command
    exact absurd listed (by decide)
  have called : Calls anyForms egressLeaseCommands unknownWords :=
    ⟨[], _, _, rfl, by decide, _, List.mem_cons_self .., _, [], .valued rfl (.none _), by decide, trivial⟩
  obtain ⟨name, found⟩ := reported egressLeaseCommands (plainMarks unknownOption) (by decide) calm
    (.calls ⟨by decide, by decide⟩ segment counts called)
  rw [text, unknown_silent] at found
  cases found

end DuDuClaw.OrgFieldGuard.OperatorCmd
