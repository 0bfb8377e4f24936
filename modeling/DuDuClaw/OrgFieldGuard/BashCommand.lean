/-
# OrgFieldGuard.BashCommand -- what a simple command runs

org_field_guard/bash_cmd.rs: the command behind prefixes such as `sudo` and `nice`, where
a command that copies writes, and whether `xargs` runs one that writes.

The program is stopped where a slice cuts a character; such a function returns `none`
here.  A position in a list of words is the list of the words from there on, since every
loop tests the position against the length before it reads a word.

* `commandAndArgs`, `copyDestinations`, `runsWriter`: the three functions.
-/
import DuDuClaw.Lib.Chars
import DuDuClaw.Lib.Utf8

namespace DuDuClaw.OrgFieldGuard

open DuDuClaw.Lib

/-! ## Tables -/

def table (words : List String) : List (List Char) := words.map String.toList

def copyCommands : List (List Char) := table
  ["cp", "install", "ditto", "scp", "gcp", "dd", "curl", "wget", "tar", "bsdtar", "gtar", "unzip"]

def mutatingCommands : List (List Char) := table
  ["mv", "rm", "rmdir", "unlink", "shred", "srm", "ln", "link", "chmod", "chown", "chgrp",
    "chflags", "chattr", "xattr", "setfacl", "touch", "truncate", "rsync", "tee", "mkdir",
    "mkfifo", "mknod", "sqlite3", "duckdb", "sqlite-utils", "patch", "split", "csplit"]

def interpreters : List (List Char) := table
  ["python", "ruby", "node", "nodejs", "deno", "bun", "perl", "php", "lua", "rscript",
    "osascript", "awk", "gawk", "mawk", "nawk", "bash", "sh", "zsh", "dash", "ksh", "fish",
    "pwsh", "powershell", "swift", "eval", "source", "."]

/-- The interpreters that come with a version number behind their name. -/
def versioned : List (List Char) := table ["python", "ruby", "perl", "php", "node", "lua"]

def readOnlyCommands : List (List Char) := table
  ["ls", "cat", "head", "tail", "grep", "egrep", "fgrep", "wc", "stat", "du", "df", "diff",
    "cmp", "comm", "cut", "tr", "jq", "echo", "printf", "pwd", "realpath", "readlink",
    "basename", "dirname", "md5sum", "sha1sum", "sha256sum", "sha512sum", "shasum", "cksum",
    "strings", "od", "hexdump", "column", "nl", "fold", "rev", "tac", "paste", "join", "seq",
    "date", "whoami", "id", "uname", "which", "type", "test", "[", "true", "false", "sleep",
    "zcat", "gzcat", "bzcat", "xzcat", "look", "lsof", "ps", "export", "unset", "set", "local",
    "declare", "find", "fd"]

def prefixCommands : List (List Char) := table
  ["sudo", "doas", "env", "command", "builtin", "exec", "nohup", "time", "nice", "ionice",
    "stdbuf", "timeout", "caffeinate", "!", "\x7b", "then", "do", "else", "elif", "if", "while",
    "until"]

structure PrefixSpec where
  value : List (List Char)
  plain : List (List Char)
  dest : List (List Char)
  strict : List (List Char)
  positionals : Nat

def noOptions : PrefixSpec := ⟨[], [], [], [], 0⟩

/-- The cases of `prefix_spec`. -/
def prefixSpecs : List (List Char × PrefixSpec) :=
  [("sudo".toList,
    { value := table ["-u", "-g", "-C", "-h", "-p", "-r", "-t", "-T", "-U", "--user", "--group",
        "--close-from", "--host", "--prompt", "--role", "--type", "--command-timeout",
        "--other-user"]
      plain := table ["-A", "-b", "-E", "-H", "-i", "-K", "-k", "-n", "-P", "-S", "-s", "-B",
        "--askpass", "--background", "--preserve-env", "--set-home", "--login",
        "--remove-timestamp", "--reset-timestamp", "--non-interactive", "--preserve-groups",
        "--stdin", "--shell", "--bell"]
      dest := []
      strict := table ["-D", "-e", "-l", "--chdir", "--edit", "--list"]
      positionals := 0 }),
   ("doas".toList,
    { noOptions with value := table ["-u", "-C"], plain := table ["-n", "-s", "-L"] }),
   ("env".toList,
    { value := table ["-u", "-P", "--unset"]
      plain := table ["-i", "-0", "-v", "-", "--ignore-environment", "--null", "--debug"]
      dest := []
      strict := table ["-C", "-S", "--chdir", "--split-string"]
      positionals := 0 }),
   ("nice".toList, { noOptions with value := table ["-n", "--adjustment"] }),
   ("ionice".toList,
    { noOptions with value := table ["-c", "-n", "-p", "-P", "-u"], plain := table ["-t"] }),
   ("timeout".toList,
    { value := table ["-s", "-k", "--signal", "--kill-after"]
      plain := table ["-v", "--preserve-status", "--foreground", "--verbose"]
      dest := []
      strict := []
      positionals := 1 }),
   ("stdbuf".toList,
    { noOptions with value := table ["-i", "-o", "-e", "--input", "--output", "--error"] }),
   ("time".toList,
    { value := table ["-f", "--format"]
      plain := table ["-a", "-p", "-v", "-q", "--append", "--portability", "--verbose", "--quiet"]
      dest := table ["-o", "--output"]
      strict := []
      positionals := 0 }),
   ("command".toList, { noOptions with plain := table ["-p"] }),
   ("exec".toList, { noOptions with value := table ["-a"], plain := table ["-c", "-l"] }),
   ("caffeinate".toList,
    { noOptions with value := table ["-t", "-w"], plain := table ["-d", "-i", "-m", "-s", "-u"] })]

variable (name : List Char) (word : List Char) (cmd : List Char)

def prefixSpec : PrefixSpec := (prefixSpecs.lookup name).getD noOptions

/-! ## Texts -/

def dash : List Char := ['-']

def dashDash : List Char := ['-', '-']

/-- `split_once('=')`. -/
def splitEquals (s : List Char) : Option (List Char × List Char) :=
  if s.contains '=' then some (s.takeWhile (· != '='), (s.dropWhile (· != '=')).drop 1) else none

/-- `parse::<i64>().is_ok()`, of a text without a leading `+`. -/
def parsesInt (s : List Char) : Bool :=
  let (digits, bound) := match s with
    | '-' :: digits => (digits, 2 ^ 63)
    | digits => (digits, 2 ^ 63 - 1)
  !digits.isEmpty && digits.all Char.isDigit &&
    digits.foldl (fun n c => n * 10 + (c.toNat - 48)) 0 ≤ bound

def isAssignment : Bool :=
  match splitEquals word with
  | some (key, _) =>
    !key.isEmpty && key.all (fun c => c.isAlphanum || c == '_') && !key.head?.any Char.isDigit
  | none => false

def baseName : List Char :=
  toAsciiLowercase (word.reverse.takeWhile fun c => c != '/' && c != '\\').reverse

/-! ## Prefixes -/

structure Parsed where
  cmd : List Char
  args : List (List Char)
  strict : Bool
  dests : List (List Char)
  deriving DecidableEq

def niceName : List Char := "nice".toList

def commandName : List Char := "command".toList

def typeName : List Char := "type".toList

/-- `numeric_nice`: the slice is taken whatever the word begins with. -/
def numericNice (name f : List Char) : Option Bool :=
  if name == niceName && 1 < byteLength f then
    (splitAtByte 1 f).map fun parts => parsesInt (parts.2.dropWhile (· == '+'))
  else some false

/-- What the loop of `skip_prefix_options` does at a word: it ends, or goes on. -/
inductive OptionStep where
  | done (rest : List (List Char))
  | next (rest : List (List Char)) (p : Parsed)

/-- A short option with its value in the same word, or several in one. -/
def shortOptions (spec : PrefixSpec) (f : List Char) (rest : List (List Char)) (p : Parsed) :
    Option OptionStep :=
  (splitAtByte 2 f).bind fun cut =>
    if spec.value.contains cut.1 || spec.dest.contains cut.1 then
      some (.next rest
        (if spec.dest.contains cut.1 then { p with dests := p.dests ++ [cut.2] } else p))
    else
      (splitAtByte 1 f).map fun flags =>
        if flags.2.all fun c => spec.plain.any fun plain =>
            byteLength plain == 2 && plain.getLast? == some c then
          .next rest p
        else .next rest { p with strict := true }

/-- A word that begins with a dash and is no plain option. -/
def readOption (spec : PrefixSpec) (f : List Char) (rest : List (List Char)) (p : Parsed) :
    Option OptionStep :=
  match (splitEquals f).filter fun _ => dashDash.isPrefixOf f with
  | some (long, v) =>
    some (.next rest
      (if spec.dest.contains long then { p with dests := p.dests ++ [v] }
      else if spec.strict.contains long ||
          !(spec.value.contains long || spec.plain.contains long) then
        { p with strict := true }
      else p))
  | none =>
    if spec.strict.contains f then some (.next rest.tail { p with strict := true })
    else if spec.value.contains f || spec.dest.contains f then
      some (.next rest.tail
        (if spec.dest.contains f then { p with dests := p.dests ++ rest.head?.toList } else p))
    else if 2 < byteLength f && !dashDash.isPrefixOf f then shortOptions spec f rest p
    else some (.next rest { p with strict := true })

/-- One round of the loop, at the word `f`. -/
def optionStep (name f : List Char) (rest : List (List Char)) (p : Parsed) : Option OptionStep :=
  let spec := prefixSpec name
  if f == dashDash then some (.done rest)
  else
    match numericNice name f with
    | none => none
    | some numeric =>
      if f.head? != some '-' || (f == dash && !spec.plain.contains dash) then
        some (.done (f :: rest))
      else if numeric || spec.plain.contains f then some (.next rest p)
      else readOption spec f rest p

/-- The `while` loop of `skip_prefix_options`; every round takes a word. -/
def skipOptions (name : List Char) : Nat → List (List Char) → Parsed →
    Option (List (List Char) × Parsed)
  | fuel + 1, f :: rest, p =>
    match optionStep name f rest p with
    | none => none
    | some (.done rest) => some (rest, p)
    | some (.next rest p) => skipOptions name fuel rest p
  | _, words, p => some (words, p)

def skipPrefixOptions (words : List (List Char)) (p : Parsed) :
    Option (List (List Char) × Parsed) :=
  (skipOptions name words.length words p).map fun skipped =>
    (skipped.1.drop (prefixSpec name).positionals, skipped.2)

def isVersionQuery : Bool := word == ['-', 'v'] || word == ['-', 'V']

/-- The `while` loop of `command_and_args`; every round takes a word. -/
def commandLoop : Nat → List (List Char) → Parsed → Option (Option Parsed)
  | fuel + 1, w :: rest, p =>
    if isAssignment w then commandLoop fuel rest p
    else if prefixCommands.contains (baseName w) then
      if baseName w == commandName && rest.head?.any isVersionQuery then
        some (some { p with cmd := typeName, args := rest })
      else
        match skipPrefixOptions (baseName w) rest p with
        | none => none
        | some (rest, p) => commandLoop fuel rest p
    else some (some { p with cmd := baseName w, args := rest })
  | _, _, p => some (if p.strict then some p else none)

def commandAndArgs (words : List (List Char)) : Option (Option Parsed) :=
  commandLoop words.length words ⟨[], [], false, []⟩

/-! ## Destinations -/

/-- What one argument gives for one flag of `flag_values`. -/
def flagValue (a : List Char) (next : Option (List Char)) (f : List Char) :
    Option (List (List Char)) :=
  if a == f then some next.toList
  else if dashDash.isPrefixOf f then
    some (if (f ++ ['=']).isPrefixOf a then [a.drop (f.length + 1)] else [])
  else if byteLength f == 2 && f.isPrefixOf a && 2 < byteLength a && !dashDash.isPrefixOf a then
    (splitAtByte 2 a).map fun parts => [parts.2]
  else some []

def flagValues (flags : List (List Char)) : List (List Char) → Option (List (List Char))
  | [] => some []
  | a :: rest =>
    (flags.mapM (flagValue a rest.head?)).bind fun here =>
      (flagValues flags rest).map fun later => here.flatten ++ later

def positional (args : List (List Char)) : List (List Char) :=
  args.filter fun a => a.head? != some '-'

/-- The word after each short-flag word that carries `f`. -/
def archiveNames : List (List Char) → List (List Char)
  | [] => []
  | a :: rest =>
    (if a.head? == some '-' && !dashDash.isPrefixOf a && a.contains 'f' then rest.head?.toList
      else []) ++ archiveNames rest

def copyDestinations (args : List (List Char)) : Option (List (List Char)) :=
  (flagValues (table ["-t", "--target-directory"]) args).bind fun out =>
    if cmd == "dd".toList then
      some (out ++ (args.filter fun a => "of=".toList.isPrefixOf a).map (·.drop 3))
    else if cmd == "curl".toList then
      (flagValues (table ["-o", "--output", "--output-dir"]) args).map (out ++ ·)
    else if cmd == "wget".toList then
      (flagValues (table ["-O", "-o", "-P", "--output-document", "--directory-prefix",
        "--output-file"]) args).map (out ++ ·)
    else if (table ["tar", "bsdtar", "gtar"]).contains cmd then
      (flagValues (table ["-C", "--directory", "--file"]) args).map fun named =>
        out ++ named ++ archiveNames args
    else if cmd == "unzip".toList then (flagValues (table ["-d"]) args).map (out ++ ·)
    else some (if out.isEmpty then (positional args).getLast?.toList else out)

/-! ## What a command does -/

def isInterpreter : Bool :=
  interpreters.any fun i =>
    name == i || (versioned.contains i && i.isPrefixOf name &&
      (name.drop i.length).all fun c => c.isDigit || c == '.')

/-- The actions of `find` and `fd`. -/
def findActions : List (List Char) := table
  ["-delete", "-exec", "-execdir", "-ok", "-okdir", "-fprint", "-fprint0", "-fprintf", "-fls",
    "-x", "-X", "--exec", "--exec-batch"]

def isMutating (args : List (List Char)) : Bool :=
  mutatingCommands.contains cmd ||
    if (table ["sed", "gsed"]).contains cmd then
      args.any fun a => a == "--in-place".toList || "--in-place=".toList.isPrefixOf a ||
        (a.head? == some '-' && !dashDash.isPrefixOf a && a.contains 'i')
    else if (table ["find", "fd"]).contains cmd then
      args.any fun a => findActions.contains (((splitEquals a).map Prod.fst).getD a)
    else false

/-- `VALUE` and `PLAIN` of `runs_writer`. -/
def xargsValue : List (List Char) :=
  table ["-I", "-n", "-P", "-L", "-l", "-s", "-d", "-E", "-e", "-a"]

def xargsPlain : List (List Char) := table
  ["-0", "-r", "-t", "-p", "-x", "-o", "--null", "--no-run-if-empty", "--verbose",
    "--interactive", "--open-tty"]

/-- One round of the loop of `runs_writer`: it ends with the words of the command, gives
up, or goes on. -/
inductive XargsStep where
  | command (words : List (List Char))
  | unknown
  | next (rest : List (List Char))

def xargsStep (a : List Char) (rest : List (List Char)) : Option XargsStep :=
  if a.head? != some '-' then some (.command (a :: rest))
  else if xargsPlain.contains a || (dashDash.isPrefixOf a && a.contains '=') then
    some (.next rest)
  else if xargsValue.contains a then some (.next rest.tail)
  else if 2 < byteLength a then
    (splitAtByte 2 a).map fun cut =>
      if xargsValue.contains cut.1 then .next rest else .unknown
  else some .unknown

/-- The loop; `some none` is the `return true` at an option it does not know. -/
def skipXargs : Nat → List (List Char) → Option (Option (List (List Char)))
  | fuel + 1, a :: rest =>
    match xargsStep a rest with
    | none => none
    | some (.command words) => some (some words)
    | some .unknown => some none
    | some (.next rest) => skipXargs fuel rest
  | _, words => some (some words)

def parallelName : List Char := "parallel".toList

def xargsName : List Char := "xargs".toList

/-- Whether the command behind `xargs` writes. -/
def Parsed.writes (p : Parsed) : Bool :=
  p.strict || isMutating p.cmd p.args || isInterpreter p.cmd || copyCommands.contains p.cmd ||
    !readOnlyCommands.contains p.cmd

def runsWriter (args : List (List Char)) : Option Bool :=
  if cmd == parallelName then some true
  else
    match skipXargs args.length args with
    | none => none
    | some none => some true
    | some (some rest) => (commandAndArgs rest).map fun parsed => parsed.any Parsed.writes

end DuDuClaw.OrgFieldGuard
