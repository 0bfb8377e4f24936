/-
# OrgFieldGuard.RefusedTargets -- the words a command is judged by

`refused_targets` of org_field_guard/bash_parse.rs.  One pass over the simple commands of
a Bash command keeps the working directory, with a stack for parentheses, and judges the
words each command may write, against the directory it has there.

The judgements are listed first (`judgements`) and asked for their targets afterwards
(`refusedTargets`); the file system's answers are the parameter `real`, which is
`resolve_real_path`, `none` where it fails.  As in `BashCommand`, `none` is a program
stopped at a slice.

* `judgements_eq_none_iff`: the pass stops exactly at a command one of whose words is cut.
-/
import DuDuClaw.Lib.Substring
import DuDuClaw.OrgFieldGuard.Lanes
import DuDuClaw.OrgFieldGuard.OptionSlices
import DuDuClaw.OrgFieldGuard.Tokenize

namespace DuDuClaw.OrgFieldGuard

open DuDuClaw.Lib

/-! ## Words -/

/-- `eq_prefix_ci`; the slice is at the offset `get` has just taken. -/
def eqPrefixCi (w start : List Char) : Option (List Char) :=
  (splitAtByte (byteLength start) w).bind fun parts =>
    if eqIgnoreAsciiCase parts.1 start then some parts.2 else none

variable (w : List Char) (word : List Char) (ctx : Ctx)

def isRelativeWord : Bool :=
  !(w.head? == some '/' || w.head? == some '~' || w.head? == some '$' || w.isEmpty)

def bracedHome : List Char := "$\x7bDUDUCLAW_HOME\x7d".toList

def plainHome : List Char := "$DUDUCLAW_HOME".toList

def bracedUser : List Char := "$\x7bHOME\x7d".toList

def plainUser : List Char := "$HOME".toList

/-- `unbrace_home_vars`; every round takes at least one character. -/
def unbrace : Nat → List Char → List Char
  | fuel + 1, c :: rest =>
    match eqPrefixCi (c :: rest) bracedHome with
    | some after => plainHome ++ unbrace fuel after
    | none =>
      match eqPrefixCi (c :: rest) bracedUser with
      | some after => plainUser ++ unbrace fuel after
      | none => c :: unbrace fuel rest
  | _, _ => []

def unbraceHomeVars : List Char := unbrace word.length word

def endsPiece (c : Char) : Bool :=
  isWhitespace c || ['\'', '"', '(', ')', ',', ';', '=', '<', '>', backquote, '\x7b', '\x7d', '[',
    ']'].contains c

def pieces : List (List Char) :=
  ((unbraceHomeVars word).splitOnP endsPiece).filter (!·.isEmpty)

def dbSuffixes : List (List Char) := table
  [".db", ".db-wal", ".db-shm", ".db-journal", ".sqlite", ".sqlite3", ".sqlite-wal",
    ".sqlite-shm", ".sqlite-journal"]

def isDbName : Bool :=
  (dbSuffixes.any fun suffix => suffix.isSuffixOf (baseName word)) ||
    "-journal".toList.isSuffixOf (baseName word)

/-! ## The path a word names -/

def dotDuduclaw : List Char := ".duduclaw".toList

def Ctx.homeIsDotDuduclaw : Bool :=
  match ctx.home.getLast? with
  | some (.normal name) => eqIgnoreAsciiCase name dotDuduclaw
  | _ => false

/-- The spellings of the home directory, in the order they are tried. -/
def Ctx.homeSpellings : List (List Char) :=
  [plainHome, bracedHome] ++
    if ctx.homeIsDotDuduclaw then
      ['~' :: '/' :: dotDuduclaw, plainUser ++ '/' :: dotDuduclaw, bracedUser ++ '/' :: dotDuduclaw]
    else []

/-- The closure `home_rel`. -/
def homeRel (w start : List Char) : Option (List Char) :=
  (eqPrefixCi w start).bind fun r =>
    if r.isEmpty || r.head? == some '/' then some (r.dropWhile (· == '/')) else none

/-- A quoted Windows path keeps its backslashes. -/
def forwardSlashes : List Char :=
  match w with
  | drive :: ':' :: '\\' :: _ =>
    if drive.isAlpha then w.map fun c => if c == '\\' then '/' else c else w
  | _ => w

/-- The words taken as absolute paths; the byte before the colon is a character. -/
def isAbsoluteWord : Bool :=
  match w with
  | '/' :: _ => true
  | drive :: ':' :: '/' :: _ => drive.utf8Size == 1
  | _ => false

def Ctx.resolveRaw (word : List Char) (cwd : Option Path) : Option Path :=
  let w := forwardSlashes (trim word)
  if w.isEmpty then none
  else
    match ctx.homeSpellings.findSome? (homeRel w) with
    | some r => some (ctx.home.joinText r)
    | none =>
      if isAbsoluteWord w then some (Path.parse w)
      else if !isRelativeWord w then none
      else cwd.map fun dir => dir.joinText w

/-- `Ctx::classify`. -/
def Ctx.classifyWord (real : Path → Option Path) (strictRelative : Bool)
    (word : List Char) (cwd : Option Path) : Option HomeTarget :=
  match ctx.resolveRaw word cwd with
  | some raw => ctx.classify word raw (real raw)
  | none =>
    if strictRelative && isRelativeWord (trim word) then some (.state [trim word])
    else (evidenceOf word).map fun name => .state [name]

/-! ## The pass -/

inductive Position where
  | database
  | redirect
  | argument
  deriving DecidableEq

/-- A word that is judged, against a working directory. -/
structure Judgement where
  position : Position
  word : List Char
  cwd : Option Path
  deriving DecidableEq

def HomeTarget.isState : HomeTarget → Bool
  | .state _ => true
  | _ => false

/-- The target a judgement refuses: any state for a database, else `judge`. -/
def Ctx.judge (real : Path → Option Path) (strictRelative : Bool) (j : Judgement) :
    Option HomeTarget :=
  (ctx.classifyWord real strictRelative j.word j.cwd).filter
    (match j.position with
      | .database => HomeTarget.isState
      | .redirect | .argument => ctx.refused)

/-- The working directory, and those saved at the open parentheses. -/
structure Place where
  cwd : Option Path
  stack : List (Option Path)

def Place.enter (place : Place) : Option Tok → Place
  | some .opening => ⟨place.cwd, place.cwd :: place.stack⟩
  | some .closing =>
    match place.stack with
    | saved :: stack => ⟨saved, stack⟩
    | [] => place
  | _ => place

/-- Where `cd` and `pushd` lead. -/
def Ctx.changeDir (args : List (List Char)) (cwd : Option Path) : Option Path :=
  match (positional args).head? with
  | none => none
  | some d => if d == dash then none else ctx.resolveRaw d cwd

/-- What every simple command is judged by: its database names and its redirects. -/
def Segment.always (seg : Segment) (cwd : Option Path) : List Judgement :=
  ((((seg.words ++ seg.redirs).flatMap pieces).filter isDbName).map fun p => ⟨.database, p, cwd⟩) ++
    seg.redirs.map fun r => ⟨.redirect, r, cwd⟩

def arguments (words : List (List Char)) (cwd : Option Path) : List Judgement :=
  words.map fun w => ⟨.argument, w, cwd⟩

def isOptionPiece (p : List Char) : Bool := p.head? == some '-' && !p.contains '/'

def changesDir (cmd : List Char) : Bool := cmd == "cd".toList || cmd == "pushd".toList

def popdName : List Char := "popd".toList

def Ctx.command (allWords : List (List Char)) (seg : Segment) (p : Parsed)
    (cwd : Option Path) : Option (List Judgement × Option Path) :=
  if p.strict then some (arguments (seg.words.flatMap pieces) cwd, cwd)
  else if changesDir p.cmd then some ([], ctx.changeDir p.args cwd)
  else if p.cmd == popdName then some ([], none)
  else if copyCommands.contains p.cmd then
    (copyDestinations p.cmd p.args).map fun dests => (arguments dests cwd, cwd)
  else if p.cmd == xargsName || p.cmd == parallelName then
    (runsWriter p.cmd p.args).map fun writes =>
      (if writes then arguments (allWords.flatMap pieces) cwd else [], cwd)
  else if readOnlyCommands.contains p.cmd && !isMutating p.cmd p.args then some ([], cwd)
  else some (arguments ((p.args.flatMap pieces).filter (!isOptionPiece ·)) cwd, cwd)

def Ctx.segment (allWords : List (List Char)) (seg : Segment) (cwd : Option Path) :
    Option (List Judgement × Option Path) :=
  match commandAndArgs seg.words with
  | none => none
  | some none => some (seg.always cwd, cwd)
  | some (some p) =>
    (ctx.command allWords seg p cwd).map fun rest =>
      (seg.always cwd ++ arguments p.dests cwd ++ rest.1, rest.2)

def Ctx.judgeSegments (ctx : Ctx) (allWords : List (List Char)) :
    List Segment → Place → Option (List Judgement)
  | [], _ => some []
  | seg :: rest, place =>
    match ctx.segment allWords seg (place.enter seg.openedBy).cwd with
    | none => none
    | some (found, cwd) =>
      (ctx.judgeSegments allWords rest ⟨cwd, (place.enter seg.openedBy).stack⟩).map (found ++ ·)

def Ctx.judgements (command : List Char) (start : Option Path) :
    Option (List Judgement) :=
  let segs := segments (tokenize command)
  ctx.judgeSegments (segs.flatMap Segment.words) segs ⟨start, []⟩

/-- The pre-pass: a word names a target outright. -/
def Ctx.namesTarget (real : Path → Option Path) (start : Option Path)
    (w : List Char) : Bool :=
  ((pieces w).any fun p =>
    !isRelativeWord p && (ctx.classifyWord real false p none).any ctx.refused) ||
  (pieces w).any fun p =>
    (findSub ['.', '.'] p).isSome && (ctx.classifyWord real false p start).any ctx.refused

def Ctx.strictRelative (real : Path → Option Path) (command : List Char)
    (start : Option Path) : Bool :=
  (tokenize command).any fun t =>
    match t with
    | .word w | .redirOut w => ctx.namesTarget real start w
    | _ => false

def Ctx.refusedTargets (real : Path → Option Path) (command : List Char)
    (start : Option Path) : Option (List HomeTarget) :=
  (ctx.judgements command start).map fun found =>
    found.filterMap (ctx.judge real (ctx.strictRelative real command start))

/-! ## Where the pass is stopped -/

def cutsSegment (words : List (List Char)) : Bool :=
  cutsCommand words ||
    match commandAndArgs words with
    | some (some p) => !p.strict && p.cmd == xargsName && cutsXargs p.args
    | _ => false

/-- `xargs` is none of the commands told before it. -/
theorem xargs_first : changesDir xargsName = false ∧ (xargsName == popdName) = false ∧
    copyCommands.contains xargsName = false := by
  decide

theorem command_eq_none_iff (allWords : List (List Char)) (seg : Segment) (p : Parsed)
    (cwd : Option Path) : ctx.command allWords seg p cwd = none ↔
      (!p.strict && p.cmd == xargsName && cutsXargs p.args) = true := by
  rw [Ctx.command]
  cases p.strict with
  | true => simp
  | false =>
    simp only [Bool.false_eq_true, if_false, Bool.not_false, Bool.true_and]
    by_cases xargs : p.cmd = xargsName
    · have other : xargsName ≠ parallelName := by decide
      rw [xargs, xargs_first.1, xargs_first.2.1, xargs_first.2.2]
      simp [runsWriter_eq_none_iff, other]
    have copies := Option.isSome_iff_exists.mp (copyDestinations_isSome p.cmd p.args)
    obtain ⟨dests, copied⟩ := copies
    simp only [beq_eq_false_iff_ne.mpr xargs, Bool.false_and, Bool.false_eq_true, iff_false, Bool.false_or]
    split_ifs
    · simp
    · simp
    · simp [copied]
    · rename_i parallel
      rw [beq_iff_eq] at parallel
      simp [runsWriter, parallel]
    · simp
    · simp

theorem segment_eq_none_iff (allWords : List (List Char)) (seg : Segment)
    (cwd : Option Path) : ctx.segment allWords seg cwd = none ↔ cutsSegment seg.words = true := by
  have command := commandAndArgs_eq_none_iff seg.words
  rw [Ctx.segment, cutsSegment]
  cases parsed : commandAndArgs seg.words with
  | none =>
    rw [parsed] at command
    simp [command.mp rfl]
  | some result =>
    have narrow : cutsCommand seg.words = false := by
      rw [Bool.eq_false_iff, ne_eq, ← command, parsed]
      nofun
    rw [narrow, Bool.false_or]
    cases result with
    | none => simp
    | some p =>
      simp only [Option.map_eq_none_iff]
      exact command_eq_none_iff ctx allWords seg p cwd

theorem judgeSegments_eq_none_iff (allWords : List (List Char)) (segs : List Segment)
    (place : Place) : ctx.judgeSegments allWords segs place = none ↔
      (segs.any fun seg => cutsSegment seg.words) = true := by
  induction segs generalizing place with
  | nil => simp [Ctx.judgeSegments]
  | cons seg rest ih =>
    have here := segment_eq_none_iff ctx allWords seg (place.enter seg.openedBy).cwd
    rw [Ctx.judgeSegments, List.any_cons, Bool.or_eq_true, ← here]
    cases ctx.segment allWords seg (place.enter seg.openedBy).cwd with
    | none => simp
    | some found =>
      simp only [Option.map_eq_none_iff, reduceCtorEq, false_or]
      exact ih _

/-- **Where the pass is stopped.** -/
theorem judgements_eq_none_iff (command : List Char) (start : Option Path) :
    ctx.judgements command start = none ↔
      ((segments (tokenize command)).any fun seg => cutsSegment seg.words) = true :=
  judgeSegments_eq_none_iff ctx _ _ _

end DuDuClaw.OrgFieldGuard
