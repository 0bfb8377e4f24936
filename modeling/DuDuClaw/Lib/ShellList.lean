/-
# Lib.ShellList -- lists of commands that change directory and redirect their output

Shell commands over `cd DIR` and output redirects, joined by `;`, `&&`, newline, `|`, `&`
and parentheses: how they are written, and in which directory the shell opens the file of
each redirect.

A stage of a pipeline, a background job and a command in parentheses run in a shell of
their own, so a `cd` there does not move the shell that started it.  Every `cd` is taken to
succeed, and leads where the path does when its `.` and `..` are taken out lexically.

* `Cmd`: a list by its grammar, with the blanks it is written with; a `CommandList` is one
  that is written as the grammar has it.
* `dirAfter`, `opens`: what the shell does.
-/
import DuDuClaw.Lib.Path
import DuDuClaw.Lib.Spelling

namespace DuDuClaw.Lib

universe u v

/-! ## Redirects -/

inductive OutForm where
  | out
  | append
  | clobber
  | both
  | bothAppend

def OutForm.text : OutForm → List Char
  | .out => ['>']
  | .append => ['>', '>']
  | .clobber => ['>', '|']
  | .both => ['&', '>']
  | .bothAppend => ['&', '>', '>']

def OutForm.isBoth : OutForm → Bool
  | .both | .bothAppend => true
  | _ => false

/-- An operator, with the number of the descriptor before it. -/
structure OutOp where
  fd : List Char
  form : OutForm

def OutOp.ok (op : OutOp) : Bool :=
  op.fd.all Char.isDigit && (op.fd.isEmpty || !op.form.isBoth)

def OutOp.text (op : OutOp) : List Char := op.fd ++ op.form.text

/-- An output redirect, with the blanks before it and before its target. -/
structure Redirect (ω : Type u) where
  before : List Char
  op : OutOp
  gap : List Char
  target : ω

/-- A word of digits before an operator would be its descriptor. -/
def isNumber (value : List Char) : Bool := !value.isEmpty && value.all Char.isDigit

/-- The redirect may stand after the word of value `prev`, or, for `none`, where no word has
been read. -/
def Redirect.fits {ω : Type u} (r : Redirect ω) (prev : Option (List Char)) : Bool :=
  !r.before.isEmpty ||
    match prev with
    | none => !r.op.form.isBoth
    | some value => r.op.fd.isEmpty && !isNumber value

def Redirect.blanksOk {ω : Type u} (r : Redirect ω) : Bool :=
  r.before.all isBlankChar && r.op.ok && r.gap.all isBlankChar

def Redirect.text (r : Redirect Spelling) : List Char :=
  r.before ++ r.op.text ++ r.gap ++ r.target.text

def redirectsOk : Option (List Char) → List (Redirect Spelling) → Bool
  | _, [] => true
  | prev, r :: rest => r.blanksOk && r.fits prev && redirectsOk (some r.target.value) rest

def redirectsText (redirs : List (Redirect Spelling)) : List Char := redirs.flatMap Redirect.text

/-! ## Lists -/

inductive Joint where
  | pipe
  | andIf
  | semi
  | newline
  | amp
  deriving DecidableEq

def Joint.text : Joint → List Char
  | .pipe => ['|']
  | .andIf => ['&', '&']
  | .semi => [';']
  | .newline => ['\n']
  | .amp => ['&']

/-- The left side runs in a shell of its own. -/
def Joint.forks : Joint → Bool
  | .pipe | .amp => true
  | _ => false

/-- A list of commands over the words `ω`. -/
inductive Cmd (ω : Type u) where
  /-- `cd`, blanks and a directory, or only redirects. -/
  | simple (lead : List Char) (dir : Option (List Char × ω)) (redirs : List (Redirect ω))
      (trail : List Char)
  | subshell (lead : List Char) (body : Cmd ω) (redirs : List (Redirect ω)) (trail : List Char)
  | join (joint : Joint) (left right : Cmd ω)
  /-- A list with the joint that ends its last command. -/
  | ended (joint : Joint) (body : Cmd ω)

namespace Cmd

def cdText : List Char := ['c', 'd']

def dirText : Option (List Char × Spelling) → List Char
  | some (gap, dir) => cdText ++ gap ++ dir.text
  | none => []

def text : Cmd Spelling → List Char
  | .simple lead dir redirs trail => lead ++ dirText dir ++ redirectsText redirs ++ trail
  | .subshell lead body redirs trail =>
    lead ++ '(' :: (body.text ++ ')' :: (redirectsText redirs ++ trail))
  | .join joint left right => left.text ++ joint.text ++ right.text
  | .ended joint body => body.text ++ joint.text

/-- How tightly a list is bound: a stage, a pipeline, an and-list, a list. -/
def level {ω : Type u} : Cmd ω → Nat
  | .simple .. | .subshell .. => 0
  | .join .pipe .. => 1
  | .join .andIf .. => 2
  | .join .. | .ended .. => 3

/-- The joints bind as the shell's grammar has it. -/
def joins : Joint → Nat → Nat → Bool
  | .pipe, left, right => left ≤ 1 && right == 0
  | .andIf, left, right => left ≤ 2 && right ≤ 1
  | _, left, _ => left ≤ 2

/-- The text may follow the joint: `&>` is an operator of its own. -/
def mayFollow (joint : Joint) (next : List Char) : Bool :=
  match joint with
  | .andIf | .amp => next.head? != some '>'
  | _ => true

def dirOk : Option (List Char × Spelling) → Bool
  | some (gap, _) => !gap.isEmpty && gap.all isBlankChar
  | none => true

/-- The list is written as the shell reads it. -/
def ok : Cmd Spelling → Bool
  | .simple lead dir redirs trail =>
    lead.all isBlankChar && dirOk dir && (dir.isSome || !redirs.isEmpty) &&
      redirectsOk (dir.map fun d => d.2.value) redirs && trail.all isBlankChar
  | .subshell lead body redirs trail =>
    lead.all isBlankChar && body.ok && redirectsOk none redirs && trail.all isBlankChar
  | .join joint left right =>
    left.ok && right.ok && joins joint left.level right.level && mayFollow joint right.text
  | .ended joint body =>
    body.ok && body.level ≤ 2 && joint != .pipe && joint != .andIf

end Cmd

/-- A list, written as the shell reads it. -/
structure CommandList where
  cmd : Cmd Spelling
  ok : cmd.ok

namespace Cmd

/-! ## What the shell does -/

/-- Where `cd` leads from a directory. -/
def cdFrom (from_ : Path) (dir : List Char) : Path :=
  if (Path.parse dir).isAbsolute then (Path.parse dir).lexicalNormalize
  else (Path.parse dir).foldl Path.normalizeStep from_

/-- The directory of the shell after it has run the list. -/
def dirAfter : Cmd Spelling → Path → Path
  | .simple _ dir _ _, here => (dir.map fun d => cdFrom here d.2.value).getD here
  | .subshell .., here => here
  | .join .pipe _ _, here => here
  | .join .amp _ right, here => right.dirAfter here
  | .join _ left right, here => right.dirAfter (left.dirAfter here)
  | .ended .amp _, here => here
  | .ended _ body, here => body.dirAfter here

/-- A file opened for output, and the directory its name is taken in. -/
structure Opened where
  word : List Char
  dir : Path
  deriving DecidableEq

def openedIn (redirs : List (Redirect Spelling)) (dir : Path) : List Opened :=
  redirs.map fun r => ⟨r.target.value, dir⟩

/-- The files the list opens, in the order they are written. -/
def opens : Cmd Spelling → Path → List Opened
  | .simple _ _ redirs _, here => openedIn redirs here
  | .subshell _ body redirs _, here => body.opens here ++ openedIn redirs here
  | .join joint left right, here =>
    left.opens here ++ right.opens (if joint.forks then here else left.dirAfter here)
  | .ended _ body, here => body.opens here

/-- The list over other words. -/
def map {ω : Type u} {ω' : Type v} (f : ω → ω') : Cmd ω → Cmd ω'
  | .simple lead dir redirs trail =>
    .simple lead (dir.map fun d => (d.1, f d.2)) (redirs.map fun r => { r with target := f r.target })
      trail
  | .subshell lead body redirs trail =>
    .subshell lead (body.map f) (redirs.map fun r => { r with target := f r.target }) trail
  | .join joint left right => .join joint (left.map f) (right.map f)
  | .ended joint body => .ended joint (body.map f)

def shape {ω : Type u} (c : Cmd ω) : Cmd Unit := c.map fun _ => ()

end Cmd

end DuDuClaw.Lib
