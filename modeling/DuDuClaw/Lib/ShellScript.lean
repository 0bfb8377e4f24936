/-
# Lib.ShellScript -- commands, redirects, comments and separators as they are written

A script of simple commands: how it is written, and which words the shell passes to each of
them.  Nothing is expanded; a redirect takes its one target, and a comment the rest of its
line.

* `Script`: the commands and the separators behind them, written as the shell reads them.
* `Script.words`: the words of each command that has one.
* `Script.items`: the same in one list, in the order of the text.
-/
import DuDuClaw.Lib.ShellList

namespace DuDuClaw.Lib

/-! ## Words and redirects -/

inductive RedirectOp where
  | output (op : OutOp)
  | input
  | readWrite

namespace RedirectOp

def text : RedirectOp → List Char
  | .output op => op.text
  | .input => ['<']
  | .readWrite => ['<', '>']

def ok : RedirectOp → Bool
  | .output op => op.ok
  | _ => true

/-- The operator may follow the word of this text without a blank.  Bare digits would be its
descriptor. -/
def joins (before : List Char) : RedirectOp → Bool
  | .output op => op.form.isBoth || (op.fd.isEmpty && !isNumber before)
  | _ => !isNumber before

end RedirectOp

/-- A part of a simple command, with the blanks before it. -/
inductive Element where
  | word (before : List Char) (w : Spelling)
  | redirect (before : List Char) (op : RedirectOp) (gap : List Char) (target : Spelling)

namespace Element

def text : Element → List Char
  | .word before w => before ++ w.text
  | .redirect before op gap target => before ++ (op.text ++ (gap ++ target.text))

def lastText : Element → List Char
  | .word _ w => w.text
  | .redirect _ _ _ target => target.text

def ok : Element → Bool
  | .word before _ => before.all isBlankChar
  | .redirect before op gap _ => before.all isBlankChar && op.ok && gap.all isBlankChar

/-- It may stand behind the word of text `prev`, or, for `none`, where no word was read. -/
def fits (prev : Option (List Char)) : Element → Bool
  | .word before _ => prev.isNone || !before.isEmpty
  | .redirect before op _ _ => !before.isEmpty || prev.all op.joins

def word? : Element → Option (List Char)
  | .word _ w => some w.value
  | .redirect .. => none

end Element

/-! ## Commands -/

inductive Separator where
  | semi
  | andIf
  | orIf
  | pipe
  | amp
  | newline
  deriving DecidableEq

namespace Separator

def text : Separator → List Char
  | .semi => [';']
  | .andIf => ['&', '&']
  | .orIf => ['|', '|']
  | .pipe => ['|']
  | .amp => ['&']
  | .newline => ['\n']

/-- A command has to follow, on this line or a later one. -/
def waits : Separator → Bool
  | .andIf | .orIf | .pipe => true
  | _ => false

/-- The text may follow directly: `&>`, `;&` and `|&` are operators of their own. -/
def mayFollow (next : List Char) : Separator → Bool
  | .amp => next.head? != some '>' && next.head? != some '&'
  | .semi | .pipe => next.head? != some '&'
  | _ => true

end Separator

inductive Item where
  | element (e : Element)
  | space (blanks : List Char)
  /-- What stands behind the `#`. -/
  | comment (s : List Char)
  | separator (sep : Separator)

namespace Item

def text : Item → List Char
  | .element e => e.text
  | .space blanks => blanks
  | .comment s => '#' :: s
  | .separator sep => sep.text

def textOf (items : List Item) : List Char := items.flatMap text

@[simp] theorem textOf_nil : textOf [] = [] := rfl

@[simp] theorem textOf_cons (item : Item) (rest : List Item) :
    textOf (item :: rest) = item.text ++ textOf rest := rfl

/-- The words between two separators, behind those of `current`. -/
def gather (current : List (List Char)) : List Item → List (List (List Char))
  | [] => [current]
  | .element e :: rest => gather (current ++ e.word?.toList) rest
  | .separator _ :: rest => current :: gather [] rest
  | .space _ :: rest => gather current rest
  | .comment _ :: rest => gather current rest

/-- Every item is well written and may stand behind what was read last. -/
def fitting (prev : Option (List Char)) : List Item → Bool
  | [] => true
  | .element e :: rest => e.ok && e.fits prev && fitting (some e.lastText) rest
  | .space blanks :: rest =>
    blanks.all isBlankChar && fitting (if blanks.isEmpty then prev else none) rest
  | .comment _ :: rest => fitting none rest
  | .separator _ :: rest => fitting none rest

end Item

structure SimpleCommand where
  elements : List Element
  trail : List Char
  comment : Option (List Char)

namespace SimpleCommand

variable (c : SimpleCommand)

def items : List Item :=
  c.elements.map .element ++ (.space c.trail :: (c.comment.map .comment).toList)

def text : List Char := Item.textOf c.items

def words : List (List Char) := c.elements.filterMap Element.word?

/-- A comment has a blank before it and ends with the line. -/
def ok : Bool :=
  Item.fitting none c.items &&
    c.comment.all fun s => s.all (· != '\n') && (c.elements.isEmpty || !c.trail.isEmpty)

end SimpleCommand

/-! ## Scripts -/

/-- The commands are written as the shell reads them; `waiting` tells that `&&`, `||` or `|`
still has to be followed by a command.  Only a line may be empty, and only its end closes a
comment. -/
def commandsOk (waiting : Bool) : List (SimpleCommand × Separator) → SimpleCommand → Bool
  | [], last => last.ok && (!waiting || !last.elements.isEmpty)
  | (c, sep) :: rest, last =>
    c.ok && ((!c.elements.isEmpty && c.comment.isNone) || sep == .newline) &&
      sep.mayFollow (((rest.map Prod.fst).head?.getD last).text) &&
      commandsOk (if c.elements.isEmpty then waiting else sep.waits) rest last

structure Script where
  commands : List (SimpleCommand × Separator)
  last : SimpleCommand
  ok : commandsOk false commands last

namespace Script

def itemsOf (commands : List (SimpleCommand × Separator)) (last : SimpleCommand) : List Item :=
  commands.flatMap (fun c => c.1.items ++ [.separator c.2]) ++ last.items

def items (s : Script) : List Item := itemsOf s.commands s.last

def text (s : Script) : List Char := Item.textOf s.items

/-- What the shell passes to each command, a command without words left out. -/
def words (s : Script) : List (List (List Char)) :=
  ((s.commands.map fun c => c.1.words) ++ [s.last.words]).filter fun words => !words.isEmpty

end Script

/-! ## The items of a script -/

namespace Item

variable {prev : Option (List Char)} {rest : List Item}

theorem gather_elements (current : List (List Char)) (elements : List Element) (rest : List Item) :
    gather current (elements.map .element ++ rest) =
      gather (current ++ elements.filterMap Element.word?) rest := by
  induction elements generalizing current with
  | nil => simp
  | cons e more ih =>
    rw [List.map_cons, List.cons_append, gather, ih]
    cases e with
    | word before w => simp [Element.word?]
    | redirect before op gap target =>
      rw [Element.word?, Option.toList_none, List.append_nil, List.filterMap_cons_none rfl]

theorem gather_command (c : SimpleCommand) (rest : List Item) :
    gather [] (c.items ++ rest) = gather c.words rest := by
  rw [SimpleCommand.items, List.append_assoc, gather_elements, List.nil_append]
  cases c.comment <;> rfl

theorem gather_script (commands : List (SimpleCommand × Separator)) (last : SimpleCommand) :
    gather [] (Script.itemsOf commands last) = (commands.map fun c => c.1.words) ++ [last.words] := by
  induction commands with
  | nil =>
    have whole := gather_command last []
    rw [List.append_nil] at whole
    exact whole
  | cons c more ih =>
    have shape : Script.itemsOf (c :: more) last =
        c.1.items ++ (.separator c.2 :: Script.itemsOf more last) := by
      simp [Script.itemsOf]
    rw [shape, gather_command, gather, ih]
    rfl

/-- Where no word stands before, every item may stand that may stand behind one. -/
theorem fitting_none {items : List Item} (fit : fitting prev items) : fitting none items := by
  induction items generalizing prev with
  | nil => rfl
  | cons item rest ih =>
    cases item with
    | element e =>
      simp only [fitting, Bool.and_eq_true] at fit ⊢
      refine ⟨⟨fit.1.1, ?_⟩, fit.2⟩
      cases e <;> simp [Element.fits]
    | space blanks =>
      rw [fitting, Bool.and_eq_true] at fit ⊢
      refine ⟨fit.1, ?_⟩
      split
      · exact ih fit.2
      · exact ih fit.2
    | comment s | separator sep => exact fit

theorem fitting_tail {item : Item} (fit : fitting prev (item :: rest)) : fitting none rest := by
  cases item with
  | element e | space blanks =>
    rw [fitting, Bool.and_eq_true] at fit
    exact fitting_none fit.2
  | comment s | separator sep => exact fit

theorem fitting_elements (prev : Option (List Char)) (elements : List Element)
    (rest rest' : List Item) (same : ∀ prev, fitting prev rest → fitting prev rest')
    (fit : fitting prev (elements.map .element ++ rest)) : fitting prev (elements.map .element ++ rest') := by
  induction elements generalizing prev with
  | nil => exact same prev fit
  | cons e more ih =>
    simp only [List.map_cons, List.cons_append, fitting, Bool.and_eq_true] at fit ⊢
    exact ⟨fit.1, ih _ fit.2⟩

theorem fitting_command {c : SimpleCommand} (ok : c.ok) {sep : Separator}
    (fit : fitting none rest) : fitting none (c.items ++ (.separator sep :: rest)) := by
  rw [SimpleCommand.ok, Bool.and_eq_true] at ok
  rw [SimpleCommand.items, List.append_assoc]
  refine fitting_elements none c.elements _ _ ?_ ok.1
  intro prev trailed
  rw [fitting, Bool.and_eq_true] at trailed
  rw [List.cons_append, fitting, Bool.and_eq_true]
  refine ⟨trailed.1, ?_⟩
  cases c.comment <;> exact fit

theorem fitting_script {commands : List (SimpleCommand × Separator)} {last : SimpleCommand}
    {waiting : Bool} (ok : commandsOk waiting commands last) : fitting none (Script.itemsOf commands last) := by
  induction commands generalizing waiting with
  | nil =>
    simp only [commandsOk, SimpleCommand.ok, Bool.and_eq_true] at ok
    exact ok.1.1
  | cons c more ih =>
    simp only [commandsOk, Bool.and_eq_true] at ok
    have shape : Script.itemsOf (c :: more) last =
        c.1.items ++ (.separator c.2 :: Script.itemsOf more last) := by
      simp [Script.itemsOf]
    rw [shape]
    exact fitting_command ok.1.1.1 (ih ok.2)

end Item

end DuDuClaw.Lib
