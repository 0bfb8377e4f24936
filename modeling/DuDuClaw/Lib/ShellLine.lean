/-
# Lib.ShellLine -- command lines as they are written

A command line without redirects is a sequence of marks: characters and quoted strings that
go into words, blanks between words, and separators between commands.  A backslash before a
newline may stand anywhere and means nothing.  Nothing is expanded.

* `WrittenWord`: one way to write a word; a `WordLine` has words apart by blanks.
* `lineSegments`: the words of each command of a line.
-/
import DuDuClaw.Lib.Spelling

namespace DuDuClaw.Lib

/-! ## Marks -/

/-- What stands for itself outside quotes. -/
def isBareChar (c : Char) : Bool :=
  !isWhitespace c && !(['|', '&', ';', '(', ')', '<', '>', '\\', '\'', '"', backquote].contains c)

def isLineBlank (c : Char) : Bool := isWhitespace c && c != '\n'

def isCommandEnd (c : Char) : Bool := [';', '|', '&', '\n', '(', ')', backquote].contains c

/-- What stands between double quotes. -/
inductive QuotedBit where
  | plain (c : Char)
  | escaped (c : Char)
  /-- A backslash that stays, before a character it does not escape. -/
  | slashed (c : Char)
  /-- A backslash and a newline. -/
  | continued

namespace QuotedBit

def ok : QuotedBit → Bool
  | .plain c => c != '"' && c != '\\'
  | .escaped c => isQuotedMeta c
  | .slashed c => !isQuotedMeta c && c != '\n'
  | .continued => true

def text : QuotedBit → List Char
  | .plain c => [c]
  | .escaped c | .slashed c => ['\\', c]
  | .continued => ['\\', '\n']

def value : QuotedBit → List Char
  | .plain c | .escaped c => [c]
  | .slashed c => ['\\', c]
  | .continued => []

end QuotedBit

inductive Mark where
  | bare (c : Char)
  | escaped (c : Char)
  | single (s : List Char)
  | double (bits : List QuotedBit)
  /-- A backslash and a newline. -/
  | continued
  | blank (c : Char)
  | separator (c : Char)

namespace Mark

def ok : Mark → Bool
  | .bare c => isBareChar c
  | .escaped c => c != '\n'
  | .single s => s.all (· != '\'')
  | .double bits => bits.all QuotedBit.ok
  | .continued => true
  | .blank c => isLineBlank c
  | .separator c => isCommandEnd c

def text : Mark → List Char
  | .bare c | .blank c | .separator c => [c]
  | .escaped c => ['\\', c]
  | .single s => '\'' :: (s ++ ['\''])
  | .double bits => '"' :: (bits.flatMap QuotedBit.text ++ ['"'])
  | .continued => ['\\', '\n']

/-- What the mark adds to a word, perhaps nothing. -/
def letters : Mark → Option (List Char)
  | .bare c | .escaped c => some [c]
  | .single s => some s
  | .double bits => some (bits.flatMap QuotedBit.value)
  | .continued | .blank _ | .separator _ => none

def inWord (m : Mark) : Bool :=
  match m with
  | .continued => true
  | m => m.letters.isSome

/-- The mark is part of what stands between words. -/
def inGap : Mark → Bool
  | .blank _ | .continued => true
  | _ => false

def isBlank : Mark → Bool
  | .blank _ => true
  | _ => false

end Mark

def lineText (marks : List Mark) : List Char := marks.flatMap Mark.text

/-! ## Words and what stands between them -/

structure WrittenWord where
  marks : List Mark
  ok : ∀ m ∈ marks, m.ok
  inWord : ∀ m ∈ marks, m.inWord
  begun : ∃ m ∈ marks, m.letters.isSome

def WrittenWord.value (w : WrittenWord) : List Char :=
  w.marks.flatMap fun m => m.letters.getD []

structure Gap where
  marks : List Mark
  ok : ∀ m ∈ marks, m.ok
  inGap : ∀ m ∈ marks, m.inGap

/-- The gap keeps two words apart. -/
def Gap.parts (gap : Gap) : Bool := gap.marks.any Mark.isBlank

/-- Words with what stands before each of them, and what stands behind the last. -/
structure WordLine where
  words : List (Gap × WrittenWord)
  trail : Gap
  apart : ∀ entry ∈ words.tail, entry.1.parts

namespace WordLine

def text (line : WordLine) : List Char :=
  lineText (line.words.flatMap (fun entry => entry.1.marks ++ entry.2.marks) ++ line.trail.marks)

def values (line : WordLine) : List (List Char) := line.words.map fun entry => entry.2.value

end WordLine

/-! ## Commands -/

/-- The words of each command of a line, behind a word that is being read and the words
before it. -/
def segmentsBehind (word : Option (List Char)) (words : List (List Char)) :
    List Mark → List (List (List Char))
  | [] => [words ++ word.toList]
  | .separator _ :: rest => (words ++ word.toList) :: segmentsBehind none [] rest
  | .blank _ :: rest => segmentsBehind none (words ++ word.toList) rest
  | .continued :: rest => segmentsBehind word words rest
  | m :: rest => segmentsBehind (some (word.getD [] ++ m.letters.getD [])) words rest

/-- The words of each command; a command may have none. -/
def lineSegments (marks : List Mark) : List (List (List Char)) := segmentsBehind none [] marks

end DuDuClaw.Lib
