/-
# Lib.Spelling -- words of a shell command as they are written

A word is written by pieces: bare characters, characters behind a backslash, and quoted
strings.  Nothing in it is expanded.

* `Spelling`: the pieces of a word, each well written; `text` and `value` are what stands
  in the command and what the shell passes on.
-/
import DuDuClaw.Lib.Chars

namespace DuDuClaw.Lib

def isBlankChar (c : Char) : Bool := c == ' ' || c == '\t'

/-- The characters that mean something outside quotes. -/
def isShellMeta (c : Char) : Bool :=
  [' ', '\t', '\n', '|', '&', ';', '(', ')', '<', '>', '\\', '\'', '"', '$', backquote].contains c

/-- What a backslash takes the meaning of inside double quotes, apart from a newline. -/
def isQuotedMeta (c : Char) : Bool := c == '$' || c == backquote || c == '"' || c == '\\'

/-- A character between double quotes. -/
inductive QuotedItem where
  | plain (c : Char)
  | escaped (c : Char)
  /-- A backslash that stays, before a character it does not escape. -/
  | slashed (c : Char)
  deriving DecidableEq

namespace QuotedItem

def ok : QuotedItem → Bool
  | .plain c => !isQuotedMeta c
  | .escaped c => isQuotedMeta c
  | .slashed c => !isQuotedMeta c && c != '\n'

def text : QuotedItem → List Char
  | .plain c => [c]
  | .escaped c | .slashed c => ['\\', c]

def value : QuotedItem → List Char
  | .plain c | .escaped c => [c]
  | .slashed c => ['\\', c]

end QuotedItem

inductive WordPiece where
  | bare (c : Char)
  | escaped (c : Char)
  | single (s : List Char)
  | double (items : List QuotedItem)
  deriving DecidableEq

namespace WordPiece

def ok : WordPiece → Bool
  | .bare c => !isShellMeta c
  | .escaped c => c != '\n'
  | .single s => s.all (· != '\'')
  | .double items => items.all QuotedItem.ok

def text : WordPiece → List Char
  | .bare c => [c]
  | .escaped c => ['\\', c]
  | .single s => '\'' :: (s ++ ['\''])
  | .double items => '"' :: (items.flatMap QuotedItem.text ++ ['"'])

def value : WordPiece → List Char
  | .bare c | .escaped c => [c]
  | .single s => s
  | .double items => items.flatMap QuotedItem.value

end WordPiece

structure Spelling where
  pieces : List WordPiece
  nonempty : pieces ≠ []
  ok : ∀ piece ∈ pieces, piece.ok
  noComment : pieces.head? ≠ some (.bare '#')

namespace Spelling

def text (w : Spelling) : List Char := w.pieces.flatMap WordPiece.text

def value (w : Spelling) : List Char := w.pieces.flatMap WordPiece.value

/-- Checked from left to right. -/
theorem noMeta {s : List Char} (plain : s.any isShellMeta = false) : ∀ c ∈ s, isShellMeta c = false := by
  simpa using plain

def ofBare (s : List Char) (nonempty : s ≠ []) (ok : ∀ c ∈ s, isShellMeta c = false)
    (noComment : s.head? ≠ some '#') : Spelling where
  pieces := s.map .bare
  nonempty := by simpa using nonempty
  ok := by
    intro piece listed
    obtain ⟨c, inside, rfl⟩ := List.mem_map.mp listed
    simp [WordPiece.ok, ok c inside]
  noComment := by
    rw [List.head?_map]
    intro comment
    obtain ⟨c, first, same⟩ := Option.map_eq_some_iff.mp comment
    cases same
    exact noComment first

end Spelling

end DuDuClaw.Lib
