/-
# Lib.Chars -- character classes of the standard library

* `isWhitespace`: the Unicode `White_Space` property, which trimming and word
  splitting go by.
* `eqIgnoreAsciiCase`: equality up to the case of ASCII letters.
* `trim_trim`: a trimmed text is trimmed.
-/
import Mathlib.Data.List.DropRight

namespace DuDuClaw.Lib

/-- Texts are compared by their characters.  A test for membership finds it here by name. -/
instance lawfulBEq_text : LawfulBEq (List Char) := inferInstance

instance decidableForallText (text : List Char) (p : Char → Prop) [DecidablePred p] :
    Decidable (∀ c ∈ text, p c) := List.decidableBAll p text

/-- `char::is_whitespace`: the Unicode `White_Space` property. -/
def isWhitespace (c : Char) : Bool :=
  let n := c.toNat
  (0x9 ≤ n && n ≤ 0xD) || n == 0x20 || n == 0x85 || n == 0xA0 || n == 0x1680 ||
    (0x2000 ≤ n && n ≤ 0x200A) || n == 0x2028 || n == 0x2029 || n == 0x202F ||
    n == 0x205F || n == 0x3000

def isControl (c : Char) : Bool := c.toNat < 0x20 || (0x7F ≤ c.toNat && c.toNat ≤ 0x9F)

def backquote : Char := Char.ofNat 0x60

variable (s : List Char)

/-- `s.trim()`. -/
def trim : List Char :=
  ((s.dropWhile isWhitespace).reverse.dropWhile isWhitespace).reverse

/-- `s.trim_matches(p)`. -/
def trimMatches (p : Char → Bool) (s : List Char) : List Char :=
  ((s.dropWhile p).reverse.dropWhile p).reverse

/-- `s.split_whitespace()`. -/
def splitWhitespace : List (List Char) :=
  (s.splitOnP isWhitespace).filter (!·.isEmpty)

/-- `s.strip_suffix(tail)`. -/
def stripSuffix (tail s : List Char) : Option (List Char) :=
  if tail.isSuffixOf s then some (s.take (s.length - tail.length)) else none

/-- `s.trim().is_empty()`. -/
def isBlank : Bool := s.all isWhitespace

def toAsciiLowercase : List Char := s.map Char.toLower

def eqIgnoreAsciiCase (a b : List Char) : Bool := toAsciiLowercase a == toAsciiLowercase b

theorem eqIgnoreAsciiCase_iff {a b : List Char} :
    eqIgnoreAsciiCase a b ↔ toAsciiLowercase a = toAsciiLowercase b := by
  simp [eqIgnoreAsciiCase]

@[simp] theorem trim_trim : trim (trim s) = trim s := by
  have whole : ∀ t : List Char, trim t = (t.dropWhile isWhitespace).rdropWhile isWhitespace :=
    fun _ => rfl
  obtain ⟨tail, split⟩ := List.rdropWhile_prefix isWhitespace (s.dropWhile isWhitespace)
  have front : (trim s).dropWhile isWhitespace = trim s := by
    cases kept : trim s with
    | nil => rfl
    | cons c rest =>
      rw [← whole, kept] at split
      have head : (s.dropWhile isWhitespace).head? = some c := by rw [← split]; rfl
      rw [List.dropWhile_cons_of_neg]
      have first := List.head?_dropWhile_not isWhitespace s
      rw [head] at first
      simpa using first
  rw [whole (trim s), front, whole s, List.rdropWhile_idempotent]

end DuDuClaw.Lib
