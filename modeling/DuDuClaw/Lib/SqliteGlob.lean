/-
# Lib.SqliteGlob -- the GLOB operator of SQLite

A pattern is read character by character: `*` is any run, `?` any character, and brackets hold a
class of characters and ranges, inverted behind a caret; any other character stands for itself.
What is compared ends at the first NUL.

* `sqliteGlob_iff`: the operator decides the language of the pattern's pieces.
* `globItems_literal`: characters without a meaning of their own stand for themselves.
-/
import Mathlib.Data.List.TakeWhile
import DuDuClaw.Lib.Glob

namespace DuDuClaw.Lib

/-! ## Matching -/

variable {α : Type}

def globMatch : List (GlobItem α) → List α → Bool
  | [], s => s.isEmpty
  | .one _ :: _, [] => false
  | .one test :: items, c :: s => test c && globMatch items s
  | .star :: items, s => s.tails.any (globMatch items)

variable {items : List (GlobItem Char)} {s word : List Char}

theorem globMatch_iff {items : List (GlobItem α)} {s : List α} : globMatch items s = true ↔ GlobMatches items s := by
  induction items generalizing s with
  | nil => rw [globMatch, List.isEmpty_iff, globMatches_nil]
  | cons item items ih =>
    cases item with
    | star =>
      rw [globMatch, globMatches_star, List.any_eq_true]
      simp only [List.mem_tails, ih]
    | one test =>
      rw [globMatches_one]
      cases s with
      | nil => simp [globMatch]
      | cons c s => simp [globMatch, ih]

/-! ## Patterns -/

/-- Where the reader of a pattern is: outside of brackets, behind the opening one, behind the caret, or
among the members, with the last one that a range can begin with; or behind a range's hyphen. -/
inductive GlobState where
  | plain
  | opened
  | first (inverted : Bool)
  | members (inverted : Bool) (ranges : List (Char × Char)) (prior : Option Char)
  | ranging (inverted : Bool) (ranges : List (Char × Char)) (low : Char)

def inRanges (ranges : List (Char × Char)) (c : Char) : Bool := ranges.any fun range => range.1 ≤ c && c ≤ range.2

/-- One character among the members, where `next` is the character behind it. -/
def memberStep (inverted : Bool) (ranges : List (Char × Char)) (prior : Option Char) (c : Char) (next : Option Char) :
    List (GlobItem Char) × GlobState :=
  if c = ']' then ([.one fun x => inRanges ranges x != inverted], .plain)
  else
    match prior with
    | some low =>
      if c = '-' ∧ next.isSome ∧ next ≠ some ']' then ([], .ranging inverted ranges low)
      else ([], .members inverted (ranges ++ [(c, c)]) (some c))
    | none => ([], .members inverted (ranges ++ [(c, c)]) (some c))

def firstStep (inverted : Bool) (c : Char) (next : Option Char) : List (GlobItem Char) × GlobState :=
  if c = ']' then ([], .members inverted [(']', ']')] none) else memberStep inverted [] none c next

def globStep : GlobState → Char → Option Char → List (GlobItem Char) × GlobState
  | .plain, c, _ =>
    if c = '*' then ([.star], .plain)
    else if c = '?' then ([.one fun _ => true], .plain)
    else if c = '[' then ([], .opened)
    else ([.one (· == c)], .plain)
  | .opened, c, next => if c = '^' then ([], .first true) else firstStep false c next
  | .first inverted, c, next => firstStep inverted c next
  | .members inverted ranges prior, c, next => memberStep inverted ranges prior c next
  | .ranging inverted ranges low, c, _ => ([], .members inverted (ranges ++ [(low, c)]) none)

/-- The pieces of a pattern; nothing matches one whose brackets are left open. -/
def globItemsFrom : GlobState → List Char → Option (List (GlobItem Char))
  | .plain, [] => some []
  | _, [] => none
  | st, c :: rest => (globItemsFrom (globStep st c rest.head?).2 rest).map ((globStep st c rest.head?).1 ++ ·)

theorem globItemsFrom_cons (st : GlobState) (c : Char) (rest : List Char) : globItemsFrom st (c :: rest) =
      (globItemsFrom (globStep st c rest.head?).2 rest).map ((globStep st c rest.head?).1 ++ ·) := by
  cases st <;> rfl

def globItems (pattern : List Char) : Option (List (GlobItem Char)) := globItemsFrom .plain pattern

def untilNul (s : List Char) : List Char := s.takeWhile (· != Char.ofNat 0)

/-- `text GLOB pattern`. -/
def sqliteGlob (pattern text : List Char) : Bool :=
  match globItems (untilNul pattern) with
  | none => false
  | some items => globMatch items (untilNul text)

theorem sqliteGlob_iff {pattern text : List Char} (read : globItems (untilNul pattern) = some items) :
    sqliteGlob pattern text = true ↔ GlobMatches items (untilNul text) := by
  rw [sqliteGlob, read]
  exact globMatch_iff

theorem untilNul_eq_self (plain : Char.ofNat 0 ∉ s) : untilNul s = s := by
  refine List.takeWhile_eq_self_iff.mpr fun c listed => ?_
  rw [bne_iff_ne]
  rintro rfl
  exact plain listed

/-- A character with no meaning of its own in a pattern. -/
def GlobLiteral (c : Char) : Prop := c ≠ '*' ∧ c ≠ '?' ∧ c ≠ '['

theorem globItems_literal (literal : ∀ c ∈ word, GlobLiteral c) (rest : List Char) :
    globItems (word ++ rest) = (globItems rest).map ((word.map fun c => .one (· == c)) ++ ·) := by
  induction word with
  | nil =>
    rw [List.nil_append]
    cases globItems rest <;> rfl
  | cons c word ih =>
    obtain ⟨⟨star, any, bracket⟩, literal⟩ := List.forall_mem_cons.mp literal
    have step : ∀ next, globStep .plain c next = ([.one (· == c)], .plain) := fun next => by
      rw [globStep, if_neg star, if_neg any, if_neg bracket]
    have more := ih literal
    rw [globItems] at more ⊢
    rw [List.cons_append, globItemsFrom, step, more, Option.map_map]
    rfl

theorem globMatches_literal
    (rest : GlobMatches items s) : GlobMatches ((word.map fun c => .one (· == c)) ++ items) (word ++ s) := by
  induction word with
  | nil => exact rest
  | cons c word ih => exact .one (beq_self_eq_true c) ih

end DuDuClaw.Lib
