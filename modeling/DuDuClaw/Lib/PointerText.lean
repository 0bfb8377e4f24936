/-
# Lib.PointerText -- RFC 6901 pointers as texts

A pointer is empty, or its reference tokens one after another, each behind a slash.  In a
token `~1` stands for a slash and `~0` for a tilde.  The alphabet is arbitrary: characters
and bytes are both of use.

* `unescape_escape`: the two replacements undo the escape.
* `parse_render`: a pointer is read back as the tokens it was written from.
-/
import Mathlib.Data.List.Basic

namespace DuDuClaw.Lib

structure PointerAlphabet (α : Type) where
  slash : α
  tilde : α
  zero : α
  one : α
  slash_tilde : slash ≠ tilde
  slash_zero : slash ≠ zero
  slash_one : slash ≠ one
  tilde_zero : tilde ≠ zero
  zero_one : zero ≠ one

namespace PointerAlphabet

variable {α : Type} [DecidableEq α] (A : PointerAlphabet α)

/-! ## Tokens -/

def escapeChar (c : α) : List α :=
  if c = A.tilde then [A.tilde, A.zero] else if c = A.slash then [A.tilde, A.one] else [c]

variable (token : List α) (tokens : List (List α))

def escape : List α := token.flatMap A.escapeChar

/-- `s.replace(..)` of the text `a b` by one character. -/
def replacePair (a b new : α) : List α → List α
  | [] => []
  | [c] => [c]
  | c :: d :: rest =>
    if c = a ∧ d = b then new :: replacePair a b new rest else c :: replacePair a b new (d :: rest)

/-- `token.replace("~1", "/").replace("~0", "~")`. -/
def unescape : List α :=
  replacePair A.tilde A.zero A.tilde (replacePair A.tilde A.one A.slash token)

theorem replacePair_cons {a b new c : α} (other : c ≠ a) (rest : List α) :
    replacePair a b new (c :: rest) = c :: replacePair a b new rest := by
  cases rest with
  | nil => rfl
  | cons d rest => exact if_neg fun same => other same.1

theorem replacePair_pair (a b new : α) (rest : List α) :
    replacePair a b new (a :: b :: rest) = new :: replacePair a b new rest := if_pos ⟨rfl, rfl⟩

theorem unescape_tilde (rest : List α) :
    A.unescape (A.tilde :: A.zero :: rest) = A.tilde :: A.unescape rest := by
  have first : replacePair A.tilde A.one A.slash (A.tilde :: A.zero :: rest) =
      A.tilde :: A.zero :: replacePair A.tilde A.one A.slash rest := by
    rw [← replacePair_cons A.tilde_zero.symm]
    exact if_neg fun same => A.zero_one same.2
  rw [unescape, first, replacePair_pair, unescape]

theorem unescape_slash (rest : List α) :
    A.unescape (A.tilde :: A.one :: rest) = A.slash :: A.unescape rest := by
  rw [unescape, replacePair_pair, replacePair_cons A.slash_tilde, unescape]

theorem unescape_plain {c : α} (plain : c ≠ A.tilde) (rest : List α) :
    A.unescape (c :: rest) = c :: A.unescape rest := by
  rw [unescape, replacePair_cons plain, replacePair_cons plain, unescape]

/-- **The two replacements undo the escape.** -/
@[simp] theorem unescape_escape : A.unescape (A.escape token) = token := by
  induction token with
  | nil => rfl
  | cons c rest ih =>
    rw [escape, List.flatMap_cons, ← escape, escapeChar]
    by_cases tilde : c = A.tilde
    · rw [if_pos tilde, tilde]
      exact (A.unescape_tilde _).trans (congrArg (List.cons A.tilde) ih)
    rw [if_neg tilde]
    by_cases slash : c = A.slash
    · rw [if_pos slash, slash]
      exact (A.unescape_slash _).trans (congrArg (List.cons A.slash) ih)
    · rw [if_neg slash]
      exact (A.unescape_plain tilde _).trans (congrArg (List.cons c) ih)

theorem slash_not_mem_escape : A.slash ∉ A.escape token := by
  intro listed
  obtain ⟨c, -, here⟩ := List.mem_flatMap.mp listed
  unfold escapeChar at here
  split at here
  · simp [A.slash_tilde, A.slash_zero] at here
  split at here
  · simp [A.slash_tilde, A.slash_one] at here
  · rename_i other
    exact other (List.mem_singleton.mp here).symm

/-! ## Pointers -/

/-- `push_token`. -/
def push (pointer token : List α) : List α := pointer ++ A.slash :: A.escape token

def render : List α := tokens.foldl A.push []

/-- The reference tokens of a pointer; `none` for a text that is none. -/
def parse : List α → Option (List (List α))
  | [] => some []
  | c :: rest => if c = A.slash then some ((rest.splitOn A.slash).map A.unescape) else none

theorem foldl_push (pointer : List α) (tokens : List (List α)) :
    tokens.foldl A.push pointer = pointer ++ tokens.flatMap fun token => A.slash :: A.escape token := by
  induction tokens generalizing pointer with
  | nil => simp
  | cons token rest ih => simp [ih, push]

theorem render_eq :
    A.render tokens = tokens.flatMap fun token => A.slash :: A.escape token := by
  simp [render, foldl_push]

theorem render_eq_nil {tokens : List (List α)} : A.render tokens = [] ↔ tokens = [] := by
  rw [render_eq]
  cases tokens <;> simp

theorem splitOn_escaped (first : List α) (rest : List (List α)) :
    (A.escape first ++ rest.flatMap fun token => A.slash :: A.escape token).splitOn A.slash =
      A.escape first :: rest.map A.escape := by
  induction rest generalizing first with
  | nil =>
    rw [List.flatMap_nil, List.append_nil, List.splitOn_eq_singleton (A.slash_not_mem_escape first)]
    rfl
  | cons token rest ih =>
    rw [List.flatMap_cons, List.cons_append, List.splitOn_append_cons_self, ih,
      List.splitOn_eq_singleton (A.slash_not_mem_escape first)]
    rfl

/-- **A pointer is read back as the tokens it was written from.** -/
@[simp] theorem parse_render : A.parse (A.render tokens) = some tokens := by
  rw [render_eq]
  cases tokens with
  | nil => rfl
  | cons first rest =>
    rw [List.flatMap_cons, List.cons_append]
    show (if A.slash = A.slash then _ else none) = _
    rw [if_pos rfl, splitOn_escaped, List.map_cons, List.map_map, unescape_escape,
      show A.unescape ∘ A.escape = id from funext A.unescape_escape, List.map_id]

end PointerAlphabet

end DuDuClaw.Lib
