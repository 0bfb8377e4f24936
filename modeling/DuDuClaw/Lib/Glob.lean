/-
# Lib.Glob -- the language of a glob

A glob is a sequence of pieces, each of which stands for any run of characters or for one
character that passes a test.

* `globMatches_star`: a leading run leaves some end of the text.
* `globMatches_one`: a leading test takes one character.
-/
import Mathlib.Data.List.Infix

namespace DuDuClaw.Lib

variable {α : Type}

inductive GlobItem (α : Type) where
  | star
  | one (test : α → Bool)

inductive GlobMatches : List (GlobItem α) → List α → Prop
  | nil : GlobMatches [] []
  | one {test : α → Bool} {items : List (GlobItem α)} {c : α} {s : List α} (passes : test c = true)
      (rest : GlobMatches items s) : GlobMatches (.one test :: items) (c :: s)
  | star {items : List (GlobItem α)} {s t : List α} (behind : t <:+ s)
      (rest : GlobMatches items t) : GlobMatches (.star :: items) s

variable {items : List (GlobItem α)} {test : α → Bool} {s : List α}

theorem globMatches_nil : GlobMatches ([] : List (GlobItem α)) s ↔ s = [] := by
  constructor
  · rintro ⟨⟩
    rfl
  · rintro rfl
    exact .nil

theorem globMatches_star : GlobMatches (.star :: items) s ↔ ∃ t, t <:+ s ∧ GlobMatches items t := by
  constructor
  · intro matched
    cases matched with
    | star behind rest => exact ⟨_, behind, rest⟩
  · rintro ⟨t, behind, rest⟩
    exact .star behind rest

theorem globMatches_one :
    GlobMatches (.one test :: items) s ↔ ∃ c t, s = c :: t ∧ test c = true ∧ GlobMatches items t := by
  constructor
  · intro matched
    cases matched with
    | one passes rest => exact ⟨_, _, rfl, passes, rest⟩
  · rintro ⟨c, t, rfl, passes, rest⟩
    exact .one passes rest

end DuDuClaw.Lib
