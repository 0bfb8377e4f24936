/-
# Lib.Lines -- the lines of a text

`str::lines`: a line ends at a newline, with or without a carriage return before it; nothing
behind the last newline is no line.

* `joinLines_lines_sublist`: joined again, the lines are the text but for some of its breaks.
* `lines_joinLines`: texts that can be lines are the lines of their join.
-/
import Mathlib.Data.List.Basic

namespace DuDuClaw.Lib

def stripReturn (line : List Char) : List Char :=
  if line.getLast? = some '\r' then line.dropLast else line

/-- The lines, with what has been read of the first, last character first. -/
def linesFrom (seen : List Char) : List Char → List (List Char)
  | [] => if seen = [] then [] else [seen.reverse]
  | c :: rest =>
    if c = '\n' then stripReturn seen.reverse :: linesFrom [] rest
    else linesFrom (c :: seen) rest

/-- `s.lines()`. -/
def lines (s : List Char) : List (List Char) := linesFrom [] s

/-- The lines with a newline between them. -/
def joinLines : List (List Char) → List Char
  | [] => []
  | line :: more => line ++ more.flatMap ('\n' :: ·)

variable {s line : List Char} {parts : List (List Char)}

theorem stripReturn_sublist (line : List Char) : (stripReturn line).Sublist line := by
  rw [stripReturn]
  split_ifs
  · exact List.dropLast_sublist line
  · exact List.Sublist.refl line

theorem stripReturn_cases (line : List Char) : stripReturn line = line ∨ line = stripReturn line ++ ['\r'] := by
  rw [stripReturn]
  split_ifs with ends
  · right
    rw [← List.dropLast_append_getLast? _ ends]
    simp
  · exact .inl rfl

theorem flatMap_newline_sublist (parts : List (List Char)) :
    (parts.flatMap ('\n' :: ·)).Sublist ('\n' :: joinLines parts) := by
  cases parts with
  | nil => exact List.nil_sublist _
  | cons part parts => exact List.Sublist.refl _

theorem joinLines_linesFrom_sublist (seen s : List Char) :
    (joinLines (linesFrom seen s)).Sublist (seen.reverse ++ s) := by
  induction s generalizing seen with
  | nil =>
    rw [linesFrom]
    split_ifs
    · exact List.nil_sublist _
    · exact List.Sublist.refl _
  | cons c s ih =>
    rw [linesFrom]
    split_ifs with newline
    · rw [joinLines, newline]
      exact (stripReturn_sublist _).append ((flatMap_newline_sublist _).trans ((ih []).cons_cons '\n'))
    · have longer := ih (c :: seen)
      rwa [List.reverse_cons, List.append_assoc, List.singleton_append] at longer

theorem joinLines_lines_sublist (s : List Char) : (joinLines (lines s)).Sublist s := joinLines_linesFrom_sublist [] s

theorem newline_not_mem_linesFrom {seen : List Char} (plain : '\n' ∉ seen) (listed : line ∈ linesFrom seen s) :
    '\n' ∉ line := by
  induction s generalizing seen with
  | nil =>
    rw [linesFrom] at listed
    split_ifs at listed
    · cases listed
    · rw [List.mem_singleton.mp listed]
      exact fun inside => plain (List.mem_reverse.mp inside)
  | cons c s ih =>
    rw [linesFrom] at listed
    split_ifs at listed with newline
    · rcases List.mem_cons.mp listed with rfl | later
      · exact fun inside => plain (List.mem_reverse.mp ((stripReturn_sublist _).subset inside))
      · exact ih List.not_mem_nil later
    refine ih (fun inside => ?_) listed
    rcases List.mem_cons.mp inside with rfl | before
    · exact newline rfl
    · exact plain before

theorem newline_not_mem_lines (listed : line ∈ lines s) : '\n' ∉ line :=
  newline_not_mem_linesFrom List.not_mem_nil listed

structure IsLine (line : List Char) : Prop where
  nonempty : line ≠ []
  plain : '\n' ∉ line
  ends : line.getLast? ≠ some '\r'

theorem linesFrom_append (plain : '\n' ∉ line) (seen rest : List Char) :
    linesFrom seen (line ++ rest) = linesFrom (line.reverse ++ seen) rest := by
  induction line generalizing seen with
  | nil => rfl
  | cons c line ih =>
    rw [List.mem_cons, not_or] at plain
    rw [List.cons_append, linesFrom, if_neg (fun same => plain.1 same.symm), ih plain.2]
    simp

theorem lines_line (isLine : IsLine line) : lines line = [line] := by
  have whole := linesFrom_append isLine.plain [] []
  rw [List.append_nil, List.append_nil] at whole
  rw [lines, whole, linesFrom, if_neg (by simpa using isLine.nonempty), List.reverse_reverse]

theorem lines_cons (isLine : IsLine line) (rest : List Char) :
    lines (line ++ '\n' :: rest) = line :: lines rest := by
  rw [lines, linesFrom_append isLine.plain, List.append_nil, linesFrom, if_pos rfl, List.reverse_reverse, stripReturn,
    if_neg isLine.ends]
  rfl

theorem lines_joinLines (all : ∀ part ∈ parts, IsLine part) : lines (joinLines parts) = parts := by
  cases parts with
  | nil => rfl
  | cons part parts =>
    rw [joinLines]
    induction parts generalizing part with
    | nil =>
      rw [List.flatMap_nil, List.append_nil]
      exact lines_line (all part List.mem_cons_self)
    | cons next parts ih =>
      rw [List.flatMap_cons, List.cons_append, lines_cons (all part List.mem_cons_self)]
      exact congrArg (part :: ·) (ih next fun p listed => all p (List.mem_cons_of_mem _ listed))

theorem joinLines_sublist {f : List Char → List Char}
    (shorter : ∀ part ∈ parts, (f part).Sublist part) : (joinLines (parts.map f)).Sublist (joinLines parts) := by
  cases parts with
  | nil => exact List.Sublist.refl _
  | cons part parts =>
    rw [List.map_cons, joinLines, joinLines]
    refine (shorter part List.mem_cons_self).append ?_
    have rest : ∀ p ∈ parts, (f p).Sublist p := fun p listed => shorter p (List.mem_cons_of_mem _ listed)
    clear shorter
    induction parts with
    | nil => exact List.Sublist.refl _
    | cons next parts ih =>
      rw [List.map_cons, List.flatMap_cons, List.flatMap_cons]
      exact ((rest next List.mem_cons_self).cons_cons '\n').append
        (ih fun p listed => rest p (List.mem_cons_of_mem _ listed))

end DuDuClaw.Lib
