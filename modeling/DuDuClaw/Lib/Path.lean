/-
# Lib.Path -- paths by their components

A path is the list of its components, as the standard library's `Path::components`
yields them on Unix: a root, names, `..`, and a `.` at the front only.

* `parse`: the components of a text.
* `lexicalNormalize`: `.` and `..` are taken out without asking the file system; a `..`
  does not climb above the root.
* `lexicalNormalize_append`: a path is normalised from its front.
* `climb`: how far above its start a path climbs, and what it goes down from there.
* `prefix_normalize_iff`: a path stays below a directory exactly when it comes back down by
  the names it climbed.
-/
import Mathlib.Data.List.Basic
import Mathlib.Data.List.Induction

namespace DuDuClaw.Lib

/-- `std::path::Component`, without the prefixes of Windows. -/
inductive Component where
  | rootDir
  | curDir
  | parentDir
  | normal (name : List Char)
  deriving DecidableEq

/-- `as_os_str`. -/
def Component.text : Component → List Char
  | .rootDir => ['/']
  | .curDir => ['.']
  | .parentDir => ['.', '.']
  | .normal name => name

abbrev Path := List Component

namespace Path

variable (p : Path) (names : List (List Char)) (dir : List (List Char))

def isAbsolute : Bool := p.head? == some .rootDir

/-- `Path::join`: an absolute path replaces the one it is joined to. -/
def join (p q : Path) : Path := if q.isAbsolute then q else p ++ q

def ofPart : List Char → Option Component
  | [] | ['.'] => none
  | ['.', '.'] => some .parentDir
  | name => some (.normal name)

/-- `Path::components`: separators may be repeated, and a `.` counts at the front only. -/
def parse (s : List Char) : Path :=
  (match s.splitOn '/' with
    | [] :: _ :: _ => [.rootDir]
    | ['.'] :: _ => [.curDir]
    | _ => []) ++ (s.splitOn '/').filterMap ofPart

/-- The components of `p.join(s)`. -/
def joinText (s : List Char) : Path :=
  if p = [] || (parse s).isAbsolute then parse s else p ++ (parse s).filter (· != .curDir)

theorem ofPart_ne_rootDir (part : List Char) : ofPart part ≠ some .rootDir := by
  unfold ofPart
  split <;> simp

/-- A text is an absolute path when it begins with a separator. -/
theorem parse_isAbsolute (s : List Char) : (parse s).isAbsolute = (s.head? == some '/') := by
  have relative : ∀ parts : List (List Char), (parts.filterMap ofPart).head? ≠ some .rootDir := by
    intro parts first
    obtain ⟨part, -, root⟩ := List.mem_filterMap.mp (List.mem_of_head? first)
    exact ofPart_ne_rootDir part root
  cases s with
  | nil => rfl
  | cons c rest =>
    obtain ⟨first, more, parts⟩ := List.exists_cons_of_ne_nil (List.splitOn_ne_nil '/' rest)
    rw [List.splitOn_eq_splitOnP] at parts
    rw [parse, List.splitOn_eq_splitOnP, List.splitOnP_cons_eq_if_modifyHead, parts]
    by_cases slash : c = '/'
    · subst slash
      rfl
    have other : (c == '/') = false := by simpa using slash
    simp only [other, Bool.false_eq_true, if_false, List.modifyHead_cons, List.head?_cons, Option.some_beq_some]
    split
    · rename_i shape
      cases shape
    · rfl
    · rw [List.nil_append, isAbsolute, beq_eq_false_iff_ne]
      exact relative _

/-- `to_string_lossy`, of a path that `lexical_normalize` built. -/
def text : Path → List Char
  | [] => []
  | .rootDir :: rest => '/' :: (List.intersperse ['/'] (rest.map Component.text)).flatten
  | rest => (List.intersperse ['/'] (rest.map Component.text)).flatten

/-- One component of `lexical_normalize`: `..` drops the last name. -/
def normalizeStep (out : Path) : Component → Path
  | .parentDir =>
    match out.getLast? with
    | some .rootDir | none => out
    | some _ => out.dropLast
  | .curDir => out
  | other => out ++ [other]

def lexicalNormalize : Path := p.foldl normalizeStep []

theorem lexicalNormalize_append (p q : Path) :
    lexicalNormalize (p ++ q) = q.foldl normalizeStep (lexicalNormalize p) :=
  List.foldl_append

/-- A path normalises by what it is joined to, and a `.` in it does nothing. -/
theorem lexicalNormalize_joinText (s : List Char) : lexicalNormalize (p.joinText s) =
      if (parse s).isAbsolute then lexicalNormalize (parse s)
      else (parse s).foldl normalizeStep (lexicalNormalize p) := by
  have dots : ∀ (q start : Path), (q.filter (· != .curDir)).foldl normalizeStep start =
      q.foldl normalizeStep start := by
    intro q
    induction q with
    | nil => exact fun _ => rfl
    | cons c rest ih =>
      intro start
      cases c <;> simp [normalizeStep, ih]
  unfold joinText
  by_cases absolute : (parse s).isAbsolute
  · simp [absolute]
  by_cases empty : p = []
  · subst empty
    rw [if_pos (by simp), if_neg absolute]
    rfl
  · simp [absolute, empty, lexicalNormalize_append, dots]

@[simp] theorem lexicalNormalize_concat_normal (name : List Char) :
    lexicalNormalize (p ++ [.normal name]) = lexicalNormalize p ++ [.normal name] :=
  lexicalNormalize_append p [.normal name]

def ofNames : Path := .rootDir :: names.map .normal

theorem lexicalNormalize_ofNames :
    lexicalNormalize (ofNames names) = ofNames names := by
  induction names using List.reverseRecOn with
  | nil => rfl
  | append_singleton front last ih =>
    have shape : ofNames (front ++ [last]) = ofNames front ++ [.normal last] := by
      simp [ofNames]
    rw [shape, lexicalNormalize_concat_normal, ih]

/-- One component, from a place so many levels above a start and then down. -/
def climbStep (place : Nat × Path) : Component → Nat × Path
  | .parentDir =>
    match place.2.getLast? with
    | none => (place.1 + 1, [])
    | some .rootDir => place
    | some _ => (place.1, place.2.dropLast)
  | .curDir => place
  | other => (place.1, place.2 ++ [other])

/-- Where a path leads, from `start`: the levels above it, and the way down. -/
def climb (start p : Path) : Nat × Path := p.foldl climbStep (0, start)

theorem climb_append (start p q : Path) :
    climb start (p ++ q) = q.foldl climbStep (climb start p) := List.foldl_append

/-- Going up as many levels as the start is deep leads nowhere. -/
theorem climb_up :
    climb (names.map .normal) (List.replicate names.length .parentDir) = (0, []) := by
  unfold climb
  induction names using List.reverseRecOn with
  | nil => rfl
  | append_singleton front last ih =>
    rw [List.length_append, List.length_singleton, List.replicate_succ, List.foldl_cons]
    have step : climbStep (0, (front ++ [last]).map .normal) .parentDir =
        (0, front.map .normal) := by
      simp [climbStep]
    rw [step, ih]

theorem climb_down (place : Nat × Path) (names : List (List Char)) :
    (names.map Component.normal).foldl climbStep place = (place.1, place.2 ++ names.map .normal) := by
  induction names generalizing place with
  | nil => simp
  | cons name rest ih =>
    rw [List.map_cons, List.foldl_cons, ih]
    simp [climbStep]

/-- The directory of the names, without its last `up`. -/
def above (up : Nat) : Path := ofNames (dir.take (dir.length - up))

theorem getLast?_above (up : Nat) :
    (above dir up).getLast? = some .rootDir ∧ above dir (up + 1) = above dir up ∨
      (∃ name, (above dir up).getLast? = some (.normal name)) ∧
        above dir (up + 1) = (above dir up).dropLast := by
  unfold above ofNames
  have shorter : dir.take (dir.length - (up + 1)) = (dir.take (dir.length - up)).dropLast := by
    rw [List.dropLast_eq_take, List.take_take, List.length_take]
    congr 1
    omega
  rcases List.eq_nil_or_concat' (dir.take (dir.length - up)) with empty | ⟨front, last, shape⟩
  · left
    rw [shorter, empty]
    simp
  right
  rw [shorter, shape]
  refine ⟨⟨last, ?_⟩, ?_⟩
  · rw [List.map_append, ← List.cons_append]
    exact List.getLast?_concat
  · rw [List.dropLast_concat, List.map_append, ← List.cons_append]
    exact List.dropLast_concat.symm

theorem normalizeStep_climb (place : Nat × Path) (c : Component) :
    normalizeStep (above dir place.1 ++ place.2) c =
      above dir (climbStep place c).1 ++ (climbStep place c).2 := by
  cases c with
  | rootDir | curDir | normal name => simp [normalizeStep, climbStep]
  | parentDir =>
    rcases List.eq_nil_or_concat' place.2 with down | ⟨front, last, down⟩
    · rcases getLast?_above dir place.1 with ⟨root, same⟩ | ⟨⟨name, named⟩, up⟩
      · simp [normalizeStep, climbStep, down, root, same]
      · simp [normalizeStep, climbStep, down, named, up]
    have shape : above dir place.1 ++ place.2 = (above dir place.1 ++ front) ++ [last] := by
      rw [down, List.append_assoc]
    rw [shape]
    cases last with
    | rootDir | curDir | parentDir | normal name => simp [normalizeStep, climbStep, down]

theorem normalize_climb (start p : Path) (place : Nat × Path)
    (here : lexicalNormalize start = above dir place.1 ++ place.2) : lexicalNormalize (start ++ p) =
      above dir (p.foldl climbStep place).1 ++ (p.foldl climbStep place).2 := by
  rw [lexicalNormalize_append, here]
  clear here
  induction p generalizing place with
  | nil => rfl
  | cons c rest ih => rw [List.foldl_cons, List.foldl_cons, normalizeStep_climb, ih]

/-- **A path from below a directory stays below it** exactly when it comes back down by the
names it has climbed. -/
theorem prefix_normalize_iff (dir below : List (List Char)) (p : Path) :
    ofNames dir <+: lexicalNormalize (ofNames (dir ++ below) ++ p) ↔
      (dir.drop (dir.length - (climb (below.map .normal) p).1)).map .normal <+:
        (climb (below.map .normal) p).2 := by
  have start : lexicalNormalize (ofNames (dir ++ below)) = above dir 0 ++ below.map .normal := by
    rw [lexicalNormalize_ofNames, above, Nat.sub_zero, List.take_length]
    simp [ofNames]
  have whole : ofNames dir =
      above dir (climb (below.map .normal) p).1 ++
        (dir.drop (dir.length - (climb (below.map .normal) p).1)).map .normal := by
    unfold above ofNames
    rw [List.cons_append, ← List.map_append, List.take_append_drop]
  rw [normalize_climb dir _ p (0, below.map .normal) start, whole]
  exact List.prefix_append_right_inj _

end Path

end DuDuClaw.Lib
