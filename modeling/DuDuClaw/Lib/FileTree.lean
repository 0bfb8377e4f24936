/-
# Lib.FileTree -- directory trees with symbolic links

A directory is a list of named entries; names stand for `OsString`s.  A symbolic link
holds the text it was made with, by its components.

* `canonicalize`: a path is followed through every link in it, at most forty.
* `Node.distinct`: no directory holds a name twice.
* `Node.links`: the links of a tree, each with its place.
* `mem_entryLinks`, `mem_entryLinks_set`: the links of a directory by its entries.
-/
import DuDuClaw.Lib.Path

namespace DuDuClaw.Lib

abbrev Name := List Char

/-- An entry by what `lstat` says of it. -/
inductive Node where
  | file (content : List UInt8)
  | link (text : Path)
  | special
  | dir (entries : List (Name × Node))

abbrev Entries := List (Name × Node)

/-- The entry of the name is replaced, or a new one is made. -/
def Entries.set (entries : Entries) (name : Name) (node : Node) : Entries :=
  entries.filter (fun entry => entry.1 != name) ++ [(name, node)]

/-- The entry at a place, no link followed. -/
def Node.find : Node → List Name → Option Node
  | node, [] => some node
  | .dir entries, name :: rest => (entries.lookup name).bind fun node => node.find rest
  | _, _ :: _ => none

mutual
/-- No directory of the tree holds a name twice. -/
def Node.distinct : Node → Bool
  | .dir entries => entriesDistinct entries
  | _ => true

def entriesDistinct : List (Name × Node) → Bool
  | [] => true
  | (name, node) :: rest =>
    (rest.lookup name).isNone && node.distinct && entriesDistinct rest
end

variable {entries : Entries} {name : Name} {node : Node}

theorem distinct_of_lookup (distinct : entriesDistinct entries = true)
    (found : entries.lookup name = some node) : node.distinct = true := by
  induction entries with
  | nil => cases found
  | cons entry rest ih =>
    obtain ⟨first, here⟩ := entry
    simp only [entriesDistinct, Bool.and_eq_true] at distinct
    rw [List.lookup_cons] at found
    split at found
    · cases found
      exact distinct.1.2
    · exact ih distinct.2 found

theorem Node.distinct_find {inner : Node} (distinct : node.distinct = true) {place : List Name}
    (found : node.find place = some inner) : inner.distinct = true := by
  induction place generalizing node with
  | nil =>
    cases found
    exact distinct
  | cons name rest ih =>
    cases node with
    | dir entries =>
      rw [find] at found
      obtain ⟨next, first, later⟩ := Option.bind_eq_some_iff.mp found
      exact ih (distinct_of_lookup distinct first) later
    | file _ | link _ | special => cases found

theorem Entries.set_new (new : entries.lookup name = none)
    (node : Node) : entries.set name node = entries ++ [(name, node)] := by
  rw [set, List.filter_eq_self.mpr]
  intro entry listed
  have other := List.lookup_eq_none_iff.mp new entry listed
  rw [bne_iff_ne] at other ⊢
  exact other.symm

/-- A file system, and the working directory of the process. -/
structure FileSystem where
  root : Node
  cwd : List Name

namespace FileSystem

/-- The way along a path from the directory `here`; `follow` goes on where a link leads. -/
def walk (fs : FileSystem) (follow : List Name → Path → Option (List Name)) :
    List Name → Path → Option (List Name)
  | here, [] => some here
  | _, .rootDir :: rest => walk fs follow [] rest
  | here, c :: rest =>
    match fs.root.find here with
    | some (.dir entries) =>
      match c with
      | .normal name =>
        match entries.lookup name with
        | none => none
        | some (.link text) => follow here (text ++ rest)
        | some _ => walk fs follow (here ++ [name]) rest
      | .parentDir => walk fs follow here.dropLast rest
      | _ => walk fs follow here rest
    | _ => none

/-- At most so many links. -/
def resolve (fs : FileSystem) : Nat → List Name → Path → Option (List Name)
  | 0 => fun _ _ => none
  | links + 1 => fs.walk (fs.resolve links)

/-- `Path::canonicalize`: the names from the root, if the path leads anywhere.  A chain of
more than forty links is an error. -/
def canonicalize (fs : FileSystem) (p : Path) : Option (List Name) := fs.resolve 41 fs.cwd p

/-- `fs::read_link`: only the last component is not followed. -/
def readLink (fs : FileSystem) (p : Path) : Option Path :=
  match p.getLast? with
  | some (.normal name) =>
    (fs.canonicalize p.dropLast).bind fun dir =>
      match fs.root.find (dir ++ [name]) with
      | some (.link text) => some text
      | _ => none
  | _ => none

end FileSystem

/-! ## The links of a tree -/

/-- A symbolic link: its place below the top of the tree, and its text. -/
structure Link where
  place : List Name
  text : Path
  deriving DecidableEq

mutual
/-- The links of the tree at `here`. -/
def Node.links (here : List Name) : Node → List Link
  | .link text => [⟨here, text⟩]
  | .dir entries => entryLinks here entries
  | _ => []

def entryLinks (here : List Name) : List (Name × Node) → List Link
  | [] => []
  | (name, node) :: rest => node.links (here ++ [name]) ++ entryLinks here rest
end

variable {here : List Name} {entries : Entries} {l : Link}

theorem mem_entryLinks :
    l ∈ entryLinks here entries ↔ ∃ entry ∈ entries, l ∈ entry.2.links (here ++ [entry.1]) := by
  induction entries with
  | nil => simp [entryLinks]
  | cons entry rest ih =>
    obtain ⟨name, node⟩ := entry
    rw [entryLinks, List.mem_append, ih]
    simp

theorem mem_entryLinks_set {name : Name} {node : Node} (listed : l ∈ entryLinks here (entries.set name node)) :
    l ∈ entryLinks here entries ∨ l ∈ node.links (here ++ [name]) := by
  obtain ⟨entry, inside, found⟩ := mem_entryLinks.mp listed
  rcases List.mem_append.mp inside with old | new
  · exact .inl (mem_entryLinks.mpr ⟨entry, (List.mem_filter.mp old).1, found⟩)
  · rw [List.mem_singleton.mp new] at found
    exact .inr found

theorem mem_entryLinks_of_lookup {name : Name}
    {node : Node} (found : entries.lookup name = some node)
    (listed : l ∈ node.links (here ++ [name])) : l ∈ entryLinks here entries := by
  obtain ⟨front, back, shape, -⟩ := List.lookup_eq_some_iff.mp found
  refine mem_entryLinks.mpr ⟨(name, node), ?_, listed⟩
  simp [shape]

end DuDuClaw.Lib
