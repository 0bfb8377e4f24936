/-
# Fork.CopyPolicy -- copies between a workspace and a branch

duduclaw-fork/src/copy_policy.rs on Unix.  Every copy of a workspace goes through one
policy, which drops excluded names, special files and the links whose canonical target
lies outside the source, and makes the other links anew: an absolute text becomes the
relative way to its target, a relative one is kept as it is.

The source tree does not change while it is copied.  A directory is read in the order of
its entries; an error ends the copy where it stands, with what was written so far.

* `copyTree`, `sanitizeClone`: the copy, and the pass over a copy made by `cp`.
* `classifyLink_cases`: the text a link is made anew with.
-/
import DuDuClaw.Lib.Chars
import DuDuClaw.Lib.FileTree

namespace DuDuClaw.Fork

open DuDuClaw.Lib

inductive ForkError where
  | canonicalize
  | readDir
  | notRealDirectory
  | directoryOverFile
  | fileOverDirectory

structure CopyReport where
  filesCopied : Nat
  symlinksRecreated : Nat
  symlinksDropped : Nat
  specialDropped : Nat
  excluded : Nat

/-- Name patterns, and exact paths from the copy root in lower case. -/
structure CopyPolicy where
  exclude : List (List Char)
  excludePaths : List (List Name)

/-! ## Exclusions -/

/-- The rounds of `glob_match_ci`, by the rest of the pattern and of the name; `star` is
where to go on after the last `*`. -/
def globRounds : Nat → List Char → List Char → Option (List Char × List Char) → Bool
  | _, pattern, [], _ => pattern.all (· == '*')
  | 0, _, _ :: _, _ => false
  | fuel + 1, pattern, c :: name, star =>
    let retry : Bool :=
      match star with
      | some (after, _ :: skipped) => globRounds fuel after skipped (some (after, skipped))
      | _ => false
    match pattern with
    | d :: rest =>
      if d == '?' || d == c then globRounds fuel rest name star
      else if d == '*' then globRounds fuel rest (c :: name) (some (rest, c :: name))
      else retry
    | [] => retry

/-- `glob_match_ci`.  Every new start of the star is one character on, and goes through the
pattern at most once. -/
def globMatchCi (pattern name : List Char) : Bool :=
  globRounds ((pattern.length + 2) * (name.length + 1)) (toAsciiLowercase pattern)
    (toAsciiLowercase name) none

def publicationLockName : List Char := ".duduclaw-fork-publication.lock".toList

def resolutionLockName : List Char := "fork_resolution.lock.lock".toList

def recoveryName : List Char := "fork_recovery".toList

def locksPattern : List Char := ".duduclaw-fork-locks-*".toList

namespace CopyPolicy

variable (policy : CopyPolicy)

def isExcluded (name : Name) : Bool :=
  eqIgnoreAsciiCase name publicationLockName || eqIgnoreAsciiCase name resolutionLockName ||
    eqIgnoreAsciiCase name recoveryName || globMatchCi locksPattern name ||
    policy.exclude.any fun pattern => globMatchCi pattern name

def isExcludedPathPrefix (rel : List Name) : Bool :=
  policy.excludePaths.any fun excluded => excluded.isPrefixOf (rel.map toAsciiLowercase)

def pathHasExcludedComponent (rel : List Name) : Bool :=
  rel.any policy.isExcluded || policy.isExcludedPathPrefix rel

/-! ## Links -/

/-- The relative way to a place below the root, from a link at `rel`. -/
def rewritten (rel inside : List Name) : Path :=
  List.replicate rel.dropLast.length .parentDir ++
    if inside.isEmpty && rel.dropLast.isEmpty then [.curDir] else inside.map .normal

/-- `classify_link`: the text to make the link anew with, or `none` to drop it. -/
def classifyLink (fs : FileSystem) (root : List Name) (link : Path) (rel : List Name) :
    Option Path :=
  match fs.readLink link with
  | none => none
  | some raw =>
    match fs.canonicalize (Path.join link.dropLast raw) with
    | none => none
    | some canon =>
      if !root.isPrefixOf canon then none
      else
        let inside := canon.drop root.length
        if policy.pathHasExcludedComponent inside then none
        else if raw.isAbsolute then some (rewritten rel inside)
        else some raw

/-- `classify_link` of the link of the source at `rel`. -/
def classifyAt (fs : FileSystem) (src : Path) (root rel : List Name) : Option Path :=
  policy.classifyLink fs root (src.join (rel.map .normal)) rel

end CopyPolicy

/-! ## Entries of the destination -/

/-- `place_symlink`: `none` when a directory stands there, which is left alone. -/
def placeSymlink (entries : Entries) (name : Name) (text : Path) : Option Entries :=
  match entries.lookup name with
  | some (.dir _) => none
  | _ => some (entries.set name (.link text))

/-- `ensure_real_dir`: what the directory holds. -/
def ensureRealDir (entries : Entries) (name : Name) : Except ForkError Entries :=
  match entries.lookup name with
  | some (.dir inner) => .ok inner
  | some (.link _) | none => .ok []
  | some _ => .error .directoryOverFile

def placeFile (entries : Entries) (name : Name) (content : List UInt8) :
    Except ForkError Entries :=
  match entries.lookup name with
  | some (.dir _) => .error .fileOverDirectory
  | _ => .ok (entries.set name (.file content))

/-! ## The copy -/

/-- A directory of the destination as it is filled, the report, and the links made so far. -/
structure Copy where
  entries : Entries
  report : CopyReport
  created : List Link

def CopyReport.zero : CopyReport := ⟨0, 0, 0, 0, 0⟩

section Copy

variable (policy : CopyPolicy) (fs : FileSystem) (src : Path) (root : List Name)

def copyLink (rel : List Name) (name : Name) (c : Copy) : Copy :=
  let dropped :=
    { c with report := { c.report with symlinksDropped := c.report.symlinksDropped + 1 } }
  match policy.classifyAt fs src root (rel ++ [name]) with
  | none => dropped
  | some text =>
    match placeSymlink c.entries name text with
    | none => dropped
    | some entries =>
      { entries := entries
        report := { c.report with symlinksRecreated := c.report.symlinksRecreated + 1 }
        created := c.created ++ [⟨rel ++ [name], text⟩] }

mutual
/-- The body of the loop in `copy_dir`. -/
def copyEntry (rel : List Name) (name : Name) : Node → Copy → Except ForkError Unit × Copy
  | .link _, c => (.ok (), copyLink policy fs src root rel name c)
  | .dir inner, c =>
    match ensureRealDir c.entries name with
    | .error e => (.error e, c)
    | .ok there =>
      let copied := copyEntries (rel ++ [name]) inner { c with entries := there }
      (copied.1, { copied.2 with entries := c.entries.set name (.dir copied.2.entries) })
  | .file content, c =>
    match placeFile c.entries name content with
    | .error e => (.error e, c)
    | .ok entries =>
      (.ok (), { c with
        entries := entries
        report := { c.report with filesCopied := c.report.filesCopied + 1 } })
  | .special, c =>
    (.ok (), { c with
      report := { c.report with specialDropped := c.report.specialDropped + 1 } })

/-- The loop of `copy_dir`. -/
def copyEntries (rel : List Name) :
    List (Name × Node) → Copy → Except ForkError Unit × Copy
  | [], c => (.ok (), c)
  | (name, node) :: rest, c =>
    if policy.isExcluded name || policy.isExcludedPathPrefix (rel ++ [name]) then
      copyEntries rel rest
        { c with report := { c.report with excluded := c.report.excluded + 1 } }
    else
      match copyEntry rel name node c with
      | (.error e, c) => (.error e, c)
      | (.ok (), c) => copyEntries rel rest c
end

end Copy

/-- `copy_tree` into a directory that holds `existing`, or was just made. -/
def copyTree (policy : CopyPolicy) (fs : FileSystem) (src : Path) (existing : Entries) :
    Except ForkError Unit × Copy :=
  let start : Copy := ⟨existing, .zero, []⟩
  match fs.canonicalize src with
  | none => (.error .canonicalize, start)
  | some root =>
    match fs.root.find root with
    | some (.dir entries) => copyEntries policy fs src root [] entries start
    | _ => (.error .readDir, start)

/-! ## The pass over a clone -/

section Sanitize

variable (policy : CopyPolicy) (fs : FileSystem) (src : Path) (root : List Name)

mutual
/-- What the loop in `sanitize_dir` leaves of an entry that is not excluded. -/
def sanitizeEntry (rel : List Name) : Node → CopyReport → Option Node × CopyReport
  | .link _, report =>
    -- judged as it sits in the source tree
    match policy.classifyAt fs src root rel with
    | none => (none, { report with symlinksDropped := report.symlinksDropped + 1 })
    | some text =>
      (some (.link text), { report with symlinksRecreated := report.symlinksRecreated + 1 })
  | .dir inner, report =>
    let cleaned := sanitizeEntries rel inner report
    (some (.dir cleaned.1), cleaned.2)
  | .file content, report =>
    (some (.file content), { report with filesCopied := report.filesCopied + 1 })
  | .special, report => (none, { report with specialDropped := report.specialDropped + 1 })

/-- The loop of `sanitize_dir`. -/
def sanitizeEntries (rel : List Name) : List (Name × Node) → CopyReport → Entries × CopyReport
  | [], report => ([], report)
  | (name, node) :: rest, report =>
    if policy.isExcluded name || policy.isExcludedPathPrefix (rel ++ [name]) then
      sanitizeEntries rel rest { report with excluded := report.excluded + 1 }
    else
      let entry := sanitizeEntry (rel ++ [name]) node report
      let others := sanitizeEntries rel rest entry.2
      (match entry.1 with
        | none => others.1
        | some kept => (name, kept) :: others.1, others.2)
end

end Sanitize

/-- `sanitize_clone` of what stands at the destination. -/
def sanitizeClone (policy : CopyPolicy) (fs : FileSystem) (src : Path) (clone : Option Node) :
    Except ForkError (Entries × CopyReport) :=
  match fs.canonicalize src with
  | none => .error .canonicalize
  | some root =>
    match clone with
    | some (.dir entries) => .ok (sanitizeEntries policy fs src root [] entries .zero)
    | _ => .error .notRealDirectory

/-! ## Which links there are -/

/-- **The text a link is made anew with**: its own, or, when that is absolute, the way to a
place below the root. -/
theorem classifyLink_cases {policy : CopyPolicy} {fs : FileSystem} {root rel : List Name}
    {link text : Path} (kept : policy.classifyLink fs root link rel = some text) :
    ∃ raw, fs.readLink link = some raw ∧
      ((raw.isAbsolute = true ∧ ∃ inside, text = CopyPolicy.rewritten rel inside) ∨
        (raw.isAbsolute = false ∧ text = raw)) := by
  unfold CopyPolicy.classifyLink at kept
  split at kept
  · cases kept
  rename_i raw read
  refine ⟨raw, read, ?_⟩
  split at kept
  · cases kept
  dsimp only at kept
  split at kept
  · cases kept
  split at kept
  · cases kept
  split at kept
  · rename_i absolute
    cases kept
    exact .inl ⟨absolute, _, rfl⟩
  · rename_i relative
    cases kept
    exact .inr ⟨Bool.eq_false_iff.mpr relative, rfl⟩

end DuDuClaw.Fork
