/-
# Fork.Links -- where the links of a copy lead

A link is judged by where it leads in the source tree, and a relative one is made anew as
it was.  From the destination the same text leads to the same place of the copy, unless
it climbs above the copy root: then it has to come back down by the names of the
destination, while it was accepted for coming back by those of the source.

* `copyTree_fills`, `sanitizeEntries_links`: every link there is was judged.
* `stays_iff`: one link stays inside exactly when its text was absolute or comes back.
* `links_stay`: so for every copy and every pass over a clone.
* `link_points_back`: a link by way of the source's name, which leads back into the source.
-/
import DuDuClaw.Fork.CopyPolicy

namespace DuDuClaw.Fork

open DuDuClaw.Lib

/-! ## Every link was judged -/

section Judged

variable (policy : CopyPolicy) (fs : FileSystem) (src : Path) (root : List Name)

/-- What the copy of a part does to the directory at `rel`: the links it makes were judged,
and a link that was not there before is one of them. -/
structure Fills (rel : List Name) (before after : Copy) : Prop where
  judged : ∀ l ∈ after.created,
    l ∈ before.created ∨ policy.classifyAt fs src root l.place = some l.text
  kept : before.created ⊆ after.created
  links : ∀ l ∈ entryLinks rel after.entries,
    l ∈ entryLinks rel before.entries ∨ l ∈ after.created

variable {policy fs src root}

theorem Fills.refl (rel : List Name) (c : Copy) : Fills policy fs src root rel c c :=
  ⟨fun _ => .inl, fun _ => id, fun _ => .inl⟩

/-- A step that makes no link, and sets no entry or one without links. -/
theorem Fills.quiet {rel : List Name} {c c' : Copy} (created : c'.created = c.created)
    (links : ∀ l ∈ entryLinks rel c'.entries, l ∈ entryLinks rel c.entries) :
    Fills policy fs src root rel c c' where
  judged _ listed := .inl (created ▸ listed)
  kept _ listed := created ▸ listed
  links l listed := .inl (links l listed)

theorem Fills.trans {rel : List Name} {a b c : Copy} (first : Fills policy fs src root rel a b)
    (second : Fills policy fs src root rel b c) : Fills policy fs src root rel a c where
  judged l listed := by
    rcases second.judged l listed with old | new
    · exact first.judged l old
    · exact .inr new
  kept l listed := second.kept (first.kept listed)
  links l listed := by
    rcases second.links l listed with old | new
    · rcases first.links l old with older | made
      · exact .inl older
      · exact .inr (second.kept made)
    · exact .inr new

theorem copyLink_fills (rel : List Name) (name : Name) (c : Copy) :
    Fills policy fs src root rel c (copyLink policy fs src root rel name c) := by
  unfold copyLink
  dsimp only
  split
  · exact .quiet rfl fun _ => id
  rename_i text judged
  split
  · exact .quiet rfl fun _ => id
  rename_i entries placed
  have shape : entries = c.entries.set name (.link text) := by
    unfold placeSymlink at placed
    split at placed
    · cases placed
    · exact (Option.some.inj placed).symm
  refine ⟨?_, List.subset_append_left _ _, ?_⟩
  · intro l listed
    rcases List.mem_append.mp listed with old | new
    · exact .inl old
    · rw [List.mem_singleton.mp new]
      exact .inr judged
  · intro l listed
    rw [shape] at listed
    rcases mem_entryLinks_set listed with old | new
    · exact .inl old
    · exact .inr (List.mem_append_right _ new)

theorem placeFile_links {entries after : Entries} {name : Name} {content : List UInt8}
    (placed : placeFile entries name content = .ok after) (rel : List Name) (l : Link)
    (listed : l ∈ entryLinks rel after) : l ∈ entryLinks rel entries := by
  unfold placeFile at placed
  split at placed
  · cases placed
  cases placed
  rcases mem_entryLinks_set listed with old | new
  · exact old
  · cases new

/-- The links below a directory that is filled were below it before. -/
theorem ensureRealDir_links {entries inner : Entries} {name : Name}
    (ensured : ensureRealDir entries name = .ok inner) (rel : List Name) (l : Link)
    (listed : l ∈ entryLinks (rel ++ [name]) inner) : l ∈ entryLinks rel entries := by
  unfold ensureRealDir at ensured
  split at ensured
  · rename_i found
    cases ensured
    exact mem_entryLinks_of_lookup found listed
  · cases ensured
    cases listed
  · cases ensured
    cases listed
  · cases ensured

mutual
theorem copyEntry_fills (rel : List Name) (name : Name) (node : Node) (c : Copy) :
    Fills policy fs src root rel c (copyEntry policy fs src root rel name node c).2 := by
  match node with
  | .link text =>
    rw [copyEntry]
    exact copyLink_fills rel name c
  | .dir inner =>
    rw [copyEntry]
    split
    · exact .refl rel c
    rename_i there ensured
    have filled := copyEntries_fills (rel ++ [name]) inner { c with entries := there }
    refine ⟨filled.judged, filled.kept, ?_⟩
    intro l listed
    rcases mem_entryLinks_set listed with old | new
    · exact .inl old
    · rcases filled.links l new with before | made
      · exact .inl (ensureRealDir_links ensured rel l before)
      · exact .inr made
  | .file content =>
    rw [copyEntry]
    split
    · exact .refl rel c
    · rename_i entries placed
      exact .quiet rfl (placeFile_links placed rel)
  | .special =>
    rw [copyEntry]
    exact .quiet rfl fun _ => id

theorem copyEntries_fills (rel : List Name) (entries : List (Name × Node)) (c : Copy) :
    Fills policy fs src root rel c (copyEntries policy fs src root rel entries c).2 := by
  match entries with
  | [] =>
    rw [copyEntries]
    exact .refl rel c
  | (name, node) :: rest =>
    rw [copyEntries]
    split
    · refine Fills.trans (Fills.quiet ?_ ?_) (copyEntries_fills rel rest _)
      · rfl
      · exact fun _ => id
    have first := copyEntry_fills rel name node c
    split
    · rename_i stopped
      rw [stopped] at first
      exact first
    · rename_i next
      rw [next] at first
      exact first.trans (copyEntries_fills rel rest _)
end

mutual
theorem sanitizeEntry_links (rel : List Name) (node : Node) (report : CopyReport) (kept : Node)
    (left : (sanitizeEntry policy fs src root rel node report).1 = some kept) (l : Link)
    (listed : l ∈ kept.links rel) : policy.classifyAt fs src root l.place = some l.text := by
  match node with
  | .link text =>
    rw [sanitizeEntry] at left
    split at left
    · cases left
    rename_i judged
    cases left
    rw [Node.links, List.mem_singleton] at listed
    rw [listed]
    exact judged
  | .dir inner =>
    rw [sanitizeEntry] at left
    cases left
    rw [Node.links] at listed
    exact sanitizeEntries_links rel inner report l listed
  | .file content =>
    rw [sanitizeEntry] at left
    cases left
    cases listed
  | .special =>
    rw [sanitizeEntry] at left
    cases left

theorem sanitizeEntries_links (rel : List Name) (entries : List (Name × Node)) (report : CopyReport) (l : Link)
    (listed : l ∈ entryLinks rel (sanitizeEntries policy fs src root rel entries report).1) :
    policy.classifyAt fs src root l.place = some l.text := by
  match entries with
  | [] =>
    rw [sanitizeEntries] at listed
    cases listed
  | (name, node) :: rest =>
    rw [sanitizeEntries] at listed
    split at listed
    · exact sanitizeEntries_links rel rest _ l listed
    dsimp only at listed
    split at listed
    · exact sanitizeEntries_links rel rest _ l listed
    rename_i kept left
    rw [entryLinks, List.mem_append] at listed
    rcases listed with here | later
    · exact sanitizeEntry_links (rel ++ [name]) node report kept left l here
    · exact sanitizeEntries_links rel rest _ l later
end

end Judged

/-! ## One link -/

/-- The link, made at its place below `dst`, leads by its text to a place below `dst`. -/
def Stays (dst : List Name) (l : Link) : Prop :=
  Path.ofNames dst <+:
    ((Path.ofNames (dst ++ l.place.dropLast)).join l.text).lexicalNormalize

/-- The text, followed from the link's directory, does not climb above the copy root, or
comes back down by the last names of the destination. -/
def ComesBack (dst place : List Name) (raw : Path) : Prop :=
  (dst.drop (dst.length - (Path.climb (place.dropLast.map .normal) raw).1)).map .normal <+:
    (Path.climb (place.dropLast.map .normal) raw).2

variable {l : Link} {policy : CopyPolicy} {fs : FileSystem} {src : Path} {root : List Name}

theorem stays_relative {dst : List Name} (relative : l.text.isAbsolute = false) :
    Stays dst l ↔ ComesBack dst l.place l.text := by
  unfold Stays ComesBack Path.join
  rw [if_neg (by simp [relative])]
  exact Path.prefix_normalize_iff dst l.place.dropLast l.text

theorem rewritten_relative (rel inside : List Name) : (CopyPolicy.rewritten rel inside).isAbsolute = false := by
  unfold CopyPolicy.rewritten
  cases up : rel.dropLast with
  | nil => cases inside <;> simp [Path.isAbsolute]
  | cons name rest => simp [Path.isAbsolute, List.replicate_succ]

/-- A rewritten text goes up to the copy root, and down from there. -/
theorem rewritten_comesBack (dst rel inside : List Name) :
    ComesBack dst rel (CopyPolicy.rewritten rel inside) := by
  have level : (Path.climb (rel.dropLast.map .normal) (CopyPolicy.rewritten rel inside)).1 = 0 := by
    unfold CopyPolicy.rewritten
    rw [Path.climb_append, Path.climb_up]
    split
    · rfl
    · rw [Path.climb_down]
  unfold ComesBack
  rw [level, Nat.sub_zero, List.drop_length]
  exact List.nil_prefix

/-- **One link stays inside** exactly when its text in the source is absolute, or comes
back. -/
theorem stays_iff (dst : List Name) (judged : policy.classifyAt fs src root l.place = some l.text) :
    ∃ raw, fs.readLink (src.join (l.place.map .normal)) = some raw ∧
      (Stays dst l ↔ raw.isAbsolute = true ∨ ComesBack dst l.place raw) := by
  obtain ⟨raw, read, ⟨absolute, inside, same⟩ | ⟨relative, same⟩⟩ := classifyLink_cases judged
  · refine ⟨raw, read, iff_of_true ?_ (.inl absolute)⟩
    have text := rewritten_relative l.place inside
    rw [← same] at text
    rw [stays_relative text, same]
    exact rewritten_comesBack dst l.place inside
  refine ⟨raw, read, ?_⟩
  rw [← same] at relative ⊢
  rw [stays_relative relative, relative]
  simp

/-! ## Whole copies -/

/-- Every one of the links that was relative in the source comes back. -/
def LinksComeBack (fs : FileSystem) (src : Path) (dst : List Name) (places : List (List Name)) :
    Prop :=
  ∀ place ∈ places, ∀ raw, fs.readLink (src.join (place.map .normal)) = some raw →
    raw.isAbsolute = false → ComesBack dst place raw

theorem all_stay_iff (dst : List Name) {links : List Link}
    (judged : ∀ l ∈ links, policy.classifyAt fs src root l.place = some l.text) :
    (∀ l ∈ links, Stays dst l) ↔ LinksComeBack fs src dst (links.map Link.place) := by
  constructor
  · intro stay place listed raw read relative
    obtain ⟨l, inside, rfl⟩ := List.mem_map.mp listed
    obtain ⟨same, again, iff⟩ := stays_iff dst (judged l inside)
    cases read.symm.trans again
    rcases iff.mp (stay l inside) with absolute | back
    · rw [relative] at absolute
      cases absolute
    · exact back
  · intro back l inside
    obtain ⟨raw, read, iff⟩ := stays_iff dst (judged l inside)
    refine iff.mpr ?_
    cases absolute : raw.isAbsolute with
    | true => exact .inl rfl
    | false => exact .inr (back l.place (List.mem_map_of_mem inside) raw read absolute)

theorem copyTree_fills (policy : CopyPolicy) (fs : FileSystem) (src : Path) (existing : Entries) :
    ∃ root, Fills policy fs src root [] ⟨existing, .zero, []⟩
      (copyTree policy fs src existing).2 := by
  unfold copyTree
  dsimp only
  split
  · exact ⟨[], .refl _ _⟩
  rename_i root _
  refine ⟨root, ?_⟩
  split
  · exact copyEntries_fills [] _ _
  · exact .refl _ _

/-- **The links of every copy stay inside** exactly when those that are relative in the
source come back: of every copy, also one that ended in an error, for the links it has
made, among which are all that were not there before, and for all the links that the pass
over a clone leaves. -/
theorem links_stay (policy : CopyPolicy) (fs : FileSystem) (src : Path) (dst : List Name) :
    (∀ existing : Entries, let copy := (copyTree policy fs src existing).2
      (∀ l ∈ entryLinks [] copy.entries, l ∈ entryLinks [] existing ∨ l ∈ copy.created) ∧
      ((∀ l ∈ copy.created, Stays dst l) ↔ LinksComeBack fs src dst (copy.created.map Link.place))) ∧
    ∀ (clone : Option Node) (cleaned : Entries) (report : CopyReport),
      sanitizeClone policy fs src clone = .ok (cleaned, report) → ((∀ l ∈ entryLinks [] cleaned, Stays dst l) ↔
        LinksComeBack fs src dst ((entryLinks [] cleaned).map Link.place)) := by
  constructor
  · intro existing copy
    obtain ⟨root, fills⟩ := copyTree_fills policy fs src existing
    have judged : ∀ l ∈ copy.created, policy.classifyAt fs src root l.place = some l.text := by
      intro l listed
      rcases fills.judged l listed with old | judged
      · cases old
      · exact judged
    exact ⟨fills.links, all_stay_iff dst judged⟩
  · intro clone cleaned report returned
    unfold sanitizeClone at returned
    split at returned
    · cases returned
    rename_i root _
    split at returned
    · rename_i entries
      have whole := Except.ok.inj returned
      have left : (sanitizeEntries policy fs src root [] entries .zero).1 = cleaned := by
        rw [whole]
      rw [← left]
      exact all_stay_iff dst fun l listed => sanitizeEntries_links [] entries .zero l listed
    · cases returned

/-! ## A link by way of the source's name -/

/-- The directory `/s` holds a file `b` and a link `a` to `../s/b`. -/
def sampleFiles : FileSystem where
  root := .dir [(['s'], .dir [(['a'], .link [.parentDir, .normal ['s'], .normal ['b']]),
    (['b'], .file [])])]
  cwd := []

def sourceDir : Path := [.rootDir, .normal ['s']]

def noExcludes : CopyPolicy := ⟨[], []⟩

/-- **A link that points back into the source**: it is accepted, for its target is in the
copied directory, and made at `/d/a` with the text `../s/b`. -/
theorem link_points_back :
    ∃ l ∈ (copyTree noExcludes sampleFiles sourceDir []).2.created, ¬ Stays [['d']] l := by
  refine ⟨⟨[['a']], [.parentDir, .normal ['s'], .normal ['b']]⟩, by decide, ?_⟩
  unfold Stays
  decide

end DuDuClaw.Fork
