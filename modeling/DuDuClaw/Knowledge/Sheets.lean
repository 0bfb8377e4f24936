/-
# Knowledge.Sheets -- chunks, and those of a spreadsheet

A chunk is a slice of the joined text with a locator.  The rows of a sheet below its header
go into chunks of consecutive rows; a row that is longer than a chunk is cut.

* `push_spec`: a chunk inside the text is its slice.
* `lineRanges_mem`: a character that breaks no line is in a line.
* `sheetChunks_spec`: every character below the header is in a chunk.
-/
import DuDuClaw.Knowledge.Layout
import DuDuClaw.Knowledge.Packing

namespace DuDuClaw.Knowledge.Chunks

open DuDuClaw.Lib

inductive LocatorKind where
  | page
  | slide
  | sheetRows
  | section_
  | paragraph
  | url
  deriving DecidableEq

structure Locator where
  kind : LocatorKind
  pageStart : Option Nat
  pageEnd : Option Nat
  sheet : Option (List Char)
  rowStart : Option Nat
  rowEnd : Option Nat
  paraIndex : Option Nat
  heading : Option (List Char)

def Locator.new (kind : LocatorKind) : Locator := ⟨kind, none, none, none, none, none, none, none⟩

structure ChunkDraft where
  ord : Nat
  text : List Char
  headingPath : List Char
  locator : Locator
  charStart : Nat
  charEnd : Nat
  segmentOrd : Nat
  textSha256 : List Char
  matchText : List Char
  matchHeading : List Char

/-- The hash of a text, and NFKC with lower case. -/
structure Forms where
  sha256Hex : List Char → List Char
  matchForm : List Char → List Char

structure Builder where
  full : List Char
  lineStarts : List Nat
  chunks : List ChunkDraft

variable (forms : Forms)

def ChunkDraft.of (ord start stop : Nat) (text heading : List Char) (locator : Locator)
    (segmentOrd : Nat) : ChunkDraft where
  ord := ord % 2 ^ 32
  text := text
  headingPath := heading
  locator := locator
  charStart := start
  charEnd := stop
  segmentOrd := segmentOrd
  textSha256 := forms.sha256Hex text
  matchText := forms.matchForm text
  matchHeading := forms.matchForm heading

def Builder.push (b : Builder) (start stop : Nat) (heading : List Char) (locator : Locator)
    (segmentOrd : Nat) : Option Builder := do
  let text ← getSlice b.full start stop
  return { b with
    chunks := b.chunks ++ [.of forms b.chunks.length start stop text heading locator segmentOrd] }

/-! ## Rows -/

/-- The lines of a text, for `i` characters read and the line begun at `s`. -/
def lineRanges (i s : Nat) : List Char → List (Nat × Nat)
  | [] => [(s, i)]
  | c :: rest => if c = '\n' then (s, i) :: lineRanges (i + 1) (i + 1) rest else lineRanges (i + 1) s rest

/-- A sheet segment with what its chunks share. -/
structure Sheet where
  seg : Segment
  rows : Option (List Nat)
  lines : List (Nat × Nat)
  heading : List Char

def Sheet.locator (s : Sheet) (a z : Nat) : Locator :=
  { Locator.new .sheetRows with
    sheet := some (s.seg.sheet.getD [])
    rowStart := s.rows.bind (·[a]?)
    rowEnd := s.rows.bind (·[z]?) }

/-- A chunk of the lines from `a` to `z`. -/
def Sheet.pushGroup (s : Sheet) (b : Builder) (a z : Nat) : Option Builder := do
  let first ← s.lines[a]?
  let last ← s.lines[z]?
  b.push forms (s.seg.charStart + first.1) (s.seg.charStart + last.2) s.heading (s.locator a z) s.seg.ord

/-- A line that is longer than a chunk, from `p` to `le`. -/
def Sheet.pushPieces (s : Sheet) (i le : Nat) : Nat → Nat → Builder → Option Builder
  | 0, _, _ => none
  | fuel + 1, p, b =>
    if p < le then do
      let q := min (p + MAX) le
      let b ← b.push forms (s.seg.charStart + p) (s.seg.charStart + q) s.heading (s.locator i i) s.seg.ord
      s.pushPieces i le fuel q b
    else some b

def Sheet.flush (s : Sheet) (b : Builder) : Option (Nat × Nat) → Option Builder
  | some (a, z) => s.pushGroup forms b a z
  | none => some b

def Sheet.line (s : Sheet) (st : Builder × Option (Nat × Nat)) (i : Nat) :
    Option (Builder × Option (Nat × Nat)) := do
  let (ls, le) ← s.lines[i]?
  if MAX < le - ls then do
    let b ← s.flush forms st.1 st.2
    let b ← s.pushPieces forms i le (le - ls + 1) ls b
    return (b, none)
  else
    match st.2 with
    | some (a, z) => do
      let first ← s.lines[a]?
      if le - first.1 ≤ TARGET then return (st.1, some (a, max i z))
      else do
        let b ← s.pushGroup forms st.1 a z
        return (b, some (i, i))
    | none => return (st.1, some (i, i))

def sheetChunks (b : Builder) (seg : Segment) (rows : Option (List Nat)) : Option Builder := do
  let lines := lineRanges 0 0 seg.text
  let first ← lines[0]?
  let header ← getSlice seg.text first.1 first.2
  let sheet := seg.sheet.getD []
  let heading := (if sheet.isEmpty then header else sheet ++ " | ".toList ++ header).take 300
  let s : Sheet := ⟨seg, rows, lines, heading⟩
  if lines.length = 1 then b.push forms seg.charStart seg.charEnd heading (s.locator 0 0) seg.ord
  else do
    let st ← (List.range' 1 (lines.length - 1)).foldlM (s.line forms) (b, none)
    s.flush forms st.1 st.2

/-! ## Chunks -/

def Builder.Covers (b : Builder) (i : Nat) : Prop := ∃ c ∈ b.chunks, c.charStart ≤ i ∧ i < c.charEnd

def Numbered (segments : List Segment) : Prop := ∀ s ∈ segments, s.kind = .page → s.page.isSome

/-- The locator has the page of the first character, and that of the last if it is another. -/
def NamesPages (segments : List Segment) (start stop : Nat) (l : Locator) : Prop :=
  start < stop ∧ ∃ first ∈ segments, ∃ last ∈ segments, first.kind = .page ∧ last.kind = .page ∧
    first.Holds start ∧ last.Holds (stop - 1) ∧ l.pageStart = first.page ∧
      l.pageEnd = if last.page = first.page then none else last.page

/-- The law of page locators, where the pages have numbers. -/
def Names (segments : List Segment) (start stop : Nat) (l : Locator) : Prop :=
  l.kind = .page → Numbered segments → NamesPages segments start stop l

/-- The chunks are slices, and say where from. -/
def Good (segments : List Segment) (b : Builder) : Prop :=
  ∀ c ∈ b.chunks, getSlice b.full c.charStart c.charEnd = some c.text ∧
    Names segments c.charStart c.charEnd c.locator

structure Grows (segments : List Segment) (b b' : Builder) : Prop where
  full : b'.full = b.full
  good : Good segments b → Good segments b'
  covers : ∀ i, b.Covers i → b'.Covers i

section Push

variable {forms} {segments : List Segment} {b b' b'' : Builder} {start stop ord : Nat}
  {heading : List Char} {locator : Locator}

theorem Grows.refl (segments : List Segment) (b : Builder) : Grows segments b b := ⟨rfl, id, fun _ => id⟩

theorem Grows.trans (left : Grows segments b b') (right : Grows segments b' b'') : Grows segments b b'' :=
  ⟨right.full.trans left.full, right.good ∘ left.good, fun i => right.covers i ∘ left.covers i⟩

theorem names_other (other : locator.kind ≠ .page) : Names segments start stop locator :=
  fun page => absurd page other

theorem push_spec (le : start ≤ stop) (inside : stop ≤ b.full.length)
    (names : Names segments start stop locator) :
    ∃ b', b.push forms start stop heading locator ord = some b' ∧ Grows segments b b' ∧
      ∀ i, start ≤ i → i < stop → b'.Covers i := by
  have cut := getSlice_ok le inside
  generalize (b.full.drop start).take (stop - start) = text at cut
  let draft : ChunkDraft := .of forms b.chunks.length start stop text heading locator ord
  have ran : b.push forms start stop heading locator ord = some { b with chunks := b.chunks ++ [draft] } := by
    rw [Builder.push, cut]
    rfl
  refine ⟨_, ran, ⟨rfl, fun good c listed => ?_, ?_⟩, fun i low high => ?_⟩
  · obtain old | new := List.mem_append.mp listed
    · exact good c old
    · cases List.mem_singleton.mp new
      exact ⟨cut, names⟩
  · rintro i ⟨c, listed, within⟩
    exact ⟨c, List.mem_append_left _ listed, within⟩
  · exact ⟨draft, List.mem_append_right _ (List.mem_singleton_self _), low, high⟩

end Push

/-! ## Lines -/

variable {i s : Nat} {chars : List Char}

theorem lineRanges_head (i s : Nat) (chars : List Char) :
    (lineRanges i s chars)[0]? = some (s, i + (chars.takeWhile (· ≠ '\n')).length) := by
  induction chars generalizing i with
  | nil => rfl
  | cons c rest ih =>
    rw [lineRanges]
    by_cases breaks : c = '\n'
    · rw [if_pos breaks, List.takeWhile_cons_of_neg (by simpa using breaks)]
      rfl
    · rw [if_neg breaks, ih, List.takeWhile_cons_of_pos (by simpa using breaks), List.length_cons]
      congr 2
      omega

theorem lineRanges_single : (lineRanges i s chars).length = 1 ↔ '\n' ∉ chars := by
  induction chars generalizing i with
  | nil => simp [lineRanges]
  | cons c rest ih =>
    rw [lineRanges]
    by_cases breaks : c = '\n'
    · have some_ : lineRanges (i + 1) (i + 1) rest ≠ [] := by
        intro none_
        have head := lineRanges_head (i + 1) (i + 1) rest
        rw [none_] at head
        cases head
      simp [breaks, some_]
    · rw [if_neg breaks, ih]
      simp [Ne.symm breaks]

theorem lineRanges_bounds (le : s ≤ i) :
    ∀ r ∈ lineRanges i s chars, s ≤ r.1 ∧ r.1 ≤ r.2 ∧ r.2 ≤ i + chars.length := by
  induction chars generalizing i s with
  | nil =>
    intro r listed
    cases List.mem_singleton.mp listed
    exact ⟨Nat.le_refl _, le, Nat.le_refl _⟩
  | cons c rest ih =>
    intro r listed
    rw [lineRanges] at listed
    rw [List.length_cons]
    split at listed
    · obtain rfl | later := List.mem_cons.mp listed
      · dsimp only
        omega
      · have := ih (Nat.le_refl (i + 1)) r later
        omega
    · have := ih (Nat.le_succ_of_le le) r listed
      omega

theorem lineRanges_ordered (le : s ≤ i) : (lineRanges i s chars).Pairwise fun a b => a.2 < b.1 := by
  induction chars generalizing i s with
  | nil => exact List.pairwise_singleton _ _
  | cons c rest ih =>
    rw [lineRanges]
    split
    · refine List.pairwise_cons.mpr ⟨fun r listed => ?_, ih (Nat.le_refl _)⟩
      exact Nat.lt_of_succ_le (lineRanges_bounds (Nat.le_refl (i + 1)) r listed).1
    · exact ih (Nat.le_succ_of_le le)

theorem lineRanges_mem (le : s ≤ i) {p : Nat} {c : Char}
    (at_ : chars[p]? = some c) (other : c ≠ '\n') : Covers (lineRanges i s chars) (i + p) := by
  induction chars generalizing i s p with
  | nil => simp at at_
  | cons d rest ih =>
    rw [lineRanges]
    cases p with
    | zero =>
      cases Option.some.inj at_
      rw [if_neg other]
      have head := lineRanges_head (i + 1) s rest
      refine ⟨_, List.mem_of_getElem? head, ?_, ?_⟩
      · exact le
      · dsimp only
        omega
    | succ q =>
      have rest_ : rest[q]? = some c := at_
      have moved : i + (q + 1) = i + 1 + q := by omega
      rw [moved]
      split
      · rw [covers_cons]
        exact .inr (ih (Nat.le_refl _) rest_)
      · exact ih (Nat.le_succ_of_le le) rest_

/-- The lines of a sheet segment that stands in the text. -/
structure Lined (b : Builder) (s : Sheet) : Prop where
  place : getSlice b.full s.seg.charStart s.seg.charEnd = some s.seg.text
  lines : s.lines = lineRanges 0 0 s.seg.text

section Lined

variable {forms} {segments : List Segment} {b b' : Builder} {s : Sheet}

variable {k j a : Nat} {r : Nat × Nat} {st : Builder × Option (Nat × Nat)}

theorem Lined.grows (lined : Lined b s) (grows : Grows segments b b') : Lined b' s :=
  ⟨by rw [grows.full]; exact lined.place, lined.lines⟩

theorem Lined.inside (lined : Lined b s) (at_ : s.lines[k]? = some r) :
    r.1 ≤ r.2 ∧ s.seg.charStart + r.2 ≤ b.full.length := by
  obtain ⟨order, le, length⟩ := getSlice_bounds lined.place
  have listed := List.mem_of_getElem? at_
  rw [lined.lines] at listed
  have := lineRanges_bounds (Nat.le_refl 0) r listed
  omega

/-- A later line stands behind. -/
theorem Lined.mono (lined : Lined b s) {t : Nat × Nat} (le : j ≤ k)
    (first : s.lines[j]? = some r) (last : s.lines[k]? = some t) : r.1 ≤ t.1 ∧ r.2 ≤ t.2 := by
  obtain rfl | lt := Nat.eq_or_lt_of_le le
  · rw [first] at last
    cases last
    exact ⟨Nat.le_refl _, Nat.le_refl _⟩
  have ordered := @lineRanges_ordered 0 0 s.seg.text (Nat.le_refl 0)
  rw [← lined.lines] at ordered
  obtain ⟨here, rfl⟩ := List.getElem?_eq_some_iff.mp first
  obtain ⟨there, rfl⟩ := List.getElem?_eq_some_iff.mp last
  have apart := List.pairwise_iff_getElem.mp ordered j k here there lt
  have own := (lined.inside first).1
  have own' := (lined.inside last).1
  omega

def Sheet.InLine (s : Sheet) (k i : Nat) : Prop :=
  ∃ r, s.lines[k]? = some r ∧ s.seg.charStart + r.1 ≤ i ∧ i < s.seg.charStart + r.2

theorem pushGroup_spec (lined : Lined b s) {z : Nat} (le : a ≤ z) (known : z < s.lines.length) :
    ∃ b', s.pushGroup forms b a z = some b' ∧ Grows segments b b' ∧
      ∀ k i, a ≤ k → k ≤ z → s.InLine k i → b'.Covers i := by
  have first : s.lines[a]? = some s.lines[a] := List.getElem?_eq_getElem (by omega)
  have last : s.lines[z]? = some s.lines[z] := List.getElem?_eq_getElem known
  have order := lined.mono le first last
  have inside := lined.inside last
  have other : Names segments (s.seg.charStart + s.lines[a].1) (s.seg.charStart + s.lines[z].2)
      (s.locator a z) := names_other (by simp [Sheet.locator, Locator.new])
  obtain ⟨b', ran, grows, covers⟩ := @push_spec forms segments b _ _ s.seg.ord s.heading _ (by omega)
    inside.2 other
  refine ⟨b', by simp [Sheet.pushGroup, first, last, ran], grows, fun k i low high within => ?_⟩
  obtain ⟨r, at_, left, right⟩ := within
  have lower := lined.mono low first at_
  have upper := lined.mono high at_ last
  exact covers i (by omega) (by omega)

theorem pushPieces_spec (lined : Lined b s) {le : Nat} {fuel p : Nat}
    (at_ : s.lines[k]? = some r) (stop : le = r.2) (enough : le - p < fuel) :
    ∃ b', s.pushPieces forms i le fuel p b = some b' ∧ Grows segments b b' ∧
      ∀ j, s.seg.charStart + p ≤ j → j < s.seg.charStart + le → b'.Covers j := by
  induction fuel generalizing p b with
  | zero => omega
  | succ fuel ih =>
    unfold Sheet.pushPieces
    by_cases more : p < le
    · rw [if_pos more]
      have inside := (lined.inside at_).2
      have other : Names segments (s.seg.charStart + p) (s.seg.charStart + min (p + MAX) le)
          (s.locator i i) := names_other (by simp [Sheet.locator, Locator.new])
      obtain ⟨mid, ran, grows, covers⟩ := @push_spec forms segments b _ _ s.seg.ord s.heading _
        (by omega) (by omega) other
      have forward : p < min (p + MAX) le := by
        simp only [MAX]
        omega
      obtain ⟨b', further, grows', covers'⟩ := ih (lined.grows grows) (p := min (p + MAX) le) (by omega)
      refine ⟨b', by simp [ran, further], grows.trans grows', fun j low high => ?_⟩
      by_cases here : j < s.seg.charStart + min (p + MAX) le
      · exact grows'.covers j (covers j low here)
      · exact covers' j (by omega) high
    · rw [if_neg more]
      exact ⟨b, rfl, .refl _ _, fun j low high => by omega⟩

/-- The loop over the rows, after the line `j`: the lines so far are in chunks or in the group. -/
structure Grouped (segments : List Segment) (b : Builder) (s : Sheet) (j : Nat)
    (st : Builder × Option (Nat × Nat)) : Prop where
  grows : Grows segments b st.1
  covered : ∀ k i, 1 ≤ k → k ≤ j → s.InLine k i → st.1.Covers i ∨ ∃ a z, st.2 = some (a, z) ∧ a ≤ k
  group : ∀ a z, st.2 = some (a, z) → a ≤ z ∧ z = j

theorem flush_spec (lined : Lined b s) (grouped : Grouped segments b s j st) (known : j < s.lines.length) :
    ∃ b', s.flush forms st.1 st.2 = some b' ∧ Grows segments st.1 b' ∧
      ∀ k i, 1 ≤ k → k ≤ j → s.InLine k i → b'.Covers i := by
  obtain ⟨b₁, group⟩ := st
  cases group with
  | none =>
    refine ⟨b₁, rfl, .refl _ _, fun k i low high within => ?_⟩
    obtain done | ⟨a, z, none_, -⟩ := grouped.covered k i low high within
    · exact done
    · cases none_
  | some range =>
    obtain ⟨a, z⟩ := range
    obtain ⟨le, rfl⟩ := grouped.group a z rfl
    obtain ⟨b', ran, grows, covers⟩ := @pushGroup_spec forms segments b₁ s a (lined.grows grouped.grows) z
      le known
    refine ⟨b', ran, grows, fun k i low high within => ?_⟩
    obtain done | ⟨a', z', same, begun⟩ := grouped.covered k i low high within
    · exact grows.covers i done
    · cases same
      exact covers k i begun high within

theorem grouped_begin (grows : Grows segments b b')
    (covers : ∀ k i, 1 ≤ k → k ≤ j → s.InLine k i → b'.Covers i) :
    Grouped segments b s (j + 1) (b', some (j + 1, j + 1)) := by
  refine ⟨grows, fun k i low high within => ?_, fun a z same => ?_⟩
  · obtain rfl | before := Nat.eq_or_lt_of_le high
    · exact .inr ⟨_, _, rfl, Nat.le_refl _⟩
    · exact .inl (covers k i low (by omega) within)
  · cases same
    exact ⟨Nat.le_refl _, rfl⟩

theorem grouped_join (grouped : Grouped segments b s j (b', some (a, j))) :
    Grouped segments b s (j + 1) (b', some (a, j + 1)) := by
  have le := (grouped.group a j rfl).1
  refine ⟨grouped.grows, fun k i low high within => ?_, fun a' z' same => ?_⟩
  · obtain rfl | before := Nat.eq_or_lt_of_le high
    · exact .inr ⟨_, _, rfl, Nat.le_succ_of_le le⟩
    obtain done | ⟨a', z', same, begun⟩ := grouped.covered k i low (by omega) within
    · exact .inl done
    · cases same
      exact .inr ⟨_, _, rfl, begun⟩
  · cases same
    exact ⟨Nat.le_succ_of_le le, rfl⟩

theorem line_spec (lined : Lined b s) (grouped : Grouped segments b s j st) (known : j + 1 < s.lines.length) :
    ∃ st', s.line forms st (j + 1) = some st' ∧ Grouped segments b s (j + 1) st' := by
  have at_ : s.lines[j + 1]? = some s.lines[j + 1] := List.getElem?_eq_getElem known
  unfold Sheet.line
  rw [at_]
  simp only [Option.bind_eq_bind, Option.bind_some]
  split
  · -- The line is longer than a chunk.
    obtain ⟨mid, flushed, grows, covers⟩ := @flush_spec forms segments b s j st lined grouped (by omega)
    have lined' := (lined.grows grouped.grows).grows grows
    obtain ⟨b', cut, grows', covers'⟩ := @pushPieces_spec forms (j + 1) segments mid s (j + 1) _ lined'
      s.lines[j + 1].2 (s.lines[j + 1].2 - s.lines[j + 1].1 + 1) s.lines[j + 1].1 at_ rfl (by omega)
    refine ⟨(b', none), by simp [flushed, cut], (grouped.grows.trans grows).trans grows', ?_, ?_⟩
    · intro k i low high within
      refine .inl ?_
      obtain rfl | before := Nat.eq_or_lt_of_le high
      · obtain ⟨r, own, left, right⟩ := within
        rw [at_] at own
        cases own
        exact covers' i left right
      · exact grows'.covers i (covers k i low (by omega) within)
    · intro a z none_
      cases none_
  · obtain ⟨b', flushed, grows, covers⟩ := @flush_spec forms segments b s j st lined grouped (by omega)
    have begun := grouped_begin (grouped.grows.trans grows) covers
    obtain ⟨b₁, group⟩ := st
    cases group with
    | none =>
      cases flushed
      exact ⟨_, rfl, begun⟩
    | some range =>
      obtain ⟨a, z⟩ := range
      obtain ⟨le, rfl⟩ := grouped.group a z rfl
      have first : s.lines[a]? = some s.lines[a] := List.getElem?_eq_getElem (by omega)
      simp only [first, Option.bind_some]
      split
      · rw [Nat.max_eq_left (Nat.le_succ z)]
        exact ⟨_, rfl, grouped_join grouped⟩
      · have pushed : s.pushGroup forms b₁ a z = some b' := flushed
        exact ⟨_, by rw [pushed]; rfl, begun⟩

end Lined

/-- A position in the first line of a sheet segment of several. -/
def InHeader (s : Segment) (i : Nat) : Prop :=
  s.kind = .sheet ∧ '\n' ∈ s.text ∧ s.charStart ≤ i ∧
    i < s.charStart + (s.text.takeWhile (· ≠ '\n')).length

theorem not_white_break {c : Char} (black : isWhitespace c = false) : c ≠ '\n' := by
  rintro rfl
  revert black
  decide

/-- A character of the segment that is below the header is in a line of it. -/
theorem inLine_of_black {b : Builder} {s : Sheet} (lined : Lined b s) (sheet : s.seg.kind = .sheet)
    (several : s.lines.length ≠ 1) {c : Char} (holds : s.seg.Holds i)
    (at_ : b.full[i]? = some c) (black : isWhitespace c = false) (below : ¬InHeader s.seg i) :
    ∃ k, 1 ≤ k ∧ k < s.lines.length ∧ s.InLine k i := by
  obtain ⟨low, high⟩ := holds
  have own := getElem?_getSlice lined.place (i := i - s.seg.charStart) (by omega)
  rw [Nat.add_sub_cancel' low, at_] at own
  obtain ⟨r, listed, left, right⟩ := lineRanges_mem (s := 0) (Nat.le_refl 0) own (not_white_break black)
  rw [← lined.lines] at listed
  obtain ⟨k, line⟩ := List.mem_iff_getElem?.mp listed
  have known := (List.getElem?_eq_some_iff.mp line).1
  refine ⟨k, Nat.one_le_iff_ne_zero.mpr ?_, known, r, line, by omega, by omega⟩
  rintro rfl
  have head := lineRanges_head 0 0 s.seg.text
  rw [← lined.lines, line] at head
  cases head
  refine below ⟨sheet, ?_, low, ?_⟩
  · rw [lined.lines] at several
    by_contra single
    exact several (lineRanges_single.mpr single)
  · dsimp only at right
    omega

theorem sheetChunks_spec {forms : Forms} {segments : List Segment} {b : Builder} {seg : Segment}
    (sheet : seg.kind = .sheet) (place : getSlice b.full seg.charStart seg.charEnd = some seg.text)
    (rows : Option (List Nat)) : ∃ b', sheetChunks forms b seg rows = some b' ∧ Grows segments b b' ∧
      ∀ i c, seg.Holds i → b.full[i]? = some c → isWhitespace c = false → ¬InHeader seg i → b'.Covers i := by
  have head := lineRanges_head 0 0 seg.text
  have first := lineRanges_bounds (Nat.le_refl 0) _ (List.mem_of_getElem? head)
  unfold sheetChunks
  simp only [head, Option.bind_eq_bind, Option.bind_some,
    getSlice_ok (Nat.zero_le _) (first.2.2.trans (Nat.le_of_eq (Nat.zero_add _)))]
  generalize List.take 300 _ = heading
  let s : Sheet := ⟨seg, rows, lineRanges 0 0 seg.text, heading⟩
  have lined : Lined b s := ⟨place, rfl⟩
  split
  · obtain ⟨order, inside, -⟩ := getSlice_bounds place
    have other : Names segments seg.charStart seg.charEnd (s.locator 0 0) :=
      names_other (by simp [Sheet.locator, Locator.new])
    obtain ⟨b', ran, grows, covers⟩ := @push_spec forms segments b _ _ seg.ord heading _ order inside other
    exact ⟨b', ran, grows, fun i c holds _ _ _ => covers i holds.1 holds.2⟩
  rename_i several
  have some_ : 0 < s.lines.length := by
    obtain ⟨known, -⟩ := List.getElem?_eq_some_iff.mp head
    exact known
  have start : Grouped segments b s 0 (b, none) :=
    ⟨.refl _ _, fun k i low high => by omega, fun a z none_ => by cases none_⟩
  have pass : ∀ j item st, (List.range' 1 (s.lines.length - 1))[j]? = some item → Grouped segments b s j st →
        ∃ st', s.line forms st item = some st' ∧ Grouped segments b s (j + 1) st' := by
    intro j item st at_ grouped
    obtain ⟨known, rfl⟩ := List.getElem?_eq_some_iff.mp at_
    rw [List.length_range'] at known
    rw [List.getElem_range', Nat.one_mul, Nat.add_comm]
    exact line_spec lined grouped (by omega)
  obtain ⟨st, ran, grouped⟩ := foldlM_total (Grouped segments b s) start pass
  rw [List.length_range'] at grouped
  obtain ⟨b', flushed, grows, covers⟩ := @flush_spec forms segments b s _ st lined grouped (by omega)
  refine ⟨b', by simp only [s] at ran flushed; simp [ran, flushed], grouped.grows.trans grows, ?_⟩
  intro i c holds at_ black below
  obtain ⟨k, low, high, within⟩ := inLine_of_black lined sheet several holds at_ black below
  exact covers k i low (by omega) within

end DuDuClaw.Knowledge.Chunks
