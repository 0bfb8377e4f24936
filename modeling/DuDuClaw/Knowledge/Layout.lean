/-
# Knowledge.Layout -- the text of a source

The extracted segments of a source are cleaned and joined by a blank line.  A segment that is
blank is left out; every other one keeps its place in the joined text.

* `cleanText`: the display form of a text.
* `laid_layout`: the places of the segments, in order, hold their texts, and between them
  stands whitespace only.
-/
import DuDuClaw.Lib.Chars
import DuDuClaw.Lib.Slices
import Mathlib.Algebra.Group.Nat.Defs

namespace DuDuClaw.Knowledge.Chunks

open DuDuClaw.Lib

/-! ## Cleaning -/

/-- Every line break becomes a line feed. -/
def unifyBreaks : List Char → List Char
  | '\r' :: '\n' :: rest => '\n' :: unifyBreaks rest
  | '\r' :: rest => '\n' :: unifyBreaks rest
  | c :: rest => c :: unifyBreaks rest
  | [] => []

def isZeroWidth (c : Char) : Bool :=
  c.toNat == 0x200B || c.toNat == 0x200C || c.toNat == 0x200D || c.toNat == 0xFEFF

def cleanChar (c : Char) : Option Char :=
  if c = '\t' then some ' '
  else if isControl c then none
  else if isZeroWidth c then none
  else some c

/-- `s.trim_end()`. -/
def trimEnd (s : List Char) : List Char := s.rdropWhile isWhitespace

/-- The loop over the lines, in a run of `blankRun` blank ones. -/
def cleanLines : Nat → List (List Char) → List Char
  | _, [] => []
  | blankRun, line :: rest =>
    let trimmed := trimEnd (line.filterMap cleanChar)
    if trimmed.isEmpty then
      if 1 < blankRun + 1 then cleanLines (blankRun + 1) rest
      else trimmed ++ '\n' :: cleanLines (blankRun + 1) rest
    else trimmed ++ '\n' :: cleanLines 0 rest

def cleanText (raw : List Char) : List Char :=
  trimMatches (· == '\n') (cleanLines 0 ((unifyBreaks raw).splitOn '\n'))

def normalizeRows (text : List Char) : List Char :=
  ['\n'].intercalate ((text.splitOn '\n').map fun l =>
    (cleanText l).map fun c => if c = '\n' then ' ' else c)

/-! ## Segments -/

inductive SegmentKind where
  | page
  | slide
  | sheet
  | section_
  | text
  deriving DecidableEq

structure RawSegment where
  kind : SegmentKind
  label : Option (List Char)
  page : Option Nat
  sheet : Option (List Char)
  lineRows : Option (List Nat)
  text : List Char

structure Segment where
  ord : Nat
  kind : SegmentKind
  label : Option (List Char)
  page : Option Nat
  sheet : Option (List Char)
  rowStart : Option Nat
  rowEnd : Option Nat
  charStart : Nat
  charEnd : Nat
  text : List Char

def SEPARATOR : List Char := ['\n', '\n']

structure Layout where
  segments : List Segment
  rows : List (Option (List Nat))
  full : List Char
  pos : Nat

def normalize (seg : RawSegment) : List Char :=
  if seg.kind = .sheet then normalizeRows seg.text else cleanText seg.text

def Layout.add (l : Layout) (seg : RawSegment) : Layout :=
  let text := normalize seg
  if (trim text).isEmpty then l
  else
    let full := if l.full.isEmpty then l.full else l.full ++ SEPARATOR
    let pos := if l.full.isEmpty then l.pos else l.pos + SEPARATOR.length
    let n := text.length
    let lineRows := seg.lineRows.filter fun r => r.length == (text.splitOn '\n').length
    { segments := l.segments ++ [{
        ord := l.segments.length % 2 ^ 32
        kind := seg.kind
        label := (seg.label.map cleanText).filter (!·.isEmpty)
        page := seg.page
        sheet := seg.sheet
        rowStart := lineRows.bind List.head?
        rowEnd := lineRows.bind List.getLast?
        charStart := pos
        charEnd := pos + n
        text }]
      rows := l.rows ++ [lineRows]
      full := full ++ text
      pos := pos + n }

def layout (raw : List RawSegment) : Layout := raw.foldl Layout.add ⟨[], [], [], 0⟩

def joined (segments : List Segment) : List Char := SEPARATOR.intercalate (segments.map Segment.text)

/-! ## Places -/

def Segment.Holds (s : Segment) (i : Nat) : Prop := s.charStart ≤ i ∧ i < s.charEnd

structure Laid (l : Layout) : Prop where
  pos : l.pos = l.full.length
  rows : l.rows.length = l.segments.length
  joined : l.full = joined l.segments
  empty : l.full = [] ↔ l.segments = []
  places : ∀ s ∈ l.segments, getSlice l.full s.charStart s.charEnd = some s.text
  black : ∀ s ∈ l.segments, ∃ (i : Nat) (c : Char), s.text[i]? = some c ∧ isWhitespace c = false
  ordered : l.segments.Pairwise fun a b => a.charEnd ≤ b.charStart
  gaps : ∀ (i : Nat) (c : Char), l.full[i]? = some c → isWhitespace c = false → ∃ s ∈ l.segments, s.Holds i

theorem black_of_trim {text : List Char} (kept : (trim text).isEmpty = false) :
    ∃ (i : Nat) (c : Char), text[i]? = some c ∧ isWhitespace c = false := by
  by_contra none_
  have white : ∀ c ∈ text, isWhitespace c = true := by
    intro c listed
    obtain ⟨i, at_⟩ := List.mem_iff_getElem?.mp listed
    by_contra black
    exact none_ ⟨i, c, at_, by simpa using black⟩
  have front : text.dropWhile isWhitespace = [] := List.dropWhile_eq_nil_iff.mpr white
  simp [trim, front] at kept

theorem joined_concat (segments : List Segment) (s : Segment) : joined (segments ++ [s]) =
      (if segments = [] then [] else joined segments ++ SEPARATOR) ++ s.text := by
  unfold joined
  induction segments with
  | nil => simp
  | cons a rest ih =>
    rw [if_neg (List.cons_ne_nil a rest), List.cons_append, List.map_cons,
      List.intercalate_cons_of_ne_nil (by simp), ih]
    by_cases last : rest = []
    · subst last
      simp
    · rw [if_neg last, List.map_cons, List.intercalate_cons_of_ne_nil (by simpa using last)]
      simp

theorem laid_place {l l' : Layout} (laid : Laid l) {gap text : List Char} {s : Segment}
    (white : ∀ c ∈ gap, isWhitespace c = true)
    (sep : l.full ++ gap = if l.segments = [] then [] else joined l.segments ++ SEPARATOR)
    (black : ∃ (i : Nat) (c : Char), text[i]? = some c ∧ isWhitespace c = false)
    (segments : l'.segments = l.segments ++ [s]) (rows : l'.rows.length = l.rows.length + 1)
    (full : l'.full = l.full ++ gap ++ text) (pos : l'.pos = (l.full ++ gap).length + text.length)
    (own : s.text = text) (start : s.charStart = (l.full ++ gap).length)
    (stop : s.charEnd = (l.full ++ gap).length + text.length) : Laid l' := by
  refine ⟨?_, ?_, ?_, ?_, ?_, ?_, ?_, ?_⟩
  · rw [pos, full, @List.length_append _ (l.full ++ gap)]
  · rw [rows, segments, laid.rows, List.length_append, List.length_singleton]
  · rw [full, segments, joined_concat, own, sep]
  · obtain ⟨i, c, at_, -⟩ := black
    have some_ : text ≠ [] := by
      rintro rfl
      simp at at_
    simp [full, segments, some_]
  · intro s' listed
    rw [full]
    rw [segments, List.mem_append, List.mem_singleton] at listed
    obtain old | rfl := listed
    · rw [List.append_assoc]
      exact getSlice_append (laid.places s' old)
    · rw [start, stop, own]
      exact getSlice_end _ _
  · intro s' listed
    rw [segments, List.mem_append, List.mem_singleton] at listed
    obtain old | rfl := listed
    · exact laid.black s' old
    · rwa [own]
  · rw [segments, List.pairwise_append]
    refine ⟨laid.ordered, List.pairwise_singleton _ _, fun a old b new => ?_⟩
    cases List.mem_singleton.mp new
    have inside := (getSlice_bounds (laid.places a old)).2.1
    rw [start, List.length_append]
    omega
  · intro i c at_ black
    rw [full, List.append_assoc] at at_
    simp only [segments, List.mem_append, List.mem_singleton]
    by_cases before : i < l.full.length
    · rw [List.getElem?_append_left before] at at_
      obtain ⟨s', old, holds⟩ := laid.gaps i c at_ black
      exact ⟨s', .inl old, holds⟩
    rw [List.getElem?_append_right (by omega)] at at_
    by_cases between : i - l.full.length < gap.length
    · rw [List.getElem?_append_left between] at at_
      simp [white c (List.mem_of_getElem? at_)] at black
    rw [List.getElem?_append_right (by omega)] at at_
    obtain ⟨inside, -⟩ := List.getElem?_eq_some_iff.mp at_
    refine ⟨s, .inr rfl, ?_⟩
    unfold Segment.Holds
    rw [start, stop, List.length_append]
    omega

theorem laid_add {l : Layout} (laid : Laid l) (seg : RawSegment) : Laid (l.add seg) := by
  unfold Layout.add
  dsimp only
  split
  · exact laid
  rename_i kept
  have black := black_of_trim (Bool.eq_false_iff.mpr kept)
  by_cases first : l.full = []
  · have none_ := laid.empty.mp first
    refine @laid_place l _ laid [] _ _ (by simp) (by simp [first, none_]) black rfl (by simp) ?_ ?_ rfl ?_ ?_ <;>
      simp [first, laid.pos]
  have some_ : l.segments ≠ [] := fun none_ => first (laid.empty.mpr none_)
  have white : ∀ c ∈ SEPARATOR, isWhitespace c = true := by
    rw [SEPARATOR, List.forall_mem_cons, List.forall_mem_singleton]
    exact ⟨rfl, rfl⟩
  refine @laid_place l _ laid SEPARATOR _ _ white ?_ black rfl (by simp) ?_ ?_ rfl ?_ ?_
  · rw [if_neg some_, laid.joined]
  all_goals simp [first, laid.pos]

theorem laid_layout (raw : List RawSegment) : Laid (layout raw) := by
  unfold layout
  have start : Laid ⟨[], [], [], 0⟩ := by
    refine ⟨rfl, rfl, rfl, by simp, by simp, by simp, List.Pairwise.nil, by simp⟩
  generalize (⟨[], [], [], 0⟩ : Layout) = l at start
  induction raw generalizing l with
  | nil => exact start
  | cons seg rest ih => exact ih _ (laid_add start seg)

/-- A segment has the kind and the page of the raw one that it comes from. -/
theorem origin_layout (raw : List RawSegment) :
    ∀ s ∈ (layout raw).segments, ∃ r ∈ raw, s.kind = r.kind ∧ s.page = r.page := by
  suffices general : ∀ l : Layout, ∀ s ∈ (raw.foldl Layout.add l).segments,
      s ∈ l.segments ∨ ∃ r ∈ raw, s.kind = r.kind ∧ s.page = r.page by
    intro s listed
    obtain none_ | found := general _ s listed
    · cases none_
    · exact found
  induction raw with
  | nil => exact fun l s listed => .inl listed
  | cons seg rest ih =>
    intro l s listed
    obtain before | ⟨r, later, same⟩ := ih (l.add seg) s listed
    · unfold Layout.add at before
      dsimp only at before
      split at before
      · exact .inl before
      obtain old | new := List.mem_append.mp before
      · exact .inl old
      · cases List.mem_singleton.mp new
        exact .inr ⟨seg, List.mem_cons_self .., rfl, rfl⟩
    · exact .inr ⟨r, List.mem_cons_of_mem _ later, same⟩

end DuDuClaw.Knowledge.Chunks
