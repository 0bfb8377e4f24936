/-
# Knowledge.ChunkSizes -- how long a chunk can be

A range of a packed text, a group of rows and a piece of a row have `MAX` characters at most.
Two kinds of chunks have no bound of their own: a sheet of one line is pushed whole, and the
first chunk of a page begins where the earliest of the tails that wait for it does, with every
page between them.

* `pack_short`, `sheetChunks_bounded`, `pageLoop_bounded`: what each kind of segment adds.
* `segmentStep_sized`: the tail that waits is the earliest one of the pages before.
* `chunks_bounded_iff`: the chunks are bounded exactly when both kinds are.
-/
import Mathlib.Algebra.GroupWithZero.Nat
import DuDuClaw.Knowledge.Chunks

namespace DuDuClaw.Knowledge.Chunks

open DuDuClaw.Lib

/-- A page's tail, the separator and an ordinary chunk. -/
def CHUNK_BOUND : Nat := MAX + PAGE_TAIL_MIN + 2

/-! ## What the sizes depend on -/

/-- The kinds and the cleaned texts of the segments that are not blank. -/
def blocks (raw : List RawSegment) : List (SegmentKind × List Char) :=
  (raw.map fun seg => (seg.kind, normalize seg)).filter fun block => !(trim block.2).isEmpty

section Blocks

variable (bs : List (SegmentKind × List Char))

/-- Where a block begins in the joined text. -/
def startOf (k : Nat) : Nat := ((bs.take k).map fun block => block.2.length + SEPARATOR.length).sum

def isPageBlock (k : Nat) : Bool := bs[k]?.any fun block => block.1 == .page

def rangesOf (k : Nat) : List (Nat × Nat) :=
  match bs[k]? with
  | some (.page, text) => (pack text).getD []
  | _ => []

/-- The short last range of a page before another page. -/
def tailOf (k : Nat) : Option (Nat × Nat) :=
  (rangesOf bs k).getLast?.filter fun r => r.2 - r.1 < PAGE_TAIL_MIN && isPageBlock bs (k + 1)

/-- The ranges of a page without its tail. -/
def bodyOf (k : Nat) : List (Nat × Nat) :=
  if (tailOf bs k).isSome then (rangesOf bs k).dropLast else rangesOf bs k

/-- A page before `k` ends in a tail that begins at `start`, and those between are nothing but
tails. -/
def CarriedFrom (k start : Nat) : Prop :=
  ∃ i r, i < k ∧ tailOf bs i = some r ∧
    (∀ m, i < m → m < k → (tailOf bs m).isSome = true ∧ bodyOf bs m = []) ∧
    start = startOf bs i + r.1

/-- A block that makes no chunk longer than the bound. -/
structure Fits (k : Nat) : Prop where
  sheet : ∀ text, bs[k]? = some (.sheet, text) → '\n' ∉ text → text.length ≤ CHUNK_BOUND
  page : ∀ r start, (bodyOf bs k).head? = some r → CarriedFrom bs k start →
    startOf bs k + r.2 - start ≤ CHUNK_BOUND

end Blocks

/-! ## Ranges -/

variable {out : List (Nat × Nat)} {chars : List Char} {a n : Nat}

theorem packLoop_short {bounds : List Nat} {len fuel s : Nat}
    (ran : packLoop bounds len fuel s = some out) : ∀ r ∈ out, r.2 - r.1 ≤ MAX := by
  induction fuel generalizing s out with
  | zero => cases ran
  | succ fuel ih =>
    rw [packLoop] at ran
    split at ran
    · cases ran
      exact fun r listed => by cases listed
    split at ran
    · rename_i short
      cases ran
      intro r listed
      cases List.mem_singleton.mp listed
      exact short
    obtain ⟨rest, further, rfl⟩ := Option.map_eq_some_iff.mp ran
    intro r listed
    obtain rfl | later := List.mem_cons.mp listed
    · exact Nat.sub_le_of_le_add (by have := (cutAt_bounds bounds s).2; omega)
    · exact ih further r later

theorem trimFront_le {a' : Nat} (ran : trimFront chars a n = some a') : a ≤ a' := by
  induction n generalizing a with
  | zero =>
    cases ran
    exact Nat.le_refl _
  | succ n ih =>
    obtain ⟨c, -, rest⟩ := Option.bind_eq_some_iff.mp ran
    split at rest
    · exact Nat.le_of_succ_le (ih rest)
    · cases rest
      exact Nat.le_refl _

theorem trimBack_le {b : Nat} (ran : trimBack chars a n = some b) : b ≤ a + n := by
  induction n with
  | zero =>
    cases ran
    exact Nat.le_refl _
  | succ n ih =>
    obtain ⟨c, -, rest⟩ := Option.bind_eq_some_iff.mp ran
    split at rest
    · exact Nat.le_succ_of_le (ih rest)
    · cases rest
      exact Nat.le_refl _

theorem trimRange_within {r t : Nat × Nat} (ran : trimRange chars r = some (some t)) :
    r.1 ≤ t.1 ∧ t.1 < t.2 ∧ t.2 ≤ r.2 := by
  obtain ⟨a, front, rest⟩ := Option.bind_eq_some_iff.mp ran
  obtain ⟨b, back, last⟩ := Option.bind_eq_some_iff.mp rest
  have low := trimFront_le front
  have high := trimBack_le back
  have kept : (if a < b then some (a, b) else none) = some t := Option.some.inj last
  split at kept
  · cases kept
    dsimp only
    omega
  · cases kept

/-- A packed range is not longer than a chunk. -/
theorem pack_short (packed : pack chars = some out) : ∀ r ∈ out, r.2 - r.1 ≤ MAX := by
  obtain ⟨bounds, -, rest⟩ := Option.bind_eq_some_iff.mp packed
  obtain ⟨ranges, ran, trimmed⟩ := Option.bind_eq_some_iff.mp rest
  intro t listed
  obtain ⟨r, before, read⟩ := mem_tryFilterMap trimmed listed
  have short := packLoop_short ran r before
  have within := trimRange_within read
  omega

/-! ## Chunks of a sheet -/

def Builder.Bounded (b : Builder) : Prop := ∀ c ∈ b.chunks, c.text.length ≤ CHUNK_BOUND

section Builder

variable {forms : Forms} {b b' : Builder} {start stop ord : Nat} {heading : List Char} {locator : Locator}

theorem push_bounded (pushed : b.push forms start stop heading locator ord = some b') :
    b'.full = b.full ∧ (b'.Bounded ↔ b.Bounded ∧ stop - start ≤ CHUNK_BOUND) := by
  obtain ⟨text, cut, same⟩ := Option.bind_eq_some_iff.mp pushed
  obtain rfl := Option.some.inj same
  refine ⟨rfl, ?_⟩
  have length := (getSlice_bounds cut).2.2
  unfold Builder.Bounded
  rw [List.forall_mem_append, List.forall_mem_singleton]
  show _ ∧ text.length ≤ _ ↔ _
  rw [length]

/-- A chunk that is not longer than a packed range. -/
theorem push_short (pushed : b.push forms start stop heading locator ord = some b')
    (short : stop - start ≤ MAX) : b'.full = b.full ∧ (b'.Bounded ↔ b.Bounded) := by
  obtain ⟨full, bounded⟩ := push_bounded pushed
  refine ⟨full, bounded.trans (and_iff_left ?_)⟩
  unfold CHUNK_BOUND
  omega

variable {s : Sheet}

theorem pushPieces_bounded {i le fuel p : Nat} (ran : s.pushPieces forms i le fuel p b = some b') :
    b'.full = b.full ∧ (b'.Bounded ↔ b.Bounded) := by
  induction fuel generalizing p b with
  | zero => cases ran
  | succ fuel ih =>
    rw [Sheet.pushPieces] at ran
    split at ran
    · obtain ⟨mid, pushed, rest⟩ := Option.bind_eq_some_iff.mp ran
      have here := push_short pushed (by omega)
      have later := ih rest
      exact ⟨later.1.trans here.1, later.2.trans here.2⟩
    · cases ran
      exact ⟨rfl, Iff.rfl⟩

/-- The group of lines that is open after the line `j` ends with it and is short. -/
def GroupFits (s : Sheet) (j : Nat) (group : Option (Nat × Nat)) : Prop :=
  ∀ a z, group = some (a, z) → z = j ∧ ∃ first last, s.lines[a]? = some first ∧ s.lines[z]? = some last ∧
    last.2 - first.1 ≤ MAX

theorem groupFits_none {j : Nat} : GroupFits s j none := fun a z none_ => by cases none_

theorem groupFits_single {i : Nat} {line : Nat × Nat} (there : s.lines[i]? = some line)
    (short : ¬MAX < line.2 - line.1) : GroupFits s i (some (i, i)) := by
  rintro a z ⟨⟩
  exact ⟨rfl, line, line, there, there, Nat.not_lt.mp short⟩

theorem flush_bounded {j : Nat} {group : Option (Nat × Nat)} (fits : GroupFits s j group)
    (ran : s.flush forms b group = some b') : b'.full = b.full ∧ (b'.Bounded ↔ b.Bounded) := by
  cases group with
  | none =>
    cases ran
    exact ⟨rfl, Iff.rfl⟩
  | some range =>
    obtain ⟨a, z⟩ := range
    obtain ⟨-, first, last, left, right, short⟩ := fits a z rfl
    have pushed : s.pushGroup forms b a z = some b' := ran
    simp only [Sheet.pushGroup, left, right, Option.bind_eq_bind, Option.bind_some] at pushed
    exact push_short pushed (by omega)

theorem line_bounded {j : Nat} {st st' : Builder × Option (Nat × Nat)} (fits : GroupFits s j st.2)
    (ran : s.line forms st (j + 1) = some st') :
    st'.1.full = st.1.full ∧ (st'.1.Bounded ↔ st.1.Bounded) ∧ GroupFits s (j + 1) st'.2 := by
  obtain ⟨line, there, rest⟩ := Option.bind_eq_some_iff.mp ran
  dsimp only at rest
  split at rest
  · obtain ⟨mid, flushed, rest⟩ := Option.bind_eq_some_iff.mp rest
    obtain ⟨b', cut, same⟩ := Option.bind_eq_some_iff.mp rest
    cases same
    have first := flush_bounded fits flushed
    have pieces := pushPieces_bounded cut
    exact ⟨pieces.1.trans first.1, pieces.2.trans first.2, groupFits_none⟩
  rename_i short
  obtain ⟨b, group⟩ := st
  cases group with
  | none =>
    cases rest
    exact ⟨rfl, Iff.rfl, groupFits_single there short⟩
  | some range =>
    obtain ⟨a, z⟩ := range
    obtain ⟨rfl, first, last, left, right, -⟩ := fits a z rfl
    simp only [left, Option.bind_eq_bind, Option.bind_some] at rest
    split at rest
    · rename_i near
      cases rest
      refine ⟨rfl, Iff.rfl, ?_⟩
      rintro a' z' ⟨⟩
      rw [Nat.max_eq_left (Nat.le_succ z)]
      refine ⟨rfl, first, line, left, there, ?_⟩
      simp only [TARGET, MAX] at near ⊢
      omega
    · obtain ⟨b', pushed, same⟩ := Option.bind_eq_some_iff.mp rest
      cases same
      have whole : s.flush forms b (some (a, z)) = some b' := pushed
      have flushed := flush_bounded fits whole
      exact ⟨flushed.1, flushed.2, groupFits_single there short⟩

/-- **A sheet** makes a chunk over the bound exactly when it is one line that is longer. -/
theorem sheetChunks_bounded {seg : Segment} {rows : Option (List Nat)}
    (ran : sheetChunks forms b seg rows = some b') : b'.full = b.full ∧ (b'.Bounded ↔ b.Bounded ∧
      ('\n' ∉ seg.text → seg.charEnd - seg.charStart ≤ CHUNK_BOUND)) := by
  obtain ⟨first, -, rest⟩ := Option.bind_eq_some_iff.mp ran
  obtain ⟨header, -, rest⟩ := Option.bind_eq_some_iff.mp rest
  dsimp only at rest
  split at rest
  · rename_i single
    have plain := lineRanges_single.mp single
    obtain ⟨full, bounded⟩ := push_bounded rest
    refine ⟨full, bounded.trans (and_congr_right fun _ => ?_)⟩
    exact ⟨fun short _ => short, fun short => short plain⟩
  rename_i several
  obtain ⟨st, loop, flushed⟩ := Option.bind_eq_some_iff.mp rest
  have broken : ¬('\n' ∉ seg.text) := fun plain => several (lineRanges_single.mpr plain)
  have rows_ := foldlM_ran
    (fun j (st : Builder × Option (Nat × Nat)) =>
      st.1.full = b.full ∧ (st.1.Bounded ↔ b.Bounded) ∧ GroupFits _ j st.2)
    loop ⟨rfl, Iff.rfl, groupFits_none⟩ fun j item st st' at_ held pass => by
      obtain ⟨full, bounded, fits⟩ := held
      obtain ⟨known, rfl⟩ := List.getElem?_eq_some_iff.mp at_
      rw [List.getElem_range', Nat.one_mul, Nat.add_comm] at pass
      have row := line_bounded fits pass
      exact ⟨row.1.trans full, row.2.1.trans bounded, row.2.2⟩
  obtain ⟨full, bounded, fits⟩ := rows_
  have last := flush_bounded fits flushed
  refine ⟨last.1.trans full, (last.2.trans bounded).trans (and_iff_left fun plain => ?_).symm⟩
  exact absurd plain broken

/-! ## Chunks of a text or a page -/

variable {seg : Segment}

variable {r : Nat × Nat} {st st' : Builder × Carry}

theorem textChunks_bounded {format : Format} (place : getSlice b.full seg.charStart seg.charEnd = some seg.text)
    (ran : textChunks forms format seg b = some b') : b'.full = b.full ∧ (b'.Bounded ↔ b.Bounded) := by
  unfold textChunks at ran
  rw [place] at ran
  simp only [Option.bind_eq_bind, Option.bind_some] at ran
  obtain ⟨ranges, packed, loop⟩ := Option.bind_eq_some_iff.mp ran
  refine foldlM_ran (fun _ (st : Builder) => st.full = b.full ∧ (st.Bounded ↔ b.Bounded)) loop
    ⟨rfl, Iff.rfl⟩ fun j r st st' at_ held pushed => ?_
  have short := pack_short packed r (List.mem_of_getElem? at_)
  have here := push_short pushed (by omega)
  exact ⟨here.1.trans held.1, here.2.trans held.2⟩

theorem pageRange_later {k : Nat} (short : r.2 - r.1 ≤ MAX)
    (ran : pageRange forms seg st (r, k + 1) = some st') :
    st'.1.full = st.1.full ∧ (st'.1.Bounded ↔ st.1.Bounded) ∧ st'.2 = st.2 := by
  obtain ⟨b₁, pushed, rfl⟩ := Option.map_eq_some_iff.mp ran
  have here := push_short pushed (by omega)
  exact ⟨here.1, here.2, rfl⟩

theorem pageRange_first (short : r.2 - r.1 ≤ MAX) (ran : pageRange forms seg st (r, 0) = some st') :
    st'.1.full = st.1.full ∧ st'.2 = none ∧ (st'.1.Bounded ↔ st.1.Bounded ∧
      ∀ cs cp, st.2 = some (cs, cp) → seg.charStart + r.2 - cs ≤ CHUNK_BOUND) := by
  obtain ⟨b, carry⟩ := st
  cases carry with
  | none =>
    obtain ⟨b₁, pushed, rfl⟩ := Option.map_eq_some_iff.mp ran
    have here := push_short pushed (by omega)
    refine ⟨here.1, rfl, here.2.trans (and_iff_left fun cs cp none_ => ?_).symm⟩
    cases none_
  | some waited =>
    obtain ⟨cs, cp⟩ := waited
    obtain ⟨b₁, pushed, rfl⟩ := Option.map_eq_some_iff.mp ran
    obtain ⟨full, bounded⟩ := push_bounded pushed
    refine ⟨full, rfl, bounded.trans (and_congr_right fun _ => ⟨?_, fun all => all cs cp rfl⟩)⟩
    rintro near cs' cp' ⟨⟩
    exact near

/-- **The ranges of a page** make a chunk over the bound exactly when the first one does, with the
tail that waits for it. -/
theorem pageLoop_bounded {ranges : List (Nat × Nat)} {carry carry' : Carry}
    (short : ∀ r ∈ ranges, r.2 - r.1 ≤ MAX)
    (ran : ranges.zipIdx.foldlM (pageRange forms seg) (b, carry) = some (b', carry')) :
    b'.full = b.full ∧ carry' = (if ranges = [] then carry else none) ∧ (b'.Bounded ↔ b.Bounded ∧
      ∀ r cs cp, ranges.head? = some r → carry = some (cs, cp) → seg.charStart + r.2 - cs ≤ CHUNK_BOUND) := by
  cases ranges with
  | nil =>
    cases ran
    refine ⟨rfl, rfl, (and_iff_left fun r cs cp none_ => ?_).symm⟩
    cases none_
  | cons first rest =>
    rw [List.zipIdx_cons, List.foldlM_cons] at ran
    obtain ⟨⟨b₁, carry₁⟩, here, later⟩ := Option.bind_eq_some_iff.mp ran
    obtain ⟨full, taken, bounded⟩ := pageRange_first (short first List.mem_cons_self) here
    have others := foldlM_ran (fun _ (st : Builder × Carry) =>
        st.1.full = b₁.full ∧ (st.1.Bounded ↔ b₁.Bounded) ∧ st.2 = carry₁)
      later ⟨rfl, Iff.rfl, rfl⟩ fun j item st st' at_ held pass => by
        rw [List.getElem?_zipIdx] at at_
        obtain ⟨r, line, rfl⟩ := Option.map_eq_some_iff.mp at_
        have near := short r (List.mem_cons_of_mem _ (List.mem_of_getElem? line))
        rw [Nat.zero_add, Nat.add_comm 1 j] at pass
        have one := pageRange_later near pass
        exact ⟨one.1.trans held.1, one.2.1.trans held.2.1, one.2.2.trans held.2.2⟩
    obtain ⟨full', bounded', kept⟩ := others
    refine ⟨full'.trans full, ?_, (bounded'.trans bounded).trans (and_congr_right fun _ => ?_)⟩
    · rw [if_neg (List.cons_ne_nil first rest)]
      exact kept.trans taken
    · constructor
      · rintro near r cs cp ⟨⟩ waited
        exact near cs cp waited
      · intro near cs cp waited
        exact near first cs cp rfl waited

end Builder

/-! ## The places of the blocks -/

variable {bs : List (SegmentKind × List Char)} {k : Nat}

theorem startOf_append {more : List (SegmentKind × List Char)} (le : k ≤ bs.length) :
    startOf (bs ++ more) k = startOf bs k := by
  rw [startOf, startOf, List.take_append_of_le_length le]

theorem startOf_concat (bs : List (SegmentKind × List Char)) (block : SegmentKind × List Char) :
    startOf (bs ++ [block]) (bs.length + 1) = startOf bs bs.length + (block.2.length + SEPARATOR.length) := by
  rw [startOf, startOf, List.take_of_length_le (by simp), List.take_length]
  simp

theorem startOf_succ {block : SegmentKind × List Char} (there : bs[k]? = some block) :
    startOf bs (k + 1) = startOf bs k + (block.2.length + SEPARATOR.length) := by
  rw [startOf, startOf, List.take_add_one, there]
  simp

theorem startOf_mono {j : Nat} (le : j ≤ k) : startOf bs j ≤ startOf bs k := by
  induction le with
  | refl => exact Nat.le_refl _
  | @step k _ ih =>
    refine Nat.le_trans ih ?_
    rw [startOf, startOf, List.take_add_one, List.map_append, List.sum_append]
    exact Nat.le_add_right _ _

/-- The blocks are the segments that are laid out, at their places. -/
structure Blocked (l : Layout) (bs : List (SegmentKind × List Char)) : Prop where
  blocks : l.segments.map (fun s => (s.kind, s.text)) = bs
  places : ∀ (k : Nat) s, l.segments[k]? = some s →
    s.charStart = startOf bs k ∧ s.charEnd = startOf bs k + s.text.length
  next : l.segments ≠ [] → l.pos + SEPARATOR.length = startOf bs bs.length

theorem blocked_add {l : Layout} (laid : Laid l) (blocked : Blocked l bs)
    (seg : RawSegment) : Blocked (l.add seg) (bs ++ blocks [seg]) := by
  unfold Layout.add
  dsimp only
  split
  · rename_i blank
    have none_ : blocks [seg] = [] := by simp [blocks, blank]
    rw [none_, List.append_nil]
    exact blocked
  rename_i kept
  have one : blocks [seg] = [(seg.kind, normalize seg)] := by simp [blocks, kept]
  have count : l.segments.length = bs.length := by rw [← blocked.blocks, List.length_map]
  -- the new segment stands behind the separator, if another one is there
  have start : (if l.full.isEmpty then l.pos else l.pos + SEPARATOR.length) = startOf bs bs.length := by
    by_cases first : l.full = []
    · have none_ := laid.empty.mp first
      rw [none_, List.length_nil] at count
      rw [if_pos (by simp [first]), laid.pos, first, ← count]
      rfl
    · rw [if_neg (by simp [first])]
      exact blocked.next fun none_ => first (laid.empty.mpr none_)
  rw [one, start]
  refine ⟨?_, fun k s there => ?_, fun _ => ?_⟩
  · rw [List.map_append, blocked.blocks]
    rfl
  · dsimp only at there
    by_cases before : k < l.segments.length
    · rw [List.getElem?_append_left before] at there
      rw [startOf_append (by omega)]
      exact blocked.places k s there
    rw [List.getElem?_append_right (by omega)] at there
    obtain ⟨inside, same⟩ := List.getElem?_eq_some_iff.mp there
    rw [List.length_singleton] at inside
    obtain rfl : k = bs.length := by omega
    rw [List.getElem_singleton] at same
    cases same
    rw [startOf_append (Nat.le_refl _)]
    exact ⟨rfl, rfl⟩
  · rw [List.length_append, List.length_singleton, startOf_concat]
    exact Nat.add_assoc _ _ _

theorem blocks_cons (seg : RawSegment) (rest : List RawSegment) : blocks (seg :: rest) = blocks [seg] ++ blocks rest := by
  rw [blocks, blocks, blocks, ← List.filter_append, ← List.map_append]
  rfl

theorem blocked_layout (raw : List RawSegment) : Blocked (layout raw) (blocks raw) := by
  suffices general : ∀ (l : Layout) (bs : List (SegmentKind × List Char)), Laid l → Blocked l bs →
      Blocked (raw.foldl Layout.add l) (bs ++ blocks raw) by
    refine general _ [] (laid_layout []) ⟨rfl, fun k s there => ?_, fun some_ => absurd rfl some_⟩
    cases there
  induction raw with
  | nil =>
    intro l bs _ blocked
    rwa [show blocks [] = [] from rfl, List.append_nil]
  | cons seg rest ih =>
    intro l bs laid blocked
    rw [List.foldl_cons, blocks_cons, ← List.append_assoc]
    exact ih _ _ (laid_add laid seg) (blocked_add laid blocked seg)

/-! ## The tail that waits -/

section Carry

variable {bs : List (SegmentKind × List Char)} {k start : Nat}

theorem tailOf_page {r : Nat × Nat} (tail : tailOf bs k = some r) :
    isPageBlock bs (k + 1) = true ∧ ∃ text, bs[k]? = some (.page, text) ∧ r.2 ≤ text.length ∧ r.1 < r.2 := by
  obtain ⟨last, short⟩ := Option.filter_eq_some_iff.mp tail
  refine ⟨(Bool.and_eq_true_iff.mp short).2, ?_⟩
  have listed := List.mem_of_getLast? last
  unfold rangesOf at listed
  split at listed
  · rename_i text there
    obtain ⟨out, packed, inside, -⟩ := pack_spec text
    rw [packed] at listed
    exact ⟨text, there, (inside r listed).2, (inside r listed).1⟩
  · cases listed

/-- Behind a block, a tail that waits is its own, or one from before that it leaves where it is. -/
theorem carriedFrom_succ : CarriedFrom bs (k + 1) start ↔
    (∃ r, tailOf bs k = some r ∧ start = startOf bs k + r.1) ∨
      (tailOf bs k).isSome = true ∧ bodyOf bs k = [] ∧ CarriedFrom bs k start := by
  constructor
  · rintro ⟨i, r, lt, tail, between, same⟩
    obtain rfl | before := Nat.eq_or_lt_of_le (Nat.le_of_lt_succ lt)
    · exact .inl ⟨r, tail, same⟩
    · obtain ⟨tailed, bare⟩ := between k before (Nat.lt_succ_self k)
      exact .inr ⟨tailed, bare, i, r, before, tail,
        fun m low high => between m low (Nat.lt_succ_of_lt high), same⟩
  · rintro (⟨r, tail, same⟩ | ⟨tailed, bare, i, r, lt, tail, between, same⟩)
    · exact ⟨k, r, Nat.lt_succ_self k, tail, fun m low high => by omega, same⟩
    refine ⟨i, r, Nat.lt_succ_of_lt lt, tail, fun m low high => ?_, same⟩
    obtain rfl | before := Nat.eq_or_lt_of_le (Nat.le_of_lt_succ high)
    · exact ⟨tailed, bare⟩
    · exact between m low before

theorem CarriedFrom.isPage (carried : CarriedFrom bs k start) : isPageBlock bs k = true := by
  cases k with
  | zero =>
    obtain ⟨i, r, lt, -⟩ := carried
    exact absurd lt (Nat.not_lt_zero i)
  | succ k =>
    obtain ⟨r, tail, -⟩ | ⟨tailed, -⟩ := carriedFrom_succ.mp carried
    · exact (tailOf_page tail).1
    · obtain ⟨r, tail⟩ := Option.isSome_iff_exists.mp tailed
      exact (tailOf_page tail).1

theorem CarriedFrom.le (carried : CarriedFrom bs k start) : start ≤ startOf bs k := by
  obtain ⟨i, r, lt, tail, -, rfl⟩ := carried
  obtain ⟨-, text, there, inside, order⟩ := tailOf_page tail
  have behind : startOf bs (i + 1) ≤ startOf bs k := startOf_mono (Nat.succ_le_of_lt lt)
  rw [startOf_succ there] at behind
  dsimp only at behind
  omega

/-- What waits before a block is the earliest tail that is carried there. -/
structure Waiting (bs : List (SegmentKind × List Char)) (k : Nat) (carry : Carry) : Prop where
  none_ : carry = none → ∀ start, ¬CarriedFrom bs k start
  some_ : ∀ cs cp, carry = some (cs, cp) → CarriedFrom bs k cs ∧ ∀ start, CarriedFrom bs k start → cs ≤ start

theorem waiting_zero : Waiting bs 0 none := by
  refine ⟨fun _ start carried => ?_, fun cs cp none_ => by cases none_⟩
  obtain ⟨i, r, lt, -⟩ := carried
  exact Nat.not_lt_zero i lt

/-- Nothing waits behind a block without a tail. -/
theorem waiting_untailed (untailed : tailOf bs k = none) : Waiting bs (k + 1) none := by
  refine ⟨fun _ start carried => ?_, fun cs cp none_ => by cases none_⟩
  obtain ⟨r, tail, -⟩ | ⟨tailed, -⟩ := carriedFrom_succ.mp carried
  · rw [untailed] at tail
    cases tail
  · rw [untailed] at tailed
    cases tailed

/-- A tail waits behind its page, unless an earlier one does and the page is nothing but a tail. -/
theorem waiting_tailed {carry : Carry} (waiting : Waiting bs k carry) {r : Nat × Nat}
    (tail : tailOf bs k = some r) (page : Nat) : Waiting bs (k + 1) (some
      (((if bodyOf bs k = [] then carry else none).map Prod.fst).getD (startOf bs k + r.1), page)) := by
  have own : CarriedFrom bs (k + 1) (startOf bs k + r.1) := carriedFrom_succ.mpr (.inl ⟨r, tail, rfl⟩)
  refine ⟨fun none_ => (by cases none_), ?_⟩
  rintro cs cp ⟨⟩
  by_cases bare : bodyOf bs k = []
  · rw [if_pos bare]
    cases carry with
    | none =>
      refine ⟨own, fun start carried => ?_⟩
      obtain ⟨r', tail', rfl⟩ | ⟨-, -, before⟩ := carriedFrom_succ.mp carried
      · rw [tail] at tail'
        cases tail'
        exact Nat.le_refl _
      · exact absurd before (waiting.none_ rfl start)
    | some waited =>
      obtain ⟨cs, cp⟩ := waited
      obtain ⟨earliest, least⟩ := waiting.some_ cs cp rfl
      refine ⟨carriedFrom_succ.mpr (.inr ⟨Option.isSome_of_eq_some tail, bare, earliest⟩), ?_⟩
      intro start carried
      obtain ⟨r', tail', rfl⟩ | ⟨-, -, before⟩ := carriedFrom_succ.mp carried
      · exact Nat.le_trans earliest.le (Nat.le_add_right _ _)
      · exact least start before
  · rw [if_neg bare]
    refine ⟨own, fun start carried => ?_⟩
    obtain ⟨r', tail', rfl⟩ | ⟨-, empty, -⟩ := carriedFrom_succ.mp carried
    · rw [tail] at tail'
      cases tail'
      exact Nat.le_refl _
    · exact absurd empty bare

end Carry

/-! ## Segments -/

section Source

variable {forms : Forms} {format : Format} {l : Layout} {bs : List (SegmentKind × List Char)}

/-- What is known of the loop over the segments, after `k` of them. -/
structure Sized (l : Layout) (bs : List (SegmentKind × List Char)) (k : Nat) (st : Builder × Carry) : Prop where
  full : st.1.full = l.full
  bounded : st.1.Bounded ↔ ∀ j < k, Fits bs j
  waiting : Waiting bs k st.2

variable {k : Nat} {seg : Segment}

variable {text : List Char} {b b' : Builder} {carry : Carry}

theorem Blocked.block (blocked : Blocked l bs) (at_ : l.segments[k]? = some seg) :
    bs[k]? = some (seg.kind, seg.text) := by
  rw [← blocked.blocks, List.getElem?_map, at_]
  rfl

theorem Blocked.isPage (blocked : Blocked l bs) (k : Nat) :
    (l.segments[k]?.any fun seg => seg.kind == .page) = isPageBlock bs k := by
  rw [isPageBlock, ← blocked.blocks, List.getElem?_map, Option.any_map]

theorem rangesOf_page {ranges : List (Nat × Nat)}
    (there : bs[k]? = some (.page, text)) (packed : pack text = some ranges) : rangesOf bs k = ranges := by
  rw [rangesOf, there]
  exact congrArg (Option.getD · []) packed

theorem tailOf_other {kind : SegmentKind} (there : bs[k]? = some (kind, text))
    (other : kind ≠ .page) : rangesOf bs k = [] ∧ tailOf bs k = none := by
  have empty : rangesOf bs k = [] := by
    unfold rangesOf
    split
    · rename_i text' there'
      rw [there] at there'
      cases there'
      exact absurd rfl other
    · rfl
  refine ⟨empty, ?_⟩
  rw [tailOf, empty]
  rfl

theorem forall_lt_succ {p : Nat → Prop} : (∀ j < k + 1, p j) ↔ (∀ j < k, p j) ∧ p k := by
  constructor
  · intro all
    exact ⟨fun j lt => all j (Nat.lt_succ_of_lt lt), all k (Nat.lt_succ_self k)⟩
  · rintro ⟨before, last⟩ j lt
    obtain rfl | earlier := Nat.eq_or_lt_of_le (Nat.le_of_lt_succ lt)
    · exact last
    · exact before j earlier

/-- A segment that is no page: nothing waits for it, nor behind it. -/
theorem sized_other (blocked : Blocked l bs) (at_ : l.segments[k]? = some seg) (other : seg.kind ≠ .page)
    (sized : Sized l bs k (b, carry)) (full : b'.full = b.full) (bounded : b'.Bounded ↔ b.Bounded ∧
      (seg.kind = .sheet → '\n' ∉ seg.text → seg.charEnd - seg.charStart ≤ CHUNK_BOUND)) :
    Sized l bs (k + 1) (b', carry) := by
  have there := blocked.block at_
  obtain ⟨empty, untailed⟩ := tailOf_other there other
  obtain ⟨start, stop⟩ := blocked.places k seg at_
  have idle : carry = none := by
    cases carry with
    | none => rfl
    | some waited =>
      have page := (sized.waiting.some_ waited.1 waited.2 rfl).1.isPage
      rw [isPageBlock, there] at page
      exact absurd (beq_iff_eq.mp page) other
  subst idle
  refine ⟨full.trans sized.full, ?_, waiting_untailed untailed⟩
  rw [forall_lt_succ, ← sized.bounded]
  refine bounded.trans (and_congr_right fun _ => ?_)
  have length : seg.charEnd - seg.charStart = seg.text.length := by omega
  rw [length]
  constructor
  · intro short
    refine ⟨fun text same plain => ?_, fun r start first => ?_⟩
    · rw [there] at same
      cases kind : seg.kind <;> rw [kind] at same <;> cases same
      exact short kind plain
    · rw [bodyOf, untailed, empty] at first
      cases first
  · intro fits kind plain
    exact fits.sheet seg.text (kind ▸ there) plain

theorem sized_page {carry' : Carry}
    (laid : Laid l) (blocked : Blocked l bs) (at_ : l.segments[k]? = some seg) (page : seg.kind = .page)
    (sized : Sized l bs k (b, carry))
    (ran : pageChunks forms seg (isPageBlock bs (k + 1)) (b, carry) = some (b', carry')) :
    Sized l bs (k + 1) (b', carry') := by
  have there := blocked.block at_
  rw [page] at there
  have begins := (blocked.places k seg at_).1
  have place : getSlice b.full seg.charStart seg.charEnd = some seg.text := by
    rw [sized.full]
    exact laid.places seg (List.mem_of_getElem? at_)
  unfold pageChunks at ran
  simp only [place, Option.bind_eq_bind, Option.bind_some] at ran
  obtain ⟨ranges, packed, rest⟩ := Option.bind_eq_some_iff.mp ran
  obtain ⟨⟨b₁, carry₁⟩, loop, same⟩ := Option.bind_eq_some_iff.mp rest
  have listed := rangesOf_page there packed
  have tail : ranges.getLast?.filter (fun r => r.2 - r.1 < PAGE_TAIL_MIN && isPageBlock bs (k + 1)) =
      tailOf bs k := by rw [tailOf, listed]
  rw [tail] at loop same
  have body : (if (tailOf bs k).isSome = true then ranges.dropLast else ranges) = bodyOf bs k := by
    rw [bodyOf, listed]
  rw [body] at loop
  have short : ∀ r ∈ bodyOf bs k, r.2 - r.1 ≤ MAX := by
    intro r mem
    refine pack_short packed r ?_
    rw [← body] at mem
    split at mem
    · exact List.dropLast_subset _ mem
    · exact mem
  obtain ⟨full, kept, bounded⟩ := pageLoop_bounded short loop
  have fits : (∀ r cs cp, (bodyOf bs k).head? = some r → carry = some (cs, cp) →
      seg.charStart + r.2 - cs ≤ CHUNK_BOUND) ↔ Fits bs k := by
    rw [begins]
    constructor
    · intro near
      refine ⟨fun text same => ?_, fun r start first carried => ?_⟩
      · rw [there] at same
        cases same
      · cases carry with
        | none => exact absurd carried (sized.waiting.none_ rfl start)
        | some waited =>
          have least := (sized.waiting.some_ waited.1 waited.2 rfl).2 start carried
          have taken := near r waited.1 waited.2 first rfl
          omega
    · intro fits r cs cp first waited
      exact fits.page r cs first (sized.waiting.some_ cs cp waited).1
  have sizes : b₁.Bounded ↔ ∀ j < k + 1, Fits bs j := by
    rw [forall_lt_succ, ← sized.bounded, ← fits]
    exact bounded
  cases found : tailOf bs k with
  | none =>
    rw [found] at same
    cases same
    have some_ : bodyOf bs k ≠ [] := by
      obtain ⟨i, c, char, black⟩ := laid.black seg (List.mem_of_getElem? at_)
      obtain ⟨out, packed', -, covered⟩ := pack_spec seg.text
      rw [packed] at packed'
      cases packed'
      obtain ⟨r, mem, -⟩ := covered i c char black
      rw [bodyOf, found, listed]
      exact List.ne_nil_of_mem mem
    rw [if_neg some_] at kept
    subst kept
    exact ⟨full.trans sized.full, sizes, waiting_untailed found⟩
  | some r =>
    rw [found] at same
    cases same
    subst kept
    rw [begins]
    exact ⟨full.trans sized.full, sizes, waiting_tailed sized.waiting found _⟩

/-- **One segment** adds chunks within the bound exactly when its block fits. -/
theorem segmentStep_sized (laid : Laid l) (blocked : Blocked l bs)
    {st st' : Builder × Carry} (at_ : l.segments[k]? = some seg) (sized : Sized l bs k st)
    (ran : segmentStep forms format l.segments l.rows st (seg, k) = some st') : Sized l bs (k + 1) st' := by
  obtain ⟨b, carry⟩ := st
  have place : getSlice b.full seg.charStart seg.charEnd = some seg.text := by
    rw [sized.full]
    exact laid.places seg (List.mem_of_getElem? at_)
  by_cases page : seg.kind = .page
  · simp only [segmentStep, page, blocked.isPage] at ran
    exact sized_page laid blocked at_ page sized ran
  by_cases sheet : seg.kind = .sheet
  · simp only [segmentStep, sheet] at ran
    obtain ⟨rows, -, rest⟩ := Option.bind_eq_some_iff.mp ran
    obtain ⟨b', chunked, same⟩ := Option.bind_eq_some_iff.mp rest
    cases same
    obtain ⟨full, bounded⟩ := sheetChunks_bounded chunked
    refine sized_other blocked at_ page sized full (bounded.trans (and_congr_right fun _ => ?_))
    exact ⟨fun short _ => short, fun short => short sheet⟩
  · have text : segmentStep forms format l.segments l.rows (b, carry) (seg, k) =
        (textChunks forms format seg b).map fun b' => (b', carry) := by
      cases kind : seg.kind with
      | page => exact absurd kind page
      | sheet => exact absurd kind sheet
      | slide | section_ | text =>
        simp only [segmentStep, kind]
        cases textChunks forms format seg b <;> rfl
    rw [text] at ran
    obtain ⟨b', chunked, rfl⟩ := Option.map_eq_some_iff.mp ran
    obtain ⟨full, bounded⟩ := textChunks_bounded place chunked
    refine sized_other blocked at_ page sized full (bounded.trans (and_iff_left fun kind => ?_).symm)
    exact absurd kind sheet

/-- The chunks of a source are bounded exactly when every block fits. -/
theorem prepare_bounded (forms : Forms) (format : Format) (raw : List RawSegment) :
    ∃ p, prepare forms format raw = some p ∧
      ((∀ c ∈ p.chunks, c.text.length ≤ CHUNK_BOUND) ↔ ∀ k, Fits (blocks raw) k) := by
  have laid := laid_layout raw
  have blocked := blocked_layout raw
  obtain ⟨b, ran, -⟩ := chunkSegments_spec forms format laid
  have sized := foldlM_ran (Sized (layout raw) (blocks raw)) ran
    ⟨rfl, iff_of_true (fun c none_ => by cases none_) fun j lt => absurd lt (Nat.not_lt_zero j), waiting_zero⟩
    fun k item st st' at_ held pass => by
      rw [List.getElem?_zipIdx, Nat.zero_add] at at_
      obtain ⟨seg, line, rfl⟩ := Option.map_eq_some_iff.mp at_
      exact segmentStep_sized laid blocked line held pass
  refine ⟨_, prepare_of_ran ran, sized.bounded.trans ?_⟩
  rw [List.length_zipIdx]
  have count : (layout raw).segments.length = (blocks raw).length := by rw [← blocked.blocks, List.length_map]
  constructor
  · intro all k
    by_cases inside : k < (layout raw).segments.length
    · exact all k inside
    -- there is no block any more
    have none_ : (blocks raw)[k]? = none := List.getElem?_eq_none (by omega)
    have empty : rangesOf (blocks raw) k = [] := by rw [rangesOf, none_]
    refine ⟨fun text there => ?_, fun r start first => ?_⟩
    · rw [none_] at there
      cases there
    · rw [bodyOf, empty] at first
      split at first <;> cases first
  · exact fun all k _ => all k

/-- **The chunks are bounded** exactly when no sheet of one line is longer than the bound, and no
first range of a page is that far from the start of a tail that is carried to it. -/
theorem chunks_bounded_iff (forms : Forms) (format : Format) (raw : List RawSegment) :
    ∃ p, prepare forms format raw = some p ∧ ((∀ c ∈ p.chunks, c.text.length ≤ CHUNK_BOUND) ↔
        (∀ (k : Nat) text, (blocks raw)[k]? = some (.sheet, text) → '\n' ∉ text → text.length ≤ CHUNK_BOUND) ∧
        ∀ k r start, (bodyOf (blocks raw) k).head? = some r → CarriedFrom (blocks raw) k start →
          startOf (blocks raw) k + r.2 - start ≤ CHUNK_BOUND) := by
  obtain ⟨p, ran, bounded⟩ := prepare_bounded forms format raw
  refine ⟨p, ran, bounded.trans ⟨fun fits => ?_, fun both k => ?_⟩⟩
  · exact ⟨fun k => (fits k).sheet, fun k => (fits k).page⟩
  · exact ⟨both.1 k, both.2 k⟩

/-! ## A long header -/

theorem unifyBreaks_plain (plain : ∀ c ∈ text, c ≠ '\r') : unifyBreaks text = text := by
  induction text with
  | nil => rfl
  | cons c rest ih =>
    have here := plain c List.mem_cons_self
    have later := ih fun d listed => plain d (List.mem_cons_of_mem _ listed)
    rw [unifyBreaks, later]
    all_goals
      intros
      exact here (by assumption)

theorem dropWhile_append_plain {more : List Char} (free : '\n' ∉ text) (some_ : text ≠ []) :
    (text ++ more).dropWhile (· == '\n') = text ++ more := by
  obtain ⟨c, rest, rfl⟩ := List.exists_cons_of_ne_nil some_
  have here : c ≠ '\n' := fun same => free (same ▸ List.mem_cons_self)
  rw [List.cons_append, List.dropWhile_cons, if_neg (by simpa using here)]

/-- A line without whitespace or control characters is clean. -/
theorem cleanText_plain (some_ : text ≠ [])
    (plain : ∀ c ∈ text, cleanChar c = some c ∧ isWhitespace c = false) : cleanText text = text := by
  have noReturn : ∀ c ∈ text, c ≠ '\r' := by
    rintro c listed rfl
    exact absurd (plain _ listed).2 (by decide)
  have noBreak : '\n' ∉ text := fun listed => absurd (plain _ listed).2 (by decide)
  have kept : text.filterMap cleanChar = text := by
    rw [List.filterMap_congr fun c listed => (plain c listed).1, List.filterMap_some]
  have trimmed : trimEnd text = text := by
    rw [trimEnd, List.rdropWhile_eq_self_iff]
    intro nonempty
    rw [(plain _ (List.getLast_mem nonempty)).2]
    exact Bool.false_ne_true
  have line : cleanLines 0 [text] = text ++ ['\n'] := by
    rw [cleanLines, kept, trimmed]
    simp [some_, cleanLines]
  rw [cleanText, unifyBreaks_plain noReturn, List.splitOn_eq_singleton noBreak, line, trimMatches]
  have front : (text ++ ['\n']).dropWhile (· == '\n') = text ++ ['\n'] := by
    rw [dropWhile_append_plain noBreak some_]
  have back : text.reverse.dropWhile (· == '\n') = text.reverse := by
    have free : '\n' ∉ text.reverse := fun listed => noBreak (List.mem_reverse.mp listed)
    have same : (text.reverse ++ []).dropWhile (· == '\n') = _ :=
      dropWhile_append_plain free (by simpa using some_)
    rwa [List.append_nil] at same
  rw [front, List.reverse_append, List.reverse_singleton, List.singleton_append, List.dropWhile_cons]
  exact (congrArg List.reverse back).trans (List.reverse_reverse text)

/-- A sheet with nothing but a header of some characters. -/
def headerOnly (n : Nat) : RawSegment where
  kind := .sheet
  label := none
  page := none
  sheet := none
  lineRows := none
  text := List.replicate n 'a'

theorem blocks_headerOnly (n : Nat) : blocks [headerOnly (n + 1)] = [(.sheet, List.replicate (n + 1) 'a')] := by
  have letter : ∀ c ∈ List.replicate (n + 1) 'a', c = 'a' := fun c listed => List.eq_of_mem_replicate listed
  have clean : cleanText (List.replicate (n + 1) 'a') = List.replicate (n + 1) 'a' := by
    refine cleanText_plain (by simp) fun c listed => ?_
    rw [letter c listed]
    exact ⟨rfl, rfl⟩
  have noBreak : '\n' ∉ List.replicate (n + 1) 'a' := fun listed => absurd (letter _ listed) (by decide)
  have whole : normalize (headerOnly (n + 1)) = List.replicate (n + 1) 'a' := by
    show normalizeRows (List.replicate (n + 1) 'a') = _
    rw [normalizeRows, List.splitOn_eq_singleton noBreak, List.map_singleton, clean, List.map_replicate]
    simp
  have kept : trim (List.replicate (n + 1) 'a') = List.replicate (n + 1) 'a' := by
    have front : (List.replicate (n + 1) 'a').dropWhile isWhitespace = List.replicate (n + 1) 'a' := rfl
    rw [trim, front, List.reverse_replicate, front, List.reverse_replicate]
  rw [blocks, List.map_singleton, whole, List.filter_singleton]
  simp only [kept]
  rfl

/-- The one chunk of a header of 903 characters has them all. -/
theorem header_only_unbounded :
    ∃ p, prepare ⟨id, id⟩ .csv [headerOnly 903] = some p ∧ ∃ c ∈ p.chunks, CHUNK_BOUND < c.text.length := by
  obtain ⟨p, ran, bounded⟩ := prepare_bounded ⟨id, id⟩ .csv [headerOnly 903]
  refine ⟨p, ran, ?_⟩
  by_contra none_
  have all : ∀ c ∈ p.chunks, c.text.length ≤ CHUNK_BOUND := fun c listed =>
    Nat.not_lt.mp fun long => none_ ⟨c, listed, long⟩
  have there : (blocks [headerOnly 903])[0]? = some (.sheet, List.replicate 903 'a') := by
    rw [blocks_headerOnly 902]
    rfl
  have short := (bounded.mp all 0).sheet (List.replicate 903 'a') there
    fun listed => absurd (List.eq_of_mem_replicate listed) (by decide)
  rw [List.length_replicate] at short
  exact absurd short (by decide)

end Source

end DuDuClaw.Knowledge.Chunks
