/-
# Knowledge.Chunks -- the chunks of a source

`prepare` lays the segments out and cuts each into chunks.  A chunk stays in its segment, but
for the short tail of a page, which the next page's first chunk takes along; of several tiny
pages the tails chain up.

* `pageRanges_spec`: the first chunk of a page begins at the tail that waits.
* `segmentStep_spec`: what no chunk has yet waits behind the tail's start.
* `prepare_exact`: `prepare` returns, and its chunks are exact and complete.
-/
import DuDuClaw.Knowledge.Sheets

namespace DuDuClaw.Knowledge.Chunks

open DuDuClaw.Lib

inductive Format where
  | pdf
  | docx
  | pptx
  | xlsx
  | xls
  | csv
  | txt
  | md
  | html
  deriving DecidableEq

structure Prepared where
  segments : List Segment
  chunks : List ChunkDraft
  chars : Nat
  pages : Option Nat
  contentSha256 : List Char

/-- The starts of the lines that are not empty, from position `i` on. -/
def lineStarts (i : Nat) (atLineStart : Bool) : List Char → List Nat
  | [] => []
  | c :: rest =>
    if c = '\n' then lineStarts (i + 1) true rest
    else if atLineStart then i :: lineStarts (i + 1) false rest
    else lineStarts (i + 1) false rest

/-- The ordinal, from 1, of the line with a position. -/
def Builder.paraIndex (b : Builder) (pos : Nat) : Nat :=
  max (b.lineStarts.takeWhile (· ≤ pos)).length 1 % 2 ^ 32

def textLocator (format : Format) (seg : Segment) (b : Builder) (start : Nat) : Locator × List Char :=
  let heading := seg.label.getD []
  let l : Locator :=
    if seg.kind = .slide then { Locator.new .slide with pageStart := seg.page }
    else if format = .html then .new .url
    else if seg.kind = .section_ ∧ !heading.isEmpty then .new .section_
    else .new .paragraph
  let l := if l.kind = .slide then l else { l with paraIndex := some (b.paraIndex start) }
  (if heading.isEmpty then l else { l with heading := some heading }, heading)

/-- A tail that waits: its start and its page. -/
abbrev Carry := Option (Nat × Nat)

section Prepare

variable (forms : Forms)

def pageLocator (seg : Segment) (pageStart : Option Nat) : Locator :=
  { Locator.new .page with pageStart, pageEnd := seg.page.filter fun p => some p ≠ pageStart }

/-- The `k`-th range of a page. -/
def pageRange (seg : Segment) (st : Builder × Carry) (item : (Nat × Nat) × Nat) :
    Option (Builder × Carry) :=
  let ((a, z), k) := item
  let (start, pageStart, carry) : Nat × Option Nat × Carry :=
    match k, st.2 with
    | 0, some (cs, cp) => (cs, some cp, none)
    | _, carry => (seg.charStart + a, seg.page, carry)
  (st.1.push forms start (seg.charStart + z) [] (pageLocator seg pageStart) seg.ord).map fun b => (b, carry)

def pageChunks (seg : Segment) (nextIsPage : Bool) (st : Builder × Carry) : Option (Builder × Carry) := do
  let chars ← getSlice st.1.full seg.charStart seg.charEnd
  let ranges ← pack chars
  let tail := ranges.getLast?.filter fun r => r.2 - r.1 < PAGE_TAIL_MIN && nextIsPage
  let ranges := if tail.isSome then ranges.dropLast else ranges
  let (b, carry) ← ranges.zipIdx.foldlM (pageRange forms seg) st
  return match tail with
    | some (a, _) =>
      let start := (carry.map Prod.fst).getD (seg.charStart + a)
      let page := ((carry.map Prod.snd).or seg.page).getD 0
      (b, some (start, page))
    | none => (b, carry)

def textChunks (format : Format) (seg : Segment) (b : Builder) : Option Builder := do
  let chars ← getSlice b.full seg.charStart seg.charEnd
  let ranges ← pack chars
  ranges.foldlM (fun b r =>
    let (locator, heading) := textLocator format seg b (seg.charStart + r.1)
    b.push forms (seg.charStart + r.1) (seg.charStart + r.2) heading locator seg.ord) b

def segmentStep (format : Format) (segments : List Segment) (rows : List (Option (List Nat)))
    (st : Builder × Carry) (item : Segment × Nat) : Option (Builder × Carry) :=
  let (seg, i) := item
  match seg.kind with
  | .sheet => do
    let r ← rows[i]?
    let b ← sheetChunks forms st.1 seg r
    return (b, st.2)
  | .page => pageChunks forms seg (segments[i + 1]?.any fun n => n.kind == .page) st
  | _ => do
    let b ← textChunks forms format seg st.1
    return (b, st.2)

def chunkSegments (format : Format) (l : Layout) : Option (Builder × Carry) :=
  l.segments.zipIdx.foldlM (segmentStep forms format l.segments l.rows)
    (⟨l.full, lineStarts 0 true l.full, []⟩, none)

/-- A tail that waits with no page to come. -/
def flushTail (segments : List Segment) (b : Builder) : Carry → Option Builder
  | some (start, page) =>
    let stop := (segments.getLast?.map Segment.charEnd).getD start
    b.push forms start stop [] { Locator.new .page with pageStart := some page }
      ((segments.getLast?.map Segment.ord).getD 0)
  | none => some b

def pagesOf (segments : List Segment) : Option Nat :=
  ((segments.filter fun s => s.kind == .page || s.kind == .slide).filterMap Segment.page).max?

def prepare (format : Format) (raw : List RawSegment) : Option Prepared := do
  let l := layout raw
  let (b, carry) ← chunkSegments forms format l
  let b ← flushTail forms l.segments b carry
  return {
    segments := l.segments
    chunks := b.chunks
    chars := l.full.length
    pages := pagesOf l.segments
    contentSha256 := forms.sha256Hex l.full }

end Prepare

/-! ## Texts -/

section Segments

variable {forms : Forms} {segments : List Segment} {b b' : Builder} {seg : Segment}

variable {start stop k : Nat} {ranges : List (Nat × Nat)} {r : Nat × Nat} {pageStart : Option Nat}
  {carry : Carry}

theorem kind_textLocator {format : Format} : (textLocator format seg b start).1.kind ≠ .page := by
  have other : ∀ l : Locator, l.kind ≠ .page →
      (if (seg.label.getD []).isEmpty then l else { l with heading := some (seg.label.getD []) }).kind ≠
        .page := by
    intro l differs
    split <;> exact differs
  refine other _ ?_
  split
  · split <;> simp [Locator.new]
  · split
    · simp [Locator.new]
    · split <;> simp [Locator.new]

/-- A range of the segment that has been packed. -/
theorem pack_place (place : getSlice b.full seg.charStart seg.charEnd = some seg.text)
    (fits : ∀ r ∈ ranges, r.1 < r.2 ∧ r.2 ≤ seg.text.length)
    (listed : r ∈ ranges) : r.1 < r.2 ∧ seg.charStart + r.2 ≤ seg.charEnd ∧ seg.charEnd ≤ b.full.length := by
  obtain ⟨order, inside, length⟩ := getSlice_bounds place
  have := fits r listed
  omega

theorem pack_covers (place : getSlice b.full seg.charStart seg.charEnd = some seg.text)
    (covered : ∀ (i : Nat) (c : Char), seg.text[i]? = some c → isWhitespace c = false → Covers ranges i)
    {i : Nat} {c : Char} (holds : seg.Holds i) (at_ : b.full[i]? = some c) (black : isWhitespace c = false) :
    ∃ r ∈ ranges, seg.charStart + r.1 ≤ i ∧ i < seg.charStart + r.2 := by
  obtain ⟨low, high⟩ := holds
  have own := getElem?_getSlice place (i := i - seg.charStart) (by omega)
  rw [Nat.add_sub_cancel' low, at_] at own
  obtain ⟨r, listed, left, right⟩ := covered _ c own black
  exact ⟨r, listed, by omega, by omega⟩

theorem textChunks_spec (place : getSlice b.full seg.charStart seg.charEnd = some seg.text)
    (format : Format) : ∃ b', textChunks forms format seg b = some b' ∧ Grows segments b b' ∧
      ∀ i c, seg.Holds i → b.full[i]? = some c → isWhitespace c = false → b'.Covers i := by
  obtain ⟨ranges, packed, fits, covered⟩ := pack_spec seg.text
  let done (k : Nat) (b₁ : Builder) : Prop := Grows segments b b₁ ∧ ∀ j < k, ∀ r, ranges[j]? = some r →
    ∀ i, seg.charStart + r.1 ≤ i → i < seg.charStart + r.2 → b₁.Covers i
  have start : done 0 b := ⟨.refl _ _, fun j early => by omega⟩
  unfold textChunks
  rw [place]
  simp only [Option.bind_eq_bind, Option.bind_some, packed]
  obtain ⟨b', ran, grows, covers⟩ := foldlM_total done start fun k r b₁ at_ held => by
    obtain ⟨grows, covers⟩ := held
    have range := pack_place place fits (List.mem_of_getElem? at_)
    have other : Names segments (seg.charStart + r.1) (seg.charStart + r.2)
        (textLocator format seg b₁ (seg.charStart + r.1)).1 := names_other kind_textLocator
    obtain ⟨b₂, ran, grows', own⟩ := @push_spec forms segments b₁ _ _ seg.ord
      (textLocator format seg b₁ (seg.charStart + r.1)).2 _ (by omega) (by rw [grows.full]; omega) other
    refine ⟨b₂, ran, grows.trans grows', fun j le t line i low high => ?_⟩
    obtain rfl | before := Nat.eq_or_lt_of_le (Nat.le_of_lt_succ le)
    · rw [at_] at line
      cases line
      exact own i low high
    · exact grows'.covers i (covers j before t line i low high)
  refine ⟨b', ran, grows, fun i c holds at_ black => ?_⟩
  obtain ⟨r, listed, low, high⟩ := pack_covers place covered holds at_ black
  obtain ⟨j, line⟩ := List.mem_iff_getElem?.mp listed
  exact covers j (List.getElem?_eq_some_iff.mp line).1 r line i low high

/-! ## Pages -/

/-- A tail that waits begins in an earlier page, the number of which it has. -/
def Waits (segments : List Segment) (stop : Nat) (carry : Carry) : Prop :=
  ∀ cs cp, carry = some (cs, cp) → ∃ first ∈ segments, first.kind = .page ∧ first.Holds cs ∧
    first.charEnd ≤ stop ∧ (Numbered segments → first.page = some cp)

theorem waits_none : Waits segments stop none :=
  fun _ _ none_ => by cases none_

theorem filter_page (page other : Option Nat) :
    (page.filter fun p => some p ≠ other) = if page = other then none else page := by
  cases page with
  | none => simp
  | some p =>
    by_cases same : some p = other
    · subst same
      simp
    · simp [same, Option.filter]

theorem names_page {first last : Segment} (left : first ∈ segments) (right : last ∈ segments)
    (kind : first.kind = .page) (kind' : last.kind = .page)
    (lt : start < stop) (begins : first.Holds start) (ends : last.Holds (stop - 1))
    (named : Numbered segments → first.page = pageStart) :
    Names segments start stop (pageLocator last pageStart) := by
  intro _ numbered
  refine ⟨lt, first, left, last, right, kind, kind', begins, ends, (named numbered).symm, ?_⟩
  rw [named numbered]
  exact filter_page last.page pageStart

/-- The loop over the ranges of a page, after `k` of them. -/
structure Paged (segments : List Segment) (seg : Segment) (ranges : List (Nat × Nat)) (b : Builder)
    (carry : Carry) (k : Nat) (st : Builder × Carry) : Prop where
  grows : Grows segments b st.1
  waiting : st.2 = if k = 0 then carry else none
  covers : ∀ j < k, ∀ r, ranges[j]? = some r →
    ∀ i, seg.charStart + r.1 ≤ i → i < seg.charStart + r.2 → st.1.Covers i
  tail : 0 < k → ∀ cs cp, carry = some (cs, cp) → ∀ i, cs ≤ i → i < seg.charStart → st.1.Covers i

/-- A chunk of the next range, which begins where the range does or, for the first one, at the
tail that waits. -/
theorem paged_push (place : getSlice b.full seg.charStart seg.charEnd = some seg.text)
    (fits : ∀ r ∈ ranges, r.1 < r.2 ∧ r.2 ≤ seg.text.length)
    {waiting : Carry} {b₁ : Builder} (at_ : ranges[k]? = some r)
    (paged : Paged segments seg ranges b carry k (b₁, waiting)) (le : start ≤ seg.charStart + r.1)
    (names : Names segments start (seg.charStart + r.2) (pageLocator seg pageStart))
    (begun : k = 0 → ∀ cs cp, carry = some (cs, cp) → start = cs) :
    ∃ b₂, b₁.push forms start (seg.charStart + r.2) [] (pageLocator seg pageStart) seg.ord = some b₂ ∧
      Paged segments seg ranges b carry (k + 1) (b₂, none) := by
  have range := pack_place place fits (List.mem_of_getElem? at_)
  have full : b₁.full = b.full := paged.grows.full
  obtain ⟨b₂, ran, grows, covers⟩ := @push_spec forms segments b₁ start _ seg.ord [] _ (by omega)
    (by rw [full]; omega) names
  refine ⟨b₂, ran, paged.grows.trans grows, rfl, fun j lt t line i low high => ?_, ?_⟩
  · obtain rfl | before := Nat.eq_or_lt_of_le (Nat.le_of_lt_succ lt)
    · rw [at_] at line
      cases line
      exact covers i (by omega) high
    · exact grows.covers i (paged.covers j before t line i low high)
  · intro _ cs cp waited i low high
    obtain zero | more := Nat.eq_zero_or_pos k
    · have own := begun zero cs cp waited
      exact covers i (by omega) (by omega)
    · exact grows.covers i (paged.tail more cs cp waited i low high)

theorem pageRange_spec (place : getSlice b.full seg.charStart seg.charEnd = some seg.text)
    (mem : seg ∈ segments) (kind : seg.kind = .page) (waits : Waits segments seg.charStart carry)
    (fits : ∀ r ∈ ranges, r.1 < r.2 ∧ r.2 ≤ seg.text.length)
    {st : Builder × Carry} (at_ : ranges[k]? = some r) (paged : Paged segments seg ranges b carry k st) :
    ∃ st', pageRange forms seg st (r, k) = some st' ∧ Paged segments seg ranges b carry (k + 1) st' := by
  have range := pack_place place fits (List.mem_of_getElem? at_)
  have own : Names segments (seg.charStart + r.1) (seg.charStart + r.2) (pageLocator seg seg.page) :=
    names_page mem mem kind kind (by omega) ⟨by omega, by omega⟩ ⟨by omega, by omega⟩ fun _ => rfl
  obtain ⟨b₁, waiting⟩ := st
  have held : waiting = if k = 0 then carry else none := paged.waiting
  subst held
  cases k with
  | zero =>
    cases carry with
    | none =>
      obtain ⟨b₂, ran, paged'⟩ := @paged_push forms _ _ _ _ _ _ _ _ _ place fits _ _ at_ paged
        (Nat.le_refl _) own (by simp)
      exact ⟨(b₂, none), by simp [pageRange, ran], paged'⟩
    | some waited =>
      obtain ⟨cs, cp⟩ := waited
      obtain ⟨first, listed, page, holds, before, named⟩ := waits cs cp rfl
      have early : cs < seg.charStart := Nat.lt_of_lt_of_le holds.2 before
      have names : Names segments cs (seg.charStart + r.2) (pageLocator seg (some cp)) :=
        names_page listed mem page kind (by omega) holds ⟨by omega, by omega⟩ named
      obtain ⟨b₂, ran, paged'⟩ := @paged_push forms _ _ _ _ _ _ _ _ _ place fits _ _ at_ paged
        (by omega) names (by rintro - cs' cp' same; cases same; rfl)
      exact ⟨(b₂, none), by simp [pageRange, ran], paged'⟩
  | succ k =>
    obtain ⟨b₂, ran, paged'⟩ := @paged_push forms _ _ _ _ _ _ _ _ _ place fits _ _ at_ paged
      (Nat.le_refl _) own (by omega)
    exact ⟨(b₂, none), by simp [pageRange, ran], paged'⟩

theorem pageLoop_spec (place : getSlice b.full seg.charStart seg.charEnd = some seg.text)
    (mem : seg ∈ segments) (kind : seg.kind = .page) (waits : Waits segments seg.charStart carry)
    (fits : ∀ r ∈ ranges, r.1 < r.2 ∧ r.2 ≤ seg.text.length) :
    ∃ st, ranges.zipIdx.foldlM (pageRange forms seg) (b, carry) = some st ∧
      Paged segments seg ranges b carry ranges.length st := by
  have start : Paged segments seg ranges b carry 0 (b, carry) :=
    ⟨.refl _ _, rfl, fun j early => by omega, fun early => by omega⟩
  obtain ⟨st, ran, paged⟩ := foldlM_total (f := pageRange forms seg)
    (Paged segments seg ranges b carry) start fun k item st at_ paged => by
      rw [List.getElem?_zipIdx, Nat.zero_add] at at_
      obtain ⟨r, line, rfl⟩ := Option.map_eq_some_iff.mp at_
      exact pageRange_spec place mem kind waits fits line paged
  rw [List.length_zipIdx] at paged
  exact ⟨st, ran, paged⟩

/-- A position is in a chunk, or behind the tail that waits. -/
def Reached (b : Builder) (carry : Carry) (i : Nat) : Prop :=
  b.Covers i ∨ ∃ cs cp, carry = some (cs, cp) ∧ cs ≤ i

/-- The ranges of a page are in chunks, the first of which takes along the tail that waits. -/
theorem pageRanges_spec (place : getSlice b.full seg.charStart seg.charEnd = some seg.text)
    (mem : seg ∈ segments) (kind : seg.kind = .page) (waits : Waits segments seg.charStart carry)
    (fits : ∀ r ∈ ranges, r.1 < r.2 ∧ r.2 ≤ seg.text.length) :
    ∃ b' carry', ranges.zipIdx.foldlM (pageRange forms seg) (b, carry) = some (b', carry') ∧
      Grows segments b b' ∧ Waits segments seg.charStart carry' ∧ (ranges ≠ [] → carry' = none) ∧
      (∀ r ∈ ranges, ∀ i, seg.charStart + r.1 ≤ i → i < seg.charStart + r.2 → b'.Covers i) ∧
      ∀ i, i < seg.charStart → Reached b carry i → Reached b' carry' i := by
  obtain ⟨⟨b', carry'⟩, ran, paged⟩ := @pageLoop_spec forms _ _ _ _ _ place mem kind waits fits
  have waiting : carry' = if ranges.length = 0 then carry else none := paged.waiting
  have covers : ∀ r ∈ ranges, ∀ i, seg.charStart + r.1 ≤ i → i < seg.charStart + r.2 → b'.Covers i := by
    intro r listed i low high
    obtain ⟨j, line⟩ := List.mem_iff_getElem?.mp listed
    exact paged.covers j (List.getElem?_eq_some_iff.mp line).1 r line i low high
  by_cases some_ : ranges = []
  · have kept : carry' = carry := by rw [waiting, if_pos (by rw [some_, List.length_nil])]
    subst kept
    refine ⟨b', carry', ran, paged.grows, waits, absurd some_, covers, fun i _ reached => ?_⟩
    exact reached.imp (paged.grows.covers i) id
  have more : 0 < ranges.length := List.length_pos_iff.mpr some_
  rw [if_neg (by omega)] at waiting
  subst waiting
  refine ⟨b', none, ran, paged.grows, waits_none, fun _ => rfl, covers, fun i early reached => ?_⟩
  obtain done | ⟨cs, cp, waited, le⟩ := reached
  · exact .inl (paged.grows.covers i done)
  · exact .inl (paged.tail more cs cp waited i le early)

theorem chained_spec (mem : seg ∈ segments) (kind : seg.kind = .page)
    (holds : seg.Holds start) (waits : Waits segments seg.charStart carry) :
    ∃ cs cp, (carry.map Prod.fst).getD start = cs ∧ (carry.map Prod.snd).getD (seg.page.getD 0) = cp ∧
      cs ≤ start ∧ Waits segments seg.charEnd (some (cs, cp)) ∧
      ∀ b i, Reached b carry i → Reached b (some (cs, cp)) i := by
  obtain ⟨low, high⟩ := holds
  cases carry with
  | none =>
    refine ⟨start, seg.page.getD 0, rfl, rfl, Nat.le_refl _, ?_, fun b i reached => ?_⟩
    · rintro cs cp same
      cases same
      refine ⟨seg, mem, kind, ⟨low, high⟩, Nat.le_refl _, fun numbered => ?_⟩
      obtain ⟨p, page⟩ := Option.isSome_iff_exists.mp (numbered seg mem kind)
      rw [page]
      rfl
    · obtain done | ⟨cs, cp, none_, -⟩ := reached
      · exact .inl done
      · cases none_
  | some waited =>
    obtain ⟨cs, cp⟩ := waited
    obtain ⟨first, listed, page, inside, before, named⟩ := waits cs cp rfl
    have early := inside.2
    refine ⟨cs, cp, rfl, rfl, by omega, ?_, fun b i reached => reached⟩
    rintro cs' cp' same
    cases same
    exact ⟨first, listed, page, inside, by omega, named⟩

theorem pageChunks_spec (place : getSlice b.full seg.charStart seg.charEnd = some seg.text)
    (mem : seg ∈ segments) (kind : seg.kind = .page)
    (black : ∃ (i : Nat) (c : Char), seg.text[i]? = some c ∧ isWhitespace c = false)
    (waits : Waits segments seg.charStart carry) (nextIsPage : Bool) :
    ∃ b' carry', pageChunks forms seg nextIsPage (b, carry) = some (b', carry') ∧ Grows segments b b' ∧
      Waits segments seg.charEnd carry' ∧ (carry'.isSome → nextIsPage) ∧
      (∀ i c, seg.Holds i → b.full[i]? = some c → isWhitespace c = false → Reached b' carry' i) ∧
      ∀ i, i < seg.charStart → Reached b carry i → Reached b' carry' i := by
  obtain ⟨ranges, packed, fits, covered⟩ := pack_spec seg.text
  have some_ : ranges ≠ [] := by
    rintro rfl
    obtain ⟨i, c, at_, white⟩ := black
    obtain ⟨r, listed, -⟩ := covered i c at_ white
    cases listed
  unfold pageChunks
  simp only [place, packed, Option.bind_eq_bind, Option.bind_some]
  generalize short : ranges.getLast?.filter _ = tail
  cases tail with
  | none =>
    obtain ⟨b', carry', ran, grows, -, none_, own, before⟩ :=
      @pageRanges_spec forms _ _ _ _ _ place mem kind waits fits
    cases none_ some_
    refine ⟨b', none, by simp [ran], grows, waits_none, by simp, fun i c holds at_ white => ?_, before⟩
    obtain ⟨r, listed, low, high⟩ := pack_covers place covered holds at_ white
    exact .inl (own r listed i low high)
  | some tail =>
    obtain ⟨last, passes⟩ := Option.filter_eq_some_iff.mp short
    obtain ⟨front, rfl⟩ := List.getLast?_eq_some_iff.mp last
    have next : nextIsPage = true := (Bool.and_eq_true_iff.mp passes).2
    have range := pack_place place fits (List.mem_append_right _ (List.mem_singleton_self tail))
    have fits' : ∀ r ∈ front, r.1 < r.2 ∧ r.2 ≤ seg.text.length :=
      fun r listed => fits r (List.mem_append_left _ listed)
    obtain ⟨b', carry', ran, grows, waits', -, own, before⟩ :=
      @pageRanges_spec forms _ _ _ _ _ place mem kind waits fits'
    obtain ⟨cs, cp, first, page, le, chained, reaches⟩ :=
      @chained_spec _ _ (seg.charStart + tail.1) _ mem kind ⟨by omega, by omega⟩ waits'
    refine ⟨b', some (cs, cp), by simp [ran, first, page], grows, chained, fun _ => next, ?_, ?_⟩
    · intro i c holds at_ white
      obtain ⟨r, listed, low, high⟩ := pack_covers place covered holds at_ white
      obtain old | new := List.mem_append.mp listed
      · exact .inl (own r old i low high)
      · cases List.mem_singleton.mp new
        exact .inr ⟨cs, cp, rfl, Nat.le_trans le low⟩
    · exact fun i early reached => reaches b' i (before i early reached)

end Segments

/-! ## The source -/

section Source

variable {forms : Forms} {format : Format} {l : Layout}

/-- The loop over the segments, after `k` of them. -/
structure Walked (l : Layout) (k : Nat) (st : Builder × Carry) : Prop where
  grows : Grows l.segments ⟨l.full, lineStarts 0 true l.full, []⟩ st.1
  reached : ∀ j < k, ∀ s, l.segments[j]? = some s → ∀ i c, s.Holds i → l.full[i]? = some c →
    isWhitespace c = false → ¬InHeader s i → Reached st.1 st.2 i
  waits : ∀ s, l.segments[k]? = some s → Waits l.segments s.charStart st.2
  next : st.2.isSome → ∃ s, l.segments[k]? = some s ∧ s.kind = .page

variable {k : Nat} {st : Builder × Carry} {seg : Segment} {b : Builder}

theorem Walked.full (walked : Walked l k st) : st.1.full = l.full :=
  walked.grows.full

theorem Walked.place (walked : Walked l k st) (laid : Laid l) (at_ : l.segments[k]? = some seg) :
    getSlice st.1.full seg.charStart seg.charEnd = some seg.text := by
  rw [walked.full]
  exact laid.places seg (List.mem_of_getElem? at_)

/-- A segment that is no page has no tail waiting before it. -/
theorem Walked.none_waits (walked : Walked l k st)
    (at_ : l.segments[k]? = some seg) (other : seg.kind ≠ .page) : st.2 = none := by
  by_contra some_
  obtain ⟨s, same, page⟩ := walked.next (Option.isSome_iff_ne_none.mpr some_)
  rw [at_] at same
  cases same
  exact other page

theorem walked_chunks {b' : Builder} (walked : Walked l k (b, none))
    (at_ : l.segments[k]? = some seg) (grows : Grows l.segments b b')
    (covers : ∀ i c, seg.Holds i → l.full[i]? = some c → isWhitespace c = false → ¬InHeader seg i →
      b'.Covers i) : Walked l (k + 1) (b', none) := by
  refine ⟨walked.grows.trans grows, fun j lt s line i c holds char black below => ?_, ?_, ?_⟩
  · obtain rfl | before := Nat.eq_or_lt_of_le (Nat.le_of_lt_succ lt)
    · rw [at_] at line
      cases line
      exact .inl (covers i c holds char black below)
    · obtain done | ⟨cs, cp, none_, -⟩ := walked.reached j before s line i c holds char black below
      · exact .inl (grows.covers i done)
      · cases none_
  · exact fun s _ => waits_none
  · intro some_
    cases some_

theorem ordered_at (laid : Laid l) {j : Nat} {s t : Segment} (lt : j < k)
    (first : l.segments[j]? = some s) (last : l.segments[k]? = some t) : s.charEnd ≤ t.charStart := by
  obtain ⟨here, rfl⟩ := List.getElem?_eq_some_iff.mp first
  obtain ⟨there, rfl⟩ := List.getElem?_eq_some_iff.mp last
  exact List.pairwise_iff_getElem.mp laid.ordered j k here there lt

theorem segmentStep_sheet (laid : Laid l)
    (at_ : l.segments[k]? = some seg) (walked : Walked l k (b, none)) (kind : seg.kind = .sheet) :
    ∃ st', segmentStep forms format l.segments l.rows (b, none) (seg, k) = some st' ∧ Walked l (k + 1) st' := by
  have known : k < l.rows.length := by
    rw [laid.rows]
    exact (List.getElem?_eq_some_iff.mp at_).1
  obtain ⟨b', ran, grows, covers⟩ := @sheetChunks_spec forms l.segments b seg kind
    (walked.place laid at_) l.rows[k]
  rw [walked.full] at covers
  refine ⟨(b', none), ?_, walked_chunks walked at_ grows covers⟩
  simp [segmentStep, kind, List.getElem?_eq_getElem known, ran]

theorem segmentStep_page (laid : Laid l) {carry : Carry}
    (at_ : l.segments[k]? = some seg) (walked : Walked l k (b, carry)) (kind : seg.kind = .page) :
    ∃ st', segmentStep forms format l.segments l.rows (b, carry) (seg, k) = some st' ∧
      Walked l (k + 1) st' := by
  have mem := List.mem_of_getElem? at_
  obtain ⟨b', carry', ran, grows, waits, next, own, before⟩ := @pageChunks_spec forms l.segments b seg carry
    (walked.place laid at_) mem kind (laid.black seg mem) (walked.waits seg at_)
    (l.segments[k + 1]?.any fun n => n.kind == .page)
  rw [walked.full] at own
  refine ⟨(b', carry'), by simp [segmentStep, kind, ran], walked.grows.trans grows, ?_, ?_, ?_⟩
  · intro j lt s line i c holds char black below
    obtain rfl | earlier := Nat.eq_or_lt_of_le (Nat.le_of_lt_succ lt)
    · rw [at_] at line
      cases line
      exact own i c holds char black
    · have apart := ordered_at laid earlier line at_
      have reached := walked.reached j earlier s line i c holds char black below
      exact before i (Nat.lt_of_lt_of_le holds.2 apart) reached
  · intro s line cs cp waited
    obtain ⟨first, listed, page, holds, early, named⟩ := waits cs cp waited
    have apart := ordered_at laid (Nat.lt_succ_self k) at_ line
    exact ⟨first, listed, page, holds, Nat.le_trans early apart, named⟩
  · intro some_
    obtain ⟨s, line, page⟩ := (Option.any_eq_true _ _).mp (next some_)
    exact ⟨s, line, beq_iff_eq.mp page⟩

/-- A segment that is neither a sheet nor a page. -/
theorem segmentStep_text (laid : Laid l)
    (at_ : l.segments[k]? = some seg) (walked : Walked l k (b, none)) (sheet : seg.kind ≠ .sheet)
    (page : seg.kind ≠ .page) :
    ∃ st', segmentStep forms format l.segments l.rows (b, none) (seg, k) = some st' ∧ Walked l (k + 1) st' := by
  obtain ⟨b', ran, grows, covers⟩ := @textChunks_spec forms l.segments b seg (walked.place laid at_) format
  rw [walked.full] at covers
  refine ⟨(b', none), ?_, walked_chunks walked at_ grows fun i c holds char black _ => ?_⟩
  · cases kind : seg.kind <;> simp_all [segmentStep]
  · exact covers i c holds char black

theorem segmentStep_spec (laid : Laid l) (at_ : l.segments[k]? = some seg) (walked : Walked l k st) :
    ∃ st', segmentStep forms format l.segments l.rows st (seg, k) = some st' ∧ Walked l (k + 1) st' := by
  obtain ⟨b, carry⟩ := st
  by_cases page : seg.kind = .page
  · exact segmentStep_page laid at_ walked page
  have none_ : carry = none := walked.none_waits at_ page
  subst none_
  by_cases sheet : seg.kind = .sheet
  · exact segmentStep_sheet laid at_ walked sheet
  · exact segmentStep_text laid at_ walked sheet page

/-- Every segment is walked, and no tail waits at the end. -/
theorem chunkSegments_spec (forms : Forms) (format : Format) (laid : Laid l) :
    ∃ b, chunkSegments forms format l = some (b, none) ∧ Walked l l.segments.length (b, none) := by
  have start : Walked l 0 (⟨l.full, lineStarts 0 true l.full, []⟩, none) := by
    refine ⟨.refl _ _, fun j early => by omega, fun s _ => waits_none, fun some_ => ?_⟩
    cases some_
  obtain ⟨⟨b, carry⟩, ran, walked⟩ := foldlM_total (f := segmentStep forms format l.segments l.rows)
    (Walked l) start fun k item st at_ walked => by
      rw [List.getElem?_zipIdx, Nat.zero_add] at at_
      obtain ⟨seg, line, rfl⟩ := Option.map_eq_some_iff.mp at_
      exact segmentStep_spec laid line walked
  rw [List.length_zipIdx] at walked
  cases carry with
  | none => exact ⟨b, ran, walked⟩
  | some _ =>
    obtain ⟨s, line, -⟩ := walked.next rfl
    simp at line

/-- With no tail at the end, the chunks are those of the loop. -/
theorem prepare_of_ran {raw : List RawSegment}
    (ran : chunkSegments forms format (layout raw) = some (b, none)) : prepare forms format raw = some {
      segments := (layout raw).segments
      chunks := b.chunks
      chars := (layout raw).full.length
      pages := pagesOf (layout raw).segments
      contentSha256 := forms.sha256Hex (layout raw).full } := by
  unfold prepare
  simp only [ran, Option.bind_eq_bind, Option.bind_some]
  rfl

structure Exact (raw : List RawSegment) (p : Prepared) : Prop where
  segments : ∀ s ∈ p.segments, getSlice (joined p.segments) s.charStart s.charEnd = some s.text
  chunks : ∀ c ∈ p.chunks, getSlice (joined p.segments) c.charStart c.charEnd = some c.text
  complete : ∀ i c, (joined p.segments)[i]? = some c → isWhitespace c = false →
    (∃ s ∈ p.segments, InHeader s i) ∨ ∃ d ∈ p.chunks, d.charStart ≤ i ∧ i < d.charEnd
  pages : (∀ r ∈ raw, r.kind = .page → r.page.isSome) → ∀ c ∈ p.chunks, c.locator.kind = .page →
    NamesPages p.segments c.charStart c.charEnd c.locator

/-- `prepare` returns with exact and complete chunks, and never flushes a tail. -/
theorem prepare_exact (forms : Forms) (format : Format) (raw : List RawSegment) :
    ∃ b p, chunkSegments forms format (layout raw) = some (b, none) ∧
      prepare forms format raw = some p ∧ p.chunks = b.chunks ∧ Exact raw p := by
  have laid := laid_layout raw
  obtain ⟨b, ran, walked⟩ := chunkSegments_spec forms format laid
  have full : b.full = joined (layout raw).segments := walked.full.trans laid.joined
  have good : Good (layout raw).segments b := walked.grows.good fun c none_ => by cases none_
  refine ⟨b, _, ran, prepare_of_ran ran, rfl, ?_, ?_, ?_, ?_⟩
  · rw [← laid.joined]
    exact laid.places
  · intro c listed
    rw [← full]
    exact (good c listed).1
  · intro i c char black
    rw [← laid.joined] at char
    obtain ⟨s, listed, holds⟩ := laid.gaps i c char black
    by_cases below : InHeader s i
    · exact .inl ⟨s, listed, below⟩
    obtain ⟨j, line⟩ := List.mem_iff_getElem?.mp listed
    obtain done | ⟨_, _, none_, -⟩ :=
      walked.reached j (List.getElem?_eq_some_iff.mp line).1 s line i c holds char black below
    · exact .inr done
    · cases none_
  · intro numbered c listed page
    refine (good c listed).2 page fun s mem kind => ?_
    obtain ⟨r, from_, same, number⟩ := origin_layout raw s mem
    rw [number]
    exact numbered r from_ (same.symm.trans kind)

end Source

end DuDuClaw.Knowledge.Chunks
