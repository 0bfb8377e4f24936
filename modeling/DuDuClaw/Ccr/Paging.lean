/-
# Ccr.Paging -- reading a saved original page by page

The model reads an original that does not fit into one answer with a call of `retrieve` for
each page, each from the byte where the page before it ended, until a page is not
`truncated`.  The end of a page is moved back to the start of a character, and a page that
ends where it starts reports `truncated` like any other.

* `paging_complete_iff`: paging comes to an end and loses nothing exactly when no character
  of the original is wider than a page.
-/
import DuDuClaw.Ccr.Capacity
import DuDuClaw.Ccr.Operations

namespace DuDuClaw.Ccr

open DuDuClaw.Lib

/-! ## One page -/

theorem takeBytes_isPrefix (n : Nat) (s : Text) : takeBytes n s <+: s := by
  induction s generalizing n with
  | nil => exact List.nil_prefix
  | cons c rest ih =>
    rw [takeBytes]
    split
    · exact (List.prefix_cons_inj c).mpr (ih _)
    · exact List.nil_prefix

theorem takeBytes_drop (n : Nat) (s : Text) : takeBytes n s ++ s.drop (takeBytes n s).length = s :=
  List.prefix_iff_eq_append.mp (takeBytes_isPrefix n s)

/-- Up to a character boundary the bytes are those of whole characters. -/
theorem takeBytes_front (front back : Text) : takeBytes (byteLength front) (front ++ back) = front := by
  induction front with
  | nil =>
    cases back with
    | nil => rfl
    | cons c rest =>
      have size := c.utf8Size_pos
      exact if_neg (by rw [byteLength_nil]; omega)
  | cons c front ih =>
    rw [byteLength_cons, List.cons_append, takeBytes, if_pos (Nat.le_add_right _ _),
      Nat.add_sub_cancel_left, ih]

theorem takeBytes_width {n : Nat} {s : Text} {c : Char} (listed : c ∈ takeBytes n s) : c.utf8Size ≤ n := by
  induction s generalizing n with
  | nil => cases listed
  | cons d rest ih =>
    rw [takeBytes] at listed
    split at listed
    · rename_i fits
      obtain rfl | later := List.mem_cons.mp listed
      · exact fits
      · exact Nat.le_trans (ih later) (Nat.sub_le _ _)
    · cases listed

theorem takeBytes_pos {n : Nat} {s : Text} (rest : s ≠ []) (fits : ∀ c ∈ s, c.utf8Size ≤ n) :
    0 < byteLength (takeBytes n s) := by
  cases s with
  | nil => exact absurd rfl rest
  | cons c rest =>
    rw [takeBytes, if_pos (fits c (List.mem_cons_self ..)), byteLength_cons]
    exact Nat.add_pos_left c.utf8Size_pos _

def pageBytes (maxBytes : Nat) : Nat := min (max maxBytes 1) maxReturnBytes

theorem utf8Size_le_pageBytes {maxBytes : Nat} (positive : 1 ≤ maxBytes) (c : Char) :
    c.utf8Size ≤ pageBytes maxBytes ↔ c.utf8Size ≤ maxBytes := by
  have four := c.utf8Size_le_four
  unfold pageBytes maxReturnBytes
  omega

/-- Without a query, and from a character boundary, the fragment is the next page. -/
theorem chunkOf_boundary (front back : Text) (maxBytes : Nat) :
    chunkOf (front ++ back) none (byteLength front) maxBytes = some
        { text := takeBytes (pageBytes maxBytes) back
          byteOffset := byteLength front
          totalBytes := byteLength (front ++ back)
          truncated := decide ((takeBytes (pageBytes maxBytes) back).length < back.length) } := by
  simp [chunkOf, takeBytes_front, pageBytes]
  rfl

/-! ## One call -/

/-- A call of `retrieve` for the id finds the row as long as it has not expired. -/
structure CcrStore.Serves (env : Env) (s : CcrStore) (source : Option CcrBoundSource)
    (row : EntryRow) : Prop where
  listed : row ∈ s.entries.rows
  scope : row.call.scope.valid = true
  named : isBlank row.id = false
  unrevoked : s.unrevoked row = true
  authorized : row.authorized row.call.scope source = true
  intact : row.intact env = true

section Serves
variable {env : Env} {s : CcrStore} {source : Option CcrBoundSource} {row : EntryRow}

theorem CcrStore.Serves.sweep (served : s.Serves env source row) {sweepNow : Int}
    (live : sweepNow < row.expiresAt) : (s.sweepExpiredIfDue sweepNow).Serves env source row := by
  unfold CcrStore.sweepExpiredIfDue
  split
  · exact served
  · refine { served with listed := ?_ }
    exact Table.mem_deleteWhere.mpr ⟨served.listed, decide_eq_false (Int.not_le.mpr live)⟩

/-- What a call returns, and that the row is there for the next one. -/
theorem CcrStore.Serves.retrieve (served : s.Serves env source row) {sweepNow now : Int}
    (unswept : sweepNow < row.expiresAt) (live : now < row.expiresAt) {front back : Text}
    (whole : row.original = front ++ back) (maxBytes : Nat) :
    ∃ chunk, s.retrieve env row.call.scope row.id none (byteLength front) maxBytes source
        sweepNow now = (.ok chunk, s.sweepExpiredIfDue sweepNow) ∧
      chunk.text = takeBytes (pageBytes maxBytes) back ∧
      chunk.truncated = decide (chunk.text.length < back.length) := by
  obtain ⟨listed, scope, named, unrevoked, authorized, intact⟩ := served.sweep unswept
  have found : (s.sweepExpiredIfDue sweepNow).entries.rows.find? (fun other =>
      other.id == row.id && other.call.scope == row.call.scope && now < other.expiresAt &&
        (s.sweepExpiredIfDue sweepNow).unrevoked other) = some row := by
    refine Table.find?_keyed _ listed ?_ fun other matched => ?_
    · simp [live, unrevoked]
    · simp only [Bool.and_eq_true, beq_iff_eq] at matched
      exact matched.1.1.1
  have cut := chunkOf_boundary front back maxBytes
  rw [← whole] at cut
  refine ⟨⟨takeBytes (pageBytes maxBytes) back, byteLength front, byteLength row.original,
    decide ((takeBytes (pageBytes maxBytes) back).length < back.length)⟩, ?_, rfl, rfl⟩
  simp only [CcrStore.retrieve, scope, named, found, authorized, intact, cut, Bool.not_true,
    Bool.false_eq_true, if_false]

end Serves

/-! ## Page by page -/

/-- The pages of a reading, one call for each reading of the clock: a call starts where the
page before it ended, and there is none after a page that is not `truncated`. -/
def CcrStore.pages (env : Env) (row : EntryRow) (maxBytes : Nat) (source : Option CcrBoundSource) :
    List (Int × Int) → Nat → CcrStore → List RetrievedChunk
  | [], _, _ => []
  | (sweepNow, now) :: later, offset, s =>
    match s.retrieve env row.call.scope row.id none offset maxBytes source sweepNow now with
    | (.error _, _) => []
    | (.ok chunk, s') =>
      chunk :: if chunk.truncated then
          s'.pages env row maxBytes source later (offset + byteLength chunk.text)
        else []

/-- The last page is not `truncated`, and the pages make up the text. -/
structure Complete (pages : List RetrievedChunk) (original : Text) : Prop where
  ended : ∃ front last, pages = front ++ [last] ∧ last.truncated = false
  whole : pages.flatMap RetrievedChunk.text = original

/-- Every reading of the clock is before the row expires. -/
def EntryRow.LiveAt (row : EntryRow) (readings : List (Int × Int)) : Prop :=
  ∀ reading ∈ readings, reading.1 < row.expiresAt ∧ reading.2 < row.expiresAt

/-- Paging terminates and loses nothing: a `truncated` page always moves the offset on, and
with enough calls the pages are the original. -/
structure CcrStore.PagesThrough (env : Env) (s : CcrStore) (row : EntryRow) (maxBytes : Nat)
    (source : Option CcrBoundSource) : Prop where
  advances : ∀ readings, row.LiveAt readings →
    ∀ page ∈ s.pages env row maxBytes source readings 0, page.truncated = true →
      0 < byteLength page.text
  terminates : ∃ calls, ∀ readings, row.LiveAt readings → calls ≤ readings.length →
    Complete (s.pages env row maxBytes source readings 0) row.original

section Pages
variable {env : Env} {s : CcrStore} {source : Option CcrBoundSource} {row : EntryRow}
  {maxBytes : Nat} {readings : List (Int × Int)}

/-- No character that was read is wider than a page. -/
theorem CcrStore.Serves.pages_width (served : s.Serves env source row) (front back : Text)
    (whole : row.original = front ++ back) (live : row.LiveAt readings) :
    ∀ page ∈ s.pages env row maxBytes source readings (byteLength front),
      ∀ c ∈ page.text, c.utf8Size ≤ pageBytes maxBytes := by
  induction readings generalizing s front back with
  | nil => exact List.forall_mem_nil _
  | cons reading later ih =>
    obtain ⟨sweepNow, now⟩ := reading
    have first := live _ (List.mem_cons_self ..)
    obtain ⟨chunk, returned, text, -⟩ := served.retrieve first.1 first.2 whole maxBytes
    rw [CcrStore.pages, returned]
    intro page listed
    obtain rfl | more := List.mem_cons.mp listed
    · rw [text]
      exact fun c inside => takeBytes_width inside
    split at more
    · rw [← byteLength_append] at more
      refine ih (served.sweep first.1) _ (back.drop chunk.text.length) ?_
        (fun r there => live r (List.mem_cons_of_mem _ there)) page more
      rw [whole, List.append_assoc, text, takeBytes_drop]
    · cases more

/-- When every character fits, each page takes at least one of those that are left. -/
theorem CcrStore.Serves.pages_complete (served : s.Serves env source row) (front back : Text)
    (whole : row.original = front ++ back) (live : row.LiveAt readings)
    (fits : ∀ c ∈ back, c.utf8Size ≤ pageBytes maxBytes) :
    (∀ page ∈ s.pages env row maxBytes source readings (byteLength front),
        page.truncated = true → 0 < byteLength page.text) ∧
      (back.length < readings.length →
        Complete (s.pages env row maxBytes source readings (byteLength front)) back) := by
  induction readings generalizing s front back with
  | nil => exact ⟨List.forall_mem_nil _, fun few => absurd few (Nat.not_lt_zero _)⟩
  | cons reading later ih =>
    obtain ⟨sweepNow, now⟩ := reading
    have first := live _ (List.mem_cons_self ..)
    obtain ⟨chunk, returned, text, truncated⟩ := served.retrieve first.1 first.2 whole maxBytes
    have cut := takeBytes_drop (pageBytes maxBytes) back
    rw [← text] at cut
    rw [CcrStore.pages, returned]
    dsimp only
    cases more : chunk.truncated with
    | false =>
      rw [more, eq_comm, decide_eq_false_iff_not, Nat.not_lt] at truncated
      have last : chunk.text = back := by
        rw [List.drop_of_length_le truncated, List.append_nil] at cut
        exact cut
      refine ⟨fun page listed => ?_, fun _ => ⟨⟨[], chunk, rfl, more⟩, ?_⟩⟩
      · cases List.mem_singleton.mp listed
        rw [more]
        exact nofun
      · exact (List.append_nil _).trans last
    | true =>
      rw [more, eq_comm, decide_eq_true_eq] at truncated
      have moved : 0 < byteLength chunk.text := by
        rw [text]
        refine takeBytes_pos ?_ fits
        rintro rfl
        exact Nat.not_lt_zero _ truncated
      have shorter : 0 < chunk.text.length := by
        rw [List.length_pos_iff]
        intro empty
        rw [empty] at moved
        exact Nat.lt_irrefl _ moved
      have next := ih (served.sweep first.1) (front ++ chunk.text)
        (back.drop chunk.text.length) (by rw [List.append_assoc, cut]; exact whole)
        (fun r there => live r (List.mem_cons_of_mem _ there))
        (fun c left => fits c (List.mem_of_mem_drop left))
      rw [byteLength_append] at next
      rw [if_pos rfl]
      refine ⟨fun page listed => ?_, fun enough => ?_⟩
      · obtain rfl | later := List.mem_cons.mp listed
        · exact fun _ => moved
        · exact next.1 page later
      · rw [List.length_cons] at enough
        obtain ⟨⟨front', last, pages, ended⟩, rest⟩ := next.2 (by rw [List.length_drop]; omega)
        refine ⟨⟨chunk :: front', last, congrArg (List.cons chunk) pages, ended⟩, ?_⟩
        rw [List.flatMap_cons, rest, cut]

/-- **When paging over a saved original is complete**: exactly when no character of it is
wider than a page, so always from four bytes on. -/
theorem paging_complete_iff (served : s.Serves env source row) (positive : 1 ≤ maxBytes) :
    s.PagesThrough env row maxBytes source ↔ ∀ c ∈ row.original, c.utf8Size ≤ maxBytes := by
  constructor
  · rintro ⟨-, calls, complete⟩ c listed
    have live : row.LiveAt (List.replicate calls (row.expiresAt - 1, row.expiresAt - 1)) := by
      intro reading repeated
      rw [List.eq_of_mem_replicate repeated]
      exact ⟨Int.sub_lt_self _ Int.one_pos, Int.sub_lt_self _ Int.one_pos⟩
    have done := complete _ live (by rw [List.length_replicate])
    rw [← done.whole] at listed
    obtain ⟨page, read, inside⟩ := List.mem_flatMap.mp listed
    exact (utf8Size_le_pageBytes positive c).mp
      (served.pages_width [] _ rfl live page read c inside)
  · intro narrow
    have fits : ∀ c ∈ row.original, c.utf8Size ≤ pageBytes maxBytes :=
      fun c listed => (utf8Size_le_pageBytes positive c).mpr (narrow c listed)
    refine ⟨fun readings live => ?_, row.original.length + 1, fun readings live enough => ?_⟩
    · exact (served.pages_complete [] _ rfl live fits).1
    · exact (served.pages_complete [] _ rfl live fits).2 enough

end Pages

/-! ## A character wider than a page -/

def hanPut : PutCall := { samplePut 'x' 100 with original := ['漢', 'a'] }

def hanRow : EntryRow := hanPut.newRow sampleEnv oneEntry

def hanStore : CcrStore := CcrStore.empty.afterPut sampleEnv oneEntry hanPut

theorem hanStore_serves : hanStore.Serves sampleEnv none hanRow where
  listed := by decide
  scope := by decide
  named := by decide
  unrevoked := by decide
  authorized := by decide
  intact := by decide

theorem paging_complete_han :
    hanStore.PagesThrough sampleEnv hanRow 3 none ↔ ∀ c ∈ hanRow.original, c.utf8Size ≤ 3 :=
  paging_complete_iff hanStore_serves (by decide)

/-- **Pages of one byte** never get past a character of three: the first page is empty and
`truncated`, and so is every page after it. -/
theorem paging_stuck :
    ¬∀ (env : Env) (s : CcrStore) (source : Option CcrBoundSource) (row : EntryRow) (maxBytes : Nat),
      s.Serves env source row → 1 ≤ maxBytes → s.PagesThrough env row maxBytes source := by
  intro always
  have paged := always _ _ _ _ 1 hanStore_serves (Nat.le_refl 1)
  have live : hanRow.LiveAt [(100, 100)] := by
    intro reading first
    cases List.mem_singleton.mp first
    decide
  exact absurd (paged.advances [(100, 100)] live ⟨[], 0, 4, true⟩ (by decide) rfl) (by decide)

end DuDuClaw.Ccr
