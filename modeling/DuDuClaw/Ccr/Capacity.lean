/-
# Ccr.Capacity -- a saved original is there

A `put` evicts in its own transaction: beyond `max_entries` rows, and while the originals
take more than `MAX_STORE_BYTES`, always the row with the earliest `created_at`.  A row is
stamped with the wall clock.  When the clock has stepped back, the row just inserted can be
the oldest one, and `put` returns the id of an original it has deleted again.

* `evictCount_keeps`, `evictBytes_keeps`: a row survives when the rows that count as newer
  leave room for it.
* `put_saves`: in every run whose inserts find that room, a `put` that returns an id has
  saved it, and the store is within its limits.
* `put_lost_after_step_back`: a clock that steps back by a second loses an original.
-/
import Mathlib.Data.Finset.Max
import DuDuClaw.Lib.Runs
import DuDuClaw.Ccr.Store

namespace DuDuClaw.Ccr

open DuDuClaw.Lib

/-! ## Eviction by number -/

/-- The rows stamped later than `now`. -/
def newerRows (rows : List EntryRow) (now : Int) : List EntryRow :=
  rows.filter fun row => now < row.createdAt

theorem mem_newestFirst {rows : List EntryRow} {row : EntryRow} : row ∈ newestFirst rows ↔ row ∈ rows := by
  simp [newestFirst]

theorem newestFirst_perm (rows : List EntryRow) : (newestFirst rows).Perm rows :=
  (List.perm_insertionSort _ _).trans (List.reverse_perm rows)

theorem newestFirst_sorted (rows : List EntryRow) :
    (newestFirst rows).Pairwise fun a b => b.createdAt ≤ a.createdAt :=
  List.pairwise_insertionSort _ _

/-- In a list from new to old the rows stamped later than `now` come first. -/
theorem takeWhile_newer {rows : List EntryRow} (now : Int)
    (sorted : rows.Pairwise fun a b => b.createdAt ≤ a.createdAt) :
    rows.takeWhile (fun row => now < row.createdAt) = newerRows rows now := by
  induction rows with
  | nil => rfl
  | cons row rest ih =>
    obtain ⟨first, others⟩ := List.pairwise_cons.mp sorted
    by_cases newer : now < row.createdAt
    · simp [newerRows, newer, ih others]
    have none_ : newerRows rest now = [] := by
      refine List.filter_eq_nil_iff.mpr ?_
      intro other listed
      have older := first other listed
      simp only [decide_eq_true_eq]
      omega
    have here : newerRows (row :: rest) now = newerRows rest now := by
      simp [newerRows, newer]
    rw [here, none_]
    simp [newer]

/-- The last row comes after those stamped later than it, and before all others. -/
theorem newestFirst_concat (rows : List EntryRow) (row : EntryRow) : ∃ older, newestFirst (rows ++ [row]) =
      newerRows (newestFirst rows) row.createdAt ++ row :: older := by
  have shape : newestFirst (rows ++ [row]) =
      (newestFirst rows).takeWhile (fun b => ¬b.createdAt ≤ row.createdAt) ++
        row :: (newestFirst rows).dropWhile fun b => ¬b.createdAt ≤ row.createdAt := by
    rw [newestFirst, List.reverse_append, List.reverse_singleton, List.singleton_append]
    exact List.insertionSort_cons_eq_take_drop _ row rows.reverse
  have later : (fun b : EntryRow => decide ¬b.createdAt ≤ row.createdAt) =
      fun b => decide (row.createdAt < b.createdAt) := by
    funext b
    simp
  rw [later, takeWhile_newer _ (newestFirst_sorted rows)] at shape
  exact ⟨_, shape⟩

section Inserted

variable {entries inserted : Table EntryRow.id} {row : EntryRow}
  (last : inserted.rows = entries.rows ++ [row])

include last

theorem newestFirst_inserted : ∃ newer older, newestFirst inserted.rows = newer ++ row :: older ∧
      newer.length = (newerRows entries.rows row.createdAt).length ∧
      (∀ other ∈ newerRows entries.rows row.createdAt, other ∈ newer) ∧
      ((newer ++ row :: older).map EntryRow.id).Nodup := by
  obtain ⟨older, shape⟩ := newestFirst_concat entries.rows row
  rw [← last] at shape
  have perm := (newestFirst_perm entries.rows).filter fun other => row.createdAt < other.createdAt
  refine ⟨_, older, shape, perm.length_eq, ?_, ?_⟩
  · intro other listed
    exact perm.symm.subset listed
  · rw [← shape]
    exact ((newestFirst_perm inserted.rows).map _).nodup_iff.mpr inserted.distinct

/-- **The count keeps a new row**, and with it all rows stamped later, when these are fewer
than the limit. -/
theorem evictCount_keeps {offset : Nat} (room : (newerRows entries.rows row.createdAt).length < offset) :
    ∃ front, (evictCount offset inserted).rows = front ++ [row] ∧
      newerRows front row.createdAt = newerRows entries.rows row.createdAt := by
  obtain ⟨newer, older, shape, count, stamped, distinct⟩ := newestFirst_inserted last
  rw [List.map_append, List.map_cons] at distinct
  obtain ⟨-, below, apart⟩ := List.nodup_append.mp distinct
  set evicted := fun other : EntryRow =>
    (((newestFirst inserted.rows).drop offset).map EntryRow.id).contains other.id with evicted_
  have beyond : ∀ other, evicted other = true → other.id ∈ older.map EntryRow.id := by
    intro other gone
    rw [evicted_] at gone
    simp only [shape, List.contains_iff_mem] at gone
    obtain ⟨k, rfl⟩ : ∃ k, offset = newer.length + (k + 1) :=
      ⟨offset - newer.length - 1, by omega⟩
    rw [List.drop_append, List.drop_eq_nil_of_le (by omega), List.nil_append,
      Nat.add_sub_cancel_left, List.drop_succ_cons] at gone
    exact (List.drop_sublist k older).map EntryRow.id |>.subset gone
  have here : evicted row = false := by
    by_contra gone
    rw [Bool.not_eq_false] at gone
    exact (List.nodup_cons.mp below).1 (beyond row gone)
  refine ⟨entries.rows.filter fun other => !evicted other, ?_, ?_⟩
  · show inserted.rows.filter (fun other => !evicted other) = _
    rw [last, List.filter_append]
    simp [here]
  · refine (List.filter_filter ..).trans (List.filter_congr ?_)
    intro other listed
    by_cases later : row.createdAt < other.createdAt
    · have inNewer := stamped other (List.mem_filter.mpr ⟨listed, by simpa using later⟩)
      have stays : evicted other = false := by
        by_contra gone
        rw [Bool.not_eq_false] at gone
        exact apart _ (List.mem_map_of_mem inNewer) _
          (List.mem_cons_of_mem _ (beyond other gone)) rfl
      simp [later, stays]
    · simp [later]

theorem evictCount_evicts {offset : Nat} (full : offset ≤ (newerRows entries.rows row.createdAt).length) :
    row ∉ (evictCount offset inserted).rows := by
  obtain ⟨newer, older, shape, count, -, -⟩ := newestFirst_inserted last
  rw [evictCount, Table.mem_deleteWhere, shape]
  rintro ⟨-, kept⟩
  rw [Bool.eq_false_iff, ne_eq, List.contains_iff_mem] at kept
  refine kept (List.mem_map.mpr ⟨row, ?_, rfl⟩)
  rw [List.drop_append_of_le_length (by omega)]
  simp

end Inserted

theorem evictCount_length (offset : Nat) (entries : Table EntryRow.id) :
    (evictCount offset entries).rows.length ≤ offset := by
  set sorted := newestFirst entries.rows with sorted_
  have perm : entries.rows.Perm sorted := (newestFirst_perm entries.rows).symm
  set evicted := fun row : EntryRow => ((sorted.drop offset).map EntryRow.id).contains row.id
    with evicted_
  have same : (evictCount offset entries).rows.length =
      (sorted.filter fun row => !evicted row).length := (perm.filter _).length_eq
  have tail : (sorted.drop offset).filter (fun row => !evicted row) = [] := by
    refine List.filter_eq_nil_iff.mpr ?_
    intro row listed kept
    have gone : evicted row = true :=
      List.contains_iff_mem.mpr (List.mem_map_of_mem listed)
    rw [gone] at kept
    cases kept
  have parts : sorted.filter (fun row => !evicted row) =
      (sorted.take offset).filter fun row => !evicted row := by
    calc sorted.filter (fun row => !evicted row)
        = (sorted.take offset ++ sorted.drop offset).filter fun row => !evicted row := by
          rw [List.take_append_drop]
      _ = (sorted.take offset).filter fun row => !evicted row := by
          rw [List.filter_append, tail, List.append_nil]
  rw [same, parts]
  exact (List.length_filter_le _ _).trans (List.length_take_le _ _)

/-! ## Eviction by size -/

variable {rows : List EntryRow} {entries kept : Table EntryRow.id} {row : EntryRow} {fuel : Nat} {total : Int}

variable {front : List EntryRow} {limits : Limits} {s saved : CcrStore}

theorem totalBytes_filter (rows : List EntryRow) (sel : EntryRow → Bool) :
    totalBytes (rows.filter sel) + totalBytes (rows.filter fun row => !sel row) = totalBytes rows := by
  induction rows with
  | nil => rfl
  | cons row rest ih =>
    cases chosen : sel row <;> simp [totalBytes, chosen] at ih ⊢ <;> omega

theorem totalBytes_subset {others : List EntryRow} (distinct : rows.Nodup)
    (sub : rows ⊆ others) : totalBytes rows ≤ totalBytes others := by
  obtain ⟨part, perm, inside⟩ := distinct.subperm sub
  have same : totalBytes part = totalBytes rows := (perm.map _).sum_nat
  rw [← same]
  clear same perm sub distinct
  induction inside with
  | slnil => exact le_rfl
  | cons row _ ih => exact ih.trans (by simp [totalBytes])
  | cons_cons row _ ih => simpa [totalBytes] using ih

theorem filter_id (listed : row ∈ entries.rows) :
    entries.rows.filter (fun other => other.id == row.id) = [row] := by
  have all : ∀ other ∈ entries.rows.filter (fun other => other.id == row.id), other = row := by
    intro other chosen
    obtain ⟨inside, same⟩ := List.mem_filter.mp chosen
    exact entries.unique inside listed (by simpa using same)
  have there : row ∈ entries.rows.filter fun other => other.id == row.id :=
    List.mem_filter.mpr ⟨listed, by simp⟩
  have distinct : (entries.rows.filter fun other => other.id == row.id).Nodup :=
    (List.Nodup.of_map _ entries.distinct).filter _
  match found : entries.rows.filter fun other => other.id == row.id with
  | [] => simp [found] at there
  | [only] =>
    have one := all only (by simp [found])
    rw [one] at found
    exact found
  | first :: second :: rest =>
    rw [found] at distinct
    have one := all first (by simp [found])
    have two := all second (by simp [found])
    rw [one, two] at distinct
    simp at distinct

theorem totalBytes_delete (listed : row ∈ entries.rows) :
    totalBytes (entries.deleteWhere fun other => other.id == row.id).rows + row.contentBytes =
      totalBytes entries.rows := by
  have whole := totalBytes_filter entries.rows fun other => other.id == row.id
  rw [filter_id listed] at whole
  have single : totalBytes [row] = row.contentBytes := by simp [totalBytes]
  rw [← whole, single, Nat.add_comm]
  rfl

theorem length_delete (listed : row ∈ entries.rows) :
    (entries.deleteWhere fun other => other.id == row.id).rows.length < entries.rows.length := by
  refine List.length_filter_lt_length_iff_exists.mpr ⟨row, listed, ?_⟩
  simp

theorem oldest_mem (found : oldest rows = some row) :
    row ∈ rows ∧ ∀ other ∈ rows, row.createdAt ≤ other.createdAt := by
  refine ⟨List.mem_of_find?_eq_some found, ?_⟩
  simpa using List.find?_some found

theorem oldest_some (nonempty : rows ≠ []) : ∃ row, oldest rows = some row := by
  have filled : (rows : Multiset EntryRow) ≠ 0 := by simpa using nonempty
  obtain ⟨row, listed, least⟩ := Multiset.exists_min_image EntryRow.createdAt filled
  cases found : oldest rows with
  | some first => exact ⟨first, rfl⟩
  | none =>
    have late := List.find?_eq_none.mp found row (Multiset.mem_coe.mp listed)
    refine absurd ?_ late
    simpa using least

/-- **The loop ends within the limit**, and only deletes. -/
theorem evictBytes_spec (fuel : Nat) (entries : Table EntryRow.id) (enough : entries.rows.length ≤ fuel) :
    ∃ kept, evictBytes fuel (totalBytes entries.rows) entries = some kept ∧
      totalBytes kept.rows ≤ maxStoreBytes ∧ kept.rows.Sublist entries.rows := by
  induction fuel generalizing entries with
  | zero =>
    have empty : entries.rows = [] := List.eq_nil_of_length_eq_zero (by omega)
    refine ⟨entries, ?_, ?_, .refl _⟩
    · simp [evictBytes, empty, totalBytes]
    · simp [empty, totalBytes]
  | succ fuel ih =>
    unfold evictBytes
    split
    · rename_i small
      exact ⟨entries, rfl, by omega, .refl _⟩
    rename_i large
    have nonempty : entries.rows ≠ [] := by
      intro empty
      simp [empty, totalBytes] at large
    obtain ⟨row, found⟩ := oldest_some nonempty
    have listed := (oldest_mem found).1
    have shorter := length_delete listed
    have bytes := totalBytes_delete listed
    obtain ⟨kept, ends, within, sub⟩ :=
      ih (entries.deleteWhere fun other => other.id == row.id) (by omega)
    refine ⟨kept, ?_, within, sub.trans List.filter_sublist⟩
    rw [found]
    have total : (totalBytes entries.rows : Int) - row.contentBytes =
        totalBytes (entries.deleteWhere fun other => other.id == row.id).rows := by omega
    simpa only [total] using ends

theorem evictBytes_cases
    (ends : evictBytes fuel total entries = some kept) : (total ≤ maxStoreBytes ∧ kept = entries) ∨
      ∃ rest first, fuel = rest + 1 ∧ ¬total ≤ maxStoreBytes ∧ oldest entries.rows = some first ∧
        evictBytes rest (total - first.contentBytes)
          (entries.deleteWhere fun other => other.id == first.id) = some kept := by
  unfold evictBytes at ends
  split at ends
  · rename_i small
    exact .inl ⟨small, (Option.some.inj ends).symm⟩
  rename_i large
  split at ends
  · rename_i rest first found
    exact .inr ⟨rest, first, rfl, large, found, ends⟩
  · cases ends

theorem evictBytes_subset (ends : evictBytes fuel total entries = some kept) : kept.rows ⊆ entries.rows := by
  induction fuel generalizing total entries with
  | zero =>
    rcases evictBytes_cases ends with ⟨-, rfl⟩ | ⟨rest, first, impossible, -⟩
    · exact fun _ listed => listed
    · cases impossible
  | succ fuel ih =>
    rcases evictBytes_cases ends with ⟨-, rfl⟩ | ⟨rest, first, same, -, -, ends⟩
    · exact fun _ listed => listed
    · cases same
      intro row listed
      exact (Table.mem_deleteWhere.mp (ih ends listed)).1

/-- While a row is there, the loop has deleted none stamped later. -/
theorem evictBytes_newer (ends : evictBytes fuel total entries = some kept) (there : row ∈ kept.rows) :
    newerRows entries.rows row.createdAt ⊆ kept.rows := by
  induction fuel generalizing total entries with
  | zero =>
    rcases evictBytes_cases ends with ⟨-, rfl⟩ | ⟨rest, first, impossible, -⟩
    · exact List.filter_subset_self _
    · cases impossible
  | succ fuel ih =>
    rcases evictBytes_cases ends with ⟨-, rfl⟩ | ⟨rest, first, same, -, found, ends⟩
    · exact List.filter_subset_self _
    cases same
    intro other newer
    obtain ⟨listed, later⟩ := List.mem_filter.mp newer
    have before := (Table.mem_deleteWhere.mp (evictBytes_subset ends there)).1
    have least := (oldest_mem found).2 row before
    have stays : other ∈ (entries.deleteWhere fun other => other.id == first.id).rows := by
      refine Table.mem_deleteWhere.mpr ⟨listed, ?_⟩
      by_contra same
      rw [Bool.not_eq_false, beq_iff_eq] at same
      have one := entries.unique listed (oldest_mem found).1 same
      rw [one, decide_eq_true_eq] at later
      omega
    exact ih ends (List.mem_filter.mpr ⟨stays, later⟩)

/-- The last row is the oldest only when all others are stamped later. -/
theorem oldest_concat (fresh : row ∉ front)
    (found : oldest (front ++ [row]) = some row) : newerRows front row.createdAt = front := by
  have least := (oldest_mem found).2
  unfold oldest at found
  rw [List.find?_append] at found
  refine List.filter_eq_self.mpr ?_
  intro other listed
  rw [decide_eq_true_eq]
  by_contra early
  -- then `other` passes the test, and a row before the last is found
  have none_ : ∀ first, front.find? (fun candidate => (front ++ [row]).all fun third =>
      candidate.createdAt ≤ third.createdAt) ≠ some first := by
    intro first first_
    rw [first_, Option.some_or, Option.some.injEq] at found
    rw [found] at first_
    exact fresh (List.mem_of_find?_eq_some first_)
  have refused := List.find?_eq_none.mp (Option.eq_none_iff_forall_ne_some.mpr none_) other listed
  refine refused ?_
  rw [List.all_eq_true]
  intro third inside
  have bound := least third inside
  rw [decide_eq_true_eq]
  omega

/-- **A new row survives the size** exactly when it fits beside the rows stamped later. -/
theorem evictBytes_keeps (last : entries.rows = front ++ [row]) (enough : entries.rows.length ≤ fuel)
    (ends : evictBytes fuel (totalBytes entries.rows) entries = some kept) : row ∈ kept.rows ↔
      totalBytes (newerRows front row.createdAt) + row.contentBytes ≤ maxStoreBytes := by
  have distinct : (front ++ [row]).Nodup := last ▸ List.Nodup.of_map _ entries.distinct
  have fresh : row ∉ front := by
    intro listed
    exact (List.nodup_append.mp distinct).2.2 row listed row (List.mem_singleton_self row) rfl
  constructor
  · intro there
    obtain ⟨other, same, within, -⟩ := evictBytes_spec fuel entries enough
    cases ends.symm.trans same
    have newer := evictBytes_newer ends there
    have sub : newerRows front row.createdAt ++ [row] ⊆ kept.rows := by
      intro other listed
      rcases List.mem_append.mp listed with later | here
      · refine newer (List.mem_filter.mpr ?_)
        rw [last]
        obtain ⟨inside, stamp⟩ := List.mem_filter.mp later
        exact ⟨List.mem_append_left _ inside, stamp⟩
      · rwa [List.mem_singleton.mp here]
    have nodup : (newerRows front row.createdAt ++ [row]).Nodup :=
      distinct.sublist (List.filter_sublist.append_right [row])
    have bytes := totalBytes_subset nodup sub
    have sum : totalBytes (newerRows front row.createdAt ++ [row]) =
        totalBytes (newerRows front row.createdAt) + row.contentBytes := by
      simp [totalBytes]
    omega
  · intro fits
    induction fuel generalizing entries front with
    | zero =>
      rw [last] at enough
      simp at enough
    | succ fuel ih =>
      rcases evictBytes_cases ends with ⟨-, rfl⟩ | ⟨rest, first, same, large, found, ends⟩
      · simp [last]
      cases same
      have listed := (oldest_mem found).1
      have other : first ≠ row := by
        rintro rfl
        rw [last] at found large
        have all := oldest_concat fresh found
        have sum : totalBytes (front ++ [first]) = totalBytes front + first.contentBytes := by
          simp [totalBytes]
        rw [all] at fits
        rw [sum] at large
        omega
      have shape : (entries.deleteWhere fun other => other.id == first.id).rows =
          (front.filter fun other => !(other.id == first.id)) ++ [row] := by
        have stays : (row.id == first.id) = false := by
          rw [beq_eq_false_iff_ne]
          intro same
          exact other (entries.unique listed (by simp [last]) same.symm)
        simp [Table.deleteWhere, last, List.filter_append, stays]
      have shorter := length_delete listed
      have bytes := totalBytes_delete listed
      have total : (totalBytes entries.rows : Int) - first.contentBytes =
          totalBytes (entries.deleteWhere fun other => other.id == first.id).rows := by omega
      rw [total] at ends
      have smaller : (front.filter fun other => !(other.id == first.id)).Sublist front :=
        List.filter_sublist
      have fewer : totalBytes (newerRows (front.filter fun other => !(other.id == first.id))
          row.createdAt) ≤ totalBytes (newerRows front row.createdAt) := by
        refine totalBytes_subset ((smaller.filter _).nodup ?_) (smaller.filter _).subset
        exact (List.nodup_append.mp distinct).1.filter _
      refine ih shape (by omega) ends ?_ ?_ (by omega)
      · exact distinct.sublist (smaller.append_right [row])
      · exact fun inside => fresh (smaller.subset inside)

/-! ## One `put` -/

/-- The rows the new one competes with leave room for it. -/
def HasRoom (limits : Limits) (rows : List EntryRow) (now : Int) (bytes : Nat) : Prop :=
  (newerRows rows now).length < limits.offset ∧
    totalBytes (newerRows rows now) + bytes ≤ maxStoreBytes

theorem insertEvicting_cases
    (inserted : s.insertEvicting limits row = some saved) : ∃ full kept, full.rows = s.entries.rows ++ [row] ∧
      evictBytes (evictCount limits.offset full).rows.length
          (totalBytes (evictCount limits.offset full).rows) (evictCount limits.offset full) = some kept ∧
      saved = { s with entries := kept } := by
  unfold CcrStore.insertEvicting at inserted
  split at inserted
  · cases inserted
  rename_i full added
  obtain ⟨-, last⟩ := Table.insert_cases added
  obtain ⟨kept, ends, rfl⟩ := Option.map_eq_some_iff.mp inserted
  exact ⟨full, kept, last, ends, rfl⟩

/-- **What an insert leaves behind**: the row itself exactly when there was room for it, and
a store within its limits. -/
theorem insertEvicting_saves (inserted : s.insertEvicting limits row = some saved) :
    (row ∈ saved.entries.rows ↔ HasRoom limits s.entries.rows row.createdAt row.contentBytes) ∧
      totalBytes saved.entries.rows ≤ maxStoreBytes ∧ saved.entries.rows.length ≤ limits.maxEntries := by
  obtain ⟨full, kept, last, ends, rfl⟩ := insertEvicting_cases inserted
  obtain ⟨other, same, within, sub⟩ := evictBytes_spec _ (evictCount limits.offset full) le_rfl
  cases ends.symm.trans same
  have few : limits.offset ≤ limits.maxEntries := by
    unfold Limits.offset
    split <;> omega
  refine ⟨?_, within, sub.length_le.trans ((evictCount_length _ _).trans few)⟩
  by_cases room : (newerRows s.entries.rows row.createdAt).length < limits.offset
  · obtain ⟨front, shape, newer⟩ := evictCount_keeps last room
    rw [HasRoom, and_iff_right room, ← newer]
    exact evictBytes_keeps shape le_rfl ends
  · refine iff_of_false ?_ fun fits => room fits.1
    intro there
    exact evictCount_evicts last (by omega) (evictBytes_subset ends there)

/-! ## Runs -/

variable (env : Env) (limits : Limits)

def CcrStore.afterPut (s : CcrStore) (put : PutCall) : CcrStore :=
  (s.putWithArtifact env limits put).2

/-- The call is a replay of a saved one, or its original finds room beside the unexpired
rows stamped later than the clock now reads. -/
def PutCall.Fits (s : CcrStore) (put : PutCall) : Prop :=
  (s.met put).rowsOf put.call ≠ [] ∨
    HasRoom limits (s.met put).entries.rows put.now (byteLength put.original)

def CcrStore.Within (s : CcrStore) : Prop :=
  totalBytes s.entries.rows ≤ maxStoreBytes ∧ s.entries.rows.length ≤ limits.maxEntries

theorem sweep_sublist (s : CcrStore) (now : Int) :
    (s.sweepExpiredIfDue now).entries.rows.Sublist s.entries.rows := by
  obtain ⟨sel, rows, -⟩ := sweep_rows s now
  rw [rows]
  exact List.filter_sublist

theorem met_sublist (s : CcrStore) (put : PutCall) : (s.met put).entries.rows.Sublist s.entries.rows :=
  List.filter_sublist.trans (sweep_sublist s put.sweepNow)

theorem CcrStore.Within.of_sublist {limits : Limits} {s t : CcrStore} (within : s.Within limits)
    (sub : t.entries.rows.Sublist s.entries.rows) : t.Within limits :=
  ⟨(totalBytes_subset (List.Nodup.of_map _ t.entries.distinct) sub.subset).trans within.1,
    sub.length_le.trans within.2⟩

/-- Shortening a lifetime changes no id, no size and no content. -/
theorem shortenExpiry_rows (entries : Table EntryRow.id) (id : Text) (expiresAt : Int) :
    (shortenExpiry entries id expiresAt).rows.length = entries.rows.length ∧
      totalBytes (shortenExpiry entries id expiresAt).rows = totalBytes entries.rows ∧
      ∀ row ∈ entries.rows, ∃ kept ∈ (shortenExpiry entries id expiresAt).rows,
        kept.id = row.id ∧ kept.call = row.call ∧ kept.original = row.original := by
  refine ⟨List.length_map _, ?_, ?_⟩
  · unfold totalBytes shortenExpiry Table.update
    rw [List.map_map]
    refine congrArg List.sum (List.map_congr_left fun row _ => ?_)
    dsimp only [Function.comp_apply]
    split <;> rfl
  · intro row listed
    refine ⟨_, Table.mem_update.mpr ⟨row, listed, rfl⟩, ?_⟩
    split <;> exact ⟨rfl, rfl, rfl⟩

theorem reuse_rows (s : CcrStore) (row : EntryRow) (expiresAt : Int) :
    (s.reuse row expiresAt).2.entries.rows.length = s.entries.rows.length ∧
      totalBytes (s.reuse row expiresAt).2.entries.rows = totalBytes s.entries.rows ∧
      ∀ old ∈ s.entries.rows, ∃ kept ∈ (s.reuse row expiresAt).2.entries.rows,
        kept.id = old.id ∧ kept.call = old.call ∧ kept.original = old.original := by
  unfold CcrStore.reuse
  dsimp only
  split
  · exact shortenExpiry_rows s.entries row.id expiresAt
  · exact ⟨rfl, rfl, fun old listed => ⟨old, listed, rfl, rfl, rfl⟩⟩

theorem mem_rowsOf {s : CcrStore} {call : SourceCall} :
    row ∈ s.rowsOf call ↔ row ∈ s.entries.rows ∧ row.call = call := by
  rw [CcrStore.rowsOf, mem_newestFirst, List.mem_filter, beq_iff_eq]

/-- **One `put`** keeps the store within its limits, and has saved what it returns when the
call fits. -/
theorem afterPut_saves {s : CcrStore} (within : s.Within limits) (put : PutCall) :
    (s.afterPut env limits put).Within limits ∧
      (put.Fits limits s → ∀ e, (s.putWithArtifact env limits put).1 = .ok e →
        ∃ row ∈ (s.afterPut env limits put).entries.rows,
          row.id = e.id ∧ row.call = put.call ∧ row.original = put.original) := by
  unfold CcrStore.afterPut
  have met := within.of_sublist (met_sublist s put)
  rcases put_cases env limits s put with
    ⟨e, refused | refused⟩ | ⟨-, -, conflict⟩ | ⟨row, others, -, existing, agree, reused⟩ |
      ⟨saved, -, none_, inserted, returned⟩
  · rw [refused]
    exact ⟨within, nofun⟩
  · rw [refused]
    exact ⟨within.of_sublist (sweep_sublist s put.sweepNow), nofun⟩
  · rw [conflict]
    exact ⟨met.of_sublist List.filter_sublist, nofun⟩
  · rw [reused]
    obtain ⟨length, bytes, kept⟩ := reuse_rows (s.met put) row (put.expiresAt limits)
    refine ⟨⟨bytes.trans_le met.1, length.trans_le met.2⟩, ?_⟩
    intro _ e returned
    cases returned
    have first : row ∈ (s.met put).rowsOf put.call := by simp [existing]
    obtain ⟨listed, ofCall⟩ := mem_rowsOf.mp first
    obtain ⟨there, inAfter, sameId, sameCall, sameText⟩ := kept row listed
    have content := (agree row first).2
    simp only [EntryRow.contentMatches, Bool.and_eq_true, beq_iff_eq] at content
    exact ⟨there, inAfter, sameId, sameCall.trans ofCall, sameText.trans content.1.2⟩
  · rw [returned]
    obtain ⟨survives, bytes, count⟩ := insertEvicting_saves inserted
    refine ⟨⟨bytes, count⟩, ?_⟩
    intro fits e returned
    cases returned
    have room := fits.resolve_left (not_not_intro none_)
    exact ⟨_, survives.mpr room, rfl, rfl, rfl⟩

theorem run_within {s : CcrStore} (within : s.Within limits) (puts : List PutCall) :
    (run (CcrStore.afterPut env limits) s puts).Within limits :=
  run_invariant (CcrStore.Within limits)
    (fun _ put inside _ => (afterPut_saves env limits inside put).1) within (obeys_true s puts)

/-- **A saved original is there.**  In every run of puts on a new store, with any contents and
clock readings, in which every call fits when it is made: a call that returns an entry has
left its original in the store, and the store is within its limits. -/
theorem put_saves (puts earlier later : List PutCall) (put : PutCall)
    (fit : Obeys (CcrStore.afterPut env limits) (fun s put => put.Fits limits s) .empty puts)
    (here : puts = earlier ++ put :: later) (e : CcrEntry)
    (returned : ((run (CcrStore.afterPut env limits) .empty earlier).putWithArtifact env limits
      put).1 = .ok e) :
    let after := run (CcrStore.afterPut env limits) .empty (earlier ++ [put])
    (∃ row ∈ after.entries.rows, row.id = e.id ∧ row.call = put.call ∧ row.original = put.original) ∧
      totalBytes after.entries.rows ≤ maxStoreBytes ∧ after.entries.rows.length ≤ limits.maxEntries := by
  intro after
  subst here
  have empty : CcrStore.empty.Within limits := ⟨Nat.zero_le _, Nat.zero_le _⟩
  obtain ⟨-, fits, -⟩ := obeys_append.mp fit
  have step := afterPut_saves env limits (run_within env limits empty earlier) put
  have same : after = (run (CcrStore.afterPut env limits) .empty earlier).afterPut env limits put :=
    run_append ..
  rw [same]
  exact ⟨step.2 fits e returned, step.1⟩

/-! ## A clock that steps back -/

def sampleEnv : Env where
  sha256Hex text := text

/-- `with_limits(1800, 1)`. -/
theorem sampleTtl_positive : (1 : Int) ≤ 1800 := by decide

theorem oneEntry_positive : 1 ≤ 1 := Nat.le_refl 1

def oneEntry : Limits where
  ttlSeconds := 1800
  maxEntries := 1
  ttlPositive := sampleTtl_positive
  entriesPositive := oneEntry_positive

def sampleScope : CcrScope where
  tenantId := ['t']
  agentId := ['a']
  sessionId := ['s']
  sourceAcl := ['u']

/-- A `put` of the call `name` at the given second. -/
def samplePut (name : Char) (now : Int) : PutCall where
  call := ⟨sampleScope, ['m'], [name]⟩
  original := [name]
  artifact := none
  retentionAt := none
  id := [name]
  sweepNow := now
  now := now

/-- With a clock that goes on, the second call evicts the first and is saved. -/
theorem put_saves_second : ∃ row ∈ (run (CcrStore.afterPut sampleEnv oneEntry) .empty
        [samplePut 'x' 100, samplePut 'y' 101]).entries.rows,
      row.id = ['y'] ∧ row.original = ['y'] := by
  obtain ⟨⟨row, listed, sameId, -, sameText⟩, -⟩ := put_saves sampleEnv oneEntry
    [samplePut 'x' 100, samplePut 'y' 101] [samplePut 'x' 100] [] (samplePut 'y' 101)
    ⟨.inr ⟨by decide, by decide⟩, .inr ⟨by decide, by decide⟩, trivial⟩ rfl _ rfl
  exact ⟨row, listed, sameId, sameText⟩

/-- **An original is lost when the clock steps back**: the second call returns its entry and
has deleted it, being older than the first by its stamp. -/
theorem put_lost_after_step_back : let first := CcrStore.empty.afterPut sampleEnv oneEntry (samplePut 'x' 100)
    let second := first.putWithArtifact sampleEnv oneEntry (samplePut 'y' 99)
    second.1 = .ok (((samplePut 'y' 99).newRow sampleEnv oneEntry).toEntry 1899) ∧
      ∀ row ∈ second.2.entries.rows, row.id ≠ ['y'] := by
  decide

end DuDuClaw.Ccr
