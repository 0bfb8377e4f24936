/-
# Lib.Table -- tables with a primary key

A table is a list of rows no two of which have the same key.  A row whose key is
taken is not inserted; a statement that deletes or updates rows keeps the keys
distinct.

* `nodup_map_concat`: a row with a new key keeps the keys distinct.
* `Table.unique`: a key names at most one row.
* `keep_ite`: an UPDATE of some rows keeps what it keeps in each of these.
* `find?_key`, `find?_update`: what a SELECT by key finds.
* `insert_cases`, `mem_put`, `mem_deleteWhere`, `mem_update`: the rows after each statement.
-/
import DuDuClaw.Lib.Chars
import Mathlib.Data.List.Nodup

namespace DuDuClaw.Lib

variable {ρ κ : Type}

theorem nodup_map_concat {key : ρ → κ} {rows : List ρ} {row : ρ} (distinct : (rows.map key).Nodup)
    (fresh : ∀ other ∈ rows, key other ≠ key row) : ((rows ++ [row]).map key).Nodup := by
  rw [List.map_append, List.map_singleton, List.nodup_append]
  refine ⟨distinct, List.nodup_singleton _, ?_⟩
  intro a before b this same
  obtain ⟨other, listed, rfl⟩ := List.mem_map.mp before
  exact fresh other listed (same.trans (List.mem_singleton.mp this))

/-- The row after `UPDATE .. WHERE`, in a column that is not set. -/
theorem keep_ite (column : ρ → κ) {selected : Prop} [Decidable selected] {row edited : ρ}
    (same : column edited = column row) : column (if selected then edited else row) = column row := by
  split
  · exact same
  · rfl

structure Table (key : ρ → κ) where
  rows : List ρ
  distinct : (rows.map key).Nodup

namespace Table

variable {key : ρ → κ}

def empty : Table key := ⟨[], List.nodup_nil⟩

theorem ext {t u : Table key} (same : t.rows = u.rows) : t = u := by
  cases t
  cases u
  cases same
  rfl

theorem unique (t : Table key) {a b : ρ} (left : a ∈ t.rows) (right : b ∈ t.rows)
    (same : key a = key b) : a = b := List.inj_on_of_nodup_map t.distinct left right same

/-- SELECT by a condition that holds of one key only. -/
theorem find?_keyed (t : Table key) {sel : ρ → Bool} {row : ρ} (listed : row ∈ t.rows)
    (holds : sel row) (keyed : ∀ other, sel other → key other = key row) : t.rows.find? sel = some row := by
  cases found : t.rows.find? sel with
  | none => exact absurd holds (List.find?_eq_none.mp found row listed)
  | some other =>
    rw [t.unique (List.mem_of_find?_eq_some found) listed (keyed other (List.find?_some found))]

theorem find?_key [BEq κ] [LawfulBEq κ] (t : Table key) {row : ρ} (listed : row ∈ t.rows) :
    t.rows.find? (fun other => key other == key row) = some row :=
  t.find?_keyed listed (beq_self_eq_true _) fun _ same => eq_of_beq same

/-- INSERT: `none` when the key is taken. -/
def insert [DecidableEq κ] (t : Table key) (row : ρ) : Option (Table key) :=
  if fresh : key row ∉ t.rows.map key then
    some
      { rows := t.rows ++ [row]
        distinct := by
          apply nodup_map_concat t.distinct
          intro other listed same
          exact fresh (same ▸ List.mem_map_of_mem listed) }
  else none

/-- DELETE of the selected rows. -/
def deleteWhere (t : Table key) (sel : ρ → Bool) : Table key where
  rows := t.rows.filter fun row => !sel row
  distinct := t.distinct.sublist (List.filter_sublist.map key)

/-- UPDATE of columns outside the key. -/
def update (t : Table key) (edit : ρ → ρ) (keeps : ∀ row, key (edit row) = key row) :
    Table key where
  rows := t.rows.map edit
  distinct := by
    rw [List.map_map, show key ∘ edit = key from funext keeps]
    exact t.distinct

def put [DecidableEq κ] (t : Table key) (row : ρ) : Table key where
  rows := (t.rows.filter fun other => key other ≠ key row) ++ [row]
  distinct := by
    apply nodup_map_concat (t.distinct.sublist (List.filter_sublist.map key))
    intro other listed
    simpa using (List.mem_filter.mp listed).2

theorem insert_fresh [DecidableEq κ] {t : Table key} {row : ρ}
    (fresh : ∀ other ∈ t.rows, key other ≠ key row) : ∃ t', t.insert row = some t' := by
  unfold insert
  have unknown : key row ∉ t.rows.map key := by
    intro known
    obtain ⟨other, listed, same⟩ := List.mem_map.mp known
    exact fresh other listed same
  exact ⟨_, dif_pos unknown⟩

theorem insert_cases [DecidableEq κ] {t t' : Table key} {row : ρ} (inserted : t.insert row = some t') :
    (∀ other ∈ t.rows, key other ≠ key row) ∧ t'.rows = t.rows ++ [row] := by
  unfold insert at inserted
  split at inserted
  · rename_i fresh
    cases inserted
    refine ⟨fun other listed same => fresh ?_, rfl⟩
    exact same ▸ List.mem_map_of_mem listed
  · cases inserted

@[simp] theorem mem_deleteWhere {t : Table key} {sel : ρ → Bool} {row : ρ} :
    row ∈ (t.deleteWhere sel).rows ↔ row ∈ t.rows ∧ sel row = false := by
  simp [deleteWhere]

@[simp] theorem mem_put [DecidableEq κ] {t : Table key} {row other : ρ} :
    other ∈ (t.put row).rows ↔ other ∈ t.rows ∧ key other ≠ key row ∨ other = row := by
  simp [put]

@[simp] theorem mem_update {t : Table key} {edit : ρ → ρ}
    {keeps : ∀ row, key (edit row) = key row} {row : ρ} :
    row ∈ (t.update edit keeps).rows ↔ ∃ old ∈ t.rows, edit old = row := by
  simp [update]

/-- SELECT by key after an UPDATE. -/
theorem find?_update [BEq κ] {t : Table key} {edit : ρ → ρ} {keeps : ∀ row, key (edit row) = key row}
    (k : κ) : (t.update edit keeps).rows.find? (fun row => key row == k) =
      (t.rows.find? fun row => key row == k).map edit := by
  have same : (fun row => key row == k) ∘ edit = fun row => key row == k :=
    funext fun row => congrArg (· == k) (keeps row)
  rw [update, List.find?_map, same]

end Table

end DuDuClaw.Lib
