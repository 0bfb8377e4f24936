/-
# Lib.OrdMap -- ordered maps and sets as lists

A map is the list of its entries, a set the list of its members, both kept in the
order of `lt`.

* `mem_keys_insertWith`, `mem_setInsert`, `mem_toSet`: what an insertion adds.
-/
import Mathlib.Data.List.Basic

namespace DuDuClaw.Lib

variable {κ ν : Type} [DecidableEq κ] (lt : κ → κ → Bool)

/-- Adds an entry, or rewrites the one that is there. -/
def insertWith (rewrite : ν → ν) (key : κ) (fresh : ν) : List (κ × ν) → List (κ × ν)
  | [] => [(key, fresh)]
  | entry :: rest =>
    if entry.1 = key then (key, rewrite entry.2) :: rest
    else if lt key entry.1 then (key, fresh) :: entry :: rest
    else entry :: insertWith rewrite key fresh rest

theorem mem_keys_insertWith {rewrite : ν → ν} {key other : κ} {fresh : ν} {m : List (κ × ν)} :
    other ∈ (insertWith lt rewrite key fresh m).map Prod.fst ↔ other = key ∨ other ∈ m.map Prod.fst := by
  induction m with
  | nil => simp [insertWith]
  | cons entry rest ih =>
    simp only [insertWith]
    split
    · rename_i same
      simp [same]
    split
    · simp
    · rw [List.map_cons, List.mem_cons, ih, List.map_cons, List.mem_cons]
      exact or_left_comm

def setInsert (member : κ) : List κ → List κ
  | [] => [member]
  | first :: rest =>
    if first = member then first :: rest
    else if lt member first then member :: first :: rest
    else first :: setInsert member rest

def toSet (members : List κ) : List κ := members.foldr (setInsert lt) []

theorem mem_setInsert {member other : κ} {s : List κ} :
    other ∈ setInsert lt member s ↔ other = member ∨ other ∈ s := by
  induction s with
  | nil => simp [setInsert]
  | cons first rest ih =>
    simp only [setInsert]
    split
    · rename_i same
      simp [same]
    split
    · simp
    · rw [List.mem_cons, ih, List.mem_cons]
      exact or_left_comm

@[simp] theorem mem_toSet {members : List κ} {other : κ} : other ∈ toSet lt members ↔ other ∈ members := by
  induction members with
  | nil => simp [toSet]
  | cons first rest ih =>
    rw [toSet, List.foldr_cons, mem_setInsert, ← toSet, ih, List.mem_cons]

end DuDuClaw.Lib
