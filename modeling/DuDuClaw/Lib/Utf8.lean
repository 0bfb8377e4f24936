/-
# Lib.Utf8 -- byte offsets into a text

A text is a list of characters; the standard library counts its bytes in UTF-8 and stops
the program when a slice is out of range or cuts a character.

* `splitAtByte`: `(&s[..n], &s[n..])`, or `none` where that stops.
* `splitAtByte_eq_some_iff`: it succeeds exactly between two characters.
-/
import Mathlib.Algebra.GroupWithZero.Nat
import Mathlib.Data.List.Basic

namespace DuDuClaw.Lib

/-- `s.len()`. -/
def byteLength (s : List Char) : Nat := (s.map Char.utf8Size).sum

@[simp] theorem byteLength_nil : byteLength [] = 0 := rfl

@[simp] theorem byteLength_cons (c : Char) (s : List Char) :
    byteLength (c :: s) = c.utf8Size + byteLength s := rfl

@[simp] theorem byteLength_append (s t : List Char) : byteLength (s ++ t) = byteLength s + byteLength t := by
  simp [byteLength]

theorem byteLength_le_of_sublist {s t : List Char} (part : s.Sublist t) : byteLength s ≤ byteLength t := by
  induction part with
  | slnil => exact Nat.le_refl _
  | cons c _ ih => exact Nat.le_trans ih (Nat.le_add_left _ _)
  | cons_cons c _ ih => exact Nat.add_le_add_left ih _

theorem byteLength_take_mono (s : List Char) {i j : Nat} (le : i ≤ j) :
    byteLength (s.take i) ≤ byteLength (s.take j) :=
  byteLength_le_of_sublist (List.take_sublist_take_left le)

/-- Offsets in bytes are in the order of the offsets in characters. -/
theorem byteLength_take_lt {s : List Char} {i j : Nat} (inside : i ≤ s.length) (inside' : j ≤ s.length) :
    byteLength (s.take i) < byteLength (s.take j) ↔ i < j := by
  constructor
  · intro less
    by_contra ge
    have back := byteLength_take_mono s (Nat.le_of_not_lt ge)
    omega
  · intro less
    have size := s[i].utf8Size_pos
    have step := byteLength_take_mono s (show i + 1 ≤ j from less)
    rw [List.take_add_one, List.getElem?_eq_getElem (by omega), byteLength_append] at step
    simp only [Option.toList_some, byteLength_cons, byteLength_nil] at step
    omega

/-- `s.as_bytes()`. -/
def bytes (s : List Char) : List UInt8 := s.flatMap String.utf8EncodeChar

theorem length_bytes (s : List Char) : (bytes s).length = byteLength s := by
  simp [bytes, byteLength, List.length_flatMap]

/-- `&s[..n]` and `&s[n..]`. -/
def splitAtByte : Nat → List Char → Option (List Char × List Char)
  | 0, s => some ([], s)
  | _ + 1, [] => none
  | n + 1, c :: rest =>
    if c.utf8Size ≤ n + 1 then
      (splitAtByte (n + 1 - c.utf8Size) rest).map fun parts => (c :: parts.1, parts.2)
    else none
termination_by structural _ s => s

/-- A slice succeeds exactly between two characters. -/
theorem splitAtByte_eq_some_iff {n : Nat} {s front back : List Char} :
    splitAtByte n s = some (front, back) ↔ s = front ++ back ∧ byteLength front = n := by
  induction s generalizing n front with
  | nil =>
    cases n with
    | zero =>
      simp only [splitAtByte, Option.some.injEq, Prod.mk.injEq]
      constructor
      · rintro ⟨rfl, rfl⟩
        exact ⟨rfl, rfl⟩
      · rintro ⟨whole, -⟩
        obtain ⟨rfl, rfl⟩ := List.append_eq_nil_iff.mp whole.symm
        exact ⟨rfl, rfl⟩
    | succ n =>
      simp only [splitAtByte, reduceCtorEq, false_iff]
      rintro ⟨whole, bytes⟩
      obtain ⟨rfl, rfl⟩ := List.append_eq_nil_iff.mp whole.symm
      cases bytes
  | cons c rest ih =>
    have size := c.utf8Size_pos
    cases n with
    | zero =>
      simp only [splitAtByte, Option.some.injEq, Prod.mk.injEq]
      constructor
      · rintro ⟨rfl, rfl⟩
        exact ⟨rfl, rfl⟩
      · rintro ⟨whole, bytes⟩
        cases front with
        | nil => exact ⟨rfl, whole⟩
        | cons d front =>
          have positive := d.utf8Size_pos
          rw [byteLength_cons] at bytes
          omega
    | succ n =>
      rw [splitAtByte]
      cases front with
      | nil =>
        rw [byteLength_nil]
        constructor
        · intro split
          split at split
          · obtain ⟨parts, -, same⟩ := Option.map_eq_some_iff.mp split
            cases same
          · cases split
        · rintro ⟨-, bytes⟩
          cases bytes
      | cons d front =>
        rw [byteLength_cons]
        constructor
        · intro split
          split at split
          · obtain ⟨parts, found, same⟩ := Option.map_eq_some_iff.mp split
            cases same
            obtain ⟨rfl, bytes⟩ := ih.mp found
            exact ⟨rfl, by omega⟩
          · cases split
        · rintro ⟨whole, bytes⟩
          cases whole
          rw [if_pos (by omega), ih.mpr ⟨rfl, by omega⟩]
          rfl

theorem splitAtByte_append (front back : List Char) :
    splitAtByte (byteLength front) (front ++ back) = some (front, back) :=
  splitAtByte_eq_some_iff.mpr ⟨rfl, rfl⟩

end DuDuClaw.Lib
