/-
# Lib.Ascii -- the ASCII bytes of a text in UTF-8

A program that walks over the bytes of a text and compares them with ASCII characters only sees
whole characters: a character outside of ASCII has bytes from 0x80 on only.

* `mem_bytes_ascii`: an ASCII byte occurs where its character does.
* `head?_bytes_ascii`: the first byte is an ASCII character exactly when the first character is.
* `findIdx?_bytes`: the first place of an ASCII byte is that of its character.
* `takeWhile_bytes`: the bytes of a class of ASCII characters at the front.
-/
import DuDuClaw.Lib.Utf8

namespace DuDuClaw.Lib

/-- `b'c'`. -/
def ascii (c : Char) : UInt8 := c.val.toUInt8

/-- `is_ascii_alphanumeric` of a byte. -/
def isAlphanumericByte (b : UInt8) : Bool :=
  (ascii '0' ≤ b && b ≤ ascii '9') || (ascii 'A' ≤ b && b ≤ ascii 'Z') || (ascii 'a' ≤ b && b ≤ ascii 'z')

variable {c a : Char} {s : List Char}

variable {b : UInt8} {p : UInt8 → Bool} {q : Char → Bool}

@[simp] theorem bytes_nil : bytes [] = [] := rfl

theorem bytes_cons (c : Char) (s : List Char) : bytes (c :: s) = String.utf8EncodeChar c ++ bytes s := rfl

@[simp] theorem bytes_append (s t : List Char) : bytes (s ++ t) = bytes s ++ bytes t := by
  simp [bytes]

theorem bytes_cons_ascii (narrow : c.utf8Size = 1) (s : List Char) : bytes (c :: s) = ascii c :: bytes s := by
  rw [bytes_cons, String.utf8EncodeChar_eq_singleton narrow]
  rfl

theorem bytes_eq_nil : bytes s = [] ↔ s = [] := by
  cases s with
  | nil => exact iff_of_true rfl rfl
  | cons c s => simp [bytes_cons]

theorem ascii_toNat (narrow : c.utf8Size = 1) : (ascii c).toNat = c.toNat ∧ c.toNat < 128 := by
  have small := Char.utf8Size_eq_one_iff.mp narrow
  rw [UInt32.le_iff_toNat_le] at small
  have bound : (127 : UInt32).toNat = 127 := rfl
  have same : c.toNat = c.val.toNat := rfl
  rw [ascii, UInt32.toNat_toUInt8, same]
  omega

theorem length_le_byteLength (s : List Char) : s.length ≤ byteLength s := by
  induction s with
  | nil => exact Nat.le_refl 0
  | cons c s ih =>
    have positive := c.utf8Size_pos
    rw [List.length_cons, byteLength_cons]
    omega

theorem wide_toNat (wide : c.utf8Size ≠ 1) : 128 ≤ c.toNat := by
  by_contra small
  refine wide (Char.utf8Size_eq_one_iff.mpr (UInt32.le_iff_toNat_le.mpr ?_))
  have val : c.toNat = c.val.toNat := rfl
  have bound : (127 : UInt32).toNat = 127 := rfl
  omega

theorem byteLength_ascii (narrow : ∀ c ∈ s, c.toNat < 128) : byteLength s = s.length := by
  induction s with
  | nil => rfl
  | cons c s ih =>
    have one : c.utf8Size = 1 := by
      by_contra wide
      exact absurd (wide_toNat wide) (Nat.not_le.mpr (narrow c List.mem_cons_self))
    rw [byteLength_cons, one, ih fun d listed => narrow d (List.mem_cons_of_mem _ listed), List.length_cons,
      Nat.add_comm]

theorem ascii_inj (narrow : a.utf8Size = 1) (narrow' : c.utf8Size = 1) (same : ascii a = ascii c) : a = c := by
  have left := (ascii_toNat narrow).1
  have right := (ascii_toNat narrow').1
  rw [same] at left
  exact Char.ext (UInt32.toNat_inj.mp (left.symm.trans right))

theorem high_or {d : UInt8} (high : 0x80 ≤ d) : 0x80 ≤ b ||| d := by
  rw [UInt8.le_iff_toNat_le] at high ⊢
  rw [UInt8.toNat_or]
  exact Nat.le_trans high Nat.right_le_or

/-- The bytes of a character outside of ASCII. -/
theorem high_of_wide (wide : c.utf8Size ≠ 1) (listed : b ∈ String.utf8EncodeChar c) : 0x80 ≤ b := by
  rcases c.utf8Size_eq with one | two | three | four
  · exact absurd one wide
  · rw [String.utf8EncodeChar_eq_cons_cons two] at listed
    simp only [List.mem_cons, List.not_mem_nil, or_false] at listed
    rcases listed with rfl | rfl
    · exact high_or (by decide)
    · exact high_or (by decide)
  · rw [String.utf8EncodeChar_eq_cons_cons_cons three] at listed
    simp only [List.mem_cons, List.not_mem_nil, or_false] at listed
    rcases listed with rfl | rfl | rfl
    · exact high_or (by decide)
    · exact high_or (by decide)
    · exact high_or (by decide)
  · rw [String.utf8EncodeChar_eq_cons_cons_cons_cons four] at listed
    simp only [List.mem_cons, List.not_mem_nil, or_false] at listed
    rcases listed with rfl | rfl | rfl | rfl
    · exact high_or (by decide)
    · exact high_or (by decide)
    · exact high_or (by decide)
    · exact high_or (by decide)

theorem ascii_low (narrow : c.utf8Size = 1) : ¬0x80 ≤ ascii c := by
  have small := ascii_toNat narrow
  rw [UInt8.le_iff_toNat_le, small.1]
  exact Nat.not_le.mpr small.2

theorem ascii_not_mem_wide (narrow : a.utf8Size = 1) (wide : c.utf8Size ≠ 1) :
    ascii a ∉ String.utf8EncodeChar c :=
  fun listed => ascii_low narrow (high_of_wide wide listed)

theorem mem_bytes_ascii (narrow : a.utf8Size = 1) : ascii a ∈ bytes s ↔ a ∈ s := by
  induction s with
  | nil => simp
  | cons c s ih =>
    rw [bytes_cons, List.mem_append, List.mem_cons, ih]
    refine or_congr_left ?_
    by_cases one : c.utf8Size = 1
    · rw [String.utf8EncodeChar_eq_singleton one, List.mem_singleton]
      exact ⟨fun same => ascii_inj narrow one same, fun same => same ▸ rfl⟩
    · refine iff_of_false (ascii_not_mem_wide narrow one) ?_
      rintro rfl
      exact one narrow

/-- The first byte is an ASCII character exactly when the first character is. -/
theorem head?_bytes_ascii (narrow : a.utf8Size = 1) : (bytes s).head? = some (ascii a) ↔ s.head? = some a := by
  cases s with
  | nil => simp
  | cons c s =>
    by_cases one : c.utf8Size = 1
    · rw [bytes_cons_ascii one, List.head?_cons, List.head?_cons, Option.some.injEq, Option.some.injEq]
      exact ⟨fun same => ascii_inj one narrow same, fun same => same ▸ rfl⟩
    refine iff_of_false (fun first => ?_) (fun first => ?_)
    · rw [bytes_cons, List.head?_append_of_ne_nil _ String.utf8EncodeChar_ne_nil] at first
      exact ascii_not_mem_wide narrow one (List.mem_of_head? first)
    · rw [List.head?_cons, Option.some.injEq] at first
      exact one (first ▸ narrow)

/-- The first place of an ASCII byte is that of its character. -/
theorem findIdx?_bytes (narrow : a.utf8Size = 1) {front : List Char} (free : a ∉ front)
    (back : List Char) : (bytes (front ++ a :: back)).findIdx? (· == ascii a) = some (byteLength front) := by
  have none_ : (bytes front).findIdx? (· == ascii a) = none := by
    rw [List.findIdx?_eq_none_iff]
    intro b listed
    rw [beq_eq_false_iff_ne]
    rintro rfl
    exact free ((mem_bytes_ascii narrow).mp listed)
  rw [bytes_append, bytes_cons_ascii narrow, List.findIdx?_append, none_, List.findIdx?_cons, beq_self_eq_true,
    length_bytes]
  simp

theorem findIdx?_bytes_none (narrow : a.utf8Size = 1) (free : a ∉ s) :
    (bytes s).findIdx? (· == ascii a) = none := by
  rw [List.findIdx?_eq_none_iff]
  intro b listed
  rw [beq_eq_false_iff_ne]
  rintro rfl
  exact free ((mem_bytes_ascii narrow).mp listed)

theorem bytes_eq_singleton (narrow : a.utf8Size = 1) : bytes s = [ascii a] ↔ s = [a] := by
  constructor
  · intro single
    have first : (bytes s).head? = some (ascii a) := single ▸ rfl
    obtain ⟨rest, rfl⟩ := List.head?_eq_some_iff.mp ((head?_bytes_ascii narrow).mp first)
    rw [bytes_cons_ascii narrow, List.cons.injEq, bytes_eq_nil] at single
    rw [single.2]
  · rintro rfl
    exact bytes_cons_ascii narrow []

theorem all_bytes (narrow : ∀ c, c.utf8Size = 1 → p (ascii c) = q c)
    (wide : ∀ c, c.utf8Size ≠ 1 → q c = false) (high : ∀ b, 0x80 ≤ b → p b = false) (s : List Char) :
    (bytes s).all p = s.all q := by
  induction s with
  | nil => rfl
  | cons c s ih =>
    by_cases one : c.utf8Size = 1
    · rw [bytes_cons_ascii one, List.all_cons, List.all_cons, narrow c one, ih]
    rw [List.all_cons, wide c one, bytes_cons]
    cases encoded : String.utf8EncodeChar c with
    | nil => exact absurd encoded String.utf8EncodeChar_ne_nil
    | cons b rest =>
      have first := high_of_wide one (encoded ▸ List.mem_cons_self)
      rw [List.cons_append, List.all_cons, high b first]
      rfl

theorem takeWhile_bytes (narrow : ∀ c, c.utf8Size = 1 → p (ascii c) = q c)
    (wide : ∀ c, c.utf8Size ≠ 1 → q c = false) (high : ∀ b, 0x80 ≤ b → p b = false) (s : List Char) :
    (bytes s).takeWhile p = bytes (s.takeWhile q) := by
  induction s with
  | nil => rfl
  | cons c s ih =>
    by_cases one : c.utf8Size = 1
    · rw [bytes_cons_ascii one, List.takeWhile_cons, List.takeWhile_cons, narrow c one]
      split
      · rw [ih, bytes_cons_ascii one]
      · rfl
    rw [List.takeWhile_cons, wide c one, bytes_cons]
    cases encoded : String.utf8EncodeChar c with
    | nil => exact absurd encoded String.utf8EncodeChar_ne_nil
    | cons b rest =>
      have first := high_of_wide one (encoded ▸ List.mem_cons_self)
      rw [List.cons_append, List.takeWhile_cons, high b first]
      rfl

/-! ## Letters and digits -/

theorem isAlphanum_toLower (plain : c.isAlphanum = true) : c.toLower.isAlphanum = true := by
  unfold Char.toLower
  split_ifs with upper
  · have low := UInt32.le_iff_toNat_le.mp upper.1
    have high := UInt32.le_iff_toNat_le.mp upper.2
    have gap : ('a'.val - 'A'.val).toNat = 32 := rfl
    have first : 'A'.val.toNat = 65 := rfl
    have last : 'Z'.val.toNat = 90 := rfl
    have first' : 'a'.val.toNat = 97 := rfl
    have last' : 'z'.val.toNat = 122 := rfl
    have sum : (c.val + ('a'.val - 'A'.val)).toNat = c.val.toNat + 32 := by
      rw [UInt32.toNat_add, gap, Nat.mod_eq_of_lt (by omega)]
    have lower : 'a'.val ≤ c.val + ('a'.val - 'A'.val) ∧ c.val + ('a'.val - 'A'.val) ≤ 'z'.val := by
      rw [UInt32.le_iff_toNat_le, UInt32.le_iff_toNat_le, sum]
      omega
    unfold Char.isAlphanum Char.isAlpha Char.isLower
    simp only [Bool.or_eq_true, Bool.and_eq_true, decide_eq_true_eq]
    exact .inl (.inr lower)
  · exact plain

theorem toLower_cases (c : Char) : c.toLower = c ∨ (c.isAlphanum = true ∧ c.toLower.isAlphanum = true) := by
  by_cases upper : c.val ≥ 'A'.val ∧ c.val ≤ 'Z'.val
  · have plain : c.isAlphanum = true := by
      unfold Char.isAlphanum Char.isAlpha Char.isUpper
      simp only [Bool.or_eq_true, decide_eq_true_eq]
      exact .inl (.inl upper)
    exact .inr ⟨plain, isAlphanum_toLower plain⟩
  · left
    unfold Char.toLower
    rw [dif_neg upper]

theorem isAlphanum_iff : c.isAlphanum = true ↔
    (48 ≤ c.toNat ∧ c.toNat ≤ 57) ∨ (65 ≤ c.toNat ∧ c.toNat ≤ 90) ∨ (97 ≤ c.toNat ∧ c.toNat ≤ 122) := by
  have zero : '0'.val.toNat = 48 := rfl
  have nine : '9'.val.toNat = 57 := rfl
  have upperA : 'A'.val.toNat = 65 := rfl
  have upperZ : 'Z'.val.toNat = 90 := rfl
  have lowerA : 'a'.val.toNat = 97 := rfl
  have lowerZ : 'z'.val.toNat = 122 := rfl
  have same : c.toNat = c.val.toNat := rfl
  unfold Char.isAlphanum Char.isAlpha Char.isUpper Char.isLower Char.isDigit
  simp only [Bool.or_eq_true, Bool.and_eq_true, decide_eq_true_eq, ge_iff_le, UInt32.le_iff_toNat_le]
  omega

theorem isAlphanumericByte_ascii (narrow : c.utf8Size = 1) : isAlphanumericByte (ascii c) = c.isAlphanum := by
  have code := (ascii_toNat narrow).1
  have zero : (ascii '0').toNat = 48 := rfl
  have nine : (ascii '9').toNat = 57 := rfl
  have upperA : (ascii 'A').toNat = 65 := rfl
  have upperZ : (ascii 'Z').toNat = 90 := rfl
  have lowerA : (ascii 'a').toNat = 97 := rfl
  have lowerZ : (ascii 'z').toNat = 122 := rfl
  rw [Bool.eq_iff_iff, isAlphanum_iff]
  simp only [isAlphanumericByte, Bool.or_eq_true, Bool.and_eq_true, decide_eq_true_eq, UInt8.le_iff_toNat_le]
  omega

theorem narrow_of_isAlphanum (plain : c.isAlphanum = true) : c.utf8Size = 1 := by
  by_contra wide
  have high := wide_toNat wide
  have bounds := isAlphanum_iff.mp plain
  omega

theorem isAlphanumericByte_high (high : 0x80 ≤ b) : isAlphanumericByte b = false := by
  have bound : (0x80 : UInt8).toNat = 128 := rfl
  have nine : (ascii '9').toNat = 57 := rfl
  have upperZ : (ascii 'Z').toNat = 90 := rfl
  have lowerZ : (ascii 'z').toNat = 122 := rfl
  rw [UInt8.le_iff_toNat_le] at high
  simp only [isAlphanumericByte, Bool.or_eq_false_iff, Bool.and_eq_false_iff, decide_eq_false_iff_not,
    UInt8.le_iff_toNat_le]
  omega

end DuDuClaw.Lib
