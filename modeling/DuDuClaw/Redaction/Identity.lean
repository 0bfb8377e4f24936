/-
# Redaction.Identity -- the display names of known people

The identity rule (rules/identity.rs) lowers each name with `str::to_lowercase` and gives the
names to the scan of keyword.rs, which folds the text with `lowercase_preserving_byte_offsets`.
The two agree on most names.  They differ on a character whose lowercase has another length, and
on a capital sigma at the end of a word.

* `wholeWord_lowercase`: where they agree, a word of the text is a word of the folded text.
* `names_covered_iff`: which texts have every name covered.
* `kelvin_name_uncovered`: a name that no match covers.
-/
import Mathlib.Data.List.Dedup
import DuDuClaw.Redaction.Needles

namespace DuDuClaw.Redaction

open DuDuClaw.Lib

/-! ## Names -/

/-- The tables of `str::to_lowercase`. -/
structure WordTables extends CaseTables where
  isCased : Char → Bool
  isCaseIgnorable : Char → Bool

variable (tables : WordTables)

def capitalSigma : Char := Char.ofNat 0x3A3

def caseIgnorableThenCased (s : List Char) : Bool :=
  (s.dropWhile tables.isCaseIgnorable).head?.any tables.isCased

/-- A capital sigma at the end of a word has a form of its own. -/
def lowercaseSigma (front back : List Char) : Char :=
  if caseIgnorableThenCased tables front.reverse && !caseIgnorableThenCased tables back then Char.ofNat 0x3C2
  else Char.ofNat 0x3C3

def toLowercaseFrom (front : List Char) : List Char → List Char
  | [] => []
  | c :: rest =>
    (if c = capitalSigma then [lowercaseSigma tables front rest] else tables.toLowercase c) ++
      toLowercaseFrom (front ++ [c]) rest

def toLowercase (s : List Char) : List Char := toLowercaseFrom tables [] s

/-- `scan_needles`, of the display names in the order of the directory.  Texts compare byte by byte. -/
def scanNeedles (roster : List (List Char)) : List (List Char) :=
  let names := (roster.map fun name => toLowercase tables (trim name)).filter (!·.isEmpty)
  (names.insertionSort fun a b => bytes a ≤ bytes b).dedup

/-- `match_text`, with the names of the last scan. -/
def identityMatches (needles : List (List Char)) (text : List Char) : Option (List Match) :=
  if needles.isEmpty then some [] else matchNeedles tables.toCaseTables text needles false

theorem mem_scanNeedles {roster : List (List Char)} {needle : List Char} : needle ∈ scanNeedles tables roster ↔
      (∃ name ∈ roster, toLowercase tables (trim name) = needle) ∧ needle ≠ [] := by
  rw [scanNeedles, List.mem_dedup, List.mem_insertionSort, List.mem_filter, List.mem_map, Bool.not_eq_true',
    List.isEmpty_eq_false_iff]

theorem scanNeedles_nonempty (roster : List (List Char)) : ∀ needle ∈ scanNeedles tables roster, needle ≠ [] :=
  fun _ listed => ((mem_scanNeedles tables).mp listed).2

theorem identityMatches_eq (needles : List (List Char)) (text : List Char) :
    identityMatches tables needles text = matchNeedles tables.toCaseTables text needles false := by
  rw [identityMatches]
  split_ifs with none_
  · rw [List.isEmpty_iff.mp none_]
    rfl
  · rfl

/-! ## Words of the folded text -/

section Folding

variable (tables : CaseTables)

theorem foldChar_narrow {c : Char} (narrow : c.utf8Size = 1) : foldChar tables c = c.toLower := by
  have lower : c.toLower.utf8Size = 1 := by
    rcases toLower_cases c with same | ⟨-, plain⟩
    · rw [same, narrow]
    · exact narrow_of_isAlphanum plain
  rw [foldChar, tables.ascii c (ascii_toNat narrow).2]
  simp only [lower, narrow, beq_self_eq_true, if_true]

theorem isAlphanum_foldChar (c : Char) : (foldChar tables c).isAlphanum = c.isAlphanum := by
  by_cases narrow : c.utf8Size = 1
  · rw [foldChar_narrow tables narrow]
    rcases toLower_cases c with same | ⟨plain, plain'⟩
    · rw [same]
    · rw [plain, plain']
  have size := utf8Size_foldChar tables c
  rw [Bool.eq_iff_iff]
  refine iff_of_false (fun plain => narrow ?_) fun plain => narrow (narrow_of_isAlphanum plain)
  rw [← size]
  exact narrow_of_isAlphanum plain

theorem useWordBoundary_lowercase (needle : List Char) :
    useWordBoundary (lowercasePreservingByteOffsets tables needle) = useWordBoundary needle := by
  rw [useWordBoundary, useWordBoundary, lowercasePreservingByteOffsets, List.head?_map, List.getLast?_map]
  cases needle.head? with
  | none => rfl
  | some first =>
    cases needle.getLast? with
    | none => rfl
    | some last =>
      show ((foldChar tables first).isAlphanum && (foldChar tables last).isAlphanum) = _
      rw [isAlphanum_foldChar, isAlphanum_foldChar]

/-- What `is_word_byte` asks of a byte. -/
def wordByte (b : UInt8) : Bool := isAlphanumericByte b || b == ascii '_'

theorem wordByte_ascii {c : Char} (narrow : c.utf8Size = 1) : wordByte (ascii c) = (c.isAlphanum || c == '_') := by
  have same : (ascii c == ascii '_') = (c == '_') := by
    rw [Bool.eq_iff_iff, beq_iff_eq, beq_iff_eq]
    exact ⟨ascii_inj narrow (by decide), fun eq => eq ▸ rfl⟩
  rw [wordByte, isAlphanumericByte_ascii narrow, same]

theorem wordByte_high {b : UInt8} (high : 0x80 ≤ b) : wordByte b = false := by
  have other : b ≠ ascii '_' := by
    rintro rfl
    revert high
    decide
  rw [wordByte, isAlphanumericByte_high high, Bool.false_or, beq_eq_false_iff_ne]
  exact other

theorem map_wordByte_wide {c : Char} (wide : c.utf8Size ≠ 1) :
    (String.utf8EncodeChar c).map wordByte = List.replicate c.utf8Size false := by
  refine List.eq_replicate_iff.mpr ⟨by rw [List.length_map, String.length_utf8EncodeChar], fun b listed => ?_⟩
  obtain ⟨byte, inside, rfl⟩ := List.mem_map.mp listed
  exact wordByte_high (high_of_wide wide inside)

theorem map_wordByte_lowercase (text : List Char) :
    (bytes (lowercasePreservingByteOffsets tables text)).map wordByte = (bytes text).map wordByte := by
  rw [lowercasePreservingByteOffsets]
  induction text with
  | nil => rfl
  | cons c text ih =>
    rw [List.map_cons, bytes_cons, bytes_cons, List.map_append, List.map_append, ih]
    refine congrArg (· ++ _) ?_
    have size := utf8Size_foldChar tables c
    by_cases narrow : c.utf8Size = 1
    · rw [String.utf8EncodeChar_eq_singleton narrow, String.utf8EncodeChar_eq_singleton (size.trans narrow)]
      show [wordByte (ascii (foldChar tables c))] = [wordByte (ascii c)]
      rw [wordByte_ascii (size.trans narrow), wordByte_ascii narrow, foldChar_narrow tables narrow]
      rcases toLower_cases c with same | ⟨plain, plain'⟩
      · rw [same]
      · rw [plain, plain', Bool.true_or, Bool.true_or]
    · rw [map_wordByte_wide narrow, map_wordByte_wide (size ▸ narrow), size]

theorem isWordByte_eq (bytes : List UInt8) (idx : Nat) :
    isWordByte bytes idx = ((bytes.map wordByte)[idx]?).any id := by
  rw [isWordByte, List.getElem?_map]
  cases bytes[idx]? <;> rfl

theorem isWordByte_lowercase (text : List Char) (idx : Nat) :
    isWordByte (bytes (lowercasePreservingByteOffsets tables text)) idx = isWordByte (bytes text) idx := by
  rw [isWordByte_eq, isWordByte_eq, map_wordByte_lowercase]

theorem wholeWord_lowercase (text shown : List Char) (i : Nat) :
    wholeWord (lowercasePreservingByteOffsets tables text) (lowercasePreservingByteOffsets tables shown) i =
      wholeWord text shown i := by
  have start : byteLength ((lowercasePreservingByteOffsets tables text).take i) = byteLength (text.take i) :=
    byteLength_take_haystack tables text false i
  have width : byteLength (lowercasePreservingByteOffsets tables shown) = byteLength shown := by
    have whole := byteLength_take_haystack tables shown false shown.length
    rw [← length_haystack tables shown false, List.take_length, length_haystack, List.take_length] at whole
    exact whole
  have before : isWordByteBefore (bytes (lowercasePreservingByteOffsets tables text)) (byteLength (text.take i)) =
      isWordByteBefore (bytes text) (byteLength (text.take i)) := by
    cases byteLength (text.take i) with
    | zero => rfl
    | succ start => exact isWordByte_lowercase tables text start
  rw [wholeWord, wholeWord, useWordBoundary_lowercase, start, width, before, isWordByte_lowercase]

end Folding

/-! ## Which names are covered -/

/-- Every whole word of the text that is the name of a person lies within a match. -/
def NamesCovered (roster : List (List Char)) (text : List Char) : Prop :=
  ∃ found, identityMatches tables (scanNeedles tables roster) text = some found ∧
    ∀ name ∈ roster, toLowercase tables (trim name) ≠ [] → ∀ i, OccursAt (trim name) text i →
      wholeWord text (trim name) i = true →
        ∃ m ∈ found, m.start ≤ byteLength (text.take i) ∧ byteLength (text.take (i + (trim name).length)) ≤ m.stop

/-- The scan finds the occurrence of the name itself: both foldings agree on the name, and no earlier
occurrence of the folded name reaches into it. -/
def FoundAsIs (shown text : List Char) (i : Nat) : Prop :=
  toLowercase tables shown = lowercasePreservingByteOffsets tables.toCaseTables shown ∧
    Standing (toLowercase tables shown) (lowercasePreservingByteOffsets tables.toCaseTables text) i

/-- The occurrence lies within a standing word that is some folded name. -/
def WithinAnother (roster : List (List Char)) (shown text : List Char) (i : Nat) : Prop :=
  ∃ other ∈ scanNeedles tables roster, ∃ j,
    Standing other (lowercasePreservingByteOffsets tables.toCaseTables text) j ∧
      wholeWord (lowercasePreservingByteOffsets tables.toCaseTables text) other j = true ∧
        j ≤ i ∧ i + shown.length ≤ j + other.length

section Covered

variable {tables} {roster : List (List Char)} {text shown : List Char} {i : Nat}

/-- Containment in bytes is containment in characters. -/
theorem covers_iff_withinAnother (positive : shown ≠ []) (occurs : OccursAt shown text i) {found : List Match}
    (scanned : identityMatches tables (scanNeedles tables roster) text = some found) :
    (∃ m ∈ found, m.start ≤ byteLength (text.take i) ∧ byteLength (text.take (i + shown.length)) ≤ m.stop) ↔
      WithinAnother tables roster shown text i := by
  rw [identityMatches_eq] at scanned
  have members := fun m => mem_matchNeedles (scanNeedles_nonempty tables roster) scanned (m := m)
  have size : (lowercasePreservingByteOffsets tables.toCaseTables text).length = text.length := List.length_map _
  have short := occurs.le_length positive
  have same : ∀ other ∈ scanNeedles tables roster, ∀ j,
      Standing other (lowercasePreservingByteOffsets tables.toCaseTables text) j →
      (((spanOf text other j).start ≤ byteLength (text.take i) ∧
        byteLength (text.take (i + shown.length)) ≤ (spanOf text other j).stop) ↔
          j ≤ i ∧ i + shown.length ≤ j + other.length) := fun other member j stands => by
    have short' := stands.occurs.le_length (scanNeedles_nonempty tables roster other member)
    have first := byteLength_take_lt (s := text) (i := i) (j := j) (by omega) (by omega)
    have second := byteLength_take_lt (s := text) (i := j + other.length) (j := i + shown.length)
      (by omega) (by omega)
    rw [spanOf]
    dsimp only
    omega
  constructor
  · rintro ⟨m, listed', both⟩
    obtain ⟨other, member, j, stands, whole, rfl⟩ := (members m).mp listed'
    exact ⟨other, member, j, stands, whole, (same other member j stands).mp both⟩
  · rintro ⟨other, member, j, stands, whole, both⟩
    exact ⟨_, (members _).mpr ⟨other, member, j, stands, whole, rfl⟩, (same other member j stands).mpr both⟩

theorem withinAnother_of_foundAsIs {name : List Char} (listed : name ∈ roster)
    (kept : toLowercase tables (trim name) ≠ []) (whole : wholeWord text (trim name) i = true)
    (found : FoundAsIs tables (trim name) text i) : WithinAnother tables roster (trim name) text i := by
  obtain ⟨agree, stands⟩ := found
  have length : (toLowercase tables (trim name)).length = (trim name).length := by
    rw [agree, lowercasePreservingByteOffsets, List.length_map]
  refine ⟨_, (mem_scanNeedles tables).mpr ⟨⟨name, listed, rfl⟩, kept⟩, i, stands, ?_, Nat.le_refl i, by omega⟩
  rw [agree, wholeWord_lowercase, whole]

end Covered

/-- **Which texts have every name covered**: those in which every word that is a name, on which the
foldings differ or into which an earlier occurrence reaches, lies within a standing word that is
some folded name. -/
theorem names_covered_iff (roster : List (List Char)) (text : List Char) : NamesCovered tables roster text ↔
      ∀ name ∈ roster, toLowercase tables (trim name) ≠ [] → ∀ i, OccursAt (trim name) text i →
        wholeWord text (trim name) i = true → ¬FoundAsIs tables (trim name) text i →
          WithinAnother tables roster (trim name) text i := by
  have scanned : identityMatches tables (scanNeedles tables roster) text = some _ :=
    (identityMatches_eq tables _ text).trans matchNeedles_eq
  have filled : ∀ name, toLowercase tables (trim name) ≠ [] → trim name ≠ [] := fun name kept empty => by
    rw [empty] at kept
    exact kept rfl
  constructor
  · rintro ⟨found, same, covered⟩ name listed kept i occurs whole -
    exact (covers_iff_withinAnother (filled name kept) occurs same).mp (covered name listed kept i occurs whole)
  · intro within
    refine ⟨_, scanned, fun name listed kept i occurs whole => ?_⟩
    refine (covers_iff_withinAnother (filled name kept) occurs scanned).mpr ?_
    by_cases found : FoundAsIs tables (trim name) text i
    · exact withinAnother_of_foundAsIs listed kept whole found
    · exact within name listed kept i occurs whole found

/-- The Kelvin sign, whose lowercase is the letter `k`. -/
def kelvin : Char := Char.ofNat 0x212A

theorem kelvinTables_ascii (c : Char) (narrow : c.toNat < 128) :
    (if c = kelvin then ['k'] else [c.toLower]) = [c.toLower] := by
  refine if_neg ?_
  rintro rfl
  exact absurd narrow (by decide)

def kelvinTables : WordTables where
  toLowercase c := if c = kelvin then ['k'] else [c.toLower]
  ascii := kelvinTables_ascii
  isCased c := c.isAlpha || c == kelvin
  isCaseIgnorable c := c == '\'' || c == '.'

/-- **A name is not found**: its needle is `k`, and the text keeps the Kelvin sign. -/
theorem kelvin_name_uncovered :
    identityMatches kelvinTables (scanNeedles kelvinTables [[kelvin]]) [kelvin] = some [] ∧
      ¬NamesCovered kelvinTables [[kelvin]] [kelvin] := by
  have nothing : identityMatches kelvinTables (scanNeedles kelvinTables [[kelvin]]) [kelvin] = some [] := by decide
  refine ⟨nothing, ?_⟩
  rintro ⟨found, scanned, covered⟩
  obtain ⟨m, listed, -⟩ := covered [kelvin] List.mem_cons_self (by decide) 0 (by decide) (by decide)
  rw [Option.some.inj (scanned.symm.trans nothing)] at listed
  exact List.not_mem_nil listed

end DuDuClaw.Redaction
