/-
# Redaction.Needles -- the scan for a list of terms

`match_needles` (rules/keyword.rs) folds the text without moving a byte offset and looks for every
needle from left to right.  A needle with ASCII letters or digits at both ends counts only where
it stands as a word of its own.  The scan goes on behind an occurrence that does not count as it
does behind one that counts, and so passes by what begins inside it.

* `mem_matchNeedles`: the matches are the whole-word occurrences among the standing ones.
* `complete_iff`: which texts the scan goes through without passing by a word.
* `rejected_occurrence_hides_word`: one that it does not.
-/
import DuDuClaw.Lib.Ascii
import DuDuClaw.Lib.Chars
import DuDuClaw.Lib.Occurrences
import DuDuClaw.Redaction.Engine

namespace DuDuClaw.Redaction

open DuDuClaw.Lib

/-! ## Folding -/

/-- The tables of `char::to_lowercase`. -/
structure CaseTables where
  toLowercase : Char → List Char
  ascii : ∀ c, c.toNat < 128 → toLowercase c = [c.toLower]

variable (tables : CaseTables)

def foldChar (ch : Char) : Char :=
  match tables.toLowercase ch with
  | [lc] => if lc.utf8Size == ch.utf8Size then lc else ch
  | _ => ch

def lowercasePreservingByteOffsets (text : List Char) : List Char := text.map (foldChar tables)

/-- `hay`. -/
def haystack (text : List Char) (caseSensitive : Bool) : List Char :=
  if caseSensitive then text else lowercasePreservingByteOffsets tables text

theorem utf8Size_foldChar (ch : Char) : (foldChar tables ch).utf8Size = ch.utf8Size := by
  rw [foldChar]
  split
  · split_ifs with same
    · exact beq_iff_eq.mp same
    · rfl
  · rfl

@[simp] theorem length_haystack (text : List Char) (caseSensitive : Bool) :
    (haystack tables text caseSensitive).length = text.length := by
  rw [haystack]
  split_ifs
  · rfl
  · exact List.length_map _

theorem byteLength_take_haystack (text : List Char) (caseSensitive : Bool) (i : Nat) :
    byteLength ((haystack tables text caseSensitive).take i) = byteLength (text.take i) := by
  rw [haystack]
  split_ifs
  · rfl
  · have sizes : Char.utf8Size ∘ foldChar tables = Char.utf8Size := funext (utf8Size_foldChar tables)
    rw [lowercasePreservingByteOffsets, ← List.map_take, byteLength, List.map_map, sizes, byteLength]

/-! ## The scan -/

def useWordBoundary (needle : List Char) : Bool :=
  match needle.head?, needle.getLast? with
  | some first, some last => first.isAlphanum && last.isAlphanum
  | _, _ => false

def isWordByte (bytes : List UInt8) (idx : Nat) : Bool :=
  (bytes[idx]?).any fun b => isAlphanumericByte b || b == ascii '_'

/-- `is_word_byte(bytes, start.wrapping_sub(1))`: the index below 0 wraps to one that no text reaches. -/
def isWordByteBefore (bytes : List UInt8) : Nat → Bool
  | 0 => false
  | start + 1 => isWordByte bytes start

/-- `ok`, for an occurrence at the character `i`. -/
def wholeWord (hay needle : List Char) (i : Nat) : Bool :=
  let start := byteLength (hay.take i)
  !useWordBoundary needle ||
    (!isWordByteBefore (bytes hay) start && !isWordByte (bytes hay) (start + byteLength needle))

/-- The match of an occurrence; `none` is the panic of `text[start..end]`. -/
def matchAt (text hay needle : List Char) (i : Nat) : Option Match :=
  let start := byteLength (hay.take i)
  let stop := start + byteLength needle
  (slice (bytes text) start stop).map fun original => ⟨start, stop, original⟩

/-- The loop for one needle.  Each pass finds an occurrence further on, so there are not more than characters. -/
def matchNeedle (text hay needle : List Char) : Option (List Match) :=
  ((scanFrom needle hay (hay.length + 1) 0).filter (wholeWord hay needle)).mapM (matchAt text hay needle)

def matchNeedles (text : List Char) (needles : List (List Char)) (caseSensitive : Bool) : Option (List Match) :=
  (needles.mapM (matchNeedle text (haystack tables text caseSensitive))).map List.flatten

/-! ## Matches are slices of the text -/

theorem le_or (x y : UInt8) : y ≤ x ||| y := by
  rw [UInt8.le_iff_toNat_le, UInt8.toNat_or]
  exact Nat.right_le_or

theorem head_utf8EncodeChar (c : Char) :
    ∃ b rest, String.utf8EncodeChar c = b :: rest ∧ (b < 0x80 ∨ 0xC0 ≤ b) := by
  rcases c.utf8Size_eq with one | two | three | four
  · refine ⟨_, _, String.utf8EncodeChar_eq_singleton one, .inl ?_⟩
    exact UInt8.not_le.mp (ascii_low one)
  · exact ⟨_, _, String.utf8EncodeChar_eq_cons_cons two, .inr (le_or _ _)⟩
  · exact ⟨_, _, String.utf8EncodeChar_eq_cons_cons_cons three, .inr (Nat.le_trans (by decide) (le_or _ 0xe0))⟩
  · exact ⟨_, _, String.utf8EncodeChar_eq_cons_cons_cons_cons four, .inr (Nat.le_trans (by decide) (le_or _ 0xf0))⟩

theorem isCharBoundary_bytes (text : List Char) (i : Nat) :
    isCharBoundary (bytes text) (byteLength (text.take i)) = true := by
  have parts : bytes text = bytes (text.take i) ++ bytes (text.drop i) := by
    rw [← bytes_append, List.take_append_drop]
  rw [isCharBoundary, Bool.or_eq_true, Bool.or_eq_true, beq_iff_eq, beq_iff_eq]
  cases rest : text.drop i with
  | nil =>
    rw [rest, bytes_nil, List.append_nil] at parts
    exact .inl (.inr (by rw [parts, length_bytes]))
  | cons c rest' =>
    obtain ⟨b, more, encoded, starts⟩ := head_utf8EncodeChar c
    right
    rw [parts, rest, bytes_cons, encoded, ← length_bytes, List.cons_append,
      List.getElem?_append_right (Nat.le_refl _), Nat.sub_self, List.getElem?_cons_zero, Option.any_some,
      Bool.or_eq_true, decide_eq_true_eq, decide_eq_true_eq]
    exact starts

theorem continuation (x : UInt8) : ¬(x &&& 0x3f ||| 0x80 < 0x80 ∨ 0xC0 ≤ x &&& 0x3f ||| 0x80) := by
  have low : x.toNat &&& 63 < 2 ^ 6 := Nat.and_lt_two_pow _ (by decide)
  have sum : 128 + (x.toNat &&& 63) = 128 ||| x.toNat &&& 63 :=
    Nat.two_pow_add_eq_or_of_lt (i := 7) (show x.toNat &&& 63 < 2 ^ 7 by omega) 1
  simp only [UInt8.lt_iff_toNat_lt, UInt8.le_iff_toNat_le, UInt8.toNat_or, UInt8.toNat_and, UInt8.reduceToNat]
  rw [Nat.or_comm]
  omega

theorem tail_utf8EncodeChar {c : Char} {b start : UInt8} {rest : List UInt8}
    (encoded : String.utf8EncodeChar c = start :: rest) (listed : b ∈ rest) : ¬(b < 0x80 ∨ 0xC0 ≤ b) := by
  rcases c.utf8Size_eq with one | two | three | four
  · rw [String.utf8EncodeChar_eq_singleton one] at encoded
    simp [← (List.cons.inj encoded).2] at listed
  · rw [String.utf8EncodeChar_eq_cons_cons two] at encoded
    rw [← (List.cons.inj encoded).2, List.mem_singleton] at listed
    exact listed ▸ continuation _
  · rw [String.utf8EncodeChar_eq_cons_cons_cons three] at encoded
    simp only [← (List.cons.inj encoded).2, List.mem_cons, List.not_mem_nil, or_false] at listed
    rcases listed with rfl | rfl <;> exact continuation _
  · rw [String.utf8EncodeChar_eq_cons_cons_cons_cons four] at encoded
    simp only [← (List.cons.inj encoded).2, List.mem_cons, List.not_mem_nil, or_false] at listed
    rcases listed with rfl | rfl | rfl <;> exact continuation _

/-- Inside a character there is no boundary; behind it there are those of the rest. -/
theorem isCharBoundary_cons (c : Char) (text : List Char) (p : Nat) : isCharBoundary (bytes (c :: text)) p =
    if p < c.utf8Size then p == 0 else isCharBoundary (bytes text) (p - c.utf8Size) := by
  have size := String.length_utf8EncodeChar c
  have positive := c.utf8Size_pos
  split_ifs with inside
  · obtain ⟨start, rest, encoded, -⟩ := head_utf8EncodeChar c
    rw [isCharBoundary, bytes_cons, encoded]
    rw [encoded, List.length_cons] at size
    cases p with
    | zero => rfl
    | succ p =>
      have within : p < rest.length := by omega
      have here := tail_utf8EncodeChar encoded (List.getElem_mem within)
      rw [List.cons_append, List.getElem?_cons_succ, List.getElem?_append_left within, List.getElem?_eq_getElem within]
      have apart : p ≠ rest.length + (bytes text).length := by omega
      simp [← Bool.decide_or, here, apart]
  · obtain ⟨q, rfl⟩ := Nat.exists_eq_add_of_le (Nat.le_of_not_lt inside)
    rw [Nat.add_sub_cancel_left]
    cases q with
    | zero => simpa [byteLength, isCharBoundary] using isCharBoundary_bytes (c :: text) 1
    | succ q =>
      rw [isCharBoundary, isCharBoundary, bytes_cons, List.getElem?_append_right (by omega), List.length_append, size,
        Nat.add_sub_cancel_left]
      congr 2
      rw [Bool.eq_iff_iff]
      simp

/-- **The fold moves no boundary.** -/
theorem isCharBoundary_lowercase (text : List Char) (p : Nat) :
    isCharBoundary (bytes (lowercasePreservingByteOffsets tables text)) p = isCharBoundary (bytes text) p := by
  induction text generalizing p with
  | nil => rfl
  | cons c text ih =>
    rw [lowercasePreservingByteOffsets, List.map_cons, isCharBoundary_cons, isCharBoundary_cons, utf8Size_foldChar,
      ← lowercasePreservingByteOffsets, ih]

section Spans

variable {tables} {text needle : List Char} {needles : List (List Char)} {caseSensitive : Bool} {i j : Nat}

theorem offsets_of_occurs (occurs : OccursAt needle (haystack tables text caseSensitive) i) :
    byteLength ((haystack tables text caseSensitive).take i) = byteLength (text.take i) ∧
      byteLength (text.take i) + byteLength needle = byteLength (text.take (i + needle.length)) := by
  have start := byteLength_take_haystack tables text caseSensitive i
  have stop := byteLength_take_haystack tables text caseSensitive (i + needle.length)
  rw [occurs.take_add, byteLength_append, start] at stop
  exact ⟨start, stop⟩

def spanOf (text needle : List Char) (i : Nat) : Match :=
  let start := byteLength (text.take i)
  let stop := byteLength (text.take (i + needle.length))
  ⟨start, stop, ((bytes text).drop start).take (stop - start)⟩

theorem spanOf_valid (text needle : List Char) (i : Nat) : (spanOf text needle i).Valid (bytes text) where
  forward := byteLength_take_mono text (Nat.le_add_right _ _)
  inside := by
    rw [length_bytes]
    exact byteLength_le_of_sublist (List.take_sublist _ _)
  startBoundary := isCharBoundary_bytes text i
  stopBoundary := isCharBoundary_bytes text (i + needle.length)
  original := rfl

theorem matchAt_of_occurs (occurs : OccursAt needle (haystack tables text caseSensitive) i) :
    matchAt text (haystack tables text caseSensitive) needle i = some (spanOf text needle i) := by
  obtain ⟨start, stop⟩ := offsets_of_occurs occurs
  have valid := spanOf_valid text needle i
  rw [matchAt, start, stop, slice, if_pos]
  · rfl
  · simp only [Bool.and_eq_true, decide_eq_true_eq]
    exact ⟨⟨valid.forward, valid.startBoundary⟩, valid.stopBoundary⟩

theorem mapM_some {α β : Type} {f : α → Option β} {g : α → β} {l : List α} (all : ∀ a ∈ l, f a = some (g a)) :
    l.mapM f = some (l.map g) := by
  induction l with
  | nil => rfl
  | cons a l ih =>
    obtain ⟨first, all⟩ := List.forall_mem_cons.mp all
    rw [List.mapM_cons, first, ih all]
    rfl

def reported (text hay needle : List Char) : List Match :=
  ((scanFrom needle hay (hay.length + 1) 0).filter (wholeWord hay needle)).map (spanOf text needle)

theorem matchNeedle_eq : matchNeedle text (haystack tables text caseSensitive) needle =
      some (reported text (haystack tables text caseSensitive) needle) :=
  mapM_some fun _ found => matchAt_of_occurs (occurs_of_mem_scanFrom (List.mem_of_mem_filter found))

theorem matchNeedles_eq : matchNeedles tables text needles caseSensitive =
      some (needles.flatMap (reported text (haystack tables text caseSensitive))) := by
  rw [matchNeedles, mapM_some fun _ _ => matchNeedle_eq]
  rfl

theorem mem_reported {hay : List Char} (nonempty : needle ≠ []) {m : Match} : m ∈ reported text hay needle ↔
      ∃ i, Standing needle hay i ∧ wholeWord hay needle i = true ∧ m = spanOf text needle i := by
  simp only [reported, List.mem_map, List.mem_filter, mem_scanFrom_zero nonempty, and_assoc, eq_comm]

/-- **The matches**: the whole-word occurrences among the standing ones, as slices of the text. -/
theorem mem_matchNeedles (nonempty : ∀ needle ∈ needles, needle ≠ []) {found : List Match}
    (scanned : matchNeedles tables text needles caseSensitive = some found) {m : Match} :
    m ∈ found ↔ ∃ needle ∈ needles, ∃ i, Standing needle (haystack tables text caseSensitive) i ∧
      wholeWord (haystack tables text caseSensitive) needle i = true ∧ m = spanOf text needle i := by
  rw [matchNeedles_eq, Option.some.injEq] at scanned
  rw [← scanned, List.mem_flatMap]
  constructor
  · rintro ⟨needle, listed, inside⟩
    exact ⟨needle, listed, (mem_reported (nonempty needle listed)).mp inside⟩
  · rintro ⟨needle, listed, inside⟩
    exact ⟨needle, listed, (mem_reported (nonempty needle listed)).mpr inside⟩

theorem spanOf_original (text needle : List Char) (i : Nat) :
    (spanOf text needle i).original = bytes ((text.drop i).take needle.length) := by
  have parts : bytes text = bytes (text.take i) ++
      (bytes ((text.drop i).take needle.length) ++ bytes ((text.drop i).drop needle.length)) := by
    rw [← bytes_append, ← bytes_append, List.take_append_drop, List.take_append_drop]
  rw [spanOf, List.take_add, byteLength_append, Nat.add_sub_cancel_left, parts, ← length_bytes, List.drop_left,
    ← length_bytes, List.take_left]

theorem haystack_of_occurs (occurs : OccursAt needle (haystack tables text caseSensitive) i) :
    haystack tables ((text.drop i).take needle.length) caseSensitive = needle := by
  have here := (List.prefix_iff_eq_take.mp occurs).symm
  unfold haystack at here ⊢
  split_ifs at here ⊢
  · exact here
  · rwa [lowercasePreservingByteOffsets, List.map_take, List.map_drop]

end Spans

/-- **The fold keeps every offset**: the length in bytes and the character boundaries of a text.  What is
reported lies between boundaries of the text as it was, and folds to a needle. -/
theorem fold_aligns_spans (text : List Char) :
    byteLength (lowercasePreservingByteOffsets tables text) = byteLength text ∧
    (∀ p, isCharBoundary (bytes (lowercasePreservingByteOffsets tables text)) p = isCharBoundary (bytes text) p) ∧
    ∀ needles caseSensitive found, matchNeedles tables text needles caseSensitive = some found → ∀ m ∈ found,
      m.Valid (bytes text) ∧ ∃ needle ∈ needles, ∃ content, bytes content = m.original ∧
        haystack tables content caseSensitive = needle := by
  refine ⟨?_, isCharBoundary_lowercase tables text, fun needles caseSensitive found scanned m listed => ?_⟩
  · have whole := byteLength_take_haystack tables text false text.length
    rwa [List.take_of_length_le (length_haystack ..).le, List.take_length] at whole
  · rw [matchNeedles_eq, Option.some.injEq] at scanned
    rw [← scanned] at listed
    obtain ⟨needle, member, reported_⟩ := List.mem_flatMap.mp listed
    obtain ⟨i, inside, rfl⟩ := List.mem_map.mp reported_
    have occurs := occurs_of_mem_scanFrom (List.mem_of_mem_filter inside)
    exact ⟨spanOf_valid text needle i, needle, member, _, (spanOf_original text needle i).symm,
      haystack_of_occurs occurs⟩

/-! ## The keyword rule -/

/-- `KeywordRule`, what the scan needs of it. -/
structure KeywordRule where
  needles : List (List Char)
  caseSensitive : Bool
  nonempty : ∀ needle ∈ needles, needle ≠ []

variable (values : List (List Char))

def cleaned : List (List Char) := (values.map trim).filter (!·.isEmpty)

def compiledNeedles (caseSensitive : Bool) : List (List Char) :=
  if caseSensitive then cleaned values else (cleaned values).map (lowercasePreservingByteOffsets tables)

theorem compiledNeedles_nonempty (caseSensitive : Bool) :
    ∀ needle ∈ compiledNeedles tables values caseSensitive, needle ≠ [] := by
  have kept : ∀ value ∈ cleaned values, value ≠ [] := fun value listed => by
    have filled := List.of_mem_filter listed
    rwa [Bool.not_eq_true', List.isEmpty_eq_false_iff] at filled
  intro needle listed
  rw [compiledNeedles] at listed
  split_ifs at listed
  · exact kept needle listed
  · obtain ⟨value, member, rfl⟩ := List.mem_map.mp listed
    exact fun empty => kept value member (List.map_eq_nil_iff.mp empty)

/-- `compile`, of a keyword kind. -/
def KeywordRule.compile (caseSensitive : Bool) : Except (List Char) KeywordRule :=
  if (cleaned values).isEmpty then .error "keyword rule has no non-empty values".toList
  else
    .ok ⟨compiledNeedles tables values caseSensitive, caseSensitive,
      compiledNeedles_nonempty tables values caseSensitive⟩

def KeywordRule.matchText (rule : KeywordRule) (text : List Char) : Option (List Match) :=
  matchNeedles tables text rule.needles rule.caseSensitive

def KeywordRule.hay (rule : KeywordRule) (text : List Char) : List Char := haystack tables text rule.caseSensitive

/-! ## Which words are found -/

/-- Every whole-word occurrence of a needle overlaps a match. -/
def KeywordRule.Complete (rule : KeywordRule) (text : List Char) : Prop :=
  ∃ found, rule.matchText tables text = some found ∧
    ∀ needle ∈ rule.needles, ∀ i, OccursAt needle (rule.hay tables text) i →
      wholeWord (rule.hay tables text) needle i = true →
        ∃ m ∈ found, m.start < byteLength (text.take (i + needle.length)) ∧ byteLength (text.take i) < m.stop

/-- A whole-word occurrence that begins inside a standing one that is no word of its own. -/
structure PassedBy (hay needle : List Char) (i : Nat) : Prop where
  occurs : OccursAt needle hay i
  whole : wholeWord hay needle i = true
  inside : ∃ q, Standing needle hay q ∧ wholeWord hay needle q = false ∧ q < i ∧ i < q + needle.length

/-- A standing whole-word occurrence of some needle has a character in common with the one at `i`. -/
def Meets (hay : List Char) (needles : List (List Char)) (needle : List Char) (i : Nat) : Prop :=
  ∃ other ∈ needles, ∃ j, Standing other hay j ∧ wholeWord hay other j = true ∧
    j < i + needle.length ∧ i < j + other.length

section Words

variable {tables} {rule : KeywordRule} {text needle : List Char} {i : Nat}

theorem overlaps_iff_meets (listed : needle ∈ rule.needles) (occurs : OccursAt needle (rule.hay tables text) i)
    {found : List Match} (scanned : rule.matchText tables text = some found) :
    (∃ m ∈ found, m.start < byteLength (text.take (i + needle.length)) ∧ byteLength (text.take i) < m.stop) ↔
      Meets (rule.hay tables text) rule.needles needle i := by
  have members := fun m => mem_matchNeedles rule.nonempty scanned (m := m)
  have size : (rule.hay tables text).length = text.length := length_haystack ..
  have short := occurs.le_length (rule.nonempty needle listed)
  have same : ∀ other ∈ rule.needles, ∀ j, Standing other (rule.hay tables text) j →
      (((spanOf text other j).start < byteLength (text.take (i + needle.length)) ∧
        byteLength (text.take i) < (spanOf text other j).stop) ↔
          j < i + needle.length ∧ i < j + other.length) := fun other member j stands => by
    have short' := stands.occurs.le_length (rule.nonempty other member)
    exact and_congr (byteLength_take_lt (by omega) (by omega)) (byteLength_take_lt (by omega) (by omega))
  constructor
  · rintro ⟨m, listed', both⟩
    obtain ⟨other, member, j, stands, whole, rfl⟩ := (members m).mp listed'
    exact ⟨other, member, j, stands, whole, (same other member j stands).mp both⟩
  · rintro ⟨other, member, j, stands, whole, both⟩
    exact ⟨_, (members _).mpr ⟨other, member, j, stands, whole, rfl⟩, (same other member j stands).mpr both⟩

/-- A word that is not passed by stands, or begins inside a match of its needle. -/
theorem meets_of_not_passedBy (listed : needle ∈ rule.needles) (occurs : OccursAt needle (rule.hay tables text) i)
    (whole : wholeWord (rule.hay tables text) needle i = true) (kept : ¬PassedBy (rule.hay tables text) needle i) :
    Meets (rule.hay tables text) rule.needles needle i := by
  have positive := List.length_pos_iff.mpr (rule.nonempty needle listed)
  obtain ⟨q, before, inside, stands⟩ := exists_standing (rule.nonempty needle listed) occurs
  by_cases counts : wholeWord (rule.hay tables text) needle q = true
  · exact ⟨needle, listed, q, stands, counts, by omega, inside⟩
  refine absurd ⟨occurs, whole, q, stands, Bool.eq_false_iff.mpr counts, ?_, inside⟩ kept
  refine Nat.lt_of_le_of_ne before ?_
  rintro rfl
  exact counts whole

end Words

/-- **Which texts the rule goes through completely**: those in which every word it passes by meets a
standing word of some needle. -/
theorem keyword_complete_iff (rule : KeywordRule) (text : List Char) :
    rule.Complete tables text ↔ ∀ needle ∈ rule.needles, ∀ i, PassedBy (rule.hay tables text) needle i →
      Meets (rule.hay tables text) rule.needles needle i := by
  have scanned : rule.matchText tables text = some _ := matchNeedles_eq
  constructor
  · rintro ⟨found, same, complete⟩ needle listed i passed
    exact (overlaps_iff_meets listed passed.occurs same).mp (complete needle listed i passed.occurs passed.whole)
  · intro meets
    refine ⟨_, scanned, fun needle listed i occurs whole => (overlaps_iff_meets listed occurs scanned).mpr ?_⟩
    by_cases passed : PassedBy (rule.hay tables text) needle i
    · exact meets needle listed i passed
    · exact meets_of_not_passedBy listed occurs whole passed

def asciiTables : CaseTables where
  toLowercase c := [c.toLower]
  ascii _ _ := rfl

theorem fold_aligns_spans_upper : (⟨0, 1, [0x41]⟩ : Match).Valid (bytes ['A']) ∧ ∃ needle ∈ [['a']],
    ∃ content, bytes content = [0x41] ∧ haystack asciiTables content false = needle :=
  (fold_aligns_spans asciiTables ['A']).2.2 [['a']] false [⟨0, 1, [0x41]⟩] (by decide) _ (List.mem_singleton_self _)

/-- **A word is not found**: the occurrence before it ends in its first letter and follows an `x`. -/
theorem rejected_occurrence_hides_word :
    ∃ rule, KeywordRule.compile asciiTables [['a', ' ', 'a']] false = .ok rule ∧
      rule.matchText asciiTables ['x', 'a', ' ', 'a', ' ', 'a'] = some [] ∧
      ¬rule.Complete asciiTables ['x', 'a', ' ', 'a', ' ', 'a'] := by
  refine ⟨_, rfl, by decide, ?_⟩
  rintro ⟨found, scanned, complete⟩
  obtain ⟨m, listed, -⟩ := complete ['a', ' ', 'a'] (by decide) 3 (by decide) (by decide)
  have none_ : found = [] := by
    have empty : some found = some [] := scanned.symm.trans (by decide)
    exact Option.some.inj empty
  rw [none_] at listed
  exact List.not_mem_nil listed

end DuDuClaw.Redaction
