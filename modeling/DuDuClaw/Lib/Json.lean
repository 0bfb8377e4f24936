/-
# Lib.Json -- canonical JSON text

JSON values over a type of numbers, and their text with object keys sorted at every level
and no whitespace.  Strings are escaped as JSON requires; how a number is written is left
open, but for its characters and its first one.

The text of a value is self-delimiting, so that equal texts have equal parts:

* `canonical_prefixFree`: a value's text is not a proper prefix of another's, unless
  the rest goes on with a character of numbers.
* `canonical_str`, `canonical_arr`, `canonical_obj`: equal texts of strings, arrays and
  objects have the same characters, the same item texts and the same field texts.
* `canonical_iff_same`: values have one text exactly when they are equal up to the order of
  fields, where numbers are printed apart.
-/
import Mathlib.Data.Char
import Mathlib.Data.List.Lex
import Mathlib.Data.List.Sort

namespace DuDuClaw.Lib

inductive JsonOf (ν : Type) where
  | null
  | bool (value : Bool)
  | num (value : ν)
  | str (value : List Char)
  | arr (items : List (JsonOf ν))
  | obj (fields : List (List Char × JsonOf ν))

abbrev Json := JsonOf Int

def isNumberChar (c : Char) : Bool :=
  c.isDigit || c == '-' || c == '+' || c == '.' || c == 'e' || c == 'E'

/-- How the numbers are written: in the characters of JSON numbers, a digit or a minus
sign first. -/
class NumberText (ν : Type) where
  text : ν → List Char
  chars : ∀ n, ∀ c ∈ text n, isNumberChar c
  lead : ∀ n, ∃ c rest, text n = c :: rest ∧ (c.isDigit = true ∨ c = '-')

namespace JsonOf

variable {ν : Type}

/-! ## Text -/

def hexDigit (n : Nat) : Char :=
  if n < 10 then Char.ofNat (48 + n) else Char.ofNat (87 + n)

/-- The escape of one character. -/
def escape (c : Char) : List Char :=
  if c = '"' then ['\\', '"']
  else if c = '\\' then ['\\', '\\']
  else if c = '\n' then ['\\', 'n']
  else if c = '\r' then ['\\', 'r']
  else if c = '\t' then ['\\', 't']
  else if c.toNat = 8 then ['\\', 'b']
  else if c.toNat = 12 then ['\\', 'f']
  else if c.toNat < 32 then
    ['\\', 'u', '0', '0', hexDigit (c.toNat / 16), hexDigit (c.toNat % 16)]
  else [c]

def quote (s : List Char) : List Char := '"' :: (s.flatMap escape ++ ['"'])

/-- The parts after the first, each behind its comma, and the closing bracket. -/
def joinTail (close : Char) : List (List Char) → List Char
  | [] => [close]
  | part :: more => ',' :: (part ++ joinTail close more)

/-- The parts joined by commas, and the closing bracket. -/
def joined (close : Char) : List (List Char) → List Char
  | [] => [close]
  | part :: more => part ++ joinTail close more

def fieldText (field : List Char × List Char) : List Char := quote field.1 ++ ':' :: field.2

mutual

def canonical [NumberText ν] : JsonOf ν → List Char
  | .null => ['n', 'u', 'l', 'l']
  | .bool true => ['t', 'r', 'u', 'e']
  | .bool false => ['f', 'a', 'l', 's', 'e']
  | .num n => NumberText.text n
  | .str s => quote s
  | .arr items => '[' :: joined ']' (canonicalItems items)
  | .obj fields =>
    '{' :: joined '}'
      (((canonicalFields fields).insertionSort fun a b => a.1 ≤ b.1).map fieldText)

def canonicalItems [NumberText ν] : List (JsonOf ν) → List (List Char)
  | [] => []
  | item :: more => canonical item :: canonicalItems more

def canonicalFields [NumberText ν] : List (List Char × JsonOf ν) → List (List Char × List Char)
  | [] => []
  | field :: more => (field.1, canonical field.2) :: canonicalFields more

end

theorem canonicalItems_eq [NumberText ν] (items : List (JsonOf ν)) : canonicalItems items = items.map canonical := by
  induction items with
  | nil => rfl
  | cons item more ih => simp [canonicalItems, ih]

theorem canonicalFields_eq [NumberText ν] (fields : List (List Char × JsonOf ν)) :
    canonicalFields fields = fields.map fun field => (field.1, canonical field.2) := by
  induction fields with
  | nil => rfl
  | cons field more ih => simp [canonicalFields, ih]

/-! ## Strings -/

def hexValue (c : Char) : Nat := if c.toNat < 87 then c.toNat - 48 else c.toNat - 87

/-- Reads one escaped character back. -/
def unescape : List Char → Option (Char × List Char)
  | '\\' :: 'n' :: rest => some ('\n', rest)
  | '\\' :: 'r' :: rest => some ('\r', rest)
  | '\\' :: 't' :: rest => some ('\t', rest)
  | '\\' :: 'b' :: rest => some (Char.ofNat 8, rest)
  | '\\' :: 'f' :: rest => some (Char.ofNat 12, rest)
  | '\\' :: 'u' :: '0' :: '0' :: high :: low :: rest =>
    some (Char.ofNat (16 * hexValue high + hexValue low), rest)
  | '\\' :: c :: rest => some (c, rest)
  | c :: rest => some (c, rest)
  | [] => none

theorem hexValue_hexDigit : ∀ n < 16, hexValue (hexDigit n) = n := by decide

theorem unescape_escape (c : Char) (rest : List Char) : unescape (escape c ++ rest) = some (c, rest) := by
  unfold escape
  split_ifs with isQuote isBackslash isNewline isReturn isTab isBackspace isFeed isControl
  · rw [isQuote]
    rfl
  · rw [isBackslash]
    rfl
  · rw [isNewline]
    rfl
  · rw [isReturn]
    rfl
  · rw [isTab]
    rfl
  · rw [← Char.ofNat_toNat c, isBackspace]
    rfl
  · rw [← Char.ofNat_toNat c, isFeed]
    rfl
  · have high := hexValue_hexDigit (c.toNat / 16) (by omega)
    have low := hexValue_hexDigit (c.toNat % 16) (by omega)
    have whole : 16 * (c.toNat / 16) + c.toNat % 16 = c.toNat := Nat.div_add_mod ..
    simp only [List.cons_append, List.nil_append, unescape, high, low, whole, Char.ofNat_toNat]
  · rw [List.singleton_append, unescape.eq_def]
    split <;> simp_all

theorem escape_append {c d : Char} {x y : List Char} (same : escape c ++ x = escape d ++ y) :
    c = d ∧ x = y := by
  have read := congrArg unescape same
  rw [unescape_escape, unescape_escape] at read
  exact Prod.mk.inj (Option.some.inj read)

theorem escape_head (c : Char) (x y : List Char) : escape c ++ x ≠ '"' :: y := by
  unfold escape
  split_ifs <;> simp_all

theorem quote_append {s t x y : List Char} (same : quote s ++ x = quote t ++ y) : s = t ∧ x = y := by
  simp only [quote, List.cons_append, List.append_assoc, List.cons.injEq, true_and] at same
  induction s generalizing t with
  | nil =>
    cases t with
    | nil => simpa using same
    | cons d t =>
      simp only [List.flatMap_nil, List.nil_append, List.flatMap_cons, List.append_assoc] at same
      exact absurd same.symm (escape_head d _ _)
  | cons c s ih =>
    cases t with
    | nil =>
      simp only [List.flatMap_nil, List.nil_append, List.flatMap_cons, List.append_assoc] at same
      exact absurd same (escape_head c _ _)
    | cons d t =>
      simp only [List.flatMap_cons, List.append_assoc] at same
      obtain ⟨rfl, rest⟩ := escape_append same
      obtain ⟨rfl, tails⟩ := ih rest
      exact ⟨rfl, tails⟩

/-! ## Numbers -/

/-- What follows a value does not go on with a character of numbers. -/
def Delimited (rest : List Char) : Prop := ∀ c ∈ rest.head?, isNumberChar c = false

theorem numberChars_append {ds es x y : List Char} (charsLeft : ∀ c ∈ ds, isNumberChar c)
    (charsRight : ∀ c ∈ es, isNumberChar c) (left : Delimited x) (right : Delimited y)
    (same : ds ++ x = es ++ y) : ds = es ∧ x = y := by
  induction ds generalizing es with
  | nil =>
    cases es with
    | nil => exact ⟨rfl, same⟩
    | cons e es =>
      rw [List.nil_append] at same
      have clash := left e (by simp [same])
      simp [charsRight e List.mem_cons_self] at clash
  | cons d ds ih =>
    cases es with
    | nil =>
      rw [List.nil_append] at same
      have clash := right d (by simp [← same])
      simp [charsLeft d List.mem_cons_self] at clash
    | cons e es =>
      rw [List.cons_append, List.cons_append, List.cons.injEq] at same
      obtain ⟨rfl, rest⟩ := same
      obtain ⟨rfl, tails⟩ := ih (fun c listed => charsLeft c (List.mem_cons_of_mem _ listed))
        (fun c listed => charsRight c (List.mem_cons_of_mem _ listed)) rest
      exact ⟨rfl, tails⟩

theorem toDigits_digits (n : Nat) : ∀ c ∈ Nat.toDigits 10 n, c.isDigit := fun _ listed =>
  Nat.isDigit_of_mem_toDigits (by decide) (by decide) listed

def numText : Int → List Char
  | .ofNat n => Nat.toDigits 10 n
  | .negSucc n => '-' :: Nat.toDigits 10 (n + 1)

theorem toDigits_lead (n : Nat) : ∃ c rest, Nat.toDigits 10 n = c :: rest ∧ (c.isDigit = true ∨ c = '-') := by
  obtain ⟨c, rest, shape⟩ := List.exists_cons_of_ne_nil (@Nat.toDigits_ne_nil n 10)
  refine ⟨c, rest, shape, .inl (toDigits_digits n c ?_)⟩
  rw [shape]
  exact List.mem_cons_self

instance : NumberText Int where
  text := numText
  chars n c listed := by
    cases n with
    | ofNat n => simp [isNumberChar, toDigits_digits n c listed]
    | negSucc n =>
      rcases List.mem_cons.mp listed with rfl | digit
      · decide
      · simp [isNumberChar, toDigits_digits _ c digit]
  lead n := by
    cases n with
    | ofNat n => exact toDigits_lead n
    | negSucc n => exact ⟨'-', _, rfl, .inr rfl⟩

/-! ## Lists of parts -/

/-- No part of one list is a proper prefix of a part of the other. -/
def Apart (left right : List (List Char)) : Prop :=
  ∀ p ∈ left, ∀ q ∈ right, ∀ x y, Delimited x → Delimited y → p ++ x = q ++ y → p = q ∧ x = y

theorem Apart.tail {p q : List Char} {left right : List (List Char)}
    (apart : Apart (p :: left) (q :: right)) : Apart left right := fun a inLeft b inRight =>
  apart a (List.mem_cons_of_mem _ inLeft) b (List.mem_cons_of_mem _ inRight)

variable {close : Char}

variable {left right : List (List Char)} {x y : List Char}

theorem joinTail_delimited (bracket : isNumberChar close = false) (parts : List (List Char))
    (rest : List Char) : Delimited (joinTail close parts ++ rest) := by
  intro c isHead
  cases parts with
  | nil =>
    simp only [joinTail, List.singleton_append, List.head?_cons, Option.mem_some_iff] at isHead
    exact isHead ▸ bracket
  | cons part more =>
    simp only [joinTail, List.cons_append, List.head?_cons, Option.mem_some_iff] at isHead
    exact isHead ▸ by decide

theorem joinTail_append (bracket : isNumberChar close = false) (notComma : close ≠ ',')
    (apart : Apart left right)
    (same : joinTail close left ++ x = joinTail close right ++ y) : left = right ∧ x = y := by
  induction left generalizing right with
  | nil =>
    cases right with
    | nil => simpa [joinTail] using same
    | cons q right =>
      simp only [joinTail, List.cons_append, List.cons.injEq] at same
      exact absurd same.1 notComma
  | cons p left ih =>
    cases right with
    | nil =>
      simp only [joinTail, List.cons_append, List.cons.injEq] at same
      exact absurd same.1.symm notComma
    | cons q right =>
      simp only [joinTail, List.cons_append, List.append_assoc, List.cons.injEq, true_and] at same
      obtain ⟨rfl, tails⟩ := apart p List.mem_cons_self q List.mem_cons_self _ _
        (joinTail_delimited bracket _ _) (joinTail_delimited bracket _ _) same
      obtain ⟨rfl, rests⟩ := ih apart.tail tails
      exact ⟨rfl, rests⟩

theorem joined_append (bracket : isNumberChar close = false) (notComma : close ≠ ',') (apart : Apart left right)
    (opensLeft : ∀ p ∈ left, ∀ x y, p ++ x ≠ close :: y) (opensRight : ∀ q ∈ right, ∀ x y, q ++ x ≠ close :: y)
    (same : joined close left ++ x = joined close right ++ y) : left = right ∧ x = y := by
  cases left with
  | nil =>
    cases right with
    | nil => simpa [joined] using same
    | cons q right =>
      simp only [joined, List.singleton_append, List.append_assoc] at same
      exact absurd same.symm (opensRight q List.mem_cons_self _ _)
  | cons p left =>
    cases right with
    | nil =>
      simp only [joined, List.singleton_append, List.append_assoc] at same
      exact absurd same (opensLeft p List.mem_cons_self _ _)
    | cons q right =>
      simp only [joined, List.append_assoc] at same
      obtain ⟨rfl, tails⟩ := apart p List.mem_cons_self q List.mem_cons_self _ _
        (joinTail_delimited bracket _ _) (joinTail_delimited bracket _ _) same
      obtain ⟨rfl, rests⟩ := joinTail_append bracket notComma apart.tail tails
      exact ⟨rfl, rests⟩

/-! ## Values -/

def tag : JsonOf ν → Nat
  | .null => 0
  | .bool _ => 1
  | .num _ => 2
  | .str _ => 3
  | .arr _ => 4
  | .obj _ => 5

/-- The constructor, from the first character of the text. -/
def leadTag (c : Char) : Nat :=
  if c = 'n' then 0 else if c = 't' ∨ c = 'f' then 1 else if c = '"' then 3
  else if c = '[' then 4 else if c = '{' then 5 else if c.isDigit ∨ c = '-' then 2 else 6

theorem leadTag_num {c : Char} (lead : c.isDigit = true ∨ c = '-') : leadTag c = 2 := by
  unfold leadTag
  rw [if_pos lead]
  split_ifs with isN isTF isQuote isArr isObj
  · subst isN
    exact absurd lead (by decide)
  · rcases isTF with rfl | rfl
    · exact absurd lead (by decide)
    · exact absurd lead (by decide)
  · subst isQuote
    exact absurd lead (by decide)
  · subst isArr
    exact absurd lead (by decide)
  · subst isObj
    exact absurd lead (by decide)
  · rfl

variable [NumberText ν]

variable {x y : List Char} {fields : List (List Char × JsonOf ν)}

theorem canonical_lead (j : JsonOf ν) : ∃ c rest, canonical j = c :: rest ∧ leadTag c = tag j := by
  cases j with
  | null | str s | arr items | obj fields => exact ⟨_, _, rfl, rfl⟩
  | bool b => cases b <;> exact ⟨_, _, rfl, rfl⟩
  | num n =>
    obtain ⟨c, rest, shape, lead⟩ := NumberText.lead n
    exact ⟨c, rest, shape, leadTag_num lead⟩

theorem tag_eq_of_append {j k : JsonOf ν} (same : canonical j ++ x = canonical k ++ y) : tag j = tag k := by
  obtain ⟨c, rest, shape, lead⟩ := canonical_lead j
  obtain ⟨d, rest', shape', lead'⟩ := canonical_lead k
  rw [shape, shape', List.cons_append, List.cons_append, List.cons.injEq] at same
  rw [← lead, ← lead', same.1]

/-- No value begins with a closing bracket. -/
theorem canonical_opens (j : JsonOf ν) (x y : List Char) : canonical j ++ x ≠ ']' :: y := by
  obtain ⟨c, rest, shape, lead⟩ := canonical_lead j
  rw [shape, List.cons_append]
  intro same
  rw [(List.cons.inj same).1] at lead
  have other : leadTag ']' = 6 := by decide
  cases j <;> exact absurd (other.symm.trans lead) nofun

/-- No text of a value goes on after `text`. -/
def PrefixFree (ν : Type) [NumberText ν] (text : List Char) : Prop :=
  ∀ (other : JsonOf ν) x y, Delimited x → Delimited y → text ++ x = canonical other ++ y →
    text = canonical other ∧ x = y

theorem arr_parts {items others : List (JsonOf ν)} (free : ∀ item ∈ items, PrefixFree ν (canonical item))
    (same : canonical (.arr items) ++ x = canonical (.arr others) ++ y) :
    items.map canonical = others.map canonical ∧ x = y := by
  simp only [canonical, List.cons_append, List.cons.injEq, true_and, canonicalItems_eq] at same
  have apart : Apart (items.map canonical) (others.map canonical) := by
    intro p inItems q inOthers
    obtain ⟨item, listed, rfl⟩ := List.mem_map.mp inItems
    obtain ⟨another, -, rfl⟩ := List.mem_map.mp inOthers
    exact free item listed another
  have opens : ∀ items : List (JsonOf ν), ∀ p ∈ items.map canonical, ∀ x y, p ++ x ≠ ']' :: y := by
    intro items p listed
    obtain ⟨item, -, rfl⟩ := List.mem_map.mp listed
    exact canonical_opens item
  exact joined_append (by decide) (by decide) apart (opens items) (opens others) same

theorem arr_prefixFree {items : List (JsonOf ν)} (free : ∀ item ∈ items, PrefixFree ν (canonical item)) :
    PrefixFree ν (canonical (.arr items)) := by
  intro other x y left right same
  have kind := tag_eq_of_append same
  cases other with
  | arr others =>
    obtain ⟨parts, rests⟩ := arr_parts free same
    simp only [canonical, canonicalItems_eq, parts, rests, and_self]
  | _ => cases kind

/-- The fields of an object in the order they are written. -/
def sortedFields (fields : List (List Char × JsonOf ν)) : List (List Char × List Char) :=
  (canonicalFields fields).insertionSort fun a b => a.1 ≤ b.1

theorem mem_sortedFields {key text : List Char} :
    (key, text) ∈ sortedFields fields ↔ ∃ value, (key, value) ∈ fields ∧ canonical value = text := by
  rw [sortedFields, List.mem_insertionSort, canonicalFields_eq]
  simp

theorem fieldText_append {a b : List Char × List Char}
    (same : fieldText a ++ x = fieldText b ++ y) : a.1 = b.1 ∧ a.2 ++ x = b.2 ++ y := by
  simp only [fieldText, List.append_assoc, List.cons_append] at same
  obtain ⟨keys, texts⟩ := quote_append same
  exact ⟨keys, (List.cons.inj texts).2⟩

theorem fieldText_injective : Function.Injective fieldText := by
  intro a b same
  have apart := fieldText_append (x := []) (y := []) (by simpa using same)
  exact Prod.ext apart.1 (by simpa using apart.2)

theorem obj_parts {others : List (List Char × JsonOf ν)}
    (free : ∀ field ∈ fields, PrefixFree ν (canonical field.2))
    (same : canonical (.obj fields) ++ x = canonical (.obj others) ++ y) :
    sortedFields fields = sortedFields others ∧ x = y := by
  simp only [canonical, List.cons_append, List.cons.injEq, true_and] at same
  have apart : Apart ((sortedFields fields).map fieldText) ((sortedFields others).map fieldText) := by
    intro p inFields q inOthers x y left right clash
    obtain ⟨⟨key, text⟩, listed, rfl⟩ := List.mem_map.mp inFields
    obtain ⟨⟨key', text'⟩, listed', rfl⟩ := List.mem_map.mp inOthers
    obtain ⟨value, isField, rfl⟩ := mem_sortedFields.mp listed
    obtain ⟨value', -, rfl⟩ := mem_sortedFields.mp listed'
    obtain ⟨keys, texts⟩ := fieldText_append clash
    obtain ⟨sameText, rests⟩ := free _ isField value' x y left right texts
    exact ⟨by simp only at keys sameText; rw [keys, sameText], rests⟩
  have opens : ∀ fields : List (List Char × JsonOf ν), ∀ p ∈ (sortedFields fields).map fieldText,
      ∀ x y, p ++ x ≠ '}' :: y := by
    intro fields p listed x y
    obtain ⟨field, -, rfl⟩ := List.mem_map.mp listed
    simp [fieldText, quote]
  obtain ⟨parts, rests⟩ :=
    joined_append (by decide) (by decide) apart (opens fields) (opens others) same
  exact ⟨List.map_injective_iff.mpr fieldText_injective parts, rests⟩

theorem obj_prefixFree
    (free : ∀ field ∈ fields, PrefixFree ν (canonical field.2)) : PrefixFree ν (canonical (.obj fields)) := by
  intro other x y left right same
  have kind := tag_eq_of_append same
  cases other with
  | obj others =>
    obtain ⟨parts, rests⟩ := obj_parts free same
    refine ⟨?_, rests⟩
    simp only [sortedFields] at parts
    simp only [canonical, parts]
  | _ => cases kind

mutual

/-- **Canonical texts are self-delimiting.** -/
theorem canonical_prefixFree : (j : JsonOf ν) → PrefixFree ν (canonical j)
  | .null => by
    intro other x y left right same
    have kind := tag_eq_of_append same
    cases other with
    | null => exact ⟨rfl, List.append_cancel_left same⟩
    | _ => cases kind
  | .bool b => by
    intro other x y left right same
    have kind := tag_eq_of_append same
    cases other with
    | bool c => cases b <;> cases c <;> simp_all [canonical]
    | _ => cases kind
  | .num n => by
    intro other x y left right same
    have kind := tag_eq_of_append same
    cases other with
    | num m =>
      exact numberChars_append (NumberText.chars n) (NumberText.chars m) left right same
    | _ => cases kind
  | .str s => by
    intro other x y left right same
    have kind := tag_eq_of_append same
    cases other with
    | str t =>
      obtain ⟨rfl, rests⟩ := quote_append same
      exact ⟨rfl, rests⟩
    | _ => cases kind
  | .arr items => arr_prefixFree (items_prefixFree items)
  | .obj fields => obj_prefixFree (fields_prefixFree fields)

theorem items_prefixFree : (items : List (JsonOf ν)) → ∀ item ∈ items, PrefixFree ν (canonical item)
  | [] => by simp
  | first :: more =>
    List.forall_mem_cons.mpr ⟨canonical_prefixFree first, items_prefixFree more⟩

theorem fields_prefixFree : (fields : List (List Char × JsonOf ν)) →
    ∀ field ∈ fields, PrefixFree ν (canonical field.2)
  | [] => by simp
  | (_, value) :: more =>
    List.forall_mem_cons.mpr ⟨canonical_prefixFree value, fields_prefixFree more⟩

end

/-! ## Equal texts have equal parts -/

theorem tag_eq {j k : JsonOf ν} (same : canonical j = canonical k) : tag j = tag k :=
  tag_eq_of_append (congrArg (· ++ []) same)

theorem canonical_str {s t : List Char}
    (same : (str s : JsonOf ν).canonical = (str t : JsonOf ν).canonical) : s = t := by
  have apart := @quote_append s t [] [] (by simpa [canonical] using same)
  exact apart.1

theorem canonical_arr {items others : List (JsonOf ν)}
    (same : canonical (.arr items) = canonical (.arr others)) : items.map canonical = others.map canonical :=
  (arr_parts (items_prefixFree items) (congrArg (· ++ []) same)).1

/-- Two objects of one text have the same text under a key that names one field. -/
theorem canonical_obj {others : List (List Char × JsonOf ν)}
    (same : canonical (.obj fields) = canonical (.obj others)) (key : List Char)
    {value other : JsonOf ν} (listed : (key, value) ∈ fields)
    (only : ∀ w, (key, w) ∈ others → w = other) : canonical value = canonical other := by
  have parts := (obj_parts (fields_prefixFree fields) (congrArg (· ++ []) same)).1
  have written : (key, canonical value) ∈ sortedFields fields :=
    mem_sortedFields.mpr ⟨value, listed, rfl⟩
  rw [parts] at written
  obtain ⟨w, inOthers, text⟩ := mem_sortedFields.mp written
  rw [← text, only w inOthers]

/-! ## Equality up to the order of fields -/

mutual

/-- No object in the value has two fields of one key. -/
def Distinct : JsonOf ν → Prop
  | .arr items => DistinctItems items
  | .obj fields => (fields.map Prod.fst).Nodup ∧ DistinctFields fields
  | _ => True

def DistinctItems : List (JsonOf ν) → Prop
  | [] => True
  | item :: more => Distinct item ∧ DistinctItems more

def DistinctFields : List (List Char × JsonOf ν) → Prop
  | [] => True
  | field :: more => Distinct field.2 ∧ DistinctFields more

end

mutual

/-- The values are equal up to the order of fields, at every depth. -/
def Same : JsonOf ν → JsonOf ν → Prop
  | .null, .null => True
  | .bool a, .bool b => a = b
  | .num m, .num n => m = n
  | .str s, .str t => s = t
  | .arr items, .arr others => SameItems items others
  | .obj fields, .obj others =>
    (∀ key, key ∈ others.map Prod.fst → key ∈ fields.map Prod.fst) ∧ SameFields fields others
  | _, _ => False

def SameItems : List (JsonOf ν) → List (JsonOf ν) → Prop
  | [], [] => True
  | item :: items, other :: others => Same item other ∧ SameItems items others
  | _, _ => False

/-- Every field has one of its key and the same value among the others. -/
def SameFields : List (List Char × JsonOf ν) → List (List Char × JsonOf ν) → Prop
  | [], _ => True
  | field :: more, others =>
    (∃ other, (field.1, other) ∈ others ∧ Same field.2 other) ∧ SameFields more others

end

variable {others : List (List Char × JsonOf ν)}

omit [NumberText ν] in
theorem distinctFields_iff : DistinctFields fields ↔ ∀ field ∈ fields, Distinct field.2 := by
  induction fields with
  | nil => simp [DistinctFields]
  | cons field more ih => simp [DistinctFields, ih]

theorem canonicalFields_keys (fields : List (List Char × JsonOf ν)) :
    (canonicalFields fields).map Prod.fst = fields.map Prod.fst := by
  rw [canonicalFields_eq, List.map_map]
  rfl

/-- With distinct keys the order in which the fields are written is that of the keys. -/
theorem sortedFields_congr (distinct : (fields.map Prod.fst).Nodup) (distinct' : (others.map Prod.fst).Nodup)
    (texts : ∀ key text, (key, text) ∈ canonicalFields fields ↔
      (key, text) ∈ canonicalFields others) : sortedFields fields = sortedFields others := by
  have nodup : ∀ {fields : List (List Char × JsonOf ν)}, (fields.map Prod.fst).Nodup →
      (canonicalFields fields).Nodup := by
    intro fields distinct
    rw [← canonicalFields_keys] at distinct
    exact List.Nodup.of_map _ distinct
  have perm : (canonicalFields fields).Perm (canonicalFields others) :=
    (List.perm_ext_iff_of_nodup (nodup distinct) (nodup distinct')).mpr fun field =>
      texts field.1 field.2
  have sorted : ∀ fields : List (List Char × JsonOf ν),
      (sortedFields fields).Pairwise fun a b => a.1 ≤ b.1 := by
    intro fields
    exact List.pairwise_insertionSort _ _
  have perms : (sortedFields fields).Perm (sortedFields others) :=
    ((List.perm_insertionSort _ _).trans perm).trans (List.perm_insertionSort _ _).symm
  refine List.Perm.eq_of_pairwise ?_ (sorted fields) (sorted others) perms
  intro a b inFields inOthers below above
  -- one key names one field
  have keys : a.1 = b.1 := le_antisymm below above
  rw [← canonicalFields_keys] at distinct'
  have here : a ∈ canonicalFields others :=
    perm.mem_iff.mp ((List.mem_insertionSort _).mp inFields)
  exact List.inj_on_of_nodup_map distinct' here ((List.mem_insertionSort _).mp inOthers) keys

theorem canonical_obj_iff (distinct : (fields.map Prod.fst).Nodup) (distinct' : (others.map Prod.fst).Nodup) :
    (obj fields).canonical = (obj others).canonical ↔
      (∀ key, key ∈ others.map Prod.fst → key ∈ fields.map Prod.fst) ∧
      ∀ field ∈ fields, ∃ other, (field.1, other) ∈ others ∧ canonical field.2 = canonical other := by
  constructor
  · intro same
    have parts := (obj_parts (fields_prefixFree fields) (congrArg (· ++ []) same)).1
    constructor
    · intro key listed
      obtain ⟨⟨_, value⟩, inOthers, rfl⟩ := List.mem_map.mp listed
      have written := mem_sortedFields.mpr ⟨value, inOthers, rfl⟩
      rw [← parts] at written
      obtain ⟨w, inFields, -⟩ := mem_sortedFields.mp written
      exact List.mem_map.mpr ⟨_, inFields, rfl⟩
    · rintro ⟨key, value⟩ inFields
      have written := mem_sortedFields.mpr ⟨value, inFields, rfl⟩
      rw [parts] at written
      obtain ⟨w, inOthers, text⟩ := mem_sortedFields.mp written
      exact ⟨w, inOthers, text.symm⟩
  · rintro ⟨keys, values⟩
    have mem : ∀ (fields : List (List Char × JsonOf ν)) key text, (key, text) ∈ canonicalFields fields ↔
          ∃ value, (key, value) ∈ fields ∧ canonical value = text := by
      intro fields key text
      rw [canonicalFields_eq]
      simp
    have parts : sortedFields fields = sortedFields others := by
      refine sortedFields_congr distinct distinct' ?_
      intro key text
      rw [mem, mem]
      constructor
      · rintro ⟨value, listed, rfl⟩
        obtain ⟨other, inOthers, same⟩ := values _ listed
        exact ⟨other, inOthers, same.symm⟩
      · rintro ⟨other, listed, rfl⟩
        obtain ⟨⟨_, value⟩, inFields, rfl⟩ :=
          List.mem_map.mp (keys key (List.mem_map_of_mem (f := Prod.fst) listed))
        obtain ⟨another, inOthers, same⟩ := values _ inFields
        have only := List.inj_on_of_nodup_map distinct' inOthers listed rfl
        cases only
        exact ⟨value, inFields, same⟩
    simp only [sortedFields] at parts
    simp only [canonical, parts]

mutual

/-- **One text, one value** up to the order of fields, where numbers are printed apart. -/
theorem canonical_iff_same (apart : Function.Injective (NumberText.text : ν → List Char)) :
    (j k : JsonOf ν) → Distinct j → Distinct k → (canonical j = canonical k ↔ Same j k)
  | .null, k, _, _ => by
    cases k with
    | null => simp [Same]
    | _ => exact iff_of_false (fun same => absurd (tag_eq same) nofun) nofun
  | .bool a, k, _, _ => by
    cases k with
    | bool b => cases a <;> cases b <;> simp [Same, canonical]
    | _ => exact iff_of_false (fun same => absurd (tag_eq same) nofun) nofun
  | .num m, k, _, _ => by
    cases k with
    | num n => exact apart.eq_iff
    | _ => exact iff_of_false (fun same => absurd (tag_eq same) nofun) nofun
  | .str s, k, _, _ => by
    cases k with
    | str t => exact ⟨canonical_str, congrArg quote⟩
    | _ => exact iff_of_false (fun same => absurd (tag_eq same) nofun) nofun
  | .arr items, k, left, right => by
    cases k with
    | arr others =>
      rw [Same, ← items_iff_same apart items others left right]
      refine ⟨canonical_arr, ?_⟩
      intro texts
      simp only [canonical, canonicalItems_eq, texts]
    | _ => exact iff_of_false (fun same => absurd (tag_eq same) nofun) nofun
  | .obj fields, k, left, right => by
    cases k with
    | obj others =>
      rw [canonical_obj_iff left.1 right.1, Same, fields_iff_same apart fields others left.2 right.2]
    | _ => exact iff_of_false (fun same => absurd (tag_eq same) nofun) nofun

theorem items_iff_same (apart : Function.Injective (NumberText.text : ν → List Char)) :
    (items others : List (JsonOf ν)) → DistinctItems items → DistinctItems others →
      (items.map canonical = others.map canonical ↔ SameItems items others)
  | [], [], _, _ => by simp [SameItems]
  | [], _ :: _, _, _ => by simp [SameItems]
  | _ :: _, [], _, _ => by simp [SameItems]
  | item :: items, other :: others, left, right => by
    rw [List.map_cons, List.map_cons, List.cons.injEq, SameItems,
      canonical_iff_same apart item other left.1 right.1, items_iff_same apart items others left.2 right.2]

theorem fields_iff_same (apart : Function.Injective (NumberText.text : ν → List Char)) :
    (fields others : List (List Char × JsonOf ν)) → DistinctFields fields → DistinctFields others →
      ((∀ field ∈ fields, ∃ other, (field.1, other) ∈ others ∧
        canonical field.2 = canonical other) ↔ SameFields fields others)
  | [], _, _, _ => by simp [SameFields]
  | (key, value) :: more, others, left, right => by
    rw [List.forall_mem_cons, SameFields, fields_iff_same apart more others left.2 right]
    refine and_congr_left fun _ => exists_congr fun other => and_congr_right fun listed => ?_
    exact canonical_iff_same apart value other left.1 (distinctFields_iff.mp right _ listed)

end

end JsonOf

end DuDuClaw.Lib
