/-
# Redaction.PathText -- the text of a path

`JsonPath::parse` (rules/json_path.rs) walks over the bytes of the text with an index.  It reads
whole characters only: every index it uses lies in the text, every key it takes is a run of
characters, and it accepts exactly the grammar of the module's documentation.

* `SegmentText`, `PathText`: the grammar, with what a derivation denotes.
* `takeSegment_of_text`, `text_of_takeSegment`: one segment, in both directions.
* `parse_exact`: the parser accepts what is derivable, and stops with an error otherwise.
-/
import DuDuClaw.Lib.Ascii
import DuDuClaw.Lib.Fallible
import DuDuClaw.Redaction.JsonPath

namespace DuDuClaw.Redaction

open DuDuClaw.Lib

/-! ## The parser -/

def maxPathLen : Nat := 512

/-- The reasons for which a path is refused; the numbers are byte offsets. -/
inductive PathError where
  | tooLong (length : Nat)
  | noRoot
  | unexpected (byte : UInt8) (i : Nat)
  | emptyKey (i : Nat)
  | unclosedQuote (i : Nat)
  | quoteNotClosed (i : Nat)
  | notUtf8 (i : Nat)
  | emptyQuoted (i : Nat)
  | lineBreak (i : Nat)
  | unclosedBracket (i : Nat)
  | indexRange (i : Nat)
  | invalidBracket (i : Nat)

inductive PathStop where
  /-- A slice outside of the bytes: Rust panics. -/
  | panic
  /-- The rounds of the loop are used up. -/
  | rounds
  | refused (error : PathError)

variable (raw : List UInt8)

/-- `&bytes[start..end]`. -/
def byteSlice (start end_ : Nat) : Except PathStop (List UInt8) :=
  if start ≤ end_ ∧ end_ ≤ raw.length then .ok ((raw.drop start).take (end_ - start)) else .error .panic

/-- `bytes[from..].iter().position(|b| *b == wanted)`, as an index into the bytes. -/
def findByte (from_ : Nat) (wanted : UInt8) : Except PathStop (Option Nat) :=
  if from_ ≤ raw.length then .ok (((raw.drop from_).findIdx? (· == wanted)).map (from_ + ·))
  else .error .panic

def isKeyByte (b : UInt8) : Bool :=
  (0x30 ≤ b && b ≤ 0x39) || (0x41 ≤ b && b ≤ 0x5A) || (0x61 ≤ b && b ≤ 0x7A) || b == ascii '_' ||
    b == ascii '-'

/-- `take_key`; the bytes taken are ASCII, which the lossy conversion leaves as they are. -/
def takeKey (from_ : Nat) : Except PathStop (Text × Nat) :=
  let end_ := from_ + ((raw.drop from_).takeWhile isKeyByte).length
  if end_ = from_ then .error (.refused (.emptyKey from_))
  else do
    let key ← byteSlice raw from_ end_
    return (key, end_)

/-- `std::str::from_utf8(key).is_ok()`. -/
def validUtf8 (key : List UInt8) : Bool := decide key.toByteArray.IsValidUTF8

/-- `take_bracket` behind `['`. -/
def takeQuoted (from_ : Nat) : Except PathStop (JsonPath.Segment × Nat) := do
  match ← findByte raw (from_ + 2) (ascii '\'') with
  | none => .error (.refused (.unclosedQuote from_))
  | some quoteEnd =>
    if raw[quoteEnd + 1]? ≠ some (ascii ']') then .error (.refused (.quoteNotClosed from_))
    else
      let key ← byteSlice raw (from_ + 2) quoteEnd
      if !validUtf8 key then .error (.refused (.notUtf8 from_))
      else if key = [] then .error (.refused (.emptyQuoted from_))
      else if key.contains (ascii '\n') || key.contains (ascii '\r') then
        .error (.refused (.lineBreak from_))
      else return (.key key, quoteEnd + 2)

/-- `take_bracket` behind any other `[`. -/
def takeIndex (from_ : Nat) : Except PathStop (JsonPath.Segment × Nat) := do
  match ← findByte raw from_ (ascii ']') with
  | none => .error (.refused (.unclosedBracket from_))
  | some close =>
    let inner ← byteSlice raw (from_ + 1) close
    if inner = [ascii '*'] then return (.allIndices, close + 1)
    else if inner ≠ [] ∧ inner.all isDigitByte = true then
      if digitsValue inner < 2 ^ 64 then return (.index (digitsValue inner), close + 1)
      else .error (.refused (.indexRange from_))
    else .error (.refused (.invalidBracket from_))

def takeBracket (from_ : Nat) : Except PathStop (JsonPath.Segment × Nat) :=
  if raw[from_ + 1]? = some (ascii '\'') then takeQuoted raw from_ else takeIndex raw from_

/-- One round of the loop, at a byte that is there. -/
def takeSegment (i : Nat) (byte : UInt8) : Except PathStop (JsonPath.Segment × Nat) :=
  if byte = ascii '.' then
    if raw[i + 1]? = some (ascii '.') then do
      let (key, next) ← takeKey raw (i + 2)
      return (.descend key, next)
    else if raw[i + 1]? = some (ascii '*') then return (.allChildren, i + 2)
    else do
      let (key, next) ← takeKey raw (i + 1)
      return (.key key, next)
  else if byte = ascii '[' then takeBracket raw i
  else .error (.refused (.unexpected byte i))

/-- `while i < bytes.len()`. -/
def takeSegments (raw : List UInt8) : Nat → Nat → Except PathStop JsonPath
  | fuel, i =>
    match raw[i]? with
    | none => return []
    | some byte =>
      match fuel with
      | 0 => .error .rounds
      | fuel + 1 => do
        let (seg, next) ← takeSegment raw i byte
        let rest ← takeSegments raw fuel next
        return seg :: rest

def JsonPath.parse (raw : List Char) : Except PathStop JsonPath :=
  if maxPathLen < byteLength raw then .error (.refused (.tooLong (byteLength raw)))
  else if (bytes raw).head? ≠ some (ascii '$') then .error (.refused .noRoot)
  else takeSegments (bytes raw) (bytes raw).length 1

/-! ## The grammar -/

/-- A character of `key`. -/
def isKeyChar (c : Char) : Bool := c.isAlphanum || c == '_' || c == '-'

def digitsNumber (digits : List Char) : Nat := digits.foldl (fun n c => 10 * n + (c.toNat - 48)) 0

/-- `segment`, with what it denotes; an index fits a `usize`. -/
inductive SegmentText : List Char → JsonPath.Segment → Prop
  | key {name : List Char} : name ≠ [] → (∀ c ∈ name, isKeyChar c = true) →
      SegmentText ('.' :: name) (.key (bytes name))
  | quoted {name : List Char} : name ≠ [] → (∀ c ∈ name, c ≠ '\'' ∧ c ≠ '\r' ∧ c ≠ '\n') →
      SegmentText ('[' :: '\'' :: (name ++ ['\'', ']'])) (.key (bytes name))
  | allIndices : SegmentText ['[', '*', ']'] .allIndices
  | index {digits : List Char} : digits ≠ [] → (∀ c ∈ digits, c.isDigit = true) →
      digitsNumber digits < 2 ^ 64 → SegmentText ('[' :: (digits ++ [']'])) (.index (digitsNumber digits))
  | descend {name : List Char} : name ≠ [] → (∀ c ∈ name, isKeyChar c = true) →
      SegmentText ('.' :: '.' :: name) (.descend (bytes name))
  | allChildren : SegmentText ['.', '*'] .allChildren

/-- `segment*`. -/
inductive PathText : List Char → JsonPath → Prop
  | nil : PathText [] []
  | cons {text rest : List Char} {seg : JsonPath.Segment} {path : JsonPath} :
      SegmentText text seg → PathText rest path → PathText (text ++ rest) (seg :: path)

/-! ## Bytes of whole characters -/

variable {a c : Char} {rest name : List Char} {b : UInt8}

theorem getElem?_bytes (front rest : List Char) :
    (bytes (front ++ rest))[byteLength front]? = (bytes rest).head? := by
  rw [bytes_append, List.getElem?_append_right (by rw [length_bytes]), length_bytes, Nat.sub_self,
    List.head?_eq_getElem?]

theorem drop_bytes (front rest : List Char) : (bytes (front ++ rest)).drop (byteLength front) = bytes rest := by
  rw [bytes_append, ← length_bytes, List.drop_left]

theorem byteSlice_bytes (front mid back : List Char) :
    byteSlice (bytes (front ++ (mid ++ back))) (byteLength front) (byteLength front + byteLength mid) =
      .ok (bytes mid) := by
  have fits : byteLength front ≤ byteLength front + byteLength mid ∧
      byteLength front + byteLength mid ≤ (bytes (front ++ (mid ++ back))).length := by
    rw [length_bytes, byteLength_append, byteLength_append]
    omega
  rw [byteSlice, if_pos fits, drop_bytes, Nat.add_sub_cancel_left, bytes_append, ← length_bytes, List.take_left]

theorem byteLength_le_length (front rest : List Char) : byteLength front ≤ (bytes (front ++ rest)).length := by
  rw [length_bytes, byteLength_append]
  exact Nat.le_add_right _ _

theorem findByte_bytes (narrow : a.utf8Size = 1) (front : List Char) {mid : List Char}
    (free : a ∉ mid) (back : List Char) :
    findByte (bytes (front ++ (mid ++ a :: back))) (byteLength front) (ascii a) =
      .ok (some (byteLength front + byteLength mid)) := by
  rw [findByte, if_pos (byteLength_le_length _ _), drop_bytes, findIdx?_bytes narrow free]
  rfl

theorem findByte_bytes_none (narrow : a.utf8Size = 1) (front : List Char) (free : a ∉ rest) :
    findByte (bytes (front ++ rest)) (byteLength front) (ascii a) = .ok none := by
  rw [findByte, if_pos (byteLength_le_length _ _), drop_bytes, findIdx?_bytes_none narrow free]
  rfl

theorem validUtf8_bytes (s : List Char) : validUtf8 (bytes s) = true :=
  decide_eq_true (ByteArray.isValidUTF8_utf8Encode (l := s))

/-- The code points of `key`. -/
def KeyCode (n : Nat) : Prop :=
  (48 ≤ n ∧ n ≤ 57) ∨ (65 ≤ n ∧ n ≤ 90) ∨ (97 ≤ n ∧ n ≤ 122) ∨ n = 95 ∨ n = 45

theorem isKeyByte_iff (b : UInt8) : isKeyByte b = true ↔ KeyCode b.toNat := by
  have under : (ascii '_').toNat = 95 := rfl
  have dash : (ascii '-').toNat = 45 := rfl
  simp only [isKeyByte, KeyCode, Bool.or_eq_true, Bool.and_eq_true, decide_eq_true_eq, beq_iff_eq,
    UInt8.le_iff_toNat_le, ← UInt8.toNat_inj, under, dash, UInt8.reduceToNat, or_assoc]

theorem isKeyChar_iff (c : Char) : isKeyChar c = true ↔ KeyCode c.toNat := by
  have under : '_'.toNat = 95 := rfl
  have dash : '-'.toNat = 45 := rfl
  simp only [isKeyChar, KeyCode, Bool.or_eq_true, beq_iff_eq, isAlphanum_iff, ← Char.toNat_inj, under, dash]
  omega

theorem isKeyByte_ascii (narrow : c.utf8Size = 1) : isKeyByte (ascii c) = isKeyChar c := by
  rw [Bool.eq_iff_iff, isKeyByte_iff, isKeyChar_iff, (ascii_toNat narrow).1]

theorem isKeyByte_high (high : 0x80 ≤ b) : isKeyByte b = false := by
  have bound : (0x80 : UInt8).toNat = 128 := rfl
  rw [UInt8.le_iff_toNat_le, bound] at high
  rw [Bool.eq_false_iff, Ne, isKeyByte_iff, KeyCode]
  omega

theorem isKeyChar_wide (wide : c.utf8Size ≠ 1) : isKeyChar c = false := by
  have high := wide_toNat wide
  rw [Bool.eq_false_iff, Ne, isKeyChar_iff, KeyCode]
  omega

theorem takeKey_bytes (front rest : List Char) : takeKey (bytes (front ++ rest)) (byteLength front) =
      if rest.takeWhile isKeyChar = [] then .error (.refused (.emptyKey (byteLength front)))
      else .ok (bytes (rest.takeWhile isKeyChar),
        byteLength front + byteLength (rest.takeWhile isKeyChar)) := by
  have run := takeWhile_bytes (fun _ => isKeyByte_ascii) (fun _ => isKeyChar_wide)
    (fun _ => isKeyByte_high) rest
  have slice := byteSlice_bytes front (rest.takeWhile isKeyChar) (rest.dropWhile isKeyChar)
  rw [List.takeWhile_append_dropWhile] at slice
  rw [takeKey, drop_bytes, run, length_bytes]
  by_cases empty : rest.takeWhile isKeyChar = []
  · rw [if_pos empty, empty]
    exact if_pos rfl
  have positive : byteLength (rest.takeWhile isKeyChar) ≠ 0 := by
    rw [← length_bytes, Ne, List.length_eq_zero_iff, bytes_eq_nil]
    exact empty
  rw [if_neg empty, if_neg (by omega), slice]
  rfl

theorem isDigitByte_ascii (narrow : c.utf8Size = 1) : isDigitByte (ascii c) = c.isDigit := by
  have bounds : '0'.val.toNat = 48 ∧ '9'.val.toNat = 57 := ⟨rfl, rfl⟩
  have number := (ascii_toNat narrow).1
  have val : c.toNat = c.val.toNat := rfl
  rw [Bool.eq_iff_iff]
  simp only [isDigitByte, Char.isDigit, Bool.and_eq_true, decide_eq_true_eq, UInt8.le_iff_toNat_le, number,
    ge_iff_le, UInt32.le_iff_toNat_le, UInt8.reduceToNat, bounds, val]

theorem isDigitByte_high (high : 0x80 ≤ b) : isDigitByte b = false := by
  have bound : (0x80 : UInt8).toNat = 128 := rfl
  rw [UInt8.le_iff_toNat_le, bound] at high
  rw [Bool.eq_false_iff]
  simp only [isDigitByte, ne_eq, Bool.and_eq_true, decide_eq_true_eq, UInt8.le_iff_toNat_le, UInt8.reduceToNat]
  omega

theorem isDigit_narrow (digit : c.isDigit = true) : c.utf8Size = 1 := by
  have bounds : '0'.val.toNat = 48 ∧ '9'.val.toNat = 57 := ⟨rfl, rfl⟩
  by_contra wide
  have high := wide_toNat wide
  have val : c.toNat = c.val.toNat := rfl
  simp only [Char.isDigit, Bool.and_eq_true, decide_eq_true_eq, ge_iff_le, UInt32.le_iff_toNat_le,
    bounds] at digit
  omega

theorem all_isDigitByte (s : List Char) : (bytes s).all isDigitByte = s.all Char.isDigit :=
  all_bytes (fun _ => isDigitByte_ascii)
    (fun _ wide => Bool.eq_false_iff.mpr fun digit => wide (isDigit_narrow digit))
    (fun _ => isDigitByte_high) s

theorem digitsValue_bytes {digits : List Char} (digit : ∀ c ∈ digits, c.isDigit = true) :
    digitsValue (bytes digits) = digitsNumber digits := by
  rw [digitsValue, digitsNumber]
  generalize 0 = start
  induction digits generalizing start with
  | nil => rfl
  | cons c rest ih =>
    have narrow := isDigit_narrow (digit c List.mem_cons_self)
    rw [bytes_cons_ascii narrow, List.foldl_cons, List.foldl_cons, (ascii_toNat narrow).1]
    exact ih (fun d listed => digit d (List.mem_cons_of_mem _ listed)) _

/-! ## Brackets -/

/-- The characters of the grammar take one byte each. -/
theorem narrow_marks : ('.' : Char).utf8Size = 1 ∧ ('[' : Char).utf8Size = 1 ∧ (']' : Char).utf8Size = 1 ∧
    ('*' : Char).utf8Size = 1 ∧ ('\'' : Char).utf8Size = 1 ∧ ('$' : Char).utf8Size = 1 :=
  ⟨rfl, rfl, rfl, rfl, rfl, rfl⟩

theorem byteLength_two {b : Char} (narrow : a.utf8Size = 1) (narrow' : b.utf8Size = 1)
    (front : List Char) : byteLength (front ++ [a, b]) = byteLength front + 2 := by
  simp [narrow, narrow']

theorem byteLength_one (narrow : a.utf8Size = 1) (front : List Char) :
    byteLength (front ++ [a]) = byteLength front + 1 := by
  simp [narrow]

theorem getElem?_behind (narrow : a.utf8Size = 1) (front rest : List Char) :
    (bytes (front ++ a :: rest))[byteLength front + 1]? = (bytes rest).head? := by
  have there := getElem?_bytes (front ++ [a]) rest
  rwa [byteLength_one narrow, List.append_assoc, List.singleton_append] at there

theorem takeQuoted_open (front : List Char) (unclosed : '\'' ∉ name) :
    takeQuoted (bytes (front ++ '[' :: '\'' :: name)) (byteLength front) =
      .error (.refused (.unclosedQuote (byteLength front))) := by
  have search := findByte_bytes_none rfl (front ++ ['[', '\'']) unclosed
  rw [byteLength_two rfl rfl, List.append_assoc] at search
  rw [takeQuoted]
  simp only [List.cons_append, List.nil_append] at search
  rw [search]
  rfl

theorem takeQuoted_closed (front back : List Char) (inside : '\'' ∉ name) :
    takeQuoted (bytes (front ++ '[' :: '\'' :: (name ++ '\'' :: back))) (byteLength front) =
      if back.head? ≠ some ']' then .error (.refused (.quoteNotClosed (byteLength front)))
      else if name = [] then .error (.refused (.emptyQuoted (byteLength front)))
      else if '\n' ∈ name ∨ '\r' ∈ name then .error (.refused (.lineBreak (byteLength front)))
      else .ok (.key (bytes name), byteLength front + 2 + byteLength name + 2) := by
  have search := findByte_bytes rfl (front ++ ['[', '\'']) inside back
  have slice := byteSlice_bytes (front ++ ['[', '\'']) name ('\'' :: back)
  have next := getElem?_behind rfl (front ++ '[' :: '\'' :: name) (a := '\'') back
  have length : byteLength (front ++ '[' :: '\'' :: name) = byteLength front + 2 + byteLength name := by
    simp only [byteLength_append, byteLength_cons, narrow_marks]
    omega
  rw [byteLength_two rfl rfl] at search slice
  rw [length] at next
  simp only [List.append_assoc, List.cons_append, List.nil_append] at search slice next
  rw [takeQuoted, search]
  simp only [bind, Except.bind, next, slice, validUtf8_bytes, bytes_eq_nil, List.contains_iff_mem,
    Bool.or_eq_true, mem_bytes_ascii (show ('\n' : Char).utf8Size = 1 from rfl),
    mem_bytes_ascii (show ('\r' : Char).utf8Size = 1 from rfl), ne_eq,
    head?_bytes_ascii (show (']' : Char).utf8Size = 1 from rfl)]
  rfl

theorem takeIndex_open (front : List Char) (unclosed : ']' ∉ rest) :
    takeIndex (bytes (front ++ '[' :: rest)) (byteLength front) =
      .error (.refused (.unclosedBracket (byteLength front))) := by
  have free : ']' ∉ '[' :: rest := by simp [unclosed]
  rw [takeIndex, findByte_bytes_none rfl front free]
  rfl

theorem takeIndex_closed {inner : List Char} (front back : List Char) (inside : ']' ∉ inner) :
    takeIndex (bytes (front ++ '[' :: (inner ++ ']' :: back))) (byteLength front) =
      if inner = ['*'] then .ok (.allIndices, byteLength front + 1 + byteLength inner + 1)
      else if inner ≠ [] ∧ inner.all Char.isDigit = true then
        if digitsNumber inner < 2 ^ 64 then
          .ok (.index (digitsNumber inner), byteLength front + 1 + byteLength inner + 1)
        else .error (.refused (.indexRange (byteLength front)))
      else .error (.refused (.invalidBracket (byteLength front))) := by
  have free : ']' ∉ '[' :: inner := by simp [inside]
  have search := findByte_bytes rfl front free back
  have slice := byteSlice_bytes (front ++ ['[']) inner (']' :: back)
  have one : ('[' : Char).utf8Size = 1 := rfl
  rw [byteLength_cons, one, ← Nat.add_assoc] at search
  rw [byteLength_one rfl] at slice
  simp only [List.append_assoc, List.cons_append, List.nil_append] at search slice
  rw [takeIndex, search]
  simp only [bind, Except.bind, slice, all_isDigitByte, ne_eq, bytes_eq_nil,
    bytes_eq_singleton (show ('*' : Char).utf8Size = 1 from rfl)]
  by_cases digits : inner.all Char.isDigit = true
  · rw [digitsValue_bytes (List.all_eq_true.mp digits)]
    rfl
  · simp only [digits, Bool.false_eq_true, and_false, if_false]
    rfl

theorem takeBracket_bytes (front rest : List Char) :
    takeBracket (bytes (front ++ '[' :: rest)) (byteLength front) =
      if rest.head? = some '\'' then takeQuoted (bytes (front ++ '[' :: rest)) (byteLength front)
      else takeIndex (bytes (front ++ '[' :: rest)) (byteLength front) := by
  simp only [takeBracket, getElem?_behind (show ('[' : Char).utf8Size = 1 from rfl),
    head?_bytes_ascii (show ('\'' : Char).utf8Size = 1 from rfl)]

/-! ## One segment -/

/-- The parser does not read on where a segment ends. -/
def StopsKey (rest : List Char) : Prop := ∀ c, rest.head? = some c → isKeyChar c = false

variable {rest front : List Char} {next : Nat} {seg : JsonPath.Segment} {byte : UInt8} {stop : PathStop}

theorem takeWhile_key {name : List Char} (named : ∀ c ∈ name, isKeyChar c = true)
    (stops : StopsKey rest) : (name ++ rest).takeWhile isKeyChar = name := by
  rw [List.takeWhile_append_of_pos named]
  cases rest with
  | nil => rw [List.takeWhile_nil, List.append_nil]
  | cons c rest =>
    rw [List.takeWhile_cons, stops c rfl]
    exact List.append_nil name

theorem takeKey_of_text (front : List Char) {name : List Char} (nonempty : name ≠ [])
    (named : ∀ c ∈ name, isKeyChar c = true) (stops : StopsKey rest) :
    takeKey (bytes (front ++ (name ++ rest))) (byteLength front) =
      .ok (bytes name, byteLength (front ++ name)) := by
  rw [takeKey_bytes, takeWhile_key named stops, if_neg nonempty, byteLength_append]

theorem text_of_takeKey {key : Text}
    (taken : takeKey (bytes (front ++ rest)) (byteLength front) = .ok (key, next)) :
    ∃ name back, rest = name ++ back ∧ name ≠ [] ∧ (∀ c ∈ name, isKeyChar c = true) ∧
      key = bytes name ∧ next = byteLength (front ++ name) := by
  rw [takeKey_bytes] at taken
  split at taken
  · cases taken
  rename_i nonempty
  cases taken
  refine ⟨_, _, List.takeWhile_append_dropWhile.symm, nonempty, fun c listed => ?_, rfl, ?_⟩
  · exact List.all_eq_true.mp List.all_takeWhile c listed
  · rw [byteLength_append]

theorem takeSegment_dots (front rest : List Char) :
    takeSegment (bytes (front ++ '.' :: '.' :: rest)) (byteLength front) (ascii '.') =
      (takeKey (bytes (front ++ '.' :: '.' :: rest)) (byteLength front + 2)).map
        fun taken => (.descend taken.1, taken.2) := by
  have second := getElem?_behind (show ('.' : Char).utf8Size = 1 from rfl) front ('.' :: rest)
  rw [bytes_cons_ascii rfl, List.head?_cons] at second
  rw [takeSegment, if_pos rfl, if_pos second]
  cases takeKey (bytes (front ++ '.' :: '.' :: rest)) (byteLength front + 2) <;> rfl

theorem takeSegment_children (front rest : List Char) :
    takeSegment (bytes (front ++ '.' :: '*' :: rest)) (byteLength front) (ascii '.') =
      .ok (.allChildren, byteLength front + 2) := by
  have second := getElem?_behind (show ('.' : Char).utf8Size = 1 from rfl) front ('*' :: rest)
  rw [bytes_cons_ascii rfl, List.head?_cons] at second
  rw [takeSegment, if_pos rfl, second]
  rfl

theorem takeSegment_dot (front : List Char) (single : rest.head? ≠ some '.') (named : rest.head? ≠ some '*') :
    takeSegment (bytes (front ++ '.' :: rest)) (byteLength front) (ascii '.') =
      (takeKey (bytes (front ++ '.' :: rest)) (byteLength front + 1)).map
        fun taken => (.key taken.1, taken.2) := by
  have second := getElem?_behind (show ('.' : Char).utf8Size = 1 from rfl) front rest
  rw [takeSegment, if_pos rfl, second, if_neg, if_neg]
  · cases takeKey (bytes (front ++ '.' :: rest)) (byteLength front + 1) <;> rfl
  · rwa [head?_bytes_ascii rfl]
  · rwa [head?_bytes_ascii rfl]

theorem takeSegment_bracket (front rest : List Char) :
    takeSegment (bytes (front ++ '[' :: rest)) (byteLength front) (ascii '[') =
      if rest.head? = some '\'' then takeQuoted (bytes (front ++ '[' :: rest)) (byteLength front)
      else takeIndex (bytes (front ++ '[' :: rest)) (byteLength front) := by
  rw [← takeBracket_bytes, takeSegment, if_neg (by decide), if_pos rfl]

theorem keyChar_ne {c d : Char} (named : isKeyChar c = true) (other : isKeyChar d = false) : c ≠ d := by
  rintro rfl
  rw [other] at named
  cases named

/-- **A segment that is there is taken.** -/
theorem takeSegment_of_text (front : List Char) {text back : List Char}
    (derived : SegmentText text seg) (stops : StopsKey back)
    (there : (bytes (text ++ back)).head? = some byte) :
    takeSegment (bytes (front ++ (text ++ back))) (byteLength front) byte =
      .ok (seg, byteLength (front ++ text)) := by
  have dot : ('.' : Char).utf8Size = 1 := rfl
  have bracket : ('[' : Char).utf8Size = 1 := rfl
  cases derived with
  | @key name nonempty named =>
    rw [List.cons_append, bytes_cons_ascii dot, List.head?_cons] at there
    cases there
    obtain ⟨first, more, rfl⟩ := List.exists_cons_of_ne_nil nonempty
    have keyed := named first List.mem_cons_self
    have taken := takeKey_of_text (front ++ ['.']) nonempty named stops
    rw [byteLength_one dot, List.append_assoc, List.singleton_append] at taken
    rw [List.cons_append, takeSegment_dot]
    · rw [taken]
      simp
      rfl
    · exact fun same => keyChar_ne keyed (by decide) (Option.some.inj same)
    · exact fun same => keyChar_ne keyed (by decide) (Option.some.inj same)
  | @descend name nonempty named =>
    rw [List.cons_append, bytes_cons_ascii dot, List.head?_cons] at there
    cases there
    have taken := takeKey_of_text (front ++ ['.', '.']) nonempty named stops
    rw [byteLength_two dot dot, List.append_assoc] at taken
    rw [List.cons_append, List.cons_append, takeSegment_dots]
    simp only [List.cons_append, List.nil_append] at taken
    rw [taken]
    simp
    rfl
  | allChildren =>
    rw [List.cons_append, bytes_cons_ascii dot, List.head?_cons] at there
    cases there
    exact (takeSegment_children front back).trans (by rw [byteLength_two dot rfl])
  | @quoted name nonempty plain =>
    rw [List.cons_append, bytes_cons_ascii bracket, List.head?_cons] at there
    cases there
    have inside : '\'' ∉ name := fun listed => (plain _ listed).1 rfl
    have noBreak : ¬('\n' ∈ name ∨ '\r' ∈ name) := by
      rintro (listed | listed)
      · exact (plain _ listed).2.2 rfl
      · exact (plain _ listed).2.1 rfl
    have closed := takeQuoted_closed front (']' :: back) inside
    rw [if_neg (by simp), if_neg nonempty, if_neg noBreak] at closed
    have shape : '[' :: '\'' :: (name ++ ['\'', ']']) ++ back =
        '[' :: '\'' :: (name ++ '\'' :: ']' :: back) := by simp
    rw [shape, takeSegment_bracket]
    refine (if_pos rfl).trans (closed.trans ?_)
    simp only [byteLength_append, byteLength_cons, byteLength_nil, narrow_marks]
    congr 2
    omega
  | allIndices =>
    rw [List.cons_append, bytes_cons_ascii bracket, List.head?_cons] at there
    cases there
    have closed := takeIndex_closed front back (show ']' ∉ ['*'] by decide)
    rw [if_pos rfl] at closed
    rw [List.cons_append, takeSegment_bracket]
    refine (if_neg (by simp)).trans (closed.trans ?_)
    simp only [byteLength_append, byteLength_cons, byteLength_nil, narrow_marks]
  | @index digits nonempty digit fits =>
    rw [List.cons_append, bytes_cons_ascii bracket, List.head?_cons] at there
    cases there
    have inside : ']' ∉ digits := fun listed => absurd (digit _ listed) (by decide)
    have star : digits ≠ ['*'] := by
      rintro rfl
      exact absurd (digit '*' List.mem_cons_self) (by decide)
    have quote : (digits ++ ']' :: back).head? ≠ some '\'' := by
      obtain ⟨first, more, rfl⟩ := List.exists_cons_of_ne_nil nonempty
      intro same
      have first_ := digit first List.mem_cons_self
      rw [Option.some.inj same] at first_
      exact absurd first_ (by decide)
    have closed := takeIndex_closed front back inside
    rw [if_neg star, if_pos ⟨nonempty, List.all_eq_true.mpr digit⟩, if_pos fits] at closed
    have shape : '[' :: (digits ++ [']']) ++ back = '[' :: (digits ++ ']' :: back) := by simp
    rw [shape, takeSegment_bracket, if_neg quote, closed]
    simp only [byteLength_append, byteLength_cons, byteLength_nil, narrow_marks]
    congr 2
    omega

theorem text_of_takeQuoted
    (taken : takeQuoted (bytes (front ++ '[' :: '\'' :: rest)) (byteLength front) = .ok (seg, next)) :
    ∃ text back, '[' :: '\'' :: rest = text ++ back ∧ SegmentText text seg ∧
      next = byteLength (front ++ text) := by
  by_cases closed : '\'' ∈ rest
  · obtain ⟨name, behind, rfl, inside⟩ := List.eq_append_cons_of_mem closed
    rw [takeQuoted_closed front behind inside] at taken
    split at taken
    · cases taken
    rename_i bracket
    split at taken
    · cases taken
    rename_i nonempty
    split at taken
    · cases taken
    rename_i noBreak
    rw [not_or] at noBreak
    obtain ⟨back, rfl⟩ := List.head?_eq_some_iff.mp (not_not.mp bracket)
    cases taken
    refine ⟨'[' :: '\'' :: (name ++ ['\'', ']']), back, by simp, .quoted nonempty ?_, ?_⟩
    · intro c listed
      refine ⟨?_, ?_, ?_⟩ <;> rintro rfl
      · exact inside listed
      · exact noBreak.2 listed
      · exact noBreak.1 listed
    · simp only [byteLength_append, byteLength_cons, byteLength_nil, narrow_marks]
      omega
  · rw [takeQuoted_open front closed] at taken
    cases taken

theorem text_of_takeIndex
    (taken : takeIndex (bytes (front ++ '[' :: rest)) (byteLength front) = .ok (seg, next)) :
    ∃ text back, '[' :: rest = text ++ back ∧ SegmentText text seg ∧ next = byteLength (front ++ text) := by
  by_cases closed : ']' ∈ rest
  · obtain ⟨inner, back, rfl, inside⟩ := List.eq_append_cons_of_mem closed
    rw [takeIndex_closed front back inside] at taken
    split at taken
    · rename_i star
      cases taken
      subst star
      exact ⟨['[', '*', ']'], back, rfl, .allIndices, by
        simp only [byteLength_append, byteLength_cons, byteLength_nil, narrow_marks]⟩
    split at taken
    · rename_i digits
      split at taken
      · rename_i fits
        cases taken
        refine ⟨'[' :: (inner ++ [']']), back, by simp, .index digits.1 (List.all_eq_true.mp digits.2) fits, ?_⟩
        simp only [byteLength_append, byteLength_cons, byteLength_nil, narrow_marks]
        omega
      · cases taken
    · cases taken
  · rw [takeIndex_open front closed] at taken
    cases taken

/-- **What is taken as a segment is one.** -/
theorem text_of_takeSegment (there : (bytes rest).head? = some byte)
    (taken : takeSegment (bytes (front ++ rest)) (byteLength front) byte = .ok (seg, next)) :
    ∃ text back, rest = text ++ back ∧ SegmentText text seg ∧ next = byteLength (front ++ text) := by
  have dot : ('.' : Char).utf8Size = 1 := rfl
  by_cases isDot : byte = ascii '.'
  · subst isDot
    obtain ⟨rest, rfl⟩ := List.head?_eq_some_iff.mp ((head?_bytes_ascii dot).mp there)
    by_cases twice : rest.head? = some '.'
    · obtain ⟨rest, rfl⟩ := List.head?_eq_some_iff.mp twice
      rw [takeSegment_dots] at taken
      obtain ⟨⟨key, next⟩, found, same⟩ := map_ok.mp taken
      cases same
      have shape : front ++ '.' :: '.' :: rest = front ++ ['.', '.'] ++ rest := by simp
      rw [shape, ← byteLength_two dot dot] at found
      obtain ⟨name, back, rfl, nonempty, named, rfl, rfl⟩ := text_of_takeKey found
      exact ⟨'.' :: '.' :: name, back, rfl, .descend nonempty named, by simp⟩
    · by_cases star : rest.head? = some '*'
      · obtain ⟨rest, rfl⟩ := List.head?_eq_some_iff.mp star
        rw [takeSegment_children] at taken
        cases taken
        exact ⟨['.', '*'], rest, rfl, .allChildren, (byteLength_two dot rfl front).symm⟩
      rw [takeSegment_dot front twice star] at taken
      obtain ⟨⟨key, next⟩, found, same⟩ := map_ok.mp taken
      cases same
      rw [← byteLength_one dot, List.append_cons] at found
      obtain ⟨name, back, rfl, nonempty, named, rfl, rfl⟩ := text_of_takeKey found
      exact ⟨'.' :: name, back, rfl, .key nonempty named, by simp⟩
  · by_cases isBracket : byte = ascii '['
    · subst isBracket
      obtain ⟨rest, rfl⟩ := List.head?_eq_some_iff.mp ((head?_bytes_ascii rfl).mp there)
      rw [takeSegment_bracket] at taken
      split at taken
      · rename_i quote
        obtain ⟨rest, rfl⟩ := List.head?_eq_some_iff.mp quote
        exact text_of_takeQuoted taken
      · exact text_of_takeIndex taken
    · rw [takeSegment, if_neg isDot, if_neg isBracket] at taken
      cases taken

/-- A stop that the path is to blame for: no index left the bytes, and no key was cut in the middle
of a character. -/
def PathStop.Proper : PathStop → Prop
  | .refused (.notUtf8 _) => False
  | .refused _ => True
  | .panic | .rounds => False

theorem takeKey_stops
    (stopped : takeKey (bytes (front ++ rest)) (byteLength front) = .error stop) : stop.Proper := by
  rw [takeKey_bytes] at stopped
  split at stopped
  · cases stopped
    trivial
  · cases stopped

theorem takeQuoted_stops
    (stopped : takeQuoted (bytes (front ++ '[' :: '\'' :: rest)) (byteLength front) = .error stop) :
    stop.Proper := by
  by_cases closed : '\'' ∈ rest
  · obtain ⟨name, behind, rfl, inside⟩ := List.eq_append_cons_of_mem closed
    rw [takeQuoted_closed front behind inside] at stopped
    repeat' split at stopped
    all_goals
      cases stopped
      try trivial
  · rw [takeQuoted_open front closed] at stopped
    cases stopped
    trivial

theorem takeIndex_stops
    (stopped : takeIndex (bytes (front ++ '[' :: rest)) (byteLength front) = .error stop) : stop.Proper := by
  by_cases closed : ']' ∈ rest
  · obtain ⟨inner, back, rfl, inside⟩ := List.eq_append_cons_of_mem closed
    rw [takeIndex_closed front back inside] at stopped
    repeat' split at stopped
    all_goals
      cases stopped
      try trivial
  · rw [takeIndex_open front closed] at stopped
    cases stopped
    trivial

theorem takeSegment_stops (there : (bytes rest).head? = some byte)
    (stopped : takeSegment (bytes (front ++ rest)) (byteLength front) byte = .error stop) : stop.Proper := by
  have dot : ('.' : Char).utf8Size = 1 := rfl
  by_cases isDot : byte = ascii '.'
  · subst isDot
    obtain ⟨rest, rfl⟩ := List.head?_eq_some_iff.mp ((head?_bytes_ascii dot).mp there)
    by_cases twice : rest.head? = some '.'
    · obtain ⟨rest, rfl⟩ := List.head?_eq_some_iff.mp twice
      have shape : front ++ '.' :: '.' :: rest = front ++ ['.', '.'] ++ rest := by simp
      rw [takeSegment_dots, map_error, shape, ← byteLength_two dot dot] at stopped
      exact takeKey_stops stopped
    by_cases star : rest.head? = some '*'
    · obtain ⟨rest, rfl⟩ := List.head?_eq_some_iff.mp star
      rw [takeSegment_children] at stopped
      cases stopped
    · rw [takeSegment_dot front twice star, map_error, ← byteLength_one dot, List.append_cons] at stopped
      exact takeKey_stops stopped
  · by_cases isBracket : byte = ascii '['
    · subst isBracket
      obtain ⟨rest, rfl⟩ := List.head?_eq_some_iff.mp ((head?_bytes_ascii rfl).mp there)
      rw [takeSegment_bracket] at stopped
      split at stopped
      · rename_i quote
        obtain ⟨rest, rfl⟩ := List.head?_eq_some_iff.mp quote
        exact takeQuoted_stops stopped
      · exact takeIndex_stops stopped
    · rw [takeSegment, if_neg isDot, if_neg isBracket] at stopped
      cases stopped
      trivial

/-! ## The whole path -/

variable {rest : List Char} {path : JsonPath} {fuel : Nat}

theorem SegmentText.stopsKey {text : List Char} (derived : SegmentText text seg)
    (back : List Char) : StopsKey (text ++ back) ∧ text ≠ [] := by
  cases derived with
  | key | quoted | allIndices | index | descend | allChildren =>
    refine ⟨fun c first => ?_, List.cons_ne_nil _ _⟩
    cases first
    decide

theorem PathText.stopsKey (derived : PathText rest path) : StopsKey rest := by
  cases derived with
  | nil => exact fun c first => by cases first
  | cons first _ => exact (first.stopsKey _).1

theorem SegmentText.shorter {text back : List Char}
    (derived : SegmentText text seg) (enough : (text ++ back).length ≤ fuel + 1) : back.length ≤ fuel := by
  have some_ := List.length_pos_iff.mpr (derived.stopsKey []).2
  rw [List.length_append] at enough
  omega

theorem pathText_nil : PathText [] path ↔ path = [] := by
  constructor
  · intro derived
    generalize empty : ([] : List Char) = text at derived
    cases derived with
    | nil => rfl
    | cons first _ => exact absurd (List.append_eq_nil_iff.mp empty.symm).1 (first.stopsKey []).2
  · rintro rfl
    exact .nil

theorem takeSegments_end (front : List Char) (fuel : Nat) :
    takeSegments (bytes (front ++ [])) fuel (byteLength front) = .ok [] := by
  have end_ := getElem?_bytes front []
  unfold takeSegments
  rw [end_]
  rfl

theorem takeSegments_step {raw : List UInt8} {i : Nat} (there : raw[i]? = some byte) :
    takeSegments raw (fuel + 1) i = takeSegment raw i byte >>= fun taken =>
      takeSegments raw fuel taken.2 >>= fun rest => pure (taken.1 :: rest) := by
  rw [takeSegments, there]

theorem head?_bytes_cons (c : Char) (s : List Char) : ∃ byte, (bytes (c :: s)).head? = some byte := by
  cases encoded : bytes (c :: s) with
  | nil => exact absurd (bytes_eq_nil.mp encoded) (List.cons_ne_nil c s)
  | cons byte _ => exact ⟨byte, rfl⟩

/-- **The loop takes what is derivable**, from a place between two characters, with a round for each
character that is left. -/
theorem takeSegments_iff (enough : rest.length ≤ fuel) :
    takeSegments (bytes (front ++ rest)) fuel (byteLength front) = .ok path ↔ PathText rest path := by
  induction fuel generalizing front rest path with
  | zero =>
    obtain rfl := List.length_eq_zero_iff.mp (Nat.le_zero.mp enough)
    rw [takeSegments_end, pathText_nil, Except.ok.injEq, eq_comm]
  | succ fuel ih =>
    cases rest with
    | nil => rw [takeSegments_end, pathText_nil, Except.ok.injEq, eq_comm]
    | cons c rest =>
      obtain ⟨byte, there⟩ := head?_bytes_cons c rest
      rw [takeSegments_step ((getElem?_bytes front (c :: rest)).trans there), bind_ok]
      constructor
      · rintro ⟨⟨seg, next⟩, taken, later⟩
        obtain ⟨text, back, split, derived, rfl⟩ := text_of_takeSegment there taken
        obtain ⟨path, more, same⟩ := bind_ok.mp later
        cases same
        rw [split] at enough ⊢
        have shorter := derived.shorter enough
        rw [split, ← List.append_assoc] at more
        exact .cons derived ((ih shorter).mp more)
      · intro derived
        generalize whole : c :: rest = text at derived
        cases derived with
        | nil => cases whole
        | @cons text back seg path first further =>
          rw [whole] at there enough
          have shorter := first.shorter enough
          refine ⟨_, takeSegment_of_text front first further.stopsKey there, ?_⟩
          rw [← List.append_assoc]
          exact bind_ok.mpr ⟨path, (ih shorter).mpr further, rfl⟩

theorem takeSegments_stops (enough : rest.length ≤ fuel)
    (stopped : takeSegments (bytes (front ++ rest)) fuel (byteLength front) = .error stop) :
    stop.Proper := by
  induction fuel generalizing front rest with
  | zero =>
    obtain rfl := List.length_eq_zero_iff.mp (Nat.le_zero.mp enough)
    rw [takeSegments_end] at stopped
    cases stopped
  | succ fuel ih =>
    cases rest with
    | nil =>
      rw [takeSegments_end] at stopped
      cases stopped
    | cons c rest =>
      obtain ⟨byte, there⟩ := head?_bytes_cons c rest
      rw [takeSegments_step ((getElem?_bytes front (c :: rest)).trans there), bind_error] at stopped
      rcases stopped with early | ⟨⟨seg, next⟩, taken, later⟩
      · exact takeSegment_stops there early
      obtain ⟨text, back, split, derived, rfl⟩ := text_of_takeSegment there taken
      rw [split] at enough
      have shorter := derived.shorter enough
      rw [split, ← List.append_assoc] at later
      rcases bind_error.mp later with late | ⟨path, -, same⟩
      · exact ih shorter late
      · cases same

/-- **The parser accepts exactly the grammar**: the path it returns is the one that a derivation of
the text denotes, and where it returns none the text is to blame. -/
theorem parse_exact (raw : List Char) : (∀ path, JsonPath.parse raw = .ok path ↔
      byteLength raw ≤ maxPathLen ∧ ∃ rest, raw = '$' :: rest ∧ PathText rest path) ∧
    ∀ stop, JsonPath.parse raw = .error stop → stop.Proper := by
  by_cases long : maxPathLen < byteLength raw
  · have refused : JsonPath.parse raw = .error (.refused (.tooLong (byteLength raw))) := if_pos long
    rw [refused]
    constructor
    · intro path
      constructor
      · intro same
        cases same
      · intro fits
        exact absurd fits.1 (Nat.not_le.mpr long)
    · intro stop stopped
      cases stopped
      trivial
  · rw [JsonPath.parse, if_neg long]
    by_cases rooted : raw.head? = some '$'
    · obtain ⟨rest, rfl⟩ := List.head?_eq_some_iff.mp rooted
      have enough : rest.length ≤ (bytes ('$' :: rest)).length := by
        rw [length_bytes, byteLength_cons]
        exact Nat.le_add_left_of_le (length_le_byteLength rest)
      rw [if_neg (by rwa [ne_eq, not_not, head?_bytes_ascii rfl])]
      constructor
      · intro path
        have derivable : takeSegments (bytes (['$'] ++ rest)) _ (byteLength ['$']) = .ok path ↔ _ :=
          takeSegments_iff enough
        refine derivable.trans ?_
        constructor
        · intro derived
          exact ⟨Nat.not_lt.mp long, rest, rfl, derived⟩
        · rintro ⟨-, rest', same, derived⟩
          cases same
          exact derived
      · intro stop stopped
        have loop : takeSegments (bytes (['$'] ++ rest)) _ (byteLength ['$']) = .error stop := stopped
        exact takeSegments_stops enough loop
    · rw [if_pos (by rwa [Ne, head?_bytes_ascii rfl])]
      constructor
      · intro path
        constructor
        · intro same
          cases same
        · rintro ⟨-, rest, rfl, -⟩
          exact absurd rfl rooted
      · intro stop stopped
        cases stopped
        trivial

end DuDuClaw.Redaction
