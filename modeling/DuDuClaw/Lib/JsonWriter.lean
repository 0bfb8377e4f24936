/-
# Lib.JsonWriter -- JSON text without whitespace

A writer of JSON values that keeps the order of fields and puts no whitespace between tokens.

* `written_compact`: what is written is the text of a value.
* `compact_plain`: it has no control characters, so that
* `byteLength_quote_le`: written as a string once more, it is at most twice as long.
* `byteLength_obj_le`: an object is not longer than its fields, each with a character behind it.
-/
import Mathlib.Algebra.Order.Group.Nat
import DuDuClaw.Lib.Json
import DuDuClaw.Lib.JsonText

namespace DuDuClaw.Lib

namespace JsonToken

/-! ## Writing -/

open JsonOf

variable {ν : Type}

section Writer

variable [NumberText ν]

mutual

/-- The text without whitespace, with the fields in their order. -/
def compact : JsonOf ν → List Char
  | .null => ['n', 'u', 'l', 'l']
  | .bool true => ['t', 'r', 'u', 'e']
  | .bool false => ['f', 'a', 'l', 's', 'e']
  | .num n => NumberText.text n
  | .str s => quote s
  | .arr items => '[' :: joined ']' (compactItems items)
  | .obj fields => '{' :: joined '}' (compactFields fields)

def compactItems : List (JsonOf ν) → List (List Char)
  | [] => []
  | item :: more => compact item :: compactItems more

def compactFields : List (List Char × JsonOf ν) → List (List Char)
  | [] => []
  | field :: more => fieldText (field.1, compact field.2) :: compactFields more

end

end Writer

/-- The text is read as the tokens, where a bracket, a comma, a colon or nothing follows it. -/
def Lexes (text : List Char) (tokens : List JsonToken) : Prop :=
  ∀ rest, (∀ c ∈ rest.head?, isPunct c = true) →
    lexFrom .between (text ++ rest) = (lexFrom .between rest).map (tokens ++ ·)

variable {text chars first : List Char} {tokens : List JsonToken} {c : Char} {parts : List (List Char)}

theorem Lexes.lex_eq (read : Lexes text tokens) : lex text = some tokens := by
  have alone := read [] (by simp)
  rw [List.append_nil, lexFrom, finish, Option.map_some, List.append_nil] at alone
  exact alone

theorem lexes_nil : Lexes [] [] := fun rest _ => by
  rw [List.nil_append, map_nil_append]

theorem isPunct_plain (punct : isPunct c = true) : isSpace c = false ∧ c ≠ '"' := by
  simp only [isPunct, Bool.or_eq_true, beq_iff_eq] at punct
  rcases punct with ((((rfl | rfl) | rfl) | rfl) | rfl) | rfl <;> decide

theorem lexFrom_punct (punct : isPunct c = true) (rest : List Char) :
    lexFrom .between (c :: rest) = (lexFrom .between rest).map (.punct c :: ·) := by
  obtain ⟨solid, quote⟩ := isPunct_plain punct
  rw [lexFrom_between, if_neg (by rw [solid]; exact Bool.false_ne_true), if_neg quote, if_pos punct]

theorem Lexes.then_punct {left right : List Char} {atLeft atRight : List JsonToken}
    (read : Lexes left atLeft) (punct : isPunct c = true) (more : Lexes right atRight) :
    Lexes (left ++ c :: right) (atLeft ++ .punct c :: atRight) := by
  intro rest open_
  rw [List.append_assoc, List.cons_append, read, lexFrom_punct punct, more rest open_, Option.map_map, Option.map_map]
  · refine congrArg (Option.map · _) (funext fun tail => ?_)
    simp
  · intro d first
    rw [List.head?_cons, Option.mem_some_iff] at first
    exact first ▸ punct

theorem lexFrom_body {raw : List Char} (body : StringBody raw) (seen rest : List Char) :
    lexFrom (.str seen false) (raw ++ '"' :: rest) =
      (lexFrom .between rest).map (.str (seen.reverse ++ raw) :: ·) := by
  induction body generalizing seen with
  | nil => simp [lexFrom_str]
  | plain quote backslash _ _ ih =>
    rw [List.cons_append, lexFrom_str, if_neg backslash, if_neg quote, ih]
    simp
  | escape _ _ ih =>
    rw [List.cons_append, lexFrom_str, if_pos rfl, List.cons_append, lexFrom_escaped, ih]
    simp
  | @unicode digits raw four hex _ ih =>
    have through : ∀ (ds : List Char) (seen : List Char), (∀ c ∈ ds, c ∈ digits) → ∀ rest,
        lexFrom (.str seen false) (ds ++ rest) = lexFrom (.str (ds.reverse ++ seen) false) rest := by
      intro ds
      induction ds with
      | nil => exact fun seen _ rest => rfl
      | cons d ds more =>
        intro seen listed rest
        have plain := hex d (listed d List.mem_cons_self)
        have backslash : d ≠ '\\' := by
          rintro rfl
          revert plain
          decide
        have quote : d ≠ '"' := by
          rintro rfl
          revert plain
          decide
        rw [List.cons_append, lexFrom_str, if_neg backslash, if_neg quote,
          more _ fun c mem => listed c (List.mem_cons_of_mem _ mem)]
        simp
    rw [List.cons_append, lexFrom_str, if_pos rfl, List.cons_append, lexFrom_escaped, List.append_assoc,
      through digits _ (fun _ mem => mem), ih]
    simp

theorem hexDigit_hex : ∀ n < 16, (hexDigit n).isDigit = true ∨ ('a' ≤ hexDigit n ∧ hexDigit n ≤ 'f') := by decide

theorem stringBody_escape (c : Char) {rest : List Char} (body : StringBody rest) : StringBody (escape c ++ rest) := by
  unfold escape
  split_ifs with isQuote isBackslash isNewline isReturn isTab isBackspace isFeed isControl
  · exact .escape (by decide) body
  · exact .escape (by decide) body
  · exact .escape (by decide) body
  · exact .escape (by decide) body
  · exact .escape (by decide) body
  · exact .escape (by decide) body
  · exact .escape (by decide) body
  · refine @StringBody.unicode ['0', '0', hexDigit (c.toNat / 16), hexDigit (c.toNat % 16)] rest rfl ?_ body
    intro d listed
    have wide := hexDigit_hex (c.toNat / 16) (by omega)
    have low := hexDigit_hex (c.toNat % 16) (by omega)
    simp only [List.mem_cons, List.not_mem_nil, or_false] at listed
    rcases listed with rfl | rfl | rfl | rfl
    · exact .inl rfl
    · exact .inl rfl
    · exact wide.imp_right .inl
    · exact low.imp_right .inl
  · exact .plain isQuote isBackslash (Nat.not_lt.mp isControl) body

theorem stringBody_escapes (s : List Char) : StringBody (s.flatMap escape) := by
  induction s with
  | nil => exact .nil
  | cons c s ih =>
    rw [List.flatMap_cons]
    exact stringBody_escape c ih

theorem lexes_quote (s : List Char) : Lexes (quote s) [.str (s.flatMap escape)] := by
  intro rest _
  rw [quote, List.cons_append, List.append_assoc, lexFrom_between]
  rw [if_neg (by decide), if_pos rfl, List.singleton_append, lexFrom_body (stringBody_escapes s)]
  rfl

def WordChar (c : Char) : Prop := isSpace c = false ∧ c ≠ '"' ∧ isPunct c = false

instance : DecidablePred WordChar := fun _ => inferInstanceAs (Decidable (_ ∧ _ ∧ _))

theorem lexFrom_wordChars (plain : ∀ c ∈ chars, WordChar c) (seen rest : List Char)
    (open_ : ∀ c ∈ rest.head?, isPunct c = true) :
    lexFrom (.word seen) (chars ++ rest) = (lexFrom .between rest).map (.word (seen.reverse ++ chars) :: ·) := by
  induction chars generalizing seen with
  | nil =>
    cases rest with
    | nil => simp [lexFrom, finish]
    | cons c rest =>
      have punct := open_ c rfl
      obtain ⟨solid, quote⟩ := isPunct_plain punct
      rw [List.nil_append, lexFrom_punct punct, lexFrom_word, if_neg (by rw [solid]; exact Bool.false_ne_true),
        if_neg quote, if_pos punct, Option.map_map, List.append_nil]
      rfl
  | cons c chars ih =>
    obtain ⟨solid, quote, inner⟩ := plain c List.mem_cons_self
    rw [List.cons_append, lexFrom_word, if_neg (by rw [solid]; exact Bool.false_ne_true), if_neg quote,
      if_neg (by rw [inner]; exact Bool.false_ne_true), ih (fun d listed => plain d (List.mem_cons_of_mem _ listed))]
    simp

theorem lexes_word (nonempty : chars ≠ []) (plain : ∀ c ∈ chars, WordChar c) : Lexes chars [.word chars] := by
  intro rest open_
  obtain ⟨c, chars, rfl⟩ := List.exists_cons_of_ne_nil nonempty
  obtain ⟨solid, quote, inner⟩ := plain c List.mem_cons_self
  rw [List.cons_append, lexFrom_between, if_neg (by rw [solid]; exact Bool.false_ne_true), if_neg quote,
    if_neg (by rw [inner]; exact Bool.false_ne_true),
    lexFrom_wordChars (fun d listed => plain d (List.mem_cons_of_mem _ listed)) _ _ open_]
  rfl

theorem isDigit_wordChar (digit : c.isDigit = true) : WordChar c := by
  refine ⟨?_, ?_, ?_⟩
  · by_contra space
    simp only [Bool.not_eq_false, isSpace, Bool.or_eq_true, beq_iff_eq] at space
    rcases space with ((rfl | rfl) | rfl) | rfl <;> cases digit
  · rintro rfl
    cases digit
  · by_contra punct
    simp only [Bool.not_eq_false, isPunct, Bool.or_eq_true, beq_iff_eq] at punct
    rcases punct with ((((rfl | rfl) | rfl) | rfl) | rfl) | rfl <;> cases digit

theorem isNumberChar_wordChar (number : isNumberChar c = true) : WordChar c := by
  simp only [isNumberChar, Bool.or_eq_true, beq_iff_eq] at number
  rcases number with ((((digit | rfl) | rfl) | rfl) | rfl) | rfl
  · exact isDigit_wordChar digit
  all_goals exact ⟨rfl, by decide, rfl⟩

/-! ## What is written is a value -/

def Written (text : List Char) : Prop := ∃ tokens, JsonValue tokens ∧ Lexes text tokens

def WrittenField (text : List Char) : Prop :=
  ∃ key value, StringBody key ∧ JsonValue value ∧ Lexes text (.str key :: .punct ':' :: value)

theorem joined_items (written : Written first) (rest : ∀ part ∈ parts, Written part) :
    ∃ inner, JsonItems inner ∧ Lexes (first ++ joinTail ']' parts) (inner ++ [.punct ']']) := by
  obtain ⟨tokens, value, read⟩ := written
  induction parts generalizing first tokens with
  | nil => exact ⟨tokens, .one value, read.then_punct rfl lexes_nil⟩
  | cons part parts ih =>
    obtain ⟨others, isValue, reads⟩ := rest part List.mem_cons_self
    obtain ⟨inner, items, whole⟩ := ih (fun p listed => rest p (List.mem_cons_of_mem _ listed)) others isValue reads
    refine ⟨tokens ++ .punct ',' :: inner, .more value items, ?_⟩
    rw [List.append_assoc, List.cons_append]
    exact read.then_punct rfl whole

theorem joined_fields (written : WrittenField first) (rest : ∀ part ∈ parts, WrittenField part) :
    ∃ inner, JsonFields inner ∧ Lexes (first ++ joinTail '\x7d' parts) (inner ++ [.punct '\x7d']) := by
  obtain ⟨key, tokens, body, value, read⟩ := written
  induction parts generalizing first key tokens with
  | nil => exact ⟨_, .one body value, read.then_punct rfl lexes_nil⟩
  | cons part parts ih =>
    obtain ⟨name, others, body', isValue, reads⟩ := rest part List.mem_cons_self
    obtain ⟨inner, fields, whole⟩ :=
      ih (fun p listed => rest p (List.mem_cons_of_mem _ listed)) name others body' isValue reads
    refine ⟨.str key :: .punct ':' :: (tokens ++ .punct ',' :: inner), .more body value fields, ?_⟩
    have longer := read.then_punct (c := ',') rfl whole
    simpa only [joinTail, List.cons_append, List.append_assoc] using longer

theorem lexes_bracket (punct : isPunct c = true)
    (read : Lexes text tokens) : Lexes (c :: text) (.punct c :: tokens) :=
  lexes_nil.then_punct punct read

theorem lexes_field (key : List Char) (read : Lexes text tokens) :
    Lexes (fieldText (key, text)) (.str (key.flatMap escape) :: .punct ':' :: tokens) :=
  (lexes_quote key).then_punct rfl read

theorem written_literal
    (listed : chars ∈ [['n', 'u', 'l', 'l'], ['t', 'r', 'u', 'e'], ['f', 'a', 'l', 's', 'e']]) : Written chars := by
  refine ⟨_, .scalar (.literal listed), ?_⟩
  simp only [List.mem_cons, List.not_mem_nil, or_false] at listed
  rcases listed with rfl | rfl | rfl <;> exact lexes_word (List.cons_ne_nil _ _) (by decide)

section Writer

variable [NumberText ν]

theorem written_number {n : ν} (number : NumberWord (NumberText.text n)) : Written (NumberText.text n) := by
  refine ⟨_, .scalar (.number number), lexes_word ?_ fun c listed => isNumberChar_wordChar (NumberText.chars n c listed)⟩
  obtain ⟨c, rest, shape, -⟩ := NumberText.lead n
  rw [shape]
  exact List.cons_ne_nil _ _

mutual

theorem written_compact (numbers : ∀ n : ν, NumberWord (NumberText.text n)) :
    (value : JsonOf ν) → Written (compact value)
  | .null => @written_literal ['n', 'u', 'l', 'l'] (by decide)
  | .bool true => @written_literal ['t', 'r', 'u', 'e'] (by decide)
  | .bool false => @written_literal ['f', 'a', 'l', 's', 'e'] (by decide)
  | .num n => written_number (numbers n)
  | .str s => ⟨_, .scalar (.str (stringBody_escapes s)), lexes_quote s⟩
  | .arr items => by
    have parts := written_compactItems numbers items
    rw [compact]
    cases shape : compactItems items with
    | nil => exact ⟨_, .emptyArr, lexes_bracket rfl (lexes_bracket rfl lexes_nil)⟩
    | cons first rest =>
      rw [shape] at parts
      obtain ⟨inner, items, read⟩ := joined_items (parts first List.mem_cons_self)
        fun part listed => parts part (List.mem_cons_of_mem _ listed)
      exact ⟨_, .arr items, lexes_bracket rfl read⟩
  | .obj fields => by
    have parts := written_compactFields numbers fields
    rw [compact]
    cases shape : compactFields fields with
    | nil => exact ⟨_, .emptyObj, lexes_bracket rfl (lexes_bracket rfl lexes_nil)⟩
    | cons first rest =>
      rw [shape] at parts
      obtain ⟨inner, fields, read⟩ := joined_fields (parts first List.mem_cons_self)
        fun part listed => parts part (List.mem_cons_of_mem _ listed)
      exact ⟨_, .obj fields, lexes_bracket rfl read⟩

theorem written_compactItems (numbers : ∀ n : ν, NumberWord (NumberText.text n)) :
    (items : List (JsonOf ν)) → ∀ part ∈ compactItems items, Written part
  | [] => by simp [compactItems]
  | item :: more => by
    intro part listed
    rcases List.mem_cons.mp listed with rfl | later
    · exact written_compact numbers item
    · exact written_compactItems numbers more part later

theorem written_compactFields (numbers : ∀ n : ν, NumberWord (NumberText.text n)) :
    (fields : List (List Char × JsonOf ν)) → ∀ part ∈ compactFields fields, WrittenField part
  | [] => by simp [compactFields]
  | (key, value) :: more => by
    intro part listed
    rcases List.mem_cons.mp listed with rfl | later
    · obtain ⟨tokens, isValue, read⟩ := written_compact numbers value
      exact ⟨_, tokens, stringBody_escapes key, isValue, lexes_field key read⟩
    · exact written_compactFields numbers more part later

end

variable {text : List Char} {c close : Char} {parts : List (List Char)}

theorem Written.validJson (written : Written text) : ValidJson text := by
  obtain ⟨tokens, value, read⟩ := written
  exact ⟨tokens, read.lex_eq, value⟩

/-! ## No control characters -/

def Plain (text : List Char) : Prop := ∀ c ∈ text, 32 ≤ c.toNat

instance (text : List Char) : Decidable (Plain text) := inferInstanceAs (Decidable (∀ c ∈ text, _))

theorem plain_append {left right : List Char} : Plain (left ++ right) ↔ Plain left ∧ Plain right :=
  List.forall_mem_append

theorem plain_cons : Plain (c :: text) ↔ 32 ≤ c.toNat ∧ Plain text :=
  List.forall_mem_cons

theorem plain_escape (c : Char) : Plain (escape c) := by
  unfold escape
  split_ifs with isQuote isBackslash isNewline isReturn isTab isBackspace isFeed isControl
  · decide
  · decide
  · decide
  · decide
  · decide
  · decide
  · decide
  · have digits : ∀ n < 16, 32 ≤ (hexDigit n).toNat := by decide
    simp only [plain_cons]
    exact ⟨by decide, by decide, by decide, by decide, digits _ (by omega), digits _ (by omega),
      List.forall_mem_nil _⟩
  · exact fun d listed => List.mem_singleton.mp listed ▸ Nat.not_lt.mp isControl

theorem plain_quote (s : List Char) : Plain (quote s) := by
  rw [quote, plain_cons, plain_append]
  refine ⟨by decide, fun c listed => ?_, fun c listed => ?_⟩
  · obtain ⟨d, -, inside⟩ := List.mem_flatMap.mp listed
    exact plain_escape d c inside
  · rw [List.mem_singleton.mp listed]
    decide

theorem plain_joinTail (bracket : 32 ≤ close.toNat)
    (plain : ∀ part ∈ parts, Plain part) : Plain (joinTail close parts) := by
  induction parts with
  | nil => exact plain_cons.mpr ⟨bracket, List.forall_mem_nil _⟩
  | cons part parts ih =>
    rw [joinTail, plain_cons, plain_append]
    exact ⟨by decide, plain part List.mem_cons_self, ih fun p listed => plain p (List.mem_cons_of_mem _ listed)⟩

theorem plain_joined (bracket : 32 ≤ close.toNat)
    (plain : ∀ part ∈ parts, Plain part) : Plain (joined close parts) := by
  cases parts with
  | nil => exact plain_cons.mpr ⟨bracket, List.forall_mem_nil _⟩
  | cons part parts =>
    rw [joined, plain_append]
    exact ⟨plain part List.mem_cons_self,
      plain_joinTail bracket fun p listed => plain p (List.mem_cons_of_mem _ listed)⟩

theorem isNumberChar_plain (number : isNumberChar c = true) : 32 ≤ c.toNat := by
  simp only [isNumberChar, Bool.or_eq_true, beq_iff_eq] at number
  rcases number with ((((digit | rfl) | rfl) | rfl) | rfl) | rfl
  · have zero : '0'.toNat = 48 := rfl
    have low := (Char.isDigit_iff_toNat.mp digit).1
    omega
  all_goals decide

mutual

theorem compact_plain : (value : JsonOf ν) → Plain (compact value)
  | .null => by
    unfold compact
    decide
  | .bool true => by
    unfold compact
    decide
  | .bool false => by
    unfold compact
    decide
  | .num n => fun c listed => isNumberChar_plain (NumberText.chars n c listed)
  | .str s => plain_quote s
  | .arr items => plain_cons.mpr ⟨by decide, plain_joined (by decide) (compactItems_plain items)⟩
  | .obj fields => plain_cons.mpr ⟨by decide, plain_joined (by decide) (compactFields_plain fields)⟩

theorem compactItems_plain : (items : List (JsonOf ν)) → ∀ part ∈ compactItems items, Plain part
  | [] => by simp [compactItems]
  | item :: more => by
    intro part listed
    rcases List.mem_cons.mp listed with rfl | later
    · exact compact_plain item
    · exact compactItems_plain more part later

theorem compactFields_plain : (fields : List (List Char × JsonOf ν)) → ∀ part ∈ compactFields fields, Plain part
  | [] => by simp [compactFields]
  | (key, value) :: more => by
    intro part listed
    rcases List.mem_cons.mp listed with rfl | later
    · exact plain_append.mpr ⟨plain_quote key, plain_cons.mpr ⟨by decide, compact_plain value⟩⟩
    · exact compactFields_plain more part later

end

end Writer

/-! ## Sizes -/

theorem byteLength_escape_le {c : Char} (plain : 32 ≤ c.toNat) : byteLength (escape c) ≤ 2 * c.utf8Size := by
  have positive := c.utf8Size_pos
  unfold escape
  split_ifs with isQuote isBackslash isNewline isReturn isTab isBackspace isFeed isControl
  · rw [isQuote]
    decide
  · rw [isBackslash]
    decide
  · rw [isNewline]
    decide
  · rw [isReturn]
    decide
  · rw [isTab]
    decide
  · omega
  · omega
  · omega
  · rw [byteLength_cons, byteLength_nil]
    omega

/-- Without control characters, the escapes at most double a text. -/
theorem byteLength_escapes_le {text : List Char} (plain : Plain text) :
    byteLength (text.flatMap escape) ≤ 2 * byteLength text := by
  induction text with
  | nil => exact Nat.le_refl 0
  | cons c text ih =>
    obtain ⟨first, rest⟩ := plain_cons.mp plain
    have one := byteLength_escape_le first
    have more := ih rest
    rw [List.flatMap_cons, byteLength_append, byteLength_cons]
    omega

theorem byteLength_quote_le {s : List Char} (plain : Plain s) : byteLength (quote s) ≤ 2 * byteLength s + 2 := by
  have mark : ('"').utf8Size = 1 := by decide
  have escapes := byteLength_escapes_le plain
  rw [quote, byteLength_cons, byteLength_append, byteLength_cons, byteLength_nil, mark]
  omega

section Writer

variable [NumberText ν]

variable (fields : List (List Char × JsonOf ν))

/-- The bytes of an object's fields, each with the comma or bracket behind it. -/
def fieldsBytes : Nat :=
  (fields.map fun field => byteLength (quote field.1) + byteLength (compact field.2) + 2).sum

theorem byteLength_fieldText (key text : List Char) :
    byteLength (fieldText (key, text)) = byteLength (quote key) + byteLength text + 1 := by
  have colon : (':').utf8Size = 1 := by decide
  show byteLength (quote key ++ ':' :: text) = _
  rw [byteLength_append, byteLength_cons, colon]
  omega

theorem byteLength_joinTail (parts : List (List Char)) :
    byteLength (joinTail '\x7d' parts) = (parts.map fun part => byteLength part + 1).sum + 1 := by
  induction parts with
  | nil => decide
  | cons part parts ih =>
    have comma : (',').utf8Size = 1 := by decide
    rw [joinTail, byteLength_cons, byteLength_append, ih, comma, List.map_cons, List.sum_cons]
    omega

theorem byteLength_joined_le (parts : List (List Char)) :
    byteLength (joined '\x7d' parts) ≤ (parts.map fun part => byteLength part + 1).sum + 1 := by
  cases parts with
  | nil => decide
  | cons part parts =>
    rw [joined, byteLength_append, byteLength_joinTail, List.map_cons, List.sum_cons]
    omega

theorem compactFields_eq_map :
    compactFields fields = fields.map fun field => fieldText (field.1, compact field.2) := by
  induction fields with
  | nil => rfl
  | cons field fields ih => rw [compactFields, ih, List.map_cons]

theorem byteLength_obj_le :
    byteLength (compact (.obj fields)) ≤ fieldsBytes fields + 2 := by
  have brace : ('\x7b').utf8Size = 1 := by decide
  have inner := byteLength_joined_le (compactFields fields)
  have same : (compactFields fields).map (fun part => byteLength part + 1) =
      fields.map fun field => byteLength (quote field.1) + byteLength (compact field.2) + 2 := by
    rw [compactFields_eq_map, List.map_map]
    exact List.map_congr_left fun field _ => congrArg (· + 1) (byteLength_fieldText field.1 _)
  rw [same] at inner
  rw [compact, byteLength_cons, brace, fieldsBytes]
  omega

end Writer

/-! ## Integers -/

theorem toDigits_zero_first {n : Nat} (first : (Nat.toDigits 10 n).head? = some '0') : Nat.toDigits 10 n = ['0'] := by
  induction n using Nat.strongRecOn with
  | ind n ih =>
    by_cases small : n < 10
    · rw [Nat.toDigits_of_lt_base small] at first ⊢
      rw [List.head?_cons, Option.some.injEq] at first
      rw [first]
    rw [Nat.toDigits_of_base_le (by decide) (Nat.not_lt.mp small)] at first
    rw [List.head?_append_of_ne_nil _ Nat.toDigits_ne_nil] at first
    have zero := ih (n / 10) (by omega) first
    have value := congrArg (Nat.ofDigitChars 10 · 0) zero
    rw [Nat.ofDigitChars_ten_toDigits] at value
    have : n / 10 = 0 := value
    omega

theorem digits_toDigits (n : Nat) : Digits (Nat.toDigits 10 n) := ⟨Nat.toDigits_ne_nil, toDigits_digits n⟩

theorem numberWord_int (n : Int) : NumberWord (NumberText.text n) := by
  cases n with
  | ofNat n =>
    exact ⟨[], _, [], [], by simp; rfl, .inl rfl, digits_toDigits n, toDigits_zero_first, .inl rfl, .inl rfl⟩
  | negSucc n =>
    exact ⟨['-'], _, [], [], by simp; rfl, .inr rfl, digits_toDigits (n + 1), toDigits_zero_first, .inl rfl,
      .inl rfl⟩

theorem compact_validJson (value : Json) : ValidJson (compact value) :=
  (written_compact numberWord_int value).validJson

end JsonToken

end DuDuClaw.Lib
