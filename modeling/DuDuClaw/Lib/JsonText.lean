/-
# Lib.JsonText -- JSON texts by their tokens

A JSON text is a sequence of tokens with whitespace between them: brackets, commas and colons,
strings with their raw characters, and words, which are numbers or literals.  Two words are never
next to each other, so that no token needs the whitespace.

* `lex`: the tokens of a text.
* `JsonValue`: the token sequences of values.
* `lex_squeeze`: a text keeps its tokens without the whitespace between them.
* `JsonValue.whole`: no value is a proper start of another.
-/
import Mathlib.Algebra.Ring.Int.Defs
import Mathlib.Data.List.Chain
import Mathlib.Data.Char
import DuDuClaw.Lib.Chars
import DuDuClaw.Lib.Utf8

namespace DuDuClaw.Lib

inductive JsonToken where
  | punct (c : Char)
  | word (chars : List Char)
  | str (raw : List Char)
  deriving DecidableEq

namespace JsonToken

/-! ## Lexing -/

/-- `ws` of JSON. -/
def isSpace (c : Char) : Bool := c == ' ' || c == '\t' || c == '\n' || c == '\r'

def isPunct (c : Char) : Bool :=
  c == '[' || c == ']' || c == '{' || c == '}' || c == ',' || c == ':'

/-- Where the lexer is: between tokens, in a word, or in a string behind a backslash or not, with
what it has seen of the token, last character first. -/
inductive LexState where
  | between
  | word (seen : List Char)
  | str (seen : List Char) (escaped : Bool)

/-- What the next character ends, and where the lexer is behind it. -/
def step : LexState → Char → List JsonToken × LexState
  | .between, c =>
    if isSpace c then ([], .between)
    else if c = '"' then ([], .str [] false)
    else if isPunct c then ([.punct c], .between)
    else ([], .word [c])
  | .word seen, c =>
    if isSpace c then ([.word seen.reverse], .between)
    else if c = '"' then ([.word seen.reverse], .str [] false)
    else if isPunct c then ([.word seen.reverse, .punct c], .between)
    else ([], .word (c :: seen))
  | .str seen true, c => ([], .str (c :: seen) false)
  | .str seen false, c =>
    if c = '\\' then ([], .str (c :: seen) true)
    else if c = '"' then ([.str seen.reverse], .between)
    else ([], .str (c :: seen) false)

/-- What the end of the text ends. -/
def finish : LexState → Option (List JsonToken)
  | .between => some []
  | .word seen => some [.word seen.reverse]
  | .str _ _ => none

def lexFrom : LexState → List Char → Option (List JsonToken)
  | st, [] => finish st
  | st, c :: rest => (lexFrom (step st c).2 rest).map ((step st c).1 ++ ·)

def lex (text : List Char) : Option (List JsonToken) := lexFrom .between text

theorem map_nil_append (tokens : Option (List JsonToken)) : tokens.map ([] ++ ·) = tokens := by
  cases tokens <;> rfl

theorem map_append_append (lead more : List JsonToken) (tokens : Option (List JsonToken)) :
    (tokens.map (more ++ ·)).map (lead ++ ·) = tokens.map ((lead ++ more) ++ ·) := by
  rw [Option.map_map]
  exact congrArg (Option.map · tokens) (funext fun tail => (List.append_assoc lead more tail).symm)

theorem lexFrom_cons (st : LexState) (c : Char) (rest : List Char) :
    lexFrom st (c :: rest) = (lexFrom (step st c).2 rest).map ((step st c).1 ++ ·) := rfl

theorem lexFrom_between (c : Char) (rest : List Char) : lexFrom .between (c :: rest) =
      if isSpace c then lexFrom .between rest
      else if c = '"' then lexFrom (.str [] false) rest
      else if isPunct c then (lexFrom .between rest).map (.punct c :: ·) else lexFrom (.word [c]) rest := by
  rw [lexFrom_cons, step]
  split_ifs
  · exact map_nil_append _
  · exact map_nil_append _
  · rfl
  · exact map_nil_append _

theorem lexFrom_word (seen : List Char) (c : Char) (rest : List Char) : lexFrom (.word seen) (c :: rest) =
      if isSpace c then (lexFrom .between rest).map (.word seen.reverse :: ·)
      else if c = '"' then (lexFrom (.str [] false) rest).map (.word seen.reverse :: ·)
      else if isPunct c then (lexFrom .between rest).map fun more => .word seen.reverse :: .punct c :: more
      else lexFrom (.word (c :: seen)) rest := by
  rw [lexFrom_cons, step]
  split_ifs
  · rfl
  · rfl
  · rfl
  · exact map_nil_append _

theorem lexFrom_escaped (seen : List Char) (c : Char) (rest : List Char) :
    lexFrom (.str seen true) (c :: rest) = lexFrom (.str (c :: seen) false) rest := map_nil_append _

theorem lexFrom_str (seen : List Char) (c : Char) (rest : List Char) : lexFrom (.str seen false) (c :: rest) =
      if c = '\\' then lexFrom (.str (c :: seen) true) rest
      else if c = '"' then (lexFrom .between rest).map (.str seen.reverse :: ·)
      else lexFrom (.str (c :: seen) false) rest := by
  rw [lexFrom_cons, step]
  split_ifs
  · exact map_nil_append _
  · rfl
  · exact map_nil_append _

/-! ## Values -/

inductive StringBody : List Char → Prop
  | nil : StringBody []
  | plain {c : Char} {rest : List Char} : c ≠ '"' → c ≠ '\\' → 32 ≤ c.toNat → StringBody rest →
      StringBody (c :: rest)
  | escape {c : Char} {rest : List Char} : c ∈ ['"', '\\', '/', 'b', 'f', 'n', 'r', 't'] → StringBody rest →
      StringBody ('\\' :: c :: rest)
  | unicode {digits rest : List Char} : digits.length = 4 →
      (∀ c ∈ digits, c.isDigit = true ∨ ('a' ≤ c ∧ c ≤ 'f') ∨ ('A' ≤ c ∧ c ≤ 'F')) → StringBody rest →
      StringBody ('\\' :: 'u' :: (digits ++ rest))

def Digits (s : List Char) : Prop := s ≠ [] ∧ ∀ c ∈ s, c.isDigit = true

/-- `number`. -/
def NumberWord (s : List Char) : Prop :=
  ∃ sign whole frac exp, s = sign ++ whole ++ frac ++ exp ∧ (sign = [] ∨ sign = ['-']) ∧
    Digits whole ∧ (whole.head? = some '0' → whole = ['0']) ∧
    (frac = [] ∨ ∃ digits, Digits digits ∧ frac = '.' :: digits) ∧
    (exp = [] ∨ ∃ e mark digits, Digits digits ∧ (e = 'e' ∨ e = 'E') ∧ (mark = [] ∨ mark = ['+'] ∨ mark = ['-']) ∧
      exp = e :: (mark ++ digits))

inductive Scalar : JsonToken → Prop
  | literal {chars : List Char} : chars ∈ [['n', 'u', 'l', 'l'], ['t', 'r', 'u', 'e'], ['f', 'a', 'l', 's', 'e']] →
      Scalar (.word chars)
  | number {chars : List Char} : NumberWord chars → Scalar (.word chars)
  | str {raw : List Char} : StringBody raw → Scalar (.str raw)

mutual
inductive JsonValue : List JsonToken → Prop
  | scalar {t : JsonToken} : Scalar t → JsonValue [t]
  | emptyArr : JsonValue [.punct '[', .punct ']']
  | arr {items : List JsonToken} : JsonItems items → JsonValue (.punct '[' :: (items ++ [.punct ']']))
  | emptyObj : JsonValue [.punct '{', .punct '}']
  | obj {fields : List JsonToken} : JsonFields fields → JsonValue (.punct '{' :: (fields ++ [.punct '}']))
inductive JsonItems : List JsonToken → Prop
  | one {value : List JsonToken} : JsonValue value → JsonItems value
  | more {value rest : List JsonToken} : JsonValue value → JsonItems rest →
      JsonItems (value ++ .punct ',' :: rest)
inductive JsonFields : List JsonToken → Prop
  | one {key : List Char} {value : List JsonToken} : StringBody key → JsonValue value →
      JsonFields (.str key :: .punct ':' :: value)
  | more {key : List Char} {value rest : List JsonToken} : StringBody key → JsonValue value → JsonFields rest →
      JsonFields (.str key :: .punct ':' :: (value ++ .punct ',' :: rest))
end

def ValidJson (text : List Char) : Prop := ∃ tokens, lex text = some tokens ∧ JsonValue tokens

/-! ## Words are apart -/

def isWord : JsonToken → Bool
  | .word _ => true
  | _ => false

/-- No two words are next to each other. -/
def Separated (tokens : List JsonToken) : Prop :=
  tokens.IsChain fun left right => ¬(left.isWord = true ∧ right.isWord = true)

theorem Separated.punct {left right : List JsonToken} (c : Char) (atLeft : Separated left) (atRight : Separated right) :
    Separated (left ++ .punct c :: right) := by
  refine List.isChain_append.mpr ⟨atLeft, List.isChain_cons.mpr ⟨fun _ _ both => ?_, atRight⟩, ?_⟩
  · cases both.1
  · intro x _ y first both
    rw [List.head?_cons, Option.mem_some_iff] at first
    rw [← first] at both
    cases both.2

theorem separated_single (t : JsonToken) : Separated [t] := List.isChain_singleton t

theorem Separated.bracketed {inner : List JsonToken} (opening closing : Char) (inside : Separated inner) :
    Separated (.punct opening :: (inner ++ [.punct closing])) :=
  Separated.punct opening .nil (inside.punct closing .nil)

mutual

theorem JsonValue.separated {tokens : List JsonToken} : JsonValue tokens → Separated tokens
  | .scalar _ => separated_single _
  | .emptyArr => Separated.bracketed _ _ .nil
  | .arr items => items.separated.bracketed _ _
  | .emptyObj => Separated.bracketed _ _ .nil
  | .obj fields => fields.separated.bracketed _ _

theorem JsonItems.separated {tokens : List JsonToken} : JsonItems tokens → Separated tokens
  | .one value => value.separated
  | .more value rest => value.separated.punct _ rest.separated

theorem JsonFields.separated {tokens : List JsonToken} : JsonFields tokens → Separated tokens
  | .one _ value => (separated_single _).punct ':' value.separated
  | .more _ value rest => (separated_single _).punct ':' (value.separated.punct _ rest.separated)

end

/-! ## Without whitespace -/

/-- The characters but for the whitespace between tokens, in a string behind a backslash or not. -/
def squeezeFrom : Option Bool → List Char → List Char
  | _, [] => []
  | none, c :: rest =>
    if c = '"' then c :: squeezeFrom (some false) rest
    else if isSpace c then squeezeFrom none rest
    else c :: squeezeFrom none rest
  | some true, c :: rest => c :: squeezeFrom (some false) rest
  | some false, c :: rest =>
    if c = '\\' then c :: squeezeFrom (some true) rest
    else if c = '"' then c :: squeezeFrom none rest
    else c :: squeezeFrom (some false) rest

def squeeze (text : List Char) : List Char := squeezeFrom none text

def LexState.mode : LexState → Option Bool
  | .between => none
  | .word _ => none
  | .str _ escaped => some escaped

variable {text rest : List Char} {tokens : List JsonToken}

theorem squeezeFrom_sublist (mode : Option Bool) (text : List Char) : (squeezeFrom mode text).Sublist text := by
  induction text generalizing mode with
  | nil => cases mode <;> exact List.Sublist.refl _
  | cons c rest ih =>
    rcases mode with _ | _ | _
    · rw [squeezeFrom]
      split_ifs
      · exact (ih _).cons_cons _
      · exact (ih _).cons _
      · exact (ih _).cons_cons _
    · rw [squeezeFrom]
      split_ifs
      · exact (ih _).cons_cons _
      · exact (ih _).cons_cons _
      · exact (ih _).cons_cons _
    · exact (ih _).cons_cons _

theorem squeezeFrom_idem (mode : Option Bool) (text : List Char) :
    squeezeFrom mode (squeezeFrom mode text) = squeezeFrom mode text := by
  induction text generalizing mode with
  | nil => cases mode <;> rfl
  | cons c rest ih =>
    rcases mode with _ | _ | _
    · rw [squeezeFrom]
      split_ifs with quote space
      · rw [squeezeFrom, if_pos quote, ih]
      · exact ih none
      · rw [squeezeFrom, if_neg quote, if_neg space, ih]
    · rw [squeezeFrom]
      split_ifs with backslash quote
      · rw [squeezeFrom, if_pos backslash, ih]
      · rw [squeezeFrom, if_neg backslash, if_pos quote, ih]
      · rw [squeezeFrom, if_neg backslash, if_neg quote, ih]
    · rw [squeezeFrom, squeezeFrom, ih]

theorem squeeze_idem (text : List Char) : squeeze (squeeze text) = squeeze text := squeezeFrom_idem none text

theorem squeezeFrom_unspaced {c : Char} (shape : squeezeFrom none text = c :: rest) : isSpace c = false := by
  induction text with
  | nil => cases shape
  | cons d text ih =>
    rw [squeezeFrom] at shape
    split_ifs at shape with quote space
    · rw [List.cons.injEq] at shape
      rw [← shape.1, quote]
      rfl
    · exact ih shape
    · rw [List.cons.injEq] at shape
      rw [← shape.1]
      exact (Bool.not_eq_true _).mp space

theorem lexFrom_word_first {seen : List Char}
    (read : lexFrom (.word seen) rest = some tokens) : ∃ chars more, tokens = .word chars :: more := by
  induction rest generalizing seen with
  | nil =>
    cases read
    exact ⟨_, _, rfl⟩
  | cons c rest ih =>
    rw [lexFrom_word] at read
    split_ifs at read
    · obtain ⟨more, -, rfl⟩ := Option.map_eq_some_iff.mp read
      exact ⟨_, _, rfl⟩
    · obtain ⟨more, -, rfl⟩ := Option.map_eq_some_iff.mp read
      exact ⟨_, _, rfl⟩
    · obtain ⟨more, -, rfl⟩ := Option.map_eq_some_iff.mp read
      exact ⟨_, _, rfl⟩
    · exact ih read

/-- A word ends before a token that is none, also where no whitespace stands between them. -/
theorem lexFrom_word_of_between {seen : List Char}
    (unspaced : ∀ c ∈ rest.head?, isSpace c = false) (read : lexFrom .between rest = some tokens)
    (apart : Separated (.word seen.reverse :: tokens)) :
    lexFrom (.word seen) rest = some (.word seen.reverse :: tokens) := by
  cases rest with
  | nil =>
    cases read
    rfl
  | cons c rest =>
    have solid := unspaced c rfl
    rw [lexFrom_between, if_neg (Bool.not_eq_true _ ▸ solid)] at read
    rw [lexFrom_word, if_neg (Bool.not_eq_true _ ▸ solid)]
    split_ifs at read with quote punct
    · rw [if_pos quote, read]
      rfl
    · obtain ⟨more, inner, rfl⟩ := Option.map_eq_some_iff.mp read
      rw [if_neg quote, if_pos punct, inner]
      rfl
    · obtain ⟨chars, more, rfl⟩ := lexFrom_word_first read
      exact absurd ⟨rfl, rfl⟩ ((List.isChain_cons.mp apart).1 _ rfl)

theorem lexFrom_squeeze {st : LexState} (read : lexFrom st text = some tokens) (apart : Separated tokens) :
    lexFrom st (squeezeFrom st.mode text) = some tokens := by
  induction text generalizing st tokens with
  | nil =>
    rcases st with _ | _ | _
    · exact read
    · exact read
    · exact read
  | cons c rest ih =>
    rcases st with _ | seen | ⟨seen, _ | _⟩
    · rw [lexFrom_between] at read
      rw [LexState.mode, squeezeFrom]
      split_ifs at read with space quote punct
      · rw [if_neg (by rintro rfl; cases space), if_pos space]
        exact ih read apart
      · rw [if_pos quote, lexFrom_between, if_neg space, if_pos quote]
        exact ih read apart
      · obtain ⟨more, inner, rfl⟩ := Option.map_eq_some_iff.mp read
        rw [if_neg quote, if_neg space, lexFrom_between, if_neg space, if_neg quote, if_pos punct]
        have tail := ih inner apart.tail
        rw [LexState.mode] at tail
        rw [tail]
        rfl
      · rw [if_neg quote, if_neg space, lexFrom_between, if_neg space, if_neg quote, if_neg punct]
        exact ih read apart
    · rw [lexFrom_word] at read
      rw [LexState.mode, squeezeFrom]
      split_ifs at read with space quote punct
      · obtain ⟨more, inner, rfl⟩ := Option.map_eq_some_iff.mp read
        rw [if_neg (by rintro rfl; cases space), if_pos space]
        exact lexFrom_word_of_between (fun d first => by
          obtain ⟨tail, shape⟩ := List.head?_eq_some_iff.mp first
          exact squeezeFrom_unspaced shape) (ih inner apart.tail) apart
      · obtain ⟨more, inner, rfl⟩ := Option.map_eq_some_iff.mp read
        rw [if_pos quote, lexFrom_word, if_neg space, if_pos quote]
        have tail := ih inner apart.tail
        rw [LexState.mode] at tail
        rw [tail]
        rfl
      · obtain ⟨more, inner, rfl⟩ := Option.map_eq_some_iff.mp read
        rw [if_neg quote, if_neg space, lexFrom_word, if_neg space, if_neg quote, if_pos punct]
        have tail := ih inner apart.tail.tail
        rw [LexState.mode] at tail
        rw [tail]
        rfl
      · rw [if_neg quote, if_neg space, lexFrom_word, if_neg space, if_neg quote, if_neg punct]
        exact ih read apart
    · rw [lexFrom_str] at read
      rw [LexState.mode, squeezeFrom]
      split_ifs at read with backslash quote
      · rw [if_pos backslash, lexFrom_str, if_pos backslash]
        exact ih read apart
      · obtain ⟨more, inner, rfl⟩ := Option.map_eq_some_iff.mp read
        rw [if_neg backslash, if_pos quote, lexFrom_str, if_neg backslash, if_pos quote]
        have tail := ih inner apart.tail
        rw [LexState.mode] at tail
        rw [tail]
        rfl
      · rw [if_neg backslash, if_neg quote, lexFrom_str, if_neg backslash, if_neg quote]
        exact ih read apart
    · rw [lexFrom_escaped] at read
      rw [LexState.mode, squeezeFrom, lexFrom_escaped]
      exact ih read apart

/-- A text keeps its tokens without the whitespace between them. -/
theorem lex_squeeze (read : lex text = some tokens)
    (apart : Separated tokens) : lex (squeeze text) = some tokens :=
  lexFrom_squeeze read apart

theorem byteLength_squeeze_le (text : List Char) : byteLength (squeeze text) ≤ byteLength text :=
  byteLength_le_of_sublist (squeezeFrom_sublist none text)

theorem squeezeFrom_concat {c : Char} (solid : isSpace c = false) (mode : Option Bool) (text : List Char) :
    ∃ front, squeezeFrom mode (text ++ [c]) = front ++ [c] := by
  induction text generalizing mode with
  | nil =>
    refine ⟨[], ?_⟩
    rcases mode with _ | _ | _
    · rw [List.nil_append, squeezeFrom, solid]
      split_ifs with _ absurd_
      · rfl
      · cases absurd_
      · rfl
    · rw [List.nil_append, squeezeFrom]
      split_ifs
      · rfl
      · rfl
      · rfl
    · rfl
  | cons d text ih =>
    have kept : ∀ mode, ∃ front, d :: squeezeFrom mode (text ++ [c]) = front ++ [c] := fun mode => by
      obtain ⟨front, shape⟩ := ih mode
      exact ⟨d :: front, by rw [shape]; rfl⟩
    rcases mode with _ | _ | _
    · rw [List.cons_append, squeezeFrom]
      split_ifs
      · exact kept _
      · exact ih none
      · exact kept _
    · rw [List.cons_append, squeezeFrom]
      split_ifs
      · exact kept _
      · exact kept _
      · exact kept _
    · exact kept _

/-! ## Whitespace around a text -/

/-- The tokens that end in a text, and where the lexer is behind it. -/
def after : LexState → List Char → List JsonToken × LexState
  | st, [] => ([], st)
  | st, c :: rest => ((step st c).1 ++ (after (step st c).2 rest).1, (after (step st c).2 rest).2)

variable {tokens : List JsonToken} {c : Char} {text : List Char}

theorem lexFrom_append (st : LexState) (front back : List Char) :
    lexFrom st (front ++ back) = (lexFrom (after st front).2 back).map ((after st front).1 ++ ·) := by
  induction front generalizing st with
  | nil => exact (map_nil_append _).symm
  | cons c front ih =>
    rw [List.cons_append, lexFrom_cons, ih, map_append_append]
    rfl

theorem lexFrom_eq_finish (st : LexState) (text : List Char) :
    lexFrom st text = (finish (after st text).2).map ((after st text).1 ++ ·) := by
  have whole := lexFrom_append st text []
  rwa [List.append_nil, lexFrom] at whole

/-- Whitespace ends what stands before it. -/
theorem lexFrom_append_space {st : LexState} {front : List Char}
    (read : lexFrom st front = some tokens) (space : isSpace c = true) (back : List Char) :
    lexFrom st (front ++ c :: back) = (lexFrom .between back).map (tokens ++ ·) := by
  rw [lexFrom_eq_finish] at read
  rw [lexFrom_append, lexFrom_cons]
  cases place : (after st front).2 with
  | between =>
    rw [place, finish, Option.map_some, List.append_nil, Option.some.injEq] at read
    rw [step, if_pos space, read, map_append_append, List.append_nil]
  | word seen =>
    rw [place, finish, Option.map_some, Option.some.injEq] at read
    rw [step, if_pos space, map_append_append, read]
  | str seen escaped =>
    rw [place, finish] at read
    cases read

theorem lex_append_spaces {spaces : List Char} (blank : ∀ c ∈ spaces, isSpace c = true)
    (read : lex text = some tokens) : lex (text ++ spaces) = some tokens := by
  cases spaces with
  | nil => rwa [List.append_nil]
  | cons c spaces =>
    obtain ⟨space, rest⟩ := List.forall_mem_cons.mp blank
    have nothing : lexFrom .between spaces = some [] := by
      clear blank
      induction spaces with
      | nil => rfl
      | cons d spaces ih =>
        rw [lexFrom_between, if_pos (rest d List.mem_cons_self)]
        exact ih fun e listed => rest e (List.mem_cons_of_mem _ listed)
    rw [lex, lexFrom_append_space read space, nothing, Option.map_some, List.append_nil]

theorem lex_spaces_append {spaces : List Char} (blank : ∀ c ∈ spaces, isSpace c = true) (text : List Char) :
    lex (spaces ++ text) = lex text := by
  induction spaces with
  | nil => rfl
  | cons c spaces ih =>
    rw [lex, List.cons_append, lexFrom_between, if_pos (blank c List.mem_cons_self)]
    exact ih fun d listed => blank d (List.mem_cons_of_mem _ listed)

theorem lexFrom_str_first {seen : List Char} {escaped : Bool}
    (read : lexFrom (.str seen escaped) text = some tokens) : ∃ raw more, tokens = .str raw :: more := by
  induction text generalizing seen escaped with
  | nil => cases read
  | cons c text ih =>
    cases escaped with
    | true =>
      rw [lexFrom_escaped] at read
      exact ih read
    | false =>
      rw [lexFrom_str] at read
      split_ifs at read
      · exact ih read
      · obtain ⟨more, -, rfl⟩ := Option.map_eq_some_iff.mp read
        exact ⟨_, _, rfl⟩
      · exact ih read

/-- Before the first token there is whitespace only. -/
theorem opens_of_first {more : List JsonToken} (read : lex text = some (.punct c :: more)) :
    ∃ spaces rest, text = spaces ++ c :: rest ∧ ∀ d ∈ spaces, isSpace d = true := by
  induction text with
  | nil => cases read
  | cons d text ih =>
    rw [lex, lexFrom_between] at read
    split_ifs at read with space quote punct
    · obtain ⟨spaces, rest, rfl, blank⟩ := ih read
      exact ⟨d :: spaces, rest, rfl, List.forall_mem_cons.mpr ⟨space, blank⟩⟩
    · obtain ⟨raw, more, shape⟩ := lexFrom_str_first read
      cases shape
    · obtain ⟨more, -, shape⟩ := Option.map_eq_some_iff.mp read
      cases shape
      exact ⟨[], text, rfl, List.forall_mem_nil _⟩
    · obtain ⟨chars, more, shape⟩ := lexFrom_word_first read
      cases shape

/-- Behind the last token there is whitespace only. -/
theorem closes_of_last (read : lex text = some tokens) (last : tokens.getLast? = some (.punct c)) :
    ∃ front spaces, text = front ++ c :: spaces ∧ (∀ d ∈ spaces, isSpace d = true) ∧
      lex (front ++ [c]) = some tokens := by
  induction text using List.reverseRecOn with
  | nil =>
    cases read
    cases last
  | append_singleton front d ih =>
    have whole := read
    rw [lex, lexFrom_append, lexFrom_cons, lexFrom] at whole
    have before : lex front = _ := lexFrom_eq_finish .between front
    by_cases space : isSpace d = true
    · have shorter : lex front = some tokens := by
        cases place : (after .between front).2 with
        | between | word seen =>
          rw [place, step, if_pos space] at whole
          rw [before, place]
          exact whole
        | str seen escaped =>
          rw [place] at whole
          cases escaped with
          | true => cases whole
          | false =>
            rw [step, if_neg (by rintro rfl; cases space), if_neg (by rintro rfl; cases space)] at whole
            cases whole
      obtain ⟨more, spaces, rfl, blank, core⟩ := ih shorter
      refine ⟨more, spaces ++ [d], by rw [List.append_assoc]; rfl, ?_, core⟩
      exact List.forall_mem_append.mpr ⟨blank, fun e listed => List.mem_singleton.mp listed ▸ space⟩
    · have same : d = c := by
        cases place : (after .between front).2 with
        | between | word seen =>
          rw [place, step, if_neg space] at whole
          split_ifs at whole
          · cases whole
          · cases whole
            rw [List.getLast?_append] at last
            cases last
            rfl
          · cases whole
            rw [List.getLast?_append] at last
            cases last
        | str seen escaped =>
          rw [place] at whole
          cases escaped with
          | true => cases whole
          | false =>
            rw [step] at whole
            split_ifs at whole
            · cases whole
            · cases whole
              rw [List.getLast?_append] at last
              cases last
            · cases whole
      rw [same] at read
      exact ⟨front, [], by rw [same], List.forall_mem_nil _, read⟩

/-! ## Brackets -/

def level : JsonToken → Int
  | .punct c => if c = '[' ∨ c = '{' then 1 else if c = ']' ∨ c = '}' then -1 else 0
  | _ => 0

/-- The brackets that are open after the tokens. -/
def depth (tokens : List JsonToken) : Int := (tokens.map level).sum

theorem depth_append (left right : List JsonToken) : depth (left ++ right) = depth left + depth right := by
  rw [depth, List.map_append, List.sum_append]
  rfl

theorem depth_cons (t : JsonToken) (tokens : List JsonToken) : depth (t :: tokens) = level t + depth tokens := by
  rw [depth, List.map_cons, List.sum_cons]
  rfl

/-- Every bracket is closed, and none before it is opened. -/
structure Balanced (tokens : List JsonToken) : Prop where
  closed : depth tokens = 0
  opened : ∀ front back, front ++ back = tokens → 0 ≤ depth front

theorem balanced_nil : Balanced [] where
  closed := rfl
  opened front back parts := by
    rw [(List.append_eq_nil_iff.mp parts).1]
    exact Int.le_refl 0

theorem balanced_single {t : JsonToken} (flat : level t = 0) : Balanced [t] where
  closed := by
    rw [depth_cons, flat]
    rfl
  opened front back parts := by
    cases front with
    | nil => exact Int.le_refl 0
    | cons x front =>
      rw [List.cons_append, List.cons.injEq] at parts
      rw [parts.1, (List.append_eq_nil_iff.mp parts.2).1, depth_cons, flat]
      exact Int.le_refl 0

theorem Balanced.append {left right : List JsonToken} (atLeft : Balanced left) (atRight : Balanced right) :
    Balanced (left ++ right) where
  closed := by
    rw [depth_append, atLeft.closed, atRight.closed]
    rfl
  opened front back parts := by
    rcases List.append_eq_append_iff.mp parts with ⟨more, rfl, -⟩ | ⟨more, rfl, rfl⟩
    · exact atLeft.opened front more rfl
    · rw [depth_append, atLeft.closed, Int.zero_add]
      exact atRight.opened more back rfl

/-- Between brackets, a proper part from the start has the bracket open. -/
theorem Balanced.inside {inner front back : List JsonToken} (inside : Balanced inner) {opening closing : Char}
    (opens : level (.punct opening) = 1) (parts : front ++ back = .punct opening :: (inner ++ [.punct closing]))
    (some_ : front ≠ []) (proper : back ≠ []) : 0 < depth front := by
  obtain ⟨x, front, rfl⟩ := List.exists_cons_of_ne_nil some_
  rw [List.cons_append, List.cons.injEq] at parts
  obtain ⟨rfl, parts⟩ := parts
  have nonneg : 0 ≤ depth front := by
    rcases List.append_eq_append_iff.mp parts with ⟨more, rfl, -⟩ | ⟨more, rfl, rest⟩
    · exact inside.opened front more rfl
    have empty : more = [] := by
      by_contra nonempty
      obtain ⟨y, more, rfl⟩ := List.exists_cons_of_ne_nil nonempty
      rw [List.cons_append, List.cons.injEq] at rest
      exact proper (List.append_eq_nil_iff.mp rest.2.symm).2
    exact Int.le_of_eq (by rw [empty, List.append_nil, inside.closed])
  rw [depth_cons, opens]
  omega

theorem Balanced.bracketed {inner : List JsonToken} (inside : Balanced inner) {opening closing : Char}
    (opens : level (.punct opening) = 1) (closes : level (.punct closing) = -1) :
    Balanced (.punct opening :: (inner ++ [.punct closing])) := by
  have closed : depth (.punct opening :: (inner ++ [.punct closing])) = 0 := by
    rw [depth_cons, depth_append, depth_cons, opens, closes, inside.closed]
    rfl
  refine ⟨closed, fun front back parts => ?_⟩
  by_cases nothing : front = []
  · rw [nothing]
    exact Int.le_refl 0
  by_cases all : back = []
  · rw [all, List.append_nil] at parts
    exact Int.le_of_eq (by rw [parts, closed])
  · exact Int.le_of_lt (inside.inside opens parts nothing all)

theorem Scalar.level_eq {t : JsonToken} (scalar : Scalar t) : level t = 0 := by
  cases scalar with
  | literal _ | number _ | str _ => rfl

mutual

theorem JsonValue.balanced {tokens : List JsonToken} : JsonValue tokens → Balanced tokens
  | .scalar scalar => balanced_single scalar.level_eq
  | .emptyArr => balanced_nil.bracketed rfl rfl
  | .arr items => items.balanced.bracketed rfl rfl
  | .emptyObj => balanced_nil.bracketed rfl rfl
  | .obj fields => fields.balanced.bracketed rfl rfl

theorem JsonItems.balanced {tokens : List JsonToken} : JsonItems tokens → Balanced tokens
  | .one value => value.balanced
  | .more value rest => value.balanced.append ((@balanced_single (.punct ',') rfl).append rest.balanced)

theorem JsonFields.balanced {tokens : List JsonToken} : JsonFields tokens → Balanced tokens
  | .one _ value =>
    (@balanced_single (.str _) rfl).append ((@balanced_single (.punct ':') rfl).append value.balanced)
  | .more _ value rest =>
    (@balanced_single (.str _) rfl).append ((@balanced_single (.punct ':') rfl).append
      (value.balanced.append ((@balanced_single (.punct ',') rfl).append rest.balanced)))

end

theorem JsonValue.ne_nil {tokens : List JsonToken} (value : JsonValue tokens) : tokens ≠ [] := by
  cases value <;> exact List.cons_ne_nil _ _

/-- No value is a proper start of another. -/
theorem JsonValue.whole {tokens rest : List JsonToken} (value : JsonValue tokens)
    (longer : JsonValue (tokens ++ rest)) : rest = [] := by
  by_contra proper
  have bracket : ∀ {inner : List JsonToken} {opening closing : Char}, Balanced inner →
      level (.punct opening) = 1 → tokens ++ rest ≠ .punct opening :: (inner ++ [.punct closing]) := by
    intro inner opening closing inside opens parts
    have positive := inside.inside opens parts value.ne_nil proper
    rw [value.balanced.closed] at positive
    exact Int.lt_irrefl 0 positive
  generalize parts : tokens ++ rest = all at longer
  cases longer with
  | scalar scalar =>
    obtain ⟨t, tokens, rfl⟩ := List.exists_cons_of_ne_nil value.ne_nil
    rw [List.cons_append, List.cons.injEq] at parts
    exact proper (List.append_eq_nil_iff.mp parts.2).2
  | emptyArr | emptyObj => exact @bracket [] _ _ balanced_nil rfl parts
  | arr items => exact bracket items.balanced rfl parts
  | obj fields => exact bracket fields.balanced rfl parts

end JsonToken

end DuDuClaw.Lib
