/-
# Ccr.Compaction -- compaction without loss

A structured tool result goes into the model's context without its insignificant whitespace:
a JSON text whole, and a text of JSON objects, one on each line, line by line.  The loop over
the bytes keeps a string's bytes and drops the whitespace between tokens.

* `stripJsonWhitespace_eq`: on bytes, it is `squeeze` of the characters.
* `compactJsonLines_eq`: what becomes of lines that are objects.
* `compaction_lossless`: the tokens stay, the text gets no longer, and compacting again changes
  nothing.
-/
import DuDuClaw.Lib.Ascii
import DuDuClaw.Lib.JsonText
import DuDuClaw.Lib.Lines

namespace DuDuClaw.Ccr.Compaction

open Lib Lib.JsonToken

abbrev Text := List Char

/-! ## The loop over the bytes -/

def stripBytes (inString escaped : Bool) : List UInt8 → List UInt8
  | [] => []
  | byte :: rest =>
    if inString then
      byte ::
        if escaped then stripBytes inString false rest
        else if byte == ascii '\\' then stripBytes inString true rest
        else if byte == ascii '"' then stripBytes false escaped rest
        else stripBytes inString escaped rest
    else if byte == ascii '"' then byte :: stripBytes true escaped rest
    else if byte == ascii ' ' || byte == ascii '\t' || byte == ascii '\n' || byte == ascii '\r' then
      stripBytes inString escaped rest
    else byte :: stripBytes inString escaped rest

def fromUtf8 (text : List UInt8) : Option Text := (text.toByteArray.utf8Decode?).map Array.toList

/-- `strip_json_whitespace`, where `none` is the `expect` that stops the program. -/
def stripJsonWhitespace (validJson : Text) : Option Text := fromUtf8 (stripBytes false false (bytes validJson))

theorem fromUtf8_bytes (s : Text) : fromUtf8 (bytes s) = some s := by
  have decoded := @List.utf8Decode?_utf8Encode s
  rw [fromUtf8]
  show Option.map Array.toList (s.utf8Encode.utf8Decode?) = _
  rw [decoded]
  rfl

/-- The loop's flags in a string, behind a backslash or not, and outside of one. -/
def flags : Option Bool → Bool × Bool
  | none => (false, false)
  | some escaped => (true, escaped)

theorem beq_ascii {a c : Char} (narrow : a.utf8Size = 1) (narrow' : c.utf8Size = 1) :
    (ascii c == ascii a) = decide (c = a) := by
  rw [Bool.eq_iff_iff, beq_iff_eq, decide_eq_true_iff]
  exact ⟨fun same => ascii_inj narrow' narrow same, fun same => same ▸ rfl⟩

theorem beq_ascii_high {a : Char} (narrow : a.utf8Size = 1) {b : UInt8} (high : 0x80 ≤ b) :
    (b == ascii a) = false := by
  rw [beq_eq_false_iff_ne]
  rintro rfl
  exact ascii_low narrow high

/-- A byte outside of ASCII is kept. -/
theorem stripBytes_high {b : UInt8} (high : 0x80 ≤ b) (rest : List UInt8) (mode : Option Bool) :
    stripBytes (flags mode).1 (flags mode).2 (b :: rest) =
      b :: stripBytes (flags (mode.map fun _ => false)).1 (flags (mode.map fun _ => false)).2 rest := by
  have backslash := beq_ascii_high (a := '\\') (by decide) high
  have quote := beq_ascii_high (a := '"') (by decide) high
  have space := beq_ascii_high (a := ' ') (by decide) high
  have tab := beq_ascii_high (a := '\t') (by decide) high
  have newline := beq_ascii_high (a := '\n') (by decide) high
  have return_ := beq_ascii_high (a := '\r') (by decide) high
  rcases mode with _ | _ | _
  · simp [flags, stripBytes, quote, space, tab, newline, return_]
  · simp [flags, stripBytes, backslash, quote]
  · simp [flags, stripBytes]

theorem stripBytes_highs {encoded : List UInt8} (high : ∀ b ∈ encoded, 0x80 ≤ b) (nonempty : encoded ≠ [])
    (rest : List UInt8) (mode : Option Bool) : stripBytes (flags mode).1 (flags mode).2 (encoded ++ rest) =
      encoded ++ stripBytes (flags (mode.map fun _ => false)).1 (flags (mode.map fun _ => false)).2 rest := by
  induction encoded generalizing mode with
  | nil => exact absurd rfl nonempty
  | cons b encoded ih =>
    obtain ⟨first, more⟩ := List.forall_mem_cons.mp high
    rw [List.cons_append, stripBytes_high first, List.cons_append]
    cases encoded with
    | nil => rfl
    | cons d encoded =>
      have again : (mode.map fun _ => false).map (fun _ => false) = mode.map fun _ => false := by
        cases mode <;> rfl
      rw [ih more (List.cons_ne_nil _ _), again]

theorem squeezeFrom_wide {c : Char} (wide : c.utf8Size ≠ 1) (rest : Text) (mode : Option Bool) :
    squeezeFrom mode (c :: rest) = c :: squeezeFrom (mode.map fun _ => false) rest := by
  have quote : c ≠ '"' := by
    rintro rfl
    exact wide (by decide)
  have backslash : c ≠ '\\' := by
    rintro rfl
    exact wide (by decide)
  have solid : isSpace c = false := by
    by_contra space
    simp only [Bool.not_eq_false, isSpace, Bool.or_eq_true, beq_iff_eq] at space
    rcases space with ((rfl | rfl) | rfl) | rfl <;> exact wide (by decide)
  rcases mode with _ | _ | _
  · rw [squeezeFrom, if_neg quote, solid]
    rfl
  · rw [squeezeFrom, if_neg backslash, if_neg quote]
    rfl
  · rfl

theorem stripBytes_eq (s : Text) (mode : Option Bool) :
    stripBytes (flags mode).1 (flags mode).2 (bytes s) = bytes (squeezeFrom mode s) := by
  induction s generalizing mode with
  | nil => cases mode <;> rfl
  | cons c s ih =>
    by_cases narrow : c.utf8Size = 1
    · have backslash := beq_ascii (a := '\\') (by decide) narrow
      have quote := beq_ascii (a := '"') (by decide) narrow
      have blank : (ascii c == ascii ' ' || ascii c == ascii '\t' || ascii c == ascii '\n' || ascii c == ascii '\r') =
          isSpace c := by
        rw [beq_ascii (by decide) narrow, beq_ascii (by decide) narrow, beq_ascii (by decide) narrow,
          beq_ascii (by decide) narrow]
        rfl
      have outside := ih none
      have plain := ih (some false)
      have escaped := ih (some true)
      simp only [flags] at outside plain escaped
      rw [bytes_cons_ascii narrow]
      rcases mode with _ | _ | _
      · rw [squeezeFrom]
        split_ifs with isQuote space
        · rw [bytes_cons_ascii narrow, ← plain]
          simp [flags, stripBytes, quote.trans (decide_eq_true isQuote)]
        · rw [← outside]
          simp [flags, stripBytes, quote.trans (decide_eq_false isQuote), blank, space]
        · rw [bytes_cons_ascii narrow, ← outside]
          simp [flags, stripBytes, quote.trans (decide_eq_false isQuote), blank, space]
      · rw [squeezeFrom]
        split_ifs with isBackslash isQuote
        · rw [bytes_cons_ascii narrow, ← escaped]
          simp [flags, stripBytes, backslash.trans (decide_eq_true isBackslash)]
        · rw [bytes_cons_ascii narrow, ← outside]
          simp [flags, stripBytes, backslash.trans (decide_eq_false isBackslash), quote.trans (decide_eq_true isQuote)]
        · rw [bytes_cons_ascii narrow, ← plain]
          simp [flags, stripBytes, backslash.trans (decide_eq_false isBackslash),
            quote.trans (decide_eq_false isQuote)]
      · rw [squeezeFrom, bytes_cons_ascii narrow, ← plain]
        simp [flags, stripBytes]
    · rw [bytes_cons, stripBytes_highs (fun b listed => high_of_wide narrow listed) String.utf8EncodeChar_ne_nil, ih,
        squeezeFrom_wide narrow, bytes_cons]

/-- On bytes, it is `squeeze` of the characters. -/
theorem stripJsonWhitespace_eq (s : Text) : stripJsonWhitespace s = some (squeeze s) := by
  rw [stripJsonWhitespace]
  have loop := stripBytes_eq s none
  simp only [flags] at loop
  rw [loop, fromUtf8_bytes]
  rfl

/-! ## Compaction -/

/-- `serde_json::from_str::<Value>`. -/
structure JsonReader where
  Value : Type
  fromStr : Text → Option Value
  isObject : Value → Bool

/-- What is documented of it: it accepts JSON only, whitespace between tokens does not count, and an
object is what stands in braces. -/
structure JsonReader.Documented (reader : JsonReader) : Prop where
  sound : ∀ {text value}, reader.fromStr text = some value → ValidJson text
  insignificant : ∀ {text other}, lex text = lex other → reader.fromStr text = reader.fromStr other
  object : ∀ {text value tokens}, reader.fromStr text = some value → lex text = some tokens →
    (reader.isObject value = true ↔ tokens.head? = some (.punct '\x7b'))

variable {reader : JsonReader}

/-- The loop over the lines, where `none` outside stops the program. -/
def compactLinesFrom (reader : JsonReader) : List Text → Text → Nat → Option (Option (Text × Nat))
  | [], compact, count => some (some (compact, count))
  | line :: rest, compact, count =>
    let trimmed := trim line
    if trimmed.head? ≠ some '\x7b' then some none
    else
      match reader.fromStr trimmed with
      | none => some none
      | some value =>
        if reader.isObject value = false then some none
        else
          (stripJsonWhitespace trimmed).bind fun stripped =>
            compactLinesFrom reader rest ((if 0 < count then compact ++ ['\n'] else compact) ++ stripped)
              (count + 1)

def compactJsonLines (reader : JsonReader) (original : Text) : Option (Option Text) :=
  (compactLinesFrom reader (lines original) [] 0).map fun finished =>
    finished.bind fun done => if 8 ≤ done.2 then some done.1 else none

/-- The first byte behind the leading whitespace is an opening bracket. -/
def opensWithBracket (original : Text) : Bool :=
  let first := (bytes (original.dropWhile isWhitespace)).head?
  first == some (ascii '\x7b') || first == some (ascii '[')

def losslessCompactStructured (reader : JsonReader) (original : Text) : Option (Option Text) :=
  if opensWithBracket original && (reader.fromStr original).isSome then (stripJsonWhitespace original).map some
  else compactJsonLines reader original

def JsonLines (reader : JsonReader) (text : Text) : Prop :=
  ∀ line ∈ lines text, ∃ value, reader.fromStr line = some value ∧ reader.isObject value = true

/-! ## Valid texts -/

theorem lex_squeeze_valid {text : Text} (valid : ValidJson text) : lex (squeeze text) = lex text := by
  obtain ⟨tokens, read, value⟩ := valid
  rw [read, lex_squeeze read value.separated]

theorem squeeze_valid {text : Text} (valid : ValidJson text) : ValidJson (squeeze text) := by
  have same := lex_squeeze_valid valid
  obtain ⟨tokens, read, value⟩ := valid
  exact ⟨tokens, same.trans read, value⟩

theorem isSpace_isWhitespace {c : Char} (space : isSpace c = true) : isWhitespace c = true := by
  simp only [isSpace, Bool.or_eq_true, beq_iff_eq] at space
  rcases space with ((rfl | rfl) | rfl) | rfl <;> decide

theorem dropWhile_spaces {spaces rest : Text} {c : Char} (blank : ∀ d ∈ spaces, isSpace d = true)
    (solid : isWhitespace c = false) : (spaces ++ c :: rest).dropWhile isWhitespace = c :: rest := by
  rw [List.dropWhile_append_of_pos fun d listed => isSpace_isWhitespace (blank d listed), List.dropWhile_cons, solid]
  rfl

theorem trim_spaces {front spaces spaces' : Text} {c d : Char} {core : Text} (before : ∀ e ∈ spaces, isSpace e = true)
    (behind : ∀ e ∈ spaces', isSpace e = true) (opens : core = c :: front) (closes : core.getLast? = some d)
    (solid : isWhitespace c = false) (solid' : isWhitespace d = false) :
    trim (spaces ++ (core ++ spaces')) = core := by
  obtain ⟨back, shape⟩ := List.getLast?_eq_some_iff.mp closes
  have begin_ : (spaces ++ (core ++ spaces')).dropWhile isWhitespace = core ++ spaces' := by
    rw [opens, List.cons_append]
    exact dropWhile_spaces before solid
  have reversed : (core ++ spaces').reverse = spaces'.reverse ++ d :: back.reverse := by
    rw [shape]
    simp
  rw [trim, begin_, reversed, dropWhile_spaces (fun e listed => behind e (List.mem_reverse.mp listed)) solid', shape]
  simp

theorem object_tokens {tokens : List JsonToken} (value : JsonValue tokens)
    (first : tokens.head? = some (.punct '\x7b')) :
    ∃ inner, tokens = .punct '\x7b' :: (inner ++ [.punct '\x7d']) := by
  cases value with
  | scalar scalar =>
    cases first
    cases scalar
  | emptyArr | arr items => cases first
  | emptyObj => exact ⟨[], rfl⟩
  | obj fields => exact ⟨_, rfl⟩

/-! ## Lines of objects -/

structure ObjectLine (reader : JsonReader) (line : Text) : Prop where
  opens : (trim line).head? = some '\x7b'
  closes : (trim line).getLast? = some '\x7d'
  same : lex (trim line) = lex line
  valid : ValidJson (trim line)
  read : ∃ value, reader.fromStr (trim line) = some value ∧ reader.isObject value = true

theorem objectLine_of_read (documented : reader.Documented) {line : Text} {value : reader.Value}
    (read : reader.fromStr line = some value) (object : reader.isObject value = true) : ObjectLine reader line := by
  obtain ⟨tokens, lexed, isValue⟩ := documented.sound read
  obtain ⟨inner, rfl⟩ := object_tokens isValue ((documented.object read lexed).mp object)
  obtain ⟨spaces, rest, rfl, before⟩ := opens_of_first lexed
  rw [lex_spaces_append before] at lexed
  have last : (JsonToken.punct '\x7b' :: (inner ++ [.punct '\x7d'])).getLast? = some (.punct '\x7d') := by
    rw [← List.cons_append]
    exact List.getLast?_concat ..
  obtain ⟨front, spaces', shape, behind, core⟩ := closes_of_last lexed last
  obtain ⟨more, rfl⟩ : ∃ more, front = '\x7b' :: more := by
    cases front with
    | nil => cases (List.cons.inj shape).1
    | cons c more => exact ⟨more, by rw [(List.cons.inj shape).1]⟩
  have whole : '\x7b' :: rest = ('\x7b' :: more ++ ['\x7d']) ++ spaces' := by
    rw [shape, List.append_assoc]
    rfl
  have trimmed : trim (spaces ++ '\x7b' :: rest) = '\x7b' :: more ++ ['\x7d'] := by
    rw [whole]
    exact trim_spaces before behind rfl (List.getLast?_concat ..) (by decide) (by decide)
  have same : lex (trim (spaces ++ '\x7b' :: rest)) = lex (spaces ++ '\x7b' :: rest) := by
    rw [trimmed, core, lex_spaces_append before, lexed]
  refine ⟨by rw [trimmed]; rfl, by rw [trimmed]; exact List.getLast?_concat .., same, ?_, value, ?_, object⟩
  · exact ⟨_, by rw [trimmed]; exact core, isValue⟩
  · rw [documented.insignificant same, read]

theorem trim_sublist (s : Text) : (trim s).Sublist s := by
  have inner := (List.dropWhile_sublist (l := (s.dropWhile isWhitespace).reverse) isWhitespace).reverse
  rw [List.reverse_reverse] at inner
  exact inner.trans (List.dropWhile_sublist isWhitespace)

theorem ObjectLine.squeezed {line : Text} (object : ObjectLine reader line) (plain : '\n' ∉ line) :
    IsLine (squeeze (trim line)) ∧ trim (squeeze (trim line)) = squeeze (trim line) ∧
      lex (squeeze (trim line)) = lex line := by
  obtain ⟨rest, opens⟩ := List.head?_eq_some_iff.mp object.opens
  obtain ⟨front, closes⟩ := List.getLast?_eq_some_iff.mp object.closes
  have first : squeeze (trim line) = '\x7b' :: squeezeFrom none rest := by
    rw [opens]
    rfl
  obtain ⟨back, last⟩ := squeezeFrom_concat (c := '\x7d') (by decide) none front
  have last' : (squeeze (trim line)).getLast? = some '\x7d' := by
    rw [closes, squeeze, last]
    exact List.getLast?_concat ..
  refine ⟨⟨?_, ?_, ?_⟩, ?_, ?_⟩
  · rw [first]
    exact List.cons_ne_nil _ _
  · exact fun inside => plain ((trim_sublist _).subset ((squeezeFrom_sublist none _).subset inside))
  · rw [last']
    decide
  · have none_ : ∀ e ∈ ([] : Text), isSpace e = true := List.forall_mem_nil _
    have whole := trim_spaces none_ none_ first last' (by decide) (by decide)
    rwa [List.append_nil, List.nil_append] at whole
  · rw [lex_squeeze_valid object.valid, object.same]

def compactLine (line : Text) : Text := squeeze (trim line)

theorem compactLinesFrom_eq {listed : List Text} (all : ∀ line ∈ listed, ObjectLine reader line) (compact : Text)
    (count : Nat) : compactLinesFrom reader listed compact count =
      some (some (compact ++ (if 0 < count then (listed.map compactLine).flatMap ('\n' :: ·)
        else joinLines (listed.map compactLine)), count + listed.length)) := by
  induction listed generalizing compact count with
  | nil =>
    rw [compactLinesFrom]
    split_ifs <;> simp [joinLines]
  | cons line rest ih =>
    obtain ⟨object, more⟩ := List.forall_mem_cons.mp all
    obtain ⟨value, read, isObject⟩ := object.read
    rw [compactLinesFrom, if_neg (fun differ => differ object.opens), read]
    dsimp only
    rw [if_neg (by rw [isObject]; decide), stripJsonWhitespace_eq, Option.bind_some,
      ih more, if_pos (Nat.succ_pos count)]
    split_ifs <;> simp [joinLines, compactLine, Nat.add_comm, Nat.add_left_comm]

theorem lex_linesFrom {seen text : Text} (read : ∀ line ∈ linesFrom seen text, ∃ tokens, lex line = some tokens) :
    lex (seen.reverse ++ text) = some ((linesFrom seen text).flatMap fun line => (lex line).getD []) := by
  induction text generalizing seen with
  | nil =>
    rw [linesFrom] at read ⊢
    split_ifs at read ⊢ with nothing
    · rw [nothing]
      rfl
    · obtain ⟨tokens, lexed⟩ := read _ List.mem_cons_self
      rw [List.append_nil, List.flatMap_cons, lexed]
      simp
  | cons c text ih =>
    rw [linesFrom] at read ⊢
    split_ifs at read ⊢ with newline
    · obtain ⟨one, more⟩ := List.forall_mem_cons.mp read
      obtain ⟨tokens, lexed⟩ := one
      have line : lex seen.reverse = some tokens := by
        rcases stripReturn_cases seen.reverse with same | longer
        · rwa [same] at lexed
        · rw [longer]
          exact lex_append_spaces (by decide) lexed
      have rest := @ih [] more
      rw [List.reverse_nil, List.nil_append, lex] at rest
      rw [newline, lex, lexFrom_append_space line (by decide), rest, List.flatMap_cons, lexed]
      rfl
    · have longer := ih read
      rwa [List.reverse_cons, List.append_assoc, List.singleton_append] at longer

theorem lex_lines {text : Text} (read : ∀ line ∈ lines text, ∃ tokens, lex line = some tokens) :
    lex text = some ((lines text).flatMap fun line => (lex line).getD []) := lex_linesFrom read

theorem objectLines (documented : reader.Documented) {text : Text} (objects : JsonLines reader text) :
    ∀ line ∈ lines text, ObjectLine reader line := fun line listed => by
  obtain ⟨value, read, object⟩ := objects line listed
  exact objectLine_of_read documented read object

theorem ObjectLine.lexes {line : Text} (object : ObjectLine reader line) :
    ∃ tokens, lex line = some tokens ∧ JsonValue tokens := by
  obtain ⟨tokens, read, value⟩ := object.valid
  exact ⟨tokens, object.same ▸ read, value⟩

/-- Two objects or more are not one value. -/
theorem not_valid_of_objects {text : Text} (objects : ∀ line ∈ lines text, ObjectLine reader line)
    (several : 2 ≤ (lines text).length) : ¬ValidJson text := by
  rintro ⟨all, read, whole⟩
  have joined := lex_lines fun line listed => (objects line listed).lexes.imp fun _ both => both.1
  rw [read, Option.some.injEq] at joined
  generalize lines text = parts at joined objects several
  obtain _ | ⟨first, _ | ⟨second, more⟩⟩ := parts
  · cases several
  · exact absurd several (Nat.not_succ_le_self 1)
  obtain ⟨tokens, lexed, value⟩ := (objects first List.mem_cons_self).lexes
  obtain ⟨others, lexed', value'⟩ := (objects second (List.mem_cons_of_mem _ List.mem_cons_self)).lexes
  rw [List.flatMap_cons, List.flatMap_cons, lexed, lexed', Option.getD_some, Option.getD_some] at joined
  rw [joined] at whole
  exact value'.ne_nil (List.append_eq_nil_iff.mp (value.whole whole)).1

theorem compactJsonLines_eq {text : Text} (objects : ∀ line ∈ lines text, ObjectLine reader line)
    (enough : 8 ≤ (lines text).length) :
    compactJsonLines reader text = some (some (joinLines ((lines text).map compactLine))) := by
  rw [compactJsonLines, compactLinesFrom_eq objects, if_neg (Nat.lt_irrefl 0), List.nil_append, Nat.zero_add,
    Option.map_some, Option.bind_some, if_pos enough]

theorem lossless_objects (documented : reader.Documented) {text : Text}
    (objects : ∀ line ∈ lines text, ObjectLine reader line) (enough : 8 ≤ (lines text).length) :
    losslessCompactStructured reader text = some (some (joinLines ((lines text).map compactLine))) := by
  have rejected : reader.fromStr text = none := by
    by_contra accepted
    obtain ⟨value, read⟩ := Option.ne_none_iff_exists'.mp accepted
    exact not_valid_of_objects objects (by omega) (documented.sound read)
  rw [losslessCompactStructured, rejected, Option.isSome_none, Bool.and_false, if_neg Bool.false_ne_true,
    compactJsonLines_eq objects enough]

theorem lines_compacted {text : Text} (objects : ∀ line ∈ lines text, ObjectLine reader line) :
    lines (joinLines ((lines text).map compactLine)) = (lines text).map compactLine :=
  lines_joinLines fun part listed => by
    obtain ⟨line, inside, rfl⟩ := List.mem_map.mp listed
    exact ((objects line inside).squeezed (newline_not_mem_lines inside)).1

theorem ObjectLine.compacted (documented : reader.Documented) {line : Text} (object : ObjectLine reader line)
    (plain : '\n' ∉ line) :
    (∃ value, reader.fromStr (compactLine line) = some value ∧ reader.isObject value = true) ∧
      compactLine (compactLine line) = compactLine line := by
  obtain ⟨-, trimmed, same⟩ := object.squeezed plain
  obtain ⟨value, read, isObject⟩ := object.read
  refine ⟨⟨value, ?_, isObject⟩, ?_⟩
  · rw [← read, compactLine]
    exact documented.insignificant (same.trans object.same.symm)
  · rw [compactLine, compactLine, trimmed, squeeze_idem]

/-! ## Bracketed texts -/

/-- The first token is an opening bracket. -/
def Bracketed (text : Text) : Prop :=
  ∃ more, lex text = some (.punct '\x7b' :: more) ∨ lex text = some (.punct '[' :: more)

theorem Bracketed.opens {text : Text} (bracketed : Bracketed text) : opensWithBracket text = true := by
  obtain ⟨more, read | read⟩ := bracketed
  · obtain ⟨spaces, rest, rfl, blank⟩ := opens_of_first read
    rw [opensWithBracket, dropWhile_spaces blank (by decide)]
    have first : (bytes ('\x7b' :: rest)).head? = some (ascii '\x7b') := (head?_bytes_ascii (by decide)).mpr rfl
    simp [first]
  obtain ⟨spaces, rest, rfl, blank⟩ := opens_of_first read
  rw [opensWithBracket, dropWhile_spaces blank (by decide)]
  have first : (bytes ('[' :: rest)).head? = some (ascii '[') := (head?_bytes_ascii (by decide)).mpr rfl
  simp [first]

theorem lossless_bracketed {text : Text} (bracketed : Bracketed text) {value : reader.Value}
    (read : reader.fromStr text = some value) :
    losslessCompactStructured reader text = some (some (squeeze text)) := by
  rw [losslessCompactStructured, bracketed.opens, read, Option.isSome_some, Bool.and_true, if_pos rfl,
    stripJsonWhitespace_eq, Option.map_some]

/-- The tokens stay, the text gets no longer and stays valid, and compacting again changes nothing:
for JSON texts that are stripped, for those that begin with a bracket, and for eight or more lines
of objects. -/
theorem compaction_lossless (documented : reader.Documented) :
    (∀ text, ValidJson text → ∃ compact, stripJsonWhitespace text = some compact ∧
      lex compact = lex text ∧ ValidJson compact ∧ byteLength compact ≤ byteLength text ∧
      stripJsonWhitespace compact = some compact) ∧
    (∀ text value, reader.fromStr text = some value → Bracketed text →
      ∃ compact, losslessCompactStructured reader text = some (some compact) ∧
        lex compact = lex text ∧ reader.fromStr compact = some value ∧ ValidJson compact ∧
        byteLength compact ≤ byteLength text ∧ losslessCompactStructured reader compact = some (some compact)) ∧
    (∀ text, JsonLines reader text → 8 ≤ (lines text).length →
      ∃ compact, losslessCompactStructured reader text = some (some compact) ∧
        lex compact = lex text ∧ List.Forall₂ (fun line line' => lex line' = lex line) (lines text) (lines compact) ∧
        JsonLines reader compact ∧ byteLength compact ≤ byteLength text ∧
        losslessCompactStructured reader compact = some (some compact)) := by
  refine ⟨fun text valid => ?_, fun text value read bracketed => ?_, fun text jsonLines enough => ?_⟩
  · exact ⟨_, stripJsonWhitespace_eq text, lex_squeeze_valid valid, squeeze_valid valid, byteLength_squeeze_le text,
      by rw [stripJsonWhitespace_eq, squeeze_idem]⟩
  · have valid := documented.sound read
    have same := lex_squeeze_valid valid
    have read' : reader.fromStr (squeeze text) = some value := by rw [documented.insignificant same, read]
    have bracketed' : Bracketed (squeeze text) := by
      rw [Bracketed, same]
      exact bracketed
    have again := lossless_bracketed bracketed' read'
    rw [squeeze_idem] at again
    exact ⟨_, lossless_bracketed bracketed read, same, read', squeeze_valid valid, byteLength_squeeze_le text, again⟩
  · have objects := objectLines documented jsonLines
    have result := lines_compacted objects
    have compacted : ∀ line ∈ lines text, _ := fun line listed =>
      (objects line listed).compacted documented (newline_not_mem_lines listed)
    have same : ∀ line ∈ lines text, lex (compactLine line) = lex line := fun line listed =>
      ((objects line listed).squeezed (newline_not_mem_lines listed)).2.2
    have jsonLines' : JsonLines reader (joinLines ((lines text).map compactLine)) := by
      intro line listed
      rw [result] at listed
      obtain ⟨line, inside, rfl⟩ := List.mem_map.mp listed
      exact (compacted line inside).1
    have objects' := objectLines documented jsonLines'
    have again := lossless_objects documented objects' (by rwa [result, List.length_map])
    have fixed : ((lines text).map compactLine).map compactLine = (lines text).map compactLine := by
      rw [List.map_map]
      exact List.map_congr_left fun line inside => (compacted line inside).2
    rw [result, fixed] at again
    have tokens := lex_lines fun line listed => (objects line listed).lexes.imp fun _ both => both.1
    have tokens' := lex_lines fun line listed => (objects' line listed).lexes.imp fun _ both => both.1
    have shorter : ∀ line ∈ lines text, (compactLine line).Sublist line := fun line _ =>
      (squeezeFrom_sublist none _).trans (trim_sublist line)
    refine ⟨_, lossless_objects documented objects enough, ?_, ?_, jsonLines', ?_, again⟩
    · rw [tokens', tokens, result, List.flatMap_map]
      refine congrArg some (List.flatMap_congr fun line listed => ?_)
      rw [same line listed]
    · rw [result, List.forall₂_map_right_iff, List.forall₂_same]
      exact same
    · exact byteLength_le_of_sublist ((joinLines_sublist shorter).trans (joinLines_lines_sublist text))

/-- A reader that knows one array and the empty object. -/
def twoTexts : JsonReader where
  Value := Bool
  fromStr text :=
    if lex text = some [.punct '[', .word ['1'], .punct ']'] then some false
    else if lex text = some [.punct '\x7b', .punct '\x7d'] then some true
    else none
  isObject value := value

theorem numberWord_one : NumberWord ['1'] :=
  ⟨[], ['1'], [], [], rfl, .inl rfl, ⟨by decide, by decide⟩, by decide, .inl rfl, .inl rfl⟩

theorem twoTexts_documented : twoTexts.Documented where
  sound {text value} read := by
    simp only [twoTexts] at read
    split_ifs at read with array object
    · exact ⟨_, array, .arr (.one (.scalar (.number numberWord_one)))⟩
    · exact ⟨_, object, .emptyObj⟩
  insignificant {text other} same := by simp only [twoTexts, same]
  object {text value tokens} read lexed := by
    simp only [twoTexts] at read ⊢
    split_ifs at read with array object
    · rw [array, Option.some.injEq] at lexed
      cases read
      rw [← lexed]
      decide
    rw [object, Option.some.injEq] at lexed
    cases read
    rw [← lexed]
    decide

theorem compaction_lossless_array :
    ∃ compact, losslessCompactStructured twoTexts [' ', '[', '1', ' ', ']'] = some (some compact) ∧
      lex compact = lex [' ', '[', '1', ' ', ']'] ∧ byteLength compact ≤ 5 := by
  obtain ⟨compact, result, same, -, -, shorter, -⟩ :=
    (compaction_lossless twoTexts_documented).2.1 [' ', '[', '1', ' ', ']'] false rfl ⟨_, .inr rfl⟩
  exact ⟨compact, result, same, shorter⟩

/-- A number alone is valid, and two objects on two lines are lines of objects; of neither does
anything become. -/
theorem unsupported_forms :
    (ValidJson ['4', '2'] ∧ ∀ reader, losslessCompactStructured reader ['4', '2'] = some none) ∧
    (JsonLines twoTexts ['\x7b', '\x7d', '\n', '\x7b', '\x7d'] ∧
      losslessCompactStructured twoTexts ['\x7b', '\x7d', '\n', '\x7b', '\x7d'] = some none) := by
  have number : NumberWord ['4', '2'] :=
    ⟨[], ['4', '2'], [], [], rfl, .inl rfl, ⟨by decide, by decide⟩, by decide, .inl rfl, .inl rfl⟩
  refine ⟨⟨⟨_, rfl, .scalar (.number number)⟩, fun reader => rfl⟩, ?_, ?_⟩
  · intro line listed
    have braces : lines ['\x7b', '\x7d', '\n', '\x7b', '\x7d'] = [['\x7b', '\x7d'], ['\x7b', '\x7d']] := rfl
    rw [braces] at listed
    have same : line = ['\x7b', '\x7d'] := by simpa using listed
    rw [same]
    exact ⟨true, rfl, rfl⟩
  · have objects : ∀ line ∈ lines ['\x7b', '\x7d', '\n', '\x7b', '\x7d'], ObjectLine twoTexts line := by
      intro line listed
      have same : line = ['\x7b', '\x7d'] := by
        simpa using (show line ∈ [['\x7b', '\x7d'], ['\x7b', '\x7d']] from listed)
      rw [same]
      exact @objectLine_of_read twoTexts twoTexts_documented _ true rfl rfl
    rw [losslessCompactStructured, compactJsonLines, compactLinesFrom_eq objects]
    rfl

end DuDuClaw.Ccr.Compaction
