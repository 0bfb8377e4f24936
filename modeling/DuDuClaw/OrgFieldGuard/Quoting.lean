/-
# OrgFieldGuard.Quoting -- no quoting hides a word

The tokenizer of bash_parse.rs undoes bare characters, backslashes, both kinds of quotes and
line continuations, in any mixture within a word.

* `read_mark`: what one mark of a line does to the scan.
* `tokenize_written`: words apart by blanks are read as they are, however they are written.
* `commandWords_line`: so are the words of every command of a line.
-/
import DuDuClaw.Lib.ShellLine
import DuDuClaw.OrgFieldGuard.Reading

namespace DuDuClaw.OrgFieldGuard

open DuDuClaw.Lib

/-! ## One mark -/

def separatorTok (c : Char) : Tok :=
  if c = '(' then .opening else if c = ')' then .closing else .sep

def Scan.mark (st : Scan) (m : Mark) : Scan :=
  match m with
  | .continued => st
  | .blank _ => st.flush
  | .separator c => st.sep (separatorTok c)
  | m => st.extend (m.letters.getD [])

variable {c : Char} {rest : List Char} {m : Mark} {marks : List Mark}

theorem read_quotedBit (bit : QuotedBit) (ok : bit.ok) (rest : List Char) (st : Scan) :
    read (some '"') (bit.text ++ rest) st = read (some '"') rest { st with cur := st.cur ++ bit.value } := by
  cases bit with
  | plain c =>
    simp only [QuotedBit.ok, Bool.and_eq_true, bne_iff_ne] at ok
    rw [QuotedBit.text, QuotedBit.value, List.singleton_append, read_cons]
    have one : step (some '"') c rest st = (some '"', rest, st.add c) := by
      unfold step
      cases rest with
      | nil | cons n after => simp [ok]
    rw [one]
    rfl
  | escaped c =>
    exact read_quotedItem (.escaped c) ok rest st
  | slashed c =>
    exact read_quotedItem (.slashed c) ok rest st
  | continued =>
    rw [QuotedBit.text, QuotedBit.value, List.cons_append, List.singleton_append, read_cons]
    have one : step (some '"') '\\' ('\n' :: rest) st = (some '"', rest, st) := rfl
    rw [one, List.append_nil]

theorem read_bits (bits : List QuotedBit) (ok : bits.all QuotedBit.ok) (rest : List Char) (st : Scan) :
    read (some '"') (bits.flatMap QuotedBit.text ++ '"' :: rest) st =
      read none rest { st with cur := st.cur ++ bits.flatMap QuotedBit.value } := by
  induction bits generalizing st with
  | nil =>
    rw [List.flatMap_nil, List.nil_append, read_cons]
    simp [step]
  | cons bit bits ih =>
    rw [List.all_cons, Bool.and_eq_true] at ok
    rw [List.flatMap_cons, List.append_assoc, read_quotedBit bit ok.1, ih ok.2]
    simp

/-- Blanks of any kind end the word. -/
theorem read_blank (blank : isLineBlank c) (rest : List Char) (st : Scan) :
    read none (c :: rest) st = read none rest st.flush := by
  simp only [isLineBlank, Bool.and_eq_true, bne_iff_ne] at blank
  have other : ∀ d : Char, isWhitespace d = false → c ≠ d := by
    rintro d plain rfl
    rw [plain] at blank
    cases blank.1
  have slash := other '\\' (by decide)
  have apostrophe := other '\'' (by decide)
  have quote := other '"' (by decide)
  have one : step none c rest st = (none, rest, st.flush) := by
    simp [step, slash, apostrophe, quote, blank]
  rw [read_cons, one]

/-- A separator; `&` only where it is not the start of `&>`. -/
theorem read_commandEnd (ends : isCommandEnd c) (other : rest.head? ≠ some '>') (st : Scan) :
    read none (c :: rest) st = read none rest (st.sep (separatorTok c)) := by
  simp only [isCommandEnd, List.contains_eq_mem, List.mem_cons, List.not_mem_nil, or_false,
    decide_eq_true_eq] at ends
  rcases ends with rfl | rfl | rfl | rfl | rfl | rfl | rfl
  · exact read_separator (.inl rfl) rest (fun same => by cases same) st
  · exact read_separator (.inr (.inl rfl)) rest (fun same => by cases same) st
  · exact read_separator (.inr (.inr (.inr rfl))) rest (fun _ => other) st
  · exact read_separator (.inr (.inr (.inl rfl))) rest (fun same => by cases same) st
  · exact read_opening rest st
  · exact read_closing rest st
  · rw [read_cons]
    rfl

theorem step_bareChar (bare : isBareChar c) (rest : List Char) (st : Scan) :
    step none c rest st = (none, rest, st.extend [c]) := by
  simp only [isBareChar, Bool.and_eq_true, Bool.not_eq_true', List.contains_eq_mem, List.mem_cons,
    List.not_mem_nil, or_false, decide_eq_false_iff_not, not_or] at bare
  have line : c ≠ '\n' := by
    rintro rfl
    exact absurd bare.1 (by decide)
  simp [step, isSeparator, bare, line, Scan.push, Scan.extend]

theorem read_mark (ok : m.ok) (other : rest.head? ≠ some '>')
    (st : Scan) : read none (m.text ++ rest) st = read none rest (st.mark m) := by
  cases m with
  | bare c =>
    rw [Mark.text, List.singleton_append, read_cons, step_bareChar ok]
    rfl
  | escaped c => exact read_piece (.escaped c) ok rfl rest st
  | single s => exact read_piece (.single s) ok rfl rest st
  | double bits =>
    rw [Mark.text, List.cons_append, List.append_assoc, List.singleton_append, read_cons]
    have one : step none '"' (bits.flatMap QuotedBit.text ++ '"' :: rest) st =
        (some '"', bits.flatMap QuotedBit.text ++ '"' :: rest, { st with inWord := true }) := rfl
    rw [one, read_bits bits ok]
    rfl
  | continued =>
    rw [Mark.text, List.cons_append, List.singleton_append, read_cons]
    rfl
  | blank c => exact read_blank ok rest st
  | separator c => exact read_commandEnd ok other st

/-! ## A line -/

/-- No mark begins like a redirect. -/
theorem head_mark (ok : m.ok) (rest : List Char) : (m.text ++ rest).head? ≠ some '>' := by
  cases m with
  | bare c | blank c | separator c =>
    rw [Mark.text, List.singleton_append, List.head?_cons]
    intro same
    cases same
    exact absurd ok (by decide)
  | escaped c | single s | double bits | continued => simp [Mark.text]

theorem head_line (ok : ∀ m ∈ marks, m.ok) : (lineText marks).head? ≠ some '>' := by
  cases marks with
  | nil => simp [lineText]
  | cons m more => exact head_mark (ok m (List.mem_cons_self ..)) _

/-- **A line is read mark by mark.** -/
theorem read_line (ok : ∀ m ∈ marks, m.ok) (st : Scan) :
    read none (lineText marks) st = marks.foldl Scan.mark st := by
  induction marks generalizing st with
  | nil => rfl
  | cons m more ih =>
    have later : ∀ m ∈ more, m.ok := fun n listed => ok n (List.mem_cons_of_mem _ listed)
    have one := read_mark (ok m (List.mem_cons_self ..)) (head_line later) st
    rw [List.foldl_cons, ← ih later, ← one]
    rfl

/-! ## Words apart by blanks -/

theorem foldl_gap (inGap : ∀ m ∈ marks, m.inGap) (st : Scan) :
    marks.foldl Scan.mark st = if marks.any Mark.isBlank then st.flush else st := by
  induction marks generalizing st with
  | nil => rfl
  | cons m more ih =>
    rw [List.foldl_cons, ih (fun n listed => inGap n (List.mem_cons_of_mem _ listed))]
    have part := inGap m (List.mem_cons_self ..)
    cases m with
    | blank c | continued => simp [Scan.mark, Mark.isBlank]
    | bare c | escaped c | single s | double bits | separator c => cases part

theorem foldl_letters (inWord : ∀ m ∈ marks, m.inWord) (st : Scan) : marks.foldl Scan.mark st =
      if marks.any (·.letters.isSome) then st.extend (marks.flatMap (·.letters.getD [])) else st := by
  induction marks generalizing st with
  | nil => rfl
  | cons m more ih =>
    rw [List.foldl_cons, ih (fun n listed => inWord n (List.mem_cons_of_mem _ listed))]
    have part := inWord m (List.mem_cons_self ..)
    have go (value : List Char) (letters : m.letters = some value)
        (same : st.mark m = st.extend value) :
        (if more.any (·.letters.isSome) then
          (st.mark m).extend (more.flatMap (·.letters.getD [])) else st.mark m) =
        if (m :: more).any (·.letters.isSome) then
          st.extend ((m :: more).flatMap (·.letters.getD [])) else st := by
      have first : (m :: more).any (·.letters.isSome) = true := by simp [letters]
      rw [if_pos first, same, List.flatMap_cons, letters]
      split
      · simp
      rename_i none_
      have empty : more.flatMap (·.letters.getD []) = [] := by
        rw [List.flatMap_eq_nil_iff]
        intro n listed
        have none_ : n.letters.isSome = false := by
          simp only [Bool.not_eq_true, List.any_eq_false] at none_
          simpa using none_ n listed
        rw [Option.isSome_eq_false_iff, Option.isNone_iff_eq_none] at none_
        rw [none_, Option.getD_none]
      rw [empty, Option.getD_some, List.append_nil]
    cases m with
    | bare c | escaped c => exact go [c] rfl rfl
    | single s => exact go s rfl rfl
    | double bits => exact go _ rfl rfl
    | continued => simp [Scan.mark, Mark.letters]
    | blank c | separator c => cases part

theorem foldl_word (w : WrittenWord) (st : Scan) : w.marks.foldl Scan.mark st = st.extend w.value := by
  obtain ⟨m, listed, letters⟩ := w.begun
  rw [foldl_letters w.inWord, if_pos (List.any_eq_true.mpr ⟨m, listed, letters⟩)]
  rfl

theorem Scan.idle_extend_flush (toks : List Tok) (value : List Char) :
    ((Scan.idle toks false).extend value).flush = .idle (toks ++ [.word value]) false := by
  simp [Scan.idle, Scan.extend, Scan.flush]

theorem foldl_words {words : List (Gap × WrittenWord)} {st : Scan} {toks : List Tok}
    (ready : st.flush = .idle toks false) (apart : ∀ entry ∈ words.tail, entry.1.parts)
    (first : st.inWord = true → ∀ entry ∈ words.head?, entry.1.parts) (trail : Gap) :
    (((words.flatMap (fun entry => entry.1.marks ++ entry.2.marks) ++ trail.marks).foldl
      Scan.mark st).flush).toks = toks ++ words.map fun entry => .word entry.2.value := by
  induction words generalizing st toks with
  | nil =>
    have ended : (if trail.marks.any Mark.isBlank then st.flush else st).flush =
        .idle toks false := by
      split
      · rw [Scan.flush_flush, ready]
      · exact ready
    rw [List.flatMap_nil, List.nil_append, foldl_gap trail.inGap, ended, List.map_nil, List.append_nil]
    rfl
  | cons entry more ih =>
    have gone : (if entry.1.marks.any Mark.isBlank then st.flush else st) = .idle toks false := by
      split
      · exact ready
      rename_i joined
      have outside : st.inWord = false := by
        rw [← Bool.not_eq_true]
        intro inside
        exact joined (first inside entry rfl)
      rw [← ready, Scan.flush_of_outside outside]
    rw [List.flatMap_cons, List.append_assoc, List.append_assoc, List.foldl_append,
      List.foldl_append, foldl_gap entry.1.inGap, gone, foldl_word,
      ih (Scan.idle_extend_flush toks entry.2.value)
        (fun other listed => apart other (List.mem_of_mem_tail listed))
        (fun _ other listed => apart other (List.mem_of_mem_head? listed))]
    simp

/-! ## The commands of a line -/

/-- Between redirects there is only the word that is being read. -/
def Scan.reading (toks : List Tok) (word : Option (List Char)) : Scan :=
  ⟨toks, word.getD [], word.isSome, false, false⟩

@[simp] theorem Scan.reading_flush (toks : List Tok) (word : Option (List Char)) :
    (Scan.reading toks word).flush = .reading (toks ++ word.toList.map .word) none := by
  cases word <;> simp [Scan.reading, Scan.flush]

@[simp] theorem Scan.reading_sep (toks : List Tok) (word : Option (List Char)) (t : Tok) :
    (Scan.reading toks word).sep t = .reading (toks ++ word.toList.map .word ++ [t]) none := by
  rw [Scan.sep, Scan.reading_flush]
  rfl

/-- The tokens of a line behind a word that is being read. -/
def lineToks (word : Option (List Char)) : List Mark → List Tok
  | [] => word.toList.map .word
  | .separator c :: rest => word.toList.map .word ++ separatorTok c :: lineToks none rest
  | .blank _ :: rest => word.toList.map .word ++ lineToks none rest
  | .continued :: rest => lineToks word rest
  | m :: rest => lineToks (some (word.getD [] ++ m.letters.getD [])) rest

theorem foldl_marks (marks : List Mark) (toks : List Tok) (word : Option (List Char)) :
    ((marks.foldl Scan.mark (.reading toks word)).flush).toks = toks ++ lineToks word marks := by
  induction marks generalizing toks word with
  | nil =>
    rw [List.foldl_nil, Scan.reading_flush]
    rfl
  | cons m rest ih =>
    rw [List.foldl_cons]
    cases m with
    | bare c | escaped c | single s | double bits => exact ih toks (some _)
    | continued => exact ih toks word
    | blank c =>
      rw [Scan.mark, Scan.reading_flush, ih, lineToks, List.append_assoc]
    | separator c =>
      rw [Scan.mark, Scan.reading_sep, ih, lineToks]
      simp

theorem tokenize_line (ok : ∀ m ∈ marks, m.ok) : tokenize (lineText marks) = lineToks none marks := by
  have read_all := foldl_marks marks [] none
  rw [tokenize, read_line ok]
  exact read_all

theorem segmentsFrom_word (word : Option (List Char)) (current : Segment) (toks : List Tok) :
    segmentsFrom current (word.toList.map .word ++ toks) =
      segmentsFrom { current with words := current.words ++ word.toList } toks := by
  cases word with
  | none => simp
  | some w => rfl

theorem segmentsFrom_separator (c : Char) (current : Segment) (toks : List Tok) :
    segmentsFrom current (separatorTok c :: toks) =
      current :: segmentsFrom ⟨[], [], some (separatorTok c)⟩ toks := by
  unfold separatorTok
  split
  · rfl
  · split <;> rfl

theorem segmentsFrom_line (marks : List Mark) (current : Segment) (word : Option (List Char)) :
    (segmentsFrom current (lineToks word marks)).map Segment.words =
      segmentsBehind word current.words marks := by
  induction marks generalizing current word with
  | nil =>
    have ended := segmentsFrom_word word current []
    rw [List.append_nil] at ended
    rw [lineToks, ended]
    rfl
  | cons m rest ih =>
    cases m with
    | bare c | escaped c | single s | double bits => exact ih current (some _)
    | continued => exact ih current word
    | blank c =>
      rw [lineToks, segmentsFrom_word, ih, segmentsBehind]
    | separator c =>
      rw [lineToks, segmentsFrom_word, segmentsFrom_separator, List.map_cons, ih, segmentsBehind]

/-- **The commands of a line are read as they are**, where no redirect is taken out of it. -/
theorem commandWords_line (ok : ∀ m ∈ marks, m.ok)
    (kept : stripFdRedirects (lineText marks) = some (lineText marks)) : commandWords (lineText marks) =
      some ((lineSegments marks).filter fun words => !words.isEmpty) := by
  rw [commandWords, kept, Option.map_some, tokenize_line ok, segments, segmentsFrom_line]
  rfl

end DuDuClaw.OrgFieldGuard
