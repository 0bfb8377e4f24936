/-
# OrgFieldGuard.Reading -- how the tokenizer reads what is written

One lemma for each thing a command is written with: a word in any spelling, blanks, a
redirect operator, a separator.

* `read_word`: a word is read as its value, however it is spelled, unless a bare character
  of it is white space of another kind than blank and tab.
* `read_output`: an output redirect is read as its target.
-/
import DuDuClaw.Lib.ShellList
import DuDuClaw.OrgFieldGuard.Tokenize

namespace DuDuClaw.OrgFieldGuard

open DuDuClaw.Lib

/-- The word read so far goes on. -/
def Scan.extend (st : Scan) (value : List Char) : Scan :=
  { st with cur := st.cur ++ value, inWord := true }

@[simp] theorem Scan.extend_extend (st : Scan) (a b : List Char) :
    (st.extend a).extend b = st.extend (a ++ b) := by
  simp [Scan.extend]

/-! ## Quoted strings -/

theorem read_single (s rest : List Char) (st : Scan) (plain : s.all (· != '\'')) :
    read (some '\'') (s ++ '\'' :: rest) st = read none rest { st with cur := st.cur ++ s } := by
  induction s generalizing st with
  | nil =>
    rw [List.nil_append, read_cons]
    simp [step]
  | cons c s ih =>
    rw [List.all_cons, Bool.and_eq_true, bne_iff_ne] at plain
    have one : step (some '\'') c (s ++ '\'' :: rest) st =
        (some '\'', s ++ '\'' :: rest, st.add c) := by
      unfold step
      cases shape : s ++ '\'' :: rest with
      | nil => simp at shape
      | cons n after => simp [plain.1]
    rw [List.cons_append, read_cons, one, ih _ plain.2]
    simp [Scan.add]

theorem read_quotedItem (item : QuotedItem) (ok : item.ok) (rest : List Char) (st : Scan) :
    read (some '"') (item.text ++ rest) st = read (some '"') rest { st with cur := st.cur ++ item.value } := by
  cases item with
  | plain c =>
    simp only [QuotedItem.ok, isQuotedMeta, Bool.not_eq_true', Bool.or_eq_false_iff, beq_eq_false_iff_ne] at ok
    rw [QuotedItem.text, QuotedItem.value, List.singleton_append, read_cons]
    have one : step (some '"') c rest st = (some '"', rest, st.add c) := by
      unfold step
      cases rest with
      | nil | cons n after => simp [ok]
    rw [one]
    rfl
  | escaped c =>
    rw [QuotedItem.text, QuotedItem.value, List.cons_append, List.singleton_append, read_cons]
    have one : step (some '"') '\\' (c :: rest) st = (some '"', rest, st.add c) := by
      simp only [QuotedItem.ok, isQuotedMeta, Bool.or_eq_true, beq_iff_eq] at ok
      rcases ok with ((rfl | rfl) | rfl) | rfl <;> rfl
    rw [one]
    rfl
  | slashed c =>
    simp only [QuotedItem.ok, isQuotedMeta, Bool.and_eq_true, Bool.not_eq_true',
      Bool.or_eq_false_iff, beq_eq_false_iff_ne, bne_iff_ne] at ok
    rw [QuotedItem.text, QuotedItem.value, List.cons_append, List.singleton_append, read_cons]
    have one : step (some '"') '\\' (c :: rest) st = (some '"', c :: rest, st.add '\\') := by
      simp [step, quotedEscape, ok]
    have two : step (some '"') c rest (st.add '\\') =
        (some '"', rest, (st.add '\\').add c) := by
      unfold step
      cases rest with
      | nil | cons n after => simp [ok]
    rw [one, read_cons, two]
    simp [Scan.add]

theorem read_double (items : List QuotedItem) (ok : items.all QuotedItem.ok) (rest : List Char) (st : Scan) :
    read (some '"') (items.flatMap QuotedItem.text ++ '"' :: rest) st =
      read none rest { st with cur := st.cur ++ items.flatMap QuotedItem.value } := by
  induction items generalizing st with
  | nil =>
    rw [List.flatMap_nil, List.nil_append, read_cons]
    simp [step]
  | cons item items ih =>
    rw [List.all_cons, Bool.and_eq_true] at ok
    rw [List.flatMap_cons, List.append_assoc, read_quotedItem item ok.1, ih ok.2]
    simp

/-! ## Words -/

def bareSpace : WordPiece → Bool
  | .bare c => isWhitespace c
  | _ => false

theorem step_bare {c : Char} (bare : isShellMeta c = false) (noSpace : isWhitespace c = false)
    (rest : List Char) (st : Scan) : step none c rest st = (none, rest, st.extend [c]) := by
  simp only [isShellMeta, List.contains_eq_mem, List.mem_cons, List.not_mem_nil, or_false,
    decide_eq_false_iff_not, not_or] at bare
  simp [step, isSeparator, bare, noSpace, Scan.push, Scan.extend]

theorem read_piece (piece : WordPiece) (ok : piece.ok)
    (noSpace : bareSpace piece = false) (rest : List Char) (st : Scan) :
    read none (piece.text ++ rest) st = read none rest (st.extend piece.value) := by
  cases piece with
  | bare c =>
    have bare : isShellMeta c = false := by simpa [WordPiece.ok] using ok
    rw [WordPiece.text, List.singleton_append, read_cons, step_bare bare noSpace]
    rfl
  | escaped c =>
    have other : c ≠ '\n' := by simpa [WordPiece.ok] using ok
    rw [WordPiece.text, List.cons_append, List.singleton_append, read_cons]
    simp [step, other, Scan.push, Scan.extend, WordPiece.value]
  | single s =>
    rw [WordPiece.text, List.cons_append, List.append_assoc, List.singleton_append, read_cons]
    have one : step none '\'' (s ++ '\'' :: rest) st =
        (some '\'', s ++ '\'' :: rest, { st with inWord := true }) := rfl
    rw [one, read_single s rest _ ok]
    rfl
  | double items =>
    rw [WordPiece.text, List.cons_append, List.append_assoc, List.singleton_append, read_cons]
    have one : step none '"' (items.flatMap QuotedItem.text ++ '"' :: rest) st =
        (some '"', items.flatMap QuotedItem.text ++ '"' :: rest,
          { st with inWord := true }) := rfl
    rw [one, read_double items ok]
    rfl

theorem read_pieces (pieces : List WordPiece) (nonempty : pieces ≠ [])
    (ok : ∀ piece ∈ pieces, piece.ok) (noSpace : ∀ piece ∈ pieces, bareSpace piece = false)
    (rest : List Char) (st : Scan) : read none (pieces.flatMap WordPiece.text ++ rest) st =
      read none rest (st.extend (pieces.flatMap WordPiece.value)) := by
  induction pieces generalizing st with
  | nil => exact absurd rfl nonempty
  | cons piece more ih =>
    rw [List.flatMap_cons, List.append_assoc,
      read_piece piece (ok piece List.mem_cons_self) (noSpace piece List.mem_cons_self)]
    cases more with
    | nil => simp
    | cons next others =>
      rw [ih (by simp) (fun p listed => ok p (List.mem_cons_of_mem _ listed))
        (fun p listed => noSpace p (List.mem_cons_of_mem _ listed))]
      simp

def spaceFree (w : Spelling) : Bool := w.pieces.all fun piece => !bareSpace piece

/-- **A word is read as its value**, however it is spelled. -/
theorem read_word (w : Spelling) (noSpace : spaceFree w) (rest : List Char) (st : Scan) :
    read none (w.text ++ rest) st = read none rest (st.extend w.value) := by
  refine read_pieces w.pieces w.nonempty w.ok ?_ rest st
  intro piece listed
  simpa using List.all_eq_true.mp noSpace piece listed

/-! ## Blanks and separators -/

@[simp] theorem Scan.flush_flush (st : Scan) : st.flush.flush = st.flush := by
  unfold Scan.flush
  split
  · split
    · rfl
    · split <;> rfl
  · simp

/-- Any number of blanks, but one at least, end the word. -/
theorem read_blanks (blanks : List Char) (nonempty : blanks ≠ []) (ok : blanks.all isBlankChar)
    (rest : List Char) (st : Scan) : read none (blanks ++ rest) st = read none rest st.flush := by
  induction blanks generalizing st with
  | nil => exact absurd rfl nonempty
  | cons c more ih =>
    rw [List.all_cons, Bool.and_eq_true] at ok
    have one : step none c (more ++ rest) st = (none, more ++ rest, st.flush) := by
      have which := ok.1
      rw [isBlankChar, Bool.or_eq_true, beq_iff_eq, beq_iff_eq] at which
      rcases which with rfl | rfl <;> rfl
    rw [List.cons_append, read_cons, one]
    cases more with
    | nil => rfl
    | cons next others =>
      rw [ih (by simp) ok.2, Scan.flush_flush]

/-- Blanks where no word is being read change nothing. -/
theorem read_gap (blanks : List Char) (ok : blanks.all isBlankChar) (rest : List Char) {st : Scan}
    (outside : st.inWord = false) : read none (blanks ++ rest) st = read none rest st := by
  cases blanks with
  | nil => rfl
  | cons c more =>
    have same : st.flush = st := by simp [Scan.flush, outside]
    rw [read_blanks (c :: more) (by simp) ok, same]

def Scan.pause (st : Scan) (blanks : List Char) : Scan :=
  if blanks.isEmpty then st else st.flush

theorem read_pause (blanks : List Char) (ok : blanks.all isBlankChar) (rest : List Char)
    (st : Scan) : read none (blanks ++ rest) st = read none rest (st.pause blanks) := by
  cases blanks with
  | nil => rfl
  | cons c more => exact read_blanks (c :: more) (by simp) ok rest st

theorem read_opening (rest : List Char) (st : Scan) :
    read none ('(' :: rest) st = read none rest (st.sep .opening) := by
  rw [read_cons]
  rfl

theorem read_closing (rest : List Char) (st : Scan) :
    read none (')' :: rest) st = read none rest (st.sep .closing) := by
  rw [read_cons]
  rfl

/-- A separator of one character; `&` only where it is not the start of `&>`. -/
theorem read_separator {c : Char} (separator : c = ';' ∨ c = '|' ∨ c = '\n' ∨ c = '&')
    (rest : List Char) (other : c = '&' → rest.head? ≠ some '>') (st : Scan) :
    read none (c :: rest) st = read none rest (st.sep .sep) := by
  rw [read_cons]
  rcases separator with rfl | rfl | rfl | rfl
  · rfl
  · rfl
  · rfl
  · have single : (rest.head? == some '>') = false := by simpa using other rfl
    simp [step, single, isSeparator, isWhitespace]

/-! ## Redirects -/

/-- No word is being read; `owed` tells whether an input source is still to come. -/
def Scan.idle (toks : List Tok) (owed : Bool) : Scan := ⟨toks, [], false, false, owed⟩

variable {st : Scan} {s gap : List Char} {op : OutOp}

variable {fd : List Char} {target : Spelling}

theorem Scan.flush_of_outside (outside : st.inWord = false) : st.flush = st := by
  simp [Scan.flush, outside]

def continuesOp (c : Char) : Bool := c == '>' || c == '<' || c == '|' || c == '&'

theorem skipOne_of_not {p : Char → Bool} (other : s.head?.any p = false) : skipOne p s = s := by
  cases s with
  | nil => rfl
  | cons c rest =>
    have single : p c = false := by simpa using other
    simp [skipOne, single]

/-- No word begins like an operator. -/
theorem head_text (w : Spelling) (rest : List Char) : (w.text ++ rest).head?.any continuesOp = false := by
  obtain ⟨piece, more, shape⟩ := List.exists_cons_of_ne_nil w.nonempty
  have ok : piece.ok := w.ok piece (by simp [shape])
  have first : w.text ++ rest = piece.text ++ (more.flatMap WordPiece.text ++ rest) := by
    simp [Spelling.text, shape]
  rw [first]
  cases piece with
  | bare c =>
    simp only [WordPiece.ok, isShellMeta, Bool.not_eq_true', List.contains_eq_mem, List.mem_cons,
      List.not_mem_nil, or_false, decide_eq_false_iff_not, not_or] at ok
    simp [WordPiece.text, continuesOp, ok]
  | escaped c | single s | double items => rfl

theorem head_gap (blank : gap.all isBlankChar) (w : Spelling)
    (rest : List Char) : (gap ++ (w.text ++ rest)).head?.any continuesOp = false := by
  cases gap with
  | nil => exact head_text w rest
  | cons c more =>
    rw [List.all_cons, Bool.and_eq_true, isBlankChar, Bool.or_eq_true, beq_iff_eq, beq_iff_eq] at blank
    rcases blank.1 with rfl | rfl <;> rfl

theorem continuesOp_of (other : s.head?.any continuesOp = false) :
    s.head?.any (fun d => d == '>' || d == '|') = false ∧ s.head?.any (· == '&') = false ∧
      s.head?.any (· == '>') = false := by
  cases s with
  | nil => exact ⟨rfl, rfl, rfl⟩
  | cons c rest =>
    simp only [List.head?_cons, Option.any_some, continuesOp, Bool.or_eq_false_iff] at other ⊢
    exact ⟨⟨other.1.1.1, other.1.2⟩, other.2, other.1.1.1⟩

/-- An operator leaves the target to come. -/
theorem read_form (form : OutForm) (other : s.head?.any continuesOp = false) (st : Scan) :
    read none (form.text ++ s) st =
      read none s { (if form.isBoth then st.flush else st.beforeOut) with pendingOut := true } := by
  obtain ⟨notOut, notAnd, notMore⟩ := continuesOp_of other
  cases form with
  | out =>
    rw [OutForm.text, List.singleton_append, read_cons]
    simp [step, OutForm.isBoth, isWhitespace, skipOne_of_not notOut, skipOne_of_not notAnd]
  | append =>
    have second : skipOne (fun d => d == '>' || d == '|') ('>' :: s) = s := rfl
    rw [OutForm.text, List.cons_append, List.singleton_append, read_cons]
    simp [step, OutForm.isBoth, isWhitespace, second, skipOne_of_not notAnd]
  | clobber =>
    have second : skipOne (fun d => d == '>' || d == '|') ('|' :: s) = s := rfl
    rw [OutForm.text, List.cons_append, List.singleton_append, read_cons]
    simp [step, OutForm.isBoth, isWhitespace, second, skipOne_of_not notAnd]
  | both =>
    rw [OutForm.text, List.cons_append, List.singleton_append, read_cons]
    simp [step, OutForm.isBoth, isWhitespace, skipOne_of_not notMore]
  | bothAppend =>
    rw [OutForm.text, List.cons_append, List.cons_append, List.singleton_append, read_cons]
    simp [step, OutForm.isBoth, isWhitespace, skipOne]

theorem isShellMeta_of_isDigit {c : Char} (digit : c.isDigit) : isShellMeta c = false := by
  obtain ⟨low, high⟩ := isDigit_bounds digit
  have other : ∀ m : Char, m.toNat < 48 ∨ 57 < m.toNat → c ≠ m := by
    intro m outside same
    subst same
    omega
  simp only [isShellMeta, List.contains_eq_mem, List.mem_cons, List.not_mem_nil, or_false,
    decide_eq_false_iff_not, not_or]
  refine ⟨?_, ?_, ?_, ?_, ?_, ?_, ?_, ?_, ?_, ?_, ?_, ?_, ?_, ?_, ?_⟩ <;> exact other _ (by decide)

theorem read_number (digits : fd.all Char.isDigit) (some_ : fd ≠ [])
    (rest : List Char) (st : Scan) : read none (fd ++ rest) st = read none rest (st.extend fd) := by
  have texts : (fd.map WordPiece.bare).flatMap WordPiece.text = fd := by
    simp [List.flatMap_map, WordPiece.text]
  have values : (fd.map WordPiece.bare).flatMap WordPiece.value = fd := by
    simp [List.flatMap_map, WordPiece.value]
  have number := read_pieces (fd.map .bare) (by simpa using some_) ?_ ?_ rest st
  · rw [texts, values] at number
    exact number
  · intro piece listed
    obtain ⟨c, inside, rfl⟩ := List.mem_map.mp listed
    simp [WordPiece.ok, isShellMeta_of_isDigit (List.all_eq_true.mp digits c inside)]
  · intro piece listed
    obtain ⟨c, inside, rfl⟩ := List.mem_map.mp listed
    exact not_isWhitespace_of_isDigit (List.all_eq_true.mp digits c inside)

theorem beforeOut_number (digits : fd.all Char.isDigit) (some_ : fd ≠ [])
    (toks : List Tok) (owed : Bool) : ((Scan.idle toks owed).extend fd).beforeOut = .idle toks owed := by
  simp [Scan.idle, Scan.extend, Scan.beforeOut, digits, some_]

def Scan.opened (st : Scan) (op : OutOp) : Scan :=
  { (if op.form.isBoth then st.flush
      else (if op.fd.isEmpty then st else st.extend op.fd).beforeOut) with pendingOut := true }

@[simp] theorem Scan.flush_inWord (st : Scan) : st.flush.inWord = false := by
  unfold Scan.flush
  split
  · split
    · rfl
    · split <;> rfl
  · simp_all

@[simp] theorem Scan.beforeOut_inWord (st : Scan) : st.beforeOut.inWord = false := by
  unfold Scan.beforeOut
  split
  · rfl
  · exact st.flush_inWord

theorem Scan.opened_inWord (st : Scan) (op : OutOp) : (st.opened op).inWord = false := by
  unfold Scan.opened
  split
  · exact st.flush_inWord
  · exact Scan.beforeOut_inWord _

theorem read_operator (ok : op.ok) (blank : gap.all isBlankChar)
    (noSpace : spaceFree target) (rest : List Char) (st : Scan) :
    read none (op.text ++ (gap ++ (target.text ++ rest))) st =
      read none rest ((st.opened op).extend target.value) := by
  have named : read none (gap ++ (target.text ++ rest)) (st.opened op) =
      read none rest ((st.opened op).extend target.value) := by
    rw [read_gap gap blank _ (st.opened_inWord op), read_word target noSpace]
  rw [← named]
  simp only [OutOp.ok, Bool.and_eq_true] at ok
  rw [OutOp.text, List.append_assoc]
  by_cases numbered : op.fd = []
  · rw [numbered, List.nil_append, read_form op.form (head_gap blank target rest)]
    simp [Scan.opened, numbered]
  · have plain : op.form.isBoth = false := by simpa [numbered] using ok.2
    rw [read_number ok.1 numbered, read_form op.form (head_gap blank target rest)]
    simp [Scan.opened, numbered, plain]

/-- Where no word is being read a descriptor may come first. -/
theorem Scan.opened_idle (ok : op.ok) (toks : List Tok) (owed : Bool) :
    (Scan.idle toks owed).opened op = ⟨toks, [], false, true, owed⟩ := by
  simp only [OutOp.ok, Bool.and_eq_true] at ok
  by_cases numbered : op.fd = []
  · unfold Scan.opened
    rw [numbered]
    split <;> rfl
  have plain : op.form.isBoth = false := by simpa [numbered] using ok.2
  have number := beforeOut_number ok.1 numbered toks owed
  simp only [Scan.opened, plain, Bool.false_eq_true, if_false, List.isEmpty_iff, numbered, number]
  rfl

/-- Directly behind a word that is no number the operator ends it. -/
theorem Scan.opened_joined (alone : op.fd = []) (ends : op.form.isBoth = true ∨ isNumber st.cur = false) :
    st.opened op = { st.flush with pendingOut := true } := by
  unfold Scan.opened
  rw [alone]
  rcases ends with both | word
  · rw [both, if_pos rfl]
  · have other : (st.inWord && !st.cur.isEmpty && st.cur.all Char.isDigit) = false := by
      rw [Bool.and_assoc, ← isNumber, word, Bool.and_false]
    simp [Scan.beforeOut, other]

/-- **An output redirect is read as its target**, whatever stands before it: blanks, nothing
that is still being read, or a word that is no number. -/
theorem read_output (ok : op.ok) {before : List Char}
    (blank : before.all isBlankChar) (blank' : gap.all isBlankChar)
    (noSpace : spaceFree target) {toks : List Tok} {owed : Bool}
    (ready : st.flush = .idle toks owed) (joins : before ≠ [] ∨ st.inWord = false ∨
      (op.fd = [] ∧ (op.form.isBoth = true ∨ isNumber st.cur = false))) (rest : List Char) :
    read none (before ++ (op.text ++ (gap ++ (target.text ++ rest)))) st =
      read none rest ⟨toks, target.value, true, true, owed⟩ := by
  rw [read_pause before blank, read_operator ok blank' noSpace]
  have opened : (st.pause before).opened op = ⟨toks, [], false, true, owed⟩ := by
    unfold Scan.pause
    split
    · rename_i joined
      rcases joins with apart | outside | ⟨alone, ends⟩
      · exact absurd (List.isEmpty_iff.mp joined) apart
      · rw [← Scan.flush_of_outside outside, ready]
        exact Scan.opened_idle ok toks owed
      · rw [Scan.opened_joined alone ends, ready]
        rfl
    · rw [ready]
      exact Scan.opened_idle ok toks owed
  rw [opened]
  rfl

/-- `<`, where it is not the start of `<<`. -/
theorem read_less (other : s.head?.any (· == '<') = false) (st : Scan) :
    read none ('<' :: s) st = read none s { st.flush with pendingIn := true } := by
  rw [read_cons]
  simp [step, isWhitespace, skipOne_of_not other]

end DuDuClaw.OrgFieldGuard
