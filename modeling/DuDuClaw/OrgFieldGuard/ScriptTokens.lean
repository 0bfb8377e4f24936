/-
# OrgFieldGuard.ScriptTokens -- the tokens of a script, and the words it loses

A script, however it is written, read by the tokenizer.  The two flags for a redirect whose
target is still to come are not cleared together: a flush takes the target of an output
redirect first, so the flag that `<` left behind `<>` waits for the next word, and that word
is dropped.  A quoted word of digits is taken for a descriptor by the `>` behind it.

* `tokenize_items`: the tokens, item by item.
* `Reads`: what is being read, and whether a source is still owed; `loses` tells the items at
  which a word is lost.
* `commandWords_read`: the words of every command come out unless one is lost, and then too
  few of them do.
-/
import DuDuClaw.Lib.ShellScript
import DuDuClaw.OrgFieldGuard.Reading

namespace DuDuClaw.OrgFieldGuard

open DuDuClaw.Lib

/-! ## Reading item by item -/

def Scan.element (st : Scan) : Element → Scan
  | .word before w => (st.pause before).extend w.value
  | .redirect before (.output op) _ target => ((st.pause before).opened op).extend target.value
  | .redirect _ .input _ target => { st.flush with pendingIn := true }.extend target.value
  | .redirect _ .readWrite _ target =>
    { st.flush with pendingOut := true, pendingIn := true }.extend target.value

def separatorToks : Separator → List Tok
  | .andIf | .orIf => [.sep, .sep]
  | _ => [.sep]

/-- What an item leaves; comments are not read as such, so none is expected here. -/
def Scan.item (st : Scan) : Item → Scan
  | .element e => st.element e
  | .space blanks => st.pause blanks
  | .separator sep => (separatorToks sep).foldl Scan.sep st
  | .comment _ => st

/-- No comment, and no bare white space in a word. -/
def readable : Item → Bool
  | .element (.word _ w) => spaceFree w
  | .element (.redirect _ _ _ target) => spaceFree target
  | .comment _ => false
  | _ => true

def endsInAmp : Separator → Bool
  | .amp | .andIf => true
  | _ => false

/-- No separator runs into a `>` behind it: `&>` is an operator to the tokenizer, also where
the `&` is the second one of `&&`. -/
def parted : List Item → Bool
  | [] => true
  | .separator sep :: rest =>
    !(endsInAmp sep && (Item.textOf rest).head? == some '>') && parted rest
  | _ :: rest => parted rest

variable {gap : List Char} {target : Spelling} {items : List Item}

@[simp] theorem Scan.pause_flush (st : Scan) (blanks : List Char) : (st.pause blanks).flush = st.flush := by
  unfold Scan.pause
  split
  · rfl
  · exact st.flush_flush

theorem read_source (blank : gap.all isBlankChar) (noSpace : spaceFree target) (rest : List Char) (st : Scan) :
    read none ('<' :: (gap ++ (target.text ++ rest))) st =
      read none rest ({ st.flush with pendingIn := true }.extend target.value) := by
  have other := head_gap blank target rest
  have single : (gap ++ (target.text ++ rest)).head?.any (· == '<') = false := by
    cases shape : gap ++ (target.text ++ rest) with
    | nil => rfl
    | cons c more =>
      rw [shape] at other
      simp only [List.head?_cons, Option.any_some, continuesOp, Bool.or_eq_false_iff] at other
      exact other.1.1.2
  have outside : ({ st.flush with pendingIn := true } : Scan).inWord = false := st.flush_inWord
  rw [read_less single, read_gap gap blank _ outside, read_word target noSpace]

theorem read_readWrite (blank : gap.all isBlankChar)
    (noSpace : spaceFree target) (rest : List Char) (st : Scan) :
    read none ('<' :: '>' :: (gap ++ (target.text ++ rest))) st = read none rest
        ({ st.flush with pendingOut := true, pendingIn := true }.extend target.value) := by
  have first : read none ('<' :: '>' :: (gap ++ (target.text ++ rest))) st =
      read none ('>' :: (gap ++ (target.text ++ rest))) { st.flush with pendingIn := true } :=
    read_less rfl st
  -- nothing is being read between the two characters
  have opened : ({ st.flush with pendingIn := true } : Scan).opened ⟨[], .out⟩ =
      { st.flush with pendingOut := true, pendingIn := true } := by
    simp [Scan.opened, OutForm.isBoth, Scan.beforeOut, Scan.flush_of_outside]
  have second : read none ('>' :: (gap ++ (target.text ++ rest)))
        { st.flush with pendingIn := true } =
      read none rest ((({ st.flush with pendingIn := true } : Scan).opened ⟨[], .out⟩).extend
        target.value) :=
    @read_operator gap ⟨[], .out⟩ target rfl blank noSpace rest _
  rw [first, second, opened]

theorem read_element {e : Element} (ok : e.ok) (fine : readable (.element e)) (rest : List Char)
    (st : Scan) : read none (e.text ++ rest) st = read none rest (st.element e) := by
  cases e with
  | word before w =>
    rw [Element.text, List.append_assoc, read_pause before ok, read_word w fine]
    rfl
  | redirect before op gap target =>
    simp only [Element.ok, Bool.and_eq_true] at ok
    have shape : (Element.redirect before op gap target).text ++ rest =
        before ++ (op.text ++ (gap ++ (target.text ++ rest))) := by
      simp [Element.text]
    rw [shape, read_pause before ok.1.1]
    cases op with
    | output op => exact read_operator ok.1.2 ok.2 fine rest _
    | input =>
      refine (read_source ok.2 fine rest _).trans ?_
      rw [Scan.pause_flush]
      rfl
    | readWrite =>
      refine (read_readWrite ok.2 fine rest _).trans ?_
      rw [Scan.pause_flush]
      rfl

theorem read_separators (sep : Separator) {rest : List Char}
    (apart : (endsInAmp sep && rest.head? == some '>') = false) (st : Scan) :
    read none (sep.text ++ rest) st = read none rest ((separatorToks sep).foldl Scan.sep st) := by
  have one : ∀ {c : Char} {s : List Char} (st : Scan), c = ';' ∨ c = '|' ∨ c = '\n' →
      read none (c :: s) st = read none s (st.sep .sep) := by
    intro c s st which
    refine read_separator (by tauto) s ?_ st
    rintro rfl
    exact absurd which (by decide)
  cases sep with
  | semi | pipe | newline => exact one st (by simp)
  | orIf => exact (one st (by simp)).trans (one _ (by simp))
  | amp =>
    have other : rest.head? ≠ some '>' := by simpa [endsInAmp] using apart
    exact read_separator (by simp) rest (fun _ => other) st
  | andIf =>
    have other : rest.head? ≠ some '>' := by simpa [endsInAmp] using apart
    have first := read_separator (c := '&') (by simp) ('&' :: rest) (by simp) st
    have second := read_separator (c := '&') (by simp) rest (fun _ => other) (st.sep .sep)
    exact first.trans second

/-- **Items are read one by one.** -/
theorem read_items {prev : Option (List Char)} (fit : Item.fitting prev items)
    (fine : items.all readable) (apart : parted items) (st : Scan) :
    read none (Item.textOf items) st = items.foldl Scan.item st := by
  induction items generalizing prev st with
  | nil => rfl
  | cons item rest ih =>
    rw [List.all_cons, Bool.and_eq_true] at fine
    rw [Item.textOf_cons, List.foldl_cons]
    cases item with
    | element e =>
      simp only [Item.fitting, Bool.and_eq_true] at fit
      rw [Item.text, read_element fit.1.1 fine.1]
      exact ih fit.2 fine.2 apart _
    | space blanks =>
      rw [Item.fitting, Bool.and_eq_true] at fit
      rw [Item.text, read_pause blanks fit.1]
      exact ih fit.2 fine.2 apart _
    | comment s => exact absurd fine.1 (by simp [readable])
    | separator sep =>
      rw [parted, Bool.and_eq_true, Bool.not_eq_true'] at apart
      rw [Item.text, read_separators sep apart.1]
      exact ih fit fine.2 apart.2 _

theorem tokenize_items (fit : Item.fitting none items) (fine : items.all readable) (apart : parted items) :
    tokenize (Item.textOf items) = (items.foldl Scan.item .start).flush.toks := by
  rw [tokenize, read_items fit fine apart]

/-! ## What is being read -/

/-- Nothing is being read, or a word of this value that will be taken for a word, for the
source of an input redirect or for the target of an output redirect.  `owed` tells whether
the word behind it is dropped. -/
inductive Reads where
  | nothing (owed : Bool)
  | word (value : List Char)
  | source (value : List Char)
  | target (value : List Char) (owed : Bool)
  deriving DecidableEq

namespace Reads

def owed : Reads → Bool
  | .nothing owed | .target _ owed => owed
  | _ => false

def value : Reads → List Char
  | .nothing _ => []
  | .word value | .source value | .target value _ => value

def isWord : Reads → Bool
  | .word _ => true
  | _ => false

def isSource : Reads → Bool
  | .source _ => true
  | _ => false

/-- The operator takes what stands directly before it for its descriptor.  It was quoted, or it
would be one. -/
def numbered (r : Reads) (before : List Char) (op : OutOp) : Bool :=
  before.isEmpty && !op.form.isBoth && isNumber r.value

def next (r : Reads) : Item → Reads
  | .element (.word _ w) => if r.owed then .source w.value else .word w.value
  | .element (.redirect before (.output op) _ w) =>
    .target w.value (r.owed || (r.numbered before op && r.isSource))
  | .element (.redirect _ .input _ w) => .source w.value
  | .element (.redirect _ .readWrite _ w) => .target w.value true
  | .space blanks => if blanks.isEmpty then r else .nothing r.owed
  | .comment _ => r
  | .separator _ => .nothing false

/-- A word is lost at the item: itself, or the one directly before it. -/
def loses (r : Reads) : Item → Bool
  | .element (.word _ _) => r.owed
  | .element (.redirect before (.output op) _ _) => r.numbered before op && r.isWord
  | _ => false

def losesNone (r : Reads) : List Item → Bool
  | [] => true
  | item :: rest => !r.loses item && (r.next item).losesNone rest

def state (r : Reads) (toks : List Tok) : Scan :=
  match r with
  | .nothing owed => .idle toks owed
  | .word value => ⟨toks, value, true, false, false⟩
  | .source value => ⟨toks, value, true, false, true⟩
  | .target value owed => ⟨toks, value, true, true, owed⟩

def flushed : Reads → List Tok
  | .word value => [.word value]
  | .target value _ => [.redirOut value]
  | _ => []

variable {r : Reads} {toks : List Tok} {before : List Char} {prev : Option (List Char)} {item : Item}
  {rest : List Item}

@[simp] theorem flushed_nothing (owed : Bool) : (Reads.nothing owed).flushed = [] := rfl

@[simp] theorem flushed_word (v : List Char) : (Reads.word v).flushed = [.word v] := rfl

@[simp] theorem flushed_source (v : List Char) : (Reads.source v).flushed = [] := rfl

@[simp] theorem flushed_target (v : List Char) (owed : Bool) :
    (Reads.target v owed).flushed = [.redirOut v] := rfl

@[simp] theorem flush_state (r : Reads) (toks : List Tok) :
    (r.state toks).flush = .idle (toks ++ r.flushed) r.owed := by
  cases r <;> simp [state, flushed, owed, Scan.flush, Scan.idle]

/-- The tokens behind an item, without the one that is being read. -/
def settled (r : Reads) (toks : List Tok) : Item → List Tok
  | .element (.redirect before (.output op) _ _) =>
    if r.numbered before op then toks else toks ++ r.flushed
  | .element _ => toks ++ r.flushed
  | .space blanks => if blanks.isEmpty then toks else toks ++ r.flushed
  | .comment _ => toks
  | .separator sep => toks ++ r.flushed ++ separatorToks sep

/-- Nothing is being read where no word stands before. -/
def Behind (r : Reads) (prev : Option (List Char)) : Prop :=
  prev = none → ∃ owed, r = .nothing owed

theorem pause_state (apart : before = [] → ∃ owed, r = .nothing owed) :
    (r.state toks).pause before = .idle (toks ++ r.flushed) r.owed := by
  by_cases empty : before = []
  · obtain ⟨owed, rfl⟩ := apart empty
    simp [Scan.pause, empty, state, flushed, Reads.owed]
  · simp [Scan.pause, empty]

/-- A redirect behind what is being read: an operator takes a number before it for its own. -/
theorem opened_state {op : OutOp} (ok : op.ok)
    (apart : before = [] → (∃ owed, r = .nothing owed) ∨ op.fd = []) : ((r.state toks).pause before).opened op =
      ⟨if r.numbered before op then toks else toks ++ r.flushed, [], false, true,
        r.owed || (r.numbered before op && r.isSource)⟩ := by
  by_cases clear : before ≠ [] ∨ ∃ owed, r = .nothing owed
  · have paused : (r.state toks).pause before = .idle (toks ++ r.flushed) r.owed := by
      apply pause_state
      intro empty
      exact clear.resolve_left (absurd empty)
    have other : r.numbered before op = false := by
      rcases clear with apart | ⟨owed, rfl⟩
      · simp [numbered, apart]
      · simp [numbered, value, isNumber]
    rw [paused, Scan.opened_idle ok, other]
    simp
  · rw [not_or, not_not] at clear
    obtain ⟨rfl, reading⟩ := clear
    have alone : op.fd = [] := (apart rfl).resolve_left reading
    have joined : (r.state toks).pause [] = r.state toks := rfl
    have cur : (r.state toks).cur = r.value := by cases r <;> rfl
    rw [joined]
    by_cases taken : r.numbered [] op
    · -- the number is dropped, and the flags stay as they are
      have number : op.form.isBoth = false ∧ isNumber r.value = true := by
        simpa [numbered] using taken
      have inside : (r.state toks).inWord = true := by
        cases r with
        | nothing owed => exact absurd ⟨owed, rfl⟩ reading
        | word v | source v | target v owed => rfl
      have digits : ((r.state toks).inWord && !(r.state toks).cur.isEmpty &&
          (r.state toks).cur.all Char.isDigit) = true := by
        rw [Bool.and_assoc, ← isNumber, cur, number.2, inside]
        rfl
      have dropped : (r.state toks).beforeOut =
          { r.state toks with cur := [], inWord := false } := by
        rw [Scan.beforeOut, digits]
        rfl
      have opened : (r.state toks).opened op =
          { (r.state toks).beforeOut with pendingOut := true } := by
        rw [Scan.opened, number.1, alone]
        rfl
      rw [opened, dropped, taken]
      cases r with
      | nothing owed => exact absurd ⟨owed, rfl⟩ reading
      | word v | source v => rfl
      | target v owed => simp [state, Reads.owed, isSource]
    · have ends : op.form.isBoth = true ∨ isNumber (r.state toks).cur = false := by
        rw [cur]
        simpa [numbered, Classical.or_iff_not_imp_left] using taken
      rw [Scan.opened_joined alone ends, flush_state, Bool.eq_false_iff.mpr taken]
      simp [Scan.idle]

theorem state_element (behind : r.Behind prev)
    {e : Element} (ok : e.ok) (fits : e.fits prev) (toks : List Tok) :
    (r.state toks).element e = (r.next (.element e)).state (r.settled toks (.element e)) := by
  cases e with
  | word before w =>
    have apart : before = [] → ∃ owed, r = .nothing owed := by
      rintro rfl
      exact behind (by simpa [Element.fits] using fits)
    rw [Scan.element, pause_state apart]
    cases waits : r.owed <;> simp [next, settled, waits, state, Scan.idle, Scan.extend]
  | redirect before op gap w =>
    simp only [Element.ok, Bool.and_eq_true] at ok
    cases op with
    | output op =>
      have apart : before = [] → (∃ owed, r = .nothing owed) ∨ op.fd = [] := by
        rintro rfl
        cases prev with
        | none => exact .inl (behind rfl)
        | some text =>
          have written : op.ok = true := ok.1.2
          have plain : op.fd = [] ∨ op.form.isBoth = false := by
            rw [OutOp.ok, Bool.and_eq_true] at written
            simpa using written.2
          have joins : op.form.isBoth = true ∨ (op.fd = [] ∧ isNumber text = false) := by
            simpa [Element.fits, RedirectOp.joins] using fits
          right
          rcases joins with both | alone
          · rw [both] at plain
            simpa using plain
          · exact alone.1
      rw [Scan.element, opened_state ok.1.2 apart]
      rfl
    | input | readWrite =>
      rw [Scan.element, flush_state]
      rfl

theorem state_separator (r : Reads) (sep : Separator) (toks : List Tok) :
    (separatorToks sep).foldl Scan.sep (r.state toks) =
      (Reads.nothing false).state (toks ++ r.flushed ++ separatorToks sep) := by
  have one : ∀ (r : Reads) (toks : List Tok),
      (r.state toks).sep .sep = (Reads.nothing false).state (toks ++ r.flushed ++ [.sep]) := by
    intro r toks
    rw [Scan.sep, flush_state]
    rfl
  cases sep <;> simp [separatorToks, one]

/-- **One item**: what is read behind it and the tokens it leaves. -/
theorem state_item (behind : r.Behind prev) (fit : Item.fitting prev (item :: rest)) (toks : List Tok) :
    (r.state toks).item item = (r.next item).state (r.settled toks item) := by
  cases item with
  | element e =>
    simp only [Item.fitting, Bool.and_eq_true] at fit
    exact state_element behind fit.1.1 fit.1.2 toks
  | space blanks =>
    by_cases empty : blanks.isEmpty
    · simp [Scan.item, Scan.pause, next, settled, empty]
    · rw [Scan.item, Scan.pause, if_neg empty, flush_state, next, if_neg empty, settled, if_neg empty]
      rfl
  | comment s => rfl
  | separator sep => exact state_separator r sep toks

theorem behind_next (behind : r.Behind prev) (fine : readable item) (fit : Item.fitting prev (item :: rest)) :
    ∃ prev', (r.next item).Behind prev' ∧ Item.fitting prev' rest := by
  cases item with
  | element e =>
    simp only [Item.fitting, Bool.and_eq_true] at fit
    exact ⟨some e.lastText, fun absent => absurd absent (Option.some_ne_none _), fit.2⟩
  | space blanks =>
    rw [Item.fitting, Bool.and_eq_true] at fit
    refine ⟨_, ?_, fit.2⟩
    by_cases empty : blanks.isEmpty
    · simpa [next, empty] using behind
    · rw [next, if_neg empty]
      exact fun _ => ⟨r.owed, rfl⟩
  | comment s => exact absurd fine (by simp [readable])
  | separator sep => exact ⟨none, fun _ => ⟨false, rfl⟩, fit⟩

end Reads

/-! ## Words that come out -/

def Tok.isWord : Tok → Bool
  | .word _ => true
  | _ => false

/-- The tokens that count for the words of the commands. -/
def Tok.counts : Tok → Bool
  | .redirOut _ => false
  | _ => true

def itemToks : Item → List Tok
  | .element e => e.word?.toList.map .word
  | .separator sep => separatorToks sep
  | _ => []

namespace Reads

/-- The tokens so far, with the one that is being read. -/
def shown (r : Reads) (toks : List Tok) : List Tok := (toks ++ r.flushed).filter Tok.counts

variable {r : Reads} {item : Item}

theorem filter_flushed (other : r.isWord = false) : r.flushed.filter Tok.counts = [] := by
  cases r with
  | word v => cases other
  | nothing owed | source v | target v owed => rfl

/-- Where no word is lost the item adds its tokens. -/
theorem shown_next (kept : r.loses item = false) (toks : List Tok) :
    (r.next item).shown (r.settled toks item) = r.shown toks ++ itemToks item := by
  cases item with
  | element e =>
    cases e with
    | word before w =>
      have free : r.owed = false := kept
      simp [shown, next, settled, free, itemToks, Element.word?, Tok.counts]
    | redirect before op gap w =>
      cases op with
      | output op =>
        by_cases taken : r.numbered before op
        · have other : r.isWord = false := by simpa [loses, taken] using kept
          simp [shown, next, settled, taken, itemToks, Element.word?, filter_flushed other, Tok.counts]
        · simp [shown, next, settled, taken, itemToks, Element.word?, Tok.counts]
      | input => simp [shown, next, settled, itemToks, Element.word?]
      | readWrite => simp [shown, next, settled, itemToks, Element.word?, Tok.counts]
  | space blanks =>
    by_cases empty : blanks.isEmpty
    · simp [shown, next, settled, empty, itemToks]
    · simp [shown, next, settled, empty, itemToks]
  | comment s => simp [shown, next, settled, itemToks]
  | separator sep =>
    cases sep <;>
      simp [shown, next, settled, itemToks, separatorToks, Tok.counts]

theorem countP_next_of_loses (lost : r.loses item) (toks : List Tok) :
    ((r.next item).shown (r.settled toks item)).countP Tok.isWord + 1 =
      (r.shown toks).countP Tok.isWord + (itemToks item).countP Tok.isWord := by
  cases item with
  | element e =>
    cases e with
    | word before w =>
      have waits : r.owed = true := lost
      simp [shown, next, settled, waits, itemToks, Element.word?, Tok.isWord]
    | redirect before op gap w =>
      cases op with
      | output op =>
        rw [loses, Bool.and_eq_true] at lost
        obtain ⟨v, rfl⟩ : ∃ v, r = .word v := by
          cases r with
          | word v => exact ⟨v, rfl⟩
          | nothing owed | source v | target v owed => cases lost.2
        have one : ([Tok.word v].filter Tok.counts).countP Tok.isWord = 1 := rfl
        simp [shown, next, settled, lost.1, itemToks, Element.word?, Tok.counts, one]
      | input | readWrite => cases lost
  | space blanks | comment s | separator sep => cases lost

/-- **What is shown after all of the items**: their tokens where no word is lost, fewer words
otherwise. -/
theorem shown_items {items : List Item} {prev : Option (List Char)}
    (behind : r.Behind prev) (fit : Item.fitting prev items) (fine : items.all readable) (toks : List Tok) :
    ∃ (r' : Reads) (toks' : List Tok), items.foldl Scan.item (r.state toks) = r'.state toks' ∧
      (r.losesNone items → r'.shown toks' = r.shown toks ++ items.flatMap itemToks) ∧
      (r'.shown toks').countP Tok.isWord ≤
        (r.shown toks).countP Tok.isWord + (items.flatMap itemToks).countP Tok.isWord ∧
      (r.losesNone items = false → (r'.shown toks').countP Tok.isWord <
        (r.shown toks).countP Tok.isWord + (items.flatMap itemToks).countP Tok.isWord) := by
  induction items generalizing prev r toks with
  | nil => exact ⟨r, toks, rfl, by simp, by simp, by simp [losesNone]⟩
  | cons item rest ih =>
    rw [List.all_cons, Bool.and_eq_true] at fine
    obtain ⟨prev', behind', fit'⟩ := behind_next behind fine.1 fit
    obtain ⟨r', toks', reached, same, atMost, fewer⟩ :=
      ih behind' fit' fine.2 (r.settled toks item)
    rw [List.foldl_cons, state_item behind fit, List.flatMap_cons, List.countP_append]
    refine ⟨r', toks', reached, ?_⟩
    cases lost : r.loses item with
    | true =>
      have less := countP_next_of_loses lost toks
      refine ⟨?_, by omega, fun _ => by omega⟩
      intro none
      simp [losesNone, lost] at none
    | false =>
      have shown := shown_next lost toks
      have more := congrArg (List.countP Tok.isWord) shown
      rw [List.countP_append] at more
      have later : r.losesNone (item :: rest) = (r.next item).losesNone rest := by
        simp [losesNone, lost]
      rw [later]
      refine ⟨?_, by omega, ?_⟩
      · intro none
        rw [same none, shown, List.append_assoc]
      · intro some
        have rest' := fewer some
        omega

end Reads

/-! ## The words of the commands -/

/-- The words of the commands, without those of commands that have none. -/
def commandLists (toks : List Tok) : List (List (List Char)) :=
  ((segments toks).map Segment.words).filter fun words => !words.isEmpty

theorem segmentsFrom_counts {toks : List Tok} {current current' : Segment}
    (same : current.words = current'.words) : (segmentsFrom current toks).map Segment.words =
      (segmentsFrom current' (toks.filter Tok.counts)).map Segment.words := by
  induction toks generalizing current current' with
  | nil => simp [segmentsFrom, same]
  | cons t rest ih =>
    have split : ∀ (t : Tok), (t = .sep ∨ t = .opening ∨ t = .closing) →
        (segmentsFrom current (t :: rest)).map Segment.words =
          (segmentsFrom current' ((t :: rest).filter Tok.counts)).map Segment.words := by
      intro t which
      have later : (segmentsFrom ⟨[], [], some t⟩ rest).map Segment.words =
          (segmentsFrom ⟨[], [], some t⟩ (rest.filter Tok.counts)).map Segment.words := ih rfl
      rcases which with rfl | rfl | rfl <;>
      · rw [List.filter_cons_of_pos rfl]
        simpa [segmentsFrom, same] using later
    cases t with
    | word w =>
      rw [List.filter_cons_of_pos rfl, segmentsFrom, segmentsFrom]
      apply ih
      simp [same]
    | redirOut w =>
      rw [List.filter_cons_of_neg (by simp [Tok.counts]), segmentsFrom]
      exact ih same
    | sep => exact split .sep (by simp)
    | opening => exact split .opening (by simp)
    | closing => exact split .closing (by simp)

/-- The tokens of items are taken apart as the items are, `&&` and `||` with a command without
words in between. -/
theorem segmentsFrom_items (items : List Item) (current : Segment) :
    ((segmentsFrom current (items.flatMap itemToks)).map Segment.words).filter
        (fun words => !words.isEmpty) =
      (Item.gather current.words items).filter fun words => !words.isEmpty := by
  induction items generalizing current with
  | nil => rfl
  | cons item rest ih =>
    rw [List.flatMap_cons]
    cases item with
    | element e =>
      cases e with
      | word before w => exact ih { current with words := current.words ++ [w.value] }
      | redirect before op gap w =>
        rw [Item.gather, Element.word?, Option.toList_none, List.append_nil]
        exact ih current
    | space blanks | comment s => exact ih current
    | separator sep =>
      have later := ih ⟨[], [], some .sep⟩
      cases sep <;>
        simp [itemToks, separatorToks, segmentsFrom, Item.gather, List.filter_cons, later]

theorem length_segmentsFrom (toks : List Tok) (current : Segment) :
    ((segmentsFrom current toks).map Segment.words).flatten.length =
      current.words.length + toks.countP Tok.isWord := by
  induction toks generalizing current with
  | nil => simp [segmentsFrom]
  | cons t rest ih =>
    cases t with
    | word w =>
      rw [segmentsFrom, ih, List.countP_cons_of_pos rfl]
      simp only [List.length_append, List.length_singleton]
      omega
    | redirOut w => rw [segmentsFrom, ih, List.countP_cons_of_neg (by simp [Tok.isWord])]
    | sep | opening | closing => simp [segmentsFrom, ih, Tok.isWord]

theorem length_commandLists (toks : List Tok) :
    (commandLists toks).flatten.length = toks.countP Tok.isWord := by
  rw [commandLists, List.flatten_filter_not_isEmpty, segments, length_segmentsFrom]
  simp

theorem commandLists_counts (toks : List Tok) : commandLists toks = commandLists (toks.filter Tok.counts) := by
  rw [commandLists, segments, segmentsFrom_counts rfl]
  rfl

/-- **The words of every command come out exactly when none is lost.** -/
theorem commandLists_tokenize_iff {items : List Item} (fit : Item.fitting none items)
    (fine : items.all readable) (apart : parted items) : commandLists (tokenize (Item.textOf items)) =
        (Item.gather [] items).filter (fun words => !words.isEmpty) ↔
      (Reads.nothing false).losesNone items := by
  have behind : (Reads.nothing false).Behind none := fun _ => ⟨false, rfl⟩
  obtain ⟨r, toks, reached, same, -, fewer⟩ := Reads.shown_items behind fit fine []
  have start : Scan.start = (Reads.nothing false).state [] := rfl
  have shown : (tokenize (Item.textOf items)).filter Tok.counts = r.shown toks := by
    rw [tokenize_items fit fine apart, start, reached, Reads.flush_state]
    rfl
  have wanted : commandLists (items.flatMap itemToks) =
      (Item.gather [] items).filter fun words => !words.isEmpty :=
    segmentsFrom_items items ⟨[], [], none⟩
  rw [commandLists_counts, shown, ← wanted]
  cases none : (Reads.nothing false).losesNone items with
  | true =>
    have all := same none
    simp only [iff_true]
    rw [all]
    rfl
  | false =>
    simp only [Bool.false_eq_true, iff_false]
    intro equal
    have counted := congrArg (fun lists => lists.flatten.length) equal
    simp only [length_commandLists] at counted
    have less := fewer none
    have empty : ((Reads.nothing false).shown []).countP Tok.isWord = 0 := rfl
    omega

end DuDuClaw.OrgFieldGuard
