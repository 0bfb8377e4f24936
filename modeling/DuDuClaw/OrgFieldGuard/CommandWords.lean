/-
# OrgFieldGuard.CommandWords -- the words `command_words` returns

`command_words` first takes out the redirects that write nothing and then reads what is left.
On a script that is read as it is written -- without comments, and where the first pass takes
out whole redirects only -- every word of every command comes out unless a word is lost, which
`<>` and a quoted number before `>` bring about.

* `strip_items`: what the first pass leaves of a script.
* `commandWords_script_iff`: the words are those the shell passes on exactly when none is lost.
-/
import DuDuClaw.OrgFieldGuard.ScriptTokens

namespace DuDuClaw.OrgFieldGuard

open DuDuClaw.Lib

/-! ## The first pass, piece by piece -/

/-- Some rounds of the loop take it from `i` to `j`, and what it has copied from `out` to
`out'`. -/
def Copies (b : List Char) (i : Nat) (out : List Char) (j : Nat) (out' : List Char) : Prop :=
  ∃ rounds, i + rounds ≤ j ∧
    ∀ fuel, stripLoop b (fun k => b.getD k ' ') ' ' (fuel + rounds) i out =
      stripLoop b (fun k => b.getD k ' ') ' ' fuel j out'

namespace Copies

variable {b : List Char} {i j k : Nat} {out out' out'' : List Char}

theorem refl (b : List Char) (i : Nat) (out : List Char) : Copies b i out i out :=
  ⟨0, le_rfl, fun _ => rfl⟩

theorem trans (first : Copies b i out j out') (second : Copies b j out' k out'') : Copies b i out k out'' := by
  obtain ⟨m, short, run⟩ := first
  obtain ⟨n, short', run'⟩ := second
  refine ⟨n + m, by omega, ?_⟩
  intro fuel
  rw [← Nat.add_assoc, run, run']

theorem whole (run : Copies b 0 [] b.length out) : stripFdRedirects b = some out := by
  obtain ⟨n, short, run⟩ := run
  obtain ⟨fuel, enough⟩ : ∃ fuel, b.length = fuel + n := ⟨b.length - n, by omega⟩
  rw [stripFdRedirects, enough, run fuel]
  cases fuel with
  | zero => rfl
  | succ fuel => simp [stripLoop]

theorem one (inside : i < b.length) (stays : holdsAt b i isRedirectOp → redirectEnd b i = none) :
    Copies b i out (i + 1) (out ++ [b.getD i ' ']) := by
  refine ⟨1, le_rfl, ?_⟩
  intro fuel
  rw [stripLoop, if_pos inside]
  by_cases op : holdsAt b i isRedirectOp
  · simp [op, stays op]
  · simp [op]

theorem cut {taken : List Char} (op : holdsAt b j isRedirectOp) (ends : redirectEnd b j = some k)
    (start : taken.length = j - prefixStart b j) : Copies b j (out ++ taken) k (out ++ [' ']) := by
  have forward := lt_redirectEnd ends
  refine ⟨1, by omega, ?_⟩
  intro fuel
  have room : (out ++ taken).length - (j - prefixStart b j) = out.length := by
    rw [List.length_append, ← start]
    omega
  rw [stripLoop, if_pos (holdsAt_lt op), if_pos op, ends]
  simp only [room, List.take_left]
  rw [if_neg]
  rw [List.length_append, ← start]
  omega

end Copies

/-- No operator in the `n` characters from `i` on is taken out. -/
def keeps (b : List Char) (i n : Nat) : Bool :=
  (List.range' i n).all fun j => !(holdsAt b j isRedirectOp && (redirectEnd b j).isSome)

theorem Copies.keep {b : List Char} {i n : Nat} (inside : i + n ≤ b.length) (stays : keeps b i n)
    (out : List Char) : Copies b i out (i + n) (out ++ (b.drop i).take n) := by
  induction n with
  | zero => simpa using Copies.refl b i out
  | succ n ih =>
    have last : (b.drop i).take (n + 1) = (b.drop i).take n ++ [b.getD (i + n) ' '] := by
      rw [List.take_add_one, List.getElem?_drop, List.getD_eq_getElem?_getD,
        List.getElem?_eq_getElem (by omega)]
      rfl
    rw [keeps, List.range'_1_concat, List.all_append, Bool.and_eq_true] at stays
    have here : holdsAt b (i + n) isRedirectOp → redirectEnd b (i + n) = none := by
      intro op
      simpa [op] using stays.2
    rw [last, ← List.append_assoc]
    exact (ih (by omega) stays.1).trans (Copies.one (by omega) here)

/-! ## The first pass over a script -/

/-- What stands before the `<` or `>` of an operator. -/
def opLead : RedirectOp → List Char
  | .output op => if op.form.isBoth then ['&'] else op.fd
  | _ => []

/-- The redirect, which begins at `i`, is taken out, and nothing but the redirect. -/
def cuts (b : List Char) (i : Nat) : Item → Bool
  | .element (.redirect before op gap target) =>
    prefixStart b (i + before.length + (opLead op).length) == i + before.length &&
      redirectEnd b (i + before.length + (opLead op).length) ==
        some (i + (Element.redirect before op gap target).text.length)
  | _ => false

/-- Every item from `i` on is taken out whole or left whole. -/
def regular (b : List Char) (i : Nat) : List Item → Bool
  | [] => true
  | item :: rest =>
    (cuts b i item || keeps b i item.text.length) && regular b (i + item.text.length) rest

/-- A redirect that is taken out leaves the blanks before it and one more. -/
def cutItem : Item → Item
  | .element (.redirect before _ _ _) => .space (before ++ [' '])
  | item => item

/-- What is left of the items from `i` on. -/
def leftItems (b : List Char) (i : Nat) : List Item → List Item
  | [] => []
  | item :: rest =>
    (if cuts b i item then cutItem item else item) :: leftItems b (i + item.text.length) rest

variable {b : List Char} {i : Nat} {op : RedirectOp}

variable {c : Char} {more : List Char} {items : List Item}

theorem redirect_of_cuts {item : Item} (cut : cuts b i item) :
    ∃ before op gap target, item = .element (.redirect before op gap target) := by
  cases item with
  | element e =>
    cases e with
    | word before w => cases cut
    | redirect before op gap target => exact ⟨before, op, gap, target, rfl⟩
  | space blanks | comment s | separator sep => cases cut

theorem opLead_text (ok : op.ok) : ∃ c more, op.text = opLead op ++ c :: more ∧ isRedirectOp c := by
  cases op with
  | input => exact ⟨'<', [], rfl, rfl⟩
  | readWrite => exact ⟨'<', ['>'], rfl, rfl⟩
  | output op =>
    obtain ⟨fd, form⟩ := op
    simp only [RedirectOp.ok, OutOp.ok, Bool.and_eq_true, Bool.or_eq_true, List.isEmpty_iff,
      Bool.not_eq_true'] at ok
    cases form with
    | out => exact ⟨'>', [], rfl, rfl⟩
    | append => exact ⟨'>', ['>'], rfl, rfl⟩
    | clobber => exact ⟨'>', ['|'], rfl, rfl⟩
    | both =>
      have alone : fd = [] := ok.2.resolve_right (by simp [OutForm.isBoth])
      subst alone
      exact ⟨'>', [], rfl, rfl⟩
    | bothAppend =>
      have alone : fd = [] := ok.2.resolve_right (by simp [OutForm.isBoth])
      subst alone
      exact ⟨'>', ['>'], rfl, rfl⟩

theorem not_isRedirectOp_lead (ok : op.ok) (listed : c ∈ opLead op) : isRedirectOp c = false := by
  cases op with
  | input | readWrite => cases listed
  | output op =>
    simp only [RedirectOp.ok, OutOp.ok, Bool.and_eq_true] at ok
    rw [opLead] at listed
    split at listed
    · rw [List.mem_singleton] at listed
      subst listed
      rfl
    have bare := isShellMeta_of_isDigit (List.all_eq_true.mp ok.1 c listed)
    simp only [isShellMeta, List.contains_eq_mem, List.mem_cons, List.not_mem_nil, or_false,
      decide_eq_false_iff_not, not_or] at bare
    simp [isRedirectOp, bare]

theorem not_isRedirectOp_blank (blank : isBlankChar c) : isRedirectOp c = false := by
  rw [isBlankChar, Bool.or_eq_true, beq_iff_eq, beq_iff_eq] at blank
  rcases blank with rfl | rfl <;> rfl

theorem keeps_of_plain {s : List Char} (suffix : b.drop i = s ++ more)
    (plain : ∀ c ∈ s, isRedirectOp c = false) : keeps b i s.length := by
  rw [keeps, List.all_eq_true]
  intro j between
  rw [List.mem_range'_1] at between
  have found : b[j]? = s[j - i]? := by
    have shifted : (b.drop i)[j - i]? = b[j]? := by
      rw [List.getElem?_drop, Nat.add_sub_cancel' between.1]
    rw [← shifted, suffix, List.getElem?_append_left (by omega)]
  have known : s[j - i]? = some s[j - i] := List.getElem?_eq_getElem (by omega)
  have other : holdsAt b j isRedirectOp = false := by
    rw [holdsAt_of_char (found.trans known)]
    exact plain _ (List.getElem_mem _)
  rw [other]
  rfl

theorem copies_cut {before gap : List Char}
    {target : Spelling} (suffix : b.drop i = (Element.redirect before op gap target).text ++ more)
    (ok : (Element.redirect before op gap target).ok)
    (cut : cuts b i (.element (.redirect before op gap target))) (out : List Char) :
    Copies b i out (i + (Element.redirect before op gap target).text.length) (out ++ (before ++ [' '])) := by
  simp only [Element.ok, Bool.and_eq_true] at ok
  simp only [cuts, Bool.and_eq_true, beq_iff_eq] at cut
  obtain ⟨start, ends⟩ := cut
  obtain ⟨c, tail, written, isOp⟩ := opLead_text ok.1.2
  have shape : b.drop i = (before ++ opLead op) ++ (c :: (tail ++ (gap ++ (target.text ++ more)))) := by
    rw [suffix]
    simp [Element.text, written]
  have plain : ∀ d ∈ before ++ opLead op, isRedirectOp d = false := by
    intro d listed
    rcases List.mem_append.mp listed with blank | lead
    · exact not_isRedirectOp_blank (List.all_eq_true.mp ok.1.1 d blank)
    · exact not_isRedirectOp_lead ok.1.2 lead
  have long : i + (before ++ opLead op).length < b.length := by
    have size := congrArg List.length shape
    rw [List.length_drop, List.length_append, List.length_cons] at size
    omega
  have first := Copies.keep (by omega) (keeps_of_plain shape plain) out
  rw [shape, List.take_left, List.length_append, ← Nat.add_assoc, ← List.append_assoc] at first
  have here : holdsAt b (i + before.length + (opLead op).length) isRedirectOp := by
    have found : b[i + (before ++ opLead op).length]? = some c := by
      rw [← List.getElem?_drop, shape, List.getElem?_append_right le_rfl]
      simp
    rw [List.length_append, ← Nat.add_assoc] at found
    rw [holdsAt_of_char found]
    exact isOp
  have second : Copies b (i + before.length + (opLead op).length) (out ++ before ++ opLead op)
      (i + (Element.redirect before op gap target).text.length) (out ++ before ++ [' ']) :=
    Copies.cut here ends (by rw [start]; omega)
  rw [List.append_assoc out before [' ']] at second
  exact first.trans second

/-- **What the first pass leaves of a script.** -/
theorem copies_items (inside : i ≤ b.length) (suffix : b.drop i = Item.textOf items) {prev : Option (List Char)}
    (fit : Item.fitting prev items) (whole : regular b i items) (out : List Char) :
    Copies b i out b.length (out ++ Item.textOf (leftItems b i items)) := by
  induction items generalizing i prev out with
  | nil =>
    have done : i = b.length := by
      have size := congrArg List.length suffix
      rw [List.length_drop, Item.textOf_nil, List.length_nil] at size
      omega
    subst done
    simpa [leftItems] using Copies.refl b b.length out
  | cons item rest ih =>
    rw [regular, Bool.and_eq_true, Bool.or_eq_true] at whole
    rw [Item.textOf_cons] at suffix
    have long : i + item.text.length ≤ b.length := by
      have size := congrArg List.length suffix
      rw [List.length_drop, List.length_append] at size
      omega
    have suffix' : b.drop (i + item.text.length) = Item.textOf rest := by
      rw [← List.drop_drop, suffix, List.drop_left]
    have later := ih long suffix' (Item.fitting_tail fit) whole.2
    rw [leftItems, Item.textOf_cons, ← List.append_assoc]
    refine Copies.trans ?_ (later _)
    split
    · rename_i cut
      obtain ⟨before, op, gap, target, rfl⟩ := redirect_of_cuts cut
      simp only [Item.fitting, Bool.and_eq_true] at fit
      exact copies_cut suffix fit.1.1 cut out
    · rename_i uncut
      have kept := Copies.keep long (whole.1.resolve_left uncut) out
      rwa [suffix, List.take_left] at kept

theorem strip_items (fit : Item.fitting none items)
    (whole : regular (Item.textOf items) 0 items) : stripFdRedirects (Item.textOf items) =
      some (Item.textOf (leftItems (Item.textOf items) 0 items)) := by
  have run := copies_items (Nat.zero_le _) List.drop_zero fit whole []
  rw [List.nil_append] at run
  exact run.whole

/-! ## What is left is a script -/

section Left

variable {b : List Char} {i : Nat}

variable {items : List Item}

theorem fitting_left {prev : Option (List Char)}
    (fit : Item.fitting prev items) : Item.fitting prev (leftItems b i items) := by
  induction items generalizing i prev with
  | nil => rfl
  | cons item rest ih =>
    rw [leftItems]
    split
    · rename_i cut
      obtain ⟨before, op, gap, target, rfl⟩ := redirect_of_cuts cut
      have blank : (before ++ [' ']).all isBlankChar := by
        simp only [Item.fitting, Element.ok, Bool.and_eq_true] at fit
        simp [List.all_append, fit.1.1.1.1, isBlankChar]
      have apart : (before ++ [' ']).isEmpty = false := by simp
      rw [cutItem, Item.fitting, Bool.and_eq_true, apart]
      exact ⟨blank, ih (Item.fitting_tail fit)⟩
    · cases item with
      | element e =>
        simp only [Item.fitting, Bool.and_eq_true] at fit ⊢
        exact ⟨fit.1, ih fit.2⟩
      | space blanks =>
        rw [Item.fitting, Bool.and_eq_true] at fit ⊢
        exact ⟨fit.1, ih fit.2⟩
      | comment s | separator sep => exact ih fit

theorem readable_left (fine : items.all readable) : (leftItems b i items).all readable := by
  induction items generalizing i with
  | nil => rfl
  | cons item rest ih =>
    rw [List.all_cons, Bool.and_eq_true] at fine
    rw [leftItems, List.all_cons, Bool.and_eq_true]
    refine ⟨?_, ih fine.2⟩
    split
    · rename_i cut
      obtain ⟨before, op, gap, target, rfl⟩ := redirect_of_cuts cut
      rfl
    · exact fine.1

theorem gather_left (current : List (List Char)) (items : List Item) :
    Item.gather current (leftItems b i items) = Item.gather current items := by
  induction items generalizing i current with
  | nil => rfl
  | cons item rest ih =>
    have kept : ∀ rest' : List Item, (∀ current', Item.gather current' rest' =
        Item.gather current' rest) →
        Item.gather current (item :: rest') = Item.gather current (item :: rest) := by
      intro rest' same
      cases item <;> simp [Item.gather, same]
    rw [leftItems]
    split
    · rename_i cut
      obtain ⟨before, op, gap, target, rfl⟩ := redirect_of_cuts cut
      rw [cutItem, Item.gather, Item.gather, Element.word?, Option.toList_none, List.append_nil]
      exact ih current
    · exact kept _ ih

/-- No `>` comes to stand first. -/
theorem head_left (first : (Item.textOf (leftItems b i items)).head? = some '>') :
    (Item.textOf items).head? = some '>' := by
  induction items generalizing i with
  | nil => exact first
  | cons item rest ih =>
    rw [leftItems, Item.textOf_cons] at first
    rw [Item.textOf_cons]
    split at first
    · rename_i cut
      obtain ⟨before, op, gap, target, rfl⟩ := redirect_of_cuts cut
      cases before with
      | nil => simp [cutItem, Item.text] at first
      | cons c more => simpa [cutItem, Item.text, Element.text] using first
    cases text : item.text with
    | nil =>
      rw [text, List.nil_append] at first
      exact ih first
    | cons c more =>
      rw [text] at first
      exact first

theorem parted_left (apart : parted items) : parted (leftItems b i items) := by
  induction items generalizing i with
  | nil => rfl
  | cons item rest ih =>
    rw [leftItems]
    split
    · rename_i cut
      obtain ⟨before, op, gap, target, rfl⟩ := redirect_of_cuts cut
      exact ih apart
    cases item with
    | element e | space blanks | comment s => exact ih apart
    | separator sep =>
      simp only [parted, Bool.and_eq_true, Bool.not_eq_true', Bool.and_eq_false_iff,
        beq_eq_false_iff_ne] at apart ⊢
      refine ⟨apart.1.imp_right ?_, ih apart.2⟩
      intro other first
      exact other (head_left first)

end Left

/-! ## `&&` before an operator -/

/-- The operators as the tokenizer takes them apart: `&&>` is `&` and `&>` to it. -/
def regroup : List Item → List Item
  | .separator .andIf :: .element (.redirect [] (.output ⟨[], .out⟩) gap target) :: rest =>
    .separator .amp :: .element (.redirect [] (.output ⟨[], .both⟩) gap target) :: regroup rest
  | .separator .andIf :: .element (.redirect [] (.output ⟨[], .append⟩) gap target) :: rest =>
    .separator .amp :: .element (.redirect [] (.output ⟨[], .bothAppend⟩) gap target) ::
      regroup rest
  | item :: rest => item :: regroup rest
  | [] => []

theorem textOf_regroup (items : List Item) : Item.textOf (regroup items) = Item.textOf items := by
  fun_induction regroup items with
  | case1 gap target rest ih | case2 gap target rest ih =>
    simp [ih, Item.text, Separator.text, Element.text, RedirectOp.text, OutOp.text, OutForm.text]
  | case3 item rest _ _ ih => rw [Item.textOf_cons, Item.textOf_cons, ih]
  | case4 => rfl

theorem gather_regroup (current : List (List Char)) (items : List Item) :
    Item.gather current (regroup items) = Item.gather current items := by
  fun_induction regroup items generalizing current with
  | case1 gap target rest ih | case2 gap target rest ih => simp [Item.gather, Element.word?, ih]
  | case3 item rest _ _ ih => cases item <;> simp [Item.gather, ih]
  | case4 => rfl

theorem fitting_regroup {prev : Option (List Char)} {items : List Item}
    (fit : Item.fitting prev items) : Item.fitting prev (regroup items) := by
  fun_induction regroup items generalizing prev with
  | case1 gap target rest ih | case2 gap target rest ih =>
    simp only [Item.fitting, Bool.and_eq_true] at fit ⊢
    exact ⟨⟨fit.1.1, rfl⟩, ih fit.2⟩
  | case3 item rest _ _ ih =>
    cases item with
    | element e | space blanks =>
      rw [Item.fitting, Bool.and_eq_true] at fit ⊢
      exact ⟨fit.1, ih fit.2⟩
    | comment s | separator sep => exact ih fit
  | case4 => rfl

/-! ## The words of a script -/

/-- **The script is read as it is written**: it has no comment and no bare white space in a word,
no `&&` runs into a `>|`, and the first pass takes out whole redirects of it and nothing else. -/
def readAsWritten (s : Script) : Bool :=
  (regroup s.items).all readable && parted (regroup s.items) &&
    regular s.text 0 (regroup s.items)

/-- **No word of the script is lost**: none stands behind a `<>` whose `<` still waits for a
source, and no quoted number stands directly before a `>` that is left. -/
def keepsWords (s : Script) : Bool :=
  (Reads.nothing false).losesNone (leftItems s.text 0 (regroup s.items))

theorem words_eq_gather (s : Script) :
    s.words = (Item.gather [] s.items).filter fun words => !words.isEmpty := by
  rw [Script.words, Script.items, Item.gather_script]

/-- **The words of every command.**  Of a script that is read as it is written `command_words`
returns what the shell passes to the commands exactly when no word is lost. -/
theorem commandWords_script_iff (s : Script) (written : readAsWritten s) :
    commandWords s.text = some s.words ↔ keepsWords s := by
  simp only [readAsWritten, Bool.and_eq_true] at written
  obtain ⟨⟨fine, apart⟩, whole⟩ := written
  have fit : Item.fitting none (regroup s.items) := fitting_regroup (Item.fitting_script s.ok)
  have text : s.text = Item.textOf (regroup s.items) := (textOf_regroup s.items).symm
  have stripped := strip_items fit (by rw [← text]; exact whole)
  rw [← text] at stripped
  have lists : commandLists (tokenize (Item.textOf (leftItems s.text 0 (regroup s.items)))) =
        (Item.gather [] (leftItems s.text 0 (regroup s.items))).filter
          (fun words => !words.isEmpty) ↔ keepsWords s :=
    commandLists_tokenize_iff (fitting_left fit) (readable_left fine) (parted_left apart)
  rw [gather_left, gather_regroup, ← words_eq_gather] at lists
  rw [commandWords, stripped, Option.map_some, Option.some.injEq]
  exact lists

/-- `rm 'a b' 2>/dev/null >f <g&&>h ls`. -/
def removeThenList : Script where
  commands := [(⟨[.word [] (.ofBare ['r', 'm'] (by decide) (Spelling.noMeta rfl) (by decide)),
      .word [' '] ⟨[.single ['a', ' ', 'b']], by decide, by decide, by decide⟩,
      .redirect [' '] (.output ⟨['2'], .out⟩) []
        (.ofBare devNull (by decide) (Spelling.noMeta rfl) (by decide)),
      .redirect [' '] (.output ⟨[], .out⟩) []
        (.ofBare ['f'] (by decide) (Spelling.noMeta rfl) (by decide)),
      .redirect [' '] .input [] (.ofBare ['g'] (by decide) (Spelling.noMeta rfl) (by decide))],
      [], none⟩, .andIf)]
  last := ⟨[.redirect [] (.output ⟨[], .out⟩) []
        (.ofBare ['h'] (by decide) (Spelling.noMeta rfl) (by decide)),
      .word [' '] (.ofBare ['l', 's'] (by decide) (Spelling.noMeta rfl) (by decide))], [], none⟩
  ok := by decide

theorem commandWords_removeThenList :
    commandWords removeThenList.text = some [[['r', 'm'], ['a', ' ', 'b']], [['l', 's']]] :=
  (commandWords_script_iff removeThenList (by decide)).mpr (by decide)

/-- `cat <> f x`. -/
def catReadWrite : Script where
  commands := []
  last := ⟨[.word [] (.ofBare ['c', 'a', 't'] (by decide) (Spelling.noMeta rfl) (by decide)),
      .redirect [' '] .readWrite [' ']
        (.ofBare ['f'] (by decide) (Spelling.noMeta rfl) (by decide)),
      .word [' '] (.ofBare ['x'] (by decide) (Spelling.noMeta rfl) (by decide))], [], none⟩
  ok := by decide

/-- `a # b`. -/
def trailingComment : Script where
  commands := []
  last := ⟨[.word []
        (.ofBare ['a'] (by decide) (Spelling.noMeta rfl) (by decide))], [' '], some [' ', 'b']⟩
  ok := by decide

/-- The word behind the target of `<>` is lost, and a comment is read as words. -/
theorem word_behind_readWrite_lost : (catReadWrite.words = [[['c', 'a', 't'], ['x']]] ∧
        commandWords catReadWrite.text = some [[['c', 'a', 't']]]) ∧
      trailingComment.words = [[['a']]] ∧ commandWords trailingComment.text = some [[['a'], ['#'], ['b']]] := by
  refine ⟨⟨?_, ?_⟩, ?_, ?_⟩ <;> decide

end DuDuClaw.OrgFieldGuard
