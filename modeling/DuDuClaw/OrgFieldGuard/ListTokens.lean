/-
# OrgFieldGuard.ListTokens -- the tokens of a list of commands

A list of `cd` commands and output redirects, however it is written, is read as the words
and targets it has, with a separator for each joint and a token for each parenthesis.

* `tokenize_list`: the tokens of a list, unless a word holds bare white space of another
  kind than blank and tab.
-/
import DuDuClaw.OrgFieldGuard.Reading

namespace DuDuClaw.OrgFieldGuard

open DuDuClaw.Lib

/-! ## Tokens -/

def dirToks : Option (List Char × Spelling) → List Tok
  | some (_, dir) => [.word Cmd.cdText, .word dir.value]
  | none => []

def redirToks (redirs : List (Redirect Spelling)) : List Tok :=
  redirs.map fun r => .redirOut r.target.value

def jointToks : Joint → List Tok
  | .andIf => [.sep, .sep]
  | _ => [.sep]

def listToks : Cmd Spelling → List Tok
  | .simple _ dir redirs _ => dirToks dir ++ redirToks redirs
  | .subshell _ body redirs _ =>
    .opening :: (listToks body ++ .closing :: redirToks redirs)
  | .join joint left right => listToks left ++ jointToks joint ++ listToks right
  | .ended joint body => listToks body ++ jointToks joint

def spaceFreeList : Cmd Spelling → Bool
  | .simple _ dir redirs _ =>
    dir.all (fun d => spaceFree d.2) && redirs.all fun r => spaceFree r.target
  | .subshell _ body redirs _ => spaceFreeList body && redirs.all fun r => spaceFree r.target
  | .join _ left right => spaceFreeList left && spaceFreeList right
  | .ended _ body => spaceFreeList body

/-! ## Redirects -/

/-- No word is being read and no target is to come. -/
def Scan.between (toks : List Tok) : Scan := ⟨toks, [], false, false, false⟩

/-- The target of an output redirect is being read. -/
def Scan.target (toks : List Tok) (value : List Char) : Scan := ⟨toks, value, true, true, false⟩

variable {prev : Option (List Char)} {st : Scan} {toks : List Tok} {rest : List Char} {c : Cmd Spelling}

@[simp] theorem Scan.between_flush (toks : List Tok) : (Scan.between toks).flush = .between toks :=
  rfl

@[simp] theorem Scan.target_flush (toks : List Tok) (value : List Char) :
    (Scan.target toks value).flush = .between (toks ++ [.redirOut value]) := rfl

/-- What was read last, where a redirect begins: nothing, or a word of this value. -/
def Scan.after (st : Scan) : Option (List Char) → Prop
  | none => st.inWord = false
  | some value => st.inWord = true ∧ st.cur = value

theorem read_redirect {r : Redirect Spelling} (blanks : r.blanksOk) (noSpace : spaceFree r.target)
    (fits : r.fits prev) (ready : st.flush = .between toks) (last : st.after prev) (rest : List Char) :
    read none (r.text ++ rest) st = read none rest (.target toks r.target.value) := by
  simp only [Redirect.blanksOk, Bool.and_eq_true] at blanks
  have joins : r.before ≠ [] ∨ st.inWord = false ∨
      (r.op.fd = [] ∧ (r.op.form.isBoth = true ∨ isNumber st.cur = false)) := by
    simp only [Redirect.fits, Bool.or_eq_true, Bool.not_eq_true', List.isEmpty_eq_false_iff] at fits
    rcases fits with apart | joined
    · exact .inl apart
    cases prev with
    | none => exact .inr (.inl last)
    | some value =>
      simp only [Bool.and_eq_true, List.isEmpty_iff, Bool.not_eq_true'] at joined
      rw [last.2]
      exact .inr (.inr ⟨joined.1, .inr joined.2⟩)
  have shape : r.text ++ rest = r.before ++ (r.op.text ++ (r.gap ++ (r.target.text ++ rest))) := by
    simp [Redirect.text]
  rw [shape]
  exact read_output blanks.1.2 blanks.1.1 blanks.2 noSpace ready joins rest

theorem read_redirects {redirs : List (Redirect Spelling)}
    (ok : redirectsOk prev redirs) (noSpace : redirs.all fun r => spaceFree r.target)
    (ready : st.flush = .between toks) (last : st.after prev) (rest : List Char) :
    ∃ st', read none (redirectsText redirs ++ rest) st = read none rest st' ∧
      st'.flush = .between (toks ++ redirToks redirs) := by
  induction redirs generalizing prev st toks with
  | nil => exact ⟨st, rfl, by simpa [redirToks] using ready⟩
  | cons r more ih =>
    simp only [redirectsOk, Bool.and_eq_true] at ok
    rw [List.all_cons, Bool.and_eq_true] at noSpace
    have first := read_redirect ok.1.1 noSpace.1 ok.1.2 ready last
      (redirectsText more ++ rest)
    obtain ⟨st', later, flushed⟩ := ih ok.2 noSpace.2
      (Scan.target_flush toks r.target.value) ⟨rfl, rfl⟩
    refine ⟨st', ?_, ?_⟩
    · rw [redirectsText, List.flatMap_cons, List.append_assoc]
      exact first.trans later
    · rw [flushed]
      simp [redirToks]

/-! ## Lists -/

/-- What follows ends the word before it. -/
def Stops (rest : List Char) : Prop :=
  rest.head? ≠ some '>' ∧
    ∀ st : Scan, (read none rest st).flush = (read none rest st.flush).flush

theorem Stops.nil : Stops [] := by
  refine ⟨nofun, ?_⟩
  intro st
  simp

@[simp] theorem Scan.sep_flush (st : Scan) (t : Tok) : st.flush.sep t = st.sep t := by
  simp [Scan.sep]

theorem Scan.sep_eq (ready : st.flush = .between toks) (t : Tok) : st.sep t = .between (toks ++ [t]) := by
  simp [Scan.sep, ready, Scan.between]

theorem Stops.closing (rest : List Char) : Stops (')' :: rest) := by
  refine ⟨by simp, ?_⟩
  intro st
  rw [read_closing, read_closing, Scan.sep_flush]

theorem read_joint (joint : Joint) (follows : Cmd.mayFollow joint rest) (st : Scan) :
    read none (joint.text ++ rest) st = read none rest ((jointToks joint).foldl Scan.sep st) := by
  cases joint with
  | pipe | semi | newline => exact read_separator (by simp) rest (by simp) st
  | amp =>
    have other : rest.head? ≠ some '>' := by simpa [Cmd.mayFollow] using follows
    exact read_separator (by simp) rest (fun _ => other) st
  | andIf =>
    have other : rest.head? ≠ some '>' := by simpa [Cmd.mayFollow] using follows
    have first := read_separator (c := '&') (by simp) ('&' :: rest) (by simp) st
    have second := read_separator (c := '&') (by simp) rest (fun _ => other) (st.sep .sep)
    exact first.trans second

theorem mayFollow_append {joint : Joint} {s : List Char} (follows : Cmd.mayFollow joint s)
    (other : rest.head? ≠ some '>') : Cmd.mayFollow joint (s ++ rest) := by
  cases s with
  | nil => cases joint <;> simp [Cmd.mayFollow, other]
  | cons c s => cases joint <;> exact follows

theorem foldl_sep_between (joint : Joint) (toks : List Tok) :
    (jointToks joint).foldl Scan.sep (.between toks) = .between (toks ++ jointToks joint) := by
  cases joint <;> simp [jointToks, Scan.sep_eq (Scan.between_flush _)]

theorem Stops.joint (joint : Joint) (follows : Cmd.mayFollow joint rest) : Stops (joint.text ++ rest) := by
  refine ⟨by cases joint <;> simp [Joint.text], ?_⟩
  intro st
  rw [read_joint joint follows, read_joint joint follows]
  cases joint <;> simp [jointToks]

/-- Blanks after a command, or none before what ends it. -/
theorem read_trail {trail : List Char} (blank : trail.all isBlankChar)
    (stops : Stops rest) (ready : st.flush = .between toks) :
    (read none (trail ++ rest) st).flush = (read none rest (.between toks)).flush := by
  cases trail with
  | nil => rw [List.nil_append, stops.2 st, ready]
  | cons c more => rw [read_blanks (c :: more) (by simp) blank, ready]

/-- `cd` and its directory. -/
theorem read_dir {dir : Option (List Char × Spelling)} (ok : Cmd.dirOk dir)
    (noSpace : dir.all fun d => spaceFree d.2) (rest : List Char) (toks : List Tok) :
    ∃ st, read none (Cmd.dirText dir ++ rest) (.between toks) = read none rest st ∧
      st.flush = .between (toks ++ dirToks dir) ∧ st.after (dir.map fun d => d.2.value) := by
  cases dir with
  | none => exact ⟨.between toks, rfl, by simp [dirToks], rfl⟩
  | some d =>
    obtain ⟨gap, dir⟩ := d
    simp only [Cmd.dirOk, Bool.and_eq_true, Bool.not_eq_true', List.isEmpty_eq_false_iff] at ok
    have command : ∀ more, read none (Cmd.cdText ++ more) (.between toks) =
        read none more ((Scan.between toks).extend Cmd.cdText) := by
      intro more
      have first := step_bare (c := 'c') (by decide) (by decide) ('d' :: more) (.between toks)
      have second := step_bare (c := 'd') (by decide) (by decide) more
        ((Scan.between toks).extend ['c'])
      rw [Cmd.cdText, List.cons_append, List.singleton_append, read_cons, first, read_cons,
        second, Scan.extend_extend]
      rfl
    refine ⟨(Scan.between (toks ++ [.word Cmd.cdText])).extend dir.value, ?_, ?_, rfl, rfl⟩
    · rw [Cmd.dirText, List.append_assoc, List.append_assoc, command,
        read_blanks gap ok.1 ok.2, read_word dir noSpace]
      rfl
    · simp [Scan.between, Scan.extend, Scan.flush, dirToks]

theorem read_list (ok : c.ok) (noSpace : spaceFreeList c)
    (stops : Stops rest) (toks : List Tok) : (read none (c.text ++ rest) (.between toks)).flush =
      (read none rest (.between (toks ++ listToks c))).flush := by
  induction c generalizing rest toks with
  | simple lead dir redirs trail =>
    simp only [Cmd.ok, Bool.and_eq_true] at ok
    obtain ⟨⟨⟨⟨blank, written⟩, -⟩, redirected⟩, blank'⟩ := ok
    rw [spaceFreeList, Bool.and_eq_true] at noSpace
    obtain ⟨st, first, ready, last⟩ := read_dir written noSpace.1
      (redirectsText redirs ++ (trail ++ rest)) toks
    obtain ⟨st', second, ready'⟩ := read_redirects redirected noSpace.2 ready last (trail ++ rest)
    rw [Cmd.text, List.append_assoc, List.append_assoc, List.append_assoc,
      read_gap lead blank _ rfl, first, second, read_trail blank' stops ready', listToks, List.append_assoc]
  | subshell lead body redirs trail ih =>
    simp only [Cmd.ok, Bool.and_eq_true] at ok
    obtain ⟨⟨⟨blank, inner⟩, redirected⟩, blank'⟩ := ok
    rw [spaceFreeList, Bool.and_eq_true] at noSpace
    have shape : (Cmd.subshell lead body redirs trail).text ++ rest =
        lead ++ '(' :: (body.text ++ ')' :: (redirectsText redirs ++ (trail ++ rest))) := by
      simp [Cmd.text]
    obtain ⟨st', second, ready'⟩ := read_redirects redirected noSpace.2
      (Scan.between_flush (toks ++ [.opening] ++ listToks body ++ [.closing])) rfl (trail ++ rest)
    rw [shape, read_gap lead blank _ rfl, read_opening, Scan.sep_eq (Scan.between_flush toks),
      ih inner noSpace.1 (Stops.closing _), read_closing, Scan.sep_eq (Scan.between_flush _),
      second, read_trail blank' stops ready']
    simp [listToks]
  | join joint left right ihLeft ihRight =>
    simp only [Cmd.ok, Bool.and_eq_true] at ok
    obtain ⟨⟨⟨okLeft, okRight⟩, -⟩, follows⟩ := ok
    rw [spaceFreeList, Bool.and_eq_true] at noSpace
    have follows' := mayFollow_append follows stops.1
    rw [Cmd.text, List.append_assoc, List.append_assoc,
      ihLeft okLeft noSpace.1 (Stops.joint joint follows'), read_joint joint follows',
      foldl_sep_between, ihRight okRight noSpace.2 stops, listToks]
    simp
  | ended joint body ih =>
    simp only [Cmd.ok, Bool.and_eq_true] at ok
    have follows : Cmd.mayFollow joint rest := by
      have alone : Cmd.mayFollow joint [] := by cases joint <;> rfl
      exact mayFollow_append alone stops.1
    rw [Cmd.text, List.append_assoc, ih ok.1.1.1 noSpace (Stops.joint joint follows),
      read_joint joint follows, foldl_sep_between, listToks, List.append_assoc]

/-- **The tokens of a list.** -/
theorem tokenize_list (ok : c.ok) (noSpace : spaceFreeList c) : tokenize c.text = listToks c := by
  have whole := read_list ok noSpace Stops.nil []
  rw [List.append_nil, List.nil_append, read_nil, Scan.between_flush] at whole
  show (read none c.text (.between [])).flush.toks = listToks c
  rw [whole]
  rfl

end DuDuClaw.OrgFieldGuard
