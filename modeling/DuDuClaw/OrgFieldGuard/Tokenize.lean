/-
# OrgFieldGuard.Tokenize -- words, redirect targets and separators

The tokenizer of org_field_guard/bash_parse.rs: one pass over the characters of a command
with the open quote, the word read so far and two flags for a redirect whose target is
still to come.

* `read_cons`: a reading is one `step` and the reading of what it leaves.
* `segments`: the simple commands of a list of tokens.
-/
import DuDuClaw.Lib.Fuel
import DuDuClaw.OrgFieldGuard.FdRedirects

namespace DuDuClaw.OrgFieldGuard

open DuDuClaw.Lib

inductive Tok where
  | word (w : List Char)
  /-- Target of an output redirect. -/
  | redirOut (w : List Char)
  | sep
  | opening
  | closing

/-! ## The state of `tokenize` -/

structure Scan where
  toks : List Tok
  cur : List Char
  inWord : Bool
  pendingOut : Bool
  pendingIn : Bool

namespace Scan

def start : Scan := ⟨[], [], false, false, false⟩

def flush (st : Scan) : Scan :=
  if st.inWord then
    if st.pendingOut then
      ⟨st.toks ++ [.redirOut st.cur], [], false, false, st.pendingIn⟩
    else if st.pendingIn then ⟨st.toks, [], false, false, false⟩
    else ⟨st.toks ++ [.word st.cur], [], false, false, false⟩
  else st

def sep (st : Scan) (t : Tok) : Scan :=
  { st.flush with toks := st.flush.toks ++ [t], pendingOut := false, pendingIn := false }

/-- `st.cur.push(c)`. -/
def add (st : Scan) (c : Char) : Scan := { st with cur := st.cur ++ [c] }

/-- The same, with `st.in_word = true`. -/
def push (st : Scan) (c : Char) : Scan := { st with cur := st.cur ++ [c], inWord := true }

/-- A word made only of digits right before `>` is an fd number. -/
def beforeOut (st : Scan) : Scan :=
  if st.inWord && !st.cur.isEmpty && st.cur.all Char.isDigit then
    { st with cur := [], inWord := false }
  else st.flush

end Scan

/-! ## The loop -/

/-- `if chars.get(i + 1).is_some_and(p) { i += 1 }`. -/
def skipOne (p : Char → Bool) : List Char → List Char
  | [] => []
  | c :: rest => if p c then rest else c :: rest

def quotedEscape (c : Char) : Bool :=
  c == '$' || c == backquote || c == '"' || c == '\\' || c == '\n'

def isSeparator (c : Char) : Bool :=
  c == ';' || c == '|' || c == '&' || c == '\n' || c == backquote

variable (quote : Option Char)

/-- One round of the loop: the quote, the characters and the state it leaves. -/
def step (c : Char) (rest : List Char) (st : Scan) :
    Option Char × List Char × Scan :=
  match quote with
  | some q =>
    if c == q then (none, rest, st)
    else
      match rest with
      | n :: after =>
        if q == '"' && c == '\\' && quotedEscape n then
          (quote, after, if n == '\n' then st else st.add n)
        else (quote, rest, st.add c)
      | [] => (quote, rest, st.add c)
  | none =>
    if c == '\\' then
      match rest with
      | n :: after => (none, after, if n == '\n' then st else st.push n)
      | [] => (none, rest, st)
    else if c == '\'' || c == '"' then (some c, rest, { st with inWord := true })
    else if isWhitespace c && c != '\n' then (none, rest, st.flush)
    else if c == '>' then
      (none, skipOne (· == '&') (skipOne (fun d => d == '>' || d == '|') rest),
        { st.beforeOut with pendingOut := true })
    else if c == '<' then
      (none, skipOne (· == '<') rest, { st.flush with pendingIn := true })
    else if c == '&' && rest.head? == some '>' then
      (none, skipOne (· == '>') rest.tail, { st.flush with pendingOut := true })
    else if c == '(' then (none, rest, st.sep .opening)
    else if c == ')' then (none, rest, st.sep .closing)
    else if isSeparator c then (none, rest, st.sep .sep)
    else (none, rest, st.push c)

/-- The `while` loop.  Every round takes at least one character. -/
def scan : Nat → Option Char → List Char → Scan → Scan
  | fuel + 1, quote, c :: rest, st =>
    scan fuel (step quote c rest st).1 (step quote c rest st).2.1 (step quote c rest st).2.2
  | _, _, _, st => st

def read (s : List Char) (st : Scan) : Scan := scan s.length quote s st

def tokenize (s : List Char) : List Tok := (read none s .start).flush.toks

/-! ## Simple commands -/

/-- The words and the redirect targets between two separators, and the first of these. -/
structure Segment where
  words : List (List Char)
  redirs : List (List Char)
  openedBy : Option Tok

def segmentsFrom (current : Segment) : List Tok → List Segment
  | [] => [current]
  | .word w :: rest => segmentsFrom { current with words := current.words ++ [w] } rest
  | .redirOut w :: rest => segmentsFrom { current with redirs := current.redirs ++ [w] } rest
  | t :: rest => current :: segmentsFrom ⟨[], [], some t⟩ rest

def segments (toks : List Tok) : List Segment := segmentsFrom ⟨[], [], none⟩ toks

/-- `command_words`; `none` is the underflow in `strip_fd_redirects`. -/
def commandWords (s : List Char) : Option (List (List (List Char))) :=
  (stripFdRedirects s).map fun stripped =>
    ((segments (tokenize stripped)).map Segment.words).filter fun words => !words.isEmpty

/-! ## Rounds -/

theorem skipOne_length (p : Char → Bool) (s : List Char) : (skipOne p s).length ≤ s.length := by
  cases s with
  | nil => simp [skipOne]
  | cons c rest =>
    rw [skipOne]
    split <;> simp

theorem ite_rest_length {p : Prop} [Decidable p] {a b : Option Char × List Char × Scan} {n : Nat}
    (yes : a.2.1.length ≤ n) (no : b.2.1.length ≤ n) : (if p then a else b).2.1.length ≤ n := by
  split
  · exact yes
  · exact no

theorem step_length (c : Char) (rest : List Char) (st : Scan) :
    (step quote c rest st).2.1.length ≤ rest.length := by
  cases quote with
  | some q =>
    refine ite_rest_length le_rfl ?_
    cases rest with
    | nil => exact le_rfl
    | cons n after => exact ite_rest_length (Nat.le_succ _) le_rfl
  | none =>
    refine ite_rest_length ?_ ?_
    · cases rest with
      | nil => exact le_rfl
      | cons n after => exact Nat.le_succ _
    refine ite_rest_length le_rfl (ite_rest_length le_rfl ?_)
    refine ite_rest_length ((skipOne_length _ _).trans (skipOne_length _ _)) ?_
    refine ite_rest_length (skipOne_length _ _) (ite_rest_length ?_ ?_)
    · refine (skipOne_length _ _).trans ?_
      rw [List.length_tail]
      omega
    · refine ite_rest_length le_rfl (ite_rest_length le_rfl (ite_rest_length le_rfl le_rfl))

/-- More rounds than characters change nothing. -/
theorem scan_fuel {fuel fuel' : Nat} {quote : Option Char} {s : List Char} {st : Scan}
    (enough : s.length ≤ fuel) (enough' : s.length ≤ fuel') : scan fuel quote s st = scan fuel' quote s st := by
  have same := fuel_congr (fun fuel s quote st => scan fuel quote s st) List.length
    (fun s empty fuel fuel' => ?_) (fun s fuel fuel' smaller => ?_) enough enough'
  · exact congrFun (congrFun same quote) st
  · obtain rfl := List.length_eq_zero_iff.mp empty
    cases fuel <;> cases fuel' <;> rfl
  · funext quote st
    cases s with
    | nil => rfl
    | cons c rest =>
      have shorter := step_length quote c rest st
      rw [scan, scan]
      refine congrFun (congrFun (smaller _ ?_) _) _
      rw [List.length_cons]
      omega

@[simp] theorem read_nil (st : Scan) : read quote [] st = st := rfl

/-- **One round and the rest.** -/
theorem read_cons (c : Char) (rest : List Char) (st : Scan) : read quote (c :: rest) st =
      read (step quote c rest st).1 (step quote c rest st).2.1 (step quote c rest st).2.2 :=
  scan_fuel (step_length quote c rest st) le_rfl

end DuDuClaw.OrgFieldGuard
