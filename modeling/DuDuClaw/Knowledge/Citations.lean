/-
# Knowledge.Citations -- the markers of a reply

`parse_citations` (cite.rs) splits a reply into code and prose, brings the markers of the prose into
one form, reads them, drops those that nothing was offered for, and collapses double spaces in what
remains.  It works on a normalized copy of each run; here a run is also read as it was written, in
pieces that say what becomes of every marker.

* `flatMap_codeRuns`: run by run is character by character, where runs do not depend on each other.
* `marks_normalize`: reading the normalized run gives the marks of the pieces.
* `parseCitations_eq`: the result in terms of the pieces of the reply.
-/
import Mathlib.Data.List.Chain
import Mathlib.Tactic.IntervalCases
import DuDuClaw.Lib.Chars

namespace DuDuClaw.Knowledge.Citations

open DuDuClaw.Lib

abbrev Text := List Char

/-! ## Markers -/

def fullwidthDigit (c : Char) : Option Char :=
  if 0xFF10 ≤ c.toNat ∧ c.toNat ≤ 0xFF19 then some (Char.ofNat (0x30 + (c.toNat - 0xFF10))) else none

def anyDigit (c : Char) : Option Char := if c.isDigit then some c else fullwidthDigit c

/-- `close`. -/
def closeOf (c : Char) : Option Char :=
  if c = '【' then some '】' else if c = '［' then some '］' else if c = '[' then some ']' else none

/-- The digits in front, `n` of them at most. -/
def leadingDigits : Nat → Text → Text
  | 0, _ => []
  | _ + 1, [] => []
  | n + 1, c :: rest =>
    match anyDigit c with
    | some d => d :: leadingDigits n rest
    | none => []

/-- `closes`. -/
def closesWith (close : Char) (next : Option Char) : Bool :=
  next == some close || (close != ']' && next == some ']')

/-- The digits of the marker that begins with `c`. -/
def markerAt (c : Char) (rest : Text) : Option Text :=
  (closeOf c).bind fun close =>
    let digits := leadingDigits 3 rest
    if !digits.isEmpty && digits.length ≤ 2 && closesWith close rest[digits.length]? then some digits else none

def bracketed (digits : Text) : Text := '[' :: (digits ++ [']'])

/-- `normalize_markers`; `skip` characters belong to the marker before. -/
def normalizeFrom : Nat → Text → Text
  | _, [] => []
  | skip + 1, _ :: rest => normalizeFrom skip rest
  | 0, c :: rest =>
    match markerAt c rest with
    | some digits => bracketed digits ++ normalizeFrom (digits.length + 1) rest
    | none => c :: normalizeFrom 0 rest

/-! ## Code -/

/-- `code_runs`, character by character: inside of a fence or of inline code, with `skip` characters of a
fence to come. -/
def flagsFrom (fence inlineCode : Bool) : Nat → Text → List (Bool × Char)
  | _, [] => []
  | skip + 1, c :: rest => (true, c) :: flagsFrom fence inlineCode skip rest
  | 0, c :: rest =>
    if c = backquote ∧ rest.take 2 = [backquote, backquote] then
      (true, c) :: flagsFrom (!fence) (fence && inlineCode) 2 rest
    else if fence = false ∧ c = backquote then (true, c) :: flagsFrom fence (!inlineCode) 0 rest
    else
      (fence || (inlineCode && c != '\n'), c) :: flagsFrom fence (inlineCode && c != '\n') 0 rest

def runsOf : List (Bool × Char) → List (Bool × Text)
  | [] => []
  | flag :: rest =>
    match runsOf rest with
    | [] => [(flag.1, [flag.2])]
    | run :: more =>
      if flag.1 = run.1 then (run.1, flag.2 :: run.2) :: more else (flag.1, [flag.2]) :: run :: more

def flags (text : Text) : List (Bool × Char) := flagsFrom false false 0 text

def codeRuns (text : Text) : List (Bool × Text) := runsOf (flags text)

/-! ## Reading -/

/-- `n`, of digits. -/
def numberOf (digits : Text) : Nat := digits.foldl (fun n d => 10 * n + (d.toNat - 0x30)) 0

/-- What the loop does with the text in front of it. -/
inductive Mark where
  | plain (c : Char)
  | cited (n : Nat)
  | invalid (n : Nat)

section Offered

variable (offered : List Nat)

/-- `max`. -/
def highest : Nat := offered.foldl max 0

/-- The loop over a normalized run. -/
def readFrom : Nat → Text → List Mark
  | _, [] => []
  | skip + 1, _ :: rest => readFrom skip rest
  | 0, c :: rest =>
    let digits := (rest.take 3).takeWhile Char.isDigit
    if c = '[' ∧ 1 ≤ digits.length ∧ digits.length ≤ 2 ∧ rest[digits.length]? = some ']' ∧
        rest[digits.length + 1]? ≠ some '(' then
      if numberOf digits ∈ offered then .cited (numberOf digits) :: readFrom (digits.length + 1) rest
      else if numberOf digits = 0 ∨ highest offered < numberOf digits then
        .invalid (numberOf digits) :: readFrom (digits.length + 1) rest
      else .plain c :: readFrom 0 rest
    else .plain c :: readFrom 0 rest

structure ParsedCitations where
  text : Text
  cited : List Nat
  invalid : List Nat

def pushNew (numbers : List Nat) (n : Nat) : List Nat := if n ∈ numbers then numbers else numbers ++ [n]

/-- `format!("[{n}]")`. -/
def canonical (n : Nat) : Text := bracketed (Nat.toDigits 10 n)

def ParsedCitations.add (parsed : ParsedCitations) : Mark → ParsedCitations
  | .plain c => { parsed with text := parsed.text ++ [c] }
  | .cited n => { parsed with text := parsed.text ++ canonical n, cited := pushNew parsed.cited n }
  | .invalid n => { parsed with invalid := pushNew parsed.invalid n }

/-- `tidy_spaces`, behind a space or not. -/
def tidySpacesFrom : Bool → Text → Text
  | _, [] => []
  | prevSpace, c :: rest =>
    if c = ' ' then if prevSpace then tidySpacesFrom true rest else c :: tidySpacesFrom true rest
    else c :: tidySpacesFrom false rest

def tidySpacesOutsideCode (s : Text) : Text :=
  (codeRuns s).flatMap fun run => if run.1 then run.2 else tidySpacesFrom false run.2

def marksOf (text : Text) : List Mark :=
  (codeRuns text).flatMap fun run =>
    if run.1 then run.2.map .plain else readFrom offered 0 (normalizeFrom 0 run.2)

def parseCitations (text : Text) : ParsedCitations :=
  if offered.isEmpty then ⟨text, [], []⟩
  else
    let parsed := (marksOf offered text).foldl ParsedCitations.add ⟨[], [], []⟩
    { parsed with text := tidySpacesOutsideCode parsed.text }

/-! ## Pieces -/

/-- A piece of a reply, as it was written: a character that is kept, a marker that is left standing, one
that is cited, and one that is dropped. -/
inductive Piece where
  | kept (code : Bool) (c : Char)
  | shown (written digits : Text)
  | cited (written : Text) (n : Nat)
  | deleted (written : Text) (n : Nat)

def Piece.written : Piece → Text
  | .kept _ c => [c]
  | .shown written _ => written
  | .cited written _ => written
  | .deleted written _ => written

def Piece.image : Piece → Text
  | .kept _ c => [c]
  | .shown _ digits => bracketed digits
  | .cited _ n => canonical n
  | .deleted _ _ => []

def Piece.marks : Piece → List Mark
  | .kept _ c => [.plain c]
  | .shown _ digits => (bracketed digits).map .plain
  | .cited _ n => [.cited n]
  | .deleted _ n => [.invalid n]

/-- A marker; one in front of an opening parenthesis is a link. -/
def markerPiece (written digits : Text) (link : Bool) : Piece :=
  if link then .shown written digits
  else if numberOf digits ∈ offered then .cited written (numberOf digits)
  else if numberOf digits = 0 ∨ highest offered < numberOf digits then .deleted written (numberOf digits)
  else .shown written digits

def proseOf (flags : List (Bool × Char)) : Text := (flags.takeWhile fun flag => !flag.1).map Prod.snd

/-- The pieces of characters with their kind; `skip` of them belong to the marker before. -/
def scanFrom : Nat → List (Bool × Char) → List Piece
  | _, [] => []
  | skip + 1, _ :: rest => scanFrom skip rest
  | 0, flag :: rest =>
    if flag.1 then .kept true flag.2 :: scanFrom 0 rest
    else
      match markerAt flag.2 (proseOf rest) with
      | some digits =>
        markerPiece offered ((flag.2 :: proseOf rest).take (digits.length + 2)) digits
            (decide ((proseOf rest)[digits.length + 1]? = some '(')) ::
          scanFrom (digits.length + 1) rest
      | none => .kept false flag.2 :: scanFrom 0 rest

def pieces (text : Text) : List Piece := scanFrom offered 0 (flags text)

end Offered

/-! ## Digits -/

variable {c d : Char} {n : Nat} {digits : Text}

theorem isDigit_of_anyDigit (digit : anyDigit c = some d) : d.isDigit = true := by
  rw [anyDigit] at digit
  split_ifs at digit with ascii
  · rw [← Option.some.inj digit]
    exact ascii
  rw [fullwidthDigit] at digit
  split_ifs at digit with wide
  rw [← Option.some.inj digit]
  have small : c.toNat - 0xFF10 ≤ 9 := by omega
  generalize c.toNat - 0xFF10 = k at small
  interval_cases k <;> rfl

theorem leadingDigits_digits {s : Text} : ∀ d ∈ leadingDigits n s, d.isDigit = true := by
  induction n generalizing s with
  | zero =>
    rw [leadingDigits]
    exact List.forall_mem_nil _
  | succ n ih =>
    cases s with
    | nil =>
      rw [leadingDigits]
      exact List.forall_mem_nil _
    | cons c rest =>
      rw [leadingDigits]
      cases digit : anyDigit c with
      | none => exact List.forall_mem_nil _
      | some e => exact List.forall_mem_cons.mpr ⟨isDigit_of_anyDigit digit, ih⟩

theorem anyDigit_of_isDigit (digit : d.isDigit = true) : anyDigit d = some d := if_pos digit

theorem leadingDigits_append (all : ∀ d ∈ digits, d.isDigit = true)
    (other : anyDigit c = none) (rest : Text) (room : digits.length < n) :
    leadingDigits n (digits ++ c :: rest) = digits := by
  induction digits generalizing n with
  | nil =>
    cases n with
    | zero => rfl
    | succ n => rw [List.nil_append, leadingDigits, other]
  | cons d digits ih =>
    obtain ⟨first, all⟩ := List.forall_mem_cons.mp all
    cases n with
    | zero => exact absurd room (Nat.not_lt_zero _)
    | succ n =>
      rw [List.cons_append, leadingDigits, anyDigit_of_isDigit first]
      exact congrArg (d :: ·) (ih all (Nat.lt_of_succ_lt_succ room))

/-- Opening brackets, closing ones and digits are different characters. -/
theorem closeOf_of_isDigit (digit : d.isDigit = true) : closeOf d = none := by
  have plain : ∀ c : Char, c.isDigit = false → d ≠ c := fun c other same => by
    rw [same, other] at digit
    cases digit
  rw [closeOf, if_neg (plain _ (by decide)), if_neg (plain _ (by decide)), if_neg (plain _ (by decide))]

/-! ## Markers as they were written -/

structure IsMarker (c : Char) (rest digits : Text) : Prop where
  opens : (closeOf c).isSome
  all : ∀ d ∈ digits, d.isDigit = true
  nonempty : 1 ≤ digits.length
  short : digits.length ≤ 2
  inside : digits.length < rest.length

theorem isMarker_of_markerAt {rest : Text} (found : markerAt c rest = some digits) :
    IsMarker c rest digits := by
  rw [markerAt, Option.bind_eq_some_iff] at found
  obtain ⟨close, opens, found⟩ := found
  dsimp only at found
  split_ifs at found with holds
  obtain rfl := Option.some.inj found
  rw [Bool.and_eq_true, Bool.and_eq_true, Bool.not_eq_true', List.isEmpty_eq_false_iff,
    decide_eq_true_eq] at holds
  obtain ⟨⟨filled, short⟩, closes⟩ := holds
  refine ⟨by rw [opens]; rfl, leadingDigits_digits, List.length_pos_iff.mpr filled, short, ?_⟩
  by_contra past
  rw [List.getElem?_eq_none (Nat.le_of_not_lt past)] at closes
  simp [closesWith] at closes

theorem markerAt_bracketed (all : ∀ d ∈ digits, d.isDigit = true) (nonempty : 1 ≤ digits.length)
    (short : digits.length ≤ 2) (rest : Text) : markerAt '[' (digits ++ ']' :: rest) = some digits := by
  have opens : closeOf '[' = some ']' := rfl
  have lead := leadingDigits_append all (show anyDigit ']' = none by rfl) rest (show digits.length < 3 by omega)
  have filled : digits.isEmpty = false := by
    rw [List.isEmpty_eq_false_iff]
    exact List.length_pos_iff.mp nonempty
  rw [markerAt, opens, Option.bind_some, lead]
  dsimp only
  rw [List.getElem?_append_right (Nat.le_refl _), Nat.sub_self, List.getElem?_cons_zero, filled]
  simp [closesWith, short]

/-- Characters that open nothing stand in the normalized text as they were written. -/
theorem written_of_normalize {front back run : Text} (plain : ∀ c ∈ front, closeOf c = none)
    (same : normalizeFrom 0 run = front ++ back) : ∃ rest, run = front ++ rest ∧ normalizeFrom 0 rest = back := by
  induction front generalizing run with
  | nil => exact ⟨run, rfl, same⟩
  | cons x front ih =>
    obtain ⟨first, plain'⟩ := List.forall_mem_cons.mp plain
    cases run with
    | nil => cases same
    | cons y run =>
      rw [normalizeFrom] at same
      cases found : markerAt y run with
      | some digits =>
        rw [found] at same
        obtain rfl : '[' = x := (List.cons.inj same).1
        cases first
      | none =>
        rw [found] at same
        obtain ⟨rfl, behind⟩ := List.cons.inj same
        obtain ⟨rest, rfl, last⟩ := ih plain' behind
        exact ⟨rest, rfl, last⟩

theorem normalizeFrom_skip (skip : Nat) (run : Text) :
    normalizeFrom skip run = normalizeFrom 0 (run.drop skip) := by
  induction run generalizing skip with
  | nil =>
    rw [List.drop_nil]
    cases skip <;> rfl
  | cons c run ih =>
    cases skip with
    | zero => rfl
    | succ skip => exact ih skip

/-- A parenthesis stands first in the normalized text exactly when it was written first. -/
theorem head_normalize (run : Text) : (normalizeFrom 0 run).head? = some '(' ↔ run.head? = some '(' := by
  cases run with
  | nil => exact Iff.rfl
  | cons c run =>
    rw [normalizeFrom, List.head?_cons]
    cases found : markerAt c run with
    | none => rw [List.head?_cons]
    | some digits =>
      refine iff_of_false (fun first => ?_) fun first => ?_
      · exact absurd (Option.some.inj first) (by decide)
      · have opens := (isMarker_of_markerAt found).opens
        rw [Option.some.inj first] at opens
        cases opens

section Read

variable (offered : List Nat)

theorem readFrom_skip (skip : Nat) (s : Text) : readFrom offered skip s = readFrom offered 0 (s.drop skip) := by
  induction s generalizing skip with
  | nil =>
    rw [List.drop_nil]
    cases skip <;> rfl
  | cons c s ih =>
    cases skip with
    | zero => rfl
    | succ skip => exact ih skip

theorem readFrom_plain {front : Text} (plain : ∀ c ∈ front, c ≠ '[') (back : Text) :
    readFrom offered 0 (front ++ back) = front.map .plain ++ readFrom offered 0 back := by
  induction front with
  | nil => rfl
  | cons c front ih =>
    obtain ⟨first, plain⟩ := List.forall_mem_cons.mp plain
    rw [List.cons_append, readFrom, if_neg (fun holds => first holds.1), ih plain]
    rfl

theorem ne_open_of_isDigit {d : Char} (digit : d.isDigit = true) : d ≠ '[' := by
  rintro rfl
  cases digit

/-- The digits that the loop takes behind a bracket. -/
theorem digits_taken {digits : Text} (all : ∀ d ∈ digits, d.isDigit = true) (short : digits.length ≤ 2)
    (back : Text) : ((digits ++ ']' :: back).take 3).takeWhile Char.isDigit = digits := by
  have room : 3 - digits.length = (2 - digits.length) + 1 := by omega
  rw [List.take_append, List.take_of_length_le (by omega), room, List.take_succ_cons,
    List.takeWhile_append_of_pos all, List.takeWhile_cons_of_neg (by decide), List.append_nil]

theorem readFrom_bracketed {digits : Text} (all : ∀ d ∈ digits, d.isDigit = true) (nonempty : 1 ≤ digits.length)
    (short : digits.length ≤ 2) (written back : Text) : readFrom offered 0 (bracketed digits ++ back) =
      (markerPiece offered written digits (decide (back.head? = some '('))).marks ++ readFrom offered 0 back := by
  have shape : bracketed digits ++ back = '[' :: (digits ++ ']' :: back) := by simp [bracketed]
  have close : (digits ++ ']' :: back)[digits.length]? = some ']' := by
    rw [List.getElem?_append_right (Nat.le_refl _), Nat.sub_self, List.getElem?_cons_zero]
  have next : (digits ++ ']' :: back)[digits.length + 1]? = back.head? := by
    rw [List.getElem?_append_right (Nat.le_succ _), Nat.succ_sub (Nat.le_refl _), Nat.sub_self,
      List.getElem?_cons_succ, List.head?_eq_getElem?]
  have behind : (digits ++ ']' :: back).drop (digits.length + 1) = back := by
    rw [← List.drop_drop, List.drop_left]
    rfl
  have standing : readFrom offered 0 (digits ++ ']' :: back) =
      (digits ++ [']']).map .plain ++ readFrom offered 0 back := by
    have plain : ∀ c ∈ digits ++ [']'], c ≠ '[' := fun c listed => by
      rcases List.mem_append.mp listed with digit | last
      · exact ne_open_of_isDigit (all c digit)
      · rw [List.mem_singleton.mp last]
        decide
    have split : digits ++ ']' :: back = (digits ++ [']']) ++ back := by simp
    rw [split, readFrom_plain offered plain]
  rw [shape, readFrom, digits_taken all short, close, next, markerPiece]
  by_cases link : back.head? = some '('
  · rw [if_neg (fun holds => holds.2.2.2.2 link), standing, decide_eq_true link, if_pos rfl]
    rfl
  rw [if_pos ⟨rfl, nonempty, short, rfl, link⟩, decide_eq_false link, if_neg Bool.false_ne_true]
  split_ifs
  · rw [readFrom_skip, behind]
    rfl
  · rw [readFrom_skip, behind]
    rfl
  · rw [standing]
    rfl

end Read

/-! ## Runs -/

theorem flagsFrom_text (fence inlineCode : Bool) (skip : Nat) (text : Text) :
    (flagsFrom fence inlineCode skip text).map Prod.snd = text := by
  induction text generalizing fence inlineCode skip with
  | nil => cases skip <;> rfl
  | cons c text ih =>
    cases skip with
    | succ skip => rw [flagsFrom, List.map_cons, ih]
    | zero =>
      rw [flagsFrom]
      split_ifs
      · rw [List.map_cons, ih]
      · rw [List.map_cons, ih]
      · rw [List.map_cons, ih]

def flagged (run : Bool × Text) : List (Bool × Char) := run.2.map fun c => (run.1, c)

/-- The runs spell the text; they are not empty, and neighbours are of different kinds. -/
structure Alternate (flags : List (Bool × Char)) (runs : List (Bool × Text)) : Prop where
  spell : runs.flatMap flagged = flags
  chain : runs.IsChain fun run next => run.1 ≠ next.1
  filled : ∀ run ∈ runs, run.2 ≠ []

theorem runsOf_alternate (flags : List (Bool × Char)) : Alternate flags (runsOf flags) := by
  induction flags with
  | nil => exact ⟨rfl, .nil, List.forall_mem_nil _⟩
  | cons flag rest ih =>
    obtain ⟨spell, chain, filled⟩ := ih
    rw [runsOf]
    cases behind : runsOf rest with
    | nil =>
      rw [behind] at spell
      rw [← spell]
      exact ⟨rfl, .singleton _, by simp⟩
    | cons run more =>
      rw [behind] at spell chain filled
      dsimp only
      by_cases same : flag.1 = run.1
      · rw [if_pos same]
        refine ⟨?_, ?_, List.forall_mem_cons.mpr ⟨List.cons_ne_nil _ _, (List.forall_mem_cons.mp filled).2⟩⟩
        · rw [← spell, List.flatMap_cons, List.flatMap_cons, flagged, flagged, List.map_cons, ← same]
          rfl
        · rw [List.isChain_cons] at chain ⊢
          exact chain
      rw [if_neg same]
      refine ⟨?_, ?_, List.forall_mem_cons.mpr ⟨List.cons_ne_nil _ _, filled⟩⟩
      · rw [← spell]
        rfl
      · refine List.isChain_cons.mpr ⟨?_, chain⟩
        rintro next ⟨rfl⟩
        exact same

theorem flatMap_codeRuns {β : Type} (text : Text) {f : Bool × Text → List β} {g : List (Bool × Char) → List β}
    (nil : g [] = []) (code : ∀ s rest, s ≠ [] → g (flagged (true, s) ++ rest) = f (true, s) ++ g rest)
    (prose : ∀ s rest, (∀ flag ∈ rest.head?, flag.1 = true) →
      g (flagged (false, s) ++ rest) = f (false, s) ++ g rest) :
    (codeRuns text).flatMap f = g (flags text) := by
  obtain ⟨spell, chain, filled⟩ := runsOf_alternate (flags text)
  rw [codeRuns]
  generalize runsOf (flags text) = runs at spell chain filled
  rw [← spell]
  clear spell
  induction runs with
  | nil => exact nil.symm
  | cons run runs ih =>
    obtain ⟨next, others⟩ := List.isChain_cons.mp chain
    obtain ⟨first, filled'⟩ := List.forall_mem_cons.mp filled
    obtain ⟨kind, s⟩ := run
    rw [List.flatMap_cons, List.flatMap_cons, ih others filled']
    cases kind with
    | true => exact (code s _ first).symm
    | false =>
      refine (prose s _ ?_).symm
      cases runs with
      | nil => exact fun flag first => absurd first (by simp)
      | cons run runs =>
        intro flag first
        obtain ⟨c, s', text⟩ := List.exists_cons_of_ne_nil (filled' run List.mem_cons_self)
        rw [List.flatMap_cons, flagged, text] at first
        obtain rfl := Option.some.inj first
        cases kind : run.1 with
        | true => rfl
        | false => exact absurd kind.symm (next run rfl)

/-- `tidy_spaces_outside_code` over characters with their kind. -/
def tidyFlags : Bool → List (Bool × Char) → Text
  | _, [] => []
  | prevSpace, flag :: rest =>
    if flag.1 = false ∧ flag.2 = ' ' then
      if prevSpace then tidyFlags true rest else flag.2 :: tidyFlags true rest
    else flag.2 :: tidyFlags false rest

theorem tidyFlags_code (prevSpace : Bool) (c : Char) (rest : List (Bool × Char)) :
    tidyFlags prevSpace ((true, c) :: rest) = c :: tidyFlags false rest := by
  rw [tidyFlags, if_neg (by simp)]

theorem tidyFlags_prose (prevSpace : Bool) (s : Text) {rest : List (Bool × Char)}
    (code : ∀ flag ∈ rest.head?, flag.1 = true) :
    tidyFlags prevSpace (flagged (false, s) ++ rest) = tidySpacesFrom prevSpace s ++ tidyFlags false rest := by
  induction s generalizing prevSpace with
  | nil =>
    cases rest with
    | nil => rfl
    | cons flag rest =>
      obtain ⟨kind, c⟩ := flag
      obtain rfl : kind = true := code _ rfl
      exact (tidyFlags_code prevSpace c rest).trans (tidyFlags_code false c rest).symm
  | cons c s ih =>
    have shape : flagged (false, c :: s) ++ rest = (false, c) :: (flagged (false, s) ++ rest) := rfl
    rw [shape, tidyFlags, tidySpacesFrom, ih, ih]
    by_cases space : c = ' '
    · rw [if_pos ⟨rfl, space⟩, if_pos space]
      cases prevSpace <;> rfl
    · rw [if_neg (fun holds => space holds.2), if_neg space]
      rfl

theorem tidySpacesOutsideCode_eq (s : Text) : tidySpacesOutsideCode s = tidyFlags false (flags s) := by
  refine flatMap_codeRuns s rfl (fun s rest filled => ?_) fun s rest code => tidyFlags_prose false s code
  clear filled
  induction s with
  | nil => rfl
  | cons c s ih => exact (tidyFlags_code false c _).trans (congrArg (c :: ·) ih)

/-! ## Pieces of a text -/

section Scan

variable (offered : List Nat)

variable {rest : List (Bool × Char)}

theorem scanFrom_code (c : Char) (rest : List (Bool × Char)) :
    scanFrom offered 0 ((true, c) :: rest) = .kept true c :: scanFrom offered 0 rest := by
  rw [scanFrom]
  exact if_pos rfl

theorem scanFrom_plain {c : Char} (found : markerAt c (proseOf rest) = none) :
    scanFrom offered 0 ((false, c) :: rest) = .kept false c :: scanFrom offered 0 rest := by
  rw [scanFrom, if_neg Bool.false_ne_true, found]

theorem scanFrom_marker {c : Char} {digits : Text}
    (found : markerAt c (proseOf rest) = some digits) : scanFrom offered 0 ((false, c) :: rest) =
      markerPiece offered ((c :: proseOf rest).take (digits.length + 2)) digits
          (decide ((proseOf rest)[digits.length + 1]? = some '(')) ::
        scanFrom offered (digits.length + 1) rest := by
  rw [scanFrom, if_neg Bool.false_ne_true, found]

theorem proseOf_flagged (s : Text) (code : ∀ flag ∈ rest.head?, flag.1 = true) :
    proseOf (flagged (false, s) ++ rest) = s := by
  have stop : rest.takeWhile (fun flag => !flag.1) = [] := by
    cases rest with
    | nil => rfl
    | cons flag rest => exact List.takeWhile_cons_of_neg (by simp [code flag rfl])
  have front : ∀ flag ∈ flagged (false, s), (!flag.1) = true := fun flag listed => by
    obtain ⟨c, -, rfl⟩ := List.mem_map.mp listed
    rfl
  rw [proseOf, List.takeWhile_append_of_pos front, stop, List.append_nil, flagged, List.map_map]
  exact List.map_id s

theorem take_prose {k : Nat} {flags : List (Bool × Char)} (inside : k ≤ (proseOf flags).length) :
    (flags.take k).map Prod.snd = (proseOf flags).take k := by
  obtain ⟨back, split⟩ := List.takeWhile_prefix (l := flags) fun flag => !flag.1
  rw [proseOf, List.length_map] at inside
  have same := @List.take_append_of_le_length _ _ back _ inside
  rw [proseOf, ← List.map_take, ← same, split]

/-- **Reading a normalized run gives the marks of the pieces.** -/
theorem marks_normalize (skip : Nat) (s : Text) (inside : skip ≤ s.length)
    (code : ∀ flag ∈ rest.head?, flag.1 = true) :
    (scanFrom offered skip (flagged (false, s) ++ rest)).flatMap Piece.marks =
      readFrom offered 0 (normalizeFrom skip s) ++ (scanFrom offered 0 rest).flatMap Piece.marks := by
  induction s generalizing skip with
  | nil =>
    obtain rfl : skip = 0 := Nat.le_zero.mp inside
    rfl
  | cons c run ih =>
    cases skip with
    | succ skip => exact ih skip (Nat.le_of_succ_le_succ inside)
    | zero =>
      have behind := proseOf_flagged run code
      have shape : flagged (false, c :: run) ++ rest = (false, c) :: (flagged (false, run) ++ rest) := rfl
      rw [normalizeFrom, shape]
      cases found : markerAt c run with
      | some digits =>
        obtain ⟨-, all, nonempty, short, inside⟩ := isMarker_of_markerAt found
        have link : decide ((normalizeFrom (digits.length + 1) run).head? = some '(') =
            decide (run[digits.length + 1]? = some '(') := by
          rw [normalizeFrom_skip, decide_eq_decide, head_normalize, List.head?_drop]
        rw [scanFrom_marker offered (by rw [behind, found]), behind, List.flatMap_cons, ih _ inside]
        dsimp only
        rw [readFrom_bracketed offered all nonempty short ((c :: run).take (digits.length + 2)), link,
          List.append_assoc]
      | none =>
        rw [scanFrom_plain offered (by rw [behind, found]), List.flatMap_cons, ih 0 (Nat.zero_le _)]
        dsimp only
        rw [readFrom, if_neg]
        · rfl
        · -- a bracket that reads as a marker here was one as it was written
          rintro ⟨rfl, nonempty, short, close, -⟩
          generalize taken : ((normalizeFrom 0 run).take 3).takeWhile Char.isDigit = digits
            at nonempty short close
          have all : ∀ d ∈ digits, d.isDigit = true := fun d listed => by
            rw [← taken] at listed
            exact List.mem_takeWhile_imp listed
          have front : digits <+: normalizeFrom 0 run := by
            rw [← taken]
            exact (List.takeWhile_prefix _).trans (List.take_prefix _ _)
          obtain ⟨back, split⟩ := front
          rw [← split, List.getElem?_append_right (Nat.le_refl _), Nat.sub_self] at close
          obtain ⟨back', rfl⟩ : ∃ back', back = ']' :: back' := by
            rw [← List.head?_eq_getElem?] at close
            exact ⟨_, (List.head?_eq_some_iff.mp close).choose_spec⟩
          have plain : ∀ d ∈ digits ++ [']'], closeOf d = none := fun d listed => by
            rcases List.mem_append.mp listed with digit | last
            · exact closeOf_of_isDigit (all d digit)
            · rw [List.mem_singleton.mp last]
              rfl
          have front : normalizeFrom 0 run = (digits ++ [']']) ++ back' := by
            rw [← split]
            simp
          obtain ⟨rest, rfl, -⟩ := written_of_normalize plain front
          have marker := markerAt_bracketed all nonempty short rest
          rw [List.append_assoc, List.singleton_append, marker] at found
          cases found

end Scan

/-! ## The result -/

section Result

variable (offered : List Nat)

theorem markerPiece_written (written digits : Text) (link : Bool) :
    (markerPiece offered written digits link).written = written := by
  rw [markerPiece]
  split_ifs
  · rfl
  · rfl
  · rfl
  · rfl

theorem scanFrom_written (skip : Nat) (flags : List (Bool × Char)) :
    (scanFrom offered skip flags).flatMap Piece.written = (flags.drop skip).map Prod.snd := by
  induction flags generalizing skip with
  | nil => cases skip <;> rfl
  | cons flag rest ih =>
    cases skip with
    | succ skip => exact ih skip
    | zero =>
      obtain ⟨kind, c⟩ := flag
      cases kind with
      | true =>
        rw [scanFrom_code, List.flatMap_cons, ih 0]
        rfl
      | false =>
        cases found : markerAt c (proseOf rest) with
        | none =>
          rw [scanFrom_plain offered found, List.flatMap_cons, ih 0]
          rfl
        | some digits =>
          have front := take_prose (isMarker_of_markerAt found).inside
          rw [scanFrom_marker offered found, List.flatMap_cons, ih, markerPiece_written, List.take_succ_cons,
            ← front, List.cons_append, ← List.map_append, List.take_append_drop]
          rfl

theorem pieces_written (text : Text) : (pieces offered text).flatMap Piece.written = text :=
  (scanFrom_written offered 0 (flags text)).trans (flagsFrom_text false false 0 text)

def remains (text : Text) : Text := (pieces offered text).flatMap Piece.image

theorem marksOf_eq (text : Text) : marksOf offered text = (pieces offered text).flatMap Piece.marks := by
  refine flatMap_codeRuns text (g := fun flags => (scanFrom offered 0 flags).flatMap Piece.marks) rfl
    (fun s rest filled => ?_) fun s rest code => marks_normalize offered 0 s (Nat.zero_le _) code
  clear filled
  induction s with
  | nil => rfl
  | cons c s ih =>
    have first := scanFrom_code offered c (flagged (true, s) ++ rest)
    exact (congrArg (List.flatMap Piece.marks) first).trans (congrArg (Mark.plain c :: ·) ih)

def Mark.text : Mark → Text
  | .plain c => [c]
  | .cited n => canonical n
  | .invalid _ => []

def Mark.citedNumber : Mark → Option Nat
  | .cited n => some n
  | _ => none

def Mark.invalidNumber : Mark → Option Nat
  | .invalid n => some n
  | _ => none

theorem foldl_add (marks : List Mark) (parsed : ParsedCitations) : marks.foldl ParsedCitations.add parsed =
      ⟨parsed.text ++ marks.flatMap Mark.text, (marks.filterMap Mark.citedNumber).foldl pushNew parsed.cited,
        (marks.filterMap Mark.invalidNumber).foldl pushNew parsed.invalid⟩ := by
  induction marks generalizing parsed with
  | nil => rw [List.flatMap_nil, List.append_nil]; rfl
  | cons mark marks ih =>
    rw [List.foldl_cons, ih, List.flatMap_cons, ← List.append_assoc]
    cases mark with
    | plain c | cited n => rfl
    | invalid n =>
      rw [show Mark.text (.invalid n) = [] from rfl, List.append_nil]
      rfl

theorem marks_text (piece : Piece) : piece.marks.flatMap Mark.text = piece.image := by
  cases piece with
  | kept code c | deleted written n => rfl
  | shown written digits =>
    rw [Piece.marks, List.flatMap_map]
    exact List.flatMap_singleton' _
  | cited written n => exact List.append_nil _

def Piece.citedNumber : Piece → Option Nat
  | .cited _ n => some n
  | _ => none

def Piece.deletedNumber : Piece → Option Nat
  | .deleted _ n => some n
  | _ => none

theorem filterMap_flatMap {α β γ : Type} {f : α → List β} {g : β → Option γ} {h : α → Option γ}
    (each : ∀ a, (f a).filterMap g = (h a).toList) (l : List α) : (l.flatMap f).filterMap g = l.filterMap h := by
  induction l with
  | nil => rfl
  | cons a l ih =>
    rw [List.flatMap_cons, List.filterMap_append, each, ih, List.filterMap_cons]
    cases h a <;> rfl

theorem marks_citedNumber (piece : Piece) :
    piece.marks.filterMap Mark.citedNumber = piece.citedNumber.toList := by
  cases piece with
  | kept code c | cited written n | deleted written n => rfl
  | shown written digits =>
    refine List.filterMap_eq_nil_iff.mpr fun mark listed => ?_
    obtain ⟨c, -, rfl⟩ := List.mem_map.mp listed
    rfl

theorem marks_invalidNumber (piece : Piece) :
    piece.marks.filterMap Mark.invalidNumber = piece.deletedNumber.toList := by
  cases piece with
  | kept code c | cited written n | deleted written n => rfl
  | shown written digits =>
    refine List.filterMap_eq_nil_iff.mpr fun mark listed => ?_
    obtain ⟨c, -, rfl⟩ := List.mem_map.mp listed
    rfl

/-- **The result in terms of the pieces.** -/
theorem parseCitations_eq {offered : List Nat} (some_ : offered ≠ []) (text : Text) :
    parseCitations offered text = ⟨tidyFlags false (flags (remains offered text)),
        ((pieces offered text).filterMap Piece.citedNumber).foldl pushNew [],
        ((pieces offered text).filterMap Piece.deletedNumber).foldl pushNew []⟩ := by
  have filled : offered.isEmpty = false := List.isEmpty_eq_false_iff.mpr some_
  have image : ((pieces offered text).flatMap Piece.marks).flatMap Mark.text = remains offered text := by
    rw [List.flatMap_assoc, remains]
    exact congrArg (List.flatMap · _) (funext marks_text)
  rw [parseCitations, filled, if_neg Bool.false_ne_true, marksOf_eq, foldl_add, image, List.nil_append,
    filterMap_flatMap marks_citedNumber, filterMap_flatMap marks_invalidNumber, ← tidySpacesOutsideCode_eq]

end Result

end DuDuClaw.Knowledge.Citations
