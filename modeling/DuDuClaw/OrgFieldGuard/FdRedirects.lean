/-
# OrgFieldGuard.FdRedirects -- what `strip_fd_redirects` takes out of a command

The Bash lane of the write guard first removes fd duplications (`2>&1`) and
redirects to `/dev/null`, which write nothing, and judges what is left.  This
module embeds that pass (`org_field_guard/bash_parse.rs`) and says exactly when
it removes nothing else.

The loop copies characters into `out` and, at a removable redirect, truncates
`out` by a prefix length that was measured on the *input*.  The run is therefore
kept generic in what it pushes: pushing characters is the code
(`stripFdRedirects`), pushing `Piece`s remembers which input occurrence every
output character is (`stripPieces`), and `stripFdRedirects_eq_render` says the
two are the same run.

* `Strips b i out`: `out` is `b[0..i)` with pairwise disjoint redirects replaced
  by one blank each and every other occurrence kept in order.
* `removesOnlyRedirects_iff`: the run ends in such an `out` exactly when no removed
  duplication onto plain digits is directly followed by another removed
  redirect.  There the second redirect counts the digits of the first as its own
  prefix, although the first one already consumed them.
-/
import DuDuClaw.Lib.Chars

namespace DuDuClaw.OrgFieldGuard

open DuDuClaw.Lib

/-! ## The pass -/

/-- `b[i]` exists and satisfies `f`. -/
def holdsAt (b : List Char) (i : Nat) (f : Char → Bool) : Bool :=
  (b[i]?).any f

def isRedirectOp (c : Char) : Bool := c == '>' || c == '<'

def isBoundary (c : Char) : Bool :=
  isWhitespace c || c == ';' || c == '|' || c == '(' || c == '&'

/-- The closure `boundary`: position `i` starts a word. -/
def boundary (b : List Char) (i : Nat) : Bool :=
  i == 0 || holdsAt b (i - 1) isBoundary

/-- `while p > 0 && b[p - 1].is_ascii_digit() { p -= 1 }`. -/
def digitsBack (b : List Char) : Nat → Nat
  | 0 => 0
  | p + 1 => if holdsAt b p Char.isDigit then digitsBack b p else p + 1

/-- `while m < b.len() && f(b[m]) { m += 1 }`. -/
def runEnd (b : List Char) (f : Char → Bool) (m : Nat) : Nat :=
  m + ((b.drop m).takeWhile f).length

/-- Where the already copied prefix of the operator at `i` starts: `N` digits or
`&` that start a word, else `i` itself. -/
def prefixStart (b : List Char) (i : Nat) : Nat :=
  let p := digitsBack b i
  let p := if p < i && !boundary b p then i else p
  if p == i && 0 < i && holdsAt b (i - 1) (· == '&') && holdsAt b i (· == '>') &&
      boundary b (i - 1) then i - 1
  else p

/-- The position after the operator at `i`: `>>` takes two characters. -/
def afterOp (b : List Char) (i : Nat) : Nat :=
  if holdsAt b (i + 1) (· == '>') && holdsAt b i (· == '>') then i + 2 else i + 1

def endsDupWord (c : Char) : Bool :=
  isWhitespace c || [';', '|', '&', ')', '(', '<', '>', Char.ofNat 0x60].contains c

def endsNullWord (c : Char) : Bool :=
  isWhitespace c || [';', '|', '&', ')'].contains c

def isDupChar (c : Char) : Bool := c.isDigit || c == '-'

def devNull : List Char := ['/', 'd', 'e', 'v', '/', 'n', 'u', 'l', 'l']

/-- Where the redirect whose operator is at `i` ends, when it writes nothing:
`&` plus a whole word of digits or `-`, or blanks plus `/dev/null`. -/
def redirectEnd (b : List Char) (i : Nat) : Option Nat :=
  let k := afterOp b i
  if holdsAt b k (· == '&') then
    let m := runEnd b isDupChar (k + 1)
    if k + 1 < m && (b[m]?).all endsDupWord then some m else none
  else
    let m := runEnd b (· == ' ') k
    if (b.drop m).take 9 == devNull && (b[m + 9]?).all endsNullWord then some (m + 9)
    else none

/-- The `while` loop of `strip_fd_redirects`, generic in what is pushed: `emit i`
for a copied character, `blank` for a removed redirect.  `none` is the underflow
of `out.len() - (i - p)`.  The fuel `b.length` always suffices, since every
iteration moves `i` forward (`stripLoop_spec`). -/
def stripLoop {σ : Type} (b : List Char) (emit : Nat → σ) (blank : σ) :
    Nat → Nat → List σ → Option (List σ)
  | 0, _, out => some out
  | fuel + 1, i, out =>
    if i < b.length then
      if holdsAt b i isRedirectOp then
        match redirectEnd b i with
        | some e =>
          let taken := i - prefixStart b i
          if out.length < taken then none
          else stripLoop b emit blank fuel e (out.take (out.length - taken) ++ [blank])
        | none => stripLoop b emit blank fuel (i + 1) (out ++ [emit i])
      else stripLoop b emit blank fuel (i + 1) (out ++ [emit i])
    else some out

/-- `strip_fd_redirects`, on the characters of the command. -/
def stripFdRedirects (s : List Char) : Option (List Char) :=
  stripLoop s (fun i => s.getD i ' ') ' ' s.length 0 []

/-! ## What may be removed -/

/-- An output character: the input occurrence it is, or an inserted blank. -/
inductive Piece where
  | kept (i : Nat)
  | blank

def Piece.render (b : List Char) : Piece → Char
  | .kept i => b.getD i ' '
  | .blank => ' '

/-- The same run, remembering the occurrences instead of the characters. -/
def stripPieces (s : List Char) : Option (List Piece) :=
  stripLoop s .kept .blank s.length 0 []

/-- `b[p..i)` is the prefix of a redirect: digits, possibly none, or one `&`. -/
def IsPrefix (b : List Char) (p i : Nat) : Prop :=
  p ≤ i ∧ ((∀ j, p ≤ j → j < i → holdsAt b j Char.isDigit) ∨
    (i = p + 1 ∧ holdsAt b p (· == '&')))

/-- `b[i..k)` is `>`, `<` or `>>`. -/
def IsOp (b : List Char) (i k : Nat) : Prop :=
  (k = i + 1 ∧ holdsAt b i isRedirectOp) ∨
    (k = i + 2 ∧ holdsAt b i (· == '>') ∧ holdsAt b (i + 1) (· == '>'))

/-- `b[k..e)` is `&` plus digits or `-`, or blanks plus `/dev/null`. -/
def IsTail (b : List Char) (k e : Nat) : Prop :=
  (holdsAt b k (· == '&') ∧ k + 1 < e ∧ ∀ j, k < j → j < e → holdsAt b j isDupChar) ∨
    ∃ m, k ≤ m ∧ (∀ j, k ≤ j → j < m → holdsAt b j (· == ' ')) ∧
      (b.drop m).take 9 = devNull ∧ e = m + 9

/-- `b[p..e)` is a redirect that writes nothing. -/
def RedirectSpan (b : List Char) (p e : Nat) : Prop :=
  ∃ i k, IsPrefix b p i ∧ IsOp b i k ∧ IsTail b k e

/-- `out` is `b[0..i)` with pairwise disjoint redirects replaced by one blank
each, every other occurrence being kept in order. -/
inductive Strips (b : List Char) : Nat → List Piece → Prop
  | start : Strips b 0 []
  | keep {i : Nat} {out : List Piece} (before : Strips b i out) (inside : i < b.length) :
      Strips b (i + 1) (out ++ [.kept i])
  | cut {p e : Nat} {out : List Piece} (before : Strips b p out) (span : RedirectSpan b p e) :
      Strips b e (out ++ [.blank])

/-- A removed duplication onto plain digits, directly followed by a second
removed redirect: `2>&1>/dev/null`. -/
def DigitsThenRedirect (b : List Char) : Prop :=
  ∃ i e, holdsAt b i isRedirectOp ∧ redirectEnd b i = some e ∧
    holdsAt b (afterOp b i) (· == '&') ∧
    (∀ j, afterOp b i < j → j < e → holdsAt b j Char.isDigit) ∧
    holdsAt b e isRedirectOp ∧ (redirectEnd b e).isSome

/-! ## Reading the input -/

section Reading

variable {b : List Char}

variable {i : Nat} {f : Char → Bool}

theorem holdsAt_iff : holdsAt b i f ↔ ∃ c, b[i]? = some c ∧ f c := by
  simp [holdsAt, Option.any_eq_true]

theorem holdsAt_lt (at_i : holdsAt b i f) : i < b.length := by
  obtain ⟨c, found, -⟩ := holdsAt_iff.mp at_i
  exact (List.getElem?_eq_some_iff.mp found).1

theorem holdsAt_mono {g : Char → Bool} (at_i : holdsAt b i f) (imp : ∀ c, f c → g c) : holdsAt b i g := by
  obtain ⟨c, found, fc⟩ := holdsAt_iff.mp at_i
  exact holdsAt_iff.mpr ⟨c, found, imp c fc⟩

theorem holdsAt_beq {c : Char} : holdsAt b i (· == c) ↔ b[i]? = some c := by
  simp [holdsAt_iff]

/-- A known character decides every test at its position. -/
theorem holdsAt_of_char {c : Char} (found : b[i]? = some c) (f : Char → Bool) : holdsAt b i f = f c := by
  simp [holdsAt, found]

theorem le_runEnd (f : Char → Bool) (m : Nat) : m ≤ runEnd b f m := by
  simp [runEnd]

theorem runEnd_holds {m j : Nat} (from_m : m ≤ j) (before : j < runEnd b f m) : holdsAt b j f := by
  have short : j - m < ((b.drop m).takeWhile f).length := by simp only [runEnd] at before; omega
  have found : ((b.drop m).takeWhile f ++ (b.drop m).dropWhile f)[j - m]? =
      some ((b.drop m).takeWhile f)[j - m] := by
    rw [List.getElem?_append_left short, List.getElem?_eq_getElem short]
  rw [List.takeWhile_append_dropWhile] at found
  rw [List.getElem?_drop, Nat.add_sub_cancel' from_m] at found
  exact holdsAt_iff.mpr ⟨_, found, List.mem_takeWhile_imp (List.getElem_mem short)⟩

theorem not_holdsAt_runEnd (f : Char → Bool) (m : Nat) : ¬ holdsAt b (runEnd b f m) f := by
  intro at_end
  obtain ⟨c, found, fc⟩ := holdsAt_iff.mp at_end
  have split : ((b.drop m).takeWhile f ++ (b.drop m).dropWhile f)[((b.drop m).takeWhile f).length]? =
      ((b.drop m).dropWhile f).head? := by
    rw [List.getElem?_append_right (le_refl _), Nat.sub_self, List.head?_eq_getElem?]
  rw [List.takeWhile_append_dropWhile, List.getElem?_drop] at split
  rw [runEnd, split] at found
  have stopped := List.head?_dropWhile_not f (b.drop m)
  simp [found, fc] at stopped

theorem digitsBack_le (i : Nat) : digitsBack b i ≤ i := by
  induction i with
  | zero => simp [digitsBack]
  | succ p ih =>
    simp only [digitsBack]
    split
    · omega
    · exact le_refl _

theorem digitsBack_digit {j : Nat} (from_p : digitsBack b i ≤ j) (before : j < i) :
    holdsAt b j Char.isDigit := by
  induction i with
  | zero => omega
  | succ p ih =>
    simp only [digitsBack] at from_p
    split at from_p
    · rename_i digit
      by_cases last : j = p
      · rw [last]; exact digit
      · exact ih from_p (by omega)
    · omega

theorem not_isDigit_before_digitsBack (pos : 0 < digitsBack b i) :
    ¬ holdsAt b (digitsBack b i - 1) Char.isDigit := by
  induction i with
  | zero => simp [digitsBack] at pos
  | succ p ih =>
    simp only [digitsBack] at pos ⊢
    split at pos
    · rename_i digit
      simp only [digit, if_true]
      exact ih pos
    · rename_i stop
      simp [stop]

/-- Digits directly before `i` are walked over. -/
theorem digitsBack_le_of_digits {p : Nat} (le : p ≤ i)
    (digits : ∀ j, p ≤ j → j < i → holdsAt b j Char.isDigit) : digitsBack b i ≤ p := by
  induction i with
  | zero => simp [digitsBack]
  | succ q ih =>
    by_cases top : p = q + 1
    · rw [top]; exact digitsBack_le _
    · simp only [digitsBack, digits q (by omega) (by omega), if_true]
      exact ih (by omega) (fun j from_p before => digits j from_p (by omega))

end Reading

/-! ## One redirect -/

theorem isDigit_bounds {c : Char} (digit : c.isDigit) : 48 ≤ c.toNat ∧ c.toNat ≤ 57 := by
  simp only [Char.isDigit, Bool.and_eq_true, decide_eq_true_eq, ge_iff_le] at digit
  exact ⟨digit.1, digit.2⟩

theorem not_isWhitespace_of_isDigit {c : Char} (digit : c.isDigit) : isWhitespace c = false := by
  have bounds := isDigit_bounds digit
  simp only [isWhitespace, Bool.or_eq_false_iff, Bool.and_eq_false_iff, decide_eq_false_iff_not,
    beq_eq_false_iff_ne]
  omega

theorem not_endsNullWord_of_isDigit {c : Char} (digit : c.isDigit) : endsNullWord c = false := by
  simp only [endsNullWord, not_isWhitespace_of_isDigit digit, Bool.false_or]
  rw [List.contains_eq_mem, decide_eq_false_iff_not]
  intro member
  simp only [List.mem_cons, List.not_mem_nil, or_false] at member
  rcases member with rfl | rfl | rfl | rfl <;> revert digit <;> decide

section Redirect

variable {b : List Char}

variable {i e : Nat}

theorem afterOp_isOp (op : holdsAt b i isRedirectOp) : IsOp b i (afterOp b i) := by
  unfold afterOp
  split
  · rename_i double
    rw [Bool.and_eq_true] at double
    exact .inr ⟨rfl, double.2, double.1⟩
  · exact .inl ⟨rfl, op⟩

theorem redirectEnd_tail (ends : redirectEnd b i = some e) :
    IsTail b (afterOp b i) e ∧ e ≤ b.length ∧ ¬ holdsAt b e Char.isDigit ∧
      (holdsAt b (afterOp b i) (· == '&') → ¬ holdsAt b e isDupChar) := by
  simp only [redirectEnd] at ends
  split at ends
  · rename_i amp
    split at ends
    · rename_i accepted
      rw [Bool.and_eq_true, decide_eq_true_eq] at accepted
      obtain rfl := Option.some.inj ends
      have stop := not_holdsAt_runEnd (b := b) isDupChar (afterOp b i + 1)
      refine ⟨.inl ⟨amp, accepted.1, fun j after before => runEnd_holds after before⟩, ?_, ?_, fun _ => stop⟩
      · have last := runEnd_holds (b := b) (f := isDupChar) (m := afterOp b i + 1)
          (j := runEnd b isDupChar (afterOp b i + 1) - 1) (by omega) (by omega)
        have := holdsAt_lt last
        omega
      · exact fun digit => stop (holdsAt_mono digit (by simp +contextual [isDupChar]))
    · cases ends
  · rename_i noAmp
    split at ends
    · rename_i accepted
      rw [Bool.and_eq_true, beq_iff_eq] at accepted
      obtain rfl := Option.some.inj ends
      have long : 9 ≤ (b.drop (runEnd b (· == ' ') (afterOp b i))).length := by
        have := congrArg List.length accepted.1
        rw [List.length_take] at this
        have nine : devNull.length = 9 := by decide
        omega
      rw [List.length_drop] at long
      refine ⟨.inr ⟨_, le_runEnd _ _, fun j after before => runEnd_holds after before,
        accepted.1, rfl⟩, by omega, ?_, fun amp => absurd amp noAmp⟩
      intro digit
      obtain ⟨c, found, isDigit⟩ := holdsAt_iff.mp digit
      have ended := accepted.2
      rw [found, Option.all_some, not_endsNullWord_of_isDigit isDigit] at ended
      cases ended
    · cases ends

/-- The prefix is empty, or a word of digits, or a `&` of its own. -/
theorem prefixStart_cases (i : Nat) : prefixStart b i = i ∨
      (prefixStart b i = digitsBack b i ∧ digitsBack b i < i ∧ boundary b (digitsBack b i)) ∨
      (prefixStart b i + 1 = i ∧ holdsAt b (prefixStart b i) (· == '&')) := by
  have le := digitsBack_le (b := b) i
  by_cases word : digitsBack b i < i ∧ boundary b (digitsBack b i)
  · refine .inr (.inl ⟨?_, word⟩)
    simp [prefixStart, word, Nat.ne_of_lt word.1]
  have none : (if digitsBack b i < i && !boundary b (digitsBack b i) then i
      else digitsBack b i) = i := by
    split
    · rfl
    rename_i h
    simp only [Bool.and_eq_true, decide_eq_true_eq, Bool.not_eq_true', not_and, Bool.not_eq_false] at h
    by_contra ne
    exact word ⟨by omega, h (by omega)⟩
  simp only [prefixStart, none]
  split
  · rename_i amp
    simp only [Bool.and_eq_true, decide_eq_true_eq] at amp
    exact .inr (.inr ⟨by omega, amp.1.1.2⟩)
  · exact .inl rfl

theorem prefixStart_le (i : Nat) : prefixStart b i ≤ i := by
  rcases prefixStart_cases (b := b) i with h | ⟨h, h', -⟩ | ⟨h, -⟩ <;> omega

theorem prefixStart_isPrefix (i : Nat) : IsPrefix b (prefixStart b i) i := by
  refine ⟨prefixStart_le i, ?_⟩
  rcases prefixStart_cases (b := b) i with same | ⟨eq, -, -⟩ | ⟨eq, amp⟩
  · exact .inl (fun j from_p before => by omega)
  · exact .inl (fun j from_p before => digitsBack_digit (by omega) before)
  · exact .inr ⟨eq.symm, amp⟩

theorem redirect_span (op : holdsAt b i isRedirectOp)
    (ends : redirectEnd b i = some e) : RedirectSpan b (prefixStart b i) e :=
  ⟨i, afterOp b i, prefixStart_isPrefix i, afterOp_isOp op, (redirectEnd_tail ends).1⟩

theorem redirect_span_op (op : holdsAt b i isRedirectOp)
    (ends : redirectEnd b i = some e) : RedirectSpan b i e :=
  ⟨i, afterOp b i, ⟨le_refl _, .inl (fun j from_p before => by omega)⟩, afterOp_isOp op,
    (redirectEnd_tail ends).1⟩

theorem afterOp_cases (b : List Char) (i : Nat) : afterOp b i = i + 1 ∨ afterOp b i = i + 2 := by
  unfold afterOp; split <;> simp

theorem lt_afterOp (i : Nat) : i < afterOp b i := by
  rcases afterOp_cases b i with eq | eq <;> omega

theorem isTail_lt {k : Nat} (tail : IsTail b k e) : k < e := by
  rcases tail with ⟨-, h, -⟩ | ⟨m, h, -, -, rfl⟩ <;> omega

theorem lt_redirectEnd (ends : redirectEnd b i = some e) : i < e :=
  lt_trans (lt_afterOp i) (isTail_lt (redirectEnd_tail ends).1)

/-- The last nine characters of a `/dev/null` tail, one by one. -/
theorem devNull_at {m t : Nat} (null : (b.drop m).take 9 = devNull) (short : t < 9) :
    b[m + t]? = devNull[t]? := by
  rw [← null, List.getElem?_take_of_lt short, List.getElem?_drop]

/-- **Who can own the digits before an operator.**  A redirect that starts where
another one ended takes a prefix only out of a duplication onto plain digits. -/
theorem shared_prefix (ends : redirectEnd b i = some e) (shared : prefixStart b e < e) :
    holdsAt b (afterOp b i) (· == '&') ∧ ∀ j, afterOp b i < j → j < e → holdsAt b j Char.isDigit := by
  obtain ⟨tail, -, -, -⟩ := redirectEnd_tail ends
  rcases tail with ⟨amp, long, dups⟩ | ⟨m, -, -, null, rfl⟩
  · refine ⟨amp, ?_⟩
    rcases prefixStart_cases (b := b) e with same | ⟨-, digits, word⟩ | ⟨eq, amp'⟩
    · omega
    · -- the run of digits stops at the `&`: anything else before it is a `-`, no word start
      have stop : digitsBack b e ≤ afterOp b i + 1 := by
        by_contra past
        have dup := dups (digitsBack b e - 1) (by omega) (by omega)
        have noDigit := not_isDigit_before_digitsBack (b := b) (i := e) (by omega)
        simp only [boundary, Bool.or_eq_true, beq_iff_eq] at word
        rcases word with zero | bound
        · omega
        obtain ⟨c, found, isDup⟩ := holdsAt_iff.mp dup
        obtain ⟨c', found', isBound⟩ := holdsAt_iff.mp bound
        obtain rfl : c = c' := Option.some.inj (found.symm.trans found')
        simp only [isDupChar, Bool.or_eq_true, beq_iff_eq] at isDup
        rcases isDup with digit | rfl
        · exact noDigit (holdsAt_iff.mpr ⟨c, found, digit⟩)
        · revert isBound; decide
      exact fun j after before => digitsBack_digit (by omega) before
    · have dup := dups (prefixStart b e) (by omega) (by omega)
      rw [holdsAt_of_char (holdsAt_beq.mp amp')] at dup
      exact absurd dup (by decide)
  · -- `/dev/null` ends in `l`
    exfalso
    have last : b[m + 8]? = some 'l' := devNull_at null (by decide)
    rcases prefixStart_cases (b := b) (m + 9) with same | ⟨-, digits, -⟩ | ⟨eq, amp⟩
    · omega
    · have digit : holdsAt b (m + 8) Char.isDigit :=
        digitsBack_digit (i := m + 9) (by omega) (by omega)
      rw [holdsAt_of_char last] at digit
      revert digit; decide
    · rw [show prefixStart b (m + 9) = m + 8 by omega, holdsAt_of_char last] at amp
      revert amp; decide

/-- Conversely, plain digits after `&` are counted again. -/
theorem prefixStart_lt_of_digits (ends : redirectEnd b i = some e) (amp : holdsAt b (afterOp b i) (· == '&'))
    (digits : ∀ j, afterOp b i < j → j < e → holdsAt b j Char.isDigit) : prefixStart b e < e := by
  have long : afterOp b i + 1 < e := by
    rcases (redirectEnd_tail ends).1 with ⟨-, long, -⟩ | ⟨m, from_k, blanks, null, rfl⟩
    · exact long
    · omega
  have ampDigit : ¬ holdsAt b (afterOp b i) Char.isDigit := by
    rw [holdsAt_of_char (holdsAt_beq.mp amp)]; decide
  have low : digitsBack b e ≤ afterOp b i + 1 :=
    digitsBack_le_of_digits (by omega) (fun j after before => digits j (by omega) before)
  have eq : digitsBack b e = afterOp b i + 1 := by
    by_contra ne
    exact ampDigit (digitsBack_digit (i := e) (by omega) (by omega))
  have word : boundary b (afterOp b i + 1) := by
    rw [boundary, Nat.add_sub_cancel, holdsAt_of_char (holdsAt_beq.mp amp)]
    simp [isBoundary]
  simp [prefixStart, word, eq, long, Nat.ne_of_lt long]

end Redirect

/-! ## Counting operators

Every redirect holds exactly one *last* operator character (`>>` counts once), so
a faithful output accounts for each of them: kept, or replaced by a blank. -/

section Counting

variable {b : List Char}

def opEnd (b : List Char) (j : Nat) : Bool :=
  holdsAt b j isRedirectOp && !holdsAt b (j + 1) isRedirectOp

/-- The operators of `b[0..i)`. -/
def opCount (b : List Char) : Nat → Nat
  | 0 => 0
  | j + 1 => opCount b j + (opEnd b j).toNat

def pieceCount (b : List Char) (out : List Piece) : Nat :=
  out.countP fun
    | .kept j => opEnd b j
    | .blank => true

variable {p j e i : Nat} {out : List Piece}

@[simp] theorem pieceCount_append (out out' : List Piece) :
    pieceCount b (out ++ out') = pieceCount b out + pieceCount b out' :=
  List.countP_append

@[simp] theorem pieceCount_kept (j : Nat) : pieceCount b [.kept j] = (opEnd b j).toNat := by
  cases h : opEnd b j <;> simp [pieceCount, h]

@[simp] theorem pieceCount_blank : pieceCount b [.blank] = 1 := rfl

theorem pieceCount_le_length (out : List Piece) : pieceCount b out ≤ out.length :=
  List.countP_le_length

theorem opCount_eq_of_none {q : Nat} (le : p ≤ q)
    (none : ∀ j, p ≤ j → j < q → ¬ opEnd b j) : opCount b q = opCount b p := by
  induction q, le using Nat.le_induction with
  | base => rfl
  | succ q le ih =>
    rw [opCount, ih (fun j from_p before => none j from_p (by omega))]
    simp [none q le (by omega)]

theorem not_opEnd_of_holdsAt {f : Char → Bool} (at_j : holdsAt b j f)
    (apart : ∀ c, f c → isRedirectOp c = false) : ¬ opEnd b j := by
  obtain ⟨c, found, fc⟩ := holdsAt_iff.mp at_j
  simp [opEnd, holdsAt_of_char found, apart c fc]

theorem not_isRedirectOp_of_isDigit (c : Char) (digit : c.isDigit) : isRedirectOp c = false := by
  have bounds := isDigit_bounds digit
  simp only [isRedirectOp, Bool.or_eq_false_iff, beq_eq_false_iff_ne, ne_eq]
  constructor <;> (rintro rfl; revert bounds; decide)

theorem not_isRedirectOp_of_isDupChar (c : Char) (dup : isDupChar c) : isRedirectOp c = false := by
  simp only [isDupChar, Bool.or_eq_true, beq_iff_eq] at dup
  rcases dup with digit | rfl
  · exact not_isRedirectOp_of_isDigit c digit
  · rfl

theorem not_isRedirectOp_of_beq {d : Char} (plain : isRedirectOp d = false) (c : Char)
    (eq : c == d) : isRedirectOp c = false := by
  rw [beq_iff_eq.mp eq]; exact plain

theorem not_isRedirectOp_devNull (c : Char) (member : devNull.contains c) : isRedirectOp c = false := by
  have plain : devNull.all (fun d => !isRedirectOp d) = true := by decide
  rw [List.all_eq_true] at plain
  simpa using plain c (by simpa using member)

/-- A tail starts with no operator character and holds none. -/
theorem isTail_noOp {k : Nat} (tail : IsTail b k e) (from_k : k ≤ j) (before : j < e) :
    ∃ f, holdsAt b j f ∧ ∀ c, f c → isRedirectOp c = false := by
  rcases tail with ⟨amp, -, dups⟩ | ⟨m, le, blanks, null, rfl⟩
  · by_cases first : j = k
    · exact ⟨_, first ▸ amp, not_isRedirectOp_of_beq rfl⟩
    · exact ⟨_, dups j (by omega) before, not_isRedirectOp_of_isDupChar⟩
  by_cases blank : j < m
  · exact ⟨_, blanks j from_k blank, not_isRedirectOp_of_beq rfl⟩
  refine ⟨devNull.contains, ?_, not_isRedirectOp_devNull⟩
  have found := devNull_at null (show j - m < 9 by omega)
  rw [Nat.add_sub_cancel' (by omega)] at found
  have short : j - m < devNull.length := by
    have nine : devNull.length = 9 := by decide
    omega
  rw [List.getElem?_eq_getElem short] at found
  rw [holdsAt_of_char found, List.contains_iff_mem]
  exact List.getElem_mem short

theorem opCount_span (span : RedirectSpan b p e) : opCount b e = opCount b p + 1 := by
  obtain ⟨i, k, ⟨le, before⟩, op, tail⟩ := span
  have inPrefix : opCount b i = opCount b p := by
    apply opCount_eq_of_none le
    intro j from_p to_i
    rcases before with digits | ⟨rfl, amp⟩
    · exact not_opEnd_of_holdsAt (digits j from_p to_i) not_isRedirectOp_of_isDigit
    · obtain rfl : j = p := by omega
      exact not_opEnd_of_holdsAt amp (not_isRedirectOp_of_beq rfl)
  have inTail : opCount b e = opCount b k := by
    apply opCount_eq_of_none (isTail_lt tail).le
    intro j from_k to_e
    obtain ⟨f, at_j, apart⟩ := isTail_noOp tail from_k to_e
    exact not_opEnd_of_holdsAt at_j apart
  have afterK : holdsAt b k isRedirectOp = false := by
    obtain ⟨f, at_k, apart⟩ := isTail_noOp tail (le_refl k) (isTail_lt tail)
    obtain ⟨c, found, fc⟩ := holdsAt_iff.mp at_k
    rw [holdsAt_of_char found, apart c fc]
  have inOp : opCount b k = opCount b i + 1 := by
    rcases op with ⟨rfl, at_i⟩ | ⟨rfl, first, second⟩
    · simp [opCount, opEnd, at_i, afterK]
    · have gt : isRedirectOp '>' = true := rfl
      simp [opCount, opEnd, afterK, holdsAt_of_char (holdsAt_beq.mp first),
        holdsAt_of_char (holdsAt_beq.mp second), gt]
  rw [inTail, inOp, inPrefix]

theorem strips_count (strips : Strips b i out) : pieceCount b out = opCount b i := by
  induction strips with
  | start => rfl
  | keep before inside ih => simp [opCount, ih]
  | cut before span ih => simp [opCount_span span, ih]

theorem strips_le (strips : Strips b i out) : i ≤ b.length := by
  induction strips with
  | start | keep before inside ih => omega
  | cut before span ih =>
    obtain ⟨i, k, -, -, tail⟩ := span
    have last := isTail_lt tail
    rename_i e _
    obtain ⟨f, at_last, -⟩ := isTail_noOp tail (j := e - 1) (by omega) (by omega)
    have := holdsAt_lt at_last
    omega

end Counting

/-! ## The run -/

section Run

variable {b : List Char}

variable {i : Nat} {out : List Piece}

theorem stripLoop_map {σ τ : Type} (g : σ → τ) (emit : Nat → σ) (blank : σ) (fuel i : Nat) (out : List σ) :
    stripLoop b (fun j => g (emit j)) (g blank) fuel i (out.map g) =
      (stripLoop b emit blank fuel i out).map (List.map g) := by
  induction fuel generalizing i out with
  | zero => rfl
  | succ fuel ih =>
    simp only [stripLoop, List.length_map, ← List.map_take]
    split
    · split
      · split
        · split
          · rfl
          · rw [← ih, List.map_append, List.map_singleton]
        · rw [← ih, List.map_append, List.map_singleton]
      · rw [← ih, List.map_append, List.map_singleton]
    · rfl

/-- **Two readings of one run.**  The characters of the output are the
characters of its pieces. -/
theorem stripFdRedirects_eq_render (s : List Char) :
    stripFdRedirects s = (stripPieces s).map (List.map (Piece.render s)) :=
  stripLoop_map (Piece.render s) .kept .blank s.length 0 []

/-- The run as an invariant rule: what holds at the start and is kept by copying
a character and by cutting a redirect holds when the input is exhausted. -/
theorem stripLoop_inv (Inv : Nat → List Piece → Prop) (keep : ∀ i out, Inv i out → i < b.length →
      (holdsAt b i isRedirectOp → redirectEnd b i = none) → Inv (i + 1) (out ++ [.kept i]))
    (cut : ∀ i e out, Inv i out → holdsAt b i isRedirectOp → redirectEnd b i = some e →
      i - prefixStart b i ≤ out.length → Inv e (out.take (out.length - (i - prefixStart b i)) ++ [.blank]))
    {fuel : Nat} {r : List Piece} (fueled : b.length ≤ i + fuel) (inv : Inv i out)
    (run : stripLoop b .kept .blank fuel i out = some r) : ∃ j, b.length ≤ j ∧ Inv j r := by
  induction fuel generalizing i out with
  | zero =>
    obtain rfl : out = r := Option.some.inj run
    exact ⟨i, fueled, inv⟩
  | succ fuel ih =>
    simp only [stripLoop] at run
    split at run
    · rename_i inside
      split at run
      · rename_i op
        split at run
        · rename_i e ends
          split at run
          · cases run
          · rename_i room
            have forward := lt_redirectEnd ends
            exact ih (by omega) (cut i e out inv op ends (by omega)) run
        · rename_i stays
          exact ih (by omega) (keep i out inv inside (fun _ => stays)) run
      · rename_i noOp
        exact ih (by omega) (keep i out inv inside (fun op => absurd op noOp)) run
    · exact ⟨i, by omega, Option.some.inj run ▸ inv⟩

/-- The run reaches the end when the invariant leaves room for every cut. -/
theorem stripLoop_total (Inv : Nat → List Piece → Prop) (keep : ∀ i out, Inv i out → i < b.length →
      (holdsAt b i isRedirectOp → redirectEnd b i = none) → Inv (i + 1) (out ++ [.kept i]))
    (cut : ∀ i e out, Inv i out → holdsAt b i isRedirectOp → redirectEnd b i = some e →
      i - prefixStart b i ≤ out.length ∧ Inv e (out.take (out.length - (i - prefixStart b i)) ++ [.blank]))
    (fuel : Nat) (inv : Inv i out) : ∃ r, stripLoop b .kept .blank fuel i out = some r := by
  induction fuel generalizing i out with
  | zero => exact ⟨out, rfl⟩
  | succ fuel ih =>
    simp only [stripLoop]
    split
    · rename_i inside
      split
      · rename_i op
        split
        · rename_i e ends
          have room := cut i e out inv op ends
          rw [if_neg (by omega)]
          exact ih room.2
        · rename_i stays
          exact ih (keep i out inv inside (fun _ => stays))
      · rename_i noOp
        exact ih (keep i out inv inside (fun op => absurd op noOp))
    · exact ⟨out, rfl⟩

/-- The state of a run that never reached into a removed redirect: `out` ends in
the characters copied since the last cut, at `cutEnd`. -/
structure Copied (b : List Char) (i : Nat) (out : List Piece) : Prop where
  copied : ∃ cutEnd out₀, Strips b cutEnd out₀ ∧ cutEnd ≤ i ∧ i ≤ b.length ∧
    out = out₀ ++ (List.range' cutEnd (i - cutEnd)).map .kept ∧
    (cutEnd = 0 ∨ ∃ i₀, holdsAt b i₀ isRedirectOp ∧ redirectEnd b i₀ = some cutEnd)

theorem strips_append_kept {n : Nat} (strips : Strips b i out)
    (inside : i + n ≤ b.length) : Strips b (i + n) (out ++ (List.range' i n).map .kept) := by
  induction n with
  | zero => simpa using strips
  | succ n ih =>
    rw [List.range'_1_concat, List.map_append, ← List.append_assoc]
    exact .keep (ih (by omega)) inside

theorem Copied.strips (state : Copied b i out) : Strips b i out := by
  obtain ⟨cutEnd, out₀, strips, le, inside, rfl, -⟩ := state.copied
  have := strips_append_kept (n := i - cutEnd) strips (by omega)
  rwa [Nat.add_sub_cancel' le] at this

theorem Copied.keep (state : Copied b i out) (inside : i < b.length) : Copied b (i + 1) (out ++ [.kept i]) := by
  obtain ⟨cutEnd, out₀, strips, le, -, rfl, last⟩ := state.copied
  refine ⟨cutEnd, out₀, strips, by omega, by omega, ?_, last⟩
  rw [Nat.succ_sub le, List.range'_1_concat, Nat.add_sub_cancel' le, List.map_append,
    ← List.append_assoc, List.map_singleton]

/-- Unless a redirect starts right where the last one ended and counts its
digits, the prefix is still the tail of `out`. -/
theorem Copied.cut {e : Nat} (clean : ¬ DigitsThenRedirect b)
    (state : Copied b i out) (op : holdsAt b i isRedirectOp) (ends : redirectEnd b i = some e) :
    i - prefixStart b i ≤ out.length ∧
      Copied b e (out.take (out.length - (i - prefixStart b i)) ++ [.blank]) := by
  obtain ⟨cutEnd, out₀, strips, le, inside, rfl, last⟩ := state.copied
  have startLe := prefixStart_le (b := b) i
  have owned : cutEnd ≤ prefixStart b i := by
    rcases last with zero | ⟨i₀, op₀, ends₀⟩
    · omega
    by_contra reaches
    rcases Nat.lt_or_eq_of_le le with later | rfl
    · -- something was copied since the cut, and its first character is no digit
      have noDigit := (redirectEnd_tail ends₀).2.2.1
      rcases prefixStart_cases (b := b) i with same | ⟨eq, -, -⟩ | ⟨eq, -⟩
      · omega
      · exact noDigit (digitsBack_digit (i := i) (by omega) later)
      · omega
    · obtain ⟨amp, digits⟩ := shared_prefix ends₀ (by omega)
      exact clean ⟨i₀, cutEnd, op₀, ends₀, amp, digits, op, by simp [ends]⟩
  have split : List.range' cutEnd (i - cutEnd) =
      List.range' cutEnd (prefixStart b i - cutEnd) ++ List.range' (prefixStart b i) (i - prefixStart b i) := by
    rw [show i - cutEnd = (prefixStart b i - cutEnd) + (i - prefixStart b i) by omega,
      ← List.range'_append_1, Nat.add_sub_cancel' owned]
  have kept := strips_append_kept (n := prefixStart b i - cutEnd) strips (by omega)
  rw [Nat.add_sub_cancel' owned] at kept
  have tail := redirectEnd_tail ends
  refine ⟨by simp; omega, e, _, .cut kept (redirect_span op ends), le_refl _, tail.2.1, ?_, .inr ⟨i, op, ends⟩⟩
  rw [split, List.map_append, ← List.append_assoc, List.length_append, List.length_map,
    List.length_range', Nat.add_sub_cancel, List.take_left, Nat.sub_self, List.range'_zero,
    List.map_nil, List.append_nil]

/-- The state of a run that has a shared prefix ahead of it or behind it: once
the prefix is taken, `out` accounts for too few operators. -/
structure Lagging (b : List Char) (i₀ e₀ i : Nat) (out : List Piece) : Prop where
  atMost : pieceCount b out ≤ opCount b i
  lag : pieceCount b out < opCount b i ∨ i ≤ i₀ ∨ (i = e₀ ∧ ∃ out₀, out = out₀ ++ [.blank])

theorem pieceCount_take_le (out : List Piece) (n : Nat) : pieceCount b (out.take n) ≤ pieceCount b out :=
  (List.take_sublist n out).countP_le

/-- The second `>` of a removed `>>` ends the same redirect. -/
theorem redirectEnd_second {e t : Nat} (ends : redirectEnd b i = some e) (after : i < t)
    (before : t < e) (op : holdsAt b t isRedirectOp) : redirectEnd b t = some e := by
  have tail := (redirectEnd_tail ends).1
  have inOp : t < afterOp b i := by
    by_contra past
    obtain ⟨f, at_t, apart⟩ := isTail_noOp tail (by omega) before
    obtain ⟨c, found, fc⟩ := holdsAt_iff.mp at_t
    rw [holdsAt_of_char found, apart c fc] at op
    cases op
  have double : afterOp b i = i + 2 ∧ t = i + 1 := by
    rcases afterOp_cases b i with eq | eq <;> omega
  have single : afterOp b t = t + 1 := by
    obtain ⟨f, at_k, apart⟩ := isTail_noOp tail (le_refl _) (isTail_lt tail)
    obtain ⟨c, found, fc⟩ := holdsAt_iff.mp at_k
    have noGt : (c == '>') = false := by
      have := apart c fc
      simp only [isRedirectOp, Bool.or_eq_false_iff] at this
      exact this.1
    rw [double.1, show i + 2 = t + 1 by omega] at found
    simp [afterOp, holdsAt_of_char found, noGt]
  have same : afterOp b t = afterOp b i := by omega
  rw [← ends]
  simp only [redirectEnd, same]

section Lag

variable {i₀ e₀ : Nat} (op₀ : holdsAt b i₀ isRedirectOp) (ends₀ : redirectEnd b i₀ = some e₀)
  (shared : prefixStart b e₀ < e₀) (op₁ : holdsAt b e₀ isRedirectOp)
  (ends₁ : (redirectEnd b e₀).isSome)

include op₀ ends₀ op₁ ends₁ in
theorem Lagging.keep (state : Lagging b i₀ e₀ i out)
    (stays : holdsAt b i isRedirectOp → redirectEnd b i = none) :
    Lagging b i₀ e₀ (i + 1) (out ++ [.kept i]) := by
  have atMost := state.atMost
  refine ⟨by simp [opCount, atMost], ?_⟩
  rcases state.lag with lag | ahead | ⟨rfl, -⟩
  · exact .inl (by simp [opCount, lag])
  · by_cases here : i = i₀
    · rw [here, ends₀] at stays
      cases stays op₀
    · exact .inr (.inl (by omega))
  · rw [stays op₁] at ends₁
    cases ends₁

include op₀ ends₀ shared in
theorem Lagging.cut {e : Nat} (state : Lagging b i₀ e₀ i out)
    (op : holdsAt b i isRedirectOp) (ends : redirectEnd b i = some e) :
    Lagging b i₀ e₀ e (out.take (out.length - (i - prefixStart b i)) ++ [.blank]) := by
  have atMost := state.atMost
  have shorter := pieceCount_take_le (b := b) out (out.length - (i - prefixStart b i))
  have one := opCount_span (redirect_span_op op ends)
  refine ⟨by simp only [pieceCount_append, pieceCount_blank]; omega, ?_⟩
  rcases state.lag with lag | ahead | ⟨rfl, out₀, rfl⟩
  · exact .inl (by simp only [pieceCount_append, pieceCount_blank]; omega)
  · by_cases here : i = i₀
    · rw [here, ends₀] at ends
      exact .inr (.inr ⟨(Option.some.inj ends).symm, _, rfl⟩)
    by_cases past : e ≤ i₀
    · exact .inr (.inl past)
    · have second := redirectEnd_second ends (by omega) (by omega) op₀
      rw [ends₀] at second
      exact .inr (.inr ⟨(Option.some.inj second).symm, _, rfl⟩)
  · -- the blank of the first redirect is part of what is truncated
    left
    have dropped : (out₀ ++ [Piece.blank]).take
        ((out₀ ++ [Piece.blank]).length - (i - prefixStart b i)) =
        out₀.take ((out₀ ++ [Piece.blank]).length - (i - prefixStart b i)) := by
      apply List.take_append_of_le_length
      simp only [List.length_append, List.length_singleton]
      omega
    have fewer := pieceCount_take_le (b := b) out₀
      ((out₀ ++ [Piece.blank]).length - (i - prefixStart b i))
    rw [pieceCount_append, pieceCount_blank] at atMost
    rw [dropped, pieceCount_append, pieceCount_blank]
    omega

end Lag

end Run

/-! ## When the pass removes nothing else -/

/-- **The pass removes nothing but redirects.**  No truncation underflows, and
the output is the input with pairwise disjoint redirects replaced by one blank
each, every other occurrence being kept in order. -/
def RemovesOnlyRedirects (s : List Char) : Prop :=
  ∃ pieces, stripPieces s = some pieces ∧
    stripFdRedirects s = some (pieces.map (Piece.render s)) ∧ Strips s s.length pieces

theorem strips_of_clean {s : List Char} (clean : ¬ DigitsThenRedirect s) : RemovesOnlyRedirects s := by
  have start : Copied s 0 [] := ⟨0, [], .start, le_refl _, Nat.zero_le _, rfl, .inl rfl⟩
  obtain ⟨pieces, run⟩ := stripLoop_total (Copied s)
    (fun i out state inside _ => state.keep inside)
    (fun i e out state op ends => state.cut clean op ends) s.length start
  obtain ⟨j, past, state⟩ := stripLoop_inv (Copied s)
    (fun i out state inside _ => state.keep inside)
    (fun i e out state op ends _ => (state.cut clean op ends).2) (by omega) start run
  refine ⟨pieces, run, by rw [stripFdRedirects_eq_render, stripPieces, run]; rfl, ?_⟩
  obtain rfl : j = s.length := le_antisymm (strips_le state.strips) past
  exact state.strips

/-- The pass removes nothing else exactly when no removed duplication onto plain
digits is directly followed by another removed redirect. -/
theorem removesOnlyRedirects_iff (s : List Char) : RemovesOnlyRedirects s ↔ ¬ DigitsThenRedirect s := by
  refine ⟨?_, strips_of_clean⟩
  rintro ⟨pieces, run, -, strips⟩ ⟨i₀, e₀, op₀, ends₀, amp, digits, op₁, ends₁⟩
  have shared := prefixStart_lt_of_digits ends₀ amp digits
  obtain ⟨j, past, state⟩ := stripLoop_inv (Lagging s i₀ e₀)
    (fun i out state _ stays => state.keep op₀ ends₀ op₁ ends₁ stays)
    (fun i e out state op ends _ => state.cut op₀ ends₀ shared op ends)
    (by omega) ⟨le_refl _, .inr (.inl (Nat.zero_le _))⟩ run
  have before₀ := holdsAt_lt op₀
  have before₁ := holdsAt_lt op₁
  have behind : pieceCount s pieces < opCount s j := by
    rcases state.lag with lag | ahead | ⟨rfl, -⟩
    · exact lag
    · omega
    · omega
  have same : opCount s j = opCount s s.length := by
    apply opCount_eq_of_none past
    intro k from_end _ isEnd
    rw [opEnd, Bool.and_eq_true] at isEnd
    have := holdsAt_lt isEnd.1
    omega
  have counted := strips_count strips
  omega

/-- `2>&1>/dev/null`. -/
def dupThenNull : List Char := ['2', '>', '&', '1', '>'] ++ devNull

/-- `2>&1>/dev/null` comes out as one blank, which no removal of redirects
explains; `rm x>&1234>&1` loses the words before its redirects; on `>&12>&1` the
subtraction underflows. -/
theorem strip_dupThenNull : stripFdRedirects dupThenNull = some [' '] ∧
      (¬ ∃ pieces, Strips dupThenNull dupThenNull.length pieces ∧
        pieces.map (Piece.render dupThenNull) = [' ']) ∧
      stripFdRedirects ['r', 'm', ' ', 'x', '>', '&', '1', '2', '3', '4', '>', '&', '1'] = some ['r', ' '] ∧
      stripFdRedirects ['>', '&', '1', '2', '>', '&', '1'] = none := by
  refine ⟨by decide, ?_, by decide, by decide⟩
  rintro ⟨pieces, strips, rendered⟩
  have counted := strips_count strips
  have short := pieceCount_le_length (b := dupThenNull) pieces
  have one : pieces.length = 1 := by
    have := congrArg List.length rendered
    rwa [List.length_map] at this
  have two : opCount dupThenNull dupThenNull.length = 2 := by decide
  omega

end DuDuClaw.OrgFieldGuard
