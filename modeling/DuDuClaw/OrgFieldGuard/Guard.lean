/-
# OrgFieldGuard.Guard -- when the Bash guard answers

`check_bash_protected_write_in` (org_field_guard/mod.rs) whole: the two spellings the text
rules are asked about, and the positional rules on the command itself.  Every slice and
index that can stop the program is there; `none` is where one does.

`out.len() - (i - p)` in `strip_fd_redirects` is no index: where it underflows a release
build wraps, and `truncate` then changes nothing (`truncateBack`).

* `stripIndexed_isSome`, `textRules_isSome`: those parts always answer.
* `guard_answers_iff`: the guard answers exactly when it does not come to judge the words
  of the command, or no word it reads as an option is cut.
* `nice_multibyte_stops`: a command it does not answer.
-/
import DuDuClaw.OrgFieldGuard.RefusedTargets
import DuDuClaw.OrgFieldGuard.TextRules

namespace DuDuClaw.OrgFieldGuard

open DuDuClaw.Lib

/-! ## Indices of `strip_fd_redirects` -/

/-- `boundary(i)`. -/
def indexBoundary (b : List Char) (i : Nat) : Option Bool :=
  if i == 0 then some true else b[i - 1]?.map isBoundary

def indexDigitsBack (b : List Char) : Nat → Option Nat
  | 0 => some 0
  | p + 1 => b[p]?.bind fun c => if c.isDigit then indexDigitsBack b p else some (p + 1)

/-- `p == i && i > 0 && b[i - 1] == '&' && b[i] == '>' && boundary(i - 1)`. -/
def indexAmpersand (b : List Char) (i : Nat) : Option Bool :=
  if 0 < i then
    b[i - 1]?.bind fun before =>
      if before == '&' then
        b[i]?.bind fun c => if c == '>' then indexBoundary b (i - 1) else some false
      else some false
  else some false

/-- Where the copied prefix of the redirect at `i` starts. -/
def indexPrefixStart (b : List Char) (i : Nat) : Option Nat :=
  (indexDigitsBack b i).bind fun p =>
    (if p < i then indexBoundary b p else some true).bind fun ok =>
      let p := if ok then p else i
      if p == i then (indexAmpersand b i).map fun found => if found then i - 1 else p
      else some p

/-- Where it ends.  Of the accesses here only the slice `b[m..]` is not behind a test. -/
def indexRedirectEnd (b : List Char) (i : Nat) : Option (Option Nat) :=
  if holdsAt b (afterOp b i) (· == '&') || runEnd b (· == ' ') (afterOp b i) ≤ b.length then
    some (redirectEnd b i)
  else none

/-- `out.truncate(out.len() - n)` of a release build. -/
def truncateBack (out : List Char) (n : Nat) : List Char :=
  if out.length < n then out else out.take (out.length - n)

/-- The loop of `strip_fd_redirects`; every round moves `i` forward. -/
def stripIndexed (b : List Char) : Nat → Nat → List Char → Option (List Char)
  | 0, _, out => some out
  | fuel + 1, i, out =>
    if i < b.length then
      b[i]?.bind fun c =>
        if isRedirectOp c then
          (indexPrefixStart b i).bind fun p =>
            (indexRedirectEnd b i).bind fun stops =>
              match stops with
              | some e => stripIndexed b fuel e (truncateBack out (i - p) ++ [' '])
              | none => stripIndexed b fuel (i + 1) (out ++ [c])
        else stripIndexed b fuel (i + 1) (out ++ [c])
    else some out

/-- `strip_fd_redirects` of a release build. -/
def stripRelease (s : List Char) : Option (List Char) := stripIndexed s s.length 0 []

variable {b : List Char} {i : Nat}

theorem indexBoundary_eq (inside : i ≤ b.length) : indexBoundary b i = some (boundary b i) := by
  unfold indexBoundary boundary holdsAt
  cases first : i == 0 with
  | true => rfl
  | false =>
    rw [beq_eq_false_iff_ne] at first
    rw [List.getElem?_eq_getElem (by omega)]
    rfl

theorem indexDigitsBack_eq (inside : i ≤ b.length) : indexDigitsBack b i = some (digitsBack b i) := by
  induction i with
  | zero => rfl
  | succ p ih =>
    rw [indexDigitsBack, digitsBack, holdsAt, List.getElem?_eq_getElem (by omega),
      Option.bind_some, Option.any_some]
    split
    · exact ih (by omega)
    · rfl

theorem indexAmpersand_eq (inside : i < b.length) :
    indexAmpersand b i = some (decide (0 < i) && holdsAt b (i - 1) (· == '&') &&
      holdsAt b i (· == '>') && boundary b (i - 1)) := by
  unfold indexAmpersand holdsAt
  by_cases first : 0 < i
  · rw [if_pos first, List.getElem?_eq_getElem (show i - 1 < b.length by omega),
      List.getElem?_eq_getElem inside, indexBoundary_eq (by omega)]
    simp only [Option.bind_some, Option.any_some, first, decide_true, Bool.true_and]
    split
    · split
      · simp_all
      · simp_all
    · simp_all
  · simp [first]

theorem indexPrefixStart_eq (inside : i < b.length) : indexPrefixStart b i = some (prefixStart b i) := by
  have before : digitsBack b i ≤ i := digitsBack_le i
  rw [indexPrefixStart, indexDigitsBack_eq (by omega), Option.bind_some, prefixStart]
  dsimp only
  by_cases digits : digitsBack b i < i
  · rw [if_pos digits, indexBoundary_eq (by omega), Option.bind_some, indexAmpersand_eq inside]
    cases boundary b (digitsBack b i) with
    | true =>
      have other : (digitsBack b i == i) = false := by
        rw [beq_eq_false_iff_ne]
        omega
      simp [digits, other]
    | false => simp [digits]
  · have same : digitsBack b i = i := by omega
    rw [if_neg digits, Option.bind_some, indexAmpersand_eq inside, same]
    simp

theorem runEnd_le {m : Nat} (f : Char → Bool) (inside : m ≤ b.length) : runEnd b f m ≤ b.length := by
  have run : ((b.drop m).takeWhile f).length ≤ (b.drop m).length :=
    (List.takeWhile_sublist f).length_le
  rw [List.length_drop] at run
  unfold runEnd
  omega

theorem indexRedirectEnd_eq (inside : i < b.length) : indexRedirectEnd b i = some (redirectEnd b i) := by
  have after : afterOp b i ≤ b.length := by
    unfold afterOp
    split
    · rename_i double
      rw [Bool.and_eq_true] at double
      have second := holdsAt_lt double.1
      omega
    · omega
  have within := runEnd_le (· == ' ') after
  rw [indexRedirectEnd, if_pos (by simp [within])]

theorem stripIndexed_round (inside : i < b.length) (fuel : Nat) (out : List Char) :
    stripIndexed b (fuel + 1) i out = if holdsAt b i isRedirectOp then
        match redirectEnd b i with
        | some e => stripIndexed b fuel e (truncateBack out (i - prefixStart b i) ++ [' '])
        | none => stripIndexed b fuel (i + 1) (out ++ [b.getD i ' '])
      else stripIndexed b fuel (i + 1) (out ++ [b.getD i ' ']) := by
  rw [stripIndexed, if_pos inside, List.getElem?_eq_getElem inside, Option.bind_some,
    indexPrefixStart_eq inside, indexRedirectEnd_eq inside, Option.bind_some, Option.bind_some,
    holdsAt, List.getElem?_eq_getElem inside, Option.any_some]
  have here : b.getD i ' ' = b[i] := by simp [inside]
  rw [here]

theorem stripIndexed_isSome (b : List Char) (fuel i : Nat) (out : List Char) :
    (stripIndexed b fuel i out).isSome := by
  induction fuel generalizing i out with
  | zero => rfl
  | succ fuel ih =>
    by_cases inside : i < b.length
    · rw [stripIndexed_round inside]
      split
      · split
        · exact ih _ _
        · exact ih _ _
      · exact ih _ _
    · rw [stripIndexed, if_neg inside]
      rfl

theorem stripIndexed_past (past : b.length ≤ i) (fuel : Nat)
    (out : List Char) : stripIndexed b fuel i out = some out := by
  cases fuel with
  | zero => rfl
  | succ fuel => rw [stripIndexed, if_neg (by omega)]

/-- More rounds than characters change nothing. -/
theorem stripIndexed_fuel {fuel fuel' : Nat} (enough : b.length ≤ i + fuel)
    (enough' : b.length ≤ i + fuel') (out : List Char) :
    stripIndexed b fuel i out = stripIndexed b fuel' i out := by
  have same := fuel_congr (stripIndexed b) (fun i => b.length - i)
    (fun i past fuel fuel' => ?_) (fun i fuel fuel' smaller => ?_)
    (Nat.sub_le_iff_le_add'.mpr enough) (Nat.sub_le_iff_le_add'.mpr enough')
  · exact congrFun same out
  · funext out
    rw [stripIndexed_past (by omega), stripIndexed_past (by omega)]
  · funext out
    by_cases inside : i < b.length
    · have goesOn : ∀ j, i < j → ∀ out', stripIndexed b fuel j out' = stripIndexed b fuel' j out' :=
        fun j later => congrFun (smaller j (by omega))
      rw [stripIndexed_round inside, stripIndexed_round inside, goesOn (i + 1) (by omega)]
      cases ends : redirectEnd b i with
      | none => rfl
      | some e =>
        dsimp only
        rw [goesOn e (lt_redirectEnd ends)]
    · rw [stripIndexed_past (by omega), stripIndexed_past (by omega)]

theorem stripIndexed_of_stripLoop {s : List Char} {fuel : Nat} {out stripped : List Char}
    (strip : stripLoop s (fun i => s.getD i ' ') ' ' fuel i out = some stripped) :
    stripIndexed s fuel i out = some stripped := by
  induction fuel generalizing i out with
  | zero => exact strip
  | succ fuel ih =>
    rw [stripLoop] at strip
    by_cases inside : i < s.length
    · rw [if_pos inside] at strip
      rw [stripIndexed_round inside]
      split at strip
      · rename_i op
        rw [if_pos op]
        cases ends : redirectEnd s i with
        | none =>
          rw [ends] at strip
          exact ih strip
        | some e =>
          rw [ends] at strip
          dsimp only at strip ⊢
          split at strip
          · cases strip
          · rename_i enough
            rw [truncateBack, if_neg enough]
            exact ih strip
      · rename_i plain
        rw [if_neg plain]
        exact ih strip
    · rw [if_neg inside] at strip
      rw [stripIndexed, if_neg inside]
      exact strip

/-- **The two builds**: the release build always goes through, and where the debug build does, with
the same text. -/
theorem strip_builds (s : List Char) : ∃ out, stripRelease s = some out ∧
    (stripFdRedirects s = none ∨ stripFdRedirects s = some out) := by
  obtain ⟨out, through⟩ := Option.isSome_iff_exists.mp (stripIndexed_isSome s s.length 0 [])
  refine ⟨out, through, ?_⟩
  cases strip : stripFdRedirects s with
  | none => exact .inl rfl
  | some stripped => exact .inr ((stripIndexed_of_stripLoop strip).symm.trans through)

/-! ## The guard -/

/-- `shell_unescape`, inside the quote given. -/
def shellUnescapeFrom : Option Char → List Char → List Char
  | _, [] => []
  | _, [c] => [c]
  | quote, c :: n :: rest =>
    if quote == some '\'' then
      c :: shellUnescapeFrom (if c == '\'' then none else quote) (n :: rest)
    else if c == '\\' && (quote.isNone || quotedEscape n) then
      (if n == '\n' then [] else [n]) ++ shellUnescapeFrom quote rest
    else if quote == some '"' && c == '"' then c :: shellUnescapeFrom none (n :: rest)
    else if quote.isNone && (c == '\'' || c == '"') then
      c :: shellUnescapeFrom (some c) (n :: rest)
    else c :: shellUnescapeFrom quote (n :: rest)

def shellUnescape (s : List Char) : List Char := shellUnescapeFrom none s

def homeDecision (home : Path) (caller : HookCaller) : HomeTarget → Option BashDecision
  | .state rest => some (.blockedHomeStateWrite caller.claimed (rest.foldl Path.joinText home))
  | target =>
    let agents := home.joinText agentsDir
    if caller.isUntrusted then some (.blockedUntrustedCaller caller.claimed agents)
    else
      match target with
      | .foreignAgentDir owner =>
        some (.blockedForeignAgentDir caller.claimed owner (agents.joinText owner))
      | .removedArea =>
        some (.blockedRemovedAgentArea caller.claimed (agents.joinText agentTrashDir))
      | _ => none

variable (real : Path → Option Path) (command : List Char)

def bashHomeStateWrite (positional : List Char) (home : Path)
    (caller : Option HookCaller) (cwd : Option Path) : Option (Option BashDecision) :=
  match caller with
  | none => some none
  | some caller =>
    let home := home.lexicalNormalize
    let ctx : Ctx := ⟨home, real home, toAsciiLowercase caller.claimed, caller.isUntrusted⟩
    let start := match cwd with
      | some dir => if dir.isAbsolute then some dir else none
      | none => some ((home.joinText agentsDir).joinText caller.claimed)
    (ctx.refusedTargets real positional start).map fun targets =>
      targets.head?.bind (homeDecision home caller)

def unescapedSpelling : Option (List Char) :=
  stripRelease (toAsciiLowercase (shellUnescape command))

def slashedSpelling : Option (List Char) :=
  stripRelease (command.map fun c => if c == '\\' then '/' else c.toLower)

def checkBashProtectedWriteIn (command : List Char) (home : Path)
    (caller : Option HookCaller) (cwd : Option Path) : Option BashDecision :=
  (unescapedSpelling command).bind fun unescaped =>
    (slashedSpelling command).bind fun slashed =>
      (textRules unescaped slashed home caller).bind fun d =>
        if d.isAllowed then
          (stripRelease command).bind fun positional =>
            (bashHomeStateWrite real positional home caller cwd).map (·.getD .notAgentFile)
        else some d

/-! ## When it answers -/

def refusedByText (home : Path) (caller : Option HookCaller) : Bool :=
  (textRules ((unescapedSpelling command).getD []) ((slashedSpelling command).getD []) home
    caller).any (!·.isAllowed)

def cutsSomeWord : Bool :=
  (segments (tokenize ((stripRelease command).getD []))).any fun seg => cutsSegment seg.words

theorem bashHomeStateWrite_eq_none_iff (positional : List Char)
    (home : Path) (caller : Option HookCaller) (cwd : Option Path) :
    bashHomeStateWrite real positional home caller cwd = none ↔ caller.isSome ∧
        ((segments (tokenize positional)).any fun seg => cutsSegment seg.words) = true := by
  cases caller with
  | none => simp [bashHomeStateWrite]
  | some caller =>
    simp only [bashHomeStateWrite, Ctx.refusedTargets, Option.map_eq_none_iff,
      judgements_eq_none_iff, Option.isSome_some, true_and]

/-- **When the guard answers**: there is no caller to judge, a rule on the text has already
blocked the command, or no word that is read as an option is cut. -/
theorem guard_answers_iff (real : Path → Option Path) (command : List Char) (home : Path)
    (caller : Option HookCaller) (cwd : Option Path) :
    (checkBashProtectedWriteIn real command home caller cwd).isSome ↔
      caller = none ∨ refusedByText command home caller = true ∨ cutsSomeWord command = false := by
  obtain ⟨unescaped, first⟩ := Option.isSome_iff_exists.mp
    (stripIndexed_isSome (toAsciiLowercase (shellUnescape command)) _ 0 [])
  obtain ⟨slashed, second⟩ := Option.isSome_iff_exists.mp
    (stripIndexed_isSome (command.map fun c => if c == '\\' then '/' else c.toLower) _ 0 [])
  obtain ⟨positional, third⟩ := Option.isSome_iff_exists.mp
    (stripIndexed_isSome command command.length 0 [])
  have spelledPlain : unescapedSpelling command = some unescaped := first
  have spelledSlashed : slashedSpelling command = some slashed := second
  have stripped : stripRelease command = some positional := third
  obtain ⟨d, answer⟩ := Option.isSome_iff_exists.mp
    (textRules_isSome unescaped slashed home caller)
  have last := bashHomeStateWrite_eq_none_iff real positional home caller cwd
  rw [checkBashProtectedWriteIn, refusedByText, cutsSomeWord, spelledPlain, spelledSlashed,
    stripped, Option.bind_some, Option.bind_some, Option.getD_some, Option.getD_some,
    Option.getD_some, answer, Option.bind_some, Option.any_some]
  cases d.isAllowed with
  | false => simp
  | true =>
    simp only [if_true, Option.bind_some, Option.isSome_map, Bool.not_true, Bool.false_eq_true, false_or]
    rw [← Option.ne_none_iff_isSome, ne_eq, last, not_and_or, Option.not_isSome_iff_eq_none, Bool.not_eq_true]

/-- A command of an employee on which the guard is stopped. -/
theorem nice_multibyte_stops : checkBashProtectedWriteIn some "nice 中".toList [.rootDir, .normal ['h']]
      (some (.agent ['a'])) none = none := by
  decide

end DuDuClaw.OrgFieldGuard
