/-
# Redaction.Scan -- the five token scanners are one scan

`rewrite_tokens` and `token_spans` (pipeline.rs), `extract_tokens_from_str` and
`replace_in_str` (egress.rs) and `scan_tokens` (locate.rs) are five copies of one
loop: find the next `<REDACT:`, find the next `>` after it, look at what is
between them, go on behind the `>`.  `scan` is that loop, and each scanner is it
with its own two callbacks.

What the loop recognises is stated without it: `visibleTokens s` lists, in order,
the well-formed tokens of `s` that no earlier, unterminated look-alike hides
(`Hidden`).

* `scanners_visible`: every scanner works on exactly `visibleTokens s`; in
  particular they agree with each other on every string.
* `recognisesAll_iff`: a scanner sees every well-formed token of `s` exactly when
  none of them is hidden.
-/
import DuDuClaw.Redaction.Token

namespace DuDuClaw.Redaction

open DuDuClaw.Lib

/-! ## The scanners -/

/-- The `while let Some(start) = rest.find(TOKEN_PREFIX)` loop.  `onText` is given
what is passed over, `onCandidate` every `<REDACT:...>` up to the first `>`.
Every iteration consumes a prefix, so the fuel `rest.length` suffices
(`segmentsAux_lexes`). -/
def scan {σ : Type} (onText onCandidate : σ → Text → σ) : Nat → σ → Text → σ
  | 0, st, rest => onText st rest
  | fuel + 1, st, rest =>
    match findSub tokenPrefix rest with
    | none => onText st rest
    | some start =>
      let fromStart := rest.drop start
      match findSub tokenSuffix fromStart with
      | none => onText (onText st (rest.take start)) fromStart
      | some endRel =>
        let len := endRel + tokenSuffix.length
        scan onText onCandidate fuel
          (onCandidate (onText st (rest.take start)) (fromStart.take len))
          (fromStart.drop len)

inductive TokenAction where
  /-- Keep the raw `<REDACT:...>` text. -/
  | keep
  /-- Replace the token with this string. -/
  | replace (plain : Text)

def TokenAction.render (tok : Token) : TokenAction → Text
  | .keep => tok.wire
  | .replace plain => plain

/-- `rewrite_tokens`.  The `FnMut` closure is a function on its captured state. -/
def rewriteTokens {σ : Type} (decide : σ → Token → σ × TokenAction) (st : σ) (text : Text) :
    σ × Text :=
  scan (fun acc t => (acc.1, acc.2 ++ t))
    (fun acc candidate =>
      match Token.parse candidate with
      | some tok =>
        let (st, action) := decide acc.1 tok
        (st, acc.2 ++ action.render tok)
      | none => (acc.1, acc.2 ++ candidate))
    text.length (st, []) text

/-- `token_spans`: byte ranges of the tokens already present in `text`. -/
def tokenSpans (text : Text) : List (Nat × Nat) :=
  (scan (fun acc t => (acc.1 + t.length, acc.2))
    (fun acc candidate =>
      (acc.1 + candidate.length,
        match Token.parse candidate with
        | some _ => acc.2 ++ [(acc.1, acc.1 + candidate.length)]
        | none => acc.2))
    text.length (0, []) text).2

def extractTokensFromStr (s : Text) : List Token :=
  scan (fun acc _ => acc)
    (fun acc candidate =>
      match Token.parse candidate with
      | some tok => acc ++ [tok]
      | none => acc)
    s.length [] s

/-- `replace_in_str`: `replaceFn` answers `none` to leave a token in place. -/
def replaceInStr {σ : Type} (replaceFn : σ → Token → σ × Option Text) (st : σ) (s : Text) :
    σ × Text :=
  scan (fun acc t => (acc.1, acc.2 ++ t))
    (fun acc candidate =>
      match Token.parse candidate with
      | some tok =>
        match replaceFn acc.1 tok with
        | (st, some plain) => (st, acc.2 ++ plain)
        | (st, none) => (st, acc.2 ++ candidate)
      | none => (acc.1, acc.2 ++ candidate))
    s.length (st, []) s

def scanTokens (s : Text) : List Text :=
  scan (fun acc _ => acc)
    (fun acc candidate =>
      match Token.parse candidate with
      | some _ => acc ++ [candidate]
      | none => acc)
    s.length [] s

/-! ## What there is to recognise -/

/-- The token that starts at `p`: everything up to the next `>`, when it parses. -/
def tokenAt (s : Text) (p : Nat) : Option Token :=
  match findSub tokenSuffix (s.drop p) with
  | some endRel => Token.parse ((s.drop p).take (endRel + tokenSuffix.length))
  | none => none

/-- The well-formed tokens of `s`, in order. -/
def occurrences (s : Text) : List (Nat × Token) :=
  (List.range s.length).filterMap fun p => (tokenAt s p).map (Prod.mk p)

/-- Position `p` lies behind a `<REDACT:` that no `>` has closed since. -/
def Hidden (s : Text) (p : Nat) : Prop :=
  ∃ q < p, tokenPrefix <+: s.drop q ∧ ∀ r < p, q ≤ r → s[r]? ≠ some gtByte

instance (s : Text) (p : Nat) : Decidable (Hidden s p) :=
  inferInstanceAs (Decidable (∃ q < p, _ ∧ _))

/-- The tokens of `s` that are not hidden. -/
def visibleTokens (s : Text) : List (Nat × Token) :=
  (List.range s.length).filterMap fun p =>
    if Hidden s p then none else (tokenAt s p).map (Prod.mk p)

/-- Rewriting at given tokens: everything else is copied. -/
def rewriteAt {σ : Type} (decide : σ → Token → σ × TokenAction) (s : Text) :
    σ → Nat → List (Nat × Token) → σ × Text
  | st, cursor, [] => (st, s.drop cursor)
  | st, cursor, (p, tok) :: rest =>
    let (st, action) := decide st tok
    let (st, out) := rewriteAt decide s st (p + tok.wire.length) rest
    (st, (s.drop cursor).take (p - cursor) ++ action.render tok ++ out)

/-- `TokenAction` of a `replace_fn`. -/
def actionOf : Option Text → TokenAction
  | some plain => .replace plain
  | none => .keep

variable {s : Text} {p : Nat} {tok : Token} {β : Type}

theorem findSub_wire (tok : Token) (rest : Text) :
    findSub tokenSuffix (tok.wire ++ rest) = some (tok.wire.length - 1) := by
  obtain ⟨body, eq, -, noGt⟩ := tok.wire_shape
  have length : tok.wire.length - 1 = (tokenPrefix ++ body).length := by
    rw [eq, List.length_append, List.length_append]
    exact Nat.add_sub_cancel _ 1
  rw [findSub_eq_some_iff, length, eq, List.append_assoc]
  constructor
  · rw [List.drop_left]
    exact List.prefix_append _ _
  · intro j before
    rw [tokenSuffix, singleton_occurs_iff, List.getElem?_append_left before]
    intro found
    have member := List.mem_of_getElem? found
    rcases List.mem_append.mp member with h | h
    · revert h; decide
    · exact noGt h

theorem wire_length_pos (tok : Token) : 0 < tok.wire.length := by
  obtain ⟨body, eq, -, -⟩ := tok.wire_shape
  rw [eq]
  simp only [tokenSuffix, List.length_append, List.length_singleton]
  omega

/-- A token occurs at `p` exactly when its wire string does. -/
theorem tokenAt_eq_some_iff : tokenAt s p = some tok ↔ tok.wire <+: s.drop p := by
  constructor
  · intro found
    simp only [tokenAt] at found
    split at found
    · rw [Token.parse_eq_some_iff] at found
      rw [found]
      exact List.take_prefix _ _
    · cases found
  · rintro ⟨rest, eq⟩
    have pos := wire_length_pos tok
    simp only [tokenAt, ← eq, findSub_wire]
    rw [Token.parse_eq_some_iff, tokenSuffix, List.length_singleton, Nat.sub_add_cancel pos, List.take_left]

theorem prefix_of_wire (occurs : tok.wire <+: s.drop p) : tokenPrefix <+: s.drop p := by
  obtain ⟨body, eq, -, -⟩ := tok.wire_shape
  refine List.IsPrefix.trans ⟨body ++ tokenSuffix, ?_⟩ occurs
  rw [eq, List.append_assoc]

/-! ## What the loop cuts a text into -/

inductive Segment where
  | text (t : Text)
  | candidate (c : Text)

def Segment.bytes : Segment → Text
  | .text t => t
  | .candidate c => c

/-- The segments `scan` visits. -/
def segmentsAux : Nat → Text → List Segment
  | 0, rest => [.text rest]
  | fuel + 1, rest =>
    match findSub tokenPrefix rest with
    | none => [.text rest]
    | some start =>
      match findSub tokenSuffix (rest.drop start) with
      | none => [.text (rest.take start), .text (rest.drop start)]
      | some endRel =>
        .text (rest.take start) ::
          .candidate ((rest.drop start).take (endRel + tokenSuffix.length)) ::
          segmentsAux fuel ((rest.drop start).drop (endRel + tokenSuffix.length))

def segments (s : Text) : List Segment := segmentsAux s.length s

theorem scan_eq_foldl {σ : Type} (onText onCandidate : σ → Text → σ) (fuel : Nat) (st : σ) (s : Text) :
    scan onText onCandidate fuel st s = (segmentsAux fuel s).foldl (fun st seg =>
        match seg with
        | .text t => onText st t
        | .candidate c => onCandidate st c) st := by
  induction fuel generalizing st s with
  | zero => rfl
  | succ fuel ih =>
    simp only [scan, segmentsAux]
    split
    · rfl
    split
    · rfl
    · rw [ih]
      rfl

inductive Lexes : Text → List Segment → Prop
  | plain {s : Text} (none : ∀ i, ¬ tokenPrefix <+: s.drop i) : Lexes s [.text s]
  | unterminated {before opened : Text}
      (first : ∀ i < before.length, ¬ tokenPrefix <+: (before ++ opened).drop i)
      (isPrefix : tokenPrefix <+: opened) (noGt : gtByte ∉ opened) :
      Lexes (before ++ opened) [.text before, .text opened]
  | candidate {before inner rest : Text} {segs : List Segment}
      (first : ∀ i < before.length, ¬ tokenPrefix <+: (before ++ (inner ++ gtByte :: rest)).drop i)
      (isPrefix : tokenPrefix <+: inner ++ gtByte :: rest) (noGt : gtByte ∉ inner)
      (tail : Lexes rest segs) :
      Lexes (before ++ (inner ++ gtByte :: rest))
        (.text before :: .candidate (inner ++ [gtByte]) :: segs)

theorem not_mem_of_findSub_none (none : findSub tokenSuffix s = none) : gtByte ∉ s := by
  intro member
  obtain ⟨i, found⟩ := List.getElem?_of_mem member
  exact findSub_eq_none_iff.mp none i (singleton_occurs_iff.mpr found)

/-- The first `>` splits its text. -/
theorem split_of_findSub {i : Nat} (found : findSub tokenSuffix s = some i) :
    ∃ inner rest, s = inner ++ gtByte :: rest ∧ inner.length = i ∧ gtByte ∉ inner := by
  obtain ⟨occurs, least⟩ := findSub_eq_some_iff.mp found
  have at_i : s[i]? = some gtByte := singleton_occurs_iff.mp occurs
  obtain ⟨short, eq⟩ := List.getElem?_eq_some_iff.mp at_i
  refine ⟨s.take i, s.drop (i + 1), ?_, by simp [Nat.le_of_lt short], ?_⟩
  · rw [← eq, List.getElem_cons_drop, List.take_append_drop]
  · intro member
    obtain ⟨j, found_j⟩ := List.getElem?_of_mem member
    have before : j < i := by
      have := (List.getElem?_eq_some_iff.mp found_j).1
      rw [List.length_take] at this
      omega
    rw [List.getElem?_take_of_lt before] at found_j
    exact least j before (singleton_occurs_iff.mpr found_j)

theorem segmentsAux_lexes (fuel : Nat) (s : Text) (enough : s.length ≤ fuel) :
    Lexes s (segmentsAux fuel s) := by
  induction fuel generalizing s with
  | zero =>
    obtain rfl : s = [] := List.length_eq_zero_iff.mp (by omega)
    exact .plain (by simp [tokenPrefix])
  | succ fuel ih =>
    simp only [segmentsAux]
    split
    · rename_i none
      exact .plain (findSub_eq_none_iff.mp none)
    rename_i start found
    obtain ⟨occurs, least⟩ := findSub_eq_some_iff.mp found
    have inside := lt_length_of_occurs (by simp [tokenPrefix]) occurs
    have startLength : (s.take start).length = start := by
      rw [List.length_take]; omega
    have whole : s.take start ++ s.drop start = s := List.take_append_drop _ _
    split
    · rename_i noEnd
      have lexed := @Lexes.unterminated (s.take start) (s.drop start)
        (by rw [whole, startLength]; exact least) occurs (not_mem_of_findSub_none noEnd)
      rwa [whole] at lexed
    rename_i endRel ends
    obtain ⟨inner, rest, eq, rfl, noGt⟩ := split_of_findSub ends
    have shorter : rest.length ≤ fuel := by
      have := congrArg List.length eq
      rw [List.length_drop, List.length_append, List.length_cons] at this
      omega
    have lexed := @Lexes.candidate (s.take start) inner rest _
      (by rw [← eq, whole, startLength]; exact least) (eq ▸ occurs) noGt (ih rest shorter)
    rw [← eq, whole] at lexed
    have candidateEq : (s.drop start).take (inner.length + tokenSuffix.length) =
        inner ++ [gtByte] := by
      rw [eq, tokenSuffix, List.length_singleton, List.take_length_add_append]
      rfl
    have restEq : (s.drop start).drop (inner.length + tokenSuffix.length) = rest := by
      rw [eq, tokenSuffix, List.length_singleton, List.drop_length_add_append]
      rfl
    rw [candidateEq, restEq]
    exact lexed

theorem segments_lexes (s : Text) : Lexes s (segments s) :=
  segmentsAux_lexes _ s (Nat.le_refl _)

theorem Lexes.flatten {segs : List Segment} (lexed : Lexes s segs) : segs.flatMap Segment.bytes = s := by
  induction lexed with
  | plain none | unterminated first isPrefix noGt => simp [Segment.bytes]
  | candidate first isPrefix noGt tail ih => simp [Segment.bytes, ih]

/-! ## Which tokens the loop meets -/

def found : Nat → List Segment → List (Nat × Token)
  | _, [] => []
  | off, .text t :: segs => found (off + t.length) segs
  | off, .candidate c :: segs =>
    match Token.parse c with
    | some tok => (off, tok) :: found (off + c.length) segs
    | none => found (off + c.length) segs

def visibleAt (off : Nat) (s : Text) (p : Nat) : Option (Nat × Token) :=
  if Hidden s p then none else (tokenAt s p).map (Prod.mk (off + p))

/-- The visible tokens of `s`, with their offsets counted from `off`. -/
def visibleFrom (off : Nat) (s : Text) : List (Nat × Token) :=
  (List.range s.length).filterMap (visibleAt off s)

theorem visibleFrom_zero (s : Text) : visibleFrom 0 s = visibleTokens s := by
  unfold visibleFrom visibleTokens
  congr 1
  funext p
  rw [visibleAt, Nat.zero_add]

theorem filterMap_range_add (f : Nat → Option β) (m n : Nat) : (List.range (m + n)).filterMap f =
      (List.range m).filterMap f ++ (List.range n).filterMap fun p => f (m + p) := by
  rw [List.range_add, List.filterMap_append, List.filterMap_map]
  rfl

theorem filterMap_range_eq_nil {f : Nat → Option β} {n : Nat}
    (absent : ∀ p < n, f p = none) : (List.range n).filterMap f = [] := by
  rw [List.filterMap_eq_nil_iff]
  exact fun p member => absent p (List.mem_range.mp member)

theorem tokenAt_eq_none_of_noPrefix (absent : ¬ tokenPrefix <+: s.drop p) : tokenAt s p = none := by
  cases at_p : tokenAt s p with
  | none => rfl
  | some tok => exact absurd (prefix_of_wire (tokenAt_eq_some_iff.mp at_p)) absent

/-- A token needs its closing `>`. -/
theorem tokenAt_eq_none_of_noGt (absent : gtByte ∉ s.drop p) : tokenAt s p = none := by
  cases at_p : tokenAt s p with
  | none => rfl
  | some tok =>
    obtain ⟨body, eq, -, -⟩ := tok.wire_shape
    have member : gtByte ∈ tok.wire := by rw [eq]; simp [tokenSuffix]
    exact absurd ((tokenAt_eq_some_iff.mp at_p).mem member) absent

theorem visibleFrom_eq_nil (absent : ∀ p, tokenAt s p = none) (off : Nat) : visibleFrom off s = [] :=
  filterMap_range_eq_nil fun p _ => by simp [visibleAt, absent]

section Candidate

variable {before inner rest : Text}

theorem drop_append_candidate (p : Nat) :
    (before ++ (inner ++ gtByte :: rest)).drop (before.length + (inner.length + 1) + p) = rest.drop p := by
  rw [Nat.add_assoc, List.drop_length_add_append, Nat.add_assoc, List.drop_length_add_append,
    Nat.add_comm, List.drop_succ_cons]

theorem getElem?_append_candidate (p : Nat) :
    (before ++ (inner ++ gtByte :: rest))[before.length + (inner.length + 1) + p]? = rest[p]? := by
  rw [← Nat.add_zero (before.length + (inner.length + 1) + p), ← List.getElem?_drop,
    drop_append_candidate, List.getElem?_drop, Nat.add_zero]

theorem tokenAt_append_candidate (p : Nat) :
    tokenAt (before ++ (inner ++ gtByte :: rest)) (before.length + (inner.length + 1) + p) =
      tokenAt rest p := by
  simp only [tokenAt, drop_append_candidate]

/-- The `>` of a candidate closes everything before it. -/
theorem hidden_append_candidate (p : Nat) :
    Hidden (before ++ (inner ++ gtByte :: rest)) (before.length + (inner.length + 1) + p) ↔ Hidden rest p := by
  have closing : (before ++ (inner ++ gtByte :: rest))[before.length + inner.length]? =
      some gtByte := by
    simp
  constructor
  · rintro ⟨q, qp, opens, open_⟩
    have behind : before.length + (inner.length + 1) ≤ q := by
      by_contra inFront
      exact open_ (before.length + inner.length) (by omega) (by omega) closing
    obtain ⟨q, rfl⟩ := Nat.exists_eq_add_of_le behind
    rw [drop_append_candidate] at opens
    refine ⟨q, by omega, opens, fun r rp qr => ?_⟩
    have := open_ (before.length + (inner.length + 1) + r) (by omega) (by omega)
    rwa [getElem?_append_candidate] at this
  · rintro ⟨q, qp, opens, open_⟩
    refine ⟨before.length + (inner.length + 1) + q, by omega, by rwa [drop_append_candidate], fun r rp qr => ?_⟩
    obtain ⟨r, rfl⟩ := Nat.exists_eq_add_of_le (show before.length + (inner.length + 1) ≤ r by omega)
    rw [getElem?_append_candidate]
    exact open_ r (by omega) (by omega)

variable (first : ∀ i < before.length, ¬ tokenPrefix <+: (before ++ (inner ++ gtByte :: rest)).drop i)
  (isPrefix : tokenPrefix <+: inner ++ gtByte :: rest) (noGt : gtByte ∉ inner)

include first in
theorem not_hidden_first : ¬ Hidden (before ++ (inner ++ gtByte :: rest)) before.length := by
  rintro ⟨q, qp, opens, -⟩
  exact first q qp opens

include noGt in
theorem tokenAt_first : tokenAt (before ++ (inner ++ gtByte :: rest)) before.length =
      Token.parse (inner ++ [gtByte]) := by
  have ends : findSub tokenSuffix (inner ++ gtByte :: rest) = some inner.length := by
    rw [findSub_eq_some_iff]
    constructor
    · rw [List.drop_left]
      exact ⟨rest, rfl⟩
    · intro j short occurs
      rw [tokenSuffix, singleton_occurs_iff, List.getElem?_append_left short] at occurs
      exact noGt (List.mem_of_getElem? occurs)
  rw [tokenAt, List.drop_left, ends]
  dsimp only
  rw [tokenSuffix, List.length_singleton, List.take_length_add_append]
  rfl

include isPrefix noGt in
theorem hidden_inside {p : Nat} (after : before.length < p) (inside : p < before.length + (inner.length + 1)) :
    Hidden (before ++ (inner ++ gtByte :: rest)) p := by
  refine ⟨before.length, after, by rwa [List.drop_left], fun r rp from_ => ?_⟩
  rw [List.getElem?_append_right from_, List.getElem?_append_left (by omega)]
  intro at_r
  exact noGt (List.mem_of_getElem? at_r)

end Candidate

variable {s : Text} {segs : List Segment} {σ : Type} {p : Nat} {tok : Token}

/-- The loop meets exactly the visible tokens, in order. -/
theorem found_eq_visibleFrom (lexed : Lexes s segs) (off : Nat) : found off segs = visibleFrom off s := by
  induction lexed generalizing off with
  | plain none =>
    exact (visibleFrom_eq_nil (fun p => tokenAt_eq_none_of_noPrefix (none p)) off).symm
  | @unterminated before opened first isPrefix noGt =>
    refine (visibleFrom_eq_nil (fun p => ?_) off).symm
    by_cases early : p < before.length
    · exact tokenAt_eq_none_of_noPrefix (first p early)
    · apply tokenAt_eq_none_of_noGt
      rw [List.drop_append, List.drop_eq_nil_of_le (by omega), List.nil_append]
      exact fun member => noGt (List.mem_of_mem_drop member)
  | @candidate before inner rest segs first isPrefix noGt tail ih =>
    -- cut the positions at the candidate: before it, its start, inside it, behind it
    have length : (before ++ (inner ++ gtByte :: rest)).length =
        before.length + (1 + inner.length + rest.length) := by
      simp only [List.length_append, List.length_cons]; omega
    have inFront : ∀ p < before.length, visibleAt off (before ++ (inner ++ gtByte :: rest)) p = none := by
      intro p early
      simp [visibleAt, tokenAt_eq_none_of_noPrefix (first p early)]
    have inside : ∀ p < inner.length,
        visibleAt off (before ++ (inner ++ gtByte :: rest)) (before.length + (1 + p)) = none := by
      intro p short
      exact if_pos (hidden_inside isPrefix noGt (by omega) (by omega))
    have behind : (fun p => visibleAt off (before ++ (inner ++ gtByte :: rest))
        (before.length + (1 + inner.length + p))) =
        visibleAt (off + before.length + (inner ++ [gtByte]).length) rest := by
      funext p
      have at_p : before.length + (1 + inner.length + p) =
          before.length + (inner.length + 1) + p := by omega
      simp only [visibleAt, at_p, hidden_append_candidate, tokenAt_append_candidate,
        List.length_append, List.length_singleton]
      rw [show off + (before.length + (inner.length + 1) + p) =
        off + before.length + (inner.length + 1) + p by omega]
    have start : visibleAt off (before ++ (inner ++ gtByte :: rest)) before.length =
        (Token.parse (inner ++ [gtByte])).map (Prod.mk (off + before.length)) := by
      rw [visibleAt, if_neg (not_hidden_first first), tokenAt_first noGt]
    rw [visibleFrom, length, filterMap_range_add, filterMap_range_eq_nil inFront,
      filterMap_range_add, filterMap_range_add, filterMap_range_eq_nil inside, behind,
      List.range_one, List.filterMap_cons, List.filterMap_nil, Nat.add_zero, start]
    simp only [found, List.nil_append, List.append_nil, ih]
    cases Token.parse (inner ++ [gtByte]) <;> rfl

theorem found_segments (s : Text) : found 0 (segments s) = visibleTokens s := by
  rw [found_eq_visibleFrom (segments_lexes s), visibleFrom_zero]

/-! ## Every scanner works on the visible tokens -/

theorem foldl_tokenSpans (segs : List Segment) (off : Nat) (spans : List (Nat × Nat)) :
    (segs.foldl (fun (acc : Nat × List (Nat × Nat)) seg =>
      match seg with
      | .text t => (acc.1 + t.length, acc.2)
      | .candidate c =>
        (acc.1 + c.length, match Token.parse c with
          | some _ => acc.2 ++ [(acc.1, acc.1 + c.length)]
          | none => acc.2)) (off, spans)).2 =
      spans ++ (found off segs).map fun (p, tok) => (p, p + tok.wire.length) := by
  induction segs generalizing off spans with
  | nil => simp [found]
  | cons seg segs ih =>
    cases seg with
    | text t => exact ih (off + t.length) spans
    | candidate c =>
      cases parsed : Token.parse c with
      | none => simp only [List.foldl_cons, parsed, found, ih]
      | some tok =>
        obtain rfl := Token.parse_eq_some_iff.mp parsed
        simp only [List.foldl_cons, parsed, found, ih, List.map_cons, List.append_assoc, List.singleton_append]

/-- `token_spans` lists the visible tokens. -/
theorem tokenSpans_eq (s : Text) :
    tokenSpans s = (visibleTokens s).map fun (p, tok) => (p, p + tok.wire.length) := by
  rw [tokenSpans, scan_eq_foldl, foldl_tokenSpans, List.nil_append, ← found_segments]
  rfl

theorem foldl_collect {β : Type} (view : Token → β) (segs : List Segment) (off : Nat) (acc : List β) :
    segs.foldl (fun acc seg =>
      match seg with
      | .text _ => acc
      | .candidate c =>
        match Token.parse c with
        | some tok => acc ++ [view tok]
        | none => acc) acc =
      acc ++ (found off segs).map fun (_, tok) => view tok := by
  induction segs generalizing off acc with
  | nil => simp [found]
  | cons seg segs ih =>
    cases seg with
    | text t => exact ih (off + t.length) acc
    | candidate c =>
      cases parsed : Token.parse c with
      | none => simp only [List.foldl_cons, parsed, found, ih (off + c.length)]
      | some tok =>
        simp only [List.foldl_cons, parsed, found, ih (off + c.length), List.map_cons,
          List.append_assoc, List.singleton_append]

/-- `extract_tokens_from_str` lists the visible tokens. -/
theorem extractTokensFromStr_eq (s : Text) : extractTokensFromStr s = (visibleTokens s).map Prod.snd := by
  rw [extractTokensFromStr, scan_eq_foldl, ← found_segments]
  exact foldl_collect id (segments s) 0 []

/-- `scan_tokens` lists the visible tokens. -/
theorem scanTokens_eq (s : Text) : scanTokens s = (visibleTokens s).map fun (_, tok) => tok.wire := by
  have step : (fun (acc : List Text) candidate =>
      match Token.parse candidate with
      | some _ => acc ++ [candidate]
      | none => acc) =
      (fun acc candidate =>
        match Token.parse candidate with
        | some tok => acc ++ [tok.wire]
        | none => acc) := by
    funext acc candidate
    cases parsed : Token.parse candidate with
    | none => rfl
    | some tok => simp only [Token.parse_eq_some_iff.mp parsed]
  rw [scanTokens, step, scan_eq_foldl, ← found_segments]
  exact foldl_collect Token.wire (segments s) 0 []

/-- What `rewrite_tokens` does with one segment. -/
def rewriteStep {σ : Type} (decide : σ → Token → σ × TokenAction) (acc : σ × Text) :
    Segment → σ × Text
  | .text t => (acc.1, acc.2 ++ t)
  | .candidate c =>
    match Token.parse c with
    | some tok => ((decide acc.1 tok).1, acc.2 ++ (decide acc.1 tok).2.render tok)
    | none => (acc.1, acc.2 ++ c)

/-- Copying text since `cursor`, rewriting at the tokens. -/
theorem foldl_rewrite (decide : σ → Token → σ × TokenAction) (s : Text)
    (segs : List Segment) (st : σ) (cursor off : Nat) (out : Text) (behind : cursor ≤ off)
    (whole : s.drop off = segs.flatMap Segment.bytes) :
    segs.foldl (rewriteStep decide) (st, out ++ (s.drop cursor).take (off - cursor)) =
      ((rewriteAt decide s st cursor (found off segs)).1,
        out ++ (rewriteAt decide s st cursor (found off segs)).2) := by
  induction segs generalizing st cursor off out with
  | nil =>
    have copied : (s.drop cursor).take (off - cursor) = s.drop cursor := by
      have tail : (s.drop cursor).drop (off - cursor) = [] := by
        rw [List.drop_drop, Nat.add_sub_cancel' behind, whole]
        rfl
      have all := List.take_append_drop (off - cursor) (s.drop cursor)
      rwa [tail, List.append_nil] at all
    simp only [List.foldl_nil, found, rewriteAt, copied]
  | cons seg segs ih =>
    have copied (bytes : Text) (eq : s.drop off = bytes ++ segs.flatMap Segment.bytes) :
        (s.drop cursor).take (off - cursor) ++ bytes =
          (s.drop cursor).take (off + bytes.length - cursor) := by
      rw [show off + bytes.length - cursor = (off - cursor) + bytes.length by omega,
        List.take_add, List.drop_drop, Nat.add_sub_cancel' behind, eq, List.take_left]
    have next (bytes : Text) (eq : s.drop off = bytes ++ segs.flatMap Segment.bytes) :
        s.drop (off + bytes.length) = segs.flatMap Segment.bytes := by
      rw [← List.drop_drop, eq, List.drop_left]
    cases seg with
    | text t =>
      have whole' : s.drop off = t ++ segs.flatMap Segment.bytes := whole
      simp only [List.foldl_cons, rewriteStep, found, List.append_assoc, copied t whole']
      exact ih st cursor (off + t.length) out (by omega) (next t whole')
    | candidate c =>
      have whole' : s.drop off = c ++ segs.flatMap Segment.bytes := whole
      cases parsed : Token.parse c with
      | none =>
        simp only [List.foldl_cons, rewriteStep, parsed, found, List.append_assoc, copied c whole']
        exact ih st cursor (off + c.length) out (by omega) (next c whole')
      | some tok =>
        obtain rfl := Token.parse_eq_some_iff.mp parsed
        simp only [List.foldl_cons, rewriteStep, parsed, found, rewriteAt]
        have step := ih (decide st tok).1 (off + tok.wire.length) (off + tok.wire.length)
          (out ++ (s.drop cursor).take (off - cursor) ++ (decide st tok).2.render tok)
          (Nat.le_refl _) (next tok.wire whole')
        rw [Nat.sub_self, List.take_zero, List.append_nil] at step
        rw [step]
        simp only [List.append_assoc]

theorem rewriteTokens_eq_foldl (decide : σ → Token → σ × TokenAction) (st : σ)
    (s : Text) : rewriteTokens decide st s = (segments s).foldl (rewriteStep decide) (st, []) := by
  rw [rewriteTokens, scan_eq_foldl]
  rfl

/-- `rewrite_tokens` rewrites at the visible tokens and copies the rest. -/
theorem rewriteTokens_eq (decide : σ → Token → σ × TokenAction) (st : σ) (s : Text) :
    rewriteTokens decide st s = rewriteAt decide s st 0 (visibleTokens s) := by
  rw [rewriteTokens_eq_foldl, ← found_segments]
  exact foldl_rewrite decide s (segments s) st 0 0 [] (Nat.le_refl _)
    (segments_lexes s).flatten.symm

theorem rewriteTokens_of_lexes (decide : σ → Token → σ × TokenAction) (st : σ) (lexed : Lexes s segs) :
    rewriteTokens decide st s = segs.foldl (rewriteStep decide) (st, []) := by
  rw [rewriteTokens_eq, ← visibleFrom_zero, ← found_eq_visibleFrom lexed]
  exact (foldl_rewrite decide s segs st 0 0 [] (Nat.le_refl _) lexed.flatten.symm).symm

/-- `replace_in_str` is `rewrite_tokens`, with `None` for `Keep`. -/
theorem replaceInStr_eq_rewriteTokens (replaceFn : σ → Token → σ × Option Text) (st : σ) (s : Text) :
    replaceInStr replaceFn st s =
      rewriteTokens (fun st tok => ((replaceFn st tok).1, actionOf (replaceFn st tok).2)) st s := by
  rw [replaceInStr, rewriteTokens]
  congr 1
  funext acc candidate
  cases parsed : Token.parse candidate with
  | none => rfl
  | some tok =>
    obtain rfl := Token.parse_eq_some_iff.mp parsed
    dsimp only
    cases replaceFn acc.1 tok with
    | mk st answer => cases answer <;> rfl

/-- All five scanners recognise exactly the tokens listed in `tokens`. -/
structure Recognises (s : Text) (tokens : List (Nat × Token)) : Prop where
  spans : tokenSpans s = tokens.map fun (p, tok) => (p, p + tok.wire.length)
  extracted : extractTokensFromStr s = tokens.map Prod.snd
  scanned : scanTokens s = tokens.map fun (_, tok) => tok.wire
  rewritten : ∀ {σ : Type} (decide : σ → Token → σ × TokenAction) (st : σ),
    rewriteTokens decide st s = rewriteAt decide s st 0 tokens
  replaced : ∀ {σ : Type} (replaceFn : σ → Token → σ × Option Text) (st : σ),
    replaceInStr replaceFn st s = rewriteAt
      (fun st tok => ((replaceFn st tok).1, actionOf (replaceFn st tok).2)) s st 0 tokens

/-- **The scanners agree.**  On every string each of them works on the visible
tokens. -/
theorem scanners_visible (s : Text) : Recognises s (visibleTokens s) where
  spans := tokenSpans_eq s
  extracted := extractTokensFromStr_eq s
  scanned := scanTokens_eq s
  rewritten decide st := rewriteTokens_eq decide st s
  replaced replaceFn st := by rw [replaceInStr_eq_rewriteTokens, rewriteTokens_eq]

/-! ## Completeness -/

theorem mem_occurrences : (p, tok) ∈ occurrences s ↔ tok.wire <+: s.drop p := by
  simp only [occurrences, List.mem_filterMap, List.mem_range, Option.map_eq_some_iff, Prod.mk.injEq]
  constructor
  · rintro ⟨q, -, t, at_q, rfl, rfl⟩
    exact tokenAt_eq_some_iff.mp at_q
  · intro occurs
    have inside := lt_length_of_occurs (List.ne_nil_of_length_pos (wire_length_pos tok)) occurs
    exact ⟨p, inside, tok, tokenAt_eq_some_iff.mpr occurs, rfl, rfl⟩

theorem mem_visibleTokens : (p, tok) ∈ visibleTokens s ↔ tok.wire <+: s.drop p ∧ ¬ Hidden s p := by
  rw [← mem_occurrences]
  simp only [visibleTokens, occurrences, List.mem_filterMap, List.mem_range]
  constructor
  · rintro ⟨q, inside, found⟩
    split at found
    · cases found
    rename_i visible
    have same : q = p := by
      obtain ⟨t, -, eq⟩ := Option.map_eq_some_iff.mp found
      exact (Prod.mk.inj eq).1
    exact ⟨⟨q, inside, found⟩, same ▸ visible⟩
  · rintro ⟨⟨q, inside, found⟩, visible⟩
    have same : q = p := by
      obtain ⟨t, -, eq⟩ := Option.map_eq_some_iff.mp found
      exact (Prod.mk.inj eq).1
    exact ⟨q, inside, by rwa [if_neg (same ▸ visible)]⟩

/-- **Completeness, exactly.**  Every scanner recognises every well-formed token
of `s`, and nothing else, if and only if no well-formed token of `s` lies behind
a `<REDACT:` that is still open. -/
theorem recognisesAll_iff (s : Text) : Recognises s (occurrences s) ↔
      ∀ (p : Nat) (tok : Token), tok.wire <+: s.drop p → ¬ Hidden s p := by
  constructor
  · intro complete p tok occurs
    have spans := complete.spans
    rw [tokenSpans_eq] at spans
    have listed : (p, p + tok.wire.length) ∈ (occurrences s).map fun (p, tok) => (p, p + tok.wire.length) :=
      List.mem_map.mpr ⟨(p, tok), mem_occurrences.mpr occurs, rfl⟩
    rw [← spans, List.mem_map] at listed
    obtain ⟨⟨q, t⟩, visible, eq⟩ := listed
    obtain ⟨rfl, -⟩ := Prod.mk.inj eq
    exact (mem_visibleTokens.mp visible).2
  · intro noneHidden
    have same : visibleTokens s = occurrences s := by
      apply List.filterMap_congr
      intro p _
      cases at_p : tokenAt s p with
      | none => simp
      | some tok => rw [if_neg (noneHidden p tok (tokenAt_eq_some_iff.mp at_p))]
    rw [← same]
    exact scanners_visible s

/-- A sample token, `<REDACT:A:00...0>`. -/
def sampleToken : Token :=
  ⟨wireOf [0x41] (List.replicate 32 0x30), by decide⟩

/-- `<REDACT:` and a blank, then a well-formed token. -/
def lookAlikeThenToken : Text := tokenPrefix ++ [0x20] ++ sampleToken.wire

/-- The token behind an unterminated look-alike is seen by no scanner. -/
theorem scanners_miss_lookAlike :
    sampleToken.wire <+: lookAlikeThenToken.drop 9 ∧ tokenSpans lookAlikeThenToken = [] ∧
      extractTokensFromStr lookAlikeThenToken = [] ∧ scanTokens lookAlikeThenToken = [] ∧
      ¬ Recognises lookAlikeThenToken (occurrences lookAlikeThenToken) := by
  have missed : tokenSpans lookAlikeThenToken = [] := by decide
  have present : sampleToken.wire <+: lookAlikeThenToken.drop 9 := by decide
  refine ⟨present, missed, by decide, by decide, fun complete => ?_⟩
  have spans := complete.spans
  rw [missed] at spans
  have none := List.map_eq_nil_iff.mp spans.symm
  have listed := mem_occurrences.mpr present
  rw [none] at listed
  cases listed

end DuDuClaw.Redaction
