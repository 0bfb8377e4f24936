/-
# Redaction.RoundTrip -- restore undoes redact

For a text without `<REDACT:`, restoring what `redact` wrote gives the text back
byte for byte.  The proof follows the data:

* `splice_original`: replacing every match by its own original changes nothing;
* `splice_lexes`: the scanner cuts the redacted text at exactly the minted
  tokens, since neither the gaps nor their seams with a token open a `<REDACT:`;
* `Minted`: what the vault holds after the splice loop, and `Minted.served`: the
  lookup of every minted token finds its value, whichever row SQLite picks;
* `restore_redact`: the round trip.
-/
import DuDuClaw.Redaction.Pipeline

namespace DuDuClaw.Redaction

open DuDuClaw.Lib

/-! ## Splicing -/

/-- The spans are in text order behind `cursor`. -/
def Ordered (text : Text) : Nat → List MatchedSpan → Prop
  | cursor, [] => cursor ≤ text.length
  | cursor, m :: ms => cursor ≤ m.span.start ∧ m.span.Valid text ∧ Ordered text m.span.stop ms

variable {text : Text} {ms : List MatchedSpan} {cursor : Nat}

theorem ordered_of_pairwise (apart : ms.Pairwise Before) (valid : ∀ m ∈ ms, m.span.Valid text)
    (behind : ∀ m ∈ ms, cursor ≤ m.span.start) (inside : cursor ≤ text.length) : Ordered text cursor ms := by
  induction ms generalizing cursor with
  | nil => exact inside
  | cons m ms ih =>
    rw [List.pairwise_cons] at apart
    have validM := valid m List.mem_cons_self
    refine ⟨behind m List.mem_cons_self, validM, ?_⟩
    exact ih apart.2 (fun m' member => valid m' (List.mem_cons_of_mem _ member))
      (fun m' member => apart.1 m' member) validM.inside

/-- Replacing every match by its own original changes nothing. -/
theorem splice_original (ordered : Ordered text cursor ms) :
    splice text (fun m => m.span.original) cursor ms = text.drop cursor := by
  induction ms generalizing cursor with
  | nil => rfl
  | cons m ms ih =>
    obtain ⟨behind, valid, rest⟩ := ordered
    have forward := valid.forward
    rw [splice, ih rest, valid.original]
    have tail : text.drop m.span.stop =
        (text.drop m.span.start).drop (m.span.stop - m.span.start) := by
      rw [List.drop_drop, Nat.add_sub_cancel' forward]
    have mid : text.drop m.span.start = (text.drop cursor).drop (m.span.start - cursor) := by
      rw [List.drop_drop, Nat.add_sub_cancel' behind]
    rw [tail, List.append_assoc, List.take_append_drop, mid, List.take_append_drop]

/-! ## Scanning the spliced text -/

/-- No `<REDACT:` starts in a gap, not even one that would end in the next token. -/
theorem noPrefix_in_gap {gap rest : Text} (plain : ∀ i, ¬ tokenPrefix <+: gap.drop i) :
    ∀ i < gap.length, ¬ tokenPrefix <+: (gap ++ ltByte :: rest).drop i := by
  intro i short occurs
  rw [List.drop_append_of_le_length (Nat.le_of_lt short)] at occurs
  obtain ⟨tail, eq⟩ := occurs
  rcases List.append_eq_append_iff.mp eq with ⟨mid, gapEq, -⟩ | ⟨mid, prefixEq, restEq⟩
  · exact plain i ⟨mid, gapEq.symm⟩
  cases mid with
  | nil => exact plain i ⟨[], by simpa using prefixEq⟩
  | cons b mid =>
    -- the `<` of the token would stand inside the prefix
    obtain ⟨rfl, -⟩ := List.cons.inj restEq
    cases tail : gap.drop i with
    | nil =>
      rw [List.drop_eq_nil_iff] at tail
      omega
    | cons c cs =>
      rw [tail] at prefixEq
      have inside : ltByte ∈ tokenPrefix.tail := by
        rw [prefixEq]
        simp
      revert inside
      decide

def spliceSegments (text : Text) (f : MatchedSpan → Text) : Nat → List MatchedSpan → List Segment
  | cursor, [] => [.text (text.drop cursor)]
  | cursor, m :: ms =>
    .text ((text.drop cursor).take (m.span.start - cursor)) :: .candidate (f m) ::
      spliceSegments text f m.span.stop ms

theorem splice_lexes (plain : ∀ i, ¬ tokenPrefix <+: text.drop i)
    {f : MatchedSpan → Text} (tokens : ∀ m ∈ ms, ∃ tok : Token, tok.wire = f m) (cursor : Nat) :
    Lexes (splice text f cursor ms) (spliceSegments text f cursor ms) := by
  induction ms generalizing cursor with
  | nil =>
    refine .plain fun i => ?_
    rw [splice, List.drop_drop]
    exact plain _
  | cons m ms ih =>
    obtain ⟨tok, wire⟩ := tokens m List.mem_cons_self
    obtain ⟨body, shape, -, noGt⟩ := tok.wire_shape
    have tail := ih (fun m' member => tokens m' (List.mem_cons_of_mem _ member)) m.span.stop
    have gapPlain : ∀ i, ¬ tokenPrefix <+: ((text.drop cursor).take (m.span.start - cursor)).drop i := by
      intro i occurs
      apply plain (cursor + i)
      rw [← List.drop_drop]
      refine occurs.trans ?_
      rw [List.drop_take]
      exact List.take_prefix _ _
    have wireEq : f m = (tokenPrefix ++ body) ++ [gtByte] := by rw [← wire, shape]; rfl
    have lexed := @Lexes.candidate ((text.drop cursor).take (m.span.start - cursor))
      (tokenPrefix ++ body) (splice text f m.span.stop ms) _
      (fun i short => noPrefix_in_gap gapPlain i short) ⟨_, List.append_assoc _ _ _ |>.symm⟩
      (by
        intro member
        rcases List.mem_append.mp member with h | h
        · revert h; decide
        · exact noGt h) tail
    rw [splice, spliceSegments, wireEq]
    simpa using lexed

/-! ## The vault after redacting -/

section RoundTrip

variable (pr : Primitives) (p : Pipeline) (v : Vault) (text : Text) (source : Source)
  (caller : Caller)

/-- A row that restores to `plain` for the caller, from call `calls` on. -/
structure Serves (calls : Nat) (plain : Text) (row : VaultRow) : Prop where
  decrypts : pr.decrypt p.agentId row.originalEnc = some plain
  allows : row.restoreScope.allows caller
  unmarked : row.expiredMarker = false
  unexpired : ∀ call, calls ≤ call → pr.now call < row.expiresAt

/-- What a round trip assumes of the world: the cipher is invertible and never
fails, SQLite never fails, nothing expires, the keyed hash separates the values
of a category (a row from before under one of the new tokens holds the same value),
and the caller satisfies every scope. -/
structure Undisturbed : Prop where
  encrypts : ∀ call plain, (pr.encrypt p.agentId call plain).isSome
  decrypts : ∀ call plain enc, pr.encrypt p.agentId call plain = some enc →
    pr.decrypt p.agentId enc = some plain
  sqlite : ∀ call, pr.sqliteFails call = false
  unexpired : ∀ i j, i ≤ j → pr.now j < pr.now i + p.vaultTtlHours * 3600
  hashInjective : ∀ m₁ ∈ p.engine.allTextMatches text source,
    ∀ m₂ ∈ p.engine.allTextMatches text source, m₁.rule.category = m₂.rule.category →
      sessionHash pr (p.saltFor m₁.rule) m₁.span.original =
        sessionHash pr (p.saltFor m₂.rule) m₂.span.original →
      m₁.span.original = m₂.span.original
  inScope : ∀ m ∈ p.engine.allTextMatches text source, m.rule.restoreScope.allows caller
  heldElsewhere : ∀ m ∈ p.engine.allTextMatches text source, ∀ row ∈ v.rows,
    row.visible (p.wireFor pr m.rule m.span.original) p.agentId (sessionKey p.sessionId) →
      row.sessionId ≠ sessionKey (p.sessionFor m.rule) →
      Serves pr p caller v.calls m.span.original row

/-- The vault after minting `minted`: old rows of other keys, and rows that serve
the minted values. -/
structure Minted (after : Vault) (minted : List MatchedSpan) : Prop where
  later : v.calls ≤ after.calls
  rows : ∀ row ∈ after.rows,
    (row ∈ v.rows ∧ ∀ m ∈ minted, row.hasKey (p.wireFor pr m.rule m.span.original) p.agentId
        (sessionKey (p.sessionFor m.rule)) = false) ∨
      ∃ m ∈ minted, row.token = p.wireFor pr m.rule m.span.original ∧
        Serves pr p caller after.calls m.span.original row
  present : ∀ m ∈ minted, ∃ row ∈ after.rows,
    row.visible (p.wireFor pr m.rule m.span.original) p.agentId (sessionKey p.sessionId)

/-- Looking up the token of `m` finds its value, whichever row SQLite picks. -/
structure Served (now : Vault) (m : MatchedSpan) : Prop where
  present : ∃ row ∈ now.rows,
    row.visible (p.wireFor pr m.rule m.span.original) p.agentId (sessionKey p.sessionId)
  serves : ∀ row ∈ now.rows,
    row.visible (p.wireFor pr m.rule m.span.original) p.agentId (sessionKey p.sessionId) →
      Serves pr p caller now.calls m.span.original row

variable {pr p v text source caller}

variable {now next : Vault} {minted ms : List MatchedSpan} {m : MatchedSpan} {tok : Token}

theorem Serves.later {calls later : Nat} {plain : Text} {row : VaultRow}
    (serves : Serves pr p caller calls plain row) (le : calls ≤ later) : Serves pr p caller later plain row :=
  { serves with unexpired := fun call le' => serves.unexpired call (Nat.le_trans le le') }

theorem wireFor_injective (world : Undisturbed pr p v text source caller) {m₁ m₂ : MatchedSpan}
    (reported₁ : m₁ ∈ p.engine.allTextMatches text source)
    (reported₂ : m₂ ∈ p.engine.allTextMatches text source)
    (valid₁ : ValidCategory m₁.rule.category) (valid₂ : ValidCategory m₂.rule.category)
    (same : p.wireFor pr m₁.rule m₁.span.original = p.wireFor pr m₂.rule m₂.span.original) :
    m₁.span.original = m₂.span.original := by
  have parts₁ := parts_eq_some_iff.mpr ⟨rfl, valid₁,
    validHash_sessionHash pr (p.saltFor m₁.rule) m₁.span.original⟩
  have parts₂ := parts_eq_some_iff.mpr ⟨rfl, valid₂,
    validHash_sessionHash pr (p.saltFor m₂.rule) m₂.span.original⟩
  rw [show wireOf m₁.rule.category _ = wireOf m₂.rule.category _ from same, parts₂] at parts₁
  obtain ⟨category, hash⟩ := Prod.mk.inj (Option.some.inj parts₁)
  exact world.hashInjective m₁ reported₁ m₂ reported₂ category.symm hash.symm

theorem mappingRow_visible (pr : Primitives) (p : Pipeline) (call : Nat) (enc : Text) (rule : Rule)
    (original : Text) :
    (mappingRow pr call (p.wireFor pr rule original) enc p.agentId (p.sessionFor rule) rule.category
      rule.id rule.restoreScope rule.crossSessionStable p.vaultTtlHours).visible
        (p.wireFor pr rule original) p.agentId (sessionKey p.sessionId) := by
  rw [VaultRow.visible_iff]
  refine ⟨rfl, rfl, ?_⟩
  cases stable : rule.crossSessionStable with
  | true => exact .inr rfl
  | false => exact .inl (by simp [mappingRow, Pipeline.sessionFor, stable])

theorem Minted.nil (v : Vault) : Minted pr p v caller v [] :=
  ⟨Nat.le_refl _, fun row member => .inl ⟨member, by simp⟩, by simp⟩

theorem Minted.mint (world : Undisturbed pr p v text source caller) (state : Minted pr p v caller now minted)
    (reported : m ∈ p.engine.allTextMatches text source)
    (mints : mintToken pr p now m.span.original m.rule = (.ok tok, next)) :
    Minted pr p v caller next (minted ++ [m]) := by
  obtain ⟨wire, inserted⟩ := mintToken_ok mints
  obtain ⟨calls, enc, encrypted, rows⟩ := mem_insertMapping inserted
  rw [wire] at rows
  refine ⟨by have := state.later; omega, ?_, ?_⟩
  · intro row member
    rcases (rows row).mp member with ⟨old, otherKey⟩ | rfl
    · rcases state.rows row old with ⟨before, others⟩ | ⟨d, done, token, serves⟩
      · refine .inl ⟨before, ?_⟩
        intro d member
        rcases List.mem_append.mp member with earlier | last
        · exact others d earlier
        · rw [List.mem_singleton.mp last]
          exact otherKey
      · exact .inr ⟨d, List.mem_append_left _ done, token, serves.later (by omega)⟩
    · exact .inr ⟨m, by simp, rfl, world.decrypts _ _ _ encrypted, world.inScope m reported, rfl,
        fun call le => world.unexpired _ _ (by omega)⟩
  · intro d member
    have newVisible := mappingRow_visible pr p now.calls enc m.rule m.span.original
    have newRow := (rows _).mpr (.inr rfl)
    rcases List.mem_append.mp member with earlier | last
    · obtain ⟨row, listed, visible⟩ := state.present d earlier
      by_cases replaced : row.hasKey (p.wireFor pr m.rule m.span.original) p.agentId
          (sessionKey (p.sessionFor m.rule))
      · have same : p.wireFor pr d.rule d.span.original = p.wireFor pr m.rule m.span.original :=
          (VaultRow.visible_iff.mp visible).1.symm.trans (VaultRow.hasKey_iff.mp replaced).1
        exact ⟨_, newRow, by rw [same]; exact newVisible⟩
      · exact ⟨row, (rows row).mpr (.inl ⟨listed, by simpa using replaced⟩), visible⟩
    · rw [List.mem_singleton.mp last]
      exact ⟨_, newRow, newVisible⟩

theorem Minted.served (world : Undisturbed pr p v text source caller) (state : Minted pr p v caller now minted)
    (reported : ∀ m ∈ minted, m ∈ p.engine.allTextMatches text source)
    (valid : ∀ m ∈ minted, ValidCategory m.rule.category) (member : m ∈ minted) : Served pr p caller now m := by
  refine ⟨state.present m member, fun row listed visible => ?_⟩
  rcases state.rows row listed with ⟨before, others⟩ | ⟨d, done, token, serves⟩
  · -- minting replaced the row of its own key, so this one has another
    have key := VaultRow.visible_iff.mp visible
    have elsewhere : row.sessionId ≠ sessionKey (p.sessionFor m.rule) := by
      intro session
      have hasKey := VaultRow.hasKey_iff.mpr ⟨key.1, key.2.1, session⟩
      rw [others m member] at hasKey
      cases hasKey
    exact (world.heldElsewhere m (reported m member) row before visible elsewhere).later state.later
  · have same := token.symm.trans (VaultRow.visible_iff.mp visible).1
    rw [← wireFor_injective world (reported d done) (reported m member) (valid d done)
      (valid m member) same]
    exact serves

/-! ## Redacting -/

theorem slice_eq {start stop : Nat} (le : start ≤ stop) (atStart : isCharBoundary text start)
    (atStop : isCharBoundary text stop) :
    slice text start stop = some ((text.drop start).take (stop - start)) := by
  simp [slice, le, atStart, atStop]

theorem isCharBoundary_length (text : Text) : isCharBoundary text text.length := by
  simp [isCharBoundary]

/-- In an undisturbed world only the category can make minting fail. -/
theorem mintToken_progress (world : Undisturbed pr p v text source caller) (now : Vault)
    (original : Text) (rule : Rule) :
    (ValidCategory rule.category ∧ ∃ tok next, mintToken pr p now original rule = (.ok tok, next)) ∨
      (¬ ValidCategory rule.category ∧
        ∃ e, mintToken pr p now original rule = (.error (.invalidToken e), now)) := by
  by_cases valid : ValidCategory rule.category
  · refine .inl ⟨valid, ?_⟩
    obtain ⟨tok, made, -⟩ := Token.new_eq_ok valid
      (validHash_sessionHash pr (p.saltFor rule) original)
    obtain ⟨enc, encrypted⟩ := Option.isSome_iff_exists.mp (world.encrypts now.calls original)
    refine ⟨tok, ?_⟩
    simp [mintToken, made, insertMapping, encrypted, world.sqlite]
  refine .inr ⟨valid, ?_⟩
  cases made : Token.new rule.category (sessionHash pr (p.saltFor rule) original) with
  | ok tok => exact absurd (Token.wire_of_new made).2.1 valid
  | error e => exact ⟨e, by simp [mintToken, made]⟩

/-- The splice loop either runs to its end or meets a category no token can carry. -/
theorem redactLoop_progress (world : Undisturbed pr p v text source caller)
    {cursor : Nat} (out : Text) (tokens : List Token)
    (ordered : Ordered text cursor ms) (boundary : isCharBoundary text cursor)
    (reported : ∀ m ∈ ms, m ∈ p.engine.allTextMatches text source) (state : Minted pr p v caller now minted) :
    (∃ output after, redactLoop pr p text now cursor out tokens ms = (.ok output, after) ∧
      Minted pr p v caller after (minted ++ ms) ∧ ∀ m ∈ ms, ValidCategory m.rule.category) ∨
    ∃ m ∈ ms, ¬ ValidCategory m.rule.category ∧
      ∃ e after, redactLoop pr p text now cursor out tokens ms = (.error (.invalidToken e), after) := by
  induction ms generalizing now cursor out tokens minted with
  | nil =>
    have sliced := slice_eq ordered boundary (isCharBoundary_length text)
    refine .inl ⟨⟨out ++ (text.drop cursor).take (text.length - cursor), tokens⟩, now, ?_, ?_, ?_⟩
    · simp only [redactLoop, sliced]
    · simpa using state
    · simp
  | cons m ms ih =>
    obtain ⟨behind, valid, rest⟩ := ordered
    have sliced := slice_eq behind boundary valid.startBoundary
    rcases mintToken_progress world now m.span.original m.rule with
      ⟨category, tok, next, mints⟩ | ⟨category, e, refused⟩
    · have state' := state.mint world (reported m List.mem_cons_self) mints
      rcases ih (out ++ (text.drop cursor).take (m.span.start - cursor) ++ tok.wire)
          (tokens ++ [tok]) rest valid.stopBoundary
          (fun m' member => reported m' (List.mem_cons_of_mem _ member)) state' with
        ⟨output, after, run, final, categories⟩ | ⟨m', member, bad, e, after, run⟩
      · refine .inl ⟨output, after, ?_, by simpa using final, ?_⟩
        · simp only [redactLoop, sliced, mints]
          exact run
        · intro m' member
          rcases List.mem_cons.mp member with rfl | later
          · exact category
          · exact categories m' later
      · refine .inr ⟨m', List.mem_cons_of_mem _ member, bad, e, after, ?_⟩
        simp only [redactLoop, sliced, mints]
        exact run
    · refine .inr ⟨m, List.mem_cons_self, category, e, now, ?_⟩
      simp only [redactLoop, sliced, refused]

/-! ## Restoring -/

/-- Neither a lookup nor a reveal count changes what is served. -/
theorem Served.of_rows (served : Served pr p caller now m)
    (later : now.calls ≤ next.calls) (old : ∀ row ∈ next.rows, ∃ count at_,
      { row with revealCount := count, lastRevealAt := at_ } ∈ now.rows)
    (new : ∀ row ∈ now.rows, ∃ count at_,
      { row with revealCount := count, lastRevealAt := at_ } ∈ next.rows) :
    Served pr p caller next m := by
  constructor
  · obtain ⟨row, listed, visible⟩ := served.present
    obtain ⟨count, at_, listed'⟩ := new row listed
    exact ⟨_, listed', visible⟩
  · intro row listed visible
    obtain ⟨count, at_, listed'⟩ := old row listed
    have serves := served.serves _ listed' visible
    exact ⟨serves.decrypts, serves.allows, serves.unmarked,
      fun call le => serves.unexpired call (Nat.le_trans later le)⟩

/-- A served token is replaced by its value, and everything stays served. -/
theorem restoreDecide_served (world : Undisturbed pr p v text source caller) (served : Served pr p caller now m)
    (wire : tok.wire = p.wireFor pr m.rule m.span.original) :
    ∃ next, restoreDecide pr p caller (now, none) tok = ((next, none), .replace m.span.original) ∧
      ∀ m', Served pr p caller now m' → Served pr p caller next m' := by
  obtain ⟨row, listed, visible⟩ := served.present
  have some_ := pr.choose_isSome (now.rows.filter
    (VaultRow.visible tok.wire p.agentId (sessionKey p.sessionId)))
    (List.ne_nil_of_mem (List.mem_filter.mpr ⟨listed, by rw [wire]; exact visible⟩))
  obtain ⟨picked, choice⟩ := Option.isSome_iff_exists.mp some_
  have member := List.mem_filter.mp (pr.choose_mem _ _ choice)
  have serves := served.serves picked member.1 (by rw [← wire]; exact member.2)
  have opened : openRow pr (pr.now now.calls) p.agentId picked =
      .ok (picked.entry (some m.span.original) false) := by
    have live := serves.unexpired now.calls (Nat.le_refl _)
    simp [openRow, serves.unmarked, serves.decrypts, Int.not_le.mpr live]
  refine ⟨recordReveal pr { now with calls := now.calls + 1 } tok.wire picked.agentId
    (picked.entry (some m.span.original) false).sessionId, ?_, ?_⟩
  · have allows : (picked.entry (some m.span.original) false).restoreScope.allows caller :=
      serves.allows
    have looked : lookupMapping pr now tok.wire p.agentId p.sessionId =
        (.ok (some (picked.entry (some m.span.original) false)),
          { now with calls := now.calls + 1 }) := by
      simp [lookupMapping, world.sqlite, choice, opened]
    simp only [restoreDecide, looked, allows]
    rfl
  · intro m' served'
    refine served'.of_rows ?_ (fun row listed => mem_recordReveal (v := { now with calls := now.calls + 1 }) listed)
      (fun row listed => recordReveal_of_mem (v := { now with calls := now.calls + 1 }) listed)
    unfold recordReveal
    split
    · exact Nat.le_add_right _ 2
    · exact Nat.le_add_right _ 2

/-- Restoring puts every original back in place of its token. -/
theorem foldl_restore (world : Undisturbed pr p v text source caller)
    (now : Vault) (served : ∀ m ∈ ms, Served pr p caller now m)
    (valid : ∀ m ∈ ms, ValidCategory m.rule.category) (cursor : Nat) (out : Text) :
    ∃ after, (spliceSegments text (fun m => p.wireFor pr m.rule m.span.original) cursor ms).foldl
        (rewriteStep (restoreDecide pr p caller)) ((now, none), out) =
      ((after, none), out ++ splice text (fun m => m.span.original) cursor ms) := by
  induction ms generalizing now cursor out with
  | nil => exact ⟨now, rfl⟩
  | cons m ms ih =>
    obtain ⟨tok, -, wire⟩ := Token.new_eq_ok (valid m List.mem_cons_self)
      (validHash_sessionHash pr (p.saltFor m.rule) m.span.original)
    have parsed : Token.parse (p.wireFor pr m.rule m.span.original) = some tok :=
      Token.parse_eq_some_iff.mpr wire
    obtain ⟨next, decided, keeps⟩ :=
      restoreDecide_served world (served m List.mem_cons_self) wire
    obtain ⟨after, rest⟩ := ih next
      (fun m' member => keeps m' (served m' (List.mem_cons_of_mem _ member)))
      (fun m' member => valid m' (List.mem_cons_of_mem _ member)) m.span.stop
      (out ++ (text.drop cursor).take (m.span.start - cursor) ++ m.span.original)
    refine ⟨after, ?_⟩
    simp only [spliceSegments, List.foldl_cons, rewriteStep, parsed, decided, TokenAction.render, splice]
    rw [rest]
    simp only [List.append_assoc]

theorem restore_plain (plain : ∀ i, ¬ tokenPrefix <+: text.drop i) (now : Vault)
    {target : RestoreTarget} (reaches : target ≠ .auditLog) :
    restore pr p now text caller target = (.ok text, now) := by
  have lexed : rewriteTokens (restoreDecide pr p caller) (now, none) text = ((now, none), text) := by
    rw [rewriteTokens_of_lexes _ _ (.plain plain)]
    rfl
  simp [restore, reaches, lexed]

theorem replacedSpans_reported (member : m ∈ p.replacedSpans text source) :
    m ∈ p.engine.allTextMatches text source :=
  resolveOverlaps_subset (mem_resolveOverlaps.mpr (mem_replacedSpans.mp member).1)

theorem replacedSpans_ordered
    (nonempty : ∀ m ∈ p.engine.allTextMatches text source, m.span.start < m.span.stop) :
    Ordered text 0 (p.replacedSpans text source) := by
  have apart : (p.replacedSpans text source).Pairwise Before :=
    ((resolveOverlaps_ordered nonempty).filter _).filter _
  exact ordered_of_pairwise apart
    (fun m member => (allTextMatches_valid (replacedSpans_reported member)).1)
    (fun m member => Nat.zero_le _) (Nat.zero_le _)

/-- **Restoring undoes redacting.**  A text without `<REDACT:` comes back byte for
byte, whatever rules matched it; the only other outcome is that a matched rule has
a category no token can carry, and then `redact` returns that error. -/
theorem restore_redact (world : Undisturbed pr p v text source caller)
    (plain : ∀ i, ¬ tokenPrefix <+: text.drop i)
    (nonempty : ∀ m ∈ p.engine.allTextMatches text source, m.span.start < m.span.stop)
    {target : RestoreTarget} (reaches : target ≠ .auditLog) :
    (∃ output after, redact pr p v text source = (.ok output, after) ∧
      (restore pr p after output.redactedText caller target).1 = .ok text) ∨
    ∃ m ∈ p.replacedSpans text source, ¬ ValidCategory m.rule.category ∧
      ∃ e after, redact pr p v text source = (.error (.invalidToken e), after) := by
  have unchanged : (restore pr p v text caller target).1 = .ok text := by
    rw [restore_plain plain v reaches]
  rcases redact_cases pr p v text source with idle | looped
  · exact .inl ⟨_, _, idle, unchanged⟩
  rw [looped]
  have ordered := replacedSpans_ordered nonempty
  rcases redactLoop_progress world [] [] ordered (by simp [isCharBoundary])
      (fun m member => replacedSpans_reported member) (Minted.nil v) with
    ⟨output, after, run, final, categories⟩ | bad
  · rw [List.nil_append] at final
    refine .inl ⟨output, after, run, ?_⟩
    have lexed : Lexes output.redactedText (spliceSegments text
        (fun m => p.wireFor pr m.rule m.span.original) 0 (p.replacedSpans text source)) := by
      rw [(redactLoop_ok run).1]
      refine splice_lexes plain (fun m member => ?_) 0
      obtain ⟨tok, -, wire⟩ := Token.new_eq_ok (categories m member)
        (validHash_sessionHash pr (p.saltFor m.rule) m.span.original)
      exact ⟨tok, wire⟩
    obtain ⟨done, rewritten⟩ := foldl_restore world after
      (fun m member => final.served world (fun m member => replacedSpans_reported member) categories
        member) categories 0 []
    have restored : rewriteTokens (restoreDecide pr p caller) (after, none) output.redactedText =
        ((done, none), text) := by
      rw [rewriteTokens_of_lexes _ _ lexed, rewritten, splice_original ordered]
      rfl
    simp [restore, reaches, restored]
  · exact .inr bad

end RoundTrip

/-! ### A round trip -/

/-- A world in which nothing fails and no time passes. -/
def stillWorld : Primitives where
  hmacSha256 _ _ := List.replicate 32 0
  hmac_length _ _ := rfl
  encrypt _ _ plain := some plain
  decrypt _ enc := some enc
  now _ := 0
  sqliteFails _ := false
  choose rows := rows.head?
  choose_mem _ _ chosen := List.mem_of_mem_head? chosen
  choose_isSome rows some_ := by
    cases rows with
    | nil => exact absurd rfl some_
    | cons row rest => rfl
  formatDate _ := []

/-- One rule, for the owner, on tool results. -/
def ownerPipeline : Pipeline :=
  { shadowPipeline with engine := ⟨[ruleB]⟩ }

def owner : Caller := ⟨[], [], true⟩

theorem ownerPipeline_matches :
    ownerPipeline.engine.allTextMatches [0x78] (.toolResult []) = [⟨ruleB, ⟨0, 1, [0x78]⟩⟩] := rfl

theorem ownerPipeline_undisturbed :
    Undisturbed stillWorld ownerPipeline ⟨[], 0⟩ [0x78] (.toolResult []) owner where
  encrypts _ _ := rfl
  decrypts _ _ _ encrypted := by rw [← Option.some.inj encrypted]; rfl
  sqlite _ := rfl
  unexpired _ _ _ := show (0 : Int) < 0 + 1 * 3600 by decide
  hashInjective := by
    intro m₁ member₁ m₂ member₂ _ _
    rw [ownerPipeline_matches, List.mem_singleton] at member₁ member₂
    rw [member₁, member₂]
  inScope := by
    intro m member
    rw [ownerPipeline_matches, List.mem_singleton] at member
    rw [member]
    rfl
  heldElsewhere _ _ _ member := by cases member

theorem restore_redact_owner : ∃ output after,
      redact stillWorld ownerPipeline ⟨[], 0⟩ [0x78] (.toolResult []) = (.ok output, after) ∧
        (restore stillWorld ownerPipeline after output.redactedText owner .userChannel).1 = .ok [0x78] := by
  have plain : ∀ i, ¬ tokenPrefix <+: ([0x78] : Text).drop i := by
    intro i occurs
    have short := occurs.length_le
    rw [List.length_drop] at short
    have : tokenPrefix.length = 8 := rfl
    simp only [List.length_cons, List.length_nil] at short
    omega
  have nonempty : ∀ m ∈ ownerPipeline.engine.allTextMatches [0x78] (.toolResult []),
      m.span.start < m.span.stop := by
    intro m member
    rw [ownerPipeline_matches, List.mem_singleton] at member
    rw [member]
    decide
  rcases restore_redact ownerPipeline_undisturbed plain nonempty
      (show RestoreTarget.userChannel ≠ .auditLog by decide) with done | ⟨m, -, -, e, after, failed⟩
  · exact done
  · have ok : (redact stillWorld ownerPipeline ⟨[], 0⟩ [0x78] (.toolResult [])).1.isOk := by decide
    rw [failed] at ok
    cases ok

end DuDuClaw.Redaction
