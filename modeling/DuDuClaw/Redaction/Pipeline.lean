/-
# Redaction.Pipeline -- redact and restore

The per-conversation pipeline of pipeline.rs.  `redact` selects the matches to
replace (overlap resolution, then the category filter of the source, then the
existing-token filter), mints a token for each and splices them in; `restore`
rewrites the tokens of a text back through the vault.

* `redact_ok`: a successful `redact` is `splice` of the text at exactly
  `replacedSpans`, with the deterministic wire string of every match.
* `covered_iff`: every allowed, non-token match is covered by a replaced span
  exactly when no discarded match shadows one that nothing else covers.  The two
  filters run after overlap resolution, so a match they discard has already
  removed what it overlaps.
-/
import DuDuClaw.Redaction.Scan
import DuDuClaw.Redaction.Vault

namespace DuDuClaw.Redaction

open DuDuClaw.Lib

/-! ## Tokens of values -/

/-- `HEX`, the bytes of `0123456789abcdef`. -/
def hexDigits : Text :=
  [0x30, 0x31, 0x32, 0x33, 0x34, 0x35, 0x36, 0x37, 0x38, 0x39, 0x61, 0x62, 0x63, 0x64, 0x65, 0x66]

def hexLower (bytes : Text) : Text :=
  bytes.flatMap fun b => [hexDigits.getD (b.toNat / 16) 0x30, hexDigits.getD (b.toNat % 16) 0x30]

/-- `session_hash`: the first 16 bytes of the HMAC, in hex. -/
def sessionHash (pr : Primitives) (salt original : Text) : Text :=
  hexLower ((pr.hmacSha256 salt original).take 16)

theorem hexDigits_getD {n : Nat} (short : n < 16) : isHexByte (hexDigits.getD n 0x30) := by
  have all : ∀ m < 16, isHexByte (hexDigits.getD m 0x30) := by decide
  exact all n short

theorem hexLower_length (bytes : Text) : (hexLower bytes).length = 2 * bytes.length := by
  induction bytes with
  | nil => rfl
  | cons b rest ih =>
    simp only [hexLower, List.flatMap_cons, List.length_append, List.length_cons] at ih ⊢
    rw [ih]
    simp only [List.length_nil]
    omega

theorem validHash_sessionHash (pr : Primitives) (salt original : Text) :
    ValidHash (sessionHash pr salt original) := by
  rw [validHash_iff]
  constructor
  · rw [sessionHash, hexLower_length, List.length_take, pr.hmac_length]
    rfl
  · intro b member
    obtain ⟨byte, -, digit⟩ := List.mem_flatMap.mp member
    have bound : byte.toNat < 256 := byte.toNat_lt
    simp only [List.mem_cons, List.not_mem_nil, or_false] at digit
    rcases digit with rfl | rfl
    · exact hexDigits_getD (by omega)
    · exact hexDigits_getD (by omega)

/-! ## The pipeline -/

/-- `RedactionPipeline`, bound to one agent and session. -/
structure Pipeline where
  engine : RuleEngine
  agentId : Text
  sessionId : Option Text
  sessionSalt : Text
  stableSalt : Text
  sourcePolicy : SourcePolicy
  vaultTtlHours : Int

def Pipeline.settingFor (p : Pipeline) : Source → SourceSetting
  | .userChannelInput _ => p.sourcePolicy.userInput
  | .toolResult _ => p.sourcePolicy.toolResults
  | .systemPrompt _ => p.sourcePolicy.systemPrompt
  | .subAgentReply _ => p.sourcePolicy.subAgent
  | .cronContext => p.sourcePolicy.cronContext

/-- Per-session unless the rule is cross-session-stable. -/
def Pipeline.saltFor (p : Pipeline) (rule : Rule) : Text :=
  if rule.crossSessionStable then p.stableSalt else p.sessionSalt

/-- `session_for_vault`. -/
def Pipeline.sessionFor (p : Pipeline) (rule : Rule) : Option Text :=
  if rule.crossSessionStable then none else p.sessionId

/-- `mint_token`: hash, insert the mapping, hand out the token. -/
def mintToken (pr : Primitives) (p : Pipeline) (v : Vault) (original : Text) (rule : Rule) :
    Except RedactionError Token × Vault :=
  match Token.new rule.category (sessionHash pr (p.saltFor rule) original) with
  | .error e => (.error (.invalidToken e), v)
  | .ok tok =>
    match insertMapping pr v tok.wire original p.agentId (p.sessionFor rule) rule.category
        rule.id rule.restoreScope rule.crossSessionStable p.vaultTtlHours with
    | (.error e, v) => (.error e, v)
    | (.ok (), v) => (.ok tok, v)

def overlapsAny (start stop : Nat) (spans : List (Nat × Nat)) : Bool :=
  spans.any fun (s, e) => start < e && s < stop

/-- The matches `redact` replaces: the engine's, less those of a category the
source does not redact, less those that overlap a token already present. -/
def Pipeline.replacedSpans (p : Pipeline) (text : Text) (source : Source) : List MatchedSpan :=
  let setting := p.settingFor source
  let present := tokenSpans text
  ((p.engine.apply text source).filter fun m => setting.allowsCategory m.rule.category).filter
    fun m => !overlapsAny m.span.start m.span.stop present

structure RedactionOutput where
  redactedText : Text
  tokensWritten : List Token

/-- The splice loop of `redact`. -/
def redactLoop (pr : Primitives) (p : Pipeline) (text : Text) :
    Vault → Nat → Text → List Token → List MatchedSpan →
      Except RedactionError RedactionOutput × Vault
  | v, cursor, out, tokensWritten, [] =>
    match slice text cursor text.length with
    | none => (.error .panic, v)
    | some rest => (.ok ⟨out ++ rest, tokensWritten⟩, v)
  | v, cursor, out, tokensWritten, m :: ms =>
    match slice text cursor m.span.start with
    | none => (.error .panic, v)
    | some gap =>
      match mintToken pr p v m.span.original m.rule with
      | (.error e, v) => (.error e, v)
      | (.ok tok, v) =>
        redactLoop pr p text v m.span.stop (out ++ gap ++ tok.wire) (tokensWritten ++ [tok]) ms

def redact (pr : Primitives) (p : Pipeline) (v : Vault) (text : Text) (source : Source) :
    Except RedactionError RedactionOutput × Vault :=
  let setting := p.settingFor source
  let unchanged : Except RedactionError RedactionOutput × Vault := (.ok ⟨text, []⟩, v)
  if setting.mode = .off || setting.mode = .inherit then unchanged
  else if setting.mode = .selective && !source.isSystemPrompt then unchanged
  else if (p.replacedSpans text source).isEmpty then unchanged
  else redactLoop pr p text v 0 [] [] (p.replacedSpans text source)

inductive RestoreTarget where
  | userChannel
  | subAgent (agentId : Text)
  | auditLog
  deriving DecidableEq

/-- `expired_placeholder`: the bytes of `[已過期 PII · DATE]`. -/
def expiredPlaceholder (pr : Primitives) (expiresAt : Int) : Text :=
  [0x5B, 0xE5, 0xB7, 0xB2, 0xE9, 0x81, 0x8E, 0xE6, 0x9C, 0x9F, 0x20, 0x50, 0x49, 0x49, 0x20, 0xC2,
    0xB7, 0x20] ++ pr.formatDate expiresAt ++ [0x5D]

/-- The closure `restore` hands to `rewrite_tokens`.  Its state is the vault and
the first unrecoverable error. -/
def restoreDecide (pr : Primitives) (p : Pipeline) (caller : Caller) :
    Vault × Option RedactionError → Token → (Vault × Option RedactionError) × TokenAction
  | (v, some e), _ => ((v, some e), .keep)
  | (v, none), tok =>
    match lookupMapping pr v tok.wire p.agentId p.sessionId with
    | (.error e, v) => ((v, some e), .keep)
    | (.ok none, v) => ((v, none), .keep)
    | (.ok (some entry), v) =>
      if !entry.restoreScope.allows caller then ((v, none), .keep)
      else
        match entry.original with
        | some plain =>
          ((recordReveal pr v tok.wire entry.agentId entry.sessionId, none), .replace plain)
        | none => ((v, none), .replace (expiredPlaceholder pr entry.expiresAt))

def restore (pr : Primitives) (p : Pipeline) (v : Vault) (text : Text) (caller : Caller)
    (target : RestoreTarget) : Except RedactionError Text × Vault :=
  if target = .auditLog then (.ok text, v)
  else
    match rewriteTokens (restoreDecide pr p caller) (v, none) text with
    | ((v, some e), _) => (.error e, v)
    | ((v, none), rewritten) => (.ok rewritten, v)

/-! ## What `redact` writes -/

/-- The wire string minted for a value; it does not depend on the vault. -/
def Pipeline.wireFor (pr : Primitives) (p : Pipeline) (rule : Rule) (original : Text) : Text :=
  wireOf rule.category (sessionHash pr (p.saltFor rule) original)

/-- The text with every match replaced by `f` of it. -/
def splice (text : Text) (f : MatchedSpan → Text) : Nat → List MatchedSpan → Text
  | cursor, [] => text.drop cursor
  | cursor, m :: ms =>
    (text.drop cursor).take (m.span.start - cursor) ++ f m ++ splice text f m.span.stop ms

variable {text : Text} {pr : Primitives} {p : Pipeline} {v v' : Vault}

variable {output : RedactionOutput} {source : Source} {m : MatchedSpan}

theorem slice_eq_some {gap : Text} {start stop : Nat} (sliced : slice text start stop = some gap) :
    gap = (text.drop start).take (stop - start) := by
  unfold slice at sliced
  split at sliced
  · exact (Option.some.inj sliced).symm
  · cases sliced

/-- Minting succeeds with the deterministic wire string, after one upsert. -/
theorem mintToken_ok {original : Text} {rule : Rule}
    {tok : Token} (minted : mintToken pr p v original rule = (.ok tok, v')) :
    tok.wire = p.wireFor pr rule original ∧
      insertMapping pr v tok.wire original p.agentId (p.sessionFor rule) rule.category rule.id
        rule.restoreScope rule.crossSessionStable p.vaultTtlHours = (.ok (), v') := by
  unfold mintToken at minted
  split at minted
  · cases (Prod.mk.inj minted).1
  rename_i tok' made
  split at minted
  · cases (Prod.mk.inj minted).1
  rename_i v'' inserted
  obtain ⟨eq, rfl⟩ := Prod.mk.inj minted
  obtain rfl := Except.ok.inj eq
  exact ⟨(Token.wire_of_new made).1, inserted⟩

theorem redactLoop_ok {ms : List MatchedSpan}
    {cursor : Nat} {out : Text} {tokens : List Token}
    (run : redactLoop pr p text v cursor out tokens ms = (.ok output, v')) : output.redactedText =
        out ++ splice text (fun m => p.wireFor pr m.rule m.span.original) cursor ms ∧
      output.tokensWritten.map Token.wire =
        tokens.map Token.wire ++ ms.map fun m => p.wireFor pr m.rule m.span.original := by
  induction ms generalizing v cursor out tokens with
  | nil =>
    simp only [redactLoop] at run
    split at run
    · cases (Prod.mk.inj run).1
    rename_i rest sliced
    obtain rfl := Except.ok.inj (Prod.mk.inj run).1
    rw [slice_eq_some sliced, ← List.length_drop, List.take_length]
    simp [splice]
  | cons m ms ih =>
    simp only [redactLoop] at run
    split at run
    · cases (Prod.mk.inj run).1
    rename_i gap sliced
    split at run
    · cases (Prod.mk.inj run).1
    rename_i tok v'' minted
    obtain ⟨textEq, tokensEq⟩ := ih run
    rw [textEq, tokensEq, (mintToken_ok minted).1, slice_eq_some sliced]
    simp [splice, (mintToken_ok minted).1]

/-- `redact` hands the text back, or runs its splice loop. -/
theorem redact_cases (pr : Primitives) (p : Pipeline) (v : Vault) (text : Text) (source : Source) :
    redact pr p v text source = (.ok ⟨text, []⟩, v) ∨ redact pr p v text source =
        redactLoop pr p text v 0 [] [] (p.replacedSpans text source) := by
  simp only [redact]
  split
  · exact .inl rfl
  split
  · exact .inl rfl
  · split
    · exact .inl rfl
    · exact .inr rfl

/-- **A successful `redact` replaces exactly `replacedSpans`.** -/
theorem redact_ok (on : (p.settingFor source).mode = .on) (run : redact pr p v text source = (.ok output, v')) :
    output.redactedText = splice text (fun m => p.wireFor pr m.rule m.span.original) 0
        (p.replacedSpans text source) ∧
      output.tokensWritten.map Token.wire =
        (p.replacedSpans text source).map fun m => p.wireFor pr m.rule m.span.original := by
  simp only [redact, on] at run
  by_cases empty : p.replacedSpans text source = []
  · simp only [empty] at run ⊢
    obtain rfl := Except.ok.inj (Prod.mk.inj run).1
    exact ⟨rfl, rfl⟩
  · have run' : redactLoop pr p text v 0 [] [] (p.replacedSpans text source) = (.ok output, v') := by
      simpa [empty] using run
    simpa using redactLoop_ok run'

/-! ## Coverage -/

/-- `m` overlaps no well-formed token of the text. -/
def ClearOfTokens (text : Text) (m : MatchedSpan) : Prop :=
  ∀ q tok, (q, tok) ∈ occurrences text →
    ¬ (m.span.start < q + tok.wire.length ∧ q < m.span.stop)

/-- A match that one of the two filters drops after overlap resolution. -/
def Pipeline.Discards (p : Pipeline) (text : Text) (source : Source) (m : MatchedSpan) : Prop :=
  (p.settingFor source).allowsCategory m.rule.category = false ∨
    overlapsAny m.span.start m.span.stop (tokenSpans text)

/-- A discarded match that wins its own overlaps is ranked above `m` and overlaps
it. -/
def Pipeline.Shadows (p : Pipeline) (text : Text) (source : Source) (m : MatchedSpan) : Prop :=
  ∃ above b between below,
    ranked (p.engine.allTextMatches text source) = above ++ b :: (between ++ m :: below) ∧
      wins (fun candidate existing => overlaps candidate.span existing.span) above.reverse b ∧
      overlaps m.span b.span ∧ p.Discards text source b

theorem mem_replacedSpans : m ∈ p.replacedSpans text source ↔
      Wins (p.engine.allTextMatches text source) m ∧ ¬ p.Discards text source m := by
  simp only [Pipeline.replacedSpans, Pipeline.Discards, List.mem_filter, RuleEngine.apply,
    mem_resolveOverlaps, Bool.not_eq_true', not_or, Bool.not_eq_true, Bool.not_eq_false, and_assoc]

theorem not_overlapsAny_of_clear (clear : ClearOfTokens text m) :
    overlapsAny m.span.start m.span.stop (tokenSpans text) = false := by
  rw [overlapsAny, List.any_eq_false]
  rintro ⟨s, e⟩ listed
  rw [tokenSpans_eq, List.mem_map] at listed
  obtain ⟨⟨q, tok⟩, visible, eq⟩ := listed
  obtain ⟨rfl, rfl⟩ := Prod.mk.inj eq
  have occurs := mem_occurrences.mpr (mem_visibleTokens.mp visible).1
  simpa using clear q tok occurs

/-- An allowed match clear of tokens is replaced, or overlapped by a replaced
match, or shadowed by a discarded one. -/
theorem covered_or_shadowed (reported : m ∈ p.engine.allTextMatches text source)
    (allowed : (p.settingFor source).allowsCategory m.rule.category) (clear : ClearOfTokens text m) :
    (∃ r ∈ p.replacedSpans text source, r = m ∨ overlaps m.span r.span) ∨ p.Shadows text source m := by
  have keeps : ¬ p.Discards text source m := by
    rintro (refused | present)
    · rw [allowed] at refused
      cases refused
    · rw [not_overlapsAny_of_clear clear] at present
      cases present
  have member : m ∈ ranked (p.engine.allTextMatches text source) :=
    (List.mem_insertionSort _).mpr reported
  obtain ⟨above, below, split⟩ := List.append_of_mem member
  cases won : wins (fun candidate existing : MatchedSpan =>
      overlaps candidate.span existing.span) above.reverse m with
  | true =>
    exact .inl ⟨m, mem_replacedSpans.mpr ⟨⟨above, below, split, won⟩, keeps⟩, .inl rfl⟩
  | false =>
    obtain ⟨higher, b, between, rfl, winner, clash⟩ := loses won
    have split' : ranked (p.engine.allTextMatches text source) =
        higher ++ b :: (between ++ m :: below) := by simpa using split
    by_cases dropped : p.Discards text source b
    · exact .inr ⟨higher, b, between, below, split', winner, clash, dropped⟩
    · exact .inl ⟨b, mem_replacedSpans.mpr ⟨⟨higher, between ++ m :: below, split', winner⟩,
        dropped⟩, .inr clash⟩

/-- Every allowed match that is clear of tokens is replaced, or overlapped by a
replaced span. -/
def Pipeline.Covers (p : Pipeline) (text : Text) (source : Source) : Prop :=
  ∀ m ∈ p.engine.allTextMatches text source,
    (p.settingFor source).allowsCategory m.rule.category → ClearOfTokens text m →
      ∃ r ∈ p.replacedSpans text source, r = m ∨ overlaps m.span r.span

/-- **Coverage, exactly.**  On a source that is redacted, the spans `redact`
replaces cover every allowed match that is clear of tokens if and only if each
such match that a discarded match shadows is also overlapped by a winning match
that neither filter discards. -/
theorem covered_iff (p : Pipeline) (text : Text) (source : Source) (on : (p.settingFor source).mode = .on) :
    (∀ pr v v' output, redact pr p v text source = (.ok output, v') →
      output.redactedText = splice text (fun m => p.wireFor pr m.rule m.span.original) 0
        (p.replacedSpans text source)) ∧
    (p.Covers text source ↔ ∀ m ∈ p.engine.allTextMatches text source,
        (p.settingFor source).allowsCategory m.rule.category → ClearOfTokens text m → p.Shadows text source m →
          ∃ r, Wins (p.engine.allTextMatches text source) r ∧ ¬ p.Discards text source r ∧
            (r = m ∨ overlaps m.span r.span)) := by
  refine ⟨fun pr v v' output run => (redact_ok on run).1, ?_⟩
  constructor
  · intro covers m reported allowed clear _
    obtain ⟨r, replaced, covered⟩ := covers m reported allowed clear
    obtain ⟨winner, kept⟩ := mem_replacedSpans.mp replaced
    exact ⟨r, winner, kept, covered⟩
  · intro rescued m reported allowed clear
    rcases covered_or_shadowed reported allowed clear with covered | shadowed
    · exact covered
    · obtain ⟨r, winner, kept, covered⟩ := rescued m reported allowed clear shadowed
      exact ⟨r, mem_replacedSpans.mpr ⟨winner, kept⟩, covered⟩

/-! ### A shadowed match -/

/-- A rule that matches all of one text and nothing else. -/
def wholeTextRule (id category : Text) (scope : RestoreScope) (priority : Int) (sample : Text) :
    Rule where
  id := id
  category := category
  restoreScope := scope
  priority := priority
  crossSessionStable := false
  applyToSystemPrompt := false
  matchText text := if text = sample then [⟨0, sample.length, sample⟩] else []
  valid text m reported := by
    split at reported
    · rename_i eq
      subst eq
      rw [List.mem_singleton.mp reported]
      exact ⟨Nat.zero_le _, Nat.le_refl _, by simp [isCharBoundary], by simp [isCharBoundary],
        by simp⟩
    · cases reported

/-- Tool results are redacted, except for category `A`. -/
def policyWithoutA : SourcePolicy :=
  let off : SourceSetting := ⟨.off, [], []⟩
  ⟨off, ⟨.on, [], [[0x41]]⟩, off, off, off⟩

def ruleA : Rule := wholeTextRule [0x61] [0x41] .owner 100 [0x78]

def ruleB : Rule := wholeTextRule [0x62] [0x42] .owner 50 [0x78]

/-- Two rules on the same value: category `A` outranks category `B`. -/
def shadowPipeline : Pipeline where
  engine := ⟨[ruleA, ruleB]⟩
  agentId := []
  sessionId := none
  sessionSalt := []
  stableSalt := []
  sourcePolicy := policyWithoutA
  vaultTtlHours := 1

theorem occurrences_sample : occurrences [0x78] = [] := by decide

/-- The match of category `A` wins and is then discarded: the value stays in
clear, although category `B` is to be redacted. -/
theorem shadowed_match_uncovered : (shadowPipeline.settingFor (.toolResult [])).mode = .on ∧
      shadowPipeline.replacedSpans [0x78] (.toolResult []) = [] ∧
      ¬ shadowPipeline.Covers [0x78] (.toolResult []) := by
  have none : shadowPipeline.replacedSpans [0x78] (.toolResult []) = [] := rfl
  refine ⟨rfl, none, fun covers => ?_⟩
  have clear : ClearOfTokens [0x78] ⟨ruleB, ⟨0, 1, [0x78]⟩⟩ := by
    intro q tok listed
    rw [occurrences_sample] at listed
    cases listed
  have reported : ⟨ruleB, ⟨0, 1, [0x78]⟩⟩ ∈ shadowPipeline.engine.allTextMatches [0x78] (.toolResult []) := by
    exact List.mem_cons_of_mem _ (List.mem_cons_self)
  obtain ⟨r, replaced, -⟩ := covers _ reported rfl clear
  rw [none] at replaced
  cases replaced

/-- With both categories redacted the same text is covered. -/
theorem covered_both_categories : let p := { shadowPipeline with
      sourcePolicy := { policyWithoutA with toolResults := ⟨.on, [], []⟩ } }
    (p.settingFor (.toolResult [])).mode = .on ∧ p.Covers [0x78] (.toolResult []) := by
  intro p
  refine ⟨rfl, (covered_iff p [0x78] (.toolResult []) rfl).2.mpr ?_⟩
  rintro m reported allowed clear ⟨above, b, between, below, split, -, -, refused | present⟩
  · cases refused
  · have free : tokenSpans [0x78] = [] := by decide
    rw [free] at present
    cases present

end DuDuClaw.Redaction
