/-
# Redaction.Engine -- rules, matches and overlap resolution

The rule engine of engine.rs: every rule reports the byte spans it matches, and
`resolve_overlaps` keeps a disjoint subset of them, higher priority first.  A
`Rule` carries the contract of `Match` ("the original substring
`text[start..end]`", on character boundaries) as a field; the regex, keyword,
identity and NER matchers all slice `text` itself to build it.

* `mem_resolveOverlaps`: exactly the matches that win their overlaps survive.
* `resolveOverlaps_ordered`: nonempty survivors are disjoint and in text order,
  so that splicing them from left to right never goes back.
* `resolveOverlaps_disjoint_iff`: with empty matches, exactly where none stands at
  the start of a nonempty winner that is ranked above it.
-/
import DuDuClaw.Lib.Greedy
import DuDuClaw.Redaction.Token
import Mathlib.Data.List.Chain

namespace DuDuClaw.Redaction

open DuDuClaw.Lib

/-! ## Slices -/

/-- `str::is_char_boundary`: not in front of a UTF-8 continuation byte. -/
def isCharBoundary (text : Text) (i : Nat) : Bool :=
  i == 0 || i == text.length || (text[i]?).any fun b => b < 0x80 || 0xC0 ≤ b

/-- `&text[start..stop]`; `none` is the panic. -/
def slice (text : Text) (start stop : Nat) : Option Text :=
  if start ≤ stop && isCharBoundary text start && isCharBoundary text stop then
    some ((text.drop start).take (stop - start))
  else none

/-! ## Scopes and callers -/

structure Caller where
  agentId : Text
  scopes : List Text
  isOwner : Bool

def Caller.hasScope (caller : Caller) (scope : Text) : Bool :=
  caller.scopes.any (· == scope)

/-- The bytes of `RedactionAdmin`. -/
def redactionAdmin : Text :=
  [0x52, 0x65, 0x64, 0x61, 0x63, 0x74, 0x69, 0x6F, 0x6E, 0x41, 0x64, 0x6D, 0x69, 0x6E]

/-- `RestoreScope`: who may see the original value. -/
inductive RestoreScope where
  | owner
  | anyScope (scope : Text)
  | allScopes (scopes : List Text)
  deriving DecidableEq

def RestoreScope.allows (scope : RestoreScope) (caller : Caller) : Bool :=
  if caller.hasScope redactionAdmin then true
  else
    match scope with
    | .owner => caller.isOwner
    | .anyScope scope => caller.hasScope scope
    | .allScopes scopes => scopes.all caller.hasScope

/-! ## Sources -/

inductive Source where
  | userChannelInput (channelId : Text)
  | toolResult (toolName : Text)
  | systemPrompt (component : Text)
  | subAgentReply (agentId : Text)
  | cronContext

def Source.isSystemPrompt : Source → Bool
  | .systemPrompt _ => true
  | _ => false

inductive SourceMode where
  | on
  | off
  | selective
  | inherit
  deriving DecidableEq

structure SourceSetting where
  mode : SourceMode
  onlyCategories : List Text
  excludeCategories : List Text

/-- `allows_category`: exclusion wins, then the positive list, if there is one. -/
def SourceSetting.allowsCategory (setting : SourceSetting) (category : Text) : Bool :=
  if setting.excludeCategories.any (· == category) then false
  else if !setting.onlyCategories.isEmpty then setting.onlyCategories.any (· == category)
  else true

structure SourcePolicy where
  userInput : SourceSetting
  toolResults : SourceSetting
  systemPrompt : SourceSetting
  subAgent : SourceSetting
  cronContext : SourceSetting

/-! ## Rules and matches -/

/-- One span a rule detected. -/
structure Match where
  start : Nat
  stop : Nat
  original : Text
  deriving DecidableEq

structure Match.Valid (text : Text) (m : Match) : Prop where
  forward : m.start ≤ m.stop
  inside : m.stop ≤ text.length
  startBoundary : isCharBoundary text m.start
  stopBoundary : isCharBoundary text m.stop
  original : m.original = (text.drop m.start).take (m.stop - m.start)

/-- The `Rule` trait, a compiled rule. -/
structure Rule where
  id : Text
  category : Text
  restoreScope : RestoreScope
  priority : Int
  crossSessionStable : Bool
  applyToSystemPrompt : Bool
  matchText : Text → List Match
  valid : ∀ text, ∀ m ∈ matchText text, m.Valid text

structure MatchedSpan where
  rule : Rule
  span : Match

def overlaps (a b : Match) : Bool :=
  a.start < b.stop && b.start < a.stop

/-- The comparison of the first sort: priority descending, then start, then rule
id ascending.  Rule ids compare byte by byte. -/
def outranks (a b : MatchedSpan) : Bool :=
  b.rule.priority < a.rule.priority ||
    (b.rule.priority == a.rule.priority &&
      (a.span.start < b.span.start || (a.span.start == b.span.start && a.rule.id ≤ b.rule.id)))

/-- `spans.sort_by(..)`.  The sort is stable, so any stable sort gives this list. -/
def ranked (spans : List MatchedSpan) : List MatchedSpan :=
  spans.insertionSort fun a b => outranks a b

def resolveOverlaps (spans : List MatchedSpan) : List MatchedSpan :=
  let kept := greedy (fun candidate existing => overlaps candidate.span existing.span) []
    (ranked spans)
  kept.insertionSort fun a b => a.span.start ≤ b.span.start

/-- `RuleEngine`, its text rules. -/
structure RuleEngine where
  rules : List Rule

/-- `all_text_matches`: every match of every rule that fires on the source. -/
def RuleEngine.allTextMatches (engine : RuleEngine) (text : Text) (source : Source) :
    List MatchedSpan :=
  (engine.rules.filter fun rule => !(source.isSystemPrompt && !rule.applyToSystemPrompt)).flatMap
    fun rule => (rule.matchText text).map (MatchedSpan.mk rule)

def RuleEngine.apply (engine : RuleEngine) (text : Text) (source : Source) : List MatchedSpan :=
  resolveOverlaps (engine.allTextMatches text source)

variable {m : MatchedSpan} {spans : List MatchedSpan}

theorem allTextMatches_valid {engine : RuleEngine} {text : Text} {source : Source}
    (reported : m ∈ engine.allTextMatches text source) : m.span.Valid text ∧ m.rule ∈ engine.rules := by
  simp only [RuleEngine.allTextMatches, List.mem_flatMap, List.mem_map] at reported
  obtain ⟨rule, member, span, matched, rfl⟩ := reported
  exact ⟨rule.valid text span matched, List.mem_of_mem_filter member⟩

/-! ## Which matches survive -/

/-- `m` wins its overlaps: it overlaps no winner ranked above it. -/
def Wins (spans : List MatchedSpan) (m : MatchedSpan) : Prop :=
  ∃ above below, ranked spans = above ++ m :: below ∧
    wins (fun candidate existing => overlaps candidate.span existing.span) above.reverse m

/-- **Exactly the winners survive.** -/
theorem mem_resolveOverlaps : m ∈ resolveOverlaps spans ↔ Wins spans m := by
  rw [resolveOverlaps, List.mem_insertionSort, mem_greedy]
  rfl

theorem resolveOverlaps_subset (survives : m ∈ resolveOverlaps spans) : m ∈ spans := by
  obtain ⟨above, below, eq, -⟩ := mem_resolveOverlaps.mp survives
  have member : m ∈ ranked spans := by simp [eq]
  exact (List.mem_insertionSort _).mp member

/-- `a` and then `b` in text order, without overlap. -/
def Before (a b : MatchedSpan) : Prop := a.span.stop ≤ b.span.start

theorem resolveOverlaps_apart (spans : List MatchedSpan) : (resolveOverlaps spans).Pairwise fun a b =>
      overlaps a.span b.span = false ∧ overlaps b.span a.span = false := by
  have symmetric (a b : MatchedSpan) (free : overlaps b.span a.span = false) :
      overlaps a.span b.span = false ∧ overlaps b.span a.span = false :=
    ⟨by simpa [overlaps, and_comm, Bool.and_comm] using free, free⟩
  refine (List.Perm.pairwise_iff ?_ (List.perm_insertionSort _ _)).mpr
    ((greedy_pairwise (ranked spans)).imp (symmetric _ _))
  exact fun free => ⟨free.2, free.1⟩

/-- Nonempty survivors are disjoint and in text order. -/
theorem resolveOverlaps_ordered
    (nonempty : ∀ m ∈ spans, m.span.start < m.span.stop) : (resolveOverlaps spans).Pairwise Before := by
  have inOrder : (resolveOverlaps spans).Pairwise fun a b => a.span.start ≤ b.span.start := by
    have := List.pairwise_insertionSort (fun a b : MatchedSpan => a.span.start ≤ b.span.start)
      (greedy (fun candidate existing => overlaps candidate.span existing.span) [] (ranked spans))
    exact this
  have members : (resolveOverlaps spans).Pairwise fun a b => a ∈ spans ∧ b ∈ spans :=
    List.pairwise_of_forall_mem_list fun a memberA b memberB =>
      ⟨resolveOverlaps_subset memberA, resolveOverlaps_subset memberB⟩
  refine (((resolveOverlaps_apart spans).and inOrder).and members).imp ?_
  rintro a b ⟨⟨⟨free, -⟩, le⟩, -, memberB⟩
  have := nonempty b memberB
  simp only [overlaps, Bool.and_eq_false_iff, decide_eq_false_iff_not] at free
  simp only [Before]
  omega

/-! ## Empty matches -/

theorem resolveOverlaps_covers (reported : m ∈ spans) : m ∈ resolveOverlaps spans ∨
      ∃ s ∈ resolveOverlaps spans, overlaps m.span s.span = true ∧ m.rule.priority ≤ s.rule.priority := by
  have listed : m ∈ ranked spans := (List.mem_insertionSort _).mpr reported
  obtain ⟨above, below, split⟩ := List.append_of_mem listed
  by_cases won : wins (fun candidate existing => overlaps candidate.span existing.span) above.reverse m = true
  · exact .inl (mem_resolveOverlaps.mpr ⟨above, below, split, won⟩)
  right
  obtain ⟨before, s, between, rfl, won, clash⟩ := loses (Bool.eq_false_of_not_eq_true won)
  refine ⟨s, mem_resolveOverlaps.mpr ⟨before, between ++ m :: below, ?_, won⟩, clash, ?_⟩
  · rw [split, List.append_assoc]
    rfl
  · have sorted : (ranked spans).Pairwise fun a b => b.rule.priority ≤ a.rule.priority := by
      refine pairwise_insertionSort_measure (fun a b above => ?_) (fun a b below => ?_) spans
      · simp only [outranks, Bool.or_eq_true, decide_eq_true_eq, Bool.and_eq_true, beq_iff_eq] at above
        omega
      · simp only [outranks, Bool.or_eq_true, decide_eq_true_eq, not_or] at below
        omega
    rw [split, List.append_assoc, List.cons_append] at sorted
    have behind := (List.pairwise_cons.mp (List.pairwise_append.mp sorted).2.1).1
    exact behind m (List.mem_append_right _ List.mem_cons_self)

/-- No nonempty match that wins its overlaps begins where an empty match ranked below it stands. -/
def EmptiesBehind (spans : List MatchedSpan) : Prop :=
  ∀ above m below, ranked spans = above ++ m :: below →
    wins (fun candidate existing => overlaps candidate.span existing.span) above.reverse m = true →
    m.span.start < m.span.stop → ∀ b ∈ below, b.span.start = m.span.start → b.span.stop ≠ m.span.start

variable {spans : List MatchedSpan}

theorem resolveOverlaps_forward (forward : ∀ m ∈ spans, m.span.start ≤ m.span.stop) :
    ∀ m ∈ resolveOverlaps spans, m.span.start ≤ m.span.stop :=
  fun m survives => forward m (resolveOverlaps_subset survives)

theorem ordered_of_chain (forward : ∀ m ∈ spans, m.span.start ≤ m.span.stop)
    (chain : (resolveOverlaps spans).IsChain Before) : (resolveOverlaps spans).Pairwise Before := by
  have ahead := resolveOverlaps_forward forward
  generalize resolveOverlaps spans = kept at chain ahead
  induction kept with
  | nil => exact .nil
  | cons a kept ih =>
    obtain ⟨next, rest⟩ := List.isChain_cons.mp chain
    have later := ih rest fun m listed => ahead m (List.mem_cons_of_mem _ listed)
    refine List.pairwise_cons.mpr ⟨fun b listed => ?_, later⟩
    cases kept with
    | nil => cases listed
    | cons c kept =>
      have first : a.span.stop ≤ c.span.start := next c rfl
      rcases List.mem_cons.mp listed with rfl | beyond
      · exact first
      · have step : c.span.stop ≤ b.span.start := (List.pairwise_cons.mp later).1 b beyond
        have inside := ahead c (List.mem_cons_of_mem _ List.mem_cons_self)
        exact first.trans (inside.trans step)

theorem emptiesBehind_of_ordered (ordered : (resolveOverlaps spans).Pairwise Before) : EmptiesBehind spans := by
  intro above m below split won nonempty b behind start stop
  have survives : m ∈ resolveOverlaps spans := mem_resolveOverlaps.mpr ⟨above, below, split, won⟩
  -- a survivor around the empty match would overlap `m` as well
  have free : ∀ c ∈ greedy (fun candidate existing => overlaps candidate.span existing.span) [] (ranked spans),
      overlaps b.span c.span = false := by
    intro c kept
    have survives' : c ∈ resolveOverlaps spans := (List.mem_insertionSort _).mpr kept
    by_contra clash
    simp only [Bool.not_eq_false, overlaps, Bool.and_eq_true, decide_eq_true_eq] at clash
    have differ : m ≠ c := by
      rintro rfl
      omega
    have symmetric : Std.Symm fun a b : MatchedSpan =>
        overlaps a.span b.span = false ∧ overlaps b.span a.span = false := ⟨fun _ _ free => ⟨free.2, free.1⟩⟩
    have apart := (resolveOverlaps_apart spans).forall survives survives' differ
    simp only [overlaps, Bool.and_eq_false_iff, decide_eq_false_iff_not] at apart
    omega
  rw [split] at free
  have pair := greedy_keeps won behind free
  rw [← split] at pair
  have sorted : [m, b].Sublist (resolveOverlaps spans) :=
    List.pair_sublist_insertionSort (by omega) pair
  have both : [m, b].Pairwise Before := ordered.sublist sorted
  have before : Before m b := List.pairwise_pair.mp both
  unfold Before at before
  omega

theorem ordered_of_emptiesBehind (forward : ∀ m ∈ spans, m.span.start ≤ m.span.stop)
    (behind : EmptiesBehind spans) : (resolveOverlaps spans).Pairwise Before := by
  refine pairwise_insertionSort_of ?_
  have apart := @greedy_pairwise _ (fun candidate existing : MatchedSpan =>
    overlaps candidate.span existing.span) (ranked spans)
  refine ((greedy_in_order (ranked spans)).and apart).imp ?_
  rintro a b ⟨⟨above, below, split, won, later⟩, free⟩
  have member : ∀ m ∈ ranked spans, m.span.start ≤ m.span.stop := fun m listed =>
    forward m ((List.mem_insertionSort _).mp listed)
  have forwardA := member a (by rw [split]; exact List.mem_append_right _ List.mem_cons_self)
  have forwardB := member b (by rw [split]; exact List.mem_append_right _ (List.mem_cons_of_mem _ later))
  have empty := behind above a below split won
  simp only [overlaps, Bool.and_eq_false_iff, decide_eq_false_iff_not] at free
  refine ⟨fun le => ?_, fun lt => ?_⟩
  · show a.span.stop ≤ b.span.start
    by_contra inside
    exact empty (by omega) b later (by omega) (by omega)
  · show b.span.stop ≤ a.span.start
    omega

/-- The bytes of `12`. -/
def twelve : Text := [0x31, 0x32]

/-- A rule for digits, as it matches `12`. -/
def digitsRule : Rule where
  id := [0x61]
  category := [0x41]
  restoreScope := .owner
  priority := 100
  crossSessionStable := false
  applyToSystemPrompt := false
  matchText text := if text = twelve then [⟨0, 2, twelve⟩] else []
  valid text m listed := by
    split_ifs at listed with same
    · rw [List.mem_singleton.mp listed, same]
      exact ⟨by decide, by decide, by decide, by decide, rfl⟩
    · cases listed

/-- A rule whose pattern matches the empty string, as it matches `12`. -/
def emptyRule : Rule where
  id := [0x62]
  category := [0x42]
  restoreScope := .owner
  priority := 50
  crossSessionStable := false
  applyToSystemPrompt := false
  matchText text := if text = twelve then [⟨0, 0, []⟩, ⟨1, 1, []⟩, ⟨2, 2, []⟩] else []
  valid text m listed := by
    split_ifs at listed with same
    · simp only [List.mem_cons, List.not_mem_nil, or_false] at listed
      rw [same]
      rcases listed with rfl | rfl | rfl
      · exact ⟨by decide, by decide, by decide, by decide, rfl⟩
      · exact ⟨by decide, by decide, by decide, by decide, rfl⟩
      · exact ⟨by decide, by decide, by decide, by decide, rfl⟩
    · cases listed

def twoRules : RuleEngine := ⟨[digitsRule, emptyRule]⟩

theorem twoRules_resolved : twoRules.apply twelve .cronContext =
      [⟨digitsRule, ⟨0, 2, twelve⟩⟩, ⟨emptyRule, ⟨0, 0, []⟩⟩, ⟨emptyRule, ⟨2, 2, []⟩⟩] := rfl

end DuDuClaw.Redaction
