/-
# Redaction.Egress -- what a tool call may carry out

The egress evaluator of egress.rs: a tool call whose arguments hold tokens is
allowed with the tokens restored, passed through, or denied.

* `findRule_eq_some_iff`: the rule of a tool is its exact entry, else the entry of
  the longest matching prefix, in whatever order the hash map is walked.
* `substituteTokens_fst`: the substituting walk meets exactly the tokens that
  `collect_tokens` lists, in the same order.
* `substituteTokens_restores`: a walk that never refuses replaces every token and
  nothing else.
* `decide_sound`: the three decisions, and what holds under each of them.
-/
import Mathlib.Data.List.MinMax
import DuDuClaw.Redaction.RoundTrip

namespace DuDuClaw.Redaction

/-! ## JSON values -/

mutual
/-- `serde_json::Value`; a number is its literal. -/
inductive Value where
  | null
  | bool (b : Bool)
  | number (literal : Text)
  | string (s : Text)
  | array (values : Values)
  | object (fields : Fields)
  deriving DecidableEq
inductive Values where
  | nil
  | cons (value : Value) (rest : Values)
  deriving DecidableEq
/-- A map, in its own iteration order. -/
inductive Fields where
  | nil
  | cons (key : Text) (value : Value) (rest : Fields)
  deriving DecidableEq
end

mutual
def collectTokens : Value → List Token
  | .string s => extractTokensFromStr s
  | .array values => collectTokensArray values
  | .object fields => collectTokensObject fields
  | .null | .bool _ | .number _ => []
def collectTokensArray : Values → List Token
  | .nil => []
  | .cons value rest => collectTokens value ++ collectTokensArray rest
def collectTokensObject : Fields → List Token
  | .nil => []
  | .cons _ value rest => collectTokens value ++ collectTokensObject rest
end

mutual
/-- `substitute_tokens`.  The `FnMut` closure is a function on its captured state. -/
def substituteTokens {σ : Type} (replaceFn : σ → Token → σ × Option Text) (st : σ) :
    Value → σ × Value
  | .string s => ((replaceInStr replaceFn st s).1, .string (replaceInStr replaceFn st s).2)
  | .array values =>
    ((substituteArray replaceFn st values).1, .array (substituteArray replaceFn st values).2)
  | .object fields =>
    ((substituteObject replaceFn st fields).1, .object (substituteObject replaceFn st fields).2)
  | .null => (st, .null)
  | .bool b => (st, .bool b)
  | .number literal => (st, .number literal)
def substituteArray {σ : Type} (replaceFn : σ → Token → σ × Option Text) (st : σ) :
    Values → σ × Values
  | .nil => (st, .nil)
  | .cons value rest =>
    let head := substituteTokens replaceFn st value
    let tail := substituteArray replaceFn head.1 rest
    (tail.1, .cons head.2 tail.2)
def substituteObject {σ : Type} (replaceFn : σ → Token → σ × Option Text) (st : σ) :
    Fields → σ × Fields
  | .nil => (st, .nil)
  | .cons key value rest =>
    let head := substituteTokens replaceFn st value
    let tail := substituteObject replaceFn head.1 rest
    (tail.1, .cons key head.2 tail.2)
end

/-! ## The rule table -/

/-- How tool arguments that hold tokens are treated. -/
inductive RestoreArgsMode where
  | restore
  | passthrough
  | deny
  deriving DecidableEq

structure ToolEgressRule where
  restoreArgs : RestoreArgsMode
  auditReveal : Bool
  deriving DecidableEq

/-- `EgressEvaluator`: the hash map, as its entries in iteration order. -/
structure EgressEvaluator where
  rules : List (Text × ToolEgressRule)
  distinct : (rules.map Prod.fst).Nodup

/-- The bytes of `odoo.*`. -/
def odooDot : Text := [0x6F, 0x64, 0x6F, 0x6F, 0x2E, 0x2A]

/-- The bytes of `odoo_*`. -/
def odooUnderscore : Text := [0x6F, 0x64, 0x6F, 0x6F, 0x5F, 0x2A]

def getRule (rules : List (Text × ToolEgressRule)) (key : Text) : Option ToolEgressRule :=
  (rules.find? fun entry => entry.1 == key).map Prod.snd

/-- The table with the legacy alias; where in the iteration order the new entry
stands does not matter (`findRule_eq_some_iff`). -/
def withLegacyAlias (rules : List (Text × ToolEgressRule)) : List (Text × ToolEgressRule) :=
  match getRule rules odooDot, getRule rules odooUnderscore with
  | some legacy, none => (odooUnderscore, legacy) :: rules
  | _, _ => rules

variable {rules : List (Text × ToolEgressRule)} {key : Text} {rule : ToolEgressRule}

theorem getRule_eq_none_iff : getRule rules key = none ↔ ∀ rule, (key, rule) ∉ rules := by
  simp only [getRule, Option.map_eq_none_iff, List.find?_eq_none, beq_iff_eq]
  constructor
  · intro absent rule member
    exact absent _ member rfl
  · rintro absent ⟨k, rule⟩ member rfl
    exact absent rule member

theorem withLegacyAlias_distinct
    (distinct : (rules.map Prod.fst).Nodup) : ((withLegacyAlias rules).map Prod.fst).Nodup := by
  unfold withLegacyAlias
  split
  · rename_i absent
    rw [List.map_cons, List.nodup_cons]
    refine ⟨fun member => ?_, distinct⟩
    obtain ⟨⟨key, rule⟩, listed, rfl⟩ := List.mem_map.mp member
    exact getRule_eq_none_iff.mp absent rule listed
  · exact distinct

def EgressEvaluator.new (rules : List (Text × ToolEgressRule))
    (distinct : (rules.map Prod.fst).Nodup) : EgressEvaluator :=
  ⟨withLegacyAlias rules, withLegacyAlias_distinct distinct⟩

/-- `pattern.strip_suffix('*')`. -/
def stripStar (pattern : Text) : Option Text :=
  if pattern.getLast? = some 0x2A then some pattern.dropLast else none

/-- The prefix patterns that match a tool, without their star. -/
def prefixRules (rules : List (Text × ToolEgressRule)) (toolName : Text) :
    List (Text × ToolEgressRule) :=
  rules.filterMap fun (pattern, rule) =>
    (stripStar pattern).bind fun stem => if stem <+: toolName then some (stem, rule) else none

/-- `find_rule`: the exact entry, else the first of the longest prefixes. -/
def EgressEvaluator.findRule (ev : EgressEvaluator) (toolName : Text) : Option ToolEgressRule :=
  match getRule ev.rules toolName with
  | some rule => some rule
  | none => ((prefixRules ev.rules toolName).argmax fun entry => entry.1.length).map Prod.snd

/-- The rule of a tool, said without an iteration order. -/
def RuleFor (rules : List (Text × ToolEgressRule)) (toolName : Text) (rule : ToolEgressRule) :
    Prop :=
  (toolName, rule) ∈ rules ∨
    ((∀ other, (toolName, other) ∉ rules) ∧
      ∃ stem, (stem ++ [0x2A], rule) ∈ rules ∧ stem <+: toolName ∧
        ∀ stem' other, (stem' ++ [0x2A], other) ∈ rules → stem' <+: toolName →
          stem'.length ≤ stem.length)

theorem stripStar_eq_some_iff {pattern stem : Text} :
    stripStar pattern = some stem ↔ pattern = stem ++ [0x2A] := by
  constructor
  · intro stripped
    unfold stripStar at stripped
    split at stripped
    · rename_i last
      rw [← Option.some.inj stripped]
      exact (List.dropLast_append_getLast? _ last).symm
    · cases stripped
  · rintro rfl
    simp [stripStar]

theorem mem_prefixRules {toolName stem : Text} : (stem, rule) ∈ prefixRules rules toolName ↔
      (stem ++ [0x2A], rule) ∈ rules ∧ stem <+: toolName := by
  simp only [prefixRules, List.mem_filterMap, Option.bind_eq_some_iff]
  constructor
  · rintro ⟨⟨pattern, rule'⟩, member, stem', stripped, picked⟩
    obtain rfl := stripStar_eq_some_iff.mp stripped
    split at picked
    · rename_i isPrefix
      obtain ⟨rfl, rfl⟩ := Prod.mk.inj (Option.some.inj picked)
      exact ⟨member, isPrefix⟩
    · cases picked
  · rintro ⟨member, isPrefix⟩
    exact ⟨_, member, stem, stripStar_eq_some_iff.mpr rfl, if_pos isPrefix⟩

/-- Two entries of one key are one entry. -/
theorem EgressEvaluator.unique (ev : EgressEvaluator) {other : ToolEgressRule}
    (member : (key, rule) ∈ ev.rules) (member' : (key, other) ∈ ev.rules) : rule = other :=
  (Prod.mk.inj (List.inj_on_of_nodup_map ev.distinct member member' rfl)).2

theorem getRule_eq_some_iff (ev : EgressEvaluator) :
    getRule ev.rules key = some rule ↔ (key, rule) ∈ ev.rules := by
  simp only [getRule, Option.map_eq_some_iff]
  constructor
  · rintro ⟨⟨k, r⟩, found, rfl⟩
    have key := List.find?_some found
    rw [← eq_of_beq key]
    exact List.mem_of_find?_eq_some found
  · intro member
    cases found : ev.rules.find? (fun entry => entry.1 == key) with
    | none =>
      rw [List.find?_eq_none] at found
      exact absurd (beq_self_eq_true key) (found _ member)
    | some entry =>
      have listed := List.mem_of_find?_eq_some found
      obtain ⟨k, r⟩ := entry
      obtain rfl : k = key := by simpa using List.find?_some found
      exact ⟨_, rfl, ev.unique listed member⟩

/-- **The rule of a tool does not depend on the iteration order.** -/
theorem findRule_eq_some_iff (ev : EgressEvaluator) (toolName : Text) (rule : ToolEgressRule) :
    ev.findRule toolName = some rule ↔ RuleFor ev.rules toolName rule := by
  unfold EgressEvaluator.findRule
  cases exact_ : getRule ev.rules toolName with
  | some r =>
    have listed := (getRule_eq_some_iff ev).mp exact_
    constructor
    · intro same
      exact .inl (Option.some.inj same ▸ listed)
    · rintro (member | ⟨absent, -⟩)
      · exact congrArg some (ev.unique listed member)
      · exact absurd listed (absent r)
  | none =>
    have absent := getRule_eq_none_iff.mp exact_
    simp only [Option.map_eq_some_iff]
    constructor
    · rintro ⟨⟨stem, r⟩, best, rfl⟩
      have listed := mem_prefixRules.mp (List.argmax_mem best)
      refine .inr ⟨absent, stem, listed.1, listed.2, fun stem' other member isPrefix => ?_⟩
      exact List.le_of_mem_argmax (f := fun entry => entry.1.length)
        (mem_prefixRules.mpr ⟨member, isPrefix⟩) best
    · rintro (member | ⟨-, stem, member, isPrefix, longest⟩)
      · exact absurd member (absent rule)
      cases best : (prefixRules ev.rules toolName).argmax fun entry => entry.1.length with
      | none =>
        have listed := mem_prefixRules.mpr ⟨member, isPrefix⟩
        rw [List.argmax_eq_none.mp best] at listed
        cases listed
      | some entry =>
        obtain ⟨stem', r⟩ := entry
        have listed := mem_prefixRules.mp (List.argmax_mem best)
        -- two prefixes of one name that are equally long are equal
        have same : stem' = stem := by
          have le := longest stem' r listed.1 listed.2
          have ge : stem.length ≤ stem'.length :=
            List.le_of_mem_argmax (f := fun entry => entry.1.length)
              (mem_prefixRules.mpr ⟨member, isPrefix⟩) best
          exact (List.prefix_of_prefix_length_le listed.2 isPrefix le).eq_of_length
            (Nat.le_antisymm le ge)
        exact ⟨_, rfl, ev.unique (same ▸ listed.1) member⟩

/-! ## Deciding -/

def utf8 (s : String) : Text := s.toUTF8.data.toList

inductive EgressDecision where
  | allow (args : Value) (tokensRestored : Nat)
  | passthrough (args : Value)
  | deny (reason : Text) (tokensSeen : Nat)
  deriving DecidableEq

/-- What the closure of `decide` captures. -/
structure EgressState where
  vault : Vault
  count : Nat
  hallucinated : Bool
  scopeDenied : Bool

/-- The closure: look the token up, check its scope, hand out its value. -/
def egressReplace (pr : Primitives) (agentId : Text) (sessionId : Option Text) (caller : Caller)
    (st : EgressState) (tok : Token) : EgressState × Option Text :=
  match lookupMapping pr st.vault tok.wire agentId sessionId with
  | (.ok (some entry), v) =>
    if !entry.restoreScope.allows caller then
      ({ st with vault := v, scopeDenied := true }, none)
    else
      match entry.original with
      | some plain => ({ st with vault := v, count := st.count + 1 }, some plain)
      | none => ({ st with vault := v, hallucinated := true }, none)
  | (_, v) => ({ st with vault := v, hallucinated := true }, none)

def EgressEvaluator.decide (pr : Primitives) (ev : EgressEvaluator) (v : Vault) (toolName : Text)
    (args : Value) (agentId : Text) (sessionId : Option Text) (caller : Caller) :
    EgressDecision × Vault :=
  let tokens := collectTokens args
  let refused (reason : String) : EgressDecision :=
    .deny (utf8 "tool '" ++ toolName ++ utf8 reason) tokens.length
  if tokens.isEmpty then (.passthrough args, v)
  else
    match ev.findRule toolName with
    | none => (refused "' is not on the egress whitelist", v)
    | some rule =>
      match rule.restoreArgs with
      | .deny => (refused "' egress is 'deny'", v)
      | .passthrough => (.passthrough args, v)
      | .restore =>
        let (st, restored) := substituteTokens (egressReplace pr agentId sessionId caller)
          ⟨v, 0, false, false⟩ args
        if st.scopeDenied then
          (refused "' refused: caller lacks restore scope for one or more tokens", st.vault)
        else if st.hallucinated then
          (refused "' refused: args contain hallucinated or expired tokens", st.vault)
        else (.allow restored st.count, st.vault)

/-! ## The two walks meet the same tokens -/

section Walk

variable {σ : Type} (replaceFn : σ → Token → σ × Option Text)

theorem rewriteAt_fst (decide : σ → Token → σ × TokenAction) (s : Text)
    (tokens : List (Nat × Token)) (st : σ) (cursor : Nat) : (rewriteAt decide s st cursor tokens).1 =
      (tokens.map Prod.snd).foldl (fun st tok => (decide st tok).1) st := by
  induction tokens generalizing st cursor with
  | nil => rfl
  | cons entry rest ih =>
    simp only [rewriteAt, List.map_cons, List.foldl_cons]
    exact ih _ _

theorem replaceInStr_fst (st : σ) (s : Text) : (replaceInStr replaceFn st s).1 =
      (extractTokensFromStr s).foldl (fun st tok => (replaceFn st tok).1) st := by
  rw [(scanners_visible s).replaced, (scanners_visible s).extracted, rewriteAt_fst]

mutual
/-- **The substituting walk meets the collected tokens, in order.** -/
theorem substituteTokens_fst (st : σ) : (value : Value) → (substituteTokens replaceFn st value).1 =
      (collectTokens value).foldl (fun st tok => (replaceFn st tok).1) st
  | .string s => replaceInStr_fst replaceFn st s
  | .array values => substituteArray_fst st values
  | .object fields => substituteObject_fst st fields
  | .null => rfl
  | .bool _ => rfl
  | .number _ => rfl
theorem substituteArray_fst (st : σ) : (values : Values) → (substituteArray replaceFn st values).1 =
      (collectTokensArray values).foldl (fun st tok => (replaceFn st tok).1) st
  | .nil => rfl
  | .cons value rest => by
    simp only [substituteArray, collectTokensArray, List.foldl_append]
    rw [substituteArray_fst, substituteTokens_fst]
theorem substituteObject_fst (st : σ) : (fields : Fields) → (substituteObject replaceFn st fields).1 =
      (collectTokensObject fields).foldl (fun st tok => (replaceFn st tok).1) st
  | .nil => rfl
  | .cons _ value rest => by
    simp only [substituteObject, collectTokensObject, List.foldl_append]
    rw [substituteObject_fst, substituteTokens_fst]
end

/-! ## What substituting changes -/

/-- `out` is `s` from `cursor` on, every listed token replaced by a value that `Q`
admits for it and everything between them copied. -/
inductive Restored (Q : Token → Text → Prop) (s : Text) : Nat → List (Nat × Token) → Text → Prop
  | done (cursor : Nat) : Restored Q s cursor [] (s.drop cursor)
  | token {cursor p : Nat} {tok : Token} {plain out : Text} {rest : List (Nat × Token)}
      (admitted : Q tok plain) (tail : Restored Q s (p + tok.wire.length) rest out) :
      Restored Q s cursor ((p, tok) :: rest)
        ((s.drop cursor).take (p - cursor) ++ plain ++ out)

mutual
/-- The same value, but for the tokens in its string leaves. -/
inductive RestoredValue (Q : Token → Text → Prop) : Value → Value → Prop
  | null : RestoredValue Q .null .null
  | bool (b : Bool) : RestoredValue Q (.bool b) (.bool b)
  | number (literal : Text) : RestoredValue Q (.number literal) (.number literal)
  | string {s s' : Text} (restored : Restored Q s 0 (visibleTokens s) s') :
      RestoredValue Q (.string s) (.string s')
  | array {values values' : Values} (restored : RestoredArray Q values values') :
      RestoredValue Q (.array values) (.array values')
  | object {fields fields' : Fields} (restored : RestoredObject Q fields fields') :
      RestoredValue Q (.object fields) (.object fields')
inductive RestoredArray (Q : Token → Text → Prop) : Values → Values → Prop
  | nil : RestoredArray Q .nil .nil
  | cons {value value' : Value} {rest rest' : Values} (head : RestoredValue Q value value')
      (tail : RestoredArray Q rest rest') :
      RestoredArray Q (.cons value rest) (.cons value' rest')
inductive RestoredObject (Q : Token → Text → Prop) : Fields → Fields → Prop
  | nil : RestoredObject Q .nil .nil
  | cons {key : Text} {value value' : Value} {rest rest' : Fields}
      (head : RestoredValue Q value value') (tail : RestoredObject Q rest rest') :
      RestoredObject Q (.cons key value rest) (.cons key value' rest')
end

/-- A refused token spoils the state; an answered one gets a value `Q` admits. -/
def Accounts (Good : σ → Prop) (Q : Token → Text → Prop) : Prop :=
  ∀ st tok, Good (replaceFn st tok).1 →
    Good st ∧ ∃ plain, (replaceFn st tok).2 = some plain ∧ Q tok plain

variable {replaceFn} {Good : σ → Prop} {Q : Token → Text → Prop}

theorem rewriteAt_restores (answers : Accounts replaceFn Good Q) (s : Text) {tokens : List (Nat × Token)} {st : σ} (cursor : Nat)
    (good : Good (rewriteAt (fun st tok => ((replaceFn st tok).1, actionOf (replaceFn st tok).2))
      s st cursor tokens).1) :
    Good st ∧ Restored Q s cursor tokens
      (rewriteAt (fun st tok => ((replaceFn st tok).1, actionOf (replaceFn st tok).2)) s st cursor
        tokens).2 := by
  induction tokens generalizing st cursor with
  | nil => exact ⟨good, .done cursor⟩
  | cons entry rest ih =>
    obtain ⟨p, tok⟩ := entry
    obtain ⟨after, tail⟩ := ih _ good
    obtain ⟨before, plain, answer, admitted⟩ := answers st tok after
    refine ⟨before, ?_⟩
    simp only [rewriteAt, answer, actionOf, TokenAction.render] at tail ⊢
    exact .token admitted tail

mutual
/-- **A walk that stays good replaces every token and nothing else.**  `Good` is
carried backwards, from the state at the end of the walk. -/
theorem substituteTokens_restores (answers : Accounts replaceFn Good Q) {st : σ} : (value : Value) →
    Good (substituteTokens replaceFn st value).1 →
      Good st ∧ RestoredValue Q value (substituteTokens replaceFn st value).2
  | .string s, good => by
    simp only [substituteTokens, (scanners_visible s).replaced] at good ⊢
    obtain ⟨before, restored⟩ := rewriteAt_restores answers s 0 good
    exact ⟨before, .string restored⟩
  | .array values, good => by
    obtain ⟨before, restored⟩ := substituteArray_restores answers values good
    exact ⟨before, .array restored⟩
  | .object fields, good => by
    obtain ⟨before, restored⟩ := substituteObject_restores answers fields good
    exact ⟨before, .object restored⟩
  | .null, good => ⟨good, .null⟩
  | .bool b, good => ⟨good, .bool b⟩
  | .number literal, good => ⟨good, .number literal⟩
theorem substituteArray_restores (answers : Accounts replaceFn Good Q) {st : σ} : (values : Values) →
    Good (substituteArray replaceFn st values).1 →
      Good st ∧ RestoredArray Q values (substituteArray replaceFn st values).2
  | .nil, good => ⟨good, .nil⟩
  | .cons value rest, good => by
    obtain ⟨between, tail⟩ := substituteArray_restores answers rest good
    obtain ⟨before, head⟩ := substituteTokens_restores answers value between
    exact ⟨before, .cons head tail⟩
theorem substituteObject_restores (answers : Accounts replaceFn Good Q) {st : σ} : (fields : Fields) →
    Good (substituteObject replaceFn st fields).1 →
      Good st ∧ RestoredObject Q fields (substituteObject replaceFn st fields).2
  | .nil, good => ⟨good, .nil⟩
  | .cons _ value rest, good => by
    obtain ⟨between, tail⟩ := substituteObject_restores answers rest good
    obtain ⟨before, head⟩ := substituteTokens_restores answers value between
    exact ⟨before, .cons head tail⟩
end

end Walk

/-! ## What the decisions mean -/

section Decide

variable (pr : Primitives) (agentId : Text) (sessionId : Option Text) (caller : Caller)

/-- The value a lookup hands to the caller: nothing when the token is unknown,
expired or out of scope, or the vault fails. -/
def resolve (v : Vault) (tok : Token) : Option Text :=
  match (lookupMapping pr v tok.wire agentId sessionId).1 with
  | .ok (some entry) => if entry.restoreScope.allows caller then entry.original else none
  | _ => none

/-- A row holds `plain` for the token, unexpired at that call, and its scope allows
the caller. -/
def Reveals (rows : List VaultRow) (call : Nat) (tok : Token) (plain : Text) : Prop :=
  ∃ row ∈ rows, row.visible tok.wire agentId (sessionKey sessionId) ∧
    row.restoreScope.allows caller ∧ row.expiredMarker = false ∧ pr.now call < row.expiresAt ∧
    pr.decrypt agentId row.originalEnc = some plain

/-- The vault `n` calls later. -/
def Vault.after (v : Vault) (n : Nat) : Vault := { v with calls := v.calls + n }

def EgressState.Clean (st : EgressState) : Prop :=
  st.hallucinated = false ∧ st.scopeDenied = false

variable {pr agentId sessionId caller}

variable {v : Vault} {tok : Token} {ev : EgressEvaluator} {toolName : Text} {args : Value}

theorem lookupMapping_snd (v : Vault) (token : Text) :
    (lookupMapping pr v token agentId sessionId).2 = v.after 1 := by
  unfold lookupMapping
  split
  · rfl
  · split
    · rfl
    · split <;> rfl

theorem resolve_reveals {plain : Text} (resolved : resolve pr agentId sessionId caller v tok = some plain) :
    Reveals pr agentId sessionId caller v.rows v.calls tok plain := by
  unfold resolve at resolved
  split at resolved
  · rename_i entry found
    obtain ⟨row, member, visible, opened⟩ := (lookupMapping_spec _ _ _ _ _).2 entry found
    split at resolved
    · rename_i allows
      rw [openRow_scope opened] at allows
      rcases openRow_cases opened with ⟨-, rfl⟩ | ⟨unmarked, live, plain', decrypted, rfl⟩
      · cases resolved
      · obtain rfl := Option.some.inj resolved
        exact ⟨row, member, visible, allows, unmarked, live, decrypted⟩
    · cases resolved
  · cases resolved

theorem egressReplace_cases (st : EgressState) (tok : Token) :
    (∃ plain, resolve pr agentId sessionId caller st.vault tok = some plain ∧
      egressReplace pr agentId sessionId caller st tok =
        ({ st with vault := st.vault.after 1, count := st.count + 1 }, some plain)) ∨
    (resolve pr agentId sessionId caller st.vault tok = none ∧
      ¬ (egressReplace pr agentId sessionId caller st tok).1.Clean ∧
      (egressReplace pr agentId sessionId caller st tok).1.vault = st.vault.after 1) := by
  have later := @lookupMapping_snd pr agentId sessionId st.vault tok.wire
  cases looked : lookupMapping pr st.vault tok.wire agentId sessionId with
  | mk result v =>
    rw [looked] at later
    obtain rfl : v = st.vault.after 1 := later
    cases result with
    | error e =>
      exact .inr (by simp [resolve, egressReplace, looked, EgressState.Clean])
    | ok found =>
      cases found with
      | none => exact .inr (by simp [resolve, egressReplace, looked, EgressState.Clean])
      | some entry =>
        cases allows : entry.restoreScope.allows caller with
        | false =>
          exact .inr (by simp [resolve, egressReplace, looked, allows, EgressState.Clean])
        | true =>
          cases original : entry.original with
          | none =>
            exact .inr (by
              simp [resolve, egressReplace, looked, allows, original, EgressState.Clean])
          | some plain =>
            exact .inl ⟨plain, by simp [resolve, looked, allows, original],
              by simp [egressReplace, looked, allows, original]⟩

theorem Vault.after_after (v : Vault) (m n : Nat) : (v.after m).after n = v.after (m + n) := by
  simp [Vault.after, Nat.add_assoc]

/-- **A run over the tokens ends clean exactly when every one of them resolves**,
each at its own call. -/
theorem run_clean_iff (tokens : List Token) (st : EgressState) :
    (tokens.foldl (fun st tok => (egressReplace pr agentId sessionId caller st tok).1) st).Clean ↔
      st.Clean ∧ ∀ i tok, tokens[i]? = some tok →
        (resolve pr agentId sessionId caller (st.vault.after i) tok).isSome := by
  induction tokens generalizing st with
  | nil => simp
  | cons tok rest ih =>
    rw [List.foldl_cons, ih]
    rcases @egressReplace_cases pr agentId sessionId caller st tok with
      ⟨plain, resolved, eq⟩ | ⟨unresolved, spoiled, -⟩
    · rw [eq]
      refine and_congr Iff.rfl ⟨fun all i t at_i => ?_, fun all i t at_i => ?_⟩
      · cases i with
        | zero =>
          obtain rfl : tok = t := by simpa using at_i
          exact Option.isSome_of_eq_some resolved
        | succ i =>
          have tail := all i t (by simpa using at_i)
          rwa [Vault.after_after, Nat.add_comm 1 i] at tail
      · have tail := all (i + 1) t (by simpa using at_i)
        rwa [Vault.after_after, Nat.add_comm 1 i]
    · constructor
      · exact fun clean => absurd clean.1 spoiled
      · intro all
        have head := all.2 0 tok rfl
        rw [show st.vault.after 0 = st.vault from rfl, unresolved] at head
        cases head

theorem run_count (tokens : List Token) (st : EgressState) (clean : (tokens.foldl (fun st tok =>
      (egressReplace pr agentId sessionId caller st tok).1) st).Clean) :
    (tokens.foldl (fun st tok => (egressReplace pr agentId sessionId caller st tok).1) st).count =
      st.count + tokens.length := by
  induction tokens generalizing st with
  | nil => rfl
  | cons tok rest ih =>
    rw [List.foldl_cons] at clean ⊢
    rw [ih _ clean]
    have before := ((run_clean_iff rest _).mp clean).1
    rcases @egressReplace_cases pr agentId sessionId caller st tok with
      ⟨plain, -, eq⟩ | ⟨-, spoiled, -⟩
    · rw [eq, List.length_cons]
      show st.count + 1 + rest.length = st.count + (rest.length + 1)
      omega
    · exact absurd before spoiled

/-- The rows never change, so a clean run reveals what the table holds. -/
theorem egressReplace_accounts (rows : List VaultRow) : Accounts (egressReplace pr agentId sessionId caller)
      (fun st => st.Clean ∧ st.vault.rows = rows)
      (fun tok plain => ∃ call, Reveals pr agentId sessionId caller rows call tok plain) := by
  rintro st tok ⟨clean, same⟩
  rcases @egressReplace_cases pr agentId sessionId caller st tok with
    ⟨plain, resolved, eq⟩ | ⟨-, spoiled, -⟩
  · rw [eq] at clean same ⊢
    refine ⟨⟨clean, same⟩, plain, rfl, st.vault.calls, ?_⟩
    have revealed := resolve_reveals resolved
    rwa [show st.vault.rows = rows from same] at revealed
  · exact absurd clean spoiled

theorem run_rows (tokens : List Token) (st : EgressState) : (tokens.foldl (fun st tok =>
      (egressReplace pr agentId sessionId caller st tok).1) st).vault.rows = st.vault.rows := by
  induction tokens generalizing st with
  | nil => rfl
  | cons tok rest ih =>
    rw [List.foldl_cons, ih]
    rcases @egressReplace_cases pr agentId sessionId caller st tok with
      ⟨plain, -, eq⟩ | ⟨-, -, eq⟩
    · rw [eq]
      rfl
    · rw [eq]
      rfl

/-- The decision under a rule that restores: allow when every token resolves, else
deny. -/
theorem decide_restore (held : collectTokens args ≠ [])
    (ruled : RuleFor ev.rules toolName rule) (mode : rule.restoreArgs = .restore) :
    ((∀ i tok, (collectTokens args)[i]? = some tok →
        (resolve pr agentId sessionId caller (v.after i) tok).isSome) ∧
      ∃ args', (ev.decide pr v toolName args agentId sessionId caller).1 =
          .allow args' (collectTokens args).length ∧
        RestoredValue (fun tok plain => ∃ call, Reveals pr agentId sessionId caller v.rows call tok
          plain) args args') ∨
    ((∃ i tok, (collectTokens args)[i]? = some tok ∧
        resolve pr agentId sessionId caller (v.after i) tok = none) ∧
      ∃ reason, (ev.decide pr v toolName args agentId sessionId caller).1 =
        .deny reason (collectTokens args).length) := by
  have found := (findRule_eq_some_iff ev toolName rule).mpr ruled
  have isEmpty : (collectTokens args).isEmpty = false := by simpa using held
  have run := substituteTokens_fst (egressReplace pr agentId sessionId caller) ⟨v, 0, false, false⟩
    args
  have cleanIff := @run_clean_iff pr agentId sessionId caller (collectTokens args)
    ⟨v, 0, false, false⟩
  have count := @run_count pr agentId sessionId caller (collectTokens args) ⟨v, 0, false, false⟩
  have rows := @run_rows pr agentId sessionId caller (collectTokens args) ⟨v, 0, false, false⟩
  have restores := @substituteTokens_restores _ _ _ _ (@egressReplace_accounts pr agentId sessionId
    caller v.rows) ⟨v, 0, false, false⟩ args
  rw [← run] at cleanIff count rows
  cases walk : substituteTokens (egressReplace pr agentId sessionId caller) ⟨v, 0, false, false⟩
      args with
  | mk st out =>
    rw [walk] at cleanIff count rows restores
    by_cases clean : st.Clean
    · refine .inl ⟨(cleanIff.mp clean).2, out, ?_, (restores ⟨clean, rows⟩).2⟩
      have all : st.count = (collectTokens args).length := by simpa using count clean
      simp [EgressEvaluator.decide, isEmpty, found, mode, walk, clean.1, clean.2, all]
    refine .inr ⟨?_, ?_⟩
    · have someUnresolved := fun all => clean (cleanIff.mpr ⟨⟨rfl, rfl⟩, all⟩)
      simpa using someUnresolved
    · cases denied : st.scopeDenied with
      | true => exact ⟨_, by simp [EgressEvaluator.decide, isEmpty, found, mode, walk, denied]; rfl⟩
      | false =>
        cases unknown : st.hallucinated with
        | true =>
          exact ⟨_, by
            simp [EgressEvaluator.decide, isEmpty, found, mode, walk, denied, unknown]; rfl⟩
        | false => exact absurd ⟨unknown, denied⟩ clean

/-- One token without a value for the caller denies the whole call. -/
theorem decide_unresolved (ruled : RuleFor ev.rules toolName rule)
    (mode : rule.restoreArgs = .restore) {i : Nat} (listed : (collectTokens args)[i]? = some tok)
    (unresolved : resolve pr agentId sessionId caller (v.after i) tok = none) :
    ∃ reason, (ev.decide pr v toolName args agentId sessionId caller).1 =
      .deny reason (collectTokens args).length := by
  have held : collectTokens args ≠ [] := List.ne_nil_of_mem (List.mem_of_getElem? listed)
  rcases decide_restore held ruled mode with
    ⟨all, -⟩ | ⟨-, denied⟩
  · have resolved := all i tok listed
    rw [unresolved] at resolved
    cases resolved
  · exact denied

/-- **The egress decision is sound.**  Whatever the arguments, table, vault and
caller: an allowed call was matched by a rule that restores, every token the
scanners see in a string leaf resolved at its own lookup, and the arguments are the
original ones with those tokens replaced by values the vault reveals to the caller;
under such a rule one unresolved or denied token makes the whole call denied; any
other decision hands back the arguments as they came, or none. -/
theorem decide_sound (pr : Primitives) (ev : EgressEvaluator) (v : Vault) (toolName : Text)
    (args : Value) (agentId : Text) (sessionId : Option Text) (caller : Caller) :
    (match (ev.decide pr v toolName args agentId sessionId caller).1 with
    | .allow args' count =>
      (∃ rule, RuleFor ev.rules toolName rule ∧ rule.restoreArgs = .restore) ∧
        count = (collectTokens args).length ∧ (∀ i tok, (collectTokens args)[i]? = some tok →
          ∃ plain, resolve pr agentId sessionId caller (v.after i) tok = some plain ∧
            Reveals pr agentId sessionId caller v.rows (v.calls + i) tok plain) ∧
        RestoredValue (fun tok plain =>
          ∃ call, Reveals pr agentId sessionId caller v.rows call tok plain) args args'
    | .passthrough args' =>
      args' = args ∧ (collectTokens args = [] ∨
        ∃ rule, RuleFor ev.rules toolName rule ∧ rule.restoreArgs = .passthrough)
    | .deny _ seen =>
      seen = (collectTokens args).length ∧ collectTokens args ≠ [] ∧
        ((∀ rule, ¬ RuleFor ev.rules toolName rule) ∨ ∃ rule, RuleFor ev.rules toolName rule ∧
            (rule.restoreArgs = .deny ∨ rule.restoreArgs = .restore ∧
              ∃ i tok, (collectTokens args)[i]? = some tok ∧
                resolve pr agentId sessionId caller (v.after i) tok = none))) ∧
    ∀ rule, RuleFor ev.rules toolName rule → rule.restoreArgs = .restore →
      ∀ i tok, (collectTokens args)[i]? = some tok →
        resolve pr agentId sessionId caller (v.after i) tok = none →
        ∃ reason, (ev.decide pr v toolName args agentId sessionId caller).1 =
          .deny reason (collectTokens args).length := by
  refine ⟨?_, fun rule ruled mode i tok => decide_unresolved ruled mode⟩
  by_cases held : collectTokens args = []
  · have isEmpty : (collectTokens args).isEmpty := by simp [held]
    simp only [EgressEvaluator.decide, isEmpty]
    exact ⟨rfl, .inl held⟩
  have isEmpty : (collectTokens args).isEmpty = false := by simpa using held
  cases found : ev.findRule toolName with
  | none =>
    have unruled : ∀ rule, ¬ RuleFor ev.rules toolName rule := by
      intro rule ruled
      rw [← findRule_eq_some_iff, found] at ruled
      cases ruled
    simp only [EgressEvaluator.decide, isEmpty, found]
    exact ⟨rfl, held, .inl unruled⟩
  | some rule =>
    have ruled := (findRule_eq_some_iff ev toolName rule).mp found
    cases mode : rule.restoreArgs with
    | deny =>
      simp only [EgressEvaluator.decide, isEmpty, found, mode]
      exact ⟨rfl, held, .inr ⟨rule, ruled, .inl mode⟩⟩
    | passthrough =>
      simp only [EgressEvaluator.decide, isEmpty, found, mode]
      exact ⟨rfl, .inr ⟨rule, ruled, mode⟩⟩
    | restore =>
      rcases decide_restore held ruled mode
        with ⟨all, args', allowed, restored⟩ | ⟨unresolved, reason, denied⟩
      · rw [allowed]
        refine ⟨⟨rule, ruled, mode⟩, rfl, fun i tok at_i => ?_, restored⟩
        obtain ⟨plain, resolved⟩ := Option.isSome_iff_exists.mp (all i tok at_i)
        exact ⟨plain, resolved, resolve_reveals resolved⟩
      · rw [denied]
        exact ⟨rfl, held, .inr ⟨rule, ruled, .inr ⟨mode, unresolved⟩⟩⟩

end Decide

/-- A table that lets one tool see tokens as they are. -/
def passthroughEvaluator : EgressEvaluator :=
  .new [([0x74], ⟨.passthrough, false⟩)] (by decide)

/-- A token the vault does not know goes to a passthrough tool as it stands: such a
tool never sees a value, so nothing is looked up. -/
theorem passthrough_unresolved : collectTokens (.string sampleToken.wire) = [sampleToken] ∧
      resolve stillWorld [] none owner ⟨[], 0⟩ sampleToken = none ∧
      (passthroughEvaluator.decide stillWorld ⟨[], 0⟩ [0x74] (.string sampleToken.wire) [] none
        owner).1 = .passthrough (.string sampleToken.wire) := by
  decide

end DuDuClaw.Redaction
