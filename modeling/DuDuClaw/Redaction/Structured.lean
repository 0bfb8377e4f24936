/-
# Redaction.Structured -- fields that are redacted by position

The structured pass of pipeline.rs: the rules that apply to a tool call select nodes of its
result by their paths, and everything below a selected node becomes a token, but for the
keys its rule excludes.

* `tokenizeNode_related`: what one hit does below its node.
* `structuredPass_exact`: a pass that returned replaced exactly the selected scalars that
  hold something and are no tokens, and kept the shape.
* `root_hit_skipped`: the path of the root, where the root may not be taken.
-/
import DuDuClaw.Redaction.JsonPath

namespace DuDuClaw.Redaction

open DuDuClaw.Lib

/-! ## Rules -/

structure ToolContext where
  toolName : Text
  args : Option Value

/-- `JsonPathRule`; as a rule it never matches text. -/
structure JsonPathRule where
  rule : Rule
  paths : List JsonPath
  matchTool : Option Text
  matchArgs : List (Text × Text)
  matchResult : List (Text × Text)
  excludeKeys : List Text
  noText : ∀ text, rule.matchText text = []

/-- The bytes of `true` and `false`. -/
def boolText (b : Bool) : Text :=
  if b then [0x74, 0x72, 0x75, 0x65] else [0x66, 0x61, 0x6C, 0x73, 0x65]

def Value.rendered : Value → Option Text
  | .string s => some s
  | .number literal => some literal
  | .bool b => some (boolText b)
  | .null | .array _ | .object _ => none

/-- `match_tool`: exact, or a prefix before one star. -/
def matchTool (pattern toolName : Text) : Bool :=
  match stripStar pattern with
  | some stem => stem.isPrefixOf toolName
  | none => pattern == toolName

namespace JsonPathRule

variable (rule : JsonPathRule)

def matchesTool (toolName : Text) : Bool := rule.matchTool.all fun pattern => Redaction.matchTool pattern toolName

def matchesArgs (args : Option Value) : Bool :=
  rule.matchArgs.isEmpty ||
    match args with
    | some (.object fields) => rule.matchArgs.all fun (name, expected) =>
      (fields.get name).bind Value.rendered == some expected
    | _ => false

/-- The gate reads the value that the paths are resolved in. -/
def matchesResult (value : Value) : Bool :=
  rule.matchResult.all fun (pointer, expected) =>
    ((value.pointer pointer).bind value.at).bind Value.rendered == some expected

def resolvePointers (root : Value) : List Text := (rule.paths.flatMap fun path => path.resolve root).eraseDups

def applies (value : Value) (ctx : ToolContext) (setting : SourceSetting) : Bool :=
  rule.matchesTool ctx.toolName && rule.matchesArgs ctx.args && rule.matchesResult value &&
    setting.allowsCategory rule.rule.category

end JsonPathRule

structure StructuredHit where
  pointer : Text
  rule : JsonPathRule

/-- `apply_structured`, over the rules in the order of their priorities. -/
def applyStructured (structured : List JsonPathRule) (value : Value) (ctx : ToolContext)
    (setting : SourceSetting) : List StructuredHit :=
  (structured.filter fun rule => rule.applies value ctx setting).flatMap fun rule =>
    (rule.resolvePointers value).map fun pointer => ⟨pointer, rule⟩

/-! ## Tokens for nodes -/

/-- A call that reads and writes the vault and may fail. -/
abbrev Minting (α : Type) := ExceptT RedactionError (StateM Vault) α

mutual
/-- `tokenize_node`: the node and the tokens written so far. -/
def tokenizeNode (mint : Text → Minting Token) (excludeKeys : List Text) :
    Nat → Value → List Token → Minting (Value × List Token)
  | depth, .array values, tokens =>
    if maxPathDepth ≤ depth then return (.array values, tokens)
    else do
      let (values, tokens) ← tokenizeItems mint excludeKeys depth values tokens
      return (.array values, tokens)
  | depth, .object fields, tokens =>
    if maxPathDepth ≤ depth then return (.object fields, tokens)
    else do
      let (fields, tokens) ← tokenizeFields mint excludeKeys depth fields tokens
      return (.object fields, tokens)
  | depth, .string s, tokens =>
    if maxPathDepth ≤ depth then return (.string s, tokens)
    else if s = [] ∨ (Token.parse s).isSome then return (.string s, tokens)
    else do
      let tok ← mint s
      return (.string tok.wire, tokens ++ [tok])
  | depth, .bool b, tokens =>
    if maxPathDepth ≤ depth then return (.bool b, tokens)
    else do
      let tok ← mint (boolText b)
      return (.string tok.wire, tokens ++ [tok])
  | depth, .number literal, tokens =>
    if maxPathDepth ≤ depth then return (.number literal, tokens)
    else do
      let tok ← mint literal
      return (.string tok.wire, tokens ++ [tok])
  | _, .null, tokens => return (.null, tokens)
def tokenizeItems (mint : Text → Minting Token) (excludeKeys : List Text) :
    Nat → Values → List Token → Minting (Values × List Token)
  | _, .nil, tokens => return (.nil, tokens)
  | depth, .cons value rest, tokens => do
    let (value, tokens) ← tokenizeNode mint excludeKeys (depth + 1) value tokens
    let (rest, tokens) ← tokenizeItems mint excludeKeys depth rest tokens
    return (.cons value rest, tokens)
def tokenizeFields (mint : Text → Minting Token) (excludeKeys : List Text) :
    Nat → Fields → List Token → Minting (Fields × List Token)
  | _, .nil, tokens => return (.nil, tokens)
  | depth, .cons key value rest, tokens => do
    let (value, tokens) ←
      (if excludeKeys.contains key then pure (value, tokens)
      else tokenizeNode mint excludeKeys (depth + 1) value tokens)
    let (rest, tokens) ← tokenizeFields mint excludeKeys depth rest tokens
    return (.cons key value rest, tokens)
end

/-- One hit of the loop of `structured_pass`. -/
def passHit (pr : Primitives) (p : Pipeline) (allowRoot : Bool) (acc : Value × List Token)
    (hit : StructuredHit) : Minting (Value × List Token) :=
  if hit.pointer.isEmpty && !allowRoot then return acc
  else
    match acc.1.pointer hit.pointer with
    | none => return acc
    | some pos =>
      match acc.1.at pos with
      | none => return acc
      | some node => do
        let (node, tokens) ← tokenizeNode (fun original v => mintToken pr p v original hit.rule.rule)
          hit.rule.excludeKeys 0 node acc.2
        return (acc.1.setAt pos node, tokens)

def structuredPass (pr : Primitives) (p : Pipeline) (structured : List JsonPathRule) (value : Value)
    (ctx : ToolContext) (source : Source) (tokens : List Token) (allowRoot : Bool) :
    Minting (Value × List Token) :=
  (applyStructured structured value ctx (p.settingFor source)).foldlM (passHit pr p allowRoot)
    (value, tokens)

/-! ## Runs that return -/

def Minting.Returns {α : Type} (call : Minting α) (before : Vault) (out : α) (after : Vault) : Prop :=
  call.run.run before = (.ok out, after)

section Returns

variable {α β : Type} {before after : Vault}

theorem Minting.Returns.of_pure {a out : α} (ran : (pure a : Minting α).Returns before out after) :
    out = a := by
  have same : (Except.ok a, before) = (Except.ok (ε := RedactionError) out, after) := ran
  exact (Except.ok.inj (Prod.mk.inj same).1).symm

theorem Minting.Returns.of_bind {call : Minting α} {next : α → Minting β} {out : β}
    (ran : (call >>= next).Returns before out after) :
    ∃ a between, call.Returns before a between ∧ (next a).Returns between out after := by
  rw [Returns, ExceptT.run_bind, StateT.run_bind] at ran
  cases first : call.run.run before with
  | mk result between =>
    rw [first] at ran
    cases result with
    | ok a => exact ⟨a, between, first, ran⟩
    | error e => cases (Prod.mk.inj ran).1

end Returns

/-! ## What becomes of a node -/

/-- What a scalar would have minted: nothing if it is null, empty or already a token. -/
def Value.Head.plain : Value.Head → Option Text
  | .string s => if s = [] ∨ (Token.parse s).isSome then none else some s
  | .bool b => some (boolText b)
  | .number literal => some literal
  | .null | .array _ | .object _ => none

/-- A scalar with a text becomes the token of that text; any other node stays. -/
def Masks (wire : Text → Text) (old new : Value.Head) : Prop :=
  match old.plain with
  | some original => ∃ tok : Token, tok.wire = wire original ∧ new = .string tok.wire
  | none => new = old

def Step.excluded (excludeKeys : List Text) : Step → Bool
  | .key name => excludeKeys.contains name
  | .index _ => false

def passesExcluded (excludeKeys : List Text) (pos : Position) : Bool := pos.any (Step.excluded excludeKeys)

/-- Below a hit: masked, unless an excluded key is on the way. -/
def MasksBelow (wire : Text → Text) (excludeKeys : List Text) (pos : Position) (old new : Value.Head) :
    Prop :=
  if passesExcluded excludeKeys pos then new = old else Masks wire old new

/-- Every node is fewer than `n` steps down. -/
def Value.Within (v : Value) (n : Nat) : Prop := ∀ pos node, v.at pos = some node → pos.length < n

theorem Token.parse_wire (tok : Token) : Token.parse tok.wire = some tok :=
  Token.parse_eq_some_iff.mpr rfl

theorem plain_token (tok : Token) : (Value.Head.string tok.wire).plain = none :=
  if_pos (.inr (by rw [tok.parse_wire]; rfl))

section Node

variable {wire : Text → Text} {excludeKeys : List Text}

theorem masksBelow_excluded {name : Text} (excluded : excludeKeys.contains name) (pos : Position)
    (h : Value.Head) : MasksBelow wire excludeKeys (.key name :: pos) h h := by
  have passes : passesExcluded excludeKeys (.key name :: pos) = true := by
    rw [passesExcluded, List.any_cons, Step.excluded, excluded]
    rfl
  rw [MasksBelow, if_pos passes]

theorem masksBelow_key {name : Text} (kept : ¬excludeKeys.contains name) (pos : Position) :
    MasksBelow wire excludeKeys (.key name :: pos) = MasksBelow wire excludeKeys pos := by
  have passes : passesExcluded excludeKeys (.key name :: pos) = passesExcluded excludeKeys pos := by
    rw [passesExcluded, List.any_cons, Step.excluded, Bool.eq_false_iff.mpr kept]
    rfl
  funext old new
  rw [MasksBelow, MasksBelow, passes]

theorem masksBelow_index (i : Nat) (pos : Position) :
    MasksBelow wire excludeKeys (.index i :: pos) = MasksBelow wire excludeKeys pos := rfl

theorem masksBelow_root {old new : Value.Head} (masks : Masks wire old new) :
    MasksBelow wire excludeKeys [] old new := masks

theorem Value.Within.child {v inner : Value} {step : Step} {n : Nat} (within : v.Within (n + 1))
    (first : v.child step = some inner) : inner.Within n := by
  intro pos node found
  have below := within (step :: pos) node (by rw [at_cons, first]; exact found)
  exact Nat.lt_of_succ_lt_succ below

theorem Value.Within.pos {v : Value} {n : Nat} (within : v.Within n) : 0 < n := within [] v rfl

theorem related_scalar {R : Position → Value.Head → Value.Head → Prop} {v v' : Value}
    (here : R [] v.head v'.head) (leaf : ∀ step, v.child step = none)
    (leaf' : ∀ step, v'.child step = none) : v.Related R v' := by
  apply Value.related_of_children here
  intro step
  rw [leaf step, leaf' step]
  exact .none

theorem child_string (s : Text) (step : Step) : (Value.string s).child step = none := by
  cases step <;> rfl

variable {mint : Text → Minting Token}

mutual
/-- **Below a hit every scalar with a text is masked**, but for what an excluded key hides. -/
theorem tokenizeNode_related (minted : ∀ original before tok after, (mint original).Returns before tok after →
      tok.wire = wire original) :
    (v : Value) → ∀ {depth : Nat} {tokens : List Token} {out : Value × List Token}
      {before after : Vault}, v.Within (maxPathDepth - depth) →
      (tokenizeNode mint excludeKeys depth v tokens).Returns before out after →
      v.Related (MasksBelow wire excludeKeys) out.1
  | .null, depth, tokens, out, before, after, within, ran => by
    rw [tokenizeNode] at ran
    rw [ran.of_pure]
    exact related_scalar (masksBelow_root rfl) (fun step => by cases step <;> rfl)
      (fun step => by cases step <;> rfl)
  | .string s, depth, tokens, out, before, after, within, ran => by
    have room := within.pos
    rw [tokenizeNode, if_neg (by omega)] at ran
    split at ran
    · rename_i skipped
      rw [ran.of_pure]
      have none : (Value.Head.string s).plain = none := if_pos skipped
      refine related_scalar (masksBelow_root ?_) (child_string s) (child_string s)
      simp [Masks, Value.head, none]
    rename_i clear
    obtain ⟨tok, between, made, rest⟩ := ran.of_bind
    rw [rest.of_pure]
    have some : (Value.Head.string s).plain = some s := if_neg clear
    refine related_scalar (masksBelow_root ?_) (child_string s) (child_string _)
    simp only [Masks, Value.head, some]
    exact ⟨tok, minted _ _ _ _ made, rfl⟩
  | .bool b, depth, tokens, out, before, after, within, ran => by
    have room := within.pos
    rw [tokenizeNode, if_neg (by omega)] at ran
    obtain ⟨tok, between, made, rest⟩ := ran.of_bind
    rw [rest.of_pure]
    exact related_scalar (masksBelow_root ⟨tok, minted _ _ _ _ made, rfl⟩)
      (fun step => by cases step <;> rfl) (child_string _)
  | .number literal, depth, tokens, out, before, after, within, ran => by
    have room := within.pos
    rw [tokenizeNode, if_neg (by omega)] at ran
    obtain ⟨tok, between, made, rest⟩ := ran.of_bind
    rw [rest.of_pure]
    exact related_scalar (masksBelow_root ⟨tok, minted _ _ _ _ made, rfl⟩)
      (fun step => by cases step <;> rfl) (child_string _)
  | .array values, depth, tokens, out, before, after, within, ran => by
    have room := within.pos
    rw [tokenizeNode, if_neg (by omega)] at ran
    obtain ⟨⟨values', tokens'⟩, between, walked, rest⟩ := ran.of_bind
    rw [rest.of_pure]
    have step : maxPathDepth - depth = maxPathDepth - (depth + 1) + 1 := by omega
    rw [step] at within
    obtain ⟨length, items⟩ := tokenizeItems_related minted values
      (fun i value found =>
        within.child (show (Value.array values).child (.index i) = some value from found)) walked
    apply Value.related_of_children
    · apply masksBelow_root
      show Value.Head.array values'.length = Value.Head.array values.length
      rw [length]
    · intro step
      cases step with
      | key name => exact .none
      | index i =>
        simp only [masksBelow_index]
        exact items i
  | .object fields, depth, tokens, out, before, after, within, ran => by
    have room := within.pos
    rw [tokenizeNode, if_neg (by omega)] at ran
    obtain ⟨⟨fields', tokens'⟩, between, walked, rest⟩ := ran.of_bind
    rw [rest.of_pure]
    have step : maxPathDepth - depth = maxPathDepth - (depth + 1) + 1 := by omega
    rw [step] at within
    obtain ⟨keys, inside⟩ := tokenizeFields_related minted fields walked
    apply Value.related_of_children
    · apply masksBelow_root
      show Value.Head.object fields'.keys = Value.Head.object fields.keys
      rw [keys]
    · intro step
      cases step with
      | key name =>
        exact inside name fun value found =>
          within.child (show (Value.object fields).child (.key name) = some value from found)
      | index i => exact .none
theorem tokenizeItems_related (minted : ∀ original before tok after, (mint original).Returns before tok after →
      tok.wire = wire original) :
    (values : Values) → ∀ {depth : Nat} {tokens : List Token} {out : Values × List Token}
      {before after : Vault},
      (∀ i value, values.get i = some value → value.Within (maxPathDepth - (depth + 1))) →
      (tokenizeItems mint excludeKeys depth values tokens).Returns before out after →
      out.1.length = values.length ∧
        ∀ i, Value.Beside (Value.Related (MasksBelow wire excludeKeys)) (values.get i) (out.1.get i)
  | .nil, depth, tokens, out, before, after, _, ran => by
    rw [tokenizeItems] at ran
    rw [ran.of_pure]
    exact ⟨rfl, fun _ => .none⟩
  | .cons value rest, depth, tokens, out, before, after, within, ran => by
    rw [tokenizeItems] at ran
    obtain ⟨⟨value', tokens'⟩, between, here, more⟩ := ran.of_bind
    obtain ⟨⟨rest', tokens''⟩, between', there, last⟩ := more.of_bind
    rw [last.of_pure]
    obtain ⟨length, items⟩ := tokenizeItems_related minted rest (fun i => within (i + 1)) there
    refine ⟨congrArg (· + 1) length, fun i => ?_⟩
    cases i with
    | zero => exact .some (tokenizeNode_related minted value (within 0 value rfl) here)
    | succ i => exact items i
/-- A repeated key hides the later field, so only the first one counts. -/
theorem tokenizeFields_related (minted : ∀ original before tok after, (mint original).Returns before tok after →
      tok.wire = wire original) :
    (fields : Fields) → ∀ {depth : Nat} {tokens : List Token} {out : Fields × List Token}
      {before after : Vault}, (tokenizeFields mint excludeKeys depth fields tokens).Returns before out after →
      out.1.keys = fields.keys ∧ ∀ name,
        (∀ value, fields.get name = some value → value.Within (maxPathDepth - (depth + 1))) →
        Value.Beside (Value.Related fun pos => MasksBelow wire excludeKeys (.key name :: pos))
          (fields.get name) (out.1.get name)
  | .nil, depth, tokens, out, before, after, ran => by
    rw [tokenizeFields] at ran
    rw [ran.of_pure]
    exact ⟨rfl, fun _ _ => .none⟩
  | .cons key value rest, depth, tokens, out, before, after, ran => by
    rw [tokenizeFields] at ran
    obtain ⟨⟨value', tokens'⟩, between, here, more⟩ := ran.of_bind
    obtain ⟨⟨rest', tokens''⟩, between', there, last⟩ := more.of_bind
    rw [last.of_pure]
    obtain ⟨keys, inside⟩ := tokenizeFields_related minted rest there
    refine ⟨congrArg (key :: ·) keys, fun name within => ?_⟩
    simp only [Fields.get] at within ⊢
    by_cases same : key = name
    · subst same
      rw [if_pos rfl, if_pos rfl]
      rw [if_pos rfl] at within
      apply Value.Beside.some
      split at here
      · rename_i excluded
        cases here.of_pure
        exact Value.related_refl (masksBelow_excluded excluded)
      · rename_i kept
        simp only [masksBelow_key kept]
        exact tokenizeNode_related minted value (within value rfl) here
    · rw [if_neg same] at within ⊢
      rw [if_neg same]
      exact inside name within
end

end Node

/-! ## One hit -/

/-- A hit of the pass, at the position its pointer names. -/
structure StructuredHit.Aims (hit : StructuredHit) (value : Value) (top : Position) : Prop where
  there : (value.at top).isSome
  pointer : hit.pointer = pointerOf top

/-- The pass goes on at this hit and comes by this position. -/
def StructuredHit.Reaches (hit : StructuredHit) (value : Value) (allowRoot : Bool) (pos : Position) :
    Prop :=
  ∃ top rest, hit.Aims value top ∧ pos = top ++ rest ∧ (top = [] → allowRoot = true) ∧
    passesExcluded hit.rule.excludeKeys rest = false

/-- One node, before and after: `chosen` are the rules that select it. -/
def Replaced (pr : Primitives) (p : Pipeline) (chosen : JsonPathRule → Prop)
    (old new : Value.Head) : Prop :=
  match old.plain with
  | some original =>
    (∃ rule, chosen rule ∧
      ∃ tok : Token, tok.wire = p.wireFor pr rule.rule original ∧ new = .string tok.wire) ∨
    ((∀ rule, ¬chosen rule) ∧ new = old)
  | none => new = old

variable {v v' : Value} {R : Position → Value.Head → Value.Head → Prop} {hit : StructuredHit} {top : Position}

theorem Value.Within.related {n : Nat} (within : v.Within n) (related : v.Related R v') : v'.Within n := by
  intro pos node found
  have beside := related pos
  rw [found] at beside
  generalize known : v.at pos = old at beside
  cases beside with
  | some _ => exact within pos _ known

theorem StructuredHit.Aims.related (aims : hit.Aims v top) (related : v.Related R v') : hit.Aims v' top := by
  refine ⟨?_, aims.pointer⟩
  have here := aims.there
  have beside := related top
  generalize v.at top = old at here beside
  generalize v'.at top = new at beside
  cases beside with
  | none => exact here
  | some _ => rfl

theorem StructuredHit.Aims.unique {top' : Position}
    (aims : hit.Aims v top) (aims' : hit.Aims v top') : top = top' := by
  obtain ⟨node, found⟩ := Option.isSome_iff_exists.mp aims.there
  obtain ⟨node', found'⟩ := Option.isSome_iff_exists.mp aims'.there
  have first := Value.pointer_pointerOf found
  rw [← aims.pointer, aims'.pointer, Value.pointer_pointerOf found'] at first
  exact (Option.some.inj first).symm

section Pass

variable {pr : Primitives} {p : Pipeline} {allowRoot : Bool}

variable {hit : StructuredHit} {acc out : Value × List Token} {before after : Vault} {value : Value}
  {done : List StructuredHit}

/-- **One hit masks what it reaches and leaves the rest.** -/
theorem passHit_related
    {top : Position} (aims : hit.Aims acc.1 top) (within : acc.1.Within maxPathDepth)
    (ran : (passHit pr p allowRoot acc hit).Returns before out after) : acc.1.Related (fun pos old new =>
      (hit.Reaches acc.1 allowRoot pos → Masks (p.wireFor pr hit.rule.rule) old new) ∧
        (¬hit.Reaches acc.1 allowRoot pos → new = old)) out.1 := by
  obtain ⟨node, found⟩ := Option.isSome_iff_exists.mp aims.there
  unfold passHit at ran
  split at ran
  · rename_i skipped
    rw [ran.of_pure]
    refine Value.related_refl fun pos h => ⟨?_, fun _ => rfl⟩
    rintro ⟨top', rest, aims', -, rooted, -⟩
    simp only [Bool.and_eq_true, List.isEmpty_iff, Bool.not_eq_true'] at skipped
    have root : top' = [] := by
      have empty := skipped.1
      rw [aims'.pointer, pointerOf, PointerAlphabet.render_eq_nil] at empty
      exact List.map_eq_nil_iff.mp empty
    rw [rooted root] at skipped
    cases skipped.2
  · rename_i taken
    have located : acc.1.pointer hit.pointer = some top := by
      rw [aims.pointer]
      exact Value.pointer_pointerOf found
    simp only [located, found] at ran
    obtain ⟨⟨node', tokens⟩, between, walked, rest⟩ := ran.of_bind
    rw [rest.of_pure]
    have below := @tokenizeNode_related (p.wireFor pr hit.rule.rule) _ _
      (fun original before tok after made => (mintToken_ok made).1) node _ _ _ _ _
      (fun pos inner there => by
        have whole := within (top ++ pos) inner (by rw [Value.at_append, found]; exact there)
        rw [List.length_append] at whole
        omega) walked
    have rooted : top = [] → allowRoot = true := by
      rintro rfl
      simpa [aims.pointer, pointerOf, PointerAlphabet.render_eq_nil] using taken
    refine Value.related_setAt found ?_ ?_
    · intro pos
      have here := below pos
      generalize node.at pos = old at here
      generalize node'.at pos = new at here
      cases here with
      | none => exact .none
      | some related =>
        refine .some ⟨?_, ?_⟩
        · rintro ⟨top', rest, aims', same, -, free⟩
          cases aims'.unique aims
          cases List.append_cancel_left same
          rw [MasksBelow, free] at related
          exact related
        · intro missed
          unfold MasksBelow at related
          split at related
          · exact related
          · rename_i free
            exact absurd ⟨top, pos, aims, rfl, rooted, Bool.eq_false_iff.mpr free⟩ missed
    · intro pos h apart
      refine ⟨?_, fun _ => rfl⟩
      rintro ⟨top', rest, aims', rfl, -, -⟩
      cases aims'.unique aims
      exact absurd (List.prefix_append _ _) apart

def Reaching (value : Value) (allowRoot : Bool) (hits : List StructuredHit) (pos : Position)
    (rule : JsonPathRule) : Prop :=
  ∃ hit ∈ hits, hit.rule = rule ∧ hit.Reaches value allowRoot pos

/-- One more hit: a masked node is a token and stays, any other is masked if it is reached. -/
theorem replaced_step
    {pos : Position} {old middle new : Value.Head}
    (sofar : Replaced pr p (Reaching value allowRoot done pos) old middle)
    (reached : hit.Reaches value allowRoot pos → Masks (p.wireFor pr hit.rule.rule) middle new)
    (missed : ¬hit.Reaches value allowRoot pos → new = middle) :
    Replaced pr p (Reaching value allowRoot (done ++ [hit]) pos) old new := by
  have quiet : middle.plain = none → new = middle := by
    intro none
    by_cases reaches : hit.Reaches value allowRoot pos
    · have masks := reached reaches
      simpa only [Masks, none] using masks
    · exact missed reaches
  have earlier : ∀ rule, Reaching value allowRoot done pos rule →
      Reaching value allowRoot (done ++ [hit]) pos rule := by
    rintro rule ⟨one, listed, same⟩
    exact ⟨one, List.mem_append_left _ listed, same⟩
  unfold Replaced at sofar ⊢
  cases kind : old.plain with
  | none =>
    rw [kind] at sofar
    subst sofar
    exact quiet kind
  | some original =>
    rw [kind] at sofar
    rcases sofar with ⟨rule, chosen, tok, wire, rfl⟩ | ⟨free, rfl⟩
    · exact .inl ⟨rule, earlier rule chosen, tok, wire, quiet (plain_token tok)⟩
    by_cases reaches : hit.Reaches value allowRoot pos
    · have masks := reached reaches
      simp only [Masks, kind] at masks
      exact .inl ⟨hit.rule, ⟨hit, List.mem_append_right _ List.mem_cons_self, rfl, reaches⟩, masks⟩
    refine .inr ⟨?_, missed reaches⟩
    rintro rule ⟨one, listed, same, reaches'⟩
    rcases List.mem_append.mp listed with old | last
    · exact free rule ⟨one, old, same, reaches'⟩
    · cases List.mem_singleton.mp last
      exact reaches reaches'

theorem pass_related {hits : List StructuredHit}
    (aims : ∀ hit ∈ hits, ∃ top, hit.Aims value top) (within : value.Within maxPathDepth)
    (sofar : value.Related (fun pos => Replaced pr p (Reaching value allowRoot done pos)) acc.1)
    (ran : Minting.Returns (hits.foldlM (passHit pr p allowRoot) acc) before out after) :
    value.Related (fun pos => Replaced pr p (Reaching value allowRoot (done ++ hits) pos)) out.1 := by
  induction hits generalizing done acc before with
  | nil =>
    rw [List.foldlM_nil] at ran
    rw [ran.of_pure, List.append_nil]
    exact sofar
  | cons hit rest ih =>
    rw [List.foldlM_cons] at ran
    obtain ⟨next, between, first, later⟩ := ran.of_bind
    obtain ⟨top, here⟩ := aims hit List.mem_cons_self
    have step := passHit_related (here.related sofar) (within.related sofar) first
    have same : ∀ pos, hit.Reaches acc.1 allowRoot pos ↔ hit.Reaches value allowRoot pos := by
      intro pos
      constructor
      · rintro ⟨top', back, there, split, rooted, free⟩
        cases there.unique (here.related sofar)
        exact ⟨top, back, here, split, rooted, free⟩
      · rintro ⟨top', back, there, split, rooted, free⟩
        exact ⟨top', back, there.related sofar, split, rooted, free⟩
    rw [← List.singleton_append, ← List.append_assoc]
    refine ih (fun one listed => aims one (List.mem_cons_of_mem _ listed)) ?_ later
    refine sofar.trans step fun pos old middle new done hit => ?_
    exact replaced_step done (fun reaches => hit.1 ((same pos).mpr reaches))
      fun missed => hit.2 fun reaches => missed ((same pos).mp reaches)

end Pass

/-! ## The pass -/

/-- A rule selects a position: it applies, one of its paths means the position or one above
it, and on the way down from there is none of its excluded keys.  The root counts only where it
may be taken. -/
def Selected (structured : List JsonPathRule) (value : Value) (ctx : ToolContext)
    (setting : SourceSetting) (allowRoot : Bool) (pos : Position) (rule : JsonPathRule) : Prop :=
  rule ∈ structured ∧ rule.applies value ctx setting = true ∧
    ∃ path ∈ rule.paths, ∃ top rest, pos = top ++ rest ∧ path.Selects top ∧
      (top = [] → allowRoot = true) ∧ passesExcluded rule.excludeKeys rest = false

section Document

variable (doc : Document) (structured : List JsonPathRule) (ctx : ToolContext)
  (setting : SourceSetting)

theorem mem_applyStructured (shallow : doc.value.depth < maxPathDepth) (hit : StructuredHit) :
    hit ∈ applyStructured structured doc.value ctx setting ↔
      hit.rule ∈ structured ∧ hit.rule.applies doc.value ctx setting = true ∧
        ∃ path ∈ hit.rule.paths, ∃ top, path.Selects top ∧ hit.Aims doc.value top := by
  simp only [applyStructured, List.mem_flatMap, List.mem_filter, List.mem_map,
    JsonPathRule.resolvePointers, List.mem_eraseDups, mem_resolve (Found.shallow_of_depth shallow) doc.distinct]
  constructor
  · rintro ⟨rule, ⟨listed, applies⟩, _, ⟨path, given, top, node, selects, found, rfl⟩, rfl⟩
    exact ⟨listed, applies, path, given, top, selects, Option.isSome_of_eq_some found, rfl⟩
  · rintro ⟨listed, applies, path, given, top, selects, there, pointer⟩
    obtain ⟨node, found⟩ := Option.isSome_iff_exists.mp there
    exact ⟨hit.rule, ⟨listed, applies⟩, hit.pointer, ⟨path, given, top, node, selects, found, pointer⟩, rfl⟩

/-- At a position that is there, the rules that reach it are the rules that select it. -/
theorem reaching_iff (shallow : doc.value.depth < maxPathDepth) (allowRoot : Bool) {pos : Position}
    (there : (doc.value.at pos).isSome) (rule : JsonPathRule) :
    Reaching doc.value allowRoot (applyStructured structured doc.value ctx setting) pos rule ↔
      Selected structured doc.value ctx setting allowRoot pos rule := by
  constructor
  · rintro ⟨hit, listed, rfl, top, rest, aims, split, rooted, free⟩
    obtain ⟨known, applies, path, given, top', selects, aims'⟩ :=
      (mem_applyStructured doc structured ctx setting shallow hit).mp listed
    cases aims.unique aims'
    exact ⟨known, applies, path, given, top, rest, split, selects, rooted, free⟩
  · rintro ⟨known, applies, path, given, top, rest, rfl, selects, rooted, free⟩
    have above : (doc.value.at top).isSome := by
      rw [Value.at_append] at there
      exact Option.isSome_of_isSome_bind there
    have aims : StructuredHit.Aims ⟨pointerOf top, rule⟩ doc.value top := ⟨above, rfl⟩
    exact ⟨⟨pointerOf top, rule⟩, (mem_applyStructured doc structured ctx setting shallow _).mpr
        ⟨known, applies, path, given, top, selects, aims⟩,
      rfl, top, rest, aims, rfl, rooted, free⟩

end Document

/-- **The structured pass is exact.**  In a document that is not as deep as the bound, a pass
that returned replaced exactly the scalars that hold something, are no tokens and are selected,
each by a token of its text under a rule that selects it; the rest, the keys with their order
and the lengths of the arrays are as they were. -/
theorem structuredPass_exact (pr : Primitives) (p : Pipeline) (structured : List JsonPathRule)
    (doc : Document) (ctx : ToolContext) (source : Source) (allowRoot : Bool)
    {tokens tokens' : List Token} {value' : Value} {before after : Vault}
    (shallow : doc.value.depth < maxPathDepth)
    (ran : (structuredPass pr p structured doc.value ctx source tokens allowRoot).Returns before
      (value', tokens') after) :
    doc.value.Related (fun pos => Replaced pr p
      (Selected structured doc.value ctx (p.settingFor source) allowRoot pos)) value' := by
  have within : doc.value.Within maxPathDepth := by
    intro pos node found
    have below := Value.depth_at found
    omega
  have start : doc.value.Related
      (fun pos => Replaced pr p (Reaching doc.value allowRoot [] pos)) doc.value := by
    refine Value.related_refl fun pos h => ?_
    unfold Replaced
    cases h.plain with
    | none => rfl
    | some original =>
      refine .inr ⟨?_, rfl⟩
      rintro rule ⟨hit, listed, -⟩
      cases listed
  have whole := pass_related
    (fun hit listed => by
      obtain ⟨-, -, -, -, top, -, aims⟩ :=
        (mem_applyStructured doc structured ctx (p.settingFor source) shallow hit).mp listed
      exact ⟨top, aims⟩) within start ran
  intro pos
  have here := whole pos
  have rules := fun there : (doc.value.at pos).isSome =>
    reaching_iff doc structured ctx (p.settingFor source) shallow allowRoot there
  generalize doc.value.at pos = old at here rules
  generalize value'.at pos = new at here
  cases here with
  | none => exact .none
  | some related =>
    have same := funext fun rule => propext (rules rfl rule)
    rw [List.nil_append, same] at related
    exact .some related

/-! ### One field -/

/-- A rule without gates on the given paths, for category `B`. -/
def pathRule (paths : List JsonPath) : JsonPathRule where
  rule := { ruleB with matchText := fun _ => [], valid := fun _ _ listed => by cases listed }
  paths := paths
  matchTool := none
  matchArgs := []
  matchResult := []
  excludeKeys := []
  noText _ := rfl

def sampleDocument : Document where
  value := .object (.cons [0x78] (.string [0x73]) (.cons [0x79] (.bool true) .nil))
  distinct := by decide

theorem structuredPass_sample : ∃ value' tokens' after,
      Minting.Returns (structuredPass stillWorld shadowPipeline [pathRule [[.key [0x78]]]]
        sampleDocument.value ⟨[], none⟩ (.toolResult []) [] false) ⟨[], 0⟩ (value', tokens') after ∧
      sampleDocument.value.Related (fun pos => Replaced stillWorld shadowPipeline
        (Selected [pathRule [[.key [0x78]]]] sampleDocument.value ⟨[], none⟩
          (shadowPipeline.settingFor (.toolResult [])) false pos)) value' := by
  have ok : ((structuredPass stillWorld shadowPipeline [pathRule [[.key [0x78]]]]
      sampleDocument.value ⟨[], none⟩ (.toolResult []) [] false).run.run ⟨[], 0⟩).1.isOk := by
    decide
  cases ran : (structuredPass stillWorld shadowPipeline [pathRule [[.key [0x78]]]]
      sampleDocument.value ⟨[], none⟩ (.toolResult []) [] false).run.run ⟨[], 0⟩ with
  | mk result after =>
    rw [ran] at ok
    cases result with
    | error e => cases ok
    | ok out =>
      exact ⟨out.1, out.2, after, ran, structuredPass_exact stillWorld shadowPipeline _
        sampleDocument ⟨[], none⟩ (.toolResult []) false (by decide) ran⟩

/-- A bare string, selected by the path of the root, is left as it is where the root may not
be taken. -/
theorem root_hit_skipped :
    (pathRule [[]]).applies (.string [0x78]) ⟨[], none⟩ (shadowPipeline.settingFor (.toolResult [])) ∧
      [] ∈ (pathRule [[]]).paths ∧ JsonPath.Selects [] [] ∧ (Value.string [0x78]).head.plain = some [0x78] ∧
      Minting.Returns (structuredPass stillWorld shadowPipeline [pathRule [[]]] (.string [0x78])
        ⟨[], none⟩ (.toolResult []) [] false) ⟨[], 0⟩ (.string [0x78], []) ⟨[], 0⟩ := by
  exact ⟨rfl, List.mem_singleton_self _, rfl, by decide, rfl⟩

end DuDuClaw.Redaction
