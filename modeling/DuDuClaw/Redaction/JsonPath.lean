/-
# Redaction.JsonPath -- which nodes a path selects

The paths of structured rules (rules/json_path.rs): parsed segments, and their resolution
against a value by a frontier of pointers and nodes.

* `JsonPath.Selects`: what a path means, on positions alone.
* `mem_collectDescend`: the recursive descent meets every field of its name.
* `mem_resolve`: resolution gives the pointers of exactly the positions that are there and
  that the path means, as long as the value is not as deep as the bound.
* `resolve_exact`: each of them once, and each leads back to its node.
-/
import DuDuClaw.Redaction.Document

namespace DuDuClaw.Redaction

open DuDuClaw.Lib

/-! ## Resolution -/

def maxPathDepth : Nat := 64

inductive JsonPath.Segment where
  | key (name : Text)
  | allIndices
  | index (n : Nat)
  | descend (name : Text)
  | allChildren

/-- `JsonPath`, parsed. -/
abbrev JsonPath := List JsonPath.Segment

structure Found where
  pointer : Text
  value : Value
  depth : Nat

def pushToken (pointer token : Text) : Text := pointerBytes.push pointer token

/-- `arr.iter().enumerate()`, counted from `from_`. -/
def Values.enumerate : Values → Nat → List (Nat × Value)
  | .nil, _ => []
  | .cons value rest, from_ => (from_, value) :: rest.enumerate (from_ + 1)

def Fields.entries : Fields → List (Text × Value)
  | .nil => []
  | .cons key value rest => (key, value) :: rest.entries

mutual
def collectDescend (name : Text) : Text → Value → Nat → List Found
  | pointer, .object fields, depth =>
    if maxPathDepth ≤ depth then []
    else
      (fields.get name).toList.map (fun child => ⟨pushToken pointer name, child, depth + 1⟩) ++
        collectFields name pointer fields depth
  | pointer, .array values, depth =>
    if maxPathDepth ≤ depth then [] else collectItems name pointer 0 values depth
  | _, .null, _ | _, .bool _, _ | _, .number _, _ | _, .string _, _ => []
def collectItems (name : Text) : Text → Nat → Values → Nat → List Found
  | _, _, .nil, _ => []
  | pointer, idx, .cons value rest, depth =>
    collectDescend name (pushToken pointer (decimal idx)) value (depth + 1) ++
      collectItems name pointer (idx + 1) rest depth
def collectFields (name : Text) : Text → Fields → Nat → List Found
  | _, .nil, _ => []
  | pointer, .cons key value rest, depth =>
    collectDescend name (pushToken pointer key) value (depth + 1) ++
      collectFields name pointer rest depth
end

def JsonPath.Segment.expand (seg : JsonPath.Segment) (found : Found) : List Found :=
  if maxPathDepth ≤ found.depth then []
  else
    match seg, found.value with
    | .key name, .object fields =>
      (fields.get name).toList.map fun child =>
        ⟨pushToken found.pointer name, child, found.depth + 1⟩
    | .allIndices, .array values =>
      (values.enumerate 0).map fun (idx, child) =>
        ⟨pushToken found.pointer (decimal idx), child, found.depth + 1⟩
    | .index n, .array values =>
      (values.get n).toList.map fun child =>
        ⟨pushToken found.pointer (decimal n), child, found.depth + 1⟩
    | .allChildren, .object fields =>
      fields.entries.map fun (name, child) =>
        ⟨pushToken found.pointer name, child, found.depth + 1⟩
    | .allChildren, .array values =>
      (values.enumerate 0).map fun (idx, child) =>
        ⟨pushToken found.pointer (decimal idx), child, found.depth + 1⟩
    | .descend name, value => collectDescend name found.pointer value found.depth
    | _, _ => []

/-- The frontier after the segments; an empty one stays empty. -/
def JsonPath.frontier (path : JsonPath) (start : List Found) : List Found :=
  path.foldl (fun frontier seg => frontier.flatMap seg.expand) start

def JsonPath.resolve (path : JsonPath) (root : Value) : List Text :=
  ((path.frontier [⟨[], root, 0⟩]).map Found.pointer).eraseDups

/-! ## What a path means -/

def JsonPath.Segment.Selects : JsonPath.Segment → Position → Prop
  | .key name, pos => pos = [.key name]
  | .allIndices, pos => ∃ i, pos = [.index i]
  | .index n, pos => pos = [.index n]
  | .descend name, pos => ∃ front, pos = front ++ [.key name]
  | .allChildren, pos => ∃ step, pos = [step]

def JsonPath.Selects : JsonPath → Position → Prop
  | [], pos => pos = []
  | seg :: rest, pos => ∃ front back, pos = front ++ back ∧ seg.Selects front ∧ JsonPath.Selects rest back

/-! ## Maps without repeated keys -/

mutual
/-- No map has a key twice. -/
def Value.distinct : Value → Bool
  | .array values => values.distinct
  | .object fields => fields.distinct
  | .null | .bool _ | .number _ | .string _ => true
def Values.distinct : Values → Bool
  | .nil => true
  | .cons value rest => value.distinct && rest.distinct
def Fields.distinct : Fields → Bool
  | .nil => true
  | .cons key value rest => !rest.keys.contains key && value.distinct && rest.distinct
end

theorem Values.mem_enumerate {values : Values} {from_ idx : Nat} {value : Value} :
    (idx, value) ∈ values.enumerate from_ ↔ ∃ i, idx = from_ + i ∧ values.get i = some value := by
  induction hb : values.length generalizing values from_ with
  | zero =>
    cases values with
    | nil => simp [enumerate, get]
    | cons first rest => simp [length] at hb
  | succ n ih =>
    cases values with
    | nil => simp [length] at hb
    | cons first rest =>
      simp only [enumerate, List.mem_cons, Prod.mk.injEq, ih (Nat.succ.inj hb)]
      constructor
      · rintro (⟨rfl, rfl⟩ | ⟨i, rfl, there⟩)
        · exact ⟨0, rfl, rfl⟩
        · exact ⟨i + 1, by omega, there⟩
      · rintro ⟨i, rfl, there⟩
        cases i with
        | zero => exact .inl ⟨rfl, (Option.some.inj there).symm⟩
        | succ i => exact .inr ⟨i, by omega, there⟩

theorem Fields.mem_keys : (fields : Fields) → {name : Text} →
    name ∈ fields.keys ↔ ∃ value, (name, value) ∈ fields.entries
  | .nil, _ => by simp [keys, entries]
  | .cons key first rest, name => by
    simp only [keys, entries, List.mem_cons, rest.mem_keys, Prod.mk.injEq]
    constructor
    · rintro (rfl | ⟨value, listed⟩)
      · exact ⟨first, .inl ⟨rfl, rfl⟩⟩
      · exact ⟨value, .inr listed⟩
    · rintro ⟨value, ⟨rfl, -⟩ | listed⟩
      · exact .inl rfl
      · exact .inr ⟨value, listed⟩

/-- Without repeated keys an entry is what its key gives. -/
theorem Fields.mem_entries : (fields : Fields) → (unique : fields.distinct = true) →
    {name : Text} → {value : Value} → ((name, value) ∈ fields.entries ↔ fields.get name = some value)
  | .nil, _, _, _ => by simp [entries, get]
  | .cons key first rest, unique, name, value => by
    simp only [distinct, Bool.and_eq_true, Bool.not_eq_true', List.contains_eq_mem,
      decide_eq_false_iff_not] at unique
    have below := @Fields.mem_entries rest unique.2 name value
    simp only [entries, get, List.mem_cons, Prod.mk.injEq]
    by_cases here : key = name
    · subst here
      rw [if_pos rfl]
      constructor
      · rintro (⟨-, rfl⟩ | listed)
        · rfl
        · exact absurd (rest.mem_keys.mpr ⟨value, listed⟩) unique.1.1
      · intro same
        exact .inl ⟨rfl, (Option.some.inj same).symm⟩
    · rw [if_neg here, ← below]
      simp [Ne.symm here]

theorem Values.distinct_get : (values : Values) → values.distinct = true → {i : Nat} →
    {value : Value} → values.get i = some value → value.distinct = true
  | .nil, _, _, _, found => nomatch found
  | .cons first rest, unique, i, value, found => by
    simp only [distinct, Bool.and_eq_true] at unique
    cases i with
    | zero =>
      cases found
      exact unique.1
    | succ i => exact rest.distinct_get unique.2 found

theorem Fields.distinct_get : (fields : Fields) → fields.distinct = true → {name : Text} →
    {value : Value} → fields.get name = some value → value.distinct = true
  | .nil, _, _, _, found => nomatch found
  | .cons key first rest, unique, name, value, found => by
    simp only [distinct, Bool.and_eq_true] at unique
    rw [get] at found
    split at found
    · cases found
      exact unique.1.2
    · exact rest.distinct_get unique.2 found

theorem Value.distinct_child {v inner : Value} {step : Step} (unique : v.distinct = true)
    (found : v.child step = some inner) : inner.distinct = true := by
  cases v with
  | object fields =>
    cases step with
    | key name => exact fields.distinct_get unique found
    | index i => cases found
  | array values =>
    cases step with
    | key name => cases found
    | index i => exact values.distinct_get unique found
  | null | bool _ | number _ | string _ => cases step <;> cases found

theorem Value.distinct_at {v node : Value} {pos : Position} (unique : v.distinct = true)
    (found : v.at pos = some node) : node.distinct = true := by
  induction pos generalizing v with
  | nil =>
    cases found
    exact unique
  | cons step pos ih =>
    obtain ⟨inner, first, rest⟩ := Option.bind_eq_some_iff.mp found
    exact ih (Value.distinct_child unique first) rest

/-! ## Resolution is what the path means -/

/-- The entry that a position below another entry gives. -/
def Found.go (found : Found) (pos : Position) (node : Value) : Found :=
  ⟨(pos.map Step.token).foldl pushToken found.pointer, node, found.depth + pos.length⟩

@[simp] theorem Found.go_cons (found : Found) (step : Step) (pos : Position) (inner node : Value) :
    (Found.go ⟨pushToken found.pointer step.token, inner, found.depth + 1⟩ pos node) =
      found.go (step :: pos) node := by
  simp [go, Nat.add_assoc, Nat.add_comm 1]

/-- No node below an entry is as deep as the bound. -/
def Found.Shallow (found : Found) : Prop :=
  ∀ pos node, found.value.at pos = some node → found.depth + pos.length < maxPathDepth

theorem Found.Shallow.within {found : Found} (shallow : found.Shallow) : ¬maxPathDepth ≤ found.depth :=
  Nat.not_le.mpr (shallow [] found.value rfl)

theorem Found.Shallow.go {found : Found} (shallow : found.Shallow) {pos : Position} {node : Value}
    (there : found.value.at pos = some node) : (found.go pos node).Shallow := by
  intro back inner below
  have whole := shallow (pos ++ back) inner (by
    rw [Value.at_append, there]
    exact below)
  rw [List.length_append, ← Nat.add_assoc] at whole
  exact whole

theorem Value.at_single (v : Value) (step : Step) : v.at [step] = v.child step := by
  rw [at_cons]
  cases v.child step <;> rfl

theorem Found.go_append (found : Found) (front back : Position) (inner node : Value) :
    (found.go front inner).go back node = found.go (front ++ back) node := by
  simp [go, Nat.add_assoc]

theorem mem_collectItems {name pointer : Text} {depth : Nat} {out : Found} : (values : Values) →
    (idx : Nat) → (out ∈ collectItems name pointer idx values depth ↔ ∃ i child, values.get i = some child ∧
        out ∈ collectDescend name (pushToken pointer (decimal (idx + i))) child (depth + 1))
  | .nil, _ => by simp [collectItems, Values.get]
  | .cons first rest, idx => by
    rw [collectItems, List.mem_append, mem_collectItems rest]
    constructor
    · rintro (here | ⟨i, child, there, below⟩)
      · exact ⟨0, first, rfl, here⟩
      · exact ⟨i + 1, child, there, by rwa [show idx + (i + 1) = idx + 1 + i by omega]⟩
    · rintro ⟨i, child, there, below⟩
      cases i with
      | zero =>
        cases there
        exact .inl below
      | succ i => exact .inr ⟨i, child, there, by rwa [show idx + 1 + i = idx + (i + 1) by omega]⟩

theorem mem_collectFields {name pointer : Text} {depth : Nat} {out : Found} (fields : Fields) :
    out ∈ collectFields name pointer fields depth ↔ ∃ key child, (key, child) ∈ fields.entries ∧
      out ∈ collectDescend name (pushToken pointer key) child (depth + 1) := by
  cases fields with
  | nil => simp [collectFields, Fields.entries]
  | cons key value rest =>
    rw [collectFields, List.mem_append, mem_collectFields rest]
    simp only [Fields.entries, List.mem_cons, Prod.mk.injEq]
    constructor
    · rintro (here | ⟨key', child, there, below⟩)
      · exact ⟨key, value, .inl ⟨rfl, rfl⟩, here⟩
      · exact ⟨key', child, .inr there, below⟩
    · rintro ⟨key', child, ⟨rfl, rfl⟩ | there, below⟩
      · exact .inl below
      · exact .inr ⟨key', child, there, below⟩

/-- The recursive descent meets every field of its name. -/
theorem mem_collectDescend {name : Text} {found out : Found}
    (shallow : found.Shallow) (unique : found.value.distinct = true) :
    out ∈ collectDescend name found.pointer found.value found.depth ↔
      ∃ front node, found.value.at (front ++ [.key name]) = some node ∧
        out = found.go (front ++ [.key name]) node := by
  induction bound : found.value.depth using Nat.strongRecOn generalizing found with
  | ind n ih =>
    obtain ⟨pointer, value, depth⟩ := found
    subst bound
    have within := shallow.within
    dsimp only at unique ih within ⊢
    -- one step down, then the descent from there
    have below : ∀ step inner, value.child step = some inner →
        (out ∈ collectDescend name (pushToken pointer step.token) inner (depth + 1) ↔
          ∃ front node, inner.at (front ++ [.key name]) = some node ∧
            out = (Found.mk pointer value depth).go (step :: (front ++ [.key name])) node) := by
      intro step inner first
      have smaller := Value.depth_child first
      have descent := @ih inner.depth (by omega)
        ⟨pushToken pointer step.token, inner, depth + 1⟩
        (shallow.go ((Value.at_single value step).trans first))
        (Value.distinct_child unique first) rfl
      refine descent.trans (exists_congr fun front => exists_congr fun node => and_congr_right ?_)
      intro _
      rw [← Found.go_cons (Found.mk pointer value depth) step _ inner]
    have split : (∃ front node, value.at (front ++ [.key name]) = some node ∧
          out = (Found.mk pointer value depth).go (front ++ [.key name]) node) ↔
        (∃ node, value.child (.key name) = some node ∧
          out = (Found.mk pointer value depth).go [.key name] node) ∨
        ∃ step inner, value.child step = some inner ∧
          out ∈ collectDescend name (pushToken pointer step.token) inner (depth + 1) := by
      constructor
      · rintro ⟨front, node, there, rfl⟩
        cases front with
        | nil =>
          rw [List.nil_append, Value.at_cons] at there
          obtain ⟨inner, first, rest⟩ := Option.bind_eq_some_iff.mp there
          cases rest
          exact .inl ⟨node, first, rfl⟩
        | cons step front =>
          rw [List.cons_append, Value.at_cons] at there
          obtain ⟨inner, first, rest⟩ := Option.bind_eq_some_iff.mp there
          exact .inr ⟨step, inner, first, (below step inner first).mpr ⟨front, node, rest, rfl⟩⟩
      · rintro (⟨node, first, rfl⟩ | ⟨step, inner, first, listed⟩)
        · exact ⟨[], node, by rw [List.nil_append, Value.at_cons, first]; rfl, rfl⟩
        obtain ⟨front, node, rest, rfl⟩ := (below step inner first).mp listed
        refine ⟨step :: front, node, ?_, rfl⟩
        rw [List.cons_append, Value.at_cons, first]
        exact rest
    rw [split]
    cases value with
    | object fields =>
      rw [collectDescend, if_neg within, List.mem_append, mem_collectFields]
      apply or_congr
      · simp [Value.child, Found.go, Step.token, eq_comm]
      · constructor
        · rintro ⟨key, child, there, listed⟩
          exact ⟨.key key, child, (fields.mem_entries unique).mp there, listed⟩
        · rintro ⟨step, inner, first, listed⟩
          cases step with
          | key key => exact ⟨key, inner, (fields.mem_entries unique).mpr first, listed⟩
          | index i => cases first
    | array values =>
      rw [collectDescend, if_neg within, mem_collectItems]
      constructor
      · rintro ⟨i, child, there, listed⟩
        exact .inr ⟨.index i, child, there, by simpa [Step.token] using listed⟩
      · rintro (⟨node, first, -⟩ | ⟨step, inner, first, listed⟩)
        · cases first
        · cases step with
          | key key => cases first
          | index i => exact ⟨i, inner, first, by simpa [Step.token] using listed⟩
    | null | bool _ | number _ | string _ =>
      refine iff_of_false List.not_mem_nil ?_
      rintro (⟨node, first, -⟩ | ⟨step, inner, first, -⟩)
      · cases first
      · cases step <;> cases first

theorem mem_items {values : Values} {pointer : Text} {depth : Nat} {out : Found} :
    (out ∈ (values.enumerate 0).map fun (idx, child) =>
      (⟨pushToken pointer (decimal idx), child, depth + 1⟩ : Found)) ↔
      ∃ step node, (∃ i, step = Step.index i) ∧ (Value.array values).child step = some node ∧
        out = ⟨pushToken pointer step.token, node, depth + 1⟩ := by
  simp only [List.mem_map, Prod.exists, Values.mem_enumerate, Nat.zero_add]
  constructor
  · rintro ⟨i, child, ⟨_, rfl, there⟩, rfl⟩
    exact ⟨.index i, child, ⟨i, rfl⟩, there, rfl⟩
  · rintro ⟨_, child, ⟨i, rfl⟩, there, rfl⟩
    exact ⟨i, child, ⟨i, rfl, there⟩, rfl⟩

/-- One segment, from an entry that is not too deep. -/
theorem mem_expand {seg : JsonPath.Segment} {found out : Found}
    (shallow : found.Shallow) (unique : found.value.distinct = true) :
    out ∈ seg.expand found ↔ ∃ pos node, seg.Selects pos ∧ found.value.at pos = some node ∧
      out = found.go pos node := by
  have within := shallow.within
  obtain ⟨pointer, value, depth⟩ := found
  dsimp only at unique within
  -- the segments that go one step down
  have single : ∀ (steps : Step → Prop) (listed : Prop),
      (listed ↔ ∃ step node, steps step ∧ value.child step = some node ∧
        out = ⟨pushToken pointer step.token, node, depth + 1⟩) →
      (listed ↔ ∃ pos node, (∃ step, steps step ∧ pos = [step]) ∧ value.at pos = some node ∧
        out = (Found.mk pointer value depth).go pos node) := by
    intro steps listed same
    rw [same]
    constructor
    · rintro ⟨step, node, chosen, first, rfl⟩
      exact ⟨[step], node, ⟨step, chosen, rfl⟩, by rwa [Value.at_single], rfl⟩
    · rintro ⟨_, node, ⟨step, chosen, rfl⟩, there, rfl⟩
      exact ⟨step, node, chosen, by rwa [Value.at_single] at there, rfl⟩
  cases seg with
  | descend name =>
    unfold JsonPath.Segment.expand
    rw [if_neg within]
    refine (@mem_collectDescend name ⟨pointer, value, depth⟩ _ shallow unique).trans ?_
    constructor
    · rintro ⟨front, node, there, rfl⟩
      exact ⟨_, node, ⟨front, rfl⟩, there, rfl⟩
    · rintro ⟨_, node, ⟨front, rfl⟩, there, rfl⟩
      exact ⟨front, node, there, rfl⟩
  | key name =>
    have selects : ∀ pos, (JsonPath.Segment.key name).Selects pos ↔
        ∃ step, step = .key name ∧ pos = [step] := by simp [JsonPath.Segment.Selects]
    simp only [selects]
    refine single (· = .key name) _ ?_
    unfold JsonPath.Segment.expand
    rw [if_neg within]
    cases value with
    | object fields => simp [Value.child, Step.token, eq_comm]
    | array _ | null | bool _ | number _ | string _ => simp [Value.child]
  | index n =>
    have selects : ∀ pos, (JsonPath.Segment.index n).Selects pos ↔
        ∃ step, step = .index n ∧ pos = [step] := by simp [JsonPath.Segment.Selects]
    simp only [selects]
    refine single (· = .index n) _ ?_
    unfold JsonPath.Segment.expand
    rw [if_neg within]
    cases value with
    | array values => simp [Value.child, Step.token, eq_comm]
    | object _ | null | bool _ | number _ | string _ => simp [Value.child]
  | allIndices =>
    have selects : ∀ pos, JsonPath.Segment.allIndices.Selects pos ↔
        ∃ step, (∃ i, step = .index i) ∧ pos = [step] := by simp [JsonPath.Segment.Selects]
    simp only [selects]
    refine single (fun step => ∃ i, step = .index i) _ ?_
    unfold JsonPath.Segment.expand
    rw [if_neg within]
    cases value with
    | array values => exact mem_items
    | object _ | null | bool _ | number _ | string _ => simp [Value.child]
  | allChildren =>
    have selects : ∀ pos, JsonPath.Segment.allChildren.Selects pos ↔
        ∃ step, True ∧ pos = [step] := by simp [JsonPath.Segment.Selects]
    simp only [selects]
    refine single (fun _ => True) _ ?_
    unfold JsonPath.Segment.expand
    rw [if_neg within]
    cases value with
    | array values =>
      refine mem_items.trans (exists_congr fun step => exists_congr fun node => ?_)
      refine and_congr_left fun there => iff_true_intro ?_
      cases step with
      | index i => exact ⟨i, rfl⟩
      | key name => cases there.1
    | object fields =>
      simp only [List.mem_map, Prod.exists, fields.mem_entries unique]
      constructor
      · rintro ⟨name, child, there, rfl⟩
        exact ⟨.key name, child, trivial, there, rfl⟩
      · rintro ⟨step, child, -, there, rfl⟩
        cases step with
        | key name => exact ⟨name, child, there, rfl⟩
        | index i => cases there
    | null | bool _ | number _ | string _ => simp [Value.child]

theorem mem_frontier {path : JsonPath} {start : List Found} {out : Found}
    (shallow : ∀ found ∈ start, found.Shallow) (unique : ∀ found ∈ start, found.value.distinct = true) :
    out ∈ path.frontier start ↔ ∃ found ∈ start, ∃ pos node, path.Selects pos ∧
      found.value.at pos = some node ∧ out = found.go pos node := by
  induction path generalizing start with
  | nil =>
    rw [JsonPath.frontier, List.foldl_nil]
    constructor
    · intro listed
      exact ⟨out, listed, [], out.value, rfl, rfl, rfl⟩
    · rintro ⟨found, listed, _, node, rfl, there, rfl⟩
      cases there
      exact listed
  | cons seg rest ih =>
    have step : ∀ next, next ∈ start.flatMap seg.expand ↔ ∃ found ∈ start, ∃ pos node,
        seg.Selects pos ∧ found.value.at pos = some node ∧ next = found.go pos node := by
      intro next
      rw [List.mem_flatMap]
      exact exists_congr fun found => and_congr_right fun listed =>
        mem_expand (shallow found listed) (unique found listed)
    have again := @ih (start.flatMap seg.expand)
      (by
        intro next listed
        obtain ⟨found, first, pos, node, -, there, rfl⟩ := (step next).mp listed
        exact (shallow found first).go there)
      (by
        intro next listed
        obtain ⟨found, first, pos, node, -, there, rfl⟩ := (step next).mp listed
        exact Value.distinct_at (unique found first) there)
    rw [JsonPath.frontier, List.foldl_cons]
    refine again.trans ?_
    constructor
    · rintro ⟨next, listed, back, node, selects, there, rfl⟩
      obtain ⟨found, first, front, inner, chosen, toInner, rfl⟩ := (step next).mp listed
      refine ⟨found, first, front ++ back, node, ⟨front, back, rfl, chosen, selects⟩, ?_,
        Found.go_append found front back inner node⟩
      rw [Value.at_append, toInner]
      exact there
    · rintro ⟨found, first, _, node, ⟨front, back, rfl, chosen, selects⟩, there, rfl⟩
      rw [Value.at_append] at there
      obtain ⟨inner, toInner, fromInner⟩ := Option.bind_eq_some_iff.mp there
      exact ⟨found.go front inner, (step _).mpr ⟨found, first, front, inner, chosen, toInner, rfl⟩,
        back, node, selects, fromInner, (Found.go_append found front back inner node).symm⟩

/-- **Resolution is what the path means**, in a value that is not too deep. -/
theorem mem_resolve {path : JsonPath} {root : Value} {pointer : Text}
    (shallow : Found.Shallow ⟨[], root, 0⟩) (unique : root.distinct = true) :
    pointer ∈ path.resolve root ↔ ∃ pos node, path.Selects pos ∧ root.at pos = some node ∧
      pointer = pointerOf pos := by
  have start : ∀ found ∈ [(⟨[], root, 0⟩ : Found)], found = ⟨[], root, 0⟩ := by simp
  have listed_iff := fun out => @mem_frontier path [⟨[], root, 0⟩] out
    (fun found first => start found first ▸ shallow)
    (fun found first => start found first ▸ unique)
  rw [JsonPath.resolve, List.mem_eraseDups, List.mem_map]
  constructor
  · rintro ⟨out, listed, rfl⟩
    obtain ⟨found, first, pos, node, selects, there, rfl⟩ := (listed_iff out).mp listed
    rw [start found first] at there ⊢
    exact ⟨pos, node, selects, there, rfl⟩
  · rintro ⟨pos, node, selects, there, rfl⟩
    exact ⟨Found.go ⟨[], root, 0⟩ pos node, (listed_iff _).mpr
      ⟨_, List.mem_singleton_self _, pos, node, selects, there, rfl⟩, rfl⟩

theorem Found.shallow_of_depth {root : Value} (shallow : root.depth < maxPathDepth) :
    Found.Shallow ⟨[], root, 0⟩ := by
  intro pos node there
  have below := Value.depth_at there
  dsimp only at below ⊢
  omega

/-! ## Documents -/

/-- A document: no map has a key twice, as in a parsed one. -/
structure Document where
  value : Value
  distinct : value.distinct = true

theorem nodup_eraseDups (pointers : List Text) : pointers.eraseDups.Nodup := by
  induction bound : pointers.length using Nat.strongRecOn generalizing pointers with
  | ind n ih =>
    subst bound
    cases pointers with
    | nil => exact List.nodup_nil
    | cons pointer rest =>
      have fewer := List.length_filter_le (fun other => !other == pointer) rest
      rw [List.eraseDups_cons, List.nodup_cons]
      exact ⟨by simp [List.mem_eraseDups], ih _ (Nat.lt_succ_of_le fewer) _ rfl⟩

/-- **Resolution is exact**: it gives, each once, the pointers of the nodes that the path
means, and each pointer leads to its node. -/
theorem resolve_exact (path : JsonPath) (doc : Document)
    (shallow : ∀ pos node, doc.value.at pos = some node → pos.length < maxPathDepth) :
    (path.resolve doc.value).Nodup ∧ (∀ pointer, pointer ∈ path.resolve doc.value ↔
      ∃ pos node, path.Selects pos ∧ doc.value.at pos = some node ∧ pointer = pointerOf pos) ∧
    ∀ pos node, path.Selects pos → doc.value.at pos = some node →
      (doc.value.pointer (pointerOf pos)).bind doc.value.at = some node := by
  refine ⟨nodup_eraseDups _, fun pointer => ?_, fun pos node _ there => ?_⟩
  · refine mem_resolve (fun pos node there => ?_) doc.distinct
    rw [Nat.zero_add]
    exact shallow pos node there
  · rw [Value.pointer_pointerOf there]
    exact there

/-- `$..['a/~']` is met once in an object with that key, and its pointer leads back. -/
theorem resolve_exact_escaped :
    let doc : Document := ⟨.object (.cons [0x61, 0x2F, 0x7E] (.bool true) .nil), rfl⟩
    [0x2F, 0x61, 0x7E, 0x31, 0x7E, 0x30] ∈ JsonPath.resolve [.descend [0x61, 0x2F, 0x7E]] doc.value ∧
      (doc.value.pointer [0x2F, 0x61, 0x7E, 0x31, 0x7E, 0x30]).bind doc.value.at = some (.bool true) := by
  intro doc
  have exact_ := resolve_exact [.descend [0x61, 0x2F, 0x7E]] doc fun pos node there => by
    have below := Value.depth_at there
    have whole : doc.value.depth = 1 := rfl
    unfold maxPathDepth
    omega
  have means : JsonPath.Selects [.descend [0x61, 0x2F, 0x7E]] [.key [0x61, 0x2F, 0x7E]] :=
    ⟨[.key [0x61, 0x2F, 0x7E]], [], rfl, ⟨[], rfl⟩, rfl⟩
  exact ⟨(exact_.2.1 _).mpr ⟨_, .bool true, means, rfl, rfl⟩, exact_.2.2 _ _ means rfl⟩

end DuDuClaw.Redaction
