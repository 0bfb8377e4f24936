/-
# Redaction.Document -- positions in a JSON value

A position is a sequence of steps, each into a field or an item.  A pointer is its text;
which of the two a reference token names depends on the value it is read in.

* `parseIndex_decimal`: the text of an index is read back.
* `locate_of_at`: the pointer of a position that is there leads to it.
* `Related`: two values of one shape, and what holds between their nodes.
-/
import DuDuClaw.Lib.PointerText
import DuDuClaw.Redaction.Egress

namespace DuDuClaw.Redaction

open DuDuClaw.Lib

/-! ## Steps -/

inductive Step where
  | key (name : Text)
  | index (i : Nat)
  deriving DecidableEq

abbrev Position := List Step

def Values.get : Values → Nat → Option Value
  | .nil, _ => none
  | .cons value _, 0 => some value
  | .cons _ rest, i + 1 => rest.get i

def Values.length : Values → Nat
  | .nil => 0
  | .cons _ rest => rest.length + 1

/-- `map.get(name)`. -/
def Fields.get : Fields → Text → Option Value
  | .nil, _ => none
  | .cons key value rest, name => if key = name then some value else rest.get name

def Fields.keys : Fields → List Text
  | .nil => []
  | .cons key _ rest => key :: rest.keys

namespace Value

def child : Value → Step → Option Value
  | .object fields, .key name => fields.get name
  | .array values, .index i => values.get i
  | _, _ => none

def «at» (v : Value) (pos : Position) : Option Value := pos.foldlM child v

@[simp] theorem at_cons (v : Value) (step : Step) (pos : Position) :
    v.at (step :: pos) = (v.child step).bind fun inner => inner.at pos := rfl

theorem at_append (v : Value) (front back : Position) :
    v.at (front ++ back) = (v.at front).bind fun inner => inner.at back := List.foldlM_append

end Value

/-! ## Writing -/

def Values.set : Values → Nat → (Value → Value) → Values
  | .nil, _, _ => .nil
  | .cons value rest, 0, f => .cons (f value) rest
  | .cons value rest, i + 1, f => .cons value (rest.set i f)

def Fields.set : Fields → Text → (Value → Value) → Fields
  | .nil, _, _ => .nil
  | .cons key value rest, name, f =>
    if key = name then .cons key (f value) rest else .cons key value (rest.set name f)

def Value.setChild : Value → Step → (Value → Value) → Value
  | .object fields, .key name, f => .object (fields.set name f)
  | .array values, .index i, f => .array (values.set i f)
  | v, _, _ => v

def Value.setAt (v : Value) : Position → Value → Value
  | [], node => node
  | step :: pos, node => v.setChild step fun inner => inner.setAt pos node

/-! ## Depth -/

mutual
/-- How many arrays and objects are nested. -/
def Value.depth : Value → Nat
  | .array values => values.depth + 1
  | .object fields => fields.depth + 1
  | .null | .bool _ | .number _ | .string _ => 0
def Values.depth : Values → Nat
  | .nil => 0
  | .cons value rest => max value.depth rest.depth
def Fields.depth : Fields → Nat
  | .nil => 0
  | .cons _ value rest => max value.depth rest.depth
end

theorem Values.depth_get {values : Values} {i : Nat} {value : Value} (found : values.get i = some value) :
    value.depth ≤ values.depth := by
  induction i generalizing values with
  | zero =>
    cases values with
    | nil => cases found
    | cons first rest =>
      cases found
      exact Nat.le_max_left _ _
  | succ i ih =>
    cases values with
    | nil => cases found
    | cons first rest => exact Nat.le_trans (ih found) (Nat.le_max_right _ _)

theorem Fields.depth_get : (fields : Fields) → {name : Text} → {value : Value} →
    fields.get name = some value → value.depth ≤ fields.depth
  | .nil, _, _, found => nomatch found
  | .cons key first rest, name, value, found => by
    rw [Fields.get] at found
    split at found
    · cases found
      exact Nat.le_max_left _ _
    · exact Nat.le_trans (rest.depth_get found) (Nat.le_max_right _ _)

theorem Value.depth_child {v inner : Value} {step : Step} (found : v.child step = some inner) :
    inner.depth + 1 ≤ v.depth := by
  cases v with
  | object fields =>
    cases step with
    | key name => exact Nat.succ_le_succ (fields.depth_get found)
    | index i => cases found
  | array values =>
    cases step with
    | key name => cases found
    | index i => exact Nat.succ_le_succ (Values.depth_get found)
  | null | bool _ | number _ | string _ => cases step <;> cases found

theorem Value.depth_at {v node : Value} {pos : Position} (found : v.at pos = some node) :
    node.depth + pos.length ≤ v.depth := by
  induction pos generalizing v with
  | nil =>
    cases found
    exact Nat.le_refl _
  | cons step pos ih =>
    obtain ⟨inner, first, rest⟩ := Option.bind_eq_some_iff.mp found
    have below := ih rest
    have here := Value.depth_child first
    rw [List.length_cons]
    omega

/-! ## Pointers -/

/-- The bytes of `/`, `~`, `0` and `1`. -/
def pointerBytes : PointerAlphabet UInt8 where
  slash := 0x2F
  tilde := 0x7E
  zero := 0x30
  one := 0x31
  slash_tilde := by decide
  slash_zero := by decide
  slash_one := by decide
  tilde_zero := by decide
  zero_one := by decide

/-- `idx.to_string()`. -/
def decimal (n : Nat) : Text := (Nat.toDigits 10 n).map fun c => c.toNat.toUInt8

def isDigitByte (b : UInt8) : Bool := 0x30 ≤ b && b ≤ 0x39

def digitsValue (token : Text) : Nat := token.foldl (fun n b => 10 * n + (b.toNat - 48)) 0

/-- `parse_index`: digits without a sign or a leading zero. -/
def parseIndex (token : Text) : Option Nat :=
  if token = [] ∨ (token.head? = some 0x30 ∧ token.length ≠ 1) ∨ token.all isDigitByte = false then
    none
  else some (digitsValue token)

def Step.token : Step → Text
  | .key name => name
  | .index i => decimal i

def pointerOf (pos : Position) : Text := pointerBytes.render (pos.map Step.token)

namespace Value

def stepOf (v : Value) (token : Text) : Option Step :=
  match v with
  | .object _ => some (.key token)
  | .array _ => (parseIndex token).map .index
  | _ => none

/-- The position that reference tokens name, if it is there. -/
def locate (v : Value) : List Text → Option Position
  | [] => some []
  | token :: rest => do
    let step ← v.stepOf token
    let inner ← v.child step
    let pos ← inner.locate rest
    return step :: pos

/-- `value.pointer(pointer)`, the position of its node. -/
def pointer (v : Value) (p : Text) : Option Position := (pointerBytes.parse p).bind v.locate

end Value

/-! ## Indices -/

theorem digit_byte {d : Nat} (small : d < 10) :
    isDigitByte (d.digitChar.toNat.toUInt8) = true ∧ (d.digitChar.toNat.toUInt8).toNat - 48 = d ∧
      (d ≠ 0 → d.digitChar.toNat.toUInt8 ≠ 0x30) := by
  have all : ∀ d < 10, isDigitByte (d.digitChar.toNat.toUInt8) = true ∧
      (d.digitChar.toNat.toUInt8).toNat - 48 = d ∧
      (d ≠ 0 → d.digitChar.toNat.toUInt8 ≠ 0x30) := by decide
  exact all d small

theorem decimal_small {n : Nat} (small : n < 10) : decimal n = [n.digitChar.toNat.toUInt8] := by
  rw [decimal, Nat.toDigits_of_lt_base small]
  rfl

theorem decimal_step {n : Nat} (large : 10 ≤ n) :
    decimal n = decimal (n / 10) ++ [(n % 10).digitChar.toNat.toUInt8] := by
  rw [decimal, Nat.toDigits_of_base_le (by decide) large, List.map_append]
  rfl

/-- What `parse_index` asks of the text of an index. -/
structure IndexText (n : Nat) (text : Text) : Prop where
  digits : text.all isDigitByte = true
  value : digitsValue text = n
  nonempty : text ≠ []
  lead : n ≠ 0 → text.head? ≠ some 0x30

theorem indexText_decimal (n : Nat) : IndexText n (decimal n) := by
  induction n using Nat.strongRecOn with
  | ind n ih =>
    by_cases small : n < 10
    · obtain ⟨digit, value, lead⟩ := digit_byte small
      rw [decimal_small small]
      refine ⟨by simp [digit], ?_, List.cons_ne_nil _ _, fun positive => ?_⟩
      · show 10 * 0 + _ = n
        rw [Nat.mul_zero, Nat.zero_add]
        exact value
      · simpa using lead positive
    · have large : 10 ≤ n := Nat.not_lt.mp small
      obtain ⟨digits, value, nonempty, lead⟩ := ih (n / 10) (by omega)
      obtain ⟨digit, last, -⟩ := digit_byte (Nat.mod_lt n (by decide : 10 > 0))
      rw [decimal_step large]
      refine ⟨by simp [digits, digit], ?_, by simp, fun _ => ?_⟩
      · rw [digitsValue] at value ⊢
        rw [List.foldl_append, value, List.foldl_cons, List.foldl_nil, last]
        omega
      · rw [List.head?_append_of_ne_nil _ nonempty]
        exact lead (by omega)

/-- **The text of an index is read back.** -/
@[simp] theorem parseIndex_decimal (n : Nat) : parseIndex (decimal n) = some n := by
  obtain ⟨digits, value, nonempty, lead⟩ := indexText_decimal n
  unfold parseIndex
  rw [if_neg, value]
  rintro (empty | ⟨zero, more⟩ | wrong)
  · exact nonempty empty
  · by_cases positive : n = 0
    · subst positive
      exact more rfl
    · exact lead positive zero
  · rw [digits] at wrong
    cases wrong

namespace Value

variable {v node : Value} {pos : Position}

theorem stepOf_token {inner : Value} {step : Step} (found : v.child step = some inner) :
    v.stepOf step.token = some step := by
  cases v with
  | object fields =>
    cases step with
    | key name => rfl
    | index i => cases found
  | array values =>
    cases step with
    | key name => cases found
    | index i => simp [stepOf, Step.token]
  | null | bool _ | number _ | string _ => cases step <;> cases found

/-- **The pointer of a position that is there leads to it.** -/
theorem locate_of_at (found : v.at pos = some node) : v.locate (pos.map Step.token) = some pos := by
  induction pos generalizing v with
  | nil => rfl
  | cons step pos ih =>
    obtain ⟨inner, first, rest⟩ := Option.bind_eq_some_iff.mp found
    rw [List.map_cons, locate, stepOf_token first]
    simp [first, ih rest]

theorem pointer_pointerOf (found : v.at pos = some node) : v.pointer (pointerOf pos) = some pos := by
  rw [pointer, pointerOf, PointerAlphabet.parse_render]
  exact locate_of_at found

/-! ## Shape -/

inductive Head where
  | null
  | bool (b : Bool)
  | number (literal : Text)
  | string (s : Text)
  | array (length : Nat)
  | object (keys : List Text)

def head : Value → Head
  | .null => .null
  | .bool b => .bool b
  | .number literal => .number literal
  | .string s => .string s
  | .array values => .array values.length
  | .object fields => .object fields.keys

/-- Both nodes are there, or neither. -/
inductive Beside (R : Value → Value → Prop) : Option Value → Option Value → Prop
  | none : Beside R none none
  | some {a b : Value} (related : R a b) : Beside R (some a) (some b)

/-- One shape, and `R` between the nodes at each position. -/
def Related (R : Position → Head → Head → Prop) (v v' : Value) : Prop :=
  ∀ pos, Beside (fun a b => R pos a.head b.head) (v.at pos) (v'.at pos)

variable {R : Position → Head → Head → Prop} {v v' : Value}

theorem Related.root (related : v.Related R v') : R [] v.head v'.head := by
  cases related [] with
  | some here => exact here

theorem related_of_children (here : R [] v.head v'.head)
    (inside : ∀ step, Beside (Related fun pos => R (step :: pos)) (v.child step) (v'.child step)) :
    v.Related R v' := by
  intro pos
  cases pos with
  | nil => exact .some here
  | cons step pos =>
    rw [at_cons, at_cons]
    have below := inside step
    generalize v.child step = left at *
    generalize v'.child step = right at *
    cases below with
    | none => exact .none
    | some related => exact related pos

theorem related_refl (same : ∀ pos h, R pos h h) : v.Related R v := by
  intro pos
  cases v.at pos with
  | none => exact .none
  | some node => exact .some (same pos _)

/-- Two changes, one after the other. -/
theorem Related.trans {S T : Position → Head → Head → Prop} {v'' : Value} (first : v.Related R v')
    (second : v'.Related S v'') (compose : ∀ pos a b c, R pos a b → S pos b c → T pos a c) :
    v.Related T v'' := by
  intro pos
  have left := first pos
  have right := second pos
  generalize v.at pos = a at *
  generalize v'.at pos = b at *
  generalize v''.at pos = c at *
  cases left with
  | none =>
    cases right with
    | none => exact .none
  | some here =>
    cases right with
    | some there => exact .some (compose pos _ _ _ here there)

end Value

/-! ## Writing one node -/

theorem Values.length_set (values : Values) (i : Nat) (f : Value → Value) :
    (values.set i f).length = values.length := by
  induction i generalizing values with
  | zero => cases values <;> rfl
  | succ i ih =>
    cases values with
    | nil => rfl
    | cons first rest => exact congrArg (· + 1) (ih rest)

theorem Values.get_set (values : Values) (i j : Nat) (f : Value → Value) :
    (values.set i f).get j = if i = j then (values.get j).map f else values.get j := by
  induction i generalizing values j with
  | zero =>
    cases values with
    | nil | cons first rest => cases j <;> simp [set, get]
  | succ i ih =>
    cases values with
    | nil => cases j <;> simp [set, get]
    | cons first rest => cases j <;> simp [set, get, ih]

theorem Fields.keys_set : (fields : Fields) → (name : Text) → (f : Value → Value) →
    (fields.set name f).keys = fields.keys
  | .nil, _, _ => rfl
  | .cons key first rest, name, f => by
    rw [set]
    split
    · rfl
    · exact congrArg (key :: ·) (rest.keys_set name f)

theorem Fields.get_set : (fields : Fields) → (name other : Text) → (f : Value → Value) →
    (fields.set name f).get other = if name = other then (fields.get other).map f else fields.get other
  | .nil, _, _, _ => by simp [set, get]
  | .cons key first rest, name, other, f => by
    have below := rest.get_set name other f
    by_cases here : key = name
    · subst here
      by_cases same : key = other <;> simp [set, get, same]
    by_cases same : key = other
    · subst same
      simp [set, get, here, Ne.symm here]
    · simp [set, get, here, same, below]

namespace Value

theorem head_setChild (v : Value) (step : Step) (f : Value → Value) : (v.setChild step f).head = v.head := by
  cases v with
  | object fields =>
    cases step with
    | key name => exact congrArg Head.object (fields.keys_set name f)
    | index i => rfl
  | array values =>
    cases step with
    | key name => rfl
    | index i => exact congrArg Head.array (values.length_set i f)
  | null | bool _ | number _ | string _ => cases step <;> rfl

theorem child_setChild (v : Value) (step other : Step) (f : Value → Value) : (v.setChild step f).child other =
      if step = other then (v.child other).map f else v.child other := by
  cases v with
  | object fields =>
    cases step with
    | key name =>
      cases other with
      | key name' => simpa [setChild, child] using fields.get_set name name' f
      | index j => simp [setChild, child]
    | index i => cases other <;> simp [setChild, child]
  | array values =>
    cases step with
    | key name => cases other <;> simp [setChild, child]
    | index i =>
      cases other with
      | key name' => simp [setChild, child]
      | index j => simpa [setChild, child] using values.get_set i j f
  | null | bool _ | number _ | string _ => cases step <;> cases other <;> simp [setChild, child]

/-- **A write changes the node at its position and nothing else.** -/
theorem related_setAt {R : Position → Head → Head → Prop} {v node node' : Value} {hit : Position}
    (found : v.at hit = some node) (inside : node.Related (fun pos => R (hit ++ pos)) node')
    (outside : ∀ pos h, ¬hit <+: pos → R pos h h) : v.Related R (v.setAt hit node') := by
  induction hit generalizing v R with
  | nil =>
    cases found
    exact inside
  | cons step hit ih =>
    obtain ⟨inner, first, rest⟩ := Option.bind_eq_some_iff.mp found
    apply related_of_children
    · rw [setAt, head_setChild]
      exact outside [] _ (by simp)
    · intro other
      rw [setAt, child_setChild]
      by_cases same : step = other
      · subst same
        rw [if_pos rfl, first]
        refine .some (ih rest inside fun pos h apart => outside (step :: pos) h ?_)
        simpa using apart
      rw [if_neg same]
      cases v.child other with
      | none => exact .none
      | some there =>
        refine .some (related_refl fun pos h => outside (other :: pos) h ?_)
        simp [same]

end Value

end DuDuClaw.Redaction
