/-
# Workflow.Schema -- value schemas

The value schemas of workflow/schema.rs: which values a schema accepts, when one schema
fits another, and pointers into a schema.

A schema's properties and a value's fields are lists read by their first match, where
the source has sorted maps; a set of names is a list.

* `fits_sound`: a schema that fits another accepts nothing that the other refuses.
* `atPointer_sound`: a pointer into a schema finds the schema of what the same pointer
  finds in each accepted value.
-/
import Mathlib.Algebra.GroupWithZero.Nat
import DuDuClaw.Lib.Value

namespace DuDuClaw.Workflow

open DuDuClaw.Lib

abbrev Text := List Char

/-- `s.len()`. -/
def byteLength (s : Text) : Nat := (s.map Char.utf8Size).sum

def maxSteps : Nat := 64

def maxJsonBytes : Nat := 262144

/-! ## Schemas -/

inductive TypedSchema where
  | null
  | boolean
  | integer
  | number
  | string (maxLength : Nat)
  | array (items : TypedSchema) (maxItems : Nat)
  | object (properties : List (Text × TypedSchema)) (required : List Text)
  | nullable (inner : TypedSchema)

namespace TypedSchema

mutual

/-- The derived `==`. -/
def beq : TypedSchema → TypedSchema → Bool
  | null, null => true
  | boolean, boolean => true
  | integer, integer => true
  | number, number => true
  | string a, string b => a == b
  | array a na, array b nb => beq a b && na == nb
  | object a ra, object b rb => beqProperties a b && ra == rb
  | nullable a, nullable b => beq a b
  | _, _ => false

def beqProperties : List (Text × TypedSchema) → List (Text × TypedSchema) → Bool
  | [], [] => true
  | (key, a) :: more, (key', b) :: more' => key == key' && beq a b && beqProperties more more'
  | _, _ => false

end

mutual

def validateDefinition (depth : Nat) (schema : TypedSchema) : Except String Unit :=
  if depth > 32 then .error "workflow schema depth exceeded"
  else match schema with
    | string maxLength =>
      if maxLength > maxJsonBytes then .error "workflow string bound exceeded" else .ok ()
    | array items maxItems =>
      if maxItems > 4096 then .error "workflow array bound exceeded"
      else validateDefinition (depth + 1) items
    | object properties required =>
      if properties.length > 256 ∨ required.all (fun k => (properties.lookup k).isSome) = false then
        .error "invalid workflow object schema"
      else validateProperties (depth + 1) properties
    | nullable null => .error "workflow nullable must wrap a non-null type"
    | nullable (nullable _) => .error "workflow nullable must wrap a non-null type"
    | nullable inner => validateDefinition (depth + 1) inner
    | _ => .ok ()

def validateProperties (depth : Nat) : List (Text × TypedSchema) → Except String Unit
  | [] => .ok ()
  | (_, child) :: rest => do
    validateDefinition depth child
    validateProperties depth rest

end

/-- One token of a pointer.  Array lengths have no guaranteed minimum. -/
def member (current : TypedSchema) (raw : Text) : Except String TypedSchema :=
  match Value.decode raw with
  | none => .error "invalid workflow pointer escape"
  | some key =>
    match current with
    | object properties required =>
      if required.contains key then
        match properties.lookup key with
        | some found => .ok found
        | none => .error "workflow reference field missing"
      else .error "workflow reference is not guaranteed by source schema"
    | _ => .error "workflow reference is not guaranteed by source schema"

def atPointer (schema : TypedSchema) : Text → Except String TypedSchema
  | [] => .ok schema
  | '/' :: rest => (rest.splitOn '/').foldlM member schema
  | _ => .error "invalid workflow schema pointer"

mutual

/-- Every value of the first schema is meant to be one of the second. -/
def fits : TypedSchema → TypedSchema → Bool
  | nullable a, nullable b => fits a b
  | null, nullable _ => true
  | src, nullable b => fits src b
  | integer, number => true
  | string a, string b => a ≤ b
  | array a na, array b nb => na ≤ nb && fits a b
  | object a ra, object b rb =>
    rb.all (fun k => ra.contains k) && a.all fun entry => fitsField entry.1 entry.2 b
  | src, dst => beq src dst

/-- `b.get(key).is_some_and(|other| value.fits(other))`. -/
def fitsField (key : Text) (value : TypedSchema) : List (Text × TypedSchema) → Bool
  | [] => false
  | (name, other) :: rest => if key == name then fits value other else fitsField key value rest

end

mutual

def accepts : TypedSchema → Value → Bool
  | null, v => v.isNull
  | nullable inner, v => v.isNull || accepts inner v
  | boolean, v => v.isBoolean
  | integer, v => v.isInteger
  | number, v => v.isNumber
  | string maxLength, v => v.asStr.any fun s => s.length ≤ maxLength
  | array items maxItems, v =>
    v.asArray.any fun a => a.length ≤ maxItems && a.all (accepts items)
  | object properties required, v =>
    v.asObject.any fun o =>
      required.all (fun k => (o.lookup k).isSome) && o.all fun entry =>
        acceptsField entry.1 entry.2 properties

/-- `properties.get(key).is_some_and(|s| s.validate(v).is_ok())`. -/
def acceptsField (key : Text) (v : Value) : List (Text × TypedSchema) → Bool
  | [] => false
  | (name, schema) :: rest => if key == name then accepts schema v else acceptsField key v rest

end

def validate (schema : TypedSchema) (v : Value) : Except String Unit :=
  if schema.accepts v then .ok () else .error "workflow value violates typed schema"

theorem validate_ok {schema : TypedSchema} {v : Value} :
    schema.validate v = .ok () ↔ schema.accepts v = true := by
  unfold validate
  split <;> simp_all

theorem acceptsField_eq (key : Text) (v : Value) (properties : List (Text × TypedSchema)) :
    acceptsField key v properties = (properties.lookup key).any fun schema => accepts schema v := by
  induction properties with
  | nil => rfl
  | cons entry rest ih =>
    obtain ⟨name, schema⟩ := entry
    rw [acceptsField, List.lookup_cons]
    by_cases same : key == name
    · rw [if_pos same, same]; rfl
    · rw [if_neg same, ih, Bool.eq_false_iff.mpr same]

mutual

/-- **A schema that fits another accepts nothing that the other refuses.** -/
theorem fits_sound (src dst : TypedSchema) (v : Value) (fit : src.fits dst = true)
    (accepted : src.accepts v = true) : dst.accepts v = true := by
  cases dst with
  | nullable b =>
    rw [accepts, Bool.or_eq_true]
    cases src with
    | nullable a =>
      rw [accepts, Bool.or_eq_true] at accepted
      refine accepted.imp_right fun inner => ?_
      rw [fits] at fit
      exact fits_sound a b v fit inner
    | null => exact .inl (by rwa [accepts] at accepted)
    | boolean | integer | number | string _ | array _ _ | object _ _ =>
      rw [fits] at fit
      · exact .inr (fits_sound _ b v fit accepted)
      all_goals nofun
  | number =>
    cases src with
    | integer =>
      cases v with
      | number n => rfl
      | _ => simp [accepts, Value.isInteger] at accepted
    | number => exact accepted
    | _ => simp [fits, beq] at fit
  | string b =>
    cases src with
    | string a =>
      rw [accepts, Option.any_eq_true] at accepted ⊢
      obtain ⟨s, isText, short⟩ := accepted
      simp only [fits, decide_eq_true_eq] at fit short
      exact ⟨s, isText, by simpa using Nat.le_trans short fit⟩
    | _ => simp [fits, beq] at fit
  | array b nb =>
    cases src with
    | array a na =>
      rw [accepts, Option.any_eq_true] at accepted ⊢
      obtain ⟨items, isArray, checked⟩ := accepted
      simp only [fits, Bool.and_eq_true, decide_eq_true_eq, List.all_eq_true] at fit checked
      refine ⟨items, isArray, ?_⟩
      simp only [Bool.and_eq_true, decide_eq_true_eq, List.all_eq_true]
      refine ⟨Nat.le_trans checked.1 fit.1, fun item listed => ?_⟩
      exact fits_sound a b item fit.2 (checked.2 item listed)
    | _ => simp [fits, beq] at fit
  | object b rb =>
    cases src with
    | object a ra =>
      rw [accepts, Option.any_eq_true] at accepted ⊢
      obtain ⟨fields, isObject, checked⟩ := accepted
      simp only [fits, Bool.and_eq_true, List.all_eq_true, List.contains_iff_mem]
        at fit checked
      refine ⟨fields, isObject, ?_⟩
      simp only [Bool.and_eq_true, List.all_eq_true]
      refine ⟨fun key needed => checked.1 key (fit.1 key needed), fun entry listed => ?_⟩
      have known := checked.2 entry listed
      rw [acceptsField_eq, Option.any_eq_true] at known
      obtain ⟨schema, found, inner⟩ := known
      have fitting := fit.2 _ (mem_of_lookup found)
      exact fitsField_sound entry.1 schema entry.2 b fitting inner
    | _ => simp [fits, beq] at fit
  | null | boolean | integer =>
    cases src with
    | null | boolean | integer => first | exact accepted | simp [fits, beq] at fit
    | _ => simp [fits, beq] at fit

theorem fitsField_sound (key : Text) (src : TypedSchema) (v : Value)
    (properties : List (Text × TypedSchema)) (fit : fitsField key src properties = true)
    (accepted : src.accepts v = true) : acceptsField key v properties = true := by
  cases properties with
  | nil => cases fit
  | cons entry rest =>
    obtain ⟨name, schema⟩ := entry
    rw [fitsField] at fit
    rw [acceptsField]
    split
    · rename_i same
      rw [if_pos same] at fit
      exact fits_sound src schema v fit accepted
    · rename_i other
      rw [if_neg other] at fit
      exact fitsField_sound key src v rest fit accepted

end

variable {schema found : TypedSchema} {v : Value} {pointer : Text}

/-- One token finds the schema of what it finds in an accepted value. -/
theorem member_sound {raw : Text}
    (stepped : schema.member raw = .ok found) (accepted : schema.accepts v = true) :
    ∃ inner, v.child (Value.unescape raw) = some inner ∧ found.accepts inner = true := by
  unfold member at stepped
  split at stepped
  · cases stepped
  rename_i key decoded
  split at stepped
  · rename_i properties required
    split at stepped
    · rename_i needed
      split at stepped
      · rename_i schema' has
        cases stepped
        rw [accepts, Option.any_eq_true] at accepted
        obtain ⟨fields, isObject, checked⟩ := accepted
        simp only [Bool.and_eq_true, List.all_eq_true] at checked
        have present := checked.1 key (List.contains_iff_mem.mp needed)
        obtain ⟨inner, at_⟩ := Option.isSome_iff_exists.mp present
        have known := checked.2 _ (mem_of_lookup at_)
        rw [acceptsField_eq, has] at known
        cases v with
        | object fields' =>
          cases isObject
          exact ⟨inner, by rw [Value.unescape_of_decode decoded]; exact at_, known⟩
        | _ => cases isObject
      · cases stepped
    · cases stepped
  · cases stepped

theorem atPointer_isPointer (pointed : schema.atPointer pointer = .ok found) : Value.IsPointer pointer := by
  unfold atPointer at pointed
  split at pointed
  · exact .inl rfl
  · exact .inr ⟨_, rfl⟩
  · cases pointed

/-- **A pointer into a schema finds the schema of what it finds in each accepted value.** -/
theorem atPointer_sound (pointed : schema.atPointer pointer = .ok found) (accepted : schema.accepts v = true) :
    ∃ inner, v.pointer pointer = some inner ∧ found.accepts inner = true := by
  unfold atPointer at pointed
  split at pointed
  · cases pointed
    exact ⟨v, rfl, accepted⟩
  · rename_i rest
    rw [Value.pointer_slash]
    generalize rest.splitOn '/' = tokens at pointed ⊢
    induction tokens generalizing schema v with
    | nil =>
      cases pointed
      exact ⟨v, rfl, accepted⟩
    | cons raw more ih =>
      rw [List.foldlM_cons] at pointed
      cases stepped : schema.member raw with
      | error message =>
        rw [stepped] at pointed
        cases pointed
      | ok next =>
        rw [stepped] at pointed
        obtain ⟨inner, at_, innerAccepted⟩ := member_sound stepped accepted
        rw [List.map_cons, Value.walk_cons, at_]
        exact ih innerAccepted pointed
  · cases pointed

end TypedSchema

end DuDuClaw.Workflow
