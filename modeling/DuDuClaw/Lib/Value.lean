/-
# Lib.Value -- JSON values and pointers into them

The value tree of `serde_json` and its `pointer`, which follows RFC 6901: a pointer is
empty or a sequence of tokens, each behind a slash, in which `~1` stands for a slash
and `~0` for a tilde.  An object's fields are a list that is read by its first match.

* `pointer_append`: the pointer of two pointers is the second one after the first.
* `unescape_of_decode`: a token decoded from left to right, without a stray tilde, is
  the one the two replacements give.
-/
import DuDuClaw.Lib.Lookup

namespace DuDuClaw.Lib

/-- `serde_json::Number`, without arbitrary precision. -/
inductive Number where
  | posInt (n : Nat)
  | negInt (n : Nat)
  | float (bits : UInt64)
  deriving DecidableEq

inductive Value where
  | null
  | bool (b : Bool)
  | number (n : Number)
  | string (s : List Char)
  | array (items : List Value)
  | object (fields : List (List Char × Value))

namespace Value

def isNull : Value → Bool
  | null => true
  | _ => false

def isBoolean : Value → Bool
  | bool _ => true
  | _ => false

def isNumber : Value → Bool
  | number _ => true
  | _ => false

/-- `as_i64().is_some() || as_u64().is_some()`. -/
def isInteger : Value → Bool
  | number (.posInt _) => true
  | number (.negInt _) => true
  | _ => false

def asStr : Value → Option (List Char)
  | string s => some s
  | _ => none

def asArray : Value → Option (List Value)
  | array items => some items
  | _ => none

def asObject : Value → Option (List (List Char × Value))
  | object fields => some fields
  | _ => none

/-- `value.get(key)` with a string key. -/
def get (v : Value) (key : List Char) : Option Value := v.asObject.bind (List.lookup key)

/-! Equality; an object's fields are in the order of their keys. -/

mutual

def beq : Value → Value → Bool
  | null, null => true
  | bool a, bool b => a == b
  | number a, number b => a == b
  | string a, string b => a == b
  | array a, array b => beqItems a b
  | object a, object b => beqFields a b
  | _, _ => false

def beqItems : List Value → List Value → Bool
  | [], [] => true
  | a :: as, b :: bs => beq a b && beqItems as bs
  | _, _ => false

def beqFields : List (List Char × Value) → List (List Char × Value) → Bool
  | [], [] => true
  | (key, a) :: as, (key', b) :: bs => key == key' && beq a b && beqFields as bs
  | _, _ => false

end

instance : BEq Value := ⟨beq⟩

/-! ## Pointers -/

/-- `s.replace(..)` of the two-character text `a b` by one character. -/
def replacePair (a b new : Char) : List Char → List Char
  | [] => []
  | [x] => [x]
  | x :: y :: rest =>
    if x = a ∧ y = b then new :: replacePair a b new rest
    else x :: replacePair a b new (y :: rest)

/-- `token.replace("~1", "/").replace("~0", "~")`. -/
def unescape (token : List Char) : List Char :=
  replacePair '~' '0' '~' (replacePair '~' '1' '/' token)

/-- `parse_index`: digits without a sign or a leading zero. -/
def parseIndex (token : List Char) : Option Nat :=
  if token = [] ∨ (token.head? = some '0' ∧ token.length ≠ 1) ∨ token.all Char.isDigit = false then
    none
  else some (token.foldl (fun n c => 10 * n + (c.toNat - 48)) 0)

def child (v : Value) (token : List Char) : Option Value :=
  match v with
  | object fields => fields.lookup token
  | array items => (parseIndex token).bind fun i => items[i]?
  | _ => none

def walk (v : Value) (tokens : List (List Char)) : Option Value := tokens.foldlM child v

def pointer (v : Value) : List Char → Option Value
  | [] => some v
  | '/' :: rest => v.walk ((rest.splitOn '/').map unescape)
  | _ => none

/-- Pointers that RFC 6901 allows. -/
def IsPointer (p : List Char) : Prop := p = [] ∨ ∃ rest, p = '/' :: rest

variable {p q key : List Char} {c : Char}

@[simp] theorem pointer_slash (v : Value) (rest : List Char) :
    v.pointer ('/' :: rest) = v.walk ((rest.splitOn '/').map unescape) := rfl

theorem walk_append (v : Value) (front back : List (List Char)) :
    v.walk (front ++ back) = (v.walk front).bind fun inner => inner.walk back :=
  List.foldlM_append

theorem walk_cons (v : Value) (token : List Char) (rest : List (List Char)) :
    v.walk (token :: rest) = (v.child token).bind fun inner => inner.walk rest :=
  List.foldlM_cons

theorem IsPointer.append (left : IsPointer p) (right : IsPointer q) : IsPointer (p ++ q) := by
  rcases left with rfl | ⟨rest, rfl⟩
  · exact right
  · exact .inr ⟨rest ++ q, rfl⟩

/-- **The pointer of two pointers is the second one after the first.** -/
theorem pointer_append (v : Value) (left : IsPointer p) (right : IsPointer q) :
    v.pointer (p ++ q) = (v.pointer p).bind fun inner => inner.pointer q := by
  rcases left with rfl | ⟨front, rfl⟩
  · rfl
  rcases right with rfl | ⟨back, rfl⟩
  · rw [List.append_nil]
    exact (Option.bind_fun_some _).symm
  have split : (front ++ '/' :: back).splitOn '/' = front.splitOn '/' ++ back.splitOn '/' :=
    List.splitOn_append_cons_self front back
  rw [List.cons_append, pointer_slash, split, List.map_append, walk_append]
  rfl

/-! ## Escapes -/

/-- A token read from left to right: a tilde stands before a zero or a one. -/
def decode : List Char → Option (List Char)
  | [] => some []
  | '~' :: '0' :: rest => (decode rest).map fun key => '~' :: key
  | '~' :: '1' :: rest => (decode rest).map fun key => '/' :: key
  | '~' :: _ => none
  | c :: rest => (decode rest).map fun key => c :: key

theorem replacePair_cons {a b new : Char} (other : c ≠ a) (rest : List Char) :
    replacePair a b new (c :: rest) = c :: replacePair a b new rest := by
  cases rest with
  | nil => rfl
  | cons d rest => exact if_neg fun same => other same.1

theorem unescape_cons (plain : c ≠ '~') (rest : List Char) : unescape (c :: rest) = c :: unescape rest := by
  unfold unescape
  rw [replacePair_cons plain, replacePair_cons plain]

theorem unescape_tilde (rest : List Char) : unescape ('~' :: '0' :: rest) = '~' :: unescape rest := by
  have first : replacePair '~' '1' '/' ('~' :: '0' :: rest) =
      '~' :: '0' :: replacePair '~' '1' '/' rest := by
    rw [← replacePair_cons (by decide : '0' ≠ '~')]
    exact if_neg (by decide)
  unfold unescape
  rw [first]
  exact if_pos ⟨rfl, rfl⟩

theorem unescape_slash (rest : List Char) : unescape ('~' :: '1' :: rest) = '/' :: unescape rest := by
  have first : replacePair '~' '1' '/' ('~' :: '1' :: rest) = '/' :: replacePair '~' '1' '/' rest :=
    if_pos ⟨rfl, rfl⟩
  unfold unescape
  rw [first]
  exact replacePair_cons (by decide) _

theorem unescape_plain (plain : '~' ∉ key) : unescape key = key := by
  induction key with
  | nil => rfl
  | cons c rest ih =>
    rw [List.mem_cons, not_or] at plain
    rw [unescape_cons (Ne.symm plain.1), ih plain.2]

/-- A pointer of one name that is no index finds a field. -/
theorem object_of_pointer {v inner : Value} (whole : '/' ∉ key)
    (plain : '~' ∉ key) (noIndex : parseIndex key = none) (found : v.pointer ('/' :: key) = some inner) :
    ∃ fields, v = object fields ∧ fields.lookup key = some inner := by
  rw [pointer_slash, List.splitOn_eq_singleton whole, List.map_singleton, unescape_plain plain,
    walk_cons] at found
  obtain ⟨member, named, same⟩ := Option.bind_eq_some_iff.mp found
  cases same
  cases v with
  | object fields => exact ⟨fields, rfl, named⟩
  | array items =>
    rw [child, noIndex] at named
    cases named
  | null | bool _ | number _ | string _ => cases named

/-- Decoding and the two replacements agree wherever decoding succeeds. -/
theorem unescape_of_decode {token : List Char} (decoded : decode token = some key) : unescape token = key := by
  fun_induction decode token generalizing key with
  | case1 => cases decoded; rfl
  | case2 rest ih =>
    obtain ⟨tail, found, rfl⟩ := Option.map_eq_some_iff.mp decoded
    rw [unescape_tilde, ih found]
  | case3 rest ih =>
    obtain ⟨tail, found, rfl⟩ := Option.map_eq_some_iff.mp decoded
    rw [unescape_slash, ih found]
  | case4 => cases decoded
  | case5 c rest _ _ plain ih =>
    obtain ⟨tail, found, rfl⟩ := Option.map_eq_some_iff.mp decoded
    rw [unescape_cons plain, ih found]

end Value

end DuDuClaw.Lib
