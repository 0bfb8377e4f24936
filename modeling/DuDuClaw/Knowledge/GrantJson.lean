/-
# Knowledge.GrantJson -- grants in a JSON column

The grants that an archived collection has lost are kept as the text of a JSON array.  The
JSON library is a parameter; its objects keep their keys sorted.

* `grantsFromJson_toJson`: grants read back as they were written, where the library reads
  back what it writes.
* `compact_roundTrip`: the canonical text and a reader of it are such a library.
-/
import DuDuClaw.Knowledge.Collections
import DuDuClaw.Lib.Json

namespace DuDuClaw.Knowledge

open DuDuClaw.Lib

/-! ## Values -/

def get (key : Text) : Json → Option Json
  | .obj fields => (fields.find? (·.1 == key)).map Prod.snd
  | _ => none

def asStr : Json → Option Text
  | .str s => some s
  | _ => none

def asArray : Json → Option (List Json)
  | .arr items => some items
  | _ => none

variable (g : Grant)

/-- `json!({"kind": .., "id": .., "role": ..})`. -/
def grantToValue : Json :=
  .obj [("id".toList, .str g.id), ("kind".toList, .str g.kind.asStr),
    ("role".toList, .str g.role.asStr)]

def grantsToValue (grants : List Grant) : Json := .arr (grants.map grantToValue)

/-- `v.get(key)?.as_str()`. -/
def getStr (key : Text) (v : Json) : Option Text := (get key v).bind asStr

def grantFromValue (v : Json) : Option Grant := do
  let kind ← (getStr "kind".toList v).bind PrincipalKind.parse
  let id ← getStr "id".toList v
  let role ← (getStr "role".toList v).bind Role.parse
  return { kind, id, role }

theorem grantFromValue_toValue : grantFromValue (grantToValue g) = some g := by
  have kind : getStr "kind".toList (grantToValue g) = some g.kind.asStr := rfl
  have id : getStr "id".toList (grantToValue g) = some g.id := rfl
  have role : getStr "role".toList (grantToValue g) = some g.role.asStr := rfl
  unfold grantFromValue
  rw [kind, id, role, Option.bind_some, Option.bind_some, PrincipalKind.parse_asStr, Role.parse_asStr]
  rfl

/-! ## Text -/

/-- `serde_json`: the text of a value, and the value of a text. -/
structure Serde where
  toString : Json → Text
  fromStr : Text → Option Json

variable (serde : Serde)

/-- The text of grants reads back as their value. -/
def Serde.RoundTrip : Prop :=
  ∀ grants, serde.fromStr (serde.toString (grantsToValue grants)) = some (grantsToValue grants)

def grantsToJson (grants : List Grant) : Text := serde.toString (grantsToValue grants)

/-- The archived grants; what cannot be read is skipped. -/
def grantsFromJson (raw : Option Text) : List Grant :=
  match raw.bind serde.fromStr with
  | none => []
  | some v => ((asArray v).map fun items => items.filterMap grantFromValue).getD []

theorem grantsFromJson_toJson {serde : Serde} (roundTrip : serde.RoundTrip) (grants : List Grant) :
    grantsFromJson serde (some (grantsToJson serde grants)) = grants := by
  unfold grantsFromJson grantsToJson
  rw [Option.bind_some, roundTrip grants]
  simp [grantsToValue, asArray, List.filterMap_map, grantFromValue_toValue]

/-! ## The compact text -/

def expect (literal s : Text) : Option Text :=
  if literal.isPrefixOf s then some (s.drop literal.length) else none

/-- The rest of a string behind its opening quote. -/
def readString : Nat → Text → Option (Text × Text)
  | 0, _ => none
  | _ + 1, '"' :: rest => some ([], rest)
  | fuel + 1, s => do
    let (c, rest) ← JsonOf.unescape s
    let (more, rest) ← readString fuel rest
    return (c :: more, rest)

def readField (key s : Text) : Option (Text × Text) := do
  let s ← expect (JsonOf.quote key ++ [':', '"']) s
  readString s.length s

def readObject (s : Text) : Option (Json × Text) := do
  let (id, s) ← readField "id".toList (← expect ['{'] s)
  let (kind, s) ← readField "kind".toList (← expect [','] s)
  let (role, s) ← readField "role".toList (← expect [','] s)
  let s ← expect ['}'] s
  return (.obj [("id".toList, .str id), ("kind".toList, .str kind), ("role".toList, .str role)], s)

def readMore : Nat → Text → Option (List Json)
  | _, [']'] => some []
  | fuel + 1, ',' :: s => do
    let (item, s) ← readObject s
    let more ← readMore fuel s
    return item :: more
  | _, _ => none

def readArray (s : Text) : Option Json :=
  if s = ['[', ']'] then some (.arr [])
  else do
    let (item, s) ← readObject (← expect ['['] s)
    let more ← readMore s.length s
    return .arr (item :: more)

/-- The text without whitespace, and its reader for arrays of grants. -/
def Serde.compact : Serde := ⟨JsonOf.canonical, readArray⟩

theorem expect_append (literal rest : Text) : expect literal (literal ++ rest) = some rest := by
  unfold expect
  rw [if_pos (by simp), List.drop_left]

theorem escape_ne_nil (c : Char) : JsonOf.escape c ≠ [] := by
  intro empty
  have back := JsonOf.unescape_escape c []
  simp [empty, JsonOf.unescape] at back

theorem readString_quoted (s rest : Text) {fuel : Nat} (enough : s.length < fuel) :
    readString fuel (s.flatMap JsonOf.escape ++ '"' :: rest) = some (s, rest) := by
  induction s generalizing fuel with
  | nil =>
    obtain ⟨fuel, rfl⟩ := Nat.exists_eq_succ_of_ne_zero (Nat.ne_of_gt enough)
    rfl
  | cons c more ih =>
    obtain ⟨fuel, rfl⟩ := Nat.exists_eq_succ_of_ne_zero (Nat.ne_of_gt (Nat.zero_lt_of_lt enough))
    rw [List.flatMap_cons, List.append_assoc, readString]
    · rw [JsonOf.unescape_escape]
      simp [ih (Nat.lt_of_succ_lt_succ enough)]
    · intro other same
      exact JsonOf.escape_head c _ _ same

theorem length_le_flatMap (s : Text) : s.length ≤ (s.flatMap JsonOf.escape).length := by
  induction s with
  | nil => exact Nat.le_refl 0
  | cons c more ih =>
    have some_ := List.length_pos_iff.mpr (escape_ne_nil c)
    rw [List.flatMap_cons, List.length_append, List.length_cons]
    omega

theorem readField_quoted (key s rest : Text) :
    readField key (JsonOf.quote key ++ ':' :: (JsonOf.quote s ++ rest)) = some (s, rest) := by
  unfold readField
  have split : JsonOf.quote key ++ ':' :: (JsonOf.quote s ++ rest) =
      (JsonOf.quote key ++ [':', '"']) ++ (s.flatMap JsonOf.escape ++ '"' :: rest) := by
    simp [JsonOf.quote]
  rw [split, expect_append]
  refine readString_quoted s rest ?_
  have := length_le_flatMap s
  simp only [List.length_append, List.length_cons]
  omega

theorem canonical_grant (rest : Text) : (grantToValue g).canonical ++ rest =
    ['{'] ++ (JsonOf.quote "id".toList ++ ':' :: (JsonOf.quote g.id ++
      ([','] ++ (JsonOf.quote "kind".toList ++ ':' :: (JsonOf.quote g.kind.asStr ++
        ([','] ++ (JsonOf.quote "role".toList ++ ':' :: (JsonOf.quote g.role.asStr ++
          (['}'] ++ rest))))))))) := by
  have sorted : ([("id".toList, JsonOf.quote g.id), ("kind".toList, JsonOf.quote g.kind.asStr),
      ("role".toList, JsonOf.quote g.role.asStr)].insertionSort fun a b => a.1 ≤ b.1) =
      [("id".toList, JsonOf.quote g.id), ("kind".toList, JsonOf.quote g.kind.asStr),
        ("role".toList, JsonOf.quote g.role.asStr)] := by
    refine List.Pairwise.insertionSort_eq ?_
    simp only [List.pairwise_cons, List.forall_mem_cons]
    decide
  unfold grantToValue
  simp only [JsonOf.canonical, JsonOf.canonicalFields]
  rw [sorted]
  simp [JsonOf.joined, JsonOf.joinTail, JsonOf.fieldText]

theorem readObject_canonical (rest : Text) :
    readObject ((grantToValue g).canonical ++ rest) = some (grantToValue g, rest) := by
  rw [canonical_grant]
  unfold readObject
  simp only [expect_append, readField_quoted, Option.bind_eq_bind, Option.bind_some]
  rfl

theorem readMore_joinTail (grants : List Grant) {fuel : Nat} (enough : grants.length ≤ fuel) :
    readMore fuel (JsonOf.joinTail ']' (grants.map fun g => (grantToValue g).canonical)) =
      some (grants.map grantToValue) := by
  induction grants generalizing fuel with
  | nil => cases fuel <;> rfl
  | cons g more ih =>
    obtain ⟨fuel, rfl⟩ := Nat.exists_eq_succ_of_ne_zero (Nat.ne_of_gt (Nat.zero_lt_of_lt enough))
    rw [List.map_cons, JsonOf.joinTail, readMore, readObject_canonical]
    simp [ih (Nat.le_of_succ_le_succ enough)]

theorem length_le_joinTail (parts : List Text) : parts.length ≤ (JsonOf.joinTail ']' parts).length := by
  induction parts with
  | nil => exact Nat.zero_le _
  | cons part more ih =>
    simp only [JsonOf.joinTail, List.length_cons, List.length_append]
    omega

theorem compact_roundTrip : Serde.compact.RoundTrip := by
  rintro (_ | ⟨g, more⟩)
  · rfl
  have text : (grantsToValue (g :: more)).canonical = ['['] ++ ((grantToValue g).canonical ++
      JsonOf.joinTail ']' (more.map fun g => (grantToValue g).canonical)) := by
    simp [grantsToValue, JsonOf.canonical, JsonOf.canonicalItems_eq, JsonOf.joined, Function.comp_def]
  have enough := length_le_joinTail (more.map fun g => (grantToValue g).canonical)
  rw [List.length_map] at enough
  change readArray (grantsToValue (g :: more)).canonical = _
  rw [text]
  unfold readArray
  have filled : ['['] ++ ((grantToValue g).canonical ++
      JsonOf.joinTail ']' (more.map fun g => (grantToValue g).canonical)) ≠ ['[', ']'] := by
    simp [grantToValue, JsonOf.canonical]
  rw [if_neg filled, expect_append]
  simp only [Option.bind_eq_bind, Option.bind_some, readObject_canonical, readMore_joinTail more enough]
  rfl

end DuDuClaw.Knowledge
