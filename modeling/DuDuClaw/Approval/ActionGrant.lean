/-
# Approval.ActionGrant -- what an approval of one call covers

An approval of a tool call is bound to the employee, the tool and a digest of the
arguments (approval/action_grant.rs).  The digest is taken over a JSON array whose last
item is the canonical text of the arguments, as a string.

The payload is the MCP parameters of the call, whose `arguments` are digested; the code
says that bare arguments are accepted too, but digests every payload without
`arguments` as `null`.

* `matchesStored_iff`: which grants match, by what is digested.
* `binding_covers_call`: the binding covers exactly the call when both payloads carry
  `arguments`, and for bare arguments only as far as `null` stands for them.
* `bare_calls_match`: two different bare calls that match.
-/
import DuDuClaw.Lib.Json
import DuDuClaw.Lib.Value

namespace DuDuClaw.Approval.Binding

open DuDuClaw.Lib

/-- A `serde_json::Value`: its objects have no two fields of one key. -/
structure Payload where
  value : JsonOf Number
  distinct : value.Distinct

/-- `Value::get` by key. -/
def getField (key : List Char) : JsonOf Number → Option (JsonOf Number)
  | .obj fields => (fields.find? fun field => field.1 == key).map Prod.snd
  | _ => none

/-- `Value::as_str`. -/
def asString : JsonOf Number → Option (List Char)
  | .str s => some s
  | _ => none

/-- What the module calls elsewhere: SHA-256 in hexadecimal, the effect of a call and the
masked summary of its arguments. -/
structure GrantEnv where
  sha256Hex : List Char → List Char
  effectOfCall : List Char → JsonOf Number → List Char
  summarizeArgs : JsonOf Number → List (List Char)

/-- The grant in full; `Approval.Cards` keeps the three fields it compares. -/
structure ActionGrant where
  agentId : List Char
  tool : List Char
  effect : List Char
  argsDigest : List Char
  argsSummary : List (List Char)

def argumentsKey : List Char := "arguments".toList

section Digest

variable [NumberText Number]

def argsDigest (env : GrantEnv) (agentId tool : List Char) (args : JsonOf Number) : List Char :=
  env.sha256Hex
    (JsonOf.arr [.str agentId, .str tool, .str args.canonical] : JsonOf Number).canonical

/-- The part of the payload `ActionGrant::build` takes as the arguments. -/
def digestedArgs (payload : JsonOf Number) : JsonOf Number :=
  (getField argumentsKey payload).getD .null

def ActionGrant.build (env : GrantEnv) (agentId tool : List Char) (payload : JsonOf Number) :
    ActionGrant where
  agentId := agentId
  tool := tool
  effect := env.effectOfCall tool (digestedArgs payload)
  argsDigest := DuDuClaw.Approval.Binding.argsDigest env agentId tool (digestedArgs payload)
  argsSummary := env.summarizeArgs (digestedArgs payload)

end Digest

def ActionGrant.toJson (grant : ActionGrant) : JsonOf Number :=
  .obj [("agent_id".toList, .str grant.agentId), ("tool".toList, .str grant.tool),
    ("effect".toList, .str grant.effect), ("args_digest".toList, .str grant.argsDigest),
    ("args_summary".toList, .arr (grant.argsSummary.map .str)),
    ("single_use".toList, .bool true)]

def ActionGrant.matchesStored (grant : ActionGrant) (stored : JsonOf Number) : Bool :=
  (getField "agent_id".toList stored).bind asString == some grant.agentId &&
    (getField "tool".toList stored).bind asString == some grant.tool &&
    (getField "args_digest".toList stored).bind asString == some grant.argsDigest

/-! ## What matches -/

/-- The arguments of the call a payload stands for: those it carries, or, bare, itself. -/
def callArgs (payload : JsonOf Number) : JsonOf Number :=
  (getField argumentsKey payload).getD payload

theorem matchesStored_toJson (grant stored : ActionGrant) : grant.matchesStored stored.toJson ↔
      stored.agentId = grant.agentId ∧ stored.tool = grant.tool ∧ stored.argsDigest = grant.argsDigest := by
  have agent : (getField "agent_id".toList stored.toJson).bind asString = some stored.agentId := rfl
  have tool : (getField "tool".toList stored.toJson).bind asString = some stored.tool := rfl
  have digest : (getField "args_digest".toList stored.toJson).bind asString =
    some stored.argsDigest := rfl
  simp only [ActionGrant.matchesStored, agent, tool, digest, Bool.and_eq_true, beq_iff_eq,
    Option.some.injEq, and_assoc]

theorem getField_distinct {key : List Char} {payload value : JsonOf Number}
    (distinct : payload.Distinct) (found : getField key payload = some value) : value.Distinct := by
  cases payload with
  | obj fields =>
    rw [getField, Option.map_eq_some_iff] at found
    obtain ⟨field, first, rfl⟩ := found
    exact JsonOf.distinctFields_iff.mp distinct.2 field (List.mem_of_find?_eq_some first)
  | _ => cases found

theorem digestedArgs_distinct (payload : Payload) : (digestedArgs payload.value).Distinct := by
  unfold digestedArgs
  cases found : getField argumentsKey payload.value with
  | none => trivial
  | some args => exact getField_distinct payload.distinct found

/-- What is digested tells the two calls apart as their arguments do: both payloads carry
`arguments`; or both are bare and equal; or the arguments of the one are `null` exactly when
they are those of the bare other. -/
def Told (first second : JsonOf Number) : Prop :=
  match getField argumentsKey first, getField argumentsKey second with
  | some _, some _ => True
  | none, none => first.Same second
  | none, some args => args = .null ↔ first.Same args
  | some args, none => args = .null ↔ args.Same second

theorem same_null_left (args : JsonOf Number) : JsonOf.Same .null args ↔ args = .null := by
  cases args <;> simp [JsonOf.Same]

theorem same_null_right (args : JsonOf Number) : JsonOf.Same args .null ↔ args = .null := by
  cases args <;> simp [JsonOf.Same]

theorem told_iff (first second : JsonOf Number) : Told first second ↔
      ((digestedArgs first).Same (digestedArgs second) ↔ (callArgs first).Same (callArgs second)) := by
  unfold Told digestedArgs callArgs
  cases getField argumentsKey first with
  | some args =>
    cases getField argumentsKey second with
    | some args' => simp
    | none => simp [same_null_right]
  | none =>
    cases getField argumentsKey second with
    | some args' => simp [same_null_left]
    | none => simp [JsonOf.Same]

section Digest

variable [NumberText Number] (env : GrantEnv)
  (hashes : Function.Injective env.sha256Hex)
  (prints : Function.Injective (NumberText.text : Number → List Char))

include hashes prints

/-- **The grants that match**: employee, tool and what is digested agree, up to the order
of fields. -/
theorem matchesStored_iff (employee employee' tool tool' : List Char) (first second : Payload) :
    (ActionGrant.build env employee' tool' second.value).matchesStored
        (ActionGrant.build env employee tool first.value).toJson ↔
      employee = employee' ∧ tool = tool' ∧ (digestedArgs first.value).Same (digestedArgs second.value) := by
  rw [matchesStored_toJson]
  simp only [ActionGrant.build]
  have args := JsonOf.canonical_iff_same prints _ _ (digestedArgs_distinct first)
    (digestedArgs_distinct second)
  constructor
  · rintro ⟨sameEmployee, sameTool, digests⟩
    have texts := JsonOf.canonical_arr (hashes digests)
    simp only [List.map_cons, List.cons.injEq] at texts
    exact ⟨sameEmployee, sameTool, args.mp (JsonOf.canonical_str texts.2.2.1)⟩
  · rintro ⟨rfl, rfl, same⟩
    exact ⟨rfl, rfl, by rw [argsDigest, argsDigest, args.mpr same]⟩

/-- **A binding covers exactly its call**, for all employees, tools and payloads, if and
only if the two calls are of different employees or tools or their payloads are told apart
by what is digested. -/
theorem binding_covers_call (employee employee' tool tool' : List Char) (first second : Payload) :
    ((ActionGrant.build env employee' tool' second.value).matchesStored
        (ActionGrant.build env employee tool first.value).toJson ↔
      employee = employee' ∧ tool = tool' ∧ (callArgs first.value).Same (callArgs second.value)) ↔
      (employee ≠ employee' ∨ tool ≠ tool' ∨ Told first.value second.value) := by
  rw [matchesStored_iff env hashes prints, told_iff]
  by_cases sameEmployee : employee = employee'
  · by_cases sameTool : tool = tool'
    · simp [sameEmployee, sameTool]
    · simp [sameTool]
  · simp [sameEmployee]

end Digest

/-! ## Bare arguments -/

def sampleNumber : Number → List Char
  | .posInt n => Nat.toDigits 10 n
  | .negInt n => '-' :: Nat.toDigits 10 n
  | .float bits => Nat.toDigits 10 bits.toNat ++ ['.', '0']

theorem toDigits_chars (n : Nat) : ∀ c ∈ Nat.toDigits 10 n, isNumberChar c := by
  intro c listed
  simp [isNumberChar, JsonOf.toDigits_digits n c listed]

instance sampleNumberText : NumberText Number where
  text := sampleNumber
  chars n c listed := by
    cases n with
    | posInt n => exact toDigits_chars n c listed
    | negInt n =>
      rcases List.mem_cons.mp listed with rfl | digit
      · decide
      · exact toDigits_chars n c digit
    | float bits =>
      rcases List.mem_append.mp listed with digit | fraction
      · exact toDigits_chars _ c digit
      · simp only [List.mem_cons, List.not_mem_nil, or_false] at fraction
        rcases fraction with rfl | rfl <;> decide
  lead n := by
    cases n with
    | posInt n => exact JsonOf.toDigits_lead n
    | negInt n => exact ⟨'-', _, rfl, .inr rfl⟩
    | float bits =>
      obtain ⟨c, rest, shape, lead⟩ := JsonOf.toDigits_lead bits.toNat
      exact ⟨c, rest ++ ['.', '0'], by simp [sampleNumber, shape], lead⟩

theorem toDigits_injective {m n : Nat} (same : Nat.toDigits 10 m = Nat.toDigits 10 n) : m = n := by
  have read := congrArg (Nat.ofDigitChars 10 · 0) same
  simpa only [Nat.ofDigitChars_ten_toDigits] using read

/-- The sign and the point tell the three kinds apart. -/
theorem sampleNumber_kind (n : Number) : ('-' ∈ sampleNumber n ↔ n matches .negInt _) ∧
      ('.' ∈ sampleNumber n ↔ n matches .float _) := by
  have digits : ∀ n c, c.isDigit = false → c ∉ Nat.toDigits 10 n := by
    intro n c other listed
    rw [JsonOf.toDigits_digits n c listed] at other
    cases other
  have minus := fun n => digits n '-' (by decide)
  have point := fun n => digits n '.' (by decide)
  cases n with
  | posInt n => simp [sampleNumber, minus, point]
  | negInt n => simp [sampleNumber, point]
  | float bits => simp [sampleNumber, minus]

theorem sampleNumber_injective : Function.Injective sampleNumber := by
  intro m n same
  obtain ⟨minus, point⟩ := sampleNumber_kind m
  obtain ⟨minus', point'⟩ := sampleNumber_kind n
  rw [same] at minus point
  have signs := minus.symm.trans minus'
  have points := point.symm.trans point'
  cases m <;> cases n <;> simp at signs points
  · exact congrArg _ (toDigits_injective same)
  · exact congrArg _ (toDigits_injective (List.cons.inj same).2)
  · exact congrArg _ (UInt64.toNat_inj.mp (toDigits_injective (List.append_cancel_right same)))

def sampleGrantEnv : GrantEnv where
  sha256Hex text := text
  effectOfCall _ _ := "send".toList
  summarizeArgs _ := []

def recipientKey : List Char := ['t', 'o']

variable (recipient : List Char)

/-- Bare arguments: `{"to": recipient}`. -/
def bareCall : Payload where
  value := .obj [(recipientKey, .str recipient)]
  distinct := ⟨List.nodup_singleton recipientKey, trivial, trivial⟩

/-- The same as the `arguments` of MCP parameters. -/
def mcpCall : Payload where
  value := .obj [(argumentsKey, .obj [(recipientKey, .str recipient)])]
  distinct := ⟨List.nodup_singleton argumentsKey,
    ⟨List.nodup_singleton recipientKey, trivial, trivial⟩, trivial⟩

theorem getField_bareCall :
    getField argumentsKey (bareCall recipient).value = none := by
  have other : (recipientKey == argumentsKey) = false := by decide
  simp [getField, bareCall, other]

theorem getField_mcpCall : getField argumentsKey (mcpCall recipient).value =
      some (.obj [(recipientKey, .str recipient)]) := by
  simp [getField, mcpCall]

def employeeEve : List Char := ['e', 'v', 'e']

def mailSend : List Char := "mail_send".toList

theorem recipients_differ : ¬JsonOf.Same (.obj [(recipientKey, .str ['a'])] : JsonOf Number)
      (.obj [(recipientKey, .str ['b'])]) := by
  rintro ⟨-, ⟨other, listed, same⟩, -⟩
  obtain ⟨-, rfl⟩ := Prod.mk.inj (List.mem_singleton.mp listed)
  have letters : ['a'] = ['b'] := same
  simp at letters

/-- With `arguments` in both payloads the binding covers exactly the call: a grant for mail
to one recipient does not match the binding for mail to another. -/
theorem binding_covers_mail :
    ((ActionGrant.build sampleGrantEnv employeeEve mailSend (mcpCall ['b']).value).matchesStored
        (ActionGrant.build sampleGrantEnv employeeEve mailSend (mcpCall ['a']).value).toJson ↔
      employeeEve = employeeEve ∧ mailSend = mailSend ∧
        (callArgs (mcpCall ['a']).value).Same (callArgs (mcpCall ['b']).value)) ∧
      ¬(callArgs (mcpCall ['a']).value).Same (callArgs (mcpCall ['b']).value) := by
  have told : Told (mcpCall ['a']).value (mcpCall ['b']).value := by
    unfold Told
    rw [getField_mcpCall, getField_mcpCall]
    trivial
  refine ⟨(binding_covers_call sampleGrantEnv (fun _ _ same => same) sampleNumber_injective
    employeeEve employeeEve mailSend mailSend (mcpCall ['a']) (mcpCall ['b'])).mpr
    (.inr (.inr told)), ?_⟩
  unfold callArgs
  rw [getField_mcpCall, getField_mcpCall]
  exact recipients_differ

/-- **Bare calls are not told apart**: a grant for mail to one recipient matches the
binding for mail to another. -/
theorem bare_calls_match :
    (ActionGrant.build sampleGrantEnv employeeEve mailSend (bareCall ['b']).value).matchesStored
        (ActionGrant.build sampleGrantEnv employeeEve mailSend (bareCall ['a']).value).toJson ∧
      ¬(callArgs (bareCall ['a']).value).Same (callArgs (bareCall ['b']).value) := by
  constructor
  · rw [matchesStored_iff sampleGrantEnv (fun _ _ same => same) sampleNumber_injective]
    refine ⟨rfl, rfl, ?_⟩
    unfold digestedArgs
    rw [getField_bareCall, getField_bareCall]
    trivial
  · unfold callArgs
    rw [getField_bareCall, getField_bareCall]
    exact recipients_differ

end DuDuClaw.Approval.Binding
