/-
# Redaction.Vault -- the token mapping table

The vault of vault/store.rs: one SQLite table of encrypted mappings keyed by
`(token, agent_id, session_id)`.  What the code takes from outside itself (the
cipher, HMAC, the clock, SQLite's success and its choice among several matching
rows) is `Primitives`; every call of the vault reads the clock anew, so the state
counts its calls.

* `mem_insertMapping`: an upsert replaces exactly the row of its own key.
* `lookupMapping_spec`: a lookup answers from one of the visible rows.
-/
import DuDuClaw.Redaction.Engine

namespace DuDuClaw.Redaction

/-! ## The table -/

/-- One row of `redaction_mappings`. -/
structure VaultRow where
  token : Text
  originalEnc : Text
  category : Text
  ruleId : Text
  agentId : Text
  sessionId : Text
  restoreScope : RestoreScope
  crossSession : Bool
  createdAt : Int
  expiresAt : Int
  revealCount : Int
  lastRevealAt : Option Int
  expiredMarker : Bool
  deriving DecidableEq

/-- `VaultEntry`: a row, decrypted unless it has expired. -/
structure VaultEntry where
  token : Text
  original : Option Text
  category : Text
  ruleId : Text
  agentId : Text
  sessionId : Option Text
  restoreScope : RestoreScope
  crossSession : Bool
  createdAt : Int
  expiresAt : Int
  revealCount : Int
  lastRevealAt : Option Int
  expiredMarker : Bool

inductive RedactionError where
  | sqlite
  | crypto
  | invalidToken (reason : TokenError)
  /-- A slice outside the text or inside a character: Rust panics. -/
  | panic
  deriving DecidableEq

/-- The table, and how many calls of the vault went before. -/
structure Vault where
  rows : List VaultRow
  calls : Nat
  deriving DecidableEq

/-- The code outside the repository, and the world it reads.  Arguments of type
`Nat` are the number of the vault call. -/
structure Primitives where
  /-- HMAC-SHA256 of a key and a message. -/
  hmacSha256 : Text → Text → Text
  hmac_length : ∀ key message, (hmacSha256 key message).length = 32
  /-- `CryptoEngine::encrypt` with the agent's key; the nonce depends on the call. -/
  encrypt : Text → Nat → Text → Option Text
  /-- `CryptoEngine::decrypt` followed by `String::from_utf8`. -/
  decrypt : Text → Text → Option Text
  /-- `Utc::now().timestamp()`. -/
  now : Nat → Int
  /-- Whether SQLite refuses the call. -/
  sqliteFails : Nat → Bool
  /-- `LIMIT 1`: which of the matching rows SQLite returns. -/
  choose : List VaultRow → Option VaultRow
  choose_mem : ∀ rows row, choose rows = some row → row ∈ rows
  choose_isSome : ∀ rows, rows ≠ [] → (choose rows).isSome
  /-- chrono's `%Y-%m-%d` of a timestamp. -/
  formatDate : Int → Text

/-- `session_key`: `None` is stored as the empty string. -/
def sessionKey (sessionId : Option Text) : Text := sessionId.getD []

def VaultRow.hasKey (token agentId session : Text) (row : VaultRow) : Bool :=
  row.token == token && row.agentId == agentId && row.sessionId == session

/-- The `WHERE` clause of a lookup. -/
def VaultRow.visible (token agentId session : Text) (row : VaultRow) : Bool :=
  row.token == token && row.agentId == agentId && (row.sessionId == session || row.crossSession)

variable {token agentId session : Text} {row : VaultRow}

theorem VaultRow.visible_iff : row.visible token agentId session ↔ row.token = token ∧ row.agentId = agentId ∧
      (row.sessionId = session ∨ row.crossSession) := by
  simp [VaultRow.visible, and_assoc]

theorem VaultRow.hasKey_iff :
    row.hasKey token agentId session ↔ row.token = token ∧ row.agentId = agentId ∧ row.sessionId = session := by
  simp [VaultRow.hasKey, and_assoc]

/-! ## Operations -/

/-- The row `insert_mapping` writes. -/
def mappingRow (pr : Primitives) (call : Nat) (token encrypted agentId : Text)
    (sessionId : Option Text) (category ruleId : Text) (restoreScope : RestoreScope)
    (crossSession : Bool) (ttlHours : Int) : VaultRow where
  token := token
  originalEnc := encrypted
  category := category
  ruleId := ruleId
  agentId := agentId
  sessionId := sessionKey sessionId
  restoreScope := restoreScope
  crossSession := crossSession
  createdAt := pr.now call
  expiresAt := pr.now call + ttlHours * 3600
  revealCount := 0
  lastRevealAt := none
  expiredMarker := false

/-- `insert_mapping`: encrypt, then `INSERT OR REPLACE`. -/
def insertMapping (pr : Primitives) (v : Vault) (token original agentId : Text)
    (sessionId : Option Text) (category ruleId : Text) (restoreScope : RestoreScope)
    (crossSession : Bool) (ttlHours : Int) : Except RedactionError Unit × Vault :=
  let v' := { v with calls := v.calls + 1 }
  match pr.encrypt agentId v.calls original with
  | none => (.error .crypto, v')
  | some encrypted =>
    if pr.sqliteFails v.calls then (.error .sqlite, v')
    else
      (.ok (), { v' with
        rows := (v.rows.filter fun row => !row.hasKey token agentId (sessionKey sessionId)) ++
          [mappingRow pr v.calls token encrypted agentId sessionId category ruleId restoreScope
            crossSession ttlHours] })

/-- The row as an entry; `''` is the stored form of "no session". -/
def VaultRow.entry (row : VaultRow) (original : Option Text) (isExpired : Bool) : VaultEntry where
  token := row.token
  original := original
  category := row.category
  ruleId := row.ruleId
  agentId := row.agentId
  sessionId := if row.sessionId.isEmpty then none else some row.sessionId
  restoreScope := row.restoreScope
  crossSession := row.crossSession
  createdAt := row.createdAt
  expiresAt := row.expiresAt
  revealCount := row.revealCount
  lastRevealAt := row.lastRevealAt
  expiredMarker := isExpired

/-- The tail of `lookup_mapping`: expiry, then decryption. -/
def openRow (pr : Primitives) (now : Int) (agentId : Text) (row : VaultRow) :
    Except RedactionError VaultEntry :=
  if row.expiredMarker || row.expiresAt ≤ now then .ok (row.entry none true)
  else
    match pr.decrypt agentId row.originalEnc with
    | some plain => .ok (row.entry (some plain) false)
    | none => .error .crypto

def lookupMapping (pr : Primitives) (v : Vault) (token agentId : Text) (sessionId : Option Text) :
    Except RedactionError (Option VaultEntry) × Vault :=
  let v' := { v with calls := v.calls + 1 }
  if pr.sqliteFails v.calls then (.error .sqlite, v')
  else
    match pr.choose (v.rows.filter (VaultRow.visible token agentId (sessionKey sessionId))) with
    | none => (.ok none, v')
    | some row =>
      match openRow pr (pr.now v.calls) agentId row with
      | .ok entry => (.ok (some entry), v')
      | .error e => (.error e, v')

/-- `record_reveal`; the pipeline ignores its result. -/
def recordReveal (pr : Primitives) (v : Vault) (token agentId : Text) (sessionId : Option Text) :
    Vault :=
  let v' := { v with calls := v.calls + 1 }
  if pr.sqliteFails v.calls then v'
  else
    { v' with
      rows := v.rows.map fun row =>
        if row.visible token agentId (sessionKey sessionId) then
          { row with
            revealCount := row.revealCount + 1
            lastRevealAt := some (pr.now v.calls) }
        else row }

/-! ## What the operations do -/

section Spec

variable {pr : Primitives} {v : Vault}

variable {token agentId : Text} {sessionId : Option Text} {row : VaultRow}

variable {original category ruleId : Text} {restoreScope : RestoreScope} {crossSession : Bool}
  {ttlHours now : Int} {v' : Vault} {entry : VaultEntry}

/-- **An upsert replaces the row of its key and touches no other.** -/
theorem mem_insertMapping
    (inserted : insertMapping pr v token original agentId sessionId category ruleId restoreScope
      crossSession ttlHours = (.ok (), v')) :
    v'.calls = v.calls + 1 ∧ ∃ encrypted, pr.encrypt agentId v.calls original = some encrypted ∧
        ∀ row, row ∈ v'.rows ↔ (row ∈ v.rows ∧ row.hasKey token agentId (sessionKey sessionId) = false) ∨
            row = mappingRow pr v.calls token encrypted agentId sessionId category ruleId
              restoreScope crossSession ttlHours := by
  unfold insertMapping at inserted
  split at inserted
  · cases (Prod.mk.inj inserted).1
  rename_i encrypted enc
  split at inserted
  · cases (Prod.mk.inj inserted).1
  · obtain rfl := (Prod.mk.inj inserted).2
    exact ⟨rfl, encrypted, enc, fun row => by simp⟩

theorem insertMapping_error_rows
    {e : RedactionError}
    (refused : insertMapping pr v token original agentId sessionId category ruleId restoreScope
      crossSession ttlHours = (.error e, v')) : v'.rows = v.rows := by
  unfold insertMapping at refused
  split at refused
  · obtain rfl := (Prod.mk.inj refused).2
    rfl
  split at refused
  · obtain rfl := (Prod.mk.inj refused).2
    rfl
  · cases (Prod.mk.inj refused).1

/-- A lookup answers from a visible row, and changes no row. -/
theorem lookupMapping_spec (pr : Primitives) (v : Vault) (token agentId : Text) (sessionId : Option Text) :
    (lookupMapping pr v token agentId sessionId).2.rows = v.rows ∧
      ∀ entry, (lookupMapping pr v token agentId sessionId).1 = .ok (some entry) →
        ∃ row ∈ v.rows, row.visible token agentId (sessionKey sessionId) ∧
          openRow pr (pr.now v.calls) agentId row = .ok entry := by
  unfold lookupMapping
  split
  · exact ⟨rfl, fun entry found => by cases found⟩
  split
  · exact ⟨rfl, fun entry found => by cases found⟩
  rename_i row chosen
  have member := List.mem_filter.mp (pr.choose_mem _ _ chosen)
  split
  · rename_i entry opened
    refine ⟨rfl, fun entry' found => ?_⟩
    obtain rfl := Option.some.inj (Except.ok.inj found)
    exact ⟨row, member.1, member.2, opened⟩
  · exact ⟨rfl, fun entry found => by cases found⟩

/-- A row opens to its own entry: masked once expired, else decrypted. -/
theorem openRow_cases (opened : openRow pr now agentId row = .ok entry) :
    ((row.expiredMarker ∨ row.expiresAt ≤ now) ∧ entry = row.entry none true) ∨
      (row.expiredMarker = false ∧ now < row.expiresAt ∧
        ∃ plain, pr.decrypt agentId row.originalEnc = some plain ∧ entry = row.entry (some plain) false) := by
  unfold openRow at opened
  split at opened
  · rename_i expired
    simp only [Bool.or_eq_true, decide_eq_true_eq] at expired
    exact .inl ⟨expired, (Except.ok.inj opened).symm⟩
  rename_i live
  simp only [Bool.or_eq_true, decide_eq_true_eq, not_or, Bool.not_eq_true, Int.not_le] at live
  split at opened
  · rename_i plain decrypted
    exact .inr ⟨live.1, live.2, plain, decrypted, (Except.ok.inj opened).symm⟩
  · cases opened

theorem openRow_scope
    (opened : openRow pr now agentId row = .ok entry) : entry.restoreScope = row.restoreScope := by
  rcases openRow_cases opened with ⟨-, rfl⟩ | ⟨-, -, plain, -, rfl⟩ <;> rfl

/-- The rows as far as restoring is concerned: without the reveal counters. -/
theorem mem_recordReveal (member : row ∈ (recordReveal pr v token agentId sessionId).rows) :
    ∃ count at_, { row with revealCount := count, lastRevealAt := at_ } ∈ v.rows := by
  unfold recordReveal at member
  split at member
  · exact ⟨row.revealCount, row.lastRevealAt, member⟩
  · obtain ⟨old, inOld, rfl⟩ := List.mem_map.mp member
    refine ⟨old.revealCount, old.lastRevealAt, ?_⟩
    split <;> exact inOld

theorem recordReveal_of_mem
    (member : row ∈ v.rows) : ∃ count at_, { row with revealCount := count, lastRevealAt := at_ } ∈
      (recordReveal pr v token agentId sessionId).rows := by
  unfold recordReveal
  split
  · exact ⟨row.revealCount, row.lastRevealAt, member⟩
  by_cases visible : row.visible token agentId (sessionKey sessionId)
  · exact ⟨row.revealCount + 1, some (pr.now v.calls), List.mem_map.mpr ⟨row, member, if_pos visible⟩⟩
  · exact ⟨row.revealCount, row.lastRevealAt, List.mem_map.mpr ⟨row, member, if_neg visible⟩⟩

end Spec

end DuDuClaw.Redaction
