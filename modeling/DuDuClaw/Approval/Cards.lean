/-
# Approval.Cards -- approval cards and the turns they come from

The approval store of approval/store.rs, approval/binding.rs, approval/action_grant.rs
and approval/turn_origin.rs.  A card asks a person for a decision or for an answer.  It
waits until it is decided, expires or is withdrawn, and an approved card is used once.
A card raised by a turn of a conversation records that turn; cancelling the turn leaves a
tombstone, which a sweep deletes later.

Every function below is one transaction.  Several callers read the card before they take
the write lock: what they read then is an argument.  So are the verdicts of the host
policy, of the bound task and of the credential scan.  An instant is a number of
nanoseconds, and the comparisons of Julian days are those of the instants.

* `Event`, `Desk.step`: any interleaving of the calls of any number of processes.
-/
import Mathlib.Data.List.Sort
import DuDuClaw.Lib.Runs
import DuDuClaw.Approval.Ledger

namespace DuDuClaw.Approval

open DuDuClaw.Lib

/-! ## Rows -/

inductive ApprovalStatus where
  | pending
  | approved
  | denied
  | expired
  | answered
  | invalidated
  deriving DecidableEq

inductive RequestKind where
  | approval
  | question
  deriving DecidableEq

/-- What a bound card is bound to: the instant it names, and what is only compared. -/
structure CardBinding where
  expiresAt : Option Int
  material : Text
  deriving DecidableEq

abbrev Turn := Text × Text

structure ApprovalRecord where
  id : Text
  agentId : Text
  payload : Value
  requestKind : RequestKind
  binding : Option CardBinding
  /-- `none` when the text of the column is no instant. -/
  createdAt : Option Int
  ttlSeconds : Int
  status : ApprovalStatus := .pending
  decidedAt : Option Int := none
  decidedBy : Option Text := none
  answer : Option Value := none
  invalidatedReason : Option Text := none
  /-- The columns `origin_session_id` and `origin_turn_id`. -/
  origin : Option Turn := none

namespace ApprovalRecord

def expiresAt (rec : ApprovalRecord) : Option Int :=
  rec.createdAt.map (· + rec.ttlSeconds * 1000000000)

/-- An instant strictly before the deadline; none is when the card has no deadline. -/
def isBeforeDeadline (rec : ApprovalRecord) (instant : Int) : Bool :=
  rec.expiresAt.any (instant < ·)

def isStale (rec : ApprovalRecord) (now : Int) : Bool :=
  rec.status = .pending && !rec.isBeforeDeadline now

end ApprovalRecord

structure CardStore where
  cards : List ApprovalRecord := []
  /-- The table `approval_turn_origins`. -/
  origins : List (Text × Turn) := []
  /-- The table `cancelled_approval_turns`, with `cancelled_at`. -/
  cancelled : List (Turn × Int) := []

def isControl (c : Char) : Bool := c.toNat < 0x20 || (0x7F ≤ c.toNat && c.toNat ≤ 0x9F)

def checkedOrigin (turn : Turn) : Except String Unit :=
  refuseIf (turn.1 = [] ∨ 1024 < byteLength turn.1 ∨ turn.1.any isControl ∨
    turn.2 = [] ∨ 2048 < byteLength turn.2 ∨ turn.2.any isControl) "invalid approval turn origin"

namespace CardStore

variable (s : CardStore)

/-- `record_in_connection`. -/
def find (id : Text) : Option ApprovalRecord := s.cards.find? (·.id == id)

def isCancelled (turn : Turn) : Bool := s.cancelled.any (·.1 == turn)

variable (rec : ApprovalRecord) (id : Text)

/-- `LIVE_ORIGIN_SQL`. -/
def liveOrigin : Bool :=
  match rec.origin with
  | none => true
  | some _ => s.origins.any fun row => row.1 == rec.id && !s.isCancelled row.2

/-- `UPDATE approvals SET .. WHERE ..`. -/
def update (guard : ApprovalRecord → Bool) (edit : ApprovalRecord → ApprovalRecord) : CardStore :=
  { s with cards := s.cards.map fun rec => if guard rec then edit rec else rec }

/-! ## Requests -/

/-- `INSERT OR IGNORE INTO approval_turn_origins`. -/
def addOrigin (turn : Turn) : CardStore :=
  if s.origins.contains (id, turn) then s else { s with origins := s.origins ++ [(id, turn)] }

/-- A keyed request finds its card: the contract is verified before another origin is
recorded, and an unscoped caller makes the card unscoped. -/
def joinCard (existing rec : ApprovalRecord) (origin : Option Turn) : CardStore :=
  if existing.agentId = rec.agentId ∧ existing.requestKind = rec.requestKind ∧
      existing.binding = rec.binding ∧ existing.payload == rec.payload then
    match origin with
    | some turn => if s.isCancelled turn then s else s.addOrigin rec.id turn
    | none => s.update (·.id == rec.id) fun card => { card with origin := none }
  else s

def fileCard (origin : Option Turn) : CardStore :=
  let filed := { s with cards := s.cards ++ [{ rec with origin := origin }] }
  match origin with
  | some turn => filed.addOrigin rec.id turn
  | none => filed

/-- `insert_row`, and whether it inserted: `origin` is what `current_origin` found. -/
def insertRow (ifAbsent : Bool) (origin : Option Turn)
    (credentialFree : Bool) : Except String (Bool × CardStore) := do
  refuseIf (credentialFree = false) "approval payload holds a credential"
  origin.forM checkedOrigin
  match s.find rec.id with
  | some existing =>
    if ifAbsent then return (false, s.joinCard existing rec origin)
    else do
      refuseIf (origin.any s.isCancelled) "approval turn was cancelled"
      .error "insert approval: UNIQUE constraint failed: approvals.id"
  | none =>
    refuseIf (origin.any s.isCancelled) "approval turn was cancelled"
    return (true, s.fileCard rec origin)

def request (ifAbsent : Bool) (origin : Option Turn)
    (credentialFree : Bool) : Except String (Bool × CardStore) :=
  let filed : ApprovalRecord :=
    { id := rec.id, agentId := rec.agentId, payload := rec.payload, requestKind := rec.requestKind
      binding := rec.binding, createdAt := rec.createdAt, ttlSeconds := rec.ttlSeconds }
  s.insertRow filed ifAbsent origin credentialFree

/-! ## Decisions -/

/-- The rows `decide_if_pending` updates. -/
def decisionGuard (status : ApprovalStatus) (decidedAt : Int) (rec : ApprovalRecord) :
    Bool :=
  rec.id == id && decide (rec.status = .pending) && s.liveOrigin rec &&
    (!List.contains [.approved, .denied, .answered] status || rec.isBeforeDeadline decidedAt)

/-- Whether a decision goes on to its update; an expiry always does.  `digest` is the
verdict of `check_expected_digest`. -/
def checkUndecided (status : ApprovalStatus) (now : Int) (digest : Bool) :
    Except String Bool :=
  match s.find id with
  | some rec =>
    if status = .expired then .ok true
    else if rec.status ≠ .pending ∨ rec.isStale now then .ok false
    else do
      refuseIf (digest = false) "approval digest mismatch; refetch the approval before deciding"
      return true
  | none => .ok true

/-- `decide_if_pending`, and whether it changed the card. -/
def decideIfPending (status : ApprovalStatus) (decidedBy : Text) (decidedAt now : Int)
    (digest : Bool) : Except String (Bool × CardStore) := do
  let undecided ← s.checkUndecided id status now digest
  if undecided then
    return (s.cards.any (s.decisionGuard id status decidedAt),
      s.update (s.decisionGuard id status decidedAt) fun rec =>
        { rec with status := status, decidedBy := some decidedBy, decidedAt := some decidedAt })
  else return (false, s)

/-- The expiry that `poll`, `expire_stale` and `await_decision` share: `rec` was read
before. -/
def expire (decidedAt now : Int) : Except String (Bool × CardStore) :=
  if rec.isStale decidedAt then
    s.decideIfPending rec.id .expired "system:ttl".toList decidedAt now true
  else return (false, s)

/-- `decide_unbound`, and whether it decided: a stale card expires instead.  `rec` was read
before, at `readAt`. -/
def decideUnbound (approve : Bool) (decidedBy : Text) (egressAdmin : Bool)
    (readAt decidedAt now : Int) (digest : Bool) : Except String (Bool × CardStore) := do
  refuseIf ((rec.payload.get "egress_guard".toList).isSome ∧ egressAdmin = false)
    "outgoing data approval requires an authenticated Admin"
  refuseIf (rec.binding.isSome ∨ rec.requestKind ≠ .approval)
    "bound requests require authenticated decision context"
  if rec.isStale readAt then do
    let expired ← s.decideIfPending rec.id .expired "system:ttl".toList decidedAt now true
    return (false, expired.2)
  else do
    refuseIf (rec.status ≠ .pending) "refusing to change terminal state"
    let decided ← s.decideIfPending rec.id (if approve then .approved else .denied) decidedBy
      decidedAt now digest
    refuseIf (decided.1 = false) "approval was decided concurrently"
    return decided

def withdraw (id decidedBy : Text) (decidedAt now : Int) (digest : Bool) :
    Except String (Bool × CardStore) :=
  s.decideIfPending id .denied decidedBy decidedAt now digest

/-- The rows `resolve_bound` updates. -/
def resolveGuard (kind : RequestKind) (binding : CardBinding) (decidedAt : Int)
    (rec : ApprovalRecord) : Bool :=
  rec.id == id && decide (rec.status = .pending) && decide (rec.requestKind = kind) &&
    decide (rec.binding = some binding) && s.liveOrigin rec &&
    binding.expiresAt.any (decidedAt < ·) && rec.isBeforeDeadline decidedAt

/-- `resolve_bound`: `rec` was read before; `admitted` is the verdict of the checks of the
decision context, the binding and the host policy on it, `task` that of the bound task. -/
def resolveBound (kind : RequestKind) (status : ApprovalStatus)
    (answer : Option Value) (decidedBy : Text) (admitted task digest : Bool) (decidedAt now : Int) :
    Except String CardStore := do
  let binding ← okOr rec.binding "legacy request has no authorization binding"
  refuseIf (rec.requestKind ≠ kind) "request kind or decision identity mismatch"
  refuseIf (admitted = false) "policy changed; request a new approval"
  refuseIf (task = false) "task changed"
  let current ← okOr (s.find rec.id) "request missing"
  refuseIf (current.status ≠ .pending ∨ current.isStale now)
    "request expired or decided concurrently"
  refuseIf (digest = false) "approval digest mismatch; refetch the approval before deciding"
  refuseIf (s.cards.any (s.resolveGuard rec.id kind binding decidedAt) = false)
    "request expired or decided concurrently"
  return s.update (s.resolveGuard rec.id kind binding decidedAt) fun row =>
    { row with status := status, decidedAt := some decidedAt, decidedBy := some decidedBy
               answer := answer }

/-- `decide_bound` and `decide_bound_dashboard`. -/
def decideBound (approve : Bool) (decidedBy : Text)
    (admitted task digest : Bool) (decidedAt now : Int) : Except String CardStore :=
  s.resolveBound rec .approval (if approve then .approved else .denied) none decidedBy admitted task
    digest decidedAt now

def isOffered (answer : Value) : Bool :=
  ((rec.payload.get "options".toList).bind Value.asArray).all fun options =>
    options.all (·.asStr.isSome) && options.contains answer

def answerQuestion (answer : Value) (decidedBy : Text)
    (admitted task digest : Bool) (decidedAt now : Int) : Except String CardStore := do
  let text ← okOr answer.asStr "question answer must be text"
  refuseIf (isBlank text ∨ 8192 < byteLength text) "question answer empty or too long"
  refuseIf (isOffered rec answer = false) "answer is not an offered option"
  s.resolveBound rec .question .answered (some answer) decidedBy admitted task digest decidedAt now

/-! ## Invalidation and use -/

def invalidateRequest (id reason : Text) : CardStore :=
  s.update (fun rec => rec.id == id && [.pending, .approved].contains rec.status) fun rec =>
    { rec with status := .invalidated, invalidatedReason := some reason }

def replaceText (payload : Value) (credentialFree : Bool) : Except String CardStore := do
  refuseIf (credentialFree = false) "approval payload holds a credential"
  return s.update (·.id == id) fun rec =>
    if rec.binding.isSome then
      { rec with payload := payload, status := .invalidated
                 invalidatedReason := some "payload_scrubbed".toList }
    else { rec with payload := payload }

def consumeGuard (rec : ApprovalRecord) : Bool :=
  rec.id == id && decide (rec.status = .approved)

/-- `consume_approved`, and whether it changed the card. -/
def consumeApproved (id reason : Text) : Bool × CardStore :=
  (s.cards.any (consumeGuard id), s.update (consumeGuard id) fun rec =>
    { rec with status := .invalidated, invalidatedReason := some reason })

end CardStore

/-- Of the call an approval covers: what is compared with the stored one. -/
structure ActionGrant where
  agentId : Text
  tool : Text
  argsDigest : Text

def ActionGrant.matchesStored (grant : ActionGrant) (stored : Value) : Bool :=
  (stored.get "agent_id".toList).bind Value.asStr == some grant.agentId &&
    (stored.get "tool".toList).bind Value.asStr == some grant.tool &&
    (stored.get "args_digest".toList).bind Value.asStr == some grant.argsDigest

inductive GrantRefusal where
  | notApproved
  | mismatch
  | alreadyUsed
  | store

namespace CardStore

variable (s : CardStore)

/-- The rows `verify_and_consume` updates: the row just verified, still live at `now`. -/
def verifiedGuard (verified : ApprovalRecord) (now : Int) (rec : ApprovalRecord) : Bool :=
  rec.id == verified.id && decide (rec.status = .approved) &&
    decide (rec.agentId = verified.agentId) && rec.payload == verified.payload &&
    decide (rec.createdAt = verified.createdAt) && decide (rec.ttlSeconds = verified.ttlSeconds) &&
    decide (rec.binding = verified.binding) && s.liveOrigin rec &&
    rec.binding.all (fun binding => binding.expiresAt.any (now < ·)) && rec.isBeforeDeadline now

/-- `verify_and_consume`: `rec` was read before; `mail` is the verdict of the checks a bound
mail decision repeats.  The update reads the clock again, at `later`. -/
def verifyAndConsume (rec : ApprovalRecord) (grant : ActionGrant) (mail : Bool) (reason : Text)
    (now later : Int) : Except GrantRefusal CardStore := do
  refuseIf (rec.status ≠ .approved) .notApproved
  refuseIf (rec.agentId ≠ grant.agentId) .mismatch
  let stored ← okOr (rec.payload.get "action_grant".toList) .mismatch
  refuseIf (grant.matchesStored stored = false) .mismatch
  refuseIf (mail = false) .store
  refuseIf (rec.isBeforeDeadline now = false) .notApproved
  refuseIf (s.cards.any (s.verifiedGuard rec later) = false) .alreadyUsed
  return s.update (s.verifiedGuard rec later) fun row =>
    { row with status := .invalidated, invalidatedReason := some reason }

/-! ## Turns -/

/-- The turn's tombstone: `INSERT .. ON CONFLICT DO NOTHING`. -/
def fence (turn : Turn) (now : Int) : CardStore :=
  if s.isCancelled turn then s else { s with cancelled := s.cancelled ++ [(turn, now)] }

/-- The cards `withdraw_turn` withdraws: the turn is one of their origins, and no origin of
theirs is left without a tombstone. -/
def withdrawnGuard (turn : Turn) (rec : ApprovalRecord) : Bool :=
  decide (rec.status = .pending) && rec.origin.isSome && s.origins.contains (rec.id, turn) &&
    s.origins.all fun row => row.1 != rec.id || s.isCancelled row.2

def withdrawTurn (turn : Turn) (now : Int) : Except String CardStore := do
  checkedOrigin turn
  return (s.fence turn now).update ((s.fence turn now).withdrawnGuard turn) fun rec =>
    { rec with status := .denied, decidedBy := some "system:cancel:webchat_turn".toList
               decidedAt := some now }

def hour : Int := 3600 * 1000000000

def tombstoneRowCap : Nat := 100000

def tombstoneSweepBatch : Nat := 1000

def oldest (before : Int) (limit : Nat) : List (Turn × Int) :=
  ((s.cancelled.filter (·.2 < before)).insertionSort (·.2 ≤ ·.2)).take limit

def dropTombstones (victims : List (Turn × Int)) : CardStore :=
  { s with cancelled := s.cancelled.filter (!victims.contains ·) }

def sweepTombstones (now : Int) : CardStore :=
  let expired := s.oldest (now - 24 * hour) tombstoneSweepBatch
  let swept := s.dropTombstones expired
  let count := swept.cancelled.length
  if tombstoneRowCap < count then
    swept.dropTombstones (swept.oldest (now - hour)
      (min (count - tombstoneRowCap) (tombstoneSweepBatch - expired.length)))
  else swept

end CardStore

/-! ## Interleavings -/

/-- A call with what its caller read before and what its checks outside the store found. -/
inductive Event where
  | request (rec : ApprovalRecord) (ifAbsent : Bool) (origin : Option Turn) (credentialFree : Bool)
  | expire (rec : ApprovalRecord) (decidedAt now : Int)
  | decideUnbound (rec : ApprovalRecord) (approve : Bool) (decidedBy : Text) (egressAdmin : Bool)
      (readAt decidedAt now : Int) (digest : Bool)
  | decideBound (rec : ApprovalRecord) (approve : Bool) (decidedBy : Text)
      (admitted task digest : Bool) (decidedAt now : Int)
  | answerQuestion (rec : ApprovalRecord) (answer : Value) (decidedBy : Text)
      (admitted task digest : Bool) (decidedAt now : Int)
  | withdraw (id decidedBy : Text) (decidedAt now : Int) (digest : Bool)
  | withdrawTurn (turn : Turn) (now : Int)
  | invalidateRequest (id reason : Text)
  | replaceText (id : Text) (payload : Value) (credentialFree : Bool)
  | consumeApproved (id reason : Text)
  | verifyAndConsume (rec : ApprovalRecord) (grant : ActionGrant) (mail : Bool) (reason : Text)
      (now later : Int)
  | sweepTombstones (now : Int)

/-- The store, with the cards that a consumer has used and the turns that have been
cancelled. -/
structure Desk where
  store : CardStore := {}
  consumed : List Text := []
  everCancelled : List Turn := []

/-- The store after a call; one that returns an error leaves it. -/
def Desk.settle {ε : Type} (d : Desk) (result : Except ε CardStore) : Desk :=
  match result with
  | .ok store => { d with store := store }
  | .error _ => d

def Desk.step (d : Desk) : Event → Desk
  | .request rec ifAbsent origin credentialFree =>
    d.settle ((d.store.request rec ifAbsent origin credentialFree).map Prod.snd)
  | .expire rec decidedAt now => d.settle ((d.store.expire rec decidedAt now).map Prod.snd)
  | .decideUnbound rec approve decidedBy egressAdmin readAt decidedAt now digest =>
    d.settle ((d.store.decideUnbound rec approve decidedBy egressAdmin readAt decidedAt now
      digest).map Prod.snd)
  | .decideBound rec approve decidedBy admitted task digest decidedAt now =>
    d.settle (d.store.decideBound rec approve decidedBy admitted task digest decidedAt now)
  | .answerQuestion rec answer decidedBy admitted task digest decidedAt now =>
    d.settle (d.store.answerQuestion rec answer decidedBy admitted task digest decidedAt now)
  | .withdraw id decidedBy decidedAt now digest =>
    d.settle ((d.store.withdraw id decidedBy decidedAt now digest).map Prod.snd)
  | .withdrawTurn turn now =>
    match d.store.withdrawTurn turn now with
    | .ok store => { d with store := store, everCancelled := turn :: d.everCancelled }
    | .error _ => d
  | .invalidateRequest id reason => { d with store := d.store.invalidateRequest id reason }
  | .replaceText id payload credentialFree => d.settle (d.store.replaceText id payload credentialFree)
  | .consumeApproved id reason =>
    match d.store.consumeApproved id reason with
    | (true, store) => { d with store := store, consumed := id :: d.consumed }
    | (false, store) => { d with store := store }
  | .verifyAndConsume rec grant mail reason now later =>
    match d.store.verifyAndConsume rec grant mail reason now later with
    | .ok store => { d with store := store, consumed := rec.id :: d.consumed }
    | .error _ => d
  | .sweepTombstones now => { d with store := d.store.sweepTombstones now }

end DuDuClaw.Approval
