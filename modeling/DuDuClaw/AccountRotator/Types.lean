/-
# AccountRotator.Types -- one account and its availability

The value types of account_rotator/types.rs with the backoff arithmetic of
types.rs and load.rs.  Times are nanoseconds since the epoch.

* `isAvailable_cooling`: no account is available while its cooldown runs.
* `isAvailable_broken`: a broken credential is never available.
-/
import DuDuClaw.Lib.Chars
import Mathlib.Algebra.Group.Int.Defs
import Mathlib.Algebra.Group.Nat.Defs

namespace DuDuClaw.AccountRotator

abbrev Time := Int

def second : Time := 1000000000

def minute : Time := 60 * second

def hour : Time := 60 * minute

abbrev Text := List Char

/-- Why an account's authentication is dead. -/
inductive AuthFailureKind where
  | invalidToken
  | orgDisabled
  deriving DecidableEq

/-- What is known about an account's credential. -/
inductive CredentialState where
  /-- A real request, or a real probe, succeeded with it. -/
  | ok
  | unverified
  /-- No usable secret could be made of the stored credential. -/
  | broken
  | authDead (kind : AuthFailureKind)
  deriving DecidableEq

def CredentialState.isBlocking (state : CredentialState) : Bool := state == .broken

inductive AuthMethod where
  | apiKey
  | oAuth
  deriving DecidableEq

/-- `Account`, without the fields that neither availability nor the handlers read.
An `expires_at` that is not a timestamp counts as absent, as `is_available` treats
it. -/
structure Account where
  id : Text
  authMethod : AuthMethod
  provider : Text
  priority : Nat
  monthlyBudgetCents : Nat
  expiresAt : Option Time
  apiKey : Text
  oauthToken : Option Text
  credentialsDir : Option Text
  isHealthy : Bool
  consecutiveErrors : Nat
  spentThisMonth : Nat
  cooldownUntil : Option Time
  lastUsed : Option Time
  totalRequests : Nat
  credentialState : CredentialState
  authDeadStrikes : Nat
  nextProbeAt : Option Time
  probeFailures : Nat

/-- The provider `anthropic`. -/
def anthropic : Text := ['a', 'n', 't', 'h', 'r', 'o', 'p', 'i', 'c']

/-- `cooldown_until.is_some_and(|cd| now >= cd)`. -/
def Account.cooldownExpired (acc : Account) (now : Time) : Bool :=
  acc.cooldownUntil.any fun cd => cd ≤ now

/-- `cooldown_until.is_some_and(|cd| now < cd)`. -/
def Account.inCooldown (acc : Account) (now : Time) : Bool :=
  acc.cooldownUntil.any fun cd => now < cd

/-- The last check of `is_available`: is there anything to authenticate with? -/
def Account.hasCredential (acc : Account) : Bool :=
  match acc.authMethod with
  | .apiKey => !acc.apiKey.isEmpty
  | .oAuth =>
    if acc.provider = anthropic then acc.oauthToken.isSome || acc.credentialsDir.isSome else true

/-- `is_available`, at one reading of the clock. -/
def Account.isAvailable (acc : Account) (now : Time) : Bool :=
  if acc.credentialState.isBlocking then false
  else if !acc.isHealthy && !acc.cooldownExpired now then false
  else if acc.authMethod = .apiKey && acc.monthlyBudgetCents ≤ acc.spentThisMonth then false
  else if acc.inCooldown now then false
  else if acc.expiresAt.any fun expiry => expiry < now then false
  else acc.hasCredential

/-- **No account is available while its cooldown runs.** -/
theorem isAvailable_cooling {acc : Account} {now : Time} (cooling : acc.inCooldown now) :
    acc.isAvailable now = false := by
  unfold Account.isAvailable
  split
  · rfl
  split
  · rfl
  · split
    · rfl
    · rfl

theorem isAvailable_broken {acc : Account} (broken : acc.credentialState = .broken) (now : Time) :
    acc.isAvailable now = false := by
  unfold Account.isAvailable
  rw [broken]
  rfl

/-! ## Backoffs -/

def authDeadBaseMinutes : Int := 15

def authDeadCapMinutes : Int := 6 * 60

def probeBackoffBaseMinutes : Int := 1

def probeBackoffCapMinutes : Int := 30

/-- The common shape of the two ladders: a base that doubles with every failure, up
to a cap. -/
def doublingBackoff (base cap : Int) (failures : Nat) : Time :=
  min (base * 2 ^ min (failures - 1) 16) cap * minute

def authDeadBackoff (strikes : Nat) : Time :=
  doublingBackoff authDeadBaseMinutes authDeadCapMinutes strikes

def probeBackoff (failures : Nat) : Time :=
  doublingBackoff probeBackoffBaseMinutes probeBackoffCapMinutes failures

/-- `doubled_cooldown`: twice what is left, or the base, up to the cap. -/
def doubledCooldown (now : Time) (current : Option Time) : Time :=
  let next :=
    match current with
    | some cd => if now < cd then 2 * (cd - now) else authDeadBaseMinutes * minute
    | none => authDeadBaseMinutes * minute
  now + min next (authDeadCapMinutes * minute)

/-- `cooldown_until.map_or(until, |cur| cur.max(until))`: never shorten a cooldown. -/
def extendCooldown (current : Option Time) (until_ : Time) : Option Time :=
  some (match current with
    | none => until_
    | some cur => max cur until_)

/-- `u32::saturating_add(1)`. -/
def saturatingSucc (n : Nat) : Nat := min (n + 1) (2 ^ 32 - 1)

end DuDuClaw.AccountRotator
