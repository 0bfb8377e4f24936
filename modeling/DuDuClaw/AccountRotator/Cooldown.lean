/-
# AccountRotator.Cooldown -- cooldowns over a run

The outcome handlers of health.rs, the probe of probe.rs and reloads, as events on
the account list.  Every section under the accounts lock is one event; the probe is
split where it waits, so anything may happen between the snapshot of a candidate
and the answer about it.

`History` adds what the statement on cooldowns needs and the code does not store:
the deadlines that quota and billing refusals booked since the last load, and the
accounts the last load found broken.

* `Rotator.Holds.step`: what holds of an account after one event.
* `cooldowns_honoured`: in every run whose steps meet `Spares`, no account is
  available before a booked deadline, and a broken one never is.
* `cooldown_cleared_by_probe`: the steps that `Spares` excludes do hand such
  accounts out.
-/
import DuDuClaw.AccountRotator.Types

namespace DuDuClaw.AccountRotator

open DuDuClaw.Lib

/-! ## The handlers, on the account they reach -/

namespace Account

def onSuccess (acc : Account) (now : Time) (costCents : Nat) : Account :=
  { acc with
    consecutiveErrors := 0
    isHealthy := if acc.inCooldown now then acc.isHealthy else true
    credentialState := if acc.credentialState ≠ .broken then .ok else acc.credentialState
    authDeadStrikes := 0
    probeFailures := 0
    nextProbeAt := none
    spentThisMonth := (acc.spentThisMonth + costCents) % 2 ^ 64
    totalRequests := (acc.totalRequests + 1) % 2 ^ 64
    lastUsed := some now }

def onAuthFailed (acc : Account) (now : Time) (kind : AuthFailureKind) : Account :=
  let strikes := saturatingSucc acc.authDeadStrikes
  { acc with
    isHealthy := false
    credentialState := .authDead kind
    authDeadStrikes := strikes
    nextProbeAt := none
    cooldownUntil := extendCooldown acc.cooldownUntil (now + authDeadBackoff strikes) }

/-- `on_error`: the third strike books the standard cooldown. -/
def onError (acc : Account) (now : Time) (cooldownSeconds : Nat) : Account :=
  let errors := (acc.consecutiveErrors + 1) % 2 ^ 32
  if 3 ≤ errors then
    { acc with
      consecutiveErrors := errors
      isHealthy := false
      cooldownUntil := extendCooldown acc.cooldownUntil (now + cooldownSeconds * second) }
  else { acc with consecutiveErrors := errors }

def onRateLimited (acc : Account) (now : Time) (cooldownSeconds : Nat) : Account :=
  { acc with
    isHealthy := if acc.credentialState.isBlocking then acc.isHealthy else true
    consecutiveErrors := 0
    cooldownUntil := extendCooldown acc.cooldownUntil (now + cooldownSeconds * second) }

def onBillingExhausted (acc : Account) (now : Time) : Account :=
  { acc with
    isHealthy := false
    cooldownUntil := some (now + 24 * hour) }

/-- A probe answered `Valid`. -/
def probeValid (acc : Account) : Account :=
  { acc with
    isHealthy := true
    consecutiveErrors := 0
    cooldownUntil := none
    credentialState := .ok
    authDeadStrikes := 0
    probeFailures := 0
    nextProbeAt := none }

def probeDead (acc : Account) (now : Time) (failure : AuthFailureKind) : Account :=
  let failures := saturatingSucc acc.probeFailures
  { acc with
    isHealthy := false
    credentialState := .authDead failure
    cooldownUntil := extendCooldown acc.cooldownUntil (doubledCooldown now acc.cooldownUntil)
    probeFailures := failures
    nextProbeAt := some (now + probeBackoff failures) }

def legacyRestore (acc : Account) : Account :=
  { acc with
    isHealthy := true
    consecutiveErrors := 0
    cooldownUntil := none }

def resetMonthly (acc : Account) : Account := { acc with spentThisMonth := 0 }

end Account

/-! ## The rotator -/

inductive CredentialKind where
  | oAuthToken
  | apiKey
  deriving DecidableEq

inductive CredentialProbe where
  | valid
  | invalidCredential
  | orgDisabled
  | rateLimited
  | unknown

/-- One account's snapshot for `probe_and_restore`. -/
structure ProbeCandidate where
  id : Text
  method : AuthMethod
  state : CredentialState
  secret : Option (CredentialKind × Text)
  deriving DecidableEq

def probeSecretFor (acc : Account) : Option (CredentialKind × Text) :=
  if acc.provider ≠ anthropic then none
  else
    match acc.authMethod with
    | .apiKey => if isBlank acc.apiKey then none else some (.apiKey, acc.apiKey)
    | .oAuth =>
      (acc.oauthToken.filter fun token => !isBlank token).map fun token => (.oAuthToken, token)

def Account.isCandidate (acc : Account) (now : Time) : Bool :=
  (!acc.isHealthy || acc.cooldownExpired now) && !acc.isAvailable now &&
    !acc.credentialState.isBlocking && acc.nextProbeAt.all fun t => t ≤ now

def Account.candidate (acc : Account) : ProbeCandidate :=
  ⟨acc.id, acc.authMethod, acc.credentialState, probeSecretFor acc⟩

def legacyStatusProbeMayRestore : CredentialState → Bool
  | .authDead _ | .broken => false
  | .ok | .unverified => true

/-- The accounts under their lock, the candidates whose answer is outstanding, and
the API-key accounts whose cooldown check has passed but which are not restored
yet. -/
structure Rotator where
  accounts : List Account
  cooldownSeconds : Nat
  pending : List ProbeCandidate
  cleared : List Text

inductive Event where
  | success (id : Text) (costCents : Nat)
  | error (id : Text)
  | rateLimited (id : Text)
  | billingExhausted (id : Text)
  | authFailed (id : Text) (kind : AuthFailureKind)
  | resetMonthly
  /-- `load_from_config` publishes what it loaded; a failed load publishes nothing. -/
  | reload (loaded : List Account)
  /-- `probe_and_restore` takes its snapshot. -/
  | probeStart
  /-- The API answers about a candidate's secret. -/
  | probeAnswer (candidate : ProbeCandidate) (outcome : CredentialProbe)
  /-- `claude auth status` answers about a candidate without a secret. -/
  | statusAnswer (candidate : ProbeCandidate) (loggedIn : Bool)
  /-- The cooldown of an API-key candidate without a secret is looked at. -/
  | keyCheck (candidate : ProbeCandidate)
  /-- An API-key account whose check passed is restored. -/
  | keyRestore (id : Text)

/-- `accounts.iter_mut().find(|a| a.id == id)`: the index of the account reached. -/
def Rotator.find (s : Rotator) (id : Text) : Option Nat :=
  s.accounts.findIdx? fun acc => acc.id == id

def Rotator.update (s : Rotator) (id : Text) (f : Account → Account) : Rotator :=
  match s.find id with
  | some k => { s with accounts := s.accounts.modify k f }
  | none => s

def Rotator.answered (s : Rotator) (now : Time) (id : Text) : CredentialProbe → Rotator
  | .valid => s.update id Account.probeValid
  | .invalidCredential => s.update id (·.probeDead now .invalidToken)
  | .orgDisabled => s.update id (·.probeDead now .orgDisabled)
  | .rateLimited | .unknown => s

/-- One event.  An answer needs its candidate to be outstanding. -/
def Rotator.step (s : Rotator) (now : Time) : Event → Option Rotator
  | .success id costCents => some (s.update id (·.onSuccess now costCents))
  | .error id => some (s.update id (·.onError now s.cooldownSeconds))
  | .rateLimited id => some (s.update id (·.onRateLimited now s.cooldownSeconds))
  | .billingExhausted id => some (s.update id (·.onBillingExhausted now))
  | .authFailed id kind => some (s.update id (·.onAuthFailed now kind))
  | .resetMonthly => some { s with accounts := s.accounts.map Account.resetMonthly }
  | .reload loaded => some { s with accounts := loaded }
  | .probeStart =>
    some { s with
      pending := s.pending ++
        (s.accounts.filter (·.isCandidate now)).map Account.candidate }
  | .probeAnswer candidate outcome =>
    if candidate ∈ s.pending ∧ candidate.secret.isSome then
      some ({ s with pending := s.pending.erase candidate }.answered now candidate.id outcome)
    else none
  | .statusAnswer candidate loggedIn =>
    if candidate ∈ s.pending ∧ candidate.secret = none ∧ candidate.method = .oAuth then
      let s' := { s with pending := s.pending.erase candidate }
      some (if legacyStatusProbeMayRestore candidate.state && loggedIn then
        s'.update candidate.id Account.legacyRestore else s')
    else none
  | .keyCheck candidate =>
    if candidate ∈ s.pending ∧ candidate.secret = none ∧ candidate.method = .apiKey then
      let s' := { s with pending := s.pending.erase candidate }
      let ok := (s.accounts.find? fun acc => acc.id == candidate.id).any fun acc =>
        acc.cooldownUntil.all fun cd => cd ≤ now
      some (if legacyStatusProbeMayRestore candidate.state && ok then
        { s' with cleared := candidate.id :: s'.cleared } else s')
    else none
  | .keyRestore id =>
    if id ∈ s.cleared then
      some ({ s with cleared := s.cleared.erase id }.update id Account.legacyRestore)
    else none

/-! ## What one event does to one account -/

def Event.writes (s : Rotator) (now : Time) : Event → Option (Text × (Account → Account))
  | .success id costCents => some (id, (·.onSuccess now costCents))
  | .error id => some (id, (·.onError now s.cooldownSeconds))
  | .rateLimited id => some (id, (·.onRateLimited now s.cooldownSeconds))
  | .billingExhausted id => some (id, (·.onBillingExhausted now))
  | .authFailed id kind => some (id, (·.onAuthFailed now kind))
  | .probeAnswer candidate .valid => some (candidate.id, Account.probeValid)
  | .probeAnswer candidate .invalidCredential => some (candidate.id, (·.probeDead now .invalidToken))
  | .probeAnswer candidate .orgDisabled => some (candidate.id, (·.probeDead now .orgDisabled))
  | .statusAnswer candidate loggedIn =>
    if legacyStatusProbeMayRestore candidate.state && loggedIn then
      some (candidate.id, Account.legacyRestore) else none
  | .keyRestore id => some (id, Account.legacyRestore)
  | .probeAnswer _ .rateLimited | .probeAnswer _ .unknown | .resetMonthly | .reload _ | .probeStart
  | .keyCheck _ => none

/-- The account at index `k` satisfies `P`. -/
def Rotator.Holds (s : Rotator) (k : Nat) (P : Account → Prop) : Prop :=
  ∃ acc, s.accounts[k]? = some acc ∧ P acc

section Step

variable {s s' : Rotator} {now : Time} {k : Nat} {P : Account → Prop}

theorem Rotator.Holds.update (holds : s.Holds k P) {id : Text} {f : Account → Account}
    (kept : s.find id = some k → ∀ acc, P acc → P (f acc)) : (s.update id f).Holds k P := by
  obtain ⟨acc, at_k, holds⟩ := holds
  unfold Rotator.update
  cases found : s.find id with
  | none => exact ⟨acc, at_k, holds⟩
  | some j =>
    by_cases same : j = k
    · subst same
      refine ⟨f acc, ?_, kept found acc holds⟩
      simp [at_k]
    · refine ⟨acc, ?_, holds⟩
      simp [same, at_k]

/-- **The rule of one step.**  What holds of an account still holds after an event
if the event's write keeps it. -/
theorem Rotator.Holds.step {ev : Event} (holds : s.Holds k P) (stepped : s.step now ev = some s')
    (noReload : ∀ loaded, ev ≠ .reload loaded)
    (kept : ∀ id f, ev.writes s now = some (id, f) → s.find id = some k → ∀ acc, P acc → P (f acc))
    (monthly : ∀ acc, P acc → P acc.resetMonthly) : s'.Holds k P := by
  cases ev with
  | success id costCents | error id | rateLimited id | billingExhausted id | authFailed id kind =>
    obtain rfl := Option.some.inj stepped
    exact holds.update (kept _ _ rfl)
  | resetMonthly =>
    obtain rfl := Option.some.inj stepped
    obtain ⟨acc, at_k, holds⟩ := holds
    exact ⟨acc.resetMonthly, by simp [at_k], monthly acc holds⟩
  | reload loaded => exact absurd rfl (noReload loaded)
  | probeStart =>
    obtain rfl := Option.some.inj stepped
    exact holds
  | probeAnswer candidate outcome =>
    simp only [Rotator.step] at stepped
    split at stepped
    · obtain rfl := Option.some.inj stepped
      have holds' : Rotator.Holds { s with pending := s.pending.erase candidate } k P := holds
      cases outcome with
      | valid | invalidCredential | orgDisabled => exact holds'.update (kept _ _ rfl)
      | rateLimited | unknown => exact holds'
    · cases stepped
  | statusAnswer candidate loggedIn =>
    simp only [Rotator.step] at stepped
    split at stepped
    · obtain rfl := Option.some.inj stepped
      have holds' : Rotator.Holds { s with pending := s.pending.erase candidate } k P := holds
      split
      · rename_i restores
        exact holds'.update (kept _ _ (by simp only [Event.writes, restores]; rfl))
      · exact holds'
    · cases stepped
  | keyCheck candidate =>
    simp only [Rotator.step] at stepped
    split at stepped
    · obtain rfl := Option.some.inj stepped
      split
      · exact holds
      · exact holds
    · cases stepped
  | keyRestore id =>
    simp only [Rotator.step] at stepped
    split at stepped
    · obtain rfl := Option.some.inj stepped
      have holds' : Rotator.Holds { s with cleared := s.cleared.erase id } k P := holds
      exact holds'.update (kept _ _ rfl)
    · cases stepped

end Step

/-! ## Booked deadlines and broken credentials -/

/-- The cooldown of the account runs until `t` at least. -/
def Cools (t : Time) (acc : Account) : Prop := ∃ cd, acc.cooldownUntil = some cd ∧ t ≤ cd

variable {t now : Time} {acc : Account} {s : Rotator} {ev : Event} {id : Text} {f : Account → Account}

theorem Cools.inCooldown (cools : Cools t acc) (early : now < t) : acc.inCooldown now := by
  obtain ⟨cd, eq, le⟩ := cools
  simp only [Account.inCooldown, eq, Option.any_some, decide_eq_true_eq]
  exact Int.lt_of_lt_of_le early le

theorem Cools.extend {until_ : Time} {acc' : Account} (cools : Cools t acc)
    (extended : acc'.cooldownUntil = extendCooldown acc.cooldownUntil until_) : Cools t acc' := by
  obtain ⟨cd, eq, le⟩ := cools
  rw [eq] at extended
  exact ⟨max cd until_, extended, Int.le_trans le (Int.le_max_left _ _)⟩

def Event.restores : Event → Option Text
  | .probeAnswer candidate .valid => some candidate.id
  | .statusAnswer candidate loggedIn =>
    if legacyStatusProbeMayRestore candidate.state && loggedIn then some candidate.id else none
  | .keyRestore id => some id
  | _ => none

/-- The account whose credential state an event overwrites, whatever it was. -/
def Event.rejudges : Event → Option Text
  | .authFailed id _ => some id
  | .probeAnswer candidate .valid | .probeAnswer candidate .invalidCredential
  | .probeAnswer candidate .orgDisabled => some candidate.id
  | _ => none

/-- Apart from a restore, only a billing refusal may bring a deadline forward. -/
theorem Cools.writes (writes : ev.writes s now = some (id, f)) (keeps : ev.restores ≠ some id)
    (billing : ev = .billingExhausted id → t ≤ now + 24 * hour) (cools : Cools t acc) : Cools t (f acc) := by
  cases ev with
  | success i costCents =>
    cases writes
    exact cools
  | error i =>
    cases writes
    show Cools t (acc.onError now s.cooldownSeconds)
    simp only [Account.onError]
    split
    · exact cools.extend rfl
    · exact cools
  | rateLimited i | authFailed i kind =>
    cases writes
    exact cools.extend rfl
  | billingExhausted i =>
    cases writes
    exact ⟨_, rfl, billing rfl⟩
  | probeAnswer candidate outcome =>
    cases outcome with
    | valid =>
      cases writes
      exact absurd rfl keeps
    | invalidCredential | orgDisabled =>
      cases writes
      exact cools.extend rfl
    | rateLimited | unknown => cases writes
  | statusAnswer candidate loggedIn =>
    simp only [Event.writes] at writes
    split at writes
    · rename_i restores
      obtain ⟨rfl, rfl⟩ := Prod.mk.inj (Option.some.inj writes)
      exact absurd (by simp only [Event.restores, restores]; rfl) keeps
    · cases writes
  | keyRestore i =>
    cases writes
    exact absurd rfl keeps
  | resetMonthly | reload loaded | probeStart | keyCheck candidate => cases writes

theorem broken_writes (writes : ev.writes s now = some (id, f)) (keeps : ev.rejudges ≠ some id)
    (broken : acc.credentialState = .broken) : (f acc).credentialState = .broken := by
  cases ev with
  | success i costCents =>
    cases writes
    simp [Account.onSuccess, broken]
  | error i =>
    cases writes
    show (acc.onError now s.cooldownSeconds).credentialState = .broken
    simp only [Account.onError]
    split
    · exact broken
    · exact broken
  | rateLimited i | billingExhausted i | keyRestore i =>
    cases writes
    exact broken
  | authFailed i kind =>
    cases writes
    exact absurd rfl keeps
  | probeAnswer candidate outcome =>
    cases outcome with
    | valid | invalidCredential | orgDisabled =>
      cases writes
      exact absurd rfl keeps
    | rateLimited | unknown => cases writes
  | statusAnswer candidate loggedIn =>
    simp only [Event.writes] at writes
    split at writes
    · obtain ⟨-, rfl⟩ := Prod.mk.inj (Option.some.inj writes)
      exact broken
    · cases writes
  | resetMonthly | reload loaded | probeStart | keyCheck candidate => cases writes

/-! ## Runs -/

/-- The rotator with its history: the time of the last event, the deadlines that
quota and billing refusals booked since the last load (by account index), and the
accounts which that load found broken. -/
structure History where
  rotator : Rotator
  clock : Time
  booked : List (Nat × Time)
  broken : List Nat

/-- The deadline at index `k` after the event. -/
def Rotator.deadline (s : Rotator) (k : Nat) : Option Time :=
  (s.accounts[k]?).bind Account.cooldownUntil

def Event.books : Event → Option Text
  | .rateLimited id | .billingExhausted id => some id
  | _ => none

def History.bookings (h : History) (ev : Event) (next : Rotator) : List (Nat × Time) :=
  ((ev.books.bind h.rotator.find).bind fun k => (next.deadline k).map (Prod.mk k)).toList

/-- What an event adds to the record; a load starts a new one. -/
def History.record (h : History) (now : Time) (ev : Event) (next : Rotator) : History :=
  match ev with
  | .reload loaded =>
    { rotator := next, clock := now, booked := []
      broken := (List.range loaded.length).filter fun k =>
        (loaded[k]?).any fun acc => acc.credentialState == .broken }
  | _ => { h with rotator := next, clock := now, booked := h.bookings ev next ++ h.booked }

/-- One event, at a time that does not lie before the last one. -/
def History.step (h : History) (now : Time) (ev : Event) : Option History :=
  if h.clock ≤ now then (h.rotator.step now ev).map (h.record now ev) else none

def History.run (h : History) : List (Time × Event) → Option History
  | [] => some h
  | (now, ev) :: rest => (h.step now ev).bind fun h' => h'.run rest

/-- `AccountRotator::new`. -/
def History.start (cooldownSeconds : Nat) (clock : Time) : History :=
  ⟨⟨[], cooldownSeconds, [], []⟩, clock, [], []⟩

/-- The event does not take the branch that goes wrong: a restore does not reach an
account whose booked deadline is still ahead, a billing refusal does not reach one
whose booked deadline is more than a day ahead, and no verdict on the credential
reaches an account that was loaded broken. -/
structure History.Spares (h : History) (now : Time) (ev : Event) : Prop where
  restore : ∀ id k t, ev.restores = some id → h.rotator.find id = some k → (k, t) ∈ h.booked →
    t ≤ now
  billing : ∀ id k t, ev = .billingExhausted id → h.rotator.find id = some k → (k, t) ∈ h.booked →
    t ≤ now + 24 * hour
  verdict : ∀ id k, ev.rejudges = some id → h.rotator.find id = some k → k ∉ h.broken

/-- Every event of the run meets the condition, in the state it happens in. -/
def History.SparesAll (h : History) : List (Time × Event) → Prop
  | [] => True
  | (now, ev) :: rest => h.Spares now ev ∧ ∀ h', h.step now ev = some h' → h'.SparesAll rest

structure History.Honest (h : History) : Prop where
  booked : ∀ k t, (k, t) ∈ h.booked → h.clock < t → h.rotator.Holds k (Cools t)
  broken : ∀ k ∈ h.broken, h.rotator.Holds k fun acc => acc.credentialState = .broken

variable {h : History} {ev : Event} {next : Rotator}

variable {now t : Time} {k : Nat} {h' : History}

theorem honest_start (cooldownSeconds : Nat) (clock : Time) : (History.start cooldownSeconds clock).Honest := by
  constructor
  · intro k t member
    cases member
  · intro k member
    cases member

theorem honest_old (honest : h.Honest) (later : h.clock ≤ now) (spares : h.Spares now ev)
    (stepped : h.rotator.step now ev = some next) (noReload : ∀ loaded, ev ≠ .reload loaded) :
    (∀ k t, (k, t) ∈ h.booked → now < t → next.Holds k (Cools t)) ∧
      ∀ k ∈ h.broken, next.Holds k fun acc => acc.credentialState = .broken := by
  constructor
  · intro k t member ahead
    refine (honest.booked k t member (Int.lt_of_le_of_lt later ahead)).step stepped noReload ?_ ?_
    · intro id f writes found acc cools
      refine cools.writes writes ?_ (fun eq => spares.billing id k t eq found member)
      intro restores
      exact Int.not_le.mpr ahead (spares.restore id k t restores found member)
    · exact fun acc cools => cools
  · intro k member
    refine (honest.broken k member).step stepped noReload ?_ ?_
    · intro id f writes found acc broken
      exact broken_writes writes (fun rejudges => spares.verdict id k rejudges found member) broken
    · exact fun acc broken => broken

theorem deadline_holds {s : Rotator} (booked : s.deadline k = some t) : s.Holds k (Cools t) := by
  obtain ⟨acc, at_k, cd⟩ := Option.bind_eq_some_iff.mp booked
  exact ⟨acc, at_k, t, cd, Int.le_refl t⟩

theorem bookings_hold (member : (k, t) ∈ h.bookings ev next) : next.Holds k (Cools t) := by
  rw [History.bookings, Option.mem_toList, Option.bind_eq_some_iff] at member
  obtain ⟨j, -, booked⟩ := member
  obtain ⟨t', deadline, eq⟩ := Option.map_eq_some_iff.mp booked
  obtain ⟨rfl, rfl⟩ := Prod.mk.inj eq
  exact deadline_holds deadline

theorem honest_reload (loaded : List Account) (h : History) (now : Time)
    (accounts : next.accounts = loaded) : (h.record now (.reload loaded) next).Honest := by
  constructor
  · intro k t member
    cases member
  · intro k member
    obtain ⟨-, broken⟩ := List.mem_filter.mp member
    cases at_k : loaded[k]? with
    | none =>
      rw [at_k] at broken
      cases broken
    | some acc =>
      rw [at_k, Option.any_some, beq_iff_eq] at broken
      exact ⟨acc, by rw [← at_k, ← accounts]; rfl, broken⟩

/-- **One event keeps the record honest.** -/
theorem honest_step (honest : h.Honest)
    (spares : h.Spares now ev) (stepped : h.step now ev = some h') : h'.Honest := by
  unfold History.step at stepped
  split at stepped
  · rename_i later
    obtain ⟨next, moved, rfl⟩ := Option.map_eq_some_iff.mp stepped
    by_cases isReload : ∃ loaded, ev = .reload loaded
    · obtain ⟨loaded, rfl⟩ := isReload
      exact honest_reload loaded h now (by rw [← Option.some.inj moved])
    have noReload : ∀ loaded, ev ≠ .reload loaded := fun loaded eq => isReload ⟨loaded, eq⟩
    have recorded : h.record now ev next =
        { h with rotator := next, clock := now, booked := h.bookings ev next ++ h.booked } := by
      cases ev with
      | reload loaded => exact absurd rfl (noReload loaded)
      | _ => rfl
    obtain ⟨booked, broken⟩ := honest_old honest later spares moved noReload
    rw [recorded]
    refine ⟨fun k t member ahead => ?_, broken⟩
    rcases List.mem_append.mp member with new | old
    · exact bookings_hold new
    · exact booked k t old ahead
  · cases stepped

theorem honest_run {events : List (Time × Event)} (honest : h.Honest)
    (spares : h.SparesAll events) (run : h.run events = some h') : h'.Honest := by
  induction events generalizing h with
  | nil =>
    obtain rfl := Option.some.inj run
    exact honest
  | cons entry rest ih =>
    obtain ⟨now, ev⟩ := entry
    obtain ⟨next, stepped, run⟩ := Option.bind_eq_some_iff.mp run
    exact ih (honest_step honest spares.1 stepped) (spares.2 next stepped) run

/-- **Cooldowns are honoured.**  In every run from an empty rotator whose events all
meet `Spares`: no account is available before a deadline that a quota or billing
refusal booked since the last load, and an account that the last load found broken
is never available. -/
theorem cooldowns_honoured {cooldownSeconds : Nat} {clock : Time} {events : List (Time × Event)}
    {h : History} (run : (History.start cooldownSeconds clock).run events = some h)
    (spares : (History.start cooldownSeconds clock).SparesAll events) :
    (∀ k t acc now, (k, t) ∈ h.booked → h.rotator.accounts[k]? = some acc → h.clock ≤ now →
        now < t → acc.isAvailable now = false) ∧
      ∀ k acc now, k ∈ h.broken → h.rotator.accounts[k]? = some acc → acc.isAvailable now = false := by
  have honest := honest_run (honest_start cooldownSeconds clock) spares run
  constructor
  · intro k t acc now member at_k later early
    obtain ⟨acc', at_k', cools⟩ := honest.booked k t member (Int.lt_of_le_of_lt later early)
    obtain rfl : acc = acc' := Option.some.inj (at_k.symm.trans at_k')
    exact isAvailable_cooling (cools.inCooldown early)
  · intro k acc now member at_k
    obtain ⟨acc', at_k', broken⟩ := honest.broken k member
    obtain rfl : acc = acc' := Option.some.inj (at_k.symm.trans at_k')
    exact isAvailable_broken broken now

/-! ### Runs that hand an account back -/

/-- An Anthropic subscription with a setup token, as loaded. -/
def subscription : Account where
  id := ['a']
  authMethod := .oAuth
  provider := anthropic
  priority := 5
  monthlyBudgetCents := 0
  expiresAt := none
  apiKey := []
  oauthToken := some ['t']
  credentialsDir := some ['d']
  isHealthy := true
  consecutiveErrors := 0
  spentThisMonth := 0
  cooldownUntil := none
  lastUsed := none
  totalRequests := 0
  credentialState := .unverified
  authDeadStrikes := 0
  nextProbeAt := none
  probeFailures := 0

/-- A billing refusal, and a minute later a probe that finds the token valid. -/
def billingThenProbe : List (Time × Event) :=
  let exhausted := subscription.onBillingExhausted 0
  [(0, .reload [subscription]), (0, .billingExhausted ['a']), (minute, .probeStart),
    (minute, .probeAnswer exhausted.candidate .valid)]

/-- A token that stops decrypting, and then a late report of the account's failure. -/
def brokenThenFailure : List (Time × Event) :=
  let broken := { subscription with
    oauthToken := none, isHealthy := false, credentialState := .broken }
  [(0, .reload [broken]), (0, .authFailed ['a'] .invalidToken)]

/-- The valid answer ends the 24 hours of a billing refusal after a minute, and the
failure report makes a broken account available after a quarter of an hour. -/
theorem cooldown_cleared_by_probe :
    (∃ h acc, (History.start 120 0).run billingThenProbe = some h ∧ (0, 24 * hour) ∈ h.booked ∧
      h.rotator.accounts[0]? = some acc ∧ acc.isAvailable (2 * minute) = true) ∧
    ∃ h acc, (History.start 120 0).run brokenThenFailure = some h ∧ 0 ∈ h.broken ∧
      h.rotator.accounts[0]? = some acc ∧ acc.isAvailable (15 * minute) = true := by
  refine ⟨⟨_, _, rfl, ?_, rfl, ?_⟩, ⟨_, _, rfl, ?_, rfl, ?_⟩⟩
  · decide
  · decide
  · decide
  · decide

/-- A quota refusal that nothing interferes with. -/
def rateLimitedOnce : List (Time × Event) :=
  [(0, .reload [subscription]), (0, .rateLimited ['a']), (minute, .probeStart)]

theorem rateLimitedOnce_honoured :
    ∃ h acc, (History.start 120 0).run rateLimitedOnce = some h ∧ (0, 2 * minute) ∈ h.booked ∧
      h.rotator.accounts[0]? = some acc ∧ acc.isAvailable minute = false := by
  have spares : (History.start 120 0).SparesAll rateLimitedOnce := by
    have harmless (h : History) (now : Time) (ev : Event) (restores : ev.restores = none)
        (billing : ∀ id, ev ≠ .billingExhausted id) (rejudges : ev.rejudges = none) :
        h.Spares now ev :=
      ⟨by simp [restores], fun id _ _ eq => absurd eq (billing id), by simp [rejudges]⟩
    exact ⟨harmless _ _ _ rfl (by simp) rfl, fun _ _ => ⟨harmless _ _ _ rfl (by simp) rfl,
      fun _ _ => ⟨harmless _ _ _ rfl (by simp) rfl, fun _ _ => trivial⟩⟩⟩
  have booked : ∀ h, (History.start 120 0).run rateLimitedOnce = some h → (0, 2 * minute) ∈ h.booked := by
    intro h run
    rw [← Option.some.inj run]
    decide
  refine ⟨_, _, rfl, booked _ rfl, rfl, ?_⟩
  exact (cooldowns_honoured rfl spares).1 0 (2 * minute) _ minute (booked _ rfl) rfl (by decide)
    (by decide)

end DuDuClaw.AccountRotator
