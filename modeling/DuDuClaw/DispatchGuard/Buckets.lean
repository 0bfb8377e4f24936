/-
# DispatchGuard.Buckets -- one call of the dispatch breaker

`check_and_record` of dispatch_guard.rs over the file of buckets, one for each path kind
and agent, with its 64-bit arithmetic.  Every call first drops the idle buckets; a call
that finds its bucket cooling down does not write the file.

* `bucketKey_inj`: a key names its path kind and agent when no path kind holds a bar.
* `millisOf_eq_iff`: the cast after `saturating_mul(1000)` changes the sign of all that
  does not fit.
* `Exact`: no integer computation of a call overflows or changes sign.
-/
import DuDuClaw.Lib.SlidingWindow
import DuDuClaw.Lib.Wrapping

namespace DuDuClaw.DispatchGuard

open DuDuClaw.Lib

abbrev Text := List Char

abbrev Millis := Int

def pathKindRoleTeam : Text := "role_team".toList

structure DispatchGuardConfig where
  windowSecs : UInt64 := 60
  maxInWindow : UInt32 := 20
  roleTeamMaxInWindow : UInt32 := 60
  cooldownSecs : UInt64 := 60

/-- `secs.saturating_mul(1000) as i64`. -/
def millisOf (secs : UInt64) : Millis := wrapI64 (min (secs.toNat * 1000) u64Max : Nat)

namespace DispatchGuardConfig

def limitForKind (cfg : DispatchGuardConfig) (pathKind : Text) : UInt32 :=
  if pathKind = pathKindRoleTeam then cfg.roleTeamMaxInWindow else cfg.maxInWindow

end DispatchGuardConfig

inductive DispatchGuardDecision where
  | allow
  | trip (reason : Text) (retryAfterSecs : Nat)
  deriving DecidableEq

structure Bucket where
  events : List Millis
  trippedUntil : Option Millis

abbrev State := Text → Option Bucket

def bucketKey (pathKind agentId : Text) : Text := pathKind ++ '|' :: agentId

def decimal (n : Nat) : Text := Nat.toDigits 10 n

def openReason (key : Text) (maxInWindow : UInt32) (windowSecs : UInt64) : Text :=
  "dispatch circuit breaker OPEN for ".toList ++ key ++ ": >".toList ++
    decimal maxInWindow.toNat ++ " dispatches in ".toList ++ decimal windowSecs.toNat ++
    "s window; cooling down".toList

def trippedReason (key : Text) (count : Nat) (windowSecs : UInt64) (maxInWindow : UInt32) : Text :=
  "dispatch circuit breaker TRIPPED for ".toList ++ key ++ ": ".toList ++ decimal count ++
    " dispatches in ".toList ++ decimal windowSecs.toNat ++ "s window (limit ".toList ++
    decimal maxInWindow.toNat ++ ")".toList

def Bucket.counts (nowMs windowMs t : Millis) : Bool := subI64 nowMs t < windowMs

/-- What `prune` keeps: a bucket that is cooling down or still counts something. -/
def Bucket.alive (nowMs windowMs : Millis) (b : Bucket) : Bool :=
  b.trippedUntil.any (fun reopens => nowMs < reopens) || b.events.any (counts nowMs windowMs)

def prune (state : State) (nowMs windowMs : Millis) : State := fun key =>
  (state key).filter (Bucket.alive nowMs windowMs)

def State.put (state : State) (key : Text) (bucket : Bucket) : State :=
  Function.update state key (some bucket)

structure Call where
  pathKind : Text
  agentId : Text
  nowMs : Millis

def Call.key (c : Call) : Text := bucketKey c.pathKind c.agentId

def Call.bucket (cfg : DispatchGuardConfig) (state : State) (c : Call) : Bucket :=
  (prune state c.nowMs (millisOf cfg.windowSecs) c.key).getD ⟨[], none⟩

def checkAndRecord (cfg : DispatchGuardConfig) (state : State) (c : Call) :
    State × DispatchGuardDecision :=
  let maxInWindow := cfg.limitForKind c.pathKind
  let windowMs := millisOf cfg.windowSecs
  let cooldownMs := millisOf cfg.cooldownSecs
  let pruned := prune state c.nowMs windowMs
  let bucket := (pruned c.key).getD ⟨[], none⟩
  match bucket.trippedUntil.filter fun reopens => c.nowMs < reopens with
  | some reopens =>
    -- returned before the file is written
    (state, .trip (openReason c.key maxInWindow cfg.windowSecs)
      (max ((subI64 reopens c.nowMs).tdiv 1000) 0).toNat)
  | none =>
    let bucket := if bucket.trippedUntil.isSome then ⟨[], none⟩ else bucket
    let events := bucket.events.filter (Bucket.counts c.nowMs windowMs)
    if maxInWindow ≤ UInt32.ofNat events.length then
      (pruned.put c.key ⟨events, some (addI64 c.nowMs cooldownMs)⟩,
        .trip (trippedReason c.key events.length cfg.windowSecs maxInWindow)
          cfg.cooldownSecs.toNat)
    else (pruned.put c.key ⟨events ++ [c.nowMs], bucket.trippedUntil⟩, .allow)

/-! ## Keys -/

theorem bucketKey_inj {pathKind pathKind' agentId agentId' : Text} (plain : '|' ∉ pathKind)
    (plain' : '|' ∉ pathKind') (same : bucketKey pathKind agentId = bucketKey pathKind' agentId') :
    pathKind = pathKind' ∧ agentId = agentId' := by
  induction pathKind generalizing pathKind' with
  | nil =>
    cases pathKind' with
    | nil => exact ⟨rfl, (List.cons.inj same).2⟩
    | cons c rest =>
      have bar : '|' = c := (List.cons.inj same).1
      exact absurd (bar ▸ List.mem_cons_self) plain'
  | cons c rest ih =>
    cases pathKind' with
    | nil =>
      have bar : c = '|' := (List.cons.inj same).1
      exact absurd (bar ▸ List.mem_cons_self) plain
    | cons c' rest' =>
      obtain ⟨rfl, tails⟩ := List.cons.inj same
      obtain ⟨rfl, agents⟩ := ih (fun bar => plain (List.mem_cons_of_mem _ bar))
        (fun bar => plain' (List.mem_cons_of_mem _ bar)) tails
      exact ⟨rfl, agents⟩

/-! ## Exact arithmetic -/

/-- The milliseconds are those of the seconds exactly when they fit. -/
theorem millisOf_eq_iff {secs : UInt64} :
    millisOf secs = (secs.toNat * 1000 : Nat) ↔ ((secs.toNat * 1000 : Nat) : Int) ≤ i64Max := by
  unfold millisOf
  constructor
  · intro exact_
    exact exact_ ▸ (wrapI64_range _).2
  · intro fits
    have whole : min (secs.toNat * 1000) u64Max = secs.toNat * 1000 := by
      refine Nat.min_eq_left ?_
      unfold i64Max at fits
      unfold u64Max
      omega
    rw [whole]
    refine wrapI64_eq_iff.mpr ⟨?_, fits⟩
    unfold i64Min
    omega

namespace Call

variable (cfg : DispatchGuardConfig) (state : State) (c : Call)

/-- The window of the call's path and agent is full: the call opens the breaker. -/
def Full : Prop :=
  let bucket := c.bucket cfg state
  (bucket.trippedUntil.filter fun reopens => c.nowMs < reopens) = none ∧
    (cfg.limitForKind c.pathKind).toNat ≤
      (if bucket.trippedUntil.isSome then []
        else bucket.events.filter (Bucket.counts c.nowMs (millisOf cfg.windowSecs))).length

/-- No integer computation of the call overflows or changes sign: the two durations, the
ages of the events that `prune` reads, the rest of the cooldown, the number of events that
count, and the end of the cooldown that the call opens. -/
structure Exact : Prop where
  window : millisOf cfg.windowSecs = (cfg.windowSecs.toNat * 1000 : Nat)
  cooldown : millisOf cfg.cooldownSecs = (cfg.cooldownSecs.toNat * 1000 : Nat)
  ages : ∀ key bucket, state key = some bucket → ∀ t ∈ bucket.events,
    subI64 c.nowMs t = c.nowMs - t
  rest : ∀ reopens ∈ (c.bucket cfg state).trippedUntil, c.nowMs < reopens →
    subI64 reopens c.nowMs = reopens - c.nowMs
  count : (UInt32.ofNat ((c.bucket cfg state).events.filter
      (Bucket.counts c.nowMs (millisOf cfg.windowSecs))).length).toNat =
    ((c.bucket cfg state).events.filter (Bucket.counts c.nowMs (millisOf cfg.windowSecs))).length
  reopens : c.Full cfg state →
    addI64 c.nowMs (millisOf cfg.cooldownSecs) = c.nowMs + (cfg.cooldownSecs.toNat * 1000 : Nat)

end Call

end DuDuClaw.DispatchGuard
