/-
# Concurrency.Expiry -- the lane that fails open

`try_acquire` and `renew` of concurrency_gate.rs over the same lease file as the checked
lane.  A file that is missing or cannot be decoded reads as empty, and what the system
refuses is passed over: without the lock an acquisition admits unguarded and a renewal does
nothing, and a file that cannot be written stays as it is.

The checked lane computes an expiry with checked operations and refuses what overflows;
here the lifetime is `saturating_mul(1000) as i64`, and it is added to the clock as it is.

* `leases_live_iff`: every lease this lane writes lives exactly when the lifetime and the
  expiry fit into an `i64`.
-/
import DuDuClaw.Concurrency.Gate
import DuDuClaw.Lib.Wrapping

namespace DuDuClaw.Concurrency

open DuDuClaw.Lib

/-! ## The calls -/

/-- `ttl_secs.saturating_mul(1000) as i64`. -/
def ttlMillis (ttlSecs : UInt64) : Millis :=
  wrapI64 (min (ttlSecs.toNat * 1000) u64Max : Nat)

/-- `now_ms + ttl_ms`. -/
def expiresAt (now : Millis) (ttlSecs : UInt64) : Millis := addI64 now (ttlMillis ttlSecs)

namespace StateFile

/-- `load_state`. -/
def load (host : Host) : StateFile → State
  | .leases state => if host.read.isNone then state else .empty
  | _ => .empty

/-- `let _ = save_state(..)`. -/
def saved (host : Host) (file : StateFile) (state : State) : StateFile :=
  if host.save.isNone then .leases state else file

end StateFile

def Lease.unguarded (cls : Text) : Lease := ⟨none, cls⟩

def tryAcquire (host : Host) (uuid : Uuid) (cls : Text) (limit : Option UInt32) (ttlSecs : UInt64)
    (file : StateFile) : AcquireOutcome × StateFile :=
  match limit with
  | none => (.admitted (.unguarded cls), file)
  | some cap =>
    if cap = 0 ∨ host.lock.isSome then (.admitted (.unguarded cls), file)
    else
      let state := State.pruneExpired (file.load host) host.now
      let active := State.countClass state cls host.now
      if cap ≤ active then (.atCapacity active cap, file)
      else
        let id := leaseId cls uuid
        (.admitted ⟨some id, cls⟩,
          file.saved host (state.put (id, ⟨cls, expiresAt host.now ttlSecs⟩)))

def renew (host : Host) (lease : Lease) (ttlSecs : UInt64) (file : StateFile) : StateFile :=
  match lease.id with
  | none => file
  | some id =>
    if host.lock.isSome then file
    else
      file.saved host ((State.pruneExpired (file.load host) host.now).put
        (id, ⟨lease.cls, expiresAt host.now ttlSecs⟩))

/-! ## What a call writes -/

/-- The call admits or renews the lease under the id, and writes the file. -/
inductive Writes (host : Host) (ttlSecs : UInt64) (id cls : Text) (file : StateFile) :
    StateFile → Prop
  | acquired (uuid : Uuid) (limit : Option UInt32) (writable : host.save = none)
      (admitted : (tryAcquire host uuid cls limit ttlSecs file).1 = .admitted ⟨some id, cls⟩) :
      Writes host ttlSecs id cls file (tryAcquire host uuid cls limit ttlSecs file).2
  | renewed (locked : host.lock = none) (writable : host.save = none) :
      Writes host ttlSecs id cls file (renew host ⟨some id, cls⟩ ttlSecs file)

/-- The record under the id expires after `now`, and `count_class` counts it. -/
def LiveIn (file : StateFile) (id cls : Text) (now : Millis) : Prop :=
  ∃ row ∈ file.rows, row.1 = id ∧ row.2.cls = cls ∧ now < row.2.expiresMs ∧
    isLive now row.2 = true

variable {host : Host} {ttlSecs : UInt64} {id cls : Text} {file file' : StateFile}

theorem saved_writable (file : StateFile) (state : State)
    (writable : host.save = none) : file.saved host state = .leases state := by
  rw [StateFile.saved, writable]
  rfl

theorem Writes.row (writes : Writes host ttlSecs id cls file file') : ∃ state : State, file' =
      .leases (state.put (id, ⟨cls, expiresAt host.now ttlSecs⟩)) := by
  cases writes with
  | acquired uuid limit writable admitted =>
    unfold tryAcquire at admitted ⊢
    cases limit with
    | none => cases admitted
    | some cap =>
      dsimp only at admitted ⊢
      split at admitted
      · cases admitted
      split at admitted
      · cases admitted
      rename_i locked below
      cases admitted
      rw [if_neg locked, if_neg below, saved_writable _ _ writable]
      exact ⟨_, rfl⟩
  | renewed locked writable =>
    unfold renew
    dsimp only
    rw [locked, saved_writable _ _ writable]
    exact ⟨_, rfl⟩

/-- A written lease is live exactly when its expiry is later than now. -/
theorem Writes.live_iff (writes : Writes host ttlSecs id cls file file') :
    LiveIn file' id cls host.now ↔ host.now < expiresAt host.now ttlSecs := by
  obtain ⟨state, rfl⟩ := writes.row
  constructor
  · rintro ⟨row, listed, named, -, later, -⟩
    obtain ⟨-, other⟩ | rfl := Table.mem_put.mp listed
    · exact absurd named other
    · exact later
  · intro later
    exact ⟨_, Table.mem_put.mpr (.inr rfl), rfl, rfl, later, decide_eq_true later⟩

/-! ## Expiries -/

/-- No operation on the way to the expiry leaves its range or changes a sign. -/
structure ExactExpiry (now : Millis) (ttlSecs : UInt64) : Prop where
  product : ttlSecs.toNat * 1000 ≤ u64Max
  cast : ttlMillis ttlSecs = ttlSecs.toNat * 1000
  sum : expiresAt now ttlSecs = now + ttlMillis ttlSecs

/-- Every lease that a call at this clock reading admits or renews is live, and its expiry
was computed exactly. -/
structure LeasesLive (now : Millis) (ttlSecs : UInt64) : Prop where
  exact_ : ExactExpiry now ttlSecs
  live : ∀ host : Host, host.now = now → ∀ id cls file file',
    Writes host ttlSecs id cls file file' → LiveIn file' id cls now

/-- The lifetime and the expiry fit into an `i64`. -/
def Fits (now : Millis) (ttlSecs : UInt64) : Prop :=
  ttlSecs.toNat * 1000 ≤ Lib.i64Max ∧ now + ttlSecs.toNat * 1000 ≤ Lib.i64Max

theorem exactExpiry_iff {now : Millis} (low : i64Min ≤ now) : ExactExpiry now ttlSecs ↔ Fits now ttlSecs := by
  have lifetime : ttlMillis ttlSecs = wrapI64 (min (ttlSecs.toNat * 1000) u64Max : Nat) := rfl
  constructor
  · rintro ⟨product, cast, sum⟩
    have short := (wrapI64_range (min (ttlSecs.toNat * 1000) u64Max : Nat)).2
    rw [← lifetime, cast] at short
    have near := (wrapI64_range (now + ttlMillis ttlSecs)).2
    rw [← addI64, ← expiresAt, sum, cast] at near
    exact ⟨short, near⟩
  · rintro ⟨short, near⟩
    have product : ttlSecs.toNat * 1000 ≤ u64Max := by
      unfold Lib.i64Max at short
      unfold u64Max
      omega
    have cast : ttlMillis ttlSecs = ttlSecs.toNat * 1000 := by
      rw [lifetime, Nat.min_eq_left product, Int.natCast_mul]
      refine wrapI64_eq_iff.mpr ⟨?_, short⟩
      unfold i64Min
      omega
    refine ⟨product, cast, wrapI64_eq_iff.mpr ?_⟩
    rw [cast]
    exact ⟨by omega, near⟩

/-- **When the leases of this lane live**: at every reading of the clock and for every
lifetime from a second on, exactly when both fit. -/
theorem leases_live_iff {now : Millis} {ttlSecs : UInt64} (positive : 1 ≤ ttlSecs.toNat)
    (low : i64Min ≤ now) : LeasesLive now ttlSecs ↔ Fits now ttlSecs := by
  rw [← exactExpiry_iff low]
  refine ⟨LeasesLive.exact_, fun exact_ => ⟨exact_, ?_⟩⟩
  rintro host rfl id cls file file' writes
  rw [writes.live_iff, exact_.sum, exact_.cast]
  exact Int.lt_add_of_pos_right _ (by omega)

/-- Half an hour, the default, at any plausible time. -/
theorem leases_live_default : LeasesLive 1760000000000 1800 ↔ Fits 1760000000000 1800 :=
  leases_live_iff (by decide) (by decide)

/-- **A lifetime of 2^63 milliseconds and more** turns negative: the lease is admitted, is
in the file and has expired. -/
theorem lease_dead_on_arrival :
    ¬∀ (now : Millis) (ttlSecs : UInt64), 1 ≤ ttlSecs.toNat → i64Min ≤ now → now ≤ Lib.i64Max →
      LeasesLive now ttlSecs := by
  intro always
  have lives := (always 0 9223372036854776 (by decide) (by decide) (by decide)).live
  let uuid : Uuid := ⟨List.replicate 36 'u', List.length_replicate⟩
  have admitted : (tryAcquire ⟨0, none, none, none⟩ uuid ['g'] (some 1) 9223372036854776 .missing).1 =
      .admitted ⟨some (leaseId ['g'] uuid), ['g']⟩ := rfl
  obtain ⟨row, listed, -, -, later, -⟩ := lives ⟨0, none, none, none⟩ rfl _ _ _ _
    (.acquired uuid (some 1) rfl admitted)
  cases List.mem_singleton.mp listed
  exact absurd later (by decide)

end DuDuClaw.Concurrency
