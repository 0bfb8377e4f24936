/-
# DispatchGuard.Runs -- runs of the dispatch breaker

Calls of any path kinds and agents, one after another under the file lock.  Each pair of
a path kind and an agent has a breaker of its own (`Sim`): the file holds it, or has
dropped it where nothing of it matters any more.

* `checkAndRecord_eq`: a call is a call of its pair's breaker.
* `replay_pair`: so what a run decides for a pair is what its breaker decides alone.
* `breaker_kept_iff`: when a run keeps every window within its limit, computes exactly and
  keeps the pairs apart.
-/
import DuDuClaw.DispatchGuard.Buckets
import DuDuClaw.Lib.Runs

namespace DuDuClaw.DispatchGuard

open DuDuClaw.Lib

/-! ## The machine -/

def step (cfg : DispatchGuardConfig) (state : State) (c : Call) : State :=
  (checkAndRecord cfg state c).1

def replay (cfg : DispatchGuardConfig) : State → List Call → List (Call × DispatchGuardDecision)
  | _, [] => []
  | state, c :: rest => (c, (checkAndRecord cfg state c).2) :: replay cfg (step cfg state c) rest

def noBuckets : State := fun _ => none

def Call.ofPair (pathKind agentId : Text) (c : Call) : Bool :=
  c.pathKind == pathKind && c.agentId == agentId

def allowedTimes (pathKind agentId : Text) (log : List (Call × DispatchGuardDecision)) :
    List Millis :=
  (log.filter fun entry => entry.1.ofPair pathKind agentId && entry.2 == .allow).map (·.1.nowMs)

namespace DispatchGuardConfig

variable (cfg : DispatchGuardConfig)

/-- The durations as the configuration means them. -/
def window : Millis := (cfg.windowSecs.toNat * 1000 : Nat)

def cooldown : Millis := (cfg.cooldownSecs.toNat * 1000 : Nat)

def limit (pathKind : Text) : Nat := (cfg.limitForKind pathKind).toNat

end DispatchGuardConfig

/-- The cooldown fits into an `i64`, and so does its end where the call opens the breaker. -/
def Fits (cfg : DispatchGuardConfig) (state : State) (c : Call) : Prop :=
  cfg.cooldown ≤ i64Max ∧ (c.Full cfg state → c.nowMs + cfg.cooldown ≤ i64Max)

/-- The clock does not go back, and no path kind holds a bar. -/
structure Schedule (start : Millis) (calls : List Call) : Prop where
  epoch : 0 ≤ start
  clock : (start :: calls.map Call.nowMs).Pairwise (· ≤ ·)
  top : ∀ c ∈ calls, c.nowMs ≤ i64Max
  plain : ∀ c ∈ calls, '|' ∉ c.pathKind

namespace Schedule

variable {start : Millis} {c : Call} {rest : List Call}

theorem head_le (schedule : Schedule start (c :: rest)) : start ≤ c.nowMs :=
  List.rel_of_pairwise_cons schedule.clock (List.mem_cons_self ..)

theorem tail (schedule : Schedule start (c :: rest)) : Schedule c.nowMs rest where
  epoch := Int.le_trans schedule.epoch schedule.head_le
  clock := schedule.clock.tail
  top d listed := schedule.top d (List.mem_cons_of_mem c listed)
  plain d listed := schedule.plain d (List.mem_cons_of_mem c listed)

theorem filter {calls : List Call} (schedule : Schedule start calls) (keep : Call → Bool) :
    Schedule start (calls.filter keep) where
  epoch := schedule.epoch
  clock := schedule.clock.sublist (.cons_cons start (List.filter_sublist.map _))
  top d listed := schedule.top d (List.mem_of_mem_filter listed)
  plain d listed := schedule.plain d (List.mem_of_mem_filter listed)

end Schedule

/-! ## What the file holds -/

/-- The buckets were written by `now`, and none of them is longer than a `u32`. -/
structure Within (state : State) (now : Millis) : Prop where
  times : ∀ key b, state key = some b → ∀ t ∈ b.events, 0 ≤ t ∧ t ≤ now
  reopens : ∀ key b, state key = some b → ∀ reopens ∈ b.trippedUntil, reopens ≤ i64Max
  short : ∀ key b, state key = some b → b.events.length < 2 ^ 32

variable {state : State} {now : Millis} {cfg : DispatchGuardConfig} {c : Call}

theorem within_noBuckets (now : Millis) : Within noBuckets now where
  times _ _ found := absurd found.symm (Option.some_ne_none _)
  reopens _ _ found := absurd found.symm (Option.some_ne_none _)
  short _ _ found := absurd found.symm (Option.some_ne_none _)

theorem Within.later {later : Millis} (within : Within state now)
    (order : now ≤ later) : Within state later where
  times key b found t listed :=
    ⟨(within.times key b found t listed).1, Int.le_trans (within.times key b found t listed).2 order⟩
  reopens := within.reopens
  short := within.short

theorem Within.prune (within : Within state now) (nowMs windowMs : Millis) :
    Within (prune state nowMs windowMs) now where
  times key b found := within.times key b (Option.filter_eq_some_iff.mp found).1
  reopens key b found := within.reopens key b (Option.filter_eq_some_iff.mp found).1
  short key b found := within.short key b (Option.filter_eq_some_iff.mp found).1

theorem Within.put (within : Within state now) (key : Text)
    {b : Bucket} (times : ∀ t ∈ b.events, 0 ≤ t ∧ t ≤ now)
    (reopens : ∀ reopens ∈ b.trippedUntil, reopens ≤ i64Max) (short : b.events.length < 2 ^ 32) :
    Within (state.put key b) now := by
  have either : ∀ key' b', (state.put key b) key' = some b' → b' = b ∨ state key' = some b' := by
    intro key' b' found
    unfold State.put at found
    by_cases same : key' = key
    · subst same
      rw [Function.update_self] at found
      exact .inl (Option.some.inj found).symm
    · rw [Function.update_of_ne same] at found
      exact .inr found
  refine ⟨?_, ?_, ?_⟩ <;> intro key' b' found <;> rcases either key' b' found with rfl | before
  · exact times
  · exact within.times key' b' before
  · exact reopens
  · exact within.reopens key' b' before
  · exact short
  · exact within.short key' b' before

/-- A pruned file still holds what it found, or nothing. -/
theorem Within.bucket (within : Within state c.nowMs) :
    (∀ t ∈ (c.bucket cfg state).events, 0 ≤ t ∧ t ≤ c.nowMs) ∧
      (∀ reopens ∈ (c.bucket cfg state).trippedUntil, reopens ≤ i64Max) ∧
      (c.bucket cfg state).events.length < 2 ^ 32 := by
  have kept := within.prune c.nowMs (millisOf cfg.windowSecs)
  unfold Call.bucket
  cases found : DispatchGuard.prune state c.nowMs (millisOf cfg.windowSecs) c.key with
  | none =>
    refine ⟨fun t listed => absurd listed List.not_mem_nil, fun reopens set => ?_, by simp⟩
    exact absurd set (Option.not_mem_none reopens)
  | some b => exact ⟨kept.times _ b found, kept.reopens _ b found, kept.short _ b found⟩

/-! ## One call -/

def Bucket.breaker (b : Bucket) : Breaker := ⟨b.events, b.trippedUntil⟩

def bucketOf (b : Breaker) : Bucket := ⟨b.events, b.openUntil⟩

def Call.decision (cfg : DispatchGuardConfig) (c : Call) : Verdict → DispatchGuardDecision
  | .allowed => .allow
  | .denied reopens =>
    .trip (openReason c.key (cfg.limitForKind c.pathKind) cfg.windowSecs)
      (max ((reopens - c.nowMs).tdiv 1000) 0).toNat
  | .tripped count =>
    .trip (trippedReason c.key count cfg.windowSecs (cfg.limitForKind c.pathKind))
      cfg.cooldownSecs.toNat

def Call.on (cfg : DispatchGuardConfig) (c : Call) (b : Breaker) : Breaker × Verdict :=
  b.call cfg.window cfg.cooldown (cfg.limit c.pathKind) c.nowMs

theorem Call.decision_allow {verdict : Verdict} : c.decision cfg verdict = .allow ↔ verdict = .allowed := by
  cases verdict <;> simp [Call.decision]

section Step

variable {cfg : DispatchGuardConfig} {state : State} {c : Call}

variable {b : Bucket} {nowMs windowMs : Millis}

theorem millis_exact (longer : cfg.windowSecs ≤ cfg.cooldownSecs) (fits : cfg.cooldown ≤ i64Max) :
    millisOf cfg.windowSecs = cfg.window ∧ millisOf cfg.cooldownSecs = cfg.cooldown := by
  refine ⟨millisOf_eq_iff.mpr (Int.le_trans ?_ fits), millisOf_eq_iff.mpr fits⟩
  exact Int.ofNat_le.mpr (Nat.mul_le_mul_right 1000 (UInt64.le_iff_toNat_le.mp longer))

/-- What counts of a bucket, in machine arithmetic and exactly. -/
theorem counted_eq (times : ∀ t ∈ b.events, 0 ≤ t ∧ t ≤ nowMs) (top : nowMs ≤ i64Max) :
    b.events.filter (Bucket.counts nowMs windowMs) = recent windowMs nowMs b.events := by
  refine List.filter_congr fun t listed => ?_
  rw [Bucket.counts, subI64_eq (times t listed).1 (times t listed).2 top]

theorem alive_iff (times : ∀ t ∈ b.events, 0 ≤ t ∧ t ≤ nowMs)
    (top : nowMs ≤ i64Max) : b.alive nowMs windowMs = false ↔
      (∀ reopens ∈ b.trippedUntil, reopens ≤ nowMs) ∧ ∀ t ∈ b.events, t + windowMs ≤ nowMs := by
  simp only [Bucket.alive, Bool.or_eq_false_iff, Option.any_eq_false, List.any_eq_false,
    decide_eq_false_iff_not, Int.not_lt]
  refine and_congr Iff.rfl (forall_congr' fun t => forall_congr' fun listed => ?_)
  rw [Bucket.counts, subI64_eq (times t listed).1 (times t listed).2 top, decide_eq_true_iff]
  exact not_counting_iff

theorem full_iff (longer : cfg.windowSecs ≤ cfg.cooldownSecs) (fits : cfg.cooldown ≤ i64Max)
    (within : Within state c.nowMs) (top : c.nowMs ≤ i64Max) :
    c.Full cfg state ↔ ∃ count, (c.on cfg (c.bucket cfg state).breaker).2 = .tripped count := by
  have counted := @counted_eq (c.bucket cfg state) c.nowMs (millisOf cfg.windowSecs)
    (Within.bucket within).1 top
  unfold Call.Full Call.on
  dsimp only
  rw [Breaker.tripped_iff, Breaker.counting, counted, (millis_exact longer fits).1]
  rfl

/-- **A call is a call of the breaker it finds.** -/
theorem checkAndRecord_eq (longer : cfg.windowSecs ≤ cfg.cooldownSecs) (fits : Fits cfg state c)
    (within : Within state c.nowMs) (epoch : 0 ≤ c.nowMs) (top : c.nowMs ≤ i64Max) :
    (checkAndRecord cfg state c).2 = c.decision cfg (c.on cfg (c.bucket cfg state).breaker).2 ∧
      ((checkAndRecord cfg state c).1 = (prune state c.nowMs cfg.window).put c.key
            (bucketOf (c.on cfg (c.bucket cfg state).breaker).1) ∨
        (checkAndRecord cfg state c).1 = state ∧
          (c.on cfg (c.bucket cfg state).breaker).1 = (c.bucket cfg state).breaker ∧
          ∃ reopens ∈ (c.bucket cfg state).trippedUntil, c.nowMs < reopens) := by
  obtain ⟨windowMs, cooldownMs⟩ := millis_exact longer fits.1
  obtain ⟨times, reopens, short⟩ := Within.bucket within
  have room : (c.bucket cfg state).events.length < UInt32.size := short
  have counted : (if (c.bucket cfg state).trippedUntil.isSome then ⟨[], none⟩
      else c.bucket cfg state).events.filter (Bucket.counts c.nowMs cfg.window) =
        (c.bucket cfg state).breaker.counting cfg.window c.nowMs := by
    unfold Breaker.counting Bucket.breaker
    split
    · rfl
    · exact counted_eq times top
  have few : ((c.bucket cfg state).breaker.counting cfg.window c.nowMs).length < UInt32.size :=
    Nat.lt_of_le_of_lt Breaker.length_counting_le room
  have opens := fits.2
  rw [full_iff longer fits.1 within top, Call.on, Breaker.tripped_iff] at opens
  unfold checkAndRecord Call.on
  dsimp only
  rw [windowMs, cooldownMs]
  have found : (prune state c.nowMs cfg.window c.key).getD ⟨[], none⟩ = c.bucket cfg state := by
    rw [Call.bucket, windowMs]
  rw [found, counted]
  cases cooling : (c.bucket cfg state).trippedUntil.filter fun reopens => c.nowMs < reopens with
  | some later =>
    obtain ⟨set, after⟩ := Option.filter_eq_some_iff.mp cooling
    simp only [decide_eq_true_eq] at after
    rw [Breaker.call_open cooling]
    refine ⟨?_, .inr ⟨rfl, rfl, later, set, after⟩⟩
    dsimp only [Call.decision]
    rw [subI64_eq epoch (Int.le_of_lt after) (reopens later set)]
  | none =>
    have limit : cfg.limitForKind c.pathKind ≤
          UInt32.ofNat ((c.bucket cfg state).breaker.counting cfg.window c.nowMs).length ↔
        cfg.limit c.pathKind ≤ ((c.bucket cfg state).breaker.counting cfg.window c.nowMs).length := by
      rw [UInt32.le_iff_toNat_le, UInt32.toNat_ofNat_of_lt' few]
      rfl
    by_cases full : cfg.limit c.pathKind ≤ ((c.bucket cfg state).breaker.counting cfg.window c.nowMs).length
    · rw [Breaker.call_full cooling full]
      dsimp only
      have ends : addI64 c.nowMs cfg.cooldown = c.nowMs + cfg.cooldown :=
        addI64_eq epoch (Int.natCast_nonneg _) (opens ⟨cooling, full⟩)
      rw [if_pos (limit.mpr full), ends]
      exact ⟨rfl, .inl rfl⟩
    rw [Breaker.call_room cooling (Nat.not_le.mp full)]
    dsimp only
    rw [if_neg (mt limit.mp full)]
    refine ⟨rfl, .inl ?_⟩
    have closed : (if (c.bucket cfg state).trippedUntil.isSome then ⟨[], none⟩
        else c.bucket cfg state).trippedUntil = none := by
      split
      · rfl
      · simpa using ‹¬(c.bucket cfg state).trippedUntil.isSome = true›
    rw [closed]
    rfl

theorem within_step (longer : cfg.windowSecs ≤ cfg.cooldownSecs) (fits : Fits cfg state c)
    (within : Within state c.nowMs) (epoch : 0 ≤ c.nowMs) (top : c.nowMs ≤ i64Max) :
    Within (step cfg state c) c.nowMs := by
  obtain ⟨times, reopens, short⟩ := Within.bucket within
  obtain ⟨found, length, ends⟩ := @Breaker.call_leaves cfg.window cfg.cooldown c.nowMs
    (cfg.limit c.pathKind) (c.bucket cfg state).breaker
  obtain ⟨-, written | ⟨same, -, -⟩⟩ := checkAndRecord_eq longer fits within epoch top
  · rw [step, written]
    refine (within.prune _ _).put _ (fun t listed => ?_) (fun later set => ?_) ?_
    · rcases found t listed with before | rfl
      · exact times t before
      · exact ⟨epoch, Int.le_refl _⟩
    · rcases ends later set with before | ⟨rfl, opened⟩
      · exact reopens later before
      · exact fits.2 ((full_iff longer fits.1 within top).mpr opened)
    · have below : cfg.limit c.pathKind < 2 ^ 32 := (cfg.limitForKind c.pathKind).toNat_lt
      exact Nat.lt_of_le_of_lt length (Nat.max_lt.mpr ⟨short, below⟩)
  · rw [step, same]
    exact within

/-! ## The breaker of a pair -/

def Idle (cfg : DispatchGuardConfig) (b : Breaker) (now : Millis) : Prop :=
  (∀ reopens ∈ b.openUntil, reopens ≤ now) ∧ ∀ t ∈ b.events, t + cfg.window ≤ now

/-- The breaker is the one that the file holds, or an idle one that the file has dropped. -/
def Sim (cfg : DispatchGuardConfig) (state : State) (key : Text) (b : Breaker) (now : Millis) :
    Prop :=
  state key = some (bucketOf b) ∨ state key = none ∧ Idle cfg b now

variable {key : Text} {b : Breaker}

theorem sim_noBuckets (key : Text) (now : Millis) : Sim cfg noBuckets key Breaker.fresh now :=
  .inr ⟨rfl, fun reopens set => absurd set (Option.not_mem_none reopens), List.forall_mem_nil _⟩

theorem Sim.later {now later : Millis} (sim : Sim cfg state key b now)
    (order : now ≤ later) : Sim cfg state key b later := by
  rcases sim with held | ⟨dropped, closed, old⟩
  · exact .inl held
  · exact .inr ⟨dropped, fun reopens set => Int.le_trans (closed reopens set) order,
      fun t listed => Int.le_trans (old t listed) order⟩

theorem Sim.prune {now : Millis} (sim : Sim cfg state key b now)
    (within : Within state now) (top : now ≤ i64Max) : Sim cfg (prune state now cfg.window) key b now := by
  rcases sim with held | ⟨dropped, idle⟩
  · cases living : (bucketOf b).alive now cfg.window with
    | true => exact .inl (Option.filter_eq_some_iff.mpr ⟨held, living⟩)
    | false =>
      refine .inr ⟨?_, (alive_iff (within.times key _ held) top).mp living⟩
      rw [DispatchGuard.prune, held, Option.filter_some, living]
      rfl
  · refine .inr ⟨?_, idle⟩
    rw [DispatchGuard.prune, dropped]
    rfl

theorem Idle.on (idle : Idle cfg b c.nowMs) : c.on cfg b = c.on cfg Breaker.fresh := by
  have closed : (b.openUntil.filter fun reopens => c.nowMs < reopens) = none := by
    refine Option.filter_eq_none_iff.mpr fun reopens set => ?_
    rw [decide_eq_true_eq]
    exact Int.not_lt.mpr (idle.1 reopens set)
  have nothing : b.counting cfg.window c.nowMs = [] := by
    unfold Breaker.counting
    split
    · rfl
    · exact recent_eq_nil idle.2
  unfold Call.on Breaker.call
  rw [closed, nothing]
  rfl

/-- A call is the call of the pair's breaker. -/
theorem Sim.on (sim : Sim cfg state c.key b c.nowMs)
    (windowMs : millisOf cfg.windowSecs = cfg.window) (within : Within state c.nowMs)
    (top : c.nowMs ≤ i64Max) : c.on cfg (c.bucket cfg state).breaker = c.on cfg b := by
  unfold Call.bucket
  rw [windowMs]
  rcases sim.prune within top with held | ⟨dropped, idle⟩
  · rw [held]
    rfl
  · rw [dropped, idle.on]
    rfl

theorem sim_own (longer : cfg.windowSecs ≤ cfg.cooldownSecs)
    (fits : Fits cfg state c) (sim : Sim cfg state c.key b c.nowMs)
    (within : Within state c.nowMs) (epoch : 0 ≤ c.nowMs) (top : c.nowMs ≤ i64Max) :
    Sim cfg (step cfg state c) c.key (c.on cfg b).1 c.nowMs := by
  have windowMs := (millis_exact longer fits.1).1
  have same := sim.on windowMs within top
  obtain ⟨-, written | ⟨kept, still, reopens, set, -⟩⟩ :=
    checkAndRecord_eq longer fits within epoch top
  · left
    rw [step, written, same, State.put, Function.update_self]
  rw [step, kept, ← same, still]
  left
  unfold Call.bucket at set ⊢
  rw [windowMs] at set ⊢
  cases held : DispatchGuard.prune state c.nowMs cfg.window c.key with
  | none =>
    rw [held] at set
    exact absurd set (Option.not_mem_none reopens)
  | some found => exact (Option.filter_eq_some_iff.mp held).1

theorem sim_other (longer : cfg.windowSecs ≤ cfg.cooldownSecs)
    (fits : Fits cfg state c) (apart : key ≠ c.key) (sim : Sim cfg state key b c.nowMs)
    (within : Within state c.nowMs) (epoch : 0 ≤ c.nowMs) (top : c.nowMs ≤ i64Max) :
    Sim cfg (step cfg state c) key b c.nowMs := by
  obtain ⟨-, written | ⟨kept, -, -⟩⟩ := checkAndRecord_eq longer fits within epoch top
  · rw [step, written]
    have there := sim.prune within top
    unfold Sim State.put
    rw [Function.update_of_ne apart]
    exact there
  · rw [step, kept]
    exact sim

/-! ## Exact arithmetic -/

theorem exact_of_fits (longer : cfg.windowSecs ≤ cfg.cooldownSecs) (fits : Fits cfg state c)
    (within : Within state c.nowMs) (epoch : 0 ≤ c.nowMs) (top : c.nowMs ≤ i64Max) : c.Exact cfg state := by
  obtain ⟨windowMs, cooldownMs⟩ := millis_exact longer fits.1
  obtain ⟨times, reopens, short⟩ := Within.bucket within
  refine ⟨windowMs, cooldownMs, ?_, ?_, ?_, ?_⟩
  · intro key b held t listed
    obtain ⟨low, high⟩ := within.times key b held t listed
    exact subI64_eq low high top
  · intro later set after
    exact subI64_eq epoch (Int.le_of_lt after) (reopens later set)
  · refine UInt32.toNat_ofNat_of_lt' (Nat.lt_of_le_of_lt ?_ short)
    exact List.length_filter_le ..
  · intro full
    rw [cooldownMs]
    exact addI64_eq epoch (Int.natCast_nonneg _) (fits.2 full)

theorem fits_of_exact (exact_ : c.Exact cfg state) : Fits cfg state c := by
  have fits := millisOf_eq_iff.mp exact_.cooldown
  refine ⟨fits, fun full => ?_⟩
  have sum := exact_.reopens full
  have range := (wrapI64_range (c.nowMs + millisOf cfg.cooldownSecs)).2
  unfold DispatchGuardConfig.cooldown
  exact sum ▸ range

end Step

/-! ## Runs -/

section Runs

variable {cfg : DispatchGuardConfig} {state : State} {start : Millis} {calls : List Call}
  {pathKind agentId : Text} {b : Breaker}

theorem Call.ofPair_iff {c : Call} : c.ofPair pathKind agentId = true ↔ c = ⟨pathKind, agentId, c.nowMs⟩ := by
  cases c
  simp [Call.ofPair]

theorem Call.key_ne {c : Call} (plain : '|' ∉ pathKind) (plain' : '|' ∉ c.pathKind)
    (other : ¬c.ofPair pathKind agentId = true) : bucketKey pathKind agentId ≠ c.key := by
  intro same
  obtain ⟨rfl, rfl⟩ := bucketKey_inj plain plain' same
  exact other (Call.ofPair_iff.mpr rfl)

/-- The decisions about a pair, as its breaker takes them. -/
def decisions (cfg : DispatchGuardConfig) (pathKind agentId : Text) (log : List (Int × Verdict)) :
    List (Call × DispatchGuardDecision) :=
  log.map fun entry =>
    (⟨pathKind, agentId, entry.1⟩, Call.decision cfg ⟨pathKind, agentId, entry.1⟩ entry.2)

/-- **A run decides for a pair what the pair's breaker decides alone.** -/
theorem replay_pair (longer : cfg.windowSecs ≤ cfg.cooldownSecs) (plain : '|' ∉ pathKind)
    (schedule : Schedule start calls) (within : Within state start)
    (sim : Sim cfg state (bucketKey pathKind agentId) b start)
    (fits : Obeys (step cfg) (Fits cfg) state calls) :
    (replay cfg state calls).filter (fun entry => entry.1.ofPair pathKind agentId) =
      decisions cfg pathKind agentId (b.replay cfg.window cfg.cooldown (cfg.limit pathKind)
        ((calls.filter (Call.ofPair pathKind agentId)).map Call.nowMs)) := by
  induction calls generalizing state start b with
  | nil => rfl
  | cons c rest ih =>
    have epoch : 0 ≤ c.nowMs := Int.le_trans schedule.epoch schedule.head_le
    have top := schedule.top c (List.mem_cons_self ..)
    have here := within.later schedule.head_le
    have there := sim.later schedule.head_le
    have kept := within_step longer fits.1 here epoch top
    rw [replay, List.filter_cons, List.filter_cons]
    by_cases own : c.ofPair pathKind agentId
    · rw [if_pos own, if_pos own]
      have isOwn := Call.ofPair_iff.mp own
      have sameKey : bucketKey pathKind agentId = c.key := by rw [isOwn]; rfl
      rw [sameKey] at there
      have decided := (checkAndRecord_eq longer fits.1 here epoch top).1
      rw [there.on (millis_exact longer fits.1.1).1 here top] at decided
      have after := sim_own longer fits.1 there here epoch top
      rw [← sameKey] at after
      rw [ih schedule.tail kept after fits.2, decided]
      have sameKind : c.pathKind = pathKind := congrArg Call.pathKind isOwn
      rw [List.map_cons, Breaker.replay, decisions, decisions, List.map_cons, ← isOwn]
      unfold Call.on
      rw [sameKind]
    · rw [if_neg own, if_neg own]
      have apart := Call.key_ne plain (schedule.plain c (List.mem_cons_self ..)) own
      exact ih schedule.tail kept (sim_other longer fits.1 apart there here epoch top) fits.2

/-- The calls of a pair fit by themselves where they fit among the others. -/
theorem obeys_filter {own : State} (longer : cfg.windowSecs ≤ cfg.cooldownSecs)
    (plain : '|' ∉ pathKind) (schedule : Schedule start calls) (within : Within state start)
    (withinOwn : Within own start) (sim : Sim cfg state (bucketKey pathKind agentId) b start)
    (simOwn : Sim cfg own (bucketKey pathKind agentId) b start)
    (fits : Obeys (step cfg) (Fits cfg) state calls) :
    Obeys (step cfg) (Fits cfg) own (calls.filter (Call.ofPair pathKind agentId)) := by
  induction calls generalizing state own start b with
  | nil => trivial
  | cons c rest ih =>
    have epoch : 0 ≤ c.nowMs := Int.le_trans schedule.epoch schedule.head_le
    have top := schedule.top c (List.mem_cons_self ..)
    have here := within.later schedule.head_le
    have hereOwn := withinOwn.later schedule.head_le
    have there := sim.later schedule.head_le
    have thereOwn := simOwn.later schedule.head_le
    have kept := within_step longer fits.1 here epoch top
    rw [List.filter_cons]
    by_cases same : c.ofPair pathKind agentId
    · rw [if_pos same]
      have sameKey : bucketKey pathKind agentId = c.key := by
        rw [Call.ofPair_iff.mp same]
        rfl
      rw [sameKey] at there thereOwn
      have windowMs := (millis_exact longer fits.1.1).1
      have fitsOwn : Fits cfg own c := by
        refine ⟨fits.1.1, fun full => fits.1.2 ?_⟩
        rw [full_iff longer fits.1.1 hereOwn top, thereOwn.on windowMs hereOwn top] at full
        rwa [full_iff longer fits.1.1 here top, there.on windowMs here top]
      have after := sim_own longer fits.1 there here epoch top
      have afterOwn := sim_own longer fitsOwn thereOwn hereOwn epoch top
      rw [← sameKey] at after afterOwn
      exact ⟨fitsOwn, ih schedule.tail kept (within_step longer fitsOwn hereOwn epoch top) after
        afterOwn fits.2⟩
    · rw [if_neg same]
      have apart := Call.key_ne plain (schedule.plain c (List.mem_cons_self ..)) same
      exact ih schedule.tail kept hereOwn
        (sim_other longer fits.1 apart there here epoch top) thereOwn fits.2

theorem allowedTimes_decisions (log : List (Int × Verdict)) :
    allowedTimes pathKind agentId (decisions cfg pathKind agentId log) = Breaker.allowedTimes log := by
  unfold allowedTimes decisions Breaker.allowedTimes
  rw [List.filter_map, List.map_map]
  refine congrArg _ (List.filter_congr fun entry _ => ?_)
  have same : (Call.decision cfg ⟨pathKind, agentId, entry.1⟩ entry.2 == .allow) =
      decide (entry.2 = .allowed) := by
    rw [Bool.eq_iff_iff, beq_iff_eq, Call.decision_allow, decide_eq_true_iff]
  simp [Call.ofPair, same]

theorem allowedTimes_own (log : List (Call × DispatchGuardDecision)) :
    allowedTimes pathKind agentId (log.filter fun entry => entry.1.ofPair pathKind agentId) =
      allowedTimes pathKind agentId log := by
  unfold allowedTimes
  rw [List.filter_filter]
  refine congrArg _ (List.filter_congr fun entry _ => ?_)
  cases entry.1.ofPair pathKind agentId <;> simp

/-- Nothing is decided about a path kind that holds a bar. -/
theorem filter_eq_nil (schedule : Schedule start calls) (bar : '|' ∈ pathKind) :
    calls.filter (Call.ofPair pathKind agentId) = [] := by
  refine List.filter_eq_nil_iff.mpr fun c listed own => ?_
  have plain := schedule.plain c listed
  rw [Call.ofPair_iff.mp own] at plain
  exact plain bar

theorem map_replay : (replay cfg state calls).map Prod.fst = calls := by
  induction calls generalizing state with
  | nil => rfl
  | cons c rest ih => rw [replay, List.map_cons, ih]

theorem filter_replay_nil (none_ : calls.filter (Call.ofPair pathKind agentId) = []) :
    (replay cfg state calls).filter (fun entry => entry.1.ofPair pathKind agentId) = [] := by
  refine List.filter_eq_nil_iff.mpr fun entry listed => ?_
  have isCall : entry.1 ∈ calls := by
    rw [← @map_replay cfg state calls]
    exact List.mem_map_of_mem listed
  exact List.filter_eq_nil_iff.mp none_ entry.1 isCall

/-! ## What the breaker promises -/

/-- In every interval of the window's length at most the limit of calls of one pair are
allowed, no integer computation overflows or changes sign, and what is decided for a pair
is what would be decided without the other calls. -/
structure Kept (cfg : DispatchGuardConfig) (calls : List Call) : Prop where
  bounded : ∀ pathKind agentId,
    Sparse cfg.window (cfg.limit pathKind) (allowedTimes pathKind agentId (replay cfg noBuckets calls))
  exact_ : ∀ front c back, calls = front ++ c :: back → c.Exact cfg (run (step cfg) noBuckets front)
  independent : ∀ pathKind agentId,
    (replay cfg noBuckets calls).filter (fun entry => entry.1.ofPair pathKind agentId) =
      replay cfg noBuckets (calls.filter (Call.ofPair pathKind agentId))

theorem within_run (longer : cfg.windowSecs ≤ cfg.cooldownSecs) {front back : List Call} {c : Call}
    (schedule : Schedule start (front ++ c :: back)) (within : Within state start)
    (fits : Obeys (step cfg) (Fits cfg) state (front ++ c :: back)) :
    Within (run (step cfg) state front) c.nowMs := by
  induction front generalizing state start with
  | nil => exact within.later schedule.head_le
  | cons d rest ih =>
    refine ih schedule.tail ?_ fits.2
    exact within_step longer fits.1 (within.later schedule.head_le)
      (Int.le_trans schedule.epoch schedule.head_le) (schedule.top d (List.mem_cons_self ..))

theorem bounded_of_fits (longer : cfg.windowSecs ≤ cfg.cooldownSecs)
    (schedule : Schedule start calls) (fits : Obeys (step cfg) (Fits cfg) noBuckets calls)
    (pathKind agentId : Text) : Sparse cfg.window (cfg.limit pathKind)
      (allowedTimes pathKind agentId (replay cfg noBuckets calls)) := by
  rw [← allowedTimes_own]
  by_cases bar : '|' ∈ pathKind
  · rw [filter_replay_nil (filter_eq_nil schedule bar)]
    exact sparse_nil
  rw [replay_pair longer bar schedule (within_noBuckets start) (sim_noBuckets _ start) fits,
    allowedTimes_decisions]
  refine Breaker.sparse_allowed (schedule.filter _).clock.tail ?_
  exact Int.ofNat_le.mpr (Nat.mul_le_mul_right 1000 (UInt64.le_iff_toNat_le.mp longer))

theorem independent_of_fits (longer : cfg.windowSecs ≤ cfg.cooldownSecs)
    (schedule : Schedule start calls) (fits : Obeys (step cfg) (Fits cfg) noBuckets calls)
    (pathKind agentId : Text) :
    (replay cfg noBuckets calls).filter (fun entry => entry.1.ofPair pathKind agentId) =
      replay cfg noBuckets (calls.filter (Call.ofPair pathKind agentId)) := by
  by_cases bar : '|' ∈ pathKind
  · rw [filter_replay_nil (filter_eq_nil schedule bar), filter_eq_nil schedule bar]
    rfl
  have fresh := @sim_noBuckets cfg (bucketKey pathKind agentId) start
  have empty := within_noBuckets start
  have alone := obeys_filter longer bar schedule empty empty fresh fresh fits
  have own : (replay cfg noBuckets (calls.filter (Call.ofPair pathKind agentId))).filter
      (fun entry => entry.1.ofPair pathKind agentId) =
        replay cfg noBuckets (calls.filter (Call.ofPair pathKind agentId)) := by
    refine List.filter_eq_self.mpr fun entry listed => ?_
    have isCall : entry.1 ∈ calls.filter (Call.ofPair pathKind agentId) := by
      rw [← @map_replay cfg noBuckets (calls.filter _)]
      exact List.mem_map_of_mem listed
    exact (List.mem_filter.mp isCall).2
  rw [replay_pair longer bar schedule empty fresh fits, ← own,
    replay_pair longer bar (schedule.filter _) empty fresh alone, List.filter_filter]
  simp only [Bool.and_self]

/-- **A run keeps its promises exactly when every call's cooldown fits into an `i64`**, and
so does the end of each cooldown that the run opens. -/
theorem breaker_kept_iff (longer : cfg.windowSecs ≤ cfg.cooldownSecs) (schedule : Schedule start calls) :
    Kept cfg calls ↔ Obeys (step cfg) (Fits cfg) noBuckets calls := by
  constructor
  · intro kept
    refine obeys_iff.mpr fun front c back split => ?_
    exact fits_of_exact (kept.exact_ front c back split)
  · intro fits
    refine ⟨bounded_of_fits longer schedule fits, ?_, independent_of_fits longer schedule fits⟩
    rintro front c back rfl
    have listed : c ∈ front ++ c :: back := List.mem_append_right _ (List.mem_cons_self ..)
    refine exact_of_fits longer fits.at (within_run longer schedule (within_noBuckets start) fits) ?_
      (schedule.top c listed)
    exact Int.le_trans schedule.epoch
      (List.rel_of_pairwise_cons schedule.clock (List.mem_map_of_mem listed))

end Runs

/-! ## Two configurations -/

def busCall (agentId : String) (nowMs : Millis) : Call := ⟨"bus".toList, agentId.toList, nowMs⟩

/-- Two agents with one dispatch a minute each: the second call of `alice` trips. -/
def oneAMinute : DispatchGuardConfig := { maxInWindow := 1 }

def busRun : List Call :=
  [busCall "alice" 0, busCall "bob" 500, busCall "alice" 900, busCall "bob" 61000]

theorem busRun_scheduled : Schedule 0 busRun where
  epoch := Int.le_refl 0
  clock := by decide
  top := by decide
  plain := by decide

theorem breaker_kept_busRun : Kept oneAMinute busRun := by
  refine (breaker_kept_iff (by decide) busRun_scheduled).mpr ?_
  refine ⟨?_, ?_, ?_, ?_, trivial⟩ <;> exact ⟨by decide, fun _ => by decide⟩

/-- The longest window a configuration file can name, whose milliseconds do not fit. -/
def endless : DispatchGuardConfig :=
  { windowSecs := 9223372036854775807, maxInWindow := 1, cooldownSecs := 9223372036854775807 }

/-- With the endless window both calls are allowed, at one instant. -/
theorem endless_unbounded : ¬∀ (cfg : DispatchGuardConfig) (start : Millis) (calls : List Call),
    1 ≤ cfg.windowSecs → cfg.windowSecs ≤ cfg.cooldownSecs → Schedule start calls → Kept cfg calls := by
  intro claimed
  have twice : Schedule 0 [busCall "alice" 0, busCall "alice" 0] :=
    ⟨Int.le_refl 0, by decide, by decide, by decide⟩
  have bound := (claimed endless 0 _ (by decide) (by decide) twice).bounded "bus".toList
    "alice".toList 0
  have both : allowedTimes "bus".toList "alice".toList
      (replay endless noBuckets [busCall "alice" 0, busCall "alice" 0]) = [0, 0] := by
    decide
  rw [both] at bound
  exact absurd bound (by decide)

end DuDuClaw.DispatchGuard
