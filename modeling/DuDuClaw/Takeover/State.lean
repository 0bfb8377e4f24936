/-
# Takeover.State -- conversations held by a human

`begin`, `extend`, `end` and `sweep_expired` of takeover_state.rs over the state file.
Every one of them prunes the closed windows before it does its own work, and only the
sweep returns what it pruned.

A record is filed under its conversation, so the file is a table keyed by it.  A file that
is missing or does not decode reads as the empty table.

* `withState_cases`: a call is refused and leaves the file, or does what its body does.
* `get_prune`, `beginBody_get`, `extendBody_get`, `endBody_get`: what a body does to the
  record of one conversation.
-/
import DuDuClaw.Lib.Table

namespace DuDuClaw.Takeover

open DuDuClaw.Lib

abbrev Text := List Char

/-- Nanoseconds since the epoch. -/
abbrev Instant := Int

def minutes (n : Int) : Int := n * 60000000000

/-! ## Configuration -/

def hardMaxDurationMinutes : Int := 12 * 60

def maxExtensionMinutes : Int := 8 * 60

def clamp (n lo hi : Int) : Int := if n < lo then lo else if hi < n then hi else n

structure TakeoverConfig where
  durationMinutes : Int
  maxDurationMinutes : Int
  deriving DecidableEq

def TakeoverConfig.clamped (cfg : TakeoverConfig) : TakeoverConfig :=
  let most := clamp cfg.maxDurationMinutes 1 hardMaxDurationMinutes
  ⟨clamp cfg.durationMinutes 1 most, most⟩

/-! ## Records -/

structure TakeoverRecord where
  conversation : Text
  channel : Text
  chatId : Text
  agentId : Text
  holderUserId : Text
  holderDisplay : Text
  startedAt : Instant
  until_ : Instant
  claimedTaskIds : List Text
  deriving DecidableEq

def TakeoverRecord.isActiveAt (r : TakeoverRecord) (now : Instant) : Bool := decide (now < r.until_)

inductive BeginOutcome where
  | started (r : TakeoverRecord)
  | refreshed (r : TakeoverRecord)

structure BeginRequest where
  conversation : Text
  agentId : Text
  holderUserId : Text
  holderDisplay : Text
  deriving DecidableEq

/-- `splitn(n, ':')`. -/
def splitn : Nat → Text → List Text
  | 0, _ => []
  | 1, s => [s]
  | n + 2, s =>
    let part := s.takeWhile (· ≠ ':')
    match s.dropWhile (· ≠ ':') with
    | [] => [part]
    | _ :: rest => part :: splitn (n + 1) rest

def conversationTarget (conversation : Text) : Option (Text × Text) :=
  match splitn 3 (trim conversation) with
  | channel :: second :: rest =>
    let channel := trim channel
    let chatId := trim (if second = "thread".toList then rest.headD second else second)
    if channel.isEmpty then none
    else if chatId.isEmpty then none
    else some (channel, chatId)
  | _ => none

/-! ## The file -/

abbrev State := Table TakeoverRecord.conversation

namespace State

def get (state : State) (conversation : Text) : Option TakeoverRecord :=
  state.rows.find? fun r => r.conversation == conversation

/-- `prune`: the records whose window has closed, and the others. -/
def prune (state : State) (now : Instant) : List TakeoverRecord × State :=
  (state.rows.filter fun r => !r.isActiveAt now, state.deleteWhere fun r => !r.isActiveAt now)

/-- Replaces the record of a conversation through `get_mut`. -/
def modify (state : State) (conversation : Text) (edit : TakeoverRecord → TakeoverRecord)
    (keeps : ∀ r, (edit r).conversation = r.conversation) : State :=
  state.update (fun r => if r.conversation = conversation then edit r else r) fun r => by
    split
    · exact keeps r
    · rfl

end State

inductive Error where
  | invalidInput (conversation : Text)
  | io (code : Int)

/-- What the system refuses to one call. -/
structure Host where
  lock : Option Int
  save : Option Int
  deriving DecidableEq

/-- `with_state`: the file is written only when the body changed something. -/
def withState {α : Type} (host : Host) (state : State) (body : State → α × State) :
    Except Error α × State :=
  match host.lock with
  | some code => (.error (.io code), state)
  | none =>
    let out := body state
    if out.2.rows = state.rows then (.ok out.1, state)
    else
      match host.save with
      | some code => (.error (.io code), state)
      | none => (.ok out.1, out.2)

/-! ## The calls -/

/-- `begin`, once its conversation has a target. -/
def beginBody (req : BeginRequest) (target : Text × Text) (cfg : TakeoverConfig) (now : Instant)
    (state : State) : BeginOutcome × State :=
  let pruned := (state.prune now).2
  let deadline := now + minutes cfg.clamped.durationMinutes
  let refresh := fun r : TakeoverRecord =>
    { r with until_ := deadline, holderUserId := req.holderUserId, holderDisplay := req.holderDisplay }
  match pruned.get req.conversation with
  | some existing =>
    (.refreshed (refresh existing), pruned.modify req.conversation refresh fun _ => rfl)
  | none =>
    let r : TakeoverRecord :=
      { conversation := req.conversation
        channel := target.1
        chatId := target.2
        agentId := req.agentId
        holderUserId := req.holderUserId
        holderDisplay := req.holderDisplay
        startedAt := now
        until_ := deadline
        claimedTaskIds := [] }
    (.started r, pruned.put r)

def beginTakeover (host : Host) (req : BeginRequest) (cfg : TakeoverConfig) (now : Instant)
    (state : State) : Except Error BeginOutcome × State :=
  match conversationTarget req.conversation with
  | none => (.error (.invalidInput req.conversation), state)
  | some target => withState host state (beginBody req target cfg now)

/-- The later deadline of `extend`: it moves by the minutes, up to the ceiling. -/
def extendedUntil (mins : Int) (cfg : TakeoverConfig) (now deadline : Instant) : Instant :=
  let proposed := deadline + minutes (clamp mins 1 maxExtensionMinutes)
  let ceiling := now + minutes cfg.clamped.maxDurationMinutes
  if ceiling < proposed then ceiling else proposed

def extendBody (conversation : Text) (mins : Int) (cfg : TakeoverConfig) (now : Instant)
    (state : State) : Option TakeoverRecord × State :=
  let pruned := (state.prune now).2
  let move := fun r : TakeoverRecord => { r with until_ := extendedUntil mins cfg now r.until_ }
  match pruned.get conversation with
  | none => (none, pruned)
  | some r => (some (move r), pruned.modify conversation move fun _ => rfl)

def extendTakeover (host : Host) (conversation : Text) (mins : Int) (cfg : TakeoverConfig)
    (now : Instant) (state : State) : Except Error (Option TakeoverRecord) × State :=
  withState host state (extendBody conversation mins cfg now)

def endBody (conversation : Text) (now : Instant) (state : State) :
    Option TakeoverRecord × State :=
  let pruned := (state.prune now).2
  (pruned.get conversation, pruned.deleteWhere fun r => r.conversation == conversation)

def endTakeover (host : Host) (conversation : Text) (now : Instant) (state : State) :
    Except Error (Option TakeoverRecord) × State :=
  withState host state (endBody conversation now)

def sweepExpired (host : Host) (now : Instant) (state : State) : List TakeoverRecord × State :=
  let out := withState host state fun s => s.prune now
  ((out.1.toOption).getD [], out.2)

/-! ## Deadlines lie ahead -/

theorem clamp_pos {n hi : Int} (room : 1 ≤ hi) : 1 ≤ clamp n 1 hi := by
  unfold clamp
  split
  · exact Int.le_refl 1
  · split
    · exact room
    · omega

theorem lt_add_minutes (now : Instant) {n : Int} (positive : 1 ≤ n) : now < now + minutes n := by
  have ahead : 0 < minutes n := by
    unfold minutes
    omega
  exact Int.lt_add_of_pos_right now ahead

theorem clamped_max_pos (cfg : TakeoverConfig) : 1 ≤ cfg.clamped.maxDurationMinutes :=
  clamp_pos (by decide)

theorem clamped_duration_pos (cfg : TakeoverConfig) : 1 ≤ cfg.clamped.durationMinutes :=
  clamp_pos (clamped_max_pos cfg)

theorem lt_extendedUntil {mins : Int} {cfg : TakeoverConfig} {now deadline : Instant}
    (open_ : now < deadline) : now < extendedUntil mins cfg now deadline := by
  unfold extendedUntil
  dsimp only
  split
  · exact lt_add_minutes now (clamped_max_pos cfg)
  · exact Int.lt_trans open_ (lt_add_minutes deadline (clamp_pos (by decide)))

/-! ## One conversation's record -/

variable {state : State} {c : Text} {now : Instant}

variable {r : TakeoverRecord}

theorem get_some (found : state.get c = some r) : r ∈ state.rows ∧ r.conversation = c := by
  refine ⟨List.mem_of_find?_eq_some found, ?_⟩
  simpa using List.find?_some found

theorem get_of_mem (listed : r ∈ state.rows) : state.get r.conversation = some r := state.find?_key listed

theorem get_eq_none : state.get c = none ↔ ∀ r ∈ state.rows, r.conversation ≠ c := by
  rw [State.get, List.find?_eq_none]
  simp

/-- What the rows are decides what is found, whatever their order. -/
theorem get_eq_of_mem (listed : r ∈ state.rows) (filed : r.conversation = c) :
    state.get c = some r := filed ▸ get_of_mem listed

/-- The record of a conversation while its window is open. -/
def State.held (state : State) (c : Text) (now : Instant) : Option TakeoverRecord :=
  (state.get c).filter fun r => r.isActiveAt now

theorem get_prune (state : State) (c : Text) (now : Instant) :
    (state.prune now).2.get c = state.held c now := by
  unfold State.held
  cases found : state.get c with
  | none =>
    rw [Option.filter_none, get_eq_none]
    intro r listed
    exact get_eq_none.mp found r (Table.mem_deleteWhere.mp listed).1
  | some r =>
    obtain ⟨listed, filed⟩ := get_some found
    cases active : r.isActiveAt now with
    | true =>
      rw [Option.filter_some, if_pos active]
      exact get_eq_of_mem (Table.mem_deleteWhere.mpr ⟨listed, by rw [active]; rfl⟩) filed
    | false =>
      rw [Option.filter_some, active, if_neg Bool.false_ne_true, get_eq_none]
      intro other kept same
      obtain ⟨there, unexpired⟩ := Table.mem_deleteWhere.mp kept
      rw [state.unique there listed (same.trans filed.symm), active] at unexpired
      cases unexpired

/-- A sweep's list names a conversation when its window has closed. -/
theorem mem_prune : r ∈ (state.prune now).1 ↔ r ∈ state.rows ∧ r.isActiveAt now = false := by
  simp [State.prune]

theorem get_modify {edit : TakeoverRecord → TakeoverRecord}
    (keeps : ∀ r, (edit r).conversation = r.conversation) (d : Text) : (state.modify d edit keeps).get c =
      if c = d then (state.get c).map edit else state.get c := by
  have same : ∀ r : TakeoverRecord,
      (if r.conversation = d then edit r else r).conversation = r.conversation := by
    intro r
    split
    · exact keeps r
    · rfl
  have searched : (state.modify d edit keeps).get c =
      (state.get c).map fun r => if r.conversation = d then edit r else r := by
    simp only [State.get, State.modify, Table.update, List.find?_map, Function.comp_def, same]
  rw [searched]
  cases found : state.get c with
  | none => simp
  | some r =>
    rw [← (get_some found).2]
    split <;> simp_all

theorem get_put (r : TakeoverRecord) :
    State.get (state.put r) c = if c = r.conversation then some r else state.get c := by
  split
  · rename_i here
    exact get_eq_of_mem (Table.mem_put.mpr (.inr rfl)) here.symm
  rename_i elsewhere
  have miss : [r].find? (fun other => other.conversation == c) = none := by
    rw [List.find?_eq_none]
    intro other listed same
    exact elsewhere ((eq_of_beq same).symm.trans (by rw [List.mem_singleton.mp listed]))
  simp only [State.get, Table.put, List.find?_append, miss, Option.or_none, List.find?_filter]
  congr 1
  funext other
  by_cases filed : other.conversation = c
  · simp [filed, elsewhere]
  · simp [filed]

theorem beginBody_get (req : BeginRequest) (target : Text × Text) (cfg : TakeoverConfig)
    (now : Instant) (state : State) : (c ≠ req.conversation →
      (beginBody req target cfg now state).2.get c = state.held c now) ∧
    ∃ r, (beginBody req target cfg now state).2.get req.conversation = some r ∧ now < r.until_ ∧
      r.conversation = req.conversation ∧ ((state.held req.conversation now = none ∧
          (beginBody req target cfg now state).1 = .started r) ∨
        (state.held req.conversation now ≠ none ∧ (beginBody req target cfg now state).1 = .refreshed r)) := by
  have ahead : now < now + minutes cfg.clamped.durationMinutes :=
    lt_add_minutes now (clamped_duration_pos cfg)
  unfold beginBody
  dsimp only
  rw [get_prune]
  cases held : state.held req.conversation now with
  | none =>
    refine ⟨fun other => ?_, _, ?_, ahead, rfl, .inl ⟨rfl, rfl⟩⟩
    · rw [get_put, if_neg other, get_prune]
    · rw [get_put, if_pos rfl]
  | some r =>
    refine ⟨fun other => ?_, _, ?_, ahead, ?_, .inr ⟨Option.some_ne_none r, rfl⟩⟩
    · rw [get_modify, if_neg other, get_prune]
    · rw [get_modify, if_pos rfl, get_prune, held]
      rfl
    · rw [← get_prune] at held
      exact (get_some held).2

theorem extendBody_get (d : Text) (mins : Int) (cfg : TakeoverConfig) (now : Instant) (state : State) :
    (c ≠ d → (extendBody d mins cfg now state).2.get c = state.held c now) ∧
    ((state.held d now = none ∧ extendBody d mins cfg now state = (none, (state.prune now).2)) ∨
      ∃ r, state.held d now ≠ none ∧ (extendBody d mins cfg now state).1 = some r ∧
        (extendBody d mins cfg now state).2.get d = some r ∧ now < r.until_ ∧ r.conversation = d) := by
  unfold extendBody
  dsimp only
  rw [get_prune]
  cases held : state.held d now with
  | none => exact ⟨fun _ => get_prune state c now, .inl ⟨rfl, rfl⟩⟩
  | some r =>
    refine ⟨fun other => ?_, .inr ⟨_, Option.some_ne_none r, rfl, ?_, ?_, ?_⟩⟩
    · rw [get_modify, if_neg other, get_prune]
    · rw [get_modify, if_pos rfl, get_prune, held]
      rfl
    · have active := (Option.filter_eq_some_iff.mp held).2
      exact lt_extendedUntil (of_decide_eq_true active)
    · rw [← get_prune] at held
      exact (get_some held).2

theorem endBody_get (d : Text) (now : Instant) (state : State) : (endBody d now state).1 = state.held d now ∧
      (endBody d now state).2.get c = if c = d then none else state.held c now := by
  refine ⟨get_prune state d now, ?_⟩
  unfold endBody
  dsimp only
  split
  · rename_i here
    rw [get_eq_none]
    intro r listed same
    have other := (Table.mem_deleteWhere.mp listed).2
    rw [same, here, beq_self_eq_true] at other
    cases other
  rename_i elsewhere
  rw [← get_prune]
  cases found : (state.prune now).2.get c with
  | none =>
    rw [get_eq_none] at found ⊢
    intro r listed
    exact found r (Table.mem_deleteWhere.mp listed).1
  | some r =>
    obtain ⟨listed, filed⟩ := get_some found
    refine get_eq_of_mem (Table.mem_deleteWhere.mpr ⟨listed, ?_⟩) filed
    rw [filed]
    exact beq_false_of_ne elsewhere

/-! ## Refused calls -/

/-- The system refuses nothing to the call. -/
def Host.runs (host : Host) : Bool := host.lock.isNone && host.save.isNone

/-- A call is refused and leaves the file, or does what its body does; refused a write, it
gets through only where the body changes nothing. -/
theorem withState_cases {α : Type} (host : Host) (state : State) (body : State → α × State) :
    (host.runs = false ∧ ∃ code, withState host state body = (.error (.io code), state)) ∨
      (withState host state body = (.ok (body state).1, (body state).2) ∧
        (host.runs = false → (body state).2.rows = state.rows)) := by
  unfold withState Host.runs
  cases host.lock with
  | some code => exact .inl ⟨rfl, code, rfl⟩
  | none =>
    dsimp only
    split
    · rename_i same
      have whole : (body state).2 = state := Table.ext same
      exact .inr ⟨by rw [whole], fun _ => same⟩
    · cases host.save with
      | some code => exact .inl ⟨rfl, code, rfl⟩
      | none => exact .inr ⟨rfl, fun faulty => by cases faulty⟩

end DuDuClaw.Takeover
