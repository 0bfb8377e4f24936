/-
# Takeover.Windows -- which windows a sweep announces

Calls of any holders on any conversations, one after another under the file lock.  A
window opens with each reply that gives a conversation a deadline.  It is taken when a
later call finds the conversation held and moves or ends it; the sweeps that name the
conversation before that, or before the next window, announce it.

* `perform_view`: what a call says about a conversation and does to its record.
* `announcements_of_taken`, `announcements_le_one`: unconditional.
* `announced_once_iff`: every closed window is announced by exactly one sweep exactly when
  no other call takes effect while a closed window waits for a sweep that comes later.
* `closed_window_dropped`: a `begin` on another conversation drops a closed window.
-/
import DuDuClaw.Lib.Runs
import DuDuClaw.Takeover.State

namespace DuDuClaw.Takeover

open DuDuClaw.Lib

/-! ## Calls and replies -/

inductive Call where
  | begin (req : BeginRequest) (cfg : TakeoverConfig)
  | extend (conversation : Text) (mins : Int) (cfg : TakeoverConfig)
  | finish (conversation : Text)
  | sweep
  deriving DecidableEq

inductive Reply where
  | began (outcome : Except Error BeginOutcome)
  | extended (outcome : Except Error (Option TakeoverRecord))
  | finished (outcome : Except Error (Option TakeoverRecord))
  | swept (closed : List TakeoverRecord)

structure Step where
  now : Instant
  host : Host
  call : Call
  deriving DecidableEq

def perform (state : State) (s : Step) : Reply × State :=
  match s.call with
  | .begin req cfg =>
    let out := beginTakeover s.host req cfg s.now state
    (.began out.1, out.2)
  | .extend conversation mins cfg =>
    let out := extendTakeover s.host conversation mins cfg s.now state
    (.extended out.1, out.2)
  | .finish conversation =>
    let out := endTakeover s.host conversation s.now state
    (.finished out.1, out.2)
  | .sweep =>
    let out := sweepExpired s.host s.now state
    (.swept out.1, out.2)

def step (state : State) (s : Step) : State := (perform state s).2

/-- The call is one that the code carries out: its conversation has a target and nothing
is refused. -/
def Step.effective (s : Step) : Bool :=
  s.host.runs &&
    match s.call with
    | .begin req _ => (conversationTarget req.conversation).isSome
    | _ => true

namespace Reply

/-- The deadline a reply gives the conversation. -/
def sets (c : Text) : Reply → Option Instant
  | .began (.ok (.started r)) => if r.conversation = c then some r.until_ else none
  | .began (.ok (.refreshed r)) => if r.conversation = c then some r.until_ else none
  | .extended (.ok (some r)) => if r.conversation = c then some r.until_ else none
  | _ => none

/-- The call found the conversation held, and moved or ended its window. -/
def takes (c : Text) : Reply → Bool
  | .began (.ok (.refreshed r)) => r.conversation = c
  | .extended (.ok (some r)) => r.conversation = c
  | .finished (.ok (some r)) => r.conversation = c
  | _ => false

/-- A sweep names the conversation. -/
def announces (c : Text) : Reply → Bool
  | .swept closed => closed.any fun r => r.conversation = c
  | _ => false

/-- A reply that says nothing about the conversation. -/
structure Quiet (c : Text) (reply : Reply) : Prop where
  sets : reply.sets c = none
  takes : reply.takes c = false
  announces : reply.announces c = false

end Reply

/-! ## What a call does to one conversation -/

/-- The call, as one conversation sees it. -/
inductive View (c : Text) (state : State) (s : Step) : Reply → State → Prop where
  | idle {reply : Reply} (refused : s.effective = false) (quiet : reply.Quiet c) :
      View c state s reply state
  | sweep {closed : List TakeoverRecord} {t : State} (swept : s.call = .sweep)
      (named : (Reply.swept closed).announces c = true ↔
        ∃ r, state.get c = some r ∧ r.isActiveAt s.now = false)
      (kept : t.get c = state.held c s.now) : View c state s (.swept closed) t
  | pass {reply : Reply} {t : State} (other : s.call ≠ .sweep) (quiet : reply.Quiet c)
      (kept : t.get c = state.held c s.now) : View c state s reply t
  | set {reply : Reply} {t : State} {r : TakeoverRecord} (other : s.call ≠ .sweep)
      (given : reply.sets c = some r.until_) (filed : t.get c = some r) (ahead : s.now < r.until_)
      (silent : reply.announces c = false)
      (found : reply.takes c = true ↔ state.held c s.now ≠ none) : View c state s reply t
  | finish {reply : Reply} {t : State} (other : s.call ≠ .sweep) (none_ : reply.sets c = none)
      (silent : reply.announces c = false) (found : reply.takes c = true)
      (held : state.held c s.now ≠ none) (gone : t.get c = none) : View c state s reply t

section Calls

variable {c : Text} {state : State} {now : Instant} {host : Host}

theorem begin_view (req : BeginRequest) (cfg : TakeoverConfig) :
    View c state ⟨now, host, .begin req cfg⟩ (.began (beginTakeover host req cfg now state).1)
      (beginTakeover host req cfg now state).2 := by
  unfold beginTakeover
  cases addressed : conversationTarget req.conversation with
  | none =>
    refine .idle ?_ ⟨rfl, rfl, rfl⟩
    simp [Step.effective, addressed]
  | some target =>
    dsimp only
    obtain ⟨faulty, code, same⟩ | ⟨same, -⟩ :=
      withState_cases host state (beginBody req target cfg now)
    · rw [same]
      exact .idle (by simp [Step.effective, faulty]) ⟨rfl, rfl, rfl⟩
    rw [same]
    obtain ⟨others, r, filed, ahead, named, outcome⟩ :=
      beginBody_get (c := c) req target cfg now state
    by_cases here : c = req.conversation
    · subst here
      obtain ⟨free, started⟩ | ⟨held, refreshed⟩ := outcome
      · refine .set (r := r) Call.noConfusion ?_ filed ahead rfl ?_
        · rw [started]
          exact if_pos named
        · rw [started]
          simp [Reply.takes, free]
      refine .set (r := r) Call.noConfusion ?_ filed ahead rfl ?_
      · rw [refreshed]
        exact if_pos named
      · rw [refreshed]
        simp [Reply.takes, named, held]
    · have elsewhere : r.conversation ≠ c := named ▸ Ne.symm here
      refine .pass Call.noConfusion ⟨?_, ?_, rfl⟩ (others here)
      · obtain ⟨-, started⟩ | ⟨-, refreshed⟩ := outcome
        · rw [started]
          exact if_neg elsewhere
        · rw [refreshed]
          exact if_neg elsewhere
      · obtain ⟨-, started⟩ | ⟨-, refreshed⟩ := outcome
        · rw [started]
          rfl
        · rw [refreshed]
          exact decide_eq_false elsewhere

theorem extend_view (d : Text) (mins : Int) (cfg : TakeoverConfig) :
    View c state ⟨now, host, .extend d mins cfg⟩
      (.extended (extendTakeover host d mins cfg now state).1)
      (extendTakeover host d mins cfg now state).2 := by
  unfold extendTakeover
  obtain ⟨faulty, code, same⟩ | ⟨same, -⟩ :=
    withState_cases host state (extendBody d mins cfg now)
  · rw [same]
    exact .idle (by simp [Step.effective, faulty]) ⟨rfl, rfl, rfl⟩
  rw [same]
  obtain ⟨others, ⟨_, nothing⟩ | ⟨r, held, moved, filed, ahead, named⟩⟩ :=
    extendBody_get (c := c) d mins cfg now state
  · rw [nothing]
    exact .pass Call.noConfusion ⟨rfl, rfl, rfl⟩ (get_prune state c now)
  by_cases here : c = d
  · subst here
    rw [moved]
    refine .set (r := r) Call.noConfusion (if_pos named) filed ahead rfl ?_
    simp [Reply.takes, named, held]
  have elsewhere : r.conversation ≠ c := named ▸ Ne.symm here
  rw [moved]
  exact .pass Call.noConfusion ⟨if_neg elsewhere, decide_eq_false elsewhere, rfl⟩
    (others here)

theorem finish_view (d : Text) :
    View c state ⟨now, host, .finish d⟩ (.finished (endTakeover host d now state).1)
      (endTakeover host d now state).2 := by
  unfold endTakeover
  obtain ⟨faulty, code, same⟩ | ⟨same, -⟩ := withState_cases host state (endBody d now)
  · rw [same]
    exact .idle (by simp [Step.effective, faulty]) ⟨rfl, rfl, rfl⟩
  rw [same]
  obtain ⟨reported, left⟩ := endBody_get (c := c) d now state
  rw [reported]
  cases held : state.held d now with
  | none =>
    refine .pass Call.noConfusion ⟨rfl, rfl, rfl⟩ ?_
    rw [left]
    split
    · rename_i here
      rw [here, held]
    · rfl
  | some r =>
    have named : r.conversation = d := by
      rw [← get_prune] at held
      exact (get_some held).2
    by_cases here : c = d
    · subst here
      rw [if_pos rfl] at left
      refine .finish Call.noConfusion rfl rfl (decide_eq_true named) ?_ left
      rw [held]
      exact Option.some_ne_none r
    · have elsewhere : r.conversation ≠ c := named ▸ Ne.symm here
      rw [if_neg here] at left
      exact .pass Call.noConfusion ⟨rfl, decide_eq_false elsewhere, rfl⟩ left

theorem sweep_view : View c state ⟨now, host, .sweep⟩ (.swept (sweepExpired host now state).1)
      (sweepExpired host now state).2 := by
  unfold sweepExpired
  dsimp only
  obtain ⟨faulty, code, same⟩ | ⟨same, -⟩ := withState_cases host state fun s => s.prune now
  · rw [same]
    exact .idle (by simp [Step.effective, faulty]) ⟨rfl, rfl, rfl⟩
  rw [same]
  refine .sweep rfl ?_ (get_prune state c now)
  show (List.any (state.prune now).1 fun r => decide (r.conversation = c)) = true ↔ _
  rw [List.any_eq_true]
  constructor
  · rintro ⟨r, listed, named⟩
    obtain ⟨there, closed⟩ := mem_prune.mp listed
    exact ⟨r, get_eq_of_mem there (of_decide_eq_true named), closed⟩
  · rintro ⟨r, found, closed⟩
    obtain ⟨there, named⟩ := get_some found
    exact ⟨r, mem_prune.mpr ⟨there, closed⟩, decide_eq_true named⟩

end Calls

theorem perform_view (c : Text) (state : State) (s : Step) :
    ∃ reply next, (perform state s).1 = reply ∧ step state s = next ∧ View c state s reply next := by
  refine ⟨_, _, rfl, rfl, ?_⟩
  obtain ⟨now, host, call⟩ := s
  cases call with
  | begin req cfg => exact begin_view req cfg
  | extend d mins cfg => exact extend_view d mins cfg
  | finish d => exact finish_view d
  | sweep => exact sweep_view

/-- A call that is not carried out leaves the file. -/
theorem step_not_effective {state : State} {s : Step} (refused : s.effective = false) :
    step state s = state := by
  obtain ⟨now, host, call⟩ := s
  have unchanged : ∀ {α : Type} (body : State → α × State), host.runs = false →
      (withState host state body).2 = state := by
    intro α body faulty
    obtain ⟨-, code, same⟩ | ⟨same, kept⟩ := withState_cases host state body
    · rw [same]
    · rw [same]
      exact Table.ext (kept faulty)
  cases call with
  | begin req cfg =>
    show (beginTakeover host req cfg now state).2 = state
    unfold beginTakeover
    cases addressed : conversationTarget req.conversation with
    | none => rfl
    | some target =>
      refine unchanged _ ?_
      simpa [Step.effective, addressed] using refused
  | extend d mins cfg | finish d | sweep => exact unchanged _ (by simpa [Step.effective] using refused)

/-! ## Windows -/

/-- How often sweeps name the conversation, from inside a window of it until the window is
taken or the next one opens. -/
def announcements (c : Text) : State → List Step → Nat
  | _, [] => 0
  | state, s :: rest =>
    let reply := (perform state s).1
    if reply.takes c = true ∨ reply.sets c ≠ none then 0
    else (if reply.announces c then 1 else 0) + announcements c (step state s) rest

/-- Whether the window is moved or ended in time. -/
def taken (c : Text) : State → List Step → Bool
  | _, [] => false
  | state, s :: rest =>
    let reply := (perform state s).1
    if reply.takes c then true
    else if reply.sets c ≠ none then false
    else taken c (step state s) rest

section Windows

variable {c : Text} {state : State} {s : Step} {rest : List Step}

variable {closed : List TakeoverRecord} {r : TakeoverRecord} {now : Instant}

theorem announcements_quiet (quiet : (perform state s).1.Quiet c) :
    announcements c state (s :: rest) = announcements c (step state s) rest := by
  rw [announcements]
  simp [quiet.sets, quiet.takes, quiet.announces]

theorem taken_quiet (quiet : (perform state s).1.Quiet c) :
    taken c state (s :: rest) = taken c (step state s) rest := by
  rw [taken]
  simp [quiet.sets, quiet.takes]

theorem announcements_sweep (swept : (perform state s).1 = .swept closed) : announcements c state (s :: rest) =
      (if (Reply.swept closed).announces c then 1 else 0) + announcements c (step state s) rest := by
  rw [announcements, swept]
  rfl

theorem taken_sweep (swept : (perform state s).1 = .swept closed) :
    taken c state (s :: rest) = taken c (step state s) rest := by
  rw [taken, swept]
  rfl

theorem announcements_sets (sets : (perform state s).1.sets c ≠ none) :
    announcements c state (s :: rest) = 0 := by
  rw [announcements]
  exact if_pos (.inr sets)

theorem taken_takes (takes : (perform state s).1.takes c = true) : taken c state (s :: rest) = true := by
  rw [taken]
  exact if_pos takes

theorem taken_sets (sets : (perform state s).1.sets c ≠ none)
    (found : (perform state s).1.takes c = false) : taken c state (s :: rest) = false := by
  rw [taken]
  simp [sets, found]

/-- A conversation without a record has no window to announce or to take. -/
theorem gone (steps : List Step) (free : state.get c = none) :
    announcements c state steps = 0 ∧ taken c state steps = false := by
  induction steps generalizing state with
  | nil => exact ⟨rfl, rfl⟩
  | cons s rest ih =>
    have unheld : state.held c s.now = none := by rw [State.held, free]; rfl
    obtain ⟨reply, next, said, stepped, view⟩ := perform_view c state s
    cases view with
    | idle refused quiet =>
      rw [announcements_quiet (said ▸ quiet), taken_quiet (said ▸ quiet), stepped]
      exact ih free
    | sweep swept named kept =>
      rw [announcements_sweep said, taken_sweep said, stepped, if_neg, Nat.zero_add]
      · exact ih (kept.trans unheld)
      · rw [named, free]
        rintro ⟨r, found, -⟩
        cases found
    | pass other quiet kept =>
      rw [announcements_quiet (said ▸ quiet), taken_quiet (said ▸ quiet), stepped]
      exact ih (kept.trans unheld)
    | set other given filed ahead silent found =>
      have sets : (perform state s).1.sets c ≠ none := by
        rw [said, given]
        exact Option.some_ne_none _
      refine ⟨announcements_sets sets, taken_sets sets ?_⟩
      rw [said, Bool.eq_false_iff]
      exact fun takes => found.mp takes unheld
    | finish other none_ silent found held left => exact absurd unheld held

/-- The record of a closed window, as the next call sees it. -/
theorem held_closed (filed : state.get c = some r) (closed : r.until_ ≤ now) : state.held c now = none := by
  rw [State.held, filed, Option.filter_some, if_neg]
  simpa [TakeoverRecord.isActiveAt] using closed

theorem held_open (filed : state.get c = some r) (open_ : now < r.until_) : state.held c now = some r := by
  rw [State.held, filed, Option.filter_some, if_pos]
  simpa [TakeoverRecord.isActiveAt] using open_

/-- **A window is announced at most once**, and never when it was taken in time. -/
theorem announcements_le_one (steps : List Step)
    (filed : state.get c = some r) : announcements c state steps ≤ 1 ∧
      (taken c state steps = true → announcements c state steps = 0) := by
  induction steps generalizing state r with
  | nil => exact ⟨Nat.zero_le 1, fun _ => rfl⟩
  | cons s rest ih =>
    obtain ⟨reply, next, said, stepped, view⟩ := perform_view c state s
    have closing : (perform state s).1.takes c = true ∨ (perform state s).1.sets c ≠ none →
        announcements c state (s :: rest) ≤ 1 ∧
          (taken c state (s :: rest) = true → announcements c state (s :: rest) = 0) := by
      intro closes
      have zero : announcements c state (s :: rest) = 0 := by
        rw [announcements]
        exact if_pos closes
      exact ⟨by omega, fun _ => zero⟩
    cases view with
    | idle refused quiet =>
      rw [announcements_quiet (said ▸ quiet), taken_quiet (said ▸ quiet), stepped]
      exact ih filed
    | sweep swept named kept =>
      rw [announcements_sweep said, taken_sweep said, stepped]
      by_cases open_ : s.now < r.until_
      · rw [held_open filed open_] at kept
        rw [if_neg, Nat.zero_add]
        · exact ih kept
        · rw [named, filed]
          rintro ⟨other, same, expired⟩
          cases same
          rw [TakeoverRecord.isActiveAt, decide_eq_false_iff_not] at expired
          exact expired open_
      · rw [held_closed filed (Int.not_lt.mp open_)] at kept
        obtain ⟨none_, untaken⟩ := gone rest kept
        rw [none_, untaken]
        refine ⟨?_, fun taken => by cases taken⟩
        split <;> omega
    | pass other quiet kept =>
      rw [announcements_quiet (said ▸ quiet), taken_quiet (said ▸ quiet), stepped]
      by_cases open_ : s.now < r.until_
      · rw [held_open filed open_] at kept
        exact ih kept
      rw [held_closed filed (Int.not_lt.mp open_)] at kept
      obtain ⟨none_, untaken⟩ := gone rest kept
      rw [none_, untaken]
      exact ⟨Nat.zero_le 1, fun _ => rfl⟩
    | set other given filed' ahead silent found =>
      refine closing (.inr ?_)
      rw [said, given]
      exact Option.some_ne_none _
    | finish other none_ silent found held left => exact closing (.inl (said ▸ found))

end Windows

/-! ## Runs -/

def Step.Sweeps (s : Step) : Prop := s.call = .sweep ∧ s.effective = true

/-- Every window of a run: taken in time it is announced by no sweep; otherwise, once a
sweep runs at or after its deadline, by exactly one. -/
def AnnouncedOnce (state : State) (steps : List Step) : Prop :=
  ∀ front s rest, steps = front ++ s :: rest → ∀ c deadline,
    (perform (run step state front) s).1.sets c = some deadline →
      (taken c (run step state (front ++ [s])) rest = true →
        announcements c (run step state (front ++ [s])) rest = 0) ∧
      (taken c (run step state (front ++ [s])) rest = false →
        (∃ sw ∈ rest, sw.Sweeps ∧ deadline ≤ sw.now) →
        announcements c (run step state (front ++ [s])) rest = 1)

/-- No call but a sweep is carried out while a closed window is in the file, unless no
sweep comes after it. -/
def Spared (state : State) (steps : List Step) : Prop :=
  ∀ front s rest, steps = front ++ s :: rest → s.call ≠ .sweep → s.effective = true →
    (∃ sw ∈ rest, sw.Sweeps) → ∀ r ∈ (run step state front).rows, s.now < r.until_

variable {state : State} {steps : List Step} {r : TakeoverRecord}

theorem Spared.tail {s : Step} {rest : List Step}
    (spared : Spared state (s :: rest)) : Spared (step state s) rest := by
  intro front t back split
  exact spared (s :: front) t back (congrArg (List.cons s) split)

theorem Spared.drop {front back : List Step} (spared : Spared state (front ++ back)) :
    Spared (run step state front) back := by
  induction front generalizing state with
  | nil => exact spared
  | cons s rest ih => exact ih spared.tail

/-- A window that no other call drops is announced by the first sweep after its deadline. -/
theorem announced_of_spared {c : Text}
    (filed : state.get c = some r) (spared : Spared state steps) (untaken : taken c state steps = false)
    (sweeps : ∃ sw ∈ steps, sw.Sweeps ∧ r.until_ ≤ sw.now) : announcements c state steps = 1 := by
  induction steps generalizing state r with
  | nil =>
    obtain ⟨sw, listed, -⟩ := sweeps
    cases listed
  | cons s rest ih =>
    obtain ⟨sw, listed, swept, late⟩ := sweeps
    -- a call other than a sweep that is carried out finds no closed window
    have spares : s.call ≠ .sweep → s.effective = true → s.now < r.until_ := by
      intro other effective
      have behind : sw ∈ rest := by
        refine (List.mem_cons.mp listed).resolve_left fun here => ?_
        exact other (here ▸ swept.1)
      exact spared [] s rest rfl other effective ⟨sw, behind, swept⟩ r (get_some filed).1
    have later : s ≠ sw → ∃ sw ∈ rest, sw.Sweeps ∧ r.until_ ≤ sw.now := by
      intro differ
      exact ⟨sw, (List.mem_cons.mp listed).resolve_left (Ne.symm differ), swept, late⟩
    obtain ⟨reply, next, said, stepped, view⟩ := perform_view c state s
    have ahead := spared.tail
    rw [stepped] at ahead
    have kept_of_effective : s.call ≠ .sweep → next.get c = state.held c s.now → next.get c = some r := by
      intro other kept
      cases effective : s.effective with
      | true => rw [kept, held_open filed (spares other effective)]
      | false => rw [← stepped, step_not_effective effective, filed]
    cases view with
    | idle refused quiet =>
      rw [taken_quiet (said ▸ quiet), stepped] at untaken
      rw [announcements_quiet (said ▸ quiet), stepped]
      refine ih filed ahead untaken (later ?_)
      rintro rfl
      rw [swept.2] at refused
      cases refused
    | sweep called named kept =>
      rw [taken_sweep said, stepped] at untaken
      rw [announcements_sweep said, stepped]
      by_cases open_ : s.now < r.until_
      · rw [held_open filed open_] at kept
        rw [if_neg, Nat.zero_add]
        · refine ih kept ahead untaken (later ?_)
          rintro rfl
          exact Int.not_lt.mpr late open_
        · rw [named, filed]
          rintro ⟨other, same, expired⟩
          cases same
          rw [TakeoverRecord.isActiveAt, decide_eq_false_iff_not] at expired
          exact expired open_
      · rw [held_closed filed (Int.not_lt.mp open_)] at kept
        rw [if_pos, (gone rest kept).1]
        rw [named]
        exact ⟨r, filed, decide_eq_false open_⟩
    | pass other quiet kept =>
      rw [taken_quiet (said ▸ quiet), stepped] at untaken
      rw [announcements_quiet (said ▸ quiet), stepped]
      refine ih (kept_of_effective other kept) ahead untaken (later ?_)
      rintro rfl
      exact other swept.1
    | @set _ _ r' other given filed' _ silent found =>
      -- found held, the window would be taken; closed, the call would have dropped it
      exfalso
      have unheld : state.held c s.now = none := by
        by_contra held
        rw [taken_takes (said ▸ found.mpr held)] at untaken
        cases untaken
      cases effective : s.effective with
      | true =>
        rw [held_open filed (spares other effective)] at unheld
        cases unheld
      | false =>
        rw [← stepped, step_not_effective effective, filed] at filed'
        cases filed'
        rw [held_open filed (by assumption)] at unheld
        cases unheld
    | finish other none_ silent found held left =>
      rw [taken_takes (said ▸ found)] at untaken
      cases untaken

/-- A window of the run with this deadline that the next calls take or announce. -/
def Opened (steps : List Step) (c : Text) (deadline : Instant) : Prop :=
  ∃ front s middle, steps = front ++ s :: middle ∧
    (perform (run step .empty front) s).1.sets c = some deadline ∧
    ∀ rest, announcements c (run step .empty (front ++ [s])) (middle ++ rest) =
        announcements c (run step .empty steps) rest ∧
      taken c (run step .empty (front ++ [s])) (middle ++ rest) =
        taken c (run step .empty steps) rest

/-- Every record in the file got its deadline in a window of the run. -/
theorem opened_of_mem (listed : r ∈ (run step .empty steps).rows) : Opened steps r.conversation r.until_ := by
  induction steps using List.reverseRecOn generalizing r with
  | nil => cases listed
  | append_singleton steps s ih =>
    have last : run step .empty (steps ++ [s]) = step (run step .empty steps) s := run_append ..
    rw [last] at listed
    obtain ⟨reply, next, said, stepped, view⟩ :=
      perform_view r.conversation (run step .empty steps) s
    rw [stepped] at listed
    have filed : next.get r.conversation = some r := get_of_mem listed
    -- the window of the record before the call, when the call says nothing about it
    have earlier : r ∈ (run step .empty steps).rows →
        (∀ rest, announcements r.conversation (run step .empty steps) (s :: rest) =
            announcements r.conversation next rest ∧
          taken r.conversation (run step .empty steps) (s :: rest) =
            taken r.conversation next rest) → Opened (steps ++ [s]) r.conversation r.until_ := by
      intro before silent
      obtain ⟨front, t, middle, split, given, same⟩ := ih before
      refine ⟨front, t, middle ++ [s], ?_, given, fun rest => ?_⟩
      · rw [split, List.append_assoc, List.cons_append]
      · rw [List.append_assoc, List.singleton_append, last, stepped]
        exact ⟨(same (s :: rest)).1.trans (silent rest).1, (same (s :: rest)).2.trans (silent rest).2⟩
    have of_held : next.get r.conversation = (run step .empty steps).held r.conversation s.now →
        r ∈ (run step .empty steps).rows := by
      intro kept
      rw [filed] at kept
      exact (get_some (Option.filter_eq_some_iff.mp kept.symm).1).1
    cases view with
    | idle refused quiet =>
      refine earlier listed fun rest => ?_
      rw [announcements_quiet (said ▸ quiet), taken_quiet (said ▸ quiet), stepped]
      exact ⟨rfl, rfl⟩
    | sweep called named kept =>
      refine earlier (of_held kept) fun rest => ?_
      rw [announcements_sweep said, taken_sweep said, stepped, if_neg, Nat.zero_add]
      · exact ⟨rfl, rfl⟩
      · rw [named]
        rintro ⟨other, found, expired⟩
        rw [filed] at kept
        obtain ⟨same, active⟩ := Option.filter_eq_some_iff.mp kept.symm
        rw [found] at same
        cases same
        rw [expired] at active
        cases active
    | pass other quiet kept =>
      refine earlier (of_held kept) fun rest => ?_
      rw [announcements_quiet (said ▸ quiet), taken_quiet (said ▸ quiet), stepped]
      exact ⟨rfl, rfl⟩
    | set other given filed' ahead silent found =>
      rw [filed] at filed'
      cases filed'
      refine ⟨steps, s, [], rfl, ?_, fun rest => ⟨rfl, rfl⟩⟩
      rw [said, given]
    | finish other none_ silent found held left =>
      rw [filed] at left
      cases left

/-- **When every closed window is announced once**: over every run by a clock that does not
go back, exactly when no call but a sweep is carried out while a closed window is in the
file and a sweep is still to come. -/
theorem announced_once_iff {steps : List Step} (clock : steps.Pairwise fun a b => a.now ≤ b.now) :
    AnnouncedOnce .empty steps ↔ Spared .empty steps := by
  constructor
  · rintro once front s rest rfl other effective ⟨sw, behind, swept⟩ r listed
    by_contra closed
    have closed := Int.not_lt.mp closed
    obtain ⟨before, opener, middle, rfl, given, same⟩ := opened_of_mem listed
    have window := once before opener (middle ++ s :: rest) (by simp) r.conversation r.until_ given
    rw [(same (s :: rest)).1, (same (s :: rest)).2] at window
    have filed := get_of_mem listed
    have unheld := held_closed filed closed
    have reached : ∃ sw ∈ middle ++ s :: rest, sw.Sweeps ∧ r.until_ ≤ sw.now := by
      refine ⟨sw, by simp [behind], swept, Int.le_trans closed ?_⟩
      exact List.rel_of_pairwise_cons (List.pairwise_append.mp clock).2.1 behind
    -- the call drops the record without a word
    have lost : announcements r.conversation (run step .empty (before ++ opener :: middle))
          (s :: rest) = 0 ∧
        taken r.conversation (run step .empty (before ++ opener :: middle)) (s :: rest) = false := by
      obtain ⟨reply, next, said, stepped, view⟩ :=
        perform_view r.conversation (run step .empty (before ++ opener :: middle)) s
      cases view with
      | idle refused quiet =>
        rw [effective] at refused
        cases refused
      | sweep called named kept => exact absurd called other
      | pass _ quiet kept =>
        rw [announcements_quiet (said ▸ quiet), taken_quiet (said ▸ quiet), stepped]
        exact gone rest (kept.trans unheld)
      | set _ given' _ _ _ found =>
        have sets : (perform (run step .empty (before ++ opener :: middle)) s).1.sets
            r.conversation ≠ none := by
          rw [said, given']
          exact Option.some_ne_none _
        refine ⟨announcements_sets sets, taken_sets sets ?_⟩
        rw [said, Bool.eq_false_iff]
        exact fun takes => found.mp takes unheld
      | finish _ _ _ _ held _ => exact absurd unheld held
    have one := window.2 lost.2 reached
    rw [lost.1] at one
    cases one
  · rintro spared front s rest rfl c deadline given
    obtain ⟨reply, next, said, stepped, view⟩ := perform_view c (run step .empty front) s
    have last : run step .empty (front ++ [s]) = next := by rw [run_append]; exact stepped
    rw [said] at given
    have ahead : Spared next rest := by
      have tail := spared.drop.tail
      rwa [stepped] at tail
    rw [last]
    cases view with
    | idle refused quiet | pass other quiet kept =>
      rw [quiet.sets] at given
      cases given
    | sweep called named kept => cases given
    | set other given' filed _ _ _ =>
      rw [given'] at given
      cases given
      exact ⟨(announcements_le_one rest filed).2, announced_of_spared filed ahead⟩
    | finish other none_ _ _ _ _ =>
      rw [none_] at given
      cases given

/-! ## A window nobody hears the end of -/

def sampleRequest (conversation : String) : BeginRequest :=
  ⟨conversation.toList, "alice".toList, "555".toList, "王小明".toList⟩

/-- One conversation is taken over; three hours later another one is, and then the sweep
runs. -/
def forgotten : List Step :=
  [⟨0, ⟨none, none⟩, .begin (sampleRequest "telegram:1") ⟨60, 720⟩⟩,
    ⟨minutes 180, ⟨none, none⟩, .begin (sampleRequest "telegram:2") ⟨60, 720⟩⟩,
    ⟨minutes 180, ⟨none, none⟩, .sweep⟩]

theorem announced_once_forgotten : AnnouncedOnce .empty forgotten ↔ Spared .empty forgotten :=
  announced_once_iff (by decide)

/-- A `begin` on another conversation drops a closed window, and no sweep announces it. -/
theorem closed_window_dropped :
    ¬∀ steps : List Step, (steps.Pairwise fun a b => a.now ≤ b.now) → AnnouncedOnce .empty steps := by
  intro always
  have window := always forgotten (by decide) [] _ _ rfl "telegram:1".toList (minutes 60)
    (by decide)
  have one := window.2 (by decide)
    ⟨⟨minutes 180, ⟨none, none⟩, .sweep⟩, by decide, ⟨rfl, rfl⟩, by decide⟩
  have none_ : announcements "telegram:1".toList (run step .empty (forgotten.take 1))
      (forgotten.drop 1) = 0 := by decide
  exact absurd (none_.symm.trans one) (by decide)

end DuDuClaw.Takeover
