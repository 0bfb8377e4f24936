/-
# Lib.SlidingWindow -- a rate limit over a sliding window

A breaker remembers the times it allowed.  It allows a call while fewer than `limit` of
these still count, and opens for `cooldown` when there are `limit`.

* `sparse_concat`: a time that finds fewer than `limit` counting keeps every interval of
  the window's length within the limit.
* `Breaker.sparse_allowed`: so it is over every run whose clock does not go back.
-/
import Mathlib.Data.List.Basic

namespace DuDuClaw.Lib

variable {window cooldown now : Int} {limit : Nat} {times : List Int}

/-- The times that still count at `now`. -/
def recent (window now : Int) (times : List Int) : List Int :=
  times.filter fun t => now - t < window

/-- Every half-open interval of the window's length holds at most `limit` of the times. -/
def Sparse (window : Int) (limit : Nat) (times : List Int) : Prop :=
  ∀ start : Int, (times.countP fun t => start ≤ t ∧ t < start + window) ≤ limit

theorem recent_append (front back : List Int) :
    recent window now (front ++ back) = recent window now front ++ recent window now back :=
  List.filter_append ..

/-- What counts later counted before. -/
theorem recent_recent {earlier : Int} (order : earlier ≤ now) :
    recent window now (recent window earlier times) = recent window now times := by
  rw [recent, recent, List.filter_filter]
  refine List.filter_congr fun t _ => ?_
  simp only [Bool.and_eq_decide, decide_eq_true_eq]
  exact decide_eq_decide.mpr ⟨fun both => both.1, fun counts => ⟨counts, by omega⟩⟩

theorem not_counting_iff {t : Int} : ¬now - t < window ↔ t + window ≤ now := by omega

theorem recent_eq_nil (old : ∀ t ∈ times, t + window ≤ now) : recent window now times = [] := by
  refine List.filter_eq_nil_iff.mpr fun t listed => ?_
  rw [decide_eq_true_eq]
  exact not_counting_iff.mpr (old t listed)

theorem sparse_nil : Sparse window limit [] := fun _ => Nat.zero_le _

theorem sparse_concat (sparse : Sparse window limit times)
    (below : (recent window now times).length < limit) (past : ∀ t ∈ times, t ≤ now) :
    Sparse window limit (times ++ [now]) := by
  intro start
  rw [List.countP_append, List.countP_singleton]
  split
  · rename_i inside
    simp only [decide_eq_true_eq] at inside
    -- what shares an interval with `now` still counts
    have fewer : (times.countP fun t => start ≤ t ∧ t < start + window) ≤ (recent window now times).length := by
      rw [recent, ← List.countP_eq_length_filter]
      refine List.countP_mono_left fun t listed => ?_
      have order := past t listed
      simp only [decide_eq_true_eq]
      omega
    omega
  · exact sparse start

/-! ## A breaker -/

structure Breaker where
  events : List Int
  openUntil : Option Int

inductive Verdict where
  | allowed
  /-- The breaker was open. -/
  | denied (reopens : Int)
  /-- The call opened it: so many calls were counting. -/
  | tripped (count : Nat)
  deriving DecidableEq

namespace Breaker

variable (window cooldown limit)

def fresh : Breaker := ⟨[], none⟩

/-- What counts at `now`; a breaker whose cooldown is over has forgotten everything. -/
def counting (b : Breaker) (now : Int) : List Int :=
  if b.openUntil.isSome then [] else recent window now b.events

def call (b : Breaker) (now : Int) : Breaker × Verdict :=
  match b.openUntil.filter fun reopens => now < reopens with
  | some reopens => (b, .denied reopens)
  | none =>
    let counted := b.counting window now
    if limit ≤ counted.length then (⟨counted, some (now + cooldown)⟩, .tripped counted.length)
    else (⟨counted ++ [now], none⟩, .allowed)

def replay : Breaker → List Int → List (Int × Verdict)
  | _, [] => []
  | b, now :: rest =>
    (now, (b.call window cooldown limit now).2) ::
      replay (b.call window cooldown limit now).1 rest

def allowedTimes (log : List (Int × Verdict)) : List Int :=
  (log.filter fun entry => entry.2 = .allowed).map Prod.fst

/-- The breaker remembers what it allowed, as far as it still counts. -/
structure Tracks (b : Breaker) (now : Int) (allowed : List Int) : Prop where
  past : ∀ t ∈ allowed, t ≤ now
  counted : ∀ later, now ≤ later → (b.openUntil.filter fun reopens => later < reopens) = none →
    recent window later allowed = b.counting window later

variable {window cooldown limit} {b : Breaker} {allowed : List Int}

theorem call_open {reopens : Int} (opened : (b.openUntil.filter fun reopens => now < reopens) = some reopens) :
    b.call window cooldown limit now = (b, .denied reopens) := by
  rw [call, opened]

theorem call_full (closed : (b.openUntil.filter fun reopens => now < reopens) = none)
    (full : limit ≤ (b.counting window now).length) : b.call window cooldown limit now =
      (⟨b.counting window now, some (now + cooldown)⟩, .tripped (b.counting window now).length) := by
  rw [call, closed]
  exact if_pos full

theorem call_room (closed : (b.openUntil.filter fun reopens => now < reopens) = none)
    (room : (b.counting window now).length < limit) :
    b.call window cooldown limit now = (⟨b.counting window now ++ [now], none⟩, .allowed) := by
  rw [call, closed]
  exact if_neg (Nat.not_le.mpr room)

theorem tripped_iff : (∃ count, (b.call window cooldown limit now).2 = .tripped count) ↔
    (b.openUntil.filter fun reopens => now < reopens) = none ∧ limit ≤ (b.counting window now).length := by
  cases opened : b.openUntil.filter fun reopens => now < reopens with
  | some reopens =>
    rw [call_open opened]
    simp
  | none =>
    by_cases full : limit ≤ (b.counting window now).length
    · rw [call_full opened full]
      exact iff_of_true ⟨_, rfl⟩ ⟨rfl, full⟩
    · rw [call_room opened (Nat.not_le.mp full)]
      exact iff_of_false (fun ⟨count, tripped⟩ => by cases tripped) fun both => full both.2

theorem counting_subset : b.counting window now ⊆ b.events := by
  unfold counting
  split
  · exact List.nil_subset _
  · exact List.filter_subset_self _

theorem length_counting_le : (b.counting window now).length ≤ b.events.length := by
  unfold counting
  split
  · exact Nat.zero_le _
  · exact List.length_filter_le ..

/-- What a call leaves: events it found or its own time, no more of them than it found or
the limit, and an end of the cooldown that it found or set. -/
theorem call_leaves : (∀ t ∈ (b.call window cooldown limit now).1.events, t ∈ b.events ∨ t = now) ∧
      (b.call window cooldown limit now).1.events.length ≤ max b.events.length limit ∧
      ∀ reopens ∈ (b.call window cooldown limit now).1.openUntil, reopens ∈ b.openUntil ∨
        reopens = now + cooldown ∧ ∃ count, (b.call window cooldown limit now).2 = .tripped count := by
  cases opened : b.openUntil.filter fun reopens => now < reopens with
  | some reopens =>
    rw [call_open opened]
    exact ⟨fun t listed => .inl listed, Nat.le_max_left .., fun reopens set => .inl set⟩
  | none =>
    by_cases full : limit ≤ (b.counting window now).length
    · rw [call_full opened full]
      refine ⟨fun t listed => .inl (counting_subset listed),
        Nat.le_trans length_counting_le (Nat.le_max_left ..), fun reopens set => .inr ⟨?_, _, rfl⟩⟩
      exact (Option.some.inj set).symm
    rw [call_room opened (Nat.not_le.mp full)]
    refine ⟨fun t listed => ?_, ?_, fun reopens set => absurd set (Option.not_mem_none _)⟩
    · rcases List.mem_append.mp listed with before | this
      · exact .inl (counting_subset before)
      · exact .inr (List.mem_singleton.mp this)
    · rw [List.length_append, List.length_singleton]
      omega

theorem tracks_fresh : Tracks window fresh now [] where
  past _ listed := absurd listed List.not_mem_nil
  counted _ _ _ := rfl

theorem Tracks.later {earlier : Int} (tracks : Tracks window b earlier allowed)
    (order : earlier ≤ now) : Tracks window b now allowed where
  past t listed := Int.le_trans (tracks.past t listed) order
  counted later after := tracks.counted later (Int.le_trans order after)

theorem call_tracks (tracks : Tracks window b now allowed) (sparse : Sparse window limit allowed)
    (longer : window ≤ cooldown) : Tracks window (b.call window cooldown limit now).1 now
        (allowed ++ if (b.call window cooldown limit now).2 = .allowed then [now] else []) ∧
      Sparse window limit
        (allowed ++ if (b.call window cooldown limit now).2 = .allowed then [now] else []) := by
  cases closed : b.openUntil.filter fun reopens => now < reopens with
  | some reopens =>
    rw [call_open closed, if_neg (by simp), List.append_nil]
    exact ⟨tracks, sparse⟩
  | none =>
    have counted := tracks.counted now (Int.le_refl now) closed
    by_cases full : limit ≤ (b.counting window now).length
    · rw [call_full closed full, if_neg (by simp), List.append_nil]
      refine ⟨⟨tracks.past, fun later order reopened => ?_⟩, sparse⟩
      -- when the cooldown is over, so is the window of everything allowed before it
      simp only [Option.filter_some, decide_eq_true_eq, ite_eq_right_iff, reduceCtorEq, imp_false,
        Int.not_lt] at reopened
      refine recent_eq_nil fun t listed => ?_
      have before := tracks.past t listed
      omega
    · have room := Nat.lt_of_not_le full
      rw [call_room closed room, if_pos rfl]
      have below : (recent window now allowed).length < limit := by rwa [counted]
      refine ⟨⟨?_, fun later order _ => ?_⟩, sparse_concat sparse below tracks.past⟩
      · intro t listed
        rcases List.mem_append.mp listed with before | this
        · exact tracks.past t before
        · exact Int.le_of_eq (List.mem_singleton.mp this)
      · rw [recent_append, ← recent_recent order, counted]
        exact (recent_append ..).symm

theorem allowedTimes_cons (entry : Int × Verdict) (log : List (Int × Verdict)) : allowedTimes (entry :: log) =
      (if entry.2 = .allowed then [entry.1] else []) ++ allowedTimes log := by
  unfold allowedTimes
  rw [List.filter_cons]
  by_cases yes : entry.2 = .allowed <;> simp [yes]

theorem sparse_replay {calls : List Int} (clock : (now :: calls).Pairwise (· ≤ ·))
    (longer : window ≤ cooldown) (tracks : Tracks window b now allowed) (sparse : Sparse window limit allowed) :
    Sparse window limit (allowed ++ allowedTimes (b.replay window cooldown limit calls)) := by
  induction calls generalizing b now allowed with
  | nil => simpa [replay, allowedTimes] using sparse
  | cons next rest ih =>
    have order : now ≤ next := List.rel_of_pairwise_cons clock (List.mem_cons_self ..)
    obtain ⟨kept, thin⟩ := call_tracks (tracks.later order) sparse longer
    rw [replay, allowedTimes_cons, ← List.append_assoc]
    exact ih clock.tail kept thin

/-- **At most `limit` calls are allowed in every interval of the window's length**, where
the cooldown is no shorter than the window. -/
theorem sparse_allowed {calls : List Int} (clock : calls.Pairwise (· ≤ ·)) (longer : window ≤ cooldown) :
    Sparse window limit (allowedTimes (fresh.replay window cooldown limit calls)) := by
  cases calls with
  | nil => exact sparse_nil
  | cons first rest =>
    have ordered : (first :: first :: rest).Pairwise (· ≤ ·) := by
      refine List.pairwise_cons.mpr ⟨fun t listed => ?_, clock⟩
      rcases List.mem_cons.mp listed with rfl | later
      · exact Int.le_refl t
      · exact List.rel_of_pairwise_cons clock later
    exact sparse_replay ordered longer tracks_fresh sparse_nil

end Breaker

end DuDuClaw.Lib
