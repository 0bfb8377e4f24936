/-
# Approval.Turns -- the cards of a cancelled turn

Cancelling a turn leaves a tombstone, and a card lives as long as one of its origins has
none.  The tombstones are swept after a day, or after an hour when there are too many of
them, whatever the cards' time to live: an approved card of a cancelled turn is then
alive again.

* `Desk.KeepsTombstones`: a sweep spares the tombstones of pending and approved cards,
  and no request comes from a cancelled turn whose tombstone is gone.
* `cancelled_turn_stays_dead`: in runs of such calls, a card all of whose turns have been
  cancelled is neither approved nor used.
-/
import DuDuClaw.Approval.CardLife

namespace DuDuClaw.Approval

open DuDuClaw.Lib

/-- A card that still can be decided or used. -/
def ApprovalStatus.Open (status : ApprovalStatus) : Prop := status = .pending ∨ status = .approved

instance (status : ApprovalStatus) : Decidable status.Open :=
  inferInstanceAs (Decidable (status = .pending ∨ status = .approved))

theorem ApprovalStatus.Leads.open {before after : ApprovalStatus} (leads : before.Leads after)
    (opened : after.Open) : before.Open := by
  rcases leads with pending | same | gone
  · exact .inl pending
  · exact same ▸ opened
  · rw [gone] at opened
    rcases opened with h | h <;> cases h

/-! ## The tables of turns -/

section
variable {s s' : CardStore} {event : Event}

variable {turn : Turn} {row : Text × Turn}

theorem CardStore.addOrigin_mem {id : Text} :
    row ∈ (s.addOrigin id turn).origins ↔ row ∈ s.origins ∨ row = (id, turn) := by
  unfold addOrigin
  split
  · rename_i already
    refine ⟨.inl, ?_⟩
    rintro (listed | rfl)
    · exact listed
    · simpa using already
  · simp

theorem CardStore.addOrigin_cancelled (id : Text) (turn : Turn) :
    (s.addOrigin id turn).cancelled = s.cancelled := by
  unfold addOrigin
  split <;> rfl

theorem CardStore.fence_origins (turn : Turn) (now : Int) : (s.fence turn now).origins = s.origins := by
  unfold fence
  split <;> rfl

theorem CardStore.sweepTombstones_origins (now : Int) : (s.sweepTombstones now).origins = s.origins := by
  simp only [sweepTombstones]
  split <;> rfl

theorem CardStore.fence_kept {other : Turn} {now : Int} (known : s.isCancelled other = true) :
    (s.fence turn now).isCancelled other = true := by
  unfold fence
  split
  · exact known
  · simp only [isCancelled, List.any_append, Bool.or_eq_true]
    exact .inl known

theorem CardStore.fence_added (s : CardStore) (turn : Turn) (now : Int) :
    (s.fence turn now).isCancelled turn = true := by
  unfold fence
  split
  · assumption
  · simp [isCancelled]

theorem CardStore.Change.tombstones (change : s.Change event s') (noSweep : ∀ now, event ≠ .sweepTombstones now)
    (known : s.isCancelled turn = true) : s'.isCancelled turn = true := by
  cases change with
  | same event | moved event guard edit moves keeps | filed card named pending new | unscoped => exact known
  | raised card named pending new live | joined there live =>
    unfold isCancelled
    rw [addOrigin_cancelled]
    exact known
  | cancelled turn now guard edit moves keeps => exact fence_kept known
  | swept now => exact absurd rfl (noSweep now)

/-- An origin is an earlier one, or that of a request whose turn has no tombstone. -/
theorem CardStore.Change.origins (change : s.Change event s')
    (listed : row ∈ s'.origins) : row ∈ s.origins ∨ ((∃ rec ifAbsent credentialFree, rec.id = row.1 ∧
        event = .request rec ifAbsent (some row.2) credentialFree) ∧
        s.isCancelled row.2 = false ∧ ∃ card ∈ s'.cards, card.id = row.1) := by
  cases change with
  | same event | moved event guard edit moves keeps | filed card named pending new | unscoped => exact .inl listed
  | raised card named pending new live =>
    rcases addOrigin_mem.mp listed with before | rfl
    · exact .inl before
    · refine .inr ⟨⟨_, _, _, named.symm, rfl⟩, live, card, ?_, rfl⟩
      rw [addOrigin_cards]
      exact List.mem_append_right _ (List.mem_singleton_self card)
  | joined there live =>
    rcases addOrigin_mem.mp listed with before | rfl
    · exact .inl before
    · refine .inr ⟨⟨_, _, _, rfl, rfl⟩, live, ?_⟩
      rw [addOrigin_cards]
      exact there
  | cancelled turn now guard edit moves keeps =>
    exact .inl (by rwa [← fence_origins turn now])
  | swept now => exact .inl (by rwa [← sweepTombstones_origins now])

/-- A card's own columns change only when an unscoped request joins it. -/
theorem CardStore.Change.scoped (change : s.Change event s') {rec' : ApprovalRecord}
    (listed : rec' ∈ s'.cards) : (∃ rec ∈ s.cards, rec.id = rec'.id ∧ rec'.origin = rec.origin) ∨
    (∃ rec ifAbsent credentialFree, rec.id = rec'.id ∧ event = .request rec ifAbsent none credentialFree) ∨
    ∀ other ∈ s.cards, other.id ≠ rec'.id := by
  have updated : ∀ guard edit, (∀ rec ∈ s.cards, guard rec = true → s.Moves rec (edit rec)) →
      (∀ rec, (edit rec).origin = rec.origin) → rec' ∈ (s.update guard edit).cards →
      ∃ rec ∈ s.cards, rec.id = rec'.id ∧ rec'.origin = rec.origin := by
    intro guard edit moves keeps after
    obtain ⟨rec, before, rfl⟩ := List.mem_map.mp after
    refine ⟨rec, before, ?_⟩
    split
    · exact ⟨(moves rec before ‹_›).id.symm, keeps rec⟩
    · exact ⟨rfl, rfl⟩
  have appended : ∀ card : ApprovalRecord, (∀ other ∈ s.cards, other.id ≠ card.id) →
      rec' ∈ s.cards ++ [card] → (∃ rec ∈ s.cards, rec.id = rec'.id ∧ rec'.origin = rec.origin) ∨
        ∀ other ∈ s.cards, other.id ≠ rec'.id := by
    intro card new after
    rcases List.mem_append.mp after with before | this
    · exact .inl ⟨rec', before, rfl, rfl⟩
    · exact .inr (List.mem_singleton.mp this ▸ new)
  cases change with
  | same event => exact .inl ⟨rec', listed, rfl, rfl⟩
  | moved event guard edit moves keeps => exact .inl (updated guard edit moves keeps listed)
  | filed card named pending new => exact (appended card new listed).imp_right .inr
  | raised card named pending new live =>
    rw [addOrigin_cards] at listed
    exact (appended card new listed).imp_right .inr
  | joined there live =>
    rw [addOrigin_cards] at listed
    exact .inl ⟨rec', listed, rfl, rfl⟩
  | unscoped =>
    obtain ⟨rec, before, rfl⟩ := List.mem_map.mp listed
    split
    · rename_i met
      exact .inr (.inl ⟨_, _, _, (beq_iff_eq.mp met).symm, rfl⟩)
    · exact .inl ⟨rec, before, rfl, rfl⟩
  | cancelled turn now guard edit moves keeps =>
    refine .inl (updated guard edit moves keeps ?_)
    unfold update at listed ⊢
    rwa [fence_cards] at listed
  | swept now =>
    rw [sweepTombstones_cards] at listed
    exact .inl ⟨rec', listed, rfl, rfl⟩

end

variable {d : Desk} {event : Event} {rec : ApprovalRecord} {id : Text} {events : List Event}

theorem Desk.step_everCancelled (d : Desk) (event : Event) : (d.step event).everCancelled = d.everCancelled ∨
    ∃ turn now, event = .withdrawTurn turn now ∧ (d.step event).everCancelled = turn :: d.everCancelled ∧
      (d.step event).store.isCancelled turn = true := by
  have settled : ∀ {ε : Type} (result : Except ε CardStore),
      (d.settle result).everCancelled = d.everCancelled := by
    intro ε result
    cases result <;> rfl
  cases event with
  | withdrawTurn turn now =>
    simp only [step]
    split
    · rename_i store run
      unfold CardStore.withdrawTurn at run
      obtain ⟨-, -, run⟩ := bind_ok.mp run
      cases run
      exact .inr ⟨turn, now, rfl, rfl, d.store.fence_added turn now⟩
    · exact .inl rfl
  | consumeApproved id reason | verifyAndConsume rec grant mail reason now later =>
    simp only [step]
    split <;> exact .inl rfl
  | invalidateRequest id reason | sweepTombstones now => exact .inl rfl
  | _ => exact .inl (settled _)

/-! ## Tombstones that are kept -/

/-- A sweep spares the tombstone of every turn that is an origin of a pending or approved
card, and no request comes from a cancelled turn whose tombstone is gone. -/
def Desk.KeepsTombstones (d : Desk) : Event → Prop
  | .sweepTombstones now =>
    ∀ rec ∈ d.store.cards, rec.status.Open → ∀ row ∈ d.store.origins, row.1 = rec.id →
      d.store.isCancelled row.2 = true → (d.store.sweepTombstones now).isCancelled row.2 = true
  | .request _ _ (some turn) _ => turn ∈ d.everCancelled → d.store.isCancelled turn = true
  | _ => True

/-- The cancelled origins of the open cards have their tombstones. -/
structure Desk.Fenced (d : Desk) : Prop where
  known : ∀ row ∈ d.store.origins, ∃ rec ∈ d.store.cards, rec.id = row.1
  kept : ∀ rec ∈ d.store.cards, rec.status.Open → ∀ row ∈ d.store.origins, row.1 = rec.id →
    row.2 ∈ d.everCancelled → d.store.isCancelled row.2 = true

/-- The tombstone of an open card's origin outlives an allowed step. -/
theorem Desk.step_tombstone (allowed : d.KeepsTombstones event)
    (listed : rec ∈ d.store.cards) (opened : rec.status.Open)
    {row : Text × Turn} (origin : row ∈ d.store.origins) (own : row.1 = rec.id)
    (known : d.store.isCancelled row.2 = true) : (d.step event).store.isCancelled row.2 = true := by
  by_cases sweep : ∃ now, event = .sweepTombstones now
  · obtain ⟨now, rfl⟩ := sweep
    exact allowed rec listed opened row origin own known
  · exact (d.step_change event).tombstones (fun now same => sweep ⟨now, same⟩) known

theorem Desk.Fenced.step (fenced : d.Fenced) (allowed : d.KeepsTombstones event) : (d.step event).Fenced := by
  have change := d.step_change event
  refine ⟨fun row listed => ?_, fun rec' listed' opened row listed own ever => ?_⟩
  · rcases change.origins listed with before | ⟨-, -, there⟩
    · obtain ⟨rec, here, same⟩ := fenced.known row before
      obtain ⟨rec', after, moves⟩ := change.forth rec here
      exact ⟨rec', after, moves.id.trans same⟩
    · exact there
  · have earlier (before : row ∈ d.store.origins) (known : row.2 ∈ d.everCancelled) :
        (d.step event).store.isCancelled row.2 = true := by
      rcases change.back rec' listed' with ⟨rec, here, moves⟩ | ⟨-, new⟩
      · have openBefore := moves.status.open opened
        have ownBefore := own.trans moves.id
        exact step_tombstone allowed here openBefore before ownBefore
          (fenced.kept rec here openBefore row before ownBefore known)
      · obtain ⟨rec, here, named⟩ := fenced.known row before
        exact absurd (named.trans own) (new rec here)
    rcases d.step_everCancelled event with same | ⟨turn, now, rfl, more, tombstone⟩
    · rw [same] at ever
      rcases change.origins listed with before | ⟨⟨rec, ifAbsent, free, -, rfl⟩, live, -⟩
      · exact earlier before ever
      · -- a request of a cancelled turn found the tombstone
        rw [show d.store.isCancelled row.2 = true from allowed ever] at live
        cases live
    rw [more] at ever
    rcases change.origins listed with before | ⟨⟨rec, _, _, -, request⟩, -, -⟩
    · rcases List.mem_cons.mp ever with same | known
      · rw [same]
        exact tombstone
      · exact earlier before known
    · cases request

/-! ## Cards of cancelled turns -/

/-- A card raised by turns, all of which have been cancelled. -/
structure Desk.Dead (d : Desk) (id : Text) : Prop where
  there : ∃ rec ∈ d.store.cards, rec.id = id
  raised : ∀ rec ∈ d.store.cards, rec.id = id → rec.origin.isSome = true
  cancelled : ∀ row ∈ d.store.origins, row.1 = id → row.2 ∈ d.everCancelled

instance (d : Desk) (id : Text) : Decidable (d.Dead id) :=
  decidable_of_iff ((∃ rec ∈ d.store.cards, rec.id = id) ∧
      (∀ rec ∈ d.store.cards, rec.id = id → rec.origin.isSome = true) ∧
      ∀ row ∈ d.store.origins, row.1 = id → row.2 ∈ d.everCancelled)
    ⟨fun ⟨there, raised, cancelled⟩ => ⟨there, raised, cancelled⟩,
      fun dead => ⟨dead.there, dead.raised, dead.cancelled⟩⟩

/-- A request for the card by somebody other than the cancelled turns. -/
def Joins (cancelled : List Turn) (id : Text) : Event → Prop
  | .request rec _ (some turn) _ => rec.id = id ∧ turn ∉ cancelled
  | .request rec _ none _ => rec.id = id
  | _ => False

theorem Joins.mono {fewer more : List Turn}
    (sub : ∀ turn ∈ fewer, turn ∈ more) (joins : Joins more id event) : Joins fewer id event := by
  cases event with
  | request rec ifAbsent origin credentialFree =>
    cases origin with
    | none => exact joins
    | some turn => exact ⟨joins.1, fun ever => joins.2 (sub turn ever)⟩
  | _ => exact joins

theorem Desk.step_everCancelled_mem (d : Desk) (event : Event) {turn : Turn}
    (ever : turn ∈ d.everCancelled) : turn ∈ (d.step event).everCancelled := by
  rcases d.step_everCancelled event with same | ⟨other, now, -, more, -⟩
  · rwa [same]
  · rw [more]
    exact List.mem_cons_of_mem _ ever

theorem Desk.Dead.step (dead : d.Dead id)
    (alone : ¬Joins d.everCancelled id event) : (d.step event).Dead id := by
  have change := d.step_change event
  refine ⟨?_, fun rec' listed same => ?_, fun row listed own => ?_⟩
  · obtain ⟨rec, here, rfl⟩ := dead.there
    obtain ⟨rec', after, moves⟩ := change.forth rec here
    exact ⟨rec', after, moves.id⟩
  · rcases change.scoped listed with ⟨rec, here, sameId, origin⟩ | ⟨rec, _, _, named, rfl⟩ | new
    · rw [origin]
      exact dead.raised rec here (sameId.trans same)
    · exact absurd (named.trans same) alone
    · obtain ⟨rec, here, sameId⟩ := dead.there
      exact absurd (sameId.trans same.symm) (new rec here)
  · rcases change.origins listed with before | ⟨⟨rec, _, _, named, rfl⟩, -, -⟩
    · exact d.step_everCancelled_mem event (dead.cancelled row before own)
    · refine d.step_everCancelled_mem _ ?_
      by_contra unknown
      exact alone ⟨named.trans own, unknown⟩

/-- Once its turns have been cancelled, an open card has no live origin. -/
theorem Desk.Dead.not_live (dead : d.Dead id) (fenced : d.Fenced)
    (listed : rec ∈ d.store.cards) (same : rec.id = id)
    (opened : rec.status.Open) : d.store.liveOrigin rec = false := by
  obtain ⟨turn, own⟩ := Option.isSome_iff_exists.mp (dead.raised rec listed same)
  unfold CardStore.liveOrigin
  rw [own]
  refine List.any_eq_false.mpr fun row origin => ?_
  rw [Bool.and_eq_true, beq_iff_eq, Bool.not_eq_true', not_and, Bool.not_eq_false]
  intro named
  exact fenced.kept rec listed opened row origin named
    (dead.cancelled row origin (named.trans same))

theorem Desk.empty_fenced : Desk.Fenced {} where
  known := List.forall_mem_nil _
  kept := List.forall_mem_nil _

theorem run_fenced (allowed : Obeys Desk.step Desk.KeepsTombstones {} events) :
    (run Desk.step {} events).Fenced :=
  run_invariant Desk.Fenced (fun _ _ fenced allowed => fenced.step allowed) Desk.empty_fenced allowed

/-- Until somebody else joins it, a dead card stays dead. -/
theorem run_dead (dead : d.Dead id)
    (alone : ∀ event ∈ events, ¬Joins d.everCancelled id event) : (run Desk.step d events).Dead id := by
  induction events generalizing d with
  | nil => exact dead
  | cons event rest ih =>
    refine ih (dead.step (alone event List.mem_cons_self)) fun later listed joins => ?_
    exact alone later (List.mem_cons_of_mem _ listed)
      (joins.mono fun _ ever => d.step_everCancelled_mem event ever)

/-- **The cards of cancelled turns stay dead.**  In a run in which no sweep deletes the
tombstone of a pending or approved card's turn, and in which no request comes from a
cancelled turn whose tombstone is gone: once every turn that raised a card has been
cancelled, and until another caller joins the card, no call approves it and no
`verify_and_consume` succeeds on it. -/
theorem cancelled_turn_stays_dead (front back : List Event) (id : Text)
    (allowed : Obeys Desk.step Desk.KeepsTombstones {} (front ++ back))
    (dead : (run Desk.step {} front).Dead id)
    (alone : ∀ event ∈ back, ¬Joins (run Desk.step {} front).everCancelled id event) :
    let d := run Desk.step {} (front ++ back)
    (∀ event, ∀ rec ∈ d.store.cards, rec.id = id → rec.status ≠ .approved →
      ∀ rec' ∈ (d.step event).store.cards, rec'.id = id → rec'.status ≠ .approved) ∧
    ∀ rec grant mail reason now later store, rec.id = id →
      d.store.verifyAndConsume rec grant mail reason now later ≠ .ok store := by
  intro d
  have fenced : d.Fenced := run_fenced allowed
  have deadNow : d.Dead id := by
    show (run Desk.step {} (front ++ back)).Dead id
    rw [run_append]
    exact run_dead dead alone
  refine ⟨?_, ?_⟩
  · intro event rec listed same unapproved rec' listed' same' approved
    rcases (d.step_change event).back rec' listed' with ⟨before, here, moves⟩ | ⟨pending, -⟩
    · have sameBefore : before.id = id := moves.id.symm.trans same'
      obtain rfl := List.inj_on_of_nodup_map (desk_sound (front ++ back)).ids here listed
        (sameBefore.trans same.symm)
      rcases moves.approval approved with already | live
      · exact unapproved already
      · rw [deadNow.not_live fenced here sameBefore (moves.status.open (.inr approved))] at live
        cases live
    · rw [pending] at approved
      cases approved
  · intro rec grant mail reason now later store same verified
    obtain ⟨found, -⟩ := CardStore.verifyAndConsume_ok verified
    obtain ⟨row, listed, met⟩ := List.any_eq_true.mp found
    simp only [CardStore.verifiedGuard, Bool.and_eq_true, decide_eq_true_eq, beq_iff_eq] at met
    obtain ⟨⟨⟨⟨⟨⟨⟨⟨⟨named, approved⟩, -⟩, -⟩, -⟩, -⟩, -⟩, live⟩, -⟩, -⟩ := met
    rw [deadNow.not_live fenced listed (named.trans same) (.inr approved)] at live
    cases live

/-! A card that lives for two days, approved before its turn is cancelled; and a card that two
turns share, the first of which is cancelled a day before the second. -/

namespace TwoDays

def grant : ActionGrant := ⟨['b'], ['t'], ['d']⟩

def payload : Value :=
  .object [("action_grant".toList, .object [("agent_id".toList, .string ['b']),
    ("args_digest".toList, .string ['d']), ("tool".toList, .string ['t'])])]

def card : ApprovalRecord :=
  { id := ['i'], agentId := ['b'], payload := payload, requestKind := .approval, binding := none
    createdAt := some 0, ttlSeconds := 48 * 3600 }

def first : Turn := (['s'], ['1'])

def second : Turn := (['s'], ['2'])

def approve (now : Int) : Event := .decideUnbound card true ['h'] false now now now true

def day : Int := 24 * CardStore.hour

def approvedThenCancelled : List Event :=
  [.request card false (some first) true, approve 1, .withdrawTurn first 2]

def sweptDay : Desk :=
  run Desk.step {} (approvedThenCancelled ++ [.sweepTombstones (day + 3)])

def sharedThenCancelled : List Event :=
  [.request card true (some first) true, .request card true (some second) true,
    .withdrawTurn first 1, .sweepTombstones (day + 2), .withdrawTurn second (day + 3)]

/-- A day after the cancellation the tombstone is swept: the approval is usable again, and
the shared card is still pending and can be approved. -/
theorem cancelled_turn_revived : (run Desk.step {} approvedThenCancelled).Dead ['i'] ∧
    (sweptDay.store.find ['i']).any (fun rec =>
      (sweptDay.store.verifyAndConsume rec grant true [] (day + 4) (day + 4)).toBool) = true ∧
    (run Desk.step {} sharedThenCancelled).Dead ['i'] ∧
    (((run Desk.step {} sharedThenCancelled).step (approve (day + 4))).store.find ['i']).map
      ApprovalRecord.status = some .approved := by
  refine ⟨?_, ?_, ?_, ?_⟩ <;> decide

theorem cancelled_turn_stays_dead_for_a_day : (run Desk.step {} approvedThenCancelled).Dead ['i'] ∧
    ∀ rec grant mail reason now later store, rec.id = ['i'] →
      (run Desk.step {} (approvedThenCancelled ++ [.sweepTombstones day])).store.verifyAndConsume
        rec grant mail reason now later ≠ .ok store := by
  have dead : (run Desk.step {} approvedThenCancelled).Dead ['i'] := by decide
  have spared : Desk.KeepsTombstones (run Desk.step {} approvedThenCancelled)
      (.sweepTombstones day) := by
    show ∀ rec ∈ (run Desk.step {} approvedThenCancelled).store.cards, _
    decide
  refine ⟨dead, (cancelled_turn_stays_dead approvedThenCancelled [.sweepTombstones day] ['i']
    ⟨fun ever => absurd ever List.not_mem_nil, trivial, trivial, spared, trivial⟩ dead ?_).2⟩
  intro event listed joins
  rw [List.mem_singleton.mp listed] at joins
  exact joins

end TwoDays

end DuDuClaw.Approval
