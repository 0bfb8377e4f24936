/-
# Approval.CardLife -- the life of an approval card

A card is filed as pending.  Every call that changes its status goes through a guard of
its own; read together they leave a card only these ways: from pending anywhere, and from
anywhere to invalidated.

* `CardStore.Change`: what one call can do to the three tables.
* `Desk.step_change`: every call does one of these things.
* `card_state_machine`: over all interleavings of the calls, a decided card keeps its
  decision until it is invalidated, it is used at most once, and it was decided in time.
-/
import DuDuClaw.Lib.Table
import DuDuClaw.Approval.Cards

namespace DuDuClaw.Approval

open DuDuClaw.Lib

/-! ## One step -/

/-- The ways a card's status can go. -/
def ApprovalStatus.Leads (before after : ApprovalStatus) : Prop :=
  before = .pending ∨ after = before ∨ after = .invalidated

variable {s : CardStore} {id : Text} {before after : ApprovalRecord}

theorem ApprovalStatus.Leads.trans {a b c : ApprovalStatus} (first : a.Leads b) (second : b.Leads c) :
    a.Leads c := by
  rcases first with pending | rfl | rfl
  · exact .inl pending
  · exact second
  rcases second with h | rfl | rfl
  · cases h
  · exact .inr (.inr rfl)
  · exact .inr (.inr rfl)

/-- What an update does to a card: the guard saw it before, the store it was in is `s`. -/
structure CardStore.Moves (s : CardStore) (before after : ApprovalRecord) : Prop where
  id : after.id = before.id
  expiresAt : after.expiresAt = before.expiresAt
  status : before.status.Leads after.status
  inTime : after.status = .approved ∨ after.status = .answered →
    (after.status = before.status ∧ after.decidedAt = before.decidedAt) ∨
      after.decidedAt.any before.isBeforeDeadline = true
  approval : after.status = .approved → before.status = .approved ∨ s.liveOrigin before = true

/-- What a call can do to the tables. -/
inductive CardStore.Change (s : CardStore) : Event → CardStore → Prop
  | same (event : Event) : Change s event s
  | moved (event : Event) (guard : ApprovalRecord → Bool) (edit : ApprovalRecord → ApprovalRecord)
      (moves : ∀ rec ∈ s.cards, guard rec = true → s.Moves rec (edit rec))
      (keeps : ∀ rec, (edit rec).origin = rec.origin) : Change s event (s.update guard edit)
  | filed (card : ApprovalRecord) {rec : ApprovalRecord} {ifAbsent credentialFree : Bool}
      (named : card.id = rec.id) (pending : card.status = .pending)
      (new : ∀ other ∈ s.cards, other.id ≠ card.id) :
      Change s (.request rec ifAbsent none credentialFree) { s with cards := s.cards ++ [card] }
  | raised (card : ApprovalRecord) {turn : Turn} {rec : ApprovalRecord}
      {ifAbsent credentialFree : Bool} (named : card.id = rec.id) (pending : card.status = .pending)
      (new : ∀ other ∈ s.cards, other.id ≠ card.id) (live : s.isCancelled turn = false) :
      Change s (.request rec ifAbsent (some turn) credentialFree)
        (CardStore.addOrigin { s with cards := s.cards ++ [card] } card.id turn)
  | joined {turn : Turn} {rec : ApprovalRecord} {ifAbsent credentialFree : Bool}
      (there : ∃ card ∈ s.cards, card.id = rec.id) (live : s.isCancelled turn = false) :
      Change s (.request rec ifAbsent (some turn) credentialFree) (s.addOrigin rec.id turn)
  | unscoped {rec : ApprovalRecord} {ifAbsent credentialFree : Bool} :
      Change s (.request rec ifAbsent none credentialFree)
        (s.update (·.id == rec.id) fun card => { card with origin := none })
  | cancelled (turn : Turn) (now : Int) (guard : ApprovalRecord → Bool)
      (edit : ApprovalRecord → ApprovalRecord)
      (moves : ∀ rec ∈ s.cards, guard rec = true → s.Moves rec (edit rec))
      (keeps : ∀ rec, (edit rec).origin = rec.origin) :
      Change s (.withdrawTurn turn now) ((s.fence turn now).update guard edit)
  | swept (now : Int) : Change s (.sweepTombstones now) (s.sweepTombstones now)

theorem CardStore.addOrigin_cards (s : CardStore) (id : Text) (turn : Turn) :
    (s.addOrigin id turn).cards = s.cards := by
  unfold addOrigin
  split <;> rfl

theorem CardStore.find_some {rec : ApprovalRecord}
    (found : s.find id = some rec) : rec ∈ s.cards ∧ rec.id = id :=
  ⟨List.mem_of_find?_eq_some found, by simpa using List.find?_some found⟩

theorem CardStore.find_none (absent : s.find id = none) : ∀ rec ∈ s.cards, rec.id ≠ id := by
  intro rec listed same
  have := List.find?_eq_none.mp absent rec listed
  simp [same] at this

/-- An update that ends a card: whatever it was, it is now invalidated or as decided before. -/
theorem CardStore.Moves.ended (id : after.id = before.id) (expiresAt : after.expiresAt = before.expiresAt)
    (decidedAt : after.decidedAt = before.decidedAt)
    (status : after.status = before.status ∨ after.status = .invalidated) : s.Moves before after where
  id := id
  expiresAt := expiresAt
  status := .inr status
  inTime := by
    intro decided
    rcases status with same | gone
    · exact .inl ⟨same, decidedAt⟩
    · rw [gone] at decided
      rcases decided with h | h <;> cases h
  approval := by
    intro approved
    rcases status with same | gone
    · exact .inl (same ▸ approved)
    · rw [gone] at approved
      cases approved

theorem CardStore.Moves.decided {decidedAt : Int}
    (pending : before.status = .pending) (id : after.id = before.id)
    (expiresAt : after.expiresAt = before.expiresAt) (stamped : after.decidedAt = some decidedAt)
    (inTime : after.status = .approved ∨ after.status = .answered → before.isBeforeDeadline decidedAt = true)
    (live : after.status = .approved → s.liveOrigin before = true) : s.Moves before after where
  id := id
  expiresAt := expiresAt
  status := .inl pending
  inTime := by
    intro decided
    rw [stamped]
    exact .inr (inTime decided)
  approval := fun approved => .inr (live approved)

section
variable {s s' : CardStore}

variable {rec : ApprovalRecord} {credentialFree digest changed : Bool} {decidedBy : Text} {decidedAt now : Int}

variable {card : ApprovalRecord} {ifAbsent admitted task : Bool} {id : Text} {status : ApprovalStatus}

theorem CardStore.joinCard_change {existing : ApprovalRecord} (origin : Option Turn) (named : card.id = rec.id)
    (found : s.find card.id = some existing) :
    s.Change (.request rec ifAbsent origin credentialFree) (s.joinCard existing card origin) := by
  unfold joinCard
  rw [named]
  split
  · split
    · split
      · exact .same _
      · rename_i live
        rw [named] at found
        exact .joined ⟨existing, find_some found⟩ (by simpa using live)
    · exact .unscoped
  · exact .same _

theorem CardStore.insertRow_change
    {inserted : Bool} {origin : Option Turn} (named : card.id = rec.id) (pending : card.status = .pending)
    (run : s.insertRow card ifAbsent origin credentialFree = .ok (inserted, s')) :
    s.Change (.request rec ifAbsent origin credentialFree) s' := by
  unfold insertRow at run
  obtain ⟨_, _, run⟩ := bind_ok.mp run
  obtain ⟨_, _, run⟩ := bind_ok.mp run
  cases found : s.find card.id with
  | some existing =>
    rw [found] at run
    cases ifAbsent with
    | true =>
      cases run
      exact joinCard_change origin named found
    | false =>
      obtain ⟨_, _, run⟩ := bind_ok.mp run
      cases run
  | none =>
    rw [found] at run
    obtain ⟨_, live, run⟩ := bind_ok.mp run
    cases run
    unfold fileCard
    cases origin with
    | none => exact .filed _ named pending (find_none found)
    | some turn =>
      rw [refuseIf_ok] at live
      exact .raised _ named pending (find_none found) (by simpa using live)

theorem CardStore.decideIfPending_change (event : Event)
    (run : s.decideIfPending id status decidedBy decidedAt now digest = .ok (changed, s')) :
    s.Change event s' := by
  unfold decideIfPending at run
  obtain ⟨undecided, -, run⟩ := bind_ok.mp run
  split at run
  · cases run
    refine .moved _ _ _ (fun rec _ met => ?_) fun _ => rfl
    simp only [decisionGuard, Bool.and_eq_true, decide_eq_true_eq] at met
    obtain ⟨⟨⟨-, pending⟩, live⟩, inTime⟩ := met
    refine .decided pending rfl rfl rfl (fun decided => ?_) fun _ => live
    replace decided : status = .approved ∨ status = .answered := decided
    rcases decided with rfl | rfl
    · exact inTime
    · exact inTime
  · cases run
    exact .same _

theorem CardStore.expire_change (event : Event)
    (run : s.expire rec decidedAt now = .ok (changed, s')) : s.Change event s' := by
  unfold expire at run
  split at run
  · exact decideIfPending_change event run
  · cases run
    exact .same _

theorem CardStore.decideUnbound_change (event : Event) {approve egressAdmin : Bool}
    {readAt : Int} (run : s.decideUnbound rec approve decidedBy egressAdmin readAt decidedAt now digest =
      .ok (changed, s')) : s.Change event s' := by
  unfold decideUnbound at run
  obtain ⟨-, -, run⟩ := bind_ok.mp run
  obtain ⟨-, -, run⟩ := bind_ok.mp run
  split at run
  · obtain ⟨expired, decided, run⟩ := bind_ok.mp run
    cases run
    exact decideIfPending_change event decided
  obtain ⟨-, -, run⟩ := bind_ok.mp run
  obtain ⟨decided, deciding, run⟩ := bind_ok.mp run
  obtain ⟨-, -, run⟩ := bind_ok.mp run
  cases run
  exact decideIfPending_change event deciding

theorem CardStore.resolveBound_change (event : Event) {kind : RequestKind}
    {answer : Option Value}
    (run : s.resolveBound rec kind status answer decidedBy admitted task digest decidedAt now =
      .ok s') : s.Change event s' := by
  unfold resolveBound at run
  obtain ⟨binding, -, run⟩ := bind_ok.mp run
  obtain ⟨-, -, run⟩ := bind_ok.mp run
  obtain ⟨-, -, run⟩ := bind_ok.mp run
  obtain ⟨-, -, run⟩ := bind_ok.mp run
  obtain ⟨current, -, run⟩ := bind_ok.mp run
  obtain ⟨-, -, run⟩ := bind_ok.mp run
  obtain ⟨-, -, run⟩ := bind_ok.mp run
  obtain ⟨-, -, run⟩ := bind_ok.mp run
  cases run
  refine .moved _ _ _ (fun row _ met => ?_) fun _ => rfl
  simp only [resolveGuard, Bool.and_eq_true, decide_eq_true_eq] at met
  obtain ⟨⟨⟨⟨⟨⟨-, pending⟩, -⟩, -⟩, live⟩, -⟩, inTime⟩ := met
  exact .decided pending rfl rfl rfl (fun _ => inTime) fun _ => live

theorem CardStore.answerQuestion_change (event : Event) {answer : Value}
    (run : s.answerQuestion rec answer decidedBy admitted task digest decidedAt now = .ok s') :
    s.Change event s' := by
  unfold answerQuestion at run
  obtain ⟨text, -, run⟩ := bind_ok.mp run
  obtain ⟨-, -, run⟩ := bind_ok.mp run
  obtain ⟨-, -, run⟩ := bind_ok.mp run
  exact resolveBound_change event run

theorem CardStore.replaceText_change (event : Event) {payload : Value}
    (run : s.replaceText id payload credentialFree = .ok s') : s.Change event s' := by
  unfold replaceText at run
  obtain ⟨-, -, run⟩ := bind_ok.mp run
  cases run
  refine .moved _ _ _ (fun rec _ _ => ?_) fun rec => ?_
  · split
    · exact .ended rfl rfl rfl (.inr rfl)
    · exact .ended rfl rfl rfl (.inl rfl)
  · split <;> rfl

/-- A call that verified an approval found the card approved and alive, and used it up. -/
theorem CardStore.verifyAndConsume_ok {grant : ActionGrant} {mail : Bool}
    {reason : Text} {later : Int} (run : s.verifyAndConsume rec grant mail reason now later = .ok s') :
    s.cards.any (s.verifiedGuard rec later) = true ∧ s' = s.update (s.verifiedGuard rec later) fun row =>
        { row with status := .invalidated, invalidatedReason := some reason } := by
  unfold verifyAndConsume at run
  obtain ⟨-, -, run⟩ := bind_ok.mp run
  obtain ⟨-, -, run⟩ := bind_ok.mp run
  obtain ⟨stored, -, run⟩ := bind_ok.mp run
  obtain ⟨-, -, run⟩ := bind_ok.mp run
  obtain ⟨-, -, run⟩ := bind_ok.mp run
  obtain ⟨-, -, run⟩ := bind_ok.mp run
  obtain ⟨_, used, run⟩ := bind_ok.mp run
  cases run
  rw [refuseIf_ok, Bool.not_eq_false] at used
  exact ⟨used, rfl⟩

theorem CardStore.withdrawTurn_change {turn : Turn}
    (run : s.withdrawTurn turn now = .ok s') : s.Change (.withdrawTurn turn now) s' := by
  unfold withdrawTurn at run
  obtain ⟨-, -, run⟩ := bind_ok.mp run
  cases run
  refine .cancelled turn now _ _ (fun rec _ met => ?_) fun _ => rfl
  simp only [withdrawnGuard, Bool.and_eq_true, decide_eq_true_eq] at met
  refine .decided met.1.1.1 rfl rfl rfl (fun decided => ?_) nofun
  rcases decided with h | h <;> cases h

end

theorem Desk.settle_change {ε : Type} {d : Desk} {event : Event} {result : Except ε CardStore}
    (returned : ∀ s', result = .ok s' → d.store.Change event s') :
    d.store.Change event (d.settle result).store := by
  cases result with
  | ok s' => exact returned s' rfl
  | error _ => exact .same _

theorem map_snd_ok {ε α β : Type} {result : Except ε (α × β)} {b : β}
    (run : result.map Prod.snd = .ok b) : ∃ a, result = .ok (a, b) := by
  cases result with
  | ok pair => exact ⟨pair.1, by cases run; rfl⟩
  | error _ => cases run

theorem Desk.step_change (d : Desk) (event : Event) : d.store.Change event (d.step event).store := by
  cases event with
  | request rec ifAbsent origin credentialFree =>
    refine settle_change fun s' run => ?_
    obtain ⟨_, run⟩ := map_snd_ok run
    unfold CardStore.request at run
    refine CardStore.insertRow_change ?_ ?_ run
    · rfl
    · rfl
  | expire rec decidedAt now =>
    refine settle_change fun s' run => ?_
    obtain ⟨_, run⟩ := map_snd_ok run
    exact CardStore.expire_change _ run
  | decideUnbound rec approve decidedBy egressAdmin readAt decidedAt now digest =>
    refine settle_change fun s' run => ?_
    obtain ⟨_, run⟩ := map_snd_ok run
    exact CardStore.decideUnbound_change _ run
  | decideBound rec approve decidedBy admitted task digest decidedAt now =>
    exact settle_change fun s' run => CardStore.resolveBound_change _ run
  | answerQuestion rec answer decidedBy admitted task digest decidedAt now =>
    exact settle_change fun s' run => CardStore.answerQuestion_change _ run
  | withdraw id decidedBy decidedAt now digest =>
    refine settle_change fun s' run => ?_
    obtain ⟨_, run⟩ := map_snd_ok run
    exact CardStore.decideIfPending_change _ run
  | withdrawTurn turn now =>
    simp only [step]
    split
    · rename_i run
      exact CardStore.withdrawTurn_change run
    · exact .same _
  | invalidateRequest id reason =>
    exact .moved _ _ _ (fun _ _ _ => .ended rfl rfl rfl (.inr rfl)) fun _ => rfl
  | replaceText id payload credentialFree =>
    exact settle_change fun s' run => CardStore.replaceText_change _ run
  | consumeApproved id reason =>
    have change : d.store.Change (.consumeApproved id reason) (d.store.consumeApproved id reason).2 :=
      .moved _ _ _ (fun _ _ _ => .ended rfl rfl rfl (.inr rfl)) fun _ => rfl
    simp only [step]
    split
    · rename_i run
      rwa [run] at change
    · rename_i run
      rwa [run] at change
  | verifyAndConsume rec grant mail reason now later =>
    simp only [step]
    split
    · rename_i run
      obtain ⟨-, rfl⟩ := CardStore.verifyAndConsume_ok run
      exact .moved _ _ _ (fun _ _ _ => .ended rfl rfl rfl (.inr rfl)) fun _ => rfl
    · exact .same _
  | sweepTombstones now => exact .swept now

/-! ## Cards before and after -/

section
variable {s s' : CardStore} {event : Event}

theorem CardStore.Moves.refl (s : CardStore) (rec : ApprovalRecord) : s.Moves rec rec :=
  .ended rfl rfl rfl (.inl rfl)

theorem CardStore.sweepTombstones_cards (s : CardStore) (now : Int) :
    (s.sweepTombstones now).cards = s.cards := by
  simp only [sweepTombstones]
  split <;> rfl

theorem CardStore.fence_cards (s : CardStore) (turn : Turn) (now : Int) :
    (s.fence turn now).cards = s.cards := by
  unfold fence
  split <;> rfl

/-- Of the cards alone: some move, or one is filed. -/
theorem CardStore.Change.cards (change : s.Change event s') :
    (∃ guard edit, (∀ rec ∈ s.cards, guard rec = true → s.Moves rec (edit rec)) ∧
      s'.cards = (s.update guard edit).cards) ∨
    ∃ rec, rec.status = .pending ∧ (∀ other ∈ s.cards, other.id ≠ rec.id) ∧ s'.cards = s.cards ++ [rec] := by
  have unchanged (cards : s'.cards = s.cards) :
      ∃ guard edit, (∀ rec ∈ s.cards, guard rec = true → s.Moves rec (edit rec)) ∧
        s'.cards = (s.update guard edit).cards := by
    refine ⟨fun _ => false, id, fun _ _ met => absurd met Bool.false_ne_true, ?_⟩
    simp [update, cards]
  cases change with
  | same event => exact .inl (unchanged rfl)
  | moved event guard edit moves keeps => exact .inl ⟨guard, edit, moves, rfl⟩
  | filed card named pending new => exact .inr ⟨card, pending, new, rfl⟩
  | raised card named pending new live => exact .inr ⟨card, pending, new, addOrigin_cards _ _ _⟩
  | joined there live => exact .inl (unchanged (s.addOrigin_cards _ _))
  | unscoped =>
    refine .inl ⟨_, _, ?_, rfl⟩
    exact fun _ _ _ => .ended rfl rfl rfl (.inl rfl)
  | cancelled turn now guard edit moves keeps =>
    refine .inl ⟨guard, edit, moves, ?_⟩
    unfold update
    rw [fence_cards]
  | swept now => exact .inl (unchanged (s.sweepTombstones_cards now))

theorem CardStore.Change.forth (change : s.Change event s') :
    ∀ rec ∈ s.cards, ∃ rec' ∈ s'.cards, s.Moves rec rec' := by
  intro rec listed
  rcases change.cards with ⟨guard, edit, moves, cards⟩ | ⟨filed, -, -, cards⟩
  · rw [cards]
    refine ⟨_, List.mem_map_of_mem listed, ?_⟩
    split
    · exact moves rec listed ‹_›
    · exact .refl s rec
  · rw [cards]
    exact ⟨rec, List.mem_append_left _ listed, .refl s rec⟩

/-- Every card was there before, or is a pending one under a new id. -/
theorem CardStore.Change.back (change : s.Change event s') :
    ∀ rec' ∈ s'.cards, (∃ rec ∈ s.cards, s.Moves rec rec') ∨
      (rec'.status = .pending ∧ ∀ other ∈ s.cards, other.id ≠ rec'.id) := by
  intro rec' listed
  rcases change.cards with ⟨guard, edit, moves, cards⟩ | ⟨filed, pending, new, cards⟩
  · rw [cards] at listed
    obtain ⟨rec, before, rfl⟩ := List.mem_map.mp listed
    refine .inl ⟨rec, before, ?_⟩
    split
    · exact moves rec before ‹_›
    · exact .refl s rec
  rw [cards] at listed
  rcases List.mem_append.mp listed with before | this
  · exact .inl ⟨rec', before, .refl s rec'⟩
  · obtain rfl := List.mem_singleton.mp this
    exact .inr ⟨pending, new⟩

theorem CardStore.Change.ids (change : s.Change event s') (distinct : (s.cards.map ApprovalRecord.id).Nodup) :
    (s'.cards.map ApprovalRecord.id).Nodup := by
  rcases change.cards with ⟨guard, edit, moves, cards⟩ | ⟨filed, -, new, cards⟩
  · have same : (s.update guard edit).cards.map ApprovalRecord.id = s.cards.map ApprovalRecord.id := by
      unfold update
      rw [List.map_map]
      refine List.map_congr_left fun rec listed => ?_
      show (if guard rec = true then edit rec else rec).id = rec.id
      split
      · exact (moves rec listed ‹_›).id
      · rfl
    rw [cards, same]
    exact distinct
  · rw [cards]
    exact nodup_map_concat distinct new

end

/-! ## Whole runs -/

/-- What holds of the desk after any calls. -/
structure Desk.Sound (d : Desk) : Prop where
  ids : (d.store.cards.map ApprovalRecord.id).Nodup
  inTime : ∀ rec ∈ d.store.cards, rec.status = .approved ∨ rec.status = .answered →
    rec.decidedAt.any rec.isBeforeDeadline = true
  used : d.consumed.Nodup
  spent : ∀ id ∈ d.consumed, ∃ rec ∈ d.store.cards, rec.id = id ∧ rec.status = .invalidated

/-- A call that uses a card finds it approved and leaves it invalidated. -/
theorem Desk.step_consumed (d : Desk) (event : Event) : (d.step event).consumed = d.consumed ∨
    ∃ rec ∈ d.store.cards, rec.status = .approved ∧ (d.step event).consumed = rec.id :: d.consumed ∧
      ∃ rec' ∈ (d.step event).store.cards, rec'.id = rec.id ∧ rec'.status = .invalidated := by
  have settled : ∀ {ε : Type} (result : Except ε CardStore), (d.settle result).consumed = d.consumed := by
    intro ε result
    cases result <;> rfl
  cases event with
  | consumeApproved id reason =>
    simp only [step]
    split
    · rename_i store run
      refine .inr ?_
      obtain ⟨found, rfl⟩ := Prod.mk.inj run
      obtain ⟨rec, listed, met⟩ := List.any_eq_true.mp found
      have here := met
      simp only [CardStore.consumeGuard, Bool.and_eq_true, decide_eq_true_eq, beq_iff_eq] at here
      refine ⟨rec, listed, here.2, by rw [here.1], _, List.mem_map_of_mem listed, ?_⟩
      rw [if_pos met]
      exact ⟨rfl, rfl⟩
    · exact .inl rfl
  | verifyAndConsume rec grant mail reason now later =>
    simp only [step]
    split
    · rename_i store run
      refine .inr ?_
      obtain ⟨found, rfl⟩ := CardStore.verifyAndConsume_ok run
      obtain ⟨row, listed, met⟩ := List.any_eq_true.mp found
      have here := met
      simp only [CardStore.verifiedGuard, Bool.and_eq_true, decide_eq_true_eq, beq_iff_eq] at here
      refine ⟨row, listed, here.1.1.1.1.1.1.1.1.2, by rw [here.1.1.1.1.1.1.1.1.1], _,
        List.mem_map_of_mem listed, ?_⟩
      rw [if_pos met]
      exact ⟨rfl, rfl⟩
    · exact .inl rfl
  | withdrawTurn turn now =>
    simp only [step]
    split <;> exact .inl rfl
  | invalidateRequest id reason | sweepTombstones now => exact .inl rfl
  | _ => exact .inl (settled _)

theorem Desk.Sound.step {d : Desk} (sound : d.Sound) (event : Event) : (d.step event).Sound := by
  have change := d.step_change event
  have ids := change.ids sound.ids
  refine ⟨ids, ?_, ?_, ?_⟩
  · intro rec' listed decided
    rcases change.back rec' listed with ⟨rec, before, moves⟩ | ⟨pending, -⟩
    · have deadline : rec'.isBeforeDeadline = rec.isBeforeDeadline := by
        funext instant
        simp only [ApprovalRecord.isBeforeDeadline, moves.expiresAt]
      rw [deadline]
      rcases moves.inTime decided with ⟨same, stamped⟩ | now
      · rw [stamped]
        exact sound.inTime rec before (same ▸ decided)
      · exact now
    · rw [pending] at decided
      rcases decided with h | h <;> cases h
  · rcases d.step_consumed event with same | ⟨rec, listed, approved, consumed, -⟩
    · rw [same]
      exact sound.used
    rw [consumed]
    refine List.nodup_cons.mpr ⟨fun already => ?_, sound.used⟩
    obtain ⟨other, here, sameId, invalidated⟩ := sound.spent rec.id already
    obtain rfl := List.inj_on_of_nodup_map sound.ids here listed sameId
    rw [approved] at invalidated
    cases invalidated
  · intro id used
    have earlier : id ∈ d.consumed → ∃ rec ∈ (d.step event).store.cards,
        rec.id = id ∧ rec.status = .invalidated := by
      intro already
      obtain ⟨rec, listed, rfl, invalidated⟩ := sound.spent id already
      obtain ⟨rec', after, moves⟩ := change.forth rec listed
      refine ⟨rec', after, moves.id, ?_⟩
      rcases moves.status with pending | same | gone
      · rw [invalidated] at pending
        cases pending
      · rw [same, invalidated]
      · exact gone
    rcases d.step_consumed event with same | ⟨rec, listed, approved, consumed, rec', after, sameId, gone⟩
    · exact earlier (same ▸ used)
    rw [consumed] at used
    rcases List.mem_cons.mp used with rfl | already
    · exact ⟨rec', after, sameId, gone⟩
    · exact earlier already

theorem Desk.empty_sound : Desk.Sound {} where
  ids := List.nodup_nil
  inTime := List.forall_mem_nil _
  used := List.nodup_nil
  spent := List.forall_mem_nil _

theorem desk_sound (events : List Event) : (run Desk.step {} events).Sound :=
  run_invariant Desk.Sound (fun _ event sound _ => sound.step event) Desk.empty_sound
    (obeys_true _ events)

/-- Every card of `d` is a card of `d'`, further on its way. -/
def Desk.LeadsTo (d d' : Desk) : Prop :=
  ∀ rec ∈ d.store.cards, ∃ rec' ∈ d'.store.cards, rec'.id = rec.id ∧ rec.status.Leads rec'.status

theorem desk_leadsTo (d : Desk) (events : List Event) : d.LeadsTo (run Desk.step d events) := by
  refine run_rel (fun _ => True) Desk.LeadsTo (fun _ _ _ _ => trivial) ?_ ?_ ?_ trivial
    (obeys_true d events)
  · exact fun d rec listed => ⟨rec, listed, rfl, .inr (.inl rfl)⟩
  · intro d d' d'' first second rec listed
    obtain ⟨rec', listed', id', leads⟩ := first rec listed
    obtain ⟨rec'', listed'', id'', further⟩ := second rec' listed'
    exact ⟨rec'', listed'', id''.trans id', leads.trans further⟩
  · intro d event _ _ rec listed
    obtain ⟨rec', listed', moves⟩ := (d.step_change event).forth rec listed
    exact ⟨rec', listed', moves.id, moves.status⟩

/-- **The life of an approval card.**  Take any calls, in any interleaving, and any calls
after them.  A card is there for good under its id; once it is not pending it never is
again; once denied, answered, expired or invalidated it is never approved; an approved
card stays approved or is invalidated; no card is used twice; and what was approved or
answered was so strictly before the card's deadline. -/
theorem card_state_machine (events later : List Event) : let d := run Desk.step {} events
    let d' := run Desk.step {} (events ++ later)
    (∀ rec ∈ d.store.cards, (∃ rec' ∈ d'.store.cards, rec'.id = rec.id) ∧
      ∀ rec' ∈ d'.store.cards, rec'.id = rec.id → (rec.status ≠ .pending → rec'.status ≠ .pending) ∧
        (rec.status ∈ [.denied, .answered, .expired, .invalidated] → rec'.status ≠ .approved) ∧
        (rec.status = .approved → rec'.status = .approved ∨ rec'.status = .invalidated)) ∧
    d'.consumed.Nodup ∧ ∀ rec ∈ d'.store.cards, rec.status = .approved ∨ rec.status = .answered →
      ∃ decidedAt deadline, rec.decidedAt = some decidedAt ∧ rec.expiresAt = some deadline ∧
        decidedAt < deadline := by
  intro d d'
  have sound : d'.Sound := desk_sound (events ++ later)
  refine ⟨fun rec listed => ?_, sound.used, fun rec listed decided => ?_⟩
  · have leads : d.LeadsTo d' := by
      show d.LeadsTo (run Desk.step {} (events ++ later))
      rw [run_append]
      exact desk_leadsTo d later
    obtain ⟨found, here, sameId, way⟩ := leads rec listed
    refine ⟨⟨found, here, sameId⟩, fun rec' listed' id' => ?_⟩
    obtain rfl := List.inj_on_of_nodup_map sound.ids here listed' (sameId.trans id'.symm)
    rcases way with pending | same | gone
    · simp [pending]
    · rw [same]
      refine ⟨id, fun ended approved => ?_, .inl⟩
      simp [approved] at ended
    · simp [gone]
  · have timely := sound.inTime rec listed decided
    obtain ⟨decidedAt, stamped, before⟩ := (Option.any_eq_true _ _).mp timely
    obtain ⟨deadline, known, strictly⟩ := (Option.any_eq_true _ _).mp before
    exact ⟨decidedAt, deadline, stamped, known, by simpa using strictly⟩

end DuDuClaw.Approval
