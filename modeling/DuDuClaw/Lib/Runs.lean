/-
# Lib.Runs -- runs of a machine

A machine takes one atomic step after another; a refused step leaves the state as it
is.  A run is a sequence of steps from a first state, and `Obeys` says that each of them
was allowed in the state it was taken in.

* `run_invariant`: what every allowed step keeps holds in every state of a run.
* `run_rel`: what every allowed step relates, the ends of a run are related by.
* `run_always_iff`: where a step keeps an invariant exactly when it is allowed, the
  invariant holds in every state of a run exactly when the run obeys.
* `run_origin`: what holds after a run held before it or came with one of its steps.
* `obeys_append`, `obeys_iff`: a run obeys when both of its parts do, and when each of its
  steps is allowed in the state it is taken in.
* `chain_rel`, `chain_at`: the same for a chain that ends at the first refusal.
-/
import Mathlib.Order.Basic

namespace DuDuClaw.Lib

variable {σ α : Type} (step : σ → α → σ)

def run (s : σ) (steps : List α) : σ := steps.foldl step s

/-- Every step is allowed in the state it is taken in. -/
def Obeys (ok : σ → α → Prop) : σ → List α → Prop
  | _, [] => True
  | s, a :: rest => ok s a ∧ Obeys ok (step s a) rest

instance decidableObeys (ok : σ → α → Prop) [∀ s a, Decidable (ok s a)] :
    ∀ s steps, Decidable (Obeys step ok s steps)
  | _, [] => .isTrue trivial
  | s, a :: rest =>
    have := decidableObeys ok (step s a) rest
    inferInstanceAs (Decidable (ok s a ∧ Obeys step ok (step s a) rest))

variable {step}

variable {ok : σ → α → Prop} {s : σ} {steps : List α}

@[simp] theorem run_nil (s : σ) : run step s [] = s := rfl

@[simp] theorem run_cons (s : σ) (a : α) (rest : List α) :
    run step s (a :: rest) = run step (step s a) rest := rfl

theorem run_append (s : σ) (front back : List α) :
    run step s (front ++ back) = run step (run step s front) back := List.foldl_append

theorem obeys_append {front back : List α} : Obeys step ok s (front ++ back) ↔
      Obeys step ok s front ∧ Obeys step ok (run step s front) back := by
  induction front generalizing s with
  | nil => simp [Obeys]
  | cons a rest ih => simp only [List.cons_append, Obeys, ih, run_cons, and_assoc]

/-- A step of a run that obeys is allowed in the state it is taken in. -/
theorem Obeys.at {front back : List α} {a : α}
    (obeys : Obeys step ok s (front ++ a :: back)) : ok (run step s front) a :=
  (obeys_append.mp obeys).2.1

theorem obeys_iff : Obeys step ok s steps ↔
      ∀ front a back, steps = front ++ a :: back → ok (run step s front) a := by
  constructor
  · rintro obeys front a back rfl
    exact obeys.at
  · intro every
    induction steps generalizing s with
    | nil => trivial
    | cons a rest ih =>
      refine ⟨every [] a rest rfl, ih fun front b back split => ?_⟩
      exact every (a :: front) b back (congrArg (List.cons a) split)

theorem Obeys.and {ok' : σ → α → Prop} (left : Obeys step ok s steps)
    (right : Obeys step ok' s steps) : Obeys step (fun s a => ok s a ∧ ok' s a) s steps := by
  induction steps generalizing s with
  | nil => trivial
  | cons a rest ih => exact ⟨⟨left.1, right.1⟩, ih left.2 right.2⟩

theorem obeys_of_forall {ok : α → Prop} (every : ∀ a ∈ steps, ok a) (s : σ) :
    Obeys step (fun _ a => ok a) s steps := by
  induction steps generalizing s with
  | nil => trivial
  | cons a rest ih =>
    exact ⟨every a (List.mem_cons_self ..), ih (fun b listed => every b (List.mem_cons_of_mem a listed)) _⟩

theorem obeys_true (s : σ) (steps : List α) : Obeys step (fun _ _ => True) s steps :=
  obeys_of_forall (fun _ _ => trivial) s

theorem run_invariant (inv : σ → Prop) (keeps : ∀ s a, inv s → ok s a → inv (step s a)) (start : inv s)
    (obeys : Obeys step ok s steps) : inv (run step s steps) := by
  induction steps generalizing s with
  | nil => exact start
  | cons a rest ih => exact ih (keeps s a start obeys.1) obeys.2

/-- What holds after a run held before it or came with one of its steps. -/
theorem run_origin (holds : σ → Prop) (comes : σ → α → Prop)
    (one : ∀ s a, holds (step s a) → holds s ∨ comes s a) (last : holds (run step s steps)) :
    holds s ∨ ∃ front a back, steps = front ++ a :: back ∧ comes (run step s front) a := by
  induction steps generalizing s with
  | nil => exact .inl last
  | cons a rest ih =>
    obtain between | ⟨front, b, back, split, came⟩ := ih last
    · rcases one s a between with before | here
      · exact .inl before
      · exact .inr ⟨[], a, rest, rfl, here⟩
    · exact .inr ⟨a :: front, b, back, congrArg (List.cons a) split, came⟩

/-- Where a step keeps the invariant exactly when it is allowed, every state of a run
has it exactly when every step is allowed. -/
theorem run_always_iff (inv : σ → Prop) (exact_ : ∀ s a, inv s → (inv (step s a) ↔ ok s a)) (start : inv s) :
    (∀ front back, steps = front ++ back → inv (run step s front)) ↔ Obeys step ok s steps := by
  constructor
  · intro always
    induction steps generalizing s with
    | nil => trivial
    | cons a rest ih =>
      have first : inv (step s a) := always [a] rest rfl
      refine ⟨(exact_ s a start).mp first, ih first fun front back split => ?_⟩
      exact always (a :: front) back (congrArg (List.cons a) split)
  · intro obeys front back split
    rw [split] at obeys
    exact run_invariant inv (fun s a holds allowed => (exact_ s a holds).mpr allowed) start
      (obeys_append.mp obeys).1

/-- What every allowed step relates, the ends of a run are related by. -/
theorem run_rel (inv : σ → Prop) (rel : σ → σ → Prop)
    (keeps : ∀ s a, inv s → ok s a → inv (step s a)) (same : ∀ s, rel s s)
    (compose : ∀ s t u, rel s t → rel t u → rel s u)
    (one : ∀ s a, inv s → ok s a → rel s (step s a)) (start : inv s)
    (obeys : Obeys step ok s steps) : rel s (run step s steps) := by
  induction steps generalizing s with
  | nil => exact same s
  | cons a rest ih =>
    exact compose _ _ _ (one s a start obeys.1) (ih (keeps s a start obeys.1) obeys.2)

/-! ## Chains that may be refused -/

section Chains

variable {attempt : σ → α → Option σ}

/-- What every accepted step relates, the ends of an accepted chain are related by. -/
theorem chain_rel (rel : σ → σ → Prop) (same : ∀ s, rel s s) (compose : ∀ s t u, rel s t → rel t u → rel s u)
    (one : ∀ s a t, attempt s a = some t → rel s t) {t : σ}
    (accepted : steps.foldlM attempt s = some t) : rel s t := by
  induction steps generalizing s with
  | nil =>
    rw [List.foldlM_nil] at accepted
    rw [← Option.some.inj accepted]
    exact same s
  | cons a rest ih =>
    rw [List.foldlM_cons] at accepted
    obtain ⟨between, first, others⟩ := Option.bind_eq_some_iff.mp accepted
    exact compose s between t (one s a between first) (ih others)

theorem chain_at {t : σ} {a : α} (listed : a ∈ steps) (accepted : steps.foldlM attempt s = some t) :
    ∃ (front back : List α) (before after : σ), front.foldlM attempt s = some before ∧
      attempt before a = some after ∧ back.foldlM attempt after = some t := by
  obtain ⟨front, back, rfl⟩ := List.append_of_mem listed
  rw [List.foldlM_append] at accepted
  obtain ⟨before, first, others⟩ := Option.bind_eq_some_iff.mp accepted
  rw [List.foldlM_cons] at others
  obtain ⟨after, here, last⟩ := Option.bind_eq_some_iff.mp others
  exact ⟨front, back, before, after, first, here, last⟩

end Chains

end DuDuClaw.Lib
