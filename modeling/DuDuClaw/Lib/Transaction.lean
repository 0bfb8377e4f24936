/-
# Lib.Transaction -- statements in a transaction

A body of statements reads and writes a store and may stop at an error, which leaves the
store as far as the body got.  The transaction around it keeps the store of a body that
returned and takes back that of a body that did not.

* `query_bind`, `execute_bind`: a body that returned went through each of its statements.
* `transaction_returned`, `transaction_refused`: commit and rollback.
* `Clean`: a body whose refusals leave the store as it was needs no transaction.
-/
import DuDuClaw.Lib.Fallible

namespace DuDuClaw.Lib

variable {ε σ α β : Type}

def query (f : σ → Except ε α) : EStateM ε σ α := fun s =>
  match f s with
  | .ok a => .ok a s
  | .error e => .error e s

def execute (f : σ → Except ε σ) : EStateM ε σ Unit := fun s =>
  match f s with
  | .ok t => .ok () t
  | .error e => .error e s

def transaction (body : EStateM ε σ α) : EStateM ε σ α := fun s =>
  match body s with
  | .ok a t => .ok a t
  | .error e _ => .error e s

/-- The store after a body, whether it returned or not. -/
def after (body : EStateM ε σ α) (s : σ) : σ :=
  match body s with
  | .ok _ t => t
  | .error _ t => t

variable {s t : σ} {b : β} {a : α}

variable {x body : EStateM ε σ α} {f : σ → Except ε α} {g : α → EStateM ε σ β}

theorem bind_returned {f : α → EStateM ε σ β} :
    (x >>= f) s = .ok b t ↔ ∃ a u, x s = .ok a u ∧ f a u = .ok b t := by
  change EStateM.bind x f s = .ok b t ↔ _
  unfold EStateM.bind
  cases ran : x s with
  | ok a u | error e u => simp

@[simp] theorem pure_returned {b : α} : (pure a : EStateM ε σ α) s = .ok b t ↔ a = b ∧ s = t := by
  change EStateM.Result.ok a s = .ok b t ↔ _
  simp

@[simp] theorem query_returned : query f s = .ok a t ↔ f s = .ok a ∧ s = t := by
  unfold query
  cases f s <;> simp

@[simp] theorem execute_returned {f : σ → Except ε σ} {u : Unit} : execute f s = .ok u t ↔ f s = .ok t := by
  unfold execute
  cases f s <;> simp

theorem query_bind : (query f >>= g) s = .ok b t ↔ ∃ a, f s = .ok a ∧ g a s = .ok b t := by
  rw [bind_returned]
  constructor
  · rintro ⟨a, u, asked, rest⟩
    obtain ⟨found, rfl⟩ := query_returned.mp asked
    exact ⟨a, found, rest⟩
  · rintro ⟨a, found, rest⟩
    exact ⟨a, s, query_returned.mpr ⟨found, rfl⟩, rest⟩

/-- A write before the rest of a body. -/
theorem execute_bind {f : σ → Except ε σ} {g : Unit → EStateM ε σ β} :
    (execute f >>= g) s = .ok b t ↔ ∃ u, f s = .ok u ∧ g () u = .ok b t := by
  rw [bind_returned]
  constructor
  · rintro ⟨a, u, wrote, rest⟩
    exact ⟨u, execute_returned.mp wrote, rest⟩
  · rintro ⟨u, wrote, rest⟩
    exact ⟨(), u, execute_returned.mpr wrote, rest⟩

@[simp] theorem transaction_returned : transaction body s = .ok a t ↔ body s = .ok a t := by
  unfold transaction
  cases body s <;> simp

theorem transaction_refused {e : ε} (refused : transaction body s = .error e t) : t = s := by
  unfold transaction at refused
  split at refused
  · cases refused
  · cases refused
    rfl

/-- A transaction leaves the store as it was, or as its body left it when it returned. -/
theorem after_transaction (body : EStateM ε σ α) (s : σ) :
    after (transaction body) s = s ∨ ∃ a, body s = .ok a (after (transaction body) s) := by
  unfold after
  cases ran : transaction body s with
  | ok a t => exact .inr ⟨a, transaction_returned.mp ran⟩
  | error e t => exact .inl (transaction_refused ran)

@[simp] theorem after_query (f : σ → Except ε α) (s : σ) : after (query f) s = s := by
  unfold after query
  cases f s <;> rfl

theorem after_bind_reads {f : α → EStateM ε σ β}
    (reads : ∀ a t, after (f a) t = t) (s : σ) : after (x >>= f) s = after x s := by
  change after (EStateM.bind x f) s = after x s
  unfold after EStateM.bind
  cases x s with
  | ok a t => exact reads a t
  | error e t => rfl

/-! ## Bodies that write last -/

/-- A body that stops at an error has written nothing. -/
def Clean (body : EStateM ε σ α) : Prop := ∀ s e t, body s = .error e t → t = s

theorem clean_pure (a : α) : Clean (pure a : EStateM ε σ α) := by
  intro s e t refused
  cases refused

theorem clean_transaction (body : EStateM ε σ α) : Clean (transaction body) :=
  fun _ _ _ => transaction_refused

theorem clean_query_bind (rest : ∀ a, Clean (g a)) : Clean (query f >>= g) := by
  intro s e t refused
  change EStateM.bind (query f) g s = .error e t at refused
  cases asked : f s with
  | ok a =>
    simp only [EStateM.bind, query, asked] at refused
    exact rest a s e t refused
  | error other =>
    simp only [EStateM.bind, query, asked] at refused
    cases refused
    rfl

/-- The one write, with nothing behind it that can fail. -/
theorem clean_execute_bind (f : σ → Except ε σ) (a : α) :
    Clean (execute f >>= fun _ => (pure a : EStateM ε σ α)) := by
  intro s e t refused
  change EStateM.bind (execute f) (fun _ => pure a) s = .error e t at refused
  cases wrote : f s with
  | ok u =>
    simp only [EStateM.bind, execute, wrote] at refused
    cases refused
  | error other =>
    simp only [EStateM.bind, execute, wrote] at refused
    cases refused
    rfl

theorem clean_bind_pure (clean : Clean body) (f : α → β) :
    Clean (body >>= fun a => (pure (f a) : EStateM ε σ β)) := by
  intro s e t refused
  change EStateM.bind body (fun a => pure (f a)) s = .error e t at refused
  cases ran : body s with
  | ok a u =>
    simp only [EStateM.bind, ran] at refused
    cases refused
  | error other u =>
    simp only [EStateM.bind, ran] at refused
    cases refused
    exact clean s e t ran

theorem Clean.after_cases (clean : Clean body) (s : σ) :
    after body s = s ∨ ∃ a, body s = .ok a (after body s) := by
  unfold after
  cases ran : body s with
  | ok a t => exact .inr ⟨a, rfl⟩
  | error e t => exact .inl (clean s e t ran)

theorem clean_ite {bad : Prop} [Decidable bad] {other : EStateM ε σ α} (left : Clean body)
    (right : Clean other) : Clean (if bad then body else other) := by
  split
  · exact left
  · exact right

end DuDuClaw.Lib
