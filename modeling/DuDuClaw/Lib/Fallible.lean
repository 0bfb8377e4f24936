/-
# Lib.Fallible -- calls that return a result or an error

Guards and sequences of fallible steps, and what a call that returned a result went
through.

* `bind_ok`, `map_ok`, `refuseIf_ok`: each step before the result returned one.
* `ok_of_fst`: a call that returned a value together with a state.
* `foldlM_run`: what every step preserves holds after a loop that returned.
* `foldlM_at`: a loop that returned passed through every item.
* `findSomeM_found`: a search finds something where there is something to find.
-/
import Mathlib.Data.List.Basic

namespace DuDuClaw.Lib

variable {ε σ α β : Type}

/-- `if bad { return Err(message) }`. -/
def refuseIf (bad : Prop) [Decidable bad] (message : ε) : Except ε Unit :=
  if bad then .error message else .ok ()

/-- `found.ok_or(message)?`. -/
def okOr (found : Option α) (message : ε) : Except ε α :=
  match found with
  | some value => .ok value
  | none => .error message

variable {x : Except ε α} {f : α → Except ε β} {r : β} {e message : ε}

theorem bind_ok : x >>= f = .ok r ↔ ∃ a, x = .ok a ∧ f a = .ok r := by
  cases x with
  | error e => exact ⟨nofun, nofun⟩
  | ok a => exact ⟨fun run => ⟨a, rfl, run⟩, fun ⟨_, same, run⟩ => Except.ok.inj same ▸ run⟩

theorem bind_error : x >>= f = .error e ↔ x = .error e ∨ ∃ a, x = .ok a ∧ f a = .error e := by
  cases x with
  | error e' =>
    constructor
    · intro run
      exact .inl (congrArg _ (Except.error.inj run))
    · rintro (same | ⟨a, same, -⟩)
      · exact Except.error.inj same ▸ rfl
      · cases same
  | ok a =>
    constructor
    · intro run
      exact .inr ⟨a, rfl, run⟩
    · rintro (same | ⟨a', same, run⟩)
      · cases same
      · exact Except.ok.inj same ▸ run

theorem map_ok {f : α → β} : x.map f = .ok r ↔ ∃ a, x = .ok a ∧ f a = r := by
  cases x with
  | error e => exact ⟨nofun, nofun⟩
  | ok a => exact ⟨fun run => ⟨a, rfl, Except.ok.inj run⟩, fun ⟨_, same, run⟩ => by
    rw [← run, ← Except.ok.inj same]
    rfl⟩

theorem map_error {f : α → β} : x.map f = .error e ↔ x = .error e := by
  cases x with
  | error e' => exact ⟨fun run => congrArg _ (Except.error.inj run), fun same => Except.error.inj same ▸ rfl⟩
  | ok a =>
    constructor
    · intro same
      cases same
    · intro same
      cases same

theorem ok_of_fst {x : Except ε (α × β)} {a : α} (first : x.toOption.map Prod.fst = some a) :
    ∃ b, x = .ok (a, b) := by
  cases x with
  | error e => cases first
  | ok r => exact ⟨r.2, by rw [← Option.some.inj first]⟩

@[simp] theorem refuseIf_ok {bad : Prop} [Decidable bad] {u : Unit} : refuseIf bad message = .ok u ↔ ¬bad := by
  unfold refuseIf
  split <;> simp_all

@[simp] theorem okOr_ok {found : Option α} {value : α} :
    okOr found message = .ok value ↔ found = some value := by
  cases found <;> simp [okOr]

variable {f : σ → α → Except ε σ} {s t : σ}

/-- What every step preserves holds after a loop that returned. -/
theorem foldlM_run (inv : List α → σ → Prop) (start : inv [] s)
    (step : ∀ done st x st', inv done st → f st x = .ok st' → inv (done ++ [x]) st')
    {items : List α} (run : items.foldlM f s = .ok t) : inv items t := by
  suffices general : ∀ done st, inv done st → items.foldlM f st = .ok t → inv (done ++ items) t from
    general [] s start run
  clear run
  induction items with
  | nil =>
    intro done st holds finished
    cases finished
    rwa [List.append_nil]
  | cons x rest ih =>
    intro done st holds run
    rw [List.foldlM_cons] at run
    obtain ⟨st', stepped, further⟩ := bind_ok.mp run
    have after := ih (done ++ [x]) st' (step done st x st' holds stepped) further
    rwa [List.append_assoc] at after

/-- A loop that returned passed through every item. -/
theorem foldlM_at {front back : List α} {x : α} (run : (front ++ x :: back).foldlM f s = .ok t) :
    ∃ before after, front.foldlM f s = .ok before ∧ f before x = .ok after := by
  rw [List.foldlM_append] at run
  obtain ⟨before, first, more⟩ := bind_ok.mp run
  rw [List.foldlM_cons] at more
  obtain ⟨after, stepped, -⟩ := bind_ok.mp more
  exact ⟨before, after, first, stepped⟩

/-! ## Searches that may stop -/

section
variable {g : α → Option (Option β)} {xs : List α}

theorem findSomeM_ends (ends : ∀ x ∈ xs, g x ≠ none) : xs.findSomeM? g ≠ none := by
  induction xs with
  | nil => exact Option.some_ne_none _
  | cons x rest ih =>
    obtain ⟨answer, same⟩ := Option.ne_none_iff_exists'.mp (ends x (List.mem_cons_self ..))
    rw [List.findSomeM?_cons, same]
    cases answer with
    | some b => exact Option.some_ne_none _
    | none => exact ih fun y listed => ends y (List.mem_cons_of_mem _ listed)

theorem findSomeM_found (ends : ∀ x ∈ xs, g x ≠ none) {x : α} (listed : x ∈ xs)
    (found : ∃ b, g x = some (some b)) : ∃ b, xs.findSomeM? g = some (some b) := by
  induction xs with
  | nil => cases listed
  | cons y rest ih =>
    obtain ⟨answer, same⟩ := Option.ne_none_iff_exists'.mp (ends y (List.mem_cons_self ..))
    rw [List.findSomeM?_cons, same]
    cases answer with
    | some b => exact ⟨b, rfl⟩
    | none =>
      refine ih (fun z later => ends z (List.mem_cons_of_mem _ later)) ?_
      obtain rfl | later := List.mem_cons.mp listed
      · obtain ⟨b, hit⟩ := found
        rw [same] at hit
        cases hit
      · exact later

end

end DuDuClaw.Lib
