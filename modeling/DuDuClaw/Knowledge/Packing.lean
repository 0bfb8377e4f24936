/-
# Knowledge.Packing -- cutting a text into overlapping ranges

A text is cut near `TARGET` characters, where a sentence ends if one does near there, and
the next range begins about `OVERLAP` characters before the cut.

* `packLoop_spec`: the loop ends, for it moves on in every pass, and its ranges cover the text.
* `trimRange_spec`: what is trimmed is whitespace.
* `pack_spec`: no index is out of range, and every other character is in one of the ranges.
-/
import DuDuClaw.Lib.Slices
import DuDuClaw.Lib.Chars
import Mathlib.Data.List.MinMax

namespace DuDuClaw.Knowledge.Chunks

open DuDuClaw.Lib

def TARGET : Nat := 500
def MIN : Nat := 200
def MAX : Nat := 800
def OVERLAP : Nat := 75
def PAGE_TAIL_MIN : Nat := 100

/-- Whether a sentence ends just before `i`. -/
def isBoundaryChar (chars : List Char) : Nat → Option Bool
  | 0 => none
  | i + 1 => do
    let c ← chars[i]?
    return match c with
      | '。' | '！' | '？' | '；' | '\n' => true
      | '!' | '?' | ';' => chars[i + 1]?.all fun n => isWhitespace n || !n.isAlphanum
      | '.' => chars[i + 1]?.all isWhitespace
      | _ => false

def boundaries (chars : List Char) : Option (List Nat) :=
  tryFilterMap (fun i => (isBoundaryChar chars i).map fun ends => if ends then some i else none)
    (List.range' 1 chars.length)

/-- The boundary from `lo` to `hi` that is nearest to the target, the lower one of two. -/
def nearest (bounds : List Nat) (lo hi target : Nat) : Option Nat :=
  (bounds.filter fun b => lo ≤ b && b ≤ hi).argmin fun b =>
    2 * ((b - target) + (target - b)) + if target < b then 1 else 0

/-- Where a range from `s` ends that is not the last. -/
def cutAt (bounds : List Nat) (s : Nat) : Nat :=
  (nearest bounds (s + MIN) (s + MAX) (s + TARGET)).getD (s + TARGET)

/-- Where the next range begins, after one from `s` to `e`. -/
def nextFrom (bounds : List Nat) (s e : Nat) : Nat :=
  let want := e - OVERLAP
  ((nearest bounds (e - OVERLAP * 2) (e - 1) want).filter (s < ·)).getD want

def packLoop (bounds : List Nat) (len : Nat) : Nat → Nat → Option (List (Nat × Nat))
  | 0, _ => none
  | fuel + 1, s =>
    if len ≤ s then some []
    else if len - s ≤ MAX then some [(s, len)]
    else
      let e := cutAt bounds s
      let next := nextFrom bounds s e
      (packLoop bounds len fuel (if s < next then next else e)).map ((s, e) :: ·)

/-- `while a < b && chars[a].is_whitespace() { a += 1 }`, for `b = a + n`. -/
def trimFront (chars : List Char) (a : Nat) : Nat → Option Nat
  | 0 => some a
  | n + 1 => do
    let c ← chars[a]?
    if isWhitespace c then trimFront chars (a + 1) n else some a

/-- `while b > a && chars[b - 1].is_whitespace() { b -= 1 }`, for `b = a + n`. -/
def trimBack (chars : List Char) (a : Nat) : Nat → Option Nat
  | 0 => some a
  | n + 1 => do
    let c ← chars[a + n]?
    if isWhitespace c then trimBack chars a n else some (a + n + 1)

def trimRange (chars : List Char) (r : Nat × Nat) : Option (Option (Nat × Nat)) := do
  let a ← trimFront chars r.1 (r.2 - r.1)
  let b ← trimBack chars a (r.2 - a)
  return if a < b then some (a, b) else none

def pack (chars : List Char) : Option (List (Nat × Nat)) := do
  let bounds ← boundaries chars
  let out ← packLoop bounds chars.length (chars.length + 1) 0
  tryFilterMap (trimRange chars) out

/-! ## Boundaries -/

variable {chars : List Char} {a n : Nat}

theorem nearest_mem {bounds : List Nat} {lo hi target b : Nat}
    (found : nearest bounds lo hi target = some b) : lo ≤ b ∧ b ≤ hi := by
  have listed := List.argmin_mem found
  simpa using (List.mem_filter.mp listed).2

theorem boundaries_returns (chars : List Char) : ∃ bounds, boundaries chars = some bounds := by
  have total : ∀ i ∈ List.range' 1 chars.length, ∃ found,
      ((isBoundaryChar chars i).map fun ends => if ends then some i else none) = some found := by
    intro i listed
    obtain ⟨low, high⟩ := List.mem_range'_1.mp listed
    obtain ⟨j, rfl⟩ := Nat.exists_eq_add_of_le' low
    have inside : j < chars.length := by omega
    simp only [isBoundaryChar, List.getElem?_eq_getElem inside, Option.bind_eq_bind, Option.bind_some]
    exact ⟨_, rfl⟩
  obtain ⟨bounds, ran, -⟩ := tryFilterMap_spec total
  exact ⟨bounds, ran⟩

/-! ## The loop -/

theorem cutAt_bounds (bounds : List Nat) (s : Nat) : s + MIN ≤ cutAt bounds s ∧ cutAt bounds s ≤ s + MAX := by
  unfold cutAt
  cases found : nearest bounds (s + MIN) (s + MAX) (s + TARGET) with
  | none => simp [MIN, MAX, TARGET]
  | some b => exact nearest_mem found

/-- The next range begins behind this one's start and before its end. -/
theorem nextFrom_bounds (bounds : List Nat) {s e : Nat} (long : s + MIN ≤ e) :
    s < nextFrom bounds s e ∧ nextFrom bounds s e ≤ e := by
  unfold nextFrom
  dsimp only
  simp only [MIN] at long
  cases found : (nearest bounds (e - OVERLAP * 2) (e - 1) (e - OVERLAP)).filter (s < ·) with
  | none =>
    simp only [Option.getD_none, OVERLAP]
    omega
  | some b =>
    obtain ⟨near, beyond⟩ := Option.filter_eq_some_iff.mp found
    have below := (nearest_mem near).2
    rw [Option.getD_some]
    exact ⟨of_decide_eq_true beyond, by omega⟩

theorem packLoop_spec (bounds : List Nat) (len s : Nat) :
    ∃ out, (∀ fuel, len - s < fuel → packLoop bounds len fuel s = some out) ∧
      (∀ r ∈ out, r.1 < r.2 ∧ r.2 ≤ len) ∧ ∀ i, s ≤ i → i < len → Covers out i := by
  induction left : len - s using Nat.strongRecOn generalizing s with
  | _ n ih =>
  subst left
  by_cases ended : len ≤ s
  · refine ⟨[], fun fuel enough => ?_, by simp, fun i _ _ => by omega⟩
    obtain ⟨fuel, rfl⟩ := Nat.exists_eq_add_of_le' (Nat.one_le_of_lt enough)
    rw [packLoop, if_pos ended]
  by_cases short : len - s ≤ MAX
  · refine ⟨[(s, len)], fun fuel enough => ?_, by simp; omega, fun i low high => ?_⟩
    · obtain ⟨fuel, rfl⟩ := Nat.exists_eq_add_of_le' (Nat.one_le_of_lt enough)
      rw [packLoop, if_neg ended, if_pos short]
    · exact ⟨_, List.mem_singleton_self _, low, high⟩
  have long : MAX < len - s := Nat.lt_of_not_le short
  obtain ⟨cut, near⟩ := cutAt_bounds bounds s
  obtain ⟨beyond, back⟩ := nextFrom_bounds bounds cut
  simp only [MIN, MAX] at cut near long
  obtain ⟨out, ran, fits, covered⟩ := ih (len - nextFrom bounds s (cutAt bounds s)) (by omega) _ rfl
  refine ⟨(s, cutAt bounds s) :: out, fun fuel enough => ?_, ?_, fun i low high => ?_⟩
  · obtain ⟨fuel, rfl⟩ := Nat.exists_eq_add_of_le' (Nat.one_le_of_lt enough)
    rw [packLoop, if_neg ended, if_neg short]
    dsimp only
    rw [if_pos beyond, ran fuel (by omega)]
    rfl
  · intro r listed
    obtain rfl | old := List.mem_cons.mp listed
    · dsimp only
      omega
    · exact fits r old
  · rw [covers_cons]
    by_cases here : i < cutAt bounds s
    · exact .inl ⟨low, here⟩
    · exact .inr (covered i (by omega) high)

/-! ## Trimming -/

theorem trimFront_spec (inside : a + n ≤ chars.length) :
    ∃ a', trimFront chars a n = some a' ∧ a ≤ a' ∧ a' ≤ a + n ∧
      ∀ i c, a ≤ i → i < a' → chars[i]? = some c → isWhitespace c = true := by
  induction n generalizing a with
  | zero => exact ⟨a, rfl, by omega, by omega, fun i c low high => by omega⟩
  | succ n ih =>
    have here : chars[a]? = some chars[a] := List.getElem?_eq_getElem (by omega)
    unfold trimFront
    rw [here]
    by_cases white : isWhitespace chars[a]
    · obtain ⟨a', ran, low, high, all⟩ := @ih (a + 1) (by omega)
      refine ⟨a', by simpa [white] using ran, by omega, by omega, fun i c first last at_ => ?_⟩
      obtain rfl | later := Nat.eq_or_lt_of_le first
      · rw [here] at at_
        cases at_
        exact white
      · exact all i c later last at_
    · exact ⟨a, by simp [white], by omega, by omega, fun i c low high => by omega⟩

theorem trimBack_spec (inside : a + n ≤ chars.length) : ∃ b, trimBack chars a n = some b ∧ a ≤ b ∧ b ≤ a + n ∧
      ∀ i c, b ≤ i → i < a + n → chars[i]? = some c → isWhitespace c = true := by
  induction n with
  | zero => exact ⟨a, rfl, by omega, by omega, fun i c low high => by omega⟩
  | succ n ih =>
    have here : chars[a + n]? = some chars[a + n] := List.getElem?_eq_getElem (by omega)
    unfold trimBack
    rw [here]
    by_cases white : isWhitespace chars[a + n]
    · obtain ⟨b, ran, low, high, all⟩ := ih (by omega)
      refine ⟨b, by simpa [white] using ran, by omega, by omega, fun i c first last at_ => ?_⟩
      by_cases own : i = a + n
      · subst own
        rw [here] at at_
        cases at_
        exact white
      · exact all i c first (by omega) at_
    · exact ⟨a + n + 1, by simp [white], by omega, by omega, fun i c low high => by omega⟩

theorem trimRange_spec {r : Nat × Nat} (le : r.1 ≤ r.2) (inside : r.2 ≤ chars.length) :
    ∃ found, trimRange chars r = some found ∧ (∀ t, found = some t → t.1 < t.2 ∧ t.2 ≤ r.2) ∧
      ∀ i c, r.1 ≤ i → i < r.2 → chars[i]? = some c → isWhitespace c = false →
        ∃ t, found = some t ∧ t.1 ≤ i ∧ i < t.2 := by
  obtain ⟨a, front, low, high, before⟩ := @trimFront_spec chars r.1 (r.2 - r.1) (by omega)
  obtain ⟨b, back, low', high', behind⟩ := @trimBack_spec chars a (r.2 - a) (by omega)
  refine ⟨if a < b then some (a, b) else none, by simp [trimRange, front, back], ?_, ?_⟩
  · intro t found
    split at found
    · cases found
      dsimp only
      omega
    · cases found
  · intro i c first last at_ black
    have left : a ≤ i := by
      refine Nat.le_of_not_lt fun early => ?_
      simp [before i c first early at_] at black
    have right : i < b := by
      refine Nat.lt_of_not_le fun late => ?_
      simp [behind i c late (by omega) at_] at black
    exact ⟨(a, b), if_pos (Nat.lt_of_le_of_lt left right), left, right⟩

/-- `pack` returns ranges of the text, which cover all of it but whitespace. -/
theorem pack_spec (chars : List Char) :
    ∃ out, pack chars = some out ∧ (∀ r ∈ out, r.1 < r.2 ∧ r.2 ≤ chars.length) ∧
      ∀ i c, chars[i]? = some c → isWhitespace c = false → Covers out i := by
  obtain ⟨bounds, found⟩ := boundaries_returns chars
  obtain ⟨ranges, ran, fits, covered⟩ := packLoop_spec bounds chars.length 0
  have trims := fun r listed => @trimRange_spec chars r (Nat.le_of_lt (fits r listed).1) (fits r listed).2
  obtain ⟨out, trimmed, listed⟩ :=
    tryFilterMap_spec fun r mem => (trims r mem).imp fun _ spec => spec.1
  refine ⟨out, ?_, fun t mem => ?_, fun i c at_ black => ?_⟩
  · simp [pack, found, ran (chars.length + 1) (by omega), trimmed]
  · obtain ⟨r, before, read⟩ := (listed t).mp mem
    obtain ⟨kept, same, inside, -⟩ := trims r before
    rw [read] at same
    obtain ⟨lt, le⟩ := inside t (Option.some.inj same).symm
    exact ⟨lt, Nat.le_trans le (fits r before).2⟩
  · obtain ⟨inside, -⟩ := List.getElem?_eq_some_iff.mp at_
    obtain ⟨r, mem, low, high⟩ := covered i (Nat.zero_le i) inside
    obtain ⟨kept, read, -, keeps⟩ := trims r mem
    obtain ⟨t, rfl, left, right⟩ := keeps i c low high at_ black
    exact ⟨t, (listed t).mpr ⟨r, mem, read⟩, left, right⟩

end DuDuClaw.Knowledge.Chunks
