/-
# GoalLoop.StateLedger -- the state block in the ledger

Every round's state block is stored as JSON with its hash.  A block whose JSON is too long is
stored as a wrapper around the start of that JSON, which is so written as a string once more.

* `truncateBytes_isSome`: going back to a character's first byte never leaves the text.
* `ledger_bounded`: what is stored is valid JSON and within the bound.
-/
import DuDuClaw.Lib.Ascii
import DuDuClaw.Lib.JsonWriter

namespace DuDuClaw.GoalLoop

open Lib Lib.JsonOf Lib.JsonToken

abbrev Text := List Char

/-! ## Truncation -/

/-- The loop from `end` back to a character boundary. -/
def charBoundary (s : Text) : Nat → Nat
  | 0 => 0
  | n + 1 => if (splitAtByte (n + 1) s).isSome then n + 1 else charBoundary s n

/-- `truncate_bytes`, where `none` is a slice that stops the program. -/
def truncateBytes (s : Text) (maxBytes : Nat) : Option Text :=
  if byteLength s ≤ maxBytes then some s
  else (splitAtByte (charBoundary s maxBytes) s).map (·.1)

theorem charBoundary_spec (s : Text) (n : Nat) :
    charBoundary s n ≤ n ∧ (splitAtByte (charBoundary s n) s).isSome = true := by
  induction n with
  | zero => exact ⟨Nat.le_refl 0, by cases s <;> rfl⟩
  | succ n ih =>
    rw [charBoundary]
    split_ifs with between
    · exact ⟨Nat.le_refl _, between⟩
    · exact ⟨Nat.le_succ_of_le ih.1, ih.2⟩

theorem truncateBytes_isSome (s : Text) (maxBytes : Nat) :
    ∃ front back, truncateBytes s maxBytes = some front ∧ s = front ++ back ∧ byteLength front ≤ maxBytes := by
  unfold truncateBytes
  split_ifs with short
  · exact ⟨s, [], rfl, (List.append_nil s).symm, short⟩
  obtain ⟨within, between⟩ := charBoundary_spec s maxBytes
  obtain ⟨⟨front, back⟩, split⟩ := Option.isSome_iff_exists.mp between
  obtain ⟨whole, length⟩ := splitAtByte_eq_some_iff.mp split
  exact ⟨front, back, by rw [split]; rfl, whole, length ▸ within⟩

/-! ## The block -/

structure StateBlock where
  goal : Text
  confirmedFacts : List Text
  pendingHypotheses : List Text
  excludedApproaches : List Text
  loopWarning : Option Text
  bailHint : Option Text
  toolStreakHint : Option Text

/-- What `short_hash` returns: the first 16 digits of a hexadecimal digest. -/
structure StateHash where
  text : Text
  hex : ∀ c ∈ text, c.isDigit = true ∨ ('a' ≤ c ∧ c ≤ 'f')
  length : text.length = 16

variable (preserveOrder : Bool)

/-- A map of `serde_json` in the order of insertion, where the crate is built so, or by key. -/
def mapOf (fields : List (Text × Json)) : Json :=
  .obj (if preserveOrder then fields else fields.insertionSort fun a b => a.1 ≤ b.1)

def stringArray (items : List Text) : Json := .arr (items.map .str)

def optionString : Option Text → Json
  | none => .null
  | some s => .str s

/-- A `usize`. -/
def usizeNumber (n : Nat) : Json := .num (.ofNat (n % 2 ^ 64))

def stateBlockLedgerMaxBytes : Nat := 16 * 1024

def fullJson (state : StateBlock) (hash : StateHash) : Text :=
  compact (mapOf preserveOrder
    [("v".toList, .num 1),
     ("truncated".toList, .bool false),
     ("state_hash".toList, .str hash.text),
     ("state".toList, mapOf preserveOrder
       [("goal".toList, .str state.goal),
        ("confirmed_facts".toList, stringArray state.confirmedFacts),
        ("pending_hypotheses".toList, stringArray state.pendingHypotheses),
        ("excluded_approaches".toList, stringArray state.excludedApproaches),
        ("loop_warning".toList, optionString state.loopWarning),
        ("bail_hint".toList, optionString state.bailHint),
        ("tool_streak_hint".toList, optionString state.toolStreakHint)])])

def wrapperFields (original : Nat) (hash : StateHash) (start : Text) : List (Text × Json) :=
  [("v".toList, .num 1),
   ("truncated".toList, .bool true),
   ("original_bytes".toList, usizeNumber original),
   ("state_hash".toList, .str hash.text),
   ("state_prefix".toList, .str start)]

def stateBlockLedgerJson (state : StateBlock) (hash : StateHash) : Option Text :=
  let full := fullJson preserveOrder state hash
  if byteLength full ≤ stateBlockLedgerMaxBytes then some full
  else
    (truncateBytes full (stateBlockLedgerMaxBytes / 3)).map fun start =>
      compact (mapOf preserveOrder (wrapperFields (byteLength full) hash start))

/-! ## The bound -/

theorem byteLength_mapOf_le (fields : List (Text × Json)) :
    byteLength (compact (mapOf preserveOrder fields)) ≤ fieldsBytes fields + 2 := by
  refine (byteLength_obj_le _).trans ?_
  split_ifs
  · exact Nat.le_refl _
  · have sorted := (List.perm_insertionSort (fun a b : Text × Json => a.1 ≤ b.1) fields).map fun field =>
      byteLength (quote field.1) + byteLength (compact field.2) + 2
    rw [fieldsBytes, fieldsBytes, sorted.sum_nat]

/-- A `usize` has 20 digits at most. -/
theorem byteLength_usizeNumber_le (n : Nat) : byteLength (compact (usizeNumber n)) ≤ 20 := by
  have below : n % 2 ^ 64 < 10 ^ 20 := (Nat.mod_lt n (by decide)).trans (by decide)
  have digits : ∀ c ∈ Nat.toDigits 10 (n % 2 ^ 64), c.toNat < 128 := fun c listed => by
    have nine : '9'.toNat = 57 := rfl
    have high := (Char.isDigit_iff_toNat.mp (toDigits_digits _ c listed)).2
    omega
  calc byteLength (Nat.toDigits 10 (n % 2 ^ 64))
      = (Nat.toDigits 10 (n % 2 ^ 64)).length := byteLength_ascii digits
    _ ≤ 20 := (Nat.length_toDigits_le_iff (by decide) (by decide)).mpr below

theorem StateHash.range (hash : StateHash) : ∀ c ∈ hash.text, 32 ≤ c.toNat ∧ c.toNat < 128 := by
  intro c listed
  rcases hash.hex c listed with digit | letter
  · have zero : '0'.toNat = 48 := rfl
    have nine : '9'.toNat = 57 := rfl
    have range := Char.isDigit_iff_toNat.mp digit
    omega
  have low : 'a'.toNat ≤ c.toNat := letter.1
  have high : c.toNat ≤ 'f'.toNat := letter.2
  have first : 'a'.toNat = 97 := rfl
  have last : 'f'.toNat = 102 := rfl
  omega

theorem byteLength_hash_le (hash : StateHash) : byteLength (quote hash.text) ≤ 34 := by
  have bytes := byteLength_ascii fun c listed => (hash.range c listed).2
  have quoted := byteLength_quote_le fun c listed => (hash.range c listed).1
  rw [bytes, hash.length] at quoted
  exact quoted

/-- The wrapper doubles what it wraps at most, and adds less than 160 bytes. -/
theorem byteLength_wrapper_le (original : Nat) (hash : StateHash) {start : Text}
    (plain : Plain start) :
    byteLength (compact (mapOf preserveOrder (wrapperFields original hash start))) ≤ 2 * byteLength start + 160 := by
  have whole := byteLength_mapOf_le preserveOrder (wrapperFields original hash start)
  have number := byteLength_usizeNumber_le original
  have digest : byteLength (compact (.str hash.text : Json)) ≤ 34 := byteLength_hash_le hash
  have wrapped : byteLength (compact (.str start : Json)) ≤ 2 * byteLength start + 2 := byteLength_quote_le plain
  have version : byteLength (quote "v".toList) = 3 ∧ byteLength (compact (.num 1 : Json)) = 1 := by decide
  have flag : byteLength (quote "truncated".toList) = 11 ∧ byteLength (compact (.bool true : Json)) = 4 := by decide
  have names : byteLength (quote "original_bytes".toList) = 16 ∧ byteLength (quote "state_hash".toList) = 12 ∧
      byteLength (quote "state_prefix".toList) = 14 := by decide
  have fields : fieldsBytes (wrapperFields original hash start) ≤ 2 * byteLength start + 158 := by
    simp only [fieldsBytes, wrapperFields, List.map_cons, List.map_nil, List.sum_cons, List.sum_nil]
    omega
  omega

/-- Whatever the block holds, the ledger's text is valid JSON within its bound. -/
theorem ledger_bounded (preserveOrder : Bool) (state : StateBlock) (hash : StateHash) :
    ∃ out, stateBlockLedgerJson preserveOrder state hash = some out ∧
      byteLength out ≤ stateBlockLedgerMaxBytes ∧ ValidJson out := by
  unfold stateBlockLedgerJson
  dsimp only
  split_ifs with short
  · exact ⟨_, rfl, short, compact_validJson _⟩
  obtain ⟨start, rest, cut, whole, length⟩ :=
    truncateBytes_isSome (fullJson preserveOrder state hash) (stateBlockLedgerMaxBytes / 3)
  have plain : Plain start := by
    have all : Plain (fullJson preserveOrder state hash) := compact_plain _
    rw [whole, plain_append] at all
    exact all.1
  rw [cut]
  refine ⟨_, rfl, ?_, compact_validJson _⟩
  have third : stateBlockLedgerMaxBytes / 3 = 5461 := rfl
  calc byteLength (compact (mapOf preserveOrder (wrapperFields _ hash start)))
      ≤ 2 * byteLength start + 160 := byteLength_wrapper_le preserveOrder _ hash plain
    _ ≤ 2 * 5461 + 160 := by omega
    _ ≤ stateBlockLedgerMaxBytes := by decide

end DuDuClaw.GoalLoop
