/-
# Lib.TomlValue -- TOML values and their equality

The value tree of the `toml` crate.  A table is kept in the order of its keys, as a
`BTreeMap` is; a float is its bits.  The equality of the crate is that of its parts, so a
float that is not a number differs from itself, and the two zeros are equal.

* `normal`: one value for the two zeros, and one for all that are not numbers.
* `eq_iff`: the equality of the crate holds exactly between values of one normal form in
  which every float is a number.
* `eq_of_lookups`: ordered entries are determined by their lookups.
-/
import DuDuClaw.Lib.Lookup
import Mathlib.Data.Char
import Mathlib.Data.List.Lex
import Mathlib.Order.Lattice

namespace DuDuClaw.Lib

/-! ## Floats by their bits -/

namespace FloatBits

variable (bits : UInt64)

def magnitude : UInt64 := bits &&& 0x7FFFFFFFFFFFFFFF

def isNaN : Bool := 0x7FF0000000000000 < magnitude bits

def isZero : Bool := magnitude bits == 0

/-- `==` of two floats. -/
def eq (a b : UInt64) : Bool := !isNaN a && !isNaN b && (a == b || (isZero a && isZero b))

/-- The bits of `nan`. -/
def nan : UInt64 := 0x7FF8000000000000

/-- One float for each number, and one for what is not a number. -/
def normal : UInt64 := if isNaN bits then nan else if isZero bits then 0 else bits

theorem isNaN_normal : isNaN (normal bits) = isNaN bits := by
  unfold normal
  split
  · rename_i odd
    rw [odd]
    decide
  rename_i number
  split
  · rw [Bool.eq_false_iff.mpr number]
    decide
  · rfl

theorem isZero_normal {bits : UInt64} (number : isNaN bits = false) : isZero (normal bits) = isZero bits := by
  unfold normal
  rw [if_neg (by simp [number])]
  split
  · rename_i zero
    rw [zero]
    decide
  · rfl

theorem eq_iff (a b : UInt64) : eq a b = true ↔ isNaN a = false ∧ normal a = normal b := by
  unfold eq
  cases odd : isNaN a with
  | true => simp
  | false =>
    cases odd' : isNaN b with
    | true =>
      refine iff_of_false (by simp) ?_
      rintro ⟨-, same⟩
      have agree := isNaN_normal a
      rw [same, isNaN_normal, odd, odd'] at agree
      cases agree
    | false =>
      simp only [Bool.not_false, Bool.true_and, Bool.or_eq_true, beq_iff_eq, Bool.and_eq_true, true_and]
      constructor
      · rintro (rfl | ⟨zero, zero'⟩)
        · rfl
        · simp [normal, odd, odd', zero, zero']
      · intro same
        have zeros := isZero_normal odd
        rw [same, isZero_normal odd'] at zeros
        cases zero : isZero a with
        | true => exact .inr ⟨rfl, zeros.trans zero⟩
        | false =>
          rw [zero] at zeros
          exact .inl (by simpa [normal, odd, odd', zero, zeros] using same)

end FloatBits

/-! ## Values -/

inductive TomlOffset where
  | z
  | custom (minutes : Int)
  deriving DecidableEq

structure TomlDate where
  year : Nat
  month : Nat
  day : Nat
  deriving DecidableEq

structure TomlTime where
  hour : Nat
  minute : Nat
  second : Nat
  nanosecond : Nat
  deriving DecidableEq

structure TomlDatetime where
  date : Option TomlDate
  time : Option TomlTime
  offset : Option TomlOffset
  deriving DecidableEq

/-- `toml::Value`. -/
inductive TomlValue where
  | string (s : List Char)
  | integer (n : Int)
  | float (bits : UInt64)
  | boolean (b : Bool)
  | datetime (d : TomlDatetime)
  | array (items : List TomlValue)
  | table (entries : List (List Char × TomlValue))

abbrev TomlEntries := List (List Char × TomlValue)

namespace TomlValue

def asStr : TomlValue → Option (List Char)
  | string s => some s
  | _ => none

def asTable : TomlValue → Option TomlEntries
  | table entries => some entries
  | _ => none

mutual
/-- `==` of two values. -/
def eq : TomlValue → TomlValue → Bool
  | string s, string t => s == t
  | integer m, integer n => m == n
  | float a, float b => FloatBits.eq a b
  | boolean a, boolean b => a == b
  | datetime d, datetime e => decide (d = e)
  | array xs, array ys => eqItems xs ys
  | table es, table fs => eqEntries es fs
  | _, _ => false

def eqItems : List TomlValue → List TomlValue → Bool
  | [], [] => true
  | x :: xs, y :: ys => x.eq y && eqItems xs ys
  | _, _ => false

def eqEntries : List (List Char × TomlValue) → List (List Char × TomlValue) → Bool
  | [], [] => true
  | (k, v) :: es, (l, w) :: fs => k == l && v.eq w && eqEntries es fs
  | _, _ => false
end

mutual
def normal : TomlValue → TomlValue
  | float bits => float (FloatBits.normal bits)
  | array items => array (normalItems items)
  | table entries => table (normalEntries entries)
  | v => v

def normalItems : List TomlValue → List TomlValue
  | [] => []
  | x :: xs => x.normal :: normalItems xs

def normalEntries : List (List Char × TomlValue) → List (List Char × TomlValue)
  | [] => []
  | (k, v) :: es => (k, v.normal) :: normalEntries es
end

mutual
def numeric : TomlValue → Bool
  | float bits => !FloatBits.isNaN bits
  | array items => numericItems items
  | table entries => numericEntries entries
  | _ => true

def numericItems : List TomlValue → Bool
  | [] => true
  | x :: xs => x.numeric && numericItems xs

def numericEntries : List (List Char × TomlValue) → Bool
  | [] => true
  | (_, v) :: es => v.numeric && numericEntries es
end

mutual
/-- **Equality of values**: one normal form, and nothing in it that is not a number. -/
theorem eq_iff : (v w : TomlValue) → (v.eq w = true ↔ v.numeric = true ∧ v.normal = w.normal)
  | string s, w => by cases w <;> simp [eq, numeric, normal]
  | integer n, w => by cases w <;> simp [eq, numeric, normal]
  | float a, w => by
    cases w with
    | float b => simp [eq, numeric, normal, FloatBits.eq_iff]
    | _ => simp [eq, numeric, normal]
  | boolean b, w => by cases w <;> simp [eq, numeric, normal]
  | datetime d, w => by cases w <;> simp [eq, numeric, normal]
  | array xs, w => by
    cases w with
    | array ys => simpa [eq, numeric, normal] using eqItems_iff xs ys
    | _ => simp [eq, normal]
  | table es, w => by
    cases w with
    | table fs => simpa [eq, numeric, normal] using eqEntries_iff es fs
    | _ => simp [eq, normal]

theorem eqItems_iff : (xs ys : List TomlValue) →
    (eqItems xs ys = true ↔ numericItems xs = true ∧ normalItems xs = normalItems ys)
  | [], ys => by cases ys <;> simp [eqItems, numericItems, normalItems]
  | x :: xs, ys => by
    cases ys with
    | nil => simp [eqItems, normalItems]
    | cons y ys =>
      simp only [eqItems, numericItems, normalItems, Bool.and_eq_true, List.cons.injEq,
        eq_iff x y, eqItems_iff xs ys]
      tauto

theorem eqEntries_iff : (es fs : List (List Char × TomlValue)) →
    (eqEntries es fs = true ↔ numericEntries es = true ∧ normalEntries es = normalEntries fs)
  | [], fs => by cases fs <;> simp [eqEntries, numericEntries, normalEntries]
  | (k, v) :: es, fs => by
    cases fs with
    | nil => simp [eqEntries, normalEntries]
    | cons f fs =>
      obtain ⟨l, w⟩ := f
      simp only [eqEntries, numericEntries, normalEntries, Bool.and_eq_true, List.cons.injEq,
        Prod.mk.injEq, beq_iff_eq, eq_iff v w, eqEntries_iff es fs]
      tauto
end

/-- `==` of two optional values. -/
def eqOption : Option TomlValue → Option TomlValue → Bool
  | none, none => true
  | some v, some w => v.eq w
  | _, _ => false

theorem eqOption_iff (v w : Option TomlValue) :
    eqOption v w = true ↔ (∀ x ∈ v, x.numeric = true) ∧ v.map normal = w.map normal := by
  cases v with
  | none => cases w <;> simp [eqOption]
  | some v =>
    cases w with
    | none => simp [eqOption]
    | some w => simp [eqOption, eq_iff]

/-! ## Tables -/

theorem lookup_normalEntries (es : TomlEntries) (key : List Char) :
    (normalEntries es).lookup key = (es.lookup key).map normal := by
  induction es with
  | nil => rfl
  | cons e es ih =>
    obtain ⟨k, v⟩ := e
    rw [normalEntries, List.lookup_cons, List.lookup_cons, ih]
    split <;> rfl

theorem keys_normalEntries (es : TomlEntries) : (normalEntries es).map Prod.fst = es.map Prod.fst := by
  induction es with
  | nil => rfl
  | cons e es ih =>
    obtain ⟨k, v⟩ := e
    rw [normalEntries, List.map_cons, List.map_cons, ih]

/-- The keys come in their order, none of them twice. -/
def Ordered {κ ν : Type} [LinearOrder κ] (es : List (κ × ν)) : Prop := (es.map Prod.fst).Pairwise (· < ·)

mutual
def AllOrdered : TomlValue → Prop
  | array items => AllOrderedItems items
  | table entries => Ordered entries ∧ AllOrderedEntries entries
  | _ => True

def AllOrderedItems : List TomlValue → Prop
  | [] => True
  | x :: xs => x.AllOrdered ∧ AllOrderedItems xs

def AllOrderedEntries : List (List Char × TomlValue) → Prop
  | [] => True
  | (_, v) :: es => v.AllOrdered ∧ AllOrderedEntries es
end

variable {es : TomlEntries} {κ ν : Type}

theorem AllOrderedEntries.of_lookup (ordered : AllOrderedEntries es)
    {key : List Char} {v : TomlValue} (found : es.lookup key = some v) : v.AllOrdered := by
  induction es with
  | nil => cases found
  | cons e es ih =>
    obtain ⟨k, w⟩ := e
    rw [List.lookup_cons] at found
    split at found
    · cases found
      exact ordered.1
    · exact ih ordered.2 found

theorem lookup_of_lt [LinearOrder κ] [BEq κ] [LawfulBEq κ] {es : List (κ × ν)} {key : κ}
    (before : ∀ k ∈ es.map Prod.fst, key < k) : es.lookup key = none := by
  rw [List.lookup_eq_none_iff]
  intro entry listed
  exact bne_iff_ne.mpr (before _ (List.mem_map_of_mem listed)).ne

/-- **Ordered entries are determined by their lookups.** -/
theorem eq_of_lookups [LinearOrder κ] [BEq κ] [LawfulBEq κ] {es fs : List (κ × ν)}
    (left : Ordered es) (right : Ordered fs) (same : ∀ key, es.lookup key = fs.lookup key) : es = fs := by
  induction es generalizing fs with
  | nil =>
    cases fs with
    | nil => rfl
    | cons f fs =>
      have first := same f.1
      rw [List.lookup_nil, List.lookup_cons_self] at first
      cases first
  | cons e es ih =>
    cases fs with
    | nil =>
      have first := same e.1
      rw [List.lookup_nil, List.lookup_cons_self] at first
      cases first
    | cons f fs =>
      obtain ⟨k, v⟩ := e
      obtain ⟨l, w⟩ := f
      obtain ⟨above, below⟩ := List.pairwise_cons.mp left
      obtain ⟨above', below'⟩ := List.pairwise_cons.mp right
      rcases lt_trichotomy k l with less | rfl | more
      · have missing : ((l, w) :: fs).lookup k = none := by
          refine lookup_of_lt fun other listed => ?_
          rcases List.mem_cons.mp listed with rfl | later
          · exact less
          · exact less.trans (above' other later)
        have first := same k
        rw [missing, List.lookup_cons_self] at first
        cases first
      · have first := same k
        rw [List.lookup_cons_self, List.lookup_cons_self] at first
        cases first
        rw [ih below below' fun key => ?_]
        by_cases here : key = k
        · subst here
          rw [lookup_of_lt above, lookup_of_lt above']
        · have rest := same key
          rwa [List.lookup_cons, List.lookup_cons, beq_false_of_ne here] at rest
      · have missing : ((k, v) :: es).lookup l = none := by
          refine lookup_of_lt fun other listed => ?_
          rcases List.mem_cons.mp listed with rfl | later
          · exact more
          · exact more.trans (above other later)
        have first := same l
        rw [missing, List.lookup_cons_self] at first
        cases first

theorem numericEntries_iff (ordered : Ordered es) :
    numericEntries es = true ↔ ∀ key, ∀ v ∈ es.lookup key, v.numeric = true := by
  induction es with
  | nil => simp [numericEntries]
  | cons e es ih =>
    obtain ⟨k, v⟩ := e
    obtain ⟨above, below⟩ := List.pairwise_cons.mp ordered
    rw [numericEntries, Bool.and_eq_true, ih below]
    constructor
    · rintro ⟨here, later⟩ key w found
      rw [List.lookup_cons] at found
      split at found
      · cases found
        exact here
      · exact later key w found
    · intro all
      refine ⟨all k v (by rw [List.lookup_cons_self]; rfl), fun key w found => ?_⟩
      apply all key w
      rw [List.lookup_cons]
      split
      · rename_i same
        rw [eq_of_beq same, lookup_of_lt above] at found
        cases found
      · exact found

/-- Two tables are equal when every key is. -/
theorem normalEntries_eq_iff {fs : TomlEntries} (left : Ordered es) (right : Ordered fs) :
    normalEntries es = normalEntries fs ↔ ∀ key, (es.lookup key).map normal = (fs.lookup key).map normal := by
  constructor
  · intro same key
    rw [← lookup_normalEntries, same, lookup_normalEntries]
  · intro same
    apply eq_of_lookups
    · rwa [Ordered, keys_normalEntries]
    · rwa [Ordered, keys_normalEntries]
    · intro key
      rw [lookup_normalEntries, lookup_normalEntries, same]

end TomlValue

end DuDuClaw.Lib
