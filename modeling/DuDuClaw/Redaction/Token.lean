/-
# Redaction.Token -- the wire form `<REDACT:CATEGORY:HASH32>`

A Rust `str` is its UTF-8 bytes here (`Text`), so every offset of the model is a
byte offset of the source.  A `Token` carries the proof that its wire string
parses, as the private field of the source's `Token` is only ever filled by
`Token::new` and `Token::parse`.

* `parts_eq_some_iff`: exactly the strings `<REDACT:` category `:` hash `>` with a
  valid category and hash parse.
* `Token.wire_shape`: a wire string starts with the prefix, and holds its only
  `<` first and its only `>` last.  Every scanner relies on this.
-/
import DuDuClaw.Lib.Substring

namespace DuDuClaw.Redaction

/-- A Rust `str`, as its UTF-8 bytes. -/
abbrev Text := List UInt8

/-! ## Constants -/

def ltByte : UInt8 := 0x3C
def gtByte : UInt8 := 0x3E
def colonByte : UInt8 := 0x3A

/-- `TOKEN_PREFIX`, the bytes of `<REDACT:`. -/
def tokenPrefix : Text := [ltByte, 0x52, 0x45, 0x44, 0x41, 0x43, 0x54, colonByte]

/-- `TOKEN_SUFFIX`, the byte of `>`. -/
def tokenSuffix : Text := [gtByte]

def tokenHashLen : Nat := 32

def categoryMaxLen : Nat := 32

/-! ## Validation -/

/-- Why `validate_category` or `validate_hash` refuses. -/
inductive TokenError where
  /-- "category length out of range: N" -/
  | categoryLength (length : Nat)
  /-- "category contains invalid characters: C" -/
  | categoryCharacters (category : Text)
  /-- "hash length must be 32, got N" -/
  | hashLength (length : Nat)
  /-- "hash must be lowercase hex: H" -/
  | hashNotHex (hash : Text)
  deriving DecidableEq

/-- `A..=Z`, `0..=9` and `_`. -/
def isCategoryByte (b : UInt8) : Bool :=
  (0x41 ≤ b && b ≤ 0x5A) || (0x30 ≤ b && b ≤ 0x39) || b == 0x5F

/-- `0..=9` and `a..=f`. -/
def isHexByte (b : UInt8) : Bool :=
  (0x30 ≤ b && b ≤ 0x39) || (0x61 ≤ b && b ≤ 0x66)

def validateCategory (category : Text) : Except TokenError Unit :=
  if category.isEmpty || categoryMaxLen < category.length then
    .error (.categoryLength category.length)
  else if !category.all isCategoryByte then .error (.categoryCharacters category)
  else .ok ()

def validateHash (hash : Text) : Except TokenError Unit :=
  if hash.length != tokenHashLen then .error (.hashLength hash.length)
  else if !hash.all isHexByte then .error (.hashNotHex hash)
  else .ok ()

def stripPrefix (pat s : Text) : Option Text :=
  if pat.isPrefixOf s then some (s.drop pat.length) else none

def stripSuffix (pat s : Text) : Option Text :=
  if pat.isSuffixOf s then some (s.take (s.length - pat.length)) else none

/-- `str::split_once` at one byte: around its first occurrence. -/
def splitOnce (sep : UInt8) : Text → Option (Text × Text)
  | [] => none
  | b :: rest =>
    if b = sep then some ([], rest) else (splitOnce sep rest).map fun p => (b :: p.1, p.2)

/-- The body of `Token::parse`: category and hash of a well-formed wire string. -/
def parts (s : Text) : Option (Text × Text) := do
  let rest ← stripPrefix tokenPrefix s
  let body ← stripSuffix tokenSuffix rest
  let (category, hash) ← splitOnce colonByte body
  match validateCategory category, validateHash hash with
  | .ok (), .ok () => some (category, hash)
  | _, _ => none

def wireOf (category hash : Text) : Text :=
  tokenPrefix ++ category ++ [colonByte] ++ hash ++ tokenSuffix

def ValidCategory (category : Text) : Prop := validateCategory category = .ok ()

def ValidHash (hash : Text) : Prop := validateHash hash = .ok ()

instance (category : Text) : Decidable (ValidCategory category) :=
  inferInstanceAs (Decidable (_ = _))

instance (hash : Text) : Decidable (ValidHash hash) :=
  inferInstanceAs (Decidable (_ = _))

variable {category hash pat s : Text}

theorem validCategory_iff : ValidCategory category ↔ category ≠ [] ∧ category.length ≤ categoryMaxLen ∧
      ∀ b ∈ category, isCategoryByte b := by
  unfold ValidCategory validateCategory
  split
  · rename_i out
    simp only [Bool.or_eq_true, List.isEmpty_iff, decide_eq_true_eq] at out
    simp only [reduceCtorEq, false_iff, not_and]
    rintro nonempty short
    rcases out with h | h
    · exact absurd h nonempty
    · omega
  · rename_i range
    simp only [Bool.or_eq_true, List.isEmpty_iff, decide_eq_true_eq, not_or, Nat.not_lt] at range
    split <;> rename_i chars <;> simp_all

theorem validHash_iff : ValidHash hash ↔ hash.length = tokenHashLen ∧ ∀ b ∈ hash, isHexByte b := by
  unfold ValidHash validateHash
  split
  · rename_i length
    simp_all
  · rename_i length
    split <;> simp_all

/-! ## The wire form -/

theorem stripPrefix_eq_some_iff {rest : Text} : stripPrefix pat s = some rest ↔ s = pat ++ rest := by
  unfold stripPrefix
  split
  · rename_i isPrefix
    obtain ⟨t, rfl⟩ := List.isPrefixOf_iff_prefix.mp isPrefix
    simp [eq_comm]
  rename_i noPrefix
  simp only [reduceCtorEq, false_iff]
  rintro rfl
  exact noPrefix (List.isPrefixOf_iff_prefix.mpr (List.prefix_append _ _))

theorem stripSuffix_eq_some_iff {body : Text} : stripSuffix pat s = some body ↔ s = body ++ pat := by
  unfold stripSuffix
  split
  · rename_i isSuffix
    obtain ⟨t, rfl⟩ := List.isSuffixOf_iff_suffix.mp isSuffix
    simp [eq_comm]
  rename_i noSuffix
  simp only [reduceCtorEq, false_iff]
  rintro rfl
  exact noSuffix (List.isSuffixOf_iff_suffix.mpr (List.suffix_append _ _))

theorem splitOnce_eq_some_iff {sep : UInt8} {before after : Text} :
    splitOnce sep s = some (before, after) ↔ s = before ++ sep :: after ∧ sep ∉ before := by
  induction s generalizing before with
  | nil => simp [splitOnce]
  | cons b rest ih =>
    simp only [splitOnce]
    split
    · rename_i here
      subst here
      cases before with
      | nil => simp
      | cons c cs =>
        simp only [Option.some.injEq, Prod.mk.injEq, reduceCtorEq, false_and, List.cons_append,
          List.cons.injEq, List.mem_cons, not_or, false_iff, not_and]
        rintro ⟨rfl, -⟩ ne
        exact absurd rfl ne
    · rename_i notHere
      rw [Option.map_eq_some_iff]
      constructor
      · rintro ⟨⟨x, y⟩, found, eq⟩
        obtain ⟨rfl, rfl⟩ := Prod.mk.inj eq
        obtain ⟨rfl, absent⟩ := ih.mp found
        exact ⟨rfl, by simp [Ne.symm notHere, absent]⟩
      · rintro ⟨eq, absent⟩
        cases before with
        | nil => exact absurd (List.cons.inj eq).1 notHere
        | cons c cs =>
          obtain ⟨rfl, rfl⟩ := List.cons.inj eq
          simp only [List.mem_cons, not_or] at absent
          exact ⟨(cs, after), ih.mpr ⟨rfl, absent.2⟩, rfl⟩

theorem colon_not_mem_category (valid : ValidCategory category) : colonByte ∉ category := by
  intro member
  have := (validCategory_iff.mp valid).2.2 colonByte member
  revert this
  decide

/-- **Exactly the canonical strings parse.** -/
theorem parts_eq_some_iff : parts s = some (category, hash) ↔
      s = wireOf category hash ∧ ValidCategory category ∧ ValidHash hash := by
  constructor
  · intro parsed
    simp only [parts, bind, Option.bind_eq_some_iff] at parsed
    obtain ⟨rest, stripped, body, bodyEq, ⟨c, h⟩, split, checked⟩ := parsed
    obtain rfl := stripPrefix_eq_some_iff.mp stripped
    obtain rfl := stripSuffix_eq_some_iff.mp bodyEq
    obtain ⟨rfl, -⟩ := splitOnce_eq_some_iff.mp split
    dsimp only at checked
    split at checked
    · rename_i validC validH
      obtain ⟨rfl, rfl⟩ := Prod.mk.inj (Option.some.inj checked)
      exact ⟨by simp [wireOf], validC, validH⟩
    · cases checked
  · rintro ⟨rfl, validC, validH⟩
    have strip : stripPrefix tokenPrefix (wireOf category hash) =
        some ((category ++ colonByte :: hash) ++ tokenSuffix) :=
      stripPrefix_eq_some_iff.mpr (by simp [wireOf])
    have body : stripSuffix tokenSuffix ((category ++ colonByte :: hash) ++ tokenSuffix) =
        some (category ++ colonByte :: hash) :=
      stripSuffix_eq_some_iff.mpr rfl
    have split : splitOnce colonByte (category ++ colonByte :: hash) = some (category, hash) :=
      splitOnce_eq_some_iff.mpr ⟨rfl, colon_not_mem_category validC⟩
    simp only [parts, bind, strip, body, split, Option.bind_some]
    rw [show validateCategory category = .ok () from validC, show validateHash hash = .ok () from validH]

/-! ## Tokens -/

/-- `Token`: a wire string that parses. -/
structure Token where
  wire : Text
  wellFormed : (parts wire).isSome
  deriving DecidableEq

namespace Token

def parse (s : Text) : Option Token :=
  if h : (parts s).isSome then some ⟨s, h⟩ else none

variable {category hash : Text} {tok : Token}

theorem exists_wireOf (tok : Token) :
    ∃ category hash, tok.wire = wireOf category hash ∧ ValidCategory category ∧ ValidHash hash := by
  obtain ⟨⟨category, hash⟩, parsed⟩ := Option.isSome_iff_exists.mp tok.wellFormed
  exact ⟨category, hash, parts_eq_some_iff.mp parsed⟩

def new (category hash : Text) : Except TokenError Token :=
  match validC : validateCategory category with
  | .error e => .error e
  | .ok () =>
    match validH : validateHash hash with
    | .error e => .error e
    | .ok () => .ok ⟨wireOf category hash, by
        rw [parts_eq_some_iff.mpr ⟨rfl, validC, validH⟩]; rfl⟩

theorem new_eq_ok (validC : ValidCategory category) (validH : ValidHash hash) :
    ∃ tok, new category hash = .ok tok ∧ tok.wire = wireOf category hash := by
  unfold new
  split
  · rename_i e failed
    rw [show validateCategory category = .ok () from validC] at failed
    cases failed
  split
  · rename_i e failed
    rw [show validateHash hash = .ok () from validH] at failed
    cases failed
  · exact ⟨_, rfl, rfl⟩

theorem wire_of_new (made : new category hash = .ok tok) :
    tok.wire = wireOf category hash ∧ ValidCategory category ∧ ValidHash hash := by
  unfold new at made
  split at made
  · cases made
  rename_i validC
  split at made
  · cases made
  · rename_i validH
    obtain rfl := Except.ok.inj made
    exact ⟨rfl, validC, validH⟩

theorem parse_eq_some_iff {s : Text} : parse s = some tok ↔ tok.wire = s := by
  unfold parse
  split
  · rw [Option.some.injEq]
    constructor
    · rintro rfl
      rfl
    · rintro rfl
      rfl
  rename_i malformed
  simp only [reduceCtorEq, false_iff]
  rintro rfl
  exact malformed tok.wellFormed

theorem not_mem_of_valid (validC : ValidCategory category)
    (validH : ValidHash hash) {b : UInt8} (noCategory : isCategoryByte b = false)
    (noHex : isHexByte b = false) (noColon : b ≠ colonByte) : b ∉ category ++ [colonByte] ++ hash := by
  intro member
  simp only [List.mem_append, List.mem_singleton] at member
  rcases member with (member | eq) | member
  · have := (validCategory_iff.mp validC).2.2 b member
    rw [noCategory] at this
    cases this
  · exact noColon eq
  · have := (validHash_iff.mp validH).2 b member
    rw [noHex] at this
    cases this

/-- **The shape every scanner relies on.**  A wire string is the prefix, a body
without `<` and `>`, and the closing `>`. -/
theorem wire_shape (tok : Token) :
    ∃ body, tok.wire = tokenPrefix ++ body ++ tokenSuffix ∧ ltByte ∉ body ∧ gtByte ∉ body := by
  obtain ⟨category, hash, eq, validC, validH⟩ := tok.exists_wireOf
  refine ⟨category ++ [colonByte] ++ hash, by rw [eq]; simp [wireOf], ?_, ?_⟩
  · exact not_mem_of_valid validC validH (by decide) (by decide) (by decide)
  · exact not_mem_of_valid validC validH (by decide) (by decide) (by decide)

end Token

end DuDuClaw.Redaction
