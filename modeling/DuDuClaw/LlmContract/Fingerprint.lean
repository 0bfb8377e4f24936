/-
# LlmContract.Fingerprint -- names for a cause and for a tuple of references

fingerprint.rs: the fingerprint of a list of parts, and the canonical id of a list of references.

* `parse_derive`: a fingerprint is valid.
* `derive_separates_iff`: two lists share one exactly when they are one text joined by NUL, with one slug.
* `canonicalId_lossless`: an id reads back as the NFC forms of its references.
-/
import DuDuClaw.Lib.Ascii
import DuDuClaw.Lib.Chars
import DuDuClaw.Lib.Fallible
import DuDuClaw.Lib.Json

namespace DuDuClaw.LlmContract

open DuDuClaw.Lib

set_option autoImplicit false

abbrev Text := List Char

/-! ## Visible text -/

def inRanges (ranges : List (Nat × Nat)) (c : Char) : Bool :=
  ranges.any fun r => r.1 ≤ c.toNat && c.toNat ≤ r.2

def isCf : Char → Bool := inRanges
  [(0xAD, 0xAD), (0x600, 0x605), (0x61C, 0x61C), (0x6DD, 0x6DD), (0x70F, 0x70F), (0x890, 0x891), (0x8E2, 0x8E2),
    (0x180E, 0x180E), (0x200B, 0x200F), (0x202A, 0x202E), (0x2060, 0x2064), (0x2066, 0x206F), (0xFEFF, 0xFEFF),
    (0xFFF9, 0xFFFB), (0x110BD, 0x110BD), (0x110CD, 0x110CD), (0x13430, 0x1343F), (0x1BCA0, 0x1BCA3),
    (0x1D173, 0x1D17A), (0xE0001, 0xE0001), (0xE0020, 0xE007F)]

def isDefaultIgnorable : Char → Bool := inRanges
  [(0xAD, 0xAD), (0x34F, 0x34F), (0x61C, 0x61C), (0x115F, 0x1160), (0x17B4, 0x17B5), (0x180B, 0x180F),
    (0x200B, 0x200F), (0x202A, 0x202E), (0x2060, 0x206F), (0x3164, 0x3164), (0xFE00, 0xFE0F), (0xFEFF, 0xFEFF),
    (0xFFA0, 0xFFA0), (0xFFF0, 0xFFF8), (0x1BCA0, 0x1BCA3), (0x1D173, 0x1D17A), (0xE0000, 0xE0FFF)]

def isForbiddenIdentifierChar (c : Char) : Bool :=
  isControl c || isCf c || c.toNat == 0x2028 || c.toNat == 0x2029 || isDefaultIgnorable c

def hasVisibleContent (s : Text) : Bool :=
  s.any fun c => !(isWhitespace c || isControl c || isCf c || isDefaultIgnorable c)

/-! ## Fingerprints -/

inductive FingerprintError where
  | empty
  | invalidLeadingCharacter
  | invalidCharacter (index : Nat)
  | tooLong (max : Nat)

def isFingerprintChar (c : Char) : Bool := c.isAlphanum || ['.', '_', ':', '/', '@', '+', '-'].contains c

def parse : Text → Except FingerprintError Text
  | [] => .error .empty
  | first :: rest => do
    let s := first :: rest
    refuseIf (512 < byteLength s) (.tooLong 512)
    refuseIf (first.isAlphanum = false) .invalidLeadingCharacter
    refuseIf (s.all isFingerprintChar = false) (.invalidCharacter (byteLength (s.takeWhile isFingerprintChar)))
    return s

def slugChar (c : Char) : Bool := c.isAlphanum || ['.', '_', '/', '-'].contains c

/-- A character of the slug; a run of `-` is one. -/
def slugStep (out : Text) (c : Char) : Text :=
  let mapped := if slugChar c then c else '-'
  if mapped = '-' ∧ out.getLast? = some '-' then out else out ++ [mapped]

def slug (part : Text) : Text :=
  ((trimMatches (· == '-') (part.foldl slugStep [])).take 48).rdropWhile (· == '-')

/-- The readable part in front of the `@`. -/
def readable (parts : List Text) : Text :=
  let joined := ['/'].intercalate ((parts.map slug).filter (!·.isEmpty))
  let kept := (joined.dropWhile (!·.isAlphanum)).take 256
  if kept.isEmpty then ['f', 'p'] else kept

def nul : Char := Char.ofNat 0

def joined (parts : List Text) : Text := [nul].intercalate parts

/-- The first sixteen hexadecimal digits. -/
def digits (digest : BitVec 256) : Text :=
  (List.range 16).map fun i => JsonOf.hexDigit (digest.toNat >>> (4 * (63 - i)) % 16)

def derive (sha256 : List UInt8 → BitVec 256) (parts : List Text) : Text :=
  readable parts ++ '@' :: digits (sha256 (bytes (joined parts)))

section Valid

variable {c : Char} {parts : List Text} {sha256 : List UInt8 → BitVec 256}

theorem fingerprint_of_slugChar (plain : slugChar c = true) : isFingerprintChar c = true := by
  simp only [slugChar, isFingerprintChar, Bool.or_eq_true, List.contains_eq_mem, decide_eq_true_eq] at plain ⊢
  exact plain.imp_right fun listed => (by decide : ∀ c ∈ ['.', '_', '/', '-'], _) c listed

theorem fingerprint_ascii (plain : isFingerprintChar c = true) : c.toNat < 128 := by
  simp only [isFingerprintChar, Bool.or_eq_true, List.contains_eq_mem, decide_eq_true_eq] at plain
  obtain letter | listed := plain
  · have codes := isAlphanum_iff.mp letter
    omega
  · exact (by decide : ∀ c ∈ ['.', '_', ':', '/', '@', '+', '-'], c.toNat < 128) c listed

theorem slug_chars (part : Text) : ∀ c ∈ slug part, slugChar c = true := by
  have fold : ∀ out : Text, (∀ c ∈ out, slugChar c = true) →
      ∀ c ∈ part.foldl slugStep out, slugChar c = true := by
    induction part with
    | nil => exact fun out all => all
    | cons c rest ih =>
      refine fun out all => ih _ ?_
      unfold slugStep
      split_ifs
      all_goals grind [slugChar]
  intro c listed
  have kept := List.mem_of_mem_take ((List.rdropWhile_prefix _ _).subset listed)
  rw [trimMatches, List.mem_reverse] at kept
  exact fold [] (by simp) c ((List.dropWhile_sublist _).subset
    (List.mem_reverse.mp ((List.dropWhile_sublist _).subset kept)))

theorem readable_chars : ∀ c ∈ readable parts, slugChar c = true := by
  have inside : ∀ slugs : List Text, (∀ s ∈ slugs, ∀ c ∈ s, slugChar c = true) →
      ∀ c ∈ ['/'].intercalate slugs, slugChar c = true := by
    intro slugs
    induction slugs with
    | nil => simp
    | cons s rest ih =>
      intro all c listed
      cases rest with
      | nil => exact all s (by simp) c (by simpa using listed)
      | cons t rest => grind [List.intercalate_cons_cons, slugChar]
  intro c listed
  unfold readable at listed
  dsimp only at listed
  split_ifs at listed with nothing
  · exact (by decide : ∀ c ∈ ['f', 'p'], slugChar c = true) c listed
  · refine inside _ ?_ c ((List.dropWhile_sublist _).subset (List.mem_of_mem_take listed))
    intro s kept
    obtain ⟨part, -, rfl⟩ := List.mem_map.mp (List.mem_of_mem_filter kept)
    exact slug_chars part

theorem readable_shape :
    ∃ first rest, readable parts = first :: rest ∧ first.isAlphanum = true ∧ rest.length < 256 := by
  unfold readable
  dsimp only
  split_ifs with nothing
  · exact ⟨'f', ['p'], rfl, rfl, by decide⟩
  · generalize ['/'].intercalate ((parts.map slug).filter (!·.isEmpty)) = text at nothing ⊢
    have head := List.head?_dropWhile_not (!·.isAlphanum) text
    cases kept : text.dropWhile (!·.isAlphanum) with
    | nil => simp [kept] at nothing
    | cons first rest =>
      refine ⟨first, rest.take 255, rfl, by simpa [kept] using head, ?_⟩
      rw [List.length_take]
      omega

theorem digits_chars (digest : BitVec 256) : ∀ c ∈ digits digest, c.isAlphanum = true := by
  intro c listed
  obtain ⟨i, -, rfl⟩ := List.mem_map.mp listed
  exact (by decide : ∀ n < 16, (JsonOf.hexDigit n).isAlphanum = true) _ (Nat.mod_lt _ (by decide))

theorem parse_derive : parse (derive sha256 parts) = .ok (derive sha256 parts) := by
  have chars : ∀ c ∈ derive sha256 parts, isFingerprintChar c = true := by
    intro c listed
    obtain front | rfl | digit := (List.mem_append.trans (or_congr_right List.mem_cons)).mp listed
    · exact fingerprint_of_slugChar (readable_chars c front)
    · rfl
    · simp [isFingerprintChar, digits_chars _ c digit]
  have size : byteLength (derive sha256 parts) ≤ 512 := by
    obtain ⟨first, rest, shape, -, short⟩ := @readable_shape parts
    rw [byteLength_ascii fun c listed => fingerprint_ascii (chars c listed), derive, shape]
    simp [digits]
    omega
  obtain ⟨first, rest, shape, letter, -⟩ := @readable_shape parts
  have whole : derive sha256 parts = first :: (rest ++ '@' :: digits (sha256 (bytes (joined parts)))) := by
    rw [derive, shape, List.cons_append]
  rw [whole] at chars size ⊢
  simp only [parse, refuseIf, List.all_eq_false]
  rw [if_neg (by omega), if_neg (by simp [letter]), if_neg (by simpa using chars)]
  rfl

end Valid

/-! ## What a fingerprint separates -/

/-- UTF-8 loses nothing. -/
theorem bytes_inj {s t : Text} : bytes s = bytes t ↔ s = t := by
  refine ⟨fun same => ?_, fun same => same ▸ rfl⟩
  have encoded : s.utf8Encode = t.utf8Encode := congrArg List.toByteArray same
  exact String.ofList_injective (String.toByteArray_inj.mp (by simpa using encoded))

/-! ## Canonical ids -/

inductive CanonicalRefError where
  | empty
  | surroundingWhitespace
  | forbiddenCharacter (index : Nat)

def isUnreserved (c : Char) : Bool := c.isAlphanum || ['-', '.', '_', '~'].contains c

/-- `%HH` in upper case, but for unreserved characters. -/
def percentByte (b : UInt8) : Text :=
  let c := Char.ofUInt8 b
  if isUnreserved c then [c]
  else ['%', (JsonOf.hexDigit (b.toNat / 16)).toUpper, (JsonOf.hexDigit (b.toNat % 16)).toUpper]

def percentEncode (raw : List UInt8) : Text := raw.flatMap percentByte

section Canonical

variable (nfc : Text → Text)

def canonicalRef (r : Text) : Except CanonicalRefError Text := do
  refuseIf (r = []) .empty
  refuseIf (trim r ≠ r) .surroundingWhitespace
  refuseIf (r.any isForbiddenIdentifierChar = true) (.forbiddenCharacter (r.findIdx isForbiddenIdentifierChar))
  refuseIf (hasVisibleContent r = false) .empty
  return percentEncode (bytes (nfc r))

def canonicalId (refs : List Text) : Except CanonicalRefError Text := do
  refuseIf (refs = []) .empty
  return [':', ':'].intercalate (← refs.mapM (canonicalRef nfc))

end Canonical

/-! ## Reading an id back -/

/-- Percent-decoding, RFC 3986. -/
def percentDecode : Text → List UInt8
  | '%' :: high :: low :: rest =>
    UInt8.ofNat (16 * JsonOf.hexValue high.toLower + JsonOf.hexValue low.toLower) :: percentDecode rest
  | c :: rest => bytes [c] ++ percentDecode rest
  | [] => []

/-- `id.split("::")`. -/
def splitRefs : Text → List Text
  | ':' :: ':' :: rest => [] :: splitRefs rest
  | c :: rest => (splitRefs rest).modifyHead (c :: ·)
  | [] => [[]]

section Reading

variable {nfc : Text → Text} {c : Char} {piece rest : Text}

theorem percentDecode_plain (other : c ≠ '%') : percentDecode (c :: rest) = bytes [c] ++ percentDecode rest := by
  rw [percentDecode.eq_def]
  grind

theorem splitRefs_plain (other : c ≠ ':') : splitRefs (c :: rest) = (splitRefs rest).modifyHead (c :: ·) := by
  rw [splitRefs.eq_def]
  grind

theorem hexDigit_upper : ∀ n < 16, (JsonOf.hexDigit n).toUpper ≠ ':' ∧
    JsonOf.hexValue (JsonOf.hexDigit n).toUpper.toLower = n := by decide

theorem unreserved_narrow (plain : isUnreserved c = true) : c.utf8Size = 1 ∧ c ≠ '%' ∧ c ≠ ':' := by
  simp only [isUnreserved, Bool.or_eq_true, List.contains_eq_mem, decide_eq_true_eq] at plain
  obtain letter | listed := plain
  · refine ⟨narrow_of_isAlphanum letter, ?_, ?_⟩ <;> rintro rfl <;> exact absurd letter (by decide)
  · exact (by decide : ∀ c ∈ ['-', '.', '_', '~'], c.utf8Size = 1 ∧ c ≠ '%' ∧ c ≠ ':') c listed

theorem percentDecode_byte (b : UInt8) (rest : Text) :
    percentDecode (percentByte b ++ rest) = b :: percentDecode rest := by
  have small := b.toNat_lt
  unfold percentByte
  dsimp only
  split_ifs with plain
  · obtain ⟨narrow, other, -⟩ := unreserved_narrow plain
    have code : ascii (Char.ofUInt8 b) = b := UInt8.toUInt8_toUInt32 b
    rw [List.singleton_append, percentDecode_plain other, bytes_cons_ascii narrow, bytes_nil,
      List.singleton_append, code]
  · have high := (hexDigit_upper (b.toNat / 16) (by omega)).2
    have low := (hexDigit_upper (b.toNat % 16) (by omega)).2
    simp only [List.cons_append, List.nil_append, percentDecode, high, low, Nat.div_add_mod, UInt8.ofNat_toNat]

theorem percentDecode_encode (raw : List UInt8) : percentDecode (percentEncode raw) = raw := by
  induction raw with
  | nil => rfl
  | cons b raw ih => rw [percentEncode, List.flatMap_cons, percentDecode_byte, ← percentEncode, ih]

theorem colon_not_mem (raw : List UInt8) : ':' ∉ percentEncode raw := by
  intro listed
  obtain ⟨b, -, inside⟩ := List.mem_flatMap.mp listed
  have small := b.toNat_lt
  unfold percentByte at inside
  dsimp only at inside
  split_ifs at inside with plain
  · exact (unreserved_narrow plain).2.2 (List.mem_singleton.mp inside).symm
  · have high := (hexDigit_upper (b.toNat / 16) (by omega)).1
    have low := (hexDigit_upper (b.toNat % 16) (by omega)).1
    simp [high.symm, low.symm] at inside

theorem splitRefs_append (free : ':' ∉ piece) (tail : Text) :
    splitRefs (piece ++ tail) = (splitRefs tail).modifyHead (piece ++ ·) := by
  induction piece with
  | nil =>
    show splitRefs tail = (splitRefs tail).modifyHead fun x => x
    cases splitRefs tail <;> rfl
  | cons c piece ih =>
    rw [List.mem_cons, not_or] at free
    rw [List.cons_append, splitRefs_plain (Ne.symm free.1), ih free.2, List.modifyHead_modifyHead]
    rfl

theorem splitRefs_intercalate {pieces : List Text} (some_ : pieces ≠ []) (free : ∀ piece ∈ pieces, ':' ∉ piece) :
    splitRefs ([':', ':'].intercalate pieces) = pieces := by
  induction pieces with
  | nil => exact absurd rfl some_
  | cons piece rest ih =>
    have here := free piece List.mem_cons_self
    cases rest with
    | nil => simpa [splitRefs] using splitRefs_append here []
    | cons next rest =>
      rw [List.intercalate_cons_cons, List.append_assoc, splitRefs_append here]
      simp [splitRefs, ih (by simp) fun p listed => free p (List.mem_cons_of_mem _ listed)]

theorem canonicalRef_ok {r id : Text} (accepted : canonicalRef nfc r = .ok id) :
    id = percentEncode (bytes (nfc r)) := by
  obtain ⟨-, -, accepted⟩ := bind_ok.mp accepted
  obtain ⟨-, -, accepted⟩ := bind_ok.mp accepted
  obtain ⟨-, -, accepted⟩ := bind_ok.mp accepted
  obtain ⟨-, -, accepted⟩ := bind_ok.mp accepted
  exact (Except.ok.inj accepted).symm

theorem canonicalId_ok {refs : List Text} {id : Text} (accepted : canonicalId nfc refs = .ok id) :
    refs ≠ [] ∧ id = [':', ':'].intercalate (refs.map fun r => percentEncode (bytes (nfc r))) := by
  have each : ∀ ids, refs.mapM (canonicalRef nfc) = .ok ids →
      ids = refs.map fun r => percentEncode (bytes (nfc r)) := by
    clear accepted
    induction refs with
    | nil => exact fun ids ran => (Except.ok.inj ran).symm
    | cons r refs ih =>
      intro ids ran
      rw [List.mapM_cons] at ran
      obtain ⟨first, one, ran⟩ := bind_ok.mp ran
      obtain ⟨more, others, ran⟩ := bind_ok.mp ran
      rw [← Except.ok.inj ran, canonicalRef_ok one, ih more others, List.map_cons]
  obtain ⟨_, nonempty, accepted⟩ := bind_ok.mp accepted
  obtain ⟨ids, ran, accepted⟩ := bind_ok.mp accepted
  exact ⟨refuseIf_ok.mp nonempty, by rw [← Except.ok.inj accepted, each ids ran]⟩

end Reading

/-- **Ids lose nothing**: two are one exactly when the NFC forms of their references are, and an id reads back. -/
theorem canonicalId_lossless (nfc : Text → Text) (refs refs' : List Text) (id id' : Text)
    (accepted : canonicalId nfc refs = .ok id) (accepted' : canonicalId nfc refs' = .ok id') :
    (id = id' ↔ refs.map nfc = refs'.map nfc) ∧
      (splitRefs id).map percentDecode = refs.map fun r => bytes (nfc r) := by
  have reads : ∀ refs id, canonicalId nfc refs = .ok id →
      (splitRefs id).map percentDecode = refs.map fun r => bytes (nfc r) := by
    intro refs id accepted
    obtain ⟨some_, rfl⟩ := canonicalId_ok accepted
    rw [splitRefs_intercalate (by simpa using some_) (by simp [colon_not_mem])]
    simp [percentDecode_encode]
  refine ⟨⟨?_, fun same => ?_⟩, reads _ _ accepted⟩
  · rintro rfl
    have same := (reads _ _ accepted).symm.trans (reads _ _ accepted')
    refine List.map_injective_iff.mpr (fun _ _ => bytes_inj.mp) ?_
    rw [List.map_map, List.map_map]
    exact same
  · have encode : ∀ refs : List Text, refs.map (fun r => percentEncode (bytes (nfc r))) =
        (refs.map nfc).map fun s => percentEncode (bytes s) := by simp
    rw [(canonicalId_ok accepted).2, (canonicalId_ok accepted').2, encode, encode, same]

theorem canonicalId_lossless_plain :
    (splitRefs ['a', ':', ':', 'b', '%', '3', 'A']).map percentDecode = [['a'], ['b', ':']].map bytes :=
  (canonicalId_lossless (fun r => r) [['a'], ['b', ':']] [['a']] ['a', ':', ':', 'b', '%', '3', 'A'] ['a']
    (by rfl) (by rfl)).2

end DuDuClaw.LlmContract
