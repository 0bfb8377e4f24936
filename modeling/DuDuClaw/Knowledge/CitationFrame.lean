/-
# Knowledge.CitationFrame -- what citing does to the rest of a reply

`tidy_spaces` is there to "collapse the double spaces a removed marker can leave behind", but it is
run over all the prose that remains, and the code of what remains is not always the code of the
reply.  `Frame` is what is meant: markers are brought into their normal form or dropped, and a dropped
one takes at most one space of prose beside it along.

* `frame_loose_iff`: how many spaces of a stretch may go, by the dropped markers in it.
* `frame_tidyFlags_iff`: tidying is a frame exactly when no stretch loses more.
* `onlyMarkers_iff`: the same of `parse_citations`.
-/
import DuDuClaw.Knowledge.Citations

namespace DuDuClaw.Knowledge.Citations

open DuDuClaw.Lib

/-! ## Frames -/

/-- A marker whose number is 0 or above the offered ones. -/
def Piece.void : Piece → Bool
  | .cited _ n => n == 0
  | .deleted _ _ => true
  | _ => false

def Piece.isSpace : Piece → Bool
  | .kept _ c => c == ' '
  | _ => false

/-- Only markers are touched: each is brought into its normal form, or dropped if it is void, and a space
of prose directly beside a dropped one may go with it. -/
inductive Frame : List Piece → Text → Prop
  | nil : Frame [] []
  | keep {p : Piece} {rest : List Piece} {text : Text} :
      p.void = false → Frame rest text → Frame (p :: rest) (p.image ++ text)
  | drop {p : Piece} {rest : List Piece} {text : Text} :
      p.void = true → Frame rest text → Frame (p :: rest) text
  | dropBehind {p : Piece} {rest : List Piece} {text : Text} :
      p.void = true → Frame rest text → Frame (.kept false ' ' :: p :: rest) text
  | dropBefore {p : Piece} {rest : List Piece} {text : Text} :
      p.void = true → Frame rest text → Frame (p :: .kept false ' ' :: rest) text

/-- The text of a reply after citing: a frame of it, and the reply where there is nothing to do. -/
structure OnlyMarkers (offered : List Nat) (reply text : Text) : Prop where
  frame : Frame (pieces offered reply) text
  unchanged : (∀ p ∈ pieces offered reply, p.void = false ∧ p.image = p.written) → text = reply

/-- A piece that leaves nothing but spaces. -/
def Piece.loose (p : Piece) : Bool := p.isSpace || p.void

/-- A stretch of spaces and void markers, as long as it goes. -/
structure Stretch (ps front gap back : List Piece) : Prop where
  split : ps = front ++ (gap ++ back)
  loose : ∀ p ∈ gap, p.loose = true
  starts : ∀ p ∈ front.getLast?, p.loose = false
  ends : ∀ p ∈ back.head?, p.loose = false

def spaces (gap : List Piece) : Nat := gap.countP Piece.isSpace

/-- A space of prose and a void marker. -/
def beside (p q : Piece) : Bool :=
  match p with
  | .kept code c => !code && c == ' ' && q.void
  | _ => false

/-- Spaces and void markers beside each other, each taken once, from the left. -/
def pairs : List Piece → Nat
  | p :: q :: rest => if beside p q || beside q p then pairs rest + 1 else pairs (q :: rest)
  | _ => 0

/-! ## Appending and splitting -/

theorem Frame.append {ps qs : List Piece} {s t : Text} (first : Frame ps s) (second : Frame qs t) :
    Frame (ps ++ qs) (s ++ t) := by
  induction first with
  | nil => exact second
  | keep solid _ ih =>
    rw [List.append_assoc]
    exact .keep solid ih
  | drop gone _ ih => exact .drop gone ih
  | dropBehind gone _ ih => exact .dropBehind gone ih
  | dropBefore gone _ ih => exact .dropBefore gone ih

/-- A piece that is neither a space nor dropped parts a frame in two. -/
theorem Frame.split {ps : List Piece} {t : Text} (frame : Frame ps t) {front back : List Piece} {p : Piece}
    (shape : ps = front ++ p :: back) (solid : p.loose = false) :
    ∃ s u, t = s ++ (p.image ++ u) ∧ Frame front s ∧ Frame back u := by
  obtain ⟨noSpace, stands⟩ := Bool.or_eq_false_iff.mp solid
  have other : ∀ q : Piece, q.void = true → q ≠ p := fun q gone same => by
    rw [same, stands] at gone
    cases gone
  have space : Piece.kept false ' ' ≠ p := by
    rintro rfl
    cases noSpace
  induction frame generalizing front with
  | nil => exact absurd shape.symm (by simp)
  | @keep q rest text stays frame ih =>
    cases front with
    | nil =>
      obtain ⟨rfl, rfl⟩ := List.cons.inj shape
      exact ⟨[], text, rfl, .nil, frame⟩
    | cons q' front =>
      obtain ⟨rfl, behind⟩ := List.cons.inj shape
      obtain ⟨s, u, rfl, left, right⟩ := ih behind
      exact ⟨q.image ++ s, u, by simp, .keep stays left, right⟩
  | @drop q rest text gone _ ih =>
    cases front with
    | nil => exact absurd (List.cons.inj shape).1 (other q gone)
    | cons q' front =>
      obtain ⟨rfl, behind⟩ := List.cons.inj shape
      obtain ⟨s, u, rfl, left, right⟩ := ih behind
      exact ⟨s, u, rfl, .drop gone left, right⟩
  | @dropBehind q rest text gone _ ih =>
    rcases front with _ | ⟨q₁, _ | ⟨q₂, front⟩⟩
    · exact absurd (List.cons.inj shape).1 space
    · exact absurd (List.cons.inj (List.cons.inj shape).2).1 (other q gone)
    obtain ⟨rfl, behind⟩ := List.cons.inj shape
    obtain ⟨rfl, last⟩ := List.cons.inj behind
    obtain ⟨s, u, rfl, left, right⟩ := ih last
    exact ⟨s, u, rfl, .dropBehind gone left, right⟩
  | @dropBefore q rest text gone _ ih =>
    rcases front with _ | ⟨q₁, _ | ⟨q₂, front⟩⟩
    · exact absurd (List.cons.inj shape).1 (other q gone)
    · exact absurd (List.cons.inj (List.cons.inj shape).2).1 space
    obtain ⟨rfl, behind⟩ := List.cons.inj shape
    obtain ⟨rfl, last⟩ := List.cons.inj behind
    obtain ⟨s, u, rfl, left, right⟩ := ih last
    exact ⟨s, u, rfl, .dropBefore gone left, right⟩

/-! ## One stretch -/

variable {p : Piece} {gap : List Piece}

theorem pairs_cons (p q : Piece) (rest : List Piece) :
    pairs (p :: q :: rest) = if beside p q || beside q p then pairs rest + 1 else pairs (q :: rest) := by
  rw [pairs]

/-- One more piece makes at most one more pair. -/
theorem pairs_bounds (p : Piece) (ps : List Piece) :
    pairs ps ≤ pairs (p :: ps) ∧ pairs (p :: ps) ≤ pairs ps + 1 := by
  induction ps generalizing p with
  | nil => exact ⟨Nat.le_refl _, Nat.zero_le _⟩
  | cons q ps ih =>
    obtain ⟨low, high⟩ := ih q
    rw [pairs_cons]
    split_ifs
    · omega
    · omega

theorem not_isSpace_of_void (gone : p.void = true) : p.isSpace = false := by
  cases p with
  | kept code c => cases gone
  | shown written digits | cited written n | deleted written n => rfl

theorem eq_of_beside {q : Piece} (pair : beside p q = true) : p = .kept false ' ' ∧ q.void = true := by
  cases p with
  | kept code c =>
    rw [beside, Bool.and_eq_true, Bool.and_eq_true, Bool.not_eq_true', beq_iff_eq] at pair
    obtain ⟨⟨rfl, rfl⟩, gone⟩ := pair
    exact ⟨rfl, gone⟩
  | shown written digits | cited written n | deleted written n => cases pair

theorem beside_of_void (gone : p.void = true) : beside (.kept false ' ') p = true := gone

theorem spaces_cons (p : Piece) (ps : List Piece) : spaces (p :: ps) = spaces ps + if p.isSpace then 1 else 0 :=
  List.countP_cons

theorem spaces_of_void (gone : p.void = true) (ps : List Piece) : spaces (p :: ps) = spaces ps := by
  rw [spaces_cons, not_isSpace_of_void gone]
  rfl

theorem spaces_of_space (code : Bool) (ps : List Piece) : spaces (.kept code ' ' :: ps) = spaces ps + 1 := by
  rw [spaces_cons]
  rfl

theorem eq_of_isSpace (space : p.isSpace = true) : ∃ code, p = .kept code ' ' := by
  cases p with
  | kept code c =>
    rw [Piece.isSpace, beq_iff_eq] at space
    exact ⟨code, by rw [space]⟩
  | shown written digits | cited written n | deleted written n => cases space

theorem void_or_space (loose : p.loose = true) : p.void = true ∨ (p.void = false ∧ p.isSpace = true) := by
  rw [Piece.loose, Bool.or_eq_true] at loose
  rcases loose with space | gone
  · right
    obtain ⟨code, rfl⟩ := eq_of_isSpace space
    exact ⟨rfl, rfl⟩
  · exact .inl gone

theorem pairs_le_spaces (ps : List Piece) : pairs ps ≤ spaces ps := by
  fun_induction pairs ps with
  | case1 p q rest pair ih =>
    rw [Bool.or_eq_true] at pair
    rcases pair with pair | pair
    · obtain ⟨rfl, gone⟩ := eq_of_beside pair
      rw [spaces_of_space, spaces_of_void gone]
      exact Nat.succ_le_succ ih
    · obtain ⟨rfl, gone⟩ := eq_of_beside pair
      rw [spaces_of_void gone, spaces_of_space]
      exact Nat.succ_le_succ ih
  | case2 p q rest _ ih =>
    rw [spaces_cons]
    exact Nat.le_trans ih (Nat.le_add_right _ _)
  | case3 ps _ => exact Nat.zero_le _

/-- Dropped markers take no more spaces along than there are pairs. -/
theorem Frame.spaces_le {t : Text} (frame : Frame gap t) (loose : ∀ p ∈ gap, p.loose = true) :
    ∃ k, t = List.replicate k ' ' ∧ k ≤ spaces gap ∧ spaces gap ≤ k + pairs gap := by
  induction frame with
  | nil => exact ⟨0, rfl, Nat.le_refl _, Nat.le_refl _⟩
  | @keep p rest text stays _ ih =>
    obtain ⟨first, loose⟩ := List.forall_mem_cons.mp loose
    obtain ⟨k, rfl, low, high⟩ := ih loose
    rcases void_or_space first with gone | ⟨-, space⟩
    · rw [stays] at gone
      cases gone
    obtain ⟨code, rfl⟩ := eq_of_isSpace space
    have more := (pairs_bounds (.kept code ' ') rest).1
    refine ⟨k + 1, rfl, ?_, ?_⟩
    · rw [spaces_of_space]
      omega
    · rw [spaces_of_space]
      omega
  | @drop p rest text gone _ ih =>
    obtain ⟨k, rfl, low, high⟩ := ih (List.forall_mem_cons.mp loose).2
    have more := (pairs_bounds p rest).1
    refine ⟨k, rfl, ?_, ?_⟩
    · rwa [spaces_of_void gone]
    · rw [spaces_of_void gone]
      omega
  | @dropBehind p rest text gone _ ih =>
    obtain ⟨k, rfl, low, high⟩ := ih (List.forall_mem_cons.mp (List.forall_mem_cons.mp loose).2).2
    have pair : pairs (.kept false ' ' :: p :: rest) = pairs rest + 1 := by
      rw [pairs_cons, beside_of_void gone]
      rfl
    refine ⟨k, rfl, ?_, ?_⟩
    · rw [spaces_of_space, spaces_of_void gone]
      omega
    · rw [spaces_of_space, spaces_of_void gone, pair]
      omega
  | @dropBefore p rest text gone _ ih =>
    obtain ⟨k, rfl, low, high⟩ := ih (List.forall_mem_cons.mp (List.forall_mem_cons.mp loose).2).2
    have pair : pairs (p :: .kept false ' ' :: rest) = pairs rest + 1 := by
      rw [pairs_cons, beside_of_void gone, Bool.or_true]
      rfl
    refine ⟨k, rfl, ?_, ?_⟩
    · rw [spaces_of_void gone, spaces_of_space]
      omega
    · rw [spaces_of_void gone, spaces_of_space, pair]
      omega

/-- All the spaces of a stretch may stay. -/
theorem frame_spaces (loose : ∀ p ∈ gap, p.loose = true) : Frame gap (List.replicate (spaces gap) ' ') := by
  induction gap with
  | nil => exact .nil
  | cons p gap ih =>
    obtain ⟨first, others⟩ := List.forall_mem_cons.mp loose
    rcases void_or_space first with gone | ⟨stays, space⟩
    · rw [spaces_of_void gone]
      exact .drop gone (ih others)
    · obtain ⟨code, rfl⟩ := eq_of_isSpace space
      rw [spaces_of_space]
      exact .keep stays (ih others)

/-- As many spaces as there are pairs can go. -/
theorem frame_of_spaces (loose : ∀ p ∈ gap, p.loose = true) {k m : Nat}
    (total : k + m = spaces gap) (few : m ≤ pairs gap) : Frame gap (List.replicate k ' ') := by
  fun_induction pairs gap generalizing k m with
  | case1 p q rest pair ih =>
    cases m with
    | zero =>
      obtain rfl : k = _ := total
      exact frame_spaces loose
    | succ m =>
      have loose' := (List.forall_mem_cons.mp (List.forall_mem_cons.mp loose).2).2
      rw [Bool.or_eq_true] at pair
      rcases pair with pair | pair
      · obtain ⟨rfl, gone⟩ := eq_of_beside pair
        rw [spaces_of_space, spaces_of_void gone] at total
        exact .dropBehind gone (ih loose' (Nat.succ.inj total) (Nat.le_of_succ_le_succ few))
      · obtain ⟨rfl, gone⟩ := eq_of_beside pair
        rw [spaces_of_void gone, spaces_of_space] at total
        exact .dropBefore gone (ih loose' (Nat.succ.inj total) (Nat.le_of_succ_le_succ few))
  | case2 p q rest _ ih =>
    obtain ⟨first, others⟩ := List.forall_mem_cons.mp loose
    rcases void_or_space first with gone | ⟨stays, space⟩
    · rw [spaces_of_void gone] at total
      exact .drop gone (ih others total few)
    obtain ⟨code, rfl⟩ := eq_of_isSpace space
    have most := pairs_le_spaces (q :: rest)
    rw [spaces_of_space] at total
    obtain ⟨k, rfl⟩ : ∃ k', k = k' + 1 := ⟨k - 1, by omega⟩
    exact .keep stays (ih others (by omega) few)
  | case3 gap _ =>
    obtain rfl : m = 0 := Nat.le_zero.mp few
    obtain rfl : k = _ := total
    exact frame_spaces loose

/-- **How many spaces of a stretch may go.** -/
theorem frame_loose_iff (loose : ∀ p ∈ gap, p.loose = true) {k : Nat} (few : k ≤ spaces gap) :
    Frame gap (List.replicate k ' ') ↔ spaces gap ≤ k + pairs gap := by
  constructor
  · intro frame
    obtain ⟨k', same, -, high⟩ := frame.spaces_le loose
    obtain rfl : k = k' := List.replicate_left_injective ' ' same
    exact high
  · exact fun enough => frame_of_spaces loose (m := spaces gap - k) (by omega) (by omega)

/-! ## Stretches -/

theorem stretch_induction {motive : List Piece → Prop} (last : ∀ gap, (∀ p ∈ gap, p.loose = true) → motive gap)
    (next : ∀ gap p back, (∀ p ∈ gap, p.loose = true) → p.loose = false → motive back → motive (gap ++ p :: back))
    (ps : List Piece) : motive ps := by
  suffices ∀ ps gap, (∀ p ∈ gap, p.loose = true) → motive (gap ++ ps) from
    this ps [] (List.forall_mem_nil _)
  intro ps
  induction ps with
  | nil =>
    intro gap loose
    rw [List.append_nil]
    exact last gap loose
  | cons p ps ih =>
    intro gap loose
    cases kind : p.loose with
    | true =>
      have more := ih (gap ++ [p]) fun q listed => by
        rcases List.mem_append.mp listed with old | new
        · exact loose q old
        · rw [List.mem_singleton.mp new, kind]
      rwa [List.append_assoc] at more
    | false => exact next gap p ps loose kind (ih [] fun q listed => absurd listed List.not_mem_nil)

theorem Stretch.of_loose {front gap' back : List Piece} (loose : ∀ p ∈ gap, p.loose = true)
    (stretch : Stretch gap front gap' back) : front = [] ∧ gap' = gap := by
  obtain ⟨rfl, -, starts, ends⟩ := stretch
  have front' : front = [] := by
    by_contra some_
    have solid := starts _ (List.getLast?_eq_some_getLast some_)
    rw [loose _ (List.mem_append_left _ (List.getLast_mem some_))] at solid
    cases solid
  have back' : back = [] := by
    cases back with
    | nil => rfl
    | cons p back =>
      have solid := ends p rfl
      rw [loose p (by simp)] at solid
      cases solid
  rw [front', back', List.append_nil]
  exact ⟨rfl, rfl⟩

theorem stretch_of_loose (loose : ∀ p ∈ gap, p.loose = true) : Stretch gap [] gap [] := by
  refine ⟨by simp, loose, ?_, ?_⟩
  · simp
  · simp

/-- The stretches of a list are its first one and those behind the piece that ends it. -/
theorem stretch_cons_iff {back front gap' back' : List Piece}
    (loose : ∀ p ∈ gap, p.loose = true) (solid : p.loose = false) :
    Stretch (gap ++ p :: back) front gap' back' ↔ (front = [] ∧ gap' = gap ∧ back' = p :: back) ∨
        ∃ front', front = gap ++ p :: front' ∧ Stretch back front' gap' back' := by
  constructor
  · rintro ⟨split, loose', starts, ends⟩
    have notBoth : ∀ {q : Piece}, q ∈ gap → q.loose = false → False := fun {q} listed solid => by
      rw [loose q listed] at solid
      cases solid
    rcases List.eq_nil_or_concat front with rfl | ⟨front, q, rfl⟩
    · left
      rw [List.nil_append] at split
      rcases List.append_eq_append_iff.mp split with ⟨more, rfl, rest⟩ | ⟨more, rfl, rest⟩
      · cases more with
        | nil => exact ⟨rfl, by simp, by simpa using rest.symm⟩
        | cons q more =>
          obtain ⟨rfl, -⟩ := List.cons.inj rest
          rw [loose' p (by simp)] at solid
          cases solid
      cases more with
      | nil => exact ⟨rfl, by simp, by simpa using rest⟩
      | cons q more =>
        have solid' := ends q (by rw [rest]; rfl)
        exact (notBoth (by simp) solid').elim
    · right
      have solid' : q.loose = false := starts q (by simp)
      rw [List.concat_eq_append] at split
      rcases List.append_eq_append_iff.mp split with ⟨more, shape, rest⟩ | ⟨more, rfl, -⟩
      · cases more with
        | nil =>
          rw [List.append_nil] at shape
          exact (notBoth (q := q) (by rw [← shape]; simp) solid').elim
        | cons q' more =>
          obtain ⟨rfl, rfl⟩ := List.cons.inj rest
          refine ⟨more, by rw [List.concat_eq_append, shape], rfl, loose', fun r last => ?_, ends⟩
          refine starts r ?_
          rw [List.concat_eq_append, shape, List.getLast?_append, List.getLast?_cons, Option.mem_def.mp last]
          rfl
      · exact (notBoth (q := q) (by simp) solid').elim
  · rintro (⟨rfl, rfl, rfl⟩ | ⟨front', rfl, split, loose', starts, ends⟩)
    · refine ⟨rfl, loose, by simp, ?_⟩
      rintro q ⟨rfl⟩
      exact solid
    refine ⟨by rw [split]; simp, loose', ?_, ends⟩
    intro q last
    cases front' with
    | nil =>
      rw [List.getLast?_append] at last
      obtain rfl : p = q := Option.some.inj last
      exact solid
    | cons r front' =>
      refine starts q ?_
      rw [List.getLast?_append, List.getLast?_cons_cons] at last
      rw [List.getLast?_cons] at last ⊢
      exact last

/-! ## Tidying -/

/-- Neighbouring spaces are both code or both prose. -/
def SameKind (flags : List (Bool × Char)) : Prop :=
  ∀ front a b back, flags = front ++ (a, ' ') :: (b, ' ') :: back → a = b

theorem SameKind.left {xs ys : List (Bool × Char)} (same : SameKind (xs ++ ys)) : SameKind xs :=
  fun front a b back shape => same front a b (back ++ ys) (by rw [shape]; simp)

theorem SameKind.right {xs ys : List (Bool × Char)} (same : SameKind (xs ++ ys)) : SameKind ys :=
  fun front a b back shape => same (xs ++ front) a b back (by rw [shape]; simp)

theorem SameKind.replicate {n : Nat} {flags : List (Bool × Char)} (same : SameKind flags)
    (text : flags.map Prod.snd = List.replicate n ' ') : ∃ code, flags = List.replicate n (code, ' ') := by
  induction n generalizing flags with
  | zero => exact ⟨false, List.map_eq_nil_iff.mp text⟩
  | succ n ih =>
    obtain ⟨flag, rest, rfl, first, behind⟩ := List.map_eq_cons_iff.mp text
    obtain ⟨code, c⟩ := flag
    obtain rfl : c = ' ' := first
    obtain ⟨code', rfl⟩ := ih (@SameKind.right [(code, ' ')] _ same) behind
    cases n with
    | zero => exact ⟨code, rfl⟩
    | succ n =>
      obtain rfl := same [] code code' _ rfl
      exact ⟨code, rfl⟩

/-- What stays of `n` spaces. -/
def spacesLeft (code : Bool) (n : Nat) : Nat := if code then n else min n 1

theorem tidyFlags_solid (prevSpace : Bool) {rest : List (Bool × Char)}
    (solid : ∀ flag ∈ rest.head?, flag.2 ≠ ' ') : tidyFlags prevSpace rest = tidyFlags false rest := by
  cases rest with
  | nil => rfl
  | cons flag rest =>
    have other : ¬(flag.1 = false ∧ flag.2 = ' ') := fun holds => solid flag rfl holds.2
    rw [tidyFlags, if_neg other, tidyFlags, if_neg other]

theorem tidyFlags_spaces (code : Bool) (n : Nat) {rest : List (Bool × Char)}
    (solid : ∀ flag ∈ rest.head?, flag.2 ≠ ' ') : tidyFlags false (List.replicate n (code, ' ') ++ rest) =
      List.replicate (spacesLeft code n) ' ' ++ tidyFlags false rest := by
  cases code with
  | true =>
    induction n with
    | zero => rfl
    | succ n ih =>
      rw [List.replicate_succ, List.cons_append, tidyFlags, if_neg (by simp), ih]
      rfl
  | false =>
    have behind (n : Nat) : tidyFlags true (List.replicate n (false, ' ') ++ rest) = tidyFlags false rest := by
      induction n with
      | zero => exact tidyFlags_solid true solid
      | succ n ih =>
        rw [List.replicate_succ, List.cons_append, tidyFlags, if_pos ⟨rfl, rfl⟩, if_pos rfl]
        exact ih
    cases n with
    | zero => rfl
    | succ n =>
      have one : spacesLeft false (n + 1) = 1 := by simp [spacesLeft]
      rw [List.replicate_succ, List.cons_append, tidyFlags, if_pos ⟨rfl, rfl⟩, if_neg Bool.false_ne_true,
        behind, one]
      rfl

theorem tidyFlags_word {word : List (Bool × Char)} (noSpace : ∀ flag ∈ word, flag.2 ≠ ' ')
    (rest : List (Bool × Char)) :
    tidyFlags false (word ++ rest) = word.map Prod.snd ++ tidyFlags false rest := by
  induction word with
  | nil => rfl
  | cons flag word ih =>
    obtain ⟨first, noSpace⟩ := List.forall_mem_cons.mp noSpace
    rw [List.cons_append, tidyFlags, if_neg (fun holds => first holds.2), ih noSpace]
    rfl

/-! ## Pieces and their images -/

theorem bracketed_noSpace {digits : Text} (all : ∀ d ∈ digits, d.isDigit = true) :
    ∀ c ∈ bracketed digits, c ≠ ' ' := by
  intro c listed
  rw [bracketed, List.mem_cons, List.mem_append, List.mem_singleton] at listed
  rcases listed with rfl | digit | rfl
  · decide
  · rintro rfl
    exact absurd (all ' ' digit) (by decide)
  · decide

/-- The digits of the markers left standing. -/
def Piece.spelled : Piece → Prop
  | .shown _ digits => ∀ d ∈ digits, d.isDigit = true
  | _ => True

theorem Piece.spelled_marker (offered : List Nat) (written : Text) {digits : Text} (link : Bool)
    (all : ∀ d ∈ digits, d.isDigit = true) : (markerPiece offered written digits link).spelled := by
  rw [markerPiece]
  split_ifs
  · exact all
  · trivial
  · trivial
  · exact all

/-- What holds of every character and of every marker holds of every piece. -/
theorem scanFrom_all {offered : List Nat} {P : Piece → Prop} (kept : ∀ code c, P (.kept code c))
    (marker : ∀ c rest digits link, markerAt c rest = some digits →
      P (markerPiece offered ((c :: rest).take (digits.length + 2)) digits link))
    (skip : Nat) (flags : List (Bool × Char)) : ∀ p ∈ scanFrom offered skip flags, P p := by
  induction flags generalizing skip with
  | nil => cases skip <;> exact List.forall_mem_nil _
  | cons flag rest ih =>
    cases skip with
    | succ skip => exact ih skip
    | zero =>
      obtain ⟨code, c⟩ := flag
      cases code with
      | true =>
        rw [scanFrom_code]
        exact List.forall_mem_cons.mpr ⟨kept true c, ih 0⟩
      | false =>
        cases found : markerAt c (proseOf rest) with
        | none =>
          rw [scanFrom_plain offered found]
          exact List.forall_mem_cons.mpr ⟨kept false c, ih 0⟩
        | some digits =>
          rw [scanFrom_marker offered found]
          exact List.forall_mem_cons.mpr ⟨marker c _ digits _ found, ih _⟩

theorem pieces_spelled (offered : List Nat) (text : Text) : ∀ p ∈ pieces offered text, p.spelled :=
  scanFrom_all (fun _ _ => trivial)
    (fun _ _ _ link found => Piece.spelled_marker offered _ link (isMarker_of_markerAt found).all) 0 (flags text)

theorem canonical_noSpace (n : Nat) : ∀ c ∈ canonical n, c ≠ ' ' :=
  bracketed_noSpace fun _ listed => Nat.isDigit_of_mem_toDigits (by decide) (by decide) listed

theorem image_of_solid (spelled : p.spelled) (solid : p.loose = false) :
    p.image ≠ [] ∧ ∀ c ∈ p.image, c ≠ ' ' := by
  cases p with
  | kept code c =>
    refine ⟨List.cons_ne_nil _ _, fun c' listed => ?_⟩
    obtain rfl := List.mem_singleton.mp listed
    rintro rfl
    cases solid
  | shown written digits => exact ⟨List.cons_ne_nil _ _, bracketed_noSpace spelled⟩
  | cited written n => exact ⟨List.cons_ne_nil _ _, canonical_noSpace n⟩
  | deleted written n => cases solid

/-- A void marker leaves nothing, unless 0 was offered. -/
theorem image_of_void (gone : p.void = true) (noZero : ∀ written, p ≠ .cited written 0) : p.image = [] := by
  cases p with
  | kept code c | shown written digits => cases gone
  | cited written n =>
    obtain rfl : n = 0 := by simpa [Piece.void] using gone
    exact absurd rfl (noZero written)
  | deleted written n => rfl

theorem images_of_loose (loose : ∀ p ∈ gap, p.loose = true) (noZero : ∀ written, Piece.cited written 0 ∉ gap) :
    gap.flatMap Piece.image = List.replicate (spaces gap) ' ' := by
  induction gap with
  | nil => rfl
  | cons p gap ih =>
    obtain ⟨first, others⟩ := List.forall_mem_cons.mp loose
    have behind := ih others fun written listed => noZero written (List.mem_cons_of_mem _ listed)
    rw [List.flatMap_cons, behind]
    rcases void_or_space first with gone | ⟨-, space⟩
    · have other : ∀ written, p ≠ .cited written 0 := fun written same =>
        noZero written (same ▸ List.mem_cons_self)
      rw [spaces_of_void gone, image_of_void gone other]
      rfl
    · obtain ⟨code, rfl⟩ := eq_of_isSpace space
      rw [spaces_of_space]
      rfl

/-! ## The frame of a tidied text -/

/-- Every stretch whose spaces are prose in what remains has, but for one, a void marker for each. -/
def FewSpaces (ps : List Piece) (flags : List (Bool × Char)) : Prop :=
  ∀ front gap back, Stretch ps front gap back →
    flags[(front.flatMap Piece.image).length]? = some (false, ' ') → spaces gap ≤ pairs gap + 1

theorem spacesLeft_iff (code : Bool) (n m : Nat) (rest : List (Bool × Char)) : n ≤ spacesLeft code n + m ↔
      ((List.replicate n (code, ' ') ++ rest)[0]? = some (false, ' ') → n ≤ m + 1) := by
  cases n with
  | zero => simp
  | succ n =>
    cases code with
    | true => simp [spacesLeft]
    | false =>
      have one : spacesLeft false (n + 1) = 1 := by simp [spacesLeft]
      rw [one, List.replicate_succ, List.cons_append, List.getElem?_cons_zero]
      constructor
      · intro enough _
        omega
      · intro enough
        have most := enough rfl
        omega

theorem spacesLeft_le (code : Bool) (n : Nat) : spacesLeft code n ≤ n := by
  cases code with
  | true => exact Nat.le_refl _
  | false => exact Nat.min_le_left _ _

theorem replicate_append_cancel {k k' : Nat} {s t : Text} {c d : Char} (first : c ≠ ' ') (second : d ≠ ' ')
    (same : List.replicate k ' ' ++ c :: s = List.replicate k' ' ' ++ d :: t) : k = k' ∧ c :: s = d :: t := by
  induction k generalizing k' with
  | zero =>
    cases k' with
    | zero => exact ⟨rfl, same⟩
    | succ k' => exact absurd (List.cons.inj same).1 first
  | succ k ih =>
    cases k' with
    | zero => exact absurd (List.cons.inj same).1.symm second
    | succ k' =>
      obtain ⟨rfl, rest⟩ := ih (List.cons.inj same).2
      exact ⟨rfl, rest⟩

theorem frame_stretch_iff {back : List Piece} (loose : ∀ p ∈ gap, p.loose = true)
    (solid : p.loose = false) (filled : p.image ≠ []) (noSpace : ∀ c ∈ p.image, c ≠ ' ') {k : Nat} {t : Text} :
    Frame (gap ++ p :: back) (List.replicate k ' ' ++ (p.image ++ t)) ↔
      Frame gap (List.replicate k ' ') ∧ Frame back t := by
  constructor
  · intro frame
    obtain ⟨s, u, shape, left, right⟩ := frame.split rfl solid
    obtain ⟨k', rfl, -, -⟩ := left.spaces_le loose
    obtain ⟨c, tail, image⟩ := List.exists_cons_of_ne_nil filled
    have word := noSpace c (by rw [image]; exact List.mem_cons_self)
    rw [image] at shape
    obtain ⟨alike, tails⟩ := replicate_append_cancel word word shape
    rw [List.append_cancel_left (show (c :: tail) ++ t = (c :: tail) ++ u from tails), alike]
    exact ⟨left, right⟩
  · rintro ⟨left, right⟩
    exact left.append (.keep (Bool.or_eq_false_iff.mp solid).2 right)

/-- **Tidying what remains is a frame exactly when no stretch loses too many spaces.** -/
theorem frame_tidyFlags_iff {ps : List Piece} (spelled : ∀ p ∈ ps, p.spelled)
    (noZero : ∀ written, Piece.cited written 0 ∉ ps) {flags : List (Bool × Char)}
    (text : flags.map Prod.snd = ps.flatMap Piece.image) (same : SameKind flags) :
    Frame ps (tidyFlags false flags) ↔ FewSpaces ps flags := by
  induction ps using stretch_induction generalizing flags with
  | last gap loose =>
    rw [images_of_loose loose noZero] at text
    obtain ⟨code, rfl⟩ := same.replicate text
    have tidied := @tidyFlags_spaces code (spaces gap) [] (by simp)
    rw [List.append_nil, tidyFlags, List.append_nil] at tidied
    rw [tidied, frame_loose_iff loose (spacesLeft_le _ _), spacesLeft_iff code _ _ [], List.append_nil]
    constructor
    · intro enough front gap' back stretch prose
      obtain ⟨rfl, rfl⟩ := stretch.of_loose loose
      exact enough prose
    · exact fun few => few [] gap [] (stretch_of_loose loose)
  | next gap p back loose solid ih =>
    have listed : ∀ q ∈ gap, q ∈ gap ++ p :: back := fun q listed => List.mem_append_left _ listed
    have listed' : ∀ q ∈ back, q ∈ gap ++ p :: back := fun q listed => by simp [listed]
    obtain ⟨filled, noSpace⟩ := image_of_solid (spelled p (by simp)) solid
    rw [List.flatMap_append, List.flatMap_cons,
      images_of_loose loose fun written l => noZero written (listed _ l)] at text
    obtain ⟨first, rest, rfl, firstText, restText⟩ := List.map_eq_append_iff.mp text
    obtain ⟨word, others, rfl, wordText, othersText⟩ := List.map_eq_append_iff.mp restText
    obtain ⟨code, rfl⟩ := same.left.replicate firstText
    have word' : ∀ flag ∈ word, flag.2 ≠ ' ' := fun flag l =>
      noSpace _ (by rw [← wordText]; exact List.mem_map_of_mem l)
    obtain ⟨flag, word, rfl⟩ : ∃ flag word', word = flag :: word' := by
      cases word with
      | nil => exact absurd wordText.symm filled
      | cons flag word => exact ⟨flag, word, rfl⟩
    have solidFlags : ∀ flag' ∈ ((flag :: word) ++ others).head?, flag'.2 ≠ ' ' := by
      rintro flag' ⟨rfl⟩
      exact word' _ List.mem_cons_self
    have tidied : tidyFlags false (List.replicate (spaces gap) (code, ' ') ++ ((flag :: word) ++ others)) =
        List.replicate (spacesLeft code (spaces gap)) ' ' ++ (p.image ++ tidyFlags false others) := by
      rw [tidyFlags_spaces code _ solidFlags, tidyFlags_word word', wordText]
    have behind := ih (fun q l => spelled q (listed' q l)) (fun written l => noZero written (listed' _ l))
      othersText same.right.right
    rw [tidied, frame_stretch_iff loose solid filled noSpace, behind, frame_loose_iff loose (spacesLeft_le _ _),
      spacesLeft_iff]
    have shift : ∀ front' : List Piece, (List.replicate (spaces gap) (code, ' ') ++ ((flag :: word) ++ others))[
            ((gap ++ p :: front').flatMap Piece.image).length]? =
          others[(front'.flatMap Piece.image).length]? := fun front' => by
      have size : (flag :: word).length = p.image.length := by rw [← wordText, List.length_map]
      have gone : (gap.flatMap Piece.image).length = spaces gap := by
        rw [images_of_loose loose fun written l => noZero written (listed _ l), List.length_replicate]
      rw [List.flatMap_append, List.flatMap_cons, List.length_append, List.length_append, gone, ← size,
        List.getElem?_append_right (by simp), List.length_replicate, Nat.add_sub_cancel_left,
        List.getElem?_append_right (Nat.le_add_right _ _), Nat.add_sub_cancel_left]
    constructor
    · rintro ⟨here, there⟩ front gap' back' stretch prose
      rcases (stretch_cons_iff loose solid).mp stretch with ⟨rfl, rfl, rfl⟩ | ⟨front', rfl, stretch'⟩
      · exact here prose
      · rw [shift] at prose
        exact there front' gap' back' stretch' prose
    · intro few
      refine ⟨fun prose => ?_, fun front' gap' back' stretch' prose => ?_⟩
      · exact few [] gap (p :: back) ((stretch_cons_iff loose solid).mpr (.inl ⟨rfl, rfl, rfl⟩)) prose
      · have stretch := (stretch_cons_iff loose solid).mpr (.inr ⟨front', rfl, stretch'⟩)
        exact few (gap ++ p :: front') gap' back' stretch (by rwa [shift])

/-! ## Replies -/

theorem SameKind.cons {flag : Bool × Char} {rest : List (Bool × Char)} (same : SameKind rest)
    (next : ∀ code, flag.2 = ' ' → rest.head? = some (code, ' ') → flag.1 = code) : SameKind (flag :: rest) := by
  intro front a b back shape
  cases front with
  | nil =>
    obtain ⟨rfl, rfl⟩ := List.cons.inj shape
    exact next b rfl rfl
  | cons first front =>
    obtain ⟨-, rfl⟩ := List.cons.inj shape
    exact same front a b back rfl

/-- Only backquotes and line ends change what is code. -/
theorem flagsFrom_sameKind (fence inlineCode : Bool) (skip : Nat) (text : Text)
    (marks : ∀ c ∈ text.take skip, c = backquote) : SameKind (flagsFrom fence inlineCode skip text) := by
  have noTick : ' ' ≠ backquote := by decide
  induction text generalizing fence inlineCode skip with
  | nil =>
    intro front a b back shape
    cases skip <;> simp [flagsFrom] at shape
  | cons c text ih =>
    cases skip with
    | succ skip =>
      rw [List.take_succ_cons] at marks
      obtain ⟨rfl, others⟩ := List.forall_mem_cons.mp marks
      rw [flagsFrom]
      exact (ih fence inlineCode skip others).cons fun code space => absurd space.symm noTick
    | zero =>
      rw [flagsFrom]
      split_ifs with ticks tick
      · obtain ⟨rfl, two⟩ := ticks
        refine (ih _ _ 2 fun c listed => ?_).cons fun code space => absurd space.symm noTick
        rw [two] at listed
        simpa using listed
      · obtain ⟨-, rfl⟩ := tick
        exact (ih _ _ 0 (List.forall_mem_nil _)).cons fun code space => absurd space.symm noTick
      refine (ih _ _ 0 (List.forall_mem_nil _)).cons fun code space first => ?_
      obtain rfl : c = ' ' := space
      cases text with
      | nil => cases first
      | cons d text =>
        have second : d = ' ' := by
          have spelled := congrArg (Option.map Prod.snd) first
          rw [← List.head?_map, flagsFrom_text] at spelled
          exact Option.some.inj spelled
        rw [second, flagsFrom, if_neg (fun holds => noTick holds.1),
          if_neg (fun holds => noTick holds.2)] at first
        rw [← (Prod.mk.inj (Option.some.inj first)).1]
        cases fence <;> cases inlineCode <;> rfl

theorem flags_sameKind (text : Text) : SameKind (flags text) :=
  flagsFrom_sameKind false false 0 text (List.forall_mem_nil _)

def solidCount (text : Text) : Nat := text.countP (· != ' ')

theorem solidCount_append (s t : Text) : solidCount (s ++ t) = solidCount s + solidCount t := List.countP_append

theorem tidyFlags_solidCount (prevSpace : Bool) (flags : List (Bool × Char)) :
    solidCount (tidyFlags prevSpace flags) = solidCount (flags.map Prod.snd) := by
  induction flags generalizing prevSpace with
  | nil => rfl
  | cons flag flags ih =>
    have step : ∀ prev, solidCount (flag.2 :: tidyFlags prev flags) =
        solidCount ((flag :: flags).map Prod.snd) := fun prev => by
      rw [List.map_cons, solidCount, List.countP_cons, solidCount, List.countP_cons]
      exact congrArg (· + _) (ih prev)
    rw [tidyFlags]
    split_ifs with space _
    · rw [ih, List.map_cons, space.2]
      rfl
    · exact step true
    · exact step false

theorem Frame.count {ps : List Piece} {t : Text} (frame : Frame ps t) :
    solidCount t = solidCount ((ps.filter fun p => !p.void).flatMap Piece.image) := by
  induction frame with
  | nil => rfl
  | keep stays _ ih => simp [stays, solidCount_append, ih]
  | drop gone _ ih => simp [gone, ih]
  | dropBehind gone _ ih | dropBefore gone _ ih =>
    have space : (Piece.kept false ' ').void = false := rfl
    simp only [List.filter_cons, space, gone, ih]
    rfl

theorem void_images {ps : List Piece}
    (same : solidCount ((ps.filter fun p => !p.void).flatMap Piece.image) = solidCount (ps.flatMap Piece.image)) :
    ∀ p ∈ ps, p.void = true → solidCount p.image = 0 := by
  have fewer : ∀ ps : List Piece, solidCount ((ps.filter fun p => !p.void).flatMap Piece.image) ≤
      solidCount (ps.flatMap Piece.image) := fun ps => by
    induction ps with
    | nil => exact Nat.le_refl _
    | cons p ps ih =>
      rw [List.flatMap_cons, solidCount_append, List.filter_cons]
      split_ifs
      · rw [List.flatMap_cons, solidCount_append]
        omega
      · omega
  induction ps with
  | nil => exact List.forall_mem_nil _
  | cons p ps ih =>
    have most := fewer ps
    rw [List.flatMap_cons, solidCount_append, List.filter_cons] at same
    cases gone : p.void with
    | false =>
      rw [gone, Bool.not_false, if_pos rfl, List.flatMap_cons, solidCount_append] at same
      refine List.forall_mem_cons.mpr ⟨fun gone' => ?_, ih (Nat.add_left_cancel same)⟩
      rw [gone] at gone'
      cases gone'
    | true =>
      rw [gone, Bool.not_true, if_neg Bool.false_ne_true] at same
      refine List.forall_mem_cons.mpr ⟨fun _ => by omega, ih (by omega)⟩

/-- Where nothing is dropped, a frame is what remains. -/
theorem Frame.eq_images {ps : List Piece} {t : Text} (frame : Frame ps t) (stands : ∀ p ∈ ps, p.void = false) :
    t = ps.flatMap Piece.image := by
  have noVoid : ∀ {p : Piece} {rest : List Piece}, p.void = true → p ∈ rest →
      (∀ q ∈ rest, q.void = false) → False := fun {p rest} gone listed stands => by
    rw [stands p listed] at gone
    cases gone
  induction frame with
  | nil => rfl
  | keep _ _ ih =>
    rw [ih (List.forall_mem_cons.mp stands).2]
    rfl
  | drop gone _ _ | dropBefore gone _ _ => exact (noVoid gone List.mem_cons_self stands).elim
  | dropBehind gone _ _ => exact (noVoid gone (by simp) stands).elim

theorem Frame.unchanged {offered : List Nat} {reply text : Text} (frame : Frame (pieces offered reply) text)
    (alike : ∀ p ∈ pieces offered reply, p.void = false ∧ p.image = p.written) : text = reply := by
  have images := List.flatMap_congr fun p listed => (alike p listed).2
  rw [frame.eq_images fun p listed => (alike p listed).1, images, pieces_written]

/-- **Citing touches nothing but markers** exactly when no marker of an offered 0 is shown and every
stretch of spaces of the prose that remains has, but for one, a dropped marker for each. -/
theorem onlyMarkers_iff {offered : List Nat} (some_ : offered ≠ []) (reply : Text) :
    OnlyMarkers offered reply (parseCitations offered reply).text ↔
      (∀ written, Piece.cited written 0 ∉ pieces offered reply) ∧
        FewSpaces (pieces offered reply) (flags (remains offered reply)) := by
  have spelled : (flags (remains offered reply)).map Prod.snd = (pieces offered reply).flatMap Piece.image :=
    flagsFrom_text false false 0 _
  rw [parseCitations_eq some_]
  constructor
  · rintro ⟨frame, -⟩
    have noZero : ∀ written, Piece.cited written 0 ∉ pieces offered reply := fun written listed => by
      have kept := frame.count
      rw [tidyFlags_solidCount, spelled] at kept
      have none_ : solidCount (canonical 0) = 0 := void_images kept.symm _ listed rfl
      exact absurd none_ (by decide)
    have iff_ := frame_tidyFlags_iff (pieces_spelled offered reply) noZero spelled (flags_sameKind _)
    exact ⟨noZero, iff_.mp frame⟩
  · rintro ⟨noZero, few⟩
    have frame := (frame_tidyFlags_iff (pieces_spelled offered reply) noZero spelled (flags_sameKind _)).mpr few
    exact ⟨frame, frame.unchanged⟩

/-- A dropped marker takes one of its spaces along. -/
theorem onlyMarkers_iff_dropped : FewSpaces (pieces [1] ['a', ' ', '[', '0', ']', ' ', 'b'])
      (flags (remains [1] ['a', ' ', '[', '0', ']', ' ', 'b'])) := by
  have shape : pieces [1] ['a', ' ', '[', '0', ']', ' ', 'b'] =
      [.kept false 'a', .kept false ' ', .deleted ['[', '0', ']'] 0, .kept false ' ', .kept false 'b'] := rfl
  have text : (parseCitations [1] ['a', ' ', '[', '0', ']', ' ', 'b']).text = ['a', ' ', 'b'] := by decide
  refine ((onlyMarkers_iff (by decide) ['a', ' ', '[', '0', ']', ' ', 'b']).mp ⟨?_, ?_⟩).2
  · rw [shape, text]
    exact .keep rfl (.dropBehind rfl (.keep rfl (.keep rfl .nil)))
  · intro alike
    rw [shape] at alike
    exact absurd (alike (.deleted ['[', '0', ']'] 0) (by simp)).1 (by decide)

/-- The indentation of a nested list is lost, although nothing was cited. -/
theorem indentation_lost : ¬ OnlyMarkers [1] ['-', ' ', 'a', '\n', ' ', ' ', '-', ' ', 'b']
    (parseCitations [1] ['-', ' ', 'a', '\n', ' ', ' ', '-', ' ', 'b']).text := by
  rintro ⟨-, unchanged⟩
  exact absurd (unchanged (by decide)) (by decide)

end DuDuClaw.Knowledge.Citations
