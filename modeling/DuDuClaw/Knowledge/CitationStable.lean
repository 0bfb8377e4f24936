/-
# Knowledge.CitationStable -- reading a reply a second time

Taking a marker out joins the text before it with the text behind it, and the join can be a marker or a
fence that was not there.  So a reply that was read once need not stay as it is when it is read again.
Tidying its spaces is not what disturbs it (`pieces_tidied`): all depends on the markers of what remains.

* `remains_of_tidied`: a text that reading gives back has no marker that is dropped or rewritten.
* `stable_iff`: reading a reply again changes nothing exactly when what remains of it is settled.
-/
import DuDuClaw.Knowledge.CitationFrame

namespace DuDuClaw.Knowledge.Citations

open DuDuClaw.Lib

/-! ## Stable replies -/

/-- Reading the returned text again: nothing is invalid, the text and the numbers cited stay; no void
marker survived, and every offered one that is shown was reported. -/
structure Stable (offered : List Nat) (reply : Text) : Prop where
  noneInvalid : (parseCitations offered (parseCitations offered reply).text).invalid = []
  sameText : (parseCitations offered (parseCitations offered reply).text).text =
    (parseCitations offered reply).text
  sameCited : ∀ n, n ∈ (parseCitations offered (parseCitations offered reply).text).cited ↔
    n ∈ (parseCitations offered reply).cited
  noVoid : ∀ p ∈ pieces offered (parseCitations offered reply).text, p.void = false
  reported : ∀ written n, .cited written n ∈ pieces offered (parseCitations offered reply).text →
    n ∈ (parseCitations offered reply).cited

/-! ## Tidied texts -/

/-- `tidyFlags`, with the kinds. -/
def tidied : Bool → List (Bool × Char) → List (Bool × Char)
  | _, [] => []
  | prevSpace, flag :: rest =>
    if flag.1 = false ∧ flag.2 = ' ' then
      if prevSpace then tidied true rest else flag :: tidied true rest
    else flag :: tidied false rest

variable {s digits : Text} {n : Nat} {p : Piece} {ps : List Piece}

variable (prevSpace : Bool) (offered : List Nat)

theorem tidyFlags_tidied (flags : List (Bool × Char)) :
    tidyFlags prevSpace (tidied prevSpace flags) = tidyFlags prevSpace flags := by
  induction flags generalizing prevSpace with
  | nil => rfl
  | cons flag flags ih =>
    rw [tidied, tidyFlags]
    split_ifs with space prev
    · rw [prev]
      exact ih true
    · rw [tidyFlags, if_pos space, if_neg prev, ih]
    · rw [tidyFlags, if_neg space, ih]

theorem tidyFlags_head (flags : List (Bool × Char)) :
    (tidyFlags false flags).head? = (flags.map Prod.snd).head? := by
  cases flags with
  | nil => rfl
  | cons flag flags =>
    rw [tidyFlags]
    split_ifs with _ prev
    · cases prev
    · rfl
    · rfl

/-- Two backquotes in front are there after tidying as before. -/
theorem tidyFlags_ticks (flags : List (Bool × Char)) : (tidyFlags false flags).take 2 = [backquote, backquote] ↔
      (flags.map Prod.snd).take 2 = [backquote, backquote] := by
  have two : ∀ (c : Char) (s : Text), (c :: s).take 2 = [backquote, backquote] ↔
      c = backquote ∧ s.head? = some backquote := fun c s => by
    cases s with
    | nil | cons d s => simp
  cases flags with
  | nil => exact Iff.rfl
  | cons flag flags =>
    rw [tidyFlags, List.map_cons, two]
    split_ifs with space prev
    · cases prev
    · rw [two, space.2]
      exact iff_of_false (fun holds => absurd holds.1 (by decide)) fun holds => absurd holds.1 (by decide)
    · rw [two, tidyFlags_head]

/-- **Tidying leaves code and prose as they are.** -/
theorem flagsFrom_tidied (fence inlineCode prevSpace : Bool) (skip : Nat) (text : Text)
    (marks : ∀ c ∈ text.take skip, c = backquote) :
    flagsFrom fence inlineCode skip (tidyFlags prevSpace (flagsFrom fence inlineCode skip text)) =
      tidied prevSpace (flagsFrom fence inlineCode skip text) := by
  induction text generalizing fence inlineCode prevSpace skip with
  | nil => cases skip <;> rfl
  | cons c text ih =>
    have none_ : ∀ c ∈ text.take 0, c = backquote := List.forall_mem_nil _
    have noTick : ' ' ≠ backquote := by decide
    cases skip with
    | succ skip =>
      rw [List.take_succ_cons] at marks
      obtain ⟨rfl, others⟩ := List.forall_mem_cons.mp marks
      rw [flagsFrom, tidyFlags, if_neg (fun holds => Bool.false_ne_true holds.1.symm), tidied,
        if_neg (fun holds => Bool.false_ne_true holds.1.symm), flagsFrom, ih _ _ _ _ others]
    | zero =>
      rw [flagsFrom]
      split_ifs with ticks tick
      · obtain ⟨rfl, two⟩ := ticks
        have others : ∀ c ∈ text.take 2, c = backquote := fun c listed => by
          rw [two] at listed
          simpa using listed
        have ticks' : (tidyFlags false (flagsFrom (!fence) (fence && inlineCode) 2 text)).take 2 =
            [backquote, backquote] := by
          rw [tidyFlags_ticks, flagsFrom_text]
          exact two
        rw [tidyFlags, if_neg (fun holds => Bool.false_ne_true holds.1.symm), tidied,
          if_neg (fun holds => Bool.false_ne_true holds.1.symm), flagsFrom, if_pos ⟨rfl, ticks'⟩,
          ih _ _ _ _ others]
      · obtain ⟨rfl, rfl⟩ := tick
        have ticks' : ¬(backquote = backquote ∧
            (tidyFlags false (flagsFrom false (!inlineCode) 0 text)).take 2 = [backquote, backquote]) := by
          rw [tidyFlags_ticks, flagsFrom_text]
          exact ticks
        rw [tidyFlags, if_neg (fun holds => Bool.false_ne_true holds.1.symm), tidied,
          if_neg (fun holds => Bool.false_ne_true holds.1.symm), flagsFrom, if_neg ticks',
          if_pos ⟨rfl, rfl⟩, ih _ _ _ _ none_]
      · by_cases space : (fence || (inlineCode && c != '\n')) = false ∧ c = ' '
        · -- a space of prose: neither a fence nor inline code is open
          obtain ⟨prose, rfl⟩ := space
          obtain rfl : fence = false := (Bool.or_eq_false_iff.mp prose).1
          obtain rfl : inlineCode = false := by
            have closed := (Bool.or_eq_false_iff.mp prose).2
            cases inlineCode with
            | false => rfl
            | true => exact absurd closed (by decide)
          have behind := ih false false true 0 none_
          cases prevSpace with
          | true => exact behind
          | false =>
            refine Eq.trans ?_ (congrArg ((false, ' ') :: ·) behind)
            show flagsFrom false false 0 (' ' :: tidyFlags true (flagsFrom false false 0 text)) = _
            rw [flagsFrom, if_neg (fun holds => noTick holds.1), if_neg (fun holds => noTick holds.2)]
            rfl
        · have ticks' : ¬(c = backquote ∧
              (tidyFlags false (flagsFrom fence (inlineCode && c != '\n') 0 text)).take 2 =
                [backquote, backquote]) := by
            rw [tidyFlags_ticks, flagsFrom_text]
            exact ticks
          rw [tidyFlags, if_neg space, tidied, if_neg space, flagsFrom, if_neg ticks', if_neg tick,
            ih _ _ _ _ none_]

theorem flags_tidied (text : Text) : flags (tidyFlags false (flags text)) = tidied false (flags text) :=
  flagsFrom_tidied false false false 0 text (List.forall_mem_nil _)

/-! ## Markers of a tidied text -/

theorem tidySpacesFrom_head (s : Text) : (tidySpacesFrom false s).head? = s.head? := by
  cases s with
  | nil => rfl
  | cons c s =>
    rw [tidySpacesFrom]
    split_ifs with _ prev
    · cases prev
    · rfl
    · rfl

/-- Behind characters that are not spaces nothing has moved. -/
theorem tidySpacesFrom_word {k : Nat} (word : ∀ c ∈ s.take k, c ≠ ' ') :
    (tidySpacesFrom false s).take k = s.take k ∧ (tidySpacesFrom false s)[k]? = s[k]? := by
  induction k generalizing s with
  | zero =>
    rw [← List.head?_eq_getElem?, ← List.head?_eq_getElem?]
    exact ⟨rfl, tidySpacesFrom_head s⟩
  | succ k ih =>
    cases s with
    | nil => exact ⟨rfl, rfl⟩
    | cons c s =>
      rw [List.take_succ_cons] at word
      obtain ⟨first, word⟩ := List.forall_mem_cons.mp word
      obtain ⟨front, next⟩ := ih word
      rw [tidySpacesFrom, if_neg first, List.take_succ_cons, List.take_succ_cons, List.getElem?_cons_succ,
        List.getElem?_cons_succ, front]
      exact ⟨rfl, next⟩

theorem leadingDigits_tidied (n : Nat) (s : Text) :
    leadingDigits n (tidySpacesFrom false s) = leadingDigits n s := by
  induction n generalizing s with
  | zero => rfl
  | succ n ih =>
    cases s with
    | nil => rfl
    | cons c s =>
      by_cases space : c = ' '
      · rw [space]
        rfl
      · rw [tidySpacesFrom, if_neg space, leadingDigits, leadingDigits, ih]

theorem leadingDigits_written : ∀ c ∈ s.take (leadingDigits n s).length, c ≠ ' ' := by
  induction n generalizing s with
  | zero => exact List.forall_mem_nil _
  | succ n ih =>
    cases s with
    | nil => simp
    | cons c s =>
      rw [leadingDigits]
      cases digit : anyDigit c with
      | none => exact List.forall_mem_nil _
      | some d =>
        refine List.forall_mem_cons.mpr ⟨?_, ih⟩
        rintro rfl
        have none_ : anyDigit ' ' = none := rfl
        rw [none_] at digit
        cases digit

theorem markerAt_tidied (c : Char) (s : Text) : markerAt c (tidySpacesFrom false s) = markerAt c s := by
  rw [markerAt, markerAt, leadingDigits_tidied]
  refine congrArg _ (funext fun close => ?_)
  dsimp only
  rw [(tidySpacesFrom_word leadingDigits_written).2]

/-- A marker that was written holds no space. -/
theorem marker_word {c : Char} (found : markerAt c s = some digits) :
    ∀ d ∈ s.take (digits.length + 1), d ≠ ' ' := by
  rw [markerAt, Option.bind_eq_some_iff] at found
  obtain ⟨close, opens, found⟩ := found
  dsimp only at found
  split_ifs at found with holds
  obtain rfl := Option.some.inj found
  intro d listed
  rw [List.take_add_one, List.mem_append] at listed
  rcases listed with digit | last
  · exact leadingDigits_written d digit
  have closes := (Bool.and_eq_true _ _ ▸ holds).2
  rw [Option.mem_toList.mp last] at closes
  rintro rfl
  rw [closesWith, Bool.or_eq_true, beq_iff_eq, Bool.and_eq_true, beq_iff_eq] at closes
  rcases closes with same | ⟨-, same⟩
  · obtain rfl := Option.some.inj same
    rw [closeOf] at opens
    split_ifs at opens
    all_goals exact absurd (Option.some.inj opens) (by decide)
  · exact absurd (Option.some.inj same) (by decide)

theorem proseOf_tidied (flags : List (Bool × Char)) :
    proseOf (tidied prevSpace flags) = tidySpacesFrom prevSpace (proseOf flags) := by
  induction flags generalizing prevSpace with
  | nil => rfl
  | cons flag flags ih =>
    obtain ⟨code, c⟩ := flag
    cases code with
    | true =>
      rw [tidied, if_neg (fun holds => Bool.false_ne_true holds.1.symm)]
      rfl
    | false =>
      have shape : ∀ rest, proseOf ((false, c) :: rest) = c :: proseOf rest := fun rest => rfl
      rw [tidied, shape, tidySpacesFrom]
      by_cases space : c = ' '
      · rw [if_pos ⟨rfl, space⟩, if_pos space, ← ih]
        cases prevSpace <;> rfl
      · rw [if_neg (fun holds => space holds.2), if_neg space, ← ih]
        rfl

def Piece.proseSpace : Piece → Bool
  | .kept code c => !code && c == ' '
  | _ => false

/-- Pieces without the double spaces of prose. -/
def tidyPieces : Bool → List Piece → List Piece
  | _, [] => []
  | prevSpace, p :: rest =>
    if p.proseSpace then
      if prevSpace then tidyPieces true rest else p :: tidyPieces true rest
    else p :: tidyPieces false rest

theorem markerPiece_noSpace (written digits : Text) (link : Bool) :
    (markerPiece offered written digits link).proseSpace = false := by
  rw [markerPiece]
  split_ifs
  · rfl
  · rfl
  · rfl
  · rfl

theorem tidyPieces_keep (other : p.proseSpace = false) (rest : List Piece) :
    tidyPieces prevSpace (p :: rest) = p :: tidyPieces false rest := by
  rw [tidyPieces, other, if_neg Bool.false_ne_true]

/-- **The pieces of a tidied text are those of the text, with fewer spaces.** -/
theorem scanFrom_tidied (prevSpace : Bool) (skip : Nat) (flags : List (Bool × Char))
    (word : ∀ flag ∈ flags.take skip, flag.2 ≠ ' ') : scanFrom offered skip (tidied prevSpace flags) =
      tidyPieces (if skip = 0 then prevSpace else false) (scanFrom offered skip flags) := by
  induction flags generalizing prevSpace skip with
  | nil => cases skip <;> rfl
  | cons flag rest ih =>
    have none_ : ∀ flag ∈ rest.take 0, flag.2 ≠ ' ' := List.forall_mem_nil _
    cases skip with
    | succ skip =>
      rw [List.take_succ_cons] at word
      obtain ⟨first, word⟩ := List.forall_mem_cons.mp word
      have behind := ih false skip word
      rw [ite_self] at behind
      rw [tidied, if_neg (fun holds => first holds.2), if_neg (Nat.succ_ne_zero _)]
      exact behind
    | zero =>
      obtain ⟨code, c⟩ := flag
      have plain := ih false 0 none_
      rw [if_pos rfl] at plain ⊢
      cases code with
      | true =>
        rw [tidied, if_neg (fun holds => Bool.false_ne_true holds.1.symm), scanFrom_code, scanFrom_code,
          plain, tidyPieces_keep prevSpace rfl]
      | false =>
        by_cases space : c = ' '
        · obtain rfl := space
          have noMarker : ∀ s, markerAt ' ' s = none := fun s => rfl
          have behind := ih true 0 none_
          rw [if_pos rfl] at behind
          rw [scanFrom_plain offered (noMarker _)]
          cases prevSpace with
          | true => exact behind
          | false =>
            show scanFrom offered 0 ((false, ' ') :: tidied true rest) =
              .kept false ' ' :: tidyPieces true (scanFrom offered 0 rest)
            rw [scanFrom_plain offered (noMarker _), behind]
        · have same := markerAt_tidied c (proseOf rest)
          rw [← proseOf_tidied] at same
          rw [tidied, if_neg (fun holds => space holds.2)]
          cases found : markerAt c (proseOf rest) with
          | none =>
            have other : (Piece.kept false c).proseSpace = false := by
              simpa [Piece.proseSpace] using space
            rw [scanFrom_plain offered found, scanFrom_plain offered (same.trans found), plain,
              tidyPieces_keep prevSpace other]
          | some digits =>
            have written := marker_word found
            obtain ⟨front, next⟩ := tidySpacesFrom_word written
            have word' : ∀ flag ∈ rest.take (digits.length + 1), flag.2 ≠ ' ' := fun flag listed => by
              have text := List.mem_map_of_mem (f := Prod.snd) listed
              rw [take_prose (isMarker_of_markerAt found).inside] at text
              exact written _ text
            have behind := ih false (digits.length + 1) word'
            rw [ite_self] at behind
            rw [scanFrom_marker offered found, scanFrom_marker offered (same.trans found), proseOf_tidied,
              List.take_succ_cons, List.take_succ_cons, front, next, behind,
              tidyPieces_keep prevSpace (markerPiece_noSpace _ _ _ _)]

theorem pieces_tidied (text : Text) :
    pieces offered (tidyFlags false (flags text)) = tidyPieces false (pieces offered text) := by
  rw [pieces, flags_tidied]
  exact scanFrom_tidied offered false 0 (flags text) (List.forall_mem_nil _)

theorem eq_of_proseSpace (space : p.proseSpace = true) : p = .kept false ' ' := by
  cases p with
  | kept code c =>
    rw [Piece.proseSpace, Bool.and_eq_true, Bool.not_eq_true', beq_iff_eq] at space
    rw [space.1, space.2]
  | shown written digits | cited written n | deleted written n => cases space

/-- Nothing but spaces is gone. -/
theorem forall_tidyPieces {P : Piece → Prop} (space : P (.kept false ' ')) (prevSpace : Bool) (ps : List Piece) :
    (∀ p ∈ tidyPieces prevSpace ps, P p) ↔ ∀ p ∈ ps, P p := by
  induction ps generalizing prevSpace with
  | nil => exact Iff.rfl
  | cons p ps ih =>
    rw [tidyPieces, List.forall_mem_cons]
    split_ifs with isSpace _
    · rw [ih, eq_of_proseSpace isSpace]
      exact ⟨fun others => ⟨space, others⟩, fun both => both.2⟩
    · rw [List.forall_mem_cons, ih]
    · rw [List.forall_mem_cons, ih]

theorem filterMap_tidyPieces {β : Type} {f : Piece → Option β} (space : f (.kept false ' ') = none)
    (prevSpace : Bool) (ps : List Piece) : (tidyPieces prevSpace ps).filterMap f = ps.filterMap f := by
  induction ps generalizing prevSpace with
  | nil => rfl
  | cons p ps ih =>
    rw [tidyPieces]
    split_ifs with isSpace _
    · rw [ih, List.filterMap_cons, eq_of_proseSpace isSpace, space]
    · rw [List.filterMap_cons, List.filterMap_cons, ih]
    · rw [List.filterMap_cons, List.filterMap_cons, ih]

/-! ## Normal forms -/

theorem numberOf_lt (all : ∀ d ∈ digits, d.isDigit = true) : numberOf digits < 10 ^ digits.length := by
  induction digits using List.reverseRecOn with
  | nil => decide
  | append_singleton digits d ih =>
    have last : d.toNat - 0x30 ≤ 9 := by
      have digit := all d (by simp)
      rw [Char.isDigit, Bool.and_eq_true, decide_eq_true_eq, decide_eq_true_eq] at digit
      have high : d.toNat ≤ 57 := digit.2
      omega
    have front := ih fun e listed => all e (List.mem_append_left _ listed)
    have step : numberOf (digits ++ [d]) = 10 * numberOf digits + (d.toNat - 0x30) := List.foldl_append ..
    rw [step, List.length_append, List.length_singleton, Nat.pow_succ]
    omega

/-- No marker is longer than it was written. -/
theorem pieces_sized (text : Text) :
    ∀ p ∈ pieces offered text, p.image.length ≤ p.written.length := by
  refine scanFrom_all (fun _ _ => Nat.le_refl _) (fun c rest digits link found => ?_) 0 (flags text)
  obtain ⟨-, all, nonempty, -, inside⟩ := isMarker_of_markerAt found
  have written : ((c :: rest).take (digits.length + 2)).length = digits.length + 2 := by
    rw [List.length_take, List.length_cons]
    omega
  have size : ∀ ds : Text, (bracketed ds).length = ds.length + 2 := fun ds => by
    rw [bracketed, List.length_cons, List.length_append]
    rfl
  have canonical_ : (canonical (numberOf digits)).length ≤ digits.length + 2 := by
    rw [canonical, size, Nat.add_le_add_iff_right, Nat.length_toDigits_le_iff (by decide) nonempty]
    exact numberOf_lt all
  rw [markerPiece_written, written, markerPiece]
  split_ifs
  · exact Nat.le_of_eq (size digits)
  · exact canonical_
  · exact Nat.zero_le _
  · exact Nat.le_of_eq (size digits)

theorem flatMap_length_le (sized : ∀ p ∈ ps, p.image.length ≤ p.written.length) :
    (ps.flatMap Piece.image).length ≤ (ps.flatMap Piece.written).length := by
  induction ps with
  | nil => exact Nat.le_refl _
  | cons p ps ih =>
    obtain ⟨first, sized⟩ := List.forall_mem_cons.mp sized
    rw [List.flatMap_cons, List.flatMap_cons, List.length_append, List.length_append]
    exact Nat.add_le_add first (ih sized)

/-- Where what remains is the text, every piece is as it was written. -/
theorem normal_of_images (sized : ∀ p ∈ ps, p.image.length ≤ p.written.length)
    (same : ps.flatMap Piece.image = ps.flatMap Piece.written) : ∀ p ∈ ps, p.image = p.written := by
  induction ps with
  | nil => exact List.forall_mem_nil _
  | cons p ps ih =>
    obtain ⟨first, sized⟩ := List.forall_mem_cons.mp sized
    have others := flatMap_length_le sized
    have total := congrArg List.length same
    rw [List.flatMap_cons, List.flatMap_cons, List.length_append, List.length_append] at total
    obtain ⟨here, behind⟩ := List.append_inj same (show p.image.length = p.written.length by omega)
    exact List.forall_mem_cons.mpr ⟨here, ih sized behind⟩

theorem tidyFlags_sublist (flags : List (Bool × Char)) :
    (tidyFlags prevSpace flags).Sublist (flags.map Prod.snd) := by
  induction flags generalizing prevSpace with
  | nil => exact .slnil
  | cons flag flags ih =>
    rw [tidyFlags, List.map_cons]
    split_ifs
    · exact (ih true).cons _
    · exact (ih true).cons_cons _
    · exact (ih false).cons_cons _

theorem remains_of_tidied {offered : List Nat} {text : Text}
    (same : tidyFlags false (flags (remains offered text)) = text) : remains offered text = text := by
  have fewer := tidyFlags_sublist false (flags (remains offered text))
  rw [flags, flagsFrom_text, ← flags, same] at fewer
  have less := flatMap_length_le (pieces_sized offered text)
  rw [pieces_written] at less
  exact (fewer.eq_of_length_le less).symm

/-! ## Reading again -/

/-- What the deletions of a reply leave is settled: no marker has come up in it that is void or not in its
normal form, and it shows the offered numbers that the reply shows. -/
structure Settled (offered : List Nat) (reply : Text) : Prop where
  noVoid : ∀ p ∈ pieces offered (remains offered reply), p.void = false
  normal : ∀ p ∈ pieces offered (remains offered reply), p.image = p.written
  shown : ∀ n, (∃ written, .cited written n ∈ pieces offered (remains offered reply)) ↔
    ∃ written, .cited written n ∈ pieces offered reply

theorem mem_foldl_pushNew {l acc : List Nat} : n ∈ l.foldl pushNew acc ↔ n ∈ acc ∨ n ∈ l := by
  induction l generalizing acc with
  | nil => simp
  | cons m l ih =>
    rw [List.foldl_cons, ih, pushNew]
    split_ifs with old
    · rw [List.mem_cons]
      constructor
      · rintro (here | there)
        · exact .inl here
        · exact .inr (.inr there)
      · rintro (here | rfl | there)
        · exact .inl here
        · exact .inl old
        · exact .inr there
    · simp [or_assoc]

theorem mem_citedNumber : n ∈ ps.filterMap Piece.citedNumber ↔ ∃ written, .cited written n ∈ ps := by
  rw [List.mem_filterMap]
  constructor
  · rintro ⟨p, listed, number⟩
    cases p with
    | kept code c | shown written digits | deleted written m => cases number
    | cited written m =>
      obtain rfl := Option.some.inj number
      exact ⟨written, listed⟩
  · rintro ⟨written, listed⟩
    exact ⟨.cited written n, listed, rfl⟩

end DuDuClaw.Knowledge.Citations
