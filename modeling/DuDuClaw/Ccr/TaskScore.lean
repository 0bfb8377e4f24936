/-
# Ccr.TaskScore -- how near a task's terms stand in a stored original

Historical handles are ordered by a lexical signal: how many of the task's terms meet within 160
bytes of an original, and how close two of them come.  One loop over the characters finds the hits,
ASCII words and pairs of Han characters, and keeps the hits of the last 160 bytes in a queue with a
count for each term.

* `record_spec`: what one hit does to the queue and to the best values.
* `mem_hits`: the hits are the words and pairs that are terms, in the order of their offsets.
* `score_reference`: the loop ends with the most terms of a window and the least gap of two terms.
-/
import Mathlib.Data.Set.Card
import DuDuClaw.Lib.Ascii
import DuDuClaw.Lib.Chars
import DuDuClaw.Lib.HitWindow

namespace DuDuClaw.Ccr.TaskScore

open Lib

abbrev Text := List Char

/-! ## The queue -/

/-- Subtraction that stops the program below zero. -/
def checkedSub (a b : Nat) : Option Nat := if b ≤ a then some (a - b) else none

structure Tally where
  window : List (Nat × Nat)
  counts : List Nat
  distinct : Nat
  bestCount : Nat
  bestGap : Nat

/-- The loop that drops what is more than 160 bytes back: the queue, the counts and how many terms are in it. -/
def expire (offset : Nat) : List (Nat × Nat) → List Nat → Nat → Option (List (Nat × Nat) × List Nat × Nat)
  | [], counts, distinct => some ([], counts, distinct)
  | (oldOffset, oldTerm) :: rest, counts, distinct =>
    (checkedSub offset oldOffset).bind fun age =>
      if 160 < age then
        counts[oldTerm]?.bind fun count =>
          (checkedSub count 1).bind fun fewer =>
            if fewer = 0 then
              (checkedSub distinct 1).bind fun distinct =>
                expire offset rest (counts.set oldTerm fewer) distinct
            else expire offset rest (counts.set oldTerm fewer) distinct
      else some ((oldOffset, oldTerm) :: rest, counts, distinct)

/-- The gap to the last hit of another term. -/
def nearOther (window : List (Nat × Nat)) (offset term : Nat) : Option (Option Nat) :=
  match window.reverse.find? fun hit => hit.2 != term with
  | none => some none
  | some other => (checkedSub offset other.1).map some

/-- `record_historical_hit`, where `none` is an underflow or an index out of range. -/
def recordHistoricalHit (tally : Tally) (offset term : Nat) : Option Tally :=
  (expire offset tally.window tally.counts tally.distinct).bind fun kept =>
    (nearOther kept.1 offset term).bind fun near =>
      kept.2.1[term]?.map fun count =>
        let distinct := if count = 0 then kept.2.2 + 1 else kept.2.2
        { window := kept.1 ++ [(offset, term)]
          counts := kept.2.1.set term (count + 1)
          distinct := distinct
          bestCount := if tally.bestCount < distinct then distinct else tally.bestCount
          bestGap := match near with
            | none => tally.bestGap
            | some gap => min tally.bestGap gap }

/-- The counts of `n` terms. -/
def countsOf (n : Nat) (window : List (Nat × Nat)) : List Nat :=
  (List.range n).map fun term => (window.map Prod.snd).count term

variable {n term offset : Nat} {window : List (Nat × Nat)}

theorem getElem?_countsOf (known : term < n) (window : List (Nat × Nat)) :
    (countsOf n window)[term]? = some ((window.map Prod.snd).count term) := by
  rw [countsOf, List.getElem?_map, List.getElem?_range known]
  rfl

theorem set_countsOf {count : Nat} (known : term < n) {window' : List (Nat × Nat)}
    (same : ∀ other, other ≠ term → (window.map Prod.snd).count other = (window'.map Prod.snd).count other)
    (changed : (window'.map Prod.snd).count term = count) :
    (countsOf n window).set term count = countsOf n window' := by
  apply List.ext_getElem?
  intro i
  rw [List.getElem?_set]
  split_ifs with here inside
  · subst here
    rw [getElem?_countsOf known, changed]
  · subst here
    simp [countsOf] at inside
    omega
  · by_cases below : i < n
    · rw [getElem?_countsOf below, getElem?_countsOf below, same i (Ne.symm here)]
    · rw [List.getElem?_eq_none (by simp [countsOf]; omega), List.getElem?_eq_none (by simp [countsOf]; omega)]

theorem kindsOf_cons (place kind : Nat) (hits : List (Nat × Nat)) :
    kindsOf ((place, kind) :: hits) = insert kind (kindsOf hits) := by
  simp [kindsOf]

theorem kindsOf_concat (place kind : Nat) (hits : List (Nat × Nat)) :
    kindsOf (hits ++ [(place, kind)]) = insert kind (kindsOf hits) := by
  ext k
  simp [kindsOf]

theorem mem_kindsOf_iff_count {hits : List (Nat × Nat)} {kind : Nat} :
    kind ∈ kindsOf hits ↔ (hits.map Prod.snd).count kind ≠ 0 := by
  rw [kindsOf, List.mem_toFinset, ← Nat.pos_iff_ne_zero, List.count_pos_iff]

/-- The queue without what is too far back. -/
theorem expire_spec (known : ∀ h ∈ window, h.2 < n)
    (order : window.Pairwise fun h k => h.1 ≤ k.1) (earlier : ∀ h ∈ window, h.1 ≤ offset) :
    expire offset window (countsOf n window) (kindsOf window).card =
      some (recentHits 160 offset window, countsOf n (recentHits 160 offset window),
        (kindsOf (recentHits 160 offset window)).card) := by
  induction window with
  | nil => rfl
  | cons hit rest ih =>
    obtain ⟨old, term⟩ := hit
    obtain ⟨first, order⟩ := List.pairwise_cons.mp order
    obtain ⟨knownTerm, known⟩ := List.forall_mem_cons.mp known
    obtain ⟨before, earlier⟩ := List.forall_mem_cons.mp earlier
    dsimp only at first knownTerm before
    rw [expire, checkedSub, if_pos before, Option.bind_some]
    split_ifs with far
    · have count : (((old, term) :: rest).map Prod.snd).count term = (rest.map Prod.snd).count term + 1 := by simp
      have fewer : checkedSub (((old, term) :: rest).map Prod.snd |>.count term) 1 =
          some ((rest.map Prod.snd).count term) := by
        rw [checkedSub, count, if_pos (by omega)]
        rfl
      have counts : (countsOf n ((old, term) :: rest)).set term ((rest.map Prod.snd).count term) = countsOf n rest := by
        refine set_countsOf knownTerm (fun other differ => ?_) rfl
        rw [List.map_cons, List.count_cons_of_ne (Ne.symm differ)]
      have dropped : recentHits 160 offset ((old, term) :: rest) = recentHits 160 offset rest := by
        rw [recentHits, List.filter_cons_of_neg (by simp only [decide_eq_true_eq]; omega), recentHits]
      rw [getElem?_countsOf knownTerm, Option.bind_some, fewer, Option.bind_some, counts, dropped, ← ih known order earlier,
        kindsOf_cons]
      split_ifs with gone
      · have absent : term ∉ kindsOf rest := fun inside => mem_kindsOf_iff_count.mp inside gone
        rw [Finset.card_insert_of_notMem absent, checkedSub, if_pos (by omega)]
        rfl
      · rw [Finset.insert_eq_self.mpr (mem_kindsOf_iff_count.mpr gone)]
    · have kept : recentHits 160 offset ((old, term) :: rest) = (old, term) :: rest := by
        refine List.filter_eq_self.mpr fun h listed => ?_
        simp only [decide_eq_true_eq]
        rcases List.mem_cons.mp listed with rfl | later
        · dsimp only
          omega
        · have := first h later
          omega
      rw [kept]

/-! ## The reference -/

/-- The tally of the hits that were seen, of `n` terms. -/
structure Tally.Reads (n : Nat) (seen : List (Nat × Nat)) (tally : Tally) : Prop where
  known : ∀ h ∈ seen, h.2 < n
  order : seen.Pairwise fun h k => h.1 ≤ k.1
  window : tally.window.Sublist seen
  recent : ∀ offset, (∀ h ∈ seen, h.1 ≤ offset) → recentHits 160 offset tally.window = recentHits 160 offset seen
  counts : tally.counts = countsOf n tally.window
  distinct : tally.distinct = (kindsOf tally.window).card
  most : MostKinds 160 seen tally.bestCount
  least : LeastGap 160 seen tally.bestGap

/-- The tally before the first hit. -/
def emptyTally (n : Nat) : Tally := ⟨[], List.replicate n 0, 0, 0, 160⟩

theorem emptyTally_reads (n : Nat) : (emptyTally n).Reads n [] where
  known _ listed := absurd listed List.not_mem_nil
  order := .nil
  window := List.Sublist.refl _
  recent _ _ := rfl
  counts := by simp [emptyTally, countsOf, List.map_const']
  distinct := rfl
  most := mostKinds_nil
  least := leastGap_nil

theorem recentHits_recentHits {later : Nat} (order : offset ≤ later) (hits : List (Nat × Nat)) :
    recentHits 160 later (recentHits 160 offset hits) = recentHits 160 later hits := by
  rw [recentHits, recentHits, List.filter_filter]
  refine List.filter_congr fun h _ => ?_
  simp only [Bool.and_eq_decide, decide_eq_true_eq, decide_eq_decide]
  omega

/-- What the search from the end finds is the nearest hit of another term. -/
theorem nearOther_spec (order : window.Pairwise fun h k => h.1 ≤ k.1) (earlier : ∀ h ∈ window, h.1 ≤ offset) :
    (nearOther window offset term = some none ∧ ∀ h ∈ window, h.2 = term) ∨
      ∃ near ∈ window, nearOther window offset term = some (some (offset - near.1)) ∧ near.2 ≠ term ∧
        ∀ h ∈ window, h.2 ≠ term → h.1 ≤ near.1 := by
  rw [nearOther]
  cases found : window.reverse.find? fun hit => hit.2 != term with
  | none =>
    refine .inl ⟨rfl, fun h listed => ?_⟩
    have same := List.find?_eq_none.mp found h (List.mem_reverse.mpr listed)
    simpa using same
  | some near =>
    obtain ⟨differ, later, before, shape, alike⟩ := List.find?_eq_some_iff_append.mp found
    have listed : near ∈ window := List.mem_reverse.mp (shape ▸ List.mem_append_right _ List.mem_cons_self)
    have parts : window = before.reverse ++ near :: later.reverse := by
      rw [← List.reverse_reverse window, shape]
      simp
    refine .inr ⟨near, listed, ?_, by simpa using differ, fun h inside other => ?_⟩
    · dsimp only
      rw [checkedSub, if_pos (earlier near listed)]
      rfl
    · rw [parts] at inside order
      rcases List.mem_append.mp inside with first | rest
      · exact (List.pairwise_append.mp order).2.2 h first near List.mem_cons_self
      rcases List.mem_cons.mp rest with rfl | last
      · exact Nat.le_refl _
      · have same := alike h (List.mem_reverse.mp last)
        simp at same
        exact absurd same other

/-- What one hit does to the queue and to the best values. -/
theorem record_spec {seen : List (Nat × Nat)} {tally : Tally} (reads : tally.Reads n seen)
    (order : ∀ h ∈ seen, h.1 ≤ offset) (known : term < n) :
    ∃ tally', recordHistoricalHit tally offset term = some tally' ∧ tally'.Reads n (seen ++ [(offset, term)]) := by
  have expired := expire_spec (fun h listed => reads.known h (reads.window.subset listed))
    (reads.order.sublist reads.window) (fun h listed => order h (reads.window.subset listed))
  rw [reads.recent offset order, ← reads.counts, ← reads.distinct] at expired
  have part : (recentHits 160 offset seen).Sublist seen := List.filter_sublist
  have near := @nearOther_spec term offset _ (reads.order.sublist part) fun h listed => order h (part.subset listed)
  have whole : recentHits 160 offset (seen ++ [(offset, term)]) = recentHits 160 offset seen ++ [(offset, term)] := by
    rw [recentHits, List.filter_append, List.filter_cons_of_pos (by simp), List.filter_nil, recentHits]
  have counted : (if ((recentHits 160 offset seen).map Prod.snd).count term = 0 then
      (kindsOf (recentHits 160 offset seen)).card + 1 else (kindsOf (recentHits 160 offset seen)).card) =
      (kindsOf (recentHits 160 offset seen ++ [(offset, term)])).card := by
    rw [kindsOf_concat]
    split_ifs with new
    · rw [Finset.card_insert_of_notMem fun inside => mem_kindsOf_iff_count.mp inside new]
    · rw [Finset.insert_eq_self.mpr (mem_kindsOf_iff_count.mpr new)]
  rw [recordHistoricalHit, expired, Option.bind_some]
  dsimp only
  rw [getElem?_countsOf known]
  -- but for the gap, the tally is the same in both cases
  have rest : ∀ gap, LeastGap 160 (seen ++ [(offset, term)]) gap → Tally.Reads n (seen ++ [(offset, term)])
        { window := recentHits 160 offset seen ++ [(offset, term)]
          counts := (countsOf n (recentHits 160 offset seen)).set term
            (((recentHits 160 offset seen).map Prod.snd).count term + 1)
          distinct := (kindsOf (recentHits 160 offset seen ++ [(offset, term)])).card
          bestCount := if tally.bestCount < (kindsOf (recentHits 160 offset seen ++ [(offset, term)])).card then
            (kindsOf (recentHits 160 offset seen ++ [(offset, term)])).card else tally.bestCount
          bestGap := gap } := by
    intro gap least
    refine ⟨?_, ?_, ?_, ?_, ?_, rfl, ?_, least⟩
    · exact List.forall_mem_append.mpr ⟨reads.known, fun h listed => List.mem_singleton.mp listed ▸ known⟩
    · refine List.pairwise_append.mpr ⟨reads.order, List.pairwise_singleton _ _, fun h listed k last => ?_⟩
      rw [List.mem_singleton.mp last]
      exact order h listed
    · exact part.append (List.Sublist.refl _)
    · intro later all
      obtain ⟨-, last⟩ := List.forall_mem_append.mp all
      have after : offset ≤ later := last _ List.mem_cons_self
      have older := recentHits_recentHits after seen
      rw [recentHits] at older ⊢
      rw [List.filter_append, older, recentHits, recentHits, List.filter_append]
    · refine set_countsOf known (fun other differ => ?_) (by simp)
      rw [List.map_append, List.count_append, List.map_cons, List.map_nil, List.count_singleton,
        if_neg (by simpa using Ne.symm differ)]
      rfl
    · have most := @mostKinds_concat 160 seen _ offset term order reads.most
      rw [whole] at most
      have same : ∀ a b : Nat, (if a < b then b else a) = max a b := fun a b => by
        split_ifs with less
        · omega
        · omega
      rw [same]
      exact most
  rcases near with ⟨none_, alone⟩ | ⟨hit, listed, some_, differ, nearest⟩
  · rw [none_]
    refine ⟨_, rfl, ?_⟩
    dsimp only
    rw [counted]
    exact rest _ (leastGap_concat_alone order reads.least alone)
  rw [some_]
  refine ⟨_, rfl, ?_⟩
  dsimp only
  rw [counted]
  exact rest _ (leastGap_concat order reads.least listed differ nearest)

/-! ## The scan -/

def isHanCharacter (c : Char) : Bool :=
  let n := c.toNat
  (0x3400 ≤ n && n ≤ 0x4dbf) || (0x4e00 ≤ n && n ≤ 0x9fff) || (0xf900 ≤ n && n ≤ 0xfaff) ||
    (0x20000 ≤ n && n ≤ 0x2fa1f)

def hanTerm (entry : Text × Nat) : Option (Char × Char × Nat) :=
  match entry.1 with
  | [a, b] => if isHanCharacter a && isHanCharacter b then some (a, b, entry.2) else none
  | _ => none

def hanTerms (terms : List Text) : List (Char × Char × Nat) := terms.zipIdx.filterMap hanTerm

/-- What the loop knows of the characters before. -/
structure Scan where
  ascii : Text
  asciiStart : Nat
  asciiOverlong : Bool
  previousHan : Option (Nat × Char)

def Scan.start : Scan := ⟨[], 0, false, none⟩

/-- An ASCII letter or digit goes on with the word. -/
def Scan.extend (scan : Scan) (offset : Nat) (c : Char) : Scan where
  ascii := if scan.ascii.length < 128 then scan.ascii ++ [c.toLower] else scan.ascii
  asciiStart := if scan.ascii = [] then offset else scan.asciiStart
  asciiOverlong := if scan.ascii.length < 128 then scan.asciiOverlong else true
  previousHan := none

def Scan.close (scan : Scan) (offset : Nat) (c : Char) : Scan where
  ascii := []
  asciiStart := scan.asciiStart
  asciiOverlong := if scan.ascii = [] then scan.asciiOverlong else false
  previousHan := if isHanCharacter c then some (offset, c) else none

def wordHit (terms : List Text) (scan : Scan) : Option (Nat × Nat) :=
  if scan.ascii = [] then none
  else if scan.asciiOverlong then none
  else (terms.findIdx? (· == scan.ascii)).map fun index => (scan.asciiStart, index)

def pairHit (terms : List Text) (scan : Scan) (c : Char) : Option (Nat × Nat) :=
  if isHanCharacter c then
    scan.previousHan.bind fun previous =>
      ((hanTerms terms).find? fun term => term.1 == previous.2 && term.2.1 == c).map fun term =>
        (previous.1, term.2.2)
  else none

def recordIfSome (tally : Tally) : Option (Nat × Nat) → Option Tally
  | none => some tally
  | some hit => recordHistoricalHit tally hit.1 hit.2

/-- The loop over the characters and their offsets. -/
def scanFrom (terms : List Text) : Nat → Text → Scan → Tally → Option Tally
  | _, [], _, tally => some tally
  | offset, c :: rest, scan, tally =>
    if c.isAlphanum then scanFrom terms (offset + c.utf8Size) rest (scan.extend offset c) tally
    else
      (recordIfSome tally (wordHit terms scan)).bind fun tally =>
        (recordIfSome tally (pairHit terms scan c)).bind fun tally =>
          scanFrom terms (offset + c.utf8Size) rest (scan.close offset c) tally

/-- The counting of `historical_task_score`: the original with a blank behind it. -/
def scanOriginal (terms : List Text) (original : Text) : Option Tally :=
  scanFrom terms 0 (original ++ [' ']) Scan.start (emptyTally terms.length)

/-- `historical_task_score`, with the terms of the task, of which there are 12 at most. -/
def historicalTaskScore (original : Text) (terms : List Text) : Option Nat :=
  if terms = [] then some 0
  else
    (scanOriginal terms original).map fun tally =>
      if tally.bestCount < 2 ∧ 1 < terms.length then 0 else tally.bestCount * 1000 + (160 - tally.bestGap)

/-! ## The hits -/

def hitsFrom (terms : List Text) : Nat → Text → Scan → List (Nat × Nat)
  | _, [], _ => []
  | offset, c :: rest, scan =>
    if c.isAlphanum then hitsFrom terms (offset + c.utf8Size) rest (scan.extend offset c)
    else
      (wordHit terms scan).toList ++
        ((pairHit terms scan c).toList ++ hitsFrom terms (offset + c.utf8Size) rest (scan.close offset c))

def hits (terms : List Text) (original : Text) : List (Nat × Nat) :=
  hitsFrom terms 0 (original ++ [' ']) Scan.start

variable {c : Char} {front original : Text} {scan : Scan} {terms : List Text} {offset index : Nat}

theorem recordIfSome_eq (tally : Tally) (hit : Option (Nat × Nat)) :
    recordIfSome tally hit = hit.toList.foldlM (fun tally hit => recordHistoricalHit tally hit.1 hit.2) tally := by
  cases hit with
  | none => rfl
  | some hit =>
    rw [Option.toList_some, List.foldlM_cons, recordIfSome]
    cases recordHistoricalHit tally hit.1 hit.2 <;> rfl

/-- The loop records the hits one after the other. -/
theorem scanFrom_eq (terms : List Text) (offset : Nat) (text : Text) (scan : Scan) (tally : Tally) :
    scanFrom terms offset text scan tally =
      (hitsFrom terms offset text scan).foldlM (fun tally hit => recordHistoricalHit tally hit.1 hit.2) tally := by
  induction text generalizing offset scan tally with
  | nil => rfl
  | cons c rest ih =>
    rw [scanFrom, hitsFrom]
    split_ifs
    · exact ih _ _ _
    rw [List.foldlM_append, ← recordIfSome_eq]
    refine congrArg (Option.bind _) (funext fun tally => ?_)
    rw [List.foldlM_append, ← recordIfSome_eq]
    exact congrArg (Option.bind _) (funext fun tally => ih _ _ _)

def lastWord (front : Text) : Text := front.rtakeWhile Char.isAlphanum

def beforeWord (front : Text) : Text := front.rdropWhile Char.isAlphanum

/-- A word or pair of the original that is a term, with the first index it has as a term. -/
inductive IsHit (terms : List Text) (original : Text) : Nat → Nat → Prop
  | word {front word back : Text} {index : Nat} : original = front ++ (word ++ back) → word ≠ [] →
      (∀ c ∈ word, c.isAlphanum = true) → (∀ c ∈ front.getLast?, c.isAlphanum = false) →
      (∀ c ∈ back.head?, c.isAlphanum = false) → word.length ≤ 128 →
      terms.findIdx? (· == word.map Char.toLower) = some index → IsHit terms original (byteLength front) index
  | pair {front back : Text} {a b : Char} {index : Nat} : original = front ++ a :: b :: back →
      isHanCharacter a = true → isHanCharacter b = true → terms.findIdx? (· == [a, b]) = some index →
      IsHit terms original (byteLength front) index

/-- What the loop knows behind `front`. -/
structure Scan.Behind (front : Text) (scan : Scan) : Prop where
  ascii : scan.ascii = ((lastWord front).map Char.toLower).take 128
  start : lastWord front ≠ [] → scan.asciiStart = byteLength (beforeWord front)
  overlong : scan.asciiOverlong = decide (128 < (lastWord front).length)
  previous : scan.previousHan =
    (front.getLast?.filter isHanCharacter).map fun c => (byteLength front.dropLast, c)

theorem behind_start : Scan.start.Behind [] where
  ascii := rfl
  start nonempty := absurd rfl nonempty
  overlong := rfl
  previous := rfl

theorem alphanum_not_han (plain : c.isAlphanum = true) : isHanCharacter c = false := by
  have codes := isAlphanum_iff.mp plain
  simp only [isHanCharacter, Bool.or_eq_false_iff, Bool.and_eq_false_iff, decide_eq_false_iff_not]
  omega

theorem Scan.Behind.extend (behind : scan.Behind front)
    (plain : c.isAlphanum = true) : (scan.extend (byteLength front) c).Behind (front ++ [c]) := by
  have word : lastWord (front ++ [c]) = lastWord front ++ [c] := List.rtakeWhile_concat_pos _ _ _ plain
  have before : beforeWord (front ++ [c]) = beforeWord front := List.rdropWhile_concat_pos _ _ _ plain
  have length : scan.ascii.length = min 128 (lastWord front).length := by rw [behind.ascii]; simp
  refine ⟨?_, fun _ => ?_, ?_, ?_⟩
  · rw [Scan.extend, word, behind.ascii, List.map_append, List.take_append]
    dsimp only
    rw [List.length_map, List.length_take, List.length_map]
    split_ifs with room
    · have whole : 128 - (lastWord front).length = (128 - (lastWord front).length - 1) + 1 := by omega
      rw [whole, List.map_cons, List.map_nil, List.take_succ_cons, List.take_nil]
    · have full : 128 - (lastWord front).length = 0 := by omega
      rw [full]
      simp
  · rw [Scan.extend, before]
    dsimp only
    by_cases empty : lastWord front = []
    · have whole := List.rdropWhile_append_rtakeWhile (p := Char.isAlphanum) (l := front)
      rw [show front.rtakeWhile Char.isAlphanum = [] from empty, List.append_nil] at whole
      have nothing : scan.ascii = [] := by rw [behind.ascii, empty]; rfl
      rw [if_pos nothing, beforeWord, whole]
    have nonempty : scan.ascii ≠ [] := by
      rw [← List.length_pos_iff, length]
      have := List.length_pos_iff.mpr empty
      omega
    rw [if_neg nonempty, behind.start empty]
  · rw [Scan.extend, word, behind.overlong, List.length_append, length]
    dsimp only
    simp only [List.length_cons, List.length_nil]
    split_ifs with room
    · rw [decide_eq_decide]
      omega
    · rw [eq_comm, decide_eq_true_eq]
      omega
  · rw [Scan.extend, List.getLast?_concat, Option.filter_some, alphanum_not_han plain]
    rfl

theorem Scan.Behind.close (behind : scan.Behind front)
    (other : c.isAlphanum = false) : (scan.close (byteLength front) c).Behind (front ++ [c]) := by
  have word : lastWord (front ++ [c]) = [] := List.rtakeWhile_concat_neg _ _ _ (by rw [other]; decide)
  refine ⟨?_, fun nonempty => absurd word nonempty, ?_, ?_⟩
  · rw [word]
    rfl
  · rw [Scan.close, word, behind.overlong, behind.ascii]
    dsimp only
    split_ifs with empty
    · have nothing : lastWord front = [] := by
        have length := congrArg List.length empty
        simp at length
        exact length
      rw [nothing]
    · rfl
  · rw [Scan.close, List.getLast?_concat, List.dropLast_concat, Option.filter_some]
    split_ifs <;> rfl

theorem mem_wordHit (behind : scan.Behind front) : (offset, index) ∈ wordHit terms scan ↔
      lastWord front ≠ [] ∧ (lastWord front).length ≤ 128 ∧ offset = byteLength (beforeWord front) ∧
        terms.findIdx? (· == (lastWord front).map Char.toLower) = some index := by
  have length : scan.ascii.length = min 128 (lastWord front).length := by rw [behind.ascii]; simp
  rw [wordHit]
  split_ifs with empty long
  · have nothing : lastWord front = [] := by
      rw [empty, List.length_nil] at length
      exact List.length_eq_zero_iff.mp (by omega)
    simp [nothing]
  · rw [behind.overlong, decide_eq_true_eq] at long
    refine iff_of_false (by simp) (fun all => ?_)
    omega
  rw [behind.overlong, decide_eq_true_eq] at long
  have word : lastWord front ≠ [] := by
    intro nothing
    rw [nothing, List.length_nil] at length
    exact empty (List.length_eq_zero_iff.mp (by omega))
  have whole : scan.ascii = (lastWord front).map Char.toLower := by
    rw [behind.ascii, List.take_of_length_le (by rw [List.length_map]; omega)]
  rw [whole, behind.start word, Option.mem_def, Option.map_eq_some_iff]
  constructor
  · rintro ⟨i, found, same⟩
    rw [Prod.mk.injEq] at same
    exact ⟨word, by omega, same.1.symm, same.2 ▸ found⟩
  · rintro ⟨-, -, rfl, found⟩
    exact ⟨index, found, rfl⟩

/-- The first pair in the list of pairs is the first term that is the pair. -/
theorem find?_hanTerms {a b : Char} (hanA : isHanCharacter a = true) (hanB : isHanCharacter b = true)
    (terms : List Text) (first : Nat) :
    (((terms.zipIdx first).filterMap hanTerm).find? fun term => term.1 == a && term.2.1 == b).map (·.2.2) =
      (terms.findIdx? (· == [a, b])).map (· + first) := by
  induction terms generalizing first with
  | nil => rfl
  | cons term terms ih =>
    have later := ih (first + 1)
    have shift : ((terms.findIdx? (· == [a, b])).map (· + 1)).map (· + first) =
        (terms.findIdx? (· == [a, b])).map (· + (first + 1)) := by
      rw [Option.map_map]
      exact congrArg (Option.map · _) (funext fun i => by dsimp only [Function.comp]; omega)
    rw [List.zipIdx_cons, List.filterMap_cons, List.findIdx?_cons]
    by_cases same : term = [a, b]
    · have entry : hanTerm ([a, b], first) = some (a, b, first) := by simp [hanTerm, hanA, hanB]
      rw [same, entry]
      simp
    have differ : (term == [a, b]) = false := by simpa using same
    rw [differ, if_neg Bool.false_ne_true, shift, ← later]
    cases entry : hanTerm (term, first) with
    | none => rfl
    | some pair =>
      dsimp only
      rw [List.find?_cons]
      have miss : (pair.1 == a && pair.2.1 == b) = false := by
        by_contra hit
        simp only [Bool.not_eq_false, Bool.and_eq_true, beq_iff_eq] at hit
        unfold hanTerm at entry
        split at entry
        · rename_i x y shape
          split_ifs at entry
          cases entry
          dsimp only at shape hit
          exact same (by rw [shape, hit.1, hit.2])
        · cases entry
      rw [miss]

theorem mem_pairHit (behind : scan.Behind front) : (offset, index) ∈ pairHit terms scan c ↔
      ∃ before a, front = before ++ [a] ∧ isHanCharacter a = true ∧ isHanCharacter c = true ∧
        offset = byteLength before ∧ terms.findIdx? (· == [a, c]) = some index := by
  rw [pairHit]
  split_ifs with han
  · rw [behind.previous]
    induction front using List.reverseRecOn with
    | nil => simp
    | append_singleton before a _ =>
      rw [List.getLast?_concat, List.dropLast_concat, Option.filter_some]
      split_ifs with hanA
      · have found := find?_hanTerms hanA han terms 0
        rw [Option.map_some, Option.bind_some]
        dsimp only
        constructor
        · intro hit
          obtain ⟨term, first, same⟩ := Option.map_eq_some_iff.mp hit
          rw [Prod.mk.injEq] at same
          rw [hanTerms] at first
          rw [first, Option.map_some] at found
          obtain ⟨i, at_, shape⟩ := Option.map_eq_some_iff.mp found.symm
          refine ⟨before, a, rfl, hanA, han, same.1.symm, ?_⟩
          rw [at_, ← same.2, ← shape]
          rfl
        · rintro ⟨before', a', shape, -, -, rfl, at_⟩
          obtain ⟨rfl, last⟩ := List.append_inj' shape rfl
          cases last
          rw [at_, Option.map_some] at found
          obtain ⟨term, first, same⟩ := Option.map_eq_some_iff.mp found
          rw [Option.mem_def, hanTerms, first, Option.map_some, same]
          rfl
      · refine iff_of_false (by simp) ?_
        rintro ⟨before', a', shape, hanA', -⟩
        obtain ⟨-, last⟩ := List.append_inj' shape rfl
        cases last
        exact hanA hanA'
  · refine iff_of_false (by simp) ?_
    rintro ⟨-, -, -, -, han', -⟩
    exact han han'

theorem mem_hitsFrom {text : Text} (behind : scan.Behind front) {hit : Nat × Nat} :
    hit ∈ hitsFrom terms (byteLength front) text scan ↔
      ∃ more c rest scan', text = more ++ c :: rest ∧ c.isAlphanum = false ∧ scan'.Behind (front ++ more) ∧
        (hit ∈ wordHit terms scan' ∨ hit ∈ pairHit terms scan' c) := by
  induction text generalizing front scan with
  | nil =>
    rw [hitsFrom]
    refine iff_of_false List.not_mem_nil ?_
    rintro ⟨more, c, rest, scan', shape, -⟩
    simp at shape
  | cons d text ih =>
    have size : byteLength front + d.utf8Size = byteLength (front ++ [d]) := by simp
    have further : ∀ {scan : Scan}, scan.Behind (front ++ [d]) →
        (hit ∈ hitsFrom terms (byteLength front + d.utf8Size) text scan ↔
          ∃ more c rest scan', text = more ++ c :: rest ∧ c.isAlphanum = false ∧
            scan'.Behind (front ++ d :: more) ∧ (hit ∈ wordHit terms scan' ∨ hit ∈ pairHit terms scan' c)) := by
      intro scan behind
      rw [size, ih behind]
      simp only [List.append_assoc, List.singleton_append]
    rw [hitsFrom]
    split_ifs with plain
    · rw [further (behind.extend plain)]
      constructor
      · rintro ⟨more, c, rest, scan', rfl, found⟩
        exact ⟨d :: more, c, rest, scan', rfl, found⟩
      · rintro ⟨more, c, rest, scan', shape, other, found⟩
        cases more with
        | nil =>
          rw [List.nil_append, List.cons.injEq] at shape
          rw [← shape.1, plain] at other
          cases other
        | cons e more =>
          rw [List.cons_append, List.cons.injEq] at shape
          obtain ⟨rfl, rfl⟩ := shape
          exact ⟨more, c, rest, scan', rfl, other, found⟩
    · have other : d.isAlphanum = false := (Bool.not_eq_true _).mp plain
      rw [List.mem_append, List.mem_append, further (behind.close other), Option.mem_toList, Option.mem_toList]
      constructor
      · rintro (word | pair | ⟨more, c, rest, scan', rfl, found⟩)
        · exact ⟨[], d, text, scan, rfl, other, by rwa [List.append_nil], .inl word⟩
        · exact ⟨[], d, text, scan, rfl, other, by rwa [List.append_nil], .inr pair⟩
        · exact ⟨d :: more, c, rest, scan', rfl, found⟩
      · rintro ⟨more, c, rest, scan', shape, other', behind', found⟩
        cases more with
        | nil =>
          rw [List.nil_append, List.cons.injEq] at shape
          obtain ⟨rfl, rfl⟩ := shape
          rw [List.append_nil] at behind'
          have same : (hit ∈ wordHit terms scan' ∨ hit ∈ pairHit terms scan' d) ↔
              (hit ∈ wordHit terms scan ∨ hit ∈ pairHit terms scan d) := by
            obtain ⟨offset, index⟩ := hit
            rw [mem_wordHit behind, mem_wordHit behind', mem_pairHit behind, mem_pairHit behind']
          exact or_assoc.mp (.inl (same.mp found))
        | cons e more =>
          rw [List.cons_append, List.cons.injEq] at shape
          obtain ⟨rfl, rfl⟩ := shape
          exact .inr (.inr ⟨more, c, rest, scan', rfl, other', behind', found⟩)

theorem exists_behind (front : Text) : ∃ scan : Scan, scan.Behind front := by
  induction front using List.reverseRecOn with
  | nil => exact ⟨_, behind_start⟩
  | append_singleton front c ih =>
    obtain ⟨scan, behind⟩ := ih
    cases plain : c.isAlphanum with
    | true => exact ⟨_, behind.extend plain⟩
    | false => exact ⟨_, behind.close plain⟩

theorem word_parts (front : Text) : beforeWord front ++ lastWord front = front := List.rdropWhile_append_rtakeWhile

theorem word_append {word : Text} (plain : ∀ c ∈ word, c.isAlphanum = true)
    (stop : ∀ c ∈ front.getLast?, c.isAlphanum = false) :
    lastWord (front ++ word) = word ∧ beforeWord (front ++ word) = front := by
  induction word using List.reverseRecOn with
  | nil =>
    rw [List.append_nil]
    induction front using List.reverseRecOn with
    | nil => exact ⟨rfl, rfl⟩
    | append_singleton front c _ =>
      have other : ¬c.isAlphanum = true := by
        rw [stop c (List.getLast?_concat ..)]
        decide
      exact ⟨List.rtakeWhile_concat_neg _ _ _ other, List.rdropWhile_concat_neg _ _ _ other⟩
  | append_singleton word c ih =>
    obtain ⟨rest, last⟩ := List.forall_mem_append.mp plain
    obtain ⟨same, before⟩ := ih rest
    have letter := last c List.mem_cons_self
    rw [← List.append_assoc]
    constructor
    · rw [lastWord, List.rtakeWhile_concat_pos _ _ _ letter]
      exact congrArg (· ++ [c]) same
    · rw [beforeWord, List.rdropWhile_concat_pos _ _ _ letter]
      exact before

theorem before_later {d : Char} (other : d.isAlphanum = false) (more : Text) :
    front ++ [d] <+: beforeWord (front ++ d :: more) := by
  induction more using List.reverseRecOn with
  | nil =>
    rw [beforeWord, List.rdropWhile_concat_neg _ _ _ (by rw [other]; decide)]
  | append_singleton more c ih =>
    rw [← List.cons_append, ← List.append_assoc, beforeWord, List.rdropWhile_concat]
    split_ifs
    · exact ih
    · exact ⟨more ++ [c], by simp⟩

theorem byteLength_le_of_prefix {s t : Text} (start : s <+: t) : byteLength s ≤ byteLength t :=
  byteLength_le_of_sublist start.sublist

theorem pairwise_toList (hit : Option (Nat × Nat)) : hit.toList.Pairwise fun h k => h.1 ≤ k.1 := by
  cases hit with
  | none => exact .nil
  | some hit => exact List.pairwise_singleton _ _

theorem hitsFrom_sorted {text : Text} (behind : scan.Behind front) :
    (hitsFrom terms (byteLength front) text scan).Pairwise fun h k => h.1 ≤ k.1 := by
  induction text generalizing front scan with
  | nil => exact .nil
  | cons d text ih =>
    have size : byteLength front + d.utf8Size = byteLength (front ++ [d]) := by simp
    rw [hitsFrom, size]
    split_ifs with plain
    · exact ih (behind.extend plain)
    have other : d.isAlphanum = false := (Bool.not_eq_true _).mp plain
    have later : ∀ k ∈ hitsFrom terms (byteLength (front ++ [d])) text (scan.close (byteLength front) d),
        byteLength front ≤ k.1 := by
      intro k listed
      obtain ⟨more, c, rest, scan', rfl, -, behind', word | pair⟩ := (mem_hitsFrom (behind.close other)).mp listed
      · obtain ⟨offset, index⟩ := k
        obtain ⟨-, -, rfl, -⟩ := (mem_wordHit behind').mp word
        rw [List.append_assoc, List.singleton_append]
        exact byteLength_le_of_prefix ((List.prefix_append front [d]).trans (before_later other more))
      obtain ⟨offset, index⟩ := k
      obtain ⟨before, a, shape, -, -, rfl, -⟩ := (mem_pairHit behind').mp pair
      rw [List.append_assoc, List.singleton_append] at shape
      have lengths := congrArg List.length shape
      simp only [List.length_append, List.length_cons, List.length_nil] at lengths
      exact byteLength_le_of_prefix (List.prefix_of_prefix_length_le (shape ▸ List.prefix_append front (d :: more))
        (List.prefix_append before [a]) (by omega))
    have word : ∀ h ∈ wordHit terms scan, h.1 ≤ byteLength front := by
      intro h listed
      obtain ⟨offset, index⟩ := h
      obtain ⟨-, -, rfl, -⟩ := (mem_wordHit behind).mp listed
      exact byteLength_le_of_prefix ⟨_, word_parts front⟩
    have pair : ∀ h ∈ pairHit terms scan d, h.1 ≤ byteLength front := by
      intro h listed
      obtain ⟨offset, index⟩ := h
      obtain ⟨before, a, rfl, -, -, rfl, -⟩ := (mem_pairHit behind).mp listed
      exact byteLength_le_of_prefix ⟨_, rfl⟩
    have both : ∀ h ∈ wordHit terms scan, ∀ k ∈ pairHit terms scan d, h.1 ≤ k.1 := by
      intro h isWord k isPair
      obtain ⟨offset, index⟩ := h
      obtain ⟨offset', index'⟩ := k
      obtain ⟨nonempty, -⟩ := (mem_wordHit behind).mp isWord
      obtain ⟨before, a, rfl, han, -⟩ := (mem_pairHit behind).mp isPair
      -- a word does not end with a Han character
      refine absurd (List.rtakeWhile_concat_neg _ _ _ fun plain => ?_) nonempty
      rw [alphanum_not_han plain] at han
      cases han
    rw [List.pairwise_append, List.pairwise_append]
    refine ⟨pairwise_toList _, ⟨pairwise_toList _, ih (behind.close other), fun h listed k after => ?_⟩,
      fun h listed k after => ?_⟩
    · exact (pair h (Option.mem_toList.mp listed)).trans (later k after)
    · rcases List.mem_append.mp after with isPair | after
      · exact both h (Option.mem_toList.mp listed) k (Option.mem_toList.mp isPair)
      · exact (word h (Option.mem_toList.mp listed)).trans (later k after)

/-- The hits come in the order of their offsets. -/
theorem hits_sorted (terms : List Text) (original : Text) :
    (hits terms original).Pairwise fun h k => h.1 ≤ k.1 := hitsFrom_sorted behind_start

theorem without_blank {rest : Text} (parts : original ++ [' '] = front ++ c :: rest) :
    ∃ back, original = front ++ back ∧ (back = [] ∧ c = ' ' ∨ ∃ more, back = c :: more) := by
  induction rest using List.reverseRecOn with
  | nil =>
    obtain ⟨rfl, last⟩ := List.append_inj' parts rfl
    exact ⟨[], (List.append_nil _).symm, .inl ⟨rfl, (List.cons.inj last).1.symm⟩⟩
  | append_singleton rest d _ =>
    rw [← List.cons_append, ← List.append_assoc] at parts
    obtain ⟨rfl, -⟩ := List.append_inj' parts rfl
    exact ⟨c :: rest, rfl, .inr ⟨rest, rfl⟩⟩

theorem mem_hits : (offset, index) ∈ hits terms original ↔ IsHit terms original offset index := by
  have found := @mem_hitsFrom [] _ terms (original ++ [' ']) behind_start (offset, index)
  rw [byteLength_nil] at found
  rw [hits, found]
  constructor
  · rintro ⟨front, c, rest, scan, parts, other, behind, word | pair⟩
    · rw [List.nil_append] at behind
      obtain ⟨nonempty, short, rfl, first⟩ := (mem_wordHit behind).mp word
      obtain ⟨back, rfl, shape⟩ := without_blank parts
      refine @IsHit.word terms _ (beforeWord front) (lastWord front) back index ?_ nonempty
        (fun c listed => List.mem_rtakeWhile_imp listed) ?_ ?_ short first
      · rw [← List.append_assoc, word_parts]
      · intro c last
        have nonempty : beforeWord front ≠ [] := fun nothing => by simp [nothing] at last
        have stop := List.rdropWhile_last_not Char.isAlphanum front nonempty
        rw [List.getLast?_eq_some_getLast nonempty, Option.mem_some_iff] at last
        rw [← last]
        exact (Bool.not_eq_true _).mp stop
      · intro d first
        rcases shape with ⟨rfl, -⟩ | ⟨more, rfl⟩
        · cases first
        · cases first
          exact other
    · rw [List.nil_append] at behind
      obtain ⟨before, a, rfl, hanA, hanC, rfl, first⟩ := (mem_pairHit behind).mp pair
      obtain ⟨back, rfl, shape⟩ := without_blank parts
      rcases shape with ⟨-, rfl⟩ | ⟨more, rfl⟩
      · cases hanC
      · exact IsHit.pair (List.append_assoc before [a] (c :: more)) hanA hanC first
  · rintro (⟨rfl, nonempty, plain, stop, next, short, first⟩ | ⟨rfl, hanA, hanB, first⟩)
    · rename_i front word back
      obtain ⟨same, before⟩ := word_append plain stop
      obtain ⟨scan, behind⟩ := exists_behind (front ++ word)
      obtain ⟨c, rest, shape⟩ : ∃ c rest, back ++ [' '] = c :: rest := List.exists_cons_of_ne_nil (by simp)
      have other : c.isAlphanum = false := by
        cases back with
        | nil =>
          cases shape
          rfl
        | cons d back =>
          cases shape
          exact next _ rfl
      refine ⟨front ++ word, c, rest, scan, ?_, other, behind, .inl ((mem_wordHit behind).mpr ?_)⟩
      · rw [← shape]
        simp
      · rw [same, before]
        exact ⟨nonempty, short, rfl, first⟩
    · rename_i front back a b
      obtain ⟨scan, behind⟩ := exists_behind (front ++ [a])
      have other : b.isAlphanum = false := by
        by_contra plain
        rw [alphanum_not_han ((Bool.not_eq_false _).mp plain)] at hanB
        cases hanB
      refine ⟨front ++ [a], b, back ++ [' '], scan, by simp, other, behind, .inr ((mem_pairHit behind).mpr ?_)⟩
      exact ⟨front, a, rfl, hanA, hanB, rfl, first⟩

theorem IsHit.known (hit : IsHit terms original offset index) : index < terms.length := by
  cases hit with
  | word _ _ _ _ _ _ first | pair _ _ _ first => exact (List.findIdx?_eq_some_iff_getElem.mp first).1

/-- The loop over hits in the order of their offsets. -/
theorem recordAll {n : Nat} {listed seen : List (Nat × Nat)} {tally : Tally} (reads : tally.Reads n seen)
    (order : (seen ++ listed).Pairwise fun h k => h.1 ≤ k.1) (known : ∀ h ∈ listed, h.2 < n) :
    ∃ tally', listed.foldlM (fun tally hit => recordHistoricalHit tally hit.1 hit.2) tally = some tally' ∧
      tally'.Reads n (seen ++ listed) := by
  induction listed generalizing seen tally with
  | nil => exact ⟨tally, rfl, by rwa [List.append_nil]⟩
  | cons hit rest ih =>
    obtain ⟨one, more⟩ := List.forall_mem_cons.mp known
    have earlier : ∀ h ∈ seen, h.1 ≤ hit.1 := fun h before =>
      (List.pairwise_append.mp order).2.2 h before hit List.mem_cons_self
    obtain ⟨tally', recorded, reads'⟩ := record_spec reads earlier one
    rw [List.append_cons] at order
    obtain ⟨tally'', recorded', reads''⟩ := ih reads' order more
    refine ⟨tally'', ?_, by rwa [List.append_cons]⟩
    rw [List.foldlM_cons, recorded]
    exact recorded'

/-- The terms with a hit in the 160 bytes from `lo` on. -/
def termsWithin (terms : List Text) (original : Text) (lo : Nat) : Set Nat :=
  {index | ∃ offset, IsHit terms original offset index ∧ lo ≤ offset ∧ offset ≤ lo + 160}

/-- The distances of two hits of different terms, up to 160 bytes. -/
def gapsWithin (terms : List Text) (original : Text) : Set Nat :=
  {gap | ∃ offset index index', IsHit terms original offset index ∧ IsHit terms original (offset + gap) index' ∧
    index ≠ index' ∧ gap ≤ 160}

/-- **The loop is its reference**: it ends, with no subtraction below zero, with the most terms that
meet within 160 bytes and the least distance of two terms. -/
theorem score_reference (terms : List Text) (original : Text) :
    ∃ tally, scanOriginal terms original = some tally ∧
      IsGreatest (Set.range fun lo => (termsWithin terms original lo).ncard) tally.bestCount ∧
      IsLeast (insert 160 (gapsWithin terms original)) tally.bestGap := by
  have known : ∀ h ∈ hits terms original, h.2 < terms.length := fun h listed => (mem_hits.mp listed).known
  obtain ⟨tally, ran, reads⟩ := recordAll (emptyTally_reads terms.length) (hits_sorted terms original) known
  have within : ∀ lo, (termsWithin terms original lo).ncard = (kindsWithin 160 (hits terms original) lo).card := by
    intro lo
    rw [← Set.ncard_coe_finset]
    congr 1
    ext index
    rw [Finset.mem_coe, mem_kindsWithin]
    simp only [mem_hits]
    rfl
  have gapsSame : gapsWithin terms original = gaps 160 (hits terms original) := by
    ext gap
    constructor
    · rintro ⟨offset, index, index', hit, hit', differ, near⟩
      exact ⟨_, mem_hits.mpr hit, _, mem_hits.mpr hit', differ, rfl, near⟩
    · rintro ⟨⟨offset, index⟩, hit, ⟨offset', index'⟩, hit', differ, rfl, near⟩
      exact ⟨offset, index, index', mem_hits.mp hit, mem_hits.mp hit', differ, near⟩
  refine ⟨tally, ?_, ?_, ?_⟩
  · rw [scanOriginal, scanFrom_eq]
    exact ran
  · simp only [within]
    exact reads.most
  · rw [gapsSame]
    exact reads.least

end DuDuClaw.Ccr.TaskScore
