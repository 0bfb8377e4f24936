/-
# Ccr.LexicalSearch -- the statement and the ranks of a search

A search takes terms from its query, has SQLite select the rows whose original holds the query or
one of the terms, and ranks what was selected.  The statement folds case and matches GLOB
patterns; the ranks look for the terms in a folded copy of the text.

* `selects_of_rank`: a text with a rank is selected.
* `filterMap_selected`: so that ranking the selected rows is ranking every row.
* `prefilter_hides_no_hit`: the search returns what a search without the condition returns.
-/
import Mathlib.Data.Prod.Lex
import DuDuClaw.Ccr.Capacity
import DuDuClaw.Ccr.Operations
import DuDuClaw.Lib.Ascii
import DuDuClaw.Lib.SqliteGlob

namespace DuDuClaw.Ccr

open DuDuClaw.Lib

/-! ## Terms -/

/-- The Han characters of `find_terms`. -/
def isHan (c : Char) : Bool :=
  let n := c.toNat
  (0x3400 ≤ n && n ≤ 0x4dbf) || (0x4e00 ≤ n && n ≤ 0x9fff) || (0xf900 ≤ n && n ≤ 0xfaff) ||
    (0x20000 ≤ n && n ≤ 0x2fa1f)

/-- The terms so far, the word and the run of Han characters before the next character. -/
structure TermScan where
  terms : List Text
  ascii : Text
  han : List Char
  hasHan : Bool

/-- `if !terms.contains(..) { terms.push(..) }`. -/
def pushTerm (terms : List Text) (term : Text) : List Text := if term ∈ terms then terms else terms ++ [term]

def TermScan.flushAscii (scan : TermScan) : TermScan :=
  { scan with
    terms := if 3 ≤ scan.ascii.length then pushTerm scan.terms scan.ascii else scan.terms
    ascii := [] }

/-- `han.windows(2)`. -/
def pairs (han : List Char) : List Text := (han.zip han.tail).map fun pair => [pair.1, pair.2]

def TermScan.flushHan (scan : TermScan) : TermScan :=
  { scan with
    terms := (pairs scan.han).foldl pushTerm scan.terms
    han := [] }

def TermScan.step (scan : TermScan) (c : Char) : TermScan :=
  if c.isAlphanum then { scan.flushHan with ascii := scan.ascii ++ [c.toLower] }
  else if isHan c then { scan.flushAscii with hasHan := true, han := scan.han ++ [c] }
  else scan.flushAscii.flushHan

variable (query : Text)

/-- `find_terms`: 4 terms at most, or 8 with Han characters, from the whole query. -/
def findTerms : List Text :=
  let scan := (query ++ [' ']).foldl TermScan.step ⟨[], [], [], false⟩
  let limit := if scan.hasHan then 8 else 4
  if scan.terms.length ≤ limit then scan.terms
  else (List.range limit).filterMap fun index => scan.terms[index * (scan.terms.length - 1) / (limit - 1)]?

/-- `[^0-9a-z]`. -/
def boundaryClass : Text := ['[', '^', '0', '-', '9', 'a', '-', 'z', ']']

/-- `term.is_ascii()`. -/
def isAscii (term : Text) : Bool := term.all fun c => c.toNat < 128

def findTermGlob (term : Text) : Text :=
  if isAscii term then '*' :: (boundaryClass ++ (term ++ (boundaryClass ++ ['*'])))
  else '*' :: (term ++ ['*'])

/-! ## Ranks -/

/-- `match_indices`: the occurrences that do not overlap, each with the text before and behind it; `skip`
characters belong to the last one. -/
def matchIndicesFrom (term : Text) : Text → Nat → Text → List (Text × Text)
  | _, _, [] => []
  | front, 0, c :: rest =>
    if term.isPrefixOf (c :: rest) then
      (front, (c :: rest).drop term.length) :: matchIndicesFrom term (front ++ [c]) (term.length - 1) rest
    else matchIndicesFrom term (front ++ [c]) 0 rest
  | front, skip + 1, c :: rest => matchIndicesFrom term (front ++ [c]) skip rest

def wholeWord (term : Text) (occurrence : Text × Text) : Bool :=
  (!isAscii term || (bytes occurrence.1).getLast?.all fun b => !isAlphanumericByte b) &&
    (!isAscii term || (bytes occurrence.2).head?.all fun b => !isAlphanumericByte b)

/-- The offsets of a term, the first 16 that count. -/
def positions (lowered term : Text) : List Nat :=
  (((matchIndicesFrom term [] 0 lowered).filter (wholeWord term)).map fun occurrence =>
    byteLength occurrence.1).take 16

/-- `first.abs_diff(second)` and the lower of both, for the offsets of two terms. -/
def candidates : List (List Nat) → List (Nat × Nat)
  | [] => []
  | firstPositions :: rest =>
    (rest.flatMap fun secondPositions =>
      firstPositions.flatMap fun first =>
        secondPositions.map fun second => (max first second - min first second, min first second)) ++
      candidates rest

def closer (a b : Nat × Nat) : Bool := a.1 < b.1 || (a.1 == b.1 && a.2 < b.2)

def best (found : List (Nat × Nat)) : Option (Nat × Nat) :=
  found.foldl (fun current candidate =>
    match current with
    | none => some candidate
    | some pair => if closer candidate pair then some candidate else some pair) none

def lexicalFindRank (original query : Text) (terms : List Text) : Option FindRank :=
  match findSub query original with
  | some i => some ⟨true, terms.length, 0, byteLength (original.take i)⟩
  | none =>
    if terms.length < 2 then none
    else
      let found := terms.map (positions (toAsciiLowercase original))
      let matchedTerms := found.countP fun items => !items.isEmpty
      if matchedTerms < 2 then none
      else (best (candidates found)).map fun pair => ⟨false, matchedTerms, pair.1, pair.2⟩

/-! ## The statement -/

/-- `instr(original, ?6) > 0`. -/
def exactHit (query original : Text) : Bool := (findSub query original).isSome

/-- `' ' || lower(original) || ' '`: SQLite folds ASCII letters only. -/
def originalLc (original : Text) : Text := ' ' :: (toAsciiLowercase original ++ [' '])

/-- The sum of the eight conditions; a pattern that is missing is empty. -/
def termHits (query original : Text) : Nat :=
  (List.range 8).countP fun index =>
    let pattern := (((findTerms query).map findTermGlob)[index]?).getD []
    pattern != [] && sqliteGlob pattern (originalLc original)

/-- `exact_hit>0 OR term_hits>0`. -/
def selects (query original : Text) : Bool := exactHit query original || 0 < termHits query original

/-- `ORDER BY CASE WHEN exact_hit>0 THEN 0 ELSE 1 END, term_hits DESC, ranked_created_at DESC`. -/
def selectOrder (a b : EntryRow) : Bool :=
  (exactHit query a.original && !exactHit query b.original) ||
    (exactHit query a.original == exactHit query b.original &&
      (termHits query b.original < termHits query a.original ||
        (termHits query a.original == termHits query b.original && b.createdAt ≤ a.createdAt)))

/-- All rows in the order of the statement; `ranked_rowid DESC` comes last, and the sort is stable. -/
def inSelectOrder (rows : List EntryRow) : List EntryRow :=
  rows.reverse.insertionSort fun a b => selectOrder query a b

theorem take_filter_subset (rows : List EntryRow) :
    ((inSelectOrder query (rows.filter fun row => selects query row.original)).take 1000) ⊆ rows := by
  intro row listed
  have sorted := List.mem_reverse.mp ((List.mem_insertionSort _).mp (List.mem_of_mem_take listed))
  exact List.mem_of_mem_filter sorted

theorem inSelectOrder_subset (rows : List EntryRow) : inSelectOrder query rows ⊆ rows :=
  fun _ listed => List.mem_reverse.mp ((List.mem_insertionSort _).mp listed)

def lexicalSearch : Search where
  selected query rows := (inSelectOrder query (rows.filter fun row => selects query row.original)).take 1000
  rank original query := lexicalFindRank original query (findTerms query)
  selected_subset := take_filter_subset

def everyRow : Search where
  selected := inSelectOrder
  rank original query := lexicalFindRank original query (findTerms query)
  selected_subset := inSelectOrder_subset

/-! ## What terms are made of -/

def TermChars (term : Text) : Prop := ∀ c ∈ term, c.isAlphanum = true ∨ isHan c = true

structure TermScan.Sound (scan : TermScan) : Prop where
  terms : ∀ term ∈ scan.terms, TermChars term
  ascii : TermChars scan.ascii
  han : TermChars scan.han

variable {term : Text} {scan : TermScan}

theorem mem_pushTerm {terms : List Text} {other : Text} (listed : other ∈ pushTerm terms term) :
    other ∈ terms ∨ other = term := by
  rw [pushTerm] at listed
  split_ifs at listed
  · exact .inl listed
  · exact (List.mem_append.mp listed).imp_right List.mem_singleton.mp

theorem mem_foldl_pushTerm {added terms : List Text} {other : Text} (listed : other ∈ added.foldl pushTerm terms) :
    other ∈ terms ∨ other ∈ added := by
  induction added generalizing terms with
  | nil => exact .inl listed
  | cons term added ih =>
    rcases ih listed with pushed | later
    · rcases mem_pushTerm pushed with old | rfl
      · exact .inl old
      · exact .inr List.mem_cons_self
    · exact .inr (List.mem_cons_of_mem _ later)

theorem termChars_pairs {han : List Char} (sound : TermChars han) : ∀ term ∈ pairs han, TermChars term := by
  intro term listed
  obtain ⟨⟨a, b⟩, both, rfl⟩ := List.mem_map.mp listed
  obtain ⟨first, second⟩ := List.of_mem_zip both
  intro c inside
  simp only [List.mem_cons, List.not_mem_nil, or_false] at inside
  rcases inside with rfl | rfl
  · exact sound c first
  · exact sound c (List.mem_of_mem_tail second)

theorem TermScan.Sound.flushAscii (sound : scan.Sound) : scan.flushAscii.Sound where
  terms term listed := by
    simp only [TermScan.flushAscii] at listed
    split_ifs at listed
    · rcases mem_pushTerm listed with old | rfl
      · exact sound.terms term old
      · exact sound.ascii
    · exact sound.terms term listed
  ascii _ inside := absurd inside List.not_mem_nil
  han := sound.han

theorem TermScan.Sound.flushHan (sound : scan.Sound) : scan.flushHan.Sound where
  terms term listed := by
    rcases mem_foldl_pushTerm listed with old | pair
    · exact sound.terms term old
    · exact termChars_pairs sound.han term pair
  ascii := sound.ascii
  han _ inside := absurd inside List.not_mem_nil

theorem TermScan.Sound.step (sound : scan.Sound) (c : Char) : (scan.step c).Sound := by
  rw [TermScan.step]
  split_ifs with plain han
  · refine ⟨sound.flushHan.terms, ?_, sound.flushHan.han⟩
    refine List.forall_mem_append.mpr ⟨sound.ascii, fun d last => ?_⟩
    rw [List.mem_singleton.mp last]
    exact .inl (isAlphanum_toLower plain)
  · refine ⟨sound.flushAscii.terms, sound.flushAscii.ascii, ?_⟩
    refine List.forall_mem_append.mpr ⟨sound.han, fun d last => ?_⟩
    rw [List.mem_singleton.mp last]
    exact .inr han
  · exact sound.flushAscii.flushHan

theorem scan_sound (query : Text) (sound : scan.Sound) : (query.foldl TermScan.step scan).Sound := by
  induction query generalizing scan with
  | nil => exact sound
  | cons c query ih => exact ih (sound.step c)

theorem start_sound : TermScan.Sound ⟨[], [], [], false⟩ where
  terms _ listed := absurd listed List.not_mem_nil
  ascii _ inside := absurd inside List.not_mem_nil
  han _ inside := absurd inside List.not_mem_nil

theorem findTerms_termChars (query : Text) : ∀ term ∈ findTerms query, TermChars term := by
  intro term listed
  have sound := scan_sound (query ++ [' ']) start_sound
  rw [findTerms] at listed
  split_ifs at listed
  · exact sound.terms term listed
  · obtain ⟨index, -, found⟩ := List.mem_filterMap.mp listed
    exact sound.terms term (List.mem_of_getElem? found)
  · exact sound.terms term listed
  · obtain ⟨index, -, found⟩ := List.mem_filterMap.mp listed
    exact sound.terms term (List.mem_of_getElem? found)

theorem length_findTerms_le (query : Text) : (findTerms query).length ≤ 8 := by
  rw [findTerms]
  split_ifs with han short short
  · exact short
  · exact (List.length_filterMap_le _ _).trans (by rw [List.length_range])
  · exact short.trans (by decide)
  · exact (List.length_filterMap_le _ _).trans (by rw [List.length_range]; decide)

theorem TermChars.literal (chars : TermChars term) : ∀ c ∈ term, GlobLiteral c := by
  intro c listed
  refine ⟨?_, ?_, ?_⟩
  all_goals
    rintro rfl
    rcases chars _ listed with plain | han
    · revert plain
      decide
    · revert han
      decide

theorem TermChars.no_nul (chars : TermChars term) : Char.ofNat 0 ∉ term := by
  intro listed
  rcases chars _ listed with plain | han
  · revert plain
    decide
  · revert han
    decide

/-! ## A ranked text is selected -/

variable {term original : Text} {occurrence : Text × Text} {c : Char}

theorem matchIndicesFrom_occurs {text front : Text} {skip : Nat}
    (listed : occurrence ∈ matchIndicesFrom term front skip text) :
    occurrence.1 ++ (term ++ occurrence.2) = front ++ text := by
  induction text generalizing front skip with
  | nil =>
    rw [matchIndicesFrom] at listed
    exact absurd listed List.not_mem_nil
  | cons c rest ih =>
    have next : ∀ {skip : Nat}, occurrence ∈ matchIndicesFrom term (front ++ [c]) skip rest →
        occurrence.1 ++ (term ++ occurrence.2) = front ++ c :: rest := fun later => by
      rw [ih later, List.append_assoc, List.singleton_append]
    cases skip with
    | succ skip => exact next listed
    | zero =>
      rw [matchIndicesFrom] at listed
      split_ifs at listed with here
      · rcases List.mem_cons.mp listed with rfl | later
        · have split := List.prefix_iff_eq_append.mp (List.isPrefixOf_iff_prefix.mp here)
          show front ++ (term ++ (c :: rest).drop term.length) = front ++ c :: rest
          rw [split]
        · exact next later
      · exact next listed

/-- What `[^0-9a-z]` stands for: a range's first character is a member by itself too. -/
def boundary (c : Char) : Bool := inRanges [('0', '0'), ('0', '9'), ('a', 'a'), ('a', 'z')] c != true

theorem globItems_star (pattern : Text) : globItems ('*' :: pattern) = (globItems pattern).map (.star :: ·) := by
  rw [globItems, globItemsFrom]
  rfl

theorem globItems_boundary (pattern : Text) :
    globItems (boundaryClass ++ pattern) = (globItems pattern).map (.one boundary :: ·) := by
  have opened : globStep .plain '[' (some '^') = ([], .opened) := rfl
  have caret : globStep .opened '^' (some '0') = ([], .first true) := rfl
  have zero : globStep (.first true) '0' (some '-') = ([], .members true [('0', '0')] (some '0')) := rfl
  have toNine : globStep (.members true [('0', '0')] (some '0')) '-' (some '9') =
      ([], .ranging true [('0', '0')] '0') := rfl
  have nine : globStep (.ranging true [('0', '0')] '0') '9' (some 'a') =
      ([], .members true [('0', '0'), ('0', '9')] none) := rfl
  have a : globStep (.members true [('0', '0'), ('0', '9')] none) 'a' (some '-') =
      ([], .members true [('0', '0'), ('0', '9'), ('a', 'a')] (some 'a')) := rfl
  have toZ : globStep (.members true [('0', '0'), ('0', '9'), ('a', 'a')] (some 'a')) '-' (some 'z') =
      ([], .ranging true [('0', '0'), ('0', '9'), ('a', 'a')] 'a') := rfl
  have z : globStep (.ranging true [('0', '0'), ('0', '9'), ('a', 'a')] 'a') 'z' (some ']') =
      ([], .members true [('0', '0'), ('0', '9'), ('a', 'a'), ('a', 'z')] none) := rfl
  have closed : ∀ next, globStep (.members true [('0', '0'), ('0', '9'), ('a', 'a'), ('a', 'z')] none) ']' next =
      ([.one boundary], .plain) := fun _ => rfl
  rw [boundaryClass, globItems, globItems]
  simp only [List.cons_append, List.nil_append, globItemsFrom_cons, List.head?_cons, opened, caret, zero, toNine,
    nine, a, toZ, z, closed, Option.map_id']

def termItems (term : Text) : List (GlobItem Char) :=
  if isAscii term then .star :: .one boundary :: ((term.map fun c => .one (· == c)) ++ [.one boundary, .star])
  else .star :: ((term.map fun c => .one (· == c)) ++ [.star])

theorem globItems_findTermGlob (literal : ∀ c ∈ term, GlobLiteral c) :
    globItems (findTermGlob term) = some (termItems term) := by
  rw [findTermGlob, termItems]
  split_ifs with plain
  · rw [globItems_star, globItems_boundary, globItems_literal literal, globItems_boundary]
    rfl
  · rw [globItems_star, globItems_literal literal]
    rfl

theorem boundary_of_ranges (noDigit : ¬(48 ≤ c.toNat ∧ c.toNat ≤ 57))
    (noLetter : ¬(97 ≤ c.toNat ∧ c.toNat ≤ 122)) : boundary c = true := by
  have zero : '0'.val.toNat = 48 := rfl
  have nine : '9'.val.toNat = 57 := rfl
  have a : 'a'.val.toNat = 97 := rfl
  have z : 'z'.val.toNat = 122 := rfl
  have same : c.toNat = c.val.toNat := rfl
  rw [boundary, bne_iff_ne, inRanges]
  intro listed
  simp only [List.any_cons, List.any_nil, Bool.or_false, Bool.or_eq_true, Bool.and_eq_true, decide_eq_true_eq,
    Char.le_def, UInt32.le_iff_toNat_le] at listed
  omega

theorem boundary_of_wide (wide : c.utf8Size ≠ 1) : boundary c = true := by
  have high := wide_toNat wide
  exact boundary_of_ranges (by omega) (by omega)

theorem boundary_of_narrow (narrow : c.utf8Size = 1) (other : isAlphanumericByte (ascii c) = false) :
    boundary c = true := by
  have code := (ascii_toNat narrow).1
  have zero : (ascii '0').toNat = 48 := rfl
  have nine : (ascii '9').toNat = 57 := rfl
  have a : (ascii 'a').toNat = 97 := rfl
  have z : (ascii 'z').toNat = 122 := rfl
  simp only [isAlphanumericByte, Bool.or_eq_false_iff, Bool.and_eq_false_iff, decide_eq_false_iff_not,
    UInt8.le_iff_toNat_le] at other
  exact boundary_of_ranges (by omega) (by omega)

theorem boundary_before {front : Text} (other : (bytes front).getLast?.all fun b => !isAlphanumericByte b) :
    ∃ init c, ' ' :: front = init ++ [c] ∧ boundary c = true := by
  rcases List.eq_nil_or_concat front with rfl | ⟨init, c, rfl⟩
  · exact ⟨[], ' ', rfl, by decide⟩
  refine ⟨' ' :: init, c, by rw [List.concat_eq_append]; rfl, ?_⟩
  by_cases narrow : c.utf8Size = 1
  · refine boundary_of_narrow narrow ?_
    rw [List.concat_eq_append, bytes_append, bytes_cons_ascii narrow, bytes_nil, List.getLast?_concat,
      Option.all_some, Bool.not_eq_true'] at other
    exact other
  · exact boundary_of_wide narrow

theorem boundary_behind {back : Text} (other : (bytes back).head?.all fun b => !isAlphanumericByte b) :
    ∃ c rest, back ++ [' '] = c :: rest ∧ boundary c = true := by
  cases back with
  | nil => exact ⟨' ', [], rfl, by decide⟩
  | cons c back =>
    refine ⟨c, back ++ [' '], rfl, ?_⟩
    by_cases narrow : c.utf8Size = 1
    · refine boundary_of_narrow narrow ?_
      rw [bytes_cons_ascii narrow, List.head?_cons, Option.all_some, Bool.not_eq_true'] at other
      exact other
    · exact boundary_of_wide narrow

/-- A word of the text is a match of its pattern in the padded text. -/
theorem globMatches_termItems (whole : wholeWord term occurrence = true) :
    GlobMatches (termItems term) (' ' :: (occurrence.1 ++ (term ++ occurrence.2) ++ [' '])) := by
  obtain ⟨front, back⟩ := occurrence
  have word : ∀ items s, GlobMatches items s →
      GlobMatches ((term.map fun c => .one (· == c)) ++ items) (term ++ s) := fun _ _ => globMatches_literal
  rw [wholeWord, Bool.and_eq_true, Bool.or_eq_true, Bool.or_eq_true, Bool.not_eq_true'] at whole
  rw [termItems]
  have last : ∀ s : Text, GlobMatches [.star] s := fun s => .star List.nil_suffix .nil
  split_ifs with plain
  · rw [plain] at whole
    obtain ⟨init, before, split, free⟩ := boundary_before (whole.1.resolve_left Bool.noConfusion)
    obtain ⟨behind, rest, split', free'⟩ := boundary_behind (whole.2.resolve_left Bool.noConfusion)
    have shape : ' ' :: (front ++ (term ++ back) ++ [' ']) = init ++ before :: (term ++ behind :: rest) := by
      calc ' ' :: (front ++ (term ++ back) ++ [' ']) = (' ' :: front) ++ (term ++ (back ++ [' '])) := by simp
        _ = (init ++ [before]) ++ (term ++ behind :: rest) := by rw [split, split']
        _ = init ++ before :: (term ++ behind :: rest) := by simp
    rw [shape]
    exact .star (List.suffix_append _ _) (.one free (word _ _ (.one free' (last rest))))
  · have shape : ' ' :: (front ++ (term ++ back) ++ [' ']) = (' ' :: front) ++ (term ++ (back ++ [' '])) := by simp
    rw [shape]
    exact .star (List.suffix_append _ _) (word _ _ (last _))

theorem toLower_ne_nul (other : c ≠ Char.ofNat 0) : c.toLower ≠ Char.ofNat 0 := by
  rcases toLower_cases c with same | ⟨-, plain⟩
  · rwa [same]
  · intro nul
    rw [nul] at plain
    exact absurd plain (by decide)

theorem originalLc_no_nul (plain : Char.ofNat 0 ∉ original) : Char.ofNat 0 ∉ originalLc original := by
  rw [originalLc, List.mem_cons, List.mem_append, toAsciiLowercase, List.mem_map]
  rintro (blank | ⟨c, listed, same⟩ | blank)
  · exact absurd blank (by decide)
  · refine toLower_ne_nul ?_ same
    rintro rfl
    exact plain listed
  · exact absurd blank (by decide)

theorem findTermGlob_no_nul (chars : TermChars term) : Char.ofNat 0 ∉ findTermGlob term := by
  have class_ : Char.ofNat 0 ∉ boundaryClass := by decide
  have star : Char.ofNat 0 ≠ '*' := by decide
  rw [findTermGlob]
  split_ifs
  · simp [class_, star, chars.no_nul]
  · simp [star, chars.no_nul]

theorem findTermGlob_ne_nil (term : Text) : findTermGlob term ≠ [] := by
  rw [findTermGlob]
  split_ifs
  · exact List.cons_ne_nil _ _
  · exact List.cons_ne_nil _ _

theorem term_hit {query : Text} (listed : term ∈ findTerms query) (plain : Char.ofNat 0 ∉ original)
    (found : occurrence ∈ matchIndicesFrom term [] 0 (toAsciiLowercase original))
    (whole : wholeWord term occurrence = true) : 0 < termHits query original := by
  have chars := findTerms_termChars query term listed
  obtain ⟨index, here⟩ := List.mem_iff_getElem?.mp listed
  have bound := (List.getElem?_eq_some_iff.mp here).1
  have few := length_findTerms_le query
  have pattern : (((findTerms query).map findTermGlob)[index]?).getD [] = findTermGlob term := by
    rw [List.getElem?_map, here]
    rfl
  have read : globItems (untilNul (findTermGlob term)) = some (termItems term) := by
    rw [untilNul_eq_self (findTermGlob_no_nul chars), globItems_findTermGlob chars.literal]
  have matched : sqliteGlob (findTermGlob term) (originalLc original) = true := by
    have split := matchIndicesFrom_occurs found
    rw [sqliteGlob_iff read, untilNul_eq_self (originalLc_no_nul plain), originalLc]
    rw [List.nil_append] at split
    rw [← split]
    exact globMatches_termItems whole
  refine List.countP_pos_iff.mpr ⟨index, List.mem_range.mpr (by omega), ?_⟩
  dsimp only
  rw [pattern, matched, Bool.and_true, bne_iff_ne]
  exact findTermGlob_ne_nil term

theorem selects_of_rank {query : Text} (plain : Char.ofNat 0 ∉ original)
    (ranked : (lexicalFindRank original query (findTerms query)).isSome) : selects query original = true := by
  rw [selects, Bool.or_eq_true, exactHit, decide_eq_true_eq]
  rw [lexicalFindRank] at ranked
  split at ranked
  · rename_i i exact
    exact .inl (by rw [exact, Option.isSome_some])
  dsimp only at ranked
  split_ifs at ranked with few none_
  · cases ranked
  · cases ranked
  -- two terms have positions, so one has
  obtain ⟨items, listed, some_⟩ := List.countP_pos_iff.mp (show 0 < _ from Nat.lt_of_lt_of_le Nat.two_pos
    (Nat.le_of_not_lt none_))
  obtain ⟨term, inTerms, rfl⟩ := List.mem_map.mp listed
  rw [Bool.not_eq_true', List.isEmpty_eq_false_iff_exists_mem] at some_
  obtain ⟨offset, at_⟩ := some_
  obtain ⟨occurrence, found, -⟩ := List.mem_map.mp (List.mem_of_mem_take at_)
  obtain ⟨matched, whole⟩ := List.mem_filter.mp found
  exact .inr (term_hit inTerms plain matched whole)

/-! ## Ranking what was selected -/

section Sorting

variable {α : Type} {r : α → α → Bool} {p : α → Bool}

theorem filter_orderedInsert (trans : ∀ a b c, r a b = true → r b c = true → r a c = true) {sorted : List α}
    (pairwise : sorted.Pairwise fun a b => r a b = true) (a : α) :
    (sorted.orderedInsert (fun a b => r a b = true) a).filter p =
      if p a = true then (sorted.filter p).orderedInsert (fun a b => r a b = true) a else sorted.filter p := by
  induction sorted with
  | nil => by_cases keep : p a = true <;> simp [keep]
  | cons b sorted ih =>
    obtain ⟨first, pairwise⟩ := List.pairwise_cons.mp pairwise
    rw [List.orderedInsert_cons]
    by_cases le : r a b = true
    · -- `a` is before the head and so before every kept element
      rw [if_pos le, List.filter_cons]
      split_ifs with keep
      · cases kept : (b :: sorted).filter p with
        | nil => rfl
        | cons c rest =>
          have listed : c ∈ b :: sorted := List.mem_of_mem_filter (kept ▸ List.mem_cons_self)
          have before : r a c = true := by
            rcases List.mem_cons.mp listed with rfl | later
            · exact le
            · exact trans a b c le (first c later)
          rw [List.orderedInsert_cons, if_pos before]
      · rfl
    · rw [if_neg le, List.filter_cons, List.filter_cons, ih pairwise]
      split_ifs
      · rw [List.orderedInsert_cons, if_neg le]
      · rfl
      · rfl
      · rfl

theorem filter_insertionSort (trans : ∀ a b c, r a b = true → r b c = true → r a c = true)
    (total : ∀ a b, r a b = true ∨ r b a = true) (l : List α) :
    (l.insertionSort fun a b => r a b = true).filter p = (l.filter p).insertionSort fun a b => r a b = true := by
  have sorted : ∀ l : List α, (l.insertionSort fun a b => r a b = true).Pairwise fun a b => r a b = true := by
    have isTotal : Std.Total fun a b => r a b = true := ⟨total⟩
    have isTrans : IsTrans α fun a b => r a b = true := ⟨trans⟩
    exact List.pairwise_insertionSort _
  induction l with
  | nil => rfl
  | cons a l ih =>
    rw [List.insertionSort_cons, filter_orderedInsert trans (sorted l), ih, List.filter_cons]
    split_ifs
    · rw [List.insertionSort_cons]
    · rfl

end Sorting

theorem filterMap_filter_of_none {α β : Type} {p : α → Bool} {f : α → Option β} {l : List α}
    (none_ : ∀ a ∈ l, p a = false → f a = none) : (l.filter p).filterMap f = l.filterMap f := by
  induction l with
  | nil => rfl
  | cons a l ih =>
    obtain ⟨first, none_⟩ := List.forall_mem_cons.mp none_
    rw [List.filter_cons]
    split_ifs with keep
    · rw [List.filterMap_cons, List.filterMap_cons, ih none_]
    · rw [List.filterMap_cons, first (Bool.eq_false_iff.mpr keep), ih none_]

/-- `selectOrder` compares these keys. -/
theorem selectOrder_total (query : Text) (a b : EntryRow) :
    selectOrder query a b = true ∨ selectOrder query b a = true := by
  simp only [selectOrder, Bool.or_eq_true, Bool.and_eq_true, decide_eq_true_eq, beq_iff_eq, Bool.not_eq_true']
  cases exactHit query a.original <;> cases exactHit query b.original <;> simp <;> omega

theorem selectOrder_trans (query : Text) (a b c : EntryRow) (first : selectOrder query a b = true)
    (second : selectOrder query b c = true) : selectOrder query a c = true := by
  revert first second
  simp only [selectOrder, Bool.or_eq_true, Bool.and_eq_true, decide_eq_true_eq, beq_iff_eq, Bool.not_eq_true']
  cases exactHit query a.original <;> cases exactHit query b.original <;> cases exactHit query c.original <;>
    simp <;> omega

theorem inSelectOrder_filter (query : Text) (p : EntryRow → Bool) (rows : List EntryRow) :
    inSelectOrder query (rows.filter p) = (inSelectOrder query rows).filter p := by
  rw [inSelectOrder, inSelectOrder, filter_insertionSort (selectOrder_trans query) (selectOrder_total query),
    List.filter_reverse]

/-- The rows that `find` searches. -/
def CcrStore.inScope (opened : CcrStore) (scope : CcrScope) (allowed : Option (List Text)) (now : Int) :
    List EntryRow :=
  opened.entries.rows.filter fun row =>
    row.call.scope == scope && now < row.expiresAt && row.bindingSound &&
      (allowed.all fun tools => tools.contains row.call.tool) && opened.unrevoked row

theorem hit_of_no_rank (env : Env) {search : Search} {query : Text} (allowed : Option (List Text)) {row : EntryRow}
    (unranked : search.rank row.original query = none) : row.hit env search query allowed = none := by
  rw [EntryRow.hit, unranked, Option.bind_none, ite_self]

theorem filterMap_selected (env : Env) (query : Text) (allowed : Option (List Text)) {rows : List EntryRow}
    (plain : ∀ row ∈ rows, Char.ofNat 0 ∉ row.original)
    (cap : (rows.filter fun row => selects query row.original).length ≤ 1000) :
    (lexicalSearch.selected query rows).filterMap (EntryRow.hit env lexicalSearch query allowed) =
      (everyRow.selected query rows).filterMap (EntryRow.hit env everyRow query allowed) := by
  have whole : lexicalSearch.selected query rows =
      (inSelectOrder query rows).filter fun row => selects query row.original := by
    rw [← inSelectOrder_filter]
    refine List.take_of_length_le ?_
    rw [inSelectOrder, List.length_insertionSort, List.length_reverse]
    exact cap
  rw [whole, filterMap_filter_of_none]
  · rfl
  · intro row listed hidden
    refine hit_of_no_rank env allowed (Option.not_isSome_iff_eq_none.mp fun ranked => ?_)
    have selected := selects_of_rank (plain row (inSelectOrder_subset query rows listed)) ranked
    rw [hidden] at selected
    cases selected

/-- **The statement hides no hit**: every text that has a rank is selected, and within the cap of 1000
rows the search returns what it returns when every row in scope is ranked. -/
theorem prefilter_hides_no_hit (env : Env) (s : CcrStore) (scope : CcrScope) (query : Text)
    (allowed : Option (List Text)) (sweepNow now : Int)
    (plain : ∀ row ∈ (s.sweepExpiredIfDue sweepNow).inScope scope allowed now, Char.ofNat 0 ∉ row.original)
    (cap : (((s.sweepExpiredIfDue sweepNow).inScope scope allowed now).filter fun row =>
      selects query row.original).length ≤ 1000) :
    (∀ original, Char.ofNat 0 ∉ original → (lexicalFindRank original query (findTerms query)).isSome →
      selects query original = true) ∧ s.find env lexicalSearch scope query allowed sweepNow now =
        s.find env everyRow scope query allowed sweepNow now := by
  refine ⟨fun original plain ranked => selects_of_rank plain ranked, ?_⟩
  rw [CcrStore.find, CcrStore.find]
  split_ifs
  · rfl
  · rfl
  have same := filterMap_selected env query allowed plain cap
  rw [CcrStore.inScope] at same
  dsimp only
  rw [same]

/-- Two terms in another order, in a text that does not hold the query. -/
def reorderedPut : PutCall where
  call := ⟨sampleScope, ['m'], ['x']⟩
  original := ['N', 'e', 't', ':', 't', 'a', 'x']
  artifact := none
  retentionAt := none
  id := ['x']
  sweepNow := 100
  now := 100

theorem prefilter_hides_no_hit_reordered : let s := CcrStore.empty.afterPut sampleEnv oneEntry reorderedPut
    let query := ['t', 'a', 'x', ' ', 'n', 'e', 't']
    s.find sampleEnv lexicalSearch sampleScope query none 100 100 =
        s.find sampleEnv everyRow sampleScope query none 100 100 ∧
      ((s.sweepExpiredIfDue 100).inScope sampleScope none 100).map EntryRow.original = [reorderedPut.original] ∧
      lexicalFindRank reorderedPut.original query (findTerms query) = some ⟨false, 2, 4, 0⟩ ∧
      selects query reorderedPut.original = true :=
  ⟨(prefilter_hides_no_hit _ _ _ _ _ _ _ (by decide) (by decide)).2, by decide, by decide, by decide⟩

end DuDuClaw.Ccr
