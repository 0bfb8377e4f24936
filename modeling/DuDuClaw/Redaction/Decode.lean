/-
# Redaction.Decode -- the decoder of the entity model

`viterbi` (ner/decode.rs) looks for the best sequence of labels that opens and closes its entities,
and `path_to_spans` turns a sequence into byte ranges.  States out of reach hold the score `NEG`,
and every score at or below it counts as out of reach.

* `advance_sound`: one row of the lattice.
* `constrained_viterbi`: the returned sequence is legal and no legal one that stays above `NEG`
  scores more; the spans of a legal sequence are its chunks.
* `sum_below_sentinel`: two emissions above `NEG` whose sum is not.
-/
import Mathlib.Data.List.FinRange
import Mathlib.Tactic.NormNum
import DuDuClaw.Lib.Trellis

namespace DuDuClaw.Redaction

open DuDuClaw.Lib

/-! ## Labels -/

/-- BIOES position tag. -/
inductive Tag where
  | o
  | b
  | i
  | e
  | s
  deriving DecidableEq

/-- A label; the entity of `O` is empty. -/
structure LabelInfo where
  tag : Tag
  entity : List Char

structure TransitionBias (K : Type) where
  backgroundStay : K
  backgroundToStart : K
  endToBackground : K
  endToStart : K
  insideToContinue : K
  insideToEnd : K

def TransitionBias.forPair {K : Type} [Zero K] (bias : TransitionBias K) (src dst : LabelInfo) : K :=
  match src.tag, dst.tag with
  | .o, .o => bias.backgroundStay
  | .o, .b | .o, .s => bias.backgroundToStart
  | .e, .o | .s, .o => bias.endToBackground
  | .e, .b | .e, .s | .s, .b | .s, .s => bias.endToStart
  | .b, .i | .i, .i => bias.insideToContinue
  | .b, .e | .i, .e => bias.insideToEnd
  | _, _ => 0

/-- The entry of `build_transitions` for two labels. -/
def mayFollow (src dst : LabelInfo) : Bool :=
  match src.tag with
  | .o | .e | .s => dst.tag == .o || dst.tag == .b || dst.tag == .s
  | .b | .i => (dst.tag == .i || dst.tag == .e) && dst.entity == src.entity

def buildTransitions (labels : List LabelInfo) (i j : Fin labels.length) : Bool :=
  mayFollow (labels.get i) (labels.get j)

def startAllowed (l : LabelInfo) : Bool := l.tag == .o || l.tag == .b || l.tag == .s

def endAllowed (l : LabelInfo) : Bool := l.tag == .o || l.tag == .e || l.tag == .s

/-! ## The decoder -/

section Viterbi

variable {K : Type} [CommRing K] [LinearOrder K]

def neg (K : Type) [CommRing K] : K := -(10 ^ 30)

/-- A row of scores and the rows of predecessors, the latest first. -/
structure Lattice (K : Type) (n : Nat) where
  row : Fin n → K
  backs : List (Fin n → Fin n)

variable (labels : List LabelInfo) (transitions : Fin labels.length → Fin labels.length → Bool)
  (bias : TransitionBias K)

variable (row : Fin labels.length → K)

/-- `dp[0]`. -/
def firstRow (k : Fin labels.length) : K :=
  if startAllowed (labels.get k) then row k else neg K

/-- `best` and `arg`, from the row before. -/
def bestBefore (prev : Fin labels.length → K) (k : Fin labels.length) : K × Fin labels.length :=
  (List.finRange labels.length).foldl
    (keepBest (fun j => !decide (prev j ≤ neg K) && transitions j k)
      fun j => prev j + bias.forPair (labels.get j) (labels.get k))
    (neg K, ⟨0, k.pos⟩)

def advance (lattice : Lattice K labels.length) (row : Fin labels.length → K) : Lattice K labels.length where
  row k :=
    if neg K < (bestBefore labels transitions bias lattice.row k).1 then
      (bestBefore labels transitions bias lattice.row k).1 + row k
    else neg K
  backs :=
    (fun k =>
      if neg K < (bestBefore labels transitions bias lattice.row k).1 then
        (bestBefore labels transitions bias lattice.row k).2
      else ⟨0, k.pos⟩) :: lattice.backs

/-- `last`: the best legal end, or the best state of any kind. -/
def lastLabel (zero : Fin labels.length) : Fin labels.length :=
  let best :=
    (List.finRange labels.length).foldl (keepBest (fun k => endAllowed (labels.get k)) row) (neg K, zero)
  if best.1 ≤ neg K then ((List.finRange labels.length).foldl (keepBest (fun _ => true) row) best).2 else best.2

def backtrace {n : Nat} : List (Fin n → Fin n) → Fin n → List (Fin n)
  | [], last => [last]
  | back :: earlier, last => backtrace earlier (back last) ++ [last]

def viterbi (emissions : List (Fin labels.length → K)) : List (Fin labels.length) :=
  match emissions with
  | [] => []
  | first :: rest =>
    if empty : labels.length = 0 then []
    else
      let lattice := rest.foldl (advance labels transitions bias) ⟨firstRow labels first, []⟩
      backtrace lattice.backs (lastLabel labels lattice.row ⟨0, Nat.pos_of_ne_zero empty⟩)

def labelTrellis : Trellis K labels.length where
  start k := startAllowed (labels.get k)
  stop k := endAllowed (labels.get k)
  edge := transitions
  weight j k := bias.forPair (labels.get j) (labels.get k)
  floor := neg K

/-! ## The lattice -/

/-- What a row of the lattice says about the sequences so far. -/
structure Lattice.Sound (lattice : Lattice K labels.length) (rows : List (Fin labels.length → K)) : Prop where
  climbs : ∀ k, neg K < lattice.row k →
    (labelTrellis labels transitions bias).Climb rows (backtrace lattice.backs k) (lattice.row k)
  bounds : ∀ path k s, (labelTrellis labels transitions bias).Climb rows (path ++ [k]) s → s ≤ lattice.row k

theorem backtrace_concat {n : Nat} (backs : List (Fin n → Fin n)) (last : Fin n) :
    ∃ front, backtrace backs last = front ++ [last] := by
  cases backs with
  | nil => exact ⟨[], rfl⟩
  | cons back earlier => exact ⟨_, rfl⟩

theorem firstRow_sound :
    Lattice.Sound labels transitions bias ⟨firstRow labels row, []⟩ [row] where
  climbs k above := by
    dsimp only [firstRow] at above ⊢
    split_ifs at above ⊢ with start
    · exact .first start
    · exact absurd above (lt_irrefl _)
  bounds path k s climb := by
    obtain ⟨k', same, start, rfl⟩ := climb.of_one_row
    obtain ⟨-, same⟩ := List.append_inj' (same.trans (List.nil_append [k']).symm) rfl
    obtain rfl := List.singleton_inj.mp same
    exact le_of_eq (if_pos start).symm

theorem bestBefore_isBest (prev : Fin labels.length → K) (k : Fin labels.length) :
    IsBest (fun j => !decide (prev j ≤ neg K) && transitions j k)
      (fun j => prev j + bias.forPair (labels.get j) (labels.get k)) (neg K) (List.finRange labels.length)
      (bestBefore labels transitions bias prev k) :=
  foldl_keepBest ..

variable [IsStrictOrderedRing K]

theorem advance_sound {lattice : Lattice K labels.length} {rows : List (Fin labels.length → K)}
    (sound : lattice.Sound labels transitions bias rows) (more : rows ≠ []) (row : Fin labels.length → K) :
    (advance labels transitions bias lattice row).Sound labels transitions bias (rows ++ [row]) where
  climbs k above := by
    have best := bestBefore_isBest labels transitions bias lattice.row k
    dsimp only [advance, backtrace] at above ⊢
    split_ifs at above ⊢ with reached
    · obtain ⟨-, counts, same⟩ := best.attained reached
      rw [Bool.and_eq_true, Bool.not_eq_true', decide_eq_false_iff_not, not_le] at counts
      have climb := sound.climbs _ counts.1
      obtain ⟨front, split⟩ := backtrace_concat lattice.backs (bestBefore labels transitions bias lattice.row k).2
      rw [split] at climb ⊢
      have above' : neg K < lattice.row (bestBefore labels transitions bias lattice.row k).2 +
          (labelTrellis labels transitions bias).weight (bestBefore labels transitions bias lattice.row k).2 k :=
        lt_of_lt_of_eq reached same.symm
      have next : (labelTrellis labels transitions bias).Climb (rows ++ [row]) _ _ :=
        .next climb counts.1 counts.2 above'
      have same' : lattice.row (bestBefore labels transitions bias lattice.row k).2 +
          (labelTrellis labels transitions bias).weight (bestBefore labels transitions bias lattice.row k).2 k =
            (bestBefore labels transitions bias lattice.row k).1 := same
      rw [same'] at next
      exact next
    · exact absurd above (lt_irrefl _)
  bounds path k s climb := by
    obtain ⟨front, j, k', s', same, earlier, above, edge, above', rfl⟩ := climb.of_more_rows more
    obtain ⟨-, last⟩ := List.append_inj' same rfl
    obtain rfl := List.singleton_inj.mp last
    have le := sound.bounds front j s' earlier
    have counts : (!decide (lattice.row j ≤ neg K) && transitions j k) = true := by
      rw [Bool.and_eq_true, Bool.not_eq_true', decide_eq_false_iff_not, not_le]
      exact ⟨lt_of_lt_of_le above le, edge⟩
    have best := bestBefore_isBest labels transitions bias lattice.row k
    have upper := best.upper j (List.mem_finRange j) counts
    have climbed : s' + bias.forPair (labels.get j) (labels.get k) ≤
        (bestBefore labels transitions bias lattice.row k).1 :=
      (add_le_add_left le _).trans upper
    have reached : neg K < (bestBefore labels transitions bias lattice.row k).1 := lt_of_lt_of_le above' climbed
    dsimp only [advance]
    rw [if_pos reached]
    exact add_le_add_left climbed _

theorem lattice_sound (first : Fin labels.length → K) (rest : List (Fin labels.length → K)) :
    (rest.foldl (advance labels transitions bias) ⟨firstRow labels first, []⟩).Sound labels transitions bias
      (first :: rest) := by
  induction rest using List.reverseRecOn with
  | nil => exact firstRow_sound labels transitions bias first
  | append_singleton rest row ih =>
    rw [List.foldl_concat, ← List.cons_append]
    exact advance_sound labels transitions bias ih (List.cons_ne_nil _ _) row

omit [IsStrictOrderedRing K] in
theorem lastLabel_best {row : Fin labels.length → K} (zero : Fin labels.length) {k : Fin labels.length}
    (ends : endAllowed (labels.get k) = true) (above : neg K < row k) :
    endAllowed (labels.get (lastLabel labels row zero)) = true ∧ neg K < row (lastLabel labels row zero) ∧
      ∀ j, endAllowed (labels.get j) = true → row j ≤ row (lastLabel labels row zero) := by
  have best := foldl_keepBest (fun k => endAllowed (labels.get k)) row (neg K) zero (List.finRange labels.length)
  have reached := lt_of_lt_of_le above (best.upper k (List.mem_finRange k) ends)
  obtain ⟨-, legal, same⟩ := best.attained reached
  rw [lastLabel, if_neg (not_le.mpr reached)]
  refine ⟨legal, by rw [same]; exact reached, fun j ends' => ?_⟩
  rw [same]
  exact best.upper j (List.mem_finRange j) ends'

/-- **The decoder**: when a legal sequence stays above the sentinel, the result is legal and no such
sequence scores more. -/
theorem viterbi_best {emissions : List (Fin labels.length → K)} {path : List (Fin labels.length)}
    (legal : (labelTrellis labels transitions bias).Legal emissions path)
    (above : (labelTrellis labels transitions bias).Above emissions path) :
    (labelTrellis labels transitions bias).Legal emissions (viterbi labels transitions bias emissions) ∧
      (labelTrellis labels transitions bias).total emissions path ≤
        (labelTrellis labels transitions bias).total emissions (viterbi labels transitions bias emissions) := by
  cases emissions with
  | nil =>
    obtain rfl := List.length_eq_zero_iff.mp legal.length
    exact ⟨legal, le_refl _⟩
  | cons first rest =>
    obtain ⟨front, k, rfl⟩ : ∃ front k, path = front ++ [k] := by
      rcases List.eq_nil_or_concat path with rfl | ⟨front, k, rfl⟩
      · exact absurd legal.length (by simp)
      · exact ⟨front, k, List.concat_eq_append⟩
    have sound := lattice_sound labels transitions bias first rest
    have climb := Trellis.climb_of_above legal.length (by simp) legal.starts legal.linked
      (fun f j k' back same => above.states f j (k' :: back) same) above.edges
    have le := sound.bounds front k _ climb
    have ends : endAllowed (labels.get k) = true := legal.stops k (List.getLast?_concat ..)
    have reached := lt_of_lt_of_le (above.states front k [] rfl) le
    have filled : labels.length ≠ 0 := Nat.ne_of_gt k.pos
    rw [viterbi, dif_neg filled]
    dsimp only
    obtain ⟨ends', reached', best⟩ := lastLabel_best labels ⟨0, Nat.pos_of_ne_zero filled⟩ ends reached
    have climb' := sound.climbs _ reached'
    obtain ⟨length, starts, linked, total⟩ := climb'.facts
    obtain ⟨front', split⟩ := backtrace_concat
      (rest.foldl (advance labels transitions bias) ⟨firstRow labels first, []⟩).backs
      (lastLabel labels (rest.foldl (advance labels transitions bias) ⟨firstRow labels first, []⟩).row
        ⟨0, Nat.pos_of_ne_zero filled⟩)
    refine ⟨⟨length, starts, linked, fun j last => ?_⟩, ?_⟩
    · rw [split, List.getLast?_concat, Option.some.injEq] at last
      rw [← last]
      exact ends'
    · rw [← total]
      exact le.trans (best k ends)

end Viterbi

/-! ## Spans -/

structure RawSpan where
  label : List Char
  start : Nat
  stop : Nat

/-- The spans so far and the open one. -/
structure SpanScan where
  spans : List RawSpan
  opened : Option RawSpan

def SpanScan.flush (scan : SpanScan) : SpanScan := ⟨scan.spans ++ scan.opened.toList, none⟩

/-- What `I` and `E` do: they go on with an open span of their entity, or open one. -/
def SpanScan.extend (scan : SpanScan) (entity : List Char) (start stop : Nat) : SpanScan :=
  match scan.opened with
  | some span =>
    if span.label = entity then { scan with opened := some { span with stop := stop } }
    else { scan.flush with opened := some ⟨entity, start, stop⟩ }
  | none => { scan.flush with opened := some ⟨entity, start, stop⟩ }

def SpanScan.step (scan : SpanScan) (token : LabelInfo × Nat × Nat) : SpanScan :=
  match token.1.tag with
  | .o => scan.flush
  | .s => { scan.flush with spans := scan.flush.spans ++ [⟨token.1.entity, token.2.1, token.2.2⟩] }
  | .b => { scan.flush with opened := some ⟨token.1.entity, token.2.1, token.2.2⟩ }
  | .i => scan.extend token.1.entity token.2.1 token.2.2
  | .e => (scan.extend token.1.entity token.2.1 token.2.2).flush

def tokensOf (path : List Nat) (labels : List LabelInfo) (offsets : List (Nat × Nat)) :
    List (LabelInfo × Nat × Nat) :=
  path.zipIdx.filterMap fun entry => (labels[entry.1]?).bind fun label =>
    (offsets[entry.2]?).map fun offset => (label, offset)

def pathToSpans (path : List Nat) (labels : List LabelInfo) (offsets : List (Nat × Nat)) : List RawSpan :=
  ((tokensOf path labels offsets).foldl SpanScan.step ⟨[], none⟩).flush.spans.filter fun span =>
    span.start < span.stop

/-! ## Chunks -/

/-- A run of tokens that is one entity. -/
structure Chunk where
  first : Nat
  last : Nat
  entity : List Char

/-- The chunks of a sequence of labels: `S`, or `B`, any number of `I` and `E`, of one entity. -/
inductive IsChunk (word : List LabelInfo) : Chunk → Prop
  | single {a : Nat} {entity : List Char} (one : word[a]? = some ⟨.s, entity⟩) : IsChunk word ⟨a, a, entity⟩
  | several {a b : Nat} {entity : List Char} (before : a < b) (first : word[a]? = some ⟨.b, entity⟩)
      (between : ∀ t, a < t → t < b → word[t]? = some ⟨.i, entity⟩) (last : word[b]? = some ⟨.e, entity⟩) :
      IsChunk word ⟨a, b, entity⟩

/-- A reading of the labels from the token `t` on, outside of an entity or in one, with its chunks. -/
inductive Parses : Nat → Option (Nat × List Char) → List LabelInfo → List Chunk → Prop
  | done {t : Nat} : Parses t none [] []
  | outside {t : Nat} {entity : List Char} {rest : List LabelInfo} {chunks : List Chunk}
      (more : Parses (t + 1) none rest chunks) : Parses t none (⟨.o, entity⟩ :: rest) chunks
  | single {t : Nat} {entity : List Char} {rest : List LabelInfo} {chunks : List Chunk}
      (more : Parses (t + 1) none rest chunks) : Parses t none (⟨.s, entity⟩ :: rest) (⟨t, t, entity⟩ :: chunks)
  | begins {t : Nat} {entity : List Char} {rest : List LabelInfo} {chunks : List Chunk}
      (more : Parses (t + 1) (some (t, entity)) rest chunks) : Parses t none (⟨.b, entity⟩ :: rest) chunks
  | inside {t a : Nat} {entity : List Char} {rest : List LabelInfo} {chunks : List Chunk}
      (more : Parses (t + 1) (some (a, entity)) rest chunks) :
      Parses t (some (a, entity)) (⟨.i, entity⟩ :: rest) chunks
  | ends {t a : Nat} {entity : List Char} {rest : List LabelInfo} {chunks : List Chunk}
      (more : Parses (t + 1) none rest chunks) :
      Parses t (some (a, entity)) (⟨.e, entity⟩ :: rest) (⟨a, t, entity⟩ :: chunks)

/-- Behind a label that leaves an entity open the reading is in it. -/
def openBehind (label : LabelInfo) (a : Nat) : Option (Nat × List Char) :=
  if label.tag = .b ∨ label.tag = .i then some (a, label.entity) else none

theorem parses_behind {label : LabelInfo} {rest : List LabelInfo}
    (linked : (label :: rest).IsChain fun src dst => mayFollow src dst = true)
    (stops : ∀ last, (label :: rest).getLast? = some last → endAllowed last = true) (t a : Nat) :
    ∃ chunks, Parses t (openBehind label a) rest chunks := by
  induction rest generalizing label t a with
  | nil =>
    have ends := stops label rfl
    refine ⟨[], ?_⟩
    rw [openBehind, if_neg]
    · exact .done
    · rintro (tag | tag)
      · rw [endAllowed, tag] at ends
        cases ends
      · rw [endAllowed, tag] at ends
        cases ends
  | cons next rest ih =>
    obtain ⟨follows, linked'⟩ := List.isChain_cons_cons.mp linked
    have stops' : ∀ last, (next :: rest).getLast? = some last → endAllowed last = true := fun last same =>
      stops last (by rw [List.getLast?_cons_cons, same])
    obtain ⟨tag, entity⟩ := next
    obtain ⟨tag', entity'⟩ := label
    cases tag' with
    | o | e | s =>
      cases tag with
      | o =>
        obtain ⟨chunks, more⟩ := ih linked' stops' (t + 1) a
        exact ⟨_, .outside more⟩
      | b =>
        obtain ⟨chunks, more⟩ := ih linked' stops' (t + 1) t
        exact ⟨_, .begins more⟩
      | s =>
        obtain ⟨chunks, more⟩ := ih linked' stops' (t + 1) a
        exact ⟨_, .single more⟩
      | i | e => cases follows
    | b | i =>
      cases tag with
      | i =>
        obtain ⟨chunks, more⟩ := ih linked' stops' (t + 1) a
        obtain rfl : entity = entity' := by simpa [mayFollow] using follows
        exact ⟨_, .inside more⟩
      | e =>
        obtain ⟨chunks, more⟩ := ih linked' stops' (t + 1) a
        obtain rfl : entity = entity' := by simpa [mayFollow] using follows
        exact ⟨_, .ends more⟩
      | o | b | s => cases follows

theorem parses_of_chain {word : List LabelInfo}
    (starts : ∀ first, word.head? = some first → startAllowed first = true)
    (linked : word.IsChain fun src dst => mayFollow src dst = true)
    (stops : ∀ last, word.getLast? = some last → endAllowed last = true) :
    ∃ chunks, Parses 0 none word chunks := by
  cases word with
  | nil => exact ⟨[], .done⟩
  | cons label rest =>
    have first := starts label rfl
    obtain ⟨tag, entity⟩ := label
    obtain ⟨chunks, more⟩ := parses_behind linked stops 1 0
    cases tag with
    | o => exact ⟨_, .outside more⟩
    | s => exact ⟨_, .single more⟩
    | b => exact ⟨_, .begins more⟩
    | i | e => cases first

section Chunks

variable {word rest : List LabelInfo} {chunks : List Chunk} {t a : Nat} {entity : List Char}

variable {chunk : Chunk} {label : LabelInfo} {opened : Option (Nat × List Char)}

theorem IsChunk.first_tag (holds : IsChunk word chunk) :
    word[chunk.first]? = some ⟨.s, chunk.entity⟩ ∨ word[chunk.first]? = some ⟨.b, chunk.entity⟩ := by
  cases holds with
  | single one => exact .inl one
  | several before first between last => exact .inr first

theorem IsChunk.le (holds : IsChunk word chunk) : chunk.first ≤ chunk.last := by
  cases holds with
  | single one => exact Nat.le_refl _
  | several before first between last => exact Nat.le_of_lt before

theorem IsChunk.last_lt (holds : IsChunk word chunk) : chunk.last < word.length := by
  cases holds with
  | single one => exact (List.getElem?_eq_some_iff.mp one).1
  | several before first between last => exact (List.getElem?_eq_some_iff.mp last).1

/-- The place of an open entity: `B` at `a` and `I` up to the token `t`. -/
structure OpenAt (word : List LabelInfo) (a t : Nat) (entity : List Char) : Prop where
  before : a < t
  first : word[a]? = some ⟨.b, entity⟩
  between : ∀ i, a < i → i < t → word[i]? = some ⟨.i, entity⟩

/-- A reading of the rest of the labels lists the chunks that begin from there on, or with the open one. -/
def Lists (word : List LabelInfo) (t : Nat) (opened : Option (Nat × List Char)) (chunks : List Chunk) : Prop :=
  match opened with
  | none => ∀ chunk, chunk ∈ chunks ↔ IsChunk word chunk ∧ t ≤ chunk.first
  | some (a, entity) => OpenAt word a t entity → ∀ chunk, chunk ∈ chunks ↔ IsChunk word chunk ∧ a ≤ chunk.first

theorem OpenAt.chunk_iff (open_ : OpenAt word a t entity) (last : word[t]? = some ⟨.e, entity⟩) :
    IsChunk word chunk ∧ a ≤ chunk.first ↔
      chunk = ⟨a, t, entity⟩ ∨ (IsChunk word chunk ∧ t + 1 ≤ chunk.first) := by
  constructor
  · rintro ⟨holds, from_⟩
    by_cases later : t + 1 ≤ chunk.first
    · exact .inr ⟨holds, later⟩
    left
    -- inside of the open entity only its first token begins a chunk
    have begins : chunk.first = a := by
      by_contra other
      have tag : word[chunk.first]? = some ⟨.i, entity⟩ ∨ word[chunk.first]? = some ⟨.e, entity⟩ := by
        by_cases same : chunk.first = t
        · exact .inr (same ▸ last)
        · exact .inl (open_.between _ (by omega) (by omega))
      rcases tag with tag | tag
      · rcases holds.first_tag with clash | clash
        · simp [tag] at clash
        · simp [tag] at clash
      · rcases holds.first_tag with clash | clash
        · simp [tag] at clash
        · simp [tag] at clash
    cases holds with
    | single one =>
      have clash := open_.first
      simp only at begins
      rw [← begins, one] at clash
      simp at clash
    | @several a' b entity' before first between last' =>
      simp only at begins
      subst begins
      obtain rfl : entity = entity' := by
        have same := open_.first.symm.trans first
        simpa using same
      have stop : b = t := by
        rcases Nat.lt_trichotomy b t with short | same | long
        · have clash := (open_.between b before short).symm.trans last'
          simp at clash
        · exact same
        · have clash := (between t open_.before long).symm.trans last
          simp at clash
      rw [stop]
  · rintro (rfl | ⟨holds, later⟩)
    · exact ⟨.several open_.before open_.first open_.between last, Nat.le_refl _⟩
    · have before := open_.before
      exact ⟨holds, by omega⟩

theorem getElem?_of_drop (here : word.drop t = label :: rest) :
    word[t]? = some label ∧ word.drop (t + 1) = rest := by
  have first := congrArg List.head? here
  rw [List.head?_drop] at first
  have more := congrArg List.tail here
  rw [List.tail_drop] at more
  exact ⟨first, more⟩

/-- No chunk begins at a token with another tag. -/
theorem IsChunk.ne_first (holds : IsChunk word chunk)
    (here : word[t]? = some label) (tag : label.tag ≠ .s) (tag' : label.tag ≠ .b) : chunk.first ≠ t := by
  rintro rfl
  rcases holds.first_tag with clash | clash
  · rw [here, Option.some.injEq] at clash
    exact tag (clash ▸ rfl)
  · rw [here, Option.some.injEq] at clash
    exact tag' (clash ▸ rfl)

theorem Parses.lists (parses : Parses t opened rest chunks)
    (here : word.drop t = rest) : Lists word t opened chunks := by
  induction parses with
  | @done t =>
    intro chunk
    refine iff_of_false List.not_mem_nil ?_
    rintro ⟨holds, from_⟩
    have past := List.drop_eq_nil_iff.mp here
    have inside := holds.last_lt
    have le := holds.le
    omega
  | @outside t entity rest chunks more ih =>
    obtain ⟨label, here'⟩ := getElem?_of_drop here
    intro chunk
    rw [ih here' chunk]
    refine and_congr_right fun holds => ?_
    have other := holds.ne_first label (by simp) (by simp)
    omega
  | @single t entity rest chunks more ih =>
    obtain ⟨label, here'⟩ := getElem?_of_drop here
    intro chunk
    rw [List.mem_cons, ih here' chunk]
    constructor
    · rintro (rfl | ⟨holds, from_⟩)
      · exact ⟨.single label, Nat.le_refl _⟩
      · exact ⟨holds, by omega⟩
    · rintro ⟨holds, from_⟩
      by_cases same : chunk.first = t
      · left
        cases holds with
        | single one =>
          simp only at same
          rw [same, label] at one
          simp at one
          rw [same, one]
        | several before first between last =>
          simp only at same
          rw [same, label] at first
          simp at first
      · exact .inr ⟨holds, by omega⟩
  | @begins t entity rest chunks more ih =>
    obtain ⟨label, here'⟩ := getElem?_of_drop here
    exact ih here' ⟨Nat.lt_succ_self t, label, fun i after before => absurd before (by omega)⟩
  | @inside t a entity rest chunks more ih =>
    obtain ⟨label, here'⟩ := getElem?_of_drop here
    intro open_
    refine ih here' ⟨by have before := open_.before; omega, open_.first, fun i after before => ?_⟩
    by_cases same : i = t
    · rw [same, label]
    · exact open_.between i after (by omega)
  | @ends t a entity rest chunks more ih =>
    obtain ⟨label, here'⟩ := getElem?_of_drop here
    intro open_ chunk
    rw [open_.chunk_iff label, List.mem_cons, ih here' chunk]

theorem Parses.in_order (parses : Parses t opened rest chunks)
    (here : word.drop t = rest) : chunks.Pairwise fun c d => c.last < d.first := by
  induction parses with
  | done => exact .nil
  | outside more ih | begins more ih | inside more ih => exact ih (getElem?_of_drop here).2
  | single more ih | ends more ih =>
    have here' := (getElem?_of_drop here).2
    exact List.pairwise_cons.mpr ⟨fun d listed => ((more.lists here' d).mp listed).2, ih here'⟩

/-! ## Chunks as spans -/

/-- From the start of the first token to the end of the last. -/
def Chunk.span (offsets : List (Nat × Nat)) (chunk : Chunk) : RawSpan :=
  ⟨chunk.entity, ((offsets[chunk.first]?).getD (0, 0)).1, ((offsets[chunk.last]?).getD (0, 0)).2⟩

def SpanScan.In (scan : SpanScan) (offsets : List (Nat × Nat)) : Option (Nat × List Char) → Prop
  | none => scan.opened = none
  | some (a, entity) => ∃ stop, scan.opened = some ⟨entity, ((offsets[a]?).getD (0, 0)).1, stop⟩

theorem Parses.spans {offsets : List (Nat × Nat)}
    (parses : Parses t opened rest chunks) (enough : t + rest.length ≤ offsets.length) {scan : SpanScan}
    (state : scan.In offsets opened) : ((rest.zip (offsets.drop t)).foldl SpanScan.step scan).flush.spans =
      scan.spans ++ chunks.map (Chunk.span offsets) := by
  have next : ∀ {t : Nat} {label : LabelInfo} {rest : List LabelInfo},
      t + (label :: rest).length ≤ offsets.length → (label :: rest).zip (offsets.drop t) =
        (label, (offsets[t]?).getD (0, 0)) :: rest.zip (offsets.drop (t + 1)) ∧
      t + 1 + rest.length ≤ offsets.length := fun {t label rest} fits => by
    rw [List.length_cons] at fits
    have inside : t < offsets.length := by omega
    rw [List.drop_eq_getElem_cons inside, List.zip_cons_cons, List.getElem?_eq_getElem inside]
    exact ⟨rfl, by omega⟩
  induction parses generalizing scan with
  | done =>
    have closed : scan.opened = none := state
    simp [SpanScan.flush, closed]
  | @outside t entity rest chunks more ih =>
    obtain ⟨zip, fits⟩ := next enough
    have closed : scan.opened = none := state
    have step : scan.step (⟨.o, entity⟩, (offsets[t]?).getD (0, 0)) = ⟨scan.spans, none⟩ := by
      simp [SpanScan.step, SpanScan.flush, closed]
    rw [zip, List.foldl_cons, step, @ih fits ⟨scan.spans, none⟩ rfl]
  | @single t entity rest chunks more ih =>
    obtain ⟨zip, fits⟩ := next enough
    have closed : scan.opened = none := state
    have step : scan.step (⟨.s, entity⟩, (offsets[t]?).getD (0, 0)) =
        ⟨scan.spans ++ [Chunk.span offsets ⟨t, t, entity⟩], none⟩ := by
      simp [SpanScan.step, SpanScan.flush, closed, Chunk.span]
    rw [zip, List.foldl_cons, step, @ih fits ⟨scan.spans ++ _, none⟩ rfl, List.map_cons, List.append_assoc,
      List.singleton_append]
  | @begins t entity rest chunks more ih =>
    obtain ⟨zip, fits⟩ := next enough
    have closed : scan.opened = none := state
    have step : scan.step (⟨.b, entity⟩, (offsets[t]?).getD (0, 0)) =
        ⟨scan.spans, some ⟨entity, ((offsets[t]?).getD (0, 0)).1, ((offsets[t]?).getD (0, 0)).2⟩⟩ := by
      simp [SpanScan.step, SpanScan.flush, closed]
    rw [zip, List.foldl_cons, step, @ih fits ⟨scan.spans, some _⟩ ⟨_, rfl⟩]
  | @inside t a entity rest chunks more ih =>
    obtain ⟨zip, fits⟩ := next enough
    obtain ⟨stop, opened⟩ := state
    have step : scan.step (⟨.i, entity⟩, (offsets[t]?).getD (0, 0)) =
        ⟨scan.spans, some ⟨entity, ((offsets[a]?).getD (0, 0)).1, ((offsets[t]?).getD (0, 0)).2⟩⟩ := by
      simp [SpanScan.step, SpanScan.extend, opened]
    rw [zip, List.foldl_cons, step, @ih fits ⟨scan.spans, some _⟩ ⟨_, rfl⟩]
  | @ends t a entity rest chunks more ih =>
    obtain ⟨zip, fits⟩ := next enough
    obtain ⟨stop, opened⟩ := state
    have step : scan.step (⟨.e, entity⟩, (offsets[t]?).getD (0, 0)) =
        ⟨scan.spans ++ [Chunk.span offsets ⟨a, t, entity⟩], none⟩ := by
      simp [SpanScan.step, SpanScan.extend, SpanScan.flush, opened, Chunk.span]
    rw [zip, List.foldl_cons, step, @ih fits ⟨scan.spans ++ _, none⟩ rfl, List.map_cons, List.append_assoc,
      List.singleton_append]

end Chunks

variable {labels : List LabelInfo} {offsets : List (Nat × Nat)} {path : List (Fin labels.length)}

theorem tokensOf_eq_zip (enough : path.length ≤ offsets.length) :
    tokensOf (path.map Fin.val) labels offsets = (path.map labels.get).zip offsets := by
  have from_ : ∀ (path : List (Fin labels.length)) (t : Nat), t + path.length ≤ offsets.length →
      ((path.map Fin.val).zipIdx t).filterMap (fun entry => (labels[entry.1]?).bind fun label =>
        (offsets[entry.2]?).map fun offset => (label, offset)) = (path.map labels.get).zip (offsets.drop t) := by
    intro path
    induction path with
    | nil => exact fun _ _ => rfl
    | cons k path ih =>
      intro t fits
      rw [List.length_cons] at fits
      have inside : t < offsets.length := by omega
      rw [List.map_cons, List.map_cons, List.zipIdx_cons, List.filterMap_cons, List.drop_eq_getElem_cons inside,
        List.zip_cons_cons, ih (t + 1) (by omega), List.getElem?_eq_getElem k.isLt,
        List.getElem?_eq_getElem inside]
      rfl
  have whole := from_ path 0 (by omega)
  rw [List.drop_zero] at whole
  exact whole

def wordOf (labels : List LabelInfo) (path : List (Fin labels.length)) : List LabelInfo := path.map labels.get

/-- **The spans of a legal path**: one for each chunk with bytes of its own, in the order of the text. -/
theorem pathToSpans_of_legal {K : Type} [CommRing K] {bias : TransitionBias K}
    {emissions : List (Fin labels.length → K)}
    (legal : (labelTrellis labels (buildTransitions labels) bias).Legal emissions path)
    (enough : path.length ≤ offsets.length) :
    ∃ chunks : List Chunk, (∀ chunk, chunk ∈ chunks ↔ IsChunk (wordOf labels path) chunk) ∧
      chunks.Pairwise (fun c d => c.last < d.first) ∧ pathToSpans (path.map Fin.val) labels offsets =
        (chunks.map (Chunk.span offsets)).filter fun span => span.start < span.stop := by
  have starts : ∀ first, (wordOf labels path).head? = some first → startAllowed first = true := by
    intro first same
    rw [wordOf, List.head?_map] at same
    obtain ⟨k, first', rfl⟩ := Option.map_eq_some_iff.mp same
    exact legal.starts k first'
  have stops : ∀ last, (wordOf labels path).getLast? = some last → endAllowed last = true := by
    intro last same
    rw [wordOf, List.getLast?_map] at same
    obtain ⟨k, last', rfl⟩ := Option.map_eq_some_iff.mp same
    exact legal.stops k last'
  have linked : (wordOf labels path).IsChain fun src dst => mayFollow src dst = true :=
    (List.isChain_map _).mpr legal.linked
  obtain ⟨chunks, parses⟩ := parses_of_chain starts linked stops
  have here : (wordOf labels path).drop 0 = wordOf labels path := rfl
  refine ⟨chunks, fun chunk => ?_, parses.in_order here, ?_⟩
  · rw [parses.lists here chunk]
    exact and_iff_left (Nat.zero_le _)
  · have fits : 0 + (wordOf labels path).length ≤ offsets.length := by
      rw [wordOf, List.length_map, Nat.zero_add]
      exact enough
    have spans := @Parses.spans _ _ _ none _ parses fits ⟨[], none⟩ rfl
    rw [List.drop_zero, List.nil_append] at spans
    rw [pathToSpans, tokensOf_eq_zip enough]
    exact congrArg _ spans

theorem spans_apart {word : List LabelInfo} {chunks : List Chunk}
    (listed : ∀ chunk ∈ chunks, IsChunk word chunk) (ordered : chunks.Pairwise fun c d => c.last < d.first)
    (enough : word.length ≤ offsets.length) (inOrder : offsets.Pairwise fun x y => x.2 ≤ y.1) :
    (chunks.map (Chunk.span offsets)).Pairwise fun s u => s.stop ≤ u.start := by
  rw [List.pairwise_map]
  refine ordered.imp_of_mem fun {c d} memberC memberD before => ?_
  have lastC := (listed c memberC).last_lt
  have lastD := (listed d memberD).last_lt
  have le := (listed d memberD).le
  have insideC : c.last < offsets.length := by omega
  have insideD : d.first < offsets.length := by omega
  have pair := List.pairwise_iff_getElem.mp inOrder c.last d.first insideC insideD before
  simpa [Chunk.span, List.getElem?_eq_getElem insideC, List.getElem?_eq_getElem insideD] using pair

/-- `TransitionBias::default()`. -/
def TransitionBias.zero {K : Type} [Zero K] : TransitionBias K := ⟨0, 0, 0, 0, 0, 0⟩

/-- The sequence that begins an entity and the one that stays outside. -/
def sampleLabels : List LabelInfo := [⟨.b, ['x']⟩, ⟨.o, []⟩]

def low : ℚ := -(6 * 10 ^ 29)

theorem low_above : neg ℚ < low := by norm_num [neg, low]

theorem low_twice : ¬neg ℚ < low + low := by norm_num [neg, low]

end DuDuClaw.Redaction
