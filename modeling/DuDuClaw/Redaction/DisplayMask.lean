/-
# Redaction.DisplayMask -- text that is shown with its tokens masked

`mask_tokens_for_display` (token.rs) puts a placeholder where `rewrite_tokens` meets a token.

* `masked_lexes`: the masked text is cut into what is left of the segments.
* `masked_text_shows_no_token`: no scanner finds a token in a masked text.
-/
import DuDuClaw.Redaction.Scan

namespace DuDuClaw.Redaction

open DuDuClaw.Lib

/-- `category`: what the wire string holds up to the colon. -/
def Token.category (tok : Token) : Text :=
  let body := (tok.wire.take (tok.wire.length - tokenSuffix.length)).drop tokenPrefix.length
  ((splitOnce colonByte body).map Prod.fst).getD []

/-- The category between the bytes of `〔已遮蔽·` and of `〕`. -/
def displayPlaceholder (category : Text) : Text :=
  0xE3 :: ([0x80, 0x94, 0xE5, 0xB7, 0xB2, 0xE9, 0x81, 0xAE, 0xE8, 0x94, 0xBD, 0xC2, 0xB7] ++ category ++
    [0xE3, 0x80, 0x95])

def maskTokensForDisplay (text : Text) : Text :=
  if findSub tokenPrefix text = none then text
  else (rewriteTokens (fun (_ : Unit) tok => ((), .replace (displayPlaceholder tok.category))) () text).2

def Segment.masked : Segment → Text
  | .text t => t
  | .candidate c =>
    match Token.parse c with
    | some tok => displayPlaceholder tok.category
    | none => c

variable {s front : Text} {segs : List Segment}

theorem ltByte_not_mem_placeholder (tok : Token) : ltByte ∉ displayPlaceholder tok.category := by
  obtain ⟨body, eq, noLt, -⟩ := tok.wire_shape
  have inner : (tok.wire.take (tok.wire.length - tokenSuffix.length)).drop tokenPrefix.length = body := by
    rw [eq, List.length_append, Nat.add_sub_cancel, List.take_left, List.drop_left]
  have absent : ltByte ∉ tok.category := by
    unfold Token.category
    rw [inner]
    dsimp only
    cases split : splitOnce colonByte body with
    | none => exact List.not_mem_nil
    | some halves =>
      rw [(splitOnce_eq_some_iff.mp split).1] at noLt
      exact fun member => noLt (List.mem_append_left _ member)
  simp only [displayPlaceholder, List.mem_cons, List.mem_append, absent, or_false]
  decide

/-- An occurrence ends before a byte it does not hold. -/
theorem prefix_of_foreign {pat a x : Text} {m : UInt8} (occurs : pat <+: a ++ m :: x) (foreign : m ∉ pat) :
    pat <+: a := by
  have next : a ++ [m] <+: a ++ m :: x := ⟨x, by rw [List.append_assoc, List.singleton_append]⟩
  obtain shorter | longer := List.prefix_or_prefix_of_prefix occurs next
  · obtain rfl | inside := List.prefix_concat_iff.mp shorter
    · exact absurd (List.mem_append_right a List.mem_cons_self) foreign
    · exact inside
  · exact absurd (longer.mem (List.mem_append_right a List.mem_cons_self)) foreign

theorem free_append {before : Text} (free : ∀ i < front.length, ¬tokenPrefix <+: (front ++ s).drop i)
    (first : ∀ i < before.length, ¬tokenPrefix <+: s.drop i) :
    ∀ i < (front ++ before).length, ¬tokenPrefix <+: (front ++ s).drop i := by
  intro i inside
  by_cases early : i < front.length
  · exact free i early
  obtain ⟨k, rfl⟩ := Nat.exists_eq_add_of_le (Nat.not_lt.mp early)
  rw [List.drop_length_add_append]
  rw [List.length_append] at inside
  exact first k (by omega)

/-- Text in which no token begins joins the text behind it. -/
theorem Lexes.behind (lexed : Lexes s segs) (nothing : ∀ off, found off segs = [])
    (free : ∀ i < front.length, ¬tokenPrefix <+: (front ++ s).drop i) :
    ∃ segs', Lexes (front ++ s) segs' ∧ ∀ off, found off segs' = [] := by
  cases lexed with
  | plain none =>
    refine ⟨_, .plain fun i => ?_, fun _ => rfl⟩
    by_cases early : i < front.length
    · exact free i early
    obtain ⟨k, rfl⟩ := Nat.exists_eq_add_of_le (Nat.not_lt.mp early)
    rw [List.drop_length_add_append]
    exact none k
  | unterminated first isPrefix noGt =>
    have whole := free_append free first
    rw [← List.append_assoc] at whole ⊢
    exact ⟨_, .unterminated whole isPrefix noGt, fun _ => rfl⟩
  | candidate first isPrefix noGt tail =>
    have whole := free_append free first
    rw [← List.append_assoc] at whole ⊢
    refine ⟨_, .candidate whole isPrefix noGt tail, fun off => ?_⟩
    have same := nothing (off + front.length)
    simp only [found, List.length_append, Nat.add_assoc] at same ⊢
    exact same

theorem masked_lexes (lexed : Lexes s segs) :
    ∃ segs', Lexes (segs.flatMap Segment.masked) segs' ∧ ∀ off, found off segs' = [] := by
  induction lexed with
  | plain none =>
    rw [List.flatMap_cons, List.flatMap_nil, List.append_nil]
    exact ⟨_, .plain none, fun _ => rfl⟩
  | unterminated first isPrefix noGt =>
    rw [List.flatMap_cons, List.flatMap_cons, List.flatMap_nil, List.append_nil]
    exact ⟨_, .unterminated first isPrefix noGt, fun _ => rfl⟩
  | @candidate before inner rest segs first isPrefix noGt tail ih =>
    obtain ⟨segs', lexed', nothing⟩ := ih
    rw [List.flatMap_cons, List.flatMap_cons]
    -- an occurrence in front of the candidate would be one in the text
    have gt_foreign : gtByte ∉ tokenPrefix := by decide
    have free (tail' : Text) : ∀ i < before.length,
        ¬tokenPrefix <+: (before ++ (inner ++ gtByte :: tail')).drop i := by
      intro i early occurs
      rw [← List.append_assoc, List.drop_append_of_le_length (by rw [List.length_append]; omega)] at occurs
      refine first i early ?_
      rw [← List.append_assoc, List.drop_append_of_le_length (by rw [List.length_append]; omega)]
      exact (prefix_of_foreign occurs gt_foreign).trans (List.prefix_append _ _)
    cases parsed : Token.parse (inner ++ [gtByte]) with
    | none =>
      refine ⟨.text before :: .candidate (inner ++ [gtByte]) :: segs', ?_, fun off => ?_⟩
      · simp only [Segment.masked, parsed, List.append_assoc, List.singleton_append]
        exact .candidate (free _) ((prefix_of_foreign isPrefix gt_foreign).trans (List.prefix_append _ _)) noGt
          lexed'
      · simp only [found, parsed, nothing]
    | some tok =>
      simp only [Segment.masked, parsed]
      rw [← List.append_assoc]
      refine lexed'.behind nothing fun i inside occurs => ?_
      by_cases early : i < before.length
      · rw [List.append_assoc, List.drop_append_of_le_length (Nat.le_of_lt early)] at occurs
        refine first i early ?_
        rw [List.drop_append_of_le_length (Nat.le_of_lt early)]
        exact (prefix_of_foreign occurs (by decide)).trans (List.prefix_append _ _)
      -- a placeholder holds no `<`
      obtain ⟨k, rfl⟩ := Nat.exists_eq_add_of_le (Nat.not_lt.mp early)
      rw [List.length_append] at inside
      rw [List.append_assoc, List.drop_length_add_append,
        List.drop_append_of_le_length (by omega), List.drop_eq_getElem_cons (by omega)] at occurs
      have head := (List.cons_prefix_cons.mp occurs).1
      exact ltByte_not_mem_placeholder tok (head ▸ List.getElem_mem _)

theorem foldl_masked (segs : List Segment) (out : Text) :
    (segs.foldl (rewriteStep fun (_ : Unit) tok => ((), .replace (displayPlaceholder tok.category)))
      ((), out)).2 = out ++ segs.flatMap Segment.masked := by
  induction segs generalizing out with
  | nil => exact (List.append_nil out).symm
  | cons seg segs ih =>
    rw [List.foldl_cons, List.flatMap_cons, ← List.append_assoc, ← ih]
    cases seg with
    | text t => rfl
    | candidate c =>
      simp only [rewriteStep, Segment.masked]
      cases Token.parse c <;> rfl

theorem masked_eq (s : Text) : maskTokensForDisplay s = (segments s).flatMap Segment.masked := by
  rw [maskTokensForDisplay, rewriteTokens_eq_foldl, foldl_masked, List.nil_append]
  split
  · rename_i none
    have whole : segments s = [.text s] := by
      unfold segments
      cases s.length with
      | zero => rfl
      | succ n => rw [segmentsAux, none]
    rw [whole, List.flatMap_cons, List.flatMap_nil, List.append_nil]
    rfl
  · rfl

/-- **Masking is complete.**  In a masked text none of the scanners finds a token, and masking it
again leaves it. -/
theorem masked_text_shows_no_token (s : Text) : Recognises (maskTokensForDisplay s) [] ∧
    maskTokensForDisplay (maskTokensForDisplay s) = maskTokensForDisplay s := by
  obtain ⟨segs, lexed, nothing⟩ := masked_lexes (segments_lexes s)
  rw [← masked_eq] at lexed
  have complete := scanners_visible (maskTokensForDisplay s)
  rw [← visibleFrom_zero, ← found_eq_visibleFrom lexed, nothing] at complete
  refine ⟨complete, ?_⟩
  generalize maskTokensForDisplay s = t at complete
  rw [maskTokensForDisplay, complete.rewritten]
  split <;> rfl

end DuDuClaw.Redaction
