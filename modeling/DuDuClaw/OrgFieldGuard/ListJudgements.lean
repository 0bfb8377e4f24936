/-
# OrgFieldGuard.ListJudgements -- the redirects of a list as they are judged

`refused_targets` goes along the tokens with one working directory and a stack for
parentheses.  On a list of commands that comes to one rule for each form of the grammar.

* `judgeFrom_list`: what the pass does at a list, whatever follows it.
* `judgements_list`: the directories the redirects of a list are judged in.
-/
import DuDuClaw.OrgFieldGuard.ListTokens
import DuDuClaw.OrgFieldGuard.RefusedTargets

namespace DuDuClaw.OrgFieldGuard

open DuDuClaw.Lib

/-! ## The pass by the grammar -/

/-- The directory the pass has after the list. -/
def Ctx.follow (ctx : Ctx) : Cmd Spelling → Option Path → Option Path
  | .simple _ dir _ _, cwd =>
    match dir with
    | some d => ctx.changeDir [d.2.value] cwd
    | none => cwd
  | .subshell .., cwd => cwd
  | .join _ left right, cwd => ctx.follow right (ctx.follow left cwd)
  | .ended _ body, cwd => ctx.follow body cwd

def redirectsIn (redirs : List (Redirect Spelling)) (cwd : Option Path) : List Judgement :=
  redirs.map fun r => ⟨.redirect, r.target.value, cwd⟩

/-- The redirects of the list, in the directories the pass has for them. -/
def Ctx.judged (ctx : Ctx) : Cmd Spelling → Option Path → List Judgement
  | .simple _ _ redirs _, cwd => redirectsIn redirs cwd
  | .subshell _ body redirs _, cwd => ctx.judged body cwd ++ redirectsIn redirs cwd
  | .join _ left right, cwd => ctx.judged left cwd ++ ctx.judged right (ctx.follow left cwd)
  | .ended _ body, cwd => ctx.judged body cwd

def redirectsOf (found : List Judgement) : List Judgement :=
  found.filter fun j => j.position == .redirect

theorem redirectsOf_append (a b : List Judgement) :
    redirectsOf (a ++ b) = redirectsOf a ++ redirectsOf b := List.filter_append ..

theorem redirectsOf_always (seg : Segment) (cwd : Option Path) :
    redirectsOf (seg.always cwd) = seg.redirs.map fun r => ⟨.redirect, r, cwd⟩ := by
  have database : (Position.database == .redirect) = false := rfl
  unfold Segment.always redirectsOf
  rw [List.filter_append, List.filter_map, List.filter_map]
  simp [Function.comp_def, database]

theorem redirectsOf_arguments (words : List (List Char)) (cwd : Option Path) :
    redirectsOf (arguments words cwd) = [] := by
  have argument : (Position.argument == .redirect) = false := rfl
  unfold arguments redirectsOf
  rw [List.filter_map]
  simp [Function.comp_def, argument]

/-! ## Segments of a list -/

variable (ctx : Ctx)

def dirWords : Option (List Char × Spelling) → List (List Char)
  | some (_, dir) => [Cmd.cdText, dir.value]
  | none => []

def targets (redirs : List (Redirect Spelling)) : List (List Char) :=
  redirs.map fun r => r.target.value

variable {rest : List Tok}

theorem commandAndArgs_cd (dir : List Char) :
    commandAndArgs [Cmd.cdText, dir] = some (some ⟨Cmd.cdText, [dir], false, []⟩) := by
  have plain : isAssignment Cmd.cdText = false := by decide
  have name : baseName Cmd.cdText = Cmd.cdText := by decide
  have command : prefixCommands.contains Cmd.cdText = false := by decide
  simp only [commandAndArgs, List.length_cons, List.length_nil, commandLoop, plain, name, command,
    Bool.false_eq_true, if_false]

variable (allWords : List (List Char))

/-- A simple command: its redirects, and where it leads. -/
theorem segment_simple (dir : Option (List Char × Spelling))
    (redirs : List (Redirect Spelling)) (opened : Option Tok) (cwd : Option Path) (lead trail : List Char) :
    ∃ found, ctx.segment allWords ⟨dirWords dir, targets redirs, opened⟩ cwd =
        some (found, ctx.follow (.simple lead dir redirs trail) cwd) ∧
      redirectsOf found = redirectsIn redirs cwd := by
  have shown : redirectsOf (Segment.always ⟨dirWords dir, targets redirs, opened⟩ cwd) =
      redirectsIn redirs cwd := by
    rw [redirectsOf_always]
    simp [targets, redirectsIn, Function.comp_def]
  cases dir with
  | none =>
    refine ⟨_, ?_, shown⟩
    rfl
  | some d =>
    obtain ⟨gap, dir⟩ := d
    refine ⟨Segment.always ⟨dirWords (some (gap, dir)), targets redirs, opened⟩ cwd ++
      arguments [] cwd ++ [], ?_, ?_⟩
    · have leads : changesDir Cmd.cdText = true := by decide
      rw [Ctx.segment]
      simp only [dirWords, commandAndArgs_cd, Ctx.command, leads, Bool.false_eq_true, if_false,
        if_true, Option.map_some, Ctx.follow]
    · rw [List.append_nil, redirectsOf_append, shown, redirectsOf_arguments, List.append_nil]

def Tok.breaks : Tok → Bool
  | .word _ | .redirOut _ => false
  | _ => true

theorem segmentsFrom_break {t : Tok} (breaks : t.breaks) (current : Segment) (rest : List Tok) :
    segmentsFrom current (t :: rest) = current :: segmentsFrom ⟨[], [], some t⟩ rest := by
  cases t with
  | word w | redirOut w => cases breaks
  | sep | opening | closing => rfl

theorem segmentsFrom_redirs (redirs : List (Redirect Spelling)) (words before : List (List Char))
    (opened : Option Tok) (rest : List Tok) : segmentsFrom ⟨words, before, opened⟩ (redirToks redirs ++ rest) =
      segmentsFrom ⟨words, before ++ targets redirs, opened⟩ rest := by
  induction redirs generalizing before with
  | nil => simp [redirToks, targets]
  | cons r more ih =>
    have first := ih (before ++ [r.target.value])
    simp only [redirToks, targets, List.map_cons, List.cons_append, segmentsFrom] at first ⊢
    rw [first, List.append_assoc, List.singleton_append]

theorem segmentsFrom_simple (dir : Option (List Char × Spelling))
    (redirs : List (Redirect Spelling)) (opened : Option Tok) (rest : List Tok) :
    segmentsFrom ⟨[], [], opened⟩ (dirToks dir ++ redirToks redirs ++ rest) =
      segmentsFrom ⟨dirWords dir, targets redirs, opened⟩ rest := by
  cases dir with
  | none => simpa [dirToks, dirWords] using segmentsFrom_redirs redirs [] [] opened rest
  | some d =>
    simpa [dirToks, dirWords, segmentsFrom] using
      segmentsFrom_redirs redirs [Cmd.cdText, d.2.value] [] opened rest

theorem segmentsFrom_opened (words redirs : List (List Char)) (toks : List Tok) :
    ∃ words' redirs' later, ∀ opened, segmentsFrom ⟨words, redirs, opened⟩ toks =
      ⟨words', redirs', opened⟩ :: later := by
  induction toks generalizing words redirs with
  | nil => exact ⟨words, redirs, [], fun _ => rfl⟩
  | cons t rest ih =>
    cases t with
    | word w => exact ih (words ++ [w]) redirs
    | redirOut w => exact ih words (redirs ++ [w])
    | sep | opening | closing => exact ⟨words, redirs, _, fun _ => rfl⟩

/-! ## Redirects judged along the tokens -/

def Ctx.judgeFrom (ctx : Ctx) (allWords : List (List Char)) (current : Segment) (toks : List Tok)
    (place : Place) : Option (List Judgement) :=
  (ctx.judgeSegments allWords (segmentsFrom current toks) place).map redirectsOf

def freshSegment : Segment := ⟨[], [], none⟩

theorem Place.enter_none (place : Place) : place.enter none = place := rfl

/-- The redirects judged after a segment that the tokens end. -/
def Ctx.resume (ctx : Ctx) (allWords : List (List Char)) (rest : List Tok) (place : Place) :
    Option (List Judgement) :=
  match rest with
  | [] => some []
  | t :: more => ctx.judgeFrom allWords freshSegment more (place.enter (some t))

theorem judgeFrom_opened (t : Tok) (toks : List Tok) (place : Place) :
    ctx.judgeFrom allWords ⟨[], [], some t⟩ toks place =
      ctx.judgeFrom allWords freshSegment toks (place.enter (some t)) := by
  obtain ⟨words, redirs, later, shape⟩ := segmentsFrom_opened [] [] toks
  rw [Ctx.judgeFrom, Ctx.judgeFrom, freshSegment, shape, shape, Ctx.judgeSegments, Ctx.judgeSegments]
  rfl

theorem judgeFrom_simple (dir : Option (List Char × Spelling))
    (redirs : List (Redirect Spelling)) (breaks : rest.head?.all Tok.breaks)
    (place : Place) (lead trail : List Char) :
    ctx.judgeFrom allWords freshSegment (dirToks dir ++ redirToks redirs ++ rest) place =
      (ctx.resume allWords rest ⟨ctx.follow (.simple lead dir redirs trail) place.cwd, place.stack⟩).map
        (redirectsIn redirs place.cwd ++ ·) := by
  obtain ⟨found, judged, shown⟩ :=
    segment_simple ctx allWords dir redirs none place.cwd lead trail
  rw [Ctx.judgeFrom, freshSegment, segmentsFrom_simple]
  cases rest with
  | nil =>
    rw [segmentsFrom, Ctx.judgeSegments, Place.enter_none, judged]
    simp [Ctx.judgeSegments, Ctx.resume, shown]
  | cons t more =>
    have stops : t.breaks := by simpa using breaks
    rw [segmentsFrom_break stops, Ctx.judgeSegments, Place.enter_none, judged, Ctx.resume,
      ← judgeFrom_opened, Ctx.judgeFrom]
    dsimp only
    rw [Option.map_map, Option.map_map]
    congr 1
    funext later
    simp [redirectsOf_append, shown]

/-- Where no word has been read a token only moves the place. -/
theorem judgeFrom_resume (breaks : rest.head?.all Tok.breaks) (place : Place) :
    ctx.judgeFrom allWords freshSegment rest place = ctx.resume allWords rest place := by
  have empty := judgeFrom_simple ctx allWords none [] breaks place [] []
  simpa [dirToks, redirToks, redirectsIn, Ctx.follow] using empty

theorem resume_joint (joint : Joint) (rest : List Tok) (place : Place) :
    ctx.resume allWords (jointToks joint ++ rest) place = ctx.judgeFrom allWords freshSegment rest place := by
  cases joint with
  | andIf =>
    have breaks : (Tok.sep :: rest).head?.all Tok.breaks := rfl
    exact judgeFrom_resume ctx allWords breaks place
  | pipe | semi | newline | amp => rfl

theorem breaks_joint (joint : Joint) (rest : List Tok) : (jointToks joint ++ rest).head?.all Tok.breaks := by
  cases joint <;> rfl

/-- The redirects of a list, then those of what follows it. -/
theorem judgeFrom_list (c : Cmd Spelling)
    (breaks : rest.head?.all Tok.breaks) (place : Place) :
    ctx.judgeFrom allWords freshSegment (listToks c ++ rest) place =
      (ctx.resume allWords rest ⟨ctx.follow c place.cwd, place.stack⟩).map
        (ctx.judged c place.cwd ++ ·) := by
  induction c generalizing rest place with
  | simple lead dir redirs trail =>
    exact judgeFrom_simple ctx allWords dir redirs breaks place lead trail
  | subshell lead body redirs trail ih =>
    have closes : (Tok.closing :: (redirToks redirs ++ rest)).head?.all Tok.breaks := rfl
    have inner := ih closes ⟨place.cwd, place.cwd :: place.stack⟩
    have after := judgeFrom_simple ctx allWords none redirs breaks place lead trail
    have shape : listToks (.subshell lead body redirs trail) ++ rest =
        .opening :: (listToks body ++ .closing :: (redirToks redirs ++ rest)) := by
      simp [listToks]
    -- the closing parenthesis brings the directory back that the opening one saved
    have restored : (Place.enter ⟨ctx.follow body place.cwd, place.cwd :: place.stack⟩
        (some .closing)) = place := rfl
    rw [dirToks, List.nil_append] at after
    rw [shape, judgeFrom_resume ctx allWords rfl, Ctx.resume]
    show ctx.judgeFrom allWords freshSegment _ ⟨place.cwd, place.cwd :: place.stack⟩ = _
    rw [inner, Ctx.resume, restored, after, Option.map_map]
    congr 1
    funext later
    simp [Ctx.judged]
  | join joint left right ihLeft ihRight =>
    have first := ihLeft (breaks_joint joint (listToks right ++ rest)) place
    have second := ihRight breaks ⟨ctx.follow left place.cwd, place.stack⟩
    rw [listToks, List.append_assoc, List.append_assoc, first, resume_joint, second, Option.map_map]
    congr 1
    funext later
    simp [Ctx.judged]
  | ended joint body ih =>
    have first := ih (breaks_joint joint rest) place
    rw [listToks, List.append_assoc, first, resume_joint, judgeFrom_resume ctx allWords breaks]
    rfl

/-- **The redirects of a list, as they are judged.** -/
theorem judgements_list {c : Cmd Spelling} (ok : c.ok) (noSpace : spaceFreeList c) (start : Option Path) :
    (ctx.judgements c.text start).map redirectsOf = some (ctx.judged c start) := by
  have ends : ([] : List Tok).head?.all Tok.breaks := rfl
  have whole := judgeFrom_list ctx ((segments (listToks c)).flatMap Segment.words) c ends
    ⟨start, []⟩
  rw [List.append_nil] at whole
  rw [Ctx.judgements, tokenize_list ok noSpace]
  exact whole.trans (by simp [Ctx.resume])

end DuDuClaw.OrgFieldGuard
