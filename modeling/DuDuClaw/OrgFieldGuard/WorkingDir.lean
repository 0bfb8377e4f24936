/-
# OrgFieldGuard.WorkingDir -- the directory a redirect is judged in

`refused_targets` keeps one working directory and a stack for parentheses, and follows
every `cd` it comes to.  The shell starts a shell of its own for each stage of a pipeline
and each background job as well.

* `Safe`: no redirect comes after a `cd` of a stage or a job it is not part of, within the
  same parentheses.
* `cwd_follows_shell_iff`: exactly then every redirect is judged in the directory the shell
  opens it in, or in none, whatever the words are.
* `cd_in_pipeline_moves`: a list for which that fails.
-/
import Mathlib.Data.List.Forall2
import DuDuClaw.OrgFieldGuard.ListJudgements

namespace DuDuClaw.OrgFieldGuard

open DuDuClaw.Lib

/-! ## When the two agree -/

universe u

variable (ctx : Ctx)

def moves {ω : Type u} : Cmd ω → Bool
  | .simple _ dir _ _ => dir.isSome
  | .subshell .. => false
  | .join _ left right => moves left || moves right
  | .ended _ body => moves body

/-- Whether the directory of the pass is the shell's after the list, by whether it is before. -/
def stays {ω : Type u} : Cmd ω → Bool → Bool
  | .simple .., same => same
  | .subshell .., same => same
  | .join .pipe left right, same => same && !moves left && !moves right
  | .join .amp left right, same => stays right (same && !moves left)
  | .join _ left right, same => stays right (stays left same)
  | .ended .amp body, same => same && !moves body
  | .ended _ body, same => stays body same

/-- No redirect stands where the two differ. -/
def safeFrom {ω : Type u} : Cmd ω → Bool → Bool
  | .simple _ _ redirs _, same => same || redirs.isEmpty
  | .subshell _ body redirs _, same => safeFrom body same && (same || redirs.isEmpty)
  | .join joint left right, same =>
    safeFrom left same &&
      safeFrom right (if joint.forks then same && !moves left else stays left same)
  | .ended _ body, same => safeFrom body same

/-- No redirect comes after a `cd` of a stage or a job that it is not part of, within the
same parentheses. -/
def Safe {ω : Type u} (c : Cmd ω) : Prop := safeFrom c true = true

/-- A directory the pass reads as the shell does: no blanks around it, no drive letter, and
not the home directory in one of its spellings. -/
def Ctx.ordinaryDir (ctx : Ctx) (d : List Char) : Bool :=
  trim d == d && forwardSlashes d == d && isAbsoluteWord d == (d.head? == some '/') &&
    d.head? != some '-' && (ctx.homeSpellings.findSome? (homeRel d)).isNone

/-- The words of a list are read as the shell does. -/
def Ctx.ordinary (ctx : Ctx) : Cmd Spelling → Bool
  | .simple _ dir redirs _ =>
    dir.all (fun d => spaceFree d.2 && ctx.ordinaryDir d.2.value) &&
      redirs.all fun r => spaceFree r.target
  | .subshell _ body redirs _ => ctx.ordinary body && redirs.all fun r => spaceFree r.target
  | .join _ left right => ctx.ordinary left && ctx.ordinary right
  | .ended _ body => ctx.ordinary body

/-- The directory of the pass is unknown, or the shell's. -/
def Tracks (cwd : Option Path) (here : Path) : Prop := ∀ p, cwd = some p → p.lexicalNormalize = here

/-- A redirect is judged in no directory, or in the one the shell opens it in. -/
def JudgedAs (j : Judgement) (o : Cmd.Opened) : Prop := j.word = o.word ∧ Tracks j.cwd o.dir

def Ctx.FollowsShell (ctx : Ctx) (c : Cmd Spelling) (start : Option Path) (here : Path) : Prop :=
  ∃ found, ctx.judgements c.text start = some found ∧
    List.Forall₂ JudgedAs (redirectsOf found) (c.opens here)

variable {c : Cmd Spelling} {cwd : Option Path} {here : Path} {same : Bool}

theorem spaceFree_of_ordinary (words : ctx.ordinary c) : spaceFreeList c := by
  induction c with
  | simple lead dir redirs trail =>
    simp only [Ctx.ordinary, Bool.and_eq_true] at words
    rw [spaceFreeList, Bool.and_eq_true]
    refine ⟨?_, words.2⟩
    cases dir with
    | none => rfl
    | some d =>
      have both := words.1
      simp only [Option.all_some, Bool.and_eq_true] at both
      exact both.1
  | subshell lead body redirs trail ih =>
    simp only [Ctx.ordinary, Bool.and_eq_true] at words
    rw [spaceFreeList, Bool.and_eq_true]
    exact ⟨ih words.1, words.2⟩
  | join joint left right ihLeft ihRight =>
    simp only [Ctx.ordinary, Bool.and_eq_true] at words
    rw [spaceFreeList, Bool.and_eq_true]
    exact ⟨ihLeft words.1, ihRight words.2⟩
  | ended joint body ih => exact ih words

/-- An ordinary directory leads where the shell goes, or is not followed. -/
theorem tracks_changeDir {d : List Char} (ordinary : ctx.ordinaryDir d)
    (tracks : Tracks cwd here) : Tracks (ctx.changeDir [d] cwd) (Cmd.cdFrom here d) := by
  simp only [Ctx.ordinaryDir, Bool.and_eq_true, beq_iff_eq, bne_iff_ne, Option.isNone_iff_eq_none]
    at ordinary
  obtain ⟨⟨⟨⟨trimmed, slashes⟩, absolute⟩, noOption⟩, noHome⟩ := ordinary
  intro p leads
  have first : positional [d] = [d] := by simp [positional, noOption]
  have noDash : (d == dash) = false := by
    rw [beq_eq_false_iff_ne]
    rintro rfl
    exact noOption rfl
  rw [Ctx.changeDir, first] at leads
  simp only [List.head?_cons, noDash, Bool.false_eq_true, if_false, Ctx.resolveRaw, trimmed,
    slashes, noHome] at leads
  split at leads
  · cases leads
  split at leads
  · rename_i root
    rw [absolute, ← Path.parse_isAbsolute] at root
    rw [Cmd.cdFrom, if_pos root, Option.some.inj leads]
  rename_i relative
  rw [absolute, ← Path.parse_isAbsolute] at relative
  split at leads
  · cases leads
  · obtain ⟨dir, known, rfl⟩ := Option.map_eq_some_iff.mp leads
    rw [Path.lexicalNormalize_joinText, if_neg relative, Cmd.cdFrom, if_neg relative, tracks dir known]

/-- A list that does not move leaves the directory. -/
theorem follow_of_not_moves (still : moves c = false) (cwd : Option Path) : ctx.follow c cwd = cwd := by
  induction c generalizing cwd with
  | simple lead dir redirs trail =>
    cases dir with
    | none => rfl
    | some d => cases still
  | subshell lead body redirs trail ih => rfl
  | join joint left right ihLeft ihRight =>
    rw [moves, Bool.or_eq_false_iff] at still
    rw [Ctx.follow, ihLeft still.1, ihRight still.2]
  | ended joint body ih => exact ih still cwd

/-- Where the left side runs in a shell of its own, the two agree after it if it does not
move. -/
theorem tracks_forked {left : Cmd Spelling}
    (tracks : same = true → Tracks cwd here) (still : (same && !moves left) = true) :
    Tracks (ctx.follow left cwd) here := by
  rw [Bool.and_eq_true, Bool.not_eq_true'] at still
  rw [follow_of_not_moves ctx still.2]
  exact tracks still.1

theorem tracks_stays (words : ctx.ordinary c) (tracks : same = true → Tracks cwd here)
    (after : stays c same = true) : Tracks (ctx.follow c cwd) (c.dirAfter here) := by
  induction c generalizing same cwd here with
  | simple lead dir redirs trail =>
    cases dir with
    | none => exact tracks after
    | some d =>
      simp only [Ctx.ordinary, Option.all_some, Bool.and_eq_true] at words
      exact tracks_changeDir ctx words.1.2 (tracks after)
  | subshell lead body redirs trail ih => exact tracks after
  | join joint left right ihLeft ihRight =>
    simp only [Ctx.ordinary, Bool.and_eq_true] at words
    -- one after the other, in the same shell
    have both : stays right (stays left same) = true →
        Tracks (ctx.follow right (ctx.follow left cwd)) (right.dirAfter (left.dirAfter here)) :=
      fun after => ihRight words.2 (fun kept => ihLeft words.1 tracks kept) after
    cases joint with
    | pipe =>
      simp only [stays, Bool.and_eq_true, Bool.not_eq_true'] at after
      rw [Ctx.follow, follow_of_not_moves ctx after.1.2, follow_of_not_moves ctx after.2]
      exact tracks after.1.1
    | amp => exact ihRight words.2 (fun still => tracks_forked ctx tracks still) after
    | andIf | semi | newline => exact both after
  | ended joint body ih =>
    cases joint with
    | amp => exact tracks_forked ctx tracks after
    | pipe | andIf | semi | newline => exact ih words tracks after

theorem judged_redirects {redirs : List (Redirect Spelling)}
    (tracks : same = true → Tracks cwd here) (safe : (same || redirs.isEmpty) = true) :
    List.Forall₂ JudgedAs (redirectsIn redirs cwd) (Cmd.openedIn redirs here) := by
  cases same with
  | false =>
    have none : redirs = [] := by simpa using safe
    subst none
    exact .nil
  | true =>
    unfold redirectsIn Cmd.openedIn
    rw [List.forall₂_map_left_iff, List.forall₂_map_right_iff, List.forall₂_same]
    exact fun r _ => ⟨rfl, tracks rfl⟩

theorem judged_of_safe (words : ctx.ordinary c)
    (tracks : same = true → Tracks cwd here) (safe : safeFrom c same = true) :
    List.Forall₂ JudgedAs (ctx.judged c cwd) (c.opens here) := by
  induction c generalizing same cwd here with
  | simple lead dir redirs trail => exact judged_redirects tracks safe
  | subshell lead body redirs trail ih =>
    simp only [Ctx.ordinary, Bool.and_eq_true] at words
    rw [safeFrom, Bool.and_eq_true] at safe
    exact List.rel_append (ih words.1 tracks safe.1) (judged_redirects tracks safe.2)
  | join joint left right ihLeft ihRight =>
    simp only [Ctx.ordinary, Bool.and_eq_true] at words
    rw [safeFrom, Bool.and_eq_true] at safe
    refine List.rel_append (ihLeft words.1 tracks safe.1) ?_
    cases forks : joint.forks with
    | true =>
      rw [forks] at safe
      exact ihRight words.2 (fun still => tracks_forked ctx tracks still) safe.2
    | false =>
      rw [forks] at safe
      exact ihRight words.2 (fun kept => tracks_stays ctx words.1 tracks kept) safe.2
  | ended joint body ih => exact ih words tracks safe

/-! ## The same list with every word the same name -/

/-- The name `d`, written bare. -/
def plainName : Spelling := .ofBare ['d'] (by simp) (Spelling.noMeta rfl) (by decide)

def nameD : Component := .normal ['d']

/-- Every directory and every target is named `d`. -/
def named (c : Cmd Spelling) : Cmd Spelling := c.map fun _ => plainName

variable {ω : Type u} {n m : Nat} {base : Path}

variable {redirs : List (Redirect Spelling)}

theorem shape_named (c : Cmd Spelling) : (named c).shape = c.shape := by
  unfold named Cmd.shape
  induction c with
  | simple lead dir redirs trail => simp [Cmd.map, Function.comp_def]
  | subshell lead body redirs trail ih => simp [Cmd.map, Function.comp_def, ih]
  | join joint left right ihLeft ihRight => simp [Cmd.map, ihLeft, ihRight]
  | ended joint body ih => simp [Cmd.map, ih]

theorem ordinary_named (c : Cmd Spelling) : ctx.ordinary (named c) := by
  have free : spaceFree plainName = true := by decide
  have dir : ctx.ordinaryDir plainName.value = true := by
    unfold Ctx.ordinaryDir Ctx.homeSpellings
    cases ctx.homeIsDotDuduclaw <;> decide
  unfold named
  induction c with
  | simple lead dir' redirs trail =>
    cases dir' <;> simp [Cmd.map, Ctx.ordinary, free, dir]
  | subshell lead body redirs trail ih => simp [Cmd.map, Ctx.ordinary, free, ih]
  | join joint left right ihLeft ihRight => simp [Cmd.map, Ctx.ordinary, ihLeft, ihRight]
  | ended joint body ih => exact ih

/-- The directories the pass goes down, when every one is a name. -/
def steps {ω : Type u} : Cmd ω → Nat
  | .simple _ dir _ _ => dir.isSome.toNat
  | .subshell .. => 0
  | .join _ left right => steps left + steps right
  | .ended _ body => steps body

def shellSteps {ω : Type u} : Cmd ω → Nat
  | .simple _ dir _ _ => dir.isSome.toNat
  | .subshell .. => 0
  | .join .pipe _ _ => 0
  | .join .amp _ right => shellSteps right
  | .join _ left right => shellSteps left + shellSteps right
  | .ended .amp _ => 0
  | .ended _ body => shellSteps body

theorem moves_eq (c : Cmd ω) : moves c = decide (0 < steps c) := by
  induction c with
  | simple lead dir redirs trail => cases dir <;> rfl
  | subshell lead body redirs trail ih => rfl
  | join joint left right ihLeft ihRight =>
    rw [moves, steps, ihLeft, ihRight, Bool.eq_iff_iff]
    simp only [Bool.or_eq_true, decide_eq_true_eq]
    omega
  | ended joint body ih => exact ih

theorem shellSteps_le (c : Cmd ω) : shellSteps c ≤ steps c := by
  induction c with
  | simple lead dir redirs trail | subshell lead body redirs trail ih => exact Nat.le_refl _
  | join joint left right ihLeft ihRight =>
    cases joint <;> simp only [shellSteps, steps] <;> omega
  | ended joint body ih => cases joint <;> simp only [shellSteps, steps] <;> omega

/-- Whether the two agree is whether they have gone down equally far. -/
theorem forked_eq (left : Cmd ω) (behind : m ≤ n) : ((n == m) && !moves left) = (n + steps left == m) := by
  rw [moves_eq, Bool.eq_iff_iff]
  simp only [Bool.and_eq_true, beq_iff_eq, Bool.not_eq_true', decide_eq_false_iff_not]
  omega

theorem stays_eq (c : Cmd ω) (behind : m ≤ n) : stays c (n == m) = (n + steps c == m + shellSteps c) := by
  induction c generalizing n m with
  | simple lead dir redirs trail =>
    rw [Bool.eq_iff_iff]
    simp [stays, steps, shellSteps]
  | subshell lead body redirs trail ih => rfl
  | join joint left right ihLeft ihRight =>
    have lag := shellSteps_le left
    have both : stays right (stays left (n == m)) =
        (n + (steps left + steps right) == m + (shellSteps left + shellSteps right)) := by
      rw [ihLeft behind, ihRight (by omega), Nat.add_assoc, Nat.add_assoc]
    cases joint with
    | pipe =>
      rw [stays, forked_eq left behind, forked_eq right (by omega), steps, shellSteps, Nat.add_assoc]
      rfl
    | amp =>
      rw [stays, forked_eq left behind, ihRight (by omega), steps, shellSteps, Nat.add_assoc]
    | andIf | semi | newline => exact both
  | ended joint body ih =>
    cases joint with
    | amp => exact forked_eq body behind
    | pipe | andIf | semi | newline => exact ih behind

/-- A directory so many names down. -/
def down (base : Path) (n : Nat) : Path := base ++ List.replicate n nameD

theorem down_succ (base : Path) (n : Nat) : down base n ++ [nameD] = down base (n + 1) := by
  rw [down, down, List.append_assoc, List.replicate_succ']

theorem normalize_down (base : Path) (n : Nat) :
    (down base n).lexicalNormalize = down base.lexicalNormalize n := by
  induction n with
  | zero => simp [down]
  | succ n ih => rw [← down_succ, ← down_succ, nameD, Path.lexicalNormalize_concat_normal, ih]

theorem down_inj (same : down base n = down base m) : n = m := by
  have lengths := congrArg List.length same
  simpa [down] using lengths

theorem changeDir_name (base : Path) (n : Nat) :
    ctx.changeDir [plainName.value] (some (down base n)) = some (down base (n + 1)) := by
  have noHome : ctx.homeSpellings.findSome? (homeRel ['d']) = none := by
    unfold Ctx.homeSpellings
    cases ctx.homeIsDotDuduclaw <;> decide
  have parsed : Path.parse ['d'] = [nameD] := by decide
  have joined : (down base n).joinText ['d'] = down base n ++ [nameD] := by
    unfold Path.joinText
    rw [parsed]
    split
    · rename_i empty
      have nothing : down base n = [] := by simpa [Path.isAbsolute, nameD] using empty
      rw [nothing, List.nil_append]
    · rfl
  show (ctx.resolveRaw ['d'] (some (down base n))) = some (down base (n + 1))
  rw [Ctx.resolveRaw]
  simp only [show forwardSlashes (trim ['d']) = ['d'] by decide, noHome]
  rw [if_neg (by decide), if_neg (by decide), if_neg (by decide), Option.map_some, joined, down_succ]

theorem follow_named (c : Cmd Spelling) (base : Path) (n : Nat) :
    ctx.follow (named c) (some (down base n)) = some (down base (n + steps c)) := by
  unfold named
  induction c generalizing n with
  | simple lead dir redirs trail =>
    cases dir with
    | none => rfl
    | some d => exact changeDir_name ctx base n
  | subshell lead body redirs trail ih => rfl
  | join joint left right ihLeft ihRight =>
    rw [Cmd.map, Ctx.follow, ihLeft, ihRight, steps, Nat.add_assoc]
  | ended joint body ih => exact ih n

theorem dirAfter_named (c : Cmd Spelling) (base : Path) (m : Nat) :
    (named c).dirAfter (down base m) = down base (m + shellSteps c) := by
  unfold named
  induction c generalizing m with
  | simple lead dir redirs trail =>
    cases dir with
    | none => rfl
    | some d => exact down_succ base m
  | subshell lead body redirs trail ih => rfl
  | join joint left right ihLeft ihRight =>
    have both : (right.map fun _ => plainName).dirAfter
        ((left.map fun _ => plainName).dirAfter (down base m)) =
          down base (m + (shellSteps left + shellSteps right)) := by
      rw [ihLeft, ihRight, Nat.add_assoc]
    cases joint with
    | pipe => rfl
    | amp => exact ihRight m
    | andIf | semi | newline => exact both
  | ended joint body ih =>
    cases joint with
    | amp => rfl
    | pipe | andIf | semi | newline => exact ih m

theorem judged_length (c : Cmd Spelling) (cwd : Option Path) (here : Path) :
    (ctx.judged c cwd).length = (c.opens here).length := by
  induction c generalizing cwd here with
  | simple lead dir redirs trail => simp [Ctx.judged, Cmd.opens, redirectsIn, Cmd.openedIn]
  | subshell lead body redirs trail ih =>
    simp [Ctx.judged, Cmd.opens, redirectsIn, Cmd.openedIn, ih cwd here]
  | join joint left right ihLeft ihRight =>
    rw [Ctx.judged, Cmd.opens, List.length_append, List.length_append, ihLeft cwd here]
    congr 1
    exact ihRight _ _
  | ended joint body ih => exact ih cwd here

theorem forall₂_append {α β : Type} {R : α → β → Prop} {a b : List α} {c d : List β}
    (lengths : a.length = c.length) (related : List.Forall₂ R (a ++ b) (c ++ d)) :
    List.Forall₂ R a c ∧ List.Forall₂ R b d := by
  have front := List.forall₂_take_append _ _ _ related
  have back := List.forall₂_drop_append _ _ _ related
  rw [← lengths] at front back
  exact ⟨by simpa using front, by simpa using back⟩

/-- A redirect is judged where it is opened only if the two are equally far down. -/
theorem redirects_named (judged : List.Forall₂ JudgedAs (redirectsIn redirs (some (down base n)))
      (Cmd.openedIn redirs (down base.lexicalNormalize m))) :
    ((n == m) || redirs.isEmpty) = true := by
  cases redirs with
  | nil => simp
  | cons r more =>
    obtain ⟨⟨-, tracks⟩, -⟩ := List.forall₂_cons.mp judged
    have same := tracks _ rfl
    rw [normalize_down] at same
    simp [down_inj same]

theorem safe_of_judged (behind : m ≤ n)
    (judged : List.Forall₂ JudgedAs (ctx.judged (named c) (some (down base n)))
      ((named c).opens (down base.lexicalNormalize m))) : safeFrom c (n == m) = true := by
  unfold named at judged
  induction c generalizing n m with
  | simple lead dir redirs trail =>
    have shown := redirects_named judged
    simpa [safeFrom] using shown
  | subshell lead body redirs trail ih =>
    obtain ⟨inner, outer⟩ := forall₂_append (judged_length ctx _ _ _) judged
    rw [safeFrom, Bool.and_eq_true]
    refine ⟨ih behind inner, ?_⟩
    simpa using redirects_named outer
  | join joint left right ihLeft ihRight =>
    obtain ⟨first, second⟩ := forall₂_append (judged_length ctx _ _ _) judged
    have lag := shellSteps_le left
    rw [safeFrom, Bool.and_eq_true]
    refine ⟨ihLeft behind first, ?_⟩
    have moved := follow_named ctx left base n
    unfold named at moved
    rw [moved] at second
    cases forks : joint.forks with
    | true =>
      rw [forks] at second
      rw [if_pos rfl, forked_eq left behind]
      exact ihRight (by omega) second
    | false =>
      have moved' := dirAfter_named left base.lexicalNormalize m
      unfold named at moved'
      rw [forks, if_neg Bool.false_ne_true, moved'] at second
      rw [if_neg Bool.false_ne_true, stays_eq left behind]
      exact ihRight (by omega) second
  | ended joint body ih => exact ih behind judged

/-! ## The renamed list is written as the shell reads it -/

theorem redirectsOk_named {prev prev' : Option (List Char)}
    (ok : redirectsOk prev redirs) (alike : prev.isSome = prev'.isSome)
    (word : ∀ value, prev' = some value → isNumber value = false) :
    redirectsOk prev' (redirs.map fun r => { r with target := plainName }) := by
  induction redirs generalizing prev prev' with
  | nil => rfl
  | cons r more ih =>
    simp only [redirectsOk, Bool.and_eq_true] at ok
    simp only [List.map_cons, redirectsOk, Bool.and_eq_true]
    refine ⟨⟨ok.1.1, ?_⟩, ih ok.2 rfl ?_⟩
    · have fits := ok.1.2
      cases prev with
      | none =>
        cases prev' with
        | none => exact fits
        | some value => cases alike
      | some old =>
        cases prev' with
        | none => cases alike
        | some value =>
          simp only [Redirect.fits, Bool.or_eq_true, Bool.and_eq_true] at fits ⊢
          refine fits.imp id ?_
          intro joined
          exact ⟨joined.1, by simp [word value rfl]⟩
    · intro value same
      cases same
      decide

theorem head_named (ok : c.ok) :
    ∃ first rest rest', c.text = first :: rest ∧ (named c).text = first :: rest' := by
  unfold named
  induction c with
  | simple lead dir redirs trail =>
    cases lead with
    | cons blank lead => exact ⟨blank, _, _, rfl, rfl⟩
    | nil =>
      cases dir with
      | some d => exact ⟨'c', _, _, rfl, rfl⟩
      | none =>
        cases redirs with
        | nil => simp [Cmd.ok] at ok
        | cons r more =>
          obtain ⟨before, ⟨fd, form⟩, gap, target⟩ := r
          cases before with
          | cons blank before => exact ⟨blank, _, _, rfl, rfl⟩
          | nil =>
            cases fd with
            | cons digit fd => exact ⟨digit, _, _, rfl, rfl⟩
            | nil =>
              cases form with
              | out | append | clobber => exact ⟨'>', _, _, rfl, rfl⟩
              | both | bothAppend => exact ⟨'&', _, _, rfl, rfl⟩
  | subshell lead body redirs trail ih =>
    cases lead with
    | cons blank lead => exact ⟨blank, _, _, rfl, rfl⟩
    | nil => exact ⟨'(', _, _, rfl, rfl⟩
  | join joint left right ihLeft ihRight =>
    simp only [Cmd.ok, Bool.and_eq_true] at ok
    obtain ⟨first, rest, rest', text, text'⟩ := ihLeft ok.1.1.1
    refine ⟨first, rest ++ (joint.text ++ right.text),
      rest' ++ (joint.text ++ (right.map fun _ => plainName).text), ?_, ?_⟩
    · simp [Cmd.text, text]
    · simp [Cmd.text, Cmd.map, text']
  | ended joint body ih =>
    simp only [Cmd.ok, Bool.and_eq_true] at ok
    obtain ⟨first, rest, rest', text, text'⟩ := ih ok.1.1.1
    refine ⟨first, rest ++ joint.text, rest' ++ joint.text, ?_, ?_⟩
    · simp [Cmd.text, text]
    · simp [Cmd.text, Cmd.map, text']

theorem level_named (c : Cmd Spelling) : (named c).level = c.level := by
  cases c with
  | simple lead dir redirs trail | subshell lead body redirs trail | ended joint body => rfl
  | join joint left right => cases joint <;> rfl

theorem ok_named (ok : c.ok) : (named c).ok := by
  induction c with
  | simple lead dir redirs trail =>
    simp only [Cmd.ok, Bool.and_eq_true] at ok
    obtain ⟨⟨⟨⟨blank, written⟩, something⟩, redirected⟩, blank'⟩ := ok
    have word : ∀ value, (dir.map fun _ => plainName.value) = some value → isNumber value = false := by
      intro value same
      cases dir with
      | none => cases same
      | some d =>
        cases same
        show isNumber plainName.value = false
        decide
    simp only [named, Cmd.map, Cmd.ok, Bool.and_eq_true]
    refine ⟨⟨⟨⟨blank, ?_⟩, ?_⟩, ?_⟩, blank'⟩
    · cases dir <;> exact written
    · cases dir with
      | none => simpa using something
      | some d => rfl
    · rw [Option.map_map]
      refine redirectsOk_named redirected ?_ word
      cases dir <;> rfl
  | subshell lead body redirs trail ih =>
    simp only [Cmd.ok, Bool.and_eq_true] at ok
    obtain ⟨⟨⟨blank, inner⟩, redirected⟩, blank'⟩ := ok
    simp only [named, Cmd.map, Cmd.ok, Bool.and_eq_true]
    refine ⟨⟨⟨blank, ih inner⟩, redirectsOk_named redirected rfl fun value absent => ?_⟩, blank'⟩
    cases absent
  | join joint left right ihLeft ihRight =>
    simp only [Cmd.ok, Bool.and_eq_true] at ok
    obtain ⟨⟨⟨okLeft, okRight⟩, bound⟩, follows⟩ := ok
    obtain ⟨first, rest, rest', text, text'⟩ := head_named okRight
    simp only [named, Cmd.map, Cmd.ok, Bool.and_eq_true]
    refine ⟨⟨⟨ihLeft okLeft, ihRight okRight⟩, ?_⟩, ?_⟩
    · have levels := level_named left
      have levels' := level_named right
      unfold named at levels levels'
      rw [levels, levels']
      exact bound
    · unfold named at text'
      rw [text] at follows
      rw [text']
      cases joint <;> exact follows
  | ended joint body ih =>
    simp only [Cmd.ok, Bool.and_eq_true] at ok
    have levels := level_named body
    unfold named at levels
    simp only [named, Cmd.map, Cmd.ok, Bool.and_eq_true, levels]
    exact ⟨⟨⟨ih ok.1.1.1, ok.1.1.2⟩, ok.1.2⟩, ok.2⟩

/-! ## The result -/

/-- Only the shape matters to whether a list is safe. -/
theorem moves_shape (c : Cmd ω) : moves c.shape = moves c := by
  unfold Cmd.shape
  induction c with
  | simple lead dir redirs trail => cases dir <;> rfl
  | subshell lead body redirs trail ih => rfl
  | join joint left right ihLeft ihRight => rw [Cmd.map, moves, moves, ihLeft, ihRight]
  | ended joint body ih => exact ih

theorem stays_shape (c : Cmd ω) (same : Bool) : stays c.shape same = stays c same := by
  unfold Cmd.shape
  induction c generalizing same with
  | simple lead dir redirs trail | subshell lead body redirs trail ih => rfl
  | join joint left right ihLeft ihRight =>
    have first := moves_shape left
    have second := moves_shape right
    unfold Cmd.shape at first second
    cases joint <;> simp only [Cmd.map, stays, first, second, ihLeft, ihRight]
  | ended joint body ih =>
    have first := moves_shape body
    unfold Cmd.shape at first
    cases joint <;> simp only [Cmd.map, stays, first, ih]

theorem safeFrom_shape (c : Cmd ω) (same : Bool) : safeFrom c.shape same = safeFrom c same := by
  unfold Cmd.shape
  induction c generalizing same with
  | simple lead dir redirs trail => simp [Cmd.map, safeFrom]
  | subshell lead body redirs trail ih => simp [Cmd.map, safeFrom, ih]
  | join joint left right ihLeft ihRight =>
    have first := moves_shape left
    have second := stays_shape left same
    unfold Cmd.shape at first second
    simp only [Cmd.map, safeFrom, first, second, ihLeft, ihRight]
  | ended joint body ih => exact ih same

theorem followsShell_of_judged (ok : c.ok) (words : ctx.ordinary c)
    {start : Option Path} : ctx.FollowsShell c start here ↔
      List.Forall₂ JudgedAs (ctx.judged c start) (c.opens here) := by
  obtain ⟨found, judged, shown⟩ := Option.map_eq_some_iff.mp
    (judgements_list ctx ok (spaceFree_of_ordinary ctx words) start)
  rw [Ctx.FollowsShell, judged]
  constructor
  · rintro ⟨found', same, related⟩
    cases same
    rw [shown] at related
    exact related
  · intro related
    rw [← shown] at related
    exact ⟨found, rfl, related⟩

/-- **When the working directory follows the shell.**  A list is safe exactly when in every
list of its shape, over words that are read as the shell does and from any directory, every
redirect is judged in the directory the shell opens it in, or in none. -/
theorem cwd_follows_shell_iff (l : CommandList) : Safe l.cmd ↔
      ∀ l' : CommandList, l'.cmd.shape = l.cmd.shape → ctx.ordinary l'.cmd →
        ∀ (start : Option Path) (here : Path), Tracks start here → ctx.FollowsShell l'.cmd start here := by
  constructor
  · intro safe l' shape words start here tracks
    have safe' : safeFrom l'.cmd true = true := by
      rw [← safeFrom_shape, shape, safeFrom_shape]
      exact safe
    rw [followsShell_of_judged ctx l'.ok words]
    exact judged_of_safe ctx words (fun _ => tracks) safe'
  · intro follows
    -- with every directory named `d`, from the root
    have root : Tracks (some (down [.rootDir] 0)) (down [.rootDir] 0) := by
      intro p same
      cases same
      rfl
    have words := ordinary_named ctx l.cmd
    have judged := follows ⟨named l.cmd, ok_named l.ok⟩ (shape_named l.cmd) words _ _ root
    rw [followsShell_of_judged ctx (ok_named l.ok) words] at judged
    exact safe_of_judged ctx (Nat.le_refl 0) judged

/-- `cd d | > d`. -/
def pipedList : Cmd Spelling :=
  .join .pipe (.simple [] (some ([' '], plainName)) [] [' '])
    (.simple [' '] none [⟨[], ⟨[], .out⟩, [' '], plainName⟩] [])

def homeContext : Ctx := ⟨[.rootDir, .normal ['h']], some [.rootDir, .normal ['h']], ['a'], false⟩

/-- The `cd` of a stage moves the directory the next one is judged in: the shell opens `d`
in the root, and it is judged in `/d`. -/
theorem cd_in_pipeline_moves :
    pipedList.ok ∧ pipedList.text = "cd d | > d".toList ∧ homeContext.ordinary pipedList ∧
      ¬ homeContext.FollowsShell pipedList (some [.rootDir]) [.rootDir] := by
  have ok : pipedList.ok := by decide
  have words : homeContext.ordinary pipedList := by decide
  refine ⟨ok, by decide, words, ?_⟩
  rw [followsShell_of_judged homeContext ok words]
  intro related
  have judged : homeContext.judged pipedList (some [.rootDir]) =
      [⟨.redirect, ['d'], some [.rootDir, nameD]⟩] := by decide
  have opened : pipedList.opens [.rootDir] = [⟨['d'], [.rootDir]⟩] := by decide
  rw [judged, opened] at related
  obtain ⟨⟨-, tracks⟩, -⟩ := List.forall₂_cons.mp related
  exact absurd (tracks _ rfl) (by decide)

end DuDuClaw.OrgFieldGuard
