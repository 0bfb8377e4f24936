/-
# Fork.Globs -- what the exclusion globs match

`glob_match_ci` of copy_policy.rs goes through pattern and name at once and remembers the
last `*` it passed; on a mismatch it lets that `*` take one more character.  It tests for
equal characters before it tests for `*`, so that a `*` of the pattern that comes to stand
before a `*` of the name is passed as that one character and is not remembered.

* `globMatchCi_iff`: the names the loop accepts.
* `glob_exact_iff`: it is right for a pattern and a name exactly when the name, if it
  matches, matches in such a way.
-/
import DuDuClaw.Fork.CopyPolicy
import DuDuClaw.Lib.Glob

namespace DuDuClaw.Fork

open DuDuClaw.Lib

/-! ## Two languages -/

def globItem (d : Char) : GlobItem Char :=
  if d = '*' then .star else .one fun c => d == '?' || d.toLower == c.toLower

def InLanguage (pattern name : List Char) : Prop := GlobMatches (pattern.map globItem) name

/-- The loop's way to go through a pattern and a name, both in lower case: a `*` before a
`*` stands for that character only. -/
inductive Reads : List Char → List Char → Prop
  | done {pattern : List Char} (stars : ∀ d ∈ pattern, d = '*') : Reads pattern []
  | one {d c : Char} {pattern name : List Char} (equal : d = '?' ∨ d = c)
      (rest : Reads pattern name) : Reads (d :: pattern) (c :: name)
  | star {c : Char} {pattern name later : List Char} (other : c ≠ '*')
      (behind : later <:+ c :: name) (rest : Reads pattern later) :
      Reads ('*' :: pattern) (c :: name)

def ReadsBehind (pattern name : List Char) : Prop := ∃ later, later <:+ name ∧ Reads pattern later

/-! ## The loop -/

variable {pattern name : List Char} {c : Char}

theorem reads_nil : Reads pattern [] ↔ ∀ d ∈ pattern, d = '*' := by
  constructor
  · rintro ⟨stars⟩
    exact stars
  · exact .done

/-- Equal characters are passed, a `*` before a `*` among them. -/
theorem reads_one {d : Char} (equal : d = '?' ∨ d = c) :
    Reads (d :: pattern) (c :: name) ↔ Reads pattern name := by
  constructor
  · intro reads
    cases reads with
    | one _ rest => exact rest
    | star other behind rest =>
      rcases equal with mark | rfl
      · cases mark
      · exact absurd rfl other
  · exact .one equal

/-- A `*` before any other character takes any run. -/
theorem reads_star (other : c ≠ '*') :
    Reads ('*' :: pattern) (c :: name) ↔ ReadsBehind pattern (c :: name) := by
  constructor
  · intro reads
    cases reads with
    | one equal rest =>
      rcases equal with mark | same
      · cases mark
      · exact absurd same.symm other
    | star _ behind rest => exact ⟨_, behind, rest⟩
  · rintro ⟨later, behind, rest⟩
    exact .star other behind rest

theorem not_reads {d : Char} (differ : ¬(d = '?' ∨ d = c))
    (plain : d ≠ '*') : ¬Reads (d :: pattern) (c :: name) := by
  intro reads
  cases reads with
  | one equal rest => exact differ equal
  | star other behind rest => exact plain rfl

theorem readsBehind_mono {longer : List Char} (behind : name <:+ longer)
    (reads : ReadsBehind pattern name) : ReadsBehind pattern longer := by
  obtain ⟨later, inside, rest⟩ := reads
  exact ⟨later, inside.trans behind, rest⟩

/-- The pattern of the last `*` was followed from `from_` as far as `pattern` and `name`. -/
inductive Followed : List Char → List Char → List Char → List Char → Prop
  | start (pattern name : List Char) : Followed pattern name pattern name
  | step {d c : Char} {after from_ pattern name : List Char} (equal : d = '?' ∨ d = c)
      (rest : Followed after from_ pattern name) : Followed (d :: after) (c :: from_) pattern name

section
variable {after from_ pattern name : List Char}

theorem Followed.snoc {d : Char} (followed : Followed after from_ (d :: pattern) (c :: name))
    (equal : d = '?' ∨ d = c) : Followed after from_ pattern name := by
  generalize front : d :: pattern = ahead at followed
  generalize back : c :: name = left at followed
  induction followed with
  | start =>
    subst front back
    exact .step equal (.start _ _)
  | step same rest ih => exact .step same (ih front back)

theorem Followed.reads_iff (followed : Followed after from_ pattern name) :
    Reads after from_ ↔ Reads pattern name := by
  induction followed with
  | start => exact Iff.rfl
  | step equal rest ih => exact (reads_one equal).trans ih

/-- Any later start that reads comes past the place that was reached: up to there each
character was equal, so that a `*` can stand for nothing only behind it. -/
theorem Followed.readsBehind (followed : Followed after from_ pattern name)
    (reads : ReadsBehind after from_) : ReadsBehind pattern name := by
  obtain ⟨later, behind, reads⟩ := reads
  induction followed generalizing later with
  | start => exact ⟨later, behind, reads⟩
  | @step d c after from_ pattern name equal rest ih =>
    obtain rfl | inside := List.suffix_cons_iff.mp behind
    · exact ih from_ (List.suffix_refl _) ((reads_one equal).mp reads)
    cases reads with
    | done stars =>
      exact ih [] List.nil_suffix (.done fun e listed => stars e (List.mem_cons_of_mem _ listed))
    | one _ more => exact ih _ ((List.suffix_cons _ _).trans inside) more
    | star _ further more => exact ih _ (further.trans inside) more

theorem Followed.name_behind (followed : Followed after from_ pattern name) : name <:+ from_ := by
  induction followed with
  | start => exact List.suffix_refl _
  | step equal rest ih => exact ih.trans (List.suffix_cons _ _)

theorem Followed.length_le (followed : Followed after from_ pattern name) : pattern.length ≤ after.length := by
  induction followed with
  | start => exact Nat.le_refl _
  | step equal rest ih => exact Nat.le_succ_of_le ih

end

/-! ## Enough rounds -/

theorem all_stars : (pattern.all (· == '*')) = true ↔ Reads pattern [] := by
  simp [reads_nil]

section
variable {after from_ pattern name : List Char} {d c : Char}

/-- A place that cannot be passed ends this start of the `*`. -/
theorem readsBehind_retry {skipped : List Char} (followed : Followed after (c :: skipped) pattern name)
    (stuck : ¬Reads pattern name) : ReadsBehind after skipped ↔ ReadsBehind after (c :: skipped) := by
  refine ⟨readsBehind_mono (List.suffix_cons _ _), ?_⟩
  rintro ⟨later, behind, reads⟩
  obtain rfl | inside := List.suffix_cons_iff.mp behind
  · exact absurd (followed.reads_iff.mp reads) stuck
  · exact ⟨later, inside, reads⟩

/-- A new `*` takes over from the last one. -/
theorem readsBehind_commit (followed : Followed after from_ ('*' :: pattern) (c :: name))
    (other : c ≠ '*') : ReadsBehind pattern (c :: name) ↔ ReadsBehind after from_ := by
  constructor
  · intro reads
    exact ⟨from_, List.suffix_refl _, followed.reads_iff.mpr ((reads_star other).mpr reads)⟩
  · intro reads
    obtain ⟨later, behind, reads⟩ := followed.readsBehind reads
    cases reads with
    | done stars =>
      exact ⟨[], List.nil_suffix, .done fun e listed => stars e (List.mem_cons_of_mem _ listed)⟩
    | one _ rest => exact ⟨_, (List.suffix_cons _ _).trans behind, rest⟩
    | star _ further rest => exact ⟨_, further.trans behind, rest⟩

/-- The rounds that are left for a `*` that starts at `from_`. -/
def globWork (after from_ pattern : List Char) : Nat :=
  from_.length * (after.length + 1) + pattern.length

theorem globWork_retry (after skipped pattern : List Char) (c : Char) :
    globWork after skipped after < globWork after (c :: skipped) pattern := by
  unfold globWork
  rw [List.length_cons, Nat.succ_mul]
  omega

theorem globWork_commit (followed : Followed after from_ (d :: pattern) name) :
    globWork pattern name pattern < globWork after from_ (d :: pattern) := by
  have short := followed.length_le
  have near := followed.name_behind.length_le
  unfold globWork
  rw [List.length_cons] at short ⊢
  have product : name.length * (pattern.length + 1) ≤ from_.length * (after.length + 1) :=
    Nat.mul_le_mul near (Nat.succ_le_succ (Nat.le_of_succ_le short))
  omega

theorem globRounds_nil (fuel : Nat) (pattern : List Char) (star : Option (List Char × List Char)) :
    globRounds fuel pattern [] star = pattern.all (· == '*') := by
  cases fuel <;> rfl

theorem readsBehind_nil (followed : Followed after from_ pattern []) :
    ReadsBehind after from_ ↔ Reads pattern [] := by
  constructor
  · intro reads
    obtain ⟨later, behind, reads⟩ := followed.readsBehind reads
    rwa [List.suffix_nil.mp behind] at reads
  · intro reads
    exact ⟨from_, List.suffix_refl _, followed.reads_iff.mpr reads⟩

/-- With a `*` behind it the loop accepts the names that the pattern of that `*` reads from
some place on. -/
theorem globRounds_star {fuel : Nat} (followed : Followed after from_ pattern name)
    (enough : globWork after from_ pattern ≤ fuel) :
    globRounds fuel pattern name (some (after, from_)) = true ↔ ReadsBehind after from_ := by
  induction fuel generalizing after from_ pattern name with
  | zero =>
    cases name with
    | nil => rw [globRounds_nil, all_stars, readsBehind_nil followed]
    | cons c name =>
      have near := followed.name_behind.length_le
      have some_work : 1 ≤ from_.length * (after.length + 1) :=
        Nat.mul_pos (Nat.lt_of_lt_of_le (Nat.succ_pos _) near) (Nat.succ_pos _)
      unfold globWork at enough
      omega
  | succ fuel ih =>
    cases name with
    | nil => rw [globRounds_nil, all_stars, readsBehind_nil followed]
    | cons c name =>
      -- the last `*` takes one more character
      have retry (stuck : ¬Reads pattern (c :: name)) : ∃ e skipped, from_ = e :: skipped ∧
          (globRounds fuel after skipped (some (after, skipped)) = true ↔ ReadsBehind after from_) := by
        cases from_ with
        | nil => cases List.suffix_nil.mp followed.name_behind
        | cons e skipped =>
          have less := globWork_retry after skipped pattern e
          refine ⟨e, skipped, rfl, ?_⟩
          rw [ih (.start after skipped) (by omega)]
          exact readsBehind_retry followed stuck
      cases pattern with
      | nil =>
        obtain ⟨e, skipped, rfl, retried⟩ := retry (fun reads => by cases reads)
        exact retried
      | cons d pattern =>
        by_cases equal : d = '?' ∨ d = c
        · have less : globWork after from_ pattern ≤ fuel := by
            unfold globWork at enough ⊢
            rw [List.length_cons] at enough
            omega
          have passed := ih (followed.snoc equal) less
          simpa [globRounds, equal] using passed
        by_cases mark : d = '*'
        · subst mark
          have other : c ≠ '*' := fun same => equal (.inr same.symm)
          have less := globWork_commit followed
          have committed := ih (.start pattern (c :: name)) (by omega)
          rw [readsBehind_commit followed other] at committed
          simpa [globRounds, other.symm] using committed
        · obtain ⟨e, skipped, rfl, retried⟩ := retry (not_reads equal mark)
          simpa [globRounds, equal, mark] using retried

/-- Before any `*` the loop goes through pattern and name together. -/
theorem globRounds_none {fuel : Nat} (enough : name.length * (pattern.length + 1) + pattern.length + 1 ≤ fuel) :
    globRounds fuel pattern name none = true ↔ Reads pattern name := by
  induction fuel generalizing pattern name with
  | zero => exact absurd enough (Nat.not_succ_le_zero _)
  | succ fuel ih =>
    cases name with
    | nil => rw [globRounds_nil, all_stars]
    | cons c name =>
      cases pattern with
      | nil =>
        have stuck : ¬Reads [] (c :: name) := fun reads => by cases reads
        simp [globRounds, stuck]
      | cons d pattern =>
        simp only [List.length_cons] at enough
        by_cases equal : d = '?' ∨ d = c
        · have less : name.length * (pattern.length + 1) ≤ (name.length + 1) * (pattern.length + 1 + 1) :=
            Nat.mul_le_mul (Nat.le_succ _) (Nat.le_succ _)
          have passed : globRounds fuel pattern name none = true ↔ Reads pattern name :=
            ih (by omega)
          rw [reads_one equal]
          simpa [globRounds, equal] using passed
        · by_cases mark : d = '*'
          · subst mark
            have other : c ≠ '*' := fun same => equal (.inr same.symm)
            have less : (name.length + 1) * (pattern.length + 1) ≤
                (name.length + 1) * (pattern.length + 1 + 1) :=
              Nat.mul_le_mul (Nat.le_refl _) (Nat.le_succ _)
            have work : globWork pattern (c :: name) pattern ≤ fuel := by
              unfold globWork
              rw [List.length_cons]
              omega
            have committed := globRounds_star (.start pattern (c :: name)) work
            rw [reads_star other]
            simpa [globRounds, other.symm] using committed
          · simp [globRounds, equal, mark, not_reads equal mark]

end

/-- The names that `glob_match_ci` accepts. -/
theorem globMatchCi_iff :
    globMatchCi pattern name = true ↔ Reads (toAsciiLowercase pattern) (toAsciiLowercase name) := by
  refine globRounds_none ?_
  simp only [toAsciiLowercase, List.length_map]
  have rounds : (pattern.length + 2) * (name.length + 1) =
      name.length * (pattern.length + 1) + name.length + pattern.length + 2 := by
    rw [Nat.mul_comm, Nat.succ_mul, Nat.mul_succ]
    omega
  omega

/-! ## The language -/

variable {c d : Char} {pattern name : List Char}

/-- No letter folds to a character before the letters. -/
theorem toLower_mark (mark : d.val < 'A'.val) : c.toLower = d ↔ c = d := by
  have letter (letter : c.val ≥ 'A'.val ∧ c.val ≤ 'Z'.val) :
      c.val + ('a'.val - 'A'.val) ≠ d.val ∧ c.val ≠ d.val := by
    have first : ('A'.val).toNat = 65 := rfl
    have last : ('Z'.val).toNat = 90 := rfl
    have low := UInt32.lt_iff_toNat_lt.mp mark
    have above := UInt32.le_iff_toNat_le.mp letter.1
    have below := UInt32.le_iff_toNat_le.mp letter.2
    have moved : (c.val + ('a'.val - 'A'.val)).toNat = c.val.toNat + 32 := by
      rw [UInt32.toNat_add, show ('a'.val - 'A'.val).toNat = 32 from rfl]
      omega
    constructor
    · intro same
      have := congrArg UInt32.toNat same
      omega
    · intro same
      have := congrArg UInt32.toNat same
      omega
  unfold Char.toLower
  split
  next inside =>
    constructor
    · intro same
      exact absurd (congrArg Char.val same) (letter inside).1
    · intro same
      exact absurd (congrArg Char.val same) (letter inside).2
  next => exact Iff.rfl

theorem toLower_star : c.toLower = '*' ↔ c = '*' := toLower_mark (by decide)

theorem toLower_question : c.toLower = '?' ↔ c = '?' := toLower_mark (by decide)

def Passes (d c : Char) : Prop := d.toLower = '?' ∨ d.toLower = c.toLower

theorem passes_iff : Passes d c ↔ (d == '?' || d.toLower == c.toLower) = true := by
  simp [Passes, toLower_question]

theorem suffix_fold {later : List Char} (name : List Char) (behind : later <:+ toAsciiLowercase name) :
    ∃ end_, end_ <:+ name ∧ later = toAsciiLowercase end_ :=
  List.suffix_map_iff.mp behind |>.imp fun _ found => ⟨found.1, found.2⟩

theorem inLanguage_star : InLanguage ('*' :: pattern) name ↔ ∃ end_, end_ <:+ name ∧ InLanguage pattern end_ :=
  globMatches_star

theorem inLanguage_one (plain : d ≠ '*') :
    InLanguage (d :: pattern) name ↔ ∃ c rest, name = c :: rest ∧ Passes d c ∧ InLanguage pattern rest := by
  simp only [InLanguage, List.map_cons, globItem, plain, if_false, globMatches_one, passes_iff]

theorem Reads.inLanguage
    (reads : Reads (toAsciiLowercase pattern) (toAsciiLowercase name)) : InLanguage pattern name := by
  induction pattern generalizing name with
  | nil =>
    cases name with
    | nil => exact .nil
    | cons c name => cases reads
  | cons d pattern ih =>
    by_cases mark : d = '*'
    · subst mark
      rw [inLanguage_star]
      cases name with
      | nil =>
        have stars := reads_nil.mp reads
        exact ⟨[], List.suffix_refl _, ih (.done fun e listed => stars e (List.mem_cons_of_mem _ listed))⟩
      | cons c name =>
        by_cases same : c = '*'
        · subst same
          exact ⟨name, List.suffix_cons _ _, ih ((reads_one (.inr rfl)).mp reads)⟩
        have other : c.toLower ≠ '*' := fun star => same (toLower_star.mp star)
        obtain ⟨later, behind, rest⟩ := (reads_star other).mp reads
        obtain ⟨end_, inside, rfl⟩ := suffix_fold (c :: name) behind
        exact ⟨end_, inside, ih rest⟩
    · rw [inLanguage_one mark]
      have plain : d.toLower ≠ '*' := fun star => mark (toLower_star.mp star)
      cases name with
      | nil => exact absurd (reads_nil.mp reads _ (List.mem_cons_self ..)) plain
      | cons c name =>
        by_cases equal : Passes d c
        · exact ⟨c, name, rfl, equal, ih ((reads_one equal).mp reads)⟩
        · exact absurd reads (not_reads equal plain)

/-- The pattern goes through the name so that each `*` that comes to stand before a `*` of
the name stands for just that character. -/
def StarsAlone (pattern name : List Char) : Prop :=
  Reads (toAsciiLowercase pattern) (toAsciiLowercase name)

/-- The loop accepts the language at a pattern and a name exactly when a name of the
language is one where stars before stars can stand alone. -/
theorem glob_exact_iff (pattern name : List Char) :
    (globMatchCi pattern name = true ↔ InLanguage pattern name) ↔
      (InLanguage pattern name → StarsAlone pattern name) := by
  rw [globMatchCi_iff]
  constructor
  · exact fun exact_ => exact_.mpr
  · exact fun complete => ⟨Reads.inLanguage, complete⟩

/-- The `*` of the pattern is spent on the first character of the name. -/
theorem star_hides_name : ¬∀ pattern name, globMatchCi pattern name = true ↔ InLanguage pattern name := by
  intro exact_
  have matched : InLanguage ['*'] ['*', 'a'] := inLanguage_star.mpr ⟨[], List.nil_suffix, .nil⟩
  have accepted := (exact_ ['*'] ['*', 'a']).mpr matched
  exact absurd accepted (by decide)

end DuDuClaw.Fork
