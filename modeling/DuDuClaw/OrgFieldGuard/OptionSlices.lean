/-
# OrgFieldGuard.OptionSlices -- which words are cut

Options are told apart by the first two bytes of a word.  Where the second character is
longer than one byte the slice cuts it and the program stops.

* `splitOptions`, `prefixWords`, `xargsOptions`: the words read as options, told without
  a slice.
* `optionStep_eq_none_iff`: the words at which `skip_prefix_options` stops the program.
* `commandAndArgs_eq_none_iff`, `runsWriter_eq_none_iff`: and so for the functions that
  read options.
* `copyDestinations_isSome`: the slices after an option that is there are safe.
-/
import DuDuClaw.Lib.Fuel
import DuDuClaw.OrgFieldGuard.BashCommand

namespace DuDuClaw.OrgFieldGuard

open DuDuClaw.Lib

/-! ## Where a slice cuts a character -/

def multibyte (c : Char) : Bool := 1 < c.utf8Size

/-- A dash and then a character of several bytes. -/
def cutsOption : List Char → Bool
  | '-' :: c :: _ => multibyte c
  | _ => false

/-- The words at which `skip_prefix_options` cuts a character. -/
def cutsWord (name f : List Char) : Bool :=
  cutsOption f || (name == niceName && f.head?.any multibyte)

variable {c : Char} {f : List Char}

theorem multibyte_eq_false : multibyte c = false ↔ c.utf8Size = 1 := by
  have positive := c.utf8Size_pos
  rw [multibyte, decide_eq_false_iff_not]
  omega

theorem splitAtByte_one (c : Char) (s : List Char) :
    splitAtByte 1 (c :: s) = if multibyte c then none else some ([c], s) := by
  cases size : multibyte c with
  | true =>
    rw [multibyte, decide_eq_true_eq] at size
    rw [splitAtByte, if_neg (by omega)]
    rfl
  | false =>
    rw [multibyte_eq_false] at size
    rw [splitAtByte, if_pos (by omega), size]
    simp [splitAtByte]

theorem splitAtByte_two (c : Char) (s : List Char) :
    splitAtByte 2 ('-' :: c :: s) = if multibyte c then none else some (['-', c], s) := by
  have one : ('-' : Char).utf8Size = 1 := rfl
  rw [splitAtByte, if_pos (by omega), one, splitAtByte_one]
  cases multibyte c <;> rfl

theorem cutsOption_shape (cuts : cutsOption f) : ∃ c rest, f = '-' :: c :: rest ∧ multibyte c := by
  unfold cutsOption at cuts
  split at cuts
  · exact ⟨_, _, rfl, cuts⟩
  · cases cuts

/-- Every character of the word is one byte long. -/
def isAscii (w : List Char) : Bool := w.all fun c => c.utf8Size == 1

theorem cutsOption_of_ascii (ascii : isAscii f) : cutsOption f = false := by
  rw [Bool.eq_false_iff]
  intro cuts
  obtain ⟨c, rest, rfl, many⟩ := cutsOption_shape cuts
  simp only [isAscii, List.all_cons, Bool.and_eq_true, beq_iff_eq] at ascii
  rw [multibyte, decide_eq_true_eq] at many
  omega

theorem prefixSpecs_ascii : (prefixSpecs.all fun entry =>
    entry.2.value.all isAscii && entry.2.plain.all isAscii && entry.2.dest.all isAscii &&
      entry.2.strict.all isAscii) = true := by
  simp [prefixSpecs, table, noOptions, isAscii, Char.utf8Size]

/-- The words of the tables are cut nowhere. -/
theorem prefixSpec_ascii (name : List Char) :
    (prefixSpec name).value.all isAscii ∧ (prefixSpec name).plain.all isAscii ∧
      (prefixSpec name).dest.all isAscii ∧ (prefixSpec name).strict.all isAscii := by
  unfold prefixSpec
  cases found : prefixSpecs.lookup name with
  | none => exact ⟨rfl, rfl, rfl, rfl⟩
  | some spec =>
    obtain ⟨front, back, shape, -⟩ := List.lookup_eq_some_iff.mp found
    have listed : (name, spec) ∈ prefixSpecs := by simp [shape]
    have ascii := List.all_eq_true.mp prefixSpecs_ascii _ listed
    simp only [Bool.and_eq_true] at ascii
    exact ⟨ascii.1.1.1, ascii.1.1.2, ascii.1.2, ascii.2⟩

theorem not_contains_of_cuts {words : List (List Char)} (ascii : words.all isAscii)
    (cuts : cutsOption f) : words.contains f = false := by
  rw [Bool.eq_false_iff, ne_eq, List.contains_iff_mem]
  intro listed
  rw [cutsOption_of_ascii (List.all_eq_true.mp ascii f listed)] at cuts
  cases cuts

/-! ## Options of a prefix -/

theorem parsesInt_head {s : List Char} (parses : parsesInt s) :
    ∃ c rest, s = c :: rest ∧ (c = '-' ∨ c.isDigit) := by
  cases s with
  | nil => cases parses
  | cons c rest =>
    refine ⟨c, rest, rfl, ?_⟩
    by_cases minus : c = '-'
    · exact .inl minus
    right
    unfold parsesInt at parses
    split at parses
    rename_i digits bound shape
    split at shape
    · rename_i inner same
      cases same
      exact absurd rfl minus
    · cases shape
      simp only [Bool.and_eq_true, List.all_cons] at parses
      exact parses.1.2.1

theorem isDigit_one (digit : c.isDigit) : multibyte c = false := by
  rw [multibyte_eq_false, Char.utf8Size]
  simp only [Char.isDigit, Bool.and_eq_true, decide_eq_true_eq] at digit
  have small : c.val ≤ 0x7F := UInt32.le_trans digit.2 (by decide)
  exact if_pos small

/-- A number after `nice` is written in characters of one byte. -/
theorem numericNice_spec (name f : List Char) :
    (numericNice name f = none ↔ name = niceName ∧ f.head?.any multibyte) ∧
      (numericNice name f = some true → cutsOption f = false) := by
  unfold numericNice
  by_cases called : name = niceName ∧ 1 < byteLength f
  · obtain ⟨rfl, long⟩ := called
    rw [if_pos (by simp [long])]
    cases f with
    | nil => simp at long
    | cons c rest =>
      rw [splitAtByte_one]
      cases many : multibyte c with
      | true => simp [many]
      | false =>
        refine ⟨by simp [many], ?_⟩
        intro numeric
        rw [Bool.eq_false_iff]
        intro cuts
        obtain ⟨d, tail, shape, wide⟩ := cutsOption_shape cuts
        cases shape
        have parses : parsesInt ((d :: tail).dropWhile (· == '+')) = true := by
          simpa using numeric
        by_cases plus : d = '+'
        · subst plus
          exact absurd wide (by decide)
        have stays : (d :: tail).dropWhile (· == '+') = d :: tail := by
          rw [List.dropWhile_cons_of_neg]
          simpa using plus
        rw [stays] at parses
        obtain ⟨e, more, first, kind⟩ := parsesInt_head parses
        cases first
        rcases kind with rfl | digit
        · exact absurd wide (by decide)
        · rw [isDigit_one digit] at wide
          cases wide
  · rw [if_neg (by simpa using called)]
    refine ⟨⟨nofun, ?_⟩, nofun⟩
    rintro ⟨same, wide⟩
    refine absurd ⟨same, ?_⟩ called
    cases f with
    | nil => cases wide
    | cons c rest =>
      have many : 1 < c.utf8Size := by simpa [multibyte] using wide
      rw [byteLength_cons]
      omega

theorem shortOptions_eq_none_iff (spec : PrefixSpec) (c : Char) (s : List Char)
    (rest : List (List Char)) (p : Parsed) :
    shortOptions spec ('-' :: c :: s) rest p = none ↔ multibyte c = true := by
  have dashed : multibyte '-' = false := rfl
  unfold shortOptions
  rw [splitAtByte_two, splitAtByte_one, dashed]
  cases multibyte c with
  | true => simp
  | false =>
    simp only [Bool.false_eq_true, if_false, Option.bind_some, iff_false]
    split <;> simp

theorem readOption_eq_none_iff {spec : PrefixSpec} (ascii : spec.value.all isAscii ∧
    spec.plain.all isAscii ∧ spec.dest.all isAscii ∧ spec.strict.all isAscii)
    (option : f.head? = some '-') (rest : List (List Char)) (p : Parsed) :
    readOption spec f rest p = none ↔ cutsOption f = true := by
  obtain ⟨value, -, dest, strict⟩ := ascii
  obtain ⟨tail, rfl⟩ : ∃ tail, f = '-' :: tail := by
    cases f with
    | nil => cases option
    | cons c tail => exact ⟨tail, by rw [Option.some.inj option]⟩
  cases tail with
  | nil =>
    have single : (decide (2 < byteLength ['-'])) = false := by decide
    unfold readOption cutsOption
    split
    · simp
    split
    · simp
    split
    · simp
    · rw [single]
      simp
  | cons c tail =>
    have size : byteLength ('-' :: c :: tail) = 1 + (c.utf8Size + byteLength tail) := rfl
    unfold readOption
    split
    · -- a long option: its second character is a dash
      rename_i long v found
      have dashed := (Option.filter_eq_some_iff.mp found).2
      have second : '-' = c := by simpa [dashDash, List.isPrefixOf] using dashed
      subst second
      have narrow : multibyte '-' = false := by decide
      simp [cutsOption, narrow]
    · split
      · rename_i listed
        have narrow := cutsOption_of_ascii (List.all_eq_true.mp strict _
          (List.contains_iff_mem.mp listed))
        simp [narrow]
      split
      · rename_i listed
        have narrow : cutsOption ('-' :: c :: tail) = false := by
          rw [Bool.or_eq_true, List.contains_iff_mem, List.contains_iff_mem] at listed
          rcases listed with valued | destined
          · exact cutsOption_of_ascii (List.all_eq_true.mp value _ valued)
          · exact cutsOption_of_ascii (List.all_eq_true.mp dest _ destined)
        simp [narrow]
      · split
        · exact shortOptions_eq_none_iff spec c tail rest p
        rename_i other
        have narrow : cutsOption ('-' :: c :: tail) = false := by
          rw [Bool.eq_false_iff]
          intro wide
          refine other ?_
          have many : 1 < c.utf8Size := by simpa [cutsOption, multibyte] using wide
          have second : c ≠ '-' := by
            rintro rfl
            exact absurd many (by decide)
          rw [Bool.and_eq_true, decide_eq_true_eq, size]
          refine ⟨by omega, ?_⟩
          simp [dashDash, List.isPrefixOf, Ne.symm second]
        simp [narrow]

/-- **Where a round cuts a character.** -/
theorem optionStep_eq_none_iff (name f : List Char) (rest : List (List Char)) (p : Parsed) :
    optionStep name f rest p = none ↔ cutsWord name f = true := by
  obtain ⟨ofNone, ofTrue⟩ := numericNice_spec name f
  have wide : cutsWord name f = true ↔
      cutsOption f = true ∨ (name = niceName ∧ f.head?.any multibyte = true) := by
    simp [cutsWord]
  rw [wide]
  unfold optionStep
  dsimp only
  split
  · rename_i last
    rw [beq_iff_eq] at last
    subst last
    have narrow : cutsOption dashDash = false ∧ dashDash.head?.any multibyte = false := by decide
    simp [narrow]
  split
  · rename_i cut
    simp [ofNone.mp cut]
  rename_i numeric number
  have narrow : ¬ (name = niceName ∧ f.head?.any multibyte = true) := by
    intro cut
    rw [ofNone.mpr cut] at number
    cases number
  rw [or_iff_left narrow]
  split
  · rename_i stops
    have short : cutsOption f = false := by
      rw [Bool.eq_false_iff]
      intro cut
      obtain ⟨c, tail, rfl, -⟩ := cutsOption_shape cut
      simp [dash] at stops
    simp [short]
  · rename_i goesOn
    have option : f.head? = some '-' := by
      by_contra other
      exact goesOn (by simp [other])
    split
    · rename_i plain
      have short : cutsOption f = false := by
        rw [Bool.or_eq_true] at plain
        rcases plain with rfl | listed
        · exact ofTrue number
        · rw [List.contains_iff_mem] at listed
          exact cutsOption_of_ascii
            (List.all_eq_true.mp (prefixSpec_ascii name).2.1 _ listed)
      simp [short]
    · exact readOption_eq_none_iff (prefixSpec_ascii name) option rest p

/-! ## The words read as options -/

def endsOptions (spec : PrefixSpec) (f : List Char) : Bool :=
  f == dashDash || f.head? != some '-' || (f == dash && !spec.plain.contains dash)

/-- The option has its value in the next word. -/
def takesNext (spec : PrefixSpec) (f : List Char) : Bool :=
  !spec.plain.contains f && !(dashDash.isPrefixOf f && f.contains '=') &&
    (spec.strict.contains f || spec.value.contains f || spec.dest.contains f)

/-- The words read as options of the prefix `name`, and the words after them. -/
def splitOptions (name : List Char) :
    Nat → List (List Char) → List (List Char) × List (List Char)
  | fuel + 1, f :: rest =>
    let spec := prefixSpec name
    if endsOptions spec f then ([f], if f == dashDash then rest else f :: rest)
    else
      let later := splitOptions name fuel (if takesNext spec f then rest.tail else rest)
      (f :: later.1, later.2)
  | _, words => ([], words)

def prefixWords : Nat → List (List Char) → List (List Char × List Char)
  | fuel + 1, w :: rest =>
    if isAssignment w then prefixWords fuel rest
    else if prefixCommands.contains (baseName w) then
      if baseName w == commandName && rest.head?.any isVersionQuery then []
      else
        let parts := splitOptions (baseName w) rest.length rest
        parts.1.map (fun f => (baseName w, f)) ++
          prefixWords fuel (parts.2.drop (prefixSpec (baseName w)).positionals)
    else []
  | _, _ => []

/-- A word of the command is cut where it is read as an option of a prefix. -/
def cutsCommand (words : List (List Char)) : Bool :=
  (prefixWords words.length words).any fun read => cutsWord read.1 read.2

variable {f : List Char} {rest : List (List Char)} {p : Parsed} {round : OptionStep}

variable {spec : PrefixSpec} {name : List Char} {fuel : Nat} {words : List (List Char)}

theorem not_numericNice (taken : takesNext (prefixSpec niceName) f) : numericNice niceName f = some false := by
  have listed : f = "-n".toList ∨ f = "--adjustment".toList := by
    have value : (prefixSpec niceName).value = table ["-n", "--adjustment"] := by decide
    have strict : (prefixSpec niceName).strict = [] := by decide
    have dest : (prefixSpec niceName).dest = [] := by decide
    rw [takesNext, value, strict, dest, Bool.and_eq_true] at taken
    simpa [table] using taken.2
  rcases listed with rfl | rfl <;> decide

theorem splitEquals_filter (f : List Char) : ((splitEquals f).filter fun _ => dashDash.isPrefixOf f).isSome =
      (dashDash.isPrefixOf f && f.contains '=') := by
  unfold splitEquals
  cases dashDash.isPrefixOf f <;> cases f.contains '=' <;> simp

theorem shortOptions_shape (goes : shortOptions spec f rest p = some round) : ∃ q, round = .next rest q := by
  unfold shortOptions at goes
  obtain ⟨cut, -, goes⟩ := Option.bind_eq_some_iff.mp goes
  split at goes
  · exact ⟨_, (Option.some.inj goes).symm⟩
  · obtain ⟨flags, -, rfl⟩ := Option.map_eq_some_iff.mp goes
    split <;> exact ⟨_, rfl⟩

theorem readOption_shape (goes : readOption spec f rest p = some round)
    (other : spec.plain.contains f = false) :
    ∃ q, round = .next (if takesNext spec f then rest.tail else rest) q := by
  have long := splitEquals_filter f
  unfold readOption at goes
  split at goes
  · rename_i found
    rw [found, Option.isSome_some] at long
    have single : takesNext spec f = false := by
      rw [takesNext, ← long]
      simp
    rw [single]
    exact ⟨_, (Option.some.inj goes).symm⟩
  · rename_i missing
    rw [missing, Option.isSome_none] at long
    have valued : takesNext spec f =
        (spec.strict.contains f || (spec.value.contains f || spec.dest.contains f)) := by
      rw [takesNext, other, ← long, Bool.or_assoc]
      simp
    rw [valued]
    split at goes
    · rename_i listed
      rw [listed]
      exact ⟨_, (Option.some.inj goes).symm⟩
    rename_i notStrict
    rw [Bool.not_eq_true] at notStrict
    rw [notStrict, Bool.false_or]
    split at goes
    · rename_i listed
      rw [listed]
      exact ⟨_, (Option.some.inj goes).symm⟩
    rename_i unlisted
    rw [Bool.not_eq_true] at unlisted
    rw [unlisted]
    split at goes
    · exact shortOptions_shape goes
    · exact ⟨_, (Option.some.inj goes).symm⟩

/-- What a round that cuts no character leaves. -/
theorem optionStep_shape (goes : optionStep name f rest p = some round) :
    if endsOptions (prefixSpec name) f then
      round = .done (if f == dashDash then rest else f :: rest)
    else ∃ q, round = .next (if takesNext (prefixSpec name) f then rest.tail else rest) q := by
  unfold optionStep at goes
  dsimp only at goes
  cases last : f == dashDash with
  | true =>
    rw [last] at goes
    simp only [endsOptions, last, Bool.true_or, if_true]
    exact (Option.some.inj goes).symm
  | false =>
    rw [last] at goes
    simp only [Bool.false_eq_true, if_false] at goes ⊢
    cases number : numericNice name f with
    | none =>
      rw [number] at goes
      cases goes
    | some numeric =>
      rw [number] at goes
      cases stops : f.head? != some '-' || (f == dash && !(prefixSpec name).plain.contains dash) with
      | true =>
        rw [stops] at goes
        have ends : endsOptions (prefixSpec name) f = true := by
          rw [endsOptions, Bool.or_assoc, stops, Bool.or_true]
        rw [ends]
        exact (Option.some.inj goes).symm
      | false =>
        rw [stops] at goes
        have goesOn : endsOptions (prefixSpec name) f = false := by
          rw [endsOptions, Bool.or_assoc, stops, last, Bool.or_false]
        rw [goesOn]
        simp only [Bool.false_eq_true, if_false] at goes ⊢
        split at goes
        · rename_i plain
          have single : takesNext (prefixSpec name) f = false := by
            rw [Bool.eq_false_iff]
            intro taken
            rw [Bool.or_eq_true] at plain
            rcases plain with rfl | listed
            · -- only after `nice` a word counts as a number
              have called : name = niceName := by
                by_contra other
                simp [numericNice, other] at number
              subst called
              rw [not_numericNice taken] at number
              cases number
            · rw [takesNext, listed] at taken
              cases taken
          rw [single]
          exact ⟨p, (Option.some.inj goes).symm⟩
        · rename_i other
          rw [Bool.or_eq_true, not_or, Bool.not_eq_true, Bool.not_eq_true] at other
          exact readOption_shape goes other.2

/-- **Where the loop over the options cuts a character**, and what it leaves else. -/
theorem skipOptions_spec (name : List Char) (fuel : Nat) (words : List (List Char)) (p : Parsed) :
    if (splitOptions name fuel words).1.any (cutsWord name) then skipOptions name fuel words p = none
    else ∃ q, skipOptions name fuel words p = some ((splitOptions name fuel words).2, q) := by
  induction fuel generalizing words p with
  | zero => exact ⟨p, rfl⟩
  | succ fuel ih =>
    cases words with
    | nil => exact ⟨p, rfl⟩
    | cons f rest =>
      have cuts := optionStep_eq_none_iff name f rest p
      cases round : optionStep name f rest p with
      | none =>
        have cut : cutsWord name f = true := cuts.mp round
        have first : (splitOptions name (fuel + 1) (f :: rest)).1.any (cutsWord name) = true := by
          rw [splitOptions]
          split <;> simp [cut]
        rw [first, skipOptions, round]
        rfl
      | some round' =>
        have narrow : cutsWord name f = false := by
          rw [Bool.eq_false_iff]
          intro cut
          rw [cuts.mpr cut] at round
          cases round
        have shape := optionStep_shape round
        rw [skipOptions, round, splitOptions]
        cases ends : endsOptions (prefixSpec name) f with
        | true =>
          rw [ends] at shape
          simp only [if_true] at shape ⊢
          subst shape
          simp [narrow]
        | false =>
          rw [ends] at shape
          simp only [Bool.false_eq_true, if_false] at shape ⊢
          obtain ⟨q, rfl⟩ := shape
          have later := ih (if takesNext (prefixSpec name) f then rest.tail else rest) q
          simpa [narrow] using later

/-! ## Enough rounds -/

theorem splitOptions_length (name : List Char) (fuel : Nat) (words : List (List Char)) :
    (splitOptions name fuel words).2.length ≤ words.length := by
  induction fuel generalizing words with
  | zero => exact Nat.le_refl _
  | succ fuel ih =>
    cases words with
    | nil => exact Nat.le_refl _
    | cons f rest =>
      rw [splitOptions]
      dsimp only
      split
      · split <;> simp
      have shorter := ih (if takesNext (prefixSpec name) f then rest.tail else rest)
      have taken : (if takesNext (prefixSpec name) f then rest.tail else rest).length ≤ rest.length := by
        split <;> simp
      rw [List.length_cons]
      dsimp only
      omega

/-- More rounds than words change nothing. -/
theorem skipOptions_fuel (name : List Char) (enough : words.length ≤ fuel) (p : Parsed) :
    skipOptions name fuel words p = skipOptions name words.length words p := by
  have same := fuel_eq_size (skipOptions name) List.length
    (fun words empty fuel fuel' => ?_) (fun words fuel fuel' smaller => ?_) enough
  · exact congrFun same p
  · obtain rfl := List.length_eq_zero_iff.mp empty
    cases fuel <;> cases fuel' <;> rfl
  · funext p
    cases words with
    | nil => rfl
    | cons f rest =>
      rw [skipOptions, skipOptions]
      cases round : optionStep name f rest p with
      | none => rfl
      | some round' =>
        cases round' with
        | done rest' => rfl
        | next rest' q =>
          have shape := optionStep_shape round
          have shorter : rest'.length ≤ rest.length := by
            split at shape
            · cases shape
            · obtain ⟨q, same⟩ := shape
              cases same
              split <;> simp
          exact congrFun (smaller rest' (Nat.lt_succ_of_le shorter)) q

theorem skipPrefixOptions_length {q : Parsed}
    (skipped : skipPrefixOptions name words p = some (rest, q)) : rest.length ≤ words.length := by
  obtain ⟨⟨after, q'⟩, found, same⟩ := Option.map_eq_some_iff.mp skipped
  cases same
  have spec := skipOptions_spec name words.length words p
  have shorter := splitOptions_length name words.length words
  split at spec
  · rw [spec] at found
    cases found
  obtain ⟨q', same⟩ := spec
  rw [same] at found
  cases found
  rw [List.length_drop]
  dsimp only
  omega

theorem commandLoop_fuel (enough : words.length ≤ fuel)
    (p : Parsed) : commandLoop fuel words p = commandLoop words.length words p := by
  have same := fuel_eq_size commandLoop List.length
    (fun words empty fuel fuel' => ?_) (fun words fuel fuel' smaller => ?_) enough
  · exact congrFun same p
  · obtain rfl := List.length_eq_zero_iff.mp empty
    cases fuel <;> cases fuel' <;> rfl
  · funext p
    cases words with
    | nil => rfl
    | cons w rest =>
      -- both sides go on with a list no longer than `rest`
      have goesOn : ∀ later : List (List Char), later.length ≤ rest.length → ∀ q,
          commandLoop fuel later q = commandLoop fuel' later q :=
        fun later shorter => congrFun (smaller later (Nat.lt_succ_of_le shorter))
      rw [commandLoop, commandLoop, goesOn rest (Nat.le_refl _) p]
      cases skipped : skipPrefixOptions (baseName w) rest p with
      | none => rfl
      | some after =>
        obtain ⟨later, q⟩ := after
        dsimp only
        rw [goesOn later (skipPrefixOptions_length skipped) q]

/-! ## The command -/

theorem commandLoop_eq_none_iff (fuel : Nat) (words : List (List Char)) (p : Parsed) :
    commandLoop fuel words p = none ↔
      ((prefixWords fuel words).any fun read => cutsWord read.1 read.2) = true := by
  induction fuel generalizing words p with
  | zero => simp [commandLoop, prefixWords]
  | succ fuel ih =>
    cases words with
    | nil => simp [commandLoop, prefixWords]
    | cons w rest =>
      rw [commandLoop, prefixWords]
      by_cases assigned : isAssignment w
      · rw [if_pos assigned, if_pos assigned]
        exact ih rest p
      rw [if_neg assigned, if_neg assigned]
      by_cases called : prefixCommands.contains (baseName w)
      · rw [if_pos called, if_pos called]
        by_cases query : baseName w == commandName && rest.head?.any isVersionQuery
        · rw [if_pos query, if_pos query]
          simp
        rw [if_neg query, if_neg query, List.any_append, Bool.or_eq_true, List.any_map]
        have options := skipOptions_spec (baseName w) rest.length rest p
        rw [skipPrefixOptions]
        split at options
        · rename_i cut
          rw [options]
          simp only [Option.map_none, true_iff]
          exact .inl cut
        rename_i narrow
        obtain ⟨q, skipped⟩ := options
        rw [skipped]
        simp only [Option.map_some, ih]
        constructor
        · exact .inr
        · rintro (cut | later)
          · exact absurd cut narrow
          · exact later
      · rw [if_neg called, if_neg called]
        simp

/-- **Where `command_and_args` cuts a character.** -/
theorem commandAndArgs_eq_none_iff (words : List (List Char)) :
    commandAndArgs words = none ↔ cutsCommand words = true :=
  commandLoop_eq_none_iff words.length words _

/-! ## The words read as options of `xargs` -/

/-- The words after the option, or `none` when `runs_writer` gives up at it. -/
def xargsNext (a : List Char) (rest : List (List Char)) : Option (List (List Char)) :=
  if xargsPlain.contains a || (dashDash.isPrefixOf a && a.contains '=') then some rest
  else if xargsValue.contains a then some rest.tail
  else if xargsValue.contains (a.take 2) then some rest
  else none

/-- The words read as options of `xargs`, and the command after them, if it is reached. -/
def xargsOptions : Nat → List (List Char) → List (List Char) × Option (List (List Char))
  | fuel + 1, a :: rest =>
    if a.head? != some '-' then ([], some (a :: rest))
    else
      match xargsNext a rest with
      | none => ([a], none)
      | some rest =>
        let later := xargsOptions fuel rest
        (a :: later.1, later.2)
  | _, words => ([], some words)

/-- A word behind `xargs` is cut. -/
def cutsXargs (args : List (List Char)) : Bool :=
  let parts := xargsOptions args.length args
  parts.1.any cutsOption || parts.2.any cutsCommand

theorem xargs_ascii : xargsPlain.all isAscii ∧ xargsValue.all isAscii := by
  decide

/-- One round: where it cuts, and what it leaves else. -/
theorem xargsStep_spec {a : List Char} (option : a.head? = some '-') (rest : List (List Char)) :
    if cutsOption a then xargsStep a rest = none
    else
      xargsStep a rest = some (match xargsNext a rest with
        | none => .unknown
        | some rest => .next rest) := by
  obtain ⟨tail, rfl⟩ : ∃ tail, a = '-' :: tail := by
    cases a with
    | nil => cases option
    | cons c tail => exact ⟨tail, by rw [Option.some.inj option]⟩
  cases tail with
  | nil =>
    show xargsStep ['-'] rest = some .unknown
    rfl
  | cons c tail =>
    have starts : (('-' :: c :: tail).head? != some '-') = false := by simp
    have size : byteLength ('-' :: c :: tail) = 1 + (c.utf8Size + byteLength tail) := rfl
    rw [xargsStep, starts, splitAtByte_two, xargsNext]
    simp only [Bool.false_eq_true, if_false]
    cases wide : multibyte c with
    | true =>
      have cut : cutsOption ('-' :: c :: tail) = true := wide
      have long : 2 < byteLength ('-' :: c :: tail) := by
        rw [multibyte, decide_eq_true_eq] at wide
        rw [size]
        omega
      have second : dashDash.isPrefixOf ('-' :: c :: tail) = false := by
        have other : c ≠ '-' := by
          rintro rfl
          exact absurd wide (by decide)
        simp [dashDash, List.isPrefixOf, Ne.symm other]
      rw [not_contains_of_cuts xargs_ascii.1 cut, not_contains_of_cuts xargs_ascii.2 cut,
        second, cut, if_pos long]
      rfl
    | false =>
      have narrow : cutsOption ('-' :: c :: tail) = false := wide
      rw [narrow]
      simp only [Bool.false_eq_true, if_false]
      by_cases plain : xargsPlain.contains ('-' :: c :: tail) ||
          (dashDash.isPrefixOf ('-' :: c :: tail) && ('-' :: c :: tail).contains '=')
      · rw [if_pos plain, if_pos plain]
      rw [if_neg plain, if_neg plain]
      by_cases valued : xargsValue.contains ('-' :: c :: tail)
      · rw [if_pos valued, if_pos valued]
      rw [if_neg valued, if_neg valued]
      have front : ('-' :: c :: tail).take 2 = ['-', c] := rfl
      rw [front]
      by_cases long : 2 < byteLength ('-' :: c :: tail)
      · rw [if_pos long, Option.map_some]
        split <;> rfl
      -- the word is the option itself
      have whole : tail = [] := by
        cases tail with
        | nil => rfl
        | cons d more =>
          have first := c.utf8Size_pos
          have second := d.utf8Size_pos
          rw [size, byteLength_cons] at long
          omega
      subst whole
      rw [if_neg long, if_neg valued]

theorem skipXargs_spec (fuel : Nat) (args : List (List Char)) :
    if (xargsOptions fuel args).1.any cutsOption then skipXargs fuel args = none
    else skipXargs fuel args = some (xargsOptions fuel args).2 := by
  induction fuel generalizing args with
  | zero => rfl
  | succ fuel ih =>
    cases args with
    | nil => rfl
    | cons a rest =>
      rw [skipXargs, xargsOptions]
      by_cases option : a.head? = some '-'
      · have round := xargsStep_spec option rest
        have starts : (a.head? != some '-') = false := by simp [option]
        rw [starts]
        simp only [Bool.false_eq_true, if_false]
        cases cut : cutsOption a with
        | true =>
          rw [cut, if_pos rfl] at round
          rw [round]
          cases xargsNext a rest with
          | none | some rest => simp [cut]
        | false =>
          rw [cut, if_neg Bool.false_ne_true] at round
          rw [round]
          cases xargsNext a rest with
          | none => simp [cut]
          | some rest => simpa [cut] using ih rest
      · have starts : (a.head? != some '-') = true := by simpa using option
        have round : xargsStep a rest = some (.command (a :: rest)) := by
          rw [xargsStep, if_pos starts]
        rw [round, starts]
        rfl

theorem skipXargs_fuel {args : List (List Char)} (enough : args.length ≤ fuel) :
    skipXargs fuel args = skipXargs args.length args := by
  refine fuel_eq_size skipXargs List.length (fun args empty fuel fuel' => ?_)
    (fun args fuel fuel' smaller => ?_) enough
  · obtain rfl := List.length_eq_zero_iff.mp empty
    cases fuel <;> cases fuel' <;> rfl
  · cases args with
    | nil => rfl
    | cons a rest =>
      rw [skipXargs, skipXargs]
      cases round : xargsStep a rest with
      | none => rfl
      | some round' =>
        cases round' with
        | command words | unknown => rfl
        | next later =>
          have shorter : later.length ≤ rest.length := by
            unfold xargsStep at round
            split_ifs at round
            · cases round
            · cases round
              exact Nat.le_refl _
            · cases round
              simp
            · obtain ⟨cut, -, same⟩ := Option.map_eq_some_iff.mp round
              split at same
              · cases same
                exact Nat.le_refl _
              · cases same
            · cases round
          exact smaller later (Nat.lt_succ_of_le shorter)

/-- **Where `runs_writer` cuts a character.** -/
theorem runsWriter_eq_none_iff (cmd : List Char) (args : List (List Char)) :
    runsWriter cmd args = none ↔ cmd ≠ parallelName ∧ cutsXargs args = true := by
  have options := skipXargs_spec args.length args
  rw [runsWriter, cutsXargs]
  by_cases parallel : cmd = parallelName
  · rw [if_pos (by simpa using parallel)]
    simp [parallel]
  rw [if_neg (by simpa using parallel)]
  simp only [ne_eq, parallel, not_false_eq_true, true_and]
  cases cut : (xargsOptions args.length args).1.any cutsOption with
  | true =>
    rw [cut, if_pos rfl] at options
    rw [options]
    simp
  | false =>
    rw [cut, if_neg Bool.false_ne_true] at options
    rw [options, Bool.false_or]
    cases (xargsOptions args.length args).2 with
    | none => simp
    | some words =>
      simp only [Option.map_eq_none_iff, Option.any_some]
      exact commandAndArgs_eq_none_iff words

/-! ## Destinations are never cut -/

/-- The slice after a flag of two bytes that the word begins with. -/
theorem flagValue_isSome (a : List Char) (next : Option (List Char)) (f : List Char) :
    (flagValue a next f).isSome := by
  unfold flagValue
  split
  · rfl
  split
  · rfl
  split
  · rename_i found
    simp only [Bool.and_eq_true, beq_iff_eq, List.isPrefixOf_iff_prefix] at found
    obtain ⟨⟨⟨two, back, rfl⟩, -⟩, -⟩ := found
    rw [← two, splitAtByte_append]
    rfl
  · rfl

theorem flagValues_isSome (flags args : List (List Char)) : (flagValues flags args).isSome := by
  have all : ∀ a next, (flags.mapM (flagValue a next)).isSome := by
    intro a next
    clear args
    induction flags with
    | nil => rfl
    | cons f flags ih =>
      obtain ⟨value, found⟩ := Option.isSome_iff_exists.mp (flagValue_isSome a next f)
      obtain ⟨values, others⟩ := Option.isSome_iff_exists.mp ih
      simp [found, others]
  induction args with
  | nil => rfl
  | cons a rest ih =>
    obtain ⟨values, found⟩ := Option.isSome_iff_exists.mp (all a rest.head?)
    obtain ⟨later, others⟩ := Option.isSome_iff_exists.mp ih
    simp [flagValues, found, others]

/-- **`copy_destinations` cuts nothing.** -/
theorem copyDestinations_isSome (cmd : List Char) (args : List (List Char)) :
    (copyDestinations cmd args).isSome := by
  have values := fun flags => Option.isSome_iff_exists.mp (flagValues_isSome flags args)
  obtain ⟨out, found⟩ := values (table ["-t", "--target-directory"])
  rw [copyDestinations, found, Option.bind_some]
  split_ifs
  · rfl
  · simp [flagValues_isSome]
  · simp [flagValues_isSome]
  · simp [flagValues_isSome]
  · simp [flagValues_isSome]
  · rfl
  · rfl

end DuDuClaw.OrgFieldGuard
