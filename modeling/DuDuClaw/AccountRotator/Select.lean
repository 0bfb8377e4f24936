/-
# AccountRotator.Select -- the choice of an account

select.rs with the pool matching of load.rs.  A selection reads the accounts as they
stand under their lock; the round-robin index is one for all providers.

* `roundRobin_eq`: a round-robin selection is a turn of one shared cursor.
* `rotation_fair_iff`: rotation is fair for a provider, in every interleaving, exactly when
  the provider has the cursor for itself.
-/
import DuDuClaw.AccountRotator.Types
import DuDuClaw.Lib.RoundRobin
import Mathlib.Data.List.MinMax
import Mathlib.Data.List.Perm.Subperm

namespace DuDuClaw.AccountRotator

open DuDuClaw.Lib

/-! ## The account pool -/

/-- An account with the texts that an agent's `account_pool` may name it by. -/
structure PoolAccount extends Account where
  label : Text
  tags : List Text

def hasPoolEntries (pool : List Text) : Bool := pool.any fun entry => !(trim entry).isEmpty

def accountInPool (account : PoolAccount) (pool : List Text) : Bool :=
  pool.any fun entry =>
    let entry := trim entry
    if entry.isEmpty then false
    else if eqIgnoreAsciiCase entry (trim account.id) then true
    else
      let label := trim account.label
      if !label.isEmpty && eqIgnoreAsciiCase entry label then true
      else account.tags.any fun tag => !(trim tag).isEmpty && eqIgnoreAsciiCase entry (trim tag)

inductive PoolNarrowing where
  | notRequested
  | applied (accounts : List PoolAccount)
  /-- The pool names no available account: the candidates stay as they are. -/
  | failedOpen

def narrowByPool (available : List PoolAccount) (pool : List Text) : PoolNarrowing :=
  if available.isEmpty || !hasPoolEntries pool then .notRequested
  else
    let filtered := available.filter (accountInPool · pool)
    if filtered.isEmpty then .failedOpen else .applied filtered

/-! ## One selection -/

inductive RotationStrategy where
  | roundRobin
  | leastCost
  | failover
  | priority

/-- What a selection reads: the request, the accounts and the inheritance policy published
with them, and the clock. -/
structure Selection where
  provider : Text
  pool : List Text
  exclude : List Text
  accounts : List PoolAccount
  inheritHostCredentials : Bool
  now : Time

/-- The environment that a caller gets: built from the account alone, or from a key of the
host's own environment. -/
inductive AccountEnv where
  | ofAccount (account : PoolAccount)
  | ofHost (provider key : Text)

def AccountEnv.id : AccountEnv → Text
  | .ofAccount account => account.id
  | .ofHost provider _ => provider ++ "-env".toList

namespace Selection

def available (s : Selection) : List PoolAccount :=
  s.accounts.filter fun a => a.provider == s.provider && a.isAvailable s.now

/-- What is left to choose from after the pool and the exclusions. -/
def candidates (s : Selection) : List PoolAccount :=
  let narrowed :=
    match narrowByPool s.available s.pool with
    | .notRequested | .failedOpen => s.available
    | .applied filtered => filtered
  if s.exclude.isEmpty then narrowed
  else narrowed.filter fun a => !s.exclude.any (· == a.id)

end Selection

/-- `last_used` as it is compared: never used comes first. -/
def Account.usedBefore (a b : Account) : Bool :=
  match a.lastUsed, b.lastUsed with
  | none, used => used.isSome
  | some _, none => false
  | some x, some y => x < y

/-- `min_by_key` on `last_used`: the first of the least. -/
def leastRecent : List PoolAccount → Option PoolAccount
  | [] => none
  | first :: rest =>
    some (rest.foldl (fun best a => if a.usedBefore best.toAccount then a else best) first)

/-- Subscriptions before keys, the least spent, and of these the least recently used
subscription. -/
def leastCost (available : List PoolAccount) : Option PoolAccount :=
  let oauth := available.filter fun a => a.authMethod == .oAuth
  if oauth.isEmpty then available.argmin (·.spentThisMonth)
  else
    let minSpent := ((oauth.map (·.spentThisMonth)).min?).getD 0
    leastRecent (oauth.filter fun a => a.spentThisMonth == minSpent)

/-- `select_for_provider_with_pool_excluding` with the round-robin index before and after.
`hostKey` is the first key that the host's environment has for a provider. -/
def selectForProviderWithPoolExcluding (hostKey : Text → Option Text) (strategy : RotationStrategy)
    (index : Nat) (s : Selection) : Option AccountEnv × Nat :=
  if s.candidates.isEmpty then
    if !(s.accounts.any fun a => a.provider == s.provider) && s.inheritHostCredentials then
      ((hostKey s.provider).map (.ofHost s.provider), index)
    else (none, index)
  else
    match strategy with
    | .priority | .failover => ((s.candidates.argmin (·.priority)).map .ofAccount, index)
    | .leastCost => ((leastCost s.candidates).map .ofAccount, index)
    | .roundRobin =>
      ((s.candidates[index % s.candidates.length]?).map .ofAccount,
        (index + 1) % s.candidates.length)

section RoundRobin

variable {hostKey : Text → Option Text} {index : Nat} {s : Selection}

/-- **A round-robin selection is a turn of the shared cursor**: it chooses what the cursor
picks of its candidates, and moves the index as a turn does. -/
theorem roundRobin_eq : (selectForProviderWithPoolExcluding hostKey .roundRobin index s).2 =
        (pick index s.candidates).2 ∧
      (s.candidates ≠ [] → (selectForProviderWithPoolExcluding hostKey .roundRobin index s).1 =
        (pick index s.candidates).1.map .ofAccount) := by
  unfold selectForProviderWithPoolExcluding pick
  cases s.candidates with
  | nil =>
    refine ⟨?_, fun some_ => absurd rfl some_⟩
    rw [if_pos List.isEmpty_nil, if_pos List.isEmpty_nil]
    split <;> rfl
  | cons first rest => exact ⟨rfl, fun _ => rfl⟩

/-! ## Runs -/

/-- The selections of a run with what they chose, from the given index. -/
def replay (hostKey : Text → Option Text) (strategy : RotationStrategy) :
    Nat → List Selection → List (Selection × Option AccountEnv)
  | _, [] => []
  | index, s :: rest =>
    (s, (selectForProviderWithPoolExcluding hostKey strategy index s).1) ::
      replay hostKey strategy (selectForProviderWithPoolExcluding hostKey strategy index s).2 rest

def choices (provider : Text) (log : List (Selection × Option AccountEnv)) : List (Option Text) :=
  (log.filter fun entry => entry.1.provider == provider).map fun entry => entry.2.map AccountEnv.id

/-- Every `n` consecutive choices for the provider are its `n` accounts. -/
def Fair (provider : Text) (ids : List Text) (log : List (Selection × Option AccountEnv)) : Prop :=
  ∀ front window back, choices provider log = front ++ window ++ back →
    window.length = ids.length → window.Perm (ids.map some)

/-- A selection of a whole provider pool: `select_for_provider`. -/
def Selection.Whole (s : Selection) : Prop := s.pool = [] ∧ s.exclude = []

def Selection.candidateIds (s : Selection) : List Text := s.candidates.map (·.id)

/-- Without a pool and exclusions the available accounts are the candidates. -/
theorem candidates_whole (whole : s.Whole) : s.candidates = s.available := by
  unfold Selection.candidates narrowByPool
  rw [whole.1, whole.2]
  simp [hasPoolEntries]

variable {p : Text} {calls front back : List Selection}

def indexAfter (index : Nat) (calls : List Selection) : Nat :=
  cursorAfter index (calls.map Selection.candidateIds)

theorem index_eq : (selectForProviderWithPoolExcluding hostKey .roundRobin index s).2 =
    (pick index s.candidateIds).2 := by
  rw [roundRobin_eq.1, Selection.candidateIds, pick_map]

theorem choices_cons (some_ : s.provider = p → 0 < s.candidateIds.length) :
    choices p (replay hostKey .roundRobin index (s :: calls)) =
      (if s.provider = p then [(pick index s.candidateIds).1] else []) ++
        choices p (replay hostKey .roundRobin (pick index s.candidateIds).2 calls) := by
  rw [replay, index_eq, choices, List.filter_cons]
  by_cases own : s.provider = p
  · have held : s.candidates ≠ [] := by
      intro empty
      simpa [Selection.candidateIds, empty] using some_ own
    rw [if_pos (beq_iff_eq.mpr own), if_pos own, List.map_cons, roundRobin_eq.2 held, Option.map_map,
      Selection.candidateIds, pick_map]
    rfl
  · rw [if_neg (mt beq_iff_eq.mp own), if_neg own]
    rfl

theorem choices_append (some_ : ∀ s ∈ front, s.provider = p → 0 < s.candidateIds.length) :
    choices p (replay hostKey .roundRobin index (front ++ back)) =
      choices p (replay hostKey .roundRobin index front) ++
        choices p (replay hostKey .roundRobin (indexAfter index front) back) := by
  induction front generalizing index with
  | nil => rfl
  | cons s rest ih =>
    have others := fun t listed => some_ t (List.mem_cons_of_mem s listed)
    have first := some_ s (List.mem_cons_self ..)
    rw [List.cons_append, choices_cons first, choices_cons first, ih others, List.append_assoc]
    rfl

theorem choices_own (own : ∀ s ∈ calls, s.provider = p) (some_ : ∀ s ∈ calls, 0 < s.candidateIds.length) :
    choices p (replay hostKey .roundRobin index calls) = picks index (calls.map Selection.candidateIds) := by
  induction calls generalizing index with
  | nil => rfl
  | cons s rest ih =>
    have listed : s ∈ s :: rest := List.mem_cons_self ..
    rw [choices_cons fun _ => some_ s listed, if_pos (own s listed),
      ih (fun t later => own t (List.mem_cons_of_mem s later))
        (fun t later => some_ t (List.mem_cons_of_mem s later))]
    rfl

theorem choices_others (others : ∀ s ∈ calls, s.provider ≠ p) :
    choices p (replay hostKey .roundRobin index calls) = [] := by
  induction calls generalizing index with
  | nil => rfl
  | cons s rest ih =>
    have other := others s (List.mem_cons_self ..)
    rw [choices_cons fun own => absurd own other, if_neg other,
      ih fun t later => others t (List.mem_cons_of_mem s later)]
    rfl

/-- Where no other selection has a candidate, the provider's selections are turns over its
own list. -/
theorem choices_alone {ids : List Text} (some_ : 0 < ids.length)
    (own : ∀ s ∈ calls, s.provider = p → s.candidateIds = ids)
    (others : ∀ s ∈ calls, s.provider ≠ p → s.candidateIds = []) :
    choices p (replay hostKey .roundRobin index calls) =
      picks index (List.replicate (calls.countP fun s => s.provider = p) ids) := by
  induction calls generalizing index with
  | nil => rfl
  | cons s rest ih =>
    have listed : s ∈ s :: rest := List.mem_cons_self ..
    have tail : ∀ i, choices p (replay hostKey .roundRobin i rest) = _ := fun i =>
      @ih i (fun t later => own t (List.mem_cons_of_mem s later))
        (fun t later => others t (List.mem_cons_of_mem s later))
    rw [choices_cons fun mine => by rw [own s listed mine]; exact some_, tail, List.countP_cons]
    by_cases mine : s.provider = p
    · simp only [mine, if_true, decide_true, List.replicate_succ, own s listed mine, picks,
        List.singleton_append]
    · simp only [mine, if_false, decide_false, Bool.false_eq_true, others s listed mine, pick_nil,
        List.nil_append, Nat.add_zero]

theorem choices_single {id : Text} (own : ∀ s ∈ calls, s.provider = p → s.candidateIds = [id]) :
    ∀ choice ∈ choices p (replay hostKey .roundRobin index calls), choice = some id := by
  induction calls generalizing index with
  | nil => exact List.forall_mem_nil _
  | cons s rest ih =>
    intro choice listed
    have mine : s.provider = p → s.candidateIds = [id] := own s (List.mem_cons_self ..)
    rw [choices_cons fun isOwn => by rw [mine isOwn]; exact Nat.one_pos] at listed
    rcases List.mem_append.mp listed with here | later
    · split at here
      · rename_i isOwn
        rw [mine isOwn, pick_some (by simp)] at here
        simpa [Nat.mod_one] using here
      · exact absurd here List.not_mem_nil
    · exact ih (fun t others => own t (List.mem_cons_of_mem s others)) choice later

/-! ## Deployments -/

variable {S : Selection → Prop} {ids : List Text}

/-- The selections that a deployment makes: the ones for `p` ask for no pool and exclude
nothing, and find the same accounts, in whatever order the account list has them. -/
structure Serves (S : Selection → Prop) (p : Text) (ids : List Text) : Prop where
  distinct : ids.Nodup
  whole : ∀ s, S s → s.provider = p → s.Whole
  fixed : ∀ s, S s → s.provider = p → (s.available.map (·.id)).Perm ids

/-- The provider has the cursor for itself: its accounts keep their order, and the
selections for other providers find no candidate. -/
def Alone (S : Selection → Prop) (p : Text) : Prop :=
  ∀ own, S own → own.provider = p → ∀ s, S s →
    if s.provider = p then s.candidateIds = own.candidateIds else s.candidateIds = []

theorem Serves.perm (serves : Serves S p ids) (allowed : S s)
    (own : s.provider = p) : s.candidateIds.Perm ids := by
  rw [Selection.candidateIds, candidates_whole (serves.whole s allowed own)]
  exact serves.fixed s allowed own

theorem fair_of_short (serves : Serves S p ids) (short : ids.length ≤ 1)
    (allowed : ∀ s ∈ calls, S s) : Fair p ids (replay hostKey .roundRobin index calls) := by
  intro front window back split size
  match ids, short with
  | [], _ => rw [List.eq_nil_of_length_eq_zero size]; exact List.Perm.nil
  | [id], _ =>
    obtain ⟨choice, rfl⟩ := List.length_eq_one_iff.mp size
    have listed : choice ∈ choices p (replay hostKey .roundRobin index calls) := by
      rw [split]
      simp
    have chosen : choice = some id := choices_single (fun s listed own =>
      List.perm_singleton.mp (serves.perm (allowed s listed) own)) choice listed
    rw [chosen]
    exact List.Perm.refl _

theorem fair_of_alone (serves : Serves S p ids) (long : 1 < ids.length) (alone : Alone S p)
    (allowed : ∀ s ∈ calls, S s) : Fair p ids (replay hostKey .roundRobin index calls) := by
  intro front window back split size
  by_cases asked : ∃ own ∈ calls, own.provider = p
  · obtain ⟨own, listed, isOwn⟩ := asked
    have order := serves.perm (allowed own listed) isOwn
    have some_ : 0 < own.candidateIds.length := by
      rw [order.length_eq]
      omega
    have turns := @choices_alone hostKey index p calls own.candidateIds some_
      (fun s other mine => by
        have held := alone own (allowed own listed) isOwn s (allowed s other)
        rwa [if_pos mine] at held)
      (fun s other mine => by
        have held := alone own (allowed own listed) isOwn s (allowed s other)
        rwa [if_neg mine] at held)
    -- the window is what one round picks, from wherever the cursor stood
    have cut : window = ((choices p (replay hostKey .roundRobin index calls)).drop
        front.length).take ids.length := by
      rw [split, List.append_assoc, List.drop_left, ← size, List.take_left]
    have fits : front.length + ids.length ≤ calls.countP fun s => s.provider = p := by
      have total := congrArg List.length split
      rw [turns, length_picks, List.length_replicate, List.length_append, List.length_append, size] at total
      omega
    have round : (List.replicate ((calls.countP fun s => s.provider = p) - front.length)
        own.candidateIds).take ids.length =
          List.replicate own.candidateIds.length own.candidateIds := by
      rw [List.take_replicate, Nat.min_eq_left (by omega), order.length_eq]
    rw [cut, turns, drop_picks, take_picks, List.drop_replicate, round]
    exact (picks_perm _ _).trans (order.map some)
  · have none_ : choices p (replay hostKey .roundRobin index calls) = [] :=
      choices_others fun s listed own => asked ⟨s, listed, own⟩
    rw [none_] at split
    have empty : window = [] := by
      have parts := List.append_eq_nil_iff.mp split.symm
      exact (List.append_eq_nil_iff.mp parts.1).2
    rw [empty, List.length_nil] at size
    omega

/-- A whole round of a fair run is the provider's accounts. -/
theorem Fair.round (fair : Fair p ids (replay hostKey .roundRobin index calls)) {round : List (Option Text)}
    (chosen : choices p (replay hostKey .roundRobin index calls) = round)
    (size : round.length = ids.length) : round.Perm (ids.map some) :=
  fair [] round [] (by rw [chosen]; simp) size

/-- Rounds with one selection exchanged for another show that both have one order. -/
theorem order_of_fair (serves : Serves S p ids)
    (fair : ∀ calls, (∀ s ∈ calls, S s) → Fair p ids (replay hostKey .roundRobin 0 calls))
    {own other : Selection} (first : S own) (second : S other) (isOwn : own.provider = p)
    (isOther : other.provider = p) : other.candidateIds = own.candidateIds := by
  have order := serves.perm first isOwn
  have order' := serves.perm second isOther
  have size : other.candidateIds.length = own.candidateIds.length := by
    rw [order.length_eq, order'.length_eq]
  refine List.ext_getElem size fun i within inside => ?_
  have some_ : 0 < own.candidateIds.length := Nat.zero_lt_of_lt inside
  have n_pos : 0 < other.candidateIds.length := size ▸ some_
  -- `own` for every turn but the one that would choose the `i`th account
  let calls := List.replicate i own ++ other :: List.replicate (own.candidateIds.length - 1 - i) own
  have listed : ∀ s ∈ calls, s = own ∨ s = other := by
    intro s at_
    simp only [calls, List.mem_append, List.mem_cons, List.mem_replicate] at at_
    grind
  have allowed : ∀ s ∈ calls, S s := fun s at_ => by
    rcases listed s at_ with rfl | rfl <;> assumption
  have chosen : choices p (replay hostKey .roundRobin 0 calls) =
      (own.candidateIds.set i other.candidateIds[i]).map some := by
    rw [choices_own (fun s at_ => by rcases listed s at_ with rfl | rfl <;> assumption)
      (fun s at_ => by rcases listed s at_ with rfl | rfl <;> assumption)]
    simp only [calls, List.map_append, List.map_cons, List.map_replicate]
    exact picks_exchanged size inside within
  have perm := (fair calls allowed).round chosen (by simp [order.length_eq])
  refine getElem_eq_of_set_perm (order.nodup_iff.mpr serves.distinct) inside ?_
  have plain : (own.candidateIds.set i other.candidateIds[i]).Perm ids :=
    (List.map_perm_map_iff (Option.some_injective Text)).mp perm
  exact plain.trans order.symm

/-- From the start of the cursor, one selection again and again goes along its list. -/
theorem choices_repeated (own : s.provider = p) (some_ : 0 < s.candidateIds.length) {m : Nat}
    (fits : m ≤ s.candidateIds.length) : choices p (replay hostKey .roundRobin 0 (List.replicate m s)) =
      (s.candidateIds.take m).map some := by
  have turns : choices p (replay hostKey .roundRobin 0 (List.replicate m s)) =
      picks 0 (List.replicate m s.candidateIds) := by
    rw [choices_own (fun t listed => by rw [List.eq_of_mem_replicate listed]; exact own)
      (fun t listed => by rw [List.eq_of_mem_replicate listed]; exact some_), List.map_replicate]
  rw [turns, ← Nat.zero_mod s.candidateIds.length, picks_stretch some_ (by omega), List.drop_zero]

/-- A list of two or more cannot start anew after its first entry. -/
theorem not_nodup_restart (long : 1 < ids.length) : ¬(ids.take 1 ++ ids.take (ids.length - 1)).Nodup := by
  intro distinct
  have some_ : 0 < ids.length := by omega
  have first : ids[0] ∈ ids.take 1 := List.mem_take_iff_getElem.mpr ⟨0, by omega, rfl⟩
  have again : ids[0] ∈ ids.take (ids.length - 1) :=
    List.mem_take_iff_getElem.mpr ⟨0, by omega, rfl⟩
  exact (List.nodup_append.mp distinct).2.2 _ first _ again rfl

/-- A selection for another provider that finds a candidate moves the cursor on. -/
theorem other_of_fair (serves : Serves S p ids) (long : 1 < ids.length)
    (fair : ∀ calls, (∀ s ∈ calls, S s) → Fair p ids (replay hostKey .roundRobin 0 calls))
    {own other : Selection} (first : S own) (second : S other) (isOwn : own.provider = p)
    (isOther : other.provider ≠ p) : other.candidateIds = [] := by
  by_contra held
  have order := serves.perm first isOwn
  have size := order.length_eq
  have some_ : 0 < own.candidateIds.length := by omega
  obtain ⟨k, back⟩ := @exists_cursor_zero _ other.candidateIds (indexAfter 0 [own])
    (List.length_pos_iff.mpr held)
  -- the other selection takes the cursor back, so that the first account is chosen again
  let around := List.replicate (k + 1) other
  let again := List.replicate (own.candidateIds.length - 1) own
  have allowed : ∀ s ∈ List.replicate 1 own ++ (around ++ again), S s := by
    intro s listed
    rcases List.mem_append.mp listed with here | later
    · rw [List.eq_of_mem_replicate here]
      exact first
    · rcases List.mem_append.mp later with here | here <;> rw [List.eq_of_mem_replicate here]
      · exact second
      · exact first
  have start : indexAfter (indexAfter 0 (List.replicate 1 own)) around = 0 := by
    rw [indexAfter, List.map_replicate]
    exact back
  have chosen : choices p
      (replay hostKey .roundRobin 0 (List.replicate 1 own ++ (around ++ again))) =
        (own.candidateIds.take 1 ++ own.candidateIds.take (own.candidateIds.length - 1)).map some := by
    have away : choices p
        (replay hostKey .roundRobin (indexAfter 0 (List.replicate 1 own)) around) = [] :=
      choices_others fun s listed => by rw [List.eq_of_mem_replicate listed]; exact isOther
    rw [choices_append fun s listed _ => by rw [List.eq_of_mem_replicate listed]; exact some_,
      choices_append fun s listed mine => by
        rw [List.eq_of_mem_replicate listed] at mine; exact absurd mine isOther,
      start, away, choices_repeated isOwn some_ (by omega),
      choices_repeated isOwn some_ (by omega), List.nil_append, List.map_append]
  have perm := (fair _ allowed).round chosen (by
    rw [List.length_map, List.length_append, List.length_take, List.length_take]
    omega)
  have plain := (List.map_perm_map_iff (Option.some_injective Text)).mp perm
  exact not_nodup_restart (by omega) (plain.nodup_iff.mpr serves.distinct)

/-- **Round robin is fair for a provider, in every interleaving of its deployment, exactly
when the provider has at most one account or the cursor for itself.** -/
theorem rotation_fair_iff (serves : Serves S p ids) :
    (∀ calls, (∀ s ∈ calls, S s) → Fair p ids (replay hostKey .roundRobin 0 calls)) ↔
      ids.length ≤ 1 ∨ Alone S p := by
  constructor
  · intro fair
    by_cases short : ids.length ≤ 1
    · exact .inl short
    refine .inr fun own first isOwn s allowed => ?_
    split
    · exact order_of_fair serves fair first allowed isOwn ‹_›
    · exact other_of_fair serves (Nat.lt_of_not_le short) fair first allowed isOwn ‹_›
  · rintro (short | alone) calls allowed
    · exact fair_of_short serves short allowed
    · by_cases short : ids.length ≤ 1
      · exact fair_of_short serves short allowed
      · exact fair_of_alone serves (Nat.lt_of_not_le short) alone allowed

end RoundRobin

/-! ## Two providers -/

def key (id provider : String) : PoolAccount where
  id := id.toList
  authMethod := .apiKey
  provider := provider.toList
  priority := 1
  monthlyBudgetCents := 1000
  expiresAt := none
  apiKey := "secret".toList
  oauthToken := none
  credentialsDir := none
  isHealthy := true
  consecutiveErrors := 0
  spentThisMonth := 0
  cooldownUntil := none
  lastUsed := none
  totalRequests := 0
  credentialState := .unverified
  authDeadStrikes := 0
  nextProbeAt := none
  probeFailures := 0
  label := []
  tags := []

def keys : List PoolAccount := [key "main" "anthropic", key "spare" "anthropic", key "other" "openai"]

/-- `select_for_provider` over three healthy keys. -/
def selectKey (provider : String) : Selection := ⟨provider.toList, [], [], keys, false, 0⟩

def anthropicIds : List Text := ["main".toList, "spare".toList]

theorem keys_serve (S : Selection → Prop) (known : ∀ s, S s → ∃ provider, s = selectKey provider) :
    Serves S anthropic anthropicIds where
  distinct := by decide
  whole s allowed _ := by
    obtain ⟨provider, rfl⟩ := known s allowed
    exact ⟨rfl, rfl⟩
  fixed s allowed own := by
    obtain ⟨provider, rfl⟩ := known s allowed
    have same : selectKey provider = selectKey "anthropic" := by
      unfold selectKey
      rw [show provider.toList = "anthropic".toList from own]
    rw [same]
    decide

theorem rotation_fair_anthropic : Fair anthropic anthropicIds (replay (fun _ => none) .roundRobin 0
      [selectKey "anthropic", selectKey "anthropic", selectKey "anthropic"]) := by
  refine (rotation_fair_iff (keys_serve (· = selectKey "anthropic")
    fun s only => ⟨_, only⟩)).mpr (.inr ?_) _ (by simp)
  rintro own rfl isOwn s rfl
  rw [if_pos isOwn]

/-- A selection for the provider with one key in between, and the first of the two keys of
the other provider is chosen twice in a row. -/
theorem other_provider_unfair : ¬∀ (hostKey : Text → Option Text) (S : Selection → Prop)
    (p : Text) (ids : List Text), Serves S p ids → ∀ calls, (∀ s ∈ calls, S s) →
      Fair p ids (replay hostKey .roundRobin 0 calls) := by
  intro claimed
  have fair := claimed (fun _ => none)
    (fun s => s = selectKey "anthropic" ∨ s = selectKey "openai") anthropic anthropicIds
    (keys_serve _ fun s either => either.elim (⟨_, ·⟩) (⟨_, ·⟩))
    [selectKey "anthropic", selectKey "openai", selectKey "anthropic"] (by simp)
  have twice := fair [] [some "main".toList, some "main".toList] [] (by decide) rfl
  exact absurd twice (by decide)

/-! ## Retry loops -/

section Retry

variable {hostKey : Text → Option Text} {strategy : RotationStrategy} {index : Nat} {s : Selection}
  {a : PoolAccount} {env : AccountEnv} {l : List PoolAccount}

/-- A loop that excludes what it was given: a selection at each moment, until one gives nothing. -/
def retry (hostKey : Text → Option Text) (strategy : RotationStrategy) :
    Nat → List Text → List Selection → List Text × Bool
  | _, _, [] => ([], false)
  | index, tried, s :: rest =>
    match selectForProviderWithPoolExcluding hostKey strategy index { s with exclude := tried } with
    | (none, _) => ([], true)
    | (some env, next) =>
      let later := retry hostKey strategy next (tried ++ [env.id]) rest
      (env.id :: later.1, later.2)

/-- The provider has no account, and a key of the host stands in for one. -/
def Selection.FallsBack (hostKey : Text → Option Text) (s : Selection) : Prop :=
  (∀ a ∈ s.accounts, a.provider ≠ s.provider) ∧ s.inheritHostCredentials = true ∧ hostKey s.provider ≠ none

theorem leastRecent_mem (chosen : leastRecent l = some a) : a ∈ l := by
  cases l with
  | nil => cases chosen
  | cons first rest =>
    obtain rfl := Option.some.inj chosen
    refine List.foldlRecOn (motive := (· ∈ first :: rest)) rest _ (List.mem_cons_self ..) fun best inside a listed => ?_
    split
    · exact List.mem_cons_of_mem _ listed
    · exact inside

theorem leastCost_mem (chosen : leastCost l = some a) : a ∈ l := by
  simp only [leastCost] at chosen
  split at chosen
  · exact List.argmin_mem chosen
  · exact List.mem_of_mem_filter (List.mem_of_mem_filter (leastRecent_mem chosen))

theorem hasPoolEntries_of_in {pool : List Text} (inside : accountInPool a pool = true) :
    hasPoolEntries pool = true := by
  obtain ⟨entry, listed, named⟩ := List.any_eq_true.mp inside
  refine List.any_eq_true.mpr ⟨entry, listed, ?_⟩
  cases blank : (trim entry).isEmpty
  · rfl
  · simp [blank] at named

theorem mem_candidates (listed : a ∈ s.candidates) : a ∈ s.available ∧ a.id ∉ s.exclude ∧
    ((∃ b ∈ s.available, accountInPool b s.pool = true) → accountInPool a s.pool = true) := by
  have asked := fun b => @hasPoolEntries_of_in b s.pool
  simp only [Selection.candidates, narrowByPool, List.isEmpty_iff, List.filter_eq_nil_iff] at listed
  grind

theorem select_spec (own : ¬s.FallsBack hostKey)
    (chosen : (selectForProviderWithPoolExcluding hostKey strategy index s).1 = some env) :
    ∃ a ∈ s.candidates, env = .ofAccount a := by
  have some_ : ∀ {found : Option PoolAccount}, (∀ a, found = some a → a ∈ s.candidates) →
      found.map AccountEnv.ofAccount = some env → ∃ a ∈ s.candidates, env = .ofAccount a := fun inside made => by
    obtain ⟨a, found, rfl⟩ := Option.map_eq_some_iff.mp made
    exact ⟨a, inside a found, rfl⟩
  unfold selectForProviderWithPoolExcluding at chosen
  split at chosen
  · split at chosen
    · rename_i host
      simp only [Bool.and_eq_true, Bool.not_eq_true', List.any_eq_false, beq_iff_eq] at host
      obtain ⟨key, held, rfl⟩ := Option.map_eq_some_iff.mp chosen
      exact absurd ⟨host.1, host.2, by simp [held]⟩ own
    · cases chosen
  · cases strategy with
    | priority | failover => exact some_ (fun _ => List.argmin_mem) chosen
    | leastCost => exact some_ (fun _ => leastCost_mem) chosen
    | roundRobin => exact some_ (fun _ => List.mem_of_getElem?) chosen

theorem select_host (falls : s.FallsBack hostKey) :
    ∃ key, (selectForProviderWithPoolExcluding hostKey strategy index s).1 = some (.ofHost s.provider key) := by
  obtain ⟨none_, inherits, held⟩ := falls
  obtain ⟨key, held⟩ := Option.ne_none_iff_exists'.mp held
  have empty : s.candidates = [] := List.eq_nil_iff_forall_not_mem.mpr fun a listed => by
    obtain ⟨inside, kind⟩ := List.mem_filter.mp (mem_candidates listed).1
    simp only [Bool.and_eq_true, beq_iff_eq] at kind
    exact none_ a inside kind.1
  have others : (s.accounts.any fun a => a.provider == s.provider) = false := by simpa using none_
  exact ⟨key, by simp [selectForProviderWithPoolExcluding, empty, others, inherits, held]⟩

theorem retry_spec {calls : List Selection} {tried : List Text} (own : ∀ s ∈ calls, ¬s.FallsBack hostKey) :
    let loop := retry hostKey strategy index tried calls
    loop.1.Nodup ∧ (∀ id ∈ loop.1, id ∉ tried ∧ ∃ s ∈ calls, ∃ a ∈ s.accounts, a.id = id) ∧
      (loop.2 = false → loop.1.length = calls.length) := by
  induction calls generalizing index tried with
  | nil => simp [retry]
  | cons s rest ih =>
    obtain ⟨first, others⟩ := List.forall_mem_cons.mp own
    rw [retry]
    split
    · simp
    · rename_i env next chosen
      obtain ⟨a, listed, rfl⟩ := select_spec (s := { s with exclude := tried }) first (congrArg Prod.fst chosen)
      obtain ⟨available, apart, -⟩ := mem_candidates listed
      obtain ⟨distinct, fresh, full⟩ := @ih next (tried ++ [a.id]) others
      refine ⟨List.nodup_cons.mpr ⟨fun again => ?_, distinct⟩, ?_, fun going => congrArg (· + 1) (full going)⟩
      · exact (fresh _ again).1 (List.mem_append_right _ (List.mem_singleton_self _))
      · rintro id (_ | ⟨_, later⟩)
        · exact ⟨apart, s, List.mem_cons_self .., a, List.mem_of_mem_filter available, rfl⟩
        · obtain ⟨new, t, inside, found⟩ := fresh id later
          exact ⟨fun old => new (List.mem_append_left _ old), t, List.mem_cons_of_mem _ inside, found⟩

end Retry

/-- What a retry loop relies on, at moments of this kind. -/
structure Ends (hostKey : Text → Option Text) (strategy : RotationStrategy) (W : Selection → Prop) : Prop where
  skips : ∀ s, W s → ∀ tried index env,
    (selectForProviderWithPoolExcluding hostKey strategy index { s with exclude := tried }).1 = some env →
      env.id ∉ tried
  once : ∀ calls, (∀ s ∈ calls, W s) → ∀ ids, (∀ s ∈ calls, ∀ a ∈ s.accounts, a.id ∈ ids) → ∀ index,
    let loop := retry hostKey strategy index [] calls
    loop.1.Nodup ∧ loop.1 ⊆ ids ∧ (ids.length < calls.length → loop.2 = true)
  pooled : ∀ s, W s → (∃ a ∈ s.available, accountInPool a s.pool = true) → ∀ tried index env,
    (selectForProviderWithPoolExcluding hostKey strategy index { s with exclude := tried }).1 = some env →
      ∃ a, env = .ofAccount a ∧ accountInPool a s.pool = true

/-- **A retry loop ends** exactly where no selection is made with the host's key, which is never excluded. -/
theorem ends_iff (hostKey : Text → Option Text) (strategy : RotationStrategy) (W : Selection → Prop) :
    Ends hostKey strategy W ↔ ∀ s, W s → ¬s.FallsBack hostKey := by
  constructor
  · intro ends s here falls
    obtain ⟨key, chosen⟩ := @select_host hostKey strategy 0 { s with exclude := [s.provider ++ "-env".toList] } falls
    exact ends.skips s here _ 0 _ chosen (List.mem_singleton_self _)
  · intro own
    have picked := fun s here tried index env =>
      @select_spec hostKey strategy index { s with exclude := tried } env (own s here)
    refine ⟨fun s here tried index env chosen => ?_, fun calls all ids known index => ?_,
      fun s here pooled tried index env chosen => ?_⟩
    · obtain ⟨a, listed, rfl⟩ := picked s here tried index env chosen
      exact (mem_candidates listed).2.1
    · obtain ⟨distinct, listed, full⟩ := @retry_spec hostKey strategy index calls [] fun s there => own s (all s there)
      have inside : (retry hostKey strategy index [] calls).1 ⊆ ids := fun id returned => by
        obtain ⟨-, s, there, a, held, rfl⟩ := listed id returned
        exact known s there a held
      refine ⟨distinct, inside, fun more => Bool.not_eq_false _ ▸ fun going => ?_⟩
      have short := (List.subperm_of_subset distinct inside).length_le
      have long := full going
      omega
    · obtain ⟨a, listed, rfl⟩ := picked s here tried index env chosen
      exact ⟨a, rfl, (mem_candidates listed).2.2 pooled⟩

/-- The host's key for `openai` is selected again when it was tried. -/
theorem host_key_again : ¬∀ hostKey strategy W, Ends hostKey strategy W := by
  intro claimed
  let s : Selection := ⟨"openai".toList, [], [], [], true, 0⟩
  have ends := claimed (fun _ => some "key".toList) .priority (· = s)
  exact ends.skips s rfl ["openai-env".toList] 0 (.ofHost s.provider "key".toList) rfl (by decide)

end DuDuClaw.AccountRotator
