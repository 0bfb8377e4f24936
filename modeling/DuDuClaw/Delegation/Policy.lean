/-
# Delegation.Policy -- may one agent hand work to another?

The predicate of delegation_policy.rs over any snapshot of the organisation, with any
`reports_to` links, and the whitelist as `resolve_allow_pairs` builds it.

* `walkUp_found_iff`: the walk finds what lies within twenty hops, loops or not.
* `canDelegateRulesExt_iff`: the ordered list of early returns is the rule `Admits`.
* `delegation_exact`: so the answer is symmetric for two agents, grows with the mode, and
  grows with the whitelist.
-/
import DuDuClaw.Lib.Chars
import DuDuClaw.Lib.Chase

namespace DuDuClaw.Delegation

open DuDuClaw.Lib

abbrev Text := List Char

def maxAncestorHops : Nat := 20

def systemSenders : List Text :=
  ["dashboard".toList, "webhook".toList, "goal-loop-driver".toList, "cron".toList,
    "heartbeat".toList, "autopilot".toList]

def isSystemSender (sender : Text) : Bool := systemSenders.any fun known => known = trim sender

/-! ## Modes and the whitelist -/

inductive DelegationPolicy where
  | department
  | hierarchy
  | open_
  deriving DecidableEq

def leText : Text → Text → Bool
  | [], _ => true
  | _ :: _, [] => false
  | a :: x, b :: y => if a = b then leText x y else decide (a.toNat < b.toNat)

theorem leText_antisymm {a b : Text} (left : leText a b = true) (right : leText b a = true) : a = b := by
  induction a generalizing b with
  | nil =>
    cases b with
    | nil => rfl
    | cons d y => cases right
  | cons c x ih =>
    cases b with
    | nil => cases left
    | cons d y =>
      rw [leText] at left right
      by_cases same : c = d
      · rw [if_pos same] at left
        rw [if_pos same.symm] at right
        rw [same, ih left right]
      · rw [if_neg same, decide_eq_true_eq] at left
        rw [if_neg (Ne.symm same), decide_eq_true_eq] at right
        omega

theorem leText_total {a b : Text} (left : leText a b = false) : leText b a = true := by
  induction a generalizing b with
  | nil => cases left
  | cons c x ih =>
    cases b with
    | nil => rfl
    | cons d y =>
      rw [leText] at left ⊢
      by_cases same : c = d
      · rw [if_pos same] at left
        rw [if_pos same.symm]
        exact ih left
      rw [if_neg same, decide_eq_false_iff_not] at left
      rw [if_neg (Ne.symm same), decide_eq_true_eq]
      have apart : c.toNat ≠ d.toNat := fun equal => same (Char.toNat_inj.mp equal)
      omega

def sortedPair (a b : Text) : Text × Text := if leText a b then (a, b) else (b, a)

theorem sortedPair_comm (a b : Text) : sortedPair a b = sortedPair b a := by
  unfold sortedPair
  cases left : leText a b with
  | true =>
    cases right : leText b a with
    | true => rw [leText_antisymm left right]
    | false => rfl
  | false => rw [leText_total left]; rfl

theorem leText_sortedPair (a b : Text) : leText (sortedPair a b).1 (sortedPair a b).2 = true := by
  unfold sortedPair
  cases left : leText a b with
  | true => exact left
  | false => exact leText_total left

/-- Why a `[delegation] allow` entry is dropped. -/
inductive BadEntry where
  | notTwo (length : Nat)
  | blank
  | selfPair (name : Text)

def normalizeAllowEntry : List Text → Except BadEntry (Text × Text)
  | [first, second] =>
    let a := trim first
    let b := trim second
    if a.isEmpty || b.isEmpty then .error .blank
    else if a = b then .error (.selfPair a)
    else .ok (sortedPair a b)
  | item => .error (.notTwo item.length)

/-- The pairs and the warnings, after one more entry. -/
def addAllowEntry (acc : List (Text × Text) × List (BadEntry × List Text)) (entry : List Text) :
    List (Text × Text) × List (BadEntry × List Text) :=
  match normalizeAllowEntry entry with
  | .ok pair => (if pair ∈ acc.1 then acc.1 else acc.1 ++ [pair], acc.2)
  | .error reason => (acc.1, acc.2 ++ [(reason, entry)])

def resolveAllowPairs (entries : List (List Text)) :
    List (Text × Text) × List (BadEntry × List Text) :=
  entries.foldl addAllowEntry ([], [])

/-- The mode and the whitelist, whose pairs are sorted. -/
structure DelegationRules where
  policy : DelegationPolicy
  allowPairs : List (Text × Text)
  sorted : ∀ pair ∈ allowPairs, leText pair.1 pair.2 = true

theorem normalizeAllowEntry_sorted {entry : List Text} {pair : Text × Text}
    (accepted : normalizeAllowEntry entry = .ok pair) : leText pair.1 pair.2 = true := by
  unfold normalizeAllowEntry at accepted
  split at accepted
  · dsimp only at accepted
    split at accepted
    · cases accepted
    split at accepted
    · cases accepted
    · cases accepted
      exact leText_sortedPair _ _
  · cases accepted

theorem addAllowEntry_sorted {acc : List (Text × Text) × List (BadEntry × List Text)}
    (sorted : ∀ pair ∈ acc.1, leText pair.1 pair.2 = true) (entry : List Text) :
    ∀ pair ∈ (addAllowEntry acc entry).1, leText pair.1 pair.2 = true := by
  unfold addAllowEntry
  cases accepted : normalizeAllowEntry entry with
  | error reason => exact sorted
  | ok added =>
    intro pair listed
    dsimp only at listed
    split at listed
    · exact sorted pair listed
    rcases List.mem_append.mp listed with before | last
    · exact sorted pair before
    · rw [List.mem_singleton.mp last]
      exact normalizeAllowEntry_sorted accepted

theorem resolveAllowPairs_sorted (entries : List (List Text)) :
    ∀ pair ∈ (resolveAllowPairs entries).1, leText pair.1 pair.2 = true := by
  have each : ∀ acc : List (Text × Text) × List (BadEntry × List Text),
      (∀ pair ∈ acc.1, leText pair.1 pair.2 = true) →
      ∀ pair ∈ (entries.foldl addAllowEntry acc).1, leText pair.1 pair.2 = true := by
    induction entries with
    | nil => exact fun acc sorted => sorted
    | cons entry rest ih => exact fun acc sorted => ih _ (addAllowEntry_sorted sorted entry)
  exact each ([], []) (List.forall_mem_nil _)

namespace DelegationRules

/-- `DelegationConfig::resolve_rules`, once the mode is parsed. -/
def resolve (policy : DelegationPolicy) (entries : List (List Text)) : DelegationRules :=
  ⟨policy, (resolveAllowPairs entries).1, resolveAllowPairs_sorted entries⟩

def allowsPair (rules : DelegationRules) (a b : Text) : Bool :=
  let a := trim a
  let b := trim b
  if a.isEmpty || b.isEmpty || a = b then false
  else sortedPair a b ∈ rules.allowPairs

end DelegationRules

/-! ## The organisation -/

/-- `OrgView`: what a snapshot of the registry answers. -/
structure OrgView where
  reportsTo : Text → Option Text
  department : Text → Option Text

def normalizeParent (value : Text) : Option Text :=
  let trimmed := trim value
  if trimmed.isEmpty || eqIgnoreAsciiCase trimmed "none".toList then none else some trimmed

namespace OrgView

variable (org : OrgView)

def parent (id : Text) : Option Text := (org.reportsTo id).bind normalizeParent

def walkUp (start lookingFor : Text) : Walk :=
  walk org.parent (trim lookingFor) maxAncestorHops [trim start] (trim start)

def isAncestor (ancestor descendant : Text) : Bool := org.walkUp descendant ancestor = .found

end OrgView

/-! ## The predicate -/

inductive DenyReason where
  | selfDelegation
  | invalidAgentId
  | noHierarchyRelation
  | differentDepartment
  | missingDepartment
  | chainTooDeep

structure DelegationDenied where
  sender : Text
  target : Text
  policy : DelegationPolicy
  reason : DenyReason

/-- `unwrap_or_default` and `trim`. -/
def OrgView.departmentName (org : OrgView) (id : Text) : Text :=
  trim ((org.department id).getD [])

/-- `can_delegate_ext_impl`; without rules the whitelist is empty. -/
def canDelegateExtImpl (policy : DelegationPolicy) (rules : Option DelegationRules) (org : OrgView)
    (sender target : Text) (extraSystemSenders : List Text) : Except DelegationDenied Unit :=
  let s := trim sender
  let t := trim target
  let deny := fun reason : DenyReason =>
    (.error ⟨s, t, policy, reason⟩ : Except DelegationDenied Unit)
  if s.isEmpty || t.isEmpty then deny .invalidAgentId
  else if s = t then deny .selfDelegation
  else if isSystemSender s || extraSystemSenders.any fun extra => trim extra = s then .ok ()
  else if policy = .open_ then .ok ()
  else
    let down := org.walkUp t s
    if down = .found then .ok ()
    else
      let up := org.walkUp s t
      if up = .found then .ok ()
      else
        let senderDept := org.departmentName s
        let targetDept := org.departmentName t
        if policy = .department ∧ senderDept.isEmpty = false ∧ targetDept.isEmpty = false ∧
            senderDept = targetDept then .ok ()
        else if rules.any fun rules => rules.allowsPair s t then .ok ()
        else if down = .truncated ∨ up = .truncated then deny .chainTooDeep
        else
          match policy with
          | .hierarchy => deny .noHierarchyRelation
          | .department =>
            if senderDept.isEmpty || targetDept.isEmpty then deny .missingDepartment
            else deny .differentDepartment
          | .open_ => deny .noHierarchyRelation

def canDelegateRulesExt (rules : DelegationRules) (org : OrgView) (sender target : Text)
    (extraSystemSenders : List Text) : Except DelegationDenied Unit :=
  canDelegateExtImpl rules.policy (some rules) org sender target extraSystemSenders

/-! ## The rule -/

/-- `above` is a superior of `below`, at most twenty hops up. -/
def OrgView.Above (org : OrgView) (above below : Text) : Prop :=
  ∃ hops, 1 ≤ hops ∧ hops ≤ maxAncestorHops ∧ climb org.parent hops below = some above

def OrgView.SameDepartment (org : OrgView) (a b : Text) : Prop :=
  org.departmentName a ≠ [] ∧ org.departmentName a = org.departmentName b

/-- The whitelist names the two, in either order. -/
def DelegationRules.Lists (rules : DelegationRules) (a b : Text) : Prop :=
  (a, b) ∈ rules.allowPairs ∨ (b, a) ∈ rules.allowPairs

def System (extra : List Text) (sender : Text) : Prop :=
  sender ∈ systemSenders ∨ sender ∈ extra.map trim

/-- Who may delegate to whom, of two trimmed ids. -/
def Admits (rules : DelegationRules) (org : OrgView) (extra : List Text) (s t : Text) : Prop :=
  s ≠ [] ∧ t ≠ [] ∧ s ≠ t ∧
    (System extra s ∨ rules.policy = .open_ ∨ org.Above s t ∨ org.Above t s ∨
      (rules.policy = .department ∧ org.SameDepartment s t) ∨ rules.Lists s t)

variable {rules : DelegationRules} {s t : Text} {org : OrgView} {extra : List Text}

theorem walkUp_found_iff (org : OrgView) (start lookingFor : Text) :
    org.walkUp start lookingFor = .found ↔ org.Above (trim lookingFor) (trim start) := by
  refine walk_found_iff (List.mem_singleton_self _) fun a listed other => ?_
  exact absurd (List.mem_singleton.mp listed) other

theorem allowsPair_iff (trimmed : trim s = s)
    (trimmed' : trim t = t) (named : s ≠ []) (named' : t ≠ []) (apart : s ≠ t) :
    rules.allowsPair s t = true ↔ rules.Lists s t := by
  have filled : ¬(s.isEmpty || t.isEmpty || decide (s = t)) = true := by
    simp [named, named', apart]
  rw [DelegationRules.allowsPair, trimmed, trimmed']
  rw [if_neg filled, decide_eq_true_eq, DelegationRules.Lists]
  unfold sortedPair
  cases order : leText s t with
  | true =>
    simp only [if_true]
    constructor
    · exact .inl
    · rintro (listed | listed)
      · exact listed
      · exact absurd (leText_antisymm order (rules.sorted _ listed)) apart
  | false =>
    simp only [Bool.false_eq_true, if_false]
    constructor
    · exact .inr
    · rintro (listed | listed)
      · rw [rules.sorted _ listed] at order
        cases order
      · exact listed

theorem system_iff (extra : List Text) (trimmed : trim s = s) :
    (isSystemSender s || extra.any fun other => trim other = s) = true ↔ System extra s := by
  simp only [Bool.or_eq_true, isSystemSender, trimmed, List.any_eq_true, decide_eq_true_eq,
    System, List.mem_map, exists_eq_right]

/-- **The early returns are the rule.** -/
theorem canDelegateRulesExt_iff (rules : DelegationRules) (org : OrgView) (sender target : Text)
    (extra : List Text) : canDelegateRulesExt rules org sender target extra = .ok () ↔
      Admits rules org extra (trim sender) (trim target) := by
  have down := walkUp_found_iff org (trim target) (trim sender)
  have up := walkUp_found_iff org (trim sender) (trim target)
  have system := system_iff extra (trim_trim sender)
  have pair := @allowsPair_iff rules _ _ (trim_trim sender) (trim_trim target)
  rw [trim_trim, trim_trim] at down up
  unfold canDelegateRulesExt canDelegateExtImpl Admits
  generalize trim sender = s at *
  generalize trim target = t at *
  dsimp only
  by_cases blank : (s.isEmpty || t.isEmpty) = true
  · rw [if_pos blank]
    simp only [reduceCtorEq, false_iff]
    rintro ⟨named, named', -⟩
    simp [named, named'] at blank
  rw [if_neg blank]
  obtain ⟨named, named'⟩ : s ≠ [] ∧ t ≠ [] := by simpa using blank
  by_cases self : s = t
  · rw [if_pos self]
    simp only [reduceCtorEq, false_iff]
    exact fun rule => rule.2.2.1 self
  rw [if_neg self]
  have rule_iff : ∀ q : Prop, (s ≠ [] ∧ t ≠ [] ∧ s ≠ t ∧ q) ↔ q := fun q =>
    ⟨fun all => all.2.2.2, fun rest => ⟨named, named', self, rest⟩⟩
  rw [rule_iff]
  by_cases sys : (isSystemSender s || extra.any fun other => trim other = s) = true
  · rw [if_pos sys]
    exact iff_of_true rfl (.inl (system.mp sys))
  rw [if_neg sys]
  by_cases all : rules.policy = .open_
  · rw [if_pos all]
    exact iff_of_true rfl (.inr (.inl all))
  rw [if_neg all]
  by_cases below : org.walkUp t s = .found
  · rw [if_pos below]
    exact iff_of_true rfl (.inr (.inr (.inl (down.mp below))))
  rw [if_neg below]
  by_cases above : org.walkUp s t = .found
  · rw [if_pos above]
    exact iff_of_true rfl (.inr (.inr (.inr (.inl (up.mp above)))))
  rw [if_neg above]
  have department : (rules.policy = .department ∧ (org.departmentName s).isEmpty = false ∧
        (org.departmentName t).isEmpty = false ∧ org.departmentName s = org.departmentName t) ↔
      rules.policy = .department ∧ org.SameDepartment s t := by
    unfold OrgView.SameDepartment
    constructor
    · rintro ⟨mode, filled, -, same⟩
      exact ⟨mode, by simpa using filled, same⟩
    · rintro ⟨mode, filled, same⟩
      exact ⟨mode, by simpa using filled, by simpa [← same] using filled, same⟩
  by_cases peers : rules.policy = .department ∧ (org.departmentName s).isEmpty = false ∧
      (org.departmentName t).isEmpty = false ∧ org.departmentName s = org.departmentName t
  · rw [if_pos peers]
    exact iff_of_true rfl (.inr (.inr (.inr (.inr (.inl (department.mp peers))))))
  rw [if_neg peers]
  by_cases listed : ((some rules).any fun rules => rules.allowsPair s t) = true
  · rw [if_pos listed]
    exact iff_of_true rfl (.inr (.inr (.inr (.inr (.inr ((pair named named' self).mp listed))))))
  rw [if_neg listed]
  refine iff_of_false ?_ ?_
  · split
    · exact nofun
    split
    · exact nofun
    · split <;> exact nofun
    · exact nofun
  · rintro (way | way | way | way | way | way)
    · exact sys (system.mpr way)
    · exact all way
    · exact below (down.mpr way)
    · exact above (up.mpr way)
    · exact peers (department.mpr way)
    · exact listed ((pair named named' self).mpr way)

/-! ## What follows from the rule -/

theorem Admits.symm
    (admits : Admits rules org extra s t) (agent : ¬System extra s) : Admits rules org extra t s := by
  obtain ⟨named, named', apart, way⟩ := admits
  refine ⟨named', named, Ne.symm apart, ?_⟩
  rcases way with system | all | above | below | ⟨mode, filled, same⟩ | listed
  · exact absurd system agent
  · exact .inr (.inl all)
  · exact .inr (.inr (.inr (.inl above)))
  · exact .inr (.inr (.inl below))
  · exact .inr (.inr (.inr (.inr (.inl ⟨mode, same ▸ filled, same.symm⟩))))
  · exact .inr (.inr (.inr (.inr (.inr listed.symm))))

/-- How much a mode allows. -/
def DelegationPolicy.reach : DelegationPolicy → Nat
  | .hierarchy => 0
  | .department => 1
  | .open_ => 2

/-- A wider mode and a longer whitelist. -/
structure Widens (rules wider : DelegationRules) : Prop where
  mode : rules.policy.reach ≤ wider.policy.reach
  pairs : ∀ pair ∈ rules.allowPairs, pair ∈ wider.allowPairs

theorem Admits.widen {wider : DelegationRules}
    (admits : Admits rules org extra s t) (widens : Widens rules wider) : Admits wider org extra s t := by
  obtain ⟨named, named', apart, way⟩ := admits
  refine ⟨named, named', apart, ?_⟩
  have mode := widens.mode
  rcases way with system | all | above | below | ⟨peers, same⟩ | listed
  · exact .inl system
  · rw [all] at mode
    cases wide : wider.policy with
    | open_ => exact .inr (.inl rfl)
    | department | hierarchy => rw [wide] at mode; simp [DelegationPolicy.reach] at mode
  · exact .inr (.inr (.inl above))
  · exact .inr (.inr (.inr (.inl below)))
  · rw [peers] at mode
    cases wide : wider.policy with
    | open_ => exact .inr (.inl rfl)
    | department => exact .inr (.inr (.inr (.inr (.inl ⟨rfl, same⟩))))
    | hierarchy => rw [wide] at mode; simp [DelegationPolicy.reach] at mode
  · exact .inr (.inr (.inr (.inr (.inr (listed.imp (widens.pairs _) (widens.pairs _))))))

/-- **The delegation predicate is its rule**, for every organisation, whitelist and mode:
it allows exactly what `Admits` says; between two agents it answers the same both ways;
and a wider mode or a longer whitelist, or both, denies nothing that was allowed. -/
theorem delegation_exact (org : OrgView) (extra : List Text) (sender target : Text) :
    (∀ rules, canDelegateRulesExt rules org sender target extra = .ok () ↔
        Admits rules org extra (trim sender) (trim target)) ∧
      (∀ rules, ¬System extra (trim sender) → ¬System extra (trim target) →
        (canDelegateRulesExt rules org sender target extra = .ok () ↔
          canDelegateRulesExt rules org target sender extra = .ok ())) ∧
      ∀ rules wider, Widens rules wider → canDelegateRulesExt rules org sender target extra = .ok () →
        canDelegateRulesExt wider org sender target extra = .ok () := by
  refine ⟨fun rules => canDelegateRulesExt_iff rules org sender target extra, ?_, ?_⟩
  · intro rules agent agent'
    rw [canDelegateRulesExt_iff, canDelegateRulesExt_iff]
    exact ⟨fun admits => admits.symm agent, fun admits => admits.symm agent'⟩
  · intro rules wider widens allowed
    rw [canDelegateRulesExt_iff] at allowed ⊢
    exact allowed.widen widens

end DuDuClaw.Delegation
