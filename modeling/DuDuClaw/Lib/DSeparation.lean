/-
# Lib.DSeparation -- paths in a directed graph and what blocks them

A path in the graph may follow its edges either way.  A set of nodes blocks it at a node of
the set, unless both edges of the path point there, and at a node where both edges point, if
neither it nor anything it leads to is in the set.

* `Blocked`, `DSeparated`: the definitions, on lists of nodes.
* `Open.glue`: open walks put together at one node.
* `open_path`: where there is an open walk between two nodes of a graph without cycles, there
  is an open path, that passes no node twice.
-/
import Mathlib.Data.List.Chain
import Mathlib.Data.List.Nodup
import Mathlib.Data.List.Infix

namespace DuDuClaw.Lib.Dag

open Relation

variable {V : Type}

/-! ## Blocking -/

section Defs

variable (E : V → V → Prop) (Z : V → Prop)

/-- No node leads back to itself. -/
def Acyclic : Prop := ∀ v, ¬TransGen E v v

def Adjacent (a b : V) : Prop := E a b ∨ E b a

def Leads (v : V) : Prop := ∃ z, Z z ∧ ReflTransGen E v z

/-- Both edges point to the node in the middle. -/
def Collider (a b c : V) : Prop := E a b ∧ E c b

def BlockedAt (a b c : V) : Prop :=
  (Collider E a b c ∧ ¬Leads E Z b) ∨ (¬Collider E a b c ∧ Z b)

def Blocked (walk : List V) : Prop := ∃ a b c, [a, b, c] <:+: walk ∧ BlockedAt E Z a b c

/-- Consecutive nodes from `x` to `y`. -/
structure Walk (x y : V) (walk : List V) : Prop where
  first : walk.head? = some x
  last : walk.getLast? = some y
  steps : walk.IsChain (Adjacent E)

/-- A walk that passes no node twice. -/
structure UndirectedPath (x y : V) (path : List V) : Prop extends Walk E x y path where
  simple : path.Nodup

/-- **D-separation**: the set blocks every path. -/
def DSeparated (x y : V) : Prop := ∀ path, UndirectedPath E x y path → Blocked E Z path

/-- Nothing blocks at three nodes. -/
structure OpenAt (a b c : V) : Prop where
  collider : Collider E a b c → Leads E Z b
  other : ¬Collider E a b c → ¬Z b

def Open (walk : List V) : Prop := ∀ a b c, [a, b, c] <:+: walk → OpenAt E Z a b c

end Defs

variable {E : V → V → Prop} {Z : V → Prop}

variable {a b c : V}

theorem openAt_iff : OpenAt E Z a b c ↔ ¬BlockedAt E Z a b c := by
  rw [BlockedAt, not_or, not_and_not_right, not_and]
  exact ⟨fun here => ⟨here.collider, here.other⟩, fun here => ⟨here.1, here.2⟩⟩

theorem open_iff {walk : List V} : Open E Z walk ↔ ¬Blocked E Z walk := by
  constructor
  · rintro free ⟨a, b, c, inside, blocked⟩
    exact openAt_iff.mp (free a b c inside) blocked
  · intro free a b c inside
    exact openAt_iff.mpr fun blocked => free ⟨a, b, c, inside, blocked⟩

theorem Acyclic.asymm (acyclic : Acyclic E) (edge : E a b) : ¬E b a :=
  fun back => acyclic a (.head edge (.single back))

theorem Adjacent.symm (adjacent : Adjacent E a b) : Adjacent E b a := Or.symm adjacent

theorem Leads.head (edge : E a b) (leads : Leads E Z b) : Leads E Z a := by
  obtain ⟨z, inside, path⟩ := leads
  exact ⟨z, inside, path.head edge⟩

theorem Leads.of_mem (inside : Z a) : Leads E Z a := ⟨a, inside, .refl⟩

theorem OpenAt.symm (here : OpenAt E Z a b c) : OpenAt E Z c b a where
  collider both := here.collider both.symm
  other apart := here.other fun both => apart both.symm

/-- A node that the walk leaves along an edge is no collider. -/
theorem OpenAt.of_leaving (acyclic : Acyclic E) (outside : ¬Z b)
    (leaving : E b a ∨ E b c) : OpenAt E Z a b c where
  collider both := by
    rcases leaving with edge | edge
    · exact absurd both.1 (acyclic.asymm edge)
    · exact absurd both.2 (acyclic.asymm edge)
  other _ := outside

/-! ## Open walks -/

namespace Open

variable {walk back : List V} {a : V}

theorem of_infix {part : List V} (whole : Open E Z walk) (inside : part <:+: walk) :
    Open E Z part := fun a b c here => whole a b c (here.trans inside)

theorem reverse (whole : Open E Z walk) : Open E Z walk.reverse := by
  intro a b c inside
  have turned : [c, b, a] <:+: walk := by
    rw [← List.reverse_infix]
    exact inside
  exact (whole c b a turned).symm

theorem first {b c : V} (whole : Open E Z (a :: b :: c :: back)) : OpenAt E Z a b c :=
  whole a b c ⟨[], back, rfl⟩

theorem cons (rest : Open E Z walk)
    (first : ∀ b c back, walk = b :: c :: back → OpenAt E Z a b c) : Open E Z (a :: walk) := by
  intro a' b c inside
  rcases List.infix_cons_iff.mp inside with front | later
  · obtain ⟨same, back, shape⟩ := List.cons_prefix_cons.mp front
    rw [same]
    exact first b c back shape.symm
  · exact rest a' b c later

theorem single (a : V) : Open E Z [a] := by
  intro a' b c inside
  have short := inside.length_le
  simp at short

/-- Two open walks with one node in common, open there. -/
theorem glue {front : List V} {v : V} (left : Open E Z (front ++ [v])) (right : Open E Z (v :: back))
    (meet : ∀ a c, front.getLast? = some a → back.head? = some c → OpenAt E Z a v c) :
    Open E Z (front ++ v :: back) := by
  induction front with
  | nil => exact right
  | cons a front ih =>
    have tail : Open E Z (front ++ v :: back) := by
      apply ih (left.of_infix (List.suffix_cons _ _).isInfix)
      intro b c last first
      refine meet b c ?_ first
      rw [List.getLast?_cons, last]
      rfl
    refine tail.cons fun b c rest shape => ?_
    match front, shape with
    | [], shape =>
      cases shape
      exact meet a c rfl rfl
    | [b'], shape =>
      cases shape
      exact left.first
    | b' :: c' :: front, shape =>
      cases shape
      exact left.first

end Open

/-! ## Along the edges -/

/-- An open walk that leaves a node along an edge runs down to its end or to a node of the set,
as long as it does not turn. -/
theorem forward_leads {rest : List V} {b c y : V} (free : Open E Z (b :: c :: rest))
    (steps : (b :: c :: rest).IsChain (Adjacent E)) (edge : E b c)
    (last : (c :: rest).getLast? = some y) : ReflTransGen E b y ∨ Leads E Z b := by
  induction rest generalizing b c with
  | nil =>
    cases last
    exact .inl (.single edge)
  | cons d rest ih =>
    by_cases turn : E d c
    · exact .inr (free.first.collider ⟨edge, turn⟩ |>.head edge)
    have tail := steps.tail
    have onward : E c d := (tail.rel_head? rfl).resolve_right turn
    rw [List.getLast?_cons_cons] at last
    rcases ih (free.of_infix (List.suffix_cons _ _).isInfix) tail onward last with down | leads
    · exact .inl (down.head edge)
    · exact .inr (leads.head edge)

/-- An open walk that leaves a node along an edge and comes to its last node against one turns
on the way, where it is open. -/
theorem turn_leads {middle : List V} {b e : V} (free : Open E Z (b :: middle ++ [e]))
    (steps : (b :: middle ++ [e]).IsChain (Adjacent E)) (some_ : middle ≠ [])
    (away : ∀ c ∈ middle.head?, E b c) (back : ∀ c ∈ middle.getLast?, E e c) : Leads E Z b := by
  induction middle generalizing b with
  | nil => exact absurd rfl some_
  | cons c middle ih =>
    have edge : E b c := away c rfl
    cases middle with
    | nil =>
      have turn : E e c := back c rfl
      exact (free.first.collider ⟨edge, turn⟩).head edge
    | cons d middle =>
      by_cases turn : E d c
      · exact (free.first.collider ⟨edge, turn⟩).head edge
      have tail := steps.tail
      have onward : E c d := (tail.rel_head? rfl).resolve_right turn
      refine (ih (free.of_infix (List.suffix_cons _ _).isInfix) tail (List.cons_ne_nil _ _) ?_
        ?_).head edge
      · intro other same
        cases same
        exact onward
      · intro other same
        apply back
        rwa [List.getLast?_cons_cons]

/-! ## Loops -/

theorem exists_repeat {walk : List V} (repeats : ¬walk.Nodup) :
    ∃ front v middle back, walk = front ++ v :: (middle ++ v :: back) := by
  induction walk with
  | nil => exact absurd List.nodup_nil repeats
  | cons a walk ih =>
    by_cases again : a ∈ walk
    · obtain ⟨middle, back, rfl⟩ := List.append_of_mem again
      exact ⟨[], a, middle, back, rfl⟩
    · have later : ¬walk.Nodup := fun distinct => repeats (List.nodup_cons.mpr ⟨again, distinct⟩)
      obtain ⟨front, v, middle, back, rfl⟩ := ih later
      exact ⟨a :: front, v, middle, back, rfl⟩

section Cut

variable {front middle back : List V} {v : V}

theorem Walk.cut {x y : V} (walk : Walk E x y (front ++ v :: (middle ++ v :: back))) :
    Walk E x y (front ++ v :: back) where
  first := by
    have first := walk.first
    cases front <;> exact first
  last := by
    have last := walk.last
    rw [List.getLast?_append_cons, ← List.cons_append, List.getLast?_append_cons] at last
    rw [List.getLast?_append_cons]
    exact last
  steps := by
    obtain ⟨left, right⟩ := List.isChain_split.mp walk.steps
    refine List.isChain_split.mpr ⟨left, ?_⟩
    rw [← List.cons_append] at right
    exact right.right_of_append

/-- **A loop of an open walk can be cut out.**  Where it is cut, the walk goes on from the first
time at the node to the last: if both edges point there now, the loop turned and is open where it
did; if they do not, they did not before. -/
theorem Open.cut (acyclic : Acyclic E) (steps : (front ++ v :: (middle ++ v :: back)).IsChain (Adjacent E))
    (whole : Open E Z (front ++ v :: (middle ++ v :: back))) : Open E Z (front ++ v :: back) := by
  have loopFree : middle ≠ [] := by
    rintro rfl
    have inner := steps.right_of_append
    have loop : Adjacent E v v := inner.rel_head? rfl
    exact acyclic v (.single (loop.elim id id))
  have left : Open E Z (front ++ [v]) :=
    whole.of_infix ⟨[], middle ++ v :: back, by simp⟩
  have right : Open E Z (v :: back) := whole.of_infix ⟨front ++ v :: middle, [], by simp⟩
  refine left.glue right fun a c last first => ?_
  obtain ⟨front, rfl⟩ := List.getLast?_eq_some_iff.mp last
  obtain ⟨back, rfl⟩ : ∃ rest, back = c :: rest := by
    cases back with
    | nil => cases first
    | cons d rest =>
      cases first
      exact ⟨rest, rfl⟩
  obtain ⟨w, rest, ahead⟩ := List.exists_cons_of_ne_nil loopFree
  obtain ⟨rest', u, behind⟩ : ∃ rest u, middle = rest ++ [u] :=
    ⟨_, _, (List.dropLast_concat_getLast loopFree).symm⟩
  -- the first and the last time at `v`
  have firstTime : OpenAt E Z a v w := by
    refine whole a v w ⟨front, rest ++ v :: c :: back, ?_⟩
    rw [ahead]
    simp
  have lastTime : OpenAt E Z u v c := by
    refine whole u v c ⟨front ++ a :: v :: rest', back, ?_⟩
    rw [behind]
    simp
  have loop : Open E Z (v :: middle ++ [v]) := whole.of_infix ⟨front ++ [a], c :: back, by simp⟩
  have loopSteps : (v :: middle ++ [v]).IsChain (Adjacent E) :=
    steps.infix ⟨front ++ [a], c :: back, by simp⟩
  constructor
  · intro both
    by_cases into : E w v
    · exact firstTime.collider ⟨both.1, into⟩
    by_cases into' : E u v
    · exact lastTime.collider ⟨into', both.2⟩
    have away : E v w := by
      have step := loopSteps
      rw [ahead] at step
      exact (step.rel_head? rfl : Adjacent E v w).resolve_right into
    have back_ : E v u := by
      have step := loopSteps
      rw [behind] at step
      have turn : [u, v] <:+: v :: (rest' ++ [u]) ++ [v] := ⟨v :: rest', [], by simp⟩
      have last_ := List.IsChain.infix step turn
      exact (last_.rel_head? rfl : Adjacent E u v).resolve_left into'
    refine turn_leads loop loopSteps loopFree ?_ ?_
    · intro other same
      rw [ahead] at same
      cases same
      exact away
    · intro other same
      rw [behind, List.getLast?_concat] at same
      cases same
      exact back_
  · intro apart inside
    have into : E a v := (Classical.not_not.mp fun none => firstTime.other none inside).1
    have out : E c v := (Classical.not_not.mp fun none => lastTime.other none inside).2
    exact apart ⟨into, out⟩

end Cut

theorem open_path {x y : V} (acyclic : Acyclic E) {walk : List V} (steps : Walk E x y walk)
    (free : Open E Z walk) : ∃ path, UndirectedPath E x y path ∧ Open E Z path := by
  induction length : walk.length using Nat.strongRecOn generalizing walk with
  | ind n ih =>
    by_cases simple : walk.Nodup
    · exact ⟨walk, ⟨steps, simple⟩, free⟩
    obtain ⟨front, v, middle, back, rfl⟩ := exists_repeat simple
    refine ih _ ?_ steps.cut (free.cut acyclic steps.steps) rfl
    rw [← length]
    simp only [List.length_append, List.length_cons]
    omega

end DuDuClaw.Lib.Dag
