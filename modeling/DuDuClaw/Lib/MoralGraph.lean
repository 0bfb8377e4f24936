/-
# Lib.MoralGraph -- d-separation by reachability

Of two nodes and a set, keep what leads to any of them; join the nodes that have an edge or
lead by one edge each to the same kept node, and forget the directions.  In a graph without
cycles the set d-separates the two nodes exactly when it cuts them apart in what is left.

* `ancestral_of_open`, `moral_of_open`: an open path lies in the kept part, and its nodes that
  are no colliders are joined one to the next.
* `trail_of_moral`: from one join to the next there is an open walk, or one to the end at once.
* `dSeparated_iff`: both together.
-/
import DuDuClaw.Lib.DSeparation

namespace DuDuClaw.Lib.Dag

open Relation

variable {V : Type}

section Defs

variable (E : V → V → Prop) (Z : V → Prop) (x y : V)

/-- It leads to one of the two nodes, or to the set. -/
def Ancestral (v : V) : Prop := ReflTransGen E v x ∨ ReflTransGen E v y ∨ Leads E Z v

/-- Both nodes are kept, and have an edge or lead by one edge each to a kept node. -/
structure Moral (keep : V → Prop) (a b : V) : Prop where
  left : keep a
  right : keep b
  joined : Adjacent E a b ∨ ∃ c, keep c ∧ E a c ∧ E b c

/-- A step in the moral graph to a node that is not in the set. -/
def MoralStep (a b : V) : Prop := Moral E (Ancestral E Z x y) a b ∧ ¬Z b

end Defs

variable {E : V → V → Prop} {Z : V → Prop} {x y : V}

theorem Ancestral.of_leads {v : V} (leads : Leads E Z v) : Ancestral E Z x y v := .inr (.inr leads)

/-! ## From a path to the moral graph -/

/-- **Every node of an open walk is kept.** -/
theorem ancestral_of_open {walk : List V} (steps : Walk E x y walk) (free : Open E Z walk) {v : V}
    (listed : v ∈ walk) : Ancestral E Z x y v := by
  obtain ⟨front, back, rfl⟩ := List.append_of_mem listed
  have chain := steps.steps
  cases back with
  | nil =>
    have last := steps.last
    rw [List.getLast?_concat] at last
    cases last
    exact .inr (.inl .refl)
  | cons c back =>
    have ahead := free.of_infix (List.suffix_append front _).isInfix
    have aheadSteps := chain.right_of_append
    by_cases away : E v c
    · have last := steps.last
      rw [List.getLast?_append_cons, List.getLast?_cons_cons] at last
      exact .inr (forward_leads ahead aheadSteps away last)
    have into : E c v := (aheadSteps.rel_head? rfl : Adjacent E v c).resolve_left away
    rcases List.eq_nil_or_concat' front with rfl | ⟨front, a, rfl⟩
    · have first := steps.first
      cases first
      exact .inl .refl
    by_cases back_ : E v a
    · -- the walk up to here, turned around
      have turned : (v :: a :: front.reverse).reverse = front ++ [a] ++ [v] := by simp
      have behind : Open E Z (v :: a :: front.reverse) := by
        rw [← List.reverse_reverse (v :: a :: front.reverse), turned]
        exact (free.of_infix ⟨[], c :: back, by simp⟩).reverse
      have behindSteps : (v :: a :: front.reverse).IsChain (Adjacent E) := by
        rw [← List.reverse_reverse (v :: a :: front.reverse), turned, List.isChain_reverse]
        have inside : front ++ [a] ++ [v] <:+: front ++ [a] ++ v :: c :: back :=
          ⟨[], c :: back, by simp⟩
        have part := List.IsChain.infix chain inside
        exact part.imp fun _ _ => Adjacent.symm
      have last : (a :: front.reverse).getLast? = some x := by
        have first := steps.first
        cases front with
        | nil => exact first
        | cons d front =>
          cases first
          rw [List.reverse_cons, ← List.cons_append, List.getLast?_concat]
      rcases forward_leads behind behindSteps back_ last with down | leads
      · exact .inl down
      · exact .of_leads leads
    · have here : OpenAt E Z a v c := by
        refine free a v c ⟨front, back, by simp⟩
      have back' : E a v := by
        have pair : [a, v] <:+: front ++ [a] ++ v :: c :: back := ⟨front, c :: back, by simp⟩
        have part := List.IsChain.infix chain pair
        exact (part.rel_head? rfl : Adjacent E a v).resolve_right back_
      exact .of_leads (here.collider ⟨back', into⟩)

/-- **The nodes of an open walk that are no colliders** are joined one to the next. -/
theorem moral_of_open (acyclic : Acyclic E) {rest : List V} {a : V} (outside : ¬Z a)
    (free : Open E Z (a :: rest)) (steps : (a :: rest).IsChain (Adjacent E))
    (kept : ∀ v ∈ a :: rest, Ancestral E Z x y v) {last : V}
    (isLast : (a :: rest).getLast? = some last) (lastOutside : ¬Z last) :
    ReflTransGen (MoralStep E Z x y) a last := by
  induction length : rest.length using Nat.strongRecOn generalizing rest a with
  | ind n ih =>
    subst length
    match rest with
    | [] =>
      cases isLast
      exact .refl
    | [b] =>
      cases isLast
      have joined : Adjacent E a b := steps.rel_head? rfl
      exact .single ⟨⟨kept a (by simp), kept b (by simp), .inl joined⟩, lastOutside⟩
    | b :: c :: rest =>
      have tail := steps.tail
      have here := free.first
      have joined : Adjacent E a b := steps.rel_head? rfl
      rw [List.getLast?_cons_cons] at isLast
      by_cases turn : Collider E a b c
      · -- past the collider to the next node, which is none
        have beyond : ¬Z c := by
          cases rest with
          | nil =>
            cases isLast
            exact lastOutside
          | cons d rest =>
            have next := (free.of_infix (List.suffix_cons _ _).isInfix).first
            exact next.other fun both => acyclic.asymm turn.2 both.1
        have married : MoralStep E Z x y a c :=
          ⟨⟨kept a (by simp), kept c (by simp), .inr ⟨b, kept b (by simp), turn⟩⟩, beyond⟩
        rw [List.getLast?_cons_cons] at isLast
        refine .head married (ih _ ?_ beyond (free.of_infix ⟨[a, b], [], by simp⟩) tail.tail ?_
          isLast rfl)
        · simp only [List.length_cons]
          omega
        · exact fun v listed => kept v (by simp_all)
      · have outside' : ¬Z b := here.other turn
        refine .head ⟨⟨kept a (by simp), kept b (by simp), .inl joined⟩, outside'⟩
          (ih _ ?_ outside' (free.of_infix ⟨[a], [], by simp⟩) tail ?_ isLast rfl)
        · simp only [List.length_cons]
          omega
        · exact fun v listed => kept v (by simp_all)

/-! ## From the moral graph to a walk -/

/-- An open walk from `x`, kept from its end backwards. -/
structure Trail (E : V → V → Prop) (Z : V → Prop) (x b : V) (trail : List V) : Prop where
  walk : Walk E b x trail
  free : Open E Z trail

namespace Trail

variable {a b : V} {trail : List V}

theorem start (x : V) : Trail E Z x x [x] := ⟨⟨rfl, rfl, List.isChain_singleton x⟩, .single x⟩

theorem extend (here : Trail E Z x a trail) (joined : Adjacent E b a)
    (free : ∀ p back, trail = a :: p :: back → OpenAt E Z b a p) : Trail E Z x b (b :: trail) := by
  have first := here.walk.first
  obtain ⟨back, rfl⟩ : ∃ back, trail = a :: back := by
    cases trail with
    | nil => cases first
    | cons c back =>
      cases first
      exact ⟨back, rfl⟩
  refine ⟨⟨rfl, ?_, ?_⟩, ?_⟩
  · rw [List.getLast?_cons_cons]
    exact here.walk.last
  · exact List.isChain_cons_cons.mpr ⟨joined, here.walk.steps⟩
  · refine here.free.cons fun c p rest shape => ?_
    cases shape
    exact free p rest rfl

theorem leave (acyclic : Acyclic E) (here : Trail E Z x a trail) (outside : ¬Z a) (edge : E a b) :
    Trail E Z x b (b :: trail) :=
  here.extend (.inr edge) fun _ _ _ => .of_leaving acyclic outside (.inl edge)

/-- Down to a node, past nothing that leads to the set. -/
theorem down (acyclic : Acyclic E) (here : Trail E Z x a trail) (free : ¬Leads E Z a)
    (path : ReflTransGen E a b) : ∃ trail, Trail E Z x b trail := by
  induction path using ReflTransGen.head_induction_on generalizing trail with
  | refl => exact ⟨trail, here⟩
  | head edge _ ih =>
    refine ih (here.leave acyclic (fun inside => free (.of_mem inside)) edge) ?_
    exact fun leads => free (leads.head edge)

/-- Up from `x`, against the edges. -/
theorem up (acyclic : Acyclic E) (free : ¬Leads E Z a) (path : ReflTransGen E a x) :
    ∃ trail, Trail E Z x a trail ∧ ∀ p back, trail = a :: p :: back → E a p := by
  induction path using ReflTransGen.head_induction_on with
  | refl => exact ⟨[x], start x, fun p back shape => nomatch shape⟩
  | @head a c edge _ ih =>
    have free' : ¬Leads E Z c := fun leads => free (leads.head edge)
    obtain ⟨trail, here, leaves⟩ := ih free'
    have outside : ¬Z c := fun inside => free' (.of_mem inside)
    refine ⟨a :: trail, here.extend (.inl edge) ?_, ?_⟩
    · exact fun p back shape => .of_leaving acyclic outside (.inr (leaves p back shape))
    · intro p back shape
      obtain ⟨rfl⟩ := Option.some.inj (here.walk.first.symm.trans
        (congrArg List.head? (List.cons.inj shape).2))
      exact edge

/-- On against an edge: where the node would block, it leads to one of the two ends, and the
walk comes from there or goes there. -/
theorem cross (acyclic : Acyclic E) (here : Trail E Z x a trail) (edge : E b a)
    (kept : Ancestral E Z x y a) (turns : Z a → ∀ p back, trail = a :: p :: back → E p a) :
    (∃ trail, Trail E Z x b trail) ∨ ∃ trail, Trail E Z x y trail := by
  by_cases leads : Leads E Z a
  · refine .inl ⟨_, here.extend (.inl edge) fun p back shape => ⟨fun _ => leads, ?_⟩⟩
    exact fun apart inside => apart ⟨edge, turns inside p back shape⟩
  have outside : ¬Z a := fun inside => leads (.of_mem inside)
  rcases kept with toX | toY | inside
  · obtain ⟨trail', up, leaves⟩ := up acyclic leads toX
    exact .inl ⟨_, up.extend (.inl edge) fun p back shape =>
      .of_leaving acyclic outside (.inr (leaves p back shape))⟩
  · exact .inr (here.down acyclic leads toY)
  · exact absurd inside leads

end Trail

/-- **A way in the moral graph gives an open walk**, to its end or to `y` at once. -/
theorem trail_of_moral (acyclic : Acyclic E) (outside : ¬Z x) {b : V}
    (way : ReflTransGen (MoralStep E Z x y) x b) :
    ¬Z b ∧ ((∃ trail, Trail E Z x b trail) ∨ ∃ trail, Trail E Z x y trail) := by
  induction way with
  | refl => exact ⟨outside, .inl ⟨_, .start x⟩⟩
  | @tail a b _ step ih =>
    obtain ⟨outside', ⟨trail, here⟩ | done⟩ := ih
    · refine ⟨step.2, ?_⟩
      rcases step.1.joined with (edge | edge) | ⟨c, kept, edge, edge'⟩
      · exact .inl ⟨_, here.leave acyclic outside' edge⟩
      · exact here.cross acyclic edge step.1.left fun inside => absurd inside outside'
      -- down to the child of both, and up again
      have child := here.leave acyclic outside' edge
      refine child.cross acyclic edge' kept fun _ p back shape => ?_
      obtain ⟨rfl⟩ := Option.some.inj (here.walk.first.symm.trans
        (congrArg List.head? (List.cons.inj shape).2))
      exact edge
    · exact ⟨step.2, .inr done⟩

/-! ## Both -/

theorem Walk.reverse {walk : List V} (steps : Walk E x y walk) : Walk E y x walk.reverse where
  first := by rw [List.head?_reverse, steps.last]
  last := by rw [List.getLast?_reverse, steps.first]
  steps := by
    rw [List.isChain_reverse]
    exact steps.steps.imp fun _ _ => Adjacent.symm

/-- **D-separation is separation in the moral graph** of what leads to the two nodes or the set. -/
theorem dSeparated_iff (acyclic : Acyclic E) (outside : ¬Z x) (outside' : ¬Z y) :
    DSeparated E Z x y ↔ ¬ReflTransGen (MoralStep E Z x y) x y := by
  constructor
  · intro separated way
    have open_ : ∃ trail, Trail E Z x y trail := by
      obtain ⟨-, found | found⟩ := trail_of_moral acyclic outside way
      · exact found
      · exact found
    obtain ⟨trail, here⟩ := open_
    obtain ⟨path, isPath, free⟩ := open_path acyclic here.walk.reverse here.free.reverse
    exact open_iff.mp free (separated path isPath)
  · intro apart path isPath
    by_contra free
    rw [← open_iff] at free
    obtain ⟨rest, rfl⟩ : ∃ rest, path = x :: rest := by
      have first := isPath.first
      cases path with
      | nil => cases first
      | cons a rest =>
        cases first
        exact ⟨rest, rfl⟩
    exact apart (moral_of_open acyclic outside free isPath.steps
      (fun v listed => ancestral_of_open isPath.toWalk free listed) isPath.last outside')

end DuDuClaw.Lib.Dag
