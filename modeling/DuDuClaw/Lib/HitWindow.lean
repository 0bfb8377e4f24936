/-
# Lib.HitWindow -- hits that stand close together

A hit is a place and a kind.  Hits come in the order of their places, and what counts is how many
kinds meet in a window of a width, and how close two hits of different kinds come within it.

* `mostKinds_concat`: the most kinds in a window, with one more hit at the end.
* `leastGap_concat`, `leastGap_concat_alone`: the least gap, with one more hit at the end.
-/
import Mathlib.Data.Finset.Card
import Mathlib.Order.Bounds.Basic

namespace DuDuClaw.Lib

variable {width : Nat}

def kindsOf (hits : List (Nat × Nat)) : Finset Nat := (hits.map Prod.snd).toFinset

/-- The kinds with a hit in the window from `lo` on. -/
def kindsWithin (width : Nat) (hits : List (Nat × Nat)) (lo : Nat) : Finset Nat :=
  kindsOf (hits.filter fun h => lo ≤ h.1 ∧ h.1 ≤ lo + width)

/-- The hits that are not further back than the window is wide. -/
def recentHits (width place : Nat) (hits : List (Nat × Nat)) : List (Nat × Nat) :=
  hits.filter fun h => place ≤ h.1 + width

/-- The distances of two hits of different kinds, as far as the window is wide. -/
def gaps (width : Nat) (hits : List (Nat × Nat)) : Set Nat :=
  {gap | ∃ h ∈ hits, ∃ k ∈ hits, h.2 ≠ k.2 ∧ h.1 + gap = k.1 ∧ gap ≤ width}

def MostKinds (width : Nat) (hits : List (Nat × Nat)) (most : Nat) : Prop :=
  IsGreatest (Set.range fun lo => (kindsWithin width hits lo).card) most

def LeastGap (width : Nat) (hits : List (Nat × Nat)) (least : Nat) : Prop :=
  IsLeast (insert width (gaps width hits)) least

theorem mem_kindsOf {hits : List (Nat × Nat)} {kind : Nat} : kind ∈ kindsOf hits ↔ ∃ place, (place, kind) ∈ hits := by
  simp [kindsOf]

theorem mem_kindsWithin {hits : List (Nat × Nat)} {lo kind : Nat} :
    kind ∈ kindsWithin width hits lo ↔ ∃ place, (place, kind) ∈ hits ∧ lo ≤ place ∧ place ≤ lo + width := by
  simp [kindsWithin, mem_kindsOf]

theorem mostKinds_nil : MostKinds width [] 0 := by
  refine ⟨⟨0, rfl⟩, ?_⟩
  rintro _ ⟨lo, rfl⟩
  exact Nat.le_refl 0

/-- One more hit at the end: the windows it ends count as well. -/
theorem mostKinds_concat {hits : List (Nat × Nat)} {most place kind : Nat} (order : ∀ h ∈ hits, h.1 ≤ place)
    (before : MostKinds width hits most) : MostKinds width (hits ++ [(place, kind)])
      (max most (kindsOf (recentHits width place (hits ++ [(place, kind)]))).card) := by
  obtain ⟨⟨reached, attained⟩, bound⟩ := before
  have upper : ∀ lo, (kindsWithin width (hits ++ [(place, kind)]) lo).card ≤
      max most (kindsOf (recentHits width place (hits ++ [(place, kind)]))).card := by
    intro lo
    by_cases inside : lo ≤ place ∧ place ≤ lo + width
    · -- the window ends no later than the new hit's window
      refine le_max_of_le_right (Finset.card_le_card fun k listed => ?_)
      obtain ⟨at_, listed, low, high⟩ := mem_kindsWithin.mp listed
      refine mem_kindsOf.mpr ⟨at_, List.mem_filter.mpr ⟨listed, ?_⟩⟩
      simp only [decide_eq_true_eq]
      omega
    refine le_max_of_le_left ((Finset.card_le_card fun k listed => ?_).trans (bound ⟨lo, rfl⟩))
    obtain ⟨at_, listed, low, high⟩ := mem_kindsWithin.mp listed
    rcases List.mem_append.mp listed with old | new
    · exact mem_kindsWithin.mpr ⟨at_, old, low, high⟩
    · cases List.mem_singleton.mp new
      exact absurd ⟨low, high⟩ inside
  refine ⟨?_, ?_⟩
  · rcases le_total (kindsOf (recentHits width place (hits ++ [(place, kind)]))).card most with old | new
    · refine ⟨reached, le_antisymm (upper reached) ?_⟩
      rw [max_eq_left old, ← attained]
      refine Finset.card_le_card fun k listed => ?_
      obtain ⟨at_, listed, range⟩ := mem_kindsWithin.mp listed
      exact mem_kindsWithin.mpr ⟨at_, List.mem_append_left _ listed, range⟩
    refine ⟨place - width, le_antisymm (upper _) ?_⟩
    rw [max_eq_right new]
    refine Finset.card_le_card fun k listed => ?_
    obtain ⟨at_, recent⟩ := mem_kindsOf.mp listed
    obtain ⟨listed, near⟩ := List.mem_filter.mp recent
    simp only [decide_eq_true_eq] at near
    have earlier : at_ ≤ place := by
      rcases List.mem_append.mp listed with old | last
      · exact order _ old
      · cases List.mem_singleton.mp last
        exact Nat.le_refl _
    exact mem_kindsWithin.mpr ⟨at_, listed, by omega, by omega⟩
  · rintro _ ⟨lo, rfl⟩
    exact upper lo

theorem leastGap_nil : LeastGap width [] width := by
  refine ⟨Set.mem_insert _ _, ?_⟩
  rintro gap (rfl | ⟨h, listed, -⟩)
  · exact Nat.le_refl _
  · cases listed

theorem gaps_mono {hits : List (Nat × Nat)} {place kind gap : Nat} (old : gap ∈ gaps width hits) :
    gap ∈ gaps width (hits ++ [(place, kind)]) := by
  obtain ⟨h, inH, k, inK, rest⟩ := old
  exact ⟨h, List.mem_append_left _ inH, k, List.mem_append_left _ inK, rest⟩

/-- A gap with one more hit at the end is an old one, or one to a recent hit of another kind. -/
theorem gaps_concat {hits : List (Nat × Nat)} {place kind gap : Nat} (order : ∀ h ∈ hits, h.1 ≤ place)
    (found : gap ∈ gaps width (hits ++ [(place, kind)])) :
    gap ∈ gaps width hits ∨ ∃ h ∈ recentHits width place hits, h.2 ≠ kind ∧ place - h.1 = gap := by
  obtain ⟨h, inH, k, inK, differ, distance, near⟩ := found
  rcases List.mem_append.mp inH with oldH | newH
  · rcases List.mem_append.mp inK with oldK | newK
    · exact .inl ⟨h, oldH, k, oldK, differ, distance, near⟩
    cases List.mem_singleton.mp newK
    refine .inr ⟨h, List.mem_filter.mpr ⟨oldH, ?_⟩, differ, ?_⟩
    · simp only [decide_eq_true_eq]
      dsimp only at distance
      omega
    · dsimp only at distance
      omega
  · cases List.mem_singleton.mp newH
    rcases List.mem_append.mp inK with oldK | newK
    · have earlier := order k oldK
      dsimp only at distance
      refine .inr ⟨k, List.mem_filter.mpr ⟨oldK, ?_⟩, differ.symm, ?_⟩
      · simp only [decide_eq_true_eq]
        omega
      · omega
    · cases List.mem_singleton.mp newK
      exact absurd rfl differ

theorem leastGap_concat_alone {hits : List (Nat × Nat)} {least place kind : Nat} (order : ∀ h ∈ hits, h.1 ≤ place)
    (before : LeastGap width hits least) (alone : ∀ h ∈ recentHits width place hits, h.2 = kind) :
    LeastGap width (hits ++ [(place, kind)]) least := by
  refine ⟨Set.insert_subset_insert (fun _ => gaps_mono) before.1, ?_⟩
  rintro gap (rfl | found)
  · exact before.2 (Set.mem_insert _ _)
  · rcases gaps_concat order found with old | ⟨h, recent, differ, -⟩
    · exact before.2 (Set.mem_insert_of_mem _ old)
    · exact absurd (alone h recent) differ

theorem leastGap_concat {hits : List (Nat × Nat)} {least place kind : Nat} (order : ∀ h ∈ hits, h.1 ≤ place)
    (before : LeastGap width hits least) {near : Nat × Nat} (recent : near ∈ recentHits width place hits)
    (other : near.2 ≠ kind) (nearest : ∀ h ∈ recentHits width place hits, h.2 ≠ kind → h.1 ≤ near.1) :
    LeastGap width (hits ++ [(place, kind)]) (min least (place - near.1)) := by
  obtain ⟨listed, within⟩ := List.mem_filter.mp recent
  simp only [decide_eq_true_eq] at within
  have earlier := order near listed
  have new : place - near.1 ∈ gaps width (hits ++ [(place, kind)]) :=
    ⟨near, List.mem_append_left _ listed, (place, kind), List.mem_append_right _ List.mem_cons_self, other,
      by dsimp only; omega, by omega⟩
  refine ⟨?_, ?_⟩
  · rcases le_total least (place - near.1) with old | less
    · rw [min_eq_left old]
      exact Set.insert_subset_insert (fun _ => gaps_mono) before.1
    · rw [min_eq_right less]
      exact Set.mem_insert_of_mem _ new
  · rintro gap (rfl | found)
    · exact min_le_of_left_le (before.2 (Set.mem_insert _ _))
    rcases gaps_concat order found with old | ⟨h, recent, differ, rfl⟩
    · exact min_le_of_left_le (before.2 (Set.mem_insert_of_mem _ old))
    · have closer := nearest h recent differ
      exact min_le_of_right_le (by omega)

end DuDuClaw.Lib
