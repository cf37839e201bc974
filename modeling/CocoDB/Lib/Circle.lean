import Mathlib.Data.List.GetD
import Mathlib.Data.List.Sort

/-!
# Circles of sorted items

A sorted list is read as a circle.  The item that follows a starting point is
the first one met when going round from it, whether or not the list holds the
starting point.
-/

namespace CocoDB.Lib

section Circle

variable {α : Type} [LinearOrder α]

/-- Going round from `start`, `left` is met no later than `right`. -/
def MetBefore (start left right : α) : Prop :=
  (start ≤ left ∧ right < start) ∨
    ((start ≤ left ↔ start ≤ right) ∧ left ≤ right)

theorem MetBefore.antisymm {start left right : α}
    (first : MetBefore start left right) (second : MetBefore start right left) :
    left = right := by
  rcases first with ⟨leftAfter, rightBefore⟩ | ⟨same, leftLe⟩
  · rcases second with ⟨rightAfter, _⟩ | ⟨same, _⟩
    · exact absurd rightAfter (not_le.mpr rightBefore)
    · exact absurd (same.mpr leftAfter) (not_le.mpr rightBefore)
  · rcases second with ⟨rightAfter, leftBefore⟩ | ⟨_, rightLe⟩
    · exact absurd (same.mpr rightAfter) (not_le.mpr leftBefore)
    · exact le_antisymm leftLe rightLe

structure Follows (start : α) (items : List α) (item : α) : Prop where
  mem : item ∈ items
  first : ∀ other ∈ items, MetBefore start item other

namespace Follows

variable {start item other : α} {items fewer : List α}

theorem unique (left : Follows start items item)
    (right : Follows start items other) : item = other :=
  (left.first other right.mem).antisymm (right.first item left.mem)

theorem of_subset (follows : Follows start items item)
    (subset : fewer ⊆ items) (mem : item ∈ fewer) :
    Follows start fewer item where
  mem := mem
  first other otherMem := follows.first other (subset otherMem)

end Follows

/-- The position `sort.Search` finds, around the circle. -/
def searchAround (start : α) (items : List α) : Nat :=
  let idx := items.findIdx fun item => start ≤ item
  if idx = items.length then 0 else idx

theorem searchAround_lt {start : α} {items : List α} (nonempty : items ≠ []) :
    searchAround start items < items.length := by
  have positive := List.length_pos_iff.mpr nonempty
  have bounded := @List.findIdx_le_length _
    (fun item => decide (start ≤ item)) items
  unfold searchAround
  dsimp only
  split <;> omega

theorem follows_searchAround {start : α} {items : List α}
    (sorted : items.Pairwise (· ≤ ·)) (nonempty : items ≠ []) (default : α) :
    Follows start items (items.getD (searchAround start items) default) := by
  have bounded := @searchAround_lt _ _ start _ nonempty
  rw [List.getD_eq_getElem _ _ bounded]
  refine ⟨List.getElem_mem bounded, fun other otherMem => ?_⟩
  obtain ⟨position, inside, rfl⟩ := List.getElem_of_mem otherMem
  have ordered := List.pairwise_iff_getElem.mp sorted
  by_cases found : items.findIdx (fun item => start ≤ item) < items.length
  · have index : searchAround start items =
        items.findIdx fun item => start ≤ item := by
      simp only [searchAround, found.ne, if_false]
    have reached : start ≤ items[items.findIdx fun item => start ≤ item] := by
      simpa using List.findIdx_getElem (w := found)
    simp only [index]
    -- what stands before the position found lies behind the starting point
    rcases lt_or_ge position (items.findIdx fun item => start ≤ item) with
      before | after
    · have behind := List.not_of_lt_findIdx before
      exact Or.inl ⟨reached, by simpa using behind⟩
    · have le : items[items.findIdx fun item => start ≤ item] ≤
          items[position] := by
        rcases after.eq_or_lt with same | later
        · simp only [same, le_refl]
        · exact ordered _ _ found inside later
      exact Or.inr ⟨iff_of_true reached (reached.trans le), le⟩
  · have allBehind : ∀ item ∈ items, item < start := by
      simpa [List.findIdx_lt_length] using found
    have index : searchAround start items = 0 := by
      have last := le_antisymm List.findIdx_le_length (not_lt.mp found)
      simp only [searchAround, last, if_true]
    simp only [index]
    rw [index] at bounded
    have le : items[0] ≤ items[position] := by
      rcases position.eq_zero_or_pos with zero | positive
      · simp only [zero, le_refl]
      · exact ordered _ _ bounded inside positive
    have firstBehind := allBehind _ (List.getElem_mem bounded)
    exact Or.inr ⟨iff_of_false (not_le.mpr firstBehind)
      (not_le.mpr (allBehind _ otherMem)), le⟩

end Circle

end CocoDB.Lib
