import Mathlib.Order.Lattice

/-!
# Running extremes

The best of the values seen so far, kept by replacing it with each value that is
better.
-/

namespace CocoDB.Lib

variable {α : Type}

def keepBetter (better : α → α → Bool) (kept : Option α) (value : α) :
    Option α :=
  match kept with
  | none => some value
  | some current => if better value current then some value else some current

def Best (le : α → α → Prop) (values : List α) : Option α → Prop
  | none => values = []
  | some best => best ∈ values ∧ ∀ value ∈ values, le best value

/-- The comparison tells which value is below the other. -/
structure Decides (better : α → α → Bool) (le : α → α → Prop) : Prop where
  yes : ∀ {one two}, better one two = true → le one two
  no : ∀ {one two}, better one two = false → le two one
  refl : ∀ one, le one one
  trans : ∀ {one two three}, le one two → le two three → le one three
  antisymm : ∀ {one two}, le one two → le two one → one = two

theorem decides_lt [LinearOrder α] :
    Decides (fun one two : α => decide (one < two)) (· ≤ ·) where
  yes less := (of_decide_eq_true less).le
  no more := not_lt.mp (of_decide_eq_false more)
  refl := le_refl
  trans := le_trans
  antisymm := le_antisymm

theorem decides_gt [LinearOrder α] :
    Decides (fun one two : α => decide (two < one)) (· ≥ ·) where
  yes more := (of_decide_eq_true more).le
  no less := not_lt.mp (of_decide_eq_false less)
  refl := le_refl
  trans below further := le_trans further below
  antisymm below above := le_antisymm above below

section Best

variable {better : α → α → Bool} {le : α → α → Prop} {values others : List α}
  {kept : Option α}

theorem Best.of_mem_iff (best : Best le values kept)
    (same : ∀ value, value ∈ others ↔ value ∈ values) :
    Best le others kept := by
  cases kept with
  | none =>
      rw [Best] at best
      rw [Best, List.eq_nil_iff_forall_not_mem]
      intro value member
      rw [same, best] at member
      cases member
  | some current =>
      refine ⟨(same current).mpr best.1, ?_⟩
      intro value member
      exact best.2 value ((same value).mp member)

theorem Best.keepBetter (decides : Decides better le)
    (best : Best le values kept) (value : α) :
    Best le (values ++ [value]) (Lib.keepBetter better kept value) := by
  cases kept with
  | none =>
      rw [Best] at best
      subst best
      refine ⟨List.mem_singleton_self value, ?_⟩
      intro other member
      rw [List.nil_append, List.mem_singleton] at member
      rw [member]
      exact decides.refl value
  | some current =>
      obtain ⟨listed, least⟩ := best
      rw [Lib.keepBetter]
      cases found : better value current with
      | true =>
          rw [if_pos rfl]
          refine ⟨by simp, ?_⟩
          intro other member
          rw [List.mem_append, List.mem_singleton] at member
          cases member with
          | inl earlier =>
              exact decides.trans (decides.yes found) (least other earlier)
          | inr same =>
              rw [same]
              exact decides.refl value
      | false =>
          rw [if_neg Bool.false_ne_true]
          refine ⟨by simp [listed], ?_⟩
          intro other member
          rw [List.mem_append, List.mem_singleton] at member
          cases member with
          | inl earlier => exact least other earlier
          | inr same =>
              rw [same]
              exact decides.no found

theorem Best.unique (decides : Decides better le) (best : Best le values kept)
    {found : Option α} (another : Best le others found)
    (same : ∀ value, value ∈ others ↔ value ∈ values) : found = kept := by
  have moved := another.of_mem_iff fun value => (same value).symm
  cases kept with
  | none =>
      rw [Best] at best
      subst best
      cases found with
      | none => rfl
      | some other => exact absurd moved.1 List.not_mem_nil
  | some current =>
      cases found with
      | none =>
          rw [Best] at moved
          rw [moved] at best
          exact absurd best.1 List.not_mem_nil
      | some other =>
          have below := moved.2 current best.1
          have above := best.2 other moved.1
          rw [decides.antisymm below above]

def bestOf (better : α → α → Bool) (values : List α) : Option α :=
  values.foldl (keepBetter better) none

theorem bestOf_best (decides : Decides better le) (values : List α) :
    Best le values (bestOf better values) := by
  have later : ∀ (rest seen : List α) (kept : Option α),
      Best le seen kept →
      Best le (seen ++ rest) (rest.foldl (Lib.keepBetter better) kept) := by
    intro rest
    induction rest with
    | nil =>
        intro seen kept best
        rw [List.append_nil]
        exact best
    | cons value rest inductionHypothesis =>
        intro seen kept best
        have next := inductionHypothesis _ _ (best.keepBetter decides value)
        rw [List.append_assoc, List.singleton_append] at next
        exact next
  exact later values [] none rfl

theorem bestOf_congr (decides : Decides better le)
    (same : ∀ value, value ∈ others ↔ value ∈ values) :
    bestOf better others = bestOf better values :=
  (bestOf_best decides values).unique decides (bestOf_best decides others) same

end Best

end CocoDB.Lib
