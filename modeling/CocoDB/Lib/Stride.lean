import Mathlib.Algebra.BigOperators.Group.Finset.Basic

/-!
# Loops with a stride

A loop that takes several places at a time for as long as all of them are in
front of an end, and the sums that such loops add up.  A turn of a loop may
fail.
-/

namespace CocoDB.Lib

open Finset

universe u v

section Loop

variable {σ : Type u}

/-- `for ; i+width < n; i += width+1` -/
def strideLoop (width n : Nat) (turn : Nat → σ → Option σ) (i : Nat)
    (state : σ) : Option (Nat × σ) :=
  if i + width < n then
    match turn i state with
    | none => none
    | some next => strideLoop width n turn (i + (width + 1)) next
  else some (i, state)
termination_by n - i

variable {width n : Nat} {turn : Nat → σ → Option σ}

theorem strideLoop_spec {holds : Nat → σ → Prop}
    (keeps : ∀ i state, i + width < n → holds i state →
      ∃ next, turn i state = some next ∧ holds (i + (width + 1)) next)
    {i : Nat} {state : σ} (before : i ≤ n) (start : holds i state) :
    ∃ j final, strideLoop width n turn i state = some (j, final) ∧
      holds j final ∧ j ≤ n ∧ n ≤ j + width := by
  induction i, state using strideLoop.induct width n turn with
  | case1 i state inside failed =>
      obtain ⟨next, taken, _⟩ := keeps i state inside start
      rw [failed] at taken
      cases taken
  | case2 i state inside next taken inductionHypothesis =>
      obtain ⟨other, also, kept⟩ := keeps i state inside start
      rw [taken] at also
      cases also
      rw [strideLoop, if_pos inside, taken]
      exact inductionHypothesis (by omega) kept
  | case3 i state outside =>
      rw [strideLoop, if_neg outside]
      exact ⟨i, state, rfl, start, before, by omega⟩

/-! ## Sums -/

variable {M : Type v} [AddCommMonoid M] {value : σ → M} {term : Nat → M}

def Adds (width n : Nat) (turn : Nat → σ → Option σ) (value : σ → M)
    (term : Nat → M) : Prop :=
  ∀ i state, i + width < n → ∃ next, turn i state = some next ∧
    value next = value state + ∑ k ∈ range (width + 1), term (i + k)

theorem Adds.strideLoop_sum (adds : Adds width n turn value term) {i : Nat}
    {state : σ} (before : i ≤ n)
    (start : value state = ∑ k ∈ range i, term k) :
    ∃ j final, strideLoop width n turn i state = some (j, final) ∧
      value final = ∑ k ∈ range j, term k ∧ j ≤ n ∧ n ≤ j + width := by
  apply strideLoop_spec _ before start
  intro i state inside sum
  obtain ⟨next, taken, more⟩ := adds i state inside
  refine ⟨next, taken, ?_⟩
  rw [more, sum]
  exact (sum_range_add term i (width + 1)).symm

theorem Adds.strideLoop_total (adds : Adds 0 n turn value term) {i : Nat}
    {state : σ} (before : i ≤ n)
    (start : value state = ∑ k ∈ range i, term k) :
    ∃ final, strideLoop 0 n turn i state = some (n, final) ∧
      value final = ∑ k ∈ range n, term k := by
  obtain ⟨j, final, done, sum, within, reached⟩ :=
    adds.strideLoop_sum before start
  obtain rfl : j = n := by omega
  exact ⟨final, done, sum⟩

end Loop

end CocoDB.Lib
