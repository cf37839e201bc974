import CocoDB.Lib.Buffer
import Mathlib.Order.Compare

/-!
# Codes that keep the order

A code writes values as strings so that the strings compare as the values do,
whatever follows them.  Such a code can be chained: a list of values is compared
by comparing the concatenation of their codes.
-/

namespace CocoDB.Lib

section Codes

variable {α β : Type} [Ord β]

/-- Codes compare as the values do, and what follows counts only between equal
values. -/
def OrderedCode (code : α → List β) (order : α → α → Ordering) : Prop :=
  ∀ ⦃left right leftRest rightRest⦄,
    compare (code left ++ leftRest) (code right ++ rightRest) =
      (order left right).then (compare leftRest rightRest)

variable {code : α → List β} {order : α → α → Ordering}

theorem OrderedCode.compare_flatMap (ordered : OrderedCode code order)
    (nonempty : ∀ value, code value ≠ []) (left right : List α) :
    compare (left.flatMap code) (right.flatMap code) =
      left.compareLex order right := by
  induction left generalizing right with
  | nil =>
      cases right with
      | nil => rfl
      | cons value rest =>
          obtain ⟨head, tail, spelled⟩ :=
            List.exists_cons_of_ne_nil (nonempty value)
          rw [List.flatMap_cons, spelled]
          rfl
  | cons value rest inductionHypothesis =>
      cases right with
      | nil =>
          obtain ⟨head, tail, spelled⟩ :=
            List.exists_cons_of_ne_nil (nonempty value)
          rw [List.flatMap_cons, spelled]
          rfl
      | cons other others =>
          rw [List.flatMap_cons, List.flatMap_cons, ordered,
            inductionHypothesis, List.compareLex_cons_cons]

theorem OrderedCode.eq_of_prefix [Std.LawfulEqOrd β]
    (ordered : OrderedCode code order) {left right : α}
    (begins : code left <+: code right)
    (separates : order left right = .eq → left = right) : left = right := by
  obtain ⟨rest, spelled⟩ := begins
  have plain := @ordered left right rest []
  rw [spelled, List.append_nil, Std.compare_eq_iff_eq.mpr rfl] at plain
  exact separates (Ordering.then_eq_eq.mp plain.symm).1

theorem eq_of_compareLex {order : α → α → Ordering}
    (separates : ∀ {left right}, order left right = .eq → left = right)
    {left right : List α} (same : left.compareLex order right = .eq) :
    left = right := by
  induction left generalizing right with
  | nil =>
      cases right with
      | nil => rfl
      | cons value rest => cases same
  | cons value rest inductionHypothesis =>
      cases right with
      | nil => cases same
      | cons other others =>
          rw [List.compareLex_cons_cons, Ordering.then_eq_eq] at same
          rw [separates same.1, inductionHypothesis same.2]

end Codes

/-! ## Numbers of fixed width -/

theorem compare_toNat (left right : UInt8) :
    compare left right = compare left.toNat right.toNat := by
  show (if left < right then Ordering.lt
    else if left = right then .eq else .gt) =
      if left.toNat < right.toNat then Ordering.lt
      else if left.toNat = right.toNat then .eq else .gt
  simp only [UInt8.lt_iff_toNat_lt, UInt8.toNat_inj]

theorem compare_shift {left right : Nat} {first second shift : Int}
    (leftShift : (left : Int) = first + shift)
    (rightShift : (right : Int) = second + shift) :
    compare left right = compare first second := by
  rcases lt_trichotomy first second with less | equal | greater
  · rw [compare_lt_iff_lt.mpr less, compare_lt_iff_lt]
    omega
  · rw [compare_eq_iff_eq.mpr equal, compare_eq_iff_eq]
    omega
  · rw [compare_gt_iff_gt.mpr greater, compare_gt_iff_gt]
    omega

theorem compare_digits (left right base : Nat) :
    (compare (left / base) (right / base)).then
      (compare (left % base) (right % base)) = compare left right := by
  have leftDigits := Nat.div_add_mod left base
  have rightDigits := Nat.div_add_mod right base
  rcases Nat.eq_zero_or_pos base with none | positive
  · subst none
    rw [Nat.div_zero, Nat.div_zero, Nat.mod_zero, Nat.mod_zero]
    rfl
  have leftSmall := Nat.mod_lt left positive
  have rightSmall := Nat.mod_lt right positive
  rcases lt_trichotomy (left / base) (right / base) with
    less | equal | greater
  · rw [compare_lt_iff_lt.mpr less]
    have step := Nat.mul_le_mul_left base less
    rw [Nat.mul_succ] at step
    exact (compare_lt_iff_lt.mpr (by omega)).symm
  · rw [compare_eq_iff_eq.mpr equal]
    rw [equal] at leftDigits
    rcases lt_trichotomy (left % base) (right % base) with
      below | same | above
    · rw [compare_lt_iff_lt.mpr below]
      exact (compare_lt_iff_lt.mpr (by omega)).symm
    · rw [compare_eq_iff_eq.mpr same]
      exact (compare_eq_iff_eq.mpr (by omega)).symm
    · rw [compare_gt_iff_gt.mpr above]
      exact (compare_gt_iff_gt.mpr (by omega)).symm
  · rw [compare_gt_iff_gt.mpr greater]
    have step := Nat.mul_le_mul_left base greater
    rw [Nat.mul_succ] at step
    exact (compare_gt_iff_gt.mpr (by omega)).symm

theorem be_ordered (width : Nat) {left right : Nat}
    (leftSmall : left < 256 ^ width) (rightSmall : right < 256 ^ width)
    (leftRest rightRest : Bytes) :
    compare (be width left ++ leftRest) (be width right ++ rightRest) =
      (compare left right).then (compare leftRest rightRest) := by
  induction width generalizing left right leftRest rightRest with
  | zero =>
      obtain rfl : left = 0 := by omega
      obtain rfl : right = 0 := by omega
      rfl
  | succ width inductionHypothesis =>
      have digit : ∀ value : Nat,
          (UInt8.ofNat value).toNat = value % 256 := fun value => rfl
      rw [Nat.pow_succ] at leftSmall rightSmall
      rw [be, be, List.append_assoc, List.append_assoc,
        inductionHypothesis (by omega) (by omega), List.singleton_append,
        List.singleton_append, List.compare_cons_cons, compare_toNat, digit,
        digit, ← Ordering.then_assoc, compare_digits]

end CocoDB.Lib
