import CocoDB.Query.Derived

/-!
# Comparing integers

Equality with an integer compares 64-bit integers, the orders compare floats.
They fit together unless two different integers become the same float.
-/

namespace CocoDB.Query

open Lib Cson
open Index (Runtime)

def integerAt : Option Value → Option Int
  | some (.scalar (.int64 value)) => some value.toInt
  | some (.scalar (.uint64 value)) => some value.toNat
  | _ => none

/-- The operand is the integer, as an `int` or as an `int64`. -/
def IsInteger (val : Value) (operand : Int64) : Prop :=
  val = .scalar (.int operand) ∨ val = .scalar (.int64 operand)

/-- The five comparisons with an operand give the relations of the integers. -/
structure ComparesExactly (runtime : Runtime) (view : DocumentView)
    (field : Bytes) (val : Value) (stored operand : Int) : Prop where
  eq : evaluate runtime view (.eq field val) = .ok (decide (stored = operand))
  gt : evaluate runtime view (.gt field val) = .ok (decide (stored > operand))
  gte : evaluate runtime view (.gte field val) = .ok (decide (stored ≥ operand))
  lt : evaluate runtime view (.lt field val) = .ok (decide (stored < operand))
  lte : evaluate runtime view (.lte field val) = .ok (decide (stored ≤ operand))

def Separate (value operand : Int64) : Prop :=
  value = operand ∨
    Binary64.equal (Binary64.ofInt64 value) (Binary64.ofInt64 operand) = false

section Floats

variable {value operand : Int64}

theorem less_of_float (below : Binary64.less (Binary64.ofInt64 value)
    (Binary64.ofInt64 operand) = true) : value < operand := by
  rw [Binary64.less_iff (Binary64.isNaN_ofInt64 _)
    (Binary64.isNaN_ofInt64 _)] at below
  by_contra notBelow
  have above := Binary64.rank_ofInt64_mono (Int64.not_lt.mp notBelow)
  omega

theorem atMost_of_le (below : value ≤ operand) :
    Binary64.atMost (Binary64.ofInt64 value) (Binary64.ofInt64 operand) =
      true := by
  rw [Binary64.atMost_iff (Binary64.isNaN_ofInt64 _)
    (Binary64.isNaN_ofInt64 _)]
  exact Binary64.rank_ofInt64_mono below

theorem less_float_iff (separate : Separate value operand) :
    Binary64.less (Binary64.ofInt64 value) (Binary64.ofInt64 operand) = true ↔
      value < operand := by
  constructor
  · exact less_of_float
  · intro below
    have ranks := Binary64.rank_ofInt64_mono (Int64.le_of_lt below)
    rw [Binary64.less_iff (Binary64.isNaN_ofInt64 _)
      (Binary64.isNaN_ofInt64 _)]
    cases separate with
    | inl same =>
        rw [same] at below
        exact absurd below Int64.lt_irrefl
    | inr apart =>
        have differ : ¬ Binary64.rank (Binary64.ofInt64 value) =
            Binary64.rank (Binary64.ofInt64 operand) := by
          rw [← Binary64.equal_iff (Binary64.isNaN_ofInt64 _)
            (Binary64.isNaN_ofInt64 _), apart]
          nofun
        omega

theorem atMost_float_iff (separate : Separate operand value) :
    Binary64.atMost (Binary64.ofInt64 value) (Binary64.ofInt64 operand) =
      true ↔ value ≤ operand := by
  constructor
  · intro below
    by_contra above
    have less := (less_float_iff separate).mpr (Int64.not_le.mp above)
    rw [Binary64.less_iff (Binary64.isNaN_ofInt64 _)
      (Binary64.isNaN_ofInt64 _)] at less
    rw [Binary64.atMost_iff (Binary64.isNaN_ofInt64 _)
      (Binary64.isNaN_ofInt64 _)] at below
    omega
  · exact atMost_of_le

theorem Separate.symm (separate : Separate value operand) :
    Separate operand value := by
  cases separate with
  | inl same => exact .inl same.symm
  | inr apart =>
      right
      rw [Binary64.equal_comm]
      exact apart

/-- Where the strict order of the floats is that of the integers, both ways, the
integers are separate. -/
theorem separate_of_less
    (below : value < operand → Binary64.less (Binary64.ofInt64 value)
      (Binary64.ofInt64 operand) = true)
    (above : operand < value → Binary64.less (Binary64.ofInt64 operand)
      (Binary64.ofInt64 value) = true) : Separate value operand := by
  have number := Binary64.isNaN_ofInt64 value
  have other := Binary64.isNaN_ofInt64 operand
  by_cases same : value = operand
  · exact .inl same
  · right
    rw [Bool.eq_false_iff, Ne, Binary64.equal_iff number other]
    intro ranks
    cases Int64.lt_or_lt_of_ne same with
    | inl less =>
        have floats := below less
        rw [Binary64.less_iff number other] at floats
        omega
    | inr more =>
        have floats := above more
        rw [Binary64.less_iff other number] at floats
        omega

end Floats

section Comparisons

variable {runtime : Runtime} {view : DocumentView} {field : Bytes}

theorem operands {val : Value} {operand : Int64}
    (integer : IsInteger val operand) (stored : Option Value) :
    (equalTo runtime stored val = (integerOf stored == some operand)) ∧
      floatVal val = some (Binary64.ofInt64 operand) := by
  rcases integer with rfl | rfl <;> exact ⟨rfl, rfl⟩

theorem comparesExactly_int64 {value operand : Int64} {val : Value}
    (reads : Reads view field (some (.scalar (.int64 value))))
    (integer : IsInteger val operand) :
    ComparesExactly runtime view field val value.toInt operand.toInt ↔
      Separate value operand := by
  obtain ⟨equal, float⟩ := @operands runtime val operand integer
    (some (.scalar (.int64 value)))
  have orders : ∀ holds test, ordered runtime holds test
      (some (.scalar (.int64 value))) val =
        holds (Binary64.ofInt64 value) (Binary64.ofInt64 operand) := by
    intro holds test
    simp only [ordered, float]
    rfl
  constructor
  · intro compares
    have lt := compares.lt
    have gt := compares.gt
    rw [evaluate_lt reads, below, orders] at lt
    rw [evaluate_gt reads, above, orders] at gt
    apply separate_of_less
    · intro smaller
      simpa [Int64.lt_iff_toInt_lt.mp smaller] using lt
    · intro larger
      simpa [Int64.lt_iff_toInt_lt.mp larger] using gt
  · intro separate
    constructor
    · rw [evaluate_eq reads, equal]
      simp only [integerOf, Outcome.ok.injEq]
      rw [Bool.eq_iff_iff]
      simp [Int64.toInt_inj]
    · rw [evaluate_gt reads, above, orders]
      simp only [Outcome.ok.injEq]
      rw [Bool.eq_iff_iff, less_float_iff separate.symm]
      simp [Int64.lt_iff_toInt_lt]
    · rw [evaluate_gte reads, atLeast, orders]
      simp only [Outcome.ok.injEq]
      rw [Bool.eq_iff_iff, atMost_float_iff separate]
      simp [Int64.le_iff_toInt_le]
    · rw [evaluate_lt reads, below, orders]
      simp only [Outcome.ok.injEq]
      rw [Bool.eq_iff_iff, less_float_iff separate]
      simp [Int64.lt_iff_toInt_lt]
    · rw [evaluate_lte reads, noMore, orders]
      simp only [Outcome.ok.injEq]
      rw [Bool.eq_iff_iff, atMost_float_iff separate.symm]
      simp [Int64.le_iff_toInt_le]

theorem not_comparesExactly_uint64 {value : UInt64} {operand : Int64}
    {val : Value} (reads : Reads view field (some (.scalar (.uint64 value))))
    (integer : IsInteger val operand) :
    ¬ ComparesExactly runtime view field val value.toNat operand.toInt := by
  intro compares
  obtain ⟨-, float⟩ := @operands runtime val operand integer none
  have orders : ∀ holds test, ordered runtime holds test
      (some (.scalar (.uint64 value))) val = false := by
    intro holds test
    simp only [ordered, float]
    rfl
  have gte := compares.gte
  have lte := compares.lte
  rw [evaluate_gte reads, atLeast, orders] at gte
  rw [evaluate_lte reads, noMore, orders] at lte
  have notMore := of_decide_eq_false (Outcome.ok.inj gte).symm
  have notLess := of_decide_eq_false (Outcome.ok.inj lte).symm
  omega

end Comparisons

end CocoDB.Query
