import CocoDB.Query.Meaning

/-!
# Two ways of comparing

`Eq` compares strings, numbers and booleans with the raw bytes of the field, the
orders compare numbers as floats, and the rest goes through `compareValues`,
where a value of another type counts as zero or as equal.  The tables say for
which types and values the two ways agree.
-/

namespace CocoDB.Query

open Lib Cson
open Index (Runtime bytesCompare)

/-! ## Equality -/

/-- A value that is no NaN and no `float32`. -/
def Plain : Value → Prop
  | .scalar (.float64 bits) => Binary64.isNaN bits = false
  | .scalar (.float32 _) => False
  | _ => True

def NotZero : Value → Prop
  | .scalar .null => True
  | .scalar (.int64 value) => value ≠ 0
  | .scalar (.float64 bits) => Binary64.equal bits 0 = false
  | _ => False

/-- `Eq` and `compareValues` find the same values equal.  Raw bytes are compared
with strings, booleans and numbers; any value that is not a number equals them
for `compareValues`, and a number equals a string or a boolean when it is
zero. -/
def EqAgrees (runtime : Runtime) (stored : Value) : Value → Prop
  | .scalar (.string _) =>
      match stored with
      | .scalar (.string _) => True
      | other => NotZero other
  | .scalar (.bool _) =>
      match stored with
      | .scalar (.bool _) => True
      | other => NotZero other
  | .scalar (.int number) | .scalar (.int64 number) =>
      match stored with
      | .scalar .null => True
      | .scalar (.int64 _) => True
      | .scalar (.uint64 value) => value.toInt64 = number
      | .scalar (.float64 bits) =>
          Binary64.equal bits (Binary64.ofInt64 number) = false
      | _ => False
  | .scalar (.float64 bits) =>
      match stored with
      | .scalar .null => True
      | .scalar (.float64 _) => True
      | .scalar (.int64 value) =>
          (Binary64.equal (Binary64.ofInt64 value) bits = true ↔
            value = runtime.truncate bits)
      | _ => False
  | _ => True

theorem compareInts_compare (first second : Int64) :
    compareInts first second = compare first.toInt second.toInt := by
  simp only [compareInts, threeWay, decide_eq_true_eq, Int64.lt_iff_toInt_lt]
  split
  · rename_i less
    exact (compare_lt_iff_lt.mpr less).symm
  · split
    · rename_i more
      exact (compare_gt_iff_gt.mpr more).symm
    · exact (compare_eq_iff_eq.mpr (by omega)).symm

theorem compareFloats_compare {first second : UInt64}
    (number : Binary64.isNaN first = false)
    (other : Binary64.isNaN second = false) :
    threeWay Binary64.less first second =
      compare (Binary64.rank first) (Binary64.rank second) := by
  simp only [threeWay, Binary64.less_iff number other,
    Binary64.less_iff other number]
  split
  · rename_i less
    exact (compare_lt_iff_lt.mpr less).symm
  · split
    · rename_i more
      exact (compare_gt_iff_gt.mpr more).symm
    · exact (compare_eq_iff_eq.mpr (by omega)).symm

theorem compareInts_eq {first second : Int64} :
    compareInts first second = .eq ↔ first = second := by
  rw [compareInts_compare, compare_eq_iff_eq, Int64.toInt_inj]

theorem compareFloats_eq {first second : UInt64}
    (number : Binary64.isNaN first = false)
    (other : Binary64.isNaN second = false) :
    threeWay Binary64.less first second = .eq ↔
      Binary64.equal first second = true := by
  rw [compareFloats_compare number other, compare_eq_iff_eq,
    Binary64.equal_iff number other]

/-- `Eq` with a raw comparison and `compareValues` agree on a value. -/
def Agree (runtime : Runtime) (stored val : Value) : Prop :=
  equalTo runtime (some stored) val = true ↔
    compareValues runtime stored val = .eq

section Agreement

variable {runtime : Runtime} {stored : Value} (decoded : Decoded stored)
  (number : Plain stored)
include decoded number

attribute [local simp] equalTo compareValues EqAgrees NotZero

theorem agree_string (text : Bytes) :
    Agree runtime stored (.scalar (.string text)) ↔
      EqAgrees runtime stored (.scalar (.string text)) := by
  rw [Agree]
  cases stored with
  | scalar value =>
      cases value with
      | int value => cases decoded
      | float64 bits =>
          simp [textOf, floatOperand, @compareFloats_eq bits 0 number rfl]
      | string other =>
          simp [textOf, bytesCompare]
      | _ =>
          simp [textOf, compareInts_eq, intOperand]
  | _ => simp [textOf]

theorem agree_bool (truth : Bool) :
    Agree runtime stored (.scalar (.bool truth)) ↔
      EqAgrees runtime stored (.scalar (.bool truth)) := by
  rw [Agree]
  cases stored with
  | scalar value =>
      cases value with
      | int value => cases decoded
      | float64 bits =>
          simp [truthOf, floatOperand, @compareFloats_eq bits 0 number rfl]
      | bool other =>
          cases other <;> cases truth <;>
            simp [truthOf]
      | _ =>
          simp [truthOf, compareInts_eq, intOperand]
  | _ => simp [truthOf]

theorem agree_int (whole : Int64) :
    Agree runtime stored (.scalar (.int whole)) ↔
      EqAgrees runtime stored (.scalar (.int whole)) := by
  rw [Agree]
  cases stored with
  | scalar value =>
      cases value with
      | int value => cases decoded
      | float64 bits =>
          simp [integerOf, floatOperand,
            compareFloats_eq number (Binary64.isNaN_ofInt64 whole)]
      | _ =>
          simp [integerOf, compareInts_eq, intOperand]
  | _ => simp [integerOf]

theorem agree_float64 {bits : UInt64} (plain : Binary64.isNaN bits = false) :
    Agree runtime stored (.scalar (.float64 bits)) ↔
      EqAgrees runtime stored (.scalar (.float64 bits)) := by
  rw [Agree]
  cases stored with
  | scalar value =>
      cases value with
      | int value => cases decoded
      | float64 other =>
          simp [numberOf, floatOperand, compareFloats_eq number plain]
      | _ =>
          simp [numberOf, compareInts_eq, intOperand]
  | _ => simp [numberOf]

omit decoded number in
theorem compareValues_int64 (whole : Int64) :
    compareValues runtime stored (.scalar (.int64 whole)) =
      compareValues runtime stored (.scalar (.int whole)) := by
  cases stored with
  | scalar value => cases value <;> rfl
  | _ => rfl

theorem agree_iff {val : Value} (plain : Plain val) :
    Agree runtime stored val ↔ EqAgrees runtime stored val := by
  cases val with
  | scalar val =>
      cases val with
      | string text => exact agree_string decoded number text
      | bool truth => exact agree_bool decoded number truth
      | int whole => exact agree_int decoded number whole
      | int64 whole =>
          rw [Agree, compareValues_int64]
          exact agree_int decoded number whole
      | float64 bits => exact agree_float64 decoded number plain
      | float32 bits => cases plain
      | _ => simp [Agree]
  | _ => simp [Agree]

end Agreement

/-! ## Bounds -/

/-- `Gte` is `Gt` or `Eq`, and `Lte` is `Lt` or `Eq`: `Eq` with an integer looks
at integers where the orders look at floats, and a field that is missing equals
nil. -/
def OrEqAgrees (runtime : Runtime) (stored : Option Value) (val : Value) :
    Prop :=
  match stored with
  | none => isNil val = false
  | some stored =>
      match val with
      | .scalar (.string _) => EqAgrees runtime stored val
      | .scalar (.bool _) => EqAgrees runtime stored val
      | .scalar (.int number) | .scalar (.int64 number) =>
          match stored with
          | .scalar (.int64 value) =>
              Binary64.equal (Binary64.ofInt64 value)
                (Binary64.ofInt64 number) = true → value = number
          | .scalar (.uint64 value) => value.toInt64 ≠ number
          | .scalar (.float64 bits) =>
              Binary64.equal bits (Binary64.ofInt64 number) = false
          | _ => True
      | _ => True

/-- A lower bound says the same to `Between` as to `Gte`, which compares
integers as floats. -/
def LowAgrees (runtime : Runtime) (stored : Value) : Value → Prop
  | .scalar (.int number) | .scalar (.int64 number) =>
      match stored with
      | .scalar .null => True
      | .scalar (.float64 _) => True
      | .scalar (.int64 value) => value < number →
          Binary64.equal (Binary64.ofInt64 value)
            (Binary64.ofInt64 number) = false
      | _ => False
  | .scalar (.float64 bits) =>
      match stored with
      | .scalar .null => True
      | .scalar (.float64 _) => True
      | .scalar (.int64 value) => (runtime.truncate bits ≤ value ↔
          Binary64.atMost bits (Binary64.ofInt64 value) = true)
      | _ => False
  | _ => True

/-- An upper bound says the same to `Between` as to `Lte`.  Nil is below
everything for `compareValues` and no number for `Lte`. -/
def HighAgrees (runtime : Runtime) (stored : Value) : Value → Prop
  | .scalar (.int number) | .scalar (.int64 number) =>
      match stored with
      | .scalar (.float64 _) => True
      | .scalar (.int64 value) => number < value →
          Binary64.equal (Binary64.ofInt64 value)
            (Binary64.ofInt64 number) = false
      | _ => False
  | .scalar (.float64 bits) =>
      match stored with
      | .scalar (.float64 _) => True
      | .scalar (.int64 value) => (value ≤ runtime.truncate bits ↔
          Binary64.atMost (Binary64.ofInt64 value) bits = true)
      | _ => False
  | _ => True

theorem isGE_compareInts (first second : Int64) :
    (compareInts first second).isGE = true ↔ second ≤ first := by
  rw [compareInts_compare, Int.isGE_compare, Int64.le_iff_toInt_le]

theorem isLE_compareInts (first second : Int64) :
    (compareInts first second).isLE = true ↔ first ≤ second := by
  rw [compareInts_compare, Int.isLE_compare, Int64.le_iff_toInt_le]

section Floats

variable {first second : UInt64} (number : Binary64.isNaN first = false)
  (other : Binary64.isNaN second = false)
include number other

theorem isGE_compareFloats :
    (threeWay Binary64.less first second).isGE =
      Binary64.atMost second first := by
  rw [compareFloats_compare number other, Bool.eq_iff_iff, Int.isGE_compare,
    Binary64.atMost_iff other number]

theorem isLE_compareFloats :
    (threeWay Binary64.less first second).isLE =
      Binary64.atMost first second := by
  rw [compareFloats_compare number other, Bool.eq_iff_iff, Int.isLE_compare,
    Binary64.atMost_iff number other]

theorem atMost_eq_or :
    Binary64.atMost first second =
      (Binary64.less first second || Binary64.equal first second) := by
  rw [Bool.eq_iff_iff, Bool.or_eq_true, Binary64.atMost_iff number other,
    Binary64.less_iff number other, Binary64.equal_iff number other]
  omega

end Floats

theorem atMost_ofInt64 {first second : Int64} :
    Binary64.atMost (Binary64.ofInt64 first) (Binary64.ofInt64 second) = true ↔
      first ≤ second ∨ Binary64.equal (Binary64.ofInt64 second)
        (Binary64.ofInt64 first) = true := by
  have one := Binary64.isNaN_ofInt64 first
  have two := Binary64.isNaN_ofInt64 second
  rw [Binary64.atMost_iff one two, Binary64.equal_iff two one]
  constructor
  · intro below
    rcases Int64.le_total first second with order | order
    · exact .inl order
    · have kept := Binary64.rank_ofInt64_mono order
      omega
  · rintro (order | same)
    · exact Binary64.rank_ofInt64_mono order
    · omega

section Halves

variable {runtime : Runtime} {stored : Value} (decoded : Decoded stored)
  (number : Plain stored)
include decoded number

theorem low_int (whole : Int64) :
    (atLeast runtime (some stored) (.scalar (.int whole)) = true ↔
        (compareValues runtime stored (.scalar (.int whole))).isGE = true) ↔
      LowAgrees runtime stored (.scalar (.int whole)) := by
  cases stored with
  | scalar value =>
      cases value with
      | int value => cases decoded
      | float64 bits =>
          simp [atLeast, ordered, floatVal, numberOf, compareValues,
            floatOperand, LowAgrees,
            isGE_compareFloats number (Binary64.isNaN_ofInt64 whole)]
      | int64 value =>
          simp [atLeast, ordered, floatVal, numberOf, compareValues,
            intOperand, LowAgrees, isGE_compareInts, atMost_ofInt64]
          by_cases order : whole ≤ value
          · simp [order, Int64.not_lt.mpr order]
          · simp [order, Int64.not_le.mp order]
      | _ =>
          simp [atLeast, ordered, floatVal, numberOf, compareValues, LowAgrees]
  | _ => simp [atLeast, ordered, floatVal, numberOf, compareValues, LowAgrees]

theorem high_int (whole : Int64) :
    (noMore runtime (some stored) (.scalar (.int whole)) = true ↔
        (compareValues runtime stored (.scalar (.int whole))).isLE = true) ↔
      HighAgrees runtime stored (.scalar (.int whole)) := by
  cases stored with
  | scalar value =>
      cases value with
      | int value => cases decoded
      | float64 bits =>
          simp [noMore, ordered, floatVal, numberOf, compareValues,
            floatOperand, HighAgrees,
            isLE_compareFloats number (Binary64.isNaN_ofInt64 whole)]
      | int64 value =>
          have swapped : Binary64.equal (Binary64.ofInt64 whole)
              (Binary64.ofInt64 value) = Binary64.equal
                (Binary64.ofInt64 value) (Binary64.ofInt64 whole) :=
            Binary64.equal_comm _ _
          simp only [noMore, ordered, floatVal, numberOf, compareValues,
            intOperand, HighAgrees, isLE_compareInts, atMost_ofInt64,
            Option.any_some, swapped]
          by_cases order : value ≤ whole
          · simp [order, Int64.not_lt.mpr order]
          · simp [order, Int64.not_le.mp order]
      | _ =>
          simp [noMore, ordered, floatVal, numberOf, compareValues, HighAgrees]
  | _ => simp [noMore, ordered, floatVal, numberOf, compareValues, HighAgrees]

theorem low_float64 {bits : UInt64} (plain : Binary64.isNaN bits = false) :
    (atLeast runtime (some stored) (.scalar (.float64 bits)) = true ↔
        (compareValues runtime stored (.scalar (.float64 bits))).isGE = true) ↔
      LowAgrees runtime stored (.scalar (.float64 bits)) := by
  cases stored with
  | scalar value =>
      cases value with
      | int value => cases decoded
      | float64 other =>
          simp [atLeast, ordered, floatVal, numberOf, compareValues,
            floatOperand, LowAgrees, isGE_compareFloats number plain]
      | int64 value =>
          simp only [atLeast, ordered, floatVal, numberOf, compareValues,
            intOperand, LowAgrees, isGE_compareInts, Option.any_some]
          exact iff_comm
      | _ =>
          simp [atLeast, ordered, floatVal, numberOf, compareValues, LowAgrees]
  | _ => simp [atLeast, ordered, floatVal, numberOf, compareValues, LowAgrees]

theorem high_float64 {bits : UInt64} (plain : Binary64.isNaN bits = false) :
    (noMore runtime (some stored) (.scalar (.float64 bits)) = true ↔
        (compareValues runtime stored (.scalar (.float64 bits))).isLE = true) ↔
      HighAgrees runtime stored (.scalar (.float64 bits)) := by
  cases stored with
  | scalar value =>
      cases value with
      | int value => cases decoded
      | float64 other =>
          simp [noMore, ordered, floatVal, numberOf, compareValues,
            floatOperand, HighAgrees, isLE_compareFloats number plain]
      | int64 value =>
          simp only [noMore, ordered, floatVal, numberOf, compareValues,
            intOperand, HighAgrees, isLE_compareInts, Option.any_some]
          exact iff_comm
      | _ =>
          simp [noMore, ordered, floatVal, numberOf, compareValues, HighAgrees]
  | _ => simp [noMore, ordered, floatVal, numberOf, compareValues, HighAgrees]

theorem low_iff {val : Value} (plain : Plain val) :
    (atLeast runtime (some stored) val = true ↔
        (compareValues runtime stored val).isGE = true) ↔
      LowAgrees runtime stored val := by
  cases val with
  | scalar val =>
      cases val with
      | int whole => exact low_int decoded number whole
      | int64 whole =>
          rw [compareValues_int64]
          exact low_int decoded number whole
      | float64 bits => exact low_float64 decoded number plain
      | float32 bits => cases plain
      | _ => simp [atLeast, ordered, floatVal, LowAgrees]
  | _ => simp [atLeast, ordered, floatVal, LowAgrees]

theorem high_iff {val : Value} (plain : Plain val) :
    (noMore runtime (some stored) val = true ↔
        (compareValues runtime stored val).isLE = true) ↔
      HighAgrees runtime stored val := by
  cases val with
  | scalar val =>
      cases val with
      | int whole => exact high_int decoded number whole
      | int64 whole =>
          rw [compareValues_int64]
          exact high_int decoded number whole
      | float64 bits => exact high_float64 decoded number plain
      | float32 bits => cases plain
      | _ => simp [noMore, ordered, floatVal, HighAgrees]
  | _ => simp [noMore, ordered, floatVal, HighAgrees]

end Halves

/-! ## Bounds with equality -/

theorem equalTo_none (runtime : Runtime) (val : Value) :
    equalTo runtime none val = isNil val := by
  cases val with
  | scalar val => cases val <;> rfl
  | _ => rfl

theorem compare_of_string {runtime : Runtime} {stored : Value} {text : Bytes}
    (same : equalTo runtime (some stored) (.scalar (.string text)) = true) :
    compareValues runtime stored (.scalar (.string text)) = .eq := by
  cases stored with
  | scalar value =>
      cases value with
      | string other =>
          simp only [equalTo, textOf, beq_iff_eq, Option.some.injEq] at same
          simp [compareValues, bytesCompare, same]
      | _ => simp [equalTo, textOf] at same
  | _ => simp [equalTo, textOf] at same

theorem compare_of_bool {runtime : Runtime} {stored : Value} {truth : Bool}
    (same : equalTo runtime (some stored) (.scalar (.bool truth)) = true) :
    compareValues runtime stored (.scalar (.bool truth)) = .eq := by
  cases stored with
  | scalar value =>
      cases value with
      | bool other =>
          simp only [equalTo, truthOf, beq_iff_eq, Option.some.injEq] at same
          simp [compareValues, same]
      | _ => simp [equalTo, truthOf] at same
  | _ => simp [equalTo, truthOf] at same

structure Closes (holds strictly : UInt64 → UInt64 → Bool)
    (test strict : Ordering → Bool) : Prop where
  split : ∀ {first second}, Binary64.isNaN first = false →
    Binary64.isNaN second = false → holds first second =
      (strictly first second || Binary64.equal first second)
  apart : ∀ {first second}, Binary64.equal first second = true →
    strictly first second = false
  tests : ∀ found, test found = (strict found || found == .eq)
  never : strict .eq = false

section Closed

variable {runtime : Runtime} {holds strictly : UInt64 → UInt64 → Bool}
  {test strict : Ordering → Bool} (closes : Closes holds strictly test strict)
include closes

theorem Closes.generic {stored val : Value} (other : floatVal val = none)
    (sound : equalTo runtime (some stored) val = true →
      compareValues runtime stored val = .eq) :
    ordered runtime holds test (some stored) val =
        (ordered runtime strictly strict (some stored) val ||
          equalTo runtime (some stored) val) ↔
      Agree runtime stored val := by
  simp only [ordered, other, closes.tests, Agree]
  cases found : compareValues runtime stored val with
  | eq =>
      rw [closes.never]
      cases equalTo runtime (some stored) val <;> simp
  | lt =>
      have unequal : equalTo runtime (some stored) val = false := by
        rw [Bool.eq_false_iff]
        intro same
        rw [sound same] at found
        cases found
      simp [unequal]
  | gt =>
      have unequal : equalTo runtime (some stored) val = false := by
        rw [Bool.eq_false_iff]
        intro same
        rw [sound same] at found
        cases found
      simp [unequal]

theorem Closes.int {stored : Value} (number : Plain stored)
    {val : Value} {whole : Int64}
    (given : val = .scalar (.int whole) ∨ val = .scalar (.int64 whole)) :
    ordered runtime holds test (some stored) val =
        (ordered runtime strictly strict (some stored) val ||
          equalTo runtime (some stored) val) ↔
      OrEqAgrees runtime (some stored) val := by
  have rounded := Binary64.isNaN_ofInt64 whole
  have shape : floatVal val = some (Binary64.ofInt64 whole) := by
    rcases given with rfl | rfl <;> rfl
  have integers : equalTo runtime (some stored) val =
      (integerOf (some stored) == some whole) := by
    rcases given with rfl | rfl <;> rfl
  have table : OrEqAgrees runtime (some stored) val =
      OrEqAgrees runtime (some stored) (.scalar (.int whole)) := by
    rcases given with rfl | rfl <;> rfl
  rw [integers, table]
  simp only [ordered, shape]
  cases stored with
  | scalar value =>
      cases value with
      | int64 value =>
          simp only [numberOf, integerOf, Option.any_some, OrEqAgrees,
            closes.split (Binary64.isNaN_ofInt64 value) rounded]
          by_cases same : value = whole
          · subst same
            simp [(Binary64.equal_iff rounded rounded).mpr rfl]
          · cases met : Binary64.equal (Binary64.ofInt64 value)
                (Binary64.ofInt64 whole) with
            | false => simp [same]
            | true => simp [same, closes.apart met]
      | uint64 value => simp [numberOf, integerOf, OrEqAgrees]
      | float64 bits =>
          simp only [numberOf, integerOf, Option.any_some, OrEqAgrees,
            closes.split number rounded]
          cases met : Binary64.equal bits (Binary64.ofInt64 whole) with
          | false => simp
          | true => simp [closes.apart met]
      | _ => simp [numberOf, integerOf, OrEqAgrees]
  | _ => simp [numberOf, integerOf, OrEqAgrees]

theorem Closes.float64 {stored : Value} (number : Plain stored) {bits : UInt64}
    (plain : Binary64.isNaN bits = false) :
    ordered runtime holds test (some stored) (.scalar (.float64 bits)) =
      (ordered runtime strictly strict (some stored)
        (.scalar (.float64 bits)) ||
          equalTo runtime (some stored) (.scalar (.float64 bits))) := by
  simp only [ordered, floatVal, equalTo]
  cases stored with
  | scalar value =>
      cases value with
      | int64 value =>
          exact closes.split (Binary64.isNaN_ofInt64 value) plain
      | float64 other => exact closes.split number plain
      | _ => rfl
  | _ => rfl

theorem Closes.iff {stored : Option Value} {val : Value}
    (decoded : ∀ value, stored = some value → Decoded value)
    (number : ∀ value, stored = some value → Plain value) (plain : Plain val) :
    ordered runtime holds test stored val =
        (ordered runtime strictly strict stored val ||
          equalTo runtime stored val) ↔
      OrEqAgrees runtime stored val := by
  cases stored with
  | none =>
      have silent : ∀ holds test, ordered runtime holds test none val =
          false := by
        intro holds test
        simp only [ordered]
        cases floatVal val <;> rfl
      rw [silent, silent, equalTo_none, OrEqAgrees]
      cases isNil val <;> simp
  | some stored =>
      have here := decoded stored rfl
      have plainly := number stored rfl
      cases val with
      | scalar val =>
          cases val with
          | string text =>
              rw [closes.generic rfl compare_of_string,
                agree_string here plainly]
              rfl
          | bool truth =>
              rw [closes.generic rfl compare_of_bool, agree_bool here plainly]
              rfl
          | int whole => exact closes.int plainly (.inl rfl)
          | int64 whole => exact closes.int plainly (.inr rfl)
          | float64 bits =>
              rw [closes.float64 plainly plain]
              simp [OrEqAgrees]
          | float32 bits => cases plain
          | _ =>
              rw [closes.generic rfl (by simp [equalTo])]
              simp [Agree, equalTo, OrEqAgrees]
      | _ =>
          rw [closes.generic rfl (by simp [equalTo])]
          simp [Agree, equalTo, OrEqAgrees]

end Closed

end CocoDB.Query
