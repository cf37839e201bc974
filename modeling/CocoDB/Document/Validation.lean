import CocoDB.Document.Restored
import CocoDB.Document.Schema

/-!
# What validation accepts

`Validate` agrees with the rules except that it checks no arrays, no patterns of
other types than strings, and takes every value that is no `int`, `int64` or
`float64` for zero.  A document that it accepted may be rejected once it has been
stored: an array may be lost, and an `int32` or a `float32` is no longer zero.
-/

namespace CocoDB.Document

open Lib Cson CocoDB.Query
open Index (Runtime DocumentError)

/-! ## The rules -/

def numericValue : Value → Option ℚ
  | .scalar (.int value) => some value.toInt
  | .scalar (.int64 value) => some value.toInt
  | .scalar (.int32 value) => some value.toInt
  | .scalar (.uint value) => some value.toNat
  | .scalar (.uint64 value) => some value.toNat
  | .scalar (.uint32 value) => some value.toNat
  | .scalar (.float64 bits) => some (exactFloat bits)
  | .scalar (.float32 bits) => some (exactFloat (float64OfFloat32 bits))
  | _ => none

def isArray : Value → Bool
  | .array _ => true
  | _ => false

/-- The Go types that stand for `"int"`. -/
def isInteger : Value → Bool
  | .scalar (.int _) => true
  | .scalar (.int32 _) => true
  | .scalar (.int64 _) => true
  | .scalar (.uint _) => true
  | .scalar (.uint32 _) => true
  | .scalar (.uint64 _) => true
  | _ => false

/-- The Go types that stand for `"float"`. -/
def isFloat : Value → Bool
  | .scalar (.float32 _) => true
  | .scalar (.float64 _) => true
  | .scalar (.int _) => true
  | .scalar (.int64 _) => true
  | _ => false

@[mk_iff]
structure HasType (type : Bytes) (val : Value) : Prop where
  string : type = stringType → ∃ str, val = .scalar (.string str)
  int : type = intType → isInteger val = true
  float : type = floatType → isFloat val = true
  bool : type = boolType → ∃ truth, val = .scalar (.bool truth)
  array : type = arrayType → isArray val = true

def present (val : Option Value) : Option Value :=
  val.filter fun val => !isNil val

def FieldRule.bound (rule : FieldRule) : (upper : Bool) → Option ℚ
  | false => rule.min
  | true => rule.max

def Beyond (number bound : ℚ) : (upper : Bool) → Prop
  | false => number < bound
  | true => bound < number

inductive Aspect where
  | required
  | type
  | pattern
  | bound (upper : Bool)

def Upholds (rule : FieldRule) (val : Option Value) : Aspect → Prop
  | .required => rule.required = true → ∃ value, present val = some value
  | .type => ∀ value, present val = some value → HasType rule.type value
  | .pattern => ∀ str, present val = some (.scalar (.string str)) →
      ∀ pattern, rule.pattern = some pattern → pattern str = true
  | .bound upper => ∀ value, present val = some value →
      ∀ number, numericValue value = some number →
        ∀ bound, rule.bound upper = some bound → ¬ Beyond number bound upper

def RuleHolds (rule : FieldRule) (val : Option Value) : Prop :=
  ∀ aspect, Upholds rule val aspect

/-! ## What is not checked -/

def counted : Value → Bool
  | .scalar (.int _) => true
  | .scalar (.int64 _) => true
  | .scalar (.float64 _) => true
  | _ => false

/-- A part of a rule that is broken and not checked: a field that should be an
array, a pattern without the type of strings, a number of a type that is not
counted beyond a bound that zero is not beyond. -/
def Unchecked (rule : FieldRule) (val : Option Value) : Aspect → Prop
  | .required => False
  | .type => rule.type = arrayType ∧
      ∃ value, present val = some value ∧ isArray value = false
  | .pattern => rule.type ≠ stringType ∧
      ∃ str pattern, present val = some (.scalar (.string str)) ∧
        rule.pattern = some pattern ∧ pattern str = false
  | .bound upper => ∃ value number bound, present val = some value ∧
      numericValue value = some number ∧ counted value = false ∧
      rule.bound upper = some bound ∧ Beyond number bound upper ∧
      ¬ Beyond 0 bound upper

/-- A part of a rule that holds and is found broken: zero is beyond a bound, and
the value is not counted. -/
def Zeroed (rule : FieldRule) (val : Option Value) : Aspect → Prop
  | .bound upper => ∃ value bound, present val = some value ∧
      counted value = false ∧ rule.bound upper = some bound ∧
      Beyond 0 bound upper ∧
      ∀ number, numericValue value = some number → ¬ Beyond number bound upper
  | _ => False

/-- If a broken part is not checked, another one is found broken; if a part that
holds is found broken, another one is broken. -/
structure Judged (schema : Schema) (doc : Cson.Document) : Prop where
  unchecked : (∃ entry ∈ schema, ∃ aspect,
      Unchecked entry.2 (lookup doc entry.1) aspect) →
    ∃ entry ∈ schema, ∃ aspect, Zeroed entry.2 (lookup doc entry.1) aspect ∨
      (¬ Upholds entry.2 (lookup doc entry.1) aspect ∧
        ¬ Unchecked entry.2 (lookup doc entry.1) aspect)
  zeroed : (∃ entry ∈ schema, ∃ aspect,
      Zeroed entry.2 (lookup doc entry.1) aspect) →
    ∃ entry ∈ schema, ∃ aspect, ¬ Upholds entry.2 (lookup doc entry.1) aspect

/-! ## What is checked -/

/-- What `Validate` asks of a field for a part of a rule. -/
def Checks (rule : FieldRule) (val : Option Value) : Aspect → Prop
  | .required => Upholds rule val .required
  | .type => rule.type ≠ arrayType → Upholds rule val .type
  | .pattern => rule.type = stringType → Upholds rule val .pattern
  | .bound upper => ∀ value, present val = some value →
      ∀ bound, rule.bound upper = some bound →
        ¬ Beyond (boundNumber value) bound upper

section Checks

variable {rule : FieldRule} {val : Option Value}

theorem boundNumber_counted {value : Value} (counts : counted value = true) :
    numericValue value = some (boundNumber value) := by
  unfold counted at counts
  split at counts <;> first | rfl | cases counts

theorem boundNumber_uncounted {value : Value}
    (uncounted : counted value = false) : boundNumber value = 0 := by
  unfold boundNumber
  split
  · cases uncounted
  · cases uncounted
  · cases uncounted
  · rfl

/-- What is checked is what holds, up to the parts that are not checked and
those of values that are taken for zero. -/
theorem checks_iff (aspect : Aspect) : Checks rule val aspect ↔
    (Upholds rule val aspect ∧ ¬ Zeroed rule val aspect) ∨
      Unchecked rule val aspect := by
  cases aspect with
  | required => simp [Checks, Zeroed, Unchecked]
  | type =>
      simp only [Checks, Zeroed, Unchecked, not_false_eq_true, and_true]
      constructor
      · intro checks
        by_cases array : rule.type = arrayType
        · by_cases all : ∀ value, present val = some value →
              isArray value = true
          · left
            intro value there
            rw [array]
            refine ⟨?_, ?_, ?_, ?_, fun _ => all value there⟩ <;>
              exact fun other => absurd other (by decide)
          · right
            simp only [not_forall, Bool.not_eq_true] at all
            obtain ⟨value, there, none⟩ := all
            exact ⟨array, value, there, none⟩
        · exact .inl (checks array)
      · rintro (holds | ⟨array, _⟩)
        · exact fun _ => holds
        · exact fun other => absurd array other
  | pattern =>
      simp only [Checks, Zeroed, Unchecked, Upholds, not_false_eq_true, and_true]
      constructor
      · intro checks
        by_cases string : rule.type = stringType
        · exact .inl (checks string)
        · by_cases all : ∀ str, present val = some (.scalar (.string str)) →
              ∀ pattern, rule.pattern = some pattern → pattern str = true
          · exact .inl all
          · right
            simp only [not_forall, Bool.not_eq_true] at all
            obtain ⟨str, there, pattern, given, fails⟩ := all
            exact ⟨string, str, pattern, there, given, fails⟩
      · rintro (holds | ⟨other, _⟩)
        · exact fun _ => holds
        · exact fun string => absurd string other
  | bound upper =>
      simp only [Checks, Zeroed, Unchecked, Upholds]
      cases there : present val with
      | none => simp
      | some value =>
          simp only [Option.some.injEq, forall_eq']
          cases given : rule.bound upper with
          | none => simp
          | some bound =>
              simp only [Option.some.injEq, forall_eq']
              cases counts : counted value with
              | true => simp [counts, boundNumber_counted counts]
              | false =>
                  rw [boundNumber_uncounted counts]
                  cases exactly : numericValue value with
                  | none => simp [counts, exactly]
                  | some number =>
                      simp [counts, exactly]
                      tauto

theorem checkType_eq_none {value : Value} : checkType rule value = none ↔
    (rule.type ≠ arrayType → HasType rule.type value) ∧
      (rule.type = stringType → ∀ str, value = .scalar (.string str) →
        ∀ pattern, rule.pattern = some pattern → pattern str = true) := by
  have differ : stringType ≠ intType ∧ stringType ≠ floatType ∧
      stringType ≠ boolType ∧ stringType ≠ arrayType ∧ intType ≠ floatType ∧
      intType ≠ boolType ∧ intType ≠ arrayType ∧ floatType ≠ boolType ∧
      floatType ≠ arrayType ∧ boolType ≠ arrayType := by decide
  obtain ⟨_, _, _, _, _, _, _, _, _, _⟩ := differ
  unfold checkType
  rw [hasType_iff]
  generalize rule.type = type
  by_cases string : type = stringType
  · rw [if_pos string]
    cases value with
    | scalar value =>
        cases value with
        | string str => cases rule.pattern <;> simp_all
        | _ => simp_all
    | _ => simp_all
  · rw [if_neg string]
    by_cases int : type = intType
    · rw [if_pos int]
      cases value with
      | scalar value => cases value <;> simp_all [isInteger]
      | _ => simp_all [isInteger]
    · rw [if_neg int]
      by_cases float : type = floatType
      · rw [if_pos float]
        cases value with
        | scalar value => cases value <;> simp_all [isFloat]
        | _ => simp_all [isFloat]
      · rw [if_neg float]
        by_cases bool : type = boolType
        · rw [if_pos bool]
          cases value with
          | scalar value => cases value <;> simp_all
          | _ => simp_all
        · rw [if_neg bool]
          simp_all

theorem checkBounds_eq_none {value : Value} :
    (checkMin rule value).or (checkMax rule value) = none ↔
      ∀ upper bound, rule.bound upper = some bound →
        ¬ Beyond (boundNumber value) bound upper := by
  rw [Bool.forall_bool, Option.or_eq_none_iff, checkMin, checkMax]
  simp only [FieldRule.bound, Beyond]
  cases rule.min with
  | none => cases rule.max <;> simp
  | some low => cases rule.max <;> simp

theorem checkField_eq_none : checkField rule val = none ↔
    ∀ aspect, Checks rule val aspect := by
  have absent : present val = none →
      ((∀ aspect, Checks rule val aspect) ↔ rule.required = false) := by
    intro missing
    constructor
    · intro checks
      have required := checks .required
      simpa [Checks, Upholds, missing] using required
    · intro optional aspect
      cases aspect <;> simp [Checks, Upholds, missing, optional]
  unfold checkField
  cases val with
  | none =>
      rw [absent rfl]
      simp
  | some value =>
      cases nil : isNil value with
      | true =>
          rw [absent (by simp [present, nil])]
          simp [nil]
      | false =>
          have there : present (some value) = some value := by
            simp [present, nil]
          simp only [nil, Bool.false_eq_true, if_false]
          rw [checkPresent, Option.or_eq_none_iff, checkType_eq_none,
            checkBounds_eq_none]
          constructor
          · rintro ⟨⟨type, pattern⟩, bounds⟩ aspect
            cases aspect with
            | required => exact fun _ => ⟨value, there⟩
            | type =>
                intro other found same
                rw [there] at same
                cases same
                exact type other
            | pattern =>
                intro string str same
                rw [there] at same
                cases same
                exact pattern string str rfl
            | bound upper =>
                intro found same
                rw [there] at same
                cases same
                exact bounds upper
          · intro checks
            refine ⟨⟨?_, ?_⟩, ?_⟩
            · intro other
              exact checks .type other value there
            · intro string str same
              exact checks .pattern string str (same ▸ there)
            · intro upper
              exact checks (.bound upper) value there

theorem Zeroed.holds {aspect : Aspect} (zeroed : Zeroed rule val aspect) :
    Upholds rule val aspect := by
  cases aspect with
  | bound upper =>
      obtain ⟨value, bound, there, _, given, _, within⟩ := zeroed
      intro other found number exactly limit named
      rw [there] at found
      cases found
      rw [given] at named
      cases named
      exact within number exactly
  | _ => cases zeroed

theorem Unchecked.breaks {aspect : Aspect}
    (unchecked : Unchecked rule val aspect) : ¬ Upholds rule val aspect := by
  intro holds
  cases aspect with
  | required => exact unchecked
  | type =>
      obtain ⟨array, value, there, none⟩ := unchecked
      rw [(holds value there).array array] at none
      cases none
  | pattern =>
      obtain ⟨_, str, pattern, there, given, fails⟩ := unchecked
      rw [holds str there pattern given] at fails
      cases fails
  | bound upper =>
      obtain ⟨value, number, bound, there, exactly, _, given, beyond, _⟩ :=
        unchecked
      exact holds value there number exactly bound given beyond

end Checks

section Judged

variable {order : Shuffle (Bytes × FieldRule)} {schema : Schema}
  {doc : Cson.Document}

theorem validate_eq_none : validate order schema doc = none ↔
    ∀ entry ∈ schema, checkField entry.2 (lookup doc entry.1) = none := by
  rw [validate, List.findSome?_eq_none_iff]
  simp only [Option.map_eq_none_iff, (order.perm schema).mem_iff]

theorem judged_iff : (validate order schema doc = none ↔
    ∀ entry ∈ schema, RuleHolds entry.2 (lookup doc entry.1)) ↔
      Judged schema doc := by
  rw [validate_eq_none]
  simp only [checkField_eq_none, checks_iff, RuleHolds]
  constructor
  · intro agrees
    refine ⟨?_, ?_⟩
    · rintro ⟨entry, member, aspect, unchecked⟩
      by_contra none
      apply unchecked.breaks
      apply agrees.mp ?_ entry member aspect
      intro other listed part
      by_contra rejected
      apply none
      refine ⟨other, listed, part, ?_⟩
      tauto
    · rintro ⟨entry, member, aspect, zeroed⟩
      by_contra none
      simp only [not_exists, not_and, not_not] at none
      rcases agrees.mpr none entry member aspect with
        ⟨_, counts⟩ | unchecked
      · exact counts zeroed
      · exact unchecked.breaks zeroed.holds
  · rintro ⟨unchecked, zeroed⟩
    constructor
    · intro accepted
      by_contra broken
      simp only [not_forall] at broken
      obtain ⟨entry, member, aspect, breaks⟩ := broken
      have missed : Unchecked entry.2 (lookup doc entry.1) aspect := by
        rcases accepted entry member aspect with ⟨holds, _⟩ | missed
        · exact absurd holds breaks
        · exact missed
      obtain ⟨other, listed, part, found⟩ :=
        unchecked ⟨entry, member, aspect, missed⟩
      rcases accepted other listed part with ⟨holds, counts⟩ | missed
      · rcases found with zero | ⟨breaks, _⟩
        · exact counts zero
        · exact breaks holds
      · rcases found with zero | ⟨_, checked⟩
        · exact missed.breaks zero.holds
        · exact checked missed
    · intro holds entry member aspect
      refine .inl ⟨holds entry member aspect, fun zero => ?_⟩
      obtain ⟨other, listed, part, breaks⟩ :=
        zeroed ⟨entry, member, aspect, zero⟩
      exact breaks (holds other listed part)

end Judged

end CocoDB.Document
