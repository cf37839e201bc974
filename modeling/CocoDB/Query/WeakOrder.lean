import CocoDB.Query.Derived
import CocoDB.Query.Sorting

/-!
# When sorting is by value

`compareAny` orders integers, floats and strings among themselves and finds all
other values equal.  It is a strict weak order by value on a column of values
exactly when the column has no values that ought to be told apart and are not,
and no value of another type beside two that are told apart.
-/

namespace CocoDB.Query

open Lib Cson
open Index (bytesCompare)

/-! ## Columns of values -/

/-- The types that `compareAny` has a case for. -/
inductive Kind where
  | int64
  | float64
  | string
deriving DecidableEq, Repr

def kindOf : Option Value → Option Kind
  | some (.scalar (.int64 _)) => some .int64
  | some (.scalar (.float64 _)) => some .float64
  | some (.scalar (.string _)) => some .string
  | _ => none

def exactOf : Option Value → Option Int
  | some (.scalar (.int64 value)) => some (Binary64.scaledInt value.toInt)
  | some (.scalar (.uint64 value)) => some (Binary64.scaledInt value.toNat)
  | some (.scalar (.float64 bits)) => some (Binary64.scaled bits)
  | _ => none

def timeOf : Option Value → Option Int64
  | some (.scalar (.time unixNano _)) => some unixNano
  | _ => none

def NotNaN : Option Value → Prop
  | some (.scalar (.float64 bits)) => Binary64.isNaN bits = false
  | _ => True

def Apart : Option Value → Option Value → Prop
  | some (.scalar (.int64 one)), some (.scalar (.int64 two)) => one ≠ two
  | some (.scalar (.float64 one)), some (.scalar (.float64 two)) =>
      Binary64.equal one two = false
  | some (.scalar (.string one)), some (.scalar (.string two)) => one ≠ two
  | _, _ => False

/-- Numbers, truth values and times are compared as what they are. -/
structure ByValue (values : List (Option Value)) : Prop where
  numbers : ∀ one ∈ values, ∀ two ∈ values, ∀ first second,
    exactOf one = some first → exactOf two = some second →
      (compareAny one two = .lt ↔ first < second)
  bools : ∀ one ∈ values, ∀ two ∈ values, ∀ first second,
    truthOf one = some first → truthOf two = some second →
      (compareAny one two = .lt ↔ first = false ∧ second = true)
  times : ∀ one ∈ values, ∀ two ∈ values, ∀ first second,
    timeOf one = some first → timeOf two = some second →
      (compareAny one two = .lt ↔ first < second)

/-- Numbers of different value are all signed or all floats, truth values and
times do not differ, and beside two different values of one type there is
nothing but values of that type and nulls. -/
structure Uniform (values : List (Option Value)) : Prop where
  numbers : ∀ one ∈ values, ∀ two ∈ values, ∀ first second,
    exactOf one = some first → exactOf two = some second → first ≠ second →
      kindOf one = kindOf two ∧ kindOf one ≠ none
  bools : ∀ one ∈ values, ∀ two ∈ values, ∀ first second,
    truthOf one = some first → truthOf two = some second → first = second
  times : ∀ one ∈ values, ∀ two ∈ values, ∀ first second,
    timeOf one = some first → timeOf two = some second → first = second
  kinds : ∀ one ∈ values, ∀ two ∈ values, ∀ three ∈ values,
    Apart one two → isNothing three = false → kindOf three = kindOf one

section Present

variable {one two three : Option Value}

theorem kindOf_int64 (kind : kindOf one = some .int64) :
    ∃ value, one = some (.scalar (.int64 value)) := by
  unfold kindOf at kind
  split at kind <;> simp at kind ⊢

theorem kindOf_float64 (kind : kindOf one = some .float64) :
    ∃ bits, one = some (.scalar (.float64 bits)) := by
  unfold kindOf at kind
  split at kind <;> simp at kind ⊢

theorem kindOf_string (kind : kindOf one = some .string) :
    ∃ text, one = some (.scalar (.string text)) := by
  unfold kindOf at kind
  split at kind <;> simp at kind ⊢

theorem comparePresent_mixed (mixed : kindOf one ≠ kindOf two ∨
    kindOf one = none) : comparePresent one two = .eq := by
  unfold comparePresent
  split
  · simp [kindOf] at mixed
  · simp [kindOf] at mixed
  · simp [kindOf] at mixed
  · rfl

theorem threeWay_swap {α : Type} {less : α → α → Bool} {first second : α}
    (asymm : less first second = true → less second first = false) :
    threeWay less second first = (threeWay less first second).swap := by
  rw [threeWay, threeWay]
  cases one : less first second <;> cases two : less second first <;>
    simp_all

theorem comparePresent_swap (one two : Option Value) :
    comparePresent two one = (comparePresent one two).swap := by
  by_cases same : kindOf one = kindOf two
  · cases kind : kindOf one with
    | none =>
        rw [comparePresent_mixed (.inr kind),
          comparePresent_mixed (.inr (same ▸ kind))]
        rfl
    | some k =>
        have other := same ▸ kind
        cases k with
        | int64 =>
            obtain ⟨first, rfl⟩ := kindOf_int64 kind
            obtain ⟨second, rfl⟩ := kindOf_int64 other
            simp only [comparePresent, compareInts_compare]
            exact Std.OrientedCmp.eq_swap
        | float64 =>
            obtain ⟨first, rfl⟩ := kindOf_float64 kind
            obtain ⟨second, rfl⟩ := kindOf_float64 other
            simp only [comparePresent]
            apply threeWay_swap
            simp only [Binary64.less, decide_eq_true_eq, decide_eq_false_iff_not]
            omega
        | string =>
            obtain ⟨first, rfl⟩ := kindOf_string kind
            obtain ⟨second, rfl⟩ := kindOf_string other
            simp only [comparePresent, bytesCompare]
            exact Std.OrientedCmp.eq_swap
  · rw [comparePresent_mixed (.inl same),
      comparePresent_mixed (.inl (Ne.symm same))]
    rfl

theorem comparePresent_trans (number : NotNaN one) (other : NotNaN two)
    (last : NotNaN three) (same : kindOf one = kindOf two)
    (again : kindOf two = kindOf three)
    (below : (comparePresent one two).isLE = true)
    (further : (comparePresent two three).isLE = true) :
    (comparePresent one three).isLE = true := by
  cases kind : kindOf one with
  | none =>
      rw [comparePresent_mixed (.inr kind)]
      rfl
  | some k =>
      have second := same ▸ kind
      have third := again ▸ second
      cases k with
      | int64 =>
          obtain ⟨first, rfl⟩ := kindOf_int64 kind
          obtain ⟨middle, rfl⟩ := kindOf_int64 second
          obtain ⟨final, rfl⟩ := kindOf_int64 third
          simp only [comparePresent, compareInts_compare] at below further ⊢
          exact Std.TransCmp.isLE_trans below further
      | float64 =>
          obtain ⟨first, rfl⟩ := kindOf_float64 kind
          obtain ⟨middle, rfl⟩ := kindOf_float64 second
          obtain ⟨final, rfl⟩ := kindOf_float64 third
          simp only [comparePresent] at below further ⊢
          rw [compareFloats_compare number other] at below
          rw [compareFloats_compare other last] at further
          rw [compareFloats_compare number last]
          exact Std.TransCmp.isLE_trans below further
      | string =>
          obtain ⟨first, rfl⟩ := kindOf_string kind
          obtain ⟨middle, rfl⟩ := kindOf_string second
          obtain ⟨final, rfl⟩ := kindOf_string third
          simp only [comparePresent, bytesCompare] at below further ⊢
          exact Std.TransCmp.isLE_trans below further

theorem Apart.kinds (apart : Apart one two) :
    kindOf one = kindOf two ∧ kindOf one ≠ none := by
  unfold Apart at apart
  split at apart <;> simp [kindOf] at apart ⊢

theorem comparePresent_ne_eq (number : NotNaN one) (other : NotNaN two) :
    comparePresent one two ≠ .eq ↔ Apart one two := by
  by_cases same : kindOf one = kindOf two
  · cases kind : kindOf one with
    | none =>
        rw [comparePresent_mixed (.inr kind)]
        constructor
        · intro differs
          exact absurd rfl differs
        · intro apart
          exact absurd kind apart.kinds.2
    | some k =>
        have second := same ▸ kind
        cases k with
        | int64 =>
            obtain ⟨first, rfl⟩ := kindOf_int64 kind
            obtain ⟨middle, rfl⟩ := kindOf_int64 second
            simp only [comparePresent, Apart, ne_eq, compareInts_eq]
        | float64 =>
            obtain ⟨first, rfl⟩ := kindOf_float64 kind
            obtain ⟨middle, rfl⟩ := kindOf_float64 second
            simp only [comparePresent, Apart, ne_eq,
              compareFloats_eq number other, Bool.not_eq_true]
        | string =>
            obtain ⟨first, rfl⟩ := kindOf_string kind
            obtain ⟨middle, rfl⟩ := kindOf_string second
            simp [comparePresent, Apart, bytesCompare]
  · rw [comparePresent_mixed (.inl same)]
    constructor
    · intro differs
      exact absurd rfl differs
    · intro apart
      exact absurd apart.kinds.1 same

end Present

section Column

variable {one two three : Option Value} {values : List (Option Value)}

theorem compareAny_swap (one two : Option Value) :
    compareAny two one = (compareAny one two).swap := by
  rw [compareAny, compareAny]
  cases first : isNothing one <;> cases second : isNothing two <;>
    simp [comparePresent_swap one two]

theorem compareAny_present (first : isNothing one = false)
    (second : isNothing two = false) :
    compareAny one two = comparePresent one two := by
  simp [compareAny, first, second]

theorem present_of_kindOf (kind : kindOf one ≠ none) :
    isNothing one = false := by
  unfold kindOf at kind
  split at kind <;> simp [isNothing, isNil] at kind ⊢

theorem present_of_exactOf {value : Int} (found : exactOf one = some value) :
    isNothing one = false := by
  unfold exactOf at found
  split at found <;> simp [isNothing, isNil] at found ⊢

/-- Nulls are less than all other values, and those compare transitively when
no value stands beside two that are told apart. -/
theorem compareAny_trans (number : NotNaN one) (other : NotNaN two)
    (last : NotNaN three)
    (kinds : Apart one three → isNothing two = false →
      kindOf two = kindOf one)
    (below : (compareAny one two).isLE = true)
    (further : (compareAny two three).isLE = true) :
    (compareAny one three).isLE = true := by
  cases first : isNothing one with
  | true => cases third : isNothing three <;> simp [compareAny, first, third]
  | false =>
      have second : isNothing two = false := by
        cases second : isNothing two with
        | false => rfl
        | true => simp [compareAny, first, second] at below
      have third : isNothing three = false := by
        cases third : isNothing three with
        | false => rfl
        | true => simp [compareAny, second, third] at further
      rw [compareAny_present first second] at below
      rw [compareAny_present second third] at further
      rw [compareAny_present first third]
      by_cases apart : Apart one three
      · have same := kinds apart second
        exact comparePresent_trans number other last same.symm
          (same.trans apart.kinds.1) below further
      · have equal : comparePresent one three = .eq := by
          by_contra differs
          exact apart ((comparePresent_ne_eq number last).mp differs)
        rw [equal]
        rfl

theorem compareAny_numbers (number : NotNaN one) (other : NotNaN two)
    {first second : Int} (left : exactOf one = some first)
    (right : exactOf two = some second) (same : kindOf one = kindOf two)
    (known : kindOf one ≠ none) :
    compareAny one two = .lt ↔ first < second := by
  rw [compareAny_present (present_of_exactOf left) (present_of_exactOf right)]
  cases kind : kindOf one with
  | none => exact absurd kind known
  | some k =>
      have again := same ▸ kind
      cases k with
      | int64 =>
          obtain ⟨value, rfl⟩ := kindOf_int64 kind
          obtain ⟨another, rfl⟩ := kindOf_int64 again
          cases left
          cases right
          simp only [comparePresent, compareInts_compare,
            Binary64.scaledInt_lt]
          exact compare_lt_iff_lt
      | float64 =>
          obtain ⟨bits, rfl⟩ := kindOf_float64 kind
          obtain ⟨another, rfl⟩ := kindOf_float64 again
          cases left
          cases right
          simp only [comparePresent, compareFloats_compare number other,
            Binary64.scaled_lt]
          exact compare_lt_iff_lt
      | string =>
          obtain ⟨text, rfl⟩ := kindOf_string kind
          cases left

theorem truthOf_spec {value : Bool} (truth : truthOf one = some value) :
    one = some (.scalar (.bool value)) := by
  unfold truthOf at truth
  split at truth <;> simp at truth ⊢
  exact truth

theorem timeOf_spec {value : Int64} (time : timeOf one = some value) :
    kindOf one = none ∧ isNothing one = false ∧ NotNaN one := by
  unfold timeOf at time
  split at time <;> simp [kindOf, isNothing, isNil, NotNaN] at time ⊢

theorem exactOf_alike (number : NotNaN one) (other : NotNaN two)
    {first second : Int} (left : exactOf one = some first)
    (right : exactOf two = some second) (same : kindOf one = kindOf two)
    (known : kindOf one ≠ none) : Apart one two ↔ first ≠ second := by
  have below := compareAny_numbers number other left right same known
  have above := compareAny_numbers other number right left same.symm
    (same ▸ known)
  have present := compareAny_present (present_of_exactOf left)
    (present_of_exactOf right)
  rw [← comparePresent_ne_eq number other, ← present]
  rw [compareAny_swap one two] at above
  cases found : compareAny one two <;> rw [found] at below above <;>
    simp at below above ⊢ <;> omega

end Column

section Weak

variable {α : Type}

/-- The comparison is an order on the elements of a list, up to those it finds
equal. -/
def Orders (compare : α → α → Ordering) (items : List α) : Prop :=
  Std.TransCmp fun one two : { item // item ∈ items } => compare one two

theorem Orders.strictWeakOn {compare : α → α → Ordering} {items : List α}
    (orders : Orders compare items) :
    StrictWeakOn (fun one two => (compare one two).isLT) items := by
  have trans : Std.TransCmp fun one two : { item // item ∈ items } =>
      compare one two := orders
  constructor
  · intro one first
    have swapped := @Std.OrientedCmp.eq_swap _ _ trans.toOrientedCmp
      ⟨one, first⟩ ⟨one, first⟩
    simp only at swapped
    cases found : compare one one <;> simp_all
  · intro one first two second three third below further
    rw [Ordering.isLT_iff_eq_lt] at below further ⊢
    exact @Std.TransCmp.lt_trans _ _ trans ⟨one, first⟩ ⟨two, second⟩
      ⟨three, third⟩ below further
  · intro one first two second three third below above lower upper
    have equal : ∀ left right (here : left ∈ items) (there : right ∈ items),
        (compare left right).isLT = false →
        (compare right left).isLT = false → compare left right = .eq := by
      intro left right here there notBelow notAbove
      have swapped := @Std.OrientedCmp.eq_swap _ _ trans.toOrientedCmp
        ⟨left, here⟩ ⟨right, there⟩
      simp only at swapped
      cases found : compare left right <;>
        cases other : compare right left <;> simp_all
    have same := equal one two first second below above
    have again := equal two three second third lower upper
    have both := @Std.TransCmp.eq_trans _ _ trans ⟨one, first⟩ ⟨two, second⟩
      ⟨three, third⟩ same again
    have back := @Std.OrientedCmp.eq_symm _ _ trans.toOrientedCmp
      ⟨one, first⟩ ⟨three, third⟩ both
    simp only at both back
    rw [both, back]
    exact ⟨rfl, rfl⟩

end Weak

section Uniform

variable {values : List (Option Value)}
  (numbers : ∀ value ∈ values, NotNaN value)
include numbers

theorem Uniform.orders (uniform : Uniform values) :
    Orders compareAny values := by
  refine @Std.TransCmp.mk _ _ (Std.OrientedCmp.mk ?_) ?_
  · rintro ⟨one, _⟩ ⟨two, _⟩
    exact compareAny_swap two one
  · rintro ⟨one, first⟩ ⟨two, second⟩ ⟨three, third⟩ below further
    exact compareAny_trans (numbers one first) (numbers two second)
      (numbers three third)
      (fun apart => uniform.kinds one first three third two second apart)
      below further

theorem Uniform.byValue (uniform : Uniform values) : ByValue values := by
  constructor
  · intro one first two second left right found other
    by_cases same : left = right
    · -- equal numbers are found equal, or have no type of their own
      rw [same]
      constructor
      · intro below
        exfalso
        have present := compareAny_present (present_of_exactOf found)
          (present_of_exactOf other)
        have apart : Apart one two := by
          apply (comparePresent_ne_eq (numbers one first)
            (numbers two second)).mp
          rw [← present, below]
          nofun
        exact (exactOf_alike (numbers one first) (numbers two second) found
          other apart.kinds.1 apart.kinds.2).mp apart same
      · intro below
        exact absurd below (lt_irrefl _)
    · have alike := uniform.numbers one first two second left right found other
        same
      exact compareAny_numbers (numbers one first) (numbers two second) found
        other alike.1 alike.2
  · intro one first two second left right found other
    have same := uniform.bools one first two second left right found other
    rw [truthOf_spec found, truthOf_spec other, same]
    cases right <;> simp [compareAny, isNothing, isNil, comparePresent]
  · intro one first two second left right found other
    have same := uniform.times one first two second left right found other
    have none := timeOf_spec found
    rw [same, compareAny_present none.2.1 (timeOf_spec other).2.1,
      comparePresent_mixed (.inr none.1)]
    simp

theorem uniform_iff :
    (StrictWeakOn (fun one two => (compareAny one two).isLT) values ∧
      ByValue values) ↔ Uniform values := by
  constructor
  · rintro ⟨weak, byValue⟩
    have told : ∀ one ∈ values, ∀ two ∈ values, compareAny one two = .lt →
        isNothing one = false → kindOf one = kindOf two ∧
          kindOf one ≠ none := by
      intro one first two second below present
      have other : isNothing two = false := by
        cases nothing : isNothing two with
        | false => rfl
        | true => simp [compareAny, present, nothing] at below
      rw [compareAny_present present other] at below
      by_contra mixed
      rw [comparePresent_mixed (by
        by_contra neither
        rw [not_or, not_not] at neither
        exact mixed neither)] at below
      cases below
    constructor
    · intro one first two second left right found other differs
      have present := present_of_exactOf found
      have there := present_of_exactOf other
      cases lt_or_gt_of_ne differs with
      | inl below =>
          exact told one first two second ((byValue.numbers one first two second
            left right found other).mpr below) present
      | inr above =>
          obtain ⟨same, known⟩ := told two second one first
            ((byValue.numbers two second one first right left other found).mpr
              above) there
          exact ⟨same.symm, same ▸ known⟩
    · intro one first two second left right found other
      by_contra differs
      have equal : ∀ truth other, compareAny (some (.scalar (.bool truth)))
          (some (.scalar (.bool other))) = .eq := fun _ _ => rfl
      have below := byValue.bools one first two second left right found other
      have above := byValue.bools two second one first right left other found
      rw [truthOf_spec found, truthOf_spec other, equal] at below above
      cases left <;> cases right <;> simp at below above differs
    · intro one first two second left right found other
      have below := byValue.times one first two second left right found other
      have above := byValue.times two second one first right left other found
      have this := timeOf_spec found
      have that := timeOf_spec other
      rw [compareAny_present this.2.1 that.2.1,
        comparePresent_mixed (.inr this.1)] at below
      rw [compareAny_present that.2.1 this.2.1,
        comparePresent_mixed (.inr that.1)] at above
      simp only [reduceCtorEq, false_iff, Int64.not_lt] at below above
      exact Int64.le_antisymm above below
    · intro one first two second three third apart present
      by_contra mixed
      -- a value of another type is equal to both
      have here := present_of_kindOf apart.kinds.2
      have there : isNothing two = false :=
        present_of_kindOf (apart.kinds.1 ▸ apart.kinds.2)
      have left : comparePresent one three = .eq :=
        comparePresent_mixed (.inl (Ne.symm mixed))
      have right : comparePresent two three = .eq :=
        comparePresent_mixed (.inl (apart.kinds.1 ▸ Ne.symm mixed))
      have apartness := weak.incomparable one first three third two second
      rw [compareAny_present here present, compareAny_present present here,
        compareAny_present present there, compareAny_present there present,
        compareAny_present here there, compareAny_present there here,
        comparePresent_swap one three, comparePresent_swap two three,
        comparePresent_swap one two, left, right] at apartness
      have both := apartness rfl rfl rfl rfl
      apply (comparePresent_ne_eq (numbers one first)
        (numbers two second)).mpr apart
      cases found : comparePresent one two <;> rw [found] at both <;>
        simp at both ⊢
  · intro uniform
    exact ⟨(uniform.orders numbers).strictWeakOn, uniform.byValue numbers⟩

end Uniform

/-! ## Sorting documents -/

def column (name : Bytes) (items : List Item) : List (Option Value) :=
  items.map fun item => valueAt item.view name

/-- The comparison of `Sort` as an order of two documents. -/
def compareFields : List SortField → Item → Item → Ordering
  | [], _, _ => .eq
  | sortField :: rest, first, second =>
      (if sortField.desc then
        compareAny (valueAt second.view sortField.field)
          (valueAt first.view sortField.field)
      else compareAny (valueAt first.view sortField.field)
        (valueAt second.view sortField.field)).then
        (compareFields rest first second)

theorem sortsBefore_eq (fields : List SortField) (first second : Item) :
    sortsBefore fields first second =
      (compareFields fields first second).isLT := by
  induction fields with
  | nil => rfl
  | cons sortField rest inductionHypothesis =>
      rw [sortsBefore, compareFields, inductionHypothesis,
        compareAny_swap (valueAt first.view sortField.field)]
      cases compareAny (valueAt first.view sortField.field)
        (valueAt second.view sortField.field) <;>
        cases sortField.desc <;> rfl

section Combination

variable {α β : Type} {items : List α}

theorem Orders.comp {compare : β → β → Ordering} (read : α → β)
    (orders : Orders compare (items.map read)) :
    Orders (fun one two => compare (read one) (read two)) items := by
  have trans : Std.TransCmp fun one two : { item // item ∈ items.map read } =>
      compare one two := orders
  have member : ∀ one ∈ items, read one ∈ items.map read :=
    fun one here => List.mem_map_of_mem here
  refine @Std.TransCmp.mk _ _ (Std.OrientedCmp.mk ?_) ?_
  · rintro ⟨one, first⟩ ⟨two, second⟩
    exact @Std.OrientedCmp.eq_swap _ _ trans.toOrientedCmp
      ⟨read one, member one first⟩ ⟨read two, member two second⟩
  · rintro ⟨one, first⟩ ⟨two, second⟩ ⟨three, third⟩ below further
    exact @Std.TransCmp.isLE_trans _ _ trans ⟨read one, member one first⟩
      ⟨read two, member two second⟩ ⟨read three, member three third⟩ below
      further

theorem Orders.flip {compare : α → α → Ordering}
    (orders : Orders compare items) :
    Orders (fun one two => compare two one) items := by
  have trans : Std.TransCmp fun one two : { item // item ∈ items } =>
      compare one two := orders
  exact @Std.TransCmp.opposite _ _ trans

theorem Orders.then {compare further : α → α → Ordering}
    (orders : Orders compare items) (others : Orders further items) :
    Orders (fun one two => (compare one two).then (further one two)) items := by
  have trans : Std.TransCmp fun one two : { item // item ∈ items } =>
      compare one two := orders
  have again : Std.TransCmp fun one two : { item // item ∈ items } =>
      further one two := others
  exact inferInstanceAs (Std.TransCmp (compareLex
    (fun one two : { item // item ∈ items } => compare one two)
    (fun one two : { item // item ∈ items } => further one two)))

end Combination

theorem orders_compareFields {items : List Item} {fields : List SortField}
    (each : ∀ sortField ∈ fields,
      Orders compareAny (column sortField.field items)) :
    Orders (compareFields fields) items := by
  induction fields with
  | nil =>
      refine @Std.TransCmp.mk _ _ (Std.OrientedCmp.mk ?_) ?_
      · intro one two
        rfl
      · intro one two three _ _
        rfl
  | cons sortField rest inductionHypothesis =>
      have first := (each sortField (List.mem_cons_self ..)).comp
        fun item : Item => valueAt item.view sortField.field
      have others := inductionHypothesis fun other member =>
        each other (List.mem_cons_of_mem _ member)
      cases direction : sortField.desc with
      | false =>
          have whole := first.then others
          simpa only [compareFields, direction, Bool.false_eq_true, if_false]
            using whole
      | true =>
          have whole := first.flip.then others
          simpa only [compareFields, direction, if_true] using whole

/-- The comparison is a strict weak order that compares values as what they
are, and the elements are brought into that order. -/
structure SortsWell (slice : Slice) (fields : List SortField)
    (items : List Item) : Prop where
  weak : StrictWeakOn (sortsBefore fields) items
  byValue : ∀ sortField ∈ fields, ByValue (column sortField.field items)
  perm : (arrange slice fields items).Perm items
  ordered : Ordered (sortsBefore fields) (arrange slice fields items)

def singleItem (value : Scalar) : Item :=
  ⟨viewOf singleDict (singlePayload value), 1⟩

theorem one_reads : Reads (singleItem (.int64 1)).view [0x61]
    (some (.scalar (.int64 1))) := by
  refine @single_reads (.int64 1) ⟨2, 22, 8⟩ ?_ (by decide) (by decide) rfl
    (by decide)
  rw [DocumentView.searchField]
  rfl

theorem text_reads : Reads (singleItem (.string [0x78])).view [0x61]
    (some (.scalar (.string [0x78]))) := by
  refine @single_reads (.string [0x78]) ⟨5, 22, 1⟩ ?_ (by decide) (by decide)
    rfl (by decide)
  rw [DocumentView.searchField]
  rfl

theorem singleItem_readable {value : Scalar}
    (short : (singlePayload value).length < 2 ^ 32) :
    Readable (singleItem value).view :=
  readable_encoded (single_encoded short) single_wellFormed

end CocoDB.Query
