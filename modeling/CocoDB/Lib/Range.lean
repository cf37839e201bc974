import Mathlib.Order.Lattice

/-!
# Half-open ranges

Ranges `[low, high)` of a linear order, open-ended where a bound is missing,
and their division at a separator.
-/

namespace CocoDB.Lib

/-- The keys from `low` up to but not including `high`. -/
structure Range (K : Type) where
  low : Option K
  high : Option K

namespace Range

variable {K : Type} [LinearOrder K]

def whole : Range K := ⟨none, none⟩

def below (range : Range K) (separator : K) : Range K :=
  { range with high := some separator }

def above (range : Range K) (separator : K) : Range K :=
  { range with low := some separator }

def Contains (range : Range K) (key : K) : Prop :=
  (∀ bound, range.low = some bound → bound ≤ key) ∧
    ∀ bound, range.high = some bound → key < bound

def Splits (range : Range K) (separator : K) : Prop :=
  (∀ bound, range.low = some bound → bound < separator) ∧
    ∀ bound, range.high = some bound → separator < bound

variable {range : Range K} {key separator : K}

theorem whole_contains (key : K) : (whole : Range K).Contains key :=
  ⟨fun _ missing => (nomatch missing), fun _ missing => (nomatch missing)⟩

theorem Contains.below (inside : range.Contains key)
    (under : key < separator) : (range.below separator).Contains key :=
  ⟨inside.1, fun bound same => by
    cases same
    exact under⟩

theorem Contains.above (inside : range.Contains key)
    (atLeast : separator ≤ key) : (range.above separator).Contains key :=
  ⟨fun bound same => by
    cases same
    exact atLeast, inside.2⟩

theorem Contains.of_below (splits : range.Splits separator)
    (inside : (range.below separator).Contains key) : range.Contains key :=
  ⟨inside.1, fun bound same =>
    (inside.2 separator rfl).trans (splits.2 bound same)⟩

theorem Contains.of_above (splits : range.Splits separator)
    (inside : (range.above separator).Contains key) : range.Contains key :=
  ⟨fun bound same =>
    (splits.1 bound same).le.trans (inside.1 separator rfl), inside.2⟩

theorem Contains.lt_separator
    (inside : (range.below separator).Contains key) : key < separator :=
  inside.2 separator rfl

theorem Contains.separator_le
    (inside : (range.above separator).Contains key) : separator ≤ key :=
  inside.1 separator rfl

theorem Splits.of_above (splits : range.Splits separator)
    (inner : (range.above separator).Splits key) : range.Splits key :=
  ⟨fun bound same => (splits.1 bound same).trans (inner.1 separator rfl),
    inner.2⟩

theorem Contains.splits {smaller : K} (inside : range.Contains key)
    (member : range.Contains smaller) (less : smaller < key) :
    range.Splits key :=
  ⟨fun bound same => (member.1 bound same).trans_lt less, inside.2⟩

end Range

end CocoDB.Lib
