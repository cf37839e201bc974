import Mathlib.Algebra.Group.Int.Defs
import Mathlib.Algebra.Group.Nat.Defs
import Mathlib.Data.Int.Order.Basic
import Mathlib.Order.Monotone.Basic

/-!
# Double precision numbers as bit patterns

The order of the binary64 numbers and the conversion from 64-bit integers,
which rounds to the nearest number and to the even one between two.
-/

namespace CocoDB.Lib.Binary64

/-! ## Order -/

def isNaN (bits : UInt64) : Bool :=
  0x7FF0000000000000 < bits.toNat % 2 ^ 63

def rank (bits : UInt64) : Int :=
  if bits.toNat < 2 ^ 63 then bits.toNat else (2 ^ 63 : Int) - bits.toNat

/-- `left < right` -/
def less (left right : UInt64) : Bool :=
  isNaN left = false ∧ isNaN right = false ∧ rank left < rank right

/-- `left <= right` -/
def atMost (left right : UInt64) : Bool :=
  isNaN left = false ∧ isNaN right = false ∧ rank left ≤ rank right

/-- `left == right` -/
def equal (left right : UInt64) : Bool :=
  isNaN left = false ∧ isNaN right = false ∧ rank left = rank right

section Order

variable {left right : UInt64} (number : isNaN left = false)
  (other : isNaN right = false)
include number other

theorem less_iff : less left right = true ↔ rank left < rank right := by
  simp [less, number, other]

theorem atMost_iff : atMost left right = true ↔ rank left ≤ rank right := by
  simp [atMost, number, other]

theorem equal_iff : equal left right = true ↔ rank left = rank right := by
  simp [equal, number, other]

end Order

theorem equal_comm (left right : UInt64) :
    equal left right = equal right left := by
  rw [Bool.eq_iff_iff]
  simp only [equal, decide_eq_true_eq]
  constructor
  · rintro ⟨number, other, same⟩
    exact ⟨other, number, same.symm⟩
  · rintro ⟨number, other, same⟩
    exact ⟨other, number, same.symm⟩

/-! ## Integers -/

/-- A number without its last `shift` bits, rounded. -/
def roundShift (number shift : Nat) : Nat :=
  let quotient := number / 2 ^ shift
  let rest := number % 2 ^ shift
  if 2 ^ shift < 2 * rest ∨ (2 * rest = 2 ^ shift ∧ quotient % 2 = 1) then
    quotient + 1
  else quotient

def significand (number : Nat) : Nat :=
  if number.log2 ≤ 52 then number * 2 ^ (52 - number.log2)
  else roundShift number (number.log2 - 52)

/-- The pattern of a natural number.  The leading bit of the significand counts
as one for the exponent, and so does a carry. -/
def ofNat (number : Nat) : Nat :=
  if number = 0 then 0 else (1022 + number.log2) * 2 ^ 52 + significand number

/-- `float64(number)` -/
def ofInt64 (number : Int64) : UInt64 :=
  if 0 ≤ number.toInt then UInt64.ofNat (ofNat number.toInt.toNat)
  else UInt64.ofNat (2 ^ 63 + ofNat (-number.toInt).toNat)

/-! ## Rounding keeps the order -/

theorem roundShift_bounds (number shift : Nat) :
    number / 2 ^ shift ≤ roundShift number shift ∧
      roundShift number shift ≤ number / 2 ^ shift + 1 := by
  simp only [roundShift]
  split
  · exact ⟨Nat.le_succ _, Nat.le_refl _⟩
  · exact ⟨Nat.le_refl _, Nat.le_succ _⟩

theorem roundShift_mono {less more : Nat} (below : less ≤ more)
    (shift : Nat) : roundShift less shift ≤ roundShift more shift := by
  have quotients : less / 2 ^ shift ≤ more / 2 ^ shift :=
    Nat.div_le_div_right below
  rcases Nat.lt_or_eq_of_le quotients with apart | same
  · calc roundShift less shift ≤ less / 2 ^ shift + 1 :=
          (roundShift_bounds less shift).2
      _ ≤ more / 2 ^ shift := apart
      _ ≤ roundShift more shift := (roundShift_bounds more shift).1
  · -- the quotients are equal, so the rests decide
    have rests : less % 2 ^ shift ≤ more % 2 ^ shift := by
      have first := Nat.div_add_mod less (2 ^ shift)
      have second := Nat.div_add_mod more (2 ^ shift)
      rw [same] at first
      omega
    simp only [roundShift, same]
    split
    · rename_i up
      exact Nat.le_of_eq (if_pos (by omega)).symm
    · split
      · exact Nat.le_succ _
      · exact Nat.le_refl _

theorem significand_bounds {number : Nat} (positive : number ≠ 0) :
    2 ^ 52 ≤ significand number ∧ significand number ≤ 2 ^ 53 := by
  have low := Nat.log2_self_le positive
  have high := @Nat.lt_log2_self number
  rw [significand]
  split
  · rename_i small
    have split : 2 ^ 52 = 2 ^ number.log2 * 2 ^ (52 - number.log2) := by
      rw [← Nat.pow_add]
      congr 1
      omega
    constructor
    · rw [split]
      exact Nat.mul_le_mul_right _ low
    · have twice : 2 ^ 53 = 2 ^ (number.log2 + 1) * 2 ^ (52 - number.log2) := by
        rw [← Nat.pow_add]
        congr 1
        omega
      rw [twice]
      exact Nat.mul_le_mul_right _ (Nat.le_of_lt high)
  · rename_i large
    have split : 2 ^ number.log2 = 2 ^ 52 * 2 ^ (number.log2 - 52) := by
      rw [← Nat.pow_add]
      congr 1
      omega
    have bounds := roundShift_bounds number (number.log2 - 52)
    constructor
    · apply Nat.le_trans _ bounds.1
      rw [Nat.le_div_iff_mul_le (Nat.two_pow_pos _), ← split]
      exact low
    · apply Nat.le_trans bounds.2
      apply Nat.succ_le_of_lt
      rw [Nat.div_lt_iff_lt_mul (Nat.two_pow_pos _)]
      have twice : 2 ^ 53 * 2 ^ (number.log2 - 52) =
          2 ^ (number.log2 + 1) := by
        rw [Nat.pow_succ 2 number.log2, split]
        omega
      rw [twice]
      exact high

theorem log2_mono {less more : Nat} (below : less ≤ more) :
    less.log2 ≤ more.log2 := by
  by_cases zero : less = 0
  · rw [zero, Nat.log2_zero]
    exact Nat.zero_le _
  · apply (Nat.le_log2 (by omega)).mpr
    exact Nat.le_trans (Nat.log2_self_le zero) below

theorem ofNat_mono {less more : Nat} (below : less ≤ more) :
    ofNat less ≤ ofNat more := by
  simp only [ofNat]
  split
  · exact Nat.zero_le _
  rename_i positive
  rw [if_neg (by omega)]
  have first := significand_bounds positive
  have second := significand_bounds (show more ≠ 0 by omega)
  rcases Nat.lt_or_eq_of_le (log2_mono below) with apart | same
  · omega
  · have kept : significand less ≤ significand more := by
      simp only [significand, same]
      split
      · exact Nat.mul_le_mul_right _ below
      · exact roundShift_mono below _
    omega

theorem ofNat_small {number : Nat} (bound : number ≤ 2 ^ 63) :
    ofNat number < 0x7FF0000000000000 := by
  rw [ofNat]
  split
  · decide
  · rename_i positive
    have significand := significand_bounds positive
    have top : number.log2 ≤ 63 := by
      apply Nat.le_trans (log2_mono bound)
      decide
    omega

theorem toNat_ofInt64 (number : Int64) :
    (0 ≤ number.toInt ∧ (ofInt64 number).toNat = ofNat number.toInt.toNat ∧
      ofNat number.toInt.toNat < 0x7FF0000000000000) ∨
    (number.toInt < 0 ∧
      (ofInt64 number).toNat = 2 ^ 63 + ofNat (-number.toInt).toNat ∧
      ofNat (-number.toInt).toNat < 0x7FF0000000000000) := by
  have low := number.le_toInt
  have high := number.toInt_lt
  rw [ofInt64]
  split
  · have small := @ofNat_small number.toInt.toNat (by omega)
    refine .inl ⟨by omega, ?_, small⟩
    apply UInt64.toNat_ofNat_of_lt'
    exact Nat.lt_trans small (by decide)
  · have small := @ofNat_small (-number.toInt).toNat (by omega)
    refine .inr ⟨by omega, ?_, small⟩
    apply UInt64.toNat_ofNat_of_lt'
    exact Nat.lt_trans (Nat.add_lt_add_left small _) (by decide)

theorem isNaN_ofInt64 (number : Int64) : isNaN (ofInt64 number) = false := by
  rw [isNaN, decide_eq_false_iff_not]
  rcases toNat_ofInt64 number with ⟨_, bits, small⟩ | ⟨_, bits, small⟩
  · omega
  · omega

theorem rank_ofInt64_mono {less more : Int64} (below : less ≤ more) :
    rank (ofInt64 less) ≤ rank (ofInt64 more) := by
  have order : less.toInt ≤ more.toInt := Int64.le_iff_toInt_le.mp below
  simp only [rank]
  rcases toNat_ofInt64 less with ⟨sign, bits, small⟩ | ⟨sign, bits, small⟩
  · rcases toNat_ofInt64 more with ⟨_, other, tiny⟩ | ⟨negative, _⟩
    · have kept := @ofNat_mono less.toInt.toNat more.toInt.toNat (by omega)
      rw [if_pos (by omega), if_pos (by omega)]
      omega
    · omega
  · rw [if_neg (by omega)]
    rcases toNat_ofInt64 more with ⟨_, other, tiny⟩ | ⟨_, other, tiny⟩
    · rw [if_pos (by omega)]
      omega
    · have kept := @ofNat_mono (-more.toInt).toNat (-less.toInt).toNat
        (by omega)
      rw [if_neg (by omega)]
      omega

end CocoDB.Lib.Binary64

/-! ## What double precision numbers stand for

Every finite binary64 number is a multiple of the smallest positive one, 2^-1074.
The multiple orders the patterns as their ranks do.
-/

namespace CocoDB.Lib.Binary64

def units (magnitude : Nat) : Nat :=
  if magnitude < 2 ^ 52 then magnitude
  else (2 ^ 52 + magnitude % 2 ^ 52) * 2 ^ (magnitude / 2 ^ 52 - 1)

def scaled (bits : UInt64) : Int :=
  if 0 ≤ rank bits then (units (rank bits).toNat : Int)
  else -(units (-rank bits).toNat : Int)

def scaledInt (number : Int) : Int :=
  number * 2 ^ 1074

theorem scaledInt_lt {left right : Int} :
    scaledInt left < scaledInt right ↔ left < right := by
  exact Int.mul_lt_mul_right (Int.pow_pos (by decide))

theorem units_succ (magnitude : Nat) :
    units magnitude < units (magnitude + 1) := by
  by_cases small : magnitude < 2 ^ 52
  · rw [units, if_pos small]
    by_cases last : magnitude + 1 < 2 ^ 52
    · rw [units, if_pos last]
      exact Nat.lt_succ_self _
    · have top : magnitude + 1 = 2 ^ 52 := by omega
      have first : units (2 ^ 52) = 2 ^ 52 := by decide
      rw [top, first]
      exact small
  · have more : ¬ magnitude + 1 < 2 ^ 52 := by omega
    rw [units, if_neg small, units, if_neg more]
    by_cases carry : magnitude % 2 ^ 52 = 2 ^ 52 - 1
    · -- the next pattern has the next exponent
      have quotient : (magnitude + 1) / 2 ^ 52 = magnitude / 2 ^ 52 + 1 := by
        omega
      have rest : (magnitude + 1) % 2 ^ 52 = 0 := by omega
      have power : 2 ^ (magnitude / 2 ^ 52 + 1 - 1) =
          2 * 2 ^ (magnitude / 2 ^ 52 - 1) := by
        have positive : 1 ≤ magnitude / 2 ^ 52 := by omega
        rw [← Nat.pow_succ']
        congr 1
        omega
      rw [quotient, rest, carry, power]
      have positive : 0 < 2 ^ (magnitude / 2 ^ 52 - 1) := Nat.pow_pos (by decide)
      generalize 2 ^ (magnitude / 2 ^ 52 - 1) = power at positive
      omega
    · have quotient : (magnitude + 1) / 2 ^ 52 = magnitude / 2 ^ 52 := by omega
      have rest : (magnitude + 1) % 2 ^ 52 = magnitude % 2 ^ 52 + 1 := by omega
      rw [quotient, rest]
      apply Nat.mul_lt_mul_of_pos_right
      · omega
      · exact Nat.pow_pos (by decide)

theorem units_strictMono : StrictMono units :=
  strictMono_nat_of_lt_succ units_succ

theorem units_pos {magnitude : Nat} (positive : 0 < magnitude) :
    0 < units magnitude := by
  have first : units 0 < units magnitude := units_strictMono positive
  omega

theorem scaled_lt (left right : UInt64) :
    scaled left < scaled right ↔ rank left < rank right := by
  have zero : units 0 = 0 := rfl
  rw [scaled, scaled]
  by_cases one : 0 ≤ rank left
  · by_cases other : 0 ≤ rank right
    · rw [if_pos one, if_pos other, Int.ofNat_lt,
        units_strictMono.lt_iff_lt]
      omega
    · have positive := @units_pos (-rank right).toNat (by omega)
      rw [if_pos one, if_neg other]
      omega
  · have positive := @units_pos (-rank left).toNat (by omega)
    by_cases other : 0 ≤ rank right
    · rw [if_neg one, if_pos other]
      omega
    · rw [if_neg one, if_neg other, Int.neg_lt_neg_iff, Int.ofNat_lt,
        units_strictMono.lt_iff_lt]
      omega

end CocoDB.Lib.Binary64
