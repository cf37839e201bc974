import CocoDB.Lib.Stride
import CocoDB.Vector.Distance
import Mathlib.Algebra.BigOperators.Pi
import Mathlib.Tactic.Ring

/-!
# The distance functions

`internal/vector/distance.go`: the loops of `DotProductDistance`, `L2Distance`
and `CosineDistance`, over a commutative ring in place of 32-bit floats.  They
take eight components at a time into eight accumulators and the rest one by one.
An index out of range is a panic, and there is no result then.
-/

namespace CocoDB.Vector

open Lib Finset

universe u

section Unrolled

variable {R : Type u} [CommRing R]

/-- `v[i]` -/
def component {α : Type u} (v : List α) (i : Nat) : Option α := v[i]?

def shorter {α : Type u} (a b : List α) : Nat :=
  if b.length < a.length then b.length else a.length

structure Lanes (R : Type u) where
  lane0 : R
  lane1 : R
  lane2 : R
  lane3 : R
  lane4 : R
  lane5 : R
  lane6 : R
  lane7 : R

namespace Lanes

def zero : Lanes R := ⟨0, 0, 0, 0, 0, 0, 0, 0⟩

def total (lanes : Lanes R) : R :=
  lanes.lane0 + lanes.lane1 + lanes.lane2 + lanes.lane3 + lanes.lane4 +
    lanes.lane5 + lanes.lane6 + lanes.lane7

end Lanes

/-! ## The three functions -/

/-- A turn of the unrolled loop of `DotProductDistance`. -/
def dotTurn (a b : List R) (i : Nat) (dot : Lanes R) : Option (Lanes R) := do
  let _ ← component a (i + 7)
  let _ ← component b (i + 7)
  let dot0 := dot.lane0 + (← component a i) * (← component b i)
  let dot1 := dot.lane1 + (← component a (i + 1)) * (← component b (i + 1))
  let dot2 := dot.lane2 + (← component a (i + 2)) * (← component b (i + 2))
  let dot3 := dot.lane3 + (← component a (i + 3)) * (← component b (i + 3))
  let dot4 := dot.lane4 + (← component a (i + 4)) * (← component b (i + 4))
  let dot5 := dot.lane5 + (← component a (i + 5)) * (← component b (i + 5))
  let dot6 := dot.lane6 + (← component a (i + 6)) * (← component b (i + 6))
  let dot7 := dot.lane7 + (← component a (i + 7)) * (← component b (i + 7))
  return ⟨dot0, dot1, dot2, dot3, dot4, dot5, dot6, dot7⟩

def dotRest (a b : List R) (i : Nat) (dot : R) : Option R := do
  return dot + (← component a i) * (← component b i)

def dotProductDistance (a b : List R) : Option R := do
  let n := shorter a b
  let (i, dot) ← strideLoop 7 n (dotTurn a b) 0 .zero
  let (_, dot) ← strideLoop 0 n (dotRest a b) i dot.total
  return dot

/-- A turn of the unrolled loop of `L2Distance`. -/
def l2Turn (a b : List R) (i : Nat) (sum : Lanes R) : Option (Lanes R) := do
  let _ ← component a (i + 7)
  let _ ← component b (i + 7)
  let d0 := (← component a i) - (← component b i)
  let d1 := (← component a (i + 1)) - (← component b (i + 1))
  let d2 := (← component a (i + 2)) - (← component b (i + 2))
  let d3 := (← component a (i + 3)) - (← component b (i + 3))
  let d4 := (← component a (i + 4)) - (← component b (i + 4))
  let d5 := (← component a (i + 5)) - (← component b (i + 5))
  let d6 := (← component a (i + 6)) - (← component b (i + 6))
  let d7 := (← component a (i + 7)) - (← component b (i + 7))
  return ⟨sum.lane0 + d0 * d0, sum.lane1 + d1 * d1, sum.lane2 + d2 * d2,
    sum.lane3 + d3 * d3, sum.lane4 + d4 * d4, sum.lane5 + d5 * d5,
    sum.lane6 + d6 * d6, sum.lane7 + d7 * d7⟩

def l2Rest (a b : List R) (i : Nat) (sum : R) : Option R := do
  let d := (← component a i) - (← component b i)
  return sum + d * d

/-- `sum` in `L2Distance`, before the square root -/
def l2Sum (a b : List R) : Option R := do
  let n := shorter a b
  let (i, sum) ← strideLoop 7 n (l2Turn a b) 0 .zero
  let (_, sum) ← strideLoop 0 n (l2Rest a b) i sum.total
  return sum

def l2Distance (sqrt : R → R) (a b : List R) : Option R := do
  return sqrt (← l2Sum a b)

structure CosineSums (α : Type u) where
  dot : α
  normA : α
  normB : α

/-- A turn of the unrolled loop of `CosineDistance`. -/
def cosineTurn (a b : List R) (i : Nat) (sums : CosineSums (Lanes R)) :
    Option (CosineSums (Lanes R)) := do
  let _ ← component a (i + 7)
  let _ ← component b (i + 7)
  let ⟨dot, normA, normB⟩ := sums
  let dot0 := dot.lane0 + (← component a i) * (← component b i)
  let dot1 := dot.lane1 + (← component a (i + 1)) * (← component b (i + 1))
  let dot2 := dot.lane2 + (← component a (i + 2)) * (← component b (i + 2))
  let dot3 := dot.lane3 + (← component a (i + 3)) * (← component b (i + 3))
  let dot4 := dot.lane4 + (← component a (i + 4)) * (← component b (i + 4))
  let dot5 := dot.lane5 + (← component a (i + 5)) * (← component b (i + 5))
  let dot6 := dot.lane6 + (← component a (i + 6)) * (← component b (i + 6))
  let dot7 := dot.lane7 + (← component a (i + 7)) * (← component b (i + 7))
  let normA0 := normA.lane0 + (← component a i) * (← component a i)
  let normA1 := normA.lane1 + (← component a (i + 1)) * (← component a (i + 1))
  let normA2 := normA.lane2 + (← component a (i + 2)) * (← component a (i + 2))
  let normA3 := normA.lane3 + (← component a (i + 3)) * (← component a (i + 3))
  let normA4 := normA.lane4 + (← component a (i + 4)) * (← component a (i + 4))
  let normA5 := normA.lane5 + (← component a (i + 5)) * (← component a (i + 5))
  let normA6 := normA.lane6 + (← component a (i + 6)) * (← component a (i + 6))
  let normA7 := normA.lane7 + (← component a (i + 7)) * (← component a (i + 7))
  let normB0 := normB.lane0 + (← component b i) * (← component b i)
  let normB1 := normB.lane1 + (← component b (i + 1)) * (← component b (i + 1))
  let normB2 := normB.lane2 + (← component b (i + 2)) * (← component b (i + 2))
  let normB3 := normB.lane3 + (← component b (i + 3)) * (← component b (i + 3))
  let normB4 := normB.lane4 + (← component b (i + 4)) * (← component b (i + 4))
  let normB5 := normB.lane5 + (← component b (i + 5)) * (← component b (i + 5))
  let normB6 := normB.lane6 + (← component b (i + 6)) * (← component b (i + 6))
  let normB7 := normB.lane7 + (← component b (i + 7)) * (← component b (i + 7))
  return ⟨⟨dot0, dot1, dot2, dot3, dot4, dot5, dot6, dot7⟩,
    ⟨normA0, normA1, normA2, normA3, normA4, normA5, normA6, normA7⟩,
    ⟨normB0, normB1, normB2, normB3, normB4, normB5, normB6, normB7⟩⟩

def cosineRest (a b : List R) (i : Nat) (sums : CosineSums R) :
    Option (CosineSums R) := do
  let dot := sums.dot + (← component a i) * (← component b i)
  let normA := sums.normA + (← component a i) * (← component a i)
  let normB := sums.normB + (← component b i) * (← component b i)
  return ⟨dot, normA, normB⟩

/-- `dot`, `normA` and `normB` in `CosineDistance` -/
def cosineSums (a b : List R) : Option (CosineSums R) := do
  let n := shorter a b
  let (i, sums) ← strideLoop 7 n (cosineTurn a b) 0 ⟨.zero, .zero, .zero⟩
  let (_, sums) ← strideLoop 0 n (cosineRest a b) i
    ⟨sums.dot.total, sums.normA.total, sums.normB.total⟩
  return sums

def cosineDistance [DecidableEq R] [Div R] (sqrt : R → R) (a b : List R) :
    Option R := do
  let sums ← cosineSums a b
  if sums.normA = 0 ∨ sums.normB = 0 then return 1
  else return 1 - sums.dot / (sqrt sums.normA * sqrt sums.normB)

/-! ## Their sums -/

variable {a b v : List R} {i : Nat}

theorem shorter_eq {α : Type u} (a b : List α) :
    shorter a b = min a.length b.length := by
  rw [shorter]
  split <;> omega

theorem component_eq (inside : i < v.length) :
    component v i = some (v.getD i 0) := by
  rw [component, List.getElem?_eq_getElem inside,
    List.getD_eq_getElem?_getD, List.getElem?_eq_getElem inside,
    Option.getD_some]

theorem Lanes.total_zero : (zero : Lanes R).total = 0 := by
  simp only [total, zero, add_zero]

theorem dotTurn_adds (a b : List R) :
    Adds 7 (shorter a b) (dotTurn a b) Lanes.total
      fun k => a.getD k 0 * b.getD k 0 := by
  intro i dot inside
  rw [shorter_eq] at inside
  simp (disch := omega) only [dotTurn, component_eq, Option.bind_eq_bind,
    Option.bind_some, Option.pure_def, Option.some.injEq, exists_eq_left']
  simp only [Lanes.total, sum_range_succ, sum_range_zero, Nat.add_zero]
  ring

theorem dotRest_adds (a b : List R) :
    Adds 0 (shorter a b) (dotRest a b) id
      fun k => a.getD k 0 * b.getD k 0 := by
  intro i dot inside
  rw [shorter_eq] at inside
  simp (disch := omega) only [dotRest, component_eq, Option.bind_eq_bind,
    Option.bind_some, Option.pure_def, Option.some.injEq, exists_eq_left']
  simp only [id, sum_range_succ, sum_range_zero, Nat.add_zero, zero_add]

theorem l2Turn_adds (a b : List R) :
    Adds 7 (shorter a b) (l2Turn a b) Lanes.total
      fun k => (a.getD k 0 - b.getD k 0) ^ 2 := by
  intro i sum inside
  rw [shorter_eq] at inside
  simp (disch := omega) only [l2Turn, component_eq, Option.bind_eq_bind,
    Option.bind_some, Option.pure_def, Option.some.injEq, exists_eq_left']
  simp only [Lanes.total, sum_range_succ, sum_range_zero, Nat.add_zero]
  ring

theorem l2Rest_adds (a b : List R) :
    Adds 0 (shorter a b) (l2Rest a b) id
      fun k => (a.getD k 0 - b.getD k 0) ^ 2 := by
  intro i sum inside
  rw [shorter_eq] at inside
  simp (disch := omega) only [l2Rest, component_eq, Option.bind_eq_bind,
    Option.bind_some, Option.pure_def, Option.some.injEq, exists_eq_left']
  simp only [id, sum_range_succ, sum_range_zero, Nat.add_zero, zero_add, sq]

namespace CosineSums

def asProd (sums : CosineSums R) : R × R × R :=
  (sums.dot, sums.normA, sums.normB)

def total (sums : CosineSums (Lanes R)) : CosineSums R :=
  ⟨sums.dot.total, sums.normA.total, sums.normB.total⟩

end CosineSums

def cosineTerm (a b : List R) (k : Nat) : R × R × R :=
  (a.getD k 0 * b.getD k 0, a.getD k 0 ^ 2, b.getD k 0 ^ 2)

theorem cosineTurn_adds (a b : List R) :
    Adds 7 (shorter a b) (cosineTurn a b) (fun sums => sums.total.asProd)
      (cosineTerm a b) := by
  intro i sums inside
  rw [shorter_eq] at inside
  simp (disch := omega) only [cosineTurn, component_eq, Option.bind_eq_bind,
    Option.bind_some, Option.pure_def, Option.some.injEq, exists_eq_left']
  simp only [CosineSums.asProd, CosineSums.total, cosineTerm, Lanes.total,
    sum_range_succ, sum_range_zero, Nat.add_zero, Prod.ext_iff, Prod.fst_add,
    Prod.snd_add, Prod.fst_zero, Prod.snd_zero]
  refine ⟨?_, ?_, ?_⟩
  · ring
  · ring
  · ring

theorem cosineRest_adds (a b : List R) :
    Adds 0 (shorter a b) (cosineRest a b) CosineSums.asProd
      (cosineTerm a b) := by
  intro i sums inside
  rw [shorter_eq] at inside
  simp (disch := omega) only [cosineRest, component_eq, Option.bind_eq_bind,
    Option.bind_some, Option.pure_def, Option.some.injEq, exists_eq_left']
  simp only [CosineSums.asProd, cosineTerm, sum_range_succ, sum_range_zero,
    Nat.add_zero, zero_add, sq, Prod.mk_add_mk]

theorem unrolled_sum {M σ τ : Type u} [AddCommMonoid M] {n : Nat}
    {turn : Nat → σ → Option σ} {rest : Nat → τ → Option τ} {lanes : σ → M}
    {value : τ → M} {term : Nat → M} (adds : Adds 7 n turn lanes term)
    (addsRest : Adds 0 n rest value term) {start : σ} (zero : lanes start = 0)
    (total : σ → τ) (same : ∀ state, value (total state) = lanes state) :
    ∃ i state final, strideLoop 7 n turn 0 start = some (i, state) ∧
      strideLoop 0 n rest i (total state) = some (n, final) ∧
      value final = ∑ k ∈ range n, term k := by
  obtain ⟨i, state, turned, sum, within, _⟩ :=
    adds.strideLoop_sum (Nat.zero_le n) (by rw [zero, sum_range_zero])
  obtain ⟨final, done, whole⟩ := addsRest.strideLoop_total within
    (by rw [same, sum])
  exact ⟨i, state, final, turned, done, whole⟩

theorem dotProductDistance_eq (a b : List R) :
    dotProductDistance a b =
      some (∑ k ∈ range (min a.length b.length),
        a.getD k 0 * b.getD k 0) := by
  obtain ⟨i, lanes, dot, turned, done, sum⟩ :=
    unrolled_sum (dotTurn_adds a b) (dotRest_adds a b) Lanes.total_zero
      Lanes.total fun _ => rfl
  rw [dotProductDistance, ← shorter_eq, ← sum]
  simp only [turned, done, Option.bind_eq_bind, Option.bind_some,
    Option.pure_def, id]

theorem l2Sum_eq (a b : List R) :
    l2Sum a b =
      some (∑ k ∈ range (min a.length b.length),
        (a.getD k 0 - b.getD k 0) ^ 2) := by
  obtain ⟨i, lanes, total, turned, done, sum⟩ :=
    unrolled_sum (l2Turn_adds a b) (l2Rest_adds a b) Lanes.total_zero
      Lanes.total fun _ => rfl
  rw [l2Sum, ← shorter_eq, ← sum]
  simp only [turned, done, Option.bind_eq_bind, Option.bind_some,
    Option.pure_def, id]

theorem cosineSums_eq (a b : List R) :
    cosineSums a b = some
      { dot := ∑ k ∈ range (min a.length b.length),
          a.getD k 0 * b.getD k 0
        normA := ∑ k ∈ range (min a.length b.length), a.getD k 0 ^ 2
        normB := ∑ k ∈ range (min a.length b.length), b.getD k 0 ^ 2 } := by
  have zero : (⟨.zero, .zero, .zero⟩ : CosineSums (Lanes R)).total.asProd =
      0 := by
    simp only [CosineSums.total, CosineSums.asProd, Lanes.total_zero]
    rfl
  obtain ⟨i, lanes, sums, turned, done, sum⟩ :=
    unrolled_sum (cosineTurn_adds a b) (cosineRest_adds a b) zero
      CosineSums.total fun _ => rfl
  have dot := congrArg Prod.fst sum
  have normA := congrArg (fun sums => sums.2.1) sum
  have normB := congrArg (fun sums => sums.2.2) sum
  simp only [CosineSums.asProd, cosineTerm, Prod.fst_sum, Prod.snd_sum]
    at dot normA normB
  rw [cosineSums, ← shorter_eq, ← dot, ← normA, ← normB]
  rw [CosineSums.total] at done
  simp only [turned, done, Option.bind_eq_bind, Option.bind_some,
    Option.pure_def]

/-- The accumulators of the unrolled loops are the plain sums over the
components that both vectors have, and every index is in range. -/
theorem distances_sum (a b : List R) :
    dotProductDistance a b =
        some (∑ i ∈ range (min a.length b.length),
          a.getD i 0 * b.getD i 0) ∧
      l2Sum a b =
        some (∑ i ∈ range (min a.length b.length),
          (a.getD i 0 - b.getD i 0) ^ 2) ∧
      cosineSums a b = some
        { dot := ∑ i ∈ range (min a.length b.length),
            a.getD i 0 * b.getD i 0
          normA := ∑ i ∈ range (min a.length b.length), a.getD i 0 ^ 2
          normB := ∑ i ∈ range (min a.length b.length), b.getD i 0 ^ 2 } :=
  ⟨dotProductDistance_eq a b, l2Sum_eq a b, cosineSums_eq a b⟩

end Unrolled

end CocoDB.Vector
