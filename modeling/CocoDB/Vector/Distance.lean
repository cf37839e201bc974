import CocoDB.Lib.BoundedHeap

/-!
# Exact nearest neighbours

`internal/vector/distance.go`: the bounded heap of `ExactTopK`.  The arithmetic
of the distances is that of 32-bit floats and a parameter; their values are
taken in a linear order.
-/

namespace CocoDB.Vector

open Lib

/-- `Metric`; every other number counts as `L2`. -/
inductive Metric where
  | cosine
  | l2
  | dotProduct
  | unknown
deriving DecidableEq, Repr

/-- The three distance functions over components of type `Component`, and the
sign change of the dot product -/
structure Kernels (Component Dist : Type) where
  cosineDistance : List Component → List Component → Dist
  l2Distance : List Component → List Component → Dist
  dotProductDistance : List Component → List Component → Dist
  negate : Dist → Dist

@[ext]
structure Match (Dist : Type) where
  id : UInt64
  distance : Dist
deriving DecidableEq, Repr

section Search

variable {Component Dist : Type}

def distance (kernels : Kernels Component Dist) (a b : List Component) :
    Metric → Dist
  | .cosine => kernels.cosineDistance a b
  | .l2 => kernels.l2Distance a b
  | .dotProduct => kernels.negate (kernels.dotProductDistance a b)
  | .unknown => kernels.l2Distance a b

variable [LinearOrder Dist]

/-- The comparisons of `maxHeap`. -/
def maxHeap : HeapOrder (Match Dist) where
  before := fun right left => left.distance < right.distance
  stays := fun child parent => child.distance ≤ parent.distance

def push (item : Match Dist) (heap : List (Match Dist)) : List (Match Dist) :=
  heapPush maxHeap item heap

def pop (heap : List (Match Dist)) : Option (Match Dist) × List (Match Dist) :=
  heapPop maxHeap heap

/-- The turn of the first loop of `ExactTopK` for a candidate whose vector is at
`dist`; `none` is the panic of `(*h)[0]` on an empty heap. -/
def consider (k : Int) (heap : List (Match Dist)) (found : Match Dist) :
    Option (List (Match Dist)) :=
  if (heap.length : Int) < k then some (push found heap)
  else
    match heap.head? with
    | none => none
    | some top =>
        if found.distance < top.distance then some (push found (pop heap).2)
        else some heap

/-- A turn of the first loop of `ExactTopK` -/
def visit (kernels : Kernels Component Dist) (query : List Component)
    (vectors : UInt64 → Option (List Component)) (k : Int) (metric : Metric)
    (heap : List (Match Dist)) (cand : Match Dist) :
    Option (List (Match Dist)) :=
  match vectors cand.id with
  | none => some heap
  | some vec =>
      if vec.length ≠ query.length then some heap
      else consider k heap ⟨cand.id, distance kernels query vec metric⟩

/-- The last loop of `ExactTopK` -/
def drain : Nat → List (Match Dist) → List (Match Dist)
  | 0, _ => []
  | count + 1, heap => drain count (pop heap).2 ++ (pop heap).1.toList

def exactTopK (kernels : Kernels Component Dist) (query : List Component)
    (candidates : List (Match Dist))
    (vectors : UInt64 → Option (List Component)) (k : Int) (metric : Metric) :
    Option (List (Match Dist)) :=
  (candidates.foldlM (visit kernels query vectors k metric) []).map
    fun heap => drain heap.length heap

/-! ## The nearest of the candidates -/

/-- A candidate that has a vector as long as the query, with the distance of
that vector -/
def located (kernels : Kernels Component Dist) (query : List Component)
    (vectors : UInt64 → Option (List Component)) (metric : Metric)
    (cand : Match Dist) : Option (Match Dist) :=
  match vectors cand.id with
  | none => none
  | some vec =>
      if vec.length = query.length then
        some ⟨cand.id, distance kernels query vec metric⟩
      else none

def farther (left right : Match Dist) : Bool :=
  right.distance < left.distance

theorem farther_weak : WeakOrder (@farther Dist _) :=
  @weakOrder_key (Match Dist) Distᵒᵈ _ Match.distance

theorem maxHeap_eq : @maxHeap Dist _ = .ofLess farther := by
  simp only [maxHeap, HeapOrder.ofLess]
  congr
  funext child parent
  simp only [farther, ← decide_not, not_lt]

theorem drain_eq (count : Nat) (heap : List (Match Dist)) :
    drain count heap = heapDrain (.ofLess farther) count heap := by
  induction count generalizing heap with
  | zero => rfl
  | succ count inductionHypothesis =>
      rw [drain, heapDrain, inductionHypothesis, pop, maxHeap_eq]

theorem consider_eq {k : Int} (positive : 1 ≤ k) (heap : List (Match Dist))
    (found : Match Dist) :
    consider k heap found = some (heapOffer farther k.toNat heap found) := by
  have few : (heap.length : Int) < k ↔ heap.length < k.toNat := by omega
  simp only [consider, heapOffer, push, pop, maxHeap_eq, few]
  by_cases room : heap.length < k.toNat
  · simp only [room, if_true]
  · simp only [room, if_false]
    cases heap with
    | nil =>
        simp only [List.length_nil] at room
        omega
    | cons top others =>
        simp only [List.head?_cons, farther, decide_eq_true_eq]
        split <;> rfl

variable {kernels : Kernels Component Dist} {query : List Component}
variable {vectors : UInt64 → Option (List Component)} {metric : Metric}
variable {k : Int}

theorem visit_eq (positive : 1 ≤ k) (heap : List (Match Dist))
    (cand : Match Dist) :
    visit kernels query vectors k metric heap cand =
      some ((located kernels query vectors metric cand).elim heap
        (heapOffer farther k.toNat heap)) := by
  unfold visit located
  split
  · rfl
  · simp only [ne_eq, ite_not]
    split
    · exact consider_eq positive heap _
    · rfl

theorem foldlM_visit (positive : 1 ≤ k) (candidates heap : List (Match Dist)) :
    candidates.foldlM (visit kernels query vectors k metric) heap =
      some ((candidates.filterMap (located kernels query vectors metric)).foldl
        (heapOffer farther k.toNat) heap) := by
  induction candidates generalizing heap with
  | nil => rfl
  | cons cand rest inductionHypothesis =>
      rw [List.foldlM_cons, visit_eq positive, List.filterMap_cons,
        Option.bind_eq_bind, Option.bind_some, inductionHypothesis]
      cases located kernels query vectors metric cand <;> rfl

/-- `ExactTopK` returns the nearest of the candidates that can be compared with
the query, from the nearest up. -/
theorem exactTopK_nearest (kernels : Kernels Component Dist)
    (query : List Component) (candidates : List (Match Dist))
    (vectors : UInt64 → Option (List Component)) {k : Int} (positive : 1 ≤ k)
    (metric : Metric) :
    ∃ result rest,
      exactTopK kernels query candidates vectors k metric = some result ∧
      (result ++ rest).Perm
        (candidates.filterMap (located kernels query vectors metric)) ∧
      result.length = min k.toNat
        (candidates.filterMap (located kernels query vectors metric)).length ∧
      (result.Pairwise fun earlier later =>
        earlier.distance ≤ later.distance) ∧
      ∀ near ∈ result, ∀ far ∈ rest, near.distance ≤ far.distance := by
  have bound : 0 < k.toNat := by omega
  obtain ⟨⟨rest, selects⟩, sorted⟩ := drained_offers farther_weak bound
    (candidates.filterMap (located kernels query vectors metric))
  refine ⟨_, rest, ?_, selects.perm, selects.length,
    sorted.imp fun notFarther => not_lt.mp (of_decide_eq_false notFarther),
    fun near mem far out =>
      not_lt.mp (of_decide_eq_false (selects.best near mem far out))⟩
  rw [exactTopK, foldlM_visit positive, Option.map_some, drain_eq]

end Search

def oneDimension : Kernels Nat Nat where
  cosineDistance _ _ := 1
  l2Distance a b := a.headD 0 - b.headD 0 + (b.headD 0 - a.headD 0)
  dotProductDistance a b := a.headD 0 * b.headD 0
  negate dist := 1000 - dist

/-- Of four candidates one has no vector and one is there twice. -/
theorem exactTopK_nearest_sample :
    ∃ result rest,
      exactTopK oneDimension [5]
          [⟨1, 0⟩, ⟨2, 0⟩, ⟨9, 0⟩, ⟨1, 0⟩]
          (fun id => if id = 9 then none else some [id.toNat]) 2 .l2 =
        some result ∧
      (result ++ rest).Perm [⟨1, 4⟩, ⟨2, 3⟩, ⟨1, 4⟩] ∧
      result.Pairwise fun earlier later =>
        earlier.distance ≤ later.distance := by
  obtain ⟨result, rest, returned, perm, _, sorted, _⟩ :=
    exactTopK_nearest oneDimension [5] [⟨1, 0⟩, ⟨2, 0⟩, ⟨9, 0⟩, ⟨1, 0⟩]
      (fun id => if id = 9 then none else some [id.toNat])
      (by decide : (1 : Int) ≤ 2) .l2
  exact ⟨result, rest, returned, perm, sorted⟩

end CocoDB.Vector
