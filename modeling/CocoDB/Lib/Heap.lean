import Mathlib.Data.List.Basic
import Mathlib.Data.List.Perm.Basic

/-!
# Binary heaps in a slice

The two loops that keep a heap, on a list that stands for the slice: `up` moves
a new last member to its place, `down` a new first one.  Both exchange members,
so that a heap always holds what was pushed and not yet popped.
-/

namespace CocoDB.Lib

/-- The comparisons of a heap: which of two children goes up, and whether a child
stays below its parent. -/
structure HeapOrder (α : Type) where
  before : α → α → Bool
  stays : α → α → Bool

/-- The order of `container/heap` for a given `Less`. -/
def HeapOrder.ofLess {α : Type} (less : α → α → Bool) : HeapOrder α where
  before := less
  stays := fun child parent => !less child parent

section Heap

variable {α : Type}

def swap (items : List α) (i j : Nat) : List α :=
  match items[i]?, items[j]? with
  | some first, some second => (items.set i second).set j first
  | _, _ => items

variable (order : HeapOrder α)

/-- Move the member at `j` up.  Every turn halves `j`, so that `j` turns are
enough. -/
def up : (turns : Nat) → List α → (j : Nat) → List α
  | 0, heap, _ => heap
  | turns + 1, heap, j =>
      if (j - 1) / 2 = j then heap
      else
        match heap[j]?, heap[(j - 1) / 2]? with
        | some child, some parent =>
            if order.stays child parent then heap
            else up turns (swap heap ((j - 1) / 2) j) ((j - 1) / 2)
        | _, _ => heap

def heapPush (item : α) (heap : List α) : List α :=
  up order heap.length (heap ++ [item]) heap.length

/-- The child of `i`, among the first `n` members, that goes up. -/
def upperChild (heap : List α) (n i : Nat) : Nat :=
  match heap[2 * i + 1]?, heap[2 * i + 2]? with
  | some left, some right =>
      if 2 * i + 2 < n ∧ order.before right left then 2 * i + 2
      else 2 * i + 1
  | _, _ => 2 * i + 1

/-- Move the member at `i` down among the first `n`, in at most `n` turns. -/
def down (n : Nat) : (turns : Nat) → List α → (i : Nat) → List α
  | 0, heap, _ => heap
  | turns + 1, heap, i =>
      if n ≤ 2 * i + 1 then heap
      else
        match heap[upperChild order heap n i]?, heap[i]? with
        | some child, some parent =>
            if order.stays child parent then heap
            else
              down n turns (swap heap i (upperChild order heap n i))
                (upperChild order heap n i)
        | _, _ => heap

/-- Take the first member out; the last one takes its place and moves down. -/
def heapPop (heap : List α) : Option α × List α :=
  let sifted := down order (heap.length - 1) (heap.length - 1)
    (swap heap 0 (heap.length - 1)) 0
  (sifted[heap.length - 1]?, sifted.take (heap.length - 1))

/-! ## The members stay the same -/

variable {order}

theorem swap_perm (items : List α) (i j : Nat) :
    (swap items i j).Perm items := by
  unfold swap
  split
  · rename_i first second atI atJ
    obtain ⟨iSmall, atI⟩ := List.getElem?_eq_some_iff.mp atI
    obtain ⟨jSmall, atJ⟩ := List.getElem?_eq_some_iff.mp atJ
    subst atI atJ
    exact List.set_set_perm iSmall jSmall
  · exact .refl _

theorem up_perm (turns : Nat) (heap : List α) (j : Nat) :
    (up order turns heap j).Perm heap := by
  induction turns generalizing heap j with
  | zero => exact .refl _
  | succ turns inductionHypothesis =>
      rw [up]
      split
      · exact .refl _
      · split
        · split
          · exact .refl _
          · exact (inductionHypothesis _ _).trans (swap_perm _ _ _)
        · exact .refl _

theorem down_perm (n turns : Nat) (heap : List α) (i : Nat) :
    (down order n turns heap i).Perm heap := by
  induction turns generalizing heap i with
  | zero => exact .refl _
  | succ turns inductionHypothesis =>
      rw [down]
      split
      · exact .refl _
      · split
        · split
          · exact .refl _
          · exact (inductionHypothesis _ _).trans (swap_perm _ _ _)
        · exact .refl _

theorem heapPush_perm (item : α) (heap : List α) :
    (heapPush order item heap).Perm (item :: heap) :=
  (up_perm _ _ _).trans (List.perm_append_singleton item heap)

theorem swap_other {items : List α} {i j k : Nat} (notFirst : k ≠ i)
    (notSecond : k ≠ j) : (swap items i j)[k]? = items[k]? := by
  unfold swap
  split
  · rw [List.getElem?_set_ne (Ne.symm notSecond),
      List.getElem?_set_ne (Ne.symm notFirst)]
  · rfl

theorem upperChild_lt {heap : List α} {n i : Nat} (inner : 2 * i + 1 < n) :
    i < n ∧ upperChild order heap n i < n := by
  refine ⟨by omega, ?_⟩
  unfold upperChild
  split
  · split <;> omega
  · omega

theorem down_beyond {n k : Nat} (beyond : n ≤ k) (turns : Nat)
    (heap : List α) (i : Nat) :
    (down order n turns heap i)[k]? = heap[k]? := by
  induction turns generalizing heap i with
  | zero => rfl
  | succ turns inductionHypothesis =>
      rw [down]
      split
      · rfl
      · rename_i inner
        obtain ⟨here, child⟩ := @upperChild_lt α order heap n i (by omega)
        split
        · split
          · rfl
          · rw [inductionHypothesis, swap_other (by omega) (by omega)]
        · rfl

theorem swap_last (item : α) (rest : List α) :
    (swap (item :: rest) 0 rest.length)[rest.length]? = some item := by
  unfold swap
  have inside : rest.length < (item :: rest).length := Nat.lt_succ_self _
  rw [List.getElem?_eq_getElem inside]
  simp

theorem heapPop_cons (item : α) (rest : List α) :
    (heapPop order (item :: rest)).1 = some item ∧
      (heapPop order (item :: rest)).2.Perm rest := by
  have length : (item :: rest).length - 1 = rest.length := rfl
  unfold heapPop
  rw [length]
  generalize sifting : down order rest.length rest.length
    (swap (item :: rest) 0 rest.length) 0 = sifted
  have perm : sifted.Perm (item :: rest) := by
    rw [← sifting]
    exact (down_perm _ _ _ _).trans (swap_perm _ _ _)
  have last : sifted[rest.length]? = some item := by
    rw [← sifting, down_beyond (Nat.le_refl _), swap_last]
  refine ⟨last, ?_⟩
  have split : sifted = sifted.take rest.length ++ [item] := by
    have whole := List.take_append_drop rest.length sifted
    obtain ⟨inside, value⟩ := List.getElem?_eq_some_iff.mp last
    have none : sifted.drop (rest.length + 1) = [] :=
      List.drop_eq_nil_of_le (Nat.le_of_eq perm.length_eq)
    have tail : sifted.drop rest.length = [item] := by
      rw [List.drop_eq_getElem_cons inside, value, none]
    rw [tail] at whole
    exact whole.symm
  rw [split] at perm
  exact (List.perm_cons item).mp
    ((List.perm_append_singleton item _).symm.trans perm)

end Heap

end CocoDB.Lib
