import CocoDB.Lib.HeapSift
import Mathlib.Data.List.Induction
import Mathlib.Data.List.Sort

/-!
# Bounded heaps

The best `k` of the items offered, kept in a heap with the least of them first,
and drained from the least up.
-/

namespace CocoDB.Lib

section Bounded

variable {α : Type}

/-- Offer an item to a heap of at most `k`: a better one replaces the least. -/
def heapOffer (less : α → α → Bool) (k : Nat) (heap : List α) (item : α) :
    List α :=
  if heap.length < k then heapPush (.ofLess less) item heap
  else
    match heap.head? with
    | none => heap
    | some least =>
        if less least item then
          heapPush (.ofLess less) item (heapPop (.ofLess less) heap).2
        else heap

/-- Pop `count` items, the last one popped first in the list. -/
def heapDrain (order : HeapOrder α) : (count : Nat) → List α → List α
  | 0, _ => []
  | count + 1, heap =>
      heapDrain order count (heapPop order heap).2 ++
        (heapPop order heap).1.toList

/-- `kept` are `k` of the items, or all where there are fewer, and none of the
others is better. -/
structure Selects (less : α → α → Bool) (k : Nat) (items kept rest : List α) :
    Prop where
  perm : (kept ++ rest).Perm items
  length : kept.length = min k items.length
  best : ∀ inside ∈ kept, ∀ outside ∈ rest, less inside outside = false

variable {less : α → α → Bool} {k : Nat} {items kept rest heap : List α}

theorem Selects.kept_perm {other : List α}
    (selects : Selects less k items kept rest) (perm : other.Perm kept) :
    Selects less k items other rest where
  perm := (perm.append_right rest).trans selects.perm
  length := perm.length_eq.trans selects.length
  best inside mem := selects.best inside (perm.mem_iff.mp mem)

theorem Selects.rest_nil (selects : Selects less k items kept rest)
    (few : kept.length < k) : rest = [] := by
  have total := selects.perm.length_eq
  have size := selects.length
  rw [List.length_append] at total
  exact List.eq_nil_of_length_eq_zero (by omega)

theorem heapOffer_selects (weak : WeakOrder less) (positive : 0 < k)
    (heaped : Heaped less heap.length heap)
    (selects : Selects less k items heap rest) (item : α) :
    Heaped less (heapOffer less k heap item).length
        (heapOffer less k heap item) ∧
      ∃ left, Selects less k (items ++ [item]) (heapOffer less k heap item)
        left := by
  have size : (items ++ [item]).length = items.length + 1 :=
    List.length_append
  have kept := selects.length
  have shared : (items ++ [item]).Perm (item :: (heap ++ rest)) :=
    (List.perm_append_singleton item items).trans
      (selects.perm.symm.cons item)
  unfold heapOffer
  split
  case isTrue few =>
      have none := selects.rest_nil few
      subst none
      rw [List.append_nil] at shared
      have pushed := @heapPush_perm _ (.ofLess less) item heap
      refine ⟨heapPush_heaped weak heaped item, [], ?_, ?_,
        fun _ _ _ mem => absurd mem List.not_mem_nil⟩
      · rw [List.append_nil]
        exact pushed.trans shared.symm
      · rw [pushed.length_eq, List.length_cons, size]
        omega
  case isFalse many =>
      cases heap with
      | nil => exact absurd positive many
      | cons least others =>
          have head : (least :: others).head? = some least := rfl
          rw [head]
          simp only
          split
          case isTrue better =>
              have popped := (@heapPop_cons _ (.ofLess less) least
                others).2
              have pushed := (@heapPush_perm _ (.ofLess less) item
                (heapPop (.ofLess less) (least :: others)).2).trans
                (popped.cons item)
              have shrunk := heapPop_heaped weak heaped
              refine ⟨heapPush_heaped weak shrunk item, least :: rest,
                ?_, ?_, ?_⟩
              · refine (pushed.append_right _).trans ?_
                rw [List.cons_append]
                exact (List.perm_middle.cons item).trans shared.symm
              · rw [pushed.length_eq, size]
                simp only [List.length_cons] at kept many ⊢
                omega
              · -- nothing kept is less than the item that goes
                have above : ∀ inside ∈ item :: others,
                    less inside least = false := by
                  intro inside mem
                  rcases List.mem_cons.mp mem with rfl | old
                  · exact weak.asymm better
                  · exact heaped.head weak head (List.mem_cons_of_mem _ old)
                intro inside mem outside out
                have low := above inside (pushed.mem_iff.mp mem)
                rcases List.mem_cons.mp out with rfl | old
                · exact low
                · exact weak.negTrans low
                    (selects.best least List.mem_cons_self outside old)
          case isFalse worse =>
              refine ⟨heaped, item :: rest, ?_, ?_, ?_⟩
              · exact List.perm_middle.trans shared.symm
              · rw [size]
                omega
              · intro inside mem outside out
                rcases List.mem_cons.mp out with rfl | old
                · exact weak.negTrans (heaped.head weak head mem)
                    (Bool.eq_false_iff.mpr worse)
                · exact selects.best inside mem outside old

theorem heapOffers_selects (weak : WeakOrder less) (positive : 0 < k)
    (items : List α) :
    Heaped less (items.foldl (heapOffer less k) []).length
        (items.foldl (heapOffer less k) []) ∧
      ∃ rest, Selects less k items (items.foldl (heapOffer less k) [])
        rest := by
  induction items using List.reverseRecOn with
  | nil =>
      refine ⟨fun i _ inside => absurd inside (Nat.not_lt_zero i), [], ?_, ?_,
        fun _ mem => absurd mem List.not_mem_nil⟩
      · exact List.Perm.refl _
      · exact (Nat.min_zero k).symm
  | append_singleton items item inductionHypothesis =>
      obtain ⟨heaped, rest, selects⟩ := inductionHypothesis
      rw [List.foldl_append, List.foldl_cons, List.foldl_nil]
      exact heapOffer_selects weak positive heaped selects item

theorem heapDrain_sorted (weak : WeakOrder less) :
    ∀ {count : Nat} {heap : List α}, count = heap.length →
      Heaped less heap.length heap →
      (heapDrain (.ofLess less) count heap).Perm heap ∧
        (heapDrain (.ofLess less) count heap).Pairwise
          fun earlier later => less earlier later = false
  | 0, [], _, _ => ⟨List.Perm.refl _, List.Pairwise.nil⟩
  | count + 1, least :: others, length, heaped => by
      obtain ⟨first, popped⟩ :=
        @heapPop_cons _ (.ofLess less) least others
      have left : count = (heapPop (.ofLess less) (least :: others)).2.length :=
        (Nat.succ.inj length).trans popped.length_eq.symm
      obtain ⟨perm, sorted⟩ :=
        heapDrain_sorted weak left (heapPop_heaped weak heaped)
      have drained := perm.trans popped
      rw [heapDrain, first, Option.toList_some]
      refine ⟨(List.perm_append_singleton least _).trans
        (drained.cons least), ?_⟩
      rw [List.pairwise_append]
      refine ⟨sorted, List.pairwise_singleton _ _,
        fun earlier mem later last => ?_⟩
      rw [List.mem_singleton.mp last]
      exact heaped.head weak rfl
        (List.mem_cons_of_mem least (drained.mem_iff.mp mem))

theorem drained_offers (weak : WeakOrder less) (positive : 0 < k)
    (items : List α) :
    (∃ rest, Selects less k items
        (heapDrain (.ofLess less) (items.foldl (heapOffer less k) []).length
          (items.foldl (heapOffer less k) [])) rest) ∧
      (heapDrain (.ofLess less) (items.foldl (heapOffer less k) []).length
        (items.foldl (heapOffer less k) [])).Pairwise
          fun earlier later => less earlier later = false := by
  obtain ⟨heaped, rest, selects⟩ := heapOffers_selects weak positive items
  obtain ⟨perm, sorted⟩ := heapDrain_sorted weak rfl heaped
  exact ⟨⟨rest, selects.kept_perm perm⟩, sorted⟩

/-! ## Keys in a linear order -/

variable {β : Type} [LinearOrder β] {key : α → β}

theorem weakOrder_key : WeakOrder fun a b => decide (key a < key b) where
  asymm below :=
    decide_eq_false (not_lt.mpr (of_decide_eq_true below).le)
  negTrans first second :=
    decide_eq_false (not_lt.mpr
      ((not_lt.mp (of_decide_eq_false second)).trans
        (not_lt.mp (of_decide_eq_false first))))

theorem Selects.take_sorted {sorted : List α}
    (selects : Selects (fun a b => decide (key a < key b)) k items kept rest)
    (keptOrder : kept.Pairwise fun earlier later => key later ≤ key earlier)
    (perm : sorted.Perm items)
    (order : sorted.Pairwise fun earlier later => key later ≤ key earlier) :
    (sorted.map key).take k = kept.map key := by
  let before : α → α → Bool := fun earlier later => key later ≤ key earlier
  have trans : ∀ a b c, before a b = true → before b c = true →
      before a c = true := fun a b c first second =>
    decide_eq_true ((of_decide_eq_true second).trans (of_decide_eq_true first))
  have total : ∀ a b, (before a b || before b a) = true := fun a b => by
    simp only [before, Bool.or_eq_true, decide_eq_true_eq]
    exact le_total _ _
  let remaining := rest.mergeSort before
  have remainingPerm : remaining.Perm rest := List.mergeSort_perm _ _
  have remainingOrder :
      remaining.Pairwise fun earlier later => key later ≤ key earlier :=
    (List.pairwise_mergeSort trans total rest).imp of_decide_eq_true
  have whole : (kept ++ remaining).Pairwise
      fun earlier later => key later ≤ key earlier := by
    rw [List.pairwise_append]
    refine ⟨keptOrder, remainingOrder, fun inside mem outside out => ?_⟩
    have best := selects.best inside mem outside
      (remainingPerm.mem_iff.mp out)
    exact not_lt.mp (of_decide_eq_false best)
  have same : (sorted.map key) = (kept ++ remaining).map key := by
    have perms : (sorted.map key).Perm ((kept ++ remaining).map key) :=
      ((perm.trans selects.perm.symm).trans
        (remainingPerm.symm.append_left kept)).map key
    exact perms.eq_of_pairwise'
      (r := fun earlier later => later ≤ earlier)
      (List.pairwise_map.mpr order) (List.pairwise_map.mpr whole)
  rw [same, List.map_append]
  by_cases few : kept.length < k
  · have none : remaining = [] :=
      (selects.rest_nil few ▸ remainingPerm).eq_nil
    rw [none, List.map_nil, List.append_nil, List.take_of_length_le]
    rw [List.length_map]
    exact few.le
  · have full : k = (kept.map key).length := by
      rw [List.length_map]
      have length := selects.length
      omega
    rw [full, List.take_left]

end Bounded

end CocoDB.Lib
