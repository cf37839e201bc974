import CocoDB.Lib.BoundedHeap
import CocoDB.Text.Inverted

/-!
# The best results of a search

The last part of `Search`, from the scores of the records to the list that is
returned.
-/

namespace CocoDB.Text

open Lib

section Selection

variable {Score : Type} {scoring : Scoring Score}

/-- The entries of `scores` in the order in which a loop visits them. -/
def listed (order : Shuffle (Sigma fun _ : UInt64 => Score))
    (scores : AList fun _ : UInt64 => Score) : List (SearchResult Score) :=
  (order.arrange scores.entries).map fun entry => ⟨entry.1, entry.2⟩

/-- `Search` from the loop over `scores` on -/
def selected (scoring : Scoring Score) (k : Int)
    (results : List (SearchResult Score)) : List (SearchResult Score) :=
  if k ≤ 0 then
    results.mergeSort fun left right => !scoring.less left.score right.score
  else
    let heap := results.foldl (offer scoring k.toNat) []
    drain scoring heap.length heap

variable {scores : AList fun _ : UInt64 => Score}
variable {order : Shuffle (Sigma fun _ : UInt64 => Score)}

theorem listed_ids_nodup :
    ((listed order scores).map SearchResult.recordID).Nodup := by
  have ids : (listed order scores).map SearchResult.recordID =
      (order.arrange scores.entries).map Sigma.fst := by
    rw [listed, List.map_map]
    rfl
  rw [ids, ((order.perm scores.entries).map Sigma.fst).nodup_iff]
  exact scores.nodupKeys

theorem listed_length : (listed order scores).length = scores.keys.length := by
  rw [listed, List.length_map, (order.perm scores.entries).length_eq,
    AList.keys, List.keys, List.length_map]

theorem mem_listed_iff {result : SearchResult Score} :
    result ∈ listed order scores ↔
      scores.lookup result.recordID = some result.score := by
  have entries : result ∈ listed order scores ↔
      (⟨result.recordID, result.score⟩ : Sigma fun _ : UInt64 => Score) ∈
        scores.entries := by
    rw [listed, List.mem_map]
    constructor
    · rintro ⟨entry, mem, rfl⟩
      exact (order.perm scores.entries).mem_iff.mp mem
    · intro mem
      exact ⟨_, (order.perm scores.entries).mem_iff.mpr mem, rfl⟩
  rw [entries]
  exact (List.mem_dlookup_iff scores.nodupKeys).symm

/-! ## Scores in a linear order -/

variable [LinearOrder Score]

/-- The comparisons are those of the order. -/
structure Scoring.Linear (scoring : Scoring Score) : Prop where
  less : ∀ a b, scoring.less a b = decide (a < b)
  atLeast : ∀ a b, scoring.atLeast a b = decide (b ≤ a)

def scoresLess (left right : SearchResult Score) : Bool :=
  left.score < right.score

theorem scoresLess_weak : WeakOrder (@scoresLess Score _) :=
  weakOrder_key

theorem srHeap_eq (linear : scoring.Linear) :
    srHeap scoring = .ofLess scoresLess := by
  simp only [srHeap, HeapOrder.ofLess, linear.less, linear.atLeast]
  congr
  funext child parent
  simp only [scoresLess, ← decide_not, not_lt]

theorem offer_eq (linear : scoring.Linear) (k : Nat) :
    offer scoring k = heapOffer scoresLess k := by
  funext heap result
  simp only [offer, heapOffer, push, pop, srHeap_eq linear, linear.less]
  cases heap <;> rfl

theorem drain_eq (linear : scoring.Linear) (count : Nat)
    (heap : List (SearchResult Score)) :
    drain scoring count heap = heapDrain (.ofLess scoresLess) count heap := by
  induction count generalizing heap with
  | zero => rfl
  | succ count inductionHypothesis =>
      rw [drain, heapDrain, inductionHypothesis, pop, srHeap_eq linear]

theorem sorted_of_full (linear : scoring.Linear) {k : Int} (full : k ≤ 0)
    (results : List (SearchResult Score)) :
    (selected scoring k results).Perm results ∧
      (selected scoring k results).Pairwise
        fun earlier later => later.score ≤ earlier.score := by
  simp only [selected, full, if_true, linear.less, ← decide_not, not_lt]
  let before : SearchResult Score → SearchResult Score → Bool :=
    fun left right => right.score ≤ left.score
  have trans : ∀ a b c, before a b = true → before b c = true →
      before a c = true := fun a b c first second =>
    decide_eq_true ((of_decide_eq_true second).trans (of_decide_eq_true first))
  have total : ∀ a b, (before a b || before b a) = true := fun a b => by
    simp only [before, Bool.or_eq_true, decide_eq_true_eq]
    exact le_total _ _
  exact ⟨List.mergeSort_perm _ _,
    (List.pairwise_mergeSort trans total results).imp of_decide_eq_true⟩

/-- The bounded heap returns the best `k` records with their scores, from the
best down, and the scores are those the full sort begins with. -/
theorem selected_best (linear : scoring.Linear)
    (scores : AList fun _ : UInt64 => Score)
    (order : Shuffle (Sigma fun _ : UInt64 => Score)) {k : Int}
    (positive : 1 ≤ k) :
    (selected scoring k (listed order scores)).length =
        min k.toNat scores.keys.length ∧
      ((selected scoring k (listed order scores)).map
        SearchResult.recordID).Nodup ∧
      (∀ result ∈ selected scoring k (listed order scores),
        scores.lookup result.recordID = some result.score) ∧
      ((selected scoring k (listed order scores)).Pairwise
        fun earlier later => later.score ≤ earlier.score) ∧
      (∀ recID score, scores.lookup recID = some score →
        recID ∉ (selected scoring k (listed order scores)).map
          SearchResult.recordID →
        ∀ result ∈ selected scoring k (listed order scores),
          score ≤ result.score) ∧
      ∀ (other : Shuffle (Sigma fun _ : UInt64 => Score)) (full : Int),
        full ≤ 0 →
        ((selected scoring full (listed other scores)).map
          SearchResult.score).take k.toNat =
            (selected scoring k (listed order scores)).map
              SearchResult.score := by
  have nonzero : ¬ k ≤ 0 := by omega
  have chosen : selected scoring k (listed order scores) =
      heapDrain (.ofLess scoresLess)
        ((listed order scores).foldl (heapOffer scoresLess k.toNat) []).length
        ((listed order scores).foldl (heapOffer scoresLess k.toNat) []) := by
    simp only [selected, nonzero, if_false, drain_eq linear, offer_eq linear]
  obtain ⟨⟨rest, selects⟩, sorted⟩ := drained_offers scoresLess_weak
    (by omega : 0 < k.toNat) (listed order scores)
  rw [← chosen] at selects sorted
  have ordered : (selected scoring k (listed order scores)).Pairwise
      fun earlier later => later.score ≤ earlier.score :=
    sorted.imp fun notLess => not_lt.mp (of_decide_eq_false notLess)
  have subset : ∀ result ∈ selected scoring k (listed order scores),
      result ∈ listed order scores := fun result mem =>
    selects.perm.mem_iff.mp (List.mem_append_left rest mem)
  refine ⟨?_, ?_, fun result mem => mem_listed_iff.mp (subset result mem),
    ordered, ?_, ?_⟩
  · rw [selects.length, listed_length]
  · have nodup := (selects.perm.map SearchResult.recordID).nodup_iff.mpr
      listed_ids_nodup
    rw [List.map_append] at nodup
    exact nodup.of_append_left
  · intro recID score found absent result mem
    have offered : (⟨recID, score⟩ : SearchResult Score) ∈
        selected scoring k (listed order scores) ++ rest :=
      selects.perm.mem_iff.mpr (mem_listed_iff.mpr found)
    rcases List.mem_append.mp offered with kept | out
    · exact absurd (List.mem_map_of_mem kept) absent
    · exact not_lt.mp (of_decide_eq_false (selects.best result mem _ out))
  · intro other full isFull
    obtain ⟨perm, order'⟩ := sorted_of_full linear isFull (listed other scores)
    have listings : (listed other scores).Perm (listed order scores) :=
      ((other.perm scores.entries).trans
        (order.perm scores.entries).symm).map _
    exact selects.take_sorted ordered (perm.trans listings) order'

end Selection

def counting : Scoring Nat where
  contribution _ _ _ tf _ := tf
  zero := 0
  add := (· + ·)
  less a b := decide (a < b)
  atLeast a b := decide (b ≤ a)

def tied : AList fun _ : UInt64 => Nat :=
  ((∅ : AList fun _ : UInt64 => Nat).insert 1 5 |>.insert 2 7).insert 3 5

theorem selected_best_sample :
    (selected counting 2 (listed (.listed _) tied)).length = 2 ∧
      ((selected counting 0 (listed (.listed _) tied)).map
        SearchResult.score).take 2 =
          (selected counting 2 (listed (.listed _) tied)).map
            SearchResult.score := by
  have linear : counting.Linear := ⟨fun _ _ => rfl, fun _ _ => rfl⟩
  have best := selected_best linear tied (.listed _)
    (by decide : (1 : Int) ≤ 2)
  exact ⟨best.1, best.2.2.2.2.2 (.listed _) 0 (by decide)⟩

end CocoDB.Text
