import CocoDB.Lib.Heap
import Mathlib.Order.Basic

/-!
# Order in a heap

The two loops restore the order of a heap whose members are compared by `Less`:
no member is less than the one above it, so that none is less than the first.
While a loop runs the order is broken at one place only.
-/

namespace CocoDB.Lib

section Sift

variable {α : Type}

structure WeakOrder (less : α → α → Bool) : Prop where
  asymm : ∀ {a b}, less a b = true → less b a = false
  negTrans : ∀ {a b c}, less a b = false → less b c = false →
    less a c = false

variable {less : α → α → Bool} {items : List α} {i j k : Nat}

/-- The member at `i`, if there is one, is not less than the one at `j`. -/
def NotLess (less : α → α → Bool) (items : List α) (i j : Nat) : Prop :=
  ∀ lower upper, items[i]? = some lower → items[j]? = some upper →
    less lower upper = false

/-- The first `n` members form a heap. -/
def Heaped (less : α → α → Bool) (n : Nat) (items : List α) : Prop :=
  ∀ i, 0 < i → i < n → NotLess less items i ((i - 1) / 2)

theorem exists_at (inside : i < items.length) :
    ∃ item, items[i]? = some item :=
  ⟨_, List.getElem?_eq_getElem inside⟩

theorem NotLess.trans (weak : WeakOrder less) (inside : j < items.length)
    (first : NotLess less items i j) (second : NotLess less items j k) :
    NotLess less items i k := by
  intro lower upper atI atK
  obtain ⟨_, middle⟩ := exists_at inside
  exact weak.negTrans (first _ _ atI middle) (second _ _ middle atK)

theorem NotLess.of_less (weak : WeakOrder less) {lower upper : α}
    (atI : items[i]? = some lower) (atJ : items[j]? = some upper)
    (below : less lower upper = true) : NotLess less items j i := by
  intro first second atFirst atSecond
  obtain rfl := Option.some.inj (atJ.symm.trans atFirst)
  obtain rfl := Option.some.inj (atI.symm.trans atSecond)
  exact weak.asymm below

theorem NotLess.of_stays {lower upper : α}
    (atI : items[i]? = some lower) (atJ : items[j]? = some upper)
    (stays : less lower upper = false) : NotLess less items i j := by
  intro first second atFirst atSecond
  obtain rfl := Option.some.inj (atI.symm.trans atFirst)
  obtain rfl := Option.some.inj (atJ.symm.trans atSecond)
  exact stays

/-- The place where the member at `k` was before an exchange. -/
def origin (i j k : Nat) : Nat :=
  if k = i then j else if k = j then i else k

theorem swap_length (items : List α) (i j : Nat) :
    (swap items i j).length = items.length :=
  (swap_perm items i j).length_eq

theorem swap_getElem? (first : i < items.length) (second : j < items.length)
    (k : Nat) : (swap items i j)[k]? = items[origin i j k]? := by
  simp only [swap, List.getElem?_eq_getElem first,
    List.getElem?_eq_getElem second, origin]
  by_cases atJ : j = k
  · subst atJ
    rw [List.getElem?_set_self (by rwa [List.length_set])]
    split
    · rename_i same
      subst same
      rw [List.getElem?_eq_getElem first]
    · rw [if_pos rfl, List.getElem?_eq_getElem first]
  · rw [List.getElem?_set_ne atJ, if_neg (c := k = j) (Ne.symm atJ)]
    by_cases atI : i = k
    · subst atI
      rw [List.getElem?_set_self first, if_pos rfl,
        List.getElem?_eq_getElem second]
    · rw [List.getElem?_set_ne atI, if_neg (Ne.symm atI)]

theorem notLess_swap (first : i < items.length) (second : j < items.length)
    {a b : Nat} :
    NotLess less (swap items i j) a b ↔
      NotLess less items (origin i j a) (origin i j b) := by
  simp only [NotLess, swap_getElem? first second]

/-! ## Moving up -/

structure Rising (less : α → α → Bool) (items : List α) (j : Nat) :
    Prop where
  others : ∀ i, 0 < i → i < items.length → i ≠ j →
    NotLess less items i ((i - 1) / 2)
  below : ∀ i, 0 < i → i < items.length → (i - 1) / 2 = j → 0 < j →
    NotLess less items i ((j - 1) / 2)

theorem Rising.swap (weak : WeakOrder less) (rising : Rising less items j)
    (positive : 0 < j) (inside : j < items.length)
    (turned : NotLess less items ((j - 1) / 2) j) :
    Rising less (swap items ((j - 1) / 2) j) ((j - 1) / 2) := by
  have above : (j - 1) / 2 < items.length := by omega
  constructor
  · intro i start bound away
    rw [swap_length] at bound
    rw [notLess_swap above inside]
    by_cases moved : i = j
    · subst moved
      simp only [origin, if_pos, if_neg away]
      exact turned
    · by_cases child : (i - 1) / 2 = j
      · have skips : origin ((j - 1) / 2) j i = i := by
          simp only [origin, if_neg away, if_neg moved]
        have lifts : origin ((j - 1) / 2) j ((i - 1) / 2) = (j - 1) / 2 := by
          rw [child]
          simp only [origin, if_pos]
          rw [if_neg (by omega)]
        rw [skips, lifts]
        exact rising.below i start bound child positive
      · have skips : origin ((j - 1) / 2) j i = i := by
          simp only [origin, if_neg away, if_neg moved]
        have before := rising.others i start bound moved
        rw [skips]
        by_cases sibling : (i - 1) / 2 = (j - 1) / 2
        · rw [sibling] at before ⊢
          simp only [origin, if_pos]
          exact before.trans weak above turned
        · simp only [origin, if_neg sibling, if_neg child]
          exact before
  · intro i start bound child higher
    rw [swap_length] at bound
    rw [notLess_swap above inside]
    have top : origin ((j - 1) / 2) j (((j - 1) / 2 - 1) / 2) =
        ((j - 1) / 2 - 1) / 2 := by
      simp only [origin]
      rw [if_neg (by omega), if_neg (by omega)]
    have parent := rising.others ((j - 1) / 2) higher above (by omega)
    rw [top]
    by_cases moved : i = j
    · have lowers : origin ((j - 1) / 2) j i = (j - 1) / 2 := by
        simp only [origin, if_pos moved]
        rw [if_neg (by omega)]
      rw [lowers]
      exact parent
    · have skips : origin ((j - 1) / 2) j i = i := by
        simp only [origin, if_neg moved]
        rw [if_neg (by omega)]
      have before := rising.others i start bound moved
      rw [child] at before
      rw [skips]
      exact before.trans weak above parent

theorem Rising.heaped (rising : Rising less items j)
    (last : 0 < j → NotLess less items j ((j - 1) / 2)) :
    Heaped less items.length items := by
  intro i start bound
  by_cases here : i = j
  · rw [here]
    exact last (here ▸ start)
  · exact rising.others i start bound here

theorem up_heaped (weak : WeakOrder less) {turns : Nat}
    (rising : Rising less items j) (inside : j < items.length)
    (enough : j ≤ turns) :
    Heaped less items.length (up (.ofLess less) turns items j) := by
  induction turns generalizing items j with
  | zero => exact rising.heaped fun positive => absurd enough (by omega)
  | succ turns inductionHypothesis =>
      have above : (j - 1) / 2 < items.length := by omega
      obtain ⟨child, atChild⟩ := exists_at inside
      obtain ⟨parent, atParent⟩ := exists_at above
      simp only [up]
      by_cases root : (j - 1) / 2 = j
      · rw [if_pos root]
        exact rising.heaped fun positive => absurd root (by omega)
      · rw [if_neg root]
        simp only [atChild, atParent]
        split
        · rename_i stays
          exact rising.heaped fun _ =>
            .of_stays atChild atParent (by simpa [HeapOrder.ofLess] using stays)
        · rename_i rises
          have moved := inductionHypothesis
            (rising.swap weak (by omega) inside
              (.of_less weak atChild atParent (by simpa [HeapOrder.ofLess] using rises)))
            (by rw [swap_length]; exact above) (by omega)
          rw [swap_length] at moved
          exact moved

theorem heapPush_heaped (weak : WeakOrder less) {heap : List α}
    (heaped : Heaped less heap.length heap) (item : α) :
    Heaped less (heapPush (.ofLess less) item heap).length
      (heapPush (.ofLess less) item heap) := by
  have size : (heapPush (.ofLess less) item heap).length =
      (heap ++ [item]).length := (up_perm _ _ _).length_eq
  have grown : (heap ++ [item]).length = heap.length + 1 := by simp
  rw [size]
  apply up_heaped weak _ (by omega) (Nat.le_refl _)
  constructor
  · intro i start bound away lower upper atI atParent
    rw [List.getElem?_append_left (by omega)] at atI atParent
    exact heaped i start (by omega) lower upper atI atParent
  · intro i start bound child
    omega

/-! ## Moving down -/

/-- Only members right below `i` may be less than the one above them. -/
structure Sinking (less : α → α → Bool) (n : Nat) (items : List α) (i : Nat) :
    Prop where
  others : ∀ k, 0 < k → k < n → (k - 1) / 2 ≠ i →
    NotLess less items k ((k - 1) / 2)
  below : ∀ k, 0 < k → k < n → (k - 1) / 2 = i → 0 < i →
    NotLess less items k ((i - 1) / 2)

variable {n : Nat}

theorem Sinking.heaped (sinking : Sinking less n items i)
    (last : ∀ k, 0 < k → k < n → (k - 1) / 2 = i → NotLess less items k i) :
    Heaped less n items := by
  intro k start bound
  by_cases here : (k - 1) / 2 = i
  · rw [here]
    exact last k start bound here
  · exact sinking.others k start bound here

theorem upperChild_spec (weak : WeakOrder less) (inner : 2 * i + 1 < n)
    (fits : n ≤ items.length) :
    (upperChild (.ofLess less) items n i - 1) / 2 = i ∧
      0 < upperChild (.ofLess less) items n i ∧
      upperChild (.ofLess less) items n i < n ∧
      ∀ k, 0 < k → k < n → (k - 1) / 2 = i →
        NotLess less items k (upperChild (.ofLess less) items n i) := by
  obtain ⟨left, atLeft⟩ := exists_at (show 2 * i + 1 < items.length by omega)
  have same : ∀ k, NotLess less items k k := by
    intro k lower upper atLower atUpper
    obtain rfl := Option.some.inj (atLower.symm.trans atUpper)
    cases compared : less lower lower with
    | false => rfl
    | true => exact compared ▸ weak.asymm compared
  by_cases two : 2 * i + 2 < n
  · obtain ⟨right, atRight⟩ := exists_at
      (show 2 * i + 2 < items.length by omega)
    simp only [upperChild, atLeft, atRight]
    split
    · rename_i before
      refine ⟨by omega, by omega, by omega, fun k start bound child => ?_⟩
      rcases (show k = 2 * i + 1 ∨ k = 2 * i + 2 by omega) with rfl | rfl
      · exact .of_less weak atRight atLeft before.2
      · exact same _
    · rename_i after
      refine ⟨by omega, by omega, by omega, fun k start bound child => ?_⟩
      rcases (show k = 2 * i + 1 ∨ k = 2 * i + 2 by omega) with rfl | rfl
      · exact same _
      · exact .of_stays atRight atLeft
          (Bool.eq_false_iff.mpr fun less => after ⟨two, less⟩)
  · have single : upperChild (.ofLess less) items n i = 2 * i + 1 := by
      simp only [upperChild]
      split
      · rw [if_neg fun both => two both.1]
      · rfl
    rw [single]
    refine ⟨by omega, by omega, by omega, fun k start bound child => ?_⟩
    obtain rfl : k = 2 * i + 1 := by omega
    exact same _

theorem Sinking.swap {c : Nat} (fits : n ≤ items.length)
    (sinking : Sinking less n items i) (child : (c - 1) / 2 = i)
    (positive : 0 < c) (inside : c < n)
    (upper : ∀ k, 0 < k → k < n → (k - 1) / 2 = i → NotLess less items k c)
    (turned : NotLess less items i c) :
    Sinking less n (swap items i c) c := by
  have first : i < items.length := by omega
  have second : c < items.length := by omega
  have apart : c ≠ i := by omega
  constructor
  · intro k start bound away
    rw [notLess_swap first second]
    by_cases lowered : k = c
    · have takes : origin i c k = i := by
        simp only [origin, if_pos lowered]
        rw [if_neg (by omega)]
      have lifts : origin i c ((k - 1) / 2) = c := by
        rw [lowered, child]
        simp only [origin, if_pos]
      rw [takes, lifts]
      exact turned
    · by_cases sibling : (k - 1) / 2 = i
      · have skips : origin i c k = k := by
          simp only [origin, if_neg lowered]
          rw [if_neg (by omega)]
        have lifts : origin i c ((k - 1) / 2) = c := by
          simp only [origin, if_pos sibling]
        rw [skips, lifts]
        exact upper k start bound sibling
      · have stands : origin i c ((k - 1) / 2) = (k - 1) / 2 := by
          simp only [origin, if_neg sibling, if_neg away]
        rw [stands]
        by_cases here : k = i
        · have lifts : origin i c k = c := by
            simp only [origin, if_pos here]
          rw [lifts, here]
          exact sinking.below c positive inside child (by omega)
        · have skips : origin i c k = k := by
            simp only [origin, if_neg here, if_neg lowered]
          rw [skips]
          exact sinking.others k start bound sibling
  · intro k start bound grandchild _
    rw [notLess_swap first second, child]
    have skips : origin i c k = k := by
      simp only [origin]
      rw [if_neg (by omega), if_neg (by omega)]
    have lifts : origin i c i = c := by
      simp only [origin, if_pos]
    have before := sinking.others k start bound (by omega)
    rw [grandchild] at before
    rw [skips, lifts]
    exact before

theorem down_heaped (weak : WeakOrder less) {turns : Nat}
    (fits : n ≤ items.length) (sinking : Sinking less n items i)
    (enough : n ≤ i + turns) :
    Heaped less n (down (.ofLess less) n turns items i) := by
  induction turns generalizing items i with
  | zero => exact sinking.heaped fun k start bound child => by omega
  | succ turns inductionHypothesis =>
      simp only [down]
      by_cases leaf : n ≤ 2 * i + 1
      · rw [if_pos leaf]
        exact sinking.heaped fun k start bound child => by omega
      · obtain ⟨child, positive, inside, upper⟩ :=
          @upperChild_spec _ _ items i n weak (by omega) fits
        obtain ⟨lower, atChild⟩ := exists_at (Nat.lt_of_lt_of_le inside fits)
        obtain ⟨parent, atParent⟩ := exists_at
          (show i < items.length by omega)
        rw [if_neg leaf, atChild, atParent]
        simp only
        split
        · rename_i stays
          have held : NotLess less items
              (upperChild (.ofLess less) items n i) i :=
            .of_stays atChild atParent (by simpa [HeapOrder.ofLess] using stays)
          exact sinking.heaped fun k start bound below =>
            (upper k start bound below).trans weak
              (Nat.lt_of_lt_of_le inside fits) held
        · rename_i sinks
          exact inductionHypothesis (by rw [swap_length]; exact fits)
            (sinking.swap fits child positive inside upper
              (.of_less weak atChild atParent (by simpa [HeapOrder.ofLess] using sinks)))
            (by omega)

theorem heapPop_heaped (weak : WeakOrder less) {heap : List α}
    (heaped : Heaped less heap.length heap) :
    Heaped less (heapPop (.ofLess less) heap).2.length
      (heapPop (.ofLess less) heap).2 := by
  have size : (heapPop (.ofLess less) heap).2.length = heap.length - 1 := by
    simp only [heapPop, List.length_take, (down_perm _ _ _ _).length_eq,
      swap_length]
    omega
  rw [size]
  have sifted : Heaped less (heap.length - 1)
      (down (.ofLess less) (heap.length - 1) (heap.length - 1)
        (Lib.swap heap 0 (heap.length - 1)) 0) := by
    by_cases none : heap.length = 0
    · intro i start bound
      omega
    apply down_heaped weak
    · rw [swap_length]
      omega
    · constructor
      · intro k start bound away
        rw [notLess_swap (by omega) (by omega)]
        have skips : origin 0 (heap.length - 1) k = k := by
          simp only [origin]
          rw [if_neg (by omega), if_neg (by omega)]
        have stands : origin 0 (heap.length - 1) ((k - 1) / 2) =
            (k - 1) / 2 := by
          simp only [origin]
          rw [if_neg (by omega), if_neg (by omega)]
        rw [skips, stands]
        exact heaped k start (by omega)
      · intro k start bound child higher
        omega
    · omega
  intro i start bound lower upper atI atParent
  simp only [heapPop] at atI atParent
  rw [List.getElem?_take_of_lt (by omega)] at atI atParent
  exact sifted i start bound lower upper atI atParent

theorem Heaped.head (weak : WeakOrder less) {heap : List α} {top item : α}
    (heaped : Heaped less heap.length heap) (first : heap.head? = some top)
    (member : item ∈ heap) : less item top = false := by
  have all : ∀ k, k < heap.length → NotLess less heap k 0 := by
    intro k
    induction k using Nat.strongRecOn with
    | ind k inductionHypothesis =>
        intro bound
        by_cases root : k = 0
        · rw [root]
          intro lower upper atLower atUpper
          obtain rfl := Option.some.inj (atLower.symm.trans atUpper)
          cases compared : less lower lower with
          | false => rfl
          | true => exact compared ▸ weak.asymm compared
        · exact (heaped k (by omega) bound).trans weak (by omega)
            (inductionHypothesis ((k - 1) / 2) (by omega) (by omega))
  obtain ⟨k, bound, rfl⟩ := List.mem_iff_getElem.mp member
  rw [List.head?_eq_getElem?] at first
  exact all k bound _ _ (List.getElem?_eq_getElem bound) first

end Sift

end CocoDB.Lib
