import CocoDB.BTree.NodeSpec

/-!
# Reading and rewriting nodes

The accessors of `CocoDB.BTree.Node` on pages that hold a list of items: the
items read back, binary search finds the place of a key, routing picks the first
child whose separator is above the key, and `setItems` succeeds exactly when the
items fit.
-/

namespace CocoDB.BTree

open Lib Slotted

/-! ## Payload codecs -/

@[simp]
theorem LeafItem.encode_length (item : LeafItem) :
    item.encode.length = 4 + item.key.length + item.value.length := by
  simp [LeafItem.encode]
  omega

@[simp]
theorem InternalItem.encode_length (item : InternalItem) :
    item.encode.length = 10 + item.key.length := by
  simp [InternalItem.encode]
  omega

theorem leafKeyLength (item : LeafItem)
    (small : 4 + item.key.length + item.value.length < 65536) :
    ofBE (item.encode.take 2) = item.key.length := by
  have taken : item.encode.take 2 = be 2 item.key.length := by
    simp [LeafItem.encode]
  rw [taken, ofBE_be]
  exact Nat.mod_eq_of_lt (by omega)

theorem leafValueLength (item : LeafItem)
    (small : 4 + item.key.length + item.value.length < 65536) :
    ofBE ((item.encode.drop 2).take 2) = item.value.length := by
  have taken : (item.encode.drop 2).take 2 = be 2 item.value.length := by
    simp [LeafItem.encode]
  rw [taken, ofBE_be]
  exact Nat.mod_eq_of_lt (by omega)

private theorem leafKeyBytes (item : LeafItem) :
    (item.encode.take (4 + item.key.length)).drop 4 = item.key := by
  have split : item.encode =
      (be 2 item.key.length ++ be 2 item.value.length) ++
        (item.key ++ item.value) := by
    simp [LeafItem.encode]
  rw [split, List.drop_take, List.drop_left' (by simp),
    Nat.add_sub_cancel_left, List.take_left]

theorem LeafItem.decode_encode (item : LeafItem)
    (small : 4 + item.key.length + item.value.length < 65536) :
    LeafItem.decode item.encode = some item := by
  have valueBytes :
      (item.encode.take (4 + item.key.length + item.value.length)).drop
        (4 + item.key.length) = item.value := by
    rw [← item.encode_length, List.take_length]
    have split : item.encode =
        (be 2 item.key.length ++ be 2 item.value.length ++ item.key) ++
          item.value := rfl
    rw [split, List.drop_left' (by simp; omega)]
  unfold LeafItem.decode
  rw [if_neg (by rw [item.encode_length]; omega)]
  simp only [leafKeyLength item small, leafValueLength item small]
  rw [u16_of_lt small, u16_of_lt (by omega), leafKeyBytes, valueBytes,
    if_neg (by rw [item.encode_length]; omega)]

theorem InternalItem.decode_encode (item : InternalItem)
    (small : 10 + item.key.length < 65536) :
    InternalItem.decode item.encode = some item := by
  have childBytes : item.encode.take 8 = be 8 item.child.toNat := by
    simp [InternalItem.encode]
  have keyLength : ofBE ((item.encode.drop 8).take 2) = item.key.length := by
    have taken : (item.encode.drop 8).take 2 = be 2 item.key.length := by
      simp [InternalItem.encode]
    rw [taken, ofBE_be]
    exact Nat.mod_eq_of_lt (by omega)
  have keyBytes :
      (item.encode.take (10 + item.key.length)).drop 10 = item.key := by
    rw [← item.encode_length, List.take_length]
    have split : item.encode =
        (be 8 item.child.toNat ++ be 2 item.key.length) ++ item.key := rfl
    rw [split, List.drop_left' (by simp)]
  unfold InternalItem.decode
  rw [if_neg (by rw [item.encode_length]; omega)]
  simp only [childBytes, keyLength, ofBE_be64]
  rw [u16_of_lt small, keyBytes, if_neg (by rw [item.encode_length]; omega)]

/-! ## Nodes -/

structure LeafPage (page : Page) (items : List LeafItem) : Prop where
  type_eq : page.header.type = .pageBTreeLeaf
  filled : Filled page (items.map LeafItem.encode)

structure InternalPage (page : Page) (items : List InternalItem)
    (rightmost : PageID) : Prop where
  type_eq : page.header.type = .pageBTreeInternal
  filled : Filled page (items.map InternalItem.encode)
  rightmost_eq : rightmostChild page = rightmost

def LeafFits (items : List LeafItem) : Prop :=
  Fits (items.map LeafItem.encode)

instance (items : List LeafItem) : Decidable (LeafFits items) :=
  inferInstanceAs (Decidable (Fits _))

def InternalFits (items : List InternalItem) : Prop :=
  Fits (items.map InternalItem.encode)

instance (items : List InternalItem) : Decidable (InternalFits items) :=
  inferInstanceAs (Decidable (Fits _))

theorem length_le_packedSize {payloads : List Bytes} {payload : Bytes}
    (member : payload ∈ payloads) :
    4 + payload.length ≤ packedSize payloads := by
  induction payloads with
  | nil => cases member
  | cons head tail inductionHypothesis =>
      simp only [packedSize, List.map_cons, List.sum_cons]
        at inductionHypothesis ⊢
      rcases List.mem_cons.mp member with rfl | later
      · omega
      · have := inductionHypothesis later
        omega

private theorem filterMap_range_getElem {α : Type} (items : List α) :
    ∀ parse : Nat → Option α,
      (∀ index, index < items.length → parse index = items[index]?) →
      (List.range items.length).filterMap parse = items := by
  induction items using List.reverseRecOn with
  | nil =>
      intro parse _
      rfl
  | append_singleton items item inductionHypothesis =>
      intro parse parsed
      have front := inductionHypothesis parse fun index below => by
        rw [parsed index (by simp; omega), List.getElem?_append_left below]
      have last : parse items.length = some item := by
        rw [parsed items.length (by simp)]
        simp
      rw [List.length_append, List.length_singleton, List.range_succ,
        List.filterMap_append, front]
      simp [last]

namespace LeafPage

variable {page : Page} {items : List LeafItem}

theorem slotCount_eq (leaf : LeafPage page items) :
    page.header.slotCount = items.length := by
  rw [leaf.filled.slotCount_eq, List.length_map]

theorem fits (leaf : LeafPage page items) : LeafFits items :=
  leaf.filled.fits

theorem item_small (leaf : LeafPage page items) {item : LeafItem}
    (member : item ∈ items) :
    4 + item.key.length + item.value.length < 65536 := by
  have bound := length_le_packedSize
    (List.mem_map_of_mem (f := LeafItem.encode) member)
  have whole := leaf.filled.fits
  unfold Fits at whole
  rw [item.encode_length] at bound
  omega

theorem get_eq (leaf : LeafPage page items) {index : Nat}
    {item : LeafItem} (found : items[index]? = some item) :
    Slotted.get page index = .ok item.encode :=
  leaf.filled.get_eq (by rw [List.getElem?_map, found]; rfl)

theorem leafItems_eq (leaf : LeafPage page items) :
    leafItems page = items := by
  unfold leafItems
  rw [leaf.slotCount_eq]
  apply filterMap_range_getElem
  intro index below
  have found := List.getElem?_eq_getElem below
  rw [leaf.get_eq found, found]
  exact LeafItem.decode_encode _
    (leaf.item_small (List.getElem_mem below))

theorem itemAt_eq (leaf : LeafPage page items) {index : Nat}
    {item : LeafItem} (found : items[index]? = some item) :
    itemAt page index = some item := by
  have direct : Slotted.getDirect page index = .ok item.encode :=
    leaf.get_eq found
  simp only [itemAt, direct]
  exact LeafItem.decode_encode _
    (leaf.item_small (List.mem_of_getElem? found))

theorem keyAt_eq (leaf : LeafPage page items) {index : Nat}
    {item : LeafItem} (found : items[index]? = some item) :
    keyAt page index = item.key := by
  have direct : Slotted.getDirect page index = .ok item.encode :=
    leaf.get_eq found
  have small := leaf.item_small (List.mem_of_getElem? found)
  simp only [keyAt, direct, leafKeyLength item small]
  rw [if_neg (by rw [item.encode_length]; omega),
    u16_of_lt (by omega), leafKeyBytes,
    if_neg (by rw [item.encode_length]; omega)]

end LeafPage

namespace InternalPage

variable {page : Page} {items : List InternalItem} {rightmost : PageID}

theorem slotCount_eq (node : InternalPage page items rightmost) :
    page.header.slotCount = items.length := by
  rw [node.filled.slotCount_eq, List.length_map]

theorem fits (node : InternalPage page items rightmost) :
    InternalFits items :=
  node.filled.fits

theorem item_small (node : InternalPage page items rightmost)
    {item : InternalItem} (member : item ∈ items) :
    10 + item.key.length < 65536 := by
  have bound := length_le_packedSize
    (List.mem_map_of_mem (f := InternalItem.encode) member)
  have whole := node.filled.fits
  unfold Fits at whole
  rw [item.encode_length] at bound
  omega

theorem get_eq (node : InternalPage page items rightmost) {index : Nat}
    {item : InternalItem} (found : items[index]? = some item) :
    Slotted.get page index = .ok item.encode :=
  node.filled.get_eq (by rw [List.getElem?_map, found]; rfl)

theorem internalItems_eq (node : InternalPage page items rightmost) :
    internalItems page = items := by
  unfold internalItems
  rw [node.slotCount_eq]
  apply filterMap_range_getElem
  intro index below
  have found := List.getElem?_eq_getElem below
  rw [node.get_eq found, found]
  exact InternalItem.decode_encode _
    (node.item_small (List.getElem_mem below))

theorem childAndKeyAt_eq (node : InternalPage page items rightmost)
    {index : Nat} {item : InternalItem}
    (found : items[index]? = some item) :
    childAndKeyAt page index = some item := by
  have direct : Slotted.getDirect page index = .ok item.encode :=
    node.get_eq found
  simp only [childAndKeyAt, direct]
  exact InternalItem.decode_encode _
    (node.item_small (List.mem_of_getElem? found))

end InternalPage

/-! ## Searching a leaf -/

def SortedItems (items : List LeafItem) : Prop :=
  items.Pairwise fun left right => left.key < right.key

instance (items : List LeafItem) : Decidable (SortedItems items) :=
  inferInstanceAs (Decidable (List.Pairwise _ _))

/-- What binary search reports about `key`. -/
def SearchResult (items : List LeafItem) (key : Bytes) :
    Nat × Bool → Prop
  | (index, true) => ∃ item, items[index]? = some item ∧ item.key = key
  | (index, false) =>
      index ≤ items.length ∧
      (∀ item, item ∈ items.take index → item.key < key) ∧
      (∀ item, item ∈ items.drop index → key < item.key)

theorem SortedItems.getElem?_lt {items : List LeafItem}
    (sorted : SortedItems items) {first second : Nat}
    {left right : LeafItem} (ordered : first < second)
    (leftAt : items[first]? = some left)
    (rightAt : items[second]? = some right) : left.key < right.key := by
  obtain ⟨leftBound, rfl⟩ := List.getElem?_eq_some_iff.mp leftAt
  obtain ⟨rightBound, rfl⟩ := List.getElem?_eq_some_iff.mp rightAt
  exact List.pairwise_iff_getElem.mp sorted first second leftBound
    rightBound ordered

/-- The search loop: everything before `low` is below the key and everything
from `past` on is above it. -/
theorem searchFrom_spec {page : Page} {items : List LeafItem}
    (leaf : LeafPage page items) (sorted : SortedItems items)
    (key : Bytes) :
    ∀ (low past : Nat), low ≤ past → past ≤ items.length →
      (∀ item, item ∈ items.take low → item.key < key) →
      (∀ item, item ∈ items.drop past → key < item.key) →
      SearchResult items key (searchFrom page key low past) := by
  intro low past
  induction low, past using searchFrom.induct page key with
  | case1 low past inside mid midKey equal =>
      intro _ bounded _ _
      have below : mid < items.length := by omega
      have found := List.getElem?_eq_getElem below
      rw [searchFrom, dif_pos inside]
      simp only
      rw [if_pos equal]
      refine ⟨_, found, ?_⟩
      rw [← leaf.keyAt_eq found]
      exact equal.symm
  | case2 low past inside mid midKey different smaller induction =>
      intro ordered bounded before after
      have below : mid < items.length := by omega
      have found := List.getElem?_eq_getElem below
      rw [searchFrom, dif_pos inside]
      simp only
      rw [if_neg different, if_pos smaller]
      have midAbove : key < items[mid].key := by
        rw [← leaf.keyAt_eq found]
        exact smaller
      apply induction (by omega) (by omega) before
      intro item member
      obtain ⟨index, position⟩ := List.mem_iff_getElem?.mp member
      rw [List.getElem?_drop] at position
      by_cases first : index = 0
      · subst first
        rw [Nat.add_zero, found] at position
        cases position
        exact midAbove
      · exact midAbove.trans
          (sorted.getElem?_lt (by omega : mid < mid + index) found position)
  | case3 low past inside mid midKey different notSmaller induction =>
      intro ordered bounded before after
      have below : mid < items.length := by omega
      have found := List.getElem?_eq_getElem below
      rw [searchFrom, dif_pos inside]
      simp only
      rw [if_neg different, if_neg notSmaller]
      have midBelow : items[mid].key < key := by
        have keyEq := leaf.keyAt_eq found
        rw [← keyEq]
        exact lt_of_le_of_ne (not_lt.mp notSmaller) (Ne.symm different)
      apply induction (by omega) bounded _ after
      intro item member
      obtain ⟨index, position⟩ := List.mem_iff_getElem?.mp member
      rw [List.getElem?_take] at position
      split at position
      · rename_i inFront
        by_cases last : index = mid
        · subst last
          rw [found] at position
          cases position
          exact midBelow
        · exact (sorted.getElem?_lt (by omega) position found).trans midBelow
      · cases position
  | case4 low past outside =>
      intro ordered bounded before after
      rw [searchFrom, dif_neg outside]
      have same : low = past := by omega
      subst same
      exact ⟨bounded, before, after⟩

theorem LeafPage.binarySearch_spec {page : Page} {items : List LeafItem}
    (leaf : LeafPage page items) (sorted : SortedItems items)
    (key : Bytes) : SearchResult items key (binarySearch page key) := by
  unfold binarySearch
  apply searchFrom_spec leaf sorted key
  · exact Nat.zero_le _
  · rw [leaf.slotCount_eq]
  · simp
  · rw [leaf.slotCount_eq]
    simp

/-! ## Routing in an internal node -/

def SortedSeparators (items : List InternalItem) : Prop :=
  items.Pairwise fun left right => left.key < right.key

theorem SortedSeparators.getElem?_lt {items : List InternalItem}
    (sorted : SortedSeparators items) {first second : Nat}
    {left right : InternalItem} (ordered : first < second)
    (leftAt : items[first]? = some left)
    (rightAt : items[second]? = some right) : left.key < right.key := by
  obtain ⟨leftBound, rfl⟩ := List.getElem?_eq_some_iff.mp leftAt
  obtain ⟨rightBound, rfl⟩ := List.getElem?_eq_some_iff.mp rightAt
  exact List.pairwise_iff_getElem.mp sorted first second leftBound
    rightBound ordered

theorem routeFrom_spec {page : Page} {items : List InternalItem}
    {rightmost : PageID} (node : InternalPage page items rightmost)
    (sorted : SortedSeparators items) (key : Bytes) :
    ∀ (low high : Nat), low ≤ high → high ≤ items.length →
      (∀ item, item ∈ items.take low → item.key ≤ key) →
      (∀ item, item ∈ items.drop high → key < item.key) →
      ∃ index, routeFrom page key low high = some index ∧
        index ≤ items.length ∧
        (∀ item, item ∈ items.take index → item.key ≤ key) ∧
        (∀ item, item ∈ items.drop index → key < item.key) := by
  intro low high
  induction low, high using routeFrom.induct page key with
  | case1 low high inside mid unusable =>
      intro _ bounded _ _
      have below : mid < items.length := by omega
      rw [node.childAndKeyAt_eq (List.getElem?_eq_getElem below)] at unusable
      cases unusable
  | case2 low high inside mid item usable smaller induction =>
      intro ordered bounded before after
      have below : mid < items.length := by omega
      have found := List.getElem?_eq_getElem below
      have itemEq := node.childAndKeyAt_eq found
      rw [usable] at itemEq
      cases itemEq
      have step : routeFrom page key low high =
          routeFrom page key low mid := by
        rw [routeFrom, if_pos inside]
        simp only [mid] at usable
        simp only [usable]
        rw [if_pos smaller]
      rw [step]
      apply induction (by omega) (by omega) before
      intro item member
      obtain ⟨index, position⟩ := List.mem_iff_getElem?.mp member
      rw [List.getElem?_drop] at position
      by_cases first : index = 0
      · subst first
        rw [Nat.add_zero, found] at position
        cases position
        exact smaller
      · exact smaller.trans
          (sorted.getElem?_lt (by omega : mid < mid + index) found position)
  | case3 low high inside mid item usable notSmaller induction =>
      intro ordered bounded before after
      have below : mid < items.length := by omega
      have found := List.getElem?_eq_getElem below
      have itemEq := node.childAndKeyAt_eq found
      rw [usable] at itemEq
      cases itemEq
      have step : routeFrom page key low high =
          routeFrom page key (mid + 1) high := by
        rw [routeFrom, if_pos inside]
        simp only [mid] at usable
        simp only [usable]
        rw [if_neg notSmaller]
      rw [step]
      have midBelow : items[mid].key ≤ key := not_lt.mp notSmaller
      apply induction (by omega) bounded _ after
      intro item member
      obtain ⟨index, position⟩ := List.mem_iff_getElem?.mp member
      rw [List.getElem?_take] at position
      split at position
      · rename_i inFront
        by_cases last : index = mid
        · subst last
          rw [found] at position
          cases position
          exact midBelow
        · exact (sorted.getElem?_lt (by omega) position found).le.trans
            midBelow
      · cases position
  | case4 low high outside =>
      intro ordered bounded before after
      have same : low = high := by omega
      subst same
      exact ⟨low, by rw [routeFrom, if_neg outside], bounded, before, after⟩

inductive Routed (items : List InternalItem) (rightmost : PageID)
    (key : Bytes) : PageID → Prop
  | child (before : List InternalItem) (item : InternalItem)
      (after : List InternalItem) :
      items = before ++ item :: after →
      (∀ other, other ∈ before → other.key ≤ key) →
      key < item.key →
      Routed items rightmost key item.child
  | last :
      (∀ other, other ∈ items → other.key ≤ key) →
      Routed items rightmost key rightmost

theorem InternalPage.routeChild_spec {page : Page}
    {items : List InternalItem} {rightmost : PageID}
    (node : InternalPage page items rightmost)
    (sorted : SortedSeparators items) (key : Bytes) :
    Routed items rightmost key (routeChild page key) := by
  have count := node.slotCount_eq
  unfold routeChild
  simp only
  split
  · rename_i empty
    have noItems : items = [] :=
      List.eq_nil_of_length_eq_zero (by omega)
    rw [node.rightmost_eq, noItems]
    exact Routed.last fun other member => by cases member
  · obtain ⟨index, routed, bounded, before, after⟩ :=
      routeFrom_spec node sorted key 0 page.header.slotCount
        (Nat.zero_le _) (by omega) (by simp) (by simp [count])
    simp only [routed]
    split
    · rename_i inside
      have below : index < items.length := by omega
      have found := List.getElem?_eq_getElem below
      rw [node.childAndKeyAt_eq found]
      simp only
      have whole : items =
          items.take index ++ items[index] :: items.drop (index + 1) := by
        rw [List.getElem_cons_drop, List.take_append_drop]
      refine Routed.child (items.take index) items[index]
        (items.drop (index + 1)) whole before ?_
      apply after
      rw [← List.getElem_cons_drop below]
      exact List.mem_cons_self
    · rename_i outside
      rw [node.rightmost_eq]
      refine Routed.last fun other member => ?_
      apply before
      rwa [List.take_of_length_le (by omega)]

/-! ## Rewriting nodes -/

theorem prevLeaf_congr {page out : Page}
    (reserved : ∀ position, 32 ≤ position → position < 64 →
      out.data position = page.data position) :
    prevLeaf out = prevLeaf page :=
  readPageID_congr fun position lower upper => by
    simp only [leafPrevOffset, pageHeaderSize] at lower upper
    exact reserved position (by omega) (by omega)

theorem nextLeaf_congr {page out : Page}
    (reserved : ∀ position, 32 ≤ position → position < 64 →
      out.data position = page.data position) :
    nextLeaf out = nextLeaf page :=
  readPageID_congr fun position lower upper => by
    simp only [leafNextOffset, pageHeaderSize] at lower upper
    exact reserved position (by omega) (by omega)

structure SetLeafSpec (page : Page) (items : List LeafItem) : Prop where
  prev_eq : prevLeaf (setLeafItems page items).2 = prevLeaf page
  next_eq : nextLeaf (setLeafItems page items).2 = nextLeaf page
  id_eq : (setLeafItems page items).2.header.id = page.header.id
  done : LeafFits items →
    (setLeafItems page items).1 = .ok () ∧
      (setLeafItems page items).2.dirty = true ∧
      LeafPage (setLeafItems page items).2 items
  failed : ¬ LeafFits items →
    (setLeafItems page items).1 = .error .pageFull

/-- Keys and values within the limits of `Insert`. -/
def LeafItem.Admissible (item : LeafItem) : Prop :=
  item.key.length ≤ maxKeySize ∧ item.value.length ≤ maxValueSize

instance (item : LeafItem) : Decidable item.Admissible :=
  inferInstanceAs (Decidable (_ ∧ _))

theorem setLeafItems_spec (page : Page) (items : List LeafItem)
    (admissible : ∀ item, item ∈ items → item.Admissible) :
    SetLeafSpec page items := by
  have filled : Filled
      (setNextLeaf
        (setPrevLeaf (blank page .pageBTreeLeaf) (prevLeaf page))
        (nextLeaf page)) [] :=
    ((blank_filled page .pageBTreeLeaf).writePageID _ (by decide)).writePageID
      _ (by decide)
  obtain ⟨frame, fits, full⟩ := fill_spec (items.map LeafItem.encode) [] _
    filled fun payload member => by
      obtain ⟨item, itemMember, rfl⟩ := List.mem_map.mp member
      have bounds := admissible item itemMember
      simp only [LeafItem.Admissible, maxKeySize, maxValueSize] at bounds
      rw [item.encode_length]
      omega
  have prevStored : prevLeaf
      (setNextLeaf
        (setPrevLeaf (blank page .pageBTreeLeaf) (prevLeaf page))
        (nextLeaf page)) = prevLeaf page := by
    unfold prevLeaf setNextLeaf setPrevLeaf
    rw [readPageID_writePageID_ne _ _ (by decide), readPageID_writePageID]
  have nextStored : nextLeaf
      (setNextLeaf
        (setPrevLeaf (blank page .pageBTreeLeaf) (prevLeaf page))
        (nextLeaf page)) = nextLeaf page := by
    unfold nextLeaf setNextLeaf
    rw [readPageID_writePageID]
  refine ⟨?_, ?_, ?_, ?_, ?_⟩
  · exact (prevLeaf_congr frame.reserved).trans prevStored
  · exact (nextLeaf_congr frame.reserved).trans nextStored
  · exact frame.id_eq
  · intro roomy
    obtain ⟨result, dirty, filledOut⟩ := fits roomy
    exact ⟨result, dirty, frame.type_eq, filledOut⟩
  · exact full

structure SetInternalSpec (page : Page) (items : List InternalItem)
    (rightmost : PageID) : Prop where
  id_eq : (setInternalItems page items rightmost).2.header.id =
    page.header.id
  done : InternalFits items →
    (setInternalItems page items rightmost).1 = .ok () ∧
      (setInternalItems page items rightmost).2.dirty = true ∧
      InternalPage (setInternalItems page items rightmost).2 items rightmost
  failed : ¬ InternalFits items →
    (setInternalItems page items rightmost).1 = .error .pageFull

theorem setInternalItems_spec (page : Page) (items : List InternalItem)
    (rightmost : PageID)
    (admissible : ∀ item, item ∈ items → item.key.length ≤ maxKeySize) :
    SetInternalSpec page items rightmost := by
  have filled : Filled
      (setRightmostChild (blank page .pageBTreeInternal) rightmost) [] :=
    (blank_filled page .pageBTreeInternal).writePageID _ (by decide)
  obtain ⟨frame, fits, full⟩ := fill_spec (items.map InternalItem.encode) []
    _ filled fun payload member => by
      obtain ⟨item, itemMember, rfl⟩ := List.mem_map.mp member
      have bound := admissible item itemMember
      simp only [maxKeySize] at bound
      rw [item.encode_length]
      omega
  refine ⟨frame.id_eq, ?_, full⟩
  intro roomy
  obtain ⟨result, dirty, filledOut⟩ := fits roomy
  refine ⟨result, dirty, frame.type_eq, filledOut, ?_⟩
  have stored : rightmostChild
      (setRightmostChild (blank page .pageBTreeInternal) rightmost) =
        rightmost := by
    unfold rightmostChild setRightmostChild
    rw [readPageID_writePageID]
  refine Eq.trans (readPageID_congr fun position lower upper => ?_) stored
  simp only [internalRightOffset, pageHeaderSize] at lower upper
  exact frame.reserved position (by omega) (by omega)

theorem LeafPage.writePageID {page : Page} {items : List LeafItem}
    (leaf : LeafPage page items) {offset : Nat} (id : PageID)
    (inHeader : offset + 8 ≤ 64) :
    LeafPage (writePageID page offset id) items :=
  ⟨leaf.type_eq, leaf.filled.writePageID id inHeader⟩

@[simp]
theorem prevLeaf_setPrevLeaf (page : Page) (id : PageID) :
    prevLeaf (setPrevLeaf page id) = id :=
  readPageID_writePageID page leafPrevOffset id

@[simp]
theorem nextLeaf_setPrevLeaf (page : Page) (id : PageID) :
    nextLeaf (setPrevLeaf page id) = nextLeaf page :=
  readPageID_writePageID_ne page id (by decide)

@[simp]
theorem nextLeaf_setNextLeaf (page : Page) (id : PageID) :
    nextLeaf (setNextLeaf page id) = id :=
  readPageID_writePageID page leafNextOffset id

@[simp]
theorem prevLeaf_setNextLeaf (page : Page) (id : PageID) :
    prevLeaf (setNextLeaf page id) = prevLeaf page :=
  readPageID_writePageID_ne page id (by decide)

end CocoDB.BTree
