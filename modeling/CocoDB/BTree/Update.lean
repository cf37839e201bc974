import CocoDB.BTree.Descent

/-!
# Rewriting one leaf

Setting and removing a key in the items of a leaf, storing the leaf back, and
deletion, which never does more than that.
-/

namespace CocoDB.BTree

open Lib LawfulPager

/-! ## Items around a key -/

structure DividedAt (items : List LeafItem) (key : Bytes)
    (before at' after : List LeafItem) : Prop where
  items_eq : items = before ++ at' ++ after
  before_lt : ∀ item, item ∈ before → item.key < key
  at_eq : ∀ item, item ∈ at' → item.key = key
  after_gt : ∀ item, item ∈ after → key < item.key

namespace DividedAt

variable {items before at' after : List LeafItem} {key : Bytes}

theorem sorted_outer (divided : DividedAt items key before at' after)
    (sorted : SortedItems items) : SortedItems (before ++ after) := by
  rw [divided.items_eq, List.append_assoc] at sorted
  obtain ⟨first, rest, _⟩ := List.pairwise_append.mp sorted
  refine List.pairwise_append.mpr
    ⟨first, (List.pairwise_append.mp rest).2.1, ?_⟩
  intro left leftMember right rightMember
  exact (divided.before_lt left leftMember).trans
    (divided.after_gt right rightMember)

theorem sorted_put (divided : DividedAt items key before at' after)
    (sorted : SortedItems items) (value : Bytes) :
    SortedItems (before ++ ⟨key, value⟩ :: after) := by
  obtain ⟨first, last, _⟩ :=
    List.pairwise_append.mp (divided.sorted_outer sorted)
  refine List.pairwise_append.mpr
    ⟨first, List.pairwise_cons.mpr ⟨divided.after_gt, last⟩, ?_⟩
  intro left leftMember right rightMember
  rcases List.mem_cons.mp rightMember with rfl | later
  · exact divided.before_lt left leftMember
  · exact (divided.before_lt left leftMember).trans
      (divided.after_gt right later)

theorem bindings_other (divided : DividedAt items key before at' after)
    {other : Bytes} (different : other ≠ key) :
    bindings items other =
      (bindings before other).or (bindings after other) := by
  have absent : bindings at' other = none := bindings_absent
    fun item member same =>
      different (same.symm.trans (divided.at_eq item member))
  rw [divided.items_eq, bindings_append, bindings_append, absent]
  simp

theorem bindings_put (divided : DividedAt items key before at' after)
    (value : Bytes) :
    bindings (before ++ ⟨key, value⟩ :: after) =
      Function.update (bindings items) key (some value) := by
  funext other
  rw [bindings_append, bindings_cons]
  by_cases same : key = other
  · subst same
    rw [Function.update_self, if_pos rfl,
      bindings_absent fun item member => (divided.before_lt item member).ne]
    rfl
  · rw [Function.update_of_ne (Ne.symm same), if_neg same,
      divided.bindings_other (Ne.symm same)]

theorem bindings_erase (divided : DividedAt items key before at' after) :
    bindings (before ++ after) =
      Function.update (bindings items) key none := by
  funext other
  rw [bindings_append]
  by_cases same : other = key
  · subst same
    rw [Function.update_self,
      bindings_absent fun item member => (divided.before_lt item member).ne,
      bindings_absent fun item member => (divided.after_gt item member).ne']
    rfl
  · rw [Function.update_of_ne same, divided.bindings_other same]

end DividedAt

theorem SearchResult.divides {items : List LeafItem} {key : Bytes}
    {index : Nat} {found : Bool} (sorted : SortedItems items)
    (result : SearchResult items key (index, found)) :
    ∃ before at' after, DividedAt items key before at' after ∧
      before.length = index ∧ (found = true ↔ ∃ item, at' = [item]) ∧
      (found = false ↔ at' = []) := by
  cases found with
  | true =>
      obtain ⟨item, stored, same⟩ := result
      obtain ⟨bound, rfl⟩ := List.getElem?_eq_some_iff.mp stored
      refine ⟨items.take index, [items[index]], items.drop (index + 1),
        ⟨?_, ?_, ?_, ?_⟩, ?_, ?_, ?_⟩
      · rw [List.append_assoc, List.singleton_append,
          List.getElem_cons_drop, List.take_append_drop]
      · intro item member
        obtain ⟨position, below, rfl⟩ := List.mem_take_iff_getElem.mp member
        rw [← same]
        exact List.pairwise_iff_getElem.mp sorted _ _ _ _ (by omega)
      · intro item member
        rw [List.mem_singleton.mp member]
        exact same
      · intro item member
        obtain ⟨position, below, rfl⟩ := List.mem_drop_iff_getElem.mp member
        rw [← same]
        exact List.pairwise_iff_getElem.mp sorted _ _ _ _ (by omega)
      · rw [List.length_take]
        omega
      · simp
      · simp
  | false =>
      obtain ⟨bounded, before, after⟩ := result
      refine ⟨items.take index, [], items.drop index,
        ⟨by simp, before, fun _ member => (nomatch member), after⟩, ?_,
        by simp, by simp⟩
      rw [List.length_take]
      omega

theorem SearchResult.putItem_eq {items : List LeafItem} {key : Bytes}
    {place : Nat × Bool} (sorted : SortedItems items)
    (result : SearchResult items key place) (value : Bytes) :
    ∃ before at' after, DividedAt items key before at' after ∧
      putItem items place key value = before ++ ⟨key, value⟩ :: after := by
  obtain ⟨index, found⟩ := place
  obtain ⟨before, at', after, divided, length, present, absent⟩ :=
    result.divides sorted
  refine ⟨before, at', after, divided, ?_⟩
  cases found with
  | true =>
      obtain ⟨item, rfl⟩ := present.mp rfl
      have key_eq := divided.at_eq item (by simp)
      have split : items = before ++ item :: after := by
        rw [divided.items_eq, List.append_assoc, List.singleton_append]
      simp only [putItem]
      rw [split, ← length]
      refine (List.modifyTailIdx_add _ 0 before (item :: after)).trans ?_
      simp [key_eq]
  | false =>
      have none := absent.mp rfl
      subst none
      have split : items = before ++ after := by
        rw [divided.items_eq, List.append_nil]
      simp only [putItem]
      rw [split, ← length, List.take_left, List.drop_left,
        List.append_assoc, List.singleton_append]

theorem SearchResult.eraseIdx_eq {items : List LeafItem} {key : Bytes}
    {index : Nat} (sorted : SortedItems items)
    (result : SearchResult items key (index, true)) :
    ∃ before at' after, DividedAt items key before at' after ∧
      items.eraseIdx index = before ++ after := by
  obtain ⟨before, at', after, divided, length, present, _⟩ :=
    result.divides sorted
  obtain ⟨item, rfl⟩ := present.mp rfl
  refine ⟨before, [item], after, divided, ?_⟩
  have split : items = before ++ item :: after := by
    rw [divided.items_eq, List.append_assoc, List.singleton_append]
  rw [split, ← length, List.eraseIdx_append_of_length_le (Nat.le_refl _)]
  simp

/-! ## The leaf of a key -/

structure Located (key : Bytes) (leaves front : List Leaf) (id : PageID)
    (items : List LeafItem) (back : List Leaf) : Prop where
  leaves_eq : leaves = front ++ ⟨id, items⟩ :: back
  below : ∀ leaf, leaf ∈ front → ∀ item, item ∈ leaf.items → item.key < key
  above : ∀ leaf, leaf ∈ back → ∀ item, item ∈ leaf.items → key < item.key

theorem Arrival.located {σ : Type} [Pager σ] {start : σ}
    {root leafID : PageID} {height : Nat} {total before after : Outline}
    {path : List PageID} {range : Range Bytes} {items : List LeafItem}
    (arrival : Arrival start root height total leafID path range items
      before after)
    {key : Bytes} (inside : range.Contains key) :
    Located key total.leaves before.leaves leafID items after.leaves := by
  obtain ⟨below, above⟩ := arrival.around.outside inside
  refine ⟨?_, ?_, ?_⟩
  · rw [arrival.total_eq]
    simp
  · exact fun leaf listed item member =>
      below item (List.mem_flatMap.mpr ⟨leaf, listed, member⟩)
  · exact fun leaf listed item member =>
      above item (List.mem_flatMap.mpr ⟨leaf, listed, member⟩)

inductive LeavesErased (key : Bytes) (leaves : List Leaf) :
    List Leaf → Prop
  | absent : (∀ leaf, leaf ∈ leaves → ∀ item, item ∈ leaf.items →
      item.key ≠ key) → LeavesErased key leaves leaves
  | erased {front back : List Leaf} {id : PageID}
      {items before at' after : List LeafItem} :
      Located key leaves front id items back →
      DividedAt items key before at' after →
      LeavesErased key leaves (front ++ ⟨id, before ++ after⟩ :: back)

/-! ## Storing a leaf -/

variable {σ : Type} [Pager σ] [LawfulPager σ]

theorem evolves_store {state : σ} {id : PageID} {page : Page}
    (good : Good state) (held : Allocated state id)
    (same : page.header.id = id) (dirty : page.dirty = true) :
    Evolves state (Pager.markDirty id (Pager.setPage id page state)) {id} 0 ∧
      Pager.page (Pager.markDirty id (Pager.setPage id page state)) id =
        page := by
  have written := evolves_setPage good held same
  have stored := setPage_same good held same
  have heldAfter := written.keeps held
  have marked := evolves_markDirty written.good heldAfter
    (by rw [stored]; exact dirty)
  exact ⟨written.trans (marked.mono (Set.empty_subset _)),
    (marked.frame heldAfter (by simp)).trans stored⟩

theorem Stands.storeLeaf {tree : Tree σ} {height : Nat}
    {outline before after : Outline} {leafID : PageID}
    {path : List PageID} {range : Range Bytes}
    {items newItems : List LeafItem} {page : Page}
    (stands : Stands tree height outline)
    (arrival : Arrival tree.pager tree.root height outline leafID path range
      items before after)
    (leaf : LeafPage page newItems) (sorted : SortedItems newItems)
    (inside : ∀ item, item ∈ newItems →
      item.Admissible ∧ range.Contains item.key)
    (sameID : page.header.id = leafID)
    (prevSame : prevLeaf page = prevLeaf (Pager.page tree.pager leafID))
    (nextSame : nextLeaf page = nextLeaf (Pager.page tree.pager leafID))
    (dirty : page.dirty = true) :
    Evolves tree.pager
        (Pager.markDirty leafID (Pager.setPage leafID page tree.pager))
        {leafID} 0 ∧
      Stands
        { tree with
          pager := Pager.markDirty leafID
            (Pager.setPage leafID page tree.pager) }
        height (before + Outline.leaf leafID newItems + after) := by
  have held := arrival.leaf_allocated stands.allocated
  obtain ⟨evolution, stored⟩ := evolves_store stands.good held sameID dirty
  have distinct := stands.nodup
  have idsEq : (before + Outline.leaf leafID newItems + after).ids =
      outline.ids := by
    rw [arrival.total_eq]
    rfl
  have leavesEq :
      (before + Outline.leaf leafID newItems + after).leaves.map Leaf.id =
        outline.leaves.map Leaf.id := by
    rw [arrival.total_eq]
    simp
  have outer : ∀ id, id ∈ before.ids + after.ids → id ≠ leafID := by
    rintro id member rfl
    exact arrival.apart distinct member
  have same : ∀ id, id ∈ outline.ids → id ≠ leafID →
      Pager.page
        (Pager.markDirty leafID (Pager.setPage leafID page tree.pager)) id =
        Pager.page tree.pager id := fun id member different =>
    evolution.frame (stands.allocated member) different
  refine ⟨evolution, evolution.good, ?_, ?_, ?_, ?_⟩
  · refine Around.plug (arrival.around.congr fun id member => ?_)
      ⟨newItems, by rw [stored]; exact leaf, sorted, inside, rfl⟩
    refine SameNode.of_eq (same id ?_ (outer id member))
    rw [arrival.total_eq]
    simp only [Outline.add_ids, Multiset.mem_add] at member ⊢
    exact member.imp_left .inl
  · rw [idsEq]
    exact distinct
  · intro id member
    rw [idsEq] at member
    exact evolution.keeps (stands.allocated member)
  · rw [leavesEq]
    have pointers : ∀ id, id ∈ outline.leaves.map Leaf.id →
        prevLeaf (Pager.page (Pager.markDirty leafID
          (Pager.setPage leafID page tree.pager)) id) =
          prevLeaf (Pager.page tree.pager id) ∧
        nextLeaf (Pager.page (Pager.markDirty leafID
          (Pager.setPage leafID page tree.pager)) id) =
          nextLeaf (Pager.page tree.pager id) := by
      intro id member
      by_cases here : id = leafID
      · subst here
        rw [stored]
        exact ⟨prevSame, nextSame⟩
      · obtain ⟨leaf, listed, rfl⟩ := List.mem_map.mp member
        rw [same leaf.id (stands.subtree.listed.mem listed) here]
        exact ⟨rfl, rfl⟩
    exact stands.linked.congr (fun id member => (pointers id member).1)
      (fun id member => (pointers id member).2)

/-! ## Deletion -/

theorem Around.bindings_update {view : PageID → Page} {root id : PageID}
    {height level : Nat} {parents : List PageID} {range : Range Bytes}
    {before after : Outline}
    (around : Around view root height parents level range id before after)
    {key : Bytes} (inside : range.Contains key) {old new : List LeafItem}
    {value : Option Bytes}
    (updated : bindings new = Function.update (bindings old) key value) :
    bindings (before.contents ++ new ++ after.contents) =
      Function.update (bindings (before.contents ++ old ++ after.contents))
        key value := by
  obtain ⟨below, above⟩ := around.outside inside
  funext other
  rw [bindings_append, bindings_append, updated]
  by_cases same : other = key
  · subst same
    rw [Function.update_self, Function.update_self,
      bindings_absent fun item member => (below item member).ne,
      bindings_absent fun item member => (above item member).ne']
    cases value <;> rfl
  · rw [Function.update_of_ne same, Function.update_of_ne same,
      bindings_append, bindings_append]

theorem Represents.delete_spec {tree : Tree σ} {height : Nat}
    {outline : Outline} (represents : Represents tree height outline)
    (key : Bytes) :
    (delete key tree).1 = .ok () ∧
      Evolves tree.pager (delete key tree).2.pager
        {id | id ∈ outline.ids} 0 ∧
      ∃ changed, Represents (delete key tree).2 height changed ∧
        changed.ids = outline.ids ∧
        bindings changed.contents =
          Function.update (bindings outline.contents) key none ∧
        LeavesErased key outline.leaves changed.leaves := by
  cases represents with
  | empty missing good =>
      unfold delete
      rw [if_pos missing]
      refine ⟨rfl, Evolves.refl good, 0, .empty missing good, rfl, ?_,
        .absent fun _ listed => (nomatch listed)⟩
      funext other
      by_cases same : other = key <;> simp [Function.update, same]
  | grown stands =>
      obtain ⟨leafID, path, range, items, before, after, final, walk,
          evolution, standsNow, arrival, inside⟩ := stands.findLeaf_spec key
      have result := arrival.leaf.binarySearch_spec arrival.sorted key
      unfold delete
      rw [if_neg stands.root_ne, walk]
      simp only
      rcases place : binarySearch (Pager.page final leafID) key with
        ⟨index, found⟩
      rw [place] at result
      cases found with
      | false =>
          have absent := result.bindings_eq arrival.sorted
          rw [← arrival.bindings_eq inside] at absent
          simp only [Bool.false_eq_true, if_false] at absent
          refine ⟨rfl, evolution.mono (Set.empty_subset _), outline,
            .grown standsNow, rfl, ?_, .absent ?_⟩
          · exact (Function.update_eq_self_iff.mpr absent.symm).symm
          · intro leaf listed item member same
            have bound := stands.sorted.bindings_mem
              (List.mem_flatMap.mpr ⟨leaf, listed, member⟩)
            rw [same, absent] at bound
            cases bound
      | true =>
          obtain ⟨front, at', back, divided, erased⟩ :=
            result.eraseIdx_eq arrival.sorted
          have kept : ∀ item, item ∈ front ++ back → item ∈ items := by
            intro item member
            rw [divided.items_eq]
            simp only [List.mem_append] at member ⊢
            exact member.imp_left .inl
          have spec := setLeafItems_spec (Pager.page final leafID)
            (front ++ back)
            fun item member => (arrival.inside item (kept item member)).1
          have roomy : LeafFits (front ++ back) := by
            have whole := arrival.leaf.fits
            rw [divided.items_eq] at whole
            unfold LeafFits Fits at whole ⊢
            simp only [List.map_append, packedSize_append] at whole ⊢
            omega
          obtain ⟨done, dirty, leafPage⟩ := spec.done roomy
          have held := arrival.leaf_allocated standsNow.allocated
          simp only [arrival.leaf.leafItems_eq, erased]
          rcases pair : setLeafItems (Pager.page final leafID)
            (front ++ back) with ⟨outcome, page⟩
          have ids := spec.id_eq
          have prev := spec.prev_eq
          have next := spec.next_eq
          rw [pair] at done dirty leafPage ids prev next
          simp only at done dirty leafPage ids prev next
          subst done
          obtain ⟨stored, standsAfter⟩ := standsNow.storeLeaf arrival
            leafPage (divided.sorted_outer arrival.sorted)
            (fun item member => arrival.inside item (kept item member))
            (ids.trans (page_id standsNow.good held)) prev next dirty
          refine ⟨rfl, ?_, _, .grown standsAfter, ?_, ?_, ?_⟩
          · refine (evolution.mono (Set.empty_subset _)).trans
              (stored.mono ?_)
            intro id member
            rw [Set.mem_singleton_iff.mp member]
            simp [arrival.total_eq]
          · rw [arrival.total_eq]
            rfl
          · rw [arrival.contents_eq]
            simpa using arrival.around.bindings_update inside
              divided.bindings_erase
          · simpa using
              LeavesErased.erased (arrival.located inside) divided

end CocoDB.BTree
