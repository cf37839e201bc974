import CocoDB.BTree.RegionOps

/-!
# Trees with entries of one size

When all keys have one length and all values have one length, a page that
overflows always splits into halves that fit, so `Insert` never fails for lack of
room in a page.
-/

namespace CocoDB.BTree

open Lib LawfulPager

/-! ## Splitting nodes of equal items -/

def Limits.sized (keyLength valueLength : Nat)
    (keySmall : keyLength ≤ maxKeySize)
    (valueSmall : valueLength ≤ maxValueSize) : Limits where
  key bytes := bytes.length = keyLength
  value bytes := bytes.length = valueLength
  key_le sized := sized.le.trans keySmall
  value_le sized := sized.le.trans valueSmall

theorem packedSize_sized {α : Type} {payload : α → Bytes} {size : Nat} :
    ∀ {items : List α}, (∀ item, item ∈ items →
      4 + (payload item).length = size) →
    packedSize (items.map payload) = items.length * size
  | [], _ => by
      rw [List.length_nil, Nat.zero_mul]
      rfl
  | item :: rest, sized => by
      have first := sized item List.mem_cons_self
      have others := packedSize_sized fun other member =>
        sized other (List.mem_cons_of_mem _ member)
      simp only [packedSize, List.map_cons, List.sum_cons] at others ⊢
      rw [others, List.length_cons, Nat.succ_mul]
      omega

theorem fits_sized {α : Type} {payload : α → Bytes} {size : Nat}
    {items others : List α}
    (sized : ∀ item, item ∈ items → 4 + (payload item).length = size)
    (sizedOthers : ∀ item, item ∈ others → 4 + (payload item).length = size)
    (fewer : others.length ≤ items.length)
    (fits : Fits (items.map payload)) : Fits (others.map payload) := by
  unfold Fits at fits ⊢
  rw [packedSize_sized sized] at fits
  rw [packedSize_sized sizedOthers]
  have bound := Nat.mul_le_mul_right size fewer
  omega

theorem spliceParent_found {items : List InternalItem}
    {rightmost child cRight : PageID} {kSep : Bytes}
    (found : child = rightmost ∨ ∃ item, item ∈ items ∧ item.child = child) :
    ∃ newItems newRightmost,
      spliceParent items rightmost child kSep cRight =
        some (newItems, newRightmost) ∧
      newItems.length = items.length + 1 ∧
      ∀ item, item ∈ newItems →
        item.key = kSep ∨ ∃ old, old ∈ items ∧ old.key = item.key := by
  unfold spliceParent
  by_cases last : child = rightmost
  · rw [if_pos last]
    refine ⟨_, _, rfl, by simp, ?_⟩
    intro item member
    rcases List.mem_append.mp member with inItems | new
    · exact .inr ⟨item, inItems, rfl⟩
    · rw [List.mem_singleton.mp new]
      exact .inl rfl
  · obtain ⟨item, member, same⟩ := found.resolve_left last
    rw [if_neg last]
    cases place : items.findIdx? (fun item => decide (item.child = child)) with
    | none =>
        have absent := List.findIdx?_eq_none_iff.mp place item member
        simp [same] at absent
    | some index =>
        have bound := (List.findIdx?_eq_some_iff_getElem.mp place).1
        simp only [List.getElem?_eq_getElem bound]
        refine ⟨_, _, rfl, ?_, ?_⟩
        · simp only [List.length_append, List.length_take, List.length_cons,
            List.length_nil, List.length_drop]
          omega
        · intro other inside
          simp only [List.mem_append, List.mem_cons, List.not_mem_nil,
            or_false] at inside
          rcases inside with (front | rfl | rfl) | back
          · exact .inr ⟨other, List.mem_of_mem_take front, rfl⟩
          · exact .inl rfl
          · exact .inr ⟨items[index], List.getElem_mem bound, rfl⟩
          · exact .inr ⟨other, List.mem_of_mem_drop back, rfl⟩

section Uniform

variable {limits : Limits} {land : Land} {view : PageID → Page}
  {root id : PageID} {height level keyLength : Nat} {range : Range Bytes}
  {parents : List PageID} {before after : Outline}

theorem Hole.listed_child {subtree : Family} {items : List InternalItem}
    {rightmost child : PageID} {inner : Range Bytes}
    (hole : Hole subtree range items rightmost inner child before after) :
    child = rightmost ∨ ∃ item, item ∈ items ∧ item.child = child := by
  cases hole with
  | inner start splits final =>
      exact .inr ⟨_, List.mem_append_right _ List.mem_cons_self, rfl⟩
  | last start => exact .inl rfl

theorem NodeOn.of_internal {page : Page} {items : List InternalItem}
    {rightmost : PageID} (node : NodeOn limits land level page)
    (internal : InternalPage page items rightmost) :
    (∀ item, item ∈ items → limits.key item.key ∧ item.child ∈ land.pages) ∧
      rightmost ∈ land.pages := by
  cases node with
  | leaf type_eq _ _ _ _ =>
      rw [internal.type_eq] at type_eq
      cases type_eq
  | internal node fine last =>
      have sameItems := node.internalItems_eq.symm.trans
        internal.internalItems_eq
      have sameLast := node.rightmost_eq.symm.trans internal.rightmost_eq
      subst sameItems sameLast
      exact ⟨fun item member => ⟨(fine item member).1, (fine item member).2.1⟩,
        last.1⟩

theorem NodeOn.of_leaf {page : Page} {items : List LeafItem}
    (node : NodeOn limits land level page) (leaf : LeafPage page items) :
    ∀ item, item ∈ items → limits.Fine item := by
  cases node with
  | leaf type_eq holds fine _ _ =>
      have same := holds.leafItems_eq.symm.trans leaf.leafItems_eq
      subst same
      exact fine
  | internal node _ _ =>
      have type_eq := node.type_eq
      rw [leaf.type_eq] at type_eq
      cases type_eq

theorem Around.inside
    (around : Around view root height parents level range id before after)
    (nodes : ∀ {id}, id ∈ land.pages →
      NodeOn limits land (land.level id) (view id))
    (start : root ∈ land.pages) :
    id ∈ land.pages ∧ ∀ parent, parent ∈ parents → parent ∈ land.pages := by
  induction around with
  | top => exact ⟨start, fun _ member => (nomatch member)⟩
  | down _ node _ hole inductionHypothesis =>
      obtain ⟨here, above⟩ := inductionHypothesis
      obtain ⟨children, last⟩ := (nodes here).of_internal node
      refine ⟨?_, fun parent member => ?_⟩
      · rcases hole.listed_child with rfl | ⟨item, member, rfl⟩
        · exact last
        · exact (children item member).2
      · rcases List.mem_cons.mp member with rfl | further
        · exact here
        · exact above parent further

theorem Around.parentsFit_sized
    (around : Around view root height parents level range id before after)
    (nodes : ∀ {id}, id ∈ land.pages →
      NodeOn limits land (land.level id) (view id))
    (start : root ∈ land.pages)
    (sized : ∀ {bytes}, limits.key bytes → bytes.length = keyLength) :
    ∀ kSep : Bytes, kSep.length = keyLength →
      ParentsFit view id kSep parents := by
  induction around with
  | top => exact fun _ _ => trivial
  | @down parents level range inner parent child rightmost items before after
      front back upper node short hole inductionHypothesis =>
      intro kSep kSized
      obtain ⟨fine, _⟩ :=
        (nodes (upper.inside nodes start).1).of_internal node
      obtain ⟨newItems, newRightmost, spliced, length, keys⟩ :=
        @spliceParent_found items rightmost child invalidPageID kSep
          hole.listed_child
      have oldSize : ∀ item, item ∈ items →
          4 + item.encode.length = 14 + keyLength := by
        intro item member
        rw [item.encode_length, sized (fine item member).1]
        omega
      have newKeys : ∀ item, item ∈ newItems →
          item.key.length = keyLength := by
        intro item member
        rcases keys item member with rfl | ⟨old, inside, same⟩
        · exact kSized
        · rw [← same]
          exact sized (fine old inside).1
      have newSize : ∀ item, item ∈ newItems →
          4 + item.encode.length = 14 + keyLength := by
        intro item member
        rw [item.encode_length, newKeys item member]
        omega
      have half : newItems.length / 2 < newItems.length := by omega
      refine (parentsFit_cons node spliced).mpr (.inr ⟨?_, ?_, ?_⟩)
      · refine fits_sized oldSize (fun item member =>
          newSize item (List.mem_of_mem_take member)) ?_ node.fits
        rw [List.length_take]
        omega
      · refine fits_sized oldSize (fun item member =>
          newSize item (List.mem_of_mem_drop member)) ?_ node.fits
        rw [List.length_drop]
        omega
      · apply inductionHypothesis
        rw [List.getElem?_eq_getElem half, Option.getD_some]
        exact newKeys _ (List.getElem_mem half)

end Uniform

/-! ## The pages of a tree -/

def IsNode (page : Page) : Prop :=
  page.header.type = .pageBTreeLeaf ∨ page.header.type = .pageBTreeInternal

theorem Front.isNode {subtree : Family} {view : PageID → Page}
    (nodes : ∀ range id outline, subtree range id outline →
      ∀ member, member ∈ outline.ids → IsNode (view member)) :
    ∀ {range rest : Range Bytes} {items : List InternalItem}
      {outline : Outline}, Front subtree range items rest outline →
      ∀ member, member ∈ outline.ids → IsNode (view member)
  | _, _, [], _, ⟨_, shape⟩, member, inside => by
      subst shape
      exact absurd inside (Multiset.notMem_zero member)
  | _, _, _ :: _, _, ⟨first, others, sub, _, front, shape⟩, member,
    inside => by
      subst shape
      rw [Outline.add_ids, Multiset.mem_add] at inside
      rcases inside with here | later
      · exact nodes _ _ _ sub member here
      · exact front.isNode nodes member later

theorem Subtree.isNode {view : PageID → Page} :
    ∀ {level range id outline}, Subtree view level range id outline →
      ∀ member, member ∈ outline.ids → IsNode (view member)
  | 0, _, id, _, ⟨items, leaf, _, _, shape⟩, member, inside => by
      subst shape
      rw [Outline.leaf_ids, Multiset.mem_singleton] at inside
      subst inside
      exact .inl leaf.type_eq
  | level + 1, _, id, _, ⟨items, rightmost, below, node, _, children, shape⟩,
    member, inside => by
      subst shape
      rw [Outline.add_ids, Multiset.mem_add, Outline.page_ids,
        Multiset.mem_singleton] at inside
      rcases inside with rfl | lower
      · exact .inr node.type_eq
      · obtain ⟨rest, front, last, listed, final, rfl⟩ := children
        rw [Outline.add_ids, Multiset.mem_add] at lower
        rcases lower with early | late
        · have nodes : ∀ range id outline,
              Subtree view level range id outline →
              ∀ member, member ∈ outline.ids → IsNode (view member) :=
            fun _ _ _ sub => sub.isNode
          exact listed.isNode nodes member early
        · exact final.isNode member late

section Insertion

variable {σ : Type} [Pager σ] [LawfulPager σ] {tree : Tree σ} {height : Nat}
  {outline : Outline} {limits : Limits} {land : Land} {key value : Bytes}
  {keyLength valueLength : Nat}

theorem Represents.splitsFit_sized
    (represents : Represents tree height outline)
    (region : Region limits land tree.pager)
    (reaches : land.Reaches tree.root)
    (sizedKey : ∀ {bytes}, limits.key bytes → bytes.length = keyLength)
    (sizedValue : ∀ {bytes}, limits.value bytes → bytes.length = valueLength)
    (fine : limits.Fine ⟨key, value⟩) : SplitsFit key value tree := by
  cases represents with
  | empty missing _ => exact .inl missing
  | grown stands =>
      obtain ⟨leafID, path, range, items, before, after, final, walk,
        evolves, _, arrival, inside⟩ := stands.descend_key key
      have start : tree.root ∈ land.pages :=
        reaches.resolve_left stands.root_ne
      have nodes : ∀ {id}, id ∈ land.pages →
          NodeOn limits land (land.level id) (Pager.page final id) :=
        fun member =>
          (region.frame evolves fun _ _ => Set.notMem_empty _).node member
      have leafFine := (nodes (arrival.around.inside nodes start).1).of_leaf
        arrival.leaf
      obtain ⟨front, at', back, divided, put⟩ :=
        (arrival.leaf.binarySearch_spec arrival.sorted key).putItem_eq
          arrival.sorted value
      have size : ∀ item : LeafItem, limits.Fine item →
          4 + item.encode.length = 8 + keyLength + valueLength := by
        intro item itemFine
        rw [item.encode_length, sizedKey itemFine.1, sizedValue itemFine.2]
        omega
      have oldSize : ∀ item, item ∈ items →
          4 + item.encode.length = 8 + keyLength + valueLength :=
        fun item member => size item (leafFine item member)
      have newFine : ∀ item, item ∈ front ++ ⟨key, value⟩ :: back →
          limits.Fine item := by
        intro item member
        rw [divided.items_eq] at leafFine
        rcases List.mem_append.mp member with low | rest
        · exact leafFine item (by simp [low])
        · rcases List.mem_cons.mp rest with rfl | high
          · exact fine
          · exact leafFine item (by simp [high])
      have count : (front ++ (⟨key, value⟩ : LeafItem) :: back).length ≤
          items.length + 1 := by
        rw [divided.items_eq]
        simp only [List.length_append, List.length_cons]
        omega
      unfold SplitsFit itemsAfterPut
      rw [walk]
      simp only [stands.root_ne, false_or, arrival.leaf.leafItems_eq, put]
      generalize changedEq : front ++ (⟨key, value⟩ : LeafItem) :: back =
        changed at newFine count ⊢
      have newSize : ∀ item, item ∈ changed →
          4 + item.encode.length = 8 + keyLength + valueLength :=
        fun item member => size item (newFine item member)
      by_cases nothing : items.length = 0
      · left
        have bounds := fine.admissible
        have keySized : key.length = keyLength := sizedKey fine.1
        have valueSized : value.length = valueLength := sizedValue fine.2
        simp only [LeafItem.Admissible, maxKeySize, maxValueSize] at bounds
        unfold LeafFits Fits
        rw [packedSize_sized newSize]
        have few : changed.length * (8 + keyLength + valueLength) ≤
            1 * (8 + keyLength + valueLength) :=
          Nat.mul_le_mul_right _ (by omega)
        omega
      · right
        have long : 0 < changed.length := by
          rw [← changedEq, List.length_append, List.length_cons]
          omega
        have half : changed.length / 2 < changed.length := by omega
        refine ⟨?_, ?_, arrival.around.parentsFit_sized nodes start sizedKey _
          ?_⟩
        · refine fits_sized oldSize (fun item member =>
            newSize item (List.mem_of_mem_take member)) ?_ arrival.leaf.fits
          rw [List.length_take]
          omega
        · refine fits_sized oldSize (fun item member =>
            newSize item (List.mem_of_mem_drop member)) ?_ arrival.leaf.fits
          rw [List.length_drop]
          omega
        · unfold splitKey
          rw [List.drop_eq_getElem_cons half, List.head?_cons,
            Option.map_some, Option.getD_some]
          exact sizedKey (newFine _ (List.getElem_mem half)).1

theorem Represents.isNode (represents : Represents tree height outline)
    {id : PageID} (inside : id ∈ outline.ids) :
    Allocated tree.pager id ∧ IsNode (Pager.page tree.pager id) := by
  cases represents with
  | empty _ _ => exact absurd inside (Multiset.notMem_zero id)
  | grown stands =>
      exact ⟨stands.allocated inside, stands.subtree.isNode id inside⟩

theorem Represents.height_le (represents : Represents tree height outline) :
    height ≤ Pager.pageCount tree.pager := by
  cases represents with
  | empty _ _ => exact Nat.zero_le _
  | grown stands => exact stands.height_lt.le

/-! ## Properties of the pager -/

variable {property : σ → Prop}

theorem Represents.kept (represents : Represents tree height outline)
    (kept : Kept property) (holds : property tree.pager) :
    @Represents σ _ kept.contract tree height outline := by
  cases represents with
  | empty missing good =>
      let _ : LawfulPager σ := kept.contract
      exact .empty missing ⟨good, holds⟩
  | grown stands =>
      obtain ⟨good, subtree, nodup, allocated, linked⟩ := stands
      let _ : LawfulPager σ := kept.contract
      exact .grown ⟨⟨good, holds⟩, subtree, nodup, allocated, linked⟩

theorem Represents.search_kept (represents : Represents tree height outline)
    (kept : Kept property) (holds : property tree.pager) (key : Bytes) :
    property (search key tree).2.pager := by
  have keeps := represents.kept kept holds
  let _ : LawfulPager σ := kept.contract
  exact (keeps.search_spec key).2.2.good.2

theorem Represents.insert_kept (represents : Represents tree height outline)
    (kept : Kept property) (holds : property tree.pager)
    (admissible : LeafItem.Admissible ⟨key, value⟩)
    (enough : height + 2 ≤ room tree.pager)
    (done : (insert key value tree).1 = .ok ()) :
    property (insert key value tree).2.pager := by
  have keeps := represents.kept kept holds
  let _ : LawfulPager σ := kept.contract
  obtain ⟨newHeight, changed, result⟩ :=
    (keeps.insert_spec admissible enough).2 done
  exact result.evolves.good.2

end Insertion

end CocoDB.BTree
