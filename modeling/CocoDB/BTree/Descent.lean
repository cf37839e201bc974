import CocoDB.BTree.Invariant

/-!
# Walking down the tree

A walk that follows children of nodes ends at a leaf, changes no page, and
leaves behind the path it took.  Searching is such a walk followed by a binary
search.
-/

namespace CocoDB.BTree

open Lib LawfulPager

variable {σ : Type} [Pager σ]

theorem walkDown_eq_descend (route : Page → PageID) :
    ∀ (fuel : Nat) (id : PageID) (parents : List PageID) (state : σ),
      walkDown route fuel id state =
        ((descend route fuel id parents state).1.map Prod.fst,
          (descend route fuel id parents state).2)
  | 0, _, _, _ => rfl
  | fuel + 1, id, parents, state => by
      unfold walkDown descend
      rcases Pager.get id state with ⟨outcome, after⟩
      cases outcome with
      | error error => rfl
      | ok _ =>
          simp only
          split
          · rfl
          · exact walkDown_eq_descend route fuel _ _ _

structure Arrival (start : σ) (root : PageID) (height : Nat)
    (total : Outline) (leafID : PageID) (path : List PageID)
    (range : Range Bytes) (items : List LeafItem)
    (before after : Outline) : Prop where
  around : Around (Pager.page start) root height path 0 range leafID
    before after
  leaf : LeafPage (Pager.page start leafID) items
  sorted : SortedItems items
  inside : ∀ item, item ∈ items → item.Admissible ∧ range.Contains item.key
  total_eq : total = before + Outline.leaf leafID items + after

/-- The route taken at a node leads to one of its children and keeps
`Kept`. -/
def RoutesWithin (start : σ) (route : Page → PageID)
    (Kept : Range Bytes → Outline → Outline → Prop) : Prop :=
  ∀ level range id items rightmost below before after,
    InternalPage (Pager.page start id) items rightmost →
    Children (Subtree (Pager.page start) level) range items rightmost
      below →
    Kept range before after →
    ∃ inner front filling back,
      Hole (Subtree (Pager.page start) level) range items rightmost inner
        (route (Pager.page start id)) front back ∧
      Subtree (Pager.page start) level inner (route (Pager.page start id))
        filling ∧
      below = front + filling + back ∧
      Kept inner (before + Outline.page id + front) (back + after)

theorem routesWithin_key (start : σ) (key : Bytes) :
    RoutesWithin start (routeChild · key)
      fun range _ _ => range.Contains key := by
  intro level range id items rightmost below before after node children
    inside
  obtain ⟨inner, front, filling, back, hole, child, within, same⟩ :=
    children.route inside (node.routeChild_spec children.sorted key)
  exact ⟨inner, front, filling, back, hole, child, same, within⟩

namespace Arrival

variable {start : σ} {root leafID : PageID} {height : Nat}
  {total before after : Outline} {path : List PageID}
  {range : Range Bytes} {items : List LeafItem}

theorem contents_eq
    (arrival : Arrival start root height total leafID path range items
      before after) :
    total.contents = before.contents ++ items ++ after.contents := by
  rw [arrival.total_eq]
  simp

theorem apart
    (arrival : Arrival start root height total leafID path range items
      before after) (nodup : total.ids.Nodup) :
    leafID ∉ before.ids + after.ids := by
  rw [arrival.total_eq] at nodup
  simp only [Outline.add_ids, Outline.leaf_ids] at nodup
  rw [add_right_comm, Multiset.nodup_add] at nodup
  exact Multiset.disjoint_right.mp nodup.2.2 (Multiset.mem_singleton_self _)

theorem bindings_eq
    (arrival : Arrival start root height total leafID path range items
      before after)
    {key : Bytes} (inside : range.Contains key) :
    bindings total.contents key = bindings items key := by
  obtain ⟨below, above⟩ := arrival.around.outside inside
  rw [arrival.contents_eq, bindings_append, bindings_append,
    bindings_absent fun item member => (below item member).ne,
    bindings_absent fun item member => (above item member).ne']
  simp

end Arrival

theorem LeafPage.lookup_eq {page : Page} {items : List LeafItem}
    (leaf : LeafPage page items) (sorted : SortedItems items)
    (key : Bytes) :
    (match binarySearch page key with
      | (_, false) => none
      | (index, true) => (itemAt page index).map LeafItem.value) =
      bindings items key := by
  have result := leaf.binarySearch_spec sorted key
  rcases place : binarySearch page key with ⟨index, found⟩
  rw [place] at result
  rw [result.bindings_eq sorted]
  cases found with
  | false => rfl
  | true =>
      obtain ⟨item, stored, _⟩ := result
      simp only [leaf.itemAt_eq stored, stored]
      rfl

variable [LawfulPager σ]

theorem descend_spec {start : σ} {root : PageID} {height : Nat}
    {route : Page → PageID} {Kept : Range Bytes → Outline → Outline → Prop}
    (routes : RoutesWithin start route Kept) {total : Outline}
    (allocated : ∀ id, id ∈ total.ids → Allocated start id) :
    ∀ (level fuel : Nat) {range : Range Bytes} {id : PageID}
      {parents : List PageID} {outline before after : Outline} {state : σ},
      level < fuel → Evolves start state ∅ 0 →
      Around (Pager.page start) root height parents level range id
        before after →
      Subtree (Pager.page start) level range id outline →
      total = before + outline + after → Kept range before after →
      ∃ leafID path leafRange items left right final,
        descend route fuel id parents state = (.ok (leafID, path), final) ∧
        Evolves start final ∅ 0 ∧
        Arrival start root height total leafID path leafRange items
          left right ∧
        Kept leafRange left right := by
  intro level
  induction level with
  | zero =>
      intro fuel range id parents outline before after state enough
        evolution around subtree whole kept
      obtain ⟨fuel, rfl⟩ : ∃ less, fuel = less + 1 :=
        ⟨fuel - 1, by omega⟩
      obtain ⟨items, leaf, sorted, inside, rfl⟩ := subtree
      have held : Allocated start id := allocated id (by simp [whole])
      have heldNow := evolution.keeps held
      have result := (get_ok evolution.good heldNow).1
      have read := evolution.trans (evolves_get evolution.good heldNow)
      have page : Pager.page (Pager.get id state).2 id =
          Pager.page start id := read.frame held (by simp)
      refine ⟨id, parents, range, items, before, after,
        (Pager.get id state).2, ?_, read,
        ⟨around, leaf, sorted, inside, whole⟩, kept⟩
      unfold descend
      rcases pair : Pager.get id state with ⟨outcome, next⟩
      rw [pair] at result page
      simp only at result page
      subst result
      simp only
      rw [page, if_pos leaf.type_eq]
  | succ level inductionHypothesis =>
      intro fuel range id parents outline before after state enough
        evolution around subtree whole kept
      obtain ⟨fuel, rfl⟩ : ∃ less, fuel = less + 1 :=
        ⟨fuel - 1, by omega⟩
      obtain ⟨items, rightmost, below, node, short, children, rfl⟩ := subtree
      have held : Allocated start id := allocated id (by simp [whole])
      have heldNow := evolution.keeps held
      have result := (get_ok evolution.good heldNow).1
      have read := evolution.trans (evolves_get evolution.good heldNow)
      have page : Pager.page (Pager.get id state).2 id =
          Pager.page start id := read.frame held (by simp)
      obtain ⟨inner, front, filling, back, hole, child, same, keptInner⟩ :=
        routes _ _ _ _ _ _ _ _ node children kept
      have totalInner : total =
          before + Outline.page id + front + filling + (back + after) := by
        rw [whole, same]
        simp only [add_assoc]
      obtain ⟨leafID, path, leafRange, leafItems, left, right, final, walk,
          rest, arrival, keptLeaf⟩ :=
        inductionHypothesis fuel (by omega) read
          (Around.down around node short hole) child totalInner keptInner
      refine ⟨leafID, path, leafRange, leafItems, left, right, final, ?_,
        rest, arrival, keptLeaf⟩
      unfold descend
      rcases pair : Pager.get id state with ⟨outcome, next⟩
      rw [pair] at result page walk
      simp only at result page walk
      subst result
      simp only
      rw [page, if_neg (by rw [node.type_eq]; decide)]
      exact walk

section Walks

variable {tree : Tree σ} {height : Nat} {outline : Outline}

theorem Arrival.frame {start state : σ} {root leafID : PageID}
    {height : Nat} {total before after : Outline} {path : List PageID}
    {range : Range Bytes} {items : List LeafItem} {cost : Nat}
    (arrival : Arrival start root height total leafID path range items
      before after)
    (allocated : ∀ id, id ∈ total.ids → Allocated start id)
    (evolution : Evolves start state ∅ cost) :
    Arrival state root height total leafID path range items before after := by
  have same : ∀ id, id ∈ total.ids →
      Pager.page state id = Pager.page start id := fun id member =>
    evolution.frame (allocated id member) (by simp)
  have inBefore : ∀ id, id ∈ before.ids + after.ids → id ∈ total.ids := by
    intro id member
    simp only [arrival.total_eq, Outline.add_ids, Multiset.mem_add]
      at member ⊢
    exact member.imp_left .inl
  refine ⟨?_, ?_, arrival.sorted, arrival.inside, arrival.total_eq⟩
  · exact arrival.around.congr fun id member =>
      SameNode.of_eq (same id (inBefore id member))
  · rw [same leafID (by simp [arrival.total_eq])]
    exact arrival.leaf

theorem Stands.descend_spec (stands : Stands tree height outline)
    {route : Page → PageID} {Kept : Range Bytes → Outline → Outline → Prop}
    (routes : RoutesWithin tree.pager route Kept)
    (kept : Kept Range.whole 0 0) :
    ∃ leafID path range items before after final,
      descend route (Pager.pageCount tree.pager) tree.root [] tree.pager =
        (.ok (leafID, path), final) ∧
      Evolves tree.pager final ∅ 0 ∧
      Stands { tree with pager := final } height outline ∧
      Arrival final tree.root height outline leafID path range items
        before after ∧
      Kept range before after := by
  obtain ⟨leafID, path, range, items, before, after, final, walk, evolution,
      arrival, keptLeaf⟩ :=
    BTree.descend_spec routes (fun _ member => stands.allocated member)
      height (Pager.pageCount tree.pager) stands.height_lt
      (Evolves.refl stands.good) Around.top stands.subtree
      (by rw [zero_add, add_zero]) kept
  exact ⟨leafID, path, range, items, before, after, final, walk, evolution,
    stands.frame evolution (by simp),
    arrival.frame (fun _ member => stands.allocated member) evolution,
    keptLeaf⟩

theorem Stands.descend_key (stands : Stands tree height outline)
    (key : Bytes) :
    ∃ leafID path range items before after final,
      descend (routeChild · key) (Pager.pageCount tree.pager) tree.root []
          tree.pager = (.ok (leafID, path), final) ∧
      Evolves tree.pager final ∅ 0 ∧
      Stands { tree with pager := final } height outline ∧
      Arrival final tree.root height outline leafID path range items
        before after ∧
      range.Contains key :=
  stands.descend_spec (routesWithin_key tree.pager key)
    (Range.whole_contains key)

theorem Stands.findLeaf_spec (stands : Stands tree height outline)
    (key : Bytes) :
    ∃ leafID path range items before after final,
      findLeaf key tree = (.ok leafID, final) ∧
      Evolves tree.pager final ∅ 0 ∧
      Stands { tree with pager := final } height outline ∧
      Arrival final tree.root height outline leafID path range items
        before after ∧
      range.Contains key := by
  obtain ⟨leafID, path, range, items, before, after, final, walk, rest⟩ :=
    stands.descend_key key
  refine ⟨leafID, path, range, items, before, after, final, ?_, rest⟩
  unfold findLeaf
  rw [walkDown_eq_descend _ _ _ [], walk]
  rfl

end Walks

/-! ## Searching -/

theorem Arrival.leaf_allocated {start : σ} {root leafID : PageID}
    {height : Nat} {total before after : Outline} {path : List PageID}
    {range : Range Bytes} {items : List LeafItem}
    (arrival : Arrival start root height total leafID path range items
      before after)
    (allocated : ∀ {id}, id ∈ total.ids → Allocated start id) :
    Allocated start leafID :=
  allocated (by simp [arrival.total_eq])

theorem Represents.search_spec {tree : Tree σ} {height : Nat}
    {outline : Outline} (represents : Represents tree height outline)
    (key : Bytes) :
    (search key tree).1 = .ok (bindings outline.contents key) ∧
      (search key tree).2.root = tree.root ∧
      Evolves tree.pager (search key tree).2.pager ∅ 0 := by
  cases represents with
  | empty missing good =>
      unfold search
      rw [if_pos missing]
      exact ⟨rfl, rfl, Evolves.refl good⟩
  | grown stands =>
      obtain ⟨leafID, path, range, items, before, after, final, walk,
          evolution, _, arrival, inside⟩ := stands.findLeaf_spec key
      have lookup := arrival.leaf.lookup_eq arrival.sorted key
      unfold search
      rw [if_neg stands.root_ne, walk]
      simp only
      rw [arrival.bindings_eq inside, ← lookup]
      rcases binarySearch (Pager.page final leafID) key with
        ⟨index, found⟩
      cases found <;> exact ⟨rfl, rfl, evolution⟩

end CocoDB.BTree
