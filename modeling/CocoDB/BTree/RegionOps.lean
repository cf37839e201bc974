import CocoDB.BTree.Region
import CocoDB.BTree.Run

/-!
# Operations within a region

A call that starts at a page of a region reads and rewrites pages of the region
only, whatever the region looks like as a search tree, and whether it succeeds or
not.
-/

namespace CocoDB.BTree

open Lib LawfulPager

/-! ## Descents -/

/-- The parents of a descent, nearest first, lie one level above the other. -/
def Rising (land : Land) : Nat → List PageID → Prop
  | _, [] => True
  | level, parent :: rest =>
      parent ∈ land.pages ∧ land.level parent = level + 1 ∧
        Rising land (level + 1) rest

theorem Rising.mono {land more : Land} (covers : more.Covers land) :
    ∀ {level : Nat} {path : List PageID}, Rising land level path →
      Rising more level path
  | _, [], _ => trivial
  | _, _ :: _, ⟨inside, level, rest⟩ =>
      ⟨(covers _ inside).1, (covers _ inside).2.trans level,
        Rising.mono covers rest⟩

def RoutesToChild (route : Page → PageID) : Prop :=
  ∀ {page : Page} {items : List InternalItem} {rightmost : PageID},
    InternalPage page items rightmost →
    route page = rightmost ∨
      ∃ item, item ∈ items ∧ route page = item.child

theorem childAndKeyAt_cases {page : Page} {items : List InternalItem}
    {rightmost : PageID} (node : InternalPage page items rightmost)
    {index : Nat} (below : index < page.header.slotCount) :
    ∃ item, item ∈ items ∧ childAndKeyAt page index = some item := by
  rw [node.slotCount_eq] at below
  exact ⟨items[index], List.getElem_mem below,
    node.childAndKeyAt_eq (List.getElem?_eq_getElem below)⟩

theorem routesToChild_key (key : Bytes) :
    RoutesToChild (routeChild · key) := by
  intro page items rightmost node
  unfold routeChild
  simp only [node.rightmost_eq]
  split
  · exact .inl rfl
  · split
    · exact .inl rfl
    · rename_i low _
      split
      · rename_i below
        obtain ⟨item, member, found⟩ := childAndKeyAt_cases node below
        rw [found]
        exact .inr ⟨item, member, rfl⟩
      · exact .inl rfl

def landing (view : PageID → Page) (route : Page → PageID) :
    Nat → PageID → PageID
  | 0, id => id
  | level + 1, id => landing view route level (route (view id))

section Descents

variable {σ : Type} [Pager σ] [LawfulPager σ] {limits : Limits}
  {land more : Land} {start : σ}

namespace Region

theorem descend_spec (region : Region limits land start)
    {route : Page → PageID} (routes : RoutesToChild route) :
    ∀ (level fuel : Nat) {id : PageID} {parents : List PageID} {state : σ},
      level < fuel → Evolves start state ∅ 0 → id ∈ land.pages →
      land.level id = level → Rising land level parents →
      ∃ leafID path final,
        descend route fuel id parents state = (.ok (leafID, path), final) ∧
        Evolves start final ∅ 0 ∧ leafID ∈ land.pages ∧
        land.level leafID = 0 ∧ Rising land 0 path ∧
        path.length = level + parents.length ∧
        leafID = landing (Pager.page start) route level id
  | _, 0, _, _, _, low, _, _, _, _ => absurd low (Nat.not_lt_zero _)
  | level, fuel + 1, id, parents, state, low, evolution, inside, same,
    rising => by
      have held := evolution.keeps (region.allocated inside)
      have got := (get_ok evolution.good held).1
      have reached := evolution.trans (evolves_get evolution.good held)
      rcases result : Pager.get id state with ⟨outcome, next⟩
      rw [result] at got reached
      simp only at got reached
      subst got
      have page : Pager.page next id = Pager.page start id :=
        reached.frame (region.allocated inside) (Set.notMem_empty id)
      have node := region.node inside
      rw [← page] at node
      unfold descend
      rw [result]
      simp only
      cases level with
      | zero =>
          rw [same] at node
          cases node with
          | leaf type_eq _ _ _ _ =>
              rw [if_pos type_eq]
              exact ⟨id, parents, next, rfl, reached, inside, same, rising,
                (Nat.zero_add _).symm, rfl⟩
      | succ level =>
          rw [same] at node
          cases node with
          | internal node fine last =>
              rw [if_neg (by rw [node.type_eq]; decide)]
              obtain ⟨child, childLevel⟩ :
                  route (Pager.page next id) ∈ land.pages ∧
                    land.level (route (Pager.page next id)) = level := by
                rcases routes node with same | ⟨item, member, same⟩
                · rw [same]
                  exact last
                · rw [same]
                  exact (fine item member).2
              obtain ⟨leafID, path, final, walk, rest, leafInside, leafLevel,
                pathRising, length, landed⟩ := region.descend_spec routes level fuel
                  (Nat.lt_of_succ_lt_succ low) reached child childLevel
                  (show Rising land level (id :: parents) from
                    ⟨inside, same, rising⟩)
              refine ⟨leafID, path, final, walk, rest, leafInside, leafLevel,
                pathRising, ?_, ?_⟩
              · rw [length, List.length_cons]
                omega
              · rw [landed, landing, page]

theorem descend_root (region : Region limits land start)
    {route : Page → PageID} (routes : RoutesToChild route) {root : PageID}
    (inside : root ∈ land.pages) :
    ∃ leafID path final,
      descend route (Pager.pageCount start) root [] start =
        (.ok (leafID, path), final) ∧
      Evolves start final ∅ 0 ∧ leafID ∈ land.pages ∧
      land.level leafID = 0 ∧ Rising land 0 path ∧
      path.length = land.level root ∧
      leafID = landing (Pager.page start) route (land.level root) root := by
  obtain ⟨leafID, path, final, walk, evolution, leafInside, leafLevel, rising,
    length, landed⟩ := region.descend_spec routes (land.level root)
      (Pager.pageCount start) (region.level_lt inside)
      (Evolves.refl region.good) inside rfl
      (show Rising land _ [] from trivial)
  exact ⟨leafID, path, final, walk, evolution, leafInside, leafLevel, rising,
    length, landed⟩

end Region

/-! ## Rewriting nodes -/

theorem SetLeafSpec.dirty {page : Page} {items : List LeafItem}
    (spec : SetLeafSpec page items)
    (done : (BTree.setLeafItems page items).1 = .ok ()) :
    (BTree.setLeafItems page items).2.dirty = true := by
  by_cases fits : LeafFits items
  · exact (spec.done fits).2.1
  · rw [spec.failed fits] at done
    cases done

theorem SetInternalSpec.dirty {page : Page} {items : List InternalItem}
    {rightmost : PageID} (spec : SetInternalSpec page items rightmost)
    (done : (setInternalItems page items rightmost).1 = .ok ()) :
    (setInternalItems page items rightmost).2.dirty = true := by
  by_cases fits : InternalFits items
  · exact (spec.done fits).2.1
  · rw [spec.failed fits] at done
    cases done

theorem mem_putItem {items : List LeafItem} {place : Nat × Bool}
    {key value : Bytes} {item : LeafItem}
    (member : item ∈ putItem items place key value) :
    item ∈ items ∨ item = ⟨key, value⟩ ∨
      ∃ old, old ∈ items ∧ item = { old with value := value } := by
  obtain ⟨index, found⟩ := place
  cases found with
  | false =>
      simp only [putItem, List.mem_append, List.mem_singleton] at member
      rcases member with (front | new) | back
      · exact .inl (List.mem_of_mem_take front)
      · exact .inr (.inl new)
      · exact .inl (List.mem_of_mem_drop back)
  | true =>
      simp only [putItem] at member
      obtain ⟨position, found⟩ := List.mem_iff_getElem?.mp member
      rw [List.getElem?_modify] at found
      cases old : items[position]? with
      | none =>
          rw [old] at found
          cases found
      | some before =>
          rw [old, Option.map_eq_map, Option.map_some] at found
          have inside := List.mem_of_getElem? old
          by_cases here : index = position
          · rw [if_pos here] at found
            exact .inr (.inr ⟨before, inside, (Option.some.inj found).symm⟩)
          · rw [if_neg here] at found
            exact .inl ((Option.some.inj found) ▸ inside)

theorem fine_putItem {items : List LeafItem} {key value : Bytes}
    (fine : ∀ item, item ∈ items → limits.Fine item)
    (keyFine : limits.key key) (valueFine : limits.value value)
    (place : Nat × Bool) (item : LeafItem)
    (member : item ∈ putItem items place key value) : limits.Fine item := by
  rcases mem_putItem member with old | rfl | ⟨old, inside, rfl⟩
  · exact fine item old
  · exact ⟨keyFine, valueFine⟩
  · exact ⟨(fine old inside).1, valueFine⟩

theorem NodeOn.setLeafItems {page : Page} {items : List LeafItem}
    (node : NodeOn limits land 0 page)
    (fine : ∀ item, item ∈ items → limits.Fine item) :
    NodeOn limits land 0 (setLeafItems page items).2 := by
  have admissible : ∀ item, item ∈ items → item.Admissible :=
    fun item member => (fine item member).admissible
  have spec := setLeafItems_spec page items admissible
  obtain ⟨front, start, leaf⟩ := setLeafItems_prefix page admissible
  cases node with
  | leaf _ _ _ prev next =>
      refine .leaf leaf.type_eq (.inr leaf) ?_ ?_ ?_
      · exact fun item member => fine item (start.subset member)
      · rw [spec.prev_eq]
        exact prev
      · rw [spec.next_eq]
        exact next

def ItemOn (limits : Limits) (land : Land) (level : Nat)
    (item : InternalItem) : Prop :=
  limits.key item.key ∧ item.child ∈ land.pages ∧
    land.level item.child = level

theorem nodeOn_setInternalItems (page : Page) {items : List InternalItem}
    {rightmost : PageID} {level : Nat}
    (fine : ∀ item, item ∈ items → ItemOn limits land level item)
    (last : rightmost ∈ land.pages ∧ land.level rightmost = level) :
    NodeOn limits land (level + 1)
      (setInternalItems page items rightmost).2 := by
  obtain ⟨front, start, node⟩ := setInternalItems_prefix page rightmost
    fun item member => limits.key_le (fine item member).1
  exact .internal node (fun item member => fine item (start.subset member))
    last

theorem NodeOn.setNextLeaf {page : Page} {id : PageID}
    (node : NodeOn limits land 0 page) (links : land.Links id) :
    NodeOn limits land 0 (setNextLeaf page id) := by
  cases node with
  | leaf type_eq holds fine prev next =>
      refine .leaf type_eq ?_ fine ?_ ?_
      · exact holds.imp (fun none => none)
          fun leaf => leaf.writePageID id (by decide)
      · rw [prevLeaf_setNextLeaf]
        exact prev
      · rw [nextLeaf_setNextLeaf]
        exact links

theorem NodeOn.setPrevLeaf {page : Page} {id : PageID}
    (node : NodeOn limits land 0 page) (links : land.Links id) :
    NodeOn limits land 0 (setPrevLeaf page id) := by
  cases node with
  | leaf type_eq holds fine prev next =>
      refine .leaf type_eq ?_ fine ?_ ?_
      · exact holds.imp (fun none => none)
          fun leaf => leaf.writePageID id (by decide)
      · rw [prevLeaf_setPrevLeaf]
        exact links
      · rw [nextLeaf_setPrevLeaf]
        exact next

namespace Region

variable {state after : σ} {leafID rightID : PageID} {items : List LeafItem}

theorem spread_store_dirty (region : Region limits land state) {id : PageID}
    (inside : id ∈ land.pages) {page : Page} (same : page.header.id = id)
    (dirty : page.dirty = true)
    (node : NodeOn limits land (land.level id) page) :
    Spreads limits land state land
      (Pager.markDirty id (Pager.setPage id page state)) 0 := by
  obtain ⟨evolves, stored⟩ := evolves_store region.good
    (region.allocated inside) same dirty
  exact region.spread_store inside evolves (by rw [stored]; exact node)

theorem spread_setPage (region : Region limits land state) {id : PageID}
    (inside : id ∈ land.pages) {page : Page} (same : page.header.id = id)
    (node : NodeOn limits land (land.level id) page) :
    Spreads limits land state land (Pager.setPage id page state) 0 := by
  have held := region.allocated inside
  refine region.spread_store inside (evolves_setPage region.good held same) ?_
  rw [setPage_same region.good held same]
  exact node

theorem spread_markDirty (region : Region limits land state) {id : PageID}
    (inside : id ∈ land.pages)
    (dirty : (Pager.page state id).dirty = true) :
    Spreads limits land state land (Pager.markDirty id state) 0 :=
  region.quiet (evolves_markDirty region.good (region.allocated inside) dirty)

theorem spread_markBoth (region : Region limits land state)
    {leftID rightID : PageID} (leftInside : leftID ∈ land.pages)
    (rightInside : rightID ∈ land.pages)
    (leftDirty : (Pager.page state leftID).dirty = true)
    (rightDirty : (Pager.page state rightID).dirty = true) :
    Spreads limits land state land
      (Pager.markDirty rightID (Pager.markDirty leftID state)) 0 := by
  have first := region.spread_markDirty leftInside leftDirty
  refine first.trans (first.region.spread_markDirty rightInside ?_)
  rw [markDirty_page region.good (region.allocated leftInside)
    (region.allocated rightInside) leftDirty]
  exact rightDirty

theorem node_leaf (region : Region limits land state)
    (inside : leafID ∈ land.pages) (bottom : land.level leafID = 0) :
    NodeOn limits land 0 (Pager.page state leafID) :=
  bottom ▸ region.node inside

theorem spread_relinkNext (region : Region limits land state)
    {oldNextID : PageID} (old : land.Links oldNextID)
    (right : land.Links rightID) :
    Spreads limits land state land (relinkNext oldNextID rightID state) 0 := by
  unfold relinkNext
  split
  · exact Spreads.refl region
  · rename_i valid
    obtain ⟨inside, bottom⟩ := old.resolve_left valid
    obtain ⟨got, moved⟩ := region.spread_get inside
    rcases result : Pager.get oldNextID state with ⟨outcome, next⟩
    rw [result] at got moved
    simp only at got moved ⊢
    subst got
    simp only
    have spreads := region.quiet moved
    have there := spreads.region
    refine spreads.trans (there.spread_store_dirty inside ?_ rfl ?_)
    · exact page_id there.good (there.allocated inside)
    · rw [bottom]
      exact (there.node_leaf inside bottom).setPrevLeaf right

theorem spread_linkRight (region : Region limits land state)
    (inside : leafID ∈ land.pages) (bottom : land.level leafID = 0)
    (new : ¬ Allocated state rightID) (held : Allocated after rightID)
    (evolves : Evolves state after ∅ 1)
    (blankPage : Pager.page after rightID =
      Page.newPage rightID .pageBTreeLeaf) :
    Spreads limits land state (land.adopt rightID 0)
      (linkRight leafID rightID after) 1 := by
  have covers := @Land.adopt_covers land rightID 0 (region.not_mem new)
  have leafPage : Pager.page after leafID = Pager.page state leafID :=
    evolves.frame (region.allocated inside) (Set.notMem_empty _)
  have leafSame : (Pager.page after leafID).header.id = leafID := by
    rw [leafPage]
    exact page_id region.good (region.allocated inside)
  have node := region.node_leaf inside bottom
  rw [← leafPage] at node
  have leafLinks : (land.adopt rightID 0).Links leafID :=
    .inr ⟨(covers leafID inside).1, (covers leafID inside).2.trans bottom⟩
  have rightLinks : (land.adopt rightID 0).Links rightID :=
    .inr ⟨.inl rfl, land.adopt_level rightID 0⟩
  have next : (land.adopt rightID 0).Links
      (nextLeaf (Pager.page after leafID)) := by
    cases node with
    | leaf _ _ _ _ next => exact covers.links next
  unfold linkRight
  simp only [blankPage, leafSame]
  generalize nextLeaf (Pager.page after leafID) = oldNext at next ⊢
  have rightSame : (setPrevLeaf (setNextLeaf
      (Page.newPage rightID .pageBTreeLeaf) oldNext) leafID).header.id =
        rightID := rfl
  have rightNode : NodeOn limits (land.adopt rightID 0) 0
      (setPrevLeaf (setNextLeaf (Page.newPage rightID .pageBTreeLeaf) oldNext)
        leafID) := by
    refine .leaf rfl (.inl ⟨rfl, rfl⟩) (fun _ member => nomatch member) ?_ ?_
    · rw [prevLeaf_setPrevLeaf]
      exact leafLinks
    · rw [nextLeaf_setPrevLeaf, nextLeaf_setNextLeaf]
      exact next
  rw [rightSame]
  generalize setPrevLeaf (setNextLeaf (Page.newPage rightID .pageBTreeLeaf)
    oldNext) leafID = right at rightSame rightNode ⊢
  have adopted := (region.quiet evolves).adopt new (region.not_mem new) held
    rightSame rightNode
  have linkedNode : NodeOn limits (land.adopt rightID 0)
      ((land.adopt rightID 0).level leafID)
      (setNextLeaf (Pager.page after leafID) rightID) := by
    rw [(covers leafID inside).2, bottom]
    exact (node.mono covers).setNextLeaf rightLinks
  have linkedSame : (setNextLeaf (Pager.page after leafID) rightID).header.id =
      leafID := leafSame
  have linked := adopted.region.spread_setPage (covers leafID inside).1
    linkedSame linkedNode
  exact (adopted.trans linked).trans
    (linked.region.spread_relinkNext next rightLinks)

def Halves (limits : Limits) (land : Land) (level : Nat)
    (halves : PageID × Bytes × PageID) : Prop :=
  (halves.1 ∈ land.pages ∧ land.level halves.1 = level) ∧
    limits.key halves.2.1 ∧
    (halves.2.2 ∈ land.pages ∧ land.level halves.2.2 = level)

theorem separator_fine (fine : ∀ item, item ∈ items → limits.Fine item)
    (nonempty : items ≠ []) :
    limits.key (((items.drop (items.length / 2)).head?.map
      LeafItem.key).getD []) := by
  have positive : 0 < items.length := List.length_pos_iff.mpr nonempty
  have below : items.length / 2 < items.length :=
    Nat.div_lt_self positive (by decide)
  rw [List.head?_drop, List.getElem?_eq_getElem below]
  exact (fine _ (List.getElem_mem below)).1

theorem spread_splitLeaf (region : Region limits land state)
    (inside : leafID ∈ land.pages) (bottom : land.level leafID = 0)
    (roomy : 0 < room state)
    (fine : ∀ item, item ∈ items → limits.Fine item)
    (nonempty : items ≠ []) :
    ∃ more, Spreads limits land state more
        (splitLeaf items leafID state).2 1 ∧
      ∀ halves, (splitLeaf items leafID state).1 = .ok halves →
        Halves limits more 0 halves := by
  obtain ⟨rightID, next, allocated, good, new, held, keeps, page, others,
    bound⟩ := allocate_spec .pageBTreeLeaf region.good roomy
  have evolves : Evolves state next ∅ 1 :=
    ⟨good, fun {id} => keeps id, fun {id} old _ => others id old, bound⟩
  have linked := region.spread_linkRight inside bottom new held evolves page
  have separator := separator_fine fine nonempty
  refine ⟨land.adopt rightID 0, ?_⟩
  unfold splitLeaf
  rw [allocated]
  simp only
  generalize linkRight leafID rightID next = there at linked ⊢
  have leafInside := (linked.covers leafID inside).1
  have leafBottom := (linked.covers leafID inside).2.trans bottom
  have rightInside : rightID ∈ (land.adopt rightID 0).pages := .inl rfl
  have rightBottom := land.adopt_level rightID 0
  have leftFine : ∀ item, item ∈ items.take (items.length / 2) →
      limits.Fine item := fun item member =>
    fine item (List.mem_of_mem_take member)
  have rightFine : ∀ item, item ∈ items.drop (items.length / 2) →
      limits.Fine item := fun item member =>
    fine item (List.mem_of_mem_drop member)
  have leftSpec := setLeafItems_spec (Pager.page there leafID)
    (items.take (items.length / 2)) fun item member =>
      (leftFine item member).admissible
  have leftNode := (linked.region.node_leaf leafInside
    leafBottom).setLeafItems leftFine
  have leftSame := leftSpec.id_eq.trans
    (page_id linked.region.good (linked.region.allocated leafInside))
  rcases leftResult : setLeafItems (Pager.page there leafID)
    (items.take (items.length / 2)) with ⟨leftOutcome, left⟩
  rw [leftResult] at leftNode leftSame
  have leftStored := linked.trans (linked.region.spread_setPage leafInside
    leftSame (by rw [leafBottom]; exact leftNode))
  cases leftOutcome with
  | error error =>
      exact ⟨leftStored, fun _ failed => nomatch failed⟩
  | ok done =>
      simp only
      have rightSpec := setLeafItems_spec
        (Pager.page (Pager.setPage leafID left there) rightID)
        (items.drop (items.length / 2)) fun item member =>
          (rightFine item member).admissible
      have rightNode := (leftStored.region.node_leaf rightInside
        rightBottom).setLeafItems rightFine
      have rightSame := rightSpec.id_eq.trans
        (page_id leftStored.region.good
          (leftStored.region.allocated rightInside))
      rcases rightResult : setLeafItems
        (Pager.page (Pager.setPage leafID left there) rightID)
        (items.drop (items.length / 2)) with ⟨rightOutcome, right⟩
      rw [rightResult] at rightNode rightSame
      have rightStored := leftStored.trans
        (leftStored.region.spread_setPage rightInside rightSame
          (by rw [rightBottom]; exact rightNode))
      cases rightOutcome with
      | error error =>
          exact ⟨rightStored, fun _ failed => nomatch failed⟩
      | ok done =>
          have leftDirty : left.dirty = true := by
            have flag := leftSpec.dirty (by rw [leftResult])
            rwa [leftResult] at flag
          have rightDirty : right.dirty = true := by
            have flag := rightSpec.dirty (by rw [rightResult])
            rwa [rightResult] at flag
          have different : leafID ≠ rightID := fun same =>
            new (same ▸ region.allocated inside)
          refine ⟨rightStored.trans (rightStored.region.spread_markBoth
            leafInside rightInside ?_ ?_), ?_⟩
          · rw [setPage_other leftStored.region.good
              (leftStored.region.allocated rightInside) rightSame
              (leftStored.region.allocated leafInside) different,
              setPage_same linked.region.good
                (linked.region.allocated leafInside) leftSame]
            exact leftDirty
          · rw [setPage_same leftStored.region.good
              (leftStored.region.allocated rightInside) rightSame]
            exact rightDirty
          · intro halves same
            cases same
            exact ⟨⟨leftSame.symm ▸ leafInside, leftSame.symm ▸ leafBottom⟩,
              separator, ⟨rightSame.symm ▸ rightInside,
                rightSame.symm ▸ rightBottom⟩⟩

/-! ## Carrying a split upwards -/

theorem spliceParent_fine {items newItems : List InternalItem}
    {rightmost newRightmost cLeft cRight : PageID} {kSep : Bytes}
    {level : Nat}
    (spliced : spliceParent items rightmost cLeft kSep cRight =
      some (newItems, newRightmost))
    (fine : ∀ item, item ∈ items → ItemOn limits land level item)
    (last : rightmost ∈ land.pages ∧ land.level rightmost = level)
    (halves : Halves limits land level (cLeft, kSep, cRight)) :
    (∀ item, item ∈ newItems → ItemOn limits land level item) ∧
      (newRightmost ∈ land.pages ∧ land.level newRightmost = level) ∧
      newItems ≠ [] := by
  obtain ⟨left, key, right⟩ := halves
  unfold spliceParent at spliced
  split at spliced
  · obtain ⟨rfl, rfl⟩ := Prod.mk.inj (Option.some.inj spliced)
    refine ⟨?_, right, by simp⟩
    intro item member
    rcases List.mem_append.mp member with old | new
    · exact fine item old
    · rw [List.mem_singleton] at new
      subst new
      exact ⟨key, left⟩
  · cases found : items.findIdx? fun item => item.child = cLeft with
    | none =>
        rw [found] at spliced
        cases spliced
    | some index =>
        rw [found] at spliced
        simp only at spliced
        cases there : items[index]? with
        | none =>
            rw [there] at spliced
            cases spliced
        | some old =>
            rw [there] at spliced
            obtain ⟨rfl, rfl⟩ := Prod.mk.inj (Option.some.inj spliced)
            refine ⟨?_, last, by simp⟩
            intro item member
            simp only [List.mem_append, List.mem_cons, List.not_mem_nil,
              or_false] at member
            rcases member with (front | rfl | rfl) | back
            · exact fine item (List.mem_of_mem_take front)
            · exact ⟨key, left⟩
            · exact ⟨(fine old (List.mem_of_getElem? there)).1, right⟩
            · exact fine item (List.mem_of_mem_drop back)

theorem spread_splitInternal (region : Region limits land state)
    {items : List InternalItem} {rightmost parentID : PageID} {level : Nat}
    (inside : parentID ∈ land.pages)
    (levelEq : land.level parentID = level + 1) (roomy : 0 < room state)
    (fine : ∀ item, item ∈ items → ItemOn limits land level item)
    (last : rightmost ∈ land.pages ∧ land.level rightmost = level)
    (nonempty : items ≠ []) :
    ∃ more, Spreads limits land state more
        (splitInternal items rightmost parentID state).2 1 ∧
      ∀ halves, (splitInternal items rightmost parentID state).1 =
          .ok halves → Halves limits more (level + 1) halves := by
  obtain ⟨rightID, next, allocated, good, new, held, keeps, page, others,
    bound⟩ := allocate_spec .pageBTreeInternal region.good roomy
  have evolves : Evolves state next ∅ 1 :=
    ⟨good, fun {id} => keeps id, fun {id} old _ => others id old, bound⟩
  have quiet := region.quiet evolves
  have below : items.length / 2 < items.length :=
    Nat.div_lt_self (List.length_pos_iff.mpr nonempty) (by decide)
  have promotedOn := fine _ (List.getElem_mem below)
  have promotedEq : (items[items.length / 2]?).getD
      { child := 0, key := [] } = items[items.length / 2] := by
    rw [List.getElem?_eq_getElem below, Option.getD_some]
  unfold splitInternal
  rw [allocated]
  simp only [promotedEq]
  generalize items[items.length / 2] = promoted at promotedOn ⊢
  have leftFine : ∀ item, item ∈ items.take (items.length / 2) →
      ItemOn limits land level item := fun item member =>
    fine item (List.mem_of_mem_take member)
  have rightFine : ∀ item, item ∈ items.drop (items.length / 2 + 1) →
      ItemOn limits land level item := fun item member =>
    fine item (List.mem_of_mem_drop member)
  have leftSpec := setInternalItems_spec (Pager.page next parentID)
    (items.take (items.length / 2)) promoted.child fun item member =>
      limits.key_le (leftFine item member).1
  have leftNode := nodeOn_setInternalItems (Pager.page next parentID)
    leftFine promotedOn.2
  have leftSame := leftSpec.id_eq.trans
    (page_id quiet.region.good (quiet.region.allocated inside))
  rcases leftResult : setInternalItems (Pager.page next parentID)
    (items.take (items.length / 2)) promoted.child with ⟨leftOutcome, left⟩
  rw [leftResult] at leftNode leftSame
  have leftStored := quiet.trans (quiet.region.spread_setPage inside
    leftSame (by rw [levelEq]; exact leftNode))
  cases leftOutcome with
  | error error =>
      exact ⟨land, leftStored, fun _ failed => nomatch failed⟩
  | ok done =>
      simp only
      have outside := region.not_mem new
      have covers := @Land.adopt_covers land rightID (level + 1) outside
      have rightHeld := (evolves_setPage good
        (quiet.region.allocated inside) leftSame).keeps held
      have rightSpec := setInternalItems_spec
        (Pager.page (Pager.setPage parentID left next) rightID)
        (items.drop (items.length / 2 + 1)) rightmost fun item member =>
          limits.key_le (rightFine item member).1
      have rightNode := (nodeOn_setInternalItems
        (Pager.page (Pager.setPage parentID left next) rightID)
        rightFine last).mono covers
      have rightSame := rightSpec.id_eq.trans
        (page_id leftStored.region.good rightHeld)
      rcases rightResult : setInternalItems
        (Pager.page (Pager.setPage parentID left next) rightID)
        (items.drop (items.length / 2 + 1)) rightmost with
        ⟨rightOutcome, right⟩
      rw [rightResult] at rightNode rightSame
      have rightStored := leftStored.adopt new outside rightHeld rightSame
        rightNode
      refine ⟨land.adopt rightID (level + 1), ?_⟩
      cases rightOutcome with
      | error error =>
          exact ⟨rightStored, fun _ failed => nomatch failed⟩
      | ok done =>
          have parentInside := (covers parentID inside).1
          have rightInside : rightID ∈
              (land.adopt rightID (level + 1)).pages := .inl rfl
          have leftDirty : left.dirty = true := by
            have flag := leftSpec.dirty (by rw [leftResult])
            rwa [leftResult] at flag
          have rightDirty : right.dirty = true := by
            have flag := rightSpec.dirty (by rw [rightResult])
            rwa [rightResult] at flag
          have different : parentID ≠ rightID := fun same =>
            new (same ▸ region.allocated inside)
          refine ⟨rightStored.trans (rightStored.region.spread_markBoth
            parentInside rightInside ?_ ?_), ?_⟩
          · rw [setPage_other leftStored.region.good rightHeld rightSame
              (leftStored.region.allocated inside) different,
              setPage_same good (quiet.region.allocated inside) leftSame]
            exact leftDirty
          · rw [setPage_same leftStored.region.good rightHeld rightSame]
            exact rightDirty
          · intro halves same
            cases same
            rw [Halves, leftSame, rightSame]
            exact ⟨⟨parentInside, (covers parentID inside).2.trans levelEq⟩,
              promotedOn.1, rightInside, land.adopt_level rightID _⟩

theorem spread_growRoot {tree : Tree σ}
    (region : Region limits land tree.pager) {cLeft cRight : PageID}
    {kSep : Bytes} {level : Nat}
    (halves : Halves limits land level (cLeft, kSep, cRight))
    (roomy : 0 < room tree.pager) :
    ∃ more, Spreads limits land tree.pager more
        (growRoot cLeft kSep cRight tree).2.pager 1 ∧
      ((growRoot cLeft kSep cRight tree).2.root = tree.root ∨
        (growRoot cLeft kSep cRight tree).2.root ∈ more.pages) := by
  obtain ⟨left, key, right⟩ := halves
  obtain ⟨rootID, next, allocated, good, new, held, keeps, page, others,
    bound⟩ := allocate_spec .pageBTreeInternal region.good roomy
  have evolves : Evolves tree.pager next ∅ 1 :=
    ⟨good, fun {id} => keeps id, fun {id} old _ => others id old, bound⟩
  have outside := region.not_mem new
  have covers := @Land.adopt_covers land rootID (level + 1) outside
  have fine : ∀ item, item ∈ [InternalItem.mk cLeft kSep] →
      ItemOn limits land level item := by
    intro item member
    rw [List.mem_singleton] at member
    subst member
    exact ⟨key, left⟩
  have spec := setInternalItems_spec (Pager.page next rootID)
    [InternalItem.mk cLeft kSep] cRight fun item member =>
      limits.key_le (fine item member).1
  have node := (nodeOn_setInternalItems (Pager.page next rootID) fine
    right).mono covers
  have same := spec.id_eq.trans (page_id good held)
  refine ⟨land.adopt rootID (level + 1), ?_⟩
  unfold growRoot
  rw [allocated]
  simp only
  rcases result : setInternalItems (Pager.page next rootID)
    [InternalItem.mk cLeft kSep] cRight with ⟨outcome, root⟩
  rw [result] at node same
  have stored := (region.quiet evolves).adopt new outside held same node
  cases outcome with
  | error error => exact ⟨stored, .inl rfl⟩
  | ok done =>
      have dirty : root.dirty = true := by
        have flag := spec.dirty (by rw [result])
        rwa [result] at flag
      have inside : rootID ∈ (land.adopt rootID (level + 1)).pages := .inl rfl
      refine ⟨stored.trans (stored.region.spread_markDirty inside ?_), .inr ?_⟩
      · rw [setPage_same good held same]
        exact dirty
      · show root.header.id ∈ _
        rw [same]
        exact inside

def Stays (land : Land) (before after : Tree σ) : Prop :=
  after.root = before.root ∨ after.root ∈ land.pages

theorem spread_propagate : ∀ (path : List PageID) {land : Land}
    {tree : Tree σ} {cLeft cRight : PageID} {kSep : Bytes} {level : Nat},
    Region limits land tree.pager →
    Halves limits land level (cLeft, kSep, cRight) →
    Rising land level path → path.length < room tree.pager →
    ∃ more, Spreads limits land tree.pager more
        (propagate cLeft kSep cRight path tree).2.pager (path.length + 1) ∧
      Stays more tree (propagate cLeft kSep cRight path tree).2
  | [], _, _, _, _, _, _, region, halves, _, roomy =>
      region.spread_growRoot halves roomy
  | parentID :: rest, land, tree, cLeft, cRight, kSep, level, region, halves,
    rising, roomy => by
      obtain ⟨inside, levelEq, above⟩ := rising
      rw [List.length_cons] at roomy
      have node := region.node inside
      rw [levelEq] at node
      have unchanged : Spreads limits land tree.pager land tree.pager
          (rest.length + 1 + 1) :=
        (Spreads.refl region).afford (Nat.zero_le _)
      unfold propagate
      simp only
      cases node with
      | internal node fine last =>
          rw [node.internalItems_eq, node.rightmost_eq]
          rename_i items rightmost
          cases spliced : spliceParent items rightmost cLeft kSep cRight with
          | none => exact ⟨land, unchanged, .inl rfl⟩
          | some pair =>
              obtain ⟨newItems, newRightmost⟩ := pair
              obtain ⟨newFine, newLast, nonempty⟩ :=
                spliceParent_fine spliced fine last halves
              have spec := setInternalItems_spec
                (Pager.page tree.pager parentID) newItems newRightmost
                fun item member => limits.key_le (newFine item member).1
              have newNode := nodeOn_setInternalItems
                (Pager.page tree.pager parentID) newFine newLast
              have same := spec.id_eq.trans
                (page_id region.good (region.allocated inside))
              simp only
              rcases result : setInternalItems
                (Pager.page tree.pager parentID) newItems newRightmost with
                ⟨outcome, page⟩
              rw [result] at newNode same
              cases outcome with
              | ok done =>
                  have dirty : page.dirty = true := by
                    have flag := spec.dirty (by rw [result])
                    rwa [result] at flag
                  refine ⟨land, ?_, .inl rfl⟩
                  exact (region.spread_store_dirty inside same dirty
                    (by rw [levelEq]; exact newNode)).afford (Nat.zero_le _)
              | error error =>
                  simp only
                  have stored := region.spread_setPage inside same
                    (by rw [levelEq]; exact newNode)
                  have enough := stored.evolves.room_le
                  obtain ⟨more, split, torn⟩ :=
                    stored.region.spread_splitInternal inside levelEq
                      (by omega) newFine newLast nonempty
                  rcases splitResult : splitInternal newItems newRightmost
                    parentID (Pager.setPage parentID page tree.pager) with
                    ⟨splitOutcome, next⟩
                  rw [splitResult] at split torn
                  have reached := stored.trans split
                  cases splitOutcome with
                  | error error =>
                      exact ⟨more, reached.afford (by omega), .inl rfl⟩
                  | ok parts =>
                      obtain ⟨left, promoted, right⟩ := parts
                      have bound := reached.evolves.room_le
                      simp only at bound
                      have enough : rest.length <
                          room ({ tree with pager := next } : Tree σ).pager := by
                        simp only
                        omega
                      obtain ⟨final, carried, stays⟩ := spread_propagate rest
                        reached.region (torn _ rfl)
                        (above.mono reached.covers) enough
                      refine ⟨final, (reached.trans carried).afford ?_, stays⟩
                      rw [List.length_cons]
                      omega

/-! ## The calls -/

variable {tree : Tree σ} {key value : Bytes}

theorem node_items (region : Region limits land state)
    (inside : leafID ∈ land.pages) (bottom : land.level leafID = 0)
    (item : LeafItem)
    (member : item ∈ leafItems (Pager.page state leafID)) :
    limits.Fine item := by
  cases region.node_leaf inside bottom with
  | leaf _ holds fine _ _ =>
      rw [holds.leafItems_eq] at member
      exact fine item member

theorem spread_insertLeaf (region : Region limits land tree.pager)
    (inside : leafID ∈ land.pages) (bottom : land.level leafID = 0)
    {path : List PageID} (rising : Rising land 0 path)
    (roomy : path.length + 1 < room tree.pager)
    (fine : limits.Fine ⟨key, value⟩) :
    ∃ more, Spreads limits land tree.pager more
        (insertLeaf key value leafID path tree).2.pager (path.length + 2) ∧
      Stays more tree (insertLeaf key value leafID path tree).2 := by
  have itemsFine := fine_putItem (region.node_items inside bottom) fine.1
    fine.2 (binarySearch (Pager.page tree.pager leafID) key)
  unfold insertLeaf
  simp only
  generalize putItem (leafItems (Pager.page tree.pager leafID))
    (binarySearch (Pager.page tree.pager leafID) key) key value = items
    at itemsFine ⊢
  have spec := setLeafItems_spec (Pager.page tree.pager leafID) items
    fun item member => (itemsFine item member).admissible
  have node := (region.node_leaf inside bottom).setLeafItems itemsFine
  have same := spec.id_eq.trans
    (page_id region.good (region.allocated inside))
  rcases result : setLeafItems (Pager.page tree.pager leafID) items with
    ⟨outcome, page⟩
  rw [result] at node same
  cases outcome with
  | ok done =>
      have dirty : page.dirty = true := by
        have flag := spec.dirty (by rw [result])
        rwa [result] at flag
      refine ⟨land, ?_, .inl rfl⟩
      exact (region.spread_store_dirty inside same dirty
        (by rw [bottom]; exact node)).afford (Nat.zero_le _)
  | error error =>
      simp only
      have nonempty : items ≠ [] := by
        rintro rfl
        have done := (spec.done (by decide)).1
        rw [result] at done
        cases done
      have stored := region.spread_setPage inside same
        (by rw [bottom]; exact node)
      have storedRoom := stored.evolves.room_le
      simp only at storedRoom
      have available : 0 < room (Pager.setPage leafID page tree.pager) := by
        omega
      obtain ⟨more, split, torn⟩ := stored.region.spread_splitLeaf inside
        bottom available itemsFine nonempty
      rcases splitResult : splitLeaf items leafID
        (Pager.setPage leafID page tree.pager) with ⟨splitOutcome, next⟩
      rw [splitResult] at split torn
      have reached := stored.trans split
      cases splitOutcome with
      | error error => exact ⟨more, reached.afford (by omega), .inl rfl⟩
      | ok parts =>
          obtain ⟨left, promoted, right⟩ := parts
          have bound := reached.evolves.room_le
          simp only at bound
          have enough : path.length <
              room ({ tree with pager := next } : Tree σ).pager := by
            simp only
            omega
          obtain ⟨final, carried, stays⟩ := spread_propagate path
            reached.region (torn _ rfl) (rising.mono reached.covers) enough
          exact ⟨final, (reached.trans carried).afford (by omega), stays⟩

theorem spread_insertFirst (region : Region limits land tree.pager)
    (roomy : 0 < room tree.pager) (fine : limits.Fine ⟨key, value⟩) :
    ∃ more, Spreads limits land tree.pager more
        (insertFirst key value tree).2.pager 1 ∧
      Stays more tree (insertFirst key value tree).2 := by
  obtain ⟨rootID, next, allocated, good, new, held, keeps, page, others,
    bound⟩ := allocate_spec .pageBTreeLeaf region.good roomy
  have evolves : Evolves tree.pager next ∅ 1 :=
    ⟨good, fun {id} => keeps id, fun {id} old _ => others id old, bound⟩
  have outside := region.not_mem new
  have itemsFine : ∀ item, item ∈ [LeafItem.mk key value] →
      limits.Fine item := by
    intro item member
    rw [List.mem_singleton] at member
    subst member
    exact fine
  have blankNode : NodeOn limits (land.adopt rootID 0) 0
      (setNextLeaf (setPrevLeaf (Page.newPage rootID .pageBTreeLeaf)
        invalidPageID) invalidPageID) := by
    refine .leaf rfl (.inl ⟨rfl, rfl⟩) (fun _ member => nomatch member) ?_ ?_
    · rw [prevLeaf_setNextLeaf, prevLeaf_setPrevLeaf]
      exact .inl rfl
    · rw [nextLeaf_setNextLeaf]
      exact .inl rfl
  have blankSame : (setNextLeaf (setPrevLeaf
      (Page.newPage rootID .pageBTreeLeaf) invalidPageID)
        invalidPageID).header.id = rootID := rfl
  refine ⟨land.adopt rootID 0, ?_⟩
  unfold insertFirst
  rw [allocated]
  simp only [page]
  generalize setNextLeaf (setPrevLeaf (Page.newPage rootID .pageBTreeLeaf)
    invalidPageID) invalidPageID = leaf at blankNode blankSame ⊢
  have spec := setLeafItems_spec leaf [LeafItem.mk key value]
    fun item member => (itemsFine item member).admissible
  have node := blankNode.setLeafItems itemsFine
  have same := spec.id_eq.trans blankSame
  rcases result : setLeafItems leaf [LeafItem.mk key value] with
    ⟨outcome, root⟩
  rw [result] at node same
  have stored := (region.quiet evolves).adopt new outside held same node
  cases outcome with
  | error error => exact ⟨stored, .inl rfl⟩
  | ok done =>
      have dirty : root.dirty = true := by
        have flag := spec.dirty (by rw [result])
        rwa [result] at flag
      have inside : rootID ∈ (land.adopt rootID 0).pages := .inl rfl
      refine ⟨stored.trans (stored.region.spread_markDirty inside ?_), .inr ?_⟩
      · rw [setPage_same good held same]
        exact dirty
      · show root.header.id ∈ _
        rw [same]
        exact inside

theorem spread_insert (region : Region limits land tree.pager)
    (reaches : land.Reaches tree.root)
    (supplied : pagesWanted key tree ≤ room tree.pager)
    (fine : LeafItem.Admissible ⟨key, value⟩ → limits.Fine ⟨key, value⟩) :
    ∃ more, Spreads limits land tree.pager more
        (insert key value tree).2.pager (pagesWanted key tree) ∧
      Stays more tree (insert key value tree).2 := by
  have unchanged : ∃ more, Spreads limits land tree.pager more tree.pager
      (pagesWanted key tree) ∧ Stays more tree tree :=
    ⟨land, (Spreads.refl region).afford (Nat.zero_le _), .inl rfl⟩
  unfold insert
  split
  · exact unchanged
  · rename_i keyShort
    split
    · exact unchanged
    · rename_i valueShort
      have itemFine := fine
        ⟨Nat.not_lt.mp keyShort, Nat.not_lt.mp valueShort⟩
      unfold pagesWanted at supplied ⊢
      split
      · rename_i missing
        rw [if_pos missing] at supplied
        obtain ⟨more, spreads, stays⟩ := region.spread_insertFirst
          (by omega) itemFine
        exact ⟨more, spreads.afford (by omega), stays⟩
      · rename_i valid
        obtain ⟨leafID, path, final, walk, evolves, inside, bottom, rising,
          length⟩ := region.descend_root (routesToChild_key key)
            (reaches.resolve_left valid)
        have quiet := region.quiet evolves
        have bound := quiet.evolves.room_le
        rw [if_neg valid, walk] at supplied
        simp only [walk] at supplied ⊢
        have there : Region limits land
            ({ tree with pager := final } : Tree σ).pager := quiet.region
        obtain ⟨more, spreads, stays⟩ := there.spread_insertLeaf inside
          bottom rising (by simp only; omega) itemFine
        exact ⟨more, (quiet.trans spreads).afford (by omega), stays⟩

end Region

end Descents

end CocoDB.BTree
