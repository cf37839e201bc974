import CocoDB.BTree.CursorSpec

/-!
# The structure of a tree

What `Insert` and `Delete` keep of the pages themselves: the pages the pager
has handed out are the pages of the tree, one path of children leads to each of
them, all leaves are equally deep, the keys are in order within the pages and
between them, and the leaves are chained from left to right.
-/

namespace CocoDB.BTree

open Lib LawfulPager

/-! ## Pages, read as a tree -/

/-- The page that a path leads to, given by the number of the child to take on
each level. -/
def follow (view : PageID → Page) : PageID → List Nat → Option PageID
  | id, [] => some id
  | id, index :: path =>
      if (view id).header.type = .pageBTreeInternal then
        (childIDs (view id))[index]?.bind fun child =>
          follow view child path
      else none

def pageKeys (page : Page) : List Bytes :=
  if page.header.type = .pageBTreeLeaf then
    (leafItems page).map LeafItem.key
  else (internalItems page).map InternalItem.key

/-- The pages form a B+tree of a height under the root, and `pages` are all
there are. -/
structure Structured (view : PageID → Page) (root : PageID)
    (pages : List PageID) (height : Nat) : Prop where
  valid : ∀ id ∈ pages, id ≠ invalidPageID
  closed : ∀ path id, follow view root path = some id → id ∈ pages
  reached : ∀ id ∈ pages, ∃! path, follow view root path = some id
  level : ∀ path id, follow view root path = some id →
    path.length = height ∧ (view id).header.type = .pageBTreeLeaf ∨
      path.length < height ∧ (view id).header.type = .pageBTreeInternal
  sorted : ∀ id ∈ pages, (pageKeys (view id)).Pairwise (· < ·)
  separated : ∀ id ∈ pages, (view id).header.type = .pageBTreeInternal →
    ∀ index child path target key,
      (childIDs (view id))[index]? = some child →
      follow view child path = some target → key ∈ pageKeys (view target) →
        (∀ before item, before + 1 = index →
          (internalItems (view id))[before]? = some item →
            item.key ≤ key) ∧
        ∀ item, (internalItems (view id))[index]? = some item →
          key < item.key
  leaves : ∀ id, id ∈ leavesBelow view (height + 1) root ↔
    id ∈ pages ∧ (view id).header.type = .pageBTreeLeaf
  chain : Linked view invalidPageID (leavesBelow view (height + 1) root)
    invalidPageID

section Parts

variable {subtree : Family} {range : Range Bytes} {rightmost : PageID}

theorem Children.parts : ∀ {items : List InternalItem} {range : Range Bytes}
    {outline : Outline},
    Children subtree range items rightmost outline →
    ∃ parts : List Outline, outline = parts.sum ∧
      parts.length = items.length + 1 ∧
      ∀ index child,
        (items.map InternalItem.child ++ [rightmost])[index]? = some child →
        ∃ inner part, parts[index]? = some part ∧
          subtree inner child part ∧
          ∀ key, inner.Contains key → range.Contains key ∧
            (∀ before item, before + 1 = index → items[before]? = some item →
              item.key ≤ key) ∧
            ∀ item, items[index]? = some item → key < item.key
  | [], range, outline, whole => by
      refine ⟨[outline], by simp, rfl, ?_⟩
      intro index child at'
      cases index with
      | zero =>
          cases at'
          refine ⟨range, outline, rfl, children_nil.mp whole, ?_⟩
          intro key inside
          exact ⟨inside, fun _ _ _ stored => (nomatch stored),
            fun _ stored => (nomatch stored)⟩
      | succ index => simp at at'
  | separator :: items, range, outline, whole => by
      obtain ⟨first, others, head, splits, tail, rfl⟩ :=
        children_cons.mp whole
      obtain ⟨parts, rfl, length, each⟩ := tail.parts
      refine ⟨first :: parts, List.sum_cons.symm, ?_, ?_⟩
      · rw [List.length_cons, List.length_cons, length]
      · intro index child at'
        cases index with
        | zero =>
            cases at'
            refine ⟨_, first, rfl, head, ?_⟩
            intro key inside
            refine ⟨inside.of_below splits, fun _ _ clash => (nomatch clash),
              ?_⟩
            intro item stored
            cases stored
            exact inside.lt_separator
        | succ index =>
            obtain ⟨inner, part, stored, child, bounds⟩ := each index child at'
            refine ⟨inner, part, stored, child, ?_⟩
            intro key inside
            obtain ⟨wider, low, high⟩ := bounds key inside
            refine ⟨wider.of_above splits, ?_, high⟩
            intro before item same stored
            cases before with
            | zero =>
                cases stored
                exact wider.separator_le
            | succ before => exact low before item (by omega) stored

end Parts

namespace Outline

variable {parts : List Outline} {target : PageID}

theorem mem_sum_ids :
    target ∈ parts.sum.ids ↔ ∃ part ∈ parts, target ∈ part.ids := by
  induction parts with
  | nil => simp
  | cons first parts inductionHypothesis =>
      rw [List.sum_cons, add_ids, Multiset.mem_add, inductionHypothesis]
      simp

theorem ids_le_sum {index : Nat} {part : Outline}
    (stored : parts[index]? = some part) : part.ids ≤ parts.sum.ids := by
  induction parts generalizing index with
  | nil => cases stored
  | cons first parts inductionHypothesis =>
      rw [List.sum_cons, add_ids]
      cases index with
      | zero =>
          cases stored
          exact Multiset.le_add_right _ _
      | succ index =>
          exact (inductionHypothesis stored).trans (Multiset.le_add_left _ _)

theorem part_unique {left right : Nat} {one two : Outline}
    (nodup : parts.sum.ids.Nodup) (leftAt : parts[left]? = some one)
    (rightAt : parts[right]? = some two) (inLeft : target ∈ one.ids)
    (inRight : target ∈ two.ids) : left = right := by
  induction parts generalizing left right with
  | nil => cases leftAt
  | cons first parts inductionHypothesis =>
      rw [List.sum_cons, add_ids, Multiset.nodup_add] at nodup
      obtain ⟨_, rest, apart⟩ := nodup
      cases left with
      | zero =>
          cases leftAt
          cases right with
          | zero => rfl
          | succ right =>
              have later : parts[right]? = some two := rightAt
              exact absurd (Multiset.mem_of_le (ids_le_sum later) inRight)
                (Multiset.disjoint_left.mp apart inLeft)
      | succ left =>
          cases right with
          | zero =>
              cases rightAt
              have later : parts[left]? = some one := leftAt
              exact absurd (Multiset.mem_of_le (ids_le_sum later) inLeft)
                (Multiset.disjoint_left.mp apart inRight)
          | succ right =>
              rw [inductionHypothesis rest leftAt rightAt]

end Outline

section Paths

variable {view : PageID → Page} {level : Nat} {range : Range Bytes}
  {id target : PageID} {outline : Outline}

theorem follow_cons_eq_some {index : Nat} {path : List Nat} :
    follow view id (index :: path) = some target ↔
      (view id).header.type = .pageBTreeInternal ∧
        ∃ child, (childIDs (view id))[index]? = some child ∧
          follow view child path = some target := by
  rw [follow]
  by_cases inner : (view id).header.type = .pageBTreeInternal
  · rw [if_pos inner, Option.bind_eq_some_iff]
    exact (and_iff_right inner).symm
  · rw [if_neg inner]
    constructor
    · intro none
      cases none
    · rintro ⟨same, _⟩
      exact absurd same inner

theorem InternalPage.childIDs_eq {page : Page} {items : List InternalItem}
    {rightmost : PageID} (node : InternalPage page items rightmost) :
    childIDs page = items.map InternalItem.child ++ [rightmost] := by
  rw [childIDs, node.internalItems_eq, node.rightmost_eq]

theorem Subtree.follow_spec : ∀ {path : List Nat} {level : Nat}
    {range : Range Bytes} {id : PageID} {outline : Outline},
    Subtree view level range id outline →
    follow view id path = some target →
    ∃ rest inner part, path.length + rest = level ∧
      Subtree view rest inner target part ∧ part.ids ≤ outline.ids ∧
      ∀ key, inner.Contains key → range.Contains key
  | [], level, range, id, outline, subtree, led => by
      cases led
      exact ⟨level, range, outline, Nat.zero_add _, subtree, le_refl _,
        fun _ inside => inside⟩
  | index :: path, 0, _, id, _, subtree, led => by
      obtain ⟨items, leaf, _⟩ := subtree
      have inner := (follow_cons_eq_some.mp led).1
      rw [leaf.type_eq] at inner
      cases inner
  | index :: path, level + 1, range, id, outline, subtree, led => by
      obtain ⟨items, rightmost, below, node, _, children, rfl⟩ := subtree
      obtain ⟨_, child, stored, led⟩ := follow_cons_eq_some.mp led
      rw [node.childIDs_eq] at stored
      obtain ⟨parts, rfl, _, each⟩ := children.parts
      obtain ⟨inner, part, listed, under, bounds⟩ := each index child stored
      obtain ⟨rest, narrow, piece, depth, found, fewer, wider⟩ :=
        under.follow_spec led
      refine ⟨rest, narrow, piece, by rw [List.length_cons]; omega, found,
        ?_, fun key inside => (bounds key (wider key inside)).1⟩
      rw [Outline.add_ids]
      exact (fewer.trans (Outline.ids_le_sum listed)).trans
        (Multiset.le_add_left _ _)

theorem Subtree.follow_exists : ∀ {level : Nat} {range : Range Bytes}
    {id : PageID} {outline : Outline},
    Subtree view level range id outline → target ∈ outline.ids →
    ∃ path, follow view id path = some target
  | 0, _, id, _, subtree, member => by
      obtain ⟨items, _, _, _, rfl⟩ := subtree
      rw [Outline.leaf_ids, Multiset.mem_singleton] at member
      rw [member]
      exact ⟨[], rfl⟩
  | level + 1, _, id, _, subtree, member => by
      obtain ⟨items, rightmost, below, node, _, children, rfl⟩ := subtree
      rw [Outline.add_ids, Outline.page_ids, Multiset.mem_add,
        Multiset.mem_singleton] at member
      rcases member with rfl | under
      · exact ⟨[], rfl⟩
      · obtain ⟨parts, rfl, length, each⟩ := children.parts
        obtain ⟨part, listed, inside⟩ := Outline.mem_sum_ids.mp under
        obtain ⟨index, bound, stored⟩ := List.getElem_of_mem listed
        have place : index <
            (items.map InternalItem.child ++ [rightmost]).length := by
          rw [List.length_append, List.length_map, List.length_singleton]
          omega
        obtain ⟨inner, other, same, child, _⟩ :=
          each index _ (List.getElem?_eq_getElem place)
        rw [List.getElem?_eq_getElem bound, stored] at same
        cases same
        obtain ⟨path, led⟩ := child.follow_exists inside
        refine ⟨index :: path, follow_cons_eq_some.mpr
          ⟨node.type_eq, _, ?_, led⟩⟩
        rw [node.childIDs_eq]
        exact List.getElem?_eq_getElem place

theorem Subtree.follow_unique : ∀ {path other : List Nat} {level : Nat}
    {range : Range Bytes} {id : PageID} {outline : Outline},
    Subtree view level range id outline → outline.ids.Nodup →
    follow view id path = some target →
    follow view id other = some target → path = other := by
  have root : ∀ {index : Nat} {path : List Nat} {level : Nat}
      {range : Range Bytes} {id : PageID} {outline : Outline},
      Subtree view level range id outline → outline.ids.Nodup →
      follow view id (index :: path) = some id → False := by
    intro index path level range id outline subtree nodup led
    obtain ⟨inner, child, stored, led⟩ := follow_cons_eq_some.mp led
    cases level with
    | zero =>
        obtain ⟨items, leaf, _⟩ := subtree
        rw [leaf.type_eq] at inner
        cases inner
    | succ level =>
        obtain ⟨items, rightmost, below, node, _, children, rfl⟩ := subtree
        rw [node.childIDs_eq] at stored
        obtain ⟨parts, rfl, _, each⟩ := children.parts
        obtain ⟨range, part, listed, under, _⟩ := each index child stored
        obtain ⟨rest, narrow, piece, _, found, fewer, _⟩ :=
          under.follow_spec led
        rw [Outline.add_ids, Outline.page_ids, Multiset.singleton_add,
          Multiset.nodup_cons] at nodup
        exact nodup.1 (Multiset.mem_of_le
          (fewer.trans (Outline.ids_le_sum listed))
          (subtree_rooted _ _ _ _ _ found))
  intro path
  induction path with
  | nil =>
      intro other level range id outline subtree nodup led otherLed
      cases led
      cases other with
      | nil => rfl
      | cons index other => exact absurd otherLed (root subtree nodup)
  | cons index path inductionHypothesis =>
      intro other level range id outline subtree nodup led otherLed
      cases other with
      | nil =>
          cases otherLed
          exact absurd led (root subtree nodup)
      | cons otherIndex other =>
          obtain ⟨inner, child, stored, led⟩ := follow_cons_eq_some.mp led
          obtain ⟨_, otherChild, otherStored, otherLed⟩ :=
            follow_cons_eq_some.mp otherLed
          cases level with
          | zero =>
              obtain ⟨items, leaf, _⟩ := subtree
              rw [leaf.type_eq] at inner
              cases inner
          | succ level =>
              obtain ⟨items, rightmost, below, node, _, children, rfl⟩ :=
                subtree
              rw [node.childIDs_eq] at stored otherStored
              obtain ⟨parts, rfl, _, each⟩ := children.parts
              obtain ⟨range, part, listed, under, _⟩ :=
                each index child stored
              obtain ⟨otherRange, otherPart, otherListed, otherUnder, _⟩ :=
                each otherIndex otherChild otherStored
              obtain ⟨_, _, _, _, found, fewer, _⟩ := under.follow_spec led
              obtain ⟨_, _, _, _, otherFound, otherFewer, _⟩ :=
                otherUnder.follow_spec otherLed
              rw [Outline.add_ids, Multiset.nodup_add] at nodup
              have same := Outline.part_unique nodup.2.1 listed otherListed
                (Multiset.mem_of_le fewer (subtree_rooted _ _ _ _ _ found))
                (Multiset.mem_of_le otherFewer
                  (subtree_rooted _ _ _ _ _ otherFound))
              subst same
              rw [stored] at otherStored
              cases otherStored
              rw [inductionHypothesis under
                (Multiset.nodup_of_le (Outline.ids_le_sum listed) nodup.2.1)
                led otherLed]

theorem mem_leavesBelow : ∀ {path : List Nat} {depth : Nat} {id : PageID},
    follow view id path = some target →
    (view target).header.type = .pageBTreeLeaf → path.length < depth →
    target ∈ leavesBelow view depth id
  | [], depth + 1, id, led, type, _ => by
      cases led
      rw [leavesBelow, if_pos type]
      exact List.mem_singleton_self _
  | index :: path, depth + 1, id, led, type, deep => by
      obtain ⟨inner, child, stored, led⟩ := follow_cons_eq_some.mp led
      have other : ¬ (view id).header.type = .pageBTreeLeaf := by
        rw [inner]
        decide
      rw [leavesBelow, if_neg other]
      apply List.mem_flatMap.mpr
      exact ⟨child, List.mem_of_getElem? stored,
        mem_leavesBelow led type (Nat.lt_of_succ_lt_succ deep)⟩

theorem Subtree.page_spec (subtree : Subtree view level range id outline) :
    (level = 0 ∧ (view id).header.type = .pageBTreeLeaf ∨
      0 < level ∧ (view id).header.type = .pageBTreeInternal) ∧
      (pageKeys (view id)).Pairwise (· < ·) ∧
      ∀ key ∈ pageKeys (view id), range.Contains key := by
  cases level with
  | zero =>
      obtain ⟨items, leaf, sorted, inside, _⟩ := subtree
      have keys : pageKeys (view id) = items.map LeafItem.key := by
        rw [pageKeys, if_pos leaf.type_eq, leaf.leafItems_eq]
      rw [keys]
      refine ⟨.inl ⟨rfl, leaf.type_eq⟩, List.pairwise_map.mpr sorted, ?_⟩
      intro key member
      obtain ⟨item, listed, rfl⟩ := List.mem_map.mp member
      exact (inside item listed).2
  | succ level =>
      obtain ⟨items, rightmost, below, node, _, children, _⟩ := subtree
      have keys : pageKeys (view id) = items.map InternalItem.key := by
        have other : ¬ (view id).header.type = .pageBTreeLeaf := by
          rw [node.type_eq]
          decide
        rw [pageKeys, if_neg other, node.internalItems_eq]
      rw [keys]
      refine ⟨.inr ⟨Nat.succ_pos _, node.type_eq⟩,
        List.pairwise_map.mpr children.sorted, ?_⟩
      intro key member
      obtain ⟨item, listed, rfl⟩ := List.mem_map.mp member
      obtain ⟨rest, front, last, start, _, _⟩ := children
      have splits := start.sorted.2 item listed
      exact ⟨fun bound same => (splits.1 bound same).le, splits.2⟩

end Paths

section Standing

variable {σ : Type} [Pager σ] [LawfulPager σ] {tree : Tree σ} {height : Nat}
  {outline : Outline}

theorem Stands.leavesBelow_eq (stands : Stands tree height outline) :
    leavesBelow (Pager.page tree.pager) (height + 1) tree.root =
      outline.leaves.map Leaf.id :=
  stands.subtree.leavesBelow_eq (Nat.lt_succ_self height)

theorem Stands.mem_leaves (stands : Stands tree height outline)
    (id : PageID) :
    id ∈ leavesBelow (Pager.page tree.pager) (height + 1) tree.root ↔
      id ∈ outline.ids ∧
        (Pager.page tree.pager id).header.type = .pageBTreeLeaf := by
  have listed := stands.subtree.listed
  constructor
  · intro member
    rw [stands.leavesBelow_eq] at member
    obtain ⟨leaf, inside, rfl⟩ := List.mem_map.mp member
    exact ⟨listed.mem inside, (listed.leafPage leaf inside).type_eq⟩
  · rintro ⟨member, type⟩
    obtain ⟨path, led⟩ := stands.subtree.follow_exists member
    obtain ⟨_, _, _, depth, _⟩ := stands.subtree.follow_spec led
    exact mem_leavesBelow led type (by omega)

theorem Stands.structured (stands : Stands tree height outline)
    {pages : List PageID} (same : outline.ids = pages) :
    Structured (Pager.page tree.pager) tree.root pages height := by
  have member : ∀ id, id ∈ pages ↔ id ∈ outline.ids := by
    intro id
    rw [same, Multiset.mem_coe]
  have spec : ∀ path id, follow (Pager.page tree.pager) tree.root path =
      some id → ∃ rest inner part, path.length + rest = height ∧
        Subtree (Pager.page tree.pager) rest inner id part ∧
        part.ids ≤ outline.ids := by
    intro path id led
    obtain ⟨rest, inner, part, depth, found, fewer, _⟩ :=
      stands.subtree.follow_spec led
    exact ⟨rest, inner, part, depth, found, fewer⟩
  have known : ∀ id ∈ pages, ∃ rest inner part,
      Subtree (Pager.page tree.pager) rest inner id part := by
    intro id inPages
    obtain ⟨path, led⟩ :=
      stands.subtree.follow_exists ((member id).mp inPages)
    obtain ⟨rest, inner, part, _, found, _⟩ := spec path id led
    exact ⟨rest, inner, part, found⟩
  refine ⟨?_, ?_, ?_, ?_, ?_, ?_, ?_, ?_⟩
  · intro id inPages
    exact allocated_valid stands.good
      (stands.allocated ((member id).mp inPages))
  · intro path id led
    obtain ⟨_, _, _, _, found, fewer⟩ := spec path id led
    exact (member id).mpr
      (Multiset.mem_of_le fewer (subtree_rooted _ _ _ _ _ found))
  · intro id inPages
    obtain ⟨path, led⟩ :=
      stands.subtree.follow_exists ((member id).mp inPages)
    exact ⟨path, led, fun other otherLed =>
      stands.subtree.follow_unique stands.nodup otherLed led⟩
  · intro path id led
    obtain ⟨rest, _, _, depth, found, _⟩ := spec path id led
    rcases found.page_spec.1 with ⟨bottom, leaf⟩ | ⟨above, internal⟩
    · exact .inl ⟨by omega, leaf⟩
    · exact .inr ⟨by omega, internal⟩
  · intro id inPages
    obtain ⟨_, _, _, found⟩ := known id inPages
    exact found.page_spec.2.1
  · intro id inPages internal index child path target key stored led inKeys
    obtain ⟨rest, inner, part, found⟩ := known id inPages
    cases rest with
    | zero =>
        obtain ⟨items, leaf, _⟩ := found
        rw [leaf.type_eq] at internal
        cases internal
    | succ rest =>
        obtain ⟨items, rightmost, below, node, _, children, _⟩ := found
        rw [node.childIDs_eq] at stored
        rw [node.internalItems_eq]
        obtain ⟨parts, _, _, each⟩ := children.parts
        obtain ⟨range, piece, _, under, bounds⟩ := each index child stored
        obtain ⟨_, narrow, _, _, final, _, wider⟩ := under.follow_spec led
        exact (bounds key
          (wider key (final.page_spec.2.2 key inKeys))).2
  · intro id
    rw [stands.mem_leaves, member]
  · rw [stands.leavesBelow_eq]
    exact stands.linked

end Standing

end CocoDB.BTree

namespace CocoDB

/-- A pager together with the pages it has handed out.  It has `limit` pages to
hand out in all. -/
structure Recorded (σ : Type) (limit : Nat) where
  inner : σ
  given : List PageID

namespace Recorded

variable {σ : Type} [Pager σ] {limit : Nat}

instance : Pager (Recorded σ limit) where
  get id state :=
    ((Pager.get id state.inner).1,
      { state with inner := (Pager.get id state.inner).2 })
  page state := Pager.page state.inner
  setPage id page state :=
    { state with inner := Pager.setPage id page state.inner }
  markDirty id state :=
    { state with inner := Pager.markDirty id state.inner }
  allocate type state :=
    match Pager.allocate type state.inner with
    | (.error error, after) => (.error error, { state with inner := after })
    | (.ok id, after) =>
        (.ok id, { inner := after, given := state.given ++ [id] })
  pageCount state := Pager.pageCount state.inner

variable [LawfulPager σ]

open LawfulPager

/-- The record is right, and the pager can hand out the rest. -/
structure Sound (state : Recorded σ limit) : Prop where
  good : Good state.inner
  held : ∀ id ∈ state.given, Allocated state.inner id
  distinct : state.given.Nodup
  within : state.given.length ≤ limit
  roomy : limit ≤ room state.inner + state.given.length

variable {state : Recorded σ limit} {id : PageID}

theorem Sound.step (sound : Sound state) {after : σ} (good : Good after)
    (keeps : ∀ {other}, Allocated state.inner other → Allocated after other)
    (bound : room state.inner ≤ room after) :
    Sound ({ inner := after, given := state.given } : Recorded σ limit) :=
  ⟨good, fun id member => keeps (sound.held id member), sound.distinct,
    sound.within, sound.roomy.trans (Nat.add_le_add_right bound _)⟩

instance : LawfulPager (Recorded σ limit) where
  Good := Sound
  Allocated state id := id ∈ state.given
  room state := limit - state.given.length
  allocated_lt sound member :=
    allocated_lt (σ := σ) sound.good (sound.held _ member)
  allocated_valid sound member :=
    allocated_valid (σ := σ) sound.good (sound.held _ member)
  page_id sound member := page_id (σ := σ) sound.good (sound.held _ member)
  get_ok := by
    intro state id sound member
    have held := sound.held id member
    obtain ⟨done, good⟩ := get_ok sound.good held
    exact ⟨done, sound.step good (get_allocated sound.good held)
      (get_room sound.good held)⟩
  get_allocated _ _ other := other
  get_page sound member other :=
    get_page (σ := σ) sound.good (sound.held _ member) (sound.held _ other)
  get_room _ _ := Nat.le_refl _
  setPage_good := by
    intro state id page sound member same
    have held := sound.held id member
    exact sound.step (setPage_good sound.good held same)
      (setPage_allocated sound.good held same)
      (setPage_room sound.good held same)
  setPage_allocated _ _ _ other := other
  setPage_same sound member same :=
    setPage_same (σ := σ) sound.good (sound.held _ member) same
  setPage_other sound member same other different :=
    setPage_other (σ := σ) sound.good (sound.held _ member) same
      (sound.held _ other) different
  setPage_room _ _ _ := Nat.le_refl _
  markDirty_good := by
    intro state id sound member
    have held := sound.held id member
    exact sound.step (markDirty_good sound.good held)
      (markDirty_allocated sound.good held) (markDirty_room sound.good held)
  markDirty_allocated _ _ other := other
  markDirty_page sound member other dirty :=
    markDirty_page (σ := σ) sound.good (sound.held _ member)
      (sound.held _ other) dirty
  markDirty_room _ _ := Nat.le_refl _
  allocate_spec := by
    intro state type sound more
    have left := sound.roomy
    obtain ⟨id, after, allocated, good, fresh, held, keeps, page, others,
      bound⟩ := allocate_spec type sound.good
        (show 0 < room state.inner by omega)
    have new : id ∉ state.given := fun member => fresh (sound.held id member)
    refine ⟨id, { inner := after, given := state.given ++ [id] }, ?_,
      ⟨good, ?_, ?_, ?_, ?_⟩, new, ?_, ?_, page, ?_, ?_⟩
    · simp only [Pager.allocate, allocated]
    · intro other member
      rcases List.mem_append.mp member with old | last
      · exact keeps other (sound.held other old)
      · rw [List.mem_singleton.mp last]
        exact held
    · apply List.nodup_append.mpr
      refine ⟨sound.distinct, List.nodup_singleton id, ?_⟩
      rintro other old _ last rfl
      rw [List.mem_singleton.mp last] at old
      exact new old
    · rw [List.length_append, List.length_singleton]
      omega
    · change limit ≤ room after + (state.given ++ [id]).length
      rw [List.length_append, List.length_singleton]
      omega
    · exact List.mem_append_right _ (List.mem_singleton_self id)
    · exact fun other old => List.mem_append_left _ old
    · exact fun other old => others other (sound.held other old)
    · rw [List.length_append, List.length_singleton]
      omega

end Recorded

namespace BTree

open Lib LawfulPager

section Runs

variable {σ : Type} [Pager σ] [LawfulPager σ] {limit : Nat}
  {tree : Tree (Recorded σ limit)} {height : Nat} {outline : Outline}

theorem Represents.ids_le (represents : Represents tree height outline) :
    outline.ids ≤ (tree.pager.given : Multiset PageID) := by
  cases represents with
  | empty _ _ => exact Multiset.zero_le _
  | grown stands =>
      apply (Multiset.le_iff_subset stands.nodup).mpr
      intro id member
      exact Multiset.mem_coe.mpr (stands.allocated member)

def Complete (tree : Tree (Recorded σ limit)) : Prop :=
  ∃ height outline, Represents tree height outline ∧
    outline.ids = (tree.pager.given : Multiset PageID)

/-- A call that gives the tree as many pages as it takes from the pager keeps it
complete. -/
theorem Represents.complete {after : Tree (Recorded σ limit)}
    {newHeight : Nat} {changed : Outline}
    (represents : Represents tree height outline)
    (same : outline.ids = (tree.pager.given : Multiset PageID))
    (next : Represents after newHeight changed)
    (paid : room tree.pager + Multiset.card outline.ids ≤
      room after.pager + Multiset.card changed.ids) : Complete after := by
  refine ⟨newHeight, changed, next, ?_⟩
  apply Multiset.eq_of_le_of_card_le next.ids_le
  have before : Recorded.Sound tree.pager := represents.good
  have later : Recorded.Sound after.pager := next.good
  have total : limit - tree.pager.given.length + tree.pager.given.length ≤
      limit - after.pager.given.length + Multiset.card changed.ids := by
    rw [same, Multiset.coe_card] at paid
    exact paid
  have enough := before.within
  have rest := later.within
  rw [Multiset.coe_card]
  omega

theorem Complete.apply (complete : Complete tree) {op : TreeOp}
    (supplied : Supplied op tree) (done : (op.apply tree).1 = .ok ()) :
    Complete (op.apply tree).2 := by
  obtain ⟨height, outline, represents, same⟩ := complete
  cases op with
  | insert key value =>
      have enough := (represents.pagesWanted_eq key).symm.trans_le supplied
      obtain ⟨newHeight, changed, inserted⟩ :=
        (represents.insert_spec (insert_admissible done) enough).2 done
      exact represents.complete same inserted.represents inserted.paid
  | delete key =>
      obtain ⟨_, evolution, changed, next, ids, _⟩ :=
        represents.delete_spec key
      apply represents.complete same next
      rw [ids]
      exact Nat.add_le_add_right evolution.room_le _

/-- No page was handed out and there is no tree, or all the pages that were
handed out form a B+tree. -/
def IsTree (tree : Tree (Recorded σ limit)) : Prop :=
  tree.root = invalidPageID ∧ tree.pager.given = [] ∨
    ∃ height, Structured (Pager.page tree.pager) tree.root tree.pager.given
      height

theorem Complete.isTree (complete : Complete tree) : IsTree tree := by
  obtain ⟨height, outline, represents, same⟩ := complete
  cases represents with
  | empty none _ => exact .inl ⟨none, (Multiset.coe_eq_zero _).mp same.symm⟩
  | grown stands => exact .inr ⟨height, stands.structured same⟩

/-- A successful run from a tree without a root page, over a pager that has
handed out no page yet, ends in a B+tree that is made of all the pages handed
out. -/
theorem isTree_run {start : Tree (Recorded σ limit)}
    (missing : start.root = invalidPageID) (good : Good start.pager)
    (unused : start.pager.given = []) (ops : List TreeOp)
    (supplied : Along TreeOp.apply Supplied ops start)
    (done : (run TreeOp.apply ops start).1 = .ok ()) :
    IsTree (run TreeOp.apply ops start).2 := by
  have initial : Complete start := by
    refine ⟨0, 0, .empty missing good, ?_⟩
    rw [unused]
    rfl
  have complete : Complete (run TreeOp.apply ops start).2 :=
    @run_invariant _ _ _ _ _ (fun _ tree => Complete tree)
      (fun complete supplied done => complete.apply supplied done)
      ops [] start initial supplied done
  exact complete.isTree

end Runs

/-- A tree without a root page in a new database, the pages of which are
recorded. -/
def newRecordedTree : Tree (Recorded DefaultPager 100) where
  root := invalidPageID
  pager := { inner := newTree.pager, given := [] }

theorem newRecordedTree_good : Good newRecordedTree.pager := by
  refine Recorded.Sound.mk newTree_good (fun _ member => (nomatch member))
    List.nodup_nil (Nat.zero_le _) ?_
  change 100 ≤ room newTree.pager + 0
  rw [newTree_room]
  decide

theorem isTree_run_sample :
    IsTree (run TreeOp.apply (insertAll [⟨[1], [10]⟩, ⟨[2], [20]⟩])
      newRecordedTree).2 := by
  have one : OneLeaf newRecordedTree [] :=
    ⟨0, .empty rfl newRecordedTree_good, rfl, Nat.zero_le _⟩
  have roomy : room newRecordedTree.pager = 100 := rfl
  have supplied : Along TreeOp.apply Supplied
      (insertAll [⟨[1], [10]⟩, ⟨[2], [20]⟩]) newRecordedTree :=
    one.supplied (by rw [roomy]; decide)
  obtain ⟨done, _⟩ := run_insertAll one [⟨[1], [10]⟩, ⟨[2], [20]⟩]
    (by decide) (by decide) (by decide) (by rw [roomy]; decide)
  exact isTree_run rfl newRecordedTree_good rfl _ supplied done

end BTree

end CocoDB
