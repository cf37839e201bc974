import CocoDB.BTree.NodeAccess
import CocoDB.Lib.Range
import Mathlib.Algebra.Order.Group.Multiset
import Mathlib.Tactic.Abel

/-!
# The shape of a B+tree

`Subtree view height range id outline` says that the pages seen through `view`
form a B+tree of the given height under page `id`, with all keys in `range`;
`outline` lists its leaves from left to right and counts the pages it occupies.
The neighbour pointers of the leaves are not part of the shape.
-/

namespace CocoDB.BTree

open Lib

/-! ## Outlines -/

structure Leaf where
  id : PageID
  items : List LeafItem

/-- The leaves of a part of a tree, left to right, and all its pages. -/
@[ext]
structure Outline where
  leaves : List Leaf
  ids : Multiset PageID

namespace Outline

instance : Zero Outline := ⟨⟨[], 0⟩⟩

instance : Add Outline :=
  ⟨fun left right =>
    ⟨left.leaves ++ right.leaves, left.ids + right.ids⟩⟩

@[simp]
theorem zero_leaves : (0 : Outline).leaves = [] := rfl

@[simp]
theorem zero_ids : (0 : Outline).ids = 0 := rfl

@[simp]
theorem add_leaves (left right : Outline) :
    (left + right).leaves = left.leaves ++ right.leaves := rfl

@[simp]
theorem add_ids (left right : Outline) :
    (left + right).ids = left.ids + right.ids := rfl

instance : AddMonoid Outline where
  add_assoc left middle right := by
    ext1 <;> simp [add_assoc]
  zero_add outline := by
    ext1 <;> simp
  add_zero outline := by
    ext1 <;> simp
  nsmul := nsmulRec

def leaf (id : PageID) (items : List LeafItem) : Outline :=
  ⟨[⟨id, items⟩], {id}⟩

def page (id : PageID) : Outline := ⟨[], {id}⟩

@[simp]
theorem leaf_leaves (id : PageID) (items : List LeafItem) :
    (leaf id items).leaves = [⟨id, items⟩] := rfl

@[simp]
theorem leaf_ids (id : PageID) (items : List LeafItem) :
    (leaf id items).ids = {id} := rfl

@[simp]
theorem page_leaves (id : PageID) : (page id).leaves = [] := rfl

@[simp]
theorem page_ids (id : PageID) : (page id).ids = {id} := rfl

def contents (outline : Outline) : List LeafItem :=
  outline.leaves.flatMap Leaf.items

@[simp]
theorem contents_zero : (0 : Outline).contents = [] := rfl

@[simp]
theorem contents_add (left right : Outline) :
    (left + right).contents = left.contents ++ right.contents := by
  simp [contents]

@[simp]
theorem contents_leaf (id : PageID) (items : List LeafItem) :
    (leaf id items).contents = items := by
  simp [contents]

@[simp]
theorem contents_page (id : PageID) : (page id).contents = [] := rfl

end Outline

/-! ## Children of a node -/

abbrev Family := Range Bytes → PageID → Outline → Prop

/-- The children listed by `items`, up to where `rest` begins. -/
def Front (subtree : Family) :
    Range Bytes → List InternalItem → Range Bytes → Outline → Prop
  | range, [], rest, outline => rest = range ∧ outline = 0
  | range, item :: items, rest, outline =>
      ∃ first others,
        subtree (range.below item.key) item.child first ∧
        range.Splits item.key ∧
        Front subtree (range.above item.key) items rest others ∧
        outline = first + others

def Children (subtree : Family) (range : Range Bytes)
    (items : List InternalItem) (rightmost : PageID)
    (outline : Outline) : Prop :=
  ∃ rest front last,
    Front subtree range items rest front ∧
    subtree rest rightmost last ∧ outline = front + last

inductive Hole (subtree : Family) (range : Range Bytes) :
    List InternalItem → PageID → Range Bytes → PageID → Outline → Outline →
      Prop
  | inner {front back : List InternalItem} {item : InternalItem}
      {rightmost : PageID} {rest : Range Bytes} {before after : Outline} :
      Front subtree range front rest before →
      rest.Splits item.key →
      Children subtree (rest.above item.key) back rightmost after →
      Hole subtree range (front ++ item :: back) rightmost
        (rest.below item.key) item.child before after
  | last {items : List InternalItem} {rightmost : PageID}
      {rest : Range Bytes} {before : Outline} :
      Front subtree range items rest before →
      Hole subtree range items rightmost rest rightmost before 0

section Children

variable {subtree other : Family} {range rest : Range Bytes}
  {items front back : List InternalItem} {rightmost : PageID}
  {outline before after : Outline}

theorem Front.mono
    (carry : ∀ range id part, part.ids ≤ outline.ids →
      subtree range id part → other range id part) :
    ∀ {items range outline'}, outline'.ids ≤ outline.ids →
      Front subtree range items rest outline' →
      Front other range items rest outline'
  | [], _, _, _, whole => whole
  | item :: items, range, outline', bound, whole => by
      obtain ⟨first, others, head, splits, tail, rfl⟩ := whole
      rw [Outline.add_ids] at bound
      refine ⟨first, others, ?_, splits, ?_, rfl⟩
      · exact carry _ _ _ ((Multiset.le_add_right _ _).trans bound) head
      · exact Front.mono carry ((Multiset.le_add_left _ _).trans bound) tail

theorem Children.mono
    (carry : ∀ range id part, part.ids ≤ outline.ids →
      subtree range id part → other range id part)
    (whole : Children subtree range items rightmost outline) :
    Children other range items rightmost outline := by
  obtain ⟨rest, front, last, start, final, rfl⟩ := whole
  exact ⟨rest, front, last,
    start.mono carry (Multiset.le_add_right _ _),
    carry _ _ _ (Multiset.le_add_left _ _) final, rfl⟩

theorem Hole.mono {inner : Range Bytes} {child : PageID}
    (carry : ∀ range id part, part.ids ≤ before.ids + after.ids →
      subtree range id part → other range id part)
    (hole : Hole subtree range items rightmost inner child before after) :
    Hole other range items rightmost inner child before after := by
  cases hole with
  | inner start splits final =>
      refine Hole.inner
        (start.mono (fun range id part bound =>
          carry range id part (bound.trans (Multiset.le_add_right _ _)))
          (le_refl _)) splits
        (final.mono fun range id part bound =>
          carry range id part (bound.trans (Multiset.le_add_left _ _)))
  | last start =>
      exact Hole.last
        (start.mono (fun range id part bound =>
          carry range id part (bound.trans (Multiset.le_add_right _ _)))
          (le_refl _))

theorem Front.append {middle : Range Bytes} :
    ∀ {front range before}, Front subtree range front middle before →
      Front subtree middle back rest after →
      Front subtree range (front ++ back) rest (before + after)
  | [], _, _, ⟨same, empty⟩, tail => by
      subst same empty
      rw [zero_add]
      exact tail
  | item :: front, range, _, ⟨first, others, head, splits, start, same⟩,
    tail => by
      subst same
      exact ⟨first, others + after, head, splits, start.append tail,
        add_assoc _ _ _⟩

theorem Front.children {front : List InternalItem} {before : Outline}
    (start : Front subtree range front rest before)
    (final : Children subtree rest back rightmost after) :
    Children subtree range (front ++ back) rightmost (before + after) := by
  obtain ⟨upper, middle, last, inner, end', rfl⟩ := final
  exact ⟨upper, before + middle, last, start.append inner, end',
    (add_assoc _ _ _).symm⟩

theorem Front.split :
    ∀ {front range outline},
      Front subtree range (front ++ back) rest outline →
      ∃ middle before after,
        Front subtree range front middle before ∧
        Front subtree middle back rest after ∧ outline = before + after
  | [], range, outline, whole =>
      ⟨range, 0, outline, ⟨rfl, rfl⟩, whole, (zero_add _).symm⟩
  | item :: front, range, outline,
    ⟨first, others, head, splits, tail, same⟩ => by
      obtain ⟨middle, before, after, start, final, same'⟩ := tail.split
      subst same same'
      exact ⟨middle, first + before, after,
        ⟨first, before, head, splits, start, rfl⟩, final,
        (add_assoc _ _ _).symm⟩

theorem Children.split {front : List InternalItem}
    (whole : Children subtree range (front ++ back) rightmost outline) :
    ∃ middle before after,
      Front subtree range front middle before ∧
      Children subtree middle back rightmost after ∧
      outline = before + after := by
  obtain ⟨rest, start, last, fronts, final, rfl⟩ := whole
  obtain ⟨middle, before, after, first, second, rfl⟩ := fronts.split
  exact ⟨middle, before, after + last, first,
    ⟨rest, after, last, second, final, rfl⟩, add_assoc _ _ _⟩

theorem children_cons {item : InternalItem} :
    Children subtree range (item :: items) rightmost outline ↔
      ∃ first others,
        subtree (range.below item.key) item.child first ∧
        range.Splits item.key ∧
        Children subtree (range.above item.key) items rightmost others ∧
        outline = first + others := by
  constructor
  · rintro ⟨rest, _, last, ⟨first, others, head, splits, tail, rfl⟩,
      final, rfl⟩
    exact ⟨first, others + last, head, splits,
      ⟨rest, others, last, tail, final, rfl⟩, add_assoc _ _ _⟩
  · rintro ⟨first, _, head, splits, ⟨rest, others, last, tail, final, rfl⟩,
      rfl⟩
    exact ⟨rest, first + others, last,
      ⟨first, others, head, splits, tail, rfl⟩, final,
      (add_assoc _ _ _).symm⟩

theorem children_nil :
    Children subtree range [] rightmost outline ↔
      subtree range rightmost outline := by
  constructor
  · rintro ⟨rest, _, last, ⟨rfl, rfl⟩, final, rfl⟩
    rwa [zero_add]
  · intro final
    exact ⟨range, 0, outline, ⟨rfl, rfl⟩, final, (zero_add _).symm⟩

theorem Hole.fill {inner : Range Bytes} {child : PageID}
    (hole : Hole subtree range items rightmost inner child before after)
    (filling : subtree inner child outline) :
    Children subtree range items rightmost (before + outline + after) := by
  cases hole with
  | inner start splits final =>
      rw [add_assoc]
      exact start.children
        (children_cons.mpr ⟨_, _, filling, splits, final, rfl⟩)
  | last start =>
      rw [add_zero]
      exact ⟨_, _, _, start, filling, rfl⟩

theorem Front.contains {key : Bytes} :
    ∀ {items range outline}, Front subtree range items rest outline →
      rest.Contains key → range.Contains key
  | [], _, _, ⟨same, _⟩, inside => same ▸ inside
  | _ :: _, _, _, ⟨_, _, _, splits, tail, _⟩, inside =>
      (tail.contains inside).of_above splits

theorem Front.splits {key : Bytes} :
    ∀ {items range outline}, Front subtree range items rest outline →
      rest.Splits key → range.Splits key
  | [], _, _, ⟨same, _⟩, inside => same ▸ inside
  | _ :: _, _, _, ⟨_, _, _, splits, tail, _⟩, inside =>
      splits.of_above (tail.splits inside)

theorem Front.contains_of_le {key : Bytes} :
    ∀ {items range outline}, Front subtree range items rest outline →
      (∀ item, item ∈ items → item.key ≤ key) → range.Contains key →
      rest.Contains key
  | [], _, _, ⟨same, _⟩, _, inside => same ▸ inside
  | item :: _, _, _, ⟨_, _, _, _, tail, _⟩, above, inside =>
      tail.contains_of_le
        (fun later member => above later (List.mem_cons_of_mem _ member))
        (inside.above (above item List.mem_cons_self))

theorem Front.sorted :
    ∀ {items range outline}, Front subtree range items rest outline →
      SortedSeparators items ∧ ∀ item, item ∈ items → range.Splits item.key
  | [], _, _, _ => ⟨List.Pairwise.nil, fun _ member => (nomatch member)⟩
  | item :: items, range, _, ⟨_, _, _, splits, tail, _⟩ => by
      obtain ⟨sorted, inside⟩ := tail.sorted
      refine ⟨List.Pairwise.cons ?_ sorted, ?_⟩
      · intro later member
        exact (inside later member).1 _ rfl
      · intro later member
        rcases List.mem_cons.mp member with rfl | member
        · exact splits
        · exact splits.of_above (inside later member)

theorem Children.sorted
    (whole : Children subtree range items rightmost outline) :
    SortedSeparators items := by
  obtain ⟨rest, front, last, start, _, _⟩ := whole
  exact start.sorted.1

theorem Children.route {key : Bytes} {child : PageID}
    (whole : Children subtree range items rightmost outline)
    (inside : range.Contains key)
    (routed : Routed items rightmost key child) :
    ∃ inner before filling after,
      Hole subtree range items rightmost inner child before after ∧
      subtree inner child filling ∧ inner.Contains key ∧
      outline = before + filling + after := by
  cases routed with
  | child front item back same under above =>
      subst same
      obtain ⟨middle, before, others, start, final, rfl⟩ := whole.split
      obtain ⟨filling, after, child, splits, tail, rfl⟩ :=
        children_cons.mp final
      exact ⟨_, before, filling, after, Hole.inner start splits tail, child,
        (start.contains_of_le under inside).below above,
        (add_assoc _ _ _).symm⟩
  | last under =>
      obtain ⟨rest, before, filling, start, final, rfl⟩ := whole
      exact ⟨rest, before, filling, 0, Hole.last start, final,
        start.contains_of_le under inside, (add_zero _).symm⟩

theorem Children.first
    (whole : Children subtree range items rightmost outline) :
    ∃ inner filling after,
      Hole subtree range items rightmost inner
        ((items.head?.map InternalItem.child).getD rightmost) 0 after ∧
      subtree inner ((items.head?.map InternalItem.child).getD rightmost)
        filling ∧
      outline = filling + after := by
  cases items with
  | nil =>
      exact ⟨range, outline, 0, Hole.last ⟨rfl, rfl⟩, children_nil.mp whole,
        (add_zero _).symm⟩
  | cons item items =>
      obtain ⟨filling, after, child, splits, tail, rfl⟩ :=
        children_cons.mp whole
      exact ⟨_, filling, after,
        @Hole.inner _ _ [] _ _ _ _ _ _ ⟨rfl, rfl⟩ splits tail, child, rfl⟩

def Orderly (subtree : Family) : Prop :=
  ∀ range id outline, subtree range id outline →
    SortedItems outline.contents ∧
      ∀ item, item ∈ outline.contents →
        item.Admissible ∧ range.Contains item.key

theorem Children.orderly (orderly : Orderly subtree) :
    ∀ {items range outline},
      Children subtree range items rightmost outline →
      SortedItems outline.contents ∧
        ∀ item, item ∈ outline.contents →
          item.Admissible ∧ range.Contains item.key
  | [], _, _, whole => orderly _ _ _ (children_nil.mp whole)
  | separator :: items, range, outline, whole => by
      obtain ⟨first, others, head, splits, tail, rfl⟩ :=
        children_cons.mp whole
      obtain ⟨firstSorted, firstInside⟩ := orderly _ _ _ head
      obtain ⟨otherSorted, otherInside⟩ := tail.orderly orderly
      rw [Outline.contents_add]
      constructor
      · refine List.pairwise_append.mpr ⟨firstSorted, otherSorted, ?_⟩
        intro left leftMember right rightMember
        exact (firstInside left leftMember).2.lt_separator.trans_le
          (otherInside right rightMember).2.separator_le
      · intro item member
        rcases List.mem_append.mp member with inFirst | inOthers
        · exact ⟨(firstInside item inFirst).1,
            (firstInside item inFirst).2.of_below splits⟩
        · exact ⟨(otherInside item inOthers).1,
            (otherInside item inOthers).2.of_above splits⟩

theorem Front.contents_lt (orderly : Orderly subtree) {key : Bytes}
    {item : LeafItem} :
    ∀ {items range outline}, Front subtree range items rest outline →
      rest.Contains key → item ∈ outline.contents → item.key < key
  | [], _, _, ⟨_, empty⟩, _, member => by
      subst empty
      cases member
  | separator :: _, _, _, ⟨_, _, head, _, tail, same⟩, inside, member => by
      subst same
      rw [Outline.contents_add, List.mem_append] at member
      rcases member with inFirst | inOthers
      · exact ((orderly _ _ _ head).2 item inFirst).2.lt_separator.trans_le
          (tail.contains inside).separator_le
      · exact tail.contents_lt orderly inside inOthers

theorem Hole.outside (orderly : Orderly subtree) {inner : Range Bytes}
    {child : PageID} {key : Bytes}
    (hole : Hole subtree range items rightmost inner child before after)
    (within : inner.Contains key) :
    (∀ item, item ∈ before.contents → item.key < key) ∧
      (∀ item, item ∈ after.contents → key < item.key) ∧
      range.Contains key := by
  cases hole with
  | inner start splits final =>
      have wider := within.of_below splits
      refine ⟨fun _ => start.contents_lt orderly wider, ?_,
        start.contains wider⟩
      intro item member
      exact within.lt_separator.trans_le
        ((final.orderly orderly).2 item member).2.separator_le
  | last start =>
      exact ⟨fun _ => start.contents_lt orderly within,
        fun _ member => (nomatch member), start.contains within⟩

def Rooted (subtree : Family) : Prop :=
  ∀ range id outline, subtree range id outline → id ∈ outline.ids

theorem Front.child_mem (rooted : Rooted subtree) {item : InternalItem} :
    ∀ {items range outline}, Front subtree range items rest outline →
      item ∈ items → item.child ∈ outline.ids
  | [], _, _, _, member => nomatch member
  | head :: _, _, _, ⟨_, _, first, _, tail, same⟩, member => by
      subst same
      rw [Outline.add_ids, Multiset.mem_add]
      rcases List.mem_cons.mp member with rfl | later
      · exact .inl (rooted _ _ _ first)
      · exact .inr (tail.child_mem rooted later)

theorem Children.rightmost_mem (rooted : Rooted subtree)
    (whole : Children subtree range items rightmost outline) :
    rightmost ∈ outline.ids := by
  obtain ⟨_, _, _, _, final, rfl⟩ := whole
  rw [Outline.add_ids, Multiset.mem_add]
  exact .inr (rooted _ _ _ final)

end Children

/-! ## Subtrees -/

def Subtree (view : PageID → Page) : Nat → Family
  | 0, range, id, outline =>
      ∃ items,
        LeafPage (view id) items ∧ SortedItems items ∧
        (∀ item, item ∈ items →
          item.Admissible ∧ range.Contains item.key) ∧
        outline = Outline.leaf id items
  | level + 1, range, id, outline =>
      ∃ items rightmost below,
        InternalPage (view id) items rightmost ∧
        (∀ item, item ∈ items → item.key.length ≤ maxKeySize) ∧
        Children (Subtree view level) range items rightmost below ∧
        outline = Outline.page id + below

/-- The page still holds the same node; neighbour pointers may differ. -/
structure SameNode (before after : Page) : Prop where
  leaf : ∀ {items}, LeafPage before items → LeafPage after items
  internal : ∀ {items rightmost}, InternalPage before items rightmost →
    InternalPage after items rightmost

theorem SameNode.of_eq {before after : Page} (same : after = before) :
    SameNode before after :=
  ⟨fun leaf => same ▸ leaf, fun node => same ▸ node⟩

section Subtree

variable {view view' : PageID → Page} {range : Range Bytes} {id : PageID}
  {outline : Outline}

theorem Subtree.congr : ∀ {level range id outline},
    (∀ member, member ∈ outline.ids →
      SameNode (view member) (view' member)) →
    Subtree view level range id outline →
    Subtree view' level range id outline
  | 0, _, _, _, same, ⟨items, leaf, sorted, inside, shape⟩ =>
      ⟨items, (same _ (by simp [shape])).leaf leaf, sorted, inside, shape⟩
  | level + 1, _, _, _, same,
    ⟨items, rightmost, below, node, short, children, shape⟩ => by
      subst shape
      refine ⟨items, rightmost, below, (same _ (by simp)).internal node,
        short, ?_, rfl⟩
      refine children.mono fun range id part bound => Subtree.congr ?_
      intro member inPart
      apply same
      rw [Outline.add_ids, Multiset.mem_add]
      exact .inr (Multiset.mem_of_le bound inPart)

theorem subtree_orderly (view : PageID → Page) :
    ∀ level, Orderly (Subtree view level)
  | 0, range, id, outline, ⟨items, _, sorted, inside, shape⟩ => by
      subst shape
      rw [Outline.contents_leaf]
      exact ⟨sorted, inside⟩
  | level + 1, range, id, outline, ⟨_, _, below, _, _, children, shape⟩ => by
      subst shape
      have whole := children.orderly (subtree_orderly view level)
      rwa [Outline.contents_add, Outline.contents_page, List.nil_append]

theorem subtree_rooted (view : PageID → Page) :
    ∀ level, Rooted (Subtree view level)
  | 0, _, _, _, ⟨_, _, _, _, shape⟩ => by
      subst shape
      simp
  | _ + 1, _, _, _, ⟨_, _, _, _, _, _, shape⟩ => by
      subst shape
      simp

theorem Subtree.height_lt : ∀ {level range id outline},
    Subtree view level range id outline →
    level < Multiset.card outline.ids
  | 0, _, _, _, ⟨_, _, _, _, shape⟩ => by
      subst shape
      simp
  | level + 1, _, _, _, ⟨_, _, _, _, _, children, shape⟩ => by
      subst shape
      obtain ⟨_, _, last, _, final, rfl⟩ := children
      have deeper := Subtree.height_lt final
      simp only [Outline.add_ids, Outline.page_ids, Multiset.card_add,
        Multiset.card_singleton]
      omega

structure Listed (view : PageID → Page) (outline : Outline) : Prop where
  leafPage : ∀ leaf, leaf ∈ outline.leaves →
    LeafPage (view leaf.id) leaf.items
  ids_le : (outline.leaves.map Leaf.id : Multiset PageID) ≤ outline.ids

theorem Listed.mem (listed : Listed view outline) {leaf : Leaf}
    (member : leaf ∈ outline.leaves) : leaf.id ∈ outline.ids :=
  Multiset.mem_of_le listed.ids_le
    (Multiset.mem_coe.mpr (List.mem_map_of_mem member))

theorem listed_zero (view : PageID → Page) : Listed view 0 :=
  ⟨fun _ member => (nomatch member), Multiset.zero_le _⟩

theorem listed_page (view : PageID → Page) (id : PageID) :
    Listed view (Outline.page id) :=
  ⟨fun _ member => (nomatch member), Multiset.zero_le _⟩

theorem Listed.add {left right : Outline} (first : Listed view left)
    (second : Listed view right) : Listed view (left + right) := by
  constructor
  · intro leaf member
    rw [Outline.add_leaves, List.mem_append] at member
    exact member.elim (first.leafPage leaf) (second.leafPage leaf)
  · rw [Outline.add_leaves, List.map_append, ← Multiset.coe_add,
      Outline.add_ids]
    exact add_le_add first.ids_le second.ids_le

theorem Front.listed {subtree : Family} {rest : Range Bytes}
    (listed : ∀ range id outline, subtree range id outline →
      Listed view outline) :
    ∀ {items range outline}, Front subtree range items rest outline →
      Listed view outline
  | [], _, _, ⟨_, empty⟩ => empty ▸ listed_zero view
  | _ :: _, _, _, ⟨_, _, first, _, tail, same⟩ =>
      same ▸ (listed _ _ _ first).add (tail.listed listed)

theorem Children.listed {subtree : Family} {items : List InternalItem}
    {rightmost : PageID}
    (listed : ∀ range id outline, subtree range id outline →
      Listed view outline)
    (whole : Children subtree range items rightmost outline) :
    Listed view outline := by
  obtain ⟨_, _, _, start, final, rfl⟩ := whole
  exact (start.listed listed).add (listed _ _ _ final)

theorem Subtree.listed : ∀ {level range id outline},
    Subtree view level range id outline → Listed view outline
  | 0, _, _, _, ⟨_, page, _, _, shape⟩ => by
      subst shape
      refine ⟨?_, by simp⟩
      intro leaf member
      rw [Outline.leaf_leaves, List.mem_singleton] at member
      subst member
      exact page
  | _ + 1, _, _, _, ⟨_, _, _, _, _, children, shape⟩ => by
      subst shape
      exact (listed_page _ _).add
        (children.listed fun _ _ _ => Subtree.listed)

end Subtree

/-! ## The part of a tree around a subtree -/

/-- Everything of a tree but the subtree under page `id`: the path of parents
up to the root, nearest first, and what lies to the left (parents included) and
to the right of the subtree. -/
inductive Around (view : PageID → Page) (root : PageID) (height : Nat) :
    List PageID → Nat → Range Bytes → PageID → Outline → Outline → Prop
  | top : Around view root height [] height Range.whole root 0 0
  | down {parents : List PageID} {level : Nat} {range inner : Range Bytes}
      {parent child rightmost : PageID} {items : List InternalItem}
      {before after front back : Outline} :
      Around view root height parents (level + 1) range parent before after →
      InternalPage (view parent) items rightmost →
      (∀ item, item ∈ items → item.key.length ≤ maxKeySize) →
      Hole (Subtree view level) range items rightmost inner child
        front back →
      Around view root height (parent :: parents) level inner child
        (before + Outline.page parent + front) (back + after)

namespace Around

variable {view view' : PageID → Page} {root id : PageID} {height level : Nat}
  {parents : List PageID} {range : Range Bytes}
  {before after outline : Outline}

theorem plug
    (around : Around view root height parents level range id before after)
    (subtree : Subtree view level range id outline) :
    Subtree view height Range.whole root (before + outline + after) := by
  induction around generalizing outline with
  | top =>
      rw [zero_add, add_zero]
      exact subtree
  | down _ node short hole inductionHypothesis =>
      have parentTree := inductionHypothesis
        ⟨_, _, _, node, short, hole.fill subtree, rfl⟩
      simpa only [add_assoc] using parentTree

theorem congr
    (around : Around view root height parents level range id before after)
    (same : ∀ member, member ∈ before.ids + after.ids →
      SameNode (view member) (view' member)) :
    Around view' root height parents level range id before after := by
  induction around with
  | top => exact top
  | down _ node short hole inductionHypothesis =>
      simp only [Outline.add_ids, Outline.page_ids, Multiset.mem_add,
        Multiset.mem_singleton] at same inductionHypothesis
      refine down (inductionHypothesis ?_)
        ((same _ (by simp)).internal node) short (hole.mono ?_)
      · rintro member (inBefore | inAfter)
        · exact same member (.inl (.inl (.inl inBefore)))
        · exact same member (.inr (.inr inAfter))
      · intro range id part bound
        refine Subtree.congr fun member inPart => same member ?_
        rcases Multiset.mem_add.mp (Multiset.mem_of_le bound inPart)
          with inFront | inBack
        · exact .inl (.inr inFront)
        · exact .inr (.inl inBack)

theorem outside
    (around : Around view root height parents level range id before after)
    {key : Bytes} (within : range.Contains key) :
    (∀ item, item ∈ before.contents → item.key < key) ∧
      ∀ item, item ∈ after.contents → key < item.key := by
  induction around with
  | top => exact ⟨fun _ member => (nomatch member), fun _ member => (nomatch member)⟩
  | down _ _ _ hole inductionHypothesis =>
      obtain ⟨front, back, wider⟩ :=
        hole.outside (subtree_orderly view _) within
      obtain ⟨left, right⟩ := inductionHypothesis wider
      simp only [Outline.contents_add, Outline.contents_page,
        List.append_nil, List.mem_append]
      constructor
      · rintro item (outer | inner)
        · exact left item outer
        · exact front item inner
      · rintro item (inner | outer)
        · exact back item inner
        · exact right item outer

theorem parent_mem
    (around : Around view root height parents level range id before after)
    {parent : PageID} (member : parent ∈ parents) :
    parent ∈ before.ids ∧
      (view parent).header.type = .pageBTreeInternal := by
  induction around with
  | top => cases member
  | down _ node _ _ inductionHypothesis =>
      rcases List.mem_cons.mp member with rfl | outer
      · exact ⟨by simp, node.type_eq⟩
      · obtain ⟨inside, type⟩ := inductionHypothesis outer
        simp [inside, type]

theorem parents_length
    (around : Around view root height parents level range id before after) :
    parents.length + level = height := by
  induction around with
  | top => simp
  | down _ _ _ _ inductionHypothesis =>
      rw [List.length_cons]
      omega

theorem listed
    (around : Around view root height parents level range id before after) :
    Listed view before ∧ Listed view after := by
  induction around with
  | top => exact ⟨listed_zero view, listed_zero view⟩
  | @down _ _ _ _ parent _ _ _ _ _ _ _ _ _ _ hole inductionHypothesis =>
      obtain ⟨listedBefore, listedAfter⟩ := inductionHypothesis
      have node := listed_page view parent
      cases hole with
      | inner start _ final =>
          exact ⟨(listedBefore.add node).add
              (start.listed fun _ _ _ => Subtree.listed),
            (final.listed fun _ _ _ => Subtree.listed).add listedAfter⟩
      | last start =>
          exact ⟨(listedBefore.add node).add
              (start.listed fun _ _ _ => Subtree.listed),
            (listed_zero view).add listedAfter⟩

end Around

end CocoDB.BTree
