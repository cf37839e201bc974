import CocoDB.BTree.Shape
import CocoDB.BTree.Tree
import Mathlib.Data.Finset.Card
import Mathlib.Data.Finset.Range

/-!
# The tree invariant

`Stands tree height outline`: the root page carries a B+tree whose pages are
allocated and pairwise distinct, and whose leaves are doubly linked in key
order.  A tree without a root page stands for the empty outline.
-/

namespace CocoDB.BTree

open Lib LawfulPager

/-! ## The leaf chain -/

/-- The listed leaves point at each other, at `prev` before the first one and
at `next` after the last one. -/
def Linked (view : PageID → Page) (prev : PageID) :
    List PageID → PageID → Prop
  | [], _ => True
  | id :: rest, next =>
      prevLeaf (view id) = prev ∧
      nextLeaf (view id) = rest.headD next ∧
      Linked view id rest next

section Linked

variable {view view' : PageID → Page} {prev next id : PageID}

theorem linked_append {left right : List PageID} :
    Linked view prev (left ++ right) next ↔
      Linked view prev left (right.headD next) ∧
        Linked view (left.getLastD prev) right next := by
  induction left generalizing prev with
  | nil => simp [Linked]
  | cons first left inductionHypothesis =>
      simp only [List.cons_append, Linked, inductionHypothesis,
        List.getLastD_cons, and_assoc]
      have head : (left ++ right).headD next =
          left.headD (right.headD next) := by
        cases left <;> rfl
      rw [head]

theorem Linked.congr {ids : List PageID}
    (linked : Linked view prev ids next)
    (prevSame : ∀ id, id ∈ ids → prevLeaf (view' id) = prevLeaf (view id))
    (nextSame : ∀ id, id ∈ ids → nextLeaf (view' id) = nextLeaf (view id)) :
    Linked view' prev ids next := by
  induction ids generalizing prev with
  | nil => trivial
  | cons first rest inductionHypothesis =>
      obtain ⟨prevAt, nextAt, tail⟩ := linked
      refine ⟨(prevSame first List.mem_cons_self).trans prevAt,
        (nextSame first List.mem_cons_self).trans nextAt,
        inductionHypothesis tail ?_ ?_⟩
      · exact fun id member => prevSame id (List.mem_cons_of_mem _ member)
      · exact fun id member => nextSame id (List.mem_cons_of_mem _ member)

end Linked

/-! ## Bindings -/

def bindings (items : List LeafItem) (key : Bytes) : Option Bytes :=
  (items.find? fun item => item.key = key).map LeafItem.value

@[simp]
theorem bindings_nil (key : Bytes) : bindings [] key = none := rfl

theorem bindings_append (left right : List LeafItem) (key : Bytes) :
    bindings (left ++ right) key =
      (bindings left key).or (bindings right key) := by
  unfold bindings
  rw [List.find?_append]
  cases left.find? _ <;> rfl

theorem bindings_absent {items : List LeafItem} {key : Bytes}
    (absent : ∀ item, item ∈ items → item.key ≠ key) :
    bindings items key = none := by
  unfold bindings
  rw [List.find?_eq_none.mpr]
  · rfl
  · intro item member
    simpa using absent item member

theorem bindings_cons (item : LeafItem) (rest : List LeafItem)
    (key : Bytes) :
    bindings (item :: rest) key =
      if item.key = key then some item.value else bindings rest key := by
  unfold bindings
  rw [List.find?_cons]
  by_cases same : item.key = key <;> simp [same]

theorem SortedItems.bindings_mem {items : List LeafItem}
    (sorted : SortedItems items) {item : LeafItem} (member : item ∈ items) :
    bindings items item.key = some item.value := by
  induction items with
  | nil => cases member
  | cons head tail inductionHypothesis =>
      rw [bindings_cons]
      obtain ⟨below, sortedTail⟩ := List.pairwise_cons.mp sorted
      rcases List.mem_cons.mp member with rfl | later
      · rw [if_pos rfl]
      · rw [if_neg (below item later).ne, inductionHypothesis sortedTail later]

theorem key_mem_of_bindings {items : List LeafItem} {key value : Bytes}
    (bound : bindings items key = some value) :
    key ∈ items.map LeafItem.key := by
  unfold bindings at bound
  obtain ⟨item, found, _⟩ := Option.map_eq_some_iff.mp bound
  have same : item.key = key := by simpa using List.find?_some found
  rw [← same]
  exact List.mem_map_of_mem (List.mem_of_find?_eq_some found)

theorem SearchResult.bindings_eq {items : List LeafItem} {key : Bytes}
    {index : Nat} {found : Bool} (sorted : SortedItems items)
    (result : SearchResult items key (index, found)) :
    bindings items key =
      if found then (items[index]?).map LeafItem.value else none := by
  cases found with
  | true =>
      obtain ⟨item, stored, rfl⟩ := result
      rw [sorted.bindings_mem (List.mem_of_getElem? stored), stored]
      rfl
  | false =>
      obtain ⟨_, before, after⟩ := result
      rw [if_neg (by simp)]
      apply bindings_absent
      intro item member
      rw [← List.take_append_drop index items, List.mem_append] at member
      rcases member with low | high
      · exact (before item low).ne
      · exact (after item high).ne'

section Stands

variable {σ : Type} [Pager σ] [LawfulPager σ]

/-- The invariant of a tree with a root page. -/
structure Stands (tree : Tree σ) (height : Nat) (outline : Outline) :
    Prop where
  good : Good tree.pager
  subtree : Subtree (Pager.page tree.pager) height Range.whole tree.root
    outline
  nodup : outline.ids.Nodup
  allocated : ∀ {id}, id ∈ outline.ids → Allocated tree.pager id
  linked : Linked (Pager.page tree.pager) invalidPageID
    (outline.leaves.map Leaf.id) invalidPageID

inductive Represents (tree : Tree σ) : Nat → Outline → Prop
  | empty : tree.root = invalidPageID → Good tree.pager →
      Represents tree 0 0
  | grown {height : Nat} {outline : Outline} :
      Stands tree height outline → Represents tree height outline

namespace Stands

variable {tree : Tree σ} {height : Nat} {outline : Outline}

theorem root_ne (stands : Stands tree height outline) :
    tree.root ≠ invalidPageID :=
  allocated_valid stands.good
    (stands.allocated (subtree_rooted _ _ _ _ _ stands.subtree))

theorem height_lt (stands : Stands tree height outline) :
    height < Pager.pageCount tree.pager := by
  have levels := stands.subtree.height_lt
  have distinct : (outline.ids.map UInt64.toNat).Nodup :=
    stands.nodup.map fun _ _ same => UInt64.toNat_inj.mp same
  have bound : (outline.ids.map UInt64.toNat).toFinset ⊆
      Finset.range (Pager.pageCount tree.pager) := by
    intro number member
    rw [Multiset.mem_toFinset, Multiset.mem_map] at member
    obtain ⟨id, inside, rfl⟩ := member
    exact Finset.mem_range.mpr
      (allocated_lt stands.good (stands.allocated inside))
  have count := Finset.card_le_card bound
  rw [Multiset.toFinset_card_of_nodup distinct, Multiset.card_map,
    Finset.card_range] at count
  omega

theorem sorted (stands : Stands tree height outline) :
    SortedItems outline.contents :=
  (subtree_orderly _ _ _ _ _ stands.subtree).1

theorem frame (stands : Stands tree height outline) {after : σ}
    {touched : Set PageID} {cost : Nat}
    (evolution : Evolves tree.pager after touched cost)
    (apart : ∀ id, id ∈ outline.ids → id ∉ touched) :
    Stands { tree with pager := after } height outline := by
  have same : ∀ id, id ∈ outline.ids →
      Pager.page after id = Pager.page tree.pager id := fun id member =>
    evolution.frame (stands.allocated member) (apart id member)
  have leafSame : ∀ id, id ∈ outline.leaves.map Leaf.id →
      Pager.page after id = Pager.page tree.pager id := by
    intro id member
    obtain ⟨leaf, listed, rfl⟩ := List.mem_map.mp member
    exact same leaf.id (stands.subtree.listed.mem listed)
  refine ⟨evolution.good, ?_, stands.nodup,
    fun member => evolution.keeps (stands.allocated member), ?_⟩
  · exact stands.subtree.congr fun id member =>
      SameNode.of_eq (same id member)
  · exact stands.linked.congr
      (fun id member => by rw [leafSame id member])
      (fun id member => by rw [leafSame id member])

end Stands

theorem Represents.good {tree : Tree σ} {height : Nat} {outline : Outline}
    (represents : Represents tree height outline) : Good tree.pager := by
  cases represents with
  | empty _ good => exact good
  | grown stands => exact stands.good

theorem Represents.frame {tree : Tree σ} {height : Nat} {outline : Outline}
    (represents : Represents tree height outline) {after : σ}
    {touched : Set PageID} {cost : Nat}
    (evolution : Evolves tree.pager after touched cost)
    (apart : ∀ id, id ∈ outline.ids → id ∉ touched) :
    Represents { tree with pager := after } height outline := by
  cases represents with
  | empty missing good => exact .empty missing evolution.good
  | grown stands => exact .grown (stands.frame evolution apart)

theorem Represents.sorted {tree : Tree σ} {height : Nat} {outline : Outline}
    (represents : Represents tree height outline) :
    SortedItems outline.contents := by
  cases represents with
  | empty _ _ => exact List.Pairwise.nil
  | grown stands => exact stands.sorted

end Stands

end CocoDB.BTree
