import CocoDB.BTree.Cursor
import CocoDB.BTree.Run
import Mathlib.Data.List.TakeWhile

/-!
# Cursor movements

Where each operation of a cursor leaves it.  A cursor on its way through the
leaves has a list of items ahead of it; `Next` and `Prev` take the first off, and
end when none is left or an empty leaf comes next.
-/

namespace CocoDB.BTree

open Lib LawfulPager

section Scans

variable {σ : Type}

def Yields (Facing : Cursor σ → List LeafItem → Prop)
    (result : Bool × Cursor σ) (ahead : List LeafItem) : Prop :=
  result.2.err = none ∧
    (ahead = [] ∧ result.1 = false ∧ result.2.valid = false ∨
      ahead ≠ [] ∧ result.1 = true ∧ Facing result.2 ahead)

/-- A position from which `move` goes through what lies ahead. -/
structure Advances (Facing : Cursor σ → List LeafItem → Prop)
    (move : Cursor σ → Bool × Cursor σ) (cursor : Cursor σ)
    (item : LeafItem) (rest : List LeafItem) : Prop where
  valid : cursor.isValid = true
  current_eq : cursor.current = some item
  yields : Yields Facing (move cursor) rest

/-- The items handed to `fn`, up to the first it declines. -/
def callsOf (fn : Bytes → Bytes → Bool) : List LeafItem → List LeafItem
  | [] => []
  | item :: rest =>
      item :: if fn item.key item.value then callsOf fn rest else []

theorem scan_spec {Facing : Cursor σ → List LeafItem → Prop}
    {move : Cursor σ → Bool × Cursor σ}
    (advances : ∀ {cursor ahead}, Facing cursor ahead →
      ∃ item rest, ahead = item :: rest ∧
        Advances Facing move cursor item rest)
    (past : Bytes → Bool) (fn : Bytes → Bytes → Bool) :
    ∀ {fuel ahead cursor}, Facing cursor ahead → ahead.length ≤ fuel →
      cursor.err = none →
      ∃ final, Cursor.scan move past fn fuel cursor =
          some (callsOf fn (ahead.takeWhile fun item => ! past item.key),
            final) ∧
        final.err = none
  | 0, ahead, cursor, facing, short, _ => by
      obtain ⟨item, rest, rfl, _⟩ := advances facing
      simp at short
  | fuel + 1, ahead, cursor, facing, short, fine => by
      obtain ⟨item, rest, rfl, advance⟩ := advances facing
      unfold Cursor.scan Cursor.key Cursor.value
      rw [if_neg (by simp [advance.valid]), advance.current_eq]
      simp only [Option.map_some, Option.getD_some]
      by_cases ended : past item.key = true
      · rw [if_pos ended, List.takeWhile_cons_of_neg (by simp [ended])]
        exact ⟨cursor, rfl, fine⟩
      rw [if_neg ended, List.takeWhile_cons_of_pos (by simpa using ended),
        callsOf]
      by_cases declined : fn item.key item.value = false
      · rw [if_pos declined, if_neg (by simp [declined])]
        exact ⟨cursor, rfl, fine⟩
      rw [if_neg declined, if_pos (by simpa using declined)]
      obtain ⟨still, yielded⟩ := advance.yields
      rcases moved : move cursor with ⟨found, after⟩
      rw [moved] at still yielded
      simp only at still yielded
      rcases yielded with ⟨rfl, rfl, _⟩ | ⟨_, rfl, next⟩
      · exact ⟨after, rfl, still⟩
      · obtain ⟨final, scanned, calm⟩ := scan_spec advances past fn next
          (Nat.le_of_succ_le_succ short) still
        refine ⟨final, ?_, calm⟩
        simp only [scanned]
        rfl

theorem scanFrom_spec {Facing : Cursor σ → List LeafItem → Prop}
    {move : Cursor σ → Bool × Cursor σ}
    (advances : ∀ {cursor ahead}, Facing cursor ahead →
      ∃ item rest, ahead = item :: rest ∧
        Advances Facing move cursor item rest)
    (past : Bytes → Bool) (fn : Bytes → Bytes → Bool)
    {placed : Bool × Cursor σ} {ahead : List LeafItem}
    (yields : Yields Facing placed ahead) {fuel : Nat}
    (enough : ahead.length ≤ fuel) :
    ∃ final, Cursor.scanFrom placed move past fn fuel =
        some (callsOf fn (ahead.takeWhile fun item => ! past item.key),
          final) ∧
      final.err = none := by
  obtain ⟨fine, yielded⟩ := yields
  rcases placed with ⟨found, cursor⟩
  simp only at fine yielded
  rcases yielded with ⟨rfl, rfl, _⟩ | ⟨_, rfl, facing⟩
  · exact ⟨cursor, rfl, fine⟩
  · exact scan_spec advances past fn facing enough fine

theorem callsOf_always (items : List LeafItem) :
    callsOf (fun _ _ => true) items = items := by
  induction items with
  | nil => rfl
  | cons item items inductionHypothesis =>
      rw [callsOf, if_pos rfl, inductionHypothesis]

theorem scanFrom_all {Facing : Cursor σ → List LeafItem → Prop}
    {move : Cursor σ → Bool × Cursor σ}
    (advances : ∀ {cursor ahead}, Facing cursor ahead →
      ∃ item rest, ahead = item :: rest ∧
        Advances Facing move cursor item rest)
    {placed : Bool × Cursor σ} {ahead : List LeafItem}
    (yields : Yields Facing placed ahead) {fuel : Nat}
    (enough : ahead.length ≤ fuel) :
    ∃ final, Cursor.scanFrom placed move (fun _ => false) (fun _ _ => true)
      fuel = some (ahead, final) ∧ final.err = none := by
  have scanned := scanFrom_spec advances (fun _ => false) (fun _ _ => true)
    yields enough
  have whole : (ahead.takeWhile fun _ => ! false) = ahead :=
    List.takeWhile_eq_self_iff.mpr fun _ _ => rfl
  rwa [callsOf_always, whole] at scanned

theorem yields_unrooted {Facing : Cursor σ → List LeafItem → Prop}
    (tree : Tree σ) : Yields Facing (false, Cursor.new tree) [] :=
  ⟨rfl, .inl ⟨rfl, rfl, rfl⟩⟩

end Scans

/-! ## The edges of a tree -/

theorem InternalPage.leftmostChild_eq {page : Page}
    {items : List InternalItem} {rightmost : PageID}
    (node : InternalPage page items rightmost) :
    leftmostChild page =
      (items.head?.map InternalItem.child).getD rightmost := by
  unfold leftmostChild
  cases items with
  | nil =>
      have none : childAndKeyAt page 0 = none := by
        unfold childAndKeyAt Slotted.getDirect Slotted.lookup
        rw [if_pos (by rw [node.slotCount_eq]; exact Nat.le_refl 0)]
      rw [none]
      exact node.rightmost_eq
  | cons item items =>
      have found : childAndKeyAt page 0 = some item :=
        node.childAndKeyAt_eq rfl
      rw [found]
      rfl

theorem routesWithin_leftmost {σ : Type} [Pager σ] (start : σ) :
    RoutesWithin start leftmostChild
      fun _ before _ => before.leaves = [] := by
  intro level range id items rightmost below before after node children none
  obtain ⟨inner, filling, rest, hole, child, same⟩ := children.first
  rw [← node.leftmostChild_eq] at hole child
  refine ⟨inner, 0, filling, rest, hole, child, ?_, ?_⟩
  · rw [zero_add]
    exact same
  · simp [none]

theorem routesWithin_rightmost {σ : Type} [Pager σ] (start : σ) :
    RoutesWithin start rightmostChild
      fun _ _ after => after.leaves = [] := by
  intro level range id items rightmost below before after node children none
  obtain ⟨rest, front, filling, ahead, child, same⟩ := children
  rw [node.rightmost_eq]
  refine ⟨rest, front, filling, 0, Hole.last ahead, child, ?_, ?_⟩
  · rw [add_zero]
    exact same
  · simp [none]

section Cursors

variable {σ : Type} [Pager σ] [LawfulPager σ] {tree : Tree σ}
  {height : Nat} {outline : Outline}

/-! ## Positions -/

structure At (cursor : Cursor σ) (outline : Outline) (front : List Leaf)
    (leaf : Leaf) (back : List Leaf) (index : Nat) : Prop where
  stands : ∃ height, Stands cursor.tree height outline
  leaves_eq : outline.leaves = front ++ leaf :: back
  leaf_eq : cursor.leaf = leaf.id
  items_eq : cursor.items = leaf.items
  idx_eq : cursor.idx = index
  below : index < leaf.items.length
  valid : cursor.valid = true
  err_eq : cursor.err = none

def reach (leaves : List Leaf) : List LeafItem :=
  (leaves.takeWhile fun leaf => ! leaf.items.isEmpty).flatMap Leaf.items

theorem reach_cons (leaf : Leaf) (leaves : List Leaf) :
    reach (leaf :: leaves) =
      if leaf.items = [] then [] else leaf.items ++ reach leaves := by
  unfold reach
  rw [List.takeWhile_cons]
  by_cases empty : leaf.items = [] <;> simp [empty]

def Leaf.mirror (leaf : Leaf) : Leaf :=
  { leaf with items := leaf.items.reverse }

def mirror (leaves : List Leaf) : List Leaf :=
  (leaves.map Leaf.mirror).reverse

theorem mirror_append (front back : List Leaf) :
    mirror (front ++ back) = mirror back ++ mirror front := by
  simp [mirror]

theorem mirror_items (leaves : List Leaf) :
    (mirror leaves).flatMap Leaf.items =
      (leaves.flatMap Leaf.items).reverse := by
  induction leaves with
  | nil => rfl
  | cons leaf leaves inductionHypothesis =>
      rw [show leaf :: leaves = [leaf] ++ leaves from rfl, mirror_append,
        List.flatMap_append, inductionHypothesis, List.flatMap_append,
        List.reverse_append]
      simp [mirror, Leaf.mirror]

def Forward (outline : Outline) (cursor : Cursor σ)
    (ahead : List LeafItem) : Prop :=
  ∃ front leaf back index, At cursor outline front leaf back index ∧
    ahead = leaf.items.drop index ++ reach back

def Backward (outline : Outline) (cursor : Cursor σ)
    (ahead : List LeafItem) : Prop :=
  ∃ front leaf back index, At cursor outline front leaf back index ∧
    ahead = (leaf.items.take (index + 1)).reverse ++ reach (mirror front)

theorem Linked.prev_eq {view : PageID → Page} {prev next leafID : PageID}
    (front : List PageID) {back : List PageID}
    (linked : Linked view prev (front ++ leafID :: back) next) :
    prevLeaf (view leafID) = front.getLastD prev :=
  (linked_append.mp linked).2.1

theorem Stands.get_leaf (stands : Stands tree height outline) {leaf : Leaf}
    (member : leaf ∈ outline.leaves) :
    leaf.id ≠ invalidPageID ∧
      ∃ state, Pager.get leaf.id tree.pager = (.ok (), state) ∧
        Stands { tree with pager := state } height outline ∧
        leafItems (Pager.page state leaf.id) = leaf.items := by
  have held := stands.allocated (stands.subtree.listed.mem member)
  obtain ⟨done, good⟩ := get_ok stands.good held
  have after := stands.frame (evolves_get stands.good held) (by simp)
  exact ⟨allocated_valid stands.good held, (Pager.get leaf.id tree.pager).2,
    Prod.ext done rfl, after,
    (after.subtree.listed.leafPage leaf member).leafItems_eq⟩

namespace Cursor

variable {cursor : Cursor σ} {front back : List Leaf} {leaf : Leaf}
  {index : Nat} {state : σ}

theorem enter_at
    (stands : Stands { cursor.tree with pager := state } height outline)
    (leaves : outline.leaves = front ++ leaf :: back)
    (fine : cursor.err = none) (place : Nat → Int) (index : Nat)
    (placed : place leaf.items.length = index)
    (below : index < leaf.items.length) :
    (cursor.enter leaf.id state place).1 = true ∧
      At (cursor.enter leaf.id state place).2 outline front leaf back
        index := by
  have items := (stands.subtree.listed.leafPage leaf
    (by rw [leaves]; simp)).leafItems_eq
  have nonempty : ¬ leaf.items.length = 0 := by omega
  unfold enter
  simp only [items, if_neg nonempty, placed]
  exact ⟨trivial, ⟨height, stands⟩, leaves, rfl, rfl, rfl, below, rfl, fine⟩

theorem enter_empty
    (stands : Stands { cursor.tree with pager := state } height outline)
    (member : leaf ∈ outline.leaves) (empty : leaf.items = [])
    (fine : cursor.err = none) (place : Nat → Int) :
    (cursor.enter leaf.id state place).1 = false ∧
      (cursor.enter leaf.id state place).2.valid = false ∧
      (cursor.enter leaf.id state place).2.err = none := by
  have items := (stands.subtree.listed.leafPage leaf member).leafItems_eq
  unfold enter
  rw [empty] at items
  simp only [items, List.length_nil, if_true]
  exact ⟨trivial, trivial, fine⟩

theorem enter_forward
    (stands : Stands { cursor.tree with pager := state } height outline)
    (leaves : outline.leaves = front ++ leaf :: back)
    (fine : cursor.err = none) :
    Yields (Forward outline) (cursor.enter leaf.id state fun _ => 0)
      (reach (leaf :: back)) := by
  rw [reach_cons]
  by_cases empty : leaf.items = []
  · obtain ⟨stopped, invalid, still⟩ := enter_empty stands
      (by rw [leaves]; simp) empty fine fun _ => 0
    rw [if_pos empty]
    exact ⟨still, .inl ⟨rfl, stopped, invalid⟩⟩
  · obtain ⟨moved, position⟩ := enter_at stands leaves fine (fun _ => 0) 0
      rfl (List.length_pos_iff.mpr empty)
    rw [if_neg empty]
    refine ⟨position.err_eq, .inr ⟨?_, moved, front, leaf, back, 0, position,
      rfl⟩⟩
    simp [empty]

theorem enter_backward
    (stands : Stands { cursor.tree with pager := state } height outline)
    (leaves : outline.leaves = front ++ leaf :: back)
    (fine : cursor.err = none) :
    Yields (Backward outline)
      (cursor.enter leaf.id state fun length => length - 1)
      (reach (mirror (front ++ [leaf]))) := by
  have turned : mirror (front ++ [leaf]) =
      leaf.mirror :: mirror front := by
    simp [mirror]
  have same : leaf.mirror.items = leaf.items.reverse := rfl
  rw [turned, reach_cons, same]
  by_cases empty : leaf.items = []
  · obtain ⟨stopped, invalid, still⟩ := enter_empty stands
      (by rw [leaves]; simp) empty fine fun length => length - 1
    rw [if_pos (by rw [empty]; rfl)]
    exact ⟨still, .inl ⟨rfl, stopped, invalid⟩⟩
  · have positive := List.length_pos_iff.mpr empty
    obtain ⟨moved, position⟩ := enter_at stands leaves fine
      (fun length => length - 1) (leaf.items.length - 1) (by omega)
      (by omega)
    rw [if_neg (by simpa using empty)]
    refine ⟨position.err_eq, .inr ⟨by simp [empty], moved, front, leaf, back,
      _, position, ?_⟩⟩
    rw [Nat.sub_add_cancel positive, List.take_length]

theorem follow_forward (stands : Stands cursor.tree height outline)
    (leaves : outline.leaves = front ++ back) (fine : cursor.err = none) :
    Yields (Forward outline)
      (cursor.follow ((back.map Leaf.id).headD invalidPageID) fun _ => 0)
      (reach back) := by
  unfold follow
  cases back with
  | nil =>
      rw [List.map_nil, List.headD_nil, if_pos rfl]
      exact ⟨fine, .inl ⟨rfl, rfl, rfl⟩⟩
  | cons leaf back =>
      have member : leaf ∈ outline.leaves := by
        rw [leaves]
        simp
      obtain ⟨proper, state, got, after, _⟩ := stands.get_leaf member
      rw [List.map_cons, List.headD_cons, if_neg proper, got]
      exact enter_forward after leaves fine

theorem follow_backward (stands : Stands cursor.tree height outline)
    (leaves : outline.leaves = front ++ back) (fine : cursor.err = none) :
    Yields (Backward outline)
      (cursor.follow ((front.map Leaf.id).getLastD invalidPageID)
        fun length => length - 1)
      (reach (mirror front)) := by
  unfold follow
  rcases List.eq_nil_or_concat front with rfl | ⟨front, leaf, rfl⟩
  · rw [List.map_nil, List.getLastD_nil, if_pos rfl]
    exact ⟨fine, .inl ⟨rfl, rfl, rfl⟩⟩
  · have member : leaf ∈ outline.leaves := by
      rw [leaves]
      simp
    obtain ⟨proper, state, got, after, _⟩ := stands.get_leaf member
    have lastID : ((front ++ [leaf]).map Leaf.id).getLastD invalidPageID =
        leaf.id := by
      simp
    rw [List.concat_eq_append] at leaves ⊢
    rw [lastID, if_neg proper, got]
    rw [List.append_assoc] at leaves
    exact enter_backward after leaves fine

end Cursor

theorem At.linked {cursor : Cursor σ} {front back : List Leaf} {leaf : Leaf}
    {index : Nat} (position : At cursor outline front leaf back index) :
    Linked (Pager.page cursor.tree.pager) invalidPageID
      (front.map Leaf.id ++ leaf.id :: back.map Leaf.id)
      invalidPageID := by
  obtain ⟨height, stands⟩ := position.stands
  have linked := stands.linked
  rw [position.leaves_eq, List.map_append, List.map_cons] at linked
  exact linked

theorem At.current_eq {cursor : Cursor σ} {front back : List Leaf}
    {leaf : Leaf} {index : Nat}
    (position : At cursor outline front leaf back index) :
    cursor.isValid = true ∧
      cursor.current = some (leaf.items.get ⟨index, position.below⟩) := by
  have valid : cursor.isValid = true := by
    unfold Cursor.isValid
    rw [position.valid, position.err_eq]
    rfl
  refine ⟨valid, ?_⟩
  unfold Cursor.current
  rw [if_neg (by rw [valid, position.idx_eq]; simp), position.items_eq,
    position.idx_eq]
  exact List.getElem?_eq_getElem position.below

theorem Forward.advances {cursor : Cursor σ} {ahead : List LeafItem}
    (forward : Forward outline cursor ahead) :
    ∃ item rest, ahead = item :: rest ∧
      Advances (Forward outline) Cursor.next cursor item rest := by
  obtain ⟨front, leaf, back, index, position, rfl⟩ := forward
  obtain ⟨valid, current⟩ := position.current_eq
  refine ⟨_, leaf.items.drop (index + 1) ++ reach back, ?_, valid, current,
    ?_⟩
  · rw [List.drop_eq_getElem_cons position.below]
    rfl
  have active : ¬ cursor.valid = false := by simp [position.valid]
  unfold Cursor.next
  rw [if_neg active]
  simp only [position.idx_eq, position.items_eq]
  by_cases more : index + 1 < leaf.items.length
  · rw [if_pos (by omega)]
    refine ⟨position.err_eq, .inr ⟨?_, rfl, front, leaf, back, index + 1,
      ⟨position.stands, position.leaves_eq, position.leaf_eq, rfl, rfl, more,
        position.valid, position.err_eq⟩, rfl⟩⟩
    intro none
    have length := congrArg List.length none
    simp only [List.length_append, List.length_drop, List.length_nil] at length
    omega
  · rw [if_neg (by omega), List.drop_of_length_le (by omega),
      List.nil_append, position.leaf_eq,
      position.linked.next_eq (back.map Leaf.id)]
    obtain ⟨height, stands⟩ := position.stands
    have leaves := position.leaves_eq
    rw [show front ++ leaf :: back = (front ++ [leaf]) ++ back by simp]
      at leaves
    exact Cursor.follow_forward stands leaves position.err_eq

theorem Backward.advances {cursor : Cursor σ} {ahead : List LeafItem}
    (backward : Backward outline cursor ahead) :
    ∃ item rest, ahead = item :: rest ∧
      Advances (Backward outline) Cursor.prev cursor item rest := by
  obtain ⟨front, leaf, back, index, position, rfl⟩ := backward
  obtain ⟨valid, current⟩ := position.current_eq
  refine ⟨_, (leaf.items.take index).reverse ++ reach (mirror front), ?_,
    valid, current, ?_⟩
  · rw [List.take_succ_eq_append_getElem position.below,
      List.reverse_append]
    rfl
  have active : ¬ cursor.valid = false := by simp [position.valid]
  unfold Cursor.prev
  rw [if_neg active]
  simp only [position.idx_eq, position.items_eq]
  cases index with
  | succ index =>
      rw [if_pos (by omega)]
      have below := position.below
      refine ⟨position.err_eq, .inr ⟨?_, rfl, front, leaf, back, index,
        ⟨position.stands, position.leaves_eq, position.leaf_eq, rfl, by simp,
          by omega, position.valid, position.err_eq⟩, rfl⟩⟩
      intro none
      have length := congrArg List.length none
      simp only [List.length_append, List.length_reverse, List.length_take,
        List.length_nil] at length
      omega
  | zero =>
      rw [if_neg (by omega), List.take_zero, List.reverse_nil,
        List.nil_append, position.leaf_eq,
        position.linked.prev_eq (front.map Leaf.id)]
      obtain ⟨height, stands⟩ := position.stands
      exact Cursor.follow_backward stands position.leaves_eq position.err_eq

/-! ## Placing a cursor -/

theorem Represents.first_spec {cursor : Cursor σ}
    (represents : Represents cursor.tree height outline) :
    Yields (Forward outline) cursor.first (reach outline.leaves) := by
  unfold Cursor.first findLeftmostLeaf
  cases represents with
  | empty missing _ =>
      rw [if_pos (show cursor.release.tree.root = _ from missing)]
      exact yields_unrooted _
  | grown stands =>
      have rooted : ¬ cursor.release.tree.root = invalidPageID :=
        stands.root_ne
      obtain ⟨leafID, path, range, items, before, after, final, walk, _,
        standsNow, arrival, none⟩ :=
        stands.descend_spec (routesWithin_leftmost _) rfl
      have leaves : outline.leaves = [] ++ ⟨leafID, items⟩ :: after.leaves := by
        rw [arrival.total_eq]
        simp [none]
      have fine : (Cursor.new cursor.tree).err = Option.none := rfl
      have standsNew : Stands
          { (Cursor.new cursor.tree).tree with pager := final } height
          outline := standsNow
      simp only [if_neg rooted]
      rw [walkDown_eq_descend _ _ _ []]
      simp only [Cursor.release, Cursor.new, walk, Except.map]
      rw [leaves, List.nil_append]
      exact Cursor.enter_forward standsNew leaves fine

theorem Represents.first_new (represents : Represents tree height outline) :
    Yields (Forward outline) (Cursor.new tree).first
      (reach outline.leaves) :=
  Represents.first_spec represents

theorem Represents.last_spec {cursor : Cursor σ}
    (represents : Represents cursor.tree height outline) :
    Yields (Backward outline) cursor.last
      (reach (mirror outline.leaves)) := by
  unfold Cursor.last findRightmostLeaf
  cases represents with
  | empty missing _ =>
      rw [if_pos (show cursor.release.tree.root = _ from missing)]
      exact yields_unrooted _
  | grown stands =>
      have rooted : ¬ cursor.release.tree.root = invalidPageID :=
        stands.root_ne
      obtain ⟨leafID, path, range, items, before, after, final, walk, _,
        standsNow, arrival, none⟩ :=
        stands.descend_spec (routesWithin_rightmost _) rfl
      have leaves : outline.leaves = before.leaves ++ [⟨leafID, items⟩] := by
        rw [arrival.total_eq]
        simp [none]
      have fine : (Cursor.new cursor.tree).err = Option.none := rfl
      have standsNew : Stands
          { (Cursor.new cursor.tree).tree with pager := final } height
          outline := standsNow
      simp only [if_neg rooted]
      rw [walkDown_eq_descend _ _ _ []]
      simp only [Cursor.release, Cursor.new, walk, Except.map]
      rw [leaves]
      exact Cursor.enter_backward standsNew leaves fine

theorem SearchResult.drop_eq {items : List LeafItem} {key : Bytes}
    {place : Nat × Bool} (sorted : SortedItems items)
    (result : SearchResult items key place) :
    items.drop place.1 =
      items.filter (fun item => decide (key ≤ item.key)) := by
  obtain ⟨before, at', after, divided, length, _⟩ := result.divides sorted
  have low : before.filter (fun item => decide (key ≤ item.key)) = [] := by
    rw [List.filter_eq_nil_iff]
    intro item member
    simpa using divided.before_lt item member
  have high : (at' ++ after).filter (fun item => decide (key ≤ item.key)) =
      at' ++ after := by
    rw [List.filter_eq_self]
    intro item member
    rw [decide_eq_true_eq]
    rcases List.mem_append.mp member with same | above
    · exact (divided.at_eq item same).ge
    · exact (divided.after_gt item above).le
  rw [divided.items_eq, List.append_assoc, List.filter_append, low, high,
    ← length, List.drop_left, List.nil_append]

theorem Stands.seek_spec {cursor : Cursor σ}
    (stands : Stands cursor.tree height outline) (key : Bytes) :
    ∃ front id items back, Located key outline.leaves front id items back ∧
      SortedItems items ∧
      Yields (Forward outline) (cursor.seek key)
        (items.filter (fun item => decide (key ≤ item.key)) ++
          reach back) := by
  have rooted : ¬ cursor.release.tree.root = invalidPageID :=
    stands.root_ne
  obtain ⟨leafID, path, range, items, before, after, final, walk, _,
    standsNow, arrival, inside⟩ := stands.findLeaf_spec key
  have located := arrival.located inside
  have leaves := located.leaves_eq
  have result := arrival.leaf.binarySearch_spec arrival.sorted key
  refine ⟨before.leaves, leafID, items, after.leaves, located, arrival.sorted,
    ?_⟩
  rw [← result.drop_eq arrival.sorted]
  unfold Cursor.seek
  simp only [if_neg rooted]
  simp only [Cursor.release, Cursor.new, walk, arrival.leaf.leafItems_eq]
  by_cases below :
    (binarySearch (Pager.page final leafID) key).1 < items.length
  · rw [if_pos below]
    refine ⟨rfl, .inr ⟨?_, rfl, before.leaves, ⟨leafID, items⟩, after.leaves,
      _, ⟨⟨height, standsNow⟩, leaves, rfl, rfl, rfl, below, rfl, rfl⟩, rfl⟩⟩
    intro none
    have length := congrArg List.length none
    simp only [List.length_append, List.length_drop, List.length_nil] at length
    omega
  · have linked := standsNow.linked
    rw [leaves, List.map_append, List.map_cons] at linked
    rw [if_neg below, List.drop_of_length_le (by omega), List.nil_append,
      linked.next_eq (after.leaves.map Leaf.id)]
    rw [show before.leaves ++ Leaf.mk leafID items :: after.leaves =
      (before.leaves ++ [⟨leafID, items⟩]) ++ after.leaves by simp] at leaves
    apply Cursor.follow_forward
    · exact standsNow
    · exact leaves
    · rfl

end Cursors

end CocoDB.BTree
