import CocoDB.BTree.CursorMoves

/-!
# What cursors visit

Deletion leaves empty leaves behind, and a scan ends at an empty leaf.  Scans
are complete exactly when no leaf is empty or all are.
-/

namespace CocoDB.BTree

open Lib LawfulPager

/-! ## The leaves of a tree -/

def childIDs (page : Page) : List PageID :=
  (internalItems page).map InternalItem.child ++ [rightmostChild page]

def leavesBelow (view : PageID → Page) : Nat → PageID → List PageID
  | 0, _ => []
  | depth + 1, id =>
      if (view id).header.type = .pageBTreeLeaf then [id]
      else (childIDs (view id)).flatMap (leavesBelow view depth)

def leafPages {σ : Type} [Pager σ] (tree : Tree σ) : List PageID :=
  if tree.root = invalidPageID then []
  else
    leavesBelow (Pager.page tree.pager) (Pager.pageCount tree.pager)
      tree.root

def EvenlyFilled {σ : Type} [Pager σ] (tree : Tree σ) : Prop :=
  (∀ id, id ∈ leafPages tree →
    leafItems (Pager.page tree.pager id) ≠ []) ∨
  ∀ id, id ∈ leafPages tree → leafItems (Pager.page tree.pager id) = []

def Even (leaves : List Leaf) : Prop :=
  (∀ leaf, leaf ∈ leaves → leaf.items ≠ []) ∨
    ∀ leaf, leaf ∈ leaves → leaf.items = []

theorem Front.leaves_eq {subtree : Family} {rest : Range Bytes}
    {leaves : PageID → List PageID}
    (listed : ∀ range id outline, subtree range id outline →
      leaves id = outline.leaves.map Leaf.id) :
    ∀ {items range outline}, Front subtree range items rest outline →
      (items.map InternalItem.child).flatMap leaves =
        outline.leaves.map Leaf.id
  | [], _, _, ⟨_, empty⟩ => by
      subst empty
      rfl
  | item :: items, _, _, ⟨_, _, first, _, tail, same⟩ => by
      subst same
      rw [List.map_cons, List.flatMap_cons, listed _ _ _ first,
        tail.leaves_eq listed, Outline.add_leaves, List.map_append]

theorem Subtree.leavesBelow_eq {view : PageID → Page} :
    ∀ {level depth range id outline}, Subtree view level range id outline →
      level < depth →
      leavesBelow view depth id = outline.leaves.map Leaf.id
  | 0, depth + 1, _, _, _, ⟨_, leaf, _, _, shape⟩, _ => by
      subst shape
      unfold leavesBelow
      rw [if_pos leaf.type_eq]
      rfl
  | level + 1, depth + 1, _, id, _,
    ⟨_, rightmost, _, node, _, children, shape⟩, deep => by
      subst shape
      obtain ⟨_, _, last, start, final, rfl⟩ := children
      have listed : ∀ range id outline, Subtree view level range id outline →
          leavesBelow view depth id = outline.leaves.map Leaf.id :=
        fun _ _ _ below => below.leavesBelow_eq (Nat.lt_of_succ_lt_succ deep)
      have notLeaf : (view id).header.type ≠ .pageBTreeLeaf := by
        rw [node.type_eq]
        decide
      unfold leavesBelow childIDs
      rw [if_neg notLeaf, node.internalItems_eq, node.rightmost_eq,
        List.flatMap_append, start.leaves_eq listed, List.flatMap_singleton,
        listed _ _ _ final]
      simp

section Cursors

variable {σ : Type} [Pager σ] [LawfulPager σ] {tree : Tree σ}
  {height : Nat} {outline : Outline}

theorem Stands.leafPages_eq (stands : Stands tree height outline) :
    leafPages tree = outline.leaves.map Leaf.id := by
  unfold leafPages
  rw [if_neg stands.root_ne]
  exact stands.subtree.leavesBelow_eq stands.height_lt

theorem Represents.evenlyFilled_iff
    (represents : Represents tree height outline) :
    EvenlyFilled tree ↔ Even outline.leaves := by
  cases represents with
  | empty missing _ =>
      unfold EvenlyFilled leafPages Even
      rw [if_pos missing]
      simp
  | grown stands =>
      have items : ∀ leaf, leaf ∈ outline.leaves →
          leafItems (Pager.page tree.pager leaf.id) = leaf.items :=
        fun leaf member =>
          (stands.subtree.listed.leafPage leaf member).leafItems_eq
      unfold EvenlyFilled Even
      rw [stands.leafPages_eq]
      simp only [List.forall_mem_map]
      refine or_congr ?_ ?_ <;>
        exact forall₂_congr fun leaf member => by rw [items leaf member]

/-! ## Complete scans -/

theorem Even.reach_eq {leaves : List Leaf} (even : Even leaves) :
    reach leaves = leaves.flatMap Leaf.items := by
  rcases even with filled | empty
  · unfold reach
    rw [List.takeWhile_eq_self_iff.mpr]
    intro leaf member
    simpa using filled leaf member
  · have none : leaves.flatMap Leaf.items = [] :=
      List.flatMap_eq_nil_iff.mpr empty
    rw [none]
    cases leaves with
    | nil => rfl
    | cons leaf leaves =>
        rw [reach_cons, if_pos (empty leaf List.mem_cons_self)]

theorem Even.mirror {leaves : List Leaf} (even : Even leaves) :
    Even (mirror leaves) := by
  unfold Even BTree.mirror
  simp only [List.mem_reverse, List.forall_mem_map]
  refine even.imp ?_ ?_ <;>
    exact fun holds leaf member => by
      simpa [Leaf.mirror] using holds leaf member

theorem reach_sublist (leaves : List Leaf) :
    (reach leaves).Sublist (leaves.flatMap Leaf.items) := by
  induction leaves with
  | nil => exact .refl _
  | cons leaf leaves inductionHypothesis =>
      rw [reach_cons, List.flatMap_cons]
      split
      · exact List.nil_sublist _
      · exact (List.append_sublist_append_left _).mpr inductionHypothesis

theorem reach_length_le (leaves : List Leaf) :
    (reach leaves).length ≤ (leaves.flatMap Leaf.items).length :=
  (reach_sublist leaves).length_le

theorem reach_complete {leaves : List Leaf}
    (complete : reach leaves = leaves.flatMap Leaf.items) :
    (∀ leaf, leaf ∈ leaves → leaf.items ≠ []) ∨
      ∃ front leaf back, leaves = front ++ leaf :: back ∧
        leaf.items = [] ∧ ∀ other, other ∈ back → other.items = [] := by
  induction leaves with
  | nil => exact .inl fun _ member => (nomatch member)
  | cons leaf leaves inductionHypothesis =>
      rw [reach_cons, List.flatMap_cons] at complete
      by_cases empty : leaf.items = []
      · rw [if_pos empty, empty, List.nil_append] at complete
        exact .inr ⟨[], leaf, leaves, rfl, empty,
          List.flatMap_eq_nil_iff.mp complete.symm⟩
      · rw [if_neg empty] at complete
        rcases inductionHypothesis (List.append_cancel_left complete) with
          filled | ⟨front, last, back, rfl, rest⟩
        · refine .inl fun other member => ?_
          rcases List.mem_cons.mp member with rfl | later
          · exact empty
          · exact filled other later
        · exact .inr ⟨leaf :: front, last, back, rfl, rest⟩

def FilledFirst {σ : Type} [Pager σ] (tree : Tree σ) : Prop :=
  (leafPages tree).Pairwise fun front back =>
    leafItems (Pager.page tree.pager front) = [] →
      leafItems (Pager.page tree.pager back) = []

theorem reach_complete_iff {leaves : List Leaf} :
    reach leaves = leaves.flatMap Leaf.items ↔
      leaves.Pairwise fun front back => front.items = [] → back.items = [] := by
  induction leaves with
  | nil => exact iff_of_true rfl .nil
  | cons leaf leaves inductionHypothesis =>
      rw [reach_cons, List.flatMap_cons, List.pairwise_cons]
      by_cases empty : leaf.items = []
      · rw [if_pos empty, empty, List.nil_append, eq_comm,
          List.flatMap_eq_nil_iff]
        refine ⟨fun all => ⟨fun back member _ => all back member, ?_⟩,
          fun both back member => both.1 back member rfl⟩
        exact List.pairwise_of_forall_mem_list
          fun front _ back member _ => all back member
      · rw [if_neg empty, List.append_cancel_left_eq, inductionHypothesis]
        exact ⟨fun rest => ⟨fun _ _ same => absurd same empty, rest⟩,
          fun both => both.2⟩

/-- A scan from the front is complete when no leaf with items stands behind an
empty one. -/
theorem Represents.filledFirst_iff
    (represents : Represents tree height outline) :
    FilledFirst tree ↔ reach outline.leaves = outline.contents := by
  rw [Outline.contents, reach_complete_iff]
  cases represents with
  | empty missing _ =>
      unfold FilledFirst leafPages
      rw [if_pos missing]
      exact iff_of_true .nil .nil
  | grown stands =>
      have items : ∀ {leaf}, leaf ∈ outline.leaves →
          leafItems (Pager.page tree.pager leaf.id) = leaf.items :=
        fun member =>
          (stands.subtree.listed.leafPage _ member).leafItems_eq
      unfold FilledFirst
      rw [stands.leafPages_eq, List.pairwise_map]
      refine List.Pairwise.iff_of_mem fun {front back} first second => ?_
      rw [items first, items second]

theorem even_of_complete {leaves : List Leaf}
    (forward : reach leaves = leaves.flatMap Leaf.items)
    (backward : reach (mirror leaves) =
      (leaves.flatMap Leaf.items).reverse) : Even leaves := by
  rcases reach_complete forward with filled |
    ⟨front, leaf, back, rfl, empty, emptyBack⟩
  · exact .inl filled
  · -- The last leaf is empty, so the scan from the end meets nothing.
    have last : ∃ final rest, mirror (front ++ leaf :: back) = final :: rest ∧
        final.items = [] := by
      rcases List.eq_nil_or_concat back with rfl | ⟨others, final, rfl⟩
      · exact ⟨leaf.mirror, mirror front, by simp [mirror], by
          simp [Leaf.mirror, empty]⟩
      · exact ⟨final.mirror, mirror (front ++ leaf :: others), by
          simp [mirror], by
          simp [Leaf.mirror, emptyBack final (by simp)]⟩
    obtain ⟨final, rest, shape, none⟩ := last
    rw [shape, reach_cons, if_pos none] at backward
    exact .inr (List.flatMap_eq_nil_iff.mp
      (List.reverse_eq_nil_iff.mp backward.symm))

theorem prefix_between : ∀ {keyPrefix low high : Bytes},
    keyPrefix ≤ low → low ≤ high → keyPrefix <+: high → keyPrefix <+: low
  | [], _, _, _, _, _ => List.nil_prefix
  | byte :: rest, [], _, above, _, _ => absurd above (by simp)
  | byte :: rest, next :: low, high, above, below, ⟨tail, same⟩ => by
      subst same
      rw [← not_lt, List.cons_append, List.cons_lt_cons_iff] at below
      rw [← not_lt, List.cons_lt_cons_iff] at above
      push Not at above below
      obtain rfl : byte = next := le_antisymm above.1 below.1
      exact List.cons_prefix_cons.mpr
        ⟨rfl, prefix_between (above.2 rfl) (below.2 rfl) ⟨tail, rfl⟩⟩

theorem SortedItems.takeWhile_eq {items : List LeafItem}
    (sorted : SortedItems items) {keep : LeafItem → Bool}
    (closed : ∀ low high, low ∈ items → high ∈ items → low.key < high.key →
      keep high = true → keep low = true) :
    items.takeWhile keep = items.filter keep := by
  induction items with
  | nil => rfl
  | cons item items inductionHypothesis =>
      obtain ⟨below, sortedRest⟩ := List.pairwise_cons.mp sorted
      by_cases kept : keep item = true
      · rw [List.takeWhile_cons_of_pos kept, List.filter_cons_of_pos kept,
          inductionHypothesis sortedRest fun low high lowMember highMember =>
            closed low high (List.mem_cons_of_mem _ lowMember)
              (List.mem_cons_of_mem _ highMember)]
      · rw [List.takeWhile_cons_of_neg kept, List.filter_cons_of_neg kept,
          List.filter_eq_nil_iff.mpr]
        intro other member keptOther
        exact kept (closed item other List.mem_cons_self
          (List.mem_cons_of_mem _ member) (below other member) keptOther)

def inRange (start stop : Option Bytes) (key : Bytes) : Bool :=
  (start.all fun bound => bound ≤ key) && stop.all fun bound => key < bound

theorem SortedItems.filter_inRange {items : List LeafItem}
    (sorted : SortedItems items) (start stop : Option Bytes) :
    (items.filter fun item => start.all fun bound => bound ≤ item.key).takeWhile
        (fun item => ! stop.any fun bound => bound ≤ item.key) =
      items.filter fun item => inRange start stop item.key := by
  rw [SortedItems.takeWhile_eq (List.Pairwise.filter _ sorted),
    List.filter_filter]
  · congr 1
    funext item
    unfold inRange
    rw [Bool.and_comm]
    cases stop with
    | none => rfl
    | some bound => simp [← not_le]
  · intro low high _ _ less kept
    cases stop with
    | none => rfl
    | some bound =>
        simp only [Option.any_some, Bool.not_eq_true',
          decide_eq_false_iff_not, not_le] at kept ⊢
        exact less.trans kept

theorem SortedItems.filter_prefix {items : List LeafItem}
    (sorted : SortedItems items) (keyPrefix : Bytes) :
    (items.filter fun item => decide (keyPrefix ≤ item.key)).takeWhile
        (fun item => ! ! keyPrefix.isPrefixOf item.key) =
      items.filter fun item => keyPrefix.isPrefixOf item.key := by
  simp only [Bool.not_not]
  rw [SortedItems.takeWhile_eq (List.Pairwise.filter _ sorted),
    List.filter_filter]
  · refine List.filter_congr fun item _ => ?_
    rw [Bool.and_eq_left_iff_imp, List.isPrefixOf_iff_prefix]
    intro isPrefix
    rw [decide_eq_true_eq, ← not_lt]
    exact isPrefix.le
  · intro low high lowMember _ less kept
    rw [List.isPrefixOf_iff_prefix] at kept ⊢
    have above := (List.mem_filter.mp lowMember).2
    exact prefix_between (by simpa using above) less.le kept

/-- Scans of a tree that holds exactly `items`: they are complete, in order and
without repetition, whatever the cursor did before. -/
structure ScansComplete (tree : Tree σ) (items : List LeafItem) : Prop where
  /-- `First`, then `Next` until it returns false. -/
  forward : ∀ cursor : Cursor σ, cursor.tree = tree → ∀ fuel,
    items.length ≤ fuel →
    ∃ final, Cursor.scanFrom cursor.first Cursor.next (fun _ => false)
      (fun _ _ => true) fuel = some (items, final) ∧ final.err = none
  /-- `Last`, then `Prev` until it returns false. -/
  backward : ∀ cursor : Cursor σ, cursor.tree = tree → ∀ fuel,
    items.length ≤ fuel →
    ∃ final, Cursor.scanFrom cursor.last Cursor.prev (fun _ => false)
      (fun _ _ => true) fuel = some (items.reverse, final) ∧ final.err = none
  seek_valid : ∀ cursor : Cursor σ, cursor.tree = tree → ∀ key,
    ((cursor.seek key).2.isValid = true ↔
      ∃ item, item ∈ items ∧ key ≤ item.key)
  seek_least : ∀ cursor : Cursor σ, cursor.tree = tree → ∀ key,
    (cursor.seek key).2.isValid = true →
    ∃ item, (cursor.seek key).2.current = some item ∧ item ∈ items ∧
      key ≤ item.key ∧
      ∀ other, other ∈ items → key ≤ other.key → item.key ≤ other.key
  range : ∀ cursor : Cursor σ, cursor.tree = tree → ∀ start stop fn fuel,
    items.length ≤ fuel →
    ∃ final, Cursor.rangeScan start stop fn fuel cursor =
        some (callsOf fn (items.filter fun item => inRange start stop item.key),
          final) ∧ final.err = none
  prefixed : ∀ cursor : Cursor σ, cursor.tree = tree → ∀ keyPrefix fn fuel,
    items.length ≤ fuel →
    ∃ final, Cursor.prefixScan keyPrefix fn fuel cursor =
        some (callsOf fn (items.filter fun item =>
          keyPrefix.isPrefixOf item.key), final) ∧ final.err = none

theorem Represents.seek_spec {cursor : Cursor σ}
    (represents : Represents cursor.tree height outline)
    (even : Even outline.leaves) (key : Bytes) :
    Yields (Forward outline) (cursor.seek key)
      (outline.contents.filter fun item => decide (key ≤ item.key)) := by
  cases represents with
  | empty missing _ =>
      unfold Cursor.seek
      rw [if_pos (show cursor.release.tree.root = _ from missing)]
      exact yields_unrooted _
  | grown stands =>
      obtain ⟨front, id, items, back, located, sorted, yields⟩ :=
        stands.seek_spec key
      have evenBack : Even back := by
        rw [located.leaves_eq] at even
        refine even.imp ?_ ?_ <;>
          exact fun holds leaf member => holds leaf (by simp [member])
      have low : (front.flatMap Leaf.items).filter
          (fun item => decide (key ≤ item.key)) = [] := by
        rw [List.filter_eq_nil_iff]
        intro item member
        obtain ⟨leaf, listed, inside⟩ := List.mem_flatMap.mp member
        simpa using located.below leaf listed item inside
      have high : (back.flatMap Leaf.items).filter
          (fun item => decide (key ≤ item.key)) =
            back.flatMap Leaf.items := by
        rw [List.filter_eq_self]
        intro item member
        obtain ⟨leaf, listed, inside⟩ := List.mem_flatMap.mp member
        exact decide_eq_true (located.above leaf listed item inside).le
      have whole : outline.contents.filter
          (fun item => decide (key ≤ item.key)) =
          items.filter (fun item => decide (key ≤ item.key)) ++
            reach back := by
        rw [Outline.contents, located.leaves_eq, List.flatMap_append,
          List.flatMap_cons, List.filter_append, List.filter_append, low,
          high, evenBack.reach_eq]
        rfl
      rw [whole]
      exact yields

theorem Yields.valid_iff {result : Bool × Cursor σ} {ahead : List LeafItem}
    (yields : Yields (Forward outline) result ahead) :
    (result.2.isValid = true ↔ ahead ≠ []) ∧
      ∀ item rest, ahead = item :: rest →
        result.2.current = some item := by
  obtain ⟨fine, ⟨rfl, _, invalid⟩ | ⟨nonempty, _, forward⟩⟩ := yields
  · refine ⟨?_, fun _ _ shape => (nomatch shape)⟩
    unfold Cursor.isValid
    rw [invalid]
    simp
  · obtain ⟨item, rest, rfl, advance⟩ := forward.advances
    refine ⟨iff_of_true advance.valid nonempty, ?_⟩
    intro other others shape
    rw [← (List.cons.inj shape).1]
    exact advance.current_eq

theorem Represents.scansComplete (represents : Represents tree height outline)
    (even : Even outline.leaves) : ScansComplete tree outline.contents := by
  have sorted := represents.sorted
  have reached : reach outline.leaves = outline.contents := even.reach_eq
  have mirrored : reach (mirror outline.leaves) =
      outline.contents.reverse := by
    rw [even.mirror.reach_eq, mirror_items]
    rfl
  have fewer : ∀ keep : LeafItem → Bool, ∀ {fuel : Nat},
      outline.contents.length ≤ fuel →
      (outline.contents.filter keep).length ≤ fuel :=
    fun keep _ enough => (List.length_filter_le _ _).trans enough
  refine ⟨?_, ?_, ?_, ?_, ?_, ?_⟩
  · rintro cursor rfl fuel enough
    have placed := represents.first_spec
    rw [reached] at placed
    exact scanFrom_all (fun facing => facing.advances) placed enough
  · rintro cursor rfl fuel enough
    have placed := represents.last_spec
    rw [mirrored] at placed
    rw [← List.length_reverse] at enough
    exact scanFrom_all (fun facing => facing.advances) placed enough
  · rintro cursor rfl key
    rw [(represents.seek_spec even key).valid_iff.1, ne_eq,
      List.filter_eq_nil_iff]
    simp
  · rintro cursor rfl key valid
    obtain ⟨isValid, current⟩ := (represents.seek_spec even key).valid_iff
    cases shape : outline.contents.filter
      (fun item => decide (key ≤ item.key)) with
    | nil => exact absurd shape (isValid.mp valid)
    | cons item rest =>
        have first : item ∈ outline.contents.filter
            (fun item => decide (key ≤ item.key)) := by
          rw [shape]
          exact List.mem_cons_self
        obtain ⟨member, above⟩ := List.mem_filter.mp first
        refine ⟨item, current item rest shape, member, by simpa using above,
          ?_⟩
        intro other otherMember otherAbove
        have listed : other ∈ item :: rest := by
          rw [← shape]
          exact List.mem_filter.mpr ⟨otherMember, by simpa using otherAbove⟩
        have sortedRest : SortedItems (item :: rest) := by
          rw [← shape]
          exact sorted.sublist List.filter_sublist
        rcases List.mem_cons.mp listed with rfl | later
        · exact le_refl _
        · exact ((List.pairwise_cons.mp sortedRest).1 other later).le
  · rintro cursor rfl start stop fn fuel enough
    rw [← sorted.filter_inRange]
    cases start with
    | some key =>
        exact scanFrom_spec (fun facing => facing.advances) _ fn
          (represents.seek_spec even key) (fewer _ enough)
    | none =>
        have placed := represents.first_spec
        rw [reached] at placed
        have whole : outline.contents.filter
            (fun item => (none : Option Bytes).all fun bound =>
              bound ≤ item.key) = outline.contents := by simp
        rw [← whole] at placed
        exact scanFrom_spec (fun facing => facing.advances) _ fn placed
          (fewer _ enough)
  · rintro cursor rfl keyPrefix fn fuel enough
    rw [← sorted.filter_prefix]
    exact scanFrom_spec (fun facing => facing.advances) _ fn
      (represents.seek_spec even keyPrefix) (fewer _ enough)

theorem Represents.even_of_scansComplete
    (represents : Represents tree height outline)
    (complete : ScansComplete tree outline.contents) :
    Even outline.leaves := by
  have fresh : Represents (Cursor.new tree).tree height outline := represents
  have turned : (reach (mirror outline.leaves)).length ≤
      outline.contents.length := by
    have bound := reach_length_le (mirror outline.leaves)
    rw [mirror_items, List.length_reverse] at bound
    exact bound
  apply even_of_complete
  · obtain ⟨_, visited, _⟩ := scanFrom_all (fun facing => facing.advances)
      represents.first_new (reach_length_le outline.leaves)
    obtain ⟨_, whole, _⟩ := complete.forward (Cursor.new tree) rfl _
      (Nat.le_refl _)
    exact (Prod.mk.inj (Option.some.inj (visited.symm.trans whole))).1
  · obtain ⟨_, visited, _⟩ := scanFrom_all (fun facing => facing.advances)
      fresh.last_spec turned
    obtain ⟨_, whole, _⟩ := complete.backward (Cursor.new tree) rfl _
      (Nat.le_refl _)
    exact (Prod.mk.inj (Option.some.inj (visited.symm.trans whole))).1

/-- In every tree reached by successful calls, scans and `Seek` are complete and
ordered exactly when the leaves are evenly filled. -/
theorem scansComplete_iff {start : Tree σ}
    (missing : start.root = invalidPageID) (good : Good start.pager)
    (ops : List TreeOp) (supplied : Along TreeOp.apply Supplied ops start)
    (done : (run TreeOp.apply ops start).1 = .ok ()) :
    ∃ items, SortedItems items ∧ bindings items = expected ops ∧
      (ScansComplete (run TreeOp.apply ops start).2 items ↔
        EvenlyFilled (run TreeOp.apply ops start).2) := by
  obtain ⟨height, outline, represents, same⟩ :=
    (Reached.none missing good).run supplied done
  refine ⟨outline.contents, represents.sorted, same, ?_⟩
  rw [represents.evenlyFilled_iff]
  exact ⟨represents.even_of_scansComplete, represents.scansComplete⟩

theorem scansComplete_iff_sample :
    let ops := insertAll [⟨[1], [10]⟩, ⟨[2], [20]⟩]
    ∃ items, SortedItems items ∧ bindings items = expected ops ∧
      (ScansComplete (run TreeOp.apply ops newTree).2 items ↔
        EvenlyFilled (run TreeOp.apply ops newTree).2) := by
  have roomy := newTree_room
  obtain ⟨done, _⟩ := run_insertAll newTree_oneLeaf
    [⟨[1], [10]⟩, ⟨[2], [20]⟩] (by decide) (by decide) (by decide)
    (by rw [roomy]; decide)
  exact scansComplete_iff rfl newTree_good _
    (newTree_oneLeaf.supplied (by rw [roomy]; decide)) done

/-! ## A scan that stops short -/

theorem OneLeaf.insert_split {items : List LeafItem}
    (one : OneLeaf tree items) (key value : Bytes)
    (smallest : ∀ item, item ∈ items → key < item.key)
    (admissible : LeafItem.Admissible ⟨key, value⟩) (nonempty : items ≠ [])
    (full : ¬ LeafFits (⟨key, value⟩ :: items))
    (left : LeafFits ((LeafItem.mk key value :: items).take
      ((items.length + 1) / 2)))
    (right : LeafFits ((LeafItem.mk key value :: items).drop
      ((items.length + 1) / 2)))
    (roomy : 2 ≤ room tree.pager) :
    (insert key value tree).1 = .ok () ∧
      ∃ height outline id rightID,
        Represents (insert key value tree).2 height outline ∧
        outline.leaves =
          [⟨id, (LeafItem.mk key value :: items).take
              ((items.length + 1) / 2)⟩,
            ⟨rightID, (LeafItem.mk key value :: items).drop
              ((items.length + 1) / 2)⟩] := by
  have splits := (one.splitsFit_iff smallest (one.rooted nonempty)).mpr
    (.inr ⟨left, right⟩)
  obtain ⟨outline, represents, contents, few⟩ := one
  obtain ⟨total, inserted⟩ := represents.insert_spec admissible roomy
  obtain ⟨newHeight, changed, result⟩ := inserted (total.mpr splits)
  refine ⟨total.mpr splits, newHeight, changed, ?_⟩
  have put := result.leaves
  have after := result.represents
  generalize changed.leaves = newLeaves at put ⊢
  have whole : outline.leaves.flatMap Leaf.items = items := contents
  cases put with
  | first id none =>
      rw [none] at whole
      exact absurd whole.symm nonempty
  | stored located divided same fits =>
      obtain ⟨_, _, alone⟩ := located.alone few
      rw [alone] at whole
      simp only [List.flatMap_cons, List.flatMap_nil,
        List.append_nil] at whole
      subst whole
      obtain ⟨rfl, rfl⟩ := divided.in_front smallest
      subst same
      exact absurd fits full
  | @split _ _ id rightID _ _ _ _ _ located divided same _ =>
      obtain ⟨rfl, rfl, alone⟩ := located.alone few
      rw [alone] at whole
      simp only [List.flatMap_cons, List.flatMap_nil,
        List.append_nil] at whole
      subst whole
      obtain ⟨rfl, rfl⟩ := divided.in_front smallest
      subst same
      exact ⟨id, rightID, after, rfl⟩

theorem LeavesErased.first {id : PageID} (item : LeafItem)
    {rest : List LeafItem} {others changed : List Leaf}
    (sorted : SortedItems (item :: rest))
    (erased : LeavesErased item.key (⟨id, item :: rest⟩ :: others) changed) :
    changed = ⟨id, rest⟩ :: others := by
  cases erased with
  | absent none =>
      exact absurd rfl
        (none _ List.mem_cons_self item List.mem_cons_self)
  | @erased front back _ items before at' after located divided =>
      have shape := located.leaves_eq
      cases front with
      | cons leaf front =>
          obtain ⟨rfl, _⟩ := List.cons.inj shape
          exact absurd (located.below _ List.mem_cons_self item
            List.mem_cons_self) (lt_irrefl _)
      | nil =>
          obtain ⟨sameLeaf, rfl⟩ := List.cons.inj shape
          obtain ⟨rfl, rfl⟩ := Leaf.mk.inj sameLeaf
          have parts := divided.items_eq
          have above := (List.pairwise_cons.mp sorted).1
          cases before with
          | cons low before =>
              obtain ⟨rfl, _⟩ := List.cons.inj parts
              exact absurd (divided.before_lt item List.mem_cons_self)
                (lt_irrefl _)
          | nil =>
              cases at' with
              | nil =>
                  have inAfter : item ∈ after := by
                    rw [List.nil_append, List.nil_append] at parts
                    rw [← parts]
                    exact List.mem_cons_self
                  exact absurd (divided.after_gt item inAfter) (lt_irrefl _)
              | cons same more =>
                  obtain ⟨rfl, tail⟩ := List.cons.inj parts
                  have none : more = [] := by
                    rw [List.eq_nil_iff_forall_not_mem]
                    intro other member
                    have later := above other (by
                      rw [tail]
                      simp [member])
                    exact later.ne' (divided.at_eq other
                      (List.mem_cons_of_mem _ member))
                  rw [none] at tail
                  rw [tail]
                  rfl

def largeItems : List LeafItem :=
  [⟨[1], largestValue⟩, ⟨[2], largestValue⟩, ⟨[3], largestValue⟩]

theorem largeItems_admissible (item : LeafItem)
    (member : item ∈ LeafItem.mk [0] largestValue :: largeItems) :
    item.Admissible := by
  simp only [largeItems, List.mem_cons, List.not_mem_nil, or_false] at member
  rcases member with rfl | rfl | rfl | rfl
  all_goals
    simp [LeafItem.Admissible, maxKeySize, maxValueSize, largestValue_length]

theorem largeItems_fits :
    LeafFits largeItems ∧ ¬ LeafFits (⟨[0], largestValue⟩ :: largeItems) ∧
      LeafFits ((LeafItem.mk [0] largestValue :: largeItems).take 2) ∧
      LeafFits ((LeafItem.mk [0] largestValue :: largeItems).drop 2) := by
  simp [LeafFits, Fits, packedSize, largeItems, LeafItem.encode_length,
    largestValue_length]

theorem OneLeaf.first_emptied (one : OneLeaf tree largeItems)
    (roomy : 2 ≤ room tree.pager) :
    (run TreeOp.apply [.insert [0] largestValue, .delete [0], .delete [1]]
        tree).1 = .ok () ∧
      (Cursor.new (run TreeOp.apply
        [.insert [0] largestValue, .delete [0], .delete [1]]
        tree).2).first.1 = false := by
  obtain ⟨_, full, left, right⟩ := largeItems_fits
  obtain ⟨inserted, height, outline, id, rightID, represents, leaves⟩ :=
    one.insert_split [0] largestValue (by decide)
      (largeItems_admissible _ List.mem_cons_self) (by simp [largeItems]) full
      left right roomy
  obtain ⟨firstGone, _, changed, afterFirst, _, _, erasedFirst⟩ :=
    represents.delete_spec [0]
  rw [leaves] at erasedFirst
  have leavesFirst := LeavesErased.first ⟨[0], largestValue⟩
    (by decide) erasedFirst
  obtain ⟨secondGone, _, final, afterSecond, _, _, erasedSecond⟩ :=
    afterFirst.delete_spec [1]
  rw [leavesFirst] at erasedSecond
  have leavesSecond : final.leaves = ⟨id, []⟩ :: _ :=
    LeavesErased.first ⟨[1], largestValue⟩ (by decide) erasedSecond
  rw [run_insert inserted, run_delete firstGone, run_delete secondGone,
    run_nil]
  dsimp only
  have yields := afterSecond.first_new
  rw [leavesSecond, reach_cons, if_pos rfl] at yields
  obtain ⟨_, ⟨_, stopped, _⟩ | ⟨found, _⟩⟩ := yields
  · exact ⟨rfl, stopped⟩
  · exact absurd rfl found

def emptyingOps : List TreeOp :=
  insertAll largeItems ++
    [.insert [0] largestValue, .delete [0], .delete [1]]

/-- `First` finds nothing in a tree that binds a key. -/
theorem first_stops_short :
    (run TreeOp.apply emptyingOps newTree).1 = .ok () ∧
      (Cursor.new (run TreeOp.apply emptyingOps newTree).2).first.1 = false ∧
      expected emptyingOps [2] = some largestValue := by
  have roomy := newTree_room
  obtain ⟨filled, one, bound⟩ := run_insertAll newTree_oneLeaf largeItems
    (by decide)
    (fun item member =>
      largeItems_admissible item (List.mem_cons_of_mem _ member))
    largeItems_fits.1 (by rw [roomy]; decide)
  rw [roomy, show largeItems.length = 3 from rfl] at bound
  obtain ⟨done, stopped⟩ := one.first_emptied (by omega)
  unfold emptyingOps
  rw [run_append filled]
  exact ⟨done, stopped, rfl⟩

end Cursors

end CocoDB.BTree
