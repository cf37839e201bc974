import CocoDB.BTree.Insert
import CocoDB.Lib.Run
import CocoDB.Storage.PagerLaws
import Mathlib.Tactic.Ring

/-!
# Runs of tree operations

Sequences of `Insert` and `Delete` from a tree without a root page, and the map
they build.
-/

namespace CocoDB.BTree

open Lib LawfulPager

inductive TreeOp where
  | insert (key value : Bytes)
  | delete (key : Bytes)
  deriving DecidableEq, Repr

namespace TreeOp

def apply {σ : Type} [Pager σ] :
    TreeOp → Tree σ → Except Error Unit × Tree σ
  | .insert key value => BTree.insert key value
  | .delete key => BTree.delete key

def effect : TreeOp → (Bytes → Option Bytes) → Bytes → Option Bytes
  | .insert key value, map => Function.update map key (some value)
  | .delete key, map => Function.update map key none

/-- The sizes that `Insert` accepts. -/
def Admissible : TreeOp → Prop
  | .insert key value => LeafItem.Admissible ⟨key, value⟩
  | .delete _ => True

end TreeOp

section Steps

variable {σ : Type} [Pager σ] {tree : Tree σ} {key value : Bytes}
  {rest : List TreeOp}

theorem run_insert (done : (insert key value tree).1 = .ok ()) :
    run TreeOp.apply (.insert key value :: rest) tree =
      run TreeOp.apply rest (insert key value tree).2 :=
  run_cons done

theorem run_delete (done : (delete key tree).1 = .ok ()) :
    run TreeOp.apply (.delete key :: rest) tree =
      run TreeOp.apply rest (delete key tree).2 :=
  run_cons done

end Steps

def expected (ops : List TreeOp) : Bytes → Option Bytes :=
  ops.foldl (fun map op => op.effect map) fun _ => none

theorem expected_append (ops : List TreeOp) (op : TreeOp) :
    expected (ops ++ [op]) = op.effect (expected ops) := by
  unfold expected
  rw [List.foldl_append]
  rfl

section Conditions

variable {σ : Type} [Pager σ]

/-- The number of pages that an insertion may allocate: one for each internal
page on its way, one for the leaf and one for a new root. -/
def pagesWanted (key : Bytes) (tree : Tree σ) : Nat :=
  if tree.root = invalidPageID then 2
  else
    match descend (routeChild · key) (Pager.pageCount tree.pager) tree.root []
        tree.pager with
    | (.error _, _) => 2
    | (.ok (_, path), _) => path.length + 2

def Supplied [LawfulPager σ] : TreeOp → Tree σ → Prop
  | .insert key _, tree => pagesWanted key tree ≤ room tree.pager
  | .delete _, _ => True

/-- The call has admissible sizes, and what it has to split splits into halves
that fit. -/
def Fitting : TreeOp → Tree σ → Prop
  | .insert key value, tree =>
      LeafItem.Admissible ⟨key, value⟩ ∧ SplitsFit key value tree
  | .delete _, _ => True

theorem insert_admissible {key value : Bytes} {tree : Tree σ}
    (done : (insert key value tree).1 = .ok ()) :
    LeafItem.Admissible ⟨key, value⟩ := by
  unfold insert at done
  by_cases keyLong : key.length > maxKeySize
  · rw [if_pos keyLong] at done
    cases done
  · rw [if_neg keyLong] at done
    by_cases valueLong : value.length > maxValueSize
    · rw [if_pos valueLong] at done
      cases done
    · exact ⟨Nat.not_lt.mp keyLong, Nat.not_lt.mp valueLong⟩

end Conditions

variable {σ : Type} [Pager σ] [LawfulPager σ] {tree start : Tree σ}
  {height : Nat} {outline : Outline}

theorem Represents.pagesWanted_eq
    (represents : Represents tree height outline) (key : Bytes) :
    pagesWanted key tree = height + 2 := by
  unfold pagesWanted
  cases represents with
  | empty missing good => rw [if_pos missing]
  | grown stands =>
      obtain ⟨leafID, path, range, items, before, after, final, walk, _, _,
        arrival, _⟩ := stands.descend_key key
      have length := arrival.around.parents_length
      rw [if_neg stands.root_ne, walk]
      simp only
      omega

theorem Represents.apply_spec (represents : Represents tree height outline)
    {op : TreeOp} (supplied : Supplied op tree)
    (done : (op.apply tree).1 = .ok ()) :
    ∃ newHeight changed, Represents (op.apply tree).2 newHeight changed ∧
      newHeight ≤ height + 1 ∧
      room tree.pager ≤ room (op.apply tree).2.pager + (height + 2) ∧
      bindings changed.contents = op.effect (bindings outline.contents) := by
  cases op with
  | insert key value =>
      have enough := (represents.pagesWanted_eq key).symm.trans_le supplied
      obtain ⟨newHeight, changed, inserted⟩ :=
        (represents.insert_spec (insert_admissible done) enough).2 done
      exact ⟨newHeight, changed, inserted.represents, inserted.height_le,
        inserted.evolves.room_le, inserted.bindings_eq⟩
  | delete key =>
      obtain ⟨_, evolution, changed, after, _, updated, _⟩ :=
        represents.delete_spec key
      have bound := evolution.room_le
      exact ⟨height, changed, after, Nat.le_succ _,
        bound.trans (Nat.add_le_add_left (Nat.zero_le _) _), updated⟩

def Reached (past : List TreeOp) (tree : Tree σ) : Prop :=
  ∃ height outline, Represents tree height outline ∧
    bindings outline.contents = expected past

theorem Reached.none (missing : start.root = invalidPageID)
    (good : Good start.pager) : Reached [] start :=
  ⟨0, 0, .empty missing good, rfl⟩

theorem Reached.apply {past : List TreeOp} {op : TreeOp}
    (reached : Reached past tree) (supplied : Supplied op tree)
    (done : (op.apply tree).1 = .ok ()) :
    Reached (past ++ [op]) (op.apply tree).2 := by
  obtain ⟨height, outline, represents, same⟩ := reached
  obtain ⟨newHeight, changed, after, _, _, updated⟩ :=
    represents.apply_spec supplied done
  exact ⟨newHeight, changed, after, by
    rw [updated, same, expected_append]⟩

theorem Reached.search {past : List TreeOp} (reached : Reached past tree)
    (key : Bytes) : (search key tree).1 = .ok (expected past key) := by
  obtain ⟨height, outline, represents, same⟩ := reached
  rw [(represents.search_spec key).1, same]

theorem Reached.run {ops past : List TreeOp} (reached : Reached past tree)
    (supplied : Along TreeOp.apply Supplied ops tree)
    (done : (run TreeOp.apply ops tree).1 = .ok ()) :
    Reached (past ++ ops) (run TreeOp.apply ops tree).2 :=
  run_invariant (fun reached supplied done => reached.apply supplied done)
    reached supplied done

theorem Represents.supplied_of_room : ∀ {ops : List TreeOp} {tree : Tree σ}
    {height : Nat} {outline : Outline}, Represents tree height outline →
    ops.length * (height + ops.length + 1) ≤ room tree.pager →
    Along TreeOp.apply Supplied ops tree
  | [], _, _, _, _, _ => trivial
  | op :: rest, tree, height, outline, represents, roomy => by
      have product : (rest.length + 1) * (height + (rest.length + 1) + 1) =
          rest.length * (height + 1 + rest.length + 1) +
            (height + rest.length + 2) := by
        ring
      rw [List.length_cons, product] at roomy
      have supplied : Supplied op tree := by
        cases op with
        | insert key value =>
            have wanted := represents.pagesWanted_eq key
            show pagesWanted key tree ≤ room tree.pager
            omega
        | delete key => trivial
      refine ⟨supplied, fun done => ?_⟩
      obtain ⟨newHeight, changed, after, taller, bound, _⟩ :=
        represents.apply_spec supplied done
      refine after.supplied_of_room ?_
      have mono : rest.length * (newHeight + rest.length + 1) ≤
          rest.length * (height + 1 + rest.length + 1) :=
        Nat.mul_le_mul_left _ (by omega)
      omega

/-! ## Trees of one leaf -/

theorem Stands.splitsFit_spec (stands : Stands tree height outline)
    (key value : Bytes) :
    ∃ view path front id items back before at' after,
      Located key outline.leaves front id items back ∧
      DividedAt items key before at' after ∧ path.length = height ∧
      (SplitsFit key value tree ↔
        PathFits view (before ++ ⟨key, value⟩ :: after) id path) := by
  obtain ⟨leafID, path, range, items, before, after, final, walk, _, _,
    arrival, inside⟩ := stands.descend_key key
  obtain ⟨front, at', back, divided, put⟩ :=
    (arrival.leaf.binarySearch_spec arrival.sorted key).putItem_eq
      arrival.sorted value
  refine ⟨Pager.page final, path, before.leaves, leafID, items, after.leaves,
    front, at', back, arrival.located inside, divided,
    arrival.around.parents_length, ?_⟩
  unfold SplitsFit itemsAfterPut
  rw [walk]
  simp only [stands.root_ne, false_or, arrival.leaf.leafItems_eq, put]

def OneLeaf (tree : Tree σ) (items : List LeafItem) : Prop :=
  ∃ outline, Represents tree 0 outline ∧ outline.contents = items ∧
    outline.leaves.length ≤ 1

theorem Located.alone {key : Bytes} {leaves front back : List Leaf}
    {id : PageID} {items : List LeafItem}
    (located : Located key leaves front id items back)
    (few : leaves.length ≤ 1) :
    front = [] ∧ back = [] ∧ leaves = [⟨id, items⟩] := by
  have shape := located.leaves_eq
  rw [shape, List.length_append, List.length_cons] at few
  have noFront := List.length_eq_zero_iff.mp
    (show front.length = 0 by omega)
  have noBack := List.length_eq_zero_iff.mp (show back.length = 0 by omega)
  refine ⟨noFront, noBack, ?_⟩
  rw [shape, noFront, noBack]
  rfl

theorem DividedAt.in_front {items before at' after : List LeafItem}
    {key : Bytes} (divided : DividedAt items key before at' after)
    (smallest : ∀ item, item ∈ items → key < item.key) :
    before = [] ∧ after = items := by
  have below : ∀ item, item ∈ before → False := fun item member =>
    lt_asymm (divided.before_lt item member)
      (smallest item (by rw [divided.items_eq]; simp [member]))
  have same : ∀ item, item ∈ at' → False := fun item member =>
    (smallest item (by rw [divided.items_eq]; simp [member])).ne'
      (divided.at_eq item member)
  have noBefore := List.eq_nil_iff_forall_not_mem.mpr below
  have noAt := List.eq_nil_iff_forall_not_mem.mpr same
  refine ⟨noBefore, ?_⟩
  rw [divided.items_eq, noBefore, noAt]
  rfl

namespace OneLeaf

variable {items : List LeafItem} {key value : Bytes}

theorem supplied (one : OneLeaf tree items) {ops : List TreeOp}
    (roomy : ops.length * (ops.length + 1) ≤ room tree.pager) :
    Along TreeOp.apply Supplied ops tree := by
  obtain ⟨outline, represents, _, _⟩ := one
  exact represents.supplied_of_room (by rwa [Nat.zero_add])

theorem rooted (one : OneLeaf tree items) (nonempty : items ≠ []) :
    tree.root ≠ invalidPageID := by
  obtain ⟨outline, represents, contents, _⟩ := one
  cases represents with
  | empty _ _ => exact absurd contents.symm nonempty
  | grown stands => exact stands.root_ne

/-- Setting a key below all others succeeds exactly when the leaf has room or
both halves of it do. -/
theorem splitsFit_iff (one : OneLeaf tree items)
    (smallest : ∀ item, item ∈ items → key < item.key)
    (rooted : tree.root ≠ invalidPageID) :
    SplitsFit key value tree ↔
      LeafFits (⟨key, value⟩ :: items) ∨
        LeafFits ((LeafItem.mk key value :: items).take
          ((items.length + 1) / 2)) ∧
        LeafFits ((LeafItem.mk key value :: items).drop
          ((items.length + 1) / 2)) := by
  obtain ⟨outline, represents, contents, few⟩ := one
  cases represents with
  | empty missing _ => exact absurd missing rooted
  | grown stands =>
      obtain ⟨view, path, front, id, held, back, before, at', after, located,
        divided, length, fits⟩ := stands.splitsFit_spec key value
      obtain ⟨_, _, alone⟩ := located.alone few
      have same : held = items := by
        rw [← contents, Outline.contents, alone]
        simp
      subst same
      obtain ⟨rfl, rfl⟩ := divided.in_front smallest
      rw [fits, List.length_eq_zero_iff.mp length]
      unfold PathFits ParentsFit
      rw [List.nil_append, List.length_cons, and_true]

theorem insert_front (one : OneLeaf tree items)
    (smallest : ∀ item, item ∈ items → key < item.key)
    (admissible : LeafItem.Admissible ⟨key, value⟩)
    (fits : LeafFits (⟨key, value⟩ :: items))
    (roomy : 2 ≤ room tree.pager) :
    (insert key value tree).1 = .ok () ∧
      OneLeaf (insert key value tree).2 (⟨key, value⟩ :: items) ∧
      room tree.pager ≤ room (insert key value tree).2.pager + 2 := by
  have splits : SplitsFit key value tree := by
    by_cases missing : tree.root = invalidPageID
    · exact .inl missing
    · exact (one.splitsFit_iff smallest missing).mpr (.inl fits)
  obtain ⟨outline, represents, contents, few⟩ := one
  obtain ⟨total, inserted⟩ := represents.insert_spec admissible roomy
  have done := total.mpr splits
  obtain ⟨newHeight, changed, result⟩ := inserted done
  have bound := result.evolves.room_le
  have leaves : changed.leaves.length ≤ 1 ∧
      changed.leaves.flatMap Leaf.items = ⟨key, value⟩ :: items := by
    have put := result.leaves
    generalize changed.leaves = newLeaves at put
    cases put with
    | first id none =>
        have empty : items = [] := by
          rw [← contents, Outline.contents, none]
          rfl
        rw [empty]
        exact ⟨Nat.le_refl 1, rfl⟩
    | stored located divided shape _ =>
        obtain ⟨rfl, rfl, alone⟩ := located.alone few
        have same := contents
        rw [Outline.contents, alone] at same
        simp only [List.flatMap_cons, List.flatMap_nil,
          List.append_nil] at same
        subst same
        obtain ⟨rfl, rfl⟩ := divided.in_front smallest
        subst shape
        exact ⟨Nat.le_refl 1, by simp⟩
    | split located divided shape full =>
        obtain ⟨rfl, rfl, alone⟩ := located.alone few
        have same := contents
        rw [Outline.contents, alone] at same
        simp only [List.flatMap_cons, List.flatMap_nil,
          List.append_nil] at same
        subst same
        obtain ⟨rfl, rfl⟩ := divided.in_front smallest
        subst shape
        exact absurd fits full
  have flat := result.flat leaves.1
  subst flat
  exact ⟨done, ⟨changed, result.represents, leaves.2, leaves.1⟩, bound⟩

end OneLeaf

def insertAll (items : List LeafItem) : List TreeOp :=
  items.reverse.map fun item => .insert item.key item.value

theorem run_insertAll (one : OneLeaf start []) :
    ∀ items : List LeafItem, SortedItems items →
      (∀ item, item ∈ items → item.Admissible) → LeafFits items →
      2 * items.length ≤ room start.pager →
      (run TreeOp.apply (insertAll items) start).1 = .ok () ∧
        OneLeaf (run TreeOp.apply (insertAll items) start).2 items ∧
        room start.pager ≤
          room (run TreeOp.apply (insertAll items) start).2.pager +
            2 * items.length
  | [], _, _, _, _ => ⟨rfl, one, Nat.le_refl _⟩
  | first :: rest, sorted, admissible, fits, roomy => by
      have fewer : LeafFits rest := by
        unfold LeafFits Fits packedSize at fits ⊢
        simp only [List.map_cons, List.sum_cons] at fits
        omega
      obtain ⟨smallest, sortedRest⟩ := List.pairwise_cons.mp sorted
      rw [List.length_cons] at roomy
      obtain ⟨done, oneRest, bound⟩ := run_insertAll one rest sortedRest
        (fun item member => admissible item (List.mem_cons_of_mem _ member))
        fewer (by omega)
      obtain ⟨last, oneAll, lastBound⟩ := oneRest.insert_front smallest
        (admissible first List.mem_cons_self) fits (by omega)
      have split : insertAll (first :: rest) =
          insertAll rest ++ [.insert first.key first.value] := by
        simp [insertAll]
      have ended : run TreeOp.apply (insertAll (first :: rest)) start =
          insert first.key first.value
            (run TreeOp.apply (insertAll rest) start).2 := by
        rw [split, run_append done, run_insert last]
        exact Prod.ext last.symm rfl
      rw [ended, List.length_cons]
      exact ⟨last, oneAll, by omega⟩

def newTree : Tree DefaultPager where
  root := invalidPageID
  pager :=
    .fresh (.ofContents .empty) (.newInitial (List.replicate 16 0))
      DefaultPager.slotA 0 false

theorem newTree_good : Good newTree.pager :=
  DefaultPager.sound_fresh _ _ _ _ rfl

theorem newTree_room : room newTree.pager = 2 ^ 64 - 3 := rfl

theorem newTree_oneLeaf : OneLeaf newTree [] :=
  ⟨0, .empty rfl newTree_good, rfl, Nat.zero_le _⟩

/-! ## The tree as a map -/

/-- A run of `Insert` and `Delete` calls from a tree without a root page, all of
which succeed, builds the map that the calls describe: `Search` finds the last
value inserted under a key and not deleted since. -/
theorem search_run (missing : start.root = invalidPageID)
    (good : Good start.pager) (ops : List TreeOp)
    (supplied : Along TreeOp.apply Supplied ops start)
    (done : (run TreeOp.apply ops start).1 = .ok ()) (key : Bytes) :
    (search key (run TreeOp.apply ops start).2).1 =
      .ok (expected ops key) :=
  ((Reached.none missing good).run supplied done).search key

theorem search_run_sample :
    let ops := insertAll [⟨[1], [10]⟩, ⟨[2], [20]⟩]
    (search [1] (run TreeOp.apply ops newTree).2).1 = .ok (some [10]) ∧
      (search [3] (run TreeOp.apply ops newTree).2).1 = .ok none := by
  intro ops
  have roomy := newTree_room
  have supplied : Along TreeOp.apply Supplied ops newTree :=
    newTree_oneLeaf.supplied (by rw [roomy]; decide)
  obtain ⟨done, _⟩ := run_insertAll newTree_oneLeaf
    [⟨[1], [10]⟩, ⟨[2], [20]⟩] (by decide) (by decide) (by decide) (by rw [roomy]; decide)
  exact ⟨search_run rfl newTree_good ops supplied done [1],
    search_run rfl newTree_good ops supplied done [3]⟩

/-! ## When insertion is total -/

theorem Reached.apply_total {past : List TreeOp} {op : TreeOp}
    (reached : Reached past tree)
    (meets : Supplied op tree ∧ Fitting op tree) :
    (op.apply tree).1 = .ok () ∧
      Reached (past ++ [op]) (op.apply tree).2 := by
  have done : (op.apply tree).1 = .ok () := by
    obtain ⟨height, outline, represents, _⟩ := reached
    cases op with
    | insert key value =>
        have enough :=
          (represents.pagesWanted_eq key).symm.trans_le meets.1
        exact (represents.insert_spec meets.2.1 enough).1.mpr meets.2.2
    | delete key => exact (represents.delete_spec key).1
  exact ⟨done, reached.apply meets.1 done⟩

/-- In a run whose insertions all meet `SplitsFit`, every call succeeds.  In
every tree so reached, an insertion of admissible size succeeds and keeps the
binding of every other key exactly when it meets `SplitsFit` too. -/
theorem insert_total_iff (missing : start.root = invalidPageID)
    (good : Good start.pager) (ops : List TreeOp)
    (meets : Along TreeOp.apply
      (fun op tree => Supplied op tree ∧ Fitting op tree) ops start) :
    (run TreeOp.apply ops start).1 = .ok () ∧
      ∀ key value, LeafItem.Admissible ⟨key, value⟩ →
        Supplied (.insert key value) (run TreeOp.apply ops start).2 →
        (((insert key value (run TreeOp.apply ops start).2).1 = .ok () ∧
            ∀ other, other ≠ key →
              (search other
                (insert key value (run TreeOp.apply ops start).2).2).1 =
              (search other (run TreeOp.apply ops start).2).1) ↔
          SplitsFit key value (run TreeOp.apply ops start).2) := by
  have initial := Reached.none missing good
  have done := run_total
    (fun reached holds => reached.apply_total holds) initial meets
  have reached := initial.run (meets.mono fun _ _ both => both.1) done
  refine ⟨done, ?_⟩
  intro key value admissible supplied
  generalize (run TreeOp.apply ops start).2 = tree at reached supplied
  obtain ⟨height, outline, represents, same⟩ := reached
  have enough := (represents.pagesWanted_eq key).symm.trans_le supplied
  have total := (represents.insert_spec admissible enough).1
  refine ⟨fun both => total.mp both.1, fun fits => ?_⟩
  have inserted := total.mpr fits
  have after := Reached.apply ⟨height, outline, represents, same⟩ supplied
    inserted
  refine ⟨inserted, ?_⟩
  intro other different
  refine (after.search other).trans ?_
  rw [(represents.search_spec other).1, same, expected_append]
  exact congrArg _ (Function.update_of_ne different _ _)

theorem insert_total_iff_sample :
    let tree := (run TreeOp.apply (insertAll [⟨[2], [20]⟩]) newTree).2
    (insert [1] [10] tree).1 = .ok () ∧
      ∀ other, other ≠ [1] →
        (search other (insert [1] [10] tree).2).1 = (search other tree).1 := by
  have roomy := newTree_room
  have supplied : Supplied (.insert [2] [20]) newTree := by
    show (2 : Nat) ≤ room newTree.pager
    omega
  obtain ⟨_, one, bound⟩ := run_insertAll newTree_oneLeaf [⟨[2], [20]⟩]
    (by decide) (by decide) (by decide) (by rw [roomy]; decide)
  rw [roomy] at bound
  obtain ⟨_, total⟩ := insert_total_iff rfl newTree_good
    (insertAll [⟨[2], [20]⟩])
    ⟨⟨supplied, by decide, .inl rfl⟩, fun _ => trivial⟩
  refine (total [1] [10] (by decide) ?_).mpr ?_
  · exact (one.supplied (show [TreeOp.insert [1] [10]].length * _ ≤ _ by
      simp only [List.length_singleton] at bound ⊢
      omega)).1
  · exact (one.splitsFit_iff (by decide) (one.rooted (by decide))).mpr
      (.inl (by decide))

def largestValue : Bytes := List.replicate maxValueSize 0

theorem largestValue_length : largestValue.length = 4096 :=
  List.length_replicate

def crowdedItems : List LeafItem :=
  [⟨[1], largestValue⟩, ⟨[2], largestValue⟩, ⟨[3], largestValue⟩,
    ⟨[4], []⟩, ⟨[5], []⟩, ⟨[6], []⟩, ⟨[7], []⟩, ⟨[8], []⟩, ⟨[9], []⟩,
    ⟨[10], []⟩, ⟨[11], []⟩]

theorem crowdedItems_fits : LeafFits crowdedItems := by
  simp [LeafFits, Fits, packedSize, crowdedItems, LeafItem.encode_length,
    largestValue_length]

theorem crowdedItems_halves :
    ¬ LeafFits (⟨[0], largestValue⟩ :: crowdedItems) ∧
      ¬ LeafFits ((LeafItem.mk [0] largestValue :: crowdedItems).take
        ((crowdedItems.length + 1) / 2)) := by
  constructor <;>
    simp [LeafFits, Fits, packedSize, crowdedItems, LeafItem.encode_length,
      largestValue_length]

theorem crowdedItems_admissible (item : LeafItem)
    (member : item ∈ LeafItem.mk [0] largestValue :: crowdedItems) :
    item.Admissible := by
  simp only [crowdedItems, List.mem_cons, List.not_mem_nil, or_false] at member
  rcases member with rfl | rfl | rfl | rfl | rfl | rfl | rfl | rfl | rfl |
    rfl | rfl | rfl
  all_goals
    simp [LeafItem.Admissible, maxKeySize, maxValueSize, largestValue_length]

theorem crowdedItems_sorted :
    SortedItems (⟨[0], largestValue⟩ :: crowdedItems) := by
  decide

/-- An insertion of admissible size fails, in a tree that insertions of
admissible sizes built. -/
theorem insert_not_total :
    (∀ op, op ∈ insertAll crowdedItems → op.Admissible) ∧
      LeafItem.Admissible ⟨[0], largestValue⟩ ∧
      (run TreeOp.apply (insertAll crowdedItems) newTree).1 = .ok () ∧
      Supplied (.insert [0] largestValue)
        (run TreeOp.apply (insertAll crowdedItems) newTree).2 ∧
      (insert [0] largestValue
        (run TreeOp.apply (insertAll crowdedItems) newTree).2).1 ≠
          .ok () := by
  have roomy := newTree_room
  have admissible := crowdedItems_admissible
  have front := admissible ⟨[0], largestValue⟩ List.mem_cons_self
  obtain ⟨smallest, sorted⟩ := List.pairwise_cons.mp crowdedItems_sorted
  obtain ⟨done, one, bound⟩ := run_insertAll newTree_oneLeaf crowdedItems
    sorted (fun item member => admissible item (List.mem_cons_of_mem _ member))
    crowdedItems_fits (by rw [roomy]; decide)
  rw [roomy, show crowdedItems.length = 11 from rfl] at bound
  have supplied := (one.supplied
    (show [TreeOp.insert [0] largestValue].length * _ ≤ _ by
      rw [List.length_singleton]
      omega)).1
  refine ⟨?_, front, done, supplied, ?_⟩
  · intro op member
    obtain ⟨item, listed, rfl⟩ := List.mem_map.mp member
    exact admissible item
      (List.mem_cons_of_mem _ (List.mem_reverse.mp listed))
  · have fails : ¬ SplitsFit [0] largestValue
        (run TreeOp.apply (insertAll crowdedItems) newTree).2 := by
      rw [one.splitsFit_iff smallest (one.rooted (by simp [crowdedItems]))]
      rintro (whole | ⟨half, _⟩)
      · exact crowdedItems_halves.1 whole
      · exact crowdedItems_halves.2 half
    obtain ⟨outline, represents, _, _⟩ := one
    have enough :=
      (represents.pagesWanted_eq [0]).symm.trans_le supplied
    exact fun ok => fails ((represents.insert_spec front enough).1.mp ok)

end CocoDB.BTree
