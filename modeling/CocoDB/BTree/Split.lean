import CocoDB.BTree.Update

/-!
# Carrying a split upwards

After a page was split the loop of `Insert` adds a separator to its parent, and
splits the parent in turn when it overflows, up to a new root.  `ParentsFit`
says on the pages before the insertion that every page on the way has room or
splits into halves that have.
-/

namespace CocoDB.BTree

open Lib LawfulPager

section Halve

variable {subtree : Family} {range rest : Range Bytes}
  {items left right : List InternalItem} {item : InternalItem}
  {rightmost : PageID} {outline : Outline}

theorem Front.high_eq :
    ∀ {items range outline}, Front subtree range items rest outline →
      rest.high = range.high
  | [], _, _, ⟨same, _⟩ => same ▸ rfl
  | _ :: _, _, _, ⟨_, _, _, _, tail, _⟩ => tail.high_eq

theorem Front.below {separator : Bytes} :
    ∀ {items range outline}, Front subtree range items rest outline →
      (∀ item, item ∈ items → item.key < separator) →
      Front subtree (range.below separator) items (rest.below separator)
        outline
  | [], _, _, ⟨same, empty⟩, _ => ⟨same ▸ rfl, empty⟩
  | item :: _, _, _, ⟨first, others, head, splits, tail, same⟩, under => by
      refine ⟨first, others, head, ⟨splits.1, ?_⟩, ?_, same⟩
      · rintro bound ⟨⟩
        exact under item List.mem_cons_self
      · exact tail.below fun later member =>
          under later (List.mem_cons_of_mem _ member)

theorem Children.halve
    (whole : Children subtree range (left ++ item :: right) rightmost
      outline) :
    ∃ low high,
      Children subtree (range.below item.key) left item.child low ∧
      Children subtree (range.above item.key) right rightmost high ∧
      range.Splits item.key ∧ outline = low + high := by
  have sorted := List.pairwise_append.mp whole.sorted
  obtain ⟨middle, before, others, start, final, rfl⟩ := whole.split
  obtain ⟨child, high, first, splits, tail, rfl⟩ := children_cons.mp final
  have under : ∀ other, other ∈ left → other.key < item.key :=
    fun other member => sorted.2.2 other member item List.mem_cons_self
  have upper : middle.above item.key = range.above item.key := by
    simp only [Range.above, start.high_eq]
  refine ⟨before + child, high, ⟨_, before, child, start.below under, first,
    rfl⟩, ?_, start.splits splits, (add_assoc _ _ _).symm⟩
  rw [← upper]
  exact tail

end Halve

section Splice

variable {items newItems : List InternalItem}
  {rightmost newRightmost cLeft cRight : PageID} {kSep : Bytes}

theorem spliceParent_keys (other : PageID)
    (spliced : spliceParent items rightmost cLeft kSep cRight =
      some (newItems, newRightmost)) :
    ∃ otherItems otherRightmost,
      spliceParent items rightmost cLeft kSep other =
        some (otherItems, otherRightmost) ∧
      otherItems.map InternalItem.key = newItems.map InternalItem.key := by
  unfold spliceParent at spliced ⊢
  by_cases last : cLeft = rightmost
  · rw [if_pos last] at spliced ⊢
    cases spliced
    exact ⟨_, _, rfl, rfl⟩
  · rw [if_neg last] at spliced ⊢
    cases found : items.findIdx? fun item => item.child = cLeft with
    | none => simp [found] at spliced
    | some index =>
        simp only [found] at spliced ⊢
        cases stored : items[index]? with
        | none => simp [stored] at spliced
        | some old =>
            simp only [stored, Option.some.injEq, Prod.mk.injEq]
              at spliced ⊢
            obtain ⟨rfl, rfl⟩ := spliced
            exact ⟨_, _, ⟨rfl, rfl⟩, by simp⟩

theorem internalFits_congr {left right : List InternalItem}
    (same : left.map InternalItem.key = right.map InternalItem.key) :
    InternalFits left ↔ InternalFits right := by
  have size : ∀ items : List InternalItem,
      packedSize (items.map InternalItem.encode) =
        ((items.map InternalItem.key).map fun key => 14 + key.length).sum := by
    intro items
    induction items with
    | nil => rfl
    | cons item items inductionHypothesis =>
        simp only [packedSize, List.map_cons, List.sum_cons,
          InternalItem.encode_length] at inductionHypothesis ⊢
        omega
  unfold InternalFits Fits
  rw [size, size, same]

variable {subtree : Family} {range inner : Range Bytes}
  {before after left right : Outline}

theorem Hole.splice (rooted : Rooted subtree)
    (hole : Hole subtree range items rightmost inner cLeft before after)
    (apart : cLeft ∉ before.ids + after.ids)
    (lower : subtree (inner.below kSep) cLeft left)
    (upper : subtree (inner.above kSep) cRight right)
    (splits : inner.Splits kSep) :
    ∃ newItems newRightmost,
      spliceParent items rightmost cLeft kSep cRight =
        some (newItems, newRightmost) ∧
      Children subtree range newItems newRightmost
        (before + (left + right) + after) ∧
      ∀ item, item ∈ newItems →
        item.key = kSep ∨ ∃ old, old ∈ items ∧ old.key = item.key := by
  rw [Multiset.mem_add, not_or] at apart
  cases hole with
  | @inner front back old rightmost rest _ _ start oldSplits final =>
      have different : old.child ≠ rightmost := fun same =>
        apart.2 (same ▸ final.rightmost_mem rooted)
      have place : (front ++ old :: back).findIdx?
          (fun item => item.child = old.child) = some front.length := by
        rw [List.findIdx?_append]
        have absent : front.findIdx?
            (fun item => decide (item.child = old.child)) = none := by
          rw [List.findIdx?_eq_none_iff]
          intro item member
          rw [decide_eq_false_iff_not]
          intro same
          exact apart.1 (same ▸ start.child_mem rooted member)
        rw [absent, List.findIdx?_cons]
        simp
      refine ⟨front ++ [⟨old.child, kSep⟩, ⟨cRight, old.key⟩] ++ back,
        rightmost, ?_, ?_, ?_⟩
      · unfold spliceParent
        rw [if_neg different, place]
        simp
      · rw [List.append_assoc, add_assoc]
        refine start.children (children_cons.mpr
          ⟨left, right + after, lower, ?_, children_cons.mpr
            ⟨right, after, upper, ?_, final, rfl⟩, by rw [add_assoc]⟩)
        · exact ⟨splits.1, fun bound same =>
            (splits.2 old.key rfl).trans (oldSplits.2 bound same)⟩
        · refine ⟨?_, oldSplits.2⟩
          rintro bound ⟨⟩
          exact splits.2 old.key rfl
      · intro item member
        simp only [List.mem_append, List.mem_cons, List.not_mem_nil,
          or_false] at member
        rcases member with (inFront | rfl | rfl) | inBack
        · exact .inr ⟨item, by simp [inFront], rfl⟩
        · exact .inl rfl
        · exact .inr ⟨old, by simp, rfl⟩
        · exact .inr ⟨item, by simp [inBack], rfl⟩
  | @last items _ rest _ start =>
      refine ⟨items ++ [⟨rightmost, kSep⟩], cRight, ?_, ?_, ?_⟩
      · unfold spliceParent
        rw [if_pos rfl]
      · rw [add_zero]
        exact start.children (children_cons.mpr
          ⟨left, right, lower, splits, children_nil.mpr upper, rfl⟩)
      · intro item member
        rcases List.mem_append.mp member with inItems | new
        · exact .inr ⟨item, inItems, rfl⟩
        · rw [List.mem_singleton.mp new]
          exact .inl rfl

end Splice

/-! ## The loop over the parents -/

/-- Every page on the path takes a separator `kSep` for its split child, or
splits into two halves that fit. -/
def ParentsFit (view : PageID → Page) (child : PageID) (kSep : Bytes) :
    List PageID → Prop
  | [] => True
  | parentID :: rest =>
      match spliceParent (internalItems (view parentID))
          (rightmostChild (view parentID)) child kSep invalidPageID with
      | none => False
      | some (newItems, _) =>
          InternalFits newItems ∨
            InternalFits (newItems.take (newItems.length / 2)) ∧
            InternalFits (newItems.drop (newItems.length / 2 + 1)) ∧
            ParentsFit view parentID
              (((newItems[newItems.length / 2]?).getD
                { child := 0, key := [] }).key) rest

theorem ParentsFit.congr {view view' : PageID → Page} :
    ∀ {parents : List PageID} {child : PageID} {kSep : Bytes},
      (∀ id, id ∈ parents → view' id = view id) →
      (ParentsFit view' child kSep parents ↔
        ParentsFit view child kSep parents)
  | [], _, _, _ => Iff.rfl
  | parentID :: rest, child, kSep, same => by
      unfold ParentsFit
      rw [same parentID List.mem_cons_self]
      cases spliceParent _ _ _ _ _ with
      | none => exact Iff.rfl
      | some spliced =>
          obtain ⟨newItems, newRightmost⟩ := spliced
          exact or_congr_right (and_congr_right fun _ =>
            and_congr_right fun _ => ParentsFit.congr fun id member =>
              same id (List.mem_cons_of_mem _ member))

theorem parentsFit_cons {view : PageID → Page} {parentID child cRight : PageID}
    {kSep : Bytes} {rest : List PageID} {items newItems : List InternalItem}
    {rightmost newRightmost : PageID}
    (node : InternalPage (view parentID) items rightmost)
    (spliced : spliceParent items rightmost child kSep cRight =
      some (newItems, newRightmost)) :
    ParentsFit view child kSep (parentID :: rest) ↔
      InternalFits newItems ∨
        InternalFits (newItems.take (newItems.length / 2)) ∧
        InternalFits (newItems.drop (newItems.length / 2 + 1)) ∧
        ParentsFit view parentID
          (((newItems[newItems.length / 2]?).getD
            { child := 0, key := [] }).key) rest := by
  obtain ⟨others, otherRightmost, same, keys⟩ :=
    spliceParent_keys invalidPageID spliced
  have length : others.length = newItems.length := by
    simpa using congrArg List.length keys
  have promoted : ((others[newItems.length / 2]?).getD
        { child := 0, key := [] }).key =
      ((newItems[newItems.length / 2]?).getD
        { child := 0, key := [] }).key := by
    have stored := congrArg (fun keys => keys[newItems.length / 2]?) keys
    simp only [List.getElem?_map] at stored
    cases left : others[newItems.length / 2]? <;>
      cases right : newItems[newItems.length / 2]? <;>
      simp_all
  rw [ParentsFit, node.internalItems_eq, node.rightmost_eq, same]
  simp only [length, promoted]
  have front : (others.take (newItems.length / 2)).map InternalItem.key =
      (newItems.take (newItems.length / 2)).map InternalItem.key := by
    rw [List.map_take, List.map_take, keys]
  have back : (others.drop (newItems.length / 2 + 1)).map InternalItem.key =
      (newItems.drop (newItems.length / 2 + 1)).map InternalItem.key := by
    rw [List.map_drop, List.map_drop, keys]
  rw [internalFits_congr keys, internalFits_congr front,
    internalFits_congr back]

variable {σ : Type} [Pager σ] [LawfulPager σ]

theorem evolves_storeHalves {state : σ} {leftID rightID : PageID}
    {left right : Page} (good : Good state)
    (leftHeld : Allocated state leftID)
    (rightHeld : Allocated state rightID) (different : leftID ≠ rightID)
    (leftSame : left.header.id = leftID) (leftDirty : left.dirty = true)
    (rightSame : right.header.id = rightID)
    (rightDirty : right.dirty = true) :
    Evolves state
        (Pager.markDirty rightID (Pager.markDirty leftID
          (Pager.setPage rightID right (Pager.setPage leftID left state))))
        {leftID, rightID} 0 ∧
      Pager.page (Pager.markDirty rightID (Pager.markDirty leftID
        (Pager.setPage rightID right (Pager.setPage leftID left state))))
          leftID = left ∧
      Pager.page (Pager.markDirty rightID (Pager.markDirty leftID
        (Pager.setPage rightID right (Pager.setPage leftID left state))))
          rightID = right := by
  have first := evolves_setPage good leftHeld leftSame
  have firstPage := setPage_same good leftHeld leftSame
  have second := evolves_setPage first.good (first.keeps rightHeld) rightSame
  have secondPage :=
    setPage_same first.good (first.keeps rightHeld) rightSame
  have leftKept : Pager.page
      (Pager.setPage rightID right (Pager.setPage leftID left state))
        leftID = left := by
    rw [second.frame (first.keeps leftHeld) (by simpa using different),
      firstPage]
  have third := evolves_markDirty second.good
    (second.keeps (first.keeps leftHeld)) (by rw [leftKept]; exact leftDirty)
  have rightKept := third.frame (second.keeps (first.keeps rightHeld))
    (Set.notMem_empty _)
  have fourth := evolves_markDirty third.good
    (third.keeps (second.keeps (first.keeps rightHeld)))
    (by rw [rightKept, secondPage]; exact rightDirty)
  refine ⟨?_, ?_, ?_⟩
  · exact (((first.mono (by simp)).trans (second.mono (by simp))).trans
      (third.mono (by simp))).trans (fourth.mono (by simp))
  · rw [fourth.frame (third.keeps (second.keeps (first.keeps leftHeld)))
      (Set.notMem_empty _), third.frame (second.keeps (first.keeps leftHeld))
      (Set.notMem_empty _), leftKept]
  · rw [fourth.frame (third.keeps (second.keeps (first.keeps rightHeld)))
      (Set.notMem_empty _), rightKept, secondPage]

structure Carried (before after : Tree σ) (path : List PageID)
    (height newHeight : Nat) (total changed : Outline) : Prop where
  evolves : Evolves before.pager after.pager {id | id ∈ path}
    (path.length + 1)
  subtree : Subtree (Pager.page after.pager) newHeight Range.whole
    after.root changed
  height_le : newHeight ≤ height + 1
  leaves_eq : changed.leaves = total.leaves
  nodup : changed.ids.Nodup
  allocated : ∀ id, id ∈ changed.ids → Allocated after.pager id
  fresh : ∀ id, id ∈ changed.ids →
    id ∈ total.ids ∨ ¬ Allocated before.pager id
  paid : room before.pager + Multiset.card total.ids ≤
    room after.pager + Multiset.card changed.ids

/-- A tree one page of which was split into `cLeft` and `cRight`, with the
parent still to be told. -/
structure Torn (tree : Tree σ) (height : Nat) (path : List PageID)
    (level : Nat) (range : Range Bytes) (cLeft : PageID) (kSep : Bytes)
    (cRight : PageID) (before left right after : Outline) : Prop where
  good : Good tree.pager
  around : Around (Pager.page tree.pager) tree.root height path level range
    cLeft before after
  lower : Subtree (Pager.page tree.pager) level (range.below kSep) cLeft left
  upper : Subtree (Pager.page tree.pager) level (range.above kSep) cRight
    right
  splits : range.Splits kSep
  short : kSep.length ≤ maxKeySize
  nodup : (before + (left + right) + after).ids.Nodup
  allocated : ∀ id, id ∈ (before + (left + right) + after).ids →
    Allocated tree.pager id

private theorem internalFits_single (child : PageID) {kSep : Bytes}
    (short : kSep.length ≤ maxKeySize) :
    InternalFits [{ child := child, key := kSep }] := by
  simp only [maxKeySize] at short
  simp only [InternalFits, Fits, packedSize, List.map_cons, List.map_nil,
    List.sum_cons, List.sum_nil, InternalItem.encode_length]
  omega

theorem growRoot_spec {tree : Tree σ} {height level : Nat}
    {range : Range Bytes} {cLeft cRight : PageID} {kSep : Bytes}
    {before left right after : Outline}
    (torn : Torn tree height [] level range cLeft kSep cRight before left
      right after)
    (roomy : 0 < room tree.pager) :
    (growRoot cLeft kSep cRight tree).1 = .ok () ∧
      ∃ newHeight changed,
        Carried tree (growRoot cLeft kSep cRight tree).2 [] height newHeight
          (before + (left + right) + after) changed := by
  obtain ⟨good, around, lower, upper, splits, short, nodup, allocated⟩ := torn
  cases around
  rw [zero_add, add_zero] at nodup allocated
  unfold growRoot
  obtain ⟨rootID, next, allocated', grown, fresh, held⟩ :=
    evolves_allocate .pageBTreeInternal good roomy
  have goodNext := grown.good
  rw [allocated']
  have spec := setInternalItems_spec (Pager.page next rootID)
    [{ child := tree.root, key := kSep }] cRight
    fun item member => by
      rw [List.mem_singleton.mp member]
      exact short
  obtain ⟨done, dirty, node⟩ :=
    spec.done (internalFits_single tree.root short)
  have sameID := spec.id_eq.trans (page_id goodNext held)
  simp only
  rcases pair : setInternalItems (Pager.page next rootID)
    [{ child := tree.root, key := kSep }] cRight with ⟨written, page⟩
  rw [pair] at done dirty node sameID
  simp only at done dirty node sameID
  subst done
  simp only [sameID]
  obtain ⟨stored, pageAt⟩ := evolves_store goodNext held sameID dirty
  refine ⟨trivial, height + 1, Outline.page rootID + (left + right), ?_⟩
  have whole : Evolves tree.pager
      (Pager.markDirty rootID (Pager.setPage rootID page next))
      {id | id ∈ ([] : List PageID)} 1 :=
    (grown.mono (Set.empty_subset _)).trans_fresh fresh
      (stored.mono (by simp))
  have same : ∀ id, id ∈ (left + right).ids →
      Pager.page (Pager.markDirty rootID
        (Pager.setPage rootID page next)) id =
        Pager.page tree.pager id := fun id member =>
    whole.frame (allocated id member) (by simp)
  have notInside : rootID ∉ (left + right).ids :=
    fun member => fresh (allocated rootID member)
  refine ⟨whole, ?_, Nat.le_refl _, ?_, ?_, ?_, ?_, ?_⟩
  · refine ⟨[{ child := tree.root, key := kSep }], cRight, left + right, ?_,
      ?_, ?_, rfl⟩
    · rw [pageAt]
      exact node
    · intro item member
      rw [List.mem_singleton.mp member]
      exact short
    · refine children_cons.mpr ⟨left, right, ?_, splits,
        children_nil.mpr ?_, rfl⟩
      · exact lower.congr fun id member =>
          SameNode.of_eq (same id (by simp [member]))
      · exact upper.congr fun id member =>
          SameNode.of_eq (same id (by simp [member]))
  · simp
  · rw [Outline.add_ids, Outline.page_ids, Multiset.singleton_add,
      Multiset.nodup_cons]
    exact ⟨notInside, nodup⟩
  · intro id member
    rw [Outline.add_ids, Outline.page_ids, Multiset.mem_add,
      Multiset.mem_singleton] at member
    rcases member with rfl | inside
    · exact stored.keeps held
    · exact whole.keeps (allocated id inside)
  · intro id member
    rw [Outline.add_ids, Outline.page_ids, Multiset.mem_add,
      Multiset.mem_singleton] at member
    rcases member with rfl | inside
    · exact .inr fresh
    · exact .inl (by simpa using inside)
  · have bound := whole.room_le
    simp only [Outline.add_ids, Outline.zero_ids, Outline.page_ids,
      Multiset.card_add, Multiset.card_singleton, Multiset.card_zero]
    omega

theorem Children.congr {view view' : PageID → Page} {level : Nat}
    {range : Range Bytes} {items : List InternalItem} {rightmost : PageID}
    {outline : Outline}
    (children : Children (Subtree view level) range items rightmost outline)
    (same : ∀ id, id ∈ outline.ids → view' id = view id) :
    Children (Subtree view' level) range items rightmost outline :=
  children.mono fun _ _ _ bound => Subtree.congr fun id member =>
    SameNode.of_eq (same id (Multiset.mem_of_le bound member))

theorem Around.settle {tree : Tree σ} {next : σ} {height level : Nat}
    {path : List PageID} {range : Range Bytes} {parentID rightmost : PageID}
    {items : List InternalItem} {before after below : Outline}
    (around : Around (Pager.page tree.pager) tree.root height path
      (level + 1) range parentID before after)
    (children : Children (Subtree (Pager.page tree.pager) level) range
      items rightmost below)
    (short : ∀ item, item ∈ items → item.key.length ≤ maxKeySize)
    (nodup : (before + (Outline.page parentID + below) + after).ids.Nodup)
    (allocated : ∀ id,
      id ∈ (before + (Outline.page parentID + below) + after).ids →
        Allocated tree.pager id)
    (evolution : Evolves tree.pager next {parentID} 0)
    (node : InternalPage (Pager.page next parentID) items rightmost) :
    Carried tree { tree with pager := next } (parentID :: path) height
      height (before + (Outline.page parentID + below) + after)
      (before + (Outline.page parentID + below) + after) := by
  have same : ∀ id,
      id ∈ (before + (Outline.page parentID + below) + after).ids →
      id ≠ parentID →
      Pager.page next id = Pager.page tree.pager id :=
    fun id member different => evolution.frame (allocated id member) different
  simp only [Outline.add_ids, Outline.page_ids] at nodup same
  have apart : ∀ id, id ∈ before.ids + below.ids + after.ids →
      id ≠ parentID := by
    rw [show before.ids + ({parentID} + below.ids) + after.ids =
      {parentID} + (before.ids + below.ids + after.ids) by abel,
      Multiset.singleton_add, Multiset.nodup_cons] at nodup
    exact fun id member same => nodup.1 (same ▸ member)
  simp only [Multiset.mem_add, Multiset.mem_singleton] at same apart
  refine ⟨?_, ?_, Nat.le_succ _, rfl, ?_, ?_, fun id member => .inl member,
    Nat.add_le_add_right evolution.room_le _⟩
  · exact (evolution.mono (by simp)).afford (Nat.zero_le _)
  · refine Around.plug (around.congr fun id member => ?_)
      ⟨items, rightmost, below, node, short, children.congr fun id member =>
        ?_, rfl⟩
    · rw [Multiset.mem_add] at member
      exact SameNode.of_eq (same id (by tauto) (apart id (by tauto)))
    · exact same id (by tauto) (apart id (by tauto))
  · simpa using nodup
  · exact fun id member => evolution.keeps (allocated id member)

theorem Around.tear {tree : Tree σ} {next : σ} {height level : Nat}
    {path : List PageID} {range : Range Bytes}
    {parentID rightID rightmost : PageID} {left right : List InternalItem}
    {promoted : InternalItem} {before after below : Outline}
    (around : Around (Pager.page tree.pager) tree.root height path
      (level + 1) range parentID before after)
    (children : Children (Subtree (Pager.page tree.pager) level) range
      (left ++ promoted :: right) rightmost below)
    (short : ∀ item, item ∈ left ++ promoted :: right →
      item.key.length ≤ maxKeySize)
    (nodup : (before + (Outline.page parentID + below) + after).ids.Nodup)
    (allocated : ∀ id,
      id ∈ (before + (Outline.page parentID + below) + after).ids →
        Allocated tree.pager id)
    (evolution : Evolves tree.pager next {parentID} 1)
    (fresh : ¬ Allocated tree.pager rightID)
    (held : Allocated next rightID)
    (leftNode : InternalPage (Pager.page next parentID) left promoted.child)
    (rightNode : InternalPage (Pager.page next rightID) right rightmost) :
    ∃ low high,
      Torn { tree with pager := next } height path (level + 1) range
        parentID promoted.key rightID before (Outline.page parentID + low)
        (Outline.page rightID + high) after ∧
      below = low + high := by
  obtain ⟨low, high, lower, upper, splits, rfl⟩ := children.halve
  have same : ∀ id,
      id ∈ (before + (Outline.page parentID + (low + high)) + after).ids →
      id ≠ parentID →
      Pager.page next id = Pager.page tree.pager id :=
    fun id member different => evolution.frame (allocated id member) different
  have notInside :
      rightID ∉ (before + (Outline.page parentID + (low + high)) +
        after).ids := fun member => fresh (allocated rightID member)
  have idsEq : (before + (Outline.page parentID + low +
      (Outline.page rightID + high)) + after).ids =
      rightID ::ₘ (before + (Outline.page parentID + (low + high)) +
        after).ids := by
    simp only [Outline.add_ids, Outline.page_ids,
      ← Multiset.singleton_add]
    abel
  have apart : ∀ id, id ∈ before.ids + (low + high).ids + after.ids →
      id ≠ parentID := by
    simp only [Outline.add_ids, Outline.page_ids] at nodup ⊢
    rw [show before.ids + ({parentID} + (low.ids + high.ids)) + after.ids =
      {parentID} + (before.ids + (low.ids + high.ids) + after.ids) by abel,
      Multiset.singleton_add, Multiset.nodup_cons] at nodup
    exact fun id member same => nodup.1 (same ▸ member)
  simp only [Outline.add_ids, Outline.page_ids, Multiset.mem_add,
    Multiset.mem_singleton] at same apart
  refine ⟨low, high, ⟨evolution.good, ?_, ?_, ?_, splits, ?_, ?_, ?_⟩, rfl⟩
  · refine around.congr fun id member => ?_
    rw [Multiset.mem_add] at member
    exact SameNode.of_eq (same id (by tauto) (apart id (by tauto)))
  · refine ⟨left, promoted.child, low, leftNode, ?_, lower.congr ?_, rfl⟩
    · exact fun item member => short item (by simp [member])
    · exact fun id member => same id (by tauto) (apart id (by tauto))
  · refine ⟨right, rightmost, high, rightNode, ?_, upper.congr ?_, rfl⟩
    · exact fun item member => short item (by simp [member])
    · exact fun id member => same id (by tauto) (apart id (by tauto))
  · exact short promoted (by simp)
  · rw [idsEq, Multiset.nodup_cons]
    exact ⟨notInside, nodup⟩
  · intro id member
    rw [idsEq, Multiset.mem_cons] at member
    rcases member with rfl | inside
    · exact held
    · exact evolution.keeps (allocated id inside)

structure SplitNode (items : List InternalItem)
    (rightmost parentID : PageID) (before after : σ)
    (promoted : InternalItem) (rightID : PageID) : Prop where
  evolves : Evolves before after {parentID} 1
  fresh : ¬ Allocated before rightID
  held : Allocated after rightID
  promoted_eq : items[items.length / 2]? = some promoted
  left : InternalPage (Pager.page after parentID)
    (items.take (items.length / 2)) promoted.child
  right : InternalPage (Pager.page after rightID)
    (items.drop (items.length / 2 + 1)) rightmost

theorem splitInternal_spec {items : List InternalItem}
    (rightmost : PageID) {parentID : PageID} {state : σ} (good : Good state)
    (held : Allocated state parentID) (roomy : 0 < room state)
    (nonempty : items ≠ [])
    (short : ∀ item, item ∈ items → item.key.length ≤ maxKeySize) :
    (∀ left promoted right after,
      splitInternal items rightmost parentID state =
        (.ok (left, promoted, right), after) →
      InternalFits (items.take (items.length / 2)) ∧
      InternalFits (items.drop (items.length / 2 + 1)) ∧
      left = parentID ∧
      ∃ middle, middle.key = promoted ∧
        SplitNode items rightmost parentID state after middle right) ∧
    (InternalFits (items.take (items.length / 2)) →
      InternalFits (items.drop (items.length / 2 + 1)) →
      ∃ result after, splitInternal items rightmost parentID state =
        (.ok result, after)) := by
  have bound : items.length / 2 < items.length :=
    Nat.div_lt_self (List.length_pos_iff.mpr nonempty) (by decide)
  have stored := List.getElem?_eq_getElem bound
  unfold splitInternal
  obtain ⟨rightID, next, allocated, grown, fresh, rightHeld⟩ :=
    evolves_allocate .pageBTreeInternal good roomy
  have goodNext := grown.good
  rw [allocated]
  have leftHeld := grown.keeps held
  have different : parentID ≠ rightID := fun same => fresh (same ▸ held)
  have leftSpec := setInternalItems_spec (Pager.page next parentID)
    (items.take (items.length / 2))
    items[items.length / 2].child
    fun item member => short item (List.mem_of_mem_take member)
  simp only [stored, Option.getD_some]
  rcases leftPair : setInternalItems (Pager.page next parentID)
    (items.take (items.length / 2)) items[items.length / 2].child with
    ⟨leftOutcome, left⟩
  by_cases leftFits : InternalFits (items.take (items.length / 2))
  · obtain ⟨leftDone, leftDirty, leftNode⟩ := leftSpec.done leftFits
    have leftID := leftSpec.id_eq.trans (page_id goodNext leftHeld)
    rw [leftPair] at leftDone leftDirty leftNode leftID
    simp only at leftDone leftDirty leftNode leftID
    subst leftDone
    have rightKept : Pager.page (Pager.setPage parentID left next)
        rightID = Pager.page next rightID :=
      setPage_other goodNext leftHeld leftID rightHeld different.symm
    have rightSpec := setInternalItems_spec (Pager.page next rightID)
      (items.drop (items.length / 2 + 1)) rightmost
      fun item member => short item (List.mem_of_mem_drop member)
    simp only [rightKept]
    rcases rightPair : setInternalItems (Pager.page next rightID)
      (items.drop (items.length / 2 + 1)) rightmost with
      ⟨rightOutcome, right⟩
    by_cases rightFits :
      InternalFits (items.drop (items.length / 2 + 1))
    · obtain ⟨rightDone, rightDirty, rightNode⟩ :=
        rightSpec.done rightFits
      have rightSame := rightSpec.id_eq.trans
        (page_id goodNext rightHeld)
      rw [rightPair] at rightDone rightDirty rightNode rightSame
      simp only at rightDone rightDirty rightNode rightSame
      subst rightDone
      obtain ⟨halves, leftAt, rightAt⟩ :=
        evolves_storeHalves goodNext leftHeld rightHeld different leftID
          leftDirty rightSame rightDirty
      refine ⟨?_, fun _ _ => ⟨_, _, rfl⟩⟩
      intro leftOut promoted rightOut after done
      simp only [Prod.mk.injEq, Except.ok.injEq] at done
      obtain ⟨⟨rfl, rfl, rfl⟩, rfl⟩ := done
      rw [leftID, rightSame]
      refine ⟨leftFits, rightFits, rfl, items[items.length / 2], rfl, ?_,
        fresh, halves.keeps rightHeld, stored, ?_, ?_⟩
      · exact (grown.mono (Set.empty_subset _)).trans_fresh fresh
          (halves.mono (by rw [Set.pair_comm]))
      · rw [leftAt]
        exact leftNode
      · rw [rightAt]
        exact rightNode
    · have failed := rightSpec.failed rightFits
      rw [rightPair] at failed
      simp only at failed
      subst failed
      exact ⟨fun _ _ _ _ done => (nomatch done),
        fun _ fits => absurd fits rightFits⟩
  · have failed := leftSpec.failed leftFits
    rw [leftPair] at failed
    simp only at failed
    subst failed
    exact ⟨fun _ _ _ _ done => (nomatch done),
      fun fits => absurd fits leftFits⟩

theorem Carried.above {tree out : Tree σ} {next : σ} {path : List PageID}
    {height newHeight : Nat} {parentID rightID : PageID}
    {before after low high below changed : Outline}
    (carried : Carried { tree with pager := next } out path height newHeight
      (before + (Outline.page parentID + low +
        (Outline.page rightID + high)) + after) changed)
    (evolution : Evolves tree.pager next {parentID} 1)
    (fresh : ¬ Allocated tree.pager rightID)
    (below_eq : below = low + high) :
    Carried tree out (parentID :: path) height newHeight
      (before + (Outline.page parentID + below) + after) changed := by
  subst below_eq
  refine ⟨?_, carried.subtree, carried.height_le, ?_, carried.nodup,
    carried.allocated, ?_, ?_⟩
  · have first : Evolves tree.pager next {id | id ∈ parentID :: path} 1 :=
      evolution.mono (by simp)
    have whole := first.trans (carried.evolves.mono (by
      intro id member
      exact List.mem_cons_of_mem _ member))
    rw [List.length_cons, Nat.add_comm _ 1]
    exact whole
  · rw [carried.leaves_eq]
    simp
  · intro id member
    rcases carried.fresh id member with inside | outside
    · simp only [Outline.add_ids, Outline.page_ids, Multiset.mem_add,
        Multiset.mem_singleton] at inside ⊢
      by_cases new : id = rightID
      · exact .inr (new ▸ fresh)
      · exact .inl (by tauto)
    · exact .inr fun old => outside (evolution.keeps old)
  · have bound := evolution.room_le
    have paid := carried.paid
    simp only [Outline.add_ids, Outline.page_ids, Multiset.card_add,
      Multiset.card_singleton] at paid ⊢
    omega

/-- Carrying a split up succeeds exactly when the pages on the path fit, given
pages to allocate, and then the tree is whole again. -/
theorem propagate_spec {height : Nat} :
    ∀ (path : List PageID) {tree : Tree σ} {level : Nat}
      {range : Range Bytes} {cLeft cRight : PageID} {kSep : Bytes}
      {before left right after : Outline},
      Torn tree height path level range cLeft kSep cRight before left right
        after →
      path.length < room tree.pager →
      ((propagate cLeft kSep cRight path tree).1 = .ok () →
        ParentsFit (Pager.page tree.pager) cLeft kSep path ∧
        ∃ newHeight changed,
          Carried tree (propagate cLeft kSep cRight path tree).2 path height
            newHeight (before + (left + right) + after) changed) ∧
      (ParentsFit (Pager.page tree.pager) cLeft kSep path →
        (propagate cLeft kSep cRight path tree).1 = .ok ())
  | [], tree, _, _, _, _, _, _, _, _, _, torn, enough => by
      obtain ⟨done, carried⟩ := growRoot_spec torn enough
      exact ⟨fun _ => ⟨trivial, carried⟩, fun _ => done⟩
  | parentID :: rest, tree, level, range, cLeft, cRight, kSep, before, left,
    right, after, torn, enough => by
      obtain ⟨good, around, lower, upper, splits, short, nodup, allocated⟩ :=
        torn
      obtain _ | @⟨_, _, outer, _, _, _, rightmost, items, before, after,
        front, back, around, node, shortItems, hole⟩ := around
      have wholeEq : before + Outline.page parentID + front + (left + right) +
          (back + after) =
          before + (Outline.page parentID +
            (front + (left + right) + back)) + after := by
        simp only [add_assoc]
      rw [wholeEq] at nodup allocated ⊢
      have apart : cLeft ∉ front.ids + back.ids := by
        intro member
        have inside := subtree_rooted _ _ _ _ _ lower
        simp only [Outline.add_ids, Outline.page_ids] at nodup
        rw [show before.ids + ({parentID} + (front.ids +
            (left.ids + right.ids) + back.ids)) + after.ids =
          (front.ids + back.ids) + left.ids +
            (before.ids + {parentID} + right.ids + after.ids) by abel,
          Multiset.nodup_add, Multiset.nodup_add] at nodup
        exact Multiset.disjoint_left.mp nodup.1.2.2 member inside
      obtain ⟨newItems, newRightmost, spliced, children, keys⟩ :=
        hole.splice (subtree_rooted _ _) apart lower upper splits
      have shortNew : ∀ item, item ∈ newItems →
          item.key.length ≤ maxKeySize := by
        intro item member
        rcases keys item member with same | ⟨old, oldMember, same⟩
        · rw [same]
          exact short
        · rw [← same]
          exact shortItems old oldMember
      have held : Allocated tree.pager parentID :=
        allocated parentID (by simp)
      have spec := setInternalItems_spec (Pager.page tree.pager parentID)
        newItems newRightmost shortNew
      have sameID := spec.id_eq.trans (page_id good held)
      rw [parentsFit_cons node spliced]
      unfold propagate
      simp only [node.internalItems_eq, node.rightmost_eq, spliced]
      rcases pair : setInternalItems (Pager.page tree.pager parentID)
        newItems newRightmost with ⟨outcome, page⟩
      by_cases roomy : InternalFits newItems
      · obtain ⟨done, dirty, newNode⟩ := spec.done roomy
        rw [pair] at done dirty newNode sameID
        simp only at done dirty newNode sameID
        subst done
        obtain ⟨stored, pageAt⟩ := evolves_store good held sameID dirty
        have carried := around.settle children shortNew nodup allocated stored
          (by rw [pageAt]; exact newNode)
        exact ⟨fun _ => ⟨.inl roomy, height, _, carried⟩, fun _ => rfl⟩
      · have failed := spec.failed roomy
        rw [pair] at failed sameID
        simp only at failed sameID
        subst failed
        have written := evolves_setPage good held sameID
        have nonempty : newItems ≠ [] := by
          rintro rfl
          exact roomy (by decide)
        have bound := written.room_le
        rw [List.length_cons] at enough
        obtain ⟨onlyIf, splittable⟩ := splitInternal_spec newRightmost
          written.good (written.keeps held)
          (by omega) nonempty shortNew
        simp only
        rcases splitEq : splitInternal newItems newRightmost parentID
          (Pager.setPage parentID page tree.pager) with ⟨outcome, next⟩
        cases outcome with
        | error error =>
            refine ⟨fun done => (nomatch done), ?_⟩
            rintro (fits | ⟨leftFits, rightFits, _⟩)
            · exact absurd fits roomy
            · obtain ⟨_, _, succeeded⟩ := splittable leftFits rightFits
              rw [succeeded] at splitEq
              cases splitEq
        | ok result =>
            obtain ⟨leftOut, promoted, rightID⟩ := result
            obtain ⟨leftFits, rightFits, rfl, middle, rfl, halves⟩ :=
              onlyIf _ _ _ _ splitEq
            have evolution : Evolves tree.pager next {leftOut} 1 :=
              written.trans halves.evolves
            have fresh : ¬ Allocated tree.pager rightID :=
              fun old => halves.fresh (written.keeps old)
            obtain ⟨bound, middleEq⟩ :=
              List.getElem?_eq_some_iff.mp halves.promoted_eq
            have divided : newItems = newItems.take (newItems.length / 2) ++
                middle :: newItems.drop (newItems.length / 2 + 1) := by
              rw [← middleEq, List.getElem_cons_drop,
                List.take_append_drop]
            rw [divided] at children shortNew
            obtain ⟨low, high, torn, below⟩ := around.tear children shortNew
              nodup allocated evolution fresh halves.held halves.left
              halves.right
            have left := evolution.room_le
            obtain ⟨carriedIf, total⟩ := propagate_spec rest torn
              (show rest.length < room next by omega)
            rw [halves.promoted_eq, Option.getD_some]
            have restSame : ∀ id, id ∈ rest →
                Pager.page next id = Pager.page tree.pager id := by
              intro id member
              have inBefore := (around.parent_mem member).1
              refine evolution.frame (allocated id (by simp [inBefore])) ?_
              rintro rfl
              simp only [Outline.add_ids, Outline.page_ids] at nodup
              rw [add_assoc, Multiset.nodup_add] at nodup
              exact Multiset.disjoint_left.mp nodup.2.2 inBefore (by simp)
            rw [ParentsFit.congr restSame] at carriedIf total
            simp only
            constructor
            · intro done
              obtain ⟨fits, newHeight, changed, carried⟩ := carriedIf done
              refine ⟨.inr ⟨leftFits, rightFits, fits⟩, newHeight, changed,
                ?_⟩
              exact carried.above evolution fresh below
            · rintro (fits | ⟨_, _, fits⟩)
              · exact absurd fits roomy
              · exact total fits

end CocoDB.BTree
