import CocoDB.BTree.Split

/-!
# Insertion

Insertion rewrites a leaf, or splits it and carries the split upwards.
`SplitsFit` is the condition on the pages before the call under which every page
that has to be split splits into halves that fit; insertion succeeds exactly
then, as long as there are pages to allocate.
-/

namespace CocoDB.BTree

open Lib LawfulPager

/-! ## The leaf chain around a split -/

theorem Linked.split {view view' : PageID → Page}
    {prev next leafID rightID : PageID} {front : List PageID}
    (back : List PageID)
    (linked : Linked view prev (front ++ leafID :: back) next)
    (frontSame : ∀ id, id ∈ front → view' id = view id)
    (leafPrev : prevLeaf (view' leafID) = prevLeaf (view leafID))
    (leafNext : nextLeaf (view' leafID) = rightID)
    (rightPrev : prevLeaf (view' rightID) = leafID)
    (rightNext : nextLeaf (view' rightID) = nextLeaf (view leafID))
    (backHead : ∀ id, id ∈ back.head? →
      prevLeaf (view' id) = rightID ∧ nextLeaf (view' id) = nextLeaf (view id))
    (backSame : ∀ id, id ∈ back.tail → view' id = view id) :
    Linked view' prev (front ++ leafID :: rightID :: back) next := by
  obtain ⟨start, leafPrevAt, leafNextAt, rest⟩ := linked_append.mp linked
  refine linked_append.mpr ⟨?_, leafPrev.trans leafPrevAt, leafNext,
    rightPrev, rightNext.trans leafNextAt, ?_⟩
  · exact start.congr (fun id member => by rw [frontSame id member])
      (fun id member => by rw [frontSame id member])
  · cases back with
    | nil => trivial
    | cons head tail =>
        obtain ⟨_, nextAt, final⟩ := rest
        obtain ⟨headPrev, headNext⟩ := backHead head rfl
        refine ⟨headPrev, headNext.trans nextAt, ?_⟩
        exact final.congr (fun id member => by rw [backSame id member])
          (fun id member => by rw [backSame id member])

theorem Linked.next_eq {view : PageID → Page} {prev next leafID : PageID}
    {front : List PageID} (back : List PageID)
    (linked : Linked view prev (front ++ leafID :: back) next) :
    nextLeaf (view leafID) = back.headD next :=
  (linked_append.mp linked).2.2.1

theorem LeafPage.sameNode_setPrevLeaf {page : Page} {items : List LeafItem}
    (leaf : LeafPage page items) (id : PageID) :
    SameNode page (setPrevLeaf page id) := by
  refine ⟨fun other => other.writePageID id (by decide), ?_⟩
  intro _ _ node
  have clash := leaf.type_eq.symm.trans node.type_eq
  cases clash

/-! ## Splitting a leaf -/

variable {σ : Type} [Pager σ] [LawfulPager σ]

theorem relinkNext_spec {oldNextID : PageID} (rightID : PageID) {state : σ}
    (good : Good state)
    (held : oldNextID ≠ invalidPageID → Allocated state oldNextID) :
    Evolves state (relinkNext oldNextID rightID state) {oldNextID} 0 ∧
      (oldNextID ≠ invalidPageID →
        Pager.page (relinkNext oldNextID rightID state) oldNextID =
          setPrevLeaf (Pager.page state oldNextID) rightID) := by
  unfold relinkNext
  by_cases last : oldNextID = invalidPageID
  · rw [if_pos last]
    exact ⟨Evolves.refl good, fun valid => absurd last valid⟩
  · rw [if_neg last]
    have old := held last
    have read := evolves_get good old
    have result := (get_ok good old).1
    have same := read.frame old (Set.notMem_empty _)
    rcases pair : Pager.get oldNextID state with ⟨outcome, next⟩
    rw [pair] at read result same
    simp only at read result same
    subst result
    simp only
    have sameID : (setPrevLeaf (Pager.page next oldNextID)
        rightID).header.id = oldNextID := page_id read.good (read.keeps old)
    obtain ⟨stored, pageAt⟩ :=
      evolves_store read.good (read.keeps old) sameID rfl
    refine ⟨(read.mono (Set.empty_subset _)).trans stored, fun _ => ?_⟩
    rw [pageAt, same]

theorem linkRight_spec {leafID rightID : PageID} {state : σ}
    (good : Good state) (leafHeld : Allocated state leafID)
    (rightHeld : Allocated state rightID) (different : leafID ≠ rightID)
    (nextHeld : nextLeaf (Pager.page state leafID) ≠ invalidPageID →
      Allocated state (nextLeaf (Pager.page state leafID)))
    (nextNeLeaf : nextLeaf (Pager.page state leafID) ≠ leafID)
    (nextNeRight : nextLeaf (Pager.page state leafID) ≠ rightID) :
    Evolves state (linkRight leafID rightID state)
        {leafID, rightID, nextLeaf (Pager.page state leafID)} 0 ∧
      Pager.page (linkRight leafID rightID state) leafID =
        setNextLeaf (Pager.page state leafID) rightID ∧
      Pager.page (linkRight leafID rightID state) rightID =
        setPrevLeaf (setNextLeaf (Pager.page state rightID)
          (nextLeaf (Pager.page state leafID))) leafID ∧
      (nextLeaf (Pager.page state leafID) ≠ invalidPageID →
        Pager.page (linkRight leafID rightID state)
            (nextLeaf (Pager.page state leafID)) =
          setPrevLeaf (Pager.page state
            (nextLeaf (Pager.page state leafID))) rightID) := by
  have leafIDEq := page_id good leafHeld
  have rightIDEq : (setPrevLeaf (setNextLeaf (Pager.page state rightID)
      (nextLeaf (Pager.page state leafID)))
        (Pager.page state leafID).header.id).header.id = rightID :=
    page_id good rightHeld
  have newLeafID : (setNextLeaf (Pager.page state leafID)
      rightID).header.id = leafID := leafIDEq
  unfold linkRight
  simp only [rightIDEq]
  rw [leafIDEq] at rightIDEq ⊢
  have first := evolves_setPage good rightHeld rightIDEq
  have firstAt := setPage_same good rightHeld rightIDEq
  have second :=
    evolves_setPage first.good (first.keeps leafHeld) newLeafID
  have secondAt := setPage_same first.good (first.keeps leafHeld) newLeafID
  have both : Evolves state _ {leafID, rightID} 0 :=
    (first.mono (by simp)).trans (second.mono (by simp))
  obtain ⟨third, thirdAt⟩ := relinkNext_spec rightID both.good
    fun valid => both.keeps (nextHeld valid)
  refine ⟨?_, ?_, ?_, ?_⟩
  · refine (both.mono ?_).trans (third.mono (by simp))
    intro id member
    simp only [Set.mem_insert_iff, Set.mem_singleton_iff] at member ⊢
    exact member.imp_right .inl
  · rw [third.frame (both.keeps leafHeld) (by simpa using nextNeLeaf.symm),
      secondAt]
  · rw [third.frame (both.keeps rightHeld) (by simpa using nextNeRight.symm),
      second.frame (first.keeps rightHeld) (by simpa using different.symm),
      firstAt]
  · intro valid
    rw [thirdAt valid,
      both.frame (nextHeld valid) (by simp [nextNeLeaf, nextNeRight])]

structure SplitPage (items : List LeafItem) (leafID : PageID)
    (before after : σ) (rightID : PageID) : Prop where
  evolves : Evolves before after
    {leafID, nextLeaf (Pager.page before leafID)} 1
  fresh : ¬ Allocated before rightID
  held : Allocated after rightID
  left : LeafPage (Pager.page after leafID) (items.take (items.length / 2))
  right : LeafPage (Pager.page after rightID) (items.drop (items.length / 2))
  leftPrev : prevLeaf (Pager.page after leafID) =
    prevLeaf (Pager.page before leafID)
  leftNext : nextLeaf (Pager.page after leafID) = rightID
  rightPrev : prevLeaf (Pager.page after rightID) = leafID
  rightNext : nextLeaf (Pager.page after rightID) =
    nextLeaf (Pager.page before leafID)
  nextPage : nextLeaf (Pager.page before leafID) ≠ invalidPageID →
    Pager.page after (nextLeaf (Pager.page before leafID)) =
      setPrevLeaf
        (Pager.page before (nextLeaf (Pager.page before leafID))) rightID

theorem splitLeaf_spec (items : List LeafItem) {leafID : PageID} {state : σ}
    (good : Good state) (held : Allocated state leafID)
    (roomy : 0 < room state)
    (admissible : ∀ item, item ∈ items → item.Admissible)
    (nextHeld : nextLeaf (Pager.page state leafID) ≠ invalidPageID →
      Allocated state (nextLeaf (Pager.page state leafID)))
    (nextNe : nextLeaf (Pager.page state leafID) ≠ leafID) :
    (∀ left kSep right after,
      splitLeaf items leafID state = (.ok (left, kSep, right), after) →
      LeafFits (items.take (items.length / 2)) ∧
      LeafFits (items.drop (items.length / 2)) ∧
      left = leafID ∧
      kSep = ((items.drop (items.length / 2)).head?.map
        LeafItem.key).getD [] ∧
      SplitPage items leafID state after right) ∧
    (LeafFits (items.take (items.length / 2)) →
      LeafFits (items.drop (items.length / 2)) →
      ∃ result after, splitLeaf items leafID state = (.ok result, after)) := by
  unfold splitLeaf
  obtain ⟨rightID, next, allocated, grown, fresh, rightHeld⟩ :=
    evolves_allocate .pageBTreeLeaf good roomy
  have goodNext := grown.good
  rw [allocated]
  have leafHeld := grown.keeps held
  have different : leafID ≠ rightID := fun same => fresh (same ▸ held)
  have leafSame : Pager.page next leafID = Pager.page state leafID :=
    grown.frame held (Set.notMem_empty _)
  have nextNeRight : nextLeaf (Pager.page state leafID) ≠ rightID := by
    intro same
    by_cases last : nextLeaf (Pager.page state leafID) = invalidPageID
    · exact allocated_valid goodNext rightHeld (same.symm.trans last)
    · exact fresh (same ▸ nextHeld last)
  obtain ⟨linked, leafAt, rightAt, nextAt⟩ := linkRight_spec goodNext
    leafHeld rightHeld different
    (by rw [leafSame]; exact fun valid => grown.keeps (nextHeld valid))
    (by rw [leafSame]; exact nextNe)
    (by rw [leafSame]; exact nextNeRight)
  rw [leafSame] at linked leafAt rightAt nextAt
  simp only
  generalize linkRight leafID rightID next = middle at *
  have leftSpec := setLeafItems_spec (Pager.page middle leafID)
    (items.take (items.length / 2))
    fun item member => admissible item (List.mem_of_mem_take member)
  rcases leftPair : setLeafItems (Pager.page middle leafID)
    (items.take (items.length / 2)) with ⟨leftOutcome, left⟩
  by_cases leftFits : LeafFits (items.take (items.length / 2))
  · obtain ⟨leftDone, leftDirty, leftNode⟩ := leftSpec.done leftFits
    have leftID := leftSpec.id_eq.trans
      (page_id linked.good (linked.keeps leafHeld))
    have leftPrev := leftSpec.prev_eq
    have leftNext := leftSpec.next_eq
    rw [leftPair] at leftDone leftDirty leftNode leftID leftPrev leftNext
    simp only at leftDone leftDirty leftNode leftID leftPrev leftNext
    subst leftDone
    have rightKept : Pager.page (Pager.setPage leafID left middle)
        rightID = Pager.page middle rightID :=
      setPage_other linked.good (linked.keeps leafHeld) leftID
        (linked.keeps rightHeld) different.symm
    have rightSpec := setLeafItems_spec (Pager.page middle rightID)
      (items.drop (items.length / 2))
      fun item member => admissible item (List.mem_of_mem_drop member)
    simp only [rightKept]
    rcases rightPair : setLeafItems (Pager.page middle rightID)
      (items.drop (items.length / 2)) with ⟨rightOutcome, right⟩
    by_cases rightFits : LeafFits (items.drop (items.length / 2))
    · obtain ⟨rightDone, rightDirty, rightNode⟩ :=
        rightSpec.done rightFits
      have rightSame := rightSpec.id_eq.trans
        (page_id linked.good (linked.keeps rightHeld))
      have rightPrev := rightSpec.prev_eq
      have rightNext := rightSpec.next_eq
      rw [rightPair] at rightDone rightDirty rightNode rightSame
      rw [rightPair] at rightPrev rightNext
      simp only at rightDone rightDirty rightNode rightSame
      simp only at rightPrev rightNext
      subst rightDone
      obtain ⟨halves, leftStored, rightStored⟩ :=
        evolves_storeHalves linked.good (linked.keeps leafHeld)
          (linked.keeps rightHeld) different leftID leftDirty rightSame
          rightDirty
      refine ⟨?_, fun _ _ => ⟨_, _, rfl⟩⟩
      intro leftOut kSep rightOut after done
      simp only [Prod.mk.injEq, Except.ok.injEq] at done
      obtain ⟨⟨rfl, rfl, rfl⟩, rfl⟩ := done
      rw [leftID, rightSame]
      refine ⟨leftFits, rightFits, rfl, rfl, ?_⟩
      generalize Pager.markDirty rightID (Pager.markDirty leafID
        (Pager.setPage rightID right (Pager.setPage leafID left
          middle))) = final at *
      refine ⟨?_, fresh, halves.keeps (linked.keeps rightHeld), ?_, ?_,
        ?_, ?_, ?_, ?_, ?_⟩
      · refine (grown.mono (Set.empty_subset _)).trans_fresh fresh
          ((linked.mono ?_).trans (halves.mono ?_))
        · intro id member
          simp only [Set.mem_insert_iff, Set.mem_singleton_iff]
            at member ⊢
          tauto
        · intro id member
          simp only [Set.mem_insert_iff, Set.mem_singleton_iff]
            at member ⊢
          tauto
      · rw [leftStored]
        exact leftNode
      · rw [rightStored]
        exact rightNode
      · rw [leftStored, leftPrev, leafAt, prevLeaf_setNextLeaf]
      · rw [leftStored, leftNext, leafAt, nextLeaf_setNextLeaf]
      · rw [rightStored, rightPrev, rightAt, prevLeaf_setPrevLeaf]
      · rw [rightStored, rightNext, rightAt, nextLeaf_setPrevLeaf,
          nextLeaf_setNextLeaf]
      · intro valid
        rw [halves.frame (linked.keeps (grown.keeps (nextHeld valid)))
          (by simp [nextNe, nextNeRight]), nextAt valid,
          grown.frame (nextHeld valid) (Set.notMem_empty _)]
    · have failed := rightSpec.failed rightFits
      rw [rightPair] at failed
      simp only at failed
      subst failed
      exact ⟨fun _ _ _ _ done => (nomatch done),
        fun _ fits => absurd fits rightFits⟩
  · have failed := leftSpec.failed leftFits
    rw [leftPair] at failed
    simp only at failed
    subst failed
    exact ⟨fun _ _ _ _ done => (nomatch done),
      fun fits => absurd fits leftFits⟩

/-! ## The tree around a split leaf -/

def splitKey (items : List LeafItem) : Bytes :=
  ((items.drop (items.length / 2)).head?.map LeafItem.key).getD []

theorem SortedItems.halves {items : List LeafItem} {range : Range Bytes}
    (sorted : SortedItems items) (long : 2 ≤ items.length)
    (inside : ∀ item, item ∈ items →
      item.Admissible ∧ range.Contains item.key) :
    range.Splits (splitKey items) ∧
      (splitKey items).length ≤ maxKeySize ∧
      (∀ item, item ∈ items.take (items.length / 2) →
        item.Admissible ∧ (range.below (splitKey items)).Contains item.key) ∧
      ∀ item, item ∈ items.drop (items.length / 2) →
        item.Admissible ∧
          (range.above (splitKey items)).Contains item.key := by
  have bound : items.length / 2 < items.length := by omega
  have middle : splitKey items = items[items.length / 2].key := by
    unfold splitKey
    rw [List.head?_drop, List.getElem?_eq_getElem bound]
    rfl
  have first : 0 < items.length := by omega
  have middleIn := inside _ (List.getElem_mem bound)
  rw [middle]
  refine ⟨middleIn.2.splits (inside _ (List.getElem_mem first)).2 ?_,
    middleIn.1.1, ?_, ?_⟩
  · exact List.pairwise_iff_getElem.mp sorted _ _ _ _ (by omega)
  · intro item member
    have old := inside item (List.mem_of_mem_take member)
    obtain ⟨index, below, rfl⟩ := List.mem_take_iff_getElem.mp member
    exact ⟨old.1, old.2.below
      (List.pairwise_iff_getElem.mp sorted _ _ _ _ (by omega))⟩
  · intro item member
    have old := inside item (List.mem_of_mem_drop member)
    obtain ⟨index, below, rfl⟩ := List.mem_drop_iff_getElem.mp member
    refine ⟨old.1, old.2.above ?_⟩
    by_cases here : index = 0
    · subst here
      exact le_refl _
    · exact (List.pairwise_iff_getElem.mp sorted _ _ _ _ (by omega)).le

theorem Stands.nextLeaf_spec {tree : Tree σ} {height : Nat}
    {outline before after : Outline} {leafID : PageID}
    {path : List PageID} {range : Range Bytes} {items : List LeafItem}
    (stands : Stands tree height outline)
    (arrival : Arrival tree.pager tree.root height outline leafID path range
      items before after) :
    nextLeaf (Pager.page tree.pager leafID) =
        (after.leaves.map Leaf.id).headD invalidPageID ∧
      (nextLeaf (Pager.page tree.pager leafID) ≠ invalidPageID →
        nextLeaf (Pager.page tree.pager leafID) ∈ after.ids ∧
        ∃ others, LeafPage (Pager.page tree.pager
          (nextLeaf (Pager.page tree.pager leafID))) others) := by
  have linked := stands.linked
  rw [arrival.total_eq] at linked
  simp only [Outline.add_leaves, Outline.leaf_leaves, List.map_append,
    List.append_assoc] at linked
  have next := Linked.next_eq (after.leaves.map Leaf.id) linked
  refine ⟨next, ?_⟩
  rw [next]
  intro valid
  cases shape : after.leaves with
  | nil =>
      rw [shape] at valid
      exact absurd rfl valid
  | cons leaf rest =>
      have listed := arrival.around.listed.2
      have member : leaf ∈ after.leaves := by simp [shape]
      exact ⟨listed.mem member, leaf.items, listed.leafPage leaf member⟩

theorem Stands.tearLeaf {tree : Tree σ} {height : Nat}
    {outline before after : Outline} {leafID rightID : PageID}
    {path : List PageID} {range : Range Bytes}
    {items newItems : List LeafItem} {bad : Page} {next : σ}
    (stands : Stands tree height outline)
    (arrival : Arrival tree.pager tree.root height outline leafID path range
      items before after)
    (sameID : bad.header.id = leafID)
    (samePrev : prevLeaf bad = prevLeaf (Pager.page tree.pager leafID))
    (sameNext : nextLeaf bad = nextLeaf (Pager.page tree.pager leafID))
    (split : SplitPage newItems leafID
      (Pager.setPage leafID bad tree.pager) next rightID)
    (sorted : SortedItems newItems) (long : 2 ≤ newItems.length)
    (inside : ∀ item, item ∈ newItems →
      item.Admissible ∧ range.Contains item.key) :
    Torn { tree with pager := next } height path 0 range leafID
        (splitKey newItems) rightID before
        (Outline.leaf leafID (newItems.take (newItems.length / 2)))
        (Outline.leaf rightID (newItems.drop (newItems.length / 2)))
        after ∧
      Linked (Pager.page next) invalidPageID
        (before.leaves.map Leaf.id ++
          leafID :: rightID :: after.leaves.map Leaf.id) invalidPageID ∧
      Evolves tree.pager next {id | id ∈ outline.ids} 1 ∧
      ¬ Allocated tree.pager rightID ∧
      ∀ id, id ∈ path → Pager.page next id = Pager.page tree.pager id := by
  have held := arrival.leaf_allocated stands.allocated
  have written := evolves_setPage stands.good held sameID
  have badAt := setPage_same stands.good held sameID
  obtain ⟨nextEq, nextLeafPage⟩ := stands.nextLeaf_spec arrival
  have fresh : ¬ Allocated tree.pager rightID :=
    fun old => split.fresh (written.keeps old)
  have apart := arrival.apart stands.nodup
  have oldNext : nextLeaf (Pager.page
      (Pager.setPage leafID bad tree.pager) leafID) =
      nextLeaf (Pager.page tree.pager leafID) := by
    rw [badAt, sameNext]
  have narrow : Evolves tree.pager next
      {leafID, nextLeaf (Pager.page tree.pager leafID)} 1 := by
    have splitEvolves := split.evolves
    rw [oldNext] at splitEvolves
    exact (written.mono (by simp)).trans splitEvolves
  have outer : ∀ id, id ∈ before.ids + after.ids → id ∈ outline.ids := by
    intro id member
    rw [arrival.total_eq]
    simp only [Outline.add_ids, Multiset.mem_add] at member ⊢
    exact member.imp_left .inl
  have unchanged : ∀ id, id ∈ before.ids + after.ids →
      id ≠ nextLeaf (Pager.page tree.pager leafID) →
      Pager.page next id = Pager.page tree.pager id := by
    intro id member different
    refine narrow.frame (stands.allocated (outer id member)) ?_
    rintro (rfl | same)
    · exact apart member
    · exact different same
  have nextValid : ∀ id, id ∈ outline.ids →
      id = nextLeaf (Pager.page tree.pager leafID) →
      nextLeaf (Pager.page tree.pager leafID) ≠ invalidPageID := by
    intro id member same
    rw [← same]
    exact allocated_valid stands.good (stands.allocated member)
  have nextAt : nextLeaf (Pager.page tree.pager leafID) ≠ invalidPageID →
      Pager.page next (nextLeaf (Pager.page tree.pager leafID)) =
        setPrevLeaf (Pager.page tree.pager
          (nextLeaf (Pager.page tree.pager leafID))) rightID := by
    intro valid
    have stored := split.nextPage
    rw [oldNext] at stored
    rw [stored valid]
    have inAfter := (nextLeafPage valid).1
    rw [written.frame (stands.allocated (outer _ (by simp [inAfter])))]
    rintro same
    exact apart (by
      rw [← Set.mem_singleton_iff.mp same]
      simp [inAfter])
  have sameNode : ∀ id, id ∈ before.ids + after.ids →
      SameNode (Pager.page tree.pager id) (Pager.page next id) := by
    intro id member
    by_cases isNext : id = nextLeaf (Pager.page tree.pager leafID)
    · have valid := nextValid id (outer id member) isNext
      obtain ⟨_, others, leaf⟩ := nextLeafPage valid
      rw [isNext, nextAt valid]
      exact leaf.sameNode_setPrevLeaf rightID
    · exact SameNode.of_eq (unchanged id member isNext)
  obtain ⟨splits, short, leftInside, rightInside⟩ :=
    sorted.halves long inside
  have idsEq : (before + (Outline.leaf leafID
      (newItems.take (newItems.length / 2)) + Outline.leaf rightID
      (newItems.drop (newItems.length / 2))) + after).ids =
      rightID ::ₘ outline.ids := by
    rw [arrival.total_eq]
    simp only [Outline.add_ids, Outline.leaf_ids, ← Multiset.singleton_add]
    abel
  refine ⟨⟨narrow.good, arrival.around.congr sameNode, ?_, ?_, splits, short,
    ?_, ?_⟩, ?_, ?_, fresh, ?_⟩
  · exact ⟨_, split.left, sorted.sublist (List.take_sublist _ _), leftInside,
      rfl⟩
  · exact ⟨_, split.right, sorted.sublist (List.drop_sublist _ _),
      rightInside, rfl⟩
  · rw [idsEq, Multiset.nodup_cons]
    exact ⟨fun member => fresh (stands.allocated member), stands.nodup⟩
  · intro id member
    rw [idsEq, Multiset.mem_cons] at member
    rcases member with rfl | old
    · exact split.held
    · exact narrow.keeps (stands.allocated old)
  · obtain ⟨frontListed, backListed⟩ := arrival.around.listed
    have linked := stands.linked
    rw [arrival.total_eq] at linked
    simp only [Outline.add_leaves, Outline.leaf_leaves, List.map_append,
      List.append_assoc] at linked
    refine Linked.split (after.leaves.map Leaf.id) linked ?_ ?_
      split.leftNext split.rightPrev (split.rightNext.trans oldNext) ?_ ?_
    · intro id member
      obtain ⟨leaf, listed, rfl⟩ := List.mem_map.mp member
      have inBefore := frontListed.mem listed
      refine unchanged leaf.id (by simp [inBefore]) fun isNext => ?_
      have valid := nextValid leaf.id (outer _ (by simp [inBefore])) isNext
      have nodup := stands.nodup
      rw [arrival.total_eq, Outline.add_ids, Multiset.nodup_add] at nodup
      have inAfter : leaf.id ∈ after.ids := by
        rw [isNext]
        exact (nextLeafPage valid).1
      exact Multiset.disjoint_right.mp nodup.2.2 inAfter
        (by simp [inBefore])
    · rw [split.leftPrev, badAt, samePrev]
    · intro id member
      have isNext : id = nextLeaf (Pager.page tree.pager leafID) := by
        rw [nextEq, List.headD_eq_head?_getD, Option.mem_def.mp member]
        rfl
      obtain ⟨leaf, listed, same⟩ :=
        List.mem_map.mp (List.mem_of_mem_head? member)
      have inAfter : id ∈ after.ids := same ▸ backListed.mem listed
      have valid := nextValid id (outer id (by simp [inAfter])) isNext
      rw [isNext, nextAt valid]
      exact ⟨prevLeaf_setPrevLeaf _ _, nextLeaf_setPrevLeaf _ _⟩
    · intro id member
      have distinct : (after.leaves.map Leaf.id).Nodup := by
        have nodup := stands.nodup
        rw [arrival.total_eq, Outline.add_ids, Multiset.nodup_add] at nodup
        exact Multiset.coe_nodup.mp
          (Multiset.nodup_of_le backListed.ids_le nodup.2.1)
      obtain ⟨leaf, listed, same⟩ :=
        List.mem_map.mp (List.mem_of_mem_tail member)
      have inAfter : id ∈ after.ids := same ▸ backListed.mem listed
      refine unchanged id (by simp [inAfter]) fun isNext => ?_
      rw [isNext, nextEq] at member
      generalize after.leaves.map Leaf.id = chain at member distinct
      cases chain with
      | nil => cases member
      | cons head tail => exact (List.nodup_cons.mp distinct).1 member
  · refine ⟨narrow.good, narrow.keeps, ?_, narrow.room_le⟩
    intro id old outside
    refine narrow.frame old ?_
    rintro (rfl | same)
    · exact outside (by simp [arrival.total_eq])
    · by_cases valid :
        nextLeaf (Pager.page tree.pager leafID) = invalidPageID
      · exact allocated_valid stands.good old (same.trans valid)
      · exact outside (by
          rw [same]
          exact outer _ (by simp [(nextLeafPage valid).1]))
  · intro id member
    obtain ⟨inBefore, type⟩ := arrival.around.parent_mem member
    refine unchanged id (by simp [inBefore]) fun isNext => ?_
    have valid := nextValid id (outer id (by simp [inBefore])) isNext
    obtain ⟨_, others, leaf⟩ := nextLeafPage valid
    rw [isNext, leaf.type_eq] at type
    cases type

/-! ## The specification of `Insert` -/

def itemsAfterPut (leaf : Page) (key value : Bytes) : List LeafItem :=
  putItem (leafItems leaf) (binarySearch leaf key) key value

/-- The new items fit in their leaf, or every page that has to be split at half
its item count, the leaf and the parents on the path, has halves that fit. -/
def PathFits (view : PageID → Page) (items : List LeafItem)
    (leafID : PageID) (path : List PageID) : Prop :=
  LeafFits items ∨
    LeafFits (items.take (items.length / 2)) ∧
    LeafFits (items.drop (items.length / 2)) ∧
    ParentsFit view leafID (splitKey items) path

/-- The condition on a tree under which `Insert` finds room. -/
def SplitsFit (key value : Bytes) (tree : Tree σ) : Prop :=
  tree.root = invalidPageID ∨
    match descend (routeChild · key) (Pager.pageCount tree.pager) tree.root []
        tree.pager with
    | (.error _, _) => False
    | (.ok (leafID, path), state) =>
        PathFits (Pager.page state)
          (itemsAfterPut (Pager.page state leafID) key value) leafID path

inductive LeavesPut (key value : Bytes) (leaves : List Leaf) :
    List Leaf → Prop
  | first (id : PageID) : leaves = [] →
      LeavesPut key value leaves [⟨id, [⟨key, value⟩]⟩]
  | stored {front back : List Leaf} {id : PageID}
      {items before at' after newItems : List LeafItem} :
      Located key leaves front id items back →
      DividedAt items key before at' after →
      newItems = before ++ ⟨key, value⟩ :: after →
      LeafFits newItems →
      LeavesPut key value leaves (front ++ ⟨id, newItems⟩ :: back)
  | split {front back : List Leaf} {id rightID : PageID}
      {items before at' after newItems : List LeafItem} :
      Located key leaves front id items back →
      DividedAt items key before at' after →
      newItems = before ++ ⟨key, value⟩ :: after →
      ¬ LeafFits newItems →
      LeavesPut key value leaves
        (front ++ ⟨id, newItems.take (newItems.length / 2)⟩ ::
          ⟨rightID, newItems.drop (newItems.length / 2)⟩ :: back)

structure Inserted (before after : Tree σ) (height newHeight : Nat)
    (outline changed : Outline) (key value : Bytes) : Prop where
  represents : Represents after newHeight changed
  height_le : newHeight ≤ height + 1
  flat : changed.leaves.length ≤ 1 → newHeight = height
  evolves : Evolves before.pager after.pager {id | id ∈ outline.ids}
    (height + 2)
  fresh : ∀ id, id ∈ changed.ids →
    id ∈ outline.ids ∨ ¬ Allocated before.pager id
  bindings_eq : bindings changed.contents =
    Function.update (bindings outline.contents) key (some value)
  leaves : LeavesPut key value outline.leaves changed.leaves
  paid : room before.pager + Multiset.card outline.ids ≤
    room after.pager + Multiset.card changed.ids

private theorem leafFits_of_length {items : List LeafItem}
    (few : items.length ≤ 1)
    (admissible : ∀ item, item ∈ items → item.Admissible) :
    LeafFits items := by
  match items, few with
  | [], _ => decide
  | [item], _ =>
      have bounds := admissible item List.mem_cons_self
      simp only [LeafItem.Admissible, maxKeySize, maxValueSize] at bounds
      simp only [LeafFits, Fits, packedSize, List.map_cons, List.map_nil,
        List.sum_cons, List.sum_nil, LeafItem.encode_length]
      omega

theorem insertFirst_spec {tree : Tree σ}
    (good : Good tree.pager) (roomy : 0 < room tree.pager)
    {key value : Bytes} (admissible : LeafItem.Admissible ⟨key, value⟩) :
    (insertFirst key value tree).1 = .ok () ∧
      ∃ changed, Inserted tree (insertFirst key value tree).2 0 0 0 changed
        key value := by
  unfold insertFirst
  obtain ⟨rootID, next, allocated, grown, fresh, held⟩ :=
    evolves_allocate .pageBTreeLeaf good roomy
  have goodNext := grown.good
  rw [allocated]
  have single : ∀ item, item ∈ [LeafItem.mk key value] →
      item.Admissible ∧ Range.whole.Contains item.key := by
    intro item member
    rw [List.mem_singleton.mp member]
    exact ⟨admissible, Range.whole_contains key⟩
  have spec := setLeafItems_spec
    (setNextLeaf (setPrevLeaf (Pager.page next rootID) invalidPageID)
      invalidPageID) [LeafItem.mk key value]
    fun item member => (single item member).1
  obtain ⟨done, dirty, leaf⟩ := spec.done
    (leafFits_of_length (Nat.le_refl 1)
      fun item member => (single item member).1)
  have sameID := spec.id_eq.trans (page_id goodNext held)
  have prev := spec.prev_eq
  have after := spec.next_eq
  rw [prevLeaf_setNextLeaf, prevLeaf_setPrevLeaf] at prev
  rw [nextLeaf_setNextLeaf] at after
  simp only
  rcases pair : setLeafItems
    (setNextLeaf (setPrevLeaf (Pager.page next rootID) invalidPageID)
      invalidPageID) [LeafItem.mk key value] with ⟨written, page⟩
  rw [pair] at done dirty leaf sameID prev after
  simp only at done dirty leaf sameID prev after
  subst done
  simp only [sameID]
  obtain ⟨stored, pageAt⟩ := evolves_store goodNext held sameID dirty
  refine ⟨trivial, Outline.leaf rootID [⟨key, value⟩], ?_⟩
  refine ⟨.grown ⟨stored.good, ?_, ?_, ?_, ?_⟩, Nat.zero_le _, fun _ => rfl,
    ?_, ?_, ?_, .first rootID rfl, ?_⟩
  · refine ⟨[⟨key, value⟩], ?_, List.pairwise_singleton _ _, single, rfl⟩
    rw [pageAt]
    exact leaf
  · simp
  · intro id member
    rw [Outline.leaf_ids, Multiset.mem_singleton] at member
    rw [member]
    exact stored.keeps held
  · refine ⟨?_, ?_, trivial⟩
    · rw [pageAt]
      exact prev
    · rw [pageAt]
      exact after
  · have whole := (grown.mono (Set.empty_subset
      {id | id ∈ (0 : Outline).ids})).trans_fresh fresh
      (stored.mono (by simp))
    exact whole.afford (by decide)
  · intro id member
    rw [Outline.leaf_ids, Multiset.mem_singleton] at member
    rw [member]
    exact .inr fresh
  · funext other
    rw [Outline.contents_leaf, bindings_cons]
    by_cases same : key = other
    · subst same
      rw [if_pos rfl, Function.update_self]
    · rw [if_neg same, Function.update_of_ne (Ne.symm same)]
      rfl
  · have bound := grown.room_le
    have kept := stored.room_le
    simp only [Outline.leaf_ids, Outline.zero_ids, Multiset.card_singleton,
      Multiset.card_zero]
    omega

theorem Carried.inserted {tree out : Tree σ} {next : σ}
    {height newHeight : Nat} {outline before after changed : Outline}
    {leafID rightID : PageID} {path : List PageID} {range : Range Bytes}
    {newItems : List LeafItem} {key value : Bytes}
    (torn : Torn { tree with pager := next } height path 0 range leafID
      (splitKey newItems) rightID before
      (Outline.leaf leafID (newItems.take (newItems.length / 2)))
      (Outline.leaf rightID (newItems.drop (newItems.length / 2))) after)
    (carried : Carried { tree with pager := next } out path height newHeight
      (before + (Outline.leaf leafID (newItems.take (newItems.length / 2)) +
        Outline.leaf rightID (newItems.drop (newItems.length / 2))) + after)
      changed)
    (linked : Linked (Pager.page next) invalidPageID
      (before.leaves.map Leaf.id ++
        leafID :: rightID :: after.leaves.map Leaf.id) invalidPageID)
    (evolution : Evolves tree.pager next {id | id ∈ outline.ids} 1)
    (fresh : ¬ Allocated tree.pager rightID)
    (idsEq : outline.ids = before.ids + {leafID} + after.ids)
    (updated : bindings (before.contents ++ newItems ++ after.contents) =
      Function.update (bindings outline.contents) key (some value))
    (leaves : LeavesPut key value outline.leaves
      (before.leaves ++
        ⟨leafID, newItems.take (newItems.length / 2)⟩ ::
        ⟨rightID, newItems.drop (newItems.length / 2)⟩ :: after.leaves)) :
    Inserted tree out height newHeight outline changed key value := by
  have parents := torn.around.parents_length
  refine ⟨.grown ⟨carried.evolves.good, carried.subtree, carried.nodup,
    fun member => carried.allocated _ member, ?_⟩, carried.height_le, ?_, ?_,
    ?_, ?_, ?_, ?_⟩
  · -- The loop over the parents rewrites no leaf.
    have listed := (torn.around.listed.1.add
      (torn.lower.listed.add torn.upper.listed)).add torn.around.listed.2
    have same : ∀ id, id ∈ changed.leaves.map Leaf.id →
        Pager.page out.pager id = Pager.page next id := by
      intro id member
      rw [carried.leaves_eq] at member
      obtain ⟨leaf, inside, rfl⟩ := List.mem_map.mp member
      refine carried.evolves.frame
        (torn.allocated leaf.id (listed.mem inside)) fun onPath => ?_
      have clash := (torn.around.parent_mem onPath).2
      rw [(listed.leafPage leaf inside).type_eq] at clash
      cases clash
    have chain : Linked (Pager.page next) invalidPageID
        (changed.leaves.map Leaf.id) invalidPageID := by
      rw [carried.leaves_eq]
      simpa using linked
    exact chain.congr (fun id member => by rw [same id member])
      (fun id member => by rw [same id member])
  · intro few
    rw [carried.leaves_eq] at few
    simp at few
    omega
  · have rest : Evolves next out.pager {id | id ∈ outline.ids} _ :=
      carried.evolves.mono fun id onPath => by
        have inBefore := (torn.around.parent_mem onPath).1
        show id ∈ outline.ids
        rw [idsEq]
        simp [inBefore]
    exact (evolution.trans rest).afford (by omega)
  · intro id member
    rcases carried.fresh id member with old | new
    · by_cases isRight : id = rightID
      · exact .inr (isRight ▸ fresh)
      · refine .inl ?_
        rw [idsEq]
        simp only [Outline.add_ids, Outline.leaf_ids, Multiset.mem_add,
          Multiset.mem_singleton] at old ⊢
        tauto
    · exact .inr fun old => new (evolution.keeps old)
  · have contents : changed.contents =
        before.contents ++ newItems ++ after.contents := by
      unfold Outline.contents
      rw [carried.leaves_eq]
      change Outline.contents _ = _
      simp only [Outline.contents_add, Outline.contents_leaf,
        List.take_append_drop]
      rfl
    rw [contents, updated]
  · rw [carried.leaves_eq]
    simpa using leaves
  · have bound := evolution.room_le
    have paid := carried.paid
    rw [idsEq]
    simp only [Outline.add_ids, Outline.leaf_ids, Multiset.card_add,
      Multiset.card_singleton] at paid ⊢
    omega

theorem insertLeaf_spec {tree : Tree σ} {height : Nat}
    {outline before after : Outline} {leafID : PageID}
    {path : List PageID} {range : Range Bytes} {items : List LeafItem}
    {key value : Bytes} (stands : Stands tree height outline)
    (arrival : Arrival tree.pager tree.root height outline leafID path range
      items before after)
    (inside : range.Contains key)
    (admissible : LeafItem.Admissible ⟨key, value⟩)
    (enough : height + 2 ≤ room tree.pager) :
    ((insertLeaf key value leafID path tree).1 = .ok () →
      PathFits (Pager.page tree.pager)
        (itemsAfterPut (Pager.page tree.pager leafID) key value) leafID
        path ∧
      ∃ newHeight changed,
        Inserted tree (insertLeaf key value leafID path tree).2 height
          newHeight outline changed key value) ∧
    (PathFits (Pager.page tree.pager)
        (itemsAfterPut (Pager.page tree.pager leafID) key value) leafID
        path →
      (insertLeaf key value leafID path tree).1 = .ok ()) := by
  have result := arrival.leaf.binarySearch_spec arrival.sorted key
  obtain ⟨front, at', back, divided, put⟩ :=
    result.putItem_eq arrival.sorted value
  have itemsEq : itemsAfterPut (Pager.page tree.pager leafID) key value =
      front ++ ⟨key, value⟩ :: back := by
    unfold itemsAfterPut
    rw [arrival.leaf.leafItems_eq, put]
  have sorted := divided.sorted_put arrival.sorted value
  have within : ∀ item, item ∈ front ++ ⟨key, value⟩ :: back →
      item.Admissible ∧ range.Contains item.key := by
    intro item member
    simp only [List.mem_append, List.mem_cons] at member
    rcases member with low | rfl | high
    · exact arrival.inside item (by rw [divided.items_eq]; simp [low])
    · exact ⟨admissible, inside⟩
    · exact arrival.inside item (by rw [divided.items_eq]; simp [high])
  have updated : bindings (before.contents ++
      (front ++ ⟨key, value⟩ :: back) ++ after.contents) =
      Function.update (bindings outline.contents) key (some value) := by
    rw [arrival.contents_eq]
    exact arrival.around.bindings_update inside (divided.bindings_put value)
  rw [itemsEq]
  unfold insertLeaf
  simp only [arrival.leaf.leafItems_eq, put]
  have located := arrival.located inside
  generalize putEq : front ++ LeafItem.mk key value :: back = newItems at *
  have held := arrival.leaf_allocated stands.allocated
  have spec := setLeafItems_spec (Pager.page tree.pager leafID) newItems
    fun item member => (within item member).1
  have sameID := spec.id_eq.trans (page_id stands.good held)
  have prev := spec.prev_eq
  have next := spec.next_eq
  rcases pair : setLeafItems (Pager.page tree.pager leafID) newItems with
    ⟨outcome, page⟩
  rw [pair] at sameID prev next
  simp only at sameID prev next
  by_cases roomy : LeafFits newItems
  · obtain ⟨done, dirty, leaf⟩ := spec.done roomy
    rw [pair] at done dirty leaf
    simp only at done dirty leaf
    subst done
    obtain ⟨evolution, standsAfter⟩ := stands.storeLeaf arrival leaf sorted
      within sameID prev next dirty
    refine ⟨fun _ => ⟨.inl roomy, height, _, .grown standsAfter,
      Nat.le_succ _, fun _ => rfl, ?_, ?_, ?_, ?_, ?_⟩, fun _ => rfl⟩
    · refine (evolution.mono ?_).afford (Nat.zero_le _)
      intro id member
      rw [Set.mem_singleton_iff.mp member]
      simp [arrival.total_eq]
    · intro id member
      rw [arrival.total_eq]
      exact .inl member
    · simpa using updated
    · simpa using LeavesPut.stored located divided putEq.symm roomy
    · rw [arrival.total_eq]
      exact Nat.add_le_add_right evolution.room_le _
  · have failed := spec.failed roomy
    rw [pair] at failed
    simp only at failed
    subst failed
    simp only
    have long : 2 ≤ newItems.length := by
      by_contra few
      exact roomy (leafFits_of_length (by omega)
        fun item member => (within item member).1)
    have written := evolves_setPage stands.good held sameID
    have nextSame : nextLeaf (Pager.page
        (Pager.setPage leafID page tree.pager) leafID) =
        nextLeaf (Pager.page tree.pager leafID) := by
      rw [setPage_same stands.good held sameID, next]
    have apart := arrival.apart stands.nodup
    obtain ⟨_, nextLeafPage⟩ := stands.nextLeaf_spec arrival
    have nextAllocated : nextLeaf (Pager.page tree.pager leafID) ≠
        invalidPageID → Allocated tree.pager
          (nextLeaf (Pager.page tree.pager leafID)) := fun valid =>
      stands.allocated (by
        rw [arrival.total_eq]
        simp [(nextLeafPage valid).1])
    have bound := written.room_le
    obtain ⟨onlyIf, splittable⟩ := splitLeaf_spec newItems
      written.good (written.keeps held) (by omega)
      (fun item member => (within item member).1)
      (by
        rw [nextSame]
        exact fun valid => written.keeps (nextAllocated valid))
      (by
        rw [nextSame]
        intro same
        have valid : nextLeaf (Pager.page tree.pager leafID) ≠
            invalidPageID := by
          rw [same]
          exact allocated_valid stands.good held
        exact apart (by
          rw [← same]
          simp [(nextLeafPage valid).1]))
    rcases splitEq : splitLeaf newItems leafID
      (Pager.setPage leafID page tree.pager) with ⟨outcome, state⟩
    cases outcome with
    | error error =>
        refine ⟨fun done => (nomatch done), ?_⟩
        rintro (fits | ⟨leftFits, rightFits, _⟩)
        · exact absurd fits roomy
        · obtain ⟨_, _, succeeded⟩ := splittable leftFits rightFits
          rw [succeeded] at splitEq
          cases splitEq
    | ok halves =>
        obtain ⟨leftOut, kSep, rightID⟩ := halves
        obtain ⟨leftFits, rightFits, rfl, rfl, split⟩ :=
          onlyIf _ _ _ _ splitEq
        obtain ⟨torn, linked, evolution, fresh, pathSame⟩ :=
          stands.tearLeaf arrival sameID prev next split sorted long within
        have parents := torn.around.parents_length
        have left := evolution.room_le
        obtain ⟨carriedIf, total⟩ := propagate_spec path torn
          (show path.length < room state by omega)
        rw [ParentsFit.congr pathSame] at carriedIf total
        simp only
        constructor
        · intro done
          obtain ⟨fits, newHeight, changed, carried⟩ := carriedIf done
          refine ⟨.inr ⟨leftFits, rightFits, fits⟩, newHeight, changed, ?_⟩
          exact carried.inserted torn linked evolution fresh
            (by rw [arrival.total_eq]; rfl) updated
            (.split located divided putEq.symm roomy)
        · rintro (fits | ⟨_, _, fits⟩)
          · exact absurd fits roomy
          · exact total fits

/-- `Insert` with admissible sizes, while there are pages to allocate, succeeds
exactly when `SplitsFit` holds, and then binds its key and nothing else. -/
theorem Represents.insert_spec {tree : Tree σ} {height : Nat}
    {outline : Outline} (represents : Represents tree height outline)
    {key value : Bytes} (admissible : LeafItem.Admissible ⟨key, value⟩)
    (enough : height + 2 ≤ room tree.pager) :
    ((insert key value tree).1 = .ok () ↔ SplitsFit key value tree) ∧
    ((insert key value tree).1 = .ok () →
      ∃ newHeight changed,
        Inserted tree (insert key value tree).2 height newHeight outline
          changed key value) := by
  have keyShort : ¬ key.length > maxKeySize := Nat.not_lt.mpr admissible.1
  have valueShort : ¬ value.length > maxValueSize :=
    Nat.not_lt.mpr admissible.2
  unfold insert SplitsFit
  rw [if_neg keyShort, if_neg valueShort]
  cases represents with
  | empty missing good =>
      rw [if_pos missing]
      obtain ⟨done, inserted⟩ :=
        insertFirst_spec good (by omega) admissible
      exact ⟨⟨fun _ => .inl missing, fun _ => done⟩, fun _ => ⟨0, inserted⟩⟩
  | grown stands =>
      obtain ⟨leafID, path, range, items, before, after, final, walk,
        evolution, standsNow, arrival, inside⟩ := stands.descend_key key
      have bound := evolution.room_le
      obtain ⟨inserted, total⟩ := insertLeaf_spec standsNow arrival inside
        admissible (show height + 2 ≤ room final by omega)
      rw [if_neg stands.root_ne, walk]
      simp only [stands.root_ne, false_or]
      refine ⟨⟨fun done => (inserted done).1, total⟩, ?_⟩
      intro done
      obtain ⟨_, newHeight, changed, result⟩ := inserted done
      refine ⟨newHeight, changed, result.represents, result.height_le,
        result.flat, ?_, ?_, result.bindings_eq, result.leaves,
        (Nat.add_le_add_right evolution.room_le _).trans result.paid⟩
      · exact ((evolution.mono (Set.empty_subset _)).trans
          result.evolves).afford (by omega)
      · intro id member
        exact (result.fresh id member).imp_right fun new old =>
          new (evolution.keeps old)

end CocoDB.BTree
