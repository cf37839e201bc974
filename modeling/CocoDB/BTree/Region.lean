import CocoDB.BTree.Split

/-!
# Regions

Handles that hold an outdated root, and insertions that fail half way, leave
trees behind that no longer are search trees.  What remains is that an operation
stays among the pages that its root reaches.  A region is a set of pages that is
closed under the pointers of its nodes; every page has a level, the children of a
node lie one level below it and the leaves at the bottom.
-/

namespace CocoDB.BTree

open Lib LawfulPager Slotted

/-! ## Rewriting a node, also when it fails -/

theorem insert_full_slotCount {page : Page} {payload : Bytes}
    (failed : (Slotted.insert page payload).1 = .error .pageFull) :
    (Slotted.insert page payload).2.header.slotCount =
      page.header.slotCount := by
  unfold Slotted.insert at failed ⊢
  simp only at failed ⊢
  generalize (if (findUnused page).isNone = true then
    u16 (u16 payload.length + slotSize) else u16 payload.length) = needed at *
  by_cases full : freeSpace
      (if freeSpace page < needed then compact page else page) < needed
  · rw [if_pos full]
    by_cases crowded : freeSpace page < needed
    · rw [if_pos crowded]
      exact compact_slotCount page
    · rw [if_neg crowded]
  · rw [if_neg full] at failed
    cases failed

theorem fill_prefix : ∀ (rest stored : List Bytes) (page : Page),
    Filled page stored →
    (∀ payload, payload ∈ rest → payload.length < 65532) →
    ∃ front, front <+: rest ∧
      Filled (fill page stored.length rest).2 (stored ++ front)
  | [], stored, page, filled, _ => by
      refine ⟨[], List.prefix_rfl, ?_⟩
      rw [List.append_nil]
      exact filled.with_dirty true
  | payload :: rest, stored, page, filled, small => by
      have payloadSmall := small payload List.mem_cons_self
      have spec := filled.layout.insert_spec payloadSmall
      obtain ⟨fitting, failing⟩ := filled.insert_spec payloadSmall
      by_cases roomy : Fits (stored ++ [payload])
      · obtain ⟨done, filledNext⟩ := fitting roomy
        have count : stored.length < 65536 := by
          have bound := filled.layout.slotCount_le
          rw [filled.slotCount_eq] at bound
          omega
        obtain ⟨front, start, filledOut⟩ := fill_prefix rest
          (stored ++ [payload]) (Slotted.insert page payload).2 filledNext
          fun other member => small other (List.mem_cons_of_mem _ member)
        refine ⟨payload :: front, (List.prefix_cons_inj payload).mpr start, ?_⟩
        rw [fill]
        rcases result : Slotted.insert page payload with ⟨outcome, after⟩
        rw [result] at done filledOut
        simp only at done
        subst done
        simp only [u16_of_lt count, if_true]
        rw [List.length_append, List.length_singleton,
          List.append_assoc] at filledOut
        exact filledOut
      · have failed := failing roomy
        refine ⟨[], List.nil_prefix, ?_⟩
        have overfull : 16384 < insertDemand page payload := by
          by_contra under
          have done := (spec.fits (Nat.not_lt.mp under)).1
          rw [failed] at done
          cases done
        have stop : (fill page stored.length (payload :: rest)).2 =
            (Slotted.insert page payload).2 := by
          rw [fill]
          rcases result : Slotted.insert page payload with ⟨outcome, after⟩
          rw [result] at failed
          simp only at failed
          subst failed
          rfl
        rw [stop, List.append_nil]
        refine ⟨spec.layout_out, ?_, ?_⟩
        · rw [insert_full_slotCount failed, filled.slotCount_eq]
        · rw [(spec.full overfull).2, filled.content_eq]

theorem leafItem_small {items : List LeafItem}
    (admissible : ∀ item, item ∈ items → item.Admissible) :
    ∀ payload, payload ∈ items.map LeafItem.encode →
      payload.length < 65532 := by
  intro payload member
  obtain ⟨item, itemMember, rfl⟩ := List.mem_map.mp member
  have bounds := admissible item itemMember
  simp only [LeafItem.Admissible, maxKeySize, maxValueSize] at bounds
  rw [item.encode_length]
  omega

theorem setLeafItems_prefix (page : Page) {items : List LeafItem}
    (admissible : ∀ item, item ∈ items → item.Admissible) :
    ∃ front, front <+: items ∧
      LeafPage (setLeafItems page items).2 front := by
  have filled : Filled
      (setNextLeaf
        (setPrevLeaf (blank page .pageBTreeLeaf) (prevLeaf page))
        (nextLeaf page)) [] :=
    ((blank_filled page .pageBTreeLeaf).writePageID _ (by decide)).writePageID
      _ (by decide)
  have small := leafItem_small admissible
  obtain ⟨front, start, filledOut⟩ := fill_prefix _ [] _ filled small
  obtain ⟨frame, _⟩ := fill_spec _ [] _ filled small
  obtain ⟨kept, keptStart, rfl⟩ := List.prefix_map_iff.mp start
  exact ⟨kept, keptStart, frame.type_eq, filledOut⟩

theorem setInternalItems_prefix (page : Page) {items : List InternalItem}
    (rightmost : PageID)
    (short : ∀ item, item ∈ items → item.key.length ≤ maxKeySize) :
    ∃ front, front <+: items ∧
      InternalPage (setInternalItems page items rightmost).2 front
        rightmost := by
  have filled : Filled
      (setRightmostChild (blank page .pageBTreeInternal) rightmost) [] :=
    (blank_filled page .pageBTreeInternal).writePageID _ (by decide)
  have small : ∀ payload, payload ∈ items.map InternalItem.encode →
      payload.length < 65532 := by
    intro payload member
    obtain ⟨item, itemMember, rfl⟩ := List.mem_map.mp member
    have bound := short item itemMember
    simp only [maxKeySize] at bound
    rw [item.encode_length]
    omega
  obtain ⟨front, start, filledOut⟩ := fill_prefix _ [] _ filled small
  obtain ⟨frame, _⟩ := fill_spec _ [] _ filled small
  obtain ⟨kept, keptStart, rfl⟩ := List.prefix_map_iff.mp start
  refine ⟨kept, keptStart, frame.type_eq, filledOut, ?_⟩
  have stored : rightmostChild
      (setRightmostChild (blank page .pageBTreeInternal) rightmost) =
        rightmost := by
    unfold rightmostChild setRightmostChild
    rw [readPageID_writePageID]
  refine Eq.trans (readPageID_congr fun position lower upper => ?_) stored
  simp only [internalRightOffset, pageHeaderSize] at lower upper
  exact frame.reserved position (by omega) (by omega)

/-! ## Regions -/

/-- What keys and values look like, within what `Insert` admits. -/
structure Limits where
  key : Bytes → Prop
  value : Bytes → Prop
  key_le : ∀ {bytes}, key bytes → bytes.length ≤ maxKeySize
  value_le : ∀ {bytes}, value bytes → bytes.length ≤ maxValueSize

namespace Limits

/-- The sizes that `Insert` admits. -/
def admitted : Limits where
  key bytes := bytes.length ≤ maxKeySize
  value bytes := bytes.length ≤ maxValueSize
  key_le bound := bound
  value_le bound := bound

def Fine (limits : Limits) (item : LeafItem) : Prop :=
  limits.key item.key ∧ limits.value item.value

theorem Fine.admissible {limits : Limits} {item : LeafItem}
    (fine : limits.Fine item) : item.Admissible :=
  ⟨limits.key_le fine.1, limits.value_le fine.2⟩

end Limits

structure Land where
  pages : Set PageID
  level : PageID → Nat

def Land.Reaches (land : Land) (id : PageID) : Prop :=
  id = invalidPageID ∨ id ∈ land.pages

def Land.Links (land : Land) (id : PageID) : Prop :=
  id = invalidPageID ∨ id ∈ land.pages ∧ land.level id = 0

def Land.Covers (land other : Land) : Prop :=
  ∀ id, id ∈ other.pages →
    id ∈ land.pages ∧ land.level id = other.level id

def HoldsItems (page : Page) (items : List LeafItem) : Prop :=
  (items = [] ∧ page.header.slotCount = 0) ∨ LeafPage page items

/-- A node whose pointers stay within the land. -/
inductive NodeOn (limits : Limits) (land : Land) : Nat → Page → Prop
  | leaf {page : Page} {items : List LeafItem} :
      page.header.type = .pageBTreeLeaf →
      HoldsItems page items →
      (∀ item, item ∈ items → limits.Fine item) →
      land.Links (prevLeaf page) → land.Links (nextLeaf page) →
      NodeOn limits land 0 page
  | internal {level : Nat} {page : Page} {items : List InternalItem}
      {rightmost : PageID} :
      InternalPage page items rightmost →
      (∀ item, item ∈ items →
        limits.key item.key ∧ item.child ∈ land.pages ∧
          land.level item.child = level) →
      rightmost ∈ land.pages ∧ land.level rightmost = level →
      NodeOn limits land (level + 1) page

theorem HoldsItems.leafItems_eq {page : Page} {items : List LeafItem}
    (holds : HoldsItems page items) : leafItems page = items := by
  rcases holds with ⟨rfl, none⟩ | leaf
  · rw [leafItems, none]
    rfl
  · exact leaf.leafItems_eq

theorem Land.Covers.reaches {land other : Land} (covers : land.Covers other)
    {id : PageID} (reaches : other.Reaches id) : land.Reaches id :=
  reaches.imp_right fun member => (covers id member).1

theorem Land.Covers.links {land other : Land} (covers : land.Covers other)
    {id : PageID} (links : other.Links id) : land.Links id :=
  links.imp_right fun inside =>
    ⟨(covers id inside.1).1, (covers id inside.1).2.trans inside.2⟩

theorem NodeOn.mono {limits : Limits} {land other : Land} {level : Nat}
    {page : Page} (node : NodeOn limits land level page)
    (covers : other.Covers land) : NodeOn limits other level page := by
  cases node with
  | leaf type_eq holds fine prev next =>
      exact .leaf type_eq holds fine (covers.links prev) (covers.links next)
  | internal node fine last =>
      refine .internal node ?_ ?_
      · intro item member
        obtain ⟨key, child, level⟩ := fine item member
        obtain ⟨there, same⟩ := covers _ child
        exact ⟨key, there, same.trans level⟩
      · obtain ⟨there, same⟩ := covers _ last.1
        exact ⟨there, same.trans last.2⟩

section Regions

variable {σ : Type} [Pager σ] [LawfulPager σ] {limits : Limits}
  {land more : Land} {state after : σ}

structure Region (limits : Limits) (land : Land) (state : σ) : Prop where
  good : Good state
  allocated : ∀ {id}, id ∈ land.pages → Allocated state id
  node : ∀ {id}, id ∈ land.pages →
    NodeOn limits land (land.level id) (Pager.page state id)

/-- The pager has rewritten pages of the region only, and the region has grown by
new pages only. -/
structure Spreads (limits : Limits) (land : Land) (state : σ) (more : Land)
    (after : σ) (cost : Nat) : Prop where
  region : Region limits more after
  evolves : Evolves state after land.pages cost
  covers : more.Covers land
  fresh : ∀ {id}, id ∈ more.pages →
    id ∈ land.pages ∨ ¬ Allocated state id

namespace Spreads

theorem refl (region : Region limits land state) :
    Spreads limits land state land state 0 :=
  ⟨region, Evolves.refl region.good, fun _ member => ⟨member, rfl⟩,
    fun member => .inl member⟩

theorem trans {final : Land} {last : σ} {cost further : Nat}
    (first : Spreads limits land state more after cost)
    (second : Spreads limits more after final last further) :
    Spreads limits land state final last (cost + further) := by
  refine ⟨second.region, ⟨second.region.good, ?_, ?_, ?_⟩, ?_, ?_⟩
  · exact fun held => second.evolves.keeps (first.evolves.keeps held)
  · intro id held outside
    have outsideMore : id ∉ more.pages := fun member =>
      (first.fresh member).elim outside fun new => new held
    rw [second.evolves.frame (first.evolves.keeps held) outsideMore,
      first.evolves.frame held outside]
  · have firstBound := first.evolves.room_le
    have secondBound := second.evolves.room_le
    omega
  · intro id member
    obtain ⟨inMore, sameLevel⟩ := first.covers id member
    obtain ⟨inFinal, level⟩ := second.covers id inMore
    exact ⟨inFinal, level.trans sameLevel⟩
  · intro id member
    rcases second.fresh member with inMore | new
    · exact first.fresh inMore
    · exact .inr fun held => new (first.evolves.keeps held)

theorem afford {cost enough : Nat}
    (spreads : Spreads limits land state more after cost)
    (bound : cost ≤ enough) :
    Spreads limits land state more after enough :=
  ⟨spreads.region, spreads.evolves.afford bound, spreads.covers,
    spreads.fresh⟩

end Spreads

namespace Region

variable {id : PageID}

theorem exists_chain (region : Region limits land state) :
    ∀ (level : Nat) (id : PageID), id ∈ land.pages → land.level id = level →
      ∃ chain : List PageID, chain.length = level + 1 ∧ chain.Nodup ∧
        ∀ member, member ∈ chain →
          member ∈ land.pages ∧ land.level member ≤ level
  | 0, id, inside, level => by
      refine ⟨[id], rfl, List.nodup_singleton id, ?_⟩
      intro member inChain
      rw [List.mem_singleton] at inChain
      subst inChain
      exact ⟨inside, level.le⟩
  | level + 1, id, inside, same => by
      have node := region.node inside
      rw [same] at node
      cases node with
      | internal node fine last =>
          obtain ⟨chain, length, nodup, members⟩ :=
            region.exists_chain level _ last.1 last.2
          refine ⟨id :: chain, by rw [List.length_cons, length],
            List.nodup_cons.mpr ⟨fun inChain => ?_, nodup⟩, ?_⟩
          · have bound := (members id inChain).2
            omega
          · intro member inChain
            rcases List.mem_cons.mp inChain with rfl | later
            · exact ⟨inside, same.le⟩
            · exact ⟨(members member later).1,
                (members member later).2.trans (Nat.le_succ level)⟩

theorem level_lt (region : Region limits land state)
    (inside : id ∈ land.pages) :
    land.level id < Pager.pageCount state := by
  obtain ⟨chain, length, nodup, members⟩ :=
    region.exists_chain _ id inside rfl
  have distinct : (chain.map UInt64.toNat).Nodup :=
    nodup.map fun _ _ same => UInt64.toNat_inj.mp same
  have bound : (chain.map UInt64.toNat).toFinset ⊆
      Finset.range (Pager.pageCount state) := by
    intro number member
    rw [List.mem_toFinset, List.mem_map] at member
    obtain ⟨page, inChain, rfl⟩ := member
    exact Finset.mem_range.mpr (allocated_lt region.good
      (region.allocated (members page inChain).1))
  have counted := Finset.card_le_card bound
  rw [List.toFinset_card_of_nodup distinct, List.length_map, length,
    Finset.card_range] at counted
  exact counted

theorem frame (region : Region limits land state) {touched : Set PageID}
    {cost : Nat} (evolves : Evolves state after touched cost)
    (apart : ∀ id, id ∈ land.pages → id ∉ touched) :
    Region limits land after := by
  refine ⟨evolves.good, fun inside => evolves.keeps (region.allocated inside),
    ?_⟩
  intro id inside
  rw [evolves.frame (region.allocated inside) (apart id inside)]
  exact region.node inside

theorem spread (region : Region limits land state) {cost : Nat}
    (evolves : Evolves state after land.pages cost)
    (covers : more.Covers land)
    (fresh : ∀ {id}, id ∈ more.pages → id ∈ land.pages ∨
      ¬ Allocated state id ∧ Allocated after id)
    (nodes : ∀ {id}, id ∈ more.pages →
      (id ∈ land.pages ∧ Pager.page after id = Pager.page state id) ∨
      NodeOn limits more (more.level id) (Pager.page after id)) :
    Spreads limits land state more after cost := by
  refine ⟨⟨evolves.good, ?_, ?_⟩, evolves, covers, ?_⟩
  · intro id inside
    rcases fresh inside with old | new
    · exact evolves.keeps (region.allocated old)
    · exact new.2
  · intro id inside
    rcases nodes inside with ⟨old, same⟩ | node
    · rw [same, (covers id old).2]
      exact (region.node old).mono covers
    · exact node
  · exact fun inside => (fresh inside).imp_right fun new => new.1

theorem quiet (region : Region limits land state) {cost : Nat}
    (evolves : Evolves state after ∅ cost) :
    Spreads limits land state land after cost :=
  ⟨region.frame evolves fun _ _ => Set.notMem_empty _,
    evolves.mono (Set.empty_subset _), fun _ member => ⟨member, rfl⟩,
    fun member => .inl member⟩

theorem spread_get (region : Region limits land state)
    (inside : id ∈ land.pages) :
    (Pager.get id state).1 = .ok () ∧
      Evolves state (Pager.get id state).2 ∅ 0 :=
  ⟨(get_ok region.good (region.allocated inside)).1,
    evolves_get region.good (region.allocated inside)⟩

theorem spread_store (region : Region limits land state)
    (inside : id ∈ land.pages) {cost : Nat}
    (evolves : Evolves state after {id} cost)
    (node : NodeOn limits land (land.level id) (Pager.page after id)) :
    Spreads limits land state land after cost := by
  refine region.spread (evolves.mono (Set.singleton_subset_iff.mpr inside))
    (fun _ member => ⟨member, rfl⟩) (fun member => .inl member) ?_
  intro other member
  by_cases here : other = id
  · subst here
    exact .inr node
  · exact .inl ⟨member, evolves.frame (region.allocated member) here⟩

end Region

def Land.adopt (land : Land) (id : PageID) (level : Nat) : Land where
  pages := {other | other = id ∨ other ∈ land.pages}
  level := Function.update land.level id level

theorem Land.adopt_covers {id : PageID} {level : Nat}
    (new : id ∉ land.pages) : (land.adopt id level).Covers land := by
  intro other member
  have different : other ≠ id := fun same => new (same ▸ member)
  exact ⟨.inr member, Function.update_of_ne different _ _⟩

theorem Land.adopt_level (land : Land) (id : PageID) (level : Nat) :
    (land.adopt id level).level id = level :=
  Function.update_self _ _ _

namespace Region

variable {id : PageID}

theorem not_mem (region : Region limits land state)
    (new : ¬ Allocated state id) : id ∉ land.pages :=
  fun inside => new (region.allocated inside)

end Region

theorem Spreads.adopt {id : PageID} {page : Page} {cost level : Nat}
    (spreads : Spreads limits land state more after cost)
    (new : ¬ Allocated state id) (outside : id ∉ more.pages)
    (held : Allocated after id) (same : page.header.id = id)
    (node : NodeOn limits (more.adopt id level) level page) :
    Spreads limits land state (more.adopt id level)
      (Pager.setPage id page after) cost := by
  have good := spreads.region.good
  have covers := @Land.adopt_covers more id level outside
  have stored := evolves_setPage good held same
  refine ⟨⟨stored.good, ?_, ?_⟩, ⟨stored.good, ?_, ?_, ?_⟩, ?_, ?_⟩
  · intro other member
    rcases member with rfl | old
    · exact stored.keeps held
    · exact stored.keeps (spreads.region.allocated old)
  · intro other member
    rcases member with rfl | old
    · rw [more.adopt_level, setPage_same good held same]
      exact node
    · have different : other ≠ id := fun equal => outside (equal ▸ old)
      rw [(covers other old).2,
        stored.frame (spreads.region.allocated old) different]
      exact (spreads.region.node old).mono covers
  · exact fun old => stored.keeps (spreads.evolves.keeps old)
  · intro other old apart
    have different : other ≠ id := fun equal => new (equal ▸ old)
    rw [stored.frame (spreads.evolves.keeps old) different,
      spreads.evolves.frame old apart]
  · have first := spreads.evolves.room_le
    have second := stored.room_le
    omega
  · intro other member
    obtain ⟨inMore, sameLevel⟩ := spreads.covers other member
    obtain ⟨there, level⟩ := covers other inMore
    exact ⟨there, level.trans sameLevel⟩
  · intro other member
    rcases member with rfl | old
    · exact .inr new
    · exact spreads.fresh old

end Regions

end CocoDB.BTree
