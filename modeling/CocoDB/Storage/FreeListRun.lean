import CocoDB.Storage.FreeList
import CocoDB.Storage.MetaSlots

/-!
# Page allocation is exclusive

Runs of `Allocate` and `Free`, with the pages that are in use written to in
between.  The chain of free-list pages, the identifiers recorded in it and the
pages in use are kept apart, through roots that fill, empty or are chained.
-/

namespace CocoDB.DefaultPager

open Lib

inductive Listed (view : PageID → Option Page) :
    PageID → List PageID → List PageID → Prop
  | nil : Listed view invalidPageID [] []
  | node {root : PageID} {page : Page} {nodes entries : List PageID}
      (valid : root ≠ invalidPageID) (cached : view root = some page)
      (sized : freeListCount page ≤ maxFreeListEntries)
      (rest : Listed view (freeListNext page) nodes entries) :
      Listed view root (root :: nodes) (freeListEntries page ++ entries)

/-- A pager and the pages its callers have. -/
structure Allocations where
  pager : DefaultPager
  allocated : List PageID

inductive AllocatorAction where
  | allocate (type : PageType)
  | free (id : PageID)
  | write (id : PageID) (page : Page)

/-- The identifier of the page that `Allocate` returns. -/
def allocatedID (type : PageType) (pager : DefaultPager) : PageID :=
  ((pager.allocate type).2.heap (pager.allocate type).1).header.id

inductive AllocatorStep : AllocatorAction → Allocations → Allocations → Prop
  | allocate {pager : DefaultPager} {allocated : List PageID}
      (type : PageType) :
      AllocatorStep (.allocate type) ⟨pager, allocated⟩
        ⟨(pager.allocate type).2, allocatedID type pager :: allocated⟩
  | free {pager : DefaultPager} {allocated : List PageID} {id : PageID}
      (held : id ∈ allocated) :
      AllocatorStep (.free id) ⟨pager, allocated⟩
        ⟨(pager.free id).2, allocated.erase id⟩
  | write {pager : DefaultPager} {allocated : List PageID} {id : PageID}
      {entry : CacheEntry} (page : Page) (held : id ∈ allocated)
      (found : pager.cache.find id = some entry)
      (sameID : page.header.id = id) :
      AllocatorStep (.write id page) ⟨pager, allocated⟩
        ⟨pager.setObject entry.page page, allocated⟩

def AllocatorAction.isAllocate : AllocatorAction → Bool
  | .allocate _ => true
  | _ => false

/-- The number of `Allocate` calls of a run. -/
def allocations (actions : List AllocatorAction) : Nat :=
  actions.countP AllocatorAction.isAllocate

/-- The chain ends, records no identifier twice, and has no page in common with
the pages in use. -/
def Separate (state : Allocations) : Prop :=
  ∃ nodes entries,
    Listed state.pager.view state.pager.info.freeListRoot nodes entries ∧
      (nodes ++ entries ++ state.allocated).Nodup

/-- `Allocate` returns a page that is not in use, is no free-list page and no
meta page. -/
def SuppliesFresh (type : PageType) (state : Allocations) : Prop :=
  allocatedID type state.pager ∉ state.allocated ∧
    (∀ nodes entries,
      Listed state.pager.view state.pager.info.freeListRoot nodes entries →
        allocatedID type state.pager ∉ nodes) ∧
    allocatedID type state.pager ≠ 0 ∧ allocatedID type state.pager ≠ 1

section Chain

variable {view other : PageID → Option Page} {root : PageID}
  {nodes entries : List PageID}

theorem Listed.unique (listed : Listed view root nodes entries)
    {nodes' entries' : List PageID}
    (again : Listed view root nodes' entries') :
    nodes = nodes' ∧ entries = entries' := by
  induction listed generalizing nodes' entries' with
  | nil =>
      cases again with
      | nil => exact ⟨rfl, rfl⟩
      | node valid => exact absurd rfl valid
  | node valid cached sized rest inductionHypothesis =>
      cases again with
      | nil => exact absurd rfl valid
      | node _ cached' _ rest' =>
          cases Option.some.inj (cached.symm.trans cached')
          obtain ⟨rfl, rfl⟩ := inductionHypothesis rest'
          exact ⟨rfl, rfl⟩

theorem Listed.frame (listed : Listed view root nodes entries)
    (same : ∀ node, node ∈ nodes → other node = view node) :
    Listed other root nodes entries := by
  induction listed with
  | nil => exact .nil
  | node valid cached sized rest inductionHypothesis =>
      refine .node valid ((same _ List.mem_cons_self).trans cached) sized
        (inductionHypothesis fun node member =>
          same node (List.mem_cons_of_mem _ member))

theorem Listed.update (listed : Listed view root nodes entries)
    {id : PageID} (outside : id ∉ nodes) (page : Option Page) :
    Listed (Function.update view id page) root nodes entries :=
  listed.frame fun node member => by
    refine Function.update_of_ne ?_ _ _
    rintro rfl
    exact outside member

theorem Listed.uncons (listed : Listed view root nodes entries)
    (valid : root ≠ invalidPageID) :
    ∃ page rest more, view root = some page ∧
      freeListCount page ≤ maxFreeListEntries ∧
      Listed view (freeListNext page) rest more ∧
      nodes = root :: rest ∧ entries = freeListEntries page ++ more := by
  cases listed with
  | nil => exact absurd rfl valid
  | node _ cached sized rest => exact ⟨_, _, _, cached, sized, rest, rfl, rfl⟩

end Chain

/-! ## The invariant -/

/-- After so many extensions of the file: where identifiers come from. -/
structure Exclusive (taken : Nat) (state : Allocations) : Prop where
  cached : Cached state.pager
  next : state.pager.info.nextPageID = UInt64.ofNat (2 + taken)
  bounded : 2 + taken ≤ 2 ^ 64
  chain : ∃ nodes entries,
    Listed state.pager.view state.pager.info.freeListRoot nodes entries ∧
      (nodes ++ entries ++ state.allocated).Nodup ∧
      ∀ id, id ∈ nodes ++ entries ++ state.allocated →
        2 ≤ id.toNat ∧ id.toNat < 2 + taken

section Steps

variable {taken : Nat} {pager : DefaultPager} {allocated : List PageID}

theorem Exclusive.extend (exclusive : Exclusive taken ⟨pager, allocated⟩)
    (room : 2 + taken < 2 ^ 64) (type : PageType) :
    Exclusive (taken + 1)
        ⟨(pager.extend type).2, pager.info.nextPageID :: allocated⟩ ∧
      ((pager.extend type).2.heap (pager.extend type).1).header.id =
        pager.info.nextPageID ∧
      pager.info.nextPageID.toNat = 2 + taken := by
  obtain ⟨nodes, entries, listed, nodup, range⟩ := exclusive.chain
  have next : pager.info.nextPageID = UInt64.ofNat (2 + taken) :=
    exclusive.next
  have value : pager.info.nextPageID.toNat = 2 + taken := by
    rw [next]
    exact UInt64.toNat_ofNat_of_lt' room
  have new : pager.info.nextPageID ∉ nodes ++ entries ++ allocated := by
    intro member
    have bound := (range _ member).2
    omega
  have outside : pager.info.nextPageID ∉ nodes := fun member =>
    new (List.mem_append_left _ (List.mem_append_left _ member))
  obtain ⟨cached, seen, object, info, _⟩ := (exclusive.cached.withInfo
    { pager.info with nextPageID := pager.info.nextPageID + 1 }).createPage
      pager.info.nextPageID type
  refine ⟨⟨cached, ?_, by omega, nodes, entries, ?_, ?_, ?_⟩, ?_, value⟩
  · show (pager.extend type).2.info.nextPageID = _
    refine (congrArg MetaPage.nextPageID info).trans ?_
    show pager.info.nextPageID + 1 = UInt64.ofNat (2 + (taken + 1))
    rw [next, ← Nat.add_assoc]
    exact (UInt64.ofNat_add (2 + taken) 1).symm
  · show Listed (pager.extend type).2.view
      (pager.extend type).2.info.freeListRoot _ _
    rw [show (pager.extend type).2.view = _ from seen,
      show (pager.extend type).2.info = _ from info]
    exact listed.update outside _
  · exact List.nodup_middle.mpr (List.nodup_cons.mpr ⟨new, nodup⟩)
  · intro id member
    rw [List.mem_append, List.mem_cons, or_left_comm, ← List.mem_append]
      at member
    rcases member with rfl | old
    · omega
    · have bounds := range id old
      omega
  · rw [show (pager.extend type).2.heap (pager.extend type).1 = _ from object]
    rfl

private theorem perm_move {α : Type} (first second third fourth : List α)
    (moved : α) :
    (first ++ (second ++ third) ++ moved :: fourth).Perm
      (first ++ (second ++ [moved] ++ third) ++ fourth) := by
  have left : (first ++ (second ++ third) ++ moved :: fourth).Perm
      (moved :: (first ++ (second ++ third) ++ fourth)) := List.perm_middle
  have right : ((first ++ second) ++ moved :: (third ++ fourth)).Perm
      (moved :: ((first ++ second) ++ (third ++ fourth))) := List.perm_middle
  simp only [List.append_assoc, List.cons_append, List.nil_append] at left right ⊢
  exact left.trans right.symm

theorem Exclusive.rearrange (exclusive : Exclusive taken ⟨pager, allocated⟩)
    {nodes entries : List PageID}
    (listed : Listed pager.view pager.info.freeListRoot nodes entries)
    {after : DefaultPager} {held nodes' entries' : List PageID}
    (cached : Cached after)
    (next : after.info.nextPageID = pager.info.nextPageID)
    (chain : Listed after.view after.info.freeListRoot nodes' entries')
    (fewer : (nodes' ++ entries' ++ held).Subperm
      (nodes ++ entries ++ allocated)) :
    Exclusive taken ⟨after, held⟩ := by
  obtain ⟨old, oldEntries, oldListed, nodup, range⟩ := exclusive.chain
  obtain ⟨rfl, rfl⟩ := listed.unique oldListed
  refine ⟨cached, next.trans exclusive.next, exclusive.bounded, nodes',
    entries', chain, ?_, fun id member => range id (fewer.subset member)⟩
  obtain ⟨part, permuted, sub⟩ := fewer
  exact permuted.nodup_iff.mp (nodup.sublist sub)

def relink (popped : Page) (stored : DefaultPager) : DefaultPager :=
  if freeListCount popped = 0 ∧ freeListNext popped ≠ invalidPageID then
    { stored with
      info := { stored.info with freeListRoot := freeListNext popped } }
  else stored

theorem allocate_reuse (type : PageType) {after : DefaultPager}
    {listRef : Nat} {reusedID : PageID} {popped : Page}
    (valid : pager.info.freeListRoot ≠ invalidPageID)
    (got : pager.get pager.info.freeListRoot = (.ok listRef, after))
    (positive : 0 < freeListCount (after.heap listRef))
    (pop : freeListPop (after.heap listRef) = (reusedID, popped)) :
    pager.allocate type =
      (relink popped ((after.setObject listRef popped).markDirty
        listRef)).createPage reusedID type := by
  unfold allocate
  rw [if_neg valid, got]
  simp only [if_pos positive, pop]
  rfl

theorem Exclusive.reuse (exclusive : Exclusive taken ⟨pager, allocated⟩)
    (valid : pager.info.freeListRoot ≠ invalidPageID) {entry : CacheEntry}
    (found : pager.cache.find pager.info.freeListRoot = some entry)
    (positive : 0 < freeListCount (pager.heap entry.page)) :
    ∃ reusedID popped, freeListPop (pager.heap entry.page) =
        (reusedID, popped) ∧
      ∀ type, Exclusive taken
          ⟨((relink popped ((pager.setObject entry.page popped).markDirty
            entry.page)).createPage reusedID type).2,
            reusedID :: allocated⟩ ∧
        ∀ nodes entries, Listed pager.view pager.info.freeListRoot nodes
          entries → reusedID ∉ nodes := by
  obtain ⟨nodes, entries, listed, nodup, range⟩ := exclusive.chain
  obtain ⟨page, rest, more, seen, sized, tail, rfl, rfl⟩ :=
    listed.uncons valid
  simp only at listed nodup tail
  obtain rfl := Option.some.inj ((view_found found).symm.trans seen)
  obtain ⟨popped, pop, count, next, split, header, dirty⟩ :=
    freeListPop_spec positive sized
  set reusedID := freeListEntry (pager.heap entry.page)
    (freeListCount (pager.heap entry.page) - 1)
  refine ⟨reusedID, popped, pop, fun type => ?_⟩
  rw [split] at nodup
  have rootNew : pager.info.freeListRoot ∉ rest := by
    rw [List.append_assoc, List.cons_append, List.nodup_cons] at nodup
    exact fun member => nodup.1 (List.mem_append_left _ member)
  have reusedNew : reusedID ∉ pager.info.freeListRoot :: rest := by
    rw [List.append_assoc, List.nodup_append'] at nodup
    exact fun member => nodup.2.2 member (by simp)
  refine ⟨?_, ?_⟩
  · have cached : Cached pager := exclusive.cached
    obtain ⟨stored, storedSeen, storedInfo, _⟩ := cached.rewrite found
      ((congrArg PageHeader.id header).trans (cached.header_id found)) dirty
    generalize (pager.setObject entry.page popped).markDirty entry.page =
      marked at stored storedSeen storedInfo ⊢
    have moved := perm_move (pager.info.freeListRoot :: rest)
      (freeListEntries popped) more allocated reusedID
    rw [← split] at moved
    unfold relink
    split
    · obtain ⟨created, createdSeen, _, createdInfo, _⟩ :=
        (stored.withInfo { marked.info with
          freeListRoot := freeListNext popped }).createPage reusedID type
      have chain : Listed
          (Function.update marked.view reusedID
            (some (Page.newPage reusedID type))) (freeListNext popped)
          rest more := by
        rw [storedSeen, next]
        exact (tail.update rootNew _).update
          (fun member => reusedNew (List.mem_cons_of_mem _ member)) _
      have fewer : (rest ++ more ++ reusedID :: allocated).Sublist
          (pager.info.freeListRoot :: rest ++
            (freeListEntries popped ++ more) ++ reusedID :: allocated) :=
        ((List.sublist_cons_self _ _).append
          (List.sublist_append_right _ _)).append (.refl _)
      refine exclusive.rearrange listed created ?_ ?_
        (fewer.subperm.trans moved.subperm)
      · rw [createdInfo]
        show marked.info.nextPageID = pager.info.nextPageID
        rw [storedInfo]
      · rw [createdSeen, createdInfo]
        exact chain
    · obtain ⟨created, createdSeen, _, createdInfo, _⟩ :=
        stored.createPage reusedID type
      have root : marked.view pager.info.freeListRoot = some popped := by
        rw [storedSeen, Function.update_self]
      have chain : Listed marked.view pager.info.freeListRoot
          (pager.info.freeListRoot :: rest)
          (freeListEntries popped ++ more) := by
        refine .node valid root (by omega) ?_
        rw [storedSeen, next]
        exact tail.update rootNew _
      refine exclusive.rearrange listed created ?_ ?_ moved.subperm
      · rw [createdInfo]
        exact congrArg MetaPage.nextPageID storedInfo
      · rw [createdSeen, createdInfo, storedInfo]
        exact chain.update reusedNew _
  · intro nodes entries again
    obtain ⟨rfl, rfl⟩ := listed.unique again
    exact reusedNew

theorem Exclusive.looked (exclusive : Exclusive taken ⟨pager, allocated⟩)
    {after : DefaultPager} (cached : Cached after)
    (seen : after.view = pager.view) (info : after.info = pager.info) :
    Exclusive taken ⟨after, allocated⟩ := by
  obtain ⟨nodes, entries, listed, nodup, range⟩ := exclusive.chain
  refine ⟨cached, ?_, exclusive.bounded, nodes, entries, ?_, nodup, range⟩
  · show after.info.nextPageID = _
    rw [info]
    exact exclusive.next
  · show Listed after.view after.info.freeListRoot _ _
    rw [seen, info]
    exact listed

theorem Exclusive.root (exclusive : Exclusive taken ⟨pager, allocated⟩)
    (valid : pager.info.freeListRoot ≠ invalidPageID) :
    ∃ entry after, pager.get pager.info.freeListRoot =
        (.ok entry.page, after) ∧
      after.cache.find pager.info.freeListRoot = some entry ∧
      after.view = pager.view ∧ after.info = pager.info ∧
      Exclusive taken ⟨after, allocated⟩ := by
  obtain ⟨nodes, entries, listed, _⟩ := exclusive.chain
  obtain ⟨page, _, _, seen, _⟩ := listed.uncons valid
  have cached : Cached pager := exclusive.cached
  obtain ⟨entry, after, got, found, afterCached, afterSeen, _, info, _⟩ :=
    cached.get seen
  exact ⟨entry, after, got, found, afterSeen, info,
    exclusive.looked afterCached afterSeen info⟩

theorem Exclusive.allocate (exclusive : Exclusive taken ⟨pager, allocated⟩)
    (room : 2 + taken < 2 ^ 64) (type : PageType) :
    (∃ more, more ≤ taken + 1 ∧ Exclusive more
        ⟨(pager.allocate type).2, allocatedID type pager :: allocated⟩) ∧
      ∀ nodes entries, Listed pager.view pager.info.freeListRoot nodes
        entries → allocatedID type pager ∉ nodes := by
  have extended : ∀ {after : DefaultPager},
      Exclusive taken ⟨after, allocated⟩ → after.view = pager.view →
      after.info = pager.info → pager.allocate type = after.extend type →
      (∃ more, more ≤ taken + 1 ∧ Exclusive more
        ⟨(pager.allocate type).2, allocatedID type pager :: allocated⟩) ∧
      ∀ nodes entries, Listed pager.view pager.info.freeListRoot nodes
        entries → allocatedID type pager ∉ nodes := by
    intro after reached seen info same
    obtain ⟨larger, returned, value⟩ := reached.extend room type
    have id : allocatedID type pager = after.info.nextPageID := by
      rw [allocatedID, same, returned]
    rw [id, same]
    refine ⟨⟨taken + 1, Nat.le_refl _, larger⟩, ?_⟩
    intro nodes entries again member
    obtain ⟨old, oldEntries, listed, _, range⟩ := exclusive.chain
    obtain ⟨rfl, rfl⟩ := again.unique listed
    have bound := (range _ (List.mem_append_left _
      (List.mem_append_left _ member))).2
    omega
  by_cases rootless : pager.info.freeListRoot = invalidPageID
  · exact extended exclusive rfl rfl (if_pos rootless)
  · obtain ⟨entry, after, got, found, seen, info, reached⟩ :=
      exclusive.root rootless
    by_cases positive : 0 < freeListCount (after.heap entry.page)
    · rw [← info] at found rootless
      obtain ⟨reusedID, popped, pop, step⟩ :=
        reached.reuse rootless found positive
      obtain ⟨next, apart⟩ := step type
      rw [info] at rootless
      have same := allocate_reuse type rootless got positive pop
      have id : allocatedID type pager = reusedID := by
        rw [allocatedID, same]
        exact createPage_header_id _ _ _
      rw [id, same]
      refine ⟨⟨taken, by omega, next⟩, ?_⟩
      rw [← seen, ← info]
      exact apart
    · refine extended reached seen info ?_
      unfold DefaultPager.allocate
      rw [if_neg rootless, got]
      exact if_neg positive

theorem Cached.chainFreeList (cached : Cached pager) (id next : PageID) :
    Cached (pager.chainFreeList id next) ∧
      (pager.chainFreeList id next).view =
        Function.update pager.view id (some (setFreeListCount 0
          (setFreeListNext next (Page.newPage id .pageFreeList)))) ∧
      (pager.chainFreeList id next).info =
        { pager.info with freeListRoot := id } := by
  obtain ⟨_, _, _, sameID, dirty⟩ := newFreeList_spec id next
  obtain ⟨created, seen, _, info, _⟩ := (cached.withInfo
    { pager.info with freeListRoot := id }).put dirty
  rw [sameID] at seen
  exact ⟨created, seen, info⟩

theorem Exclusive.chainFreeList
    (exclusive : Exclusive taken ⟨pager, allocated⟩) {id : PageID}
    (held : id ∈ allocated) :
    Exclusive taken
      ⟨pager.chainFreeList id pager.info.freeListRoot,
        allocated.erase id⟩ := by
  obtain ⟨count, next, entries, _⟩ :=
    newFreeList_spec id pager.info.freeListRoot
  obtain ⟨nodes, recorded, listed, nodup, _⟩ := exclusive.chain
  simp only at listed nodup
  have cached : Cached pager := exclusive.cached
  obtain ⟨created, seen, info⟩ :=
    cached.chainFreeList id pager.info.freeListRoot
  have kept : (pager.chainFreeList id
      pager.info.freeListRoot).info.nextPageID =
        pager.info.nextPageID := by
    rw [info]
  by_cases lost : id = invalidPageID
  · have fewer : ([] ++ [] ++ allocated.erase id).Sublist
        (nodes ++ recorded ++ allocated) :=
      List.erase_sublist.trans (List.sublist_append_right _ _)
    refine exclusive.rearrange listed created kept ?_ fewer.subperm
    rw [info, lost]
    exact .nil
  · have outside : id ∉ nodes := by
      rw [List.append_assoc, List.nodup_append'] at nodup
      exact fun member => nodup.2.2 member (List.mem_append_right _ held)
    have moved : (id :: nodes ++ recorded ++ allocated.erase id).Perm
        (nodes ++ recorded ++ allocated) := by
      refine List.Perm.trans ?_
        ((List.perm_cons_erase held).symm.append_left _)
      exact List.perm_middle.symm
    have chain := Listed.node lost
      (Function.update_self id _ pager.view)
      (show freeListCount _ ≤ maxFreeListEntries by rw [count]; omega)
      (by rw [next]; exact listed.update outside _)
    rw [entries, List.nil_append] at chain
    refine exclusive.rearrange listed created kept ?_ moved.subperm
    rw [info, seen]
    exact chain

theorem Exclusive.free (exclusive : Exclusive taken ⟨pager, allocated⟩)
    {id : PageID} (held : id ∈ allocated) :
    (pager.free id).1 = .ok () ∧
      Exclusive taken ⟨(pager.free id).2, allocated.erase id⟩ := by
  unfold DefaultPager.free
  by_cases rootless : pager.info.freeListRoot = invalidPageID
  · rw [if_pos rootless]
    have chained := exclusive.chainFreeList held
    rw [rootless] at chained
    exact ⟨rfl, chained⟩
  · obtain ⟨entry, after, got, found, seen, info, reached⟩ :=
      exclusive.root rootless
    rw [if_neg rootless, got]
    simp only
    split
    · next room =>
        refine ⟨rfl, ?_⟩
        obtain ⟨nodes, recorded, listed, nodup, _⟩ := reached.chain
        simp only at listed nodup
        rw [← info] at found rootless
        obtain ⟨page, rest, more, rootSeen, sized, tail, rfl, rfl⟩ :=
          listed.uncons rootless
        obtain rfl := Option.some.inj
          ((view_found found).symm.trans rootSeen)
        obtain ⟨count, next, entries, header⟩ := freeListPush_spec id room
        have cached : Cached after := reached.cached
        obtain ⟨stored, storedSeen, storedInfo, _⟩ := cached.rewrite found
          ((congrArg PageHeader.id header).trans (cached.header_id found))
          (by
            unfold freeListPush
            rw [if_neg (by omega)]
            rfl)
        have rootNew : after.info.freeListRoot ∉ rest := by
          rw [List.append_assoc, List.cons_append, List.nodup_cons] at nodup
          exact fun member => nodup.1 (List.mem_append_left _ member)
        have chain := Listed.node rootless
          (Function.update_self after.info.freeListRoot _ after.view)
          (show freeListCount (freeListPush id (after.heap entry.page)) ≤
            maxFreeListEntries by omega)
          (by rw [next]; exact tail.update rootNew _)
        have moved := (perm_move (after.info.freeListRoot :: rest)
          (freeListEntries (after.heap entry.page)) more
          (allocated.erase id) id).symm.trans
            ((List.perm_cons_erase held).symm.append_left _)
        rw [← entries] at moved
        refine reached.rearrange listed stored
          (congrArg MetaPage.nextPageID storedInfo) ?_ moved.subperm
        rw [storedInfo, storedSeen]
        exact chain
    · exact ⟨rfl, reached.chainFreeList held⟩

theorem Exclusive.write (exclusive : Exclusive taken ⟨pager, allocated⟩)
    {id : PageID} {entry : CacheEntry} {page : Page} (held : id ∈ allocated)
    (found : pager.cache.find id = some entry)
    (sameID : page.header.id = id) :
    Exclusive taken ⟨pager.setObject entry.page page, allocated⟩ := by
  have cached : Cached pager := exclusive.cached
  obtain ⟨stored, seen⟩ := cached.setObject found sameID
  obtain ⟨nodes, entries, listed, nodup, _⟩ := exclusive.chain
  simp only at listed nodup
  have outside : id ∉ nodes := by
    rw [List.append_assoc, List.nodup_append'] at nodup
    exact fun member => nodup.2.2 member (List.mem_append_right _ held)
  refine exclusive.rearrange listed stored rfl ?_ (List.Subperm.refl _)
  rw [seen]
  exact listed.update outside _

end Steps

section Runs

variable {taken : Nat} {state : Allocations}

theorem Exclusive.step {action : AllocatorAction} {next : Allocations}
    (exclusive : Exclusive taken state)
    (room : 2 + (taken + allocations [action]) ≤ 2 ^ 64)
    (step : AllocatorStep action state next) :
    ∃ more, more ≤ taken + allocations [action] ∧ Exclusive more next := by
  cases step with
  | allocate type =>
      have counted : allocations [.allocate type] = 1 := rfl
      rw [counted] at room ⊢
      exact (exclusive.allocate (by omega) type).1
  | free held => exact ⟨taken, Nat.le_add_right _ _, (exclusive.free held).2⟩
  | write page held found sameID =>
      exact ⟨taken, Nat.le_add_right _ _,
        exclusive.write held found sameID⟩

theorem Exclusive.execution {actions : List AllocatorAction}
    {final : Allocations}
    (execution : Execution AllocatorStep state actions final)
    (exclusive : Exclusive taken state)
    (room : 2 + (taken + allocations actions) ≤ 2 ^ 64) :
    ∃ more, more ≤ taken + allocations actions ∧ Exclusive more final := by
  induction execution generalizing taken with
  | nil state => exact ⟨taken, Nat.le_add_right _ _, exclusive⟩
  | @cons action rest start next final first _ inductionHypothesis =>
      have total : allocations (action :: rest) =
          allocations [action] + allocations rest := by
        rw [← List.singleton_append]
        exact List.countP_append
      rw [total] at room ⊢
      obtain ⟨middle, middleLe, following⟩ :=
        exclusive.step (by omega) first
      obtain ⟨more, moreLe, reached⟩ :=
        inductionHypothesis following (by omega)
      exact ⟨more, by omega, reached⟩

theorem exclusive_new {pager : DefaultPager} (cached : Cached pager)
    (next : pager.info.nextPageID = 2)
    (rootless : pager.info.freeListRoot = invalidPageID) :
    Exclusive 0 ⟨pager, []⟩ := by
  refine ⟨cached, next, by decide, [], [], ?_, List.nodup_nil, ?_⟩
  · show Listed pager.view pager.info.freeListRoot _ _
    rw [rootless]
    exact .nil
  · intro id member
    cases member

variable {cacheBytes : Nat} {randomA randomB : Bytes} {pager : DefaultPager}

theorem created_exclusive
    (created : openPager (.ofContents .empty) cacheBytes false randomA
      randomB = .ok pager) : Exclusive 0 ⟨pager, []⟩ := by
  obtain ⟨backend, _, rfl⟩ := openPager_created created
  exact exclusive_new (cached_fresh _ _ _ _ _) rfl rfl

theorem allocatedID_extend (type : PageType)
    (rootless : pager.info.freeListRoot = invalidPageID) :
    allocatedID type pager = pager.info.nextPageID := by
  have same : pager.allocate type = pager.extend type := if_pos rootless
  rw [allocatedID, same]
  exact createPage_header_id _ _ _

theorem allocates_only
    (created : openPager (.ofContents .empty) cacheBytes false randomA
      randomB = .ok pager) (type : PageType) (count : Nat)
    (few : 2 + count ≤ 2 ^ 64) :
    ∃ final, Execution AllocatorStep ⟨pager, []⟩
        (List.replicate count (.allocate type)) final ∧
      Exclusive count final ∧
      final.pager.info.freeListRoot = invalidPageID := by
  induction count with
  | zero =>
      refine ⟨_, .nil _, created_exclusive created, ?_⟩
      obtain ⟨backend, _, rfl⟩ := openPager_created created
      rfl
  | succ count inductionHypothesis =>
      obtain ⟨last, run, exclusive, rootless⟩ :=
        inductionHypothesis (by omega)
      have same : last.pager.allocate type = last.pager.extend type :=
        if_pos rootless
      obtain ⟨larger, _, _⟩ := exclusive.extend (by omega) type
      refine ⟨⟨(last.pager.allocate type).2,
        allocatedID type last.pager :: last.allocated⟩, ?_, ?_, ?_⟩
      · rw [List.replicate_succ']
        exact run.append (.cons (.allocate type) (.nil _))
      · rw [same, allocatedID_extend type rootless]
        exact larger
      · rw [same]
        obtain ⟨_, _, _, info, _⟩ := (exclusive.cached.withInfo
          { last.pager.info with
            nextPageID := last.pager.info.nextPageID + 1 }).createPage
              last.pager.info.nextPageID type
        exact (congrArg MetaPage.freeListRoot info).trans rootless

end Runs

end CocoDB.DefaultPager
