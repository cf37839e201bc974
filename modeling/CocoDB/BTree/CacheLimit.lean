import CocoDB.BTree.Cursor
import CocoDB.Storage.MetaRun
import CocoDB.Storage.PagerLaws
import Mathlib.Data.Finset.Card
import Mathlib.Logic.Relation

/-!
# The limit of the cache

A shard only gives up a page that nobody has pinned, and nobody but `Flush`,
which pins the page itself, ever unpins one.  So no run of pager and tree
operations makes a shard give up a page: it stays within its capacity for as long
as the pages that the run has used do.
-/

namespace CocoDB

open Lib

section Calls

variable {σ : Type} [Pager σ] {before middle after : σ}

inductive Call : σ → σ → Prop
  | get (id : PageID) (state : σ) : Call state (Pager.get id state).2
  | setPage (id : PageID) (page : Page) (state : σ) :
      Call state (Pager.setPage id page state)
  | markDirty (id : PageID) (state : σ) :
      Call state (Pager.markDirty id state)
  | allocate (type : PageType) (state : σ) :
      Call state (Pager.allocate type state).2

def Calls (before after : σ) : Prop := Relation.ReflTransGen Call before after

namespace Calls

@[refl]
theorem refl (state : σ) : Calls state state := Relation.ReflTransGen.refl

theorem trans (first : Calls before middle) (second : Calls middle after) :
    Calls before after :=
  Relation.ReflTransGen.trans first second

theorem got {id : PageID} {outcome : Except Error Unit}
    (called : Pager.get id before = (outcome, after)) : Calls before after := by
  have call := Call.get id before
  rw [called] at call
  exact Relation.ReflTransGen.single call

theorem allocated {type : PageType} {outcome : Except Error PageID}
    (called : Pager.allocate type before = (outcome, after)) :
    Calls before after := by
  have call := Call.allocate type before
  rw [called] at call
  exact Relation.ReflTransGen.single call

theorem setPage (calls : Calls before after) (id : PageID) (page : Page) :
    Calls before (Pager.setPage id page after) :=
  calls.tail (Call.setPage id page after)

theorem markDirty (calls : Calls before after) (id : PageID) :
    Calls before (Pager.markDirty id after) :=
  calls.tail (Call.markDirty id after)

theorem kept {relation : σ → σ → Prop} (same : ∀ state, relation state state)
    (compose : ∀ {first second third}, relation first second →
      relation second third → relation first third)
    (call : ∀ {state next}, Call state next → relation state next)
    (calls : Calls before after) : relation before after := by
  induction calls with
  | refl => exact same _
  | tail _ last inductionHypothesis =>
      exact compose inductionHypothesis (call last)

end Calls

end Calls

namespace BTree

section Operations

variable {σ : Type} [Pager σ]

theorem calls_walkDown (route : Page → PageID) :
    ∀ (fuel : Nat) (id : PageID) (state : σ),
      Calls state (walkDown route fuel id state).2
  | 0, _, state => .refl state
  | fuel + 1, id, state => by
      rw [walkDown]
      split
      · next called => exact .got called
      · next called =>
          split
          · exact .got called
          · exact (Calls.got called).trans (calls_walkDown route fuel _ _)

theorem calls_descend (route : Page → PageID) :
    ∀ (fuel : Nat) (id : PageID) (parents : List PageID) (state : σ),
      Calls state (descend route fuel id parents state).2
  | 0, _, _, state => .refl state
  | fuel + 1, id, parents, state => by
      rw [descend]
      split
      · next called => exact .got called
      · next called =>
          split
          · exact .got called
          · exact (Calls.got called).trans (calls_descend route fuel _ _ _)

theorem calls_growRoot (cLeft : PageID) (kSep : Bytes) (cRight : PageID)
    (tree : Tree σ) :
    Calls tree.pager (growRoot cLeft kSep cRight tree).2.pager := by
  rw [growRoot]
  split
  · next called => exact .allocated called
  · next called =>
      split
      · exact (Calls.allocated called).setPage _ _
      · exact ((Calls.allocated called).setPage _ _).markDirty _

theorem calls_splitInternal (items : List InternalItem)
    (rightmost parentID : PageID) (state : σ) :
    Calls state (splitInternal items rightmost parentID state).2 := by
  rw [splitInternal]
  split
  · next called => exact .allocated called
  · next called =>
      simp only
      split
      · exact (Calls.allocated called).setPage _ _
      · split
        · exact ((Calls.allocated called).setPage _ _).setPage _ _
        · exact ((((Calls.allocated called).setPage _ _).setPage _
            _).markDirty _).markDirty _

theorem calls_propagate :
    ∀ (parents : List PageID) (cLeft : PageID) (kSep : Bytes)
      (cRight : PageID) (tree : Tree σ),
      Calls tree.pager (propagate cLeft kSep cRight parents tree).2.pager
  | [], cLeft, kSep, cRight, tree => calls_growRoot cLeft kSep cRight tree
  | parentID :: rest, cLeft, kSep, cRight, tree => by
      rw [propagate]
      split
      · exact .refl _
      · next newItems newRightmost _ =>
          split
          · exact ((Calls.refl _).setPage _ _).markDirty _
          · next page _ =>
              have stored := (Calls.refl tree.pager).setPage parentID page
              have dealt := stored.trans (calls_splitInternal newItems
                newRightmost parentID (Pager.setPage parentID page tree.pager))
              split
              · next called =>
                  rw [called] at dealt
                  exact dealt
              · next called =>
                  rw [called] at dealt
                  exact dealt.trans
                    (calls_propagate rest _ _ _ ⟨tree.root, _⟩)

theorem calls_relinkNext (oldNextID rightID : PageID) (state : σ) :
    Calls state (relinkNext oldNextID rightID state) := by
  rw [relinkNext]
  split
  · exact .refl _
  · split
    · next called => exact .got called
    · next called => exact ((Calls.got called).setPage _ _).markDirty _

theorem calls_linkRight (leafID rightID : PageID) (state : σ) :
    Calls state (linkRight leafID rightID state) :=
  (((Calls.refl state).setPage _ _).setPage _ _).trans
    (calls_relinkNext _ _ _)

theorem calls_splitLeaf (items : List LeafItem) (leafID : PageID)
    (state : σ) : Calls state (splitLeaf items leafID state).2 := by
  rw [splitLeaf]
  split
  · next called => exact .allocated called
  · next rightID after called =>
      have linked := (Calls.allocated called).trans
        (calls_linkRight leafID rightID after)
      simp only
      split
      · exact linked.setPage _ _
      · split
        · exact (linked.setPage _ _).setPage _ _
        · exact (((linked.setPage _ _).setPage _ _).markDirty _).markDirty _

theorem calls_insertLeaf (key value : Bytes) (leafID : PageID)
    (parents : List PageID) (tree : Tree σ) :
    Calls tree.pager
      (insertLeaf key value leafID parents tree).2.pager := by
  rw [insertLeaf]
  split
  · exact ((Calls.refl _).setPage _ _).markDirty _
  · next page _ =>
      have dealt := ((Calls.refl tree.pager).setPage leafID page).trans
        (calls_splitLeaf (putItem (leafItems (Pager.page tree.pager leafID))
          (binarySearch (Pager.page tree.pager leafID) key) key value) leafID
          (Pager.setPage leafID page tree.pager))
      split
      · next called =>
          rw [called] at dealt
          exact dealt
      · next called =>
          rw [called] at dealt
          exact dealt.trans (calls_propagate _ _ _ _ ⟨tree.root, _⟩)

theorem calls_insertFirst (key value : Bytes) (tree : Tree σ) :
    Calls tree.pager (insertFirst key value tree).2.pager := by
  rw [insertFirst]
  split
  · next called => exact .allocated called
  · next called =>
      simp only
      split
      · exact (Calls.allocated called).setPage _ _
      · exact ((Calls.allocated called).setPage _ _).markDirty _

theorem calls_insert (key value : Bytes) (tree : Tree σ) :
    Calls tree.pager (insert key value tree).2.pager := by
  rw [insert]
  split
  · exact .refl _
  · split
    · exact .refl _
    · split
      · exact calls_insertFirst key value tree
      · have walked := calls_descend (routeChild · key)
          (Pager.pageCount tree.pager) tree.root [] tree.pager
        split
        · next called =>
            rw [called] at walked
            exact walked
        · next called =>
            rw [called] at walked
            exact walked.trans
              (calls_insertLeaf key value _ _ ⟨tree.root, _⟩)

theorem calls_findLeaf (key : Bytes) (tree : Tree σ) :
    Calls tree.pager (findLeaf key tree).2 :=
  calls_walkDown _ _ _ _

theorem calls_search (key : Bytes) (tree : Tree σ) :
    Calls tree.pager (search key tree).2.pager := by
  rw [search]
  have walked := calls_findLeaf key tree
  split
  · exact .refl _
  · split
    · next called =>
        rw [called] at walked
        exact walked
    · next called =>
        rw [called] at walked
        simp only
        split <;> exact walked

theorem calls_delete (key : Bytes) (tree : Tree σ) :
    Calls tree.pager (delete key tree).2.pager := by
  rw [delete]
  have walked := calls_findLeaf key tree
  split
  · exact .refl _
  · split
    · next called =>
        rw [called] at walked
        exact walked
    · next called =>
        rw [called] at walked
        simp only
        split
        · exact walked
        · split
          · exact walked.setPage _ _
          · exact (walked.setPage _ _).markDirty _

/-! ## Cursors -/

theorem Cursor.pager_enter (leafID : PageID) (state : σ) (index : Nat → Int)
    (cursor : Cursor σ) :
    (cursor.enter leafID state index).2.tree.pager = state := by
  rw [enter]
  simp only
  split <;> rfl

theorem Cursor.calls_follow {leafID : PageID} {index : Nat → Int}
    {cursor : Cursor σ} {state : σ} (here : cursor.tree.pager = state) :
    Calls state (cursor.follow leafID index).2.tree.pager := by
  rw [follow, ← here]
  split
  · exact .refl _
  · split
    · next called => exact .got called
    · next called =>
        rw [pager_enter]
        exact .got called

inductive CursorMove where
  | first
  | last
  | seek (key : Bytes)
  | next
  | prev

def CursorMove.apply (cursor : Cursor σ) : CursorMove → Cursor σ
  | .first => cursor.first.2
  | .last => cursor.last.2
  | .seek key => (cursor.seek key).2
  | .next => cursor.next.2
  | .prev => cursor.prev.2

theorem Cursor.calls_first (cursor : Cursor σ) :
    Calls cursor.tree.pager cursor.first.2.tree.pager := by
  rw [first]
  have walked : Calls cursor.tree.pager
      (findLeftmostLeaf cursor.release.tree).2 := by
    rw [findLeftmostLeaf]
    split
    · exact .refl _
    · exact calls_walkDown _ _ _ _
  split
  · exact .refl _
  · split
    · next called =>
        rw [called] at walked
        exact walked
    · next called =>
        rw [called] at walked
        rw [pager_enter]
        exact walked

theorem Cursor.calls_last (cursor : Cursor σ) :
    Calls cursor.tree.pager cursor.last.2.tree.pager := by
  rw [last]
  have walked : Calls cursor.tree.pager
      (findRightmostLeaf cursor.release.tree).2 := by
    rw [findRightmostLeaf]
    split
    · exact .refl _
    · exact calls_walkDown _ _ _ _
  split
  · exact .refl _
  · split
    · next called =>
        rw [called] at walked
        exact walked
    · next called =>
        rw [called] at walked
        rw [pager_enter]
        exact walked

theorem Cursor.calls_seek (key : Bytes) (cursor : Cursor σ) :
    Calls cursor.tree.pager (cursor.seek key).2.tree.pager := by
  rw [seek]
  simp only
  have walked := calls_findLeaf key cursor.release.tree
  split
  · exact .refl _
  · split
    · next called =>
        rw [called] at walked
        exact walked
    · next called =>
        rw [called] at walked
        split
        · exact walked
        · exact walked.trans (Cursor.calls_follow rfl)

theorem Cursor.calls_next (cursor : Cursor σ) :
    Calls cursor.tree.pager cursor.next.2.tree.pager := by
  unfold Cursor.next
  split
  · exact .refl _
  · simp only
    split
    · exact .refl _
    · exact Cursor.calls_follow rfl

theorem Cursor.calls_prev (cursor : Cursor σ) :
    Calls cursor.tree.pager cursor.prev.2.tree.pager := by
  unfold Cursor.prev
  split
  · exact .refl _
  · simp only
    split
    · exact .refl _
    · exact Cursor.calls_follow rfl

theorem CursorMove.calls_apply (cursor : Cursor σ) (move : CursorMove) :
    Calls cursor.tree.pager (CursorMove.apply cursor move).tree.pager := by
  cases move with
  | first => exact cursor.calls_first
  | last => exact cursor.calls_last
  | seek key => exact cursor.calls_seek key
  | next => exact cursor.calls_next
  | prev => exact cursor.calls_prev

theorem calls_moves (moves : List CursorMove) (cursor : Cursor σ) :
    Calls cursor.tree.pager
      (moves.foldl CursorMove.apply cursor).tree.pager := by
  induction moves generalizing cursor with
  | nil => exact .refl _
  | cons move rest inductionHypothesis =>
      exact (move.calls_apply cursor).trans (inductionHypothesis _)

end Operations

end BTree

namespace CacheShard

variable {shard : CacheShard} {id other : PageID} {entry : CacheEntry}

def ids (shard : CacheShard) : List PageID :=
  shard.entries.map CacheEntry.id

theorem mem_ids : id ∈ shard.ids ↔ (shard.find id).isSome := by
  rw [ids, List.mem_map, find, List.find?_isSome]
  simp only [decide_eq_true_eq]

theorem ids_moveToHead (shard : CacheShard) (entry : CacheEntry) :
    (shard.moveToHead entry).ids =
      entry.id :: shard.ids.filter fun id => id ≠ entry.id := by
  rw [ids, moveToHead, List.map_cons, ids, List.filter_map]
  rfl

theorem ids_modify (shard : CacheShard) (change : CacheEntry → CacheEntry)
    (keeps : ∀ entry, (change entry).id = entry.id) :
    (shard.modify id change).ids = shard.ids := by
  rw [ids, modify, List.map_map, ids]
  apply List.map_congr_left
  intro entry _
  simp only [Function.comp_apply]
  split
  · exact keeps entry
  · rfl

/-- No page is there twice, and every page is pinned. -/
structure Crowded (shard : CacheShard) : Prop where
  pinned : shard.Pinned
  distinct : shard.ids.Nodup

theorem Crowded.moveToHead (crowded : shard.Crowded)
    (positive : 0 < entry.pins) : (shard.moveToHead entry).Crowded := by
  refine ⟨crowded.pinned.moveToHead positive, ?_⟩
  rw [ids_moveToHead, List.nodup_cons]
  refine ⟨?_, crowded.distinct.filter _⟩
  intro member
  simp at member

theorem Crowded.get (crowded : shard.Crowded) (id : PageID) :
    (shard.get id).2.Crowded := by
  rw [CacheShard.get]
  split
  · exact crowded
  · exact crowded.moveToHead (Nat.succ_pos _)

theorem Crowded.modify (crowded : shard.Crowded)
    {change : CacheEntry → CacheEntry}
    (keeps : ∀ entry, (change entry).id = entry.id)
    (positive : ∀ entry, entry ∈ shard.entries → entry.id = id →
      0 < (change entry).pins) : (shard.modify id change).Crowded := by
  refine ⟨crowded.pinned.modify positive, ?_⟩
  rw [ids_modify shard change keeps]
  exact crowded.distinct

theorem Crowded.put (crowded : shard.Crowded) (id : PageID) (page : Nat)
    (dirty : Bool) (lsn : LSN) : (shard.put id page dirty lsn).Crowded := by
  refine ⟨(crowded.pinned.put_spec id page dirty lsn).1, ?_⟩
  rw [CacheShard.put]
  cases found : shard.find id with
  | some entry => exact (crowded.moveToHead (Nat.succ_pos _)).distinct
  | none =>
      have grown : CacheShard.Pinned
          { shard with
            entries := { id := id, page := page, pins := 1, dirty := dirty,
                         pageLSN := lsn } :: shard.entries } := by
        intro entry member
        rcases List.mem_cons.mp member with rfl | old
        · exact Nat.one_pos
        · exact crowded.pinned entry old
      have missing : id ∉ shard.ids := by
        rw [mem_ids, found]
        exact Bool.false_ne_true
      simp only [grown.evictOne, ite_self]
      exact List.nodup_cons.mpr ⟨missing, crowded.distinct⟩

theorem Crowded.mem_put (crowded : shard.Crowded) (page : Nat) (dirty : Bool)
    (lsn : LSN) : other ∈ (shard.put id page dirty lsn).ids ↔
      other = id ∨ other ∈ shard.ids := by
  obtain ⟨_, ⟨entry, found, _⟩, others⟩ :=
    crowded.pinned.put_spec id page dirty lsn
  by_cases same : other = id
  · simp [mem_ids, same, found]
  · simp [mem_ids, same, others other same]

theorem mem_get : other ∈ (shard.get id).2.ids ↔ other ∈ shard.ids := by
  rw [mem_ids, mem_ids, find_get]
  by_cases same : other = id
  · simp [same]
  · simp [same]

theorem capacity_get (shard : CacheShard) (id : PageID) :
    (shard.get id).2.capacity = shard.capacity := by
  rw [CacheShard.get]
  split <;> rfl

theorem capacity_put (shard : CacheShard) (id : PageID) (page : Nat)
    (dirty : Bool) (lsn : LSN) :
    (shard.put id page dirty lsn).capacity = shard.capacity := by
  rw [CacheShard.put]
  split
  · rfl
  · simp only
    split <;> rfl

end CacheShard

namespace PageCache

variable {before middle after cache : PageCache} {id : PageID}

structure Crowded (cache : PageCache) : Prop where
  shard : ∀ index, (cache.shards index).Crowded
  home : ∀ index id, id ∈ (cache.shards index).ids → shardIndex id = index

theorem Crowded.mem_entries (crowded : cache.Crowded) :
    id ∈ cache.entries.map CacheEntry.id ↔
      id ∈ (cache.shards (shardIndex id)).ids := by
  simp only [PageCache.entries, List.mem_map, List.mem_flatMap,
    List.mem_finRange, true_and, CacheShard.ids]
  constructor
  · rintro ⟨entry, ⟨index, member⟩, rfl⟩
    rw [crowded.home index entry.id (List.mem_map_of_mem member)]
    exact ⟨entry, member, rfl⟩
  · rintro ⟨entry, member, rfl⟩
    exact ⟨entry, ⟨_, member⟩, rfl⟩

/-- A crowded cache stays so and keeps its pages. -/
structure Retains (before after : PageCache) : Prop where
  crowded : before.Crowded → after.Crowded
  keeps : before.Crowded → ∀ index id, id ∈ (before.shards index).ids →
    id ∈ (after.shards index).ids
  capacity : ∀ index,
    (after.shards index).capacity = (before.shards index).capacity

theorem Retains.refl (cache : PageCache) : Retains cache cache :=
  ⟨fun crowded => crowded, fun _ _ _ member => member, fun _ => rfl⟩

theorem Retains.trans (first : Retains before middle)
    (second : Retains middle after) : Retains before after :=
  ⟨fun crowded => second.crowded (first.crowded crowded),
    fun crowded index id member => second.keeps (first.crowded crowded) index
      id (first.keeps crowded index id member),
    fun index => (second.capacity index).trans (first.capacity index)⟩

theorem retains_setShard {shard : CacheShard}
    (crowded : (cache.shards (shardIndex id)).Crowded → shard.Crowded)
    (grows : (cache.shards (shardIndex id)).Crowded → ∀ other,
      other ∈ shard.ids ↔
        other ∈ (cache.shards (shardIndex id)).ids ∨
          other = id ∧ other ∈ shard.ids)
    (capacity : shard.capacity = (cache.shards (shardIndex id)).capacity) :
    Retains cache (cache.setShard id shard) := by
  have here : (cache.setShard id shard).shards (shardIndex id) = shard :=
    Function.update_self _ _ _
  have elsewhere : ∀ {index}, index ≠ shardIndex id →
      (cache.setShard id shard).shards index = cache.shards index :=
    fun different => Function.update_of_ne different _ _
  refine ⟨fun start => ⟨fun index => ?_, fun index other member => ?_⟩,
    fun start index other member => ?_, fun index => ?_⟩
  · by_cases same : index = shardIndex id
    · rw [same, here]
      exact crowded (start.shard _)
    · rw [elsewhere same]
      exact start.shard index
  · by_cases same : index = shardIndex id
    · rw [same, here] at member
      rw [same]
      rcases (grows (start.shard _) other).mp member with old | ⟨rfl, _⟩
      · exact start.home _ _ old
      · rfl
    · rw [elsewhere same] at member
      exact start.home _ _ member
  · by_cases same : index = shardIndex id
    · rw [same] at member ⊢
      rw [here]
      exact (grows (start.shard _) other).mpr (.inl member)
    · rwa [elsewhere same]
  · by_cases same : index = shardIndex id
    · rw [same, here, capacity]
    · rw [elsewhere same]

theorem retains_get (cache : PageCache) (id : PageID) :
    Retains cache (cache.get id).2 := by
  apply retains_setShard
  · exact fun crowded => crowded.get id
  · intro _ other
    rw [CacheShard.mem_get]
    tauto
  · exact CacheShard.capacity_get _ _

theorem retains_put (cache : PageCache) (id : PageID) (page : Nat)
    (dirty : Bool) (lsn : LSN) :
    Retains cache (cache.put id page dirty lsn) := by
  apply retains_setShard
  · exact fun crowded => crowded.put id page dirty lsn
  · intro crowded other
    rw [crowded.mem_put]
    tauto
  · exact CacheShard.capacity_put _ _ _ _ _

theorem retains_markDirty (cache : PageCache) (id : PageID) (lsn : LSN) :
    Retains cache (cache.markDirty id lsn) := by
  apply retains_setShard
  · intro crowded
    exact crowded.modify (fun _ => rfl) fun entry member _ =>
      crowded.pinned entry member
  · intro _ other
    rw [CacheShard.markDirty, CacheShard.ids_modify]
    · tauto
    · exact fun _ => rfl
  · rfl

theorem retains_get_unpin (cache : PageCache) {id : PageID}
    (present : (cache.find id).isSome) :
    Retains cache ((cache.get id).2.unpin id) := by
  have shape : (cache.get id).2.unpin id =
      cache.setShard id (((cache.shards (shardIndex id)).get id).2.unpin
        id) := by
    rw [unpin, get, setShard, setShard, setShard]
    simp only [Function.update_self, Function.update_idem]
  rw [shape]
  apply retains_setShard
  · intro crowded
    refine ⟨crowded.pinned.get_unpin id present, ?_⟩
    rw [CacheShard.unpin, CacheShard.ids_modify]
    · exact (crowded.get id).distinct
    · exact fun _ => rfl
  · intro _ other
    rw [CacheShard.unpin, CacheShard.ids_modify, CacheShard.mem_get]
    · tauto
    · exact fun _ => rfl
  · exact CacheShard.capacity_get _ _

end PageCache

namespace DefaultPager

open PageCache

variable {pager after : DefaultPager}

theorem retains_cachePut (ref : Nat) (pager : DefaultPager) :
    Retains pager.cache (pager.cachePut ref).cache :=
  retains_put _ _ _ _ _

theorem retains_pageGet (id : PageID) (pager : DefaultPager) :
    Retains pager.cache (pager.get id).2.cache := by
  have looked := retains_get pager.cache id
  rw [DefaultPager.get]
  split
  · next found =>
      rw [found] at looked
      exact looked
  · split
    · exact .refl _
    · simp only
      split
      · exact retains_cachePut _ (pager.newObject _).2
      · exact .refl _

theorem retains_pageMarkDirty (ref : Nat) (pager : DefaultPager) :
    Retains pager.cache (pager.markDirty ref).cache := by
  rw [DefaultPager.markDirty]
  simp only
  split
  · exact .refl _
  · exact retains_markDirty _ _ _

theorem retains_createPage (id : PageID) (type : PageType)
    (pager : DefaultPager) :
    Retains pager.cache (pager.createPage id type).2.cache := by
  rw [createPage]
  exact (retains_cachePut _ (pager.newObject _).2).trans
    (retains_pageMarkDirty _ _)

theorem retains_extend (type : PageType) (pager : DefaultPager) :
    Retains pager.cache (pager.extend type).2.cache := by
  rw [extend]
  exact retains_createPage _ _ { pager with
    info := { pager.info with nextPageID := pager.info.nextPageID + 1 } }

theorem retains_allocate (type : PageType) (pager : DefaultPager) :
    Retains pager.cache (pager.allocate type).2.cache := by
  have looked := retains_pageGet pager.info.freeListRoot pager
  rw [DefaultPager.allocate]
  split
  · exact retains_extend _ _
  · split
    · next found =>
        rw [found] at looked
        exact looked.trans (retains_extend _ _)
    · next listRef after found =>
        rw [found] at looked
        simp only
        split
        · have stored := looked.trans (retains_pageMarkDirty listRef
            (after.setObject listRef (freeListPop (after.heap listRef)).2))
          apply Retains.trans _ (retains_createPage _ _ _)
          split
          · exact stored
          · exact stored
        · exact looked.trans (retains_extend _ _)

theorem retains_flush (id : PageID) (pager : DefaultPager) :
    Retains pager.cache (pager.flush id).2.cache := by
  have first := pager.cache.get_fst id
  rw [DefaultPager.flush]
  split
  · exact .refl _
  · next ref cache found =>
      rw [found] at first
      have present : (pager.cache.find id).isSome := by
        cases known : pager.cache.find id with
        | none =>
            rw [known] at first
            cases first
        | some entry => rfl
      have looked := retains_get_unpin pager.cache present
      rw [found] at looked
      simp only
      split
      · split
        · split <;> exact looked
        · split <;> exact looked
      · exact looked

theorem retains_flushEach (ids : List PageID) (pager : DefaultPager) :
    Retains pager.cache (flushEach ids pager).2.cache := by
  induction ids generalizing pager with
  | nil => exact .refl _
  | cons id rest inductionHypothesis =>
      have flushed := retains_flush id pager
      rw [flushEach]
      split
      · next called =>
          rw [called] at flushed
          exact flushed
      · next called =>
          rw [called] at flushed
          exact flushed.trans (inductionHypothesis _)

theorem cache_saveMeta (pager : DefaultPager) :
    pager.saveMeta.cache = pager.cache := by
  rw [saveMeta]
  split <;> rfl

theorem retains_flushAll (order : List PageID → List PageID)
    (pager : DefaultPager) :
    Retains pager.cache (pager.flushAll order).2.cache := by
  have flushed := retains_flushEach (order pager.dirtyIDs) pager
  rw [flushAll]
  split
  · next called =>
      rw [called] at flushed
      exact flushed
  · next called =>
      rw [called] at flushed
      rw [cache_saveMeta]
      exact flushed

theorem retains_calls {before : DefaultPager} (calls : Calls before after) :
    Retains before.cache after.cache := by
  apply @Calls.kept _ _ _ _
    (fun before after : DefaultPager => Retains before.cache after.cache)
  · exact fun pager => .refl pager.cache
  · exact fun first second => first.trans second
  · intro state next call
    cases call with
    | get id =>
        have looked := retains_pageGet id state
        simp only [Pager.get]
        split
        · next called =>
            rw [called] at looked
            exact looked
        · next called =>
            rw [called] at looked
            exact looked
    | setPage id page =>
        simp only [Pager.setPage, setPageOf]
        split
        · exact .refl _
        · exact retains_cachePut _ (state.newObject page).2
    | markDirty id =>
        simp only [Pager.markDirty]
        split
        · exact retains_pageMarkDirty _ _
        · exact .refl _
    | allocate type => exact retains_allocate type state
  · exact calls

end DefaultPager

namespace BTree

open DefaultPager

/-- A call of the pager, or an operation on the tree with some root. -/
inductive CacheAction where
  | get (id : PageID)
  | allocate (type : PageType)
  | insert (root : PageID) (key value : Bytes)
  | search (root : PageID) (key : Bytes)
  | delete (root : PageID) (key : Bytes)
  | scan (root : PageID) (moves : List CursorMove)
  | flush (id : PageID)
  | flushAll (order : List PageID → List PageID)

namespace CacheAction

def perform (pager : DefaultPager) : CacheAction → DefaultPager
  | .get id => (pager.get id).2
  | .allocate type => (pager.allocate type).2
  | .insert root key value => (BTree.insert key value ⟨root, pager⟩).2.pager
  | .search root key => (BTree.search key ⟨root, pager⟩).2.pager
  | .delete root key => (BTree.delete key ⟨root, pager⟩).2.pager
  | .scan root moves =>
      (moves.foldl CursorMove.apply (Cursor.new ⟨root, pager⟩)).tree.pager
  | .flush id => (pager.flush id).2
  | .flushAll order => (pager.flushAll order).2

def performAll (actions : List CacheAction) (pager : DefaultPager) :
    DefaultPager :=
  actions.foldl perform pager

theorem retains_perform (pager : DefaultPager) (action : CacheAction) :
    pager.cache.Retains (action.perform pager).cache := by
  cases action with
  | get id => exact retains_pageGet id pager
  | allocate type => exact DefaultPager.retains_allocate type pager
  | insert root key value =>
      exact retains_calls (calls_insert key value ⟨root, pager⟩)
  | search root key => exact retains_calls (calls_search key ⟨root, pager⟩)
  | delete root key => exact retains_calls (calls_delete key ⟨root, pager⟩)
  | scan root moves =>
      exact retains_calls (calls_moves moves (Cursor.new ⟨root, pager⟩))
  | flush id => exact DefaultPager.retains_flush id pager
  | flushAll order => exact DefaultPager.retains_flushAll order pager

theorem performAll_append (front back : List CacheAction)
    (pager : DefaultPager) : performAll (front ++ back) pager =
      performAll back (performAll front pager) :=
  List.foldl_append

theorem retains_performAll (actions : List CacheAction)
    (pager : DefaultPager) :
    pager.cache.Retains (performAll actions pager).cache := by
  induction actions generalizing pager with
  | nil => exact .refl _
  | cons action rest inductionHypothesis =>
      exact (action.retains_perform pager).trans (inductionHypothesis _)

def usedPages (pager : DefaultPager) (actions : List CacheAction) :
    Finset PageID :=
  (actions.inits.flatMap fun front =>
    (performAll front pager).cache.entries.map CacheEntry.id).toFinset

end CacheAction

open CacheAction PageCache

section Limit

variable {pager : DefaultPager} {id : PageID}

theorem mem_usedPages (crowded : pager.cache.Crowded)
    (actions : List CacheAction) : id ∈ usedPages pager actions ↔
      id ∈ ((performAll actions pager).cache.shards (shardIndex id)).ids := by
  have reached : ∀ front, (performAll front pager).cache.Crowded :=
    fun front => (retains_performAll front pager).crowded crowded
  simp only [usedPages, List.mem_toFinset, List.mem_flatMap, List.mem_inits]
  constructor
  · rintro ⟨front, ⟨back, rfl⟩, member⟩
    rw [(reached front).mem_entries] at member
    rw [performAll_append]
    exact (retains_performAll back _).keeps (reached front) _ id member
  · intro member
    exact ⟨actions, List.prefix_rfl, (reached actions).mem_entries.mpr member⟩

theorem crowded_empty (shardCap : Nat) :
    (PageCache.empty shardCap).Crowded :=
  ⟨fun _ => ⟨fun _ member => (nomatch member), List.nodup_nil⟩,
    fun _ _ member => (nomatch member)⟩

theorem cache_openPager {backend : Backend} {maxCacheBytes : Nat}
    {readOnly : Bool} {randomA randomB : Bytes}
    (opening : openPager backend maxCacheBytes readOnly randomA randomB =
      .ok pager) :
    pager.cache = .empty (PageCache.shardCapacity maxCacheBytes) := by
  rw [openPager] at opening
  split at opening
  · split at opening
    · cases opening
    · cases opening
      rfl
  · split at opening
    · cases opening
    · cases opening
      rfl

theorem cached_of_allocations (type : PageType) :
    ∀ (count : Nat) (pager : DefaultPager), pager.Sound →
      pager.cache.Crowded → pager.info.nextPageID.toNat + count < 2 ^ 64 →
      (performAll (List.replicate count (.allocate type)) pager).Sound ∧
        (performAll (List.replicate count (.allocate type))
          pager).info.nextPageID.toNat =
            pager.info.nextPageID.toNat + count ∧
        ∀ id : PageID, pager.info.nextPageID.toNat ≤ id.toNat →
          id.toNat < pager.info.nextPageID.toNat + count →
          ((performAll (List.replicate count (.allocate type))
            pager).cache.find id).isSome
  | 0, pager, sound, _, _ =>
      ⟨sound, rfl, fun id low high => absurd high (not_lt.mpr low)⟩
  | count + 1, pager, sound, crowded, roomy => by
      obtain ⟨ref, after, entry, extended, afterSound, info, found, _⟩ :=
        sound.extend_spec type (by omega)
      have stepped : CacheAction.perform pager (.allocate type) = after := by
        rw [CacheAction.perform, DefaultPager.allocate, if_pos sound.noFree,
          extended]
      have next : after.info.nextPageID.toNat =
          pager.info.nextPageID.toNat + 1 := by
        rw [info]
        exact toNat_succ64 (by omega)
      have retains := retains_perform pager (.allocate type)
      rw [stepped] at retains
      have kept := retains_performAll (List.replicate count (.allocate type))
        after
      obtain ⟨finalSound, total, rest⟩ := cached_of_allocations type count
        after afterSound (retains.crowded crowded) (by omega)
      rw [List.replicate_succ, performAll, List.foldl_cons, stepped]
      refine ⟨finalSound, total.trans (by omega), fun id low high => ?_⟩
      by_cases first : id = pager.info.nextPageID
      · have held : id ∈ (after.cache.shards (shardIndex id)).ids := by
          rw [CacheShard.mem_ids, first]
          exact Option.isSome_iff_exists.mpr ⟨entry, found⟩
        exact CacheShard.mem_ids.mp
          (kept.keeps (retains.crowded crowded) _ id held)
      · have above : id.toNat ≠ pager.info.nextPageID.toNat :=
          fun same => first (UInt64.toNat_inj.mp same)
        exact rest id (by omega) (by omega)

theorem flushEach_ok {ids : List PageID} {pager : DefaultPager}
    (placed : ∀ id ∈ ids, (pageOffset id).isSome) :
    (flushEach ids pager).1 = .ok () := by
  induction ids generalizing pager with
  | nil => rfl
  | cons id rest inductionHypothesis =>
      obtain ⟨start, offset⟩ :=
        Option.isSome_iff_exists.mp (placed id List.mem_cons_self)
      have done : (pager.flush id).1 = .ok () := by
        rw [DefaultPager.flush]
        split
        · rfl
        · simp only [offset, Backend.writeAt]
          split <;> rfl
      rw [flushEach]
      rcases shape : pager.flush id with ⟨_ | _, after⟩
      · rw [shape] at done
        cases done
      · exact inductionHypothesis fun other member =>
          placed other (List.mem_cons_of_mem _ member)

theorem flushAll_ok {pager : DefaultPager}
    (placed : ∀ id ∈ pager.dirtyIDs, (pageOffset id).isSome) :
    (pager.flushAll fun ids => ids).1 = .ok () := by
  have done := @flushEach_ok _ pager placed
  rw [DefaultPager.flushAll]
  rcases shape : flushEach pager.dirtyIDs pager with ⟨_ | _, after⟩
  · rw [shape] at done
    cases done
  · rfl

end Limit

end BTree

end CocoDB
