import CocoDB.Storage.Page

/-!
# The page cache

`internal/storage/shard.go` and `cache.go`: sixteen LRU shards of entries that
point at page objects (numbers, into a heap kept by the pager).  A shard is the list of its entries, most recently used
first.  Only an entry without pins is ever evicted, and no caller unpins a page
except `Flush`, which has just pinned it; an entry stays until it is removed.

Pins are counted without the wrap-around of their 32-bit counter.
-/

namespace CocoDB

structure CacheEntry where
  id : PageID
  page : Nat
  pins : Nat
  dirty : Bool
  pageLSN : LSN
  deriving DecidableEq, Repr

structure CacheShard where
  capacity : Nat
  entries : List CacheEntry

namespace CacheShard

def find (shard : CacheShard) (id : PageID) : Option CacheEntry :=
  shard.entries.find? fun entry => entry.id = id

def moveToHead (entry : CacheEntry) (shard : CacheShard) : CacheShard :=
  { shard with
    entries := entry ::
      shard.entries.filter fun other => other.id ≠ entry.id }

def get (id : PageID) (shard : CacheShard) : Option Nat × CacheShard :=
  match shard.find id with
  | none => (none, shard)
  | some entry =>
      (some entry.page,
        shard.moveToHead { entry with pins := entry.pins + 1 })

def evictOne (shard : CacheShard) : CacheShard :=
  { shard with
    entries := (shard.entries.reverse.eraseP
      fun entry => entry.pins = 0).reverse }

def put (id : PageID) (page : Nat) (dirty : Bool) (lsn : LSN)
    (shard : CacheShard) : CacheShard :=
  match shard.find id with
  | some entry =>
      shard.moveToHead
        { entry with
          page := page, pins := entry.pins + 1, dirty := dirty,
          pageLSN := lsn }
  | none =>
      let grown : CacheShard :=
        { shard with
          entries := { id := id, page := page, pins := 1, dirty := dirty,
                       pageLSN := lsn } :: shard.entries }
      if grown.entries.length > shard.capacity then grown.evictOne
      else grown

def modify (id : PageID) (change : CacheEntry → CacheEntry)
    (shard : CacheShard) : CacheShard :=
  { shard with
    entries := shard.entries.map fun entry =>
      if entry.id = id then change entry else entry }

def unpin (id : PageID) (shard : CacheShard) : CacheShard :=
  shard.modify id fun entry => { entry with pins := entry.pins - 1 }

def markDirty (id : PageID) (lsn : LSN) (shard : CacheShard) : CacheShard :=
  shard.modify id fun entry => { entry with dirty := true, pageLSN := lsn }

def remove (id : PageID) (shard : CacheShard) : CacheShard :=
  { shard with entries := shard.entries.filter fun entry => entry.id ≠ id }

/-! ## What the shard operations do to the entry of a page -/

variable {shard : CacheShard} {id other : PageID} {entry : CacheEntry}

theorem find_id (found : shard.find id = some entry) : entry.id = id := by
  simpa using List.find?_some found

theorem find_mem (found : shard.find id = some entry) :
    entry ∈ shard.entries :=
  List.mem_of_find?_eq_some found

private theorem find?_filter_ne (entries : List CacheEntry)
    (different : other ≠ id) :
    (entries.filter fun entry => entry.id ≠ id).find?
        (fun entry => entry.id = other) =
      entries.find? fun entry => entry.id = other := by
  rw [List.find?_filter]
  congr 1
  funext entry
  by_cases same : entry.id = other
  · simp [same, different]
  · simp [same]

theorem find_moveToHead (shard : CacheShard) (entry : CacheEntry)
    (other : PageID) :
    (shard.moveToHead entry).find other =
      if other = entry.id then some entry else shard.find other := by
  unfold find moveToHead
  rw [List.find?_cons]
  by_cases same : other = entry.id
  · simp [same]
  · have different : ¬ entry.id = other := fun equal => same equal.symm
    simp only [different, decide_false, same, if_false]
    exact find?_filter_ne _ same

theorem find_get (shard : CacheShard) (id other : PageID) :
    (shard.get id).2.find other =
      if other = id then
        (shard.find id).map fun entry =>
          { entry with pins := entry.pins + 1 }
      else shard.find other := by
  unfold get
  cases found : shard.find id with
  | none =>
      by_cases same : other = id <;> simp [same, found]
  | some entry =>
      have sameID := find_id found
      simp only [find_moveToHead, sameID]
      by_cases same : other = id <;> simp [same, sameID]

theorem get_fst (shard : CacheShard) (id : PageID) :
    (shard.get id).1 = (shard.find id).map CacheEntry.page := by
  unfold get
  cases shard.find id <;> rfl

def Pinned (shard : CacheShard) : Prop :=
  ∀ entry, entry ∈ shard.entries → 0 < entry.pins

theorem Pinned.evictOne (pinned : shard.Pinned) : shard.evictOne = shard := by
  unfold CacheShard.evictOne
  rw [List.eraseP_of_forall_not, List.reverse_reverse]
  intro entry member
  have positive := pinned entry (List.mem_reverse.mp member)
  simp only [decide_eq_true_eq]
  omega

theorem Pinned.moveToHead (pinned : shard.Pinned) (positive : 0 < entry.pins) :
    (shard.moveToHead entry).Pinned := by
  intro other member
  rcases List.mem_cons.mp member with rfl | old
  · exact positive
  · exact pinned other (List.mem_of_mem_filter old)

theorem Pinned.get (pinned : shard.Pinned) (id : PageID) :
    (shard.get id).2.Pinned := by
  unfold CacheShard.get
  cases shard.find id with
  | none => exact pinned
  | some entry => exact pinned.moveToHead (Nat.succ_pos _)

theorem Pinned.put_spec (pinned : shard.Pinned) (id : PageID) (page : Nat)
    (dirty : Bool) (lsn : LSN) :
    (shard.put id page dirty lsn).Pinned ∧
      (∃ entry, (shard.put id page dirty lsn).find id = some entry ∧
        entry.page = page ∧ entry.dirty = dirty) ∧
      ∀ other, other ≠ id →
        (shard.put id page dirty lsn).find other = shard.find other := by
  unfold CacheShard.put
  cases found : shard.find id with
  | some entry =>
      have sameID := find_id found
      refine ⟨pinned.moveToHead (Nat.succ_pos _),
        ⟨{ entry with
            page := page, pins := entry.pins + 1, dirty := dirty,
            pageLSN := lsn }, ?_, rfl, rfl⟩, ?_⟩
      · rw [find_moveToHead, if_pos sameID.symm]
      · intro other different
        rw [find_moveToHead, if_neg]
        simpa [sameID] using different
  | none =>
      have grownPinned : CacheShard.Pinned
          { shard with
            entries := { id := id, page := page, pins := 1, dirty := dirty,
                         pageLSN := lsn } :: shard.entries } := by
        intro entry member
        rcases List.mem_cons.mp member with rfl | old
        · exact Nat.one_pos
        · exact pinned entry old
      simp only [grownPinned.evictOne, ite_self]
      refine ⟨grownPinned, ⟨_, List.find?_cons_of_pos (by simp), rfl, rfl⟩,
        ?_⟩
      intro other different
      exact List.find?_cons_of_neg (by simpa using different.symm)

theorem find_modify (shard : CacheShard) (change : CacheEntry → CacheEntry)
    (keeps : ∀ entry, (change entry).id = entry.id) (id other : PageID) :
    (shard.modify id change).find other =
      if other = id then (shard.find id).map change
      else shard.find other := by
  unfold find modify
  rw [List.find?_map]
  have same : ((fun entry : CacheEntry => decide (entry.id = other)) ∘
      fun entry => if entry.id = id then change entry else entry) =
      fun entry => decide (entry.id = other) := by
    funext entry
    by_cases here : entry.id = id <;> simp [here, keeps]
  rw [same]
  by_cases here : other = id
  · subst here
    simp only [if_true]
    cases found : shard.entries.find? fun entry => entry.id = other with
    | none => rfl
    | some entry =>
        have sameID : entry.id = other := by
          simpa using List.find?_some found
        simp [sameID]
  · simp only [here, if_false]
    cases found : shard.entries.find? fun entry => entry.id = other with
    | none => rfl
    | some entry =>
        have sameID : entry.id = other := by
          simpa using List.find?_some found
        simp [sameID, here]

theorem find_remove (shard : CacheShard) (id other : PageID) :
    (shard.remove id).find other =
      if other = id then none else shard.find other := by
  unfold find remove
  by_cases same : other = id
  · subst same
    simp only [if_true]
    rw [List.find?_eq_none]
    intro entry member
    simpa using (List.mem_filter.mp member).2
  · simp only [same, if_false]
    exact find?_filter_ne _ same

theorem Pinned.remove (pinned : shard.Pinned) (id : PageID) :
    (shard.remove id).Pinned :=
  fun entry member => pinned entry (List.mem_of_mem_filter member)

theorem Pinned.modify (pinned : shard.Pinned)
    {change : CacheEntry → CacheEntry} {id : PageID}
    (positive : ∀ entry, entry ∈ shard.entries → entry.id = id →
      0 < (change entry).pins) :
    (shard.modify id change).Pinned := by
  intro entry member
  obtain ⟨old, oldMember, rfl⟩ := List.mem_map.mp member
  by_cases here : old.id = id
  · simpa [here] using positive old oldMember here
  · simpa [here] using pinned old oldMember

theorem Pinned.get_unpin (pinned : shard.Pinned) (id : PageID)
    (present : (shard.find id).isSome) :
    ((shard.get id).2.unpin id).Pinned := by
  refine (pinned.get id).modify ?_
  intro entry member sameID
  obtain ⟨old, found⟩ := Option.isSome_iff_exists.mp present
  have oldPinned := pinned old (find_mem found)
  have oldID := find_id found
  unfold CacheShard.get at member
  rw [found] at member
  rcases List.mem_cons.mp member with rfl | other
  · simp only
    omega
  · have different := (List.mem_filter.mp other).2
    simp [oldID, sameID] at different

end CacheShard

/-! ## The sharded cache -/

def defaultShardCount : Nat := 16

structure PageCache where
  shards : Fin defaultShardCount → CacheShard

namespace PageCache

def shardIndex (id : PageID) : Fin defaultShardCount :=
  ⟨id.toNat % defaultShardCount, Nat.mod_lt _ (by decide)⟩

def empty (shardCap : Nat) : PageCache :=
  ⟨fun _ => { capacity := shardCap, entries := [] }⟩

/-- The size of each shard of a cache of `maxBytes` bytes, where 0 asks for the
default of 64 MiB. -/
def shardCapacity (maxBytes : Nat) : Nat :=
  let bytes := if maxBytes = 0 then 64 * 1024 * 1024 else maxBytes
  let totalPages := max (bytes / defaultPageSize) defaultShardCount
  max (totalPages / defaultShardCount) 1

def find (cache : PageCache) (id : PageID) : Option CacheEntry :=
  (cache.shards (shardIndex id)).find id

def setShard (cache : PageCache) (id : PageID) (shard : CacheShard) :
    PageCache :=
  ⟨Function.update cache.shards (shardIndex id) shard⟩

def get (id : PageID) (cache : PageCache) : Option Nat × PageCache :=
  (((cache.shards (shardIndex id)).get id).1,
    cache.setShard id ((cache.shards (shardIndex id)).get id).2)

def put (id : PageID) (page : Nat) (dirty : Bool) (lsn : LSN)
    (cache : PageCache) : PageCache :=
  cache.setShard id ((cache.shards (shardIndex id)).put id page dirty lsn)

def unpin (id : PageID) (cache : PageCache) : PageCache :=
  cache.setShard id ((cache.shards (shardIndex id)).unpin id)

def markDirty (id : PageID) (lsn : LSN) (cache : PageCache) : PageCache :=
  cache.setShard id ((cache.shards (shardIndex id)).markDirty id lsn)

def remove (id : PageID) (cache : PageCache) : PageCache :=
  cache.setShard id ((cache.shards (shardIndex id)).remove id)

def entries (cache : PageCache) : List CacheEntry :=
  (List.finRange defaultShardCount).flatMap fun index =>
    (cache.shards index).entries

variable {cache : PageCache} {id other : PageID}

/-- An operation on the shard of `id` that changes no other entry of it changes
no other entry of the cache. -/
theorem find_setShard {shard : CacheShard}
    (same : other ≠ id → shard.find other =
      (cache.shards (shardIndex id)).find other) :
    (cache.setShard id shard).find other =
      if other = id then shard.find id else cache.find other := by
  unfold find setShard
  by_cases here : other = id
  · subst here
    simp
  · simp only [here, if_false]
    by_cases index : shardIndex other = shardIndex id
    · simp [index, same here]
    · simp [Function.update_of_ne index]

def Pinned (cache : PageCache) : Prop :=
  ∀ index, (cache.shards index).Pinned

theorem Pinned.setShard (pinned : cache.Pinned) {shard : CacheShard}
    (shardPinned : shard.Pinned) : (cache.setShard id shard).Pinned := by
  intro index
  unfold PageCache.setShard
  by_cases here : index = shardIndex id
  · subst here
    simpa using shardPinned
  · simpa [Function.update_of_ne here] using pinned index

theorem find_get (cache : PageCache) (id other : PageID) :
    (cache.get id).2.find other =
      if other = id then
        (cache.find id).map fun entry =>
          { entry with pins := entry.pins + 1 }
      else cache.find other := by
  unfold get
  rw [find_setShard]
  · rw [CacheShard.find_get, if_pos rfl]
    rfl
  · intro different
    rw [CacheShard.find_get, if_neg different]

theorem get_fst (cache : PageCache) (id : PageID) :
    (cache.get id).1 = (cache.find id).map CacheEntry.page :=
  CacheShard.get_fst _ _

theorem Pinned.get (pinned : cache.Pinned) (id : PageID) :
    (cache.get id).2.Pinned :=
  pinned.setShard ((pinned _).get id)

theorem Pinned.put_spec (pinned : cache.Pinned) (id : PageID) (page : Nat)
    (dirty : Bool) (lsn : LSN) :
    (cache.put id page dirty lsn).Pinned ∧
      (∃ entry, (cache.put id page dirty lsn).find id = some entry ∧
        entry.page = page ∧ entry.dirty = dirty) ∧
      ∀ other, other ≠ id →
        (cache.put id page dirty lsn).find other = cache.find other := by
  obtain ⟨shardPinned, found, others⟩ :=
    (pinned (shardIndex id)).put_spec id page dirty lsn
  refine ⟨pinned.setShard shardPinned, ?_, ?_⟩
  · unfold PageCache.put
    rw [find_setShard fun different => others _ different, if_pos rfl]
    exact found
  · intro other different
    unfold PageCache.put
    rw [find_setShard fun different => others _ different, if_neg different]

theorem find_unpin (cache : PageCache) (id other : PageID) :
    (cache.unpin id).find other =
      if other = id then
        (cache.find id).map fun entry =>
          { entry with pins := entry.pins - 1 }
      else cache.find other := by
  unfold unpin CacheShard.unpin
  have modified := CacheShard.find_modify (cache.shards (shardIndex id))
    (fun entry => { entry with pins := entry.pins - 1 }) (fun _ => rfl) id
  rw [find_setShard]
  · rw [modified, if_pos rfl]
    rfl
  · intro different
    rw [modified, if_neg different]

theorem Pinned.get_unpin (pinned : cache.Pinned) (id : PageID)
    (present : (cache.find id).isSome) :
    ((cache.get id).2.unpin id).Pinned := by
  unfold PageCache.unpin PageCache.get PageCache.setShard
  simp only [Function.update_self, Function.update_idem]
  exact pinned.setShard ((pinned _).get_unpin id present)

theorem find_get_unpin (cache : PageCache) (id other : PageID) :
    ((cache.get id).2.unpin id).find other = cache.find other := by
  rw [find_unpin, find_get, find_get,
    if_pos rfl]
  by_cases same : other = id
  · subst same
    rw [if_pos rfl]
    cases cache.find other <;> rfl
  · rw [if_neg same, if_neg same]

theorem find_markDirty (cache : PageCache) (id : PageID) (lsn : LSN)
    (other : PageID) :
    (cache.markDirty id lsn).find other =
      if other = id then
        (cache.find id).map fun entry =>
          { entry with dirty := true, pageLSN := lsn }
      else cache.find other := by
  unfold markDirty CacheShard.markDirty
  have modified := CacheShard.find_modify (cache.shards (shardIndex id))
    (fun entry => { entry with dirty := true, pageLSN := lsn }) (fun _ => rfl) id
  rw [find_setShard]
  · rw [modified, if_pos rfl]
    rfl
  · intro different
    rw [modified, if_neg different]

theorem Pinned.markDirty (pinned : cache.Pinned) (id : PageID) (lsn : LSN) :
    (cache.markDirty id lsn).Pinned :=
  pinned.setShard ((pinned _).modify fun entry member _ =>
    pinned _ entry member)

theorem find_remove (cache : PageCache) (id other : PageID) :
    (cache.remove id).find other =
      if other = id then none else cache.find other := by
  unfold remove
  rw [find_setShard]
  · rw [CacheShard.find_remove, if_pos rfl]
  · intro different
    rw [CacheShard.find_remove, if_neg different]

theorem Pinned.remove (pinned : cache.Pinned) (id : PageID) :
    (cache.remove id).Pinned :=
  pinned.setShard ((pinned _).remove id)

theorem pinned_empty (shardCap : Nat) : (empty shardCap).Pinned :=
  fun _ _ member => nomatch member

end PageCache

end CocoDB
