import CocoDB.Storage.DefaultPager

/-!
# The cached pages of a pager

Entries of the cache point at page objects on the heap.  While the two agree the
pager acts as a map from identifiers to pages: every operation changes the map at
one identifier, and no page leaves it.
-/

namespace CocoDB.DefaultPager

open Lib

def view (pager : DefaultPager) (id : PageID) : Option Page :=
  (pager.cache.find id).map fun entry => pager.heap entry.page

/-- Every entry is pinned and points at a page object of its own. -/
structure Cached (pager : DefaultPager) : Prop where
  pinned : pager.cache.Pinned
  known : ∀ {id entry}, pager.cache.find id = some entry →
    entry.page < pager.nextRef
  distinct : ∀ {id other entry entry'},
    pager.cache.find id = some entry → pager.cache.find other = some entry' →
    entry.page = entry'.page → id = other
  header_id : ∀ {id entry}, pager.cache.find id = some entry →
    (pager.heap entry.page).header.id = id

variable {pager : DefaultPager} {id : PageID} {entry : CacheEntry}

theorem view_found (found : pager.cache.find id = some entry) :
    pager.view id = some (pager.heap entry.page) := by
  rw [view, found, Option.map_some]

theorem found_of_view {page : Page} (seen : pager.view id = some page) :
    ∃ entry, pager.cache.find id = some entry ∧
      pager.heap entry.page = page :=
  Option.map_eq_some_iff.mp seen

theorem Cached.heap (cached : Cached pager) {heap : Nat → Page}
    {cache : PageCache} (pinned : cache.Pinned)
    (entries : ∀ id, (cache.find id).map CacheEntry.page =
      (pager.cache.find id).map CacheEntry.page)
    (ids : ∀ {id entry}, pager.cache.find id = some entry →
      (heap entry.page).header.id = id) :
    Cached { pager with heap := heap, cache := cache } := by
  have old : ∀ {id entry}, cache.find id = some entry →
      ∃ entry', pager.cache.find id = some entry' ∧
        entry'.page = entry.page := by
    intro id entry found
    have mapped := entries id
    rw [found] at mapped
    exact Option.map_eq_some_iff.mp mapped.symm
  refine ⟨pinned, ?_, ?_, ?_⟩
  · intro id entry found
    obtain ⟨entry', found', same⟩ := old found
    exact same ▸ cached.known found'
  · intro id other entry entry' found found' same
    obtain ⟨first, firstFound, firstSame⟩ := old found
    obtain ⟨second, secondFound, secondSame⟩ := old found'
    exact cached.distinct firstFound secondFound
      (firstSame.trans (same.trans secondSame.symm))
  · intro id entry found
    obtain ⟨entry', found', same⟩ := old found
    exact same ▸ ids found'

theorem Cached.withInfo (cached : Cached pager) (info : MetaPage) :
    Cached { pager with info := info } :=
  ⟨cached.pinned, cached.known, cached.distinct, cached.header_id⟩

theorem Cached.withCache (cached : Cached pager) {cache : PageCache}
    (pinned : cache.Pinned)
    (entries : ∀ id, (cache.find id).map CacheEntry.page =
      (pager.cache.find id).map CacheEntry.page) :
    Cached { pager with cache := cache } ∧
      view { pager with cache := cache } = pager.view := by
  refine ⟨cached.heap pinned entries cached.header_id, ?_⟩
  funext id
  have mapped := congrArg (Option.map pager.heap) (entries id)
  rw [Option.map_map, Option.map_map] at mapped
  exact mapped

theorem Cached.cachePut (cached : Cached pager) (page : Page) :
    let after := (pager.newObject page).2.cachePut pager.nextRef
    Cached after ∧
      after.view = Function.update pager.view page.header.id (some page) ∧
      (∃ entry, after.cache.find page.header.id = some entry ∧
        entry.page = pager.nextRef) ∧
      ∀ other, other ≠ page.header.id →
        after.cache.find other = pager.cache.find other := by
  intro after
  have stored : (pager.newObject page).2.heap pager.nextRef = page :=
    Function.update_self _ _ _
  obtain ⟨pinned, ⟨new, newFound, newPage, _⟩, others⟩ :=
    cached.pinned.put_spec page.header.id pager.nextRef page.dirty
      page.header.lsn
  have afterCache : after.cache = pager.cache.put page.header.id
      pager.nextRef page.dirty page.header.lsn := by
    simp only [after, DefaultPager.cachePut, stored]
    rfl
  have heapNew : after.heap pager.nextRef = page := stored
  have heapOld : ∀ {id entry}, pager.cache.find id = some entry →
      after.heap entry.page = pager.heap entry.page := by
    intro id entry found
    exact Function.update_of_ne (Nat.ne_of_lt (cached.known found)) _ _
  rw [← afterCache] at newFound others pinned
  have cases : ∀ {id entry}, after.cache.find id = some entry →
      (id = page.header.id ∧ entry = new) ∨
      (id ≠ page.header.id ∧ pager.cache.find id = some entry) := by
    intro id entry found
    by_cases here : id = page.header.id
    · subst here
      rw [newFound] at found
      exact .inl ⟨rfl, (Option.some.inj found).symm⟩
    · rw [others id here] at found
      exact .inr ⟨here, found⟩
  refine ⟨⟨pinned, ?_, ?_, ?_⟩, ?_, ⟨new, newFound, newPage⟩, others⟩
  · intro id entry found
    show entry.page < pager.nextRef + 1
    rcases cases found with ⟨_, rfl⟩ | ⟨_, old⟩
    · omega
    · have bound := cached.known old
      omega
  · intro id other entry entry' found found' same
    rcases cases found with ⟨rfl, rfl⟩ | ⟨_, old⟩ <;>
      rcases cases found' with ⟨rfl, rfl⟩ | ⟨_, old'⟩
    · rfl
    · have bound := cached.known old'
      omega
    · have bound := cached.known old
      omega
    · exact cached.distinct old old' same
  · intro id entry found
    rcases cases found with ⟨rfl, rfl⟩ | ⟨_, old⟩
    · rw [newPage, heapNew]
    · rw [heapOld old]
      exact cached.header_id old
  · funext other
    by_cases here : other = page.header.id
    · rw [here, Function.update_self, view_found newFound, newPage, heapNew]
    · rw [Function.update_of_ne here, view, others other here, view]
      cases found : pager.cache.find other with
      | none => rfl
      | some entry => exact congrArg some (heapOld found)

theorem Cached.setObject (cached : Cached pager)
    (found : pager.cache.find id = some entry) {page : Page}
    (sameID : page.header.id = id) :
    Cached (pager.setObject entry.page page) ∧
      (pager.setObject entry.page page).view =
        Function.update pager.view id (some page) := by
  have apart : ∀ {other entry'}, other ≠ id →
      pager.cache.find other = some entry' → entry'.page ≠ entry.page :=
    fun different found' same =>
      different (cached.distinct found' found same)
  refine ⟨cached.heap cached.pinned (fun _ => rfl) ?_, ?_⟩
  · intro other entry' found'
    by_cases here : other = id
    · subst here
      rw [found] at found'
      rw [← Option.some.inj found', Function.update_self]
      exact sameID
    · rw [Function.update_of_ne (apart here found')]
      exact cached.header_id found'
  · funext other
    show (pager.cache.find other).map
      (fun entry' => Function.update pager.heap entry.page page entry'.page) = _
    by_cases here : other = id
    · rw [here, found, Option.map_some, Function.update_self,
        Function.update_self]
    · rw [Function.update_of_ne here, view]
      cases found' : pager.cache.find other with
      | none => rfl
      | some entry' =>
          exact congrArg some (Function.update_of_ne (apart here found') _ _)

theorem markDirty_cached (found : pager.cache.find id = some entry)
    (sameID : (pager.heap entry.page).header.id = id) :
    pager.markDirty entry.page =
      { pager.setObject entry.page
          { pager.heap entry.page with dirty := true } with
        cache := pager.cache.markDirty id
          (pager.heap entry.page).header.lsn } := by
  unfold DefaultPager.markDirty
  have foundAfter : (pager.setObject entry.page
      { pager.heap entry.page with dirty := true }).cache.find
        (pager.heap entry.page).header.id = some entry := by
    rw [sameID]
    exact found
  simp only [foundAfter]
  simp only [DefaultPager.setObject, Function.update_self,
    Function.update_idem]
  rw [← sameID]

theorem setObject_header_id {ref : Nat} {page : Page}
    (sameID : page.header.id = (pager.heap ref).header.id) (other : Nat) :
    ((pager.setObject ref page).heap other).header.id =
      (pager.heap other).header.id := by
  show (Function.update pager.heap ref page other).header.id = _
  by_cases here : other = ref
  · rw [here, Function.update_self, sameID]
  · rw [Function.update_of_ne here]

theorem markDirty_header_id (pager : DefaultPager) (ref other : Nat) :
    ((pager.markDirty ref).heap other).header.id =
      (pager.heap other).header.id := by
  have flagged := @setObject_header_id pager ref
    { pager.heap ref with dirty := true } rfl
  unfold DefaultPager.markDirty
  simp only
  split
  · exact flagged other
  · refine Eq.trans ?_ (flagged other)
    exact setObject_header_id (by rfl) other

theorem createPage_header_id (id : PageID) (type : PageType)
    (pager : DefaultPager) :
    ((pager.createPage id type).2.heap
      (pager.createPage id type).1).header.id = id := by
  refine (markDirty_header_id _ _ _).trans ?_
  show (Function.update pager.heap pager.nextRef _ pager.nextRef).header.id = _
  rw [Function.update_self]

theorem entries_markDirty (cache : PageCache) (id : PageID) (lsn : LSN)
    (other : PageID) :
    ((cache.markDirty id lsn).find other).map CacheEntry.page =
      (cache.find other).map CacheEntry.page := by
  rw [cache.find_markDirty id lsn other]
  by_cases here : other = id
  · rw [if_pos here, here, Option.map_map]
    rfl
  · rw [if_neg here]

theorem Cached.markDirty (cached : Cached pager)
    (found : pager.cache.find id = some entry) :
    Cached (pager.markDirty entry.page) ∧
      (pager.markDirty entry.page).view =
        Function.update pager.view id
          (some { pager.heap entry.page with dirty := true }) ∧
      (pager.markDirty entry.page).heap entry.page =
        { pager.heap entry.page with dirty := true } ∧
      (pager.markDirty entry.page).info = pager.info ∧
      (pager.markDirty entry.page).backend = pager.backend := by
  have sameID := cached.header_id found
  obtain ⟨stored, seen⟩ := cached.setObject found
    (show ({ pager.heap entry.page with dirty := true } : Page).header.id = id
      from sameID)
  obtain ⟨marked, same⟩ := stored.withCache
    (cached.pinned.markDirty id (pager.heap entry.page).header.lsn)
    (entries_markDirty pager.cache id _)
  rw [markDirty_cached found sameID]
  exact ⟨marked, same.trans seen, Function.update_self _ _ _, rfl, rfl⟩

theorem Cached.put (cached : Cached pager) {page : Page}
    (dirty : page.dirty = true) :
    let after := ((pager.newObject page).2.cachePut pager.nextRef).markDirty
      pager.nextRef
    Cached after ∧
      after.view = Function.update pager.view page.header.id (some page) ∧
      after.heap pager.nextRef = page ∧
      after.info = pager.info ∧ after.backend = pager.backend := by
  intro after
  obtain ⟨put, seen, ⟨entry, found, samePage⟩, _⟩ := cached.cachePut page
  obtain ⟨marked, markedSeen, object, info, backend⟩ := put.markDirty found
  have stored : ((pager.newObject page).2.cachePut pager.nextRef).heap
      entry.page = page := by
    rw [samePage]
    exact Function.update_self _ _ _
  have flagged : ({ page with dirty := true } : Page) = page := by
    rw [← dirty]
  rw [stored, flagged, samePage] at markedSeen object
  rw [samePage] at marked info backend
  refine ⟨marked, ?_, object, info, backend⟩
  rw [markedSeen, seen, Function.update_idem]

theorem Cached.createPage (cached : Cached pager) (id : PageID)
    (type : PageType) :
    Cached (pager.createPage id type).2 ∧
      (pager.createPage id type).2.view =
        Function.update pager.view id (some (Page.newPage id type)) ∧
      (pager.createPage id type).2.heap (pager.createPage id type).1 =
        Page.newPage id type ∧
      (pager.createPage id type).2.info = pager.info ∧
      (pager.createPage id type).2.backend = pager.backend :=
  cached.put rfl

theorem entries_get (cache : PageCache) (id other : PageID) :
    ((cache.get id).2.find other).map CacheEntry.page =
      (cache.find other).map CacheEntry.page := by
  rw [cache.find_get id other]
  by_cases here : other = id
  · rw [if_pos here, here, Option.map_map]
    rfl
  · rw [if_neg here]

theorem Cached.modify (cached : Cached pager)
    (found : pager.cache.find id = some entry) {page : Page}
    (sameID : page.header.id = id) :
    let after := (pager.setObject entry.page page).markDirty entry.page
    Cached after ∧
      after.view = Function.update pager.view id
        (some { page with dirty := true }) ∧
      after.info = pager.info ∧ after.backend = pager.backend := by
  intro after
  obtain ⟨stored, seen⟩ := cached.setObject found sameID
  obtain ⟨marked, markedSeen, _, info, backend⟩ := stored.markDirty found
  have object : (pager.setObject entry.page page).heap entry.page = page :=
    Function.update_self _ _ _
  rw [object, seen, Function.update_idem] at markedSeen
  exact ⟨marked, markedSeen, info, backend⟩

theorem Cached.rewrite (cached : Cached pager)
    (found : pager.cache.find id = some entry) {page : Page}
    (sameID : page.header.id = id) (dirty : page.dirty = true) :
    let after := (pager.setObject entry.page page).markDirty entry.page
    Cached after ∧ after.view = Function.update pager.view id (some page) ∧
      after.info = pager.info ∧ after.backend = pager.backend := by
  have flagged : ({ page with dirty := true } : Page) = page := by
    rw [← dirty]
  have modified := cached.modify found sameID
  rw [flagged] at modified
  exact modified

theorem Cached.get (cached : Cached pager) {page : Page}
    (seen : pager.view id = some page) :
    ∃ entry after, pager.get id = (.ok entry.page, after) ∧
      after.cache.find id = some entry ∧ Cached after ∧
      after.view = pager.view ∧ after.heap entry.page = page ∧
      after.info = pager.info ∧ after.backend = pager.backend := by
  obtain ⟨entry, found, rfl⟩ := found_of_view seen
  have first := pager.cache.get_fst id
  rw [found, Option.map_some] at first
  have shape : pager.cache.get id =
      (some entry.page, (pager.cache.get id).2) := Prod.ext first rfl
  obtain ⟨after, same⟩ := cached.withCache (cached.pinned.get id)
    (entries_get pager.cache id)
  refine ⟨{ entry with pins := entry.pins + 1 }, _, ?_, ?_, after, same, rfl,
    rfl, rfl⟩
  · unfold DefaultPager.get
    rw [shape]
  · refine (pager.cache.find_get id id).trans ?_
    rw [if_pos rfl, found, Option.map_some]

theorem get_loaded {bytes : Bytes}
    (missing : pager.cache.find id = none)
    (readable : pager.backend.readAt (pageOffset id) defaultPageSize =
      some bytes)
    (valid : Page.validateChecksum (parsePage bytes).data = true) :
    pager.get id =
      (.ok pager.nextRef,
        ((pager.newObject (parsePage bytes)).2).cachePut pager.nextRef) := by
  have first := pager.cache.get_fst id
  rw [missing, Option.map_none] at first
  have shape : pager.cache.get id = (none, (pager.cache.get id).2) :=
    Prod.ext first rfl
  unfold DefaultPager.get
  rw [shape]
  simp only [readable, valid, if_true]
  rfl

/-! ## Flushing -/

theorem flush_missing (missing : pager.cache.find id = none) :
    pager.flush id = (.ok (), pager) := by
  have first := pager.cache.get_fst id
  rw [missing, Option.map_none] at first
  have shape : pager.cache.get id = (none, (pager.cache.get id).2) :=
    Prod.ext first rfl
  unfold DefaultPager.flush
  rw [shape]

theorem flush_cached (found : pager.cache.find id = some entry) :
    ∃ flusher, pager.flush id =
      if (pager.heap entry.page).dirty then
        match pager.backend.writeAt (pager.heap entry.page).sealPage.image
            (pageOffset id) with
        | none =>
            (.error .backendWrite,
              { pager.setObject entry.page (pager.heap entry.page).sealPage
                with
                cache := (pager.cache.get id).2.unpin id
                walFlusher := flusher })
        | some backend =>
            (.ok (),
              { pager.setObject entry.page
                  { (pager.heap entry.page).sealPage with dirty := false }
                with
                cache := (pager.cache.get id).2.unpin id
                backend := backend
                walFlusher := flusher })
      else (.ok (), { pager with cache := (pager.cache.get id).2.unpin id }) := by
  have first := pager.cache.get_fst id
  rw [found, Option.map_some] at first
  have present : pager.cache.get id =
      (some entry.page, (pager.cache.get id).2) := Prod.ext first rfl
  unfold DefaultPager.flush
  rw [present]
  by_cases logged : 0 < (pager.heap entry.page).header.lsn
  · refine ⟨pager.walFlusher.map (WAL.flush (pager.heap entry.page).header.lsn),
      ?_⟩
    simp only [logged, if_true]
    rfl
  · refine ⟨pager.walFlusher, ?_⟩
    simp only [logged, if_false]
    rfl

theorem mem_dirtyIDs (found : pager.cache.find id = some entry)
    (marked : (pager.heap entry.page).dirty = true) :
    id ∈ pager.dirtyIDs := by
  have inShard := CacheShard.find_mem found
  have sameID : entry.id = id := CacheShard.find_id found
  refine List.mem_map.mpr ⟨entry, List.mem_filter.mpr ⟨?_, ?_⟩, sameID⟩
  · exact List.mem_flatMap.mpr ⟨_, List.mem_finRange _, inShard⟩
  · rw [marked, Bool.or_true]

theorem Cached.flushed (cached : Cached pager)
    (found : pager.cache.find id = some entry) {page : Page}
    (sameID : page.header.id = id) (backend : Backend)
    (flusher : Option WAL) :
    let after : DefaultPager :=
      { pager.setObject entry.page page with
        cache := (pager.cache.get id).2.unpin id
        backend := backend
        walFlusher := flusher }
    Cached after ∧
      after.view = Function.update pager.view id (some page) := by
  intro after
  obtain ⟨stored, seen⟩ := cached.setObject found sameID
  obtain ⟨unpinned, same⟩ := stored.withCache
    (cached.pinned.get_unpin id (by rw [found]; rfl))
    (fun other => by rw [PageCache.find_get_unpin]; rfl)
  exact ⟨⟨unpinned.pinned, unpinned.known, unpinned.distinct,
    unpinned.header_id⟩, same.trans seen⟩

theorem cached_fresh (backend : Backend) (info : MetaPage) (slot : Fin 2)
    (maxCacheBytes : Nat) (readOnly : Bool) :
    Cached (fresh backend info slot maxCacheBytes readOnly) :=
  ⟨PageCache.pinned_empty _, fun found => (nomatch found),
    fun found => (nomatch found), fun found => (nomatch found)⟩

end CocoDB.DefaultPager
