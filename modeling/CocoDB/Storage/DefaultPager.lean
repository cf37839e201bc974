import CocoDB.Storage.Cache
import CocoDB.Storage.Meta
import CocoDB.Wal.Log

/-!
# The default pager

`internal/storage/pager.go`, `allocator.go` and `freelist.go`.  Pages are objects
on a heap, and the cache maps page identifiers to them: a caller may hold on to an
object that the cache no longer knows.  The log that `walFlusher` flushes is
shared with its other users, so the pager holds it.

Go visits the entries of a map in any order; where the order of dirty pages
matters it is a parameter.
-/

namespace CocoDB

open Lib

structure DefaultPager where
  backend : Backend
  cache : PageCache
  heap : Nat → Page
  nextRef : Nat
  info : MetaPage
  activeMetaSlot : Fin 2
  readOnly : Bool
  walFlusher : Option WAL

namespace DefaultPager

def setObject (ref : Nat) (page : Page) (pager : DefaultPager) :
    DefaultPager :=
  { pager with heap := Function.update pager.heap ref page }

def newObject (page : Page) (pager : DefaultPager) : Nat × DefaultPager :=
  (pager.nextRef,
    { pager with
      heap := Function.update pager.heap pager.nextRef page
      nextRef := pager.nextRef + 1 })

def parsePage (bytes : Bytes) : Page :=
  let data := Buf.zero.write 0 bytes
  { header := PageHeader.decode data, data := data, dirty := false }

def cachePut (ref : Nat) (pager : DefaultPager) : DefaultPager :=
  let page := pager.heap ref
  { pager with
    cache := pager.cache.put page.header.id ref page.dirty page.header.lsn }

def get (id : PageID) (pager : DefaultPager) :
    Except Error Nat × DefaultPager :=
  match pager.cache.get id with
  | (some ref, cache) => (.ok ref, { pager with cache := cache })
  | (none, _) =>
      match pager.backend.readAt (pageOffset id) defaultPageSize with
      | none => (.error .pageNotFound, pager)
      | some bytes =>
          let page := parsePage bytes
          if Page.validateChecksum page.data then
            let (ref, created) := pager.newObject page
            (.ok ref, created.cachePut ref)
          else (.error .checksumFailed, pager)

/-- Mark a page object dirty, and the cached object of the same page, which
also takes over its sequence number. -/
def markDirty (ref : Nat) (pager : DefaultPager) : DefaultPager :=
  let marked := pager.setObject ref { pager.heap ref with dirty := true }
  let header := (pager.heap ref).header
  match marked.cache.find header.id with
  | none => marked
  | some entry =>
      let cached := marked.heap entry.page
      { marked.setObject entry.page
          { cached with
            dirty := true, header := { cached.header with lsn := header.lsn } }
        with cache := marked.cache.markDirty header.id header.lsn }

/-! ## Allocation -/

def freeListCount (page : Page) : Nat := ofBE (page.data.read 40 4)

def freeListNext (page : Page) : PageID :=
  UInt64.ofNat (ofBE (page.data.read 32 8))

def freeListPop (page : Page) : PageID × Page :=
  let count := freeListCount page - 1
  (UInt64.ofNat (ofBE (page.data.read (48 + count * 8) 8)),
    { page with data := page.data.write 40 (be 4 count), dirty := true })

def createPage (id : PageID) (type : PageType) (pager : DefaultPager) :
    Nat × DefaultPager :=
  let (ref, created) := pager.newObject (Page.newPage id type)
  (ref, (created.cachePut ref).markDirty ref)

def extend (type : PageType) (pager : DefaultPager) :
    Nat × DefaultPager :=
  let newID := pager.info.nextPageID
  createPage newID type
    { pager with info := { pager.info with nextPageID := newID + 1 } }

def allocate (type : PageType) (pager : DefaultPager) :
    Nat × DefaultPager :=
  if pager.info.freeListRoot = invalidPageID then pager.extend type
  else
    match pager.get pager.info.freeListRoot with
    | (.error _, after) => after.extend type
    | (.ok listRef, after) =>
        let list := after.heap listRef
        if 0 < freeListCount list then
          let (reusedID, popped) := freeListPop list
          let stored := (after.setObject listRef popped).markDirty listRef
          let next := freeListNext popped
          let relinked :=
            if freeListCount popped = 0 ∧ next ≠ invalidPageID then
              { stored with info := { stored.info with freeListRoot := next } }
            else stored
          relinked.createPage reusedID type
        else after.extend type

/-! ## Flushing -/

def flush (id : PageID) (pager : DefaultPager) :
    Except Error Unit × DefaultPager :=
  match pager.cache.get id with
  | (none, _) => (.ok (), pager)
  | (some ref, cache) =>
      let page := pager.heap ref
      let unpinned := { pager with cache := cache.unpin id }
      if page.dirty then
        let logged :=
          if 0 < page.header.lsn then
            { unpinned with
              walFlusher := unpinned.walFlusher.map
                (WAL.flush page.header.lsn) }
          else unpinned
        let sealed := page.sealPage
        match logged.backend.writeAt sealed.image (pageOffset id) with
        | none => (.error .backendWrite, logged.setObject ref sealed)
        | some backend =>
            (.ok (),
              { logged.setObject ref { sealed with dirty := false } with
                backend := backend })
      else (.ok (), unpinned)

/-- Make the log durable up to the sequence number of a page, unless that is
zero; the sync may fail. -/
def flushLog (fails : Bool) (lsn : LSN) (pager : DefaultPager) :
    Except Error Unit × DefaultPager :=
  match pager.walFlusher with
  | none => (.ok (), pager)
  | some wal =>
      if 0 < lsn then
        let (outcome, after) := wal.tryFlush fails lsn
        (outcome, { pager with walFlusher := some after })
      else (.ok (), pager)

def writeBack (fails : Bool) (id : PageID) (ref : Nat)
    (pager : DefaultPager) : Except Error Unit × DefaultPager :=
  let sealed := (pager.heap ref).sealPage
  let unwritten := pager.setObject ref sealed
  if fails then (.error .backendWrite, unwritten)
  else
    match pager.backend.writeAt sealed.image (pageOffset id) with
    | none => (.error .backendWrite, unwritten)
    | some backend =>
        (.ok (),
          { pager.setObject ref { sealed with dirty := false } with
            backend := backend })

/-- `Flush` when the sync of the log or the write to the file may fail. -/
def tryFlush (syncFails writeFails : Bool) (id : PageID)
    (pager : DefaultPager) : Except Error Unit × DefaultPager :=
  match pager.cache.get id with
  | (none, _) => (.ok (), pager)
  | (some ref, cache) =>
      let page := pager.heap ref
      let unpinned := { pager with cache := cache.unpin id }
      if page.dirty then
        match unpinned.flushLog syncFails page.header.lsn with
        | (.error error, after) => (.error error, after)
        | (.ok _, logged) => logged.writeBack writeFails id ref
      else (.ok (), unpinned)

def flushEach : List PageID → DefaultPager → Except Error Unit × DefaultPager
  | [], pager => (.ok (), pager)
  | id :: rest, pager =>
      match pager.flush id with
      | (.error error, after) => (.error error, after)
      | (.ok _, after) => flushEach rest after

/-- The pages `FlushAll` visits. -/
def dirtyIDs (pager : DefaultPager) : List PageID :=
  (pager.cache.entries.filter fun entry =>
    entry.dirty || (pager.heap entry.page).dirty).map CacheEntry.id

def syncBackend (pager : DefaultPager) : DefaultPager :=
  { pager with backend := pager.backend.sync }

def slotA : Fin 2 := ⟨0, Nat.zero_lt_two⟩

def otherSlot (slot : Fin 2) : Fin 2 := 1 - slot

def saveMeta (pager : DefaultPager) : DefaultPager :=
  if pager.readOnly then pager
  else
    let info := { pager.info with generation := pager.info.generation + 1 }
    let nextSlot := otherSlot pager.activeMetaSlot
    let written : Write := ⟨nextSlot.val * defaultPageSize, info.encode⟩
    { pager with
      info := info
      activeMetaSlot := nextSlot
      backend :=
        ({ pager.backend with
          contents := pager.backend.contents.write written
          trace := pager.backend.trace ++ [written] } : Backend).sync }

def flushAll (order : List PageID → List PageID) (pager : DefaultPager) :
    Except Error Unit × DefaultPager :=
  match flushEach (order pager.dirtyIDs) pager with
  | (.error error, after) => (.error error, after)
  | (.ok _, after) => (.ok (), after.syncBackend.saveMeta)

/-! ## Opening -/

def readMeta (backend : Backend) (slot : Fin 2) : Option MetaPage :=
  match backend.readAt (some (slot.val * defaultPageSize)) defaultPageSize with
  | none => none
  | some bytes =>
      match MetaPage.decode bytes with
      | .error _ => none
      | .ok info => some info

def chooseMeta (metaA metaB : Option MetaPage) :
    Option (MetaPage × Fin 2) :=
  match metaA, metaB with
  | none, none => none
  | some infoA, none => some (infoA, 0)
  | none, some infoB => some (infoB, 1)
  | some infoA, some infoB =>
      if infoA.generation ≥ infoB.generation then some (infoA, 0)
      else some (infoB, 1)

def fresh (backend : Backend) (info : MetaPage) (slot : Fin 2)
    (maxCacheBytes : Nat) (readOnly : Bool) : DefaultPager where
  backend := backend
  cache := PageCache.empty (PageCache.shardCapacity maxCacheBytes)
  heap := fun _ => parsePage []
  nextRef := 0
  info := info
  activeMetaSlot := slot
  readOnly := readOnly
  walFlusher := none

/-- Open a database file, creating both meta pages in an empty one.  The two
database identifiers are drawn at random. -/
def openPager (backend : Backend) (maxCacheBytes : Nat) (readOnly : Bool)
    (randomA randomB : Bytes) : Except Error DefaultPager :=
  if backend.contents.size = 0 then
    if readOnly then .error .invalidFormat
    else
      let metaA := MetaPage.newInitial randomA
      let metaB := { MetaPage.newInitial randomB with generation := 0 }
      let writes : List Write :=
        [⟨0, metaA.encode⟩, ⟨defaultPageSize, metaB.encode⟩]
      let created : Backend :=
        { backend with
          contents := backend.contents.writes writes
          trace := backend.trace ++ writes }
      .ok (fresh created.sync metaA 0 maxCacheBytes readOnly)
  else
    match chooseMeta (readMeta backend 0) (readMeta backend 1) with
    | none => .error .corruptMeta
    | some (info, slot) =>
        .ok (fresh backend info slot maxCacheBytes readOnly)

end DefaultPager

end CocoDB
