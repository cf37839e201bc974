import CocoDB.Storage.DefaultPager
import CocoDB.Storage.PagerLaws
import CocoDB.Storage.Seal

/-!
# Crash recovery

`internal/wal/recovery.go`: redo the page images of committed transactions in log
order, flush, save the meta page and truncate the log.
-/

namespace CocoDB

open Lib

structure RecoveryResult where
  recordsScanned : Nat := 0
  txnsCommitted : Nat := 0
  pagesRedone : Nat := 0
  lastLSN : LSN := 0

namespace Recovery

def committed (records : List WalRecord) (txnID : TxnID) : Bool :=
  records.any fun record =>
    record.type = .txnCommit && record.txnID = txnID

def committedCount (records : List WalRecord) : Nat :=
  ((records.filter fun record => record.type = .txnCommit).map
    WalRecord.txnID).dedup.length

def maxLSN (records : List WalRecord) : LSN :=
  records.foldl
    (fun highest record => if record.lsn > highest then record.lsn else highest)
    0

/-- The records that are redone: full page images of committed
transactions. -/
def isRedo (records : List WalRecord) (record : WalRecord) : Bool :=
  record.type = .pageUpdate && committed records record.txnID &&
    record.pageData.length = defaultPageSize

/-- Write one page image to the file and bring the page into the cache, dirty.
Errors of the file and of the pager are passed over.  The second result says
whether the page counts as redone. -/
def redo (record : WalRecord) (pager : DefaultPager) : DefaultPager × Nat :=
  match pager.backend.writeAt record.pageData (pageOffset record.pageID) with
  | none => (pager, 0)
  | some backend =>
      let written := { pager with backend := backend }
      let counted :=
        if record.pageID ≥ written.info.nextPageID then
          { written with
            info := { written.info with nextPageID := record.pageID + 1 } }
        else written
      let dropped :=
        { counted with cache := counted.cache.remove record.pageID }
      match dropped.get record.pageID with
      | (.error _, after) => (after, 0)
      | (.ok ref, after) => (after.markDirty ref, 1)

def redoAll : List WalRecord → DefaultPager → DefaultPager × Nat
  | [], pager => (pager, 0)
  | record :: rest, pager =>
      let (next, first) := redo record pager
      let (final, others) := redoAll rest next
      (final, first + others)

/-- `Recover`.  `order` is the order in which the dirty pages are flushed. -/
def recover (order : List PageID → List PageID) (wal : WAL)
    (pager : DefaultPager) :
    Except Error RecoveryResult × WAL × DefaultPager :=
  let records := wal.readAll
  if records.length = 0 then (.ok {}, wal, pager)
  else
    let (redone, pagesRedone) := redoAll (records.filter (isRedo records)) pager
    match redone.flushAll order with
    | (.error error, after) => (.error error, wal, after)
    | (.ok _, after) =>
        let checkpointed :=
          { after with
            info := { after.info with
              lastLSN := maxLSN records
              lastCheckpointLSN := maxLSN records } }
        (.ok
          { recordsScanned := records.length
            txnsCommitted := committedCount records
            pagesRedone := pagesRedone
            lastLSN := maxLSN records },
          wal.truncate, checkpointed.saveMeta)

end Recovery

end CocoDB

/-! ## What recovery does

What `Recover` does to the file is a list of writes: the redone images, images of
the same pages again when they are flushed, and two meta pages.
-/

namespace CocoDB.Recovery

open Lib DefaultPager

/-- A page update that can be redone: a sealed image of a page whose place in
the file has an offset. -/
structure Redoable (record : WalRecord) : Prop where
  addressable : place record.pageID < 2 ^ 49
  sealed : SealedImage record.pageID record.pageData

def pagesOf (updates : List WalRecord) : List (PageID × Bytes) :=
  updates.map fun record => (record.pageID, record.pageData)

def imageWrite (page : PageID × Bytes) : Write :=
  pageWrite defaultPageSize (place page.1, page.2)

def redoWrites (updates : List WalRecord) : List Write :=
  (pagesOf updates).map imageWrite

/-- `NextPageID` after some redone pages. -/
def nextAfter (next : PageID) (updates : List WalRecord) : PageID :=
  updates.foldl
    (fun next record =>
      if record.pageID ≥ next then record.pageID + 1 else next) next

theorem pagesOf_append (updates : List WalRecord) (record : WalRecord) :
    pagesOf (updates ++ [record]) =
      pagesOf updates ++ [(record.pageID, record.pageData)] := by
  simp [pagesOf]

theorem redoWrites_append (updates : List WalRecord) (record : WalRecord) :
    redoWrites (updates ++ [record]) =
      redoWrites updates ++
        [imageWrite (record.pageID, record.pageData)] := by
  simp [redoWrites, pagesOf_append]

theorem nextAfter_append (next : PageID) (updates : List WalRecord)
    (record : WalRecord) :
    nextAfter next (updates ++ [record]) =
      if record.pageID ≥ nextAfter next updates then record.pageID + 1
      else nextAfter next updates := by
  simp [nextAfter]

structure Settled (images : List (PageID × Bytes)) (pager : DefaultPager) :
    Prop where
  pinned : pager.cache.Pinned
  known : ∀ {id entry}, pager.cache.find id = some entry →
    entry.page < pager.nextRef
  image : ∀ {id entry}, pager.cache.find id = some entry →
    ∃ bytes flag, lastBytes images id = some bytes ∧
      pager.heap entry.page = { parsePage bytes with dirty := flag }

/-- The pager in the middle of the redo pass. -/
structure Redone (start : DefaultPager) (past : List WalRecord)
    (pager : DefaultPager) : Prop extends Settled (pagesOf past) pager where
  contents_eq : pager.backend.contents =
    start.backend.contents.writes (redoWrites past)
  trace_eq : pager.backend.trace = start.backend.trace ++ redoWrites past
  info_eq : pager.info =
    { start.info with nextPageID := nextAfter start.info.nextPageID past }
  slot_eq : pager.activeMetaSlot = start.activeMetaSlot
  readOnly_eq : pager.readOnly = start.readOnly

variable {start pager : DefaultPager} {past : List WalRecord}
  {record : WalRecord}

theorem Settled.load {images : List (PageID × Bytes)} {id : PageID}
    {bytes : Bytes} (settled : Settled images pager)
    (sameID : (parsePage bytes).header.id = id) :
    let after := (((pager.newObject (parsePage bytes)).2).cachePut
      pager.nextRef).markDirty pager.nextRef
    Settled (images ++ [(id, bytes)]) after ∧
      after.backend = pager.backend ∧ after.info = pager.info ∧
      after.activeMetaSlot = pager.activeMetaSlot ∧
      after.readOnly = pager.readOnly := by
  let created := (pager.newObject (parsePage bytes)).2
  have stored : created.heap pager.nextRef = parsePage bytes :=
    Function.update_self _ _ _
  have heapOld : ∀ ref, ref < pager.nextRef →
      created.heap ref = pager.heap ref :=
    fun ref small => Function.update_of_ne (Nat.ne_of_lt small) _ _
  obtain ⟨pinned, ⟨entry, found, samePage, _⟩, others⟩ :=
    settled.pinned.put_spec id pager.nextRef (parsePage bytes).dirty
      (parsePage bytes).header.lsn
  have putCache : (created.cachePut pager.nextRef).cache =
      pager.cache.put id pager.nextRef (parsePage bytes).dirty
        (parsePage bytes).header.lsn := by
    simp only [cachePut, stored, sameID]
    rfl
  have putFound : (created.cachePut pager.nextRef).cache.find id =
      some entry := by
    rw [putCache]
    exact found
  have putHeap : (created.cachePut pager.nextRef).heap = created.heap := rfl
  have putID : ((created.cachePut pager.nextRef).heap
      entry.page).header.id = id := by
    rw [putHeap, samePage, stored, sameID]
  have marked := markDirty_cached putFound putID
  rw [samePage] at marked
  intro after
  have cacheEq : after.cache =
      (created.cachePut pager.nextRef).cache.markDirty id
        (parsePage bytes).header.lsn := by
    rw [show after = _ from marked, putHeap, stored]
  have heapEq : after.heap = Function.update created.heap pager.nextRef
      { parsePage bytes with dirty := true } := by
    rw [show after = _ from marked, putHeap, stored]
    rfl
  have finds : ∀ {other entry'}, after.cache.find other = some entry' →
      (other = id ∧ entry'.page = pager.nextRef) ∨
      (other ≠ id ∧ pager.cache.find other = some entry') := by
    intro other entry' foundAfter
    rw [cacheEq, PageCache.find_markDirty, putFound] at foundAfter
    by_cases here : other = id
    · rw [if_pos here, Option.map_some] at foundAfter
      rw [← Option.some.inj foundAfter]
      exact .inl ⟨here, samePage⟩
    · rw [if_neg here, putCache, others other here] at foundAfter
      exact .inr ⟨here, foundAfter⟩
  have rest : after.nextRef = pager.nextRef + 1 ∧
      after.backend = pager.backend ∧ after.info = pager.info ∧
      after.activeMetaSlot = pager.activeMetaSlot ∧
      after.readOnly = pager.readOnly := by
    rw [show after = _ from marked]
    exact ⟨rfl, rfl, rfl, rfl, rfl⟩
  refine ⟨⟨?_, ?_, ?_⟩, rest.2⟩
  · rw [cacheEq, putCache]
    exact pinned.markDirty _ _
  · intro other entry' foundAfter
    rw [rest.1]
    rcases finds foundAfter with ⟨_, same⟩ | ⟨_, old⟩
    · omega
    · have bound := settled.known old
      omega
  · intro other entry' foundAfter
    rw [heapEq, lastBytes_append]
    rcases finds foundAfter with ⟨rfl, same⟩ | ⟨different, old⟩
    · rw [if_pos rfl, same, Function.update_self]
      exact ⟨bytes, true, rfl, rfl⟩
    · have bound := settled.known old
      rw [if_neg fun same => different same.symm,
        Function.update_of_ne (Nat.ne_of_lt bound), heapOld _ bound]
      exact settled.image old

/-- The pager in the middle of a redo step: the image is written and the page is
taken out of the cache. -/
def dropped (record : WalRecord) (pager : DefaultPager) : DefaultPager :=
  let written := imageWrite (record.pageID, record.pageData)
  { pager with
    backend :=
      { pager.backend with
        contents := pager.backend.contents.write written
        trace := pager.backend.trace ++ [written] }
    info :=
      { pager.info with
        nextPageID :=
          if record.pageID ≥ pager.info.nextPageID then record.pageID + 1
          else pager.info.nextPageID }
    cache := pager.cache.remove record.pageID }

theorem redo_eq (addressable : place record.pageID < 2 ^ 49) :
    redo record pager =
      match (dropped record pager).get record.pageID with
      | (.error _, after) => (after, 0)
      | (.ok ref, after) => (after.markDirty ref, 1) := by
  unfold redo Backend.writeAt
  rw [pageOffset_place addressable]
  by_cases larger : record.pageID ≥ pager.info.nextPageID
  · simp only [larger, if_true, dropped]
    rfl
  · simp only [larger, if_false, dropped]
    rfl

theorem Settled.dropped {images : List (PageID × Bytes)}
    (settled : Settled images pager) (record : WalRecord) :
    Settled images (dropped record pager) := by
  have kept : ∀ {id entry},
      (Recovery.dropped record pager).cache.find id = some entry →
      pager.cache.find id = some entry := by
    intro id entry found
    have removed := PageCache.find_remove pager.cache record.pageID id
    rw [show (Recovery.dropped record pager).cache =
      pager.cache.remove record.pageID from rfl, removed] at found
    split at found
    · cases found
    · exact found
  exact ⟨settled.pinned.remove _, fun found => settled.known (kept found),
    fun found => settled.image (kept found)⟩

theorem dropped_missing (record : WalRecord) (pager : DefaultPager) :
    (dropped record pager).cache.find record.pageID = none := by
  show (pager.cache.remove record.pageID).find record.pageID = none
  rw [PageCache.find_remove, if_pos rfl]

theorem dropped_readable (redoable : Redoable record)
    (pager : DefaultPager) :
    (dropped record pager).backend.readAt (pageOffset record.pageID)
      defaultPageSize = some record.pageData := by
  have length := redoable.sealed.length_eq
  have stored := Buf.read_write_same pager.backend.contents.data
    (place record.pageID * defaultPageSize) record.pageData
  rw [length] at stored
  have grown : place record.pageID * defaultPageSize + defaultPageSize ≤
      (dropped record pager).backend.contents.size := by
    refine Nat.le_trans (Nat.le_of_eq ?_) (Nat.le_max_right _ _)
    show _ = place record.pageID * defaultPageSize + record.pageData.length
    rw [length]
  rw [pageOffset_place redoable.addressable]
  unfold Backend.readAt
  simp only
  rw [if_pos grown]
  exact congrArg some stored

theorem Redone.step (redone : Redone start past pager)
    (redoable : Redoable record) :
    Redone start (past ++ [record]) (redo record pager).1 ∧
      (redo record pager).2 = 1 := by
  obtain ⟨intact, sameID, _⟩ := redoable.sealed.parse_sealed
  have loaded := get_loaded (dropped_missing record pager)
    (dropped_readable redoable pager) intact.valid
  obtain ⟨after, backend, info, slot, readOnly⟩ :=
    (redone.toSettled.dropped record).load sameID
  rw [redo_eq redoable.addressable, loaded]
  refine ⟨⟨?_, ?_, ?_, ?_, ?_, ?_⟩, rfl⟩
  · rw [pagesOf_append]
    exact after
  · rw [backend, redoWrites_append, Contents.writes_append]
    show pager.backend.contents.write _ = _
    rw [redone.contents_eq]
    rfl
  · rw [backend, redoWrites_append, ← List.append_assoc, ← redone.trace_eq]
    rfl
  · rw [info, nextAfter_append, dropped, redone.info_eq]
  · rw [slot]
    exact redone.slot_eq
  · rw [readOnly]
    exact redone.readOnly_eq

theorem redoAll_spec {updates : List WalRecord}
    (redoable : ∀ record, record ∈ updates → Redoable record)
    (redone : Redone start past pager) :
    Redone start (past ++ updates) (redoAll updates pager).1 ∧
      (redoAll updates pager).2 = updates.length := by
  induction updates generalizing past pager with
  | nil => exact ⟨by rwa [List.append_nil], rfl⟩
  | cons record rest inductionHypothesis =>
      obtain ⟨next, counted⟩ := redone.step (redoable record List.mem_cons_self)
      obtain ⟨final, others⟩ := inductionHypothesis
        (fun other member => redoable other (List.mem_cons_of_mem _ member))
        next
      rw [List.append_assoc, List.singleton_append] at final
      refine ⟨final, ?_⟩
      show (redo record pager).2 + (redoAll rest (redo record pager).1).2 = _
      rw [counted, others, List.length_cons, Nat.add_comm]

/-! ## Flushing -/

def AllSealed (images : List (PageID × Bytes)) : Prop :=
  ∀ page, page ∈ images → place page.1 < 2 ^ 49 ∧
    SealedImage page.1 page.2

theorem allSealed_pagesOf {updates : List WalRecord}
    (redoable : ∀ record, record ∈ updates → Redoable record) :
    AllSealed (pagesOf updates) := by
  intro page member
  obtain ⟨record, recordMember, rfl⟩ := List.mem_map.mp member
  have good := redoable record recordMember
  exact ⟨good.addressable, good.sealed⟩

structure Flushed (images : List (PageID × Bytes)) (start : DefaultPager)
    (again : List (PageID × Bytes)) (pager : DefaultPager) : Prop
    extends Settled images pager where
  last : ∀ page, page ∈ again → lastBytes images page.1 = some page.2
  contents_eq : pager.backend.contents =
    start.backend.contents.writes (again.map imageWrite)
  trace_eq : pager.backend.trace =
    start.backend.trace ++ again.map imageWrite
  info_eq : pager.info = start.info
  slot_eq : pager.activeMetaSlot = start.activeMetaSlot
  readOnly_eq : pager.readOnly = start.readOnly

variable {images again : List (PageID × Bytes)}

theorem Settled.flushed_nil (settled : Settled images pager) :
    Flushed images pager [] pager :=
  ⟨settled, fun _ member => (nomatch member), rfl, by simp,
    rfl, rfl, rfl⟩

theorem Flushed.flush (flushed : Flushed images start again pager)
    (intact : AllSealed images) (id : PageID) :
    ∃ after more, pager.flush id = (.ok (), after) ∧
      Flushed images start (again ++ more) after := by
  cases found : pager.cache.find id with
  | none =>
      exact ⟨pager, [], flush_missing found, by rwa [List.append_nil]⟩
  | some entry =>
      obtain ⟨bytes, flag, last, stored⟩ := flushed.image found
      obtain ⟨small, sealed⟩ := intact _ (lastBytes_mem last)
      obtain ⟨flusher, shape⟩ := flush_cached found
      have unpinned : ((pager.cache.get id).2.unpin id).Pinned :=
        flushed.pinned.get_unpin id (by rw [found]; rfl)
      have known : ∀ {other entry'},
          ((pager.cache.get id).2.unpin id).find other = some entry' →
          entry'.page < pager.nextRef := by
        intro other entry' foundAfter
        rw [PageCache.find_get_unpin] at foundAfter
        exact flushed.known foundAfter
      rw [shape]
      by_cases dirty : (pager.heap entry.page).dirty = true
      · have resealed : (pager.heap entry.page).sealPage =
            pager.heap entry.page := by
          have sealedData : Sealed (pager.heap entry.page).data := by
            rw [stored]
            exact sealed.parse_sealed.1
          exact sealedData.sealPage_eq (by rw [stored]; rfl)
        have image : (pager.heap entry.page).image = bytes := by
          rw [stored]
          exact sealed.parse_sealed.2.2
        rw [if_pos dirty, resealed, image, pageOffset_place small]
        refine ⟨_, [(id, bytes)], rfl, ?_⟩
        refine ⟨⟨unpinned, known, ?_⟩, ?_, ?_, ?_,
          flushed.info_eq, flushed.slot_eq, flushed.readOnly_eq⟩
        · intro other entry' foundAfter
          rw [PageCache.find_get_unpin] at foundAfter
          obtain ⟨bytes', flag', last', stored'⟩ := flushed.image foundAfter
          by_cases samePage : entry'.page = entry.page
          · refine ⟨bytes', false, last', ?_⟩
            show Function.update _ _ _ _ = _
            rw [samePage, Function.update_self, ← samePage, stored']
          · refine ⟨bytes', flag', last', ?_⟩
            show Function.update _ _ _ _ = _
            rw [Function.update_of_ne samePage, stored']
        · intro page member
          rcases List.mem_append.mp member with old | new
          · exact flushed.last page old
          · rw [List.mem_singleton.mp new]
            exact last
        · rw [List.map_append, Contents.writes_append, ← flushed.contents_eq]
          rfl
        · rw [List.map_append, ← List.append_assoc, ← flushed.trace_eq]
          rfl
      · rw [if_neg dirty]
        refine ⟨_, [], rfl, ?_⟩
        rw [List.append_nil]
        refine ⟨⟨unpinned, known, ?_⟩, flushed.last,
          flushed.contents_eq, flushed.trace_eq, flushed.info_eq,
          flushed.slot_eq, flushed.readOnly_eq⟩
        intro other entry' foundAfter
        rw [PageCache.find_get_unpin] at foundAfter
        exact flushed.image foundAfter

theorem Flushed.flushEach (intact : AllSealed images) (ids : List PageID)
    (flushed : Flushed images start again pager) :
    ∃ after more, DefaultPager.flushEach ids pager = (.ok (), after) ∧
      Flushed images start (again ++ more) after := by
  induction ids generalizing again pager with
  | nil => exact ⟨pager, [], rfl, by rwa [List.append_nil]⟩
  | cons id rest inductionHypothesis =>
      obtain ⟨next, first, flushedID, nextFlushed⟩ := flushed.flush intact id
      obtain ⟨after, more, flushedRest, final⟩ :=
        inductionHypothesis nextFlushed
      refine ⟨after, first ++ more, ?_, by rwa [← List.append_assoc]⟩
      unfold DefaultPager.flushEach
      rw [flushedID]
      exact flushedRest

/-! ## The whole of recovery -/

def updatesOf (records : List WalRecord) : List WalRecord :=
  records.filter (isRedo records)

/-- The meta page `FlushAll` saves. -/
def flushedInfo (info : MetaPage) (updates : List WalRecord) : MetaPage :=
  { info with
    nextPageID := nextAfter info.nextPageID updates
    generation := info.generation + 1 }

def recoveredInfo (info : MetaPage) (records : List WalRecord) : MetaPage :=
  { flushedInfo info (updatesOf records) with
    lastLSN := maxLSN records
    lastCheckpointLSN := maxLSN records
    generation := info.generation + 1 + 1 }

def metaWrites (start : DefaultPager) (records : List WalRecord) :
    List Write :=
  if start.readOnly then []
  else
    [⟨(otherSlot start.activeMetaSlot).val * defaultPageSize,
        (flushedInfo start.info (updatesOf records)).encode⟩,
      ⟨(otherSlot (otherSlot start.activeMetaSlot)).val * defaultPageSize,
        (recoveredInfo start.info records).encode⟩]

def noted (lsn : LSN) (pager : DefaultPager) : DefaultPager :=
  { pager with
    info := { pager.info with lastLSN := lsn, lastCheckpointLSN := lsn } }

def checkpointed (records : List WalRecord) (pager : DefaultPager) :
    DefaultPager :=
  (noted (maxLSN records) pager.syncBackend.saveMeta).saveMeta

structure Recovered (start : DefaultPager) (records : List WalRecord)
    (again : List (PageID × Bytes)) (pager : DefaultPager) : Prop where
  last : ∀ page, page ∈ again →
    lastBytes (pagesOf (updatesOf records)) page.1 = some page.2
  trace_eq : pager.backend.trace = start.backend.trace ++
    ((pagesOf (updatesOf records) ++ again).map imageWrite ++
      metaWrites start records)
  contents_eq : pager.backend.contents = start.backend.contents.writes
    ((pagesOf (updatesOf records) ++ again).map imageWrite ++
      metaWrites start records)
  nextPageID_eq : pager.info.nextPageID =
    nextAfter start.info.nextPageID (updatesOf records)

theorem saveMeta_readOnly (readOnly : pager.readOnly = true) :
    pager.saveMeta = pager :=
  if_pos readOnly

/-- The write `SaveMeta` makes. -/
def savedWrite (info : MetaPage) (slot : Fin 2) : Write :=
  ⟨(otherSlot slot).val * defaultPageSize,
    { info with generation := info.generation + 1 }.encode⟩

theorem saveMeta_writable (writable : pager.readOnly = false) :
    pager.saveMeta.backend.contents = pager.backend.contents.write
        (savedWrite pager.info pager.activeMetaSlot) ∧
      pager.saveMeta.backend.trace = pager.backend.trace ++
        [savedWrite pager.info pager.activeMetaSlot] ∧
      pager.saveMeta.info =
        { pager.info with generation := pager.info.generation + 1 } ∧
      pager.saveMeta.activeMetaSlot = otherSlot pager.activeMetaSlot ∧
      pager.saveMeta.readOnly = false := by
  unfold DefaultPager.saveMeta
  rw [if_neg (by rw [writable]; decide)]
  exact ⟨rfl, rfl, rfl, rfl, writable⟩

theorem Flushed.checkpointed {records : List WalRecord}
    {redone flushed : DefaultPager}
    (done : Redone start (updatesOf records) redone)
    (final : Flushed (pagesOf (updatesOf records)) redone again flushed) :
    Recovered start records again (checkpointed records flushed) := by
  have info := final.info_eq.trans done.info_eq
  have slot := final.slot_eq.trans done.slot_eq
  have mode := final.readOnly_eq.trans done.readOnly_eq
  have contents := final.contents_eq
  have trace := final.trace_eq
  rw [done.contents_eq, ← Contents.writes_append, redoWrites,
    ← List.map_append] at contents
  rw [done.trace_eq, List.append_assoc, redoWrites, ← List.map_append] at trace
  unfold Recovery.checkpointed
  cases readOnly : start.readOnly with
  | true =>
      have none : metaWrites start records = [] := if_pos readOnly
      have first : flushed.syncBackend.saveMeta = flushed.syncBackend :=
        saveMeta_readOnly (mode.trans readOnly)
      have second : (noted (maxLSN records) flushed.syncBackend).saveMeta =
          noted (maxLSN records) flushed.syncBackend :=
        saveMeta_readOnly (mode.trans readOnly)
      rw [first, second]
      refine ⟨final.last, ?_, ?_, ?_⟩
      · rw [none, List.append_nil]
        exact trace
      · rw [none, List.append_nil]
        exact contents
      · show flushed.info.nextPageID = _
        rw [info]
  | false =>
      have both : metaWrites start records =
          [savedWrite flushed.info flushed.activeMetaSlot,
            savedWrite
              { flushedInfo start.info (updatesOf records) with
                lastLSN := maxLSN records
                lastCheckpointLSN := maxLSN records }
              (otherSlot flushed.activeMetaSlot)] := by
        unfold metaWrites
        rw [readOnly, if_neg (by decide), info, slot]
        rfl
      obtain ⟨contents₁, trace₁, info₁, slot₁, mode₁⟩ :
          flushed.syncBackend.saveMeta.backend.contents = _ ∧ _ :=
        saveMeta_writable (mode.trans readOnly)
      let saved := noted (maxLSN records) flushed.syncBackend.saveMeta
      have savedInfo : saved.info =
          { flushedInfo start.info (updatesOf records) with
            lastLSN := maxLSN records
            lastCheckpointLSN := maxLSN records } := by
        show { flushed.syncBackend.saveMeta.info with
          lastLSN := maxLSN records
          lastCheckpointLSN := maxLSN records } = _
        rw [info₁]
        show ({ flushed.info with
          generation := flushed.info.generation + 1
          lastLSN := maxLSN records
          lastCheckpointLSN := maxLSN records } : MetaPage) = _
        rw [info]
        rfl
      obtain ⟨contents₂, trace₂, info₂, _, _⟩ :
          saved.saveMeta.backend.contents = _ ∧ _ := saveMeta_writable mode₁
      have savedSlot : saved.activeMetaSlot = otherSlot flushed.activeMetaSlot :=
        slot₁
      rw [savedInfo, savedSlot] at contents₂ trace₂
      refine ⟨final.last, ?_, ?_, ?_⟩
      · rw [both, trace₂, show saved.backend.trace = _ from trace₁]
        show flushed.backend.trace ++ [_] ++ [_] = _
        rw [trace, List.append_assoc, List.append_assoc]
        rfl
      · rw [both, contents₂, show saved.backend.contents = _ from contents₁,
          Contents.writes_append, ← contents]
        rfl
      · rw [info₂, savedInfo]
        rfl

theorem recover_spec {wal : WAL} (order : List PageID → List PageID)
    (settled : Settled [] start) (nonempty : wal.readAll ≠ [])
    (redoable : ∀ record, record ∈ updatesOf wal.readAll →
      Redoable record) :
    ∃ again pager,
      recover order wal start =
        (.ok
          { recordsScanned := wal.readAll.length
            txnsCommitted := committedCount wal.readAll
            pagesRedone := (updatesOf wal.readAll).length
            lastLSN := maxLSN wal.readAll },
          wal.truncate, pager) ∧
      Recovered start wal.readAll again pager := by
  have begun : Redone start [] start :=
    ⟨settled, rfl, by simp [redoWrites, pagesOf], rfl, rfl, rfl⟩
  obtain ⟨redone, counted⟩ := redoAll_spec redoable begun
  rw [List.nil_append] at redone
  obtain ⟨flushed, again, succeeded, final⟩ :=
    redone.toSettled.flushed_nil.flushEach (allSealed_pagesOf redoable)
      (order (redoAll (updatesOf wal.readAll) start).1.dirtyIDs)
  rw [List.nil_append] at final
  have some_records : ¬ wal.readAll.length = 0 := by
    rwa [List.length_eq_zero_iff]
  refine ⟨again, checkpointed wal.readAll flushed, ?_,
    final.checkpointed redone⟩
  unfold recover DefaultPager.flushAll
  rw [if_neg some_records]
  unfold updatesOf at succeeded counted ⊢
  simp only [succeeded, counted]
  rfl

end CocoDB.Recovery
