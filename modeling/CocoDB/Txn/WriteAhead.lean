import CocoDB.Storage.Seal
import CocoDB.Txn.Manager

/-!
# The write-ahead rule

A page may only reach the file once the log is durable up to the sequence number
in its header.  `Flush` asks the log for that, and the log answers by syncing and
taking its last number for durable, so the rule rests on one invariant: no page
carries a number beyond the last one the log has given out.  Numbers are in
three places, the parsed headers, the page bytes and the copies of savepoints,
and move between them.
-/

namespace CocoDB

open Lib

/-- The sequence number in the bytes of the page that starts at an offset. -/
def lsnAt (data : Buf) (start : Nat) : Nat := ofBE (data.read (start + 12) 8)

theorem lsnAt_zero (start : Nat) : lsnAt Buf.zero start = 0 := by
  have bytes : Buf.zero.read (start + 12) 8 = List.replicate 8 0 := by
    unfold Buf.read Buf.zero
    rw [List.map_const', List.length_range]
  rw [lsnAt, bytes]
  rfl

/-! ## Pages -/

/-- Neither the header nor the bytes of a page go beyond a number. -/
structure PageBound (limit : Nat) (page : Page) : Prop where
  header : page.header.lsn.toNat ≤ limit
  field : lsnAt page.data 0 ≤ limit

/-- One elementary change of a page: some bytes behind the header, the counters
of the header, the dirty mark, or the header written into the bytes. -/
inductive PageEdit where
  | write (offset : Nat) (bytes : Bytes) (behind : pageHeaderSize ≤ offset)
  | counters (slotCount freeStart freeEnd : Nat)
  | mark
  | writeHeader

def PageEdit.apply : PageEdit → Page → Page
  | .write offset bytes _, page =>
      { page with data := page.data.write offset bytes }
  | .counters slotCount freeStart freeEnd, page =>
      { page with header := { page.header with
          slotCount := slotCount, freeStart := freeStart,
          freeEnd := freeEnd } }
  | .mark, page => { page with dirty := true }
  | .writeHeader, page => page.writeHeader

section Pages

variable {limit : Nat} {page : Page}

theorem encode_lsn (header : PageHeader) :
    (header.encode.drop 12).take 8 = be 8 header.lsn.toNat := by
  simp [PageHeader.encode, List.drop_append, be_drop]

theorem lsnAt_writeHeader (page : Page) :
    lsnAt page.writeHeader.data 0 = page.header.lsn.toNat := by
  have inside : 12 + 8 ≤ page.header.encode.length := by
    rw [PageHeader.encode_length]
    omega
  rw [lsnAt, Page.writeHeader, Buf.read_write_within _ 0 inside, encode_lsn,
    ofBE_be, toNat_mod64]

theorem lsnAt_sealPage (page : Page) :
    lsnAt page.sealPage.data 0 = page.header.lsn.toNat := by
  rw [lsnAt, Nat.zero_add, page.sealPage_header (by omega), encode_lsn,
    ofBE_be, toNat_mod64]

theorem PageBound.mono {more : Nat} (bound : PageBound limit page)
    (larger : limit ≤ more) : PageBound more page :=
  ⟨Nat.le_trans bound.header larger, Nat.le_trans bound.field larger⟩

theorem PageBound.writeHeader (bound : PageBound limit page) :
    PageBound limit page.writeHeader := by
  refine ⟨bound.header, ?_⟩
  rw [lsnAt_writeHeader]
  exact bound.header

theorem lsn_withChecksum (header : PageHeader) (crc : UInt32) :
    ({ header with checksum := crc } : PageHeader).lsn = header.lsn := rfl

theorem sealPage_lsn (page : Page) :
    page.sealPage.header.lsn = page.header.lsn := by
  rw [Page.sealPage_header_eq, lsn_withChecksum]

theorem PageBound.sealPage (bound : PageBound limit page) :
    PageBound limit page.sealPage := by
  refine ⟨?_, ?_⟩
  · rw [sealPage_lsn]
    exact bound.header
  · rw [lsnAt_sealPage]
    exact bound.header

theorem PageBound.apply (bound : PageBound limit page) (edit : PageEdit) :
    PageBound limit (edit.apply page) := by
  cases edit with
  | write offset bytes behind =>
      have apart : 0 + 12 + 8 ≤ offset := Nat.le_trans (by decide) behind
      refine ⟨bound.header, ?_⟩
      have field : lsnAt (page.data.write offset bytes) 0 =
          lsnAt page.data 0 := by
        rw [lsnAt, Buf.read_write_disjoint (.inl apart), lsnAt]
      exact field ▸ bound.field
  | counters slotCount freeStart freeEnd => exact ⟨bound.header, bound.field⟩
  | mark => exact ⟨bound.header, bound.field⟩
  | writeHeader => exact bound.writeHeader

theorem pageBound_newPage (limit : Nat) (id : PageID) (type : PageType) :
    PageBound limit (Page.newPage id type) := by
  refine ⟨Nat.zero_le limit, ?_⟩
  rw [Page.newPage, lsnAt_writeHeader]
  exact Nat.zero_le limit

theorem pageBound_decode {data : Buf} (bound : lsnAt data 0 ≤ limit)
    (dirty : Bool) : PageBound limit ⟨PageHeader.decode data, data, dirty⟩ := by
  refine ⟨?_, bound⟩
  refine Nat.le_trans ?_ bound
  change (UInt64.ofNat (ofBE (data.read 12 8))).toNat ≤ lsnAt data 0
  rw [lsnAt, Nat.zero_add, UInt64.toNat_ofNat']
  exact Nat.mod_le _ _

/-- The number in a string of bytes that is written to the front of a page. -/
def lsnOf (bytes : Bytes) : Nat := ofBE ((bytes.drop 12).take 8)

theorem lsnAt_write_front {bytes : Bytes}
    (full : bytes.length = defaultPageSize) (data : Buf) :
    lsnAt (data.write 0 bytes) 0 = lsnOf bytes := by
  have inside : 12 + 8 ≤ bytes.length := by
    rw [full]
    decide
  rw [lsnAt, Buf.read_write_within _ 0 inside, lsnOf]

theorem lsnOf_read (data : Buf) (start : Nat) :
    lsnOf (data.read start defaultPageSize) = lsnAt data start := by
  rw [lsnOf, Buf.read_drop, Buf.read_take, lsnAt, Nat.min_eq_left (by decide)]

theorem lsnOf_image (page : Page) : lsnOf page.image = lsnAt page.data 0 :=
  lsnOf_read page.data 0

theorem pageBound_parsePage {bytes : Bytes}
    (full : bytes.length = defaultPageSize) (bound : lsnOf bytes ≤ limit) :
    PageBound limit (DefaultPager.parsePage bytes) := by
  refine pageBound_decode ?_ false
  rw [lsnAt_write_front full]
  exact bound

end Pages

/-! ## The pager -/

/-- The last number of the log is `limit`, and no page goes beyond it: neither
an object on the heap nor a page of the file.  The meta pages are not pages in
this sense. -/
structure Bounded (limit : Nat) (pager : DefaultPager) : Prop where
  logged : ∃ wal, pager.walFlusher = some wal ∧ wal.lastLSN.toNat = limit
  object : ∀ ref, PageBound limit (pager.heap ref)
  file : ∀ page, 2 ≤ page →
    lsnAt pager.backend.contents.data (page * defaultPageSize) ≤ limit
  formed : pager.info.WellFormed
  noFree : pager.info.freeListRoot = invalidPageID

namespace Bounded

variable {limit : Nat} {pager : DefaultPager}

theorem setObject (bounded : Bounded limit pager) {page : Page}
    (bound : PageBound limit page) (ref : Nat) :
    Bounded limit (pager.setObject ref page) := by
  refine ⟨bounded.logged, ?_, bounded.file, bounded.formed, bounded.noFree⟩
  intro other
  by_cases same : other = ref
  · subst same
    simp only [DefaultPager.setObject, Function.update_self]
    exact bound
  · simp only [DefaultPager.setObject, Function.update_of_ne same]
    exact bounded.object other

theorem withCache (bounded : Bounded limit pager) (cache : PageCache) :
    Bounded limit { pager with cache := cache } :=
  ⟨bounded.logged, bounded.object, bounded.file, bounded.formed,
    bounded.noFree⟩

theorem newObject (bounded : Bounded limit pager) {page : Page}
    (bound : PageBound limit page) :
    Bounded limit (pager.newObject page).2 := by
  have stored := bounded.setObject bound pager.nextRef
  exact ⟨stored.logged, stored.object, stored.file, stored.formed,
    stored.noFree⟩

theorem markDirty (bounded : Bounded limit pager) (ref : Nat) :
    Bounded limit (pager.markDirty ref) := by
  have own := bounded.object ref
  have marked := bounded.setObject
    (⟨own.header, own.field⟩ :
      PageBound limit { pager.heap ref with dirty := true }) ref
  unfold DefaultPager.markDirty
  simp only
  split
  · exact marked
  · rename_i entry found
    have cached := marked.object entry.page
    exact (marked.setObject
      (⟨own.header, cached.field⟩ : PageBound limit
        { (pager.setObject ref { pager.heap ref with dirty := true }).heap
            entry.page with
          dirty := true
          header :=
            { ((pager.setObject ref
                { pager.heap ref with dirty := true }).heap
                  entry.page).header with
              lsn := (pager.heap ref).header.lsn } })
      entry.page).withCache _

theorem cachePut (bounded : Bounded limit pager) (ref : Nat) :
    Bounded limit (pager.cachePut ref) :=
  bounded.withCache _

theorem get (bounded : Bounded limit pager) {id : PageID}
    (ordinary : 2 ≤ place id) : Bounded limit (pager.get id).2 := by
  unfold DefaultPager.get
  split
  · exact bounded.withCache _
  · split
    · exact bounded
    · rename_i bytes read
      have content := Backend.readAt_page read
      have full : bytes.length = defaultPageSize := by
        rw [content, Buf.read_length]
      have bound : lsnOf bytes ≤ limit := by
        rw [content, lsnOf_read]
        exact bounded.file _ ordinary
      simp only
      split
      · exact (bounded.newObject (pageBound_parsePage full bound)).cachePut _
      · exact bounded

theorem withInfo (bounded : Bounded limit pager) {info : MetaPage}
    (databaseID : info.databaseID = pager.info.databaseID)
    (pageSize : info.pageSize = pager.info.pageSize)
    (freeListRoot : info.freeListRoot = pager.info.freeListRoot) :
    Bounded limit { pager with info := info } := by
  refine ⟨bounded.logged, bounded.object, bounded.file, ⟨?_, ?_⟩, ?_⟩
  · exact (congrArg List.length databaseID).trans
      bounded.formed.databaseID_length
  · exact pageSize.trans bounded.formed.pageSize_eq
  · exact freeListRoot.trans bounded.noFree

theorem allocate (bounded : Bounded limit pager) (type : PageType) :
    Bounded limit (pager.allocate type).2 := by
  rw [DefaultPager.allocate, if_pos bounded.noFree]
  unfold DefaultPager.extend DefaultPager.createPage
  have counted : Bounded limit
      { pager with
        info := { pager.info with
          nextPageID := pager.info.nextPageID + 1 } } :=
    bounded.withInfo rfl rfl rfl
  exact ((counted.newObject (pageBound_newPage limit _ type)).cachePut
    _).markDirty _

theorem writePage (bounded : Bounded limit pager) {page : Page}
    (bound : PageBound limit page) {id : PageID} {backend : Backend}
    (written : pager.backend.writeAt page.image (pageOffset id) =
      some backend) : Bounded limit { pager with backend := backend } := by
  refine ⟨bounded.logged, bounded.object, ?_, bounded.formed, bounded.noFree⟩
  intro other ordinary
  have length : page.image.length = defaultPageSize := Buf.read_length _ _ _
  rw [Backend.writeAt_page written]
  simp only [Contents.write_data]
  by_cases same : other = place id
  · have inside : 12 + 8 ≤ page.image.length := by
      rw [length]
      decide
    rw [same, lsnAt, Buf.read_write_within _ _ inside]
    change lsnOf page.image ≤ limit
    rw [lsnOf_image]
    exact bound.field
  · have apart : other * defaultPageSize + 12 + 8 ≤
        place id * defaultPageSize ∨
        place id * defaultPageSize + page.image.length ≤
          other * defaultPageSize + 12 := by
      rw [length]
      unfold defaultPageSize
      omega
    rw [lsnAt, Buf.read_write_disjoint apart]
    exact bounded.file other ordinary

theorem withLog (bounded : Bounded limit pager) {wal : WAL}
    (same : wal.lastLSN.toNat = limit) :
    Bounded limit { pager with walFlusher := some wal } :=
  ⟨⟨wal, rfl, same⟩, bounded.object, bounded.file, bounded.formed,
    bounded.noFree⟩

theorem mono (bounded : Bounded limit pager) {wal : WAL}
    (larger : limit ≤ wal.lastLSN.toNat) :
    Bounded wal.lastLSN.toNat { pager with walFlusher := some wal } :=
  ⟨⟨wal, rfl, rfl⟩, fun ref => (bounded.object ref).mono larger,
    fun page ordinary => Nat.le_trans (bounded.file page ordinary) larger,
    bounded.formed, bounded.noFree⟩

theorem saveMeta (bounded : Bounded limit pager) :
    Bounded limit pager.saveMeta := by
  unfold DefaultPager.saveMeta
  split
  · exact bounded
  · have counted : Bounded limit
        { pager with
          info := { pager.info with
            generation := pager.info.generation + 1 } } :=
      bounded.withInfo rfl rfl rfl
    have length := counted.formed.encode_length
    have slot := (DefaultPager.otherSlot pager.activeMetaSlot).isLt
    refine ⟨bounded.logged, bounded.object, ?_, counted.formed,
      bounded.noFree⟩
    intro other ordinary
    simp only [Backend.sync, Contents.write_data]
    rw [lsnAt, Buf.read_write_disjoint]
    · exact bounded.file other ordinary
    · right
      simp only at length
      rw [length]
      unfold defaultPageSize
      omega

end Bounded

namespace DefaultPager

variable {pager : DefaultPager} {wal : WAL} {id : PageID}

theorem flushLog_cases (logged : pager.walFlusher = some wal)
    (fails : Bool) (lsn : LSN) :
    (pager.flushLog fails lsn = (.error .backendSync, pager) ∧
      fails = true ∧ wal.durableLSN < lsn) ∨
    ∃ flushed : WAL,
      pager.flushLog fails lsn =
        (.ok (), { pager with walFlusher := some flushed }) ∧
      flushed.lastLSN = wal.lastLSN ∧
      (lsn ≤ wal.lastLSN → lsn ≤ flushed.durableLSN) ∧
      (fails = true → lsn ≤ wal.durableLSN) := by
  have same : { pager with walFlusher := some wal } = pager := by
    rw [← logged]
  simp only [flushLog, logged]
  by_cases positive : 0 < lsn
  · rw [if_pos positive]
    by_cases durable : lsn ≤ wal.durableLSN
    · right
      refine ⟨wal, ?_, rfl, fun _ => durable, fun _ => durable⟩
      simp only [WAL.tryFlush, if_pos durable]
    · cases fails with
      | true =>
          left
          simp only [WAL.tryFlush, if_neg durable, WAL.trySync, if_true, same]
          exact ⟨trivial, trivial, UInt64.not_le.mp durable⟩
      | false =>
          right
          refine ⟨wal.sync, ?_, rfl, fun given => given,
            fun failed => (nomatch failed)⟩
          simp only [WAL.tryFlush, if_neg durable, WAL.trySync,
            Bool.false_eq_true, if_false]
  · have zero : lsn ≤ wal.durableLSN := by
      rw [UInt64.not_lt] at positive
      exact UInt64.le_trans positive (UInt64.zero_le)
    right
    refine ⟨wal, ?_, rfl, fun _ => zero, fun _ => zero⟩
    rw [if_neg positive, same]

/-- The cache after the page was pinned and unpinned by `Flush`. -/
def touched (id : PageID) (pager : DefaultPager) : DefaultPager :=
  { pager with cache := (pager.cache.get id).2.unpin id }

section TryFlush

variable {syncFails writeFails : Bool}

theorem get_of_find {entry : Option CacheEntry}
    (found : pager.cache.find id = entry) :
    ∃ cache, pager.cache.get id = (entry.map CacheEntry.page, cache) := by
  have first := PageCache.get_fst pager.cache id
  rw [found] at first
  exact ⟨(pager.cache.get id).2, Prod.ext first rfl⟩

theorem tryFlush_missing (missing : pager.cache.find id = none) :
    pager.tryFlush syncFails writeFails id = (.ok (), pager) := by
  obtain ⟨cache, shape⟩ := get_of_find missing
  simp only [tryFlush, shape, Option.map_none]

theorem tryFlush_clean {entry : CacheEntry}
    (found : pager.cache.find id = some entry)
    (clean : (pager.heap entry.page).dirty = false) :
    pager.tryFlush syncFails writeFails id = (.ok (), pager.touched id) := by
  obtain ⟨cache, shape⟩ := get_of_find found
  simp only [tryFlush, touched, shape, Option.map_some, clean,
    Bool.false_eq_true, if_false]

theorem tryFlush_unsynced {entry : CacheEntry} {error : Error}
    {after : DefaultPager} (found : pager.cache.find id = some entry)
    (dirty : (pager.heap entry.page).dirty = true)
    (flushed : (pager.touched id).flushLog syncFails
      (pager.heap entry.page).header.lsn = (.error error, after)) :
    pager.tryFlush syncFails writeFails id = (.error error, after) := by
  obtain ⟨cache, shape⟩ := get_of_find found
  simp only [touched, shape] at flushed
  simp only [tryFlush, shape, Option.map_some, dirty, if_true, flushed]

theorem tryFlush_synced {entry : CacheEntry} {after : DefaultPager}
    (found : pager.cache.find id = some entry)
    (dirty : (pager.heap entry.page).dirty = true)
    (flushed : (pager.touched id).flushLog syncFails
      (pager.heap entry.page).header.lsn = (.ok (), after)) :
    pager.tryFlush syncFails writeFails id =
      after.writeBack writeFails id entry.page := by
  obtain ⟨cache, shape⟩ := get_of_find found
  simp only [touched, shape] at flushed
  simp only [tryFlush, shape, Option.map_some, dirty, if_true, flushed]

theorem writeBack_cases (ref : Nat) :
    (pager.writeBack writeFails id ref =
      (.error .backendWrite,
        pager.setObject ref (pager.heap ref).sealPage)) ∨
    ∃ backend,
      pager.backend.writeAt (pager.heap ref).sealPage.image
        (pageOffset id) = some backend ∧
      pager.writeBack writeFails id ref =
        (.ok (),
          { pager.setObject ref
              { (pager.heap ref).sealPage with dirty := false } with
            backend := backend }) := by
  cases writeFails with
  | true => exact .inl rfl
  | false =>
      cases written : pager.backend.writeAt (pager.heap ref).sealPage.image
          (pageOffset id) with
      | none =>
          left
          simp only [writeBack, written, Bool.false_eq_true, if_false]
      | some backend =>
          right
          refine ⟨backend, rfl, ?_⟩
          simp only [writeBack, written, Bool.false_eq_true, if_false]

end TryFlush

end DefaultPager

namespace Bounded

variable {limit : Nat} {pager : DefaultPager} {id : PageID}

theorem writeBack (bounded : Bounded limit pager) (fails : Bool)
    (ref : Nat) : Bounded limit (pager.writeBack fails id ref).2 := by
  have sealed := (bounded.object ref).sealPage
  rcases pager.writeBack_cases ref with unwritten | ⟨backend, written, shape⟩
  · rw [unwritten]
    exact bounded.setObject sealed ref
  · rw [shape]
    have stored := bounded.setObject
      (⟨sealed.header, sealed.field⟩ : PageBound limit
        { (pager.heap ref).sealPage with dirty := false }) ref
    exact stored.writePage sealed written

theorem tryFlush (bounded : Bounded limit pager) (syncFails writeFails : Bool)
    (id : PageID) :
    Bounded limit (pager.tryFlush syncFails writeFails id).2 := by
  obtain ⟨wal, logged, last⟩ := bounded.logged
  cases found : pager.cache.find id with
  | none =>
      rw [DefaultPager.tryFlush_missing found]
      exact bounded
  | some entry =>
      cases dirty : (pager.heap entry.page).dirty with
      | false =>
          rw [DefaultPager.tryFlush_clean found dirty]
          exact bounded.withCache _
      | true =>
          have sameLog : (pager.touched id).walFlusher = some wal := logged
          rcases DefaultPager.flushLog_cases sameLog syncFails
            (pager.heap entry.page).header.lsn with
            ⟨failed, _, _⟩ | ⟨flushed, done, same, _, _⟩
          · rw [DefaultPager.tryFlush_unsynced found dirty failed]
            exact bounded.withCache _
          · rw [DefaultPager.tryFlush_synced found dirty done]
            have relogged : Bounded limit
                { pager.touched id with walFlusher := some flushed } :=
              (bounded.withCache _).withLog (by rw [same, last])
            exact relogged.writeBack writeFails entry.page

end Bounded

end CocoDB
