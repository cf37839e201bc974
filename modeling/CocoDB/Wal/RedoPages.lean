import CocoDB.Storage.MetaSlots
import CocoDB.Wal.LogSpec
import CocoDB.Wal.Recover

/-!
# Recovery, page by page

After recovery every ordinary page holds the image of its last committed update,
or what it held before.
-/

namespace CocoDB.Recovery

open Lib DefaultPager

/-- A page image of a transaction with a commit record anywhere in the log. -/
def isCommittedUpdate (records : List WalRecord) (record : WalRecord) : Bool :=
  record.type = .pageUpdate && committed records record.txnID

def lastCommittedImage (records : List WalRecord) (id : PageID) :
    Option Bytes :=
  (records.reverse.find? fun record =>
    isCommittedUpdate records record && record.pageID = id).map
      WalRecord.pageData

/-- What recovery should leave at a page: the last committed image, or the old
bytes. -/
def RedoneAt (records : List WalRecord) (before after : Backend)
    (id : PageID) : Prop :=
  match lastCommittedImage records id with
  | some image => after.readAt (pageOffset id) defaultPageSize = some image
  | none =>
      after.contents.data.read (place id * defaultPageSize) defaultPageSize =
        before.contents.data.read (place id * defaultPageSize) defaultPageSize

theorem not_redoneAt {records : List WalRecord} {before after : Backend}
    {id : PageID} (none : lastCommittedImage records id = none)
    (changed :
      after.contents.data.read (place id * defaultPageSize) defaultPageSize ≠
        before.contents.data.read (place id * defaultPageSize)
          defaultPageSize) :
    ¬ RedoneAt records before after id := by
  unfold RedoneAt
  rw [none]
  exact changed

/-- Every committed update carries a sealed image of an ordinary page. -/
def SealedUpdates (records : List WalRecord) : Prop :=
  ∀ record, record ∈ records → isCommittedUpdate records record →
    2 ≤ record.pageID.toNat ∧ SealedImage record.pageID record.pageData

/-- Every committed update is of a page with a place of its own: the page offset
is computed without overflow. -/
def AddressableUpdates (records : List WalRecord) : Prop :=
  ∀ record, record ∈ records → isCommittedUpdate records record →
    record.pageID.toNat < 2 ^ 49

def EmptyCache (pager : DefaultPager) : Prop :=
  ∀ index, (pager.cache.shards index).entries = []

variable {start pager : DefaultPager} {records : List WalRecord}
  {again : List (PageID × Bytes)}

theorem EmptyCache.settled (empty : EmptyCache start) : Settled [] start := by
  have missing : ∀ id, start.cache.find id = none := by
    intro id
    unfold PageCache.find CacheShard.find
    rw [empty, List.find?_nil]
  refine ⟨?_, ?_, ?_⟩
  · intro index entry member
    rw [empty] at member
    cases member
  · intro id entry found
    rw [missing] at found
    cases found
  · intro id entry found
    rw [missing] at found
    cases found

theorem SealedUpdates.updatesOf_eq (sealed : SealedUpdates records) :
    updatesOf records = records.filter (isCommittedUpdate records) := by
  unfold updatesOf
  refine List.filter_congr fun record member => ?_
  unfold isRedo
  by_cases update : isCommittedUpdate records record = true
  · have length := (sealed record member update).2.length_eq
    unfold isCommittedUpdate at update ⊢
    rw [update, length]
    simp
  · have plain : isCommittedUpdate records record = false := by
      simpa using update
    rw [show (decide (record.type = .pageUpdate) &&
      committed records record.txnID) = false from plain, Bool.false_and,
      plain]

theorem SealedUpdates.redoable (sealed : SealedUpdates records)
    (addressable : AddressableUpdates records) :
    ∀ record, record ∈ updatesOf records → Redoable record := by
  intro record member
  rw [sealed.updatesOf_eq] at member
  obtain ⟨logged, update⟩ := List.mem_filter.mp member
  have small := addressable record logged update
  exact ⟨by rwa [place_eq small], (sealed record logged update).2⟩

theorem SealedUpdates.lastBytes_eq (sealed : SealedUpdates records)
    (id : PageID) :
    lastBytes (pagesOf (updatesOf records)) id =
      lastCommittedImage records id := by
  rw [sealed.updatesOf_eq]
  unfold lastBytes lastCommittedImage pagesOf
  rw [← List.map_reverse, List.find?_map, ← List.filter_reverse,
    List.find?_filter, Option.map_map]
  have same : (fun record : WalRecord =>
      decide (isCommittedUpdate records record = true ∧
        ((fun page : PageID × Bytes => decide (page.1 = id)) ∘
          fun record : WalRecord => (record.pageID, record.pageData)) record =
            true)) =
      fun record => isCommittedUpdate records record &&
        decide (record.pageID = id) := by
    funext record
    simp
  rw [same]
  rfl

theorem lastBytes_again {images : List (PageID × Bytes)}
    (last : ∀ page, page ∈ again → lastBytes images page.1 = some page.2)
    (id : PageID) :
    lastBytes (images ++ again) id = lastBytes images id := by
  induction again using List.reverseRecOn with
  | nil => rw [List.append_nil]
  | append_singleton again page inductionHypothesis =>
      rw [← List.append_assoc, lastBytes_append, inductionHypothesis
        fun other member => last other (List.mem_append_left _ member)]
      by_cases same : page.1 = id
      · rw [if_pos same, ← same, last page (by simp)]
      · rw [if_neg same]

theorem metaWrites_below (formed : start.info.WellFormed) {written : Write}
    (member : written ∈ metaWrites start records) :
    written.offset + written.bytes.length ≤ 2 * defaultPageSize := by
  unfold metaWrites at member
  have flushedFormed : (flushedInfo start.info
      (updatesOf records)).WellFormed :=
    ⟨formed.databaseID_length, formed.pageSize_eq⟩
  have recoveredFormed : (recoveredInfo start.info records).WellFormed :=
    ⟨formed.databaseID_length, formed.pageSize_eq⟩
  split at member
  · cases member
  · rcases List.mem_cons.mp member with rfl | member
    · rw [flushedFormed.encode_length]
      exact slot_end _
    · rw [List.mem_singleton.mp member, recoveredFormed.encode_length]
      exact slot_end _

theorem Recovered.read_place (formed : start.info.WellFormed)
    (sized : ∀ page, page ∈ pagesOf (updatesOf records) →
      page.2.length = defaultPageSize)
    (recovered : Recovered start records again pager) {number : Nat}
    (lower : 2 ≤ number) :
    pager.backend.contents.data.read (number * defaultPageSize)
        defaultPageSize =
      (lastBytes ((pagesOf (updatesOf records) ++ again).map fun page =>
        (place page.1, page.2)) number).getD
        (start.backend.contents.data.read (number * defaultPageSize)
          defaultPageSize) := by
  have metaApart : ∀ written, written ∈ metaWrites start records →
      ∀ position, number * defaultPageSize ≤ position →
        ¬ written.Covers position := by
    intro written member position from_page covers
    have below := metaWrites_below formed member
    have pageStart := Nat.mul_le_mul_right defaultPageSize lower
    unfold Write.Covers at covers
    omega
  have numbers : (pagesOf (updatesOf records) ++ again).map imageWrite =
      ((pagesOf (updatesOf records) ++ again).map fun page =>
        (place page.1, page.2)).map (pageWrite defaultPageSize) := by
    rw [List.map_map]
    rfl
  have allSized : ∀ page, page ∈
      ((pagesOf (updatesOf records) ++ again).map fun page =>
        (place page.1, page.2)) → page.2.length = defaultPageSize := by
    intro page member
    obtain ⟨original, originalMember, rfl⟩ := List.mem_map.mp member
    rcases List.mem_append.mp originalMember with old | new
    · exact sized original old
    · exact sized original (lastBytes_mem (recovered.last original new))
  rw [recovered.contents_eq, Contents.writes_append,
    Buf.read_congr fun position inside _ =>
      Contents.writes_data_outside
        (fun written member => metaApart written member position inside) _,
    numbers, Contents.writes_pages allSized]

theorem Recovered.read_page (formed : start.info.WellFormed)
    (small : ∀ page, page ∈ pagesOf (updatesOf records) →
      page.1.toNat < 2 ^ 49 ∧ page.2.length = defaultPageSize)
    (recovered : Recovered start records again pager) {id : PageID}
    (lower : 2 ≤ id.toNat) (upper : id.toNat < 2 ^ 49) :
    pager.backend.contents.data.read (id.toNat * defaultPageSize)
        defaultPageSize =
      (lastBytes (pagesOf (updatesOf records)) id).getD
        (start.backend.contents.data.read (id.toNat * defaultPageSize)
          defaultPageSize) := by
  have apart : ∀ page, page ∈ pagesOf (updatesOf records) ++ again →
      place page.1 = place id → page.1 = id := by
    intro page member same
    have pageSmall : page.1.toNat < 2 ^ 49 := by
      rcases List.mem_append.mp member with old | new
      · exact (small page old).1
      · exact (small page (lastBytes_mem (recovered.last page new))).1
    rw [place_eq pageSmall, place_eq upper] at same
    exact UInt64.toNat_inj.mp same
  have named := lastBytes_map apart
  rw [place_eq upper, lastBytes_again recovered.last] at named
  rw [recovered.read_place formed (fun page member => (small page member).2)
    lower, named]

theorem le_nextAfter {updates : List WalRecord}
    (small : ∀ record, record ∈ updates → record.pageID.toNat < 2 ^ 49)
    (next : PageID) :
    next.toNat ≤ (nextAfter next updates).toNat ∧
      ∀ record, record ∈ updates →
        record.pageID.toNat + 1 ≤ (nextAfter next updates).toNat := by
  induction updates using List.reverseRecOn with
  | nil => exact ⟨Nat.le_refl _, fun _ member => (nomatch member)⟩
  | append_singleton updates last inductionHypothesis =>
      obtain ⟨start_le, others⟩ := inductionHypothesis fun record member =>
        small record (List.mem_append_left _ member)
      have lastSmall := small last (by simp)
      have grown : (last.pageID + 1).toNat = last.pageID.toNat + 1 := by
        rw [UInt64.toNat_add, UInt64.toNat_one, Nat.mod_eq_of_lt (by omega)]
      have larger : (nextAfter next updates).toNat ≤
            (nextAfter next (updates ++ [last])).toNat ∧
          last.pageID.toNat + 1 ≤
            (nextAfter next (updates ++ [last])).toNat := by
        rw [nextAfter_append]
        split
        next above =>
          rw [ge_iff_le, UInt64.le_iff_toNat_le] at above
          omega
        next below =>
          rw [ge_iff_le, UInt64.le_iff_toNat_le] at below
          omega
      refine ⟨start_le.trans larger.1, ?_⟩
      intro record member
      rcases List.mem_append.mp member with old | new
      · exact (others record old).trans larger.1
      · rw [List.mem_singleton.mp new]
        exact larger.2

theorem recover_nothing {wal : WAL} (order : List PageID → List PageID)
    (none : wal.readAll = []) (pager : DefaultPager) :
    recover order wal pager = (.ok {}, wal, pager) := by
  unfold recover
  rw [none]
  rfl

/-- Recovery leaves every ordinary page with its last committed image or as it
was, moves `NextPageID` past every redone page and empties the log. -/
theorem recover_redoneAt (order : List PageID → List PageID) {wal : WAL}
    (empty : EmptyCache start) (formed : start.info.WellFormed)
    (sealed : SealedUpdates wal.readAll)
    (addressable : AddressableUpdates wal.readAll) :
    ∃ result recovered pager,
      recover order wal start = (.ok result, recovered, pager) ∧
      (∀ id : PageID, 2 ≤ id.toNat → id.toNat < 2 ^ 49 →
        RedoneAt wal.readAll start.backend pager.backend id) ∧
      (∀ record, record ∈ wal.readAll →
        isCommittedUpdate wal.readAll record →
        record.pageID.toNat + 1 ≤ pager.info.nextPageID.toNat) ∧
      recovered.readAll = [] ∧
      (wal.readAll ≠ [] → recovered.backend.contents.size = 0) := by
  by_cases none : wal.readAll = []
  · refine ⟨{}, wal, start, recover_nothing order none start, ?_, ?_, none,
      fun some => absurd none some⟩
    · intro id _ _
      rw [none]
      exact rfl
    · rw [none]
      exact fun _ member => (nomatch member)
  · obtain ⟨again, pager, shape, recovered⟩ :=
      recover_spec order empty.settled none (sealed.redoable addressable)
    refine ⟨_, _, pager, shape, ?_, ?_, wal.readAll_truncate, fun _ => rfl⟩
    · intro id lower upper
      have small : ∀ page, page ∈ pagesOf (updatesOf wal.readAll) →
          page.1.toNat < 2 ^ 49 ∧ page.2.length = defaultPageSize := by
        rw [sealed.updatesOf_eq]
        intro page member
        obtain ⟨record, recordMember, rfl⟩ := List.mem_map.mp member
        obtain ⟨logged, update⟩ := List.mem_filter.mp recordMember
        exact ⟨addressable record logged update,
          (sealed record logged update).2.length_eq⟩
      have bytes := recovered.read_page formed small lower upper
      rw [sealed.lastBytes_eq] at bytes
      unfold RedoneAt
      cases last : lastCommittedImage wal.readAll id with
      | none =>
          rw [last, Option.getD_none] at bytes
          rw [place_eq upper]
          exact bytes
      | some image =>
          rw [last, Option.getD_some] at bytes
          have written : imageWrite (id, image) ∈
              (pagesOf (updatesOf wal.readAll) ++ again).map imageWrite ++
                metaWrites start wal.readAll := by
            refine List.mem_append_left _ (List.mem_map_of_mem
              (List.mem_append_left _ (lastBytes_mem ?_)))
            rw [sealed.lastBytes_eq, last]
          have grown := start.backend.contents.covered_lt_size written
          have member : (id, image) ∈ pagesOf (updatesOf wal.readAll) :=
            lastBytes_mem (by rw [sealed.lastBytes_eq, last])
          have end_eq : (imageWrite (id, image)).offset +
              (imageWrite (id, image)).bytes.length =
              id.toNat * defaultPageSize + defaultPageSize := by
            show place id * defaultPageSize + image.length = _
            rw [place_eq upper, (small _ member).2]
          rw [← recovered.contents_eq, end_eq] at grown
          show pager.backend.readAt (pageOffset id) defaultPageSize = some image
          rw [pageOffset_eq upper]
          unfold Backend.readAt
          simp only
          rw [if_pos grown, bytes]
    · intro record member update
      rw [recovered.nextPageID_eq]
      refine (le_nextAfter ?_ start.info.nextPageID).2 record ?_
      · rw [sealed.updatesOf_eq]
        intro other otherMember
        obtain ⟨logged, otherUpdate⟩ := List.mem_filter.mp otherMember
        exact addressable other logged otherUpdate
      · rw [sealed.updatesOf_eq]
        exact List.mem_filter.mpr ⟨member, update⟩

/-! ## A log with one transaction -/

def sampleImage (id : PageID) : Bytes :=
  (Page.newPage id .pageRecord).sealPage.image

theorem sampleImage_sealed (id : PageID) : SealedImage id (sampleImage id) :=
  ⟨Page.newPage id .pageRecord, rfl, rfl⟩

def sampleRecords (id : PageID) : List WalRecord :=
  [{ WalRecord.newPageUpdate 1 id (sampleImage id) with lsn := 1 }.stamped,
    { WalRecord.newTxnCommit 1 with lsn := 2 }.stamped]

def sampleLog (id : PageID) : WAL :=
  let opened := WAL.openWAL (.ofContents .empty) 0
  let updated := (opened.append
    (WalRecord.newPageUpdate 1 id (sampleImage id))).2
  (updated.append (WalRecord.newTxnCommit 1)).2

theorem sampleLog_readAll (id : PageID) :
    (sampleLog id).readAll = sampleRecords id := by
  have short : (WalRecord.newPageUpdate 1 id
      (sampleImage id)).payload.length < 2 ^ 32 := by
    rw [WalRecord.newPageUpdate, List.length_append, be_length,
      (sampleImage_sealed id).length_eq]
    decide
  have empty : (WalRecord.newTxnCommit 1).payload.length < 2 ^ 32 :=
    Nat.two_pow_pos 32
  have read := (((WAL.holds_openWAL 0).append short).append empty).readAll_eq
  rw [WalRecord.received_newPageUpdate, WalRecord.received_newTxnCommit] at read
  exact read

def samplePager : DefaultPager :=
  fresh (.ofContents .empty) (MetaPage.newInitial (List.replicate 16 0)) slotA
    0 false

theorem samplePager_empty : EmptyCache samplePager := fun _ => rfl

theorem samplePager_formed : samplePager.info.WellFormed :=
  MetaPage.newInitial_wellFormed rfl

theorem sampleRecords_update {id : PageID} {record : WalRecord}
    (member : record ∈ sampleRecords id)
    (update : isCommittedUpdate (sampleRecords id) record) :
    record.pageID = id ∧ record.pageData = sampleImage id := by
  rcases List.mem_cons.mp member with rfl | member
  · exact ⟨rfl, rfl⟩
  · rw [List.mem_singleton.mp member] at update
    cases update

theorem sampleRecords_sealed {id : PageID} (lower : 2 ≤ id.toNat) :
    SealedUpdates (sampleRecords id) := by
  intro record member update
  obtain ⟨sameID, sameData⟩ := sampleRecords_update member update
  rw [sameID, sameData]
  exact ⟨lower, sampleImage_sealed id⟩

theorem sampleLog_sealed {id : PageID} (lower : 2 ≤ id.toNat) :
    SealedUpdates (sampleLog id).readAll := by
  rw [sampleLog_readAll]
  exact sampleRecords_sealed lower

theorem sampleRecords_addressable {id : PageID} (upper : id.toNat < 2 ^ 49) :
    AddressableUpdates (sampleRecords id) := by
  intro record member update
  rw [(sampleRecords_update member update).1]
  exact upper

theorem recover_redoneAt_sample :
    ∃ result recovered pager,
      recover id (sampleLog 2) samplePager = (.ok result, recovered, pager) ∧
      (∀ id : PageID, 2 ≤ id.toNat → id.toNat < 2 ^ 49 →
        RedoneAt (sampleLog 2).readAll samplePager.backend pager.backend
          id) ∧
      (∀ record, record ∈ (sampleLog 2).readAll →
        isCommittedUpdate (sampleLog 2).readAll record →
        record.pageID.toNat + 1 ≤ pager.info.nextPageID.toNat) ∧
      recovered.readAll = [] ∧
      ((sampleLog 2).readAll ≠ [] →
        recovered.backend.contents.size = 0) := by
  refine recover_redoneAt id samplePager_empty samplePager_formed ?_ ?_
  · exact sampleLog_sealed (by decide)
  · rw [sampleLog_readAll]
    exact sampleRecords_addressable (by decide)

theorem sample_recovered (order : List PageID → List PageID) {id : PageID}
    (lower : 2 ≤ id.toNat)
    (addressable : place id < 2 ^ 49) :
    ∃ again, Recovered samplePager (sampleRecords id) again
      (recover order (sampleLog id) samplePager).2.2 := by
  have sealed := sampleRecords_sealed lower
  have nonempty : (sampleLog id).readAll ≠ [] := by
    rw [sampleLog_readAll]
    exact List.cons_ne_nil _ _
  have redoable : ∀ record, record ∈ updatesOf (sampleLog id).readAll →
      Redoable record := by
    rw [sampleLog_readAll, sealed.updatesOf_eq]
    intro record member
    obtain ⟨logged, update⟩ := List.mem_filter.mp member
    have sameID := (sampleRecords_update logged update).1
    exact ⟨by rwa [sameID], (sealed record logged update).2⟩
  obtain ⟨again, pager, shape, recovered⟩ :=
    recover_spec order samplePager_empty.settled nonempty redoable
  rw [sampleLog_readAll] at recovered
  exact ⟨again, by rwa [shape]⟩

theorem sampleRecords_pages {id : PageID} (lower : 2 ≤ id.toNat) :
    pagesOf (updatesOf (sampleRecords id)) = [(id, sampleImage id)] := by
  rw [(sampleRecords_sealed lower).updatesOf_eq]
  rfl

theorem sampleRecords_none {id other : PageID} (different : id ≠ other) :
    lastCommittedImage (sampleRecords id) other = none := by
  simp [lastCommittedImage, sampleRecords, isCommittedUpdate, different,
    WalRecord.newPageUpdate, WalRecord.newTxnCommit, WalRecord.marker,
    WalRecord.stamped]

theorem recovered_metaB {id : PageID}
    (recovered : Recovered samplePager (sampleRecords id) again pager) :
    pager.backend.contents.data defaultPageSize = 0x43 := by
  have writes : metaWrites samplePager (sampleRecords id) =
      [⟨1 * defaultPageSize, (flushedInfo samplePager.info
          (updatesOf (sampleRecords id))).encode⟩,
        ⟨0 * defaultPageSize,
          (recoveredInfo samplePager.info (sampleRecords id)).encode⟩] := rfl
  have formed : (recoveredInfo samplePager.info
      (sampleRecords id)).WellFormed := ⟨rfl, rfl⟩
  rw [recovered.contents_eq, Contents.writes_append, writes,
    Contents.writes_cons, Contents.writes_cons, Contents.writes_nil,
    Contents.write_data_outside]
  · show Buf.write _ (1 * defaultPageSize) _ (1 * defaultPageSize + 0) = _
    rw [Buf.write_apply_inside]
    · rfl
    · rw [MetaPage.WellFormed.encode_length ⟨rfl, rfl⟩]
      decide
  · rintro ⟨_, below⟩
    have length := formed.encode_length
    simp only [length] at below
    omega

theorem recovered_alias {id : PageID} (lower : 2 ≤ id.toNat)
    (recovered : Recovered samplePager (sampleRecords id) again pager)
    (placed : 2 ≤ place id) :
    pager.backend.contents.data.read (place id * defaultPageSize)
      defaultPageSize = sampleImage id := by
  have pages := sampleRecords_pages lower
  have only : ∀ page, page ∈ pagesOf (updatesOf (sampleRecords id)) ++ again →
      page = (id, sampleImage id) := by
    rw [pages]
    intro page member
    rcases List.mem_append.mp member with old | new
    · exact List.mem_singleton.mp old
    · have last := lastBytes_mem (recovered.last page new)
      rw [pages] at last
      exact List.mem_singleton.mp last
  have sized : ∀ page, page ∈ pagesOf (updatesOf (sampleRecords id)) →
      page.2.length = defaultPageSize := by
    intro page member
    rw [only page (List.mem_append_left _ member)]
    exact (sampleImage_sealed id).length_eq
  rw [recovered.read_place samplePager_formed sized placed]
  have member : (place id, sampleImage id) ∈
      (pagesOf (updatesOf (sampleRecords id)) ++ again).map fun page =>
        (place page.1, page.2) := by
    rw [pages]
    exact List.mem_cons_self
  obtain ⟨bytes, last⟩ :=
    Option.isSome_iff_exists.mp (lastBytes_isSome member)
  obtain ⟨page, pageMember, same⟩ := List.mem_map.mp (lastBytes_mem last)
  rw [only page pageMember] at same
  rw [last, Option.getD_some]
  exact (congrArg Prod.snd same).symm

theorem sampleImage_ne_zero {id : PageID} (nonzero : id ≠ 0) (offset : Nat) :
    sampleImage id ≠ Buf.zero.read offset defaultPageSize := by
  intro same
  have field : (sampleImage id).take 8 = be 8 id.toNat := by
    unfold sampleImage Page.image
    rw [Buf.read_take, Nat.min_eq_left (by decide),
      Page.sealPage_header _ (by omega)]
    simp [PageHeader.encode, Page.newPage]
  have blank : (Buf.zero.read offset defaultPageSize).take 8 = be 8 0 := by
    rw [Buf.read_take, Nat.min_eq_left (by decide)]
    unfold Buf.read
    rfl
  rw [same, blank] at field
  have number := congrArg ofBE field
  rw [ofBE_be, ofBE_be, toNat_mod64] at number
  exact nonzero (UInt64.toNat_inj.mp number.symm)

theorem meta_not_redoneAt (order : List PageID → List PageID) :
    ¬ RedoneAt (sampleLog 2).readAll samplePager.backend
      (recover order (sampleLog 2) samplePager).2.2.backend 1 := by
  obtain ⟨again, recovered⟩ :=
    sample_recovered order (by decide : 2 ≤ (2 : PageID).toNat) (by decide)
  rw [sampleLog_readAll]
  refine not_redoneAt (sampleRecords_none (by decide)) fun same => ?_
  have first := congrArg (fun bytes => bytes[0]?) same
  simp only [Buf.read_getElem?] at first
  have byte := recovered_metaB recovered
  rw [if_pos (by decide), if_pos (by decide), Nat.add_zero,
    show place 1 * defaultPageSize = defaultPageSize from rfl, byte] at first
  exact absurd (Option.some.inj first) (by decide)

theorem alias_not_redoneAt (order : List PageID → List PageID) {id : PageID}
    (lower : 2 ≤ id.toNat) (different : id ≠ 2) (placed : place id = 2) :
    ¬ RedoneAt (sampleLog id).readAll samplePager.backend
      (recover order (sampleLog id) samplePager).2.2.backend 2 := by
  obtain ⟨again, recovered⟩ :=
    sample_recovered order lower (by rw [placed]; decide)
  rw [sampleLog_readAll]
  refine not_redoneAt (sampleRecords_none different) fun same => ?_
  have image := recovered_alias lower recovered (by rw [placed])
  rw [placed] at image
  rw [show place 2 = 2 from rfl, image] at same
  refine sampleImage_ne_zero ?_ _ same
  rintro rfl
  exact absurd lower (by decide)

/-- Recovery rewrites the meta pages, which no update names, and a page
identifier that is too large for its offset lands on another page. -/
theorem recover_not_redoneAt :
    (EmptyCache samplePager ∧ samplePager.info.WellFormed ∧
      SealedUpdates (sampleLog 2).readAll ∧
      ¬ RedoneAt (sampleLog 2).readAll samplePager.backend
        (recover id (sampleLog 2) samplePager).2.2.backend 1) ∧
    (SealedUpdates (sampleLog (2 ^ 50 + 2)).readAll ∧
      ¬ RedoneAt (sampleLog (2 ^ 50 + 2)).readAll samplePager.backend
        (recover id (sampleLog (2 ^ 50 + 2))
          samplePager).2.2.backend 2) := by
  have metaSealed : SealedUpdates (sampleLog 2).readAll :=
    sampleLog_sealed (by decide)
  have aliasSealed : SealedUpdates (sampleLog (2 ^ 50 + 2)).readAll :=
    sampleLog_sealed (by decide)
  have large : (2 : Nat) ≤ (2 ^ 50 + 2 : PageID).toNat := by decide
  have different : (2 ^ 50 + 2 : PageID) ≠ 2 := by decide
  have placed : place (2 ^ 50 + 2) = 2 := by decide
  exact ⟨⟨samplePager_empty, samplePager_formed, metaSealed,
    meta_not_redoneAt id⟩, aliasSealed,
    alias_not_redoneAt id large different placed⟩

end CocoDB.Recovery
