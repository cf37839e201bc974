import CocoDB.Storage.Page

/-!
# Meta pages

The meta page of `internal/storage/page.go`, kept twice in pages 0 and 1.  The
magic text, the format version and the checksum are the same for every meta page
the code accepts or writes, so they are part of the encoding only.
-/

namespace CocoDB

open Lib

abbrev RecordID := UInt64

/-- `COCODB01` -/
def magicHeader : Bytes := [0x43, 0x4F, 0x43, 0x4F, 0x44, 0x42, 0x30, 0x31]

def formatVersion : Nat := 1

def metaHeaderSize : Nat := 116

/-- The state of the database that is not kept in ordinary pages. -/
structure MetaPage where
  pageSize : UInt32
  generation : UInt64
  databaseID : Bytes
  catalogRoot : PageID
  recordDirRoot : PageID
  freeListRoot : PageID
  nextPageID : PageID
  nextRecordID : RecordID
  lastTxnID : TxnID
  lastLSN : LSN
  lastCheckpointLSN : LSN
  flags : UInt64
  deriving DecidableEq

namespace MetaPage

def newInitial (databaseID : Bytes) : MetaPage where
  pageSize := 16384
  generation := 1
  databaseID := databaseID
  catalogRoot := invalidPageID
  recordDirRoot := invalidPageID
  freeListRoot := invalidPageID
  nextPageID := 2
  nextRecordID := 1
  lastTxnID := 0
  lastLSN := 0
  lastCheckpointLSN := 0
  flags := 0

def encodeFields (page : MetaPage) : Bytes :=
  magicHeader ++ be 4 formatVersion ++ be 4 page.pageSize.toNat ++
    be 8 page.generation.toNat ++ page.databaseID ++
    be 8 page.catalogRoot.toNat ++ be 8 page.recordDirRoot.toNat ++
    be 8 page.freeListRoot.toNat ++ be 8 page.nextPageID.toNat ++
    be 8 page.nextRecordID.toNat ++ be 8 page.lastTxnID.toNat ++
    be 8 page.lastLSN.toNat ++ be 8 page.lastCheckpointLSN.toNat ++
    be 8 page.flags.toNat

def padding : Bytes :=
  List.replicate (defaultPageSize - metaHeaderSize) 0

def encode (page : MetaPage) : Bytes :=
  let crc := checksum (page.encodeFields ++ be 4 0 ++ padding)
  page.encodeFields ++ be 4 crc.toNat ++ padding

def field (buf : Bytes) (offset width : Nat) : Nat :=
  ofBE ((buf.drop offset).take width)

def decode (buf : Bytes) : Except Error MetaPage :=
  if buf.length < metaHeaderSize then .error .invalidFormat
  else if buf.take 8 ≠ magicHeader then .error .invalidFormat
  else if field buf 8 4 ≠ formatVersion then .error .invalidFormat
  else
    let pageSize := UInt32.ofNat (field buf 12 4)
    if pageSize = 0 ∨ pageSize &&& (pageSize - 1) ≠ 0 then
      .error .invalidFormat
    else if UInt32.ofNat (field buf 112 4) ≠
        checksum (buf.take 112 ++ be 4 0 ++ buf.drop 116) then
      .error .checksumFailed
    else
      .ok
        { pageSize := pageSize
          generation := UInt64.ofNat (field buf 16 8)
          databaseID := (buf.drop 24).take 16
          catalogRoot := UInt64.ofNat (field buf 40 8)
          recordDirRoot := UInt64.ofNat (field buf 48 8)
          freeListRoot := UInt64.ofNat (field buf 56 8)
          nextPageID := UInt64.ofNat (field buf 64 8)
          nextRecordID := UInt64.ofNat (field buf 72 8)
          lastTxnID := UInt64.ofNat (field buf 80 8)
          lastLSN := UInt64.ofNat (field buf 88 8)
          lastCheckpointLSN := UInt64.ofNat (field buf 96 8)
          flags := UInt64.ofNat (field buf 104 8) }

structure WellFormed (page : MetaPage) : Prop where
  databaseID_length : page.databaseID.length = 16
  pageSize_eq : page.pageSize = 16384

theorem newInitial_wellFormed {databaseID : Bytes}
    (sized : databaseID.length = 16) :
    (newInitial databaseID).WellFormed :=
  ⟨sized, rfl⟩

variable {page : MetaPage}

theorem encodeFields_length (sized : page.databaseID.length = 16) :
    page.encodeFields.length = 112 := by
  simp [encodeFields, magicHeader, sized]

theorem encode_length (sized : page.databaseID.length = 16) :
    page.encode.length = defaultPageSize := by
  simp only [encode, List.length_append, encodeFields_length sized,
    be_length, padding, List.length_replicate]
  rfl

theorem WellFormed.encode_length (formed : page.WellFormed) :
    page.encode.length = defaultPageSize :=
  MetaPage.encode_length formed.databaseID_length

private theorem encode_fields (sized : page.databaseID.length = 16) :
    let buf := page.encode
    buf.take 8 = magicHeader ∧
    (buf.drop 8).take 4 = be 4 formatVersion ∧
    (buf.drop 12).take 4 = be 4 page.pageSize.toNat ∧
    (buf.drop 16).take 8 = be 8 page.generation.toNat ∧
    (buf.drop 24).take 16 = page.databaseID ∧
    (buf.drop 40).take 8 = be 8 page.catalogRoot.toNat ∧
    (buf.drop 48).take 8 = be 8 page.recordDirRoot.toNat ∧
    (buf.drop 56).take 8 = be 8 page.freeListRoot.toNat ∧
    (buf.drop 64).take 8 = be 8 page.nextPageID.toNat ∧
    (buf.drop 72).take 8 = be 8 page.nextRecordID.toNat ∧
    (buf.drop 80).take 8 = be 8 page.lastTxnID.toNat ∧
    (buf.drop 88).take 8 = be 8 page.lastLSN.toNat ∧
    (buf.drop 96).take 8 = be 8 page.lastCheckpointLSN.toNat ∧
    (buf.drop 104).take 8 = be 8 page.flags.toNat := by
  have dropped : ∀ skipped, 16 ≤ skipped →
      page.databaseID.drop skipped = [] :=
    fun skipped past => List.drop_eq_nil_of_le (by omega)
  refine ⟨?_, ?_, ?_, ?_, ?_, ?_, ?_, ?_, ?_, ?_, ?_, ?_, ?_, ?_⟩ <;>
    simp [encode, encodeFields, magicHeader, List.drop_append, sized,
      be_drop, dropped]

theorem WellFormed.decode_encode (formed : page.WellFormed) :
    decode page.encode = .ok page := by
  have length := encodeFields_length formed.databaseID_length
  have crcField : (page.encode.drop 112).take 4 =
      be 4 (checksum (page.encodeFields ++ be 4 0 ++ padding)).toNat := by
    simp only [encode]
    rw [List.append_assoc, List.drop_left' length]
    exact List.take_left' (be_length 4 _)
  have front : page.encode.take 112 = page.encodeFields := by
    simp only [encode]
    rw [List.append_assoc, List.take_left' length]
  have back : page.encode.drop 116 = padding := by
    simp only [encode]
    exact List.drop_left' (by rw [List.length_append, length, be_length])
  obtain ⟨magic, version, size, generation, database, catalog, directory,
    freeList, nextPage, nextRecord, lastTxn, lastLSN, checkpoint, flags⟩ :=
    encode_fields formed.databaseID_length
  unfold decode field
  rw [formed.encode_length, magic, version, size, generation, database,
    catalog, directory, freeList, nextPage, nextRecord, lastTxn, lastLSN,
    checkpoint, flags, crcField, front, back]
  simp only [ofBE_be64, ofBE_be32]
  rw [if_neg (by decide), if_neg (by simp), if_neg (by decide),
    if_neg (by rw [formed.pageSize_eq]; decide), if_neg (by simp)]

theorem decode_encode_unsized (sized : page.databaseID.length = 16)
    (unsized : page.pageSize = 0) :
    decode page.encode = .error .invalidFormat := by
  obtain ⟨magic, version, size, _⟩ := encode_fields sized
  unfold decode field
  rw [encode_length sized, magic, version, size, unsized]
  rw [if_neg (by decide), if_neg (by simp), if_neg (by decide),
    if_pos (by decide)]

end MetaPage

end CocoDB
