import CocoDB.Storage.Backend

/-!
# The write-ahead log

`internal/wal/record.go` and `wal.go`: records with a 31-byte header, appended to
a file of their own.  Reading stops silently at the first record that is cut
short or fails its checks.
-/

namespace CocoDB

open Lib

def walMagic : Nat := 0x434F434F

def walVersion : Nat := 1

def walRecordHeaderSize : Nat := 31

/-- The record kinds, with the bytes no constant names. -/
inductive RecordType where
  | txnBegin
  | pageUpdate
  | pageAlloc
  | pageFree
  | txnCommit
  | txnAbort
  | checkpoint
  | unknown (code : UInt8) (unnamed : code ∉ [1, 2, 3, 4, 5, 6, 7])
  deriving DecidableEq, Repr

namespace RecordType

def toByte : RecordType → UInt8
  | .txnBegin => 1
  | .pageUpdate => 2
  | .pageAlloc => 3
  | .pageFree => 4
  | .txnCommit => 5
  | .txnAbort => 6
  | .checkpoint => 7
  | .unknown code _ => code

def ofByte (code : UInt8) : RecordType :=
  if unnamed : code ∉ [1, 2, 3, 4, 5, 6, 7] then .unknown code unnamed
  else if code = 1 then .txnBegin
  else if code = 2 then .pageUpdate
  else if code = 3 then .pageAlloc
  else if code = 4 then .pageFree
  else if code = 5 then .txnCommit
  else if code = 6 then .txnAbort
  else .checkpoint

theorem ofByte_toByte (type : RecordType) : ofByte type.toByte = type := by
  cases type with
  | unknown code unnamed => exact dif_pos unnamed
  | _ => rfl

end RecordType

/-- A log record: the header, the payload, and the page fields that are
unpacked from the payload.  `magic`, `version`, `length` and `crc` are set when
the record is encoded. -/
structure WalRecord where
  type : RecordType
  lsn : LSN
  txnID : TxnID
  payload : Bytes
  magic : UInt32 := 0
  version : UInt16 := 0
  length : UInt32 := 0
  crc : UInt32 := 0
  pageID : PageID := 0
  pageType : PageType := .pageMeta
  pageData : Bytes := []

namespace WalRecord

/-- The record with the header fields `Encode` fills in. -/
def stamped (record : WalRecord) : WalRecord :=
  { record with
    magic := UInt32.ofNat walMagic
    version := UInt16.ofNat walVersion
    length := UInt32.ofNat record.payload.length
    crc := checksum record.payload }

def encode (record : WalRecord) : Bytes :=
  be 4 walMagic ++ be 2 walVersion ++ [record.type.toByte] ++
    be 4 record.payload.length ++ be 8 record.lsn.toNat ++
    be 8 record.txnID.toNat ++ be 4 (checksum record.payload).toNat ++
    record.payload

def unpack (type : RecordType) (lsn : LSN) (txnID : TxnID)
    (payload : Bytes) : WalRecord :=
  let plain : WalRecord :=
    { type := type, lsn := lsn, txnID := txnID, payload := payload }
  match type with
  | .pageUpdate =>
      if 8 ≤ payload.length then
        { plain with
          pageID := UInt64.ofNat (ofBE (payload.take 8))
          pageData := payload.drop 8 }
      else plain
  | .pageAlloc =>
      if 9 ≤ payload.length then
        { plain with
          pageID := UInt64.ofNat (ofBE (payload.take 8))
          pageType := PageType.ofByte ((payload[8]?).getD 0) }
      else plain
  | .pageFree =>
      if 8 ≤ payload.length then
        { plain with pageID := UInt64.ofNat (ofBE (payload.take 8)) }
      else plain
  | _ => plain

def decode (bytes : Bytes) : Option (WalRecord × Bytes) :=
  if bytes.length < walRecordHeaderSize then none
  else if ofBE (bytes.take 4) ≠ walMagic then none
  else
    let type := RecordType.ofByte ((bytes[6]?).getD 0)
    let length := ofBE ((bytes.drop 7).take 4)
    let lsn := UInt64.ofNat (ofBE ((bytes.drop 11).take 8))
    let txnID := UInt64.ofNat (ofBE ((bytes.drop 19).take 8))
    let crc := UInt32.ofNat (ofBE ((bytes.drop 27).take 4))
    let rest := bytes.drop walRecordHeaderSize
    if rest.length < length then none
    else if crc ≠ checksum (rest.take length) then none
    else some
      ({ unpack type lsn txnID (rest.take length) with
          magic := UInt32.ofNat (ofBE (bytes.take 4))
          version := UInt16.ofNat (ofBE ((bytes.drop 4).take 2))
          length := UInt32.ofNat length
          crc := crc },
        rest.drop length)

/-- What a reader gets back of a written record: the header as it was encoded
and the page fields of the payload. -/
def received (record : WalRecord) : WalRecord :=
  let read := unpack record.type record.lsn record.txnID record.payload
  { record.stamped with
    pageID := read.pageID
    pageType := read.pageType
    pageData := read.pageData }

def newPageUpdate (txnID : TxnID) (pageID : PageID) (pageData : Bytes) :
    WalRecord where
  type := .pageUpdate
  lsn := 0
  txnID := txnID
  payload := be 8 pageID.toNat ++ pageData
  pageID := pageID
  pageData := pageData

def marker (type : RecordType) (txnID : TxnID) : WalRecord where
  type := type
  lsn := 0
  txnID := txnID
  payload := []

def newTxnCommit (txnID : TxnID) : WalRecord := marker .txnCommit txnID

def newTxnAbort (txnID : TxnID) : WalRecord := marker .txnAbort txnID

end WalRecord

/-- All records up to the first unreadable one; every record takes at least its
header, so the length of the bytes bounds the number of rounds. -/
def readRecords : Nat → Bytes → List WalRecord
  | 0, _ => []
  | fuel + 1, bytes =>
      match WalRecord.decode bytes with
      | none => []
      | some (record, rest) => record :: readRecords fuel rest

structure WAL where
  backend : Backend
  lastLSN : LSN
  durableLSN : LSN
  offset : Nat

namespace WAL

def openWAL (backend : Backend) (lastLSN : LSN) : WAL where
  backend := backend
  lastLSN := lastLSN
  durableLSN := lastLSN
  offset := backend.contents.size

def append (record : WalRecord) (wal : WAL) : LSN × WAL :=
  let lsn := wal.lastLSN + 1
  let data := { record with lsn := lsn }.encode
  let written : Write := ⟨wal.offset, data⟩
  (lsn,
    { wal with
      lastLSN := lsn
      offset := wal.offset + data.length
      backend :=
        { wal.backend with
          contents := wal.backend.contents.write written
          trace := wal.backend.trace ++ [written] } })

/-- `Append` on a file that may fail: the sequence number is used up all the
same. -/
def tryAppend (fails : Bool) (record : WalRecord) (wal : WAL) :
    Except Error LSN × WAL :=
  if fails then
    (.error .backendWrite, { wal with lastLSN := wal.lastLSN + 1 })
  else
    let (lsn, after) := wal.append record
    (.ok lsn, after)

def flush (targetLSN : LSN) (wal : WAL) : WAL :=
  if targetLSN ≤ wal.durableLSN then wal
  else { wal with backend := wal.backend.sync, durableLSN := wal.lastLSN }

def sync (wal : WAL) : WAL :=
  { wal with backend := wal.backend.sync, durableLSN := wal.lastLSN }

/-- `Sync` on a file that may fail. -/
def trySync (fails : Bool) (wal : WAL) : Except Error Unit × WAL :=
  if fails then (.error .backendSync, wal) else (.ok (), wal.sync)

/-- `Flush` on a file that may fail. -/
def tryFlush (fails : Bool) (targetLSN : LSN) (wal : WAL) :
    Except Error Unit × WAL :=
  if targetLSN ≤ wal.durableLSN then (.ok (), wal)
  else wal.trySync fails

def truncate (wal : WAL) : WAL :=
  { wal with backend := wal.backend.truncate, offset := 0 }

def readAll (wal : WAL) : List WalRecord :=
  let contents := wal.backend.contents
  readRecords contents.size (contents.data.read 0 contents.size)

theorem readAll_truncate (wal : WAL) : wal.truncate.readAll = [] := rfl

end WAL

end CocoDB
