import CocoDB.Lib.Buffer

/-!
# Pages

The 16 KiB page of `internal/storage/page.go`: a parsed header next to the raw
bytes it is written into.  The header is kept twice, in memory and in the first
32 bytes, and the two only meet in `writeHeader` and `readHeader`; the model
keeps them apart in the same way.
-/

namespace CocoDB

open Lib

abbrev PageID := UInt64

abbrev LSN := UInt64

abbrev TxnID := UInt64

def defaultPageSize : Nat := 16384

def invalidPageID : PageID := 0xFFFFFFFFFFFFFFFF

/-- The errors of the storage layers.  A wrapped error keeps the sentinel it
wraps. -/
inductive Error where
  /-- `coco/storage: page not found` -/
  | pageNotFound
  /-- `coco/storage: slotted page has insufficient space` -/
  | pageFull
  /-- `coco/storage: slot not found or deleted` -/
  | slotNotFound
  /-- `coco/storage: invalid page type or corruption` -/
  | invalidPage
  /-- `coco/storage: page checksum mismatch` -/
  | checksumFailed
  /-- `coco/storage: corrupted meta pages` -/
  | corruptMeta
  /-- `coco/storage: invalid database format` -/
  | invalidFormat
  /-- The error of a failed write of the backend. -/
  | backendWrite
  /-- `key size %d exceeds max %d` -/
  | keySize (size : Nat)
  /-- `value size %d exceeds max %d` -/
  | valueSize (size : Nat)
  /-- `unexpected slot id assignment in leaf: got %d want %d`, and the same
  text for internal nodes -/
  | unexpectedSlot (got want : Nat)
  /-- `child %d not found in parent internal node` -/
  | childNotFound (child : PageID)
  /-- The loop of the source does not return. -/
  | diverges
  /-- The error of a failed sync of the backend. -/
  | backendSync
  /-- `coco/txn: transaction is read-only` -/
  | txnReadOnly
  /-- `coco/txn: transaction has already completed` -/
  | txnClosed
  /-- `savepoint %q not found` -/
  | savepointNotFound (name : String)
  deriving DecidableEq, Repr

/-- The page kinds, with the bytes no constant names. -/
inductive PageType where
  | pageMeta
  | pageBTreeInternal
  | pageBTreeLeaf
  | pageRecord
  | pageOverflow
  | pageFreeList
  | pageVector
  | pageText
  | unknown (code : UInt8)
  deriving DecidableEq, Repr

namespace PageType

def toByte : PageType → UInt8
  | .pageMeta => 0
  | .pageBTreeInternal => 1
  | .pageBTreeLeaf => 2
  | .pageRecord => 3
  | .pageOverflow => 4
  | .pageFreeList => 5
  | .pageVector => 6
  | .pageText => 7
  | .unknown code => code

def ofByte (code : UInt8) : PageType :=
  if code = 0 then .pageMeta
  else if code = 1 then .pageBTreeInternal
  else if code = 2 then .pageBTreeLeaf
  else if code = 3 then .pageRecord
  else if code = 4 then .pageOverflow
  else if code = 5 then .pageFreeList
  else if code = 6 then .pageVector
  else if code = 7 then .pageText
  else .unknown code

@[simp]
theorem toByte_ofByte (code : UInt8) : (ofByte code).toByte = code := by
  unfold ofByte
  repeat' split
  all_goals simp_all [toByte]

end PageType

def crcBit (crc : UInt32) : UInt32 :=
  if crc &&& 1 = 1 then (crc >>> 1) ^^^ 0x82F63B78 else crc >>> 1

def crcByte (crc : UInt32) (byte : UInt8) : UInt32 :=
  (List.range 8).foldl (fun register _ => crcBit register)
    (crc ^^^ byte.toUInt32)

/-- CRC-32C (Castagnoli), as `hash/crc32` computes it. -/
def checksum (data : Bytes) : UInt32 :=
  ~~~ data.foldl crcByte 0xFFFFFFFF

def pageHeaderSize : Nat := 32

/-- The parsed page header.  The 16-bit fields are naturals below `65536`. -/
structure PageHeader where
  id : PageID
  type : PageType
  flags : Nat := 0
  lsn : LSN := 0
  slotCount : Nat := 0
  freeStart : Nat := 0
  freeEnd : Nat := 0
  checksum : UInt32 := 0
  deriving DecidableEq, Repr

structure Page where
  header : PageHeader
  data : Buf
  dirty : Bool

namespace PageHeader

/-- The 32 bytes that hold a header; bytes 9, 26 and 27 are reserved and
written as zero. -/
def encode (header : PageHeader) : Bytes :=
  be 8 header.id.toNat ++ [header.type.toByte] ++ [0] ++
    be 2 header.flags ++ be 8 header.lsn.toNat ++ be 2 header.slotCount ++
    be 2 header.freeStart ++ be 2 header.freeEnd ++ be 2 0 ++
    be 4 header.checksum.toNat

@[simp]
theorem encode_length (header : PageHeader) :
    header.encode.length = 32 := by
  simp [encode]

def decode (data : Buf) : PageHeader where
  id := UInt64.ofNat (ofBE (data.read 0 8))
  type := PageType.ofByte (data 8)
  flags := ofBE (data.read 10 2)
  lsn := UInt64.ofNat (ofBE (data.read 12 8))
  slotCount := ofBE (data.read 20 2)
  freeStart := ofBE (data.read 22 2)
  freeEnd := ofBE (data.read 24 2)
  checksum := UInt32.ofNat (ofBE (data.read 28 4))

end PageHeader

namespace Page

def writeHeader (page : Page) : Page :=
  { page with data := page.data.write 0 page.header.encode }

def readHeader (page : Page) : Page :=
  { page with header := PageHeader.decode page.data }

def newPage (id : PageID) (type : PageType) : Page :=
  writeHeader
    { header :=
        { id := id
          type := type
          slotCount := 0
          freeStart := pageHeaderSize
          freeEnd := defaultPageSize }
      data := Buf.zero
      dirty := true }

def image (page : Page) : Bytes :=
  page.data.read 0 defaultPageSize

def computeChecksum (data : Buf) : UInt32 :=
  checksum ((data.write 28 (be 4 0)).read 0 defaultPageSize)

/-- Write the header, then the checksum of the result, into the page. -/
def sealPage (page : Page) : Page :=
  let written := page.writeHeader
  let crc := computeChecksum written.data
  { written with
    header := { written.header with checksum := crc }
    data := written.data.write 28 (be 4 crc.toNat) }

def validateChecksum (data : Buf) : Bool :=
  UInt32.ofNat (ofBE (data.read 28 4)) == computeChecksum data

@[simp]
theorem writeHeader_header (page : Page) :
    page.writeHeader.header = page.header := rfl

theorem writeHeader_data_outside (page : Page) {index : Nat}
    (outside : 32 ≤ index) :
    page.writeHeader.data index = page.data index :=
  Buf.write_apply_outside (by simp; omega)

theorem writeHeader_read (page : Page) {offset length : Nat}
    (outside : 32 ≤ offset) :
    page.writeHeader.data.read offset length =
      page.data.read offset length :=
  Buf.read_write_disjoint (by simp; omega)

end Page

end CocoDB
