import CocoDB.Storage.Page

/-!
# Slotted pages

`internal/storage/slotted.go`: a directory of four-byte slots grows up from byte
64 and the payloads grow down from the end of the page.  A slot whose offset and
length are both zero is unused.  The arithmetic of the source is on 16-bit
unsigned integers, spelled out here with `u16` and `sub16`.
-/

namespace CocoDB

open Lib

def u16 (value : Nat) : Nat := value % 65536

def sub16 (left right : Nat) : Nat := u16 (left + 65536 - right)

theorem u16_of_lt {value : Nat} (small : value < 65536) :
    u16 value = value :=
  Nat.mod_eq_of_lt small

theorem sub16_of_le {left right : Nat}
    (small : left < 65536) (ordered : right ≤ left) :
    sub16 left right = left - right := by
  unfold sub16 u16
  omega

/-- A directory entry: where a payload starts and how long it is. -/
structure Slot where
  offset : Nat
  length : Nat
  deriving DecidableEq, Repr

def Slot.unused (slot : Slot) : Prop := slot.offset = 0 ∧ slot.length = 0

instance (slot : Slot) : Decidable slot.unused :=
  inferInstanceAs (Decidable (_ ∧ _))

/-- First 64 bytes are reserved for the page header and page-specific
headers. -/
def slotDirectoryStart : Nat := 64

def slotSize : Nat := 4

namespace Slotted

def wrapSlotted (page : Page) : Page :=
  let started :=
    if page.header.freeStart < slotDirectoryStart then
      { page with header.freeStart := slotDirectoryStart }
    else page
  if started.header.freeEnd = 0 then
    { started with header.freeEnd := u16 defaultPageSize }
  else started

/-- Byte offset of the directory entry `index`. -/
def slotOffset (index : Nat) : Nat :=
  u16 (slotDirectoryStart + u16 (index * slotSize))

def readSlot (data : Buf) (index : Nat) : Slot where
  offset := ofBE (data.read (slotOffset index) 2)
  length := ofBE (data.read (slotOffset index + 2) 2)

def Slot.encode (slot : Slot) : Bytes :=
  be 2 slot.offset ++ be 2 slot.length

def writeSlot (data : Buf) (index : Nat) (slot : Slot) : Buf :=
  data.write (slotOffset index) (Slot.encode slot)

def freeSpace (page : Page) : Nat :=
  if page.header.freeEnd < page.header.freeStart then 0
  else page.header.freeEnd - page.header.freeStart

/-! ## Compaction -/

/-- A directory entry with a payload, remembered by `compact`. -/
structure ActiveSlot where
  id : Nat
  offset : Nat
  length : Nat
  deriving DecidableEq, Repr

/-- The entries `compact` moves: those whose offset and length are both
non-zero, sorted by offset. -/
def activeSlots (page : Page) : List ActiveSlot :=
  let active :=
    ((List.range page.header.slotCount).filter fun index =>
        (readSlot page.data index).offset ≠ 0 ∧
          (readSlot page.data index).length ≠ 0).map fun index =>
      { id := index
        offset := (readSlot page.data index).offset
        length := (readSlot page.data index).length : ActiveSlot }
  active.mergeSort fun left right => left.offset ≤ right.offset

/-- One step of the repacking loop: copy the payload of `item` right below
`curEnd` in `temp` and point its directory entry there. -/
def repackStep (source : Buf) (state : Buf × Nat) (item : ActiveSlot) :
    Buf × Nat :=
  let curEnd := sub16 state.2 item.length
  let copied :=
    state.1.write curEnd (source.read item.offset item.length)
  (copied.write (slotOffset item.id) (be 2 curEnd ++ be 2 item.length),
    curEnd)

def compact (page : Page) : Page :=
  let kept := u16 (slotDirectoryStart + u16 (page.header.slotCount * slotSize))
  let temp : Buf := fun index => if index < kept then page.data index else 0
  let packed :=
    (activeSlots page).reverse.foldl (repackStep page.data)
      (temp, u16 defaultPageSize)
  Page.writeHeader
    { page with
      data := packed.1
      header.freeEnd := packed.2
      header.freeStart := kept
      dirty := true }

/-! ## Record operations -/

def findUnused (page : Page) : Option Nat :=
  (List.range page.header.slotCount).find? fun index =>
    (readSlot page.data index).unused

/-- Put `payload` right below the free end of a page that has room for it,
under the directory entry `target`, or under a new entry. -/
def place (page : Page) (target : Option Nat) (payload : Bytes) :
    Nat × Page :=
  let payLen := u16 payload.length
  let newFreeEnd := sub16 page.header.freeEnd payLen
  let data := page.data.write newFreeEnd (payload.take payLen)
  match target with
  | some slot =>
      (slot,
        Page.writeHeader
          { page with
            header.freeEnd := newFreeEnd
            data := writeSlot data slot ⟨newFreeEnd, payLen⟩
            dirty := true })
  | none =>
      let slot := page.header.slotCount
      let slotCount := u16 (slot + 1)
      (slot,
        Page.writeHeader
          { page with
            header.freeEnd := newFreeEnd
            header.slotCount := slotCount
            header.freeStart :=
              u16 (slotDirectoryStart + u16 (slotCount * slotSize))
            data := writeSlot data slot ⟨newFreeEnd, payLen⟩
            dirty := true })

def insert (page : Page) (payload : Bytes) : Except Error Nat × Page :=
  let payLen := u16 payload.length
  let target := findUnused page
  let needed := if target.isNone then u16 (payLen + slotSize) else payLen
  let roomy := if freeSpace page < needed then compact page else page
  if freeSpace roomy < needed then
    (.error .pageFull, roomy)
  else
    let placed := place roomy target payload
    (.ok placed.1, placed.2)

def lookup (page : Page) (slotID : Nat) : Except Error Bytes :=
  if page.header.slotCount ≤ slotID then
    .error .slotNotFound
  else
    let slot := readSlot page.data slotID
    if slot.unused then
      .error .slotNotFound
    else if slot.offset + slot.length > defaultPageSize then
      .error .invalidPage
    else
      .ok (page.data.read slot.offset slot.length)

def get (page : Page) (slotID : Nat) : Except Error Bytes :=
  lookup page slotID

def getDirect (page : Page) (slotID : Nat) : Except Error Bytes :=
  lookup page slotID

def update (page : Page) (slotID : Nat) (payload : Bytes) :
    Except Error Unit × Page :=
  let slot := readSlot page.data slotID
  let payLen := u16 payload.length
  if page.header.slotCount ≤ slotID then
    (.error .slotNotFound, page)
  else if slot.unused then
    (.error .slotNotFound, page)
  else if payLen ≤ slot.length then
    -- The payload shrinks in place and its tail is left behind.
    let data := page.data.write slot.offset (payload.take payLen)
    (.ok (),
      Page.writeHeader
        { page with
          data := writeSlot data slotID ⟨slot.offset, payLen⟩
          dirty := true })
  else
    let roomy := if freeSpace page < payLen then compact page else page
    if freeSpace roomy < payLen then
      (.error .pageFull, roomy)
    else
      (.ok (), (place roomy (some slotID) payload).2)

def trimSlots (data : Buf) : Nat → Nat
  | 0 => 0
  | count + 1 =>
      if (readSlot data count).unused then trimSlots data count
      else count + 1

/-- Mark a slot as unused; a directory ending in unused slots shrinks. -/
def delete (page : Page) (slotID : Nat) : Except Error Unit × Page :=
  let slot := readSlot page.data slotID
  if page.header.slotCount ≤ slotID then
    (.error .slotNotFound, page)
  else if slot.unused then
    (.error .slotNotFound, page)
  else
    let data := writeSlot page.data slotID ⟨0, 0⟩
    if slotID = sub16 page.header.slotCount 1 then
      let slotCount := trimSlots data page.header.slotCount
      (.ok (),
        Page.writeHeader
          { page with
            header.slotCount := slotCount
            header.freeStart :=
              u16 (slotDirectoryStart + u16 (slotCount * slotSize))
            data := data
            dirty := true })
    else
      (.ok (), Page.writeHeader { page with data := data, dirty := true })

end Slotted

end CocoDB
