import CocoDB.Storage.Slotted

/-!
# B+tree nodes

`internal/btree/node.go`: leaf and internal nodes are slotted pages.  A leaf
keeps its neighbours at bytes 32 and 40, an internal node its rightmost child at
byte 32.  Nodes are only ever rewritten whole, by `setItems`.
-/

namespace CocoDB.BTree

open Lib

def leafPrevOffset : Nat := pageHeaderSize

def leafNextOffset : Nat := pageHeaderSize + 8

def internalRightOffset : Nat := pageHeaderSize

def maxKeySize : Nat := 2048

def maxValueSize : Nat := 4096

def readPageID (data : Buf) (offset : Nat) : PageID :=
  UInt64.ofNat (ofBE (data.read offset 8))

def writePageID (page : Page) (offset : Nat) (id : PageID) : Page :=
  { page with data := page.data.write offset (be 8 id.toNat), dirty := true }

def blank (page : Page) (type : PageType) : Page :=
  Page.writeHeader
    { header :=
        { id := page.header.id
          type := type
          slotCount := 0
          freeStart := slotDirectoryStart
          freeEnd := u16 defaultPageSize }
      data := Buf.zero
      dirty := page.dirty }

/-- Insert payloads one by one, checking that slot numbers come in order. -/
def fill (page : Page) : Nat → List Bytes → Except Error Unit × Page
  | _, [] => (.ok (), { page with dirty := true })
  | index, payload :: rest =>
      match Slotted.insert page payload with
      | (.error error, after) => (.error error, after)
      | (.ok slot, after) =>
          if slot = u16 index then fill after (index + 1) rest
          else (.error (.unexpectedSlot slot index), after)

/-! ## Leaves -/

structure LeafItem where
  key : Bytes
  value : Bytes
  deriving DecidableEq, Repr

def LeafItem.encode (item : LeafItem) : Bytes :=
  be 2 item.key.length ++ be 2 item.value.length ++ item.key ++ item.value

def LeafItem.decode (payload : Bytes) : Option LeafItem :=
  if payload.length < 4 then none
  else
    let kLen := ofBE (payload.take 2)
    let vLen := ofBE ((payload.drop 2).take 2)
    if u16 (4 + kLen + vLen) > payload.length then none
    else
      some
        { key := (payload.take (u16 (4 + kLen))).drop 4
          value := (payload.take (u16 (4 + kLen + vLen))).drop
            (u16 (4 + kLen)) }

def prevLeaf (page : Page) : PageID := readPageID page.data leafPrevOffset

def setPrevLeaf (page : Page) (id : PageID) : Page :=
  writePageID page leafPrevOffset id

def nextLeaf (page : Page) : PageID := readPageID page.data leafNextOffset

def setNextLeaf (page : Page) (id : PageID) : Page :=
  writePageID page leafNextOffset id

/-- The key of a slot, read in place; `nil` if the slot is unusable. -/
def keyAt (page : Page) (slotID : Nat) : Bytes :=
  match Slotted.getDirect page slotID with
  | .error _ => []
  | .ok payload =>
      if payload.length < 4 then []
      else
        let kLen := ofBE (payload.take 2)
        if u16 (4 + kLen) > payload.length then []
        else (payload.take (u16 (4 + kLen))).drop 4

def itemAt (page : Page) (slotID : Nat) : Option LeafItem :=
  match Slotted.getDirect page slotID with
  | .error _ => none
  | .ok payload => LeafItem.decode payload

def leafItems (page : Page) : List LeafItem :=
  (List.range page.header.slotCount).filterMap fun slotID =>
    match Slotted.get page slotID with
    | .error _ => none
    | .ok payload => LeafItem.decode payload

/-- Repack a leaf with the given sorted items, keeping its neighbours. -/
def setLeafItems (page : Page) (items : List LeafItem) :
    Except Error Unit × Page :=
  let prev := prevLeaf page
  let next := nextLeaf page
  let cleared := blank page .pageBTreeLeaf
  let linked := setNextLeaf (setPrevLeaf cleared prev) next
  fill linked 0 (items.map LeafItem.encode)

/-- The loop of `binarySearch`; `past` is the source's `high + 1`. -/
def searchFrom (page : Page) (key : Bytes) (low past : Nat) : Nat × Bool :=
  if inside : low < past then
    let mid := (low + (past - 1)) / 2
    let midKey := keyAt page mid
    if key = midKey then (mid, true)
    else if key < midKey then searchFrom page key low mid
    else searchFrom page key (mid + 1) past
  else (low, false)
termination_by past - low

/-- Where `key` is, or would be, in a leaf. -/
def binarySearch (page : Page) (key : Bytes) : Nat × Bool :=
  searchFrom page key 0 page.header.slotCount

/-! ## Internal nodes -/

structure InternalItem where
  child : PageID
  key : Bytes
  deriving DecidableEq, Repr

def InternalItem.encode (item : InternalItem) : Bytes :=
  be 8 item.child.toNat ++ be 2 item.key.length ++ item.key

def InternalItem.decode (payload : Bytes) : Option InternalItem :=
  if payload.length < 10 then none
  else
    let child := UInt64.ofNat (ofBE (payload.take 8))
    let kLen := ofBE ((payload.drop 8).take 2)
    if u16 (10 + kLen) > payload.length then none
    else
      some { child := child, key := (payload.take (u16 (10 + kLen))).drop 10 }

def rightmostChild (page : Page) : PageID :=
  readPageID page.data internalRightOffset

def setRightmostChild (page : Page) (id : PageID) : Page :=
  writePageID page internalRightOffset id

def childAndKeyAt (page : Page) (slotID : Nat) : Option InternalItem :=
  match Slotted.getDirect page slotID with
  | .error _ => none
  | .ok payload => InternalItem.decode payload

def internalItems (page : Page) : List InternalItem :=
  (List.range page.header.slotCount).filterMap fun slotID =>
    match Slotted.get page slotID with
    | .error _ => none
    | .ok payload => InternalItem.decode payload

def setInternalItems (page : Page) (items : List InternalItem)
    (rightmost : PageID) : Except Error Unit × Page :=
  let cleared := blank page .pageBTreeInternal
  let pointed := setRightmostChild cleared rightmost
  fill pointed 0 (items.map InternalItem.encode)

/-- The loop of `routeChild`: the first slot in `[low, high)` whose key is
above `key`, or nothing if a probed slot is unusable. -/
def routeFrom (page : Page) (key : Bytes) (low high : Nat) : Option Nat :=
  if low < high then
    let mid := (low + high) / 2
    match childAndKeyAt page mid with
    | none => none
    | some item =>
        if key < item.key then routeFrom page key low mid
        else routeFrom page key (mid + 1) high
  else some low
termination_by high - low

/-- The child that may contain `key`. -/
def routeChild (page : Page) (key : Bytes) : PageID :=
  let cnt := page.header.slotCount
  if cnt = 0 then rightmostChild page
  else
    match routeFrom page key 0 cnt with
    | none => rightmostChild page
    | some low =>
        if low < cnt then
          match childAndKeyAt page low with
          | some item => item.child
          | none => rightmostChild page
        else rightmostChild page

end CocoDB.BTree
