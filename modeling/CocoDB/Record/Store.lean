import CocoDB.Record.Directory
import CocoDB.Storage.Overflow
import CocoDB.Txn.Manager

/-!
# The record store

`internal/record/version.go`.  Every write of a record adds a version in front of
the older ones; a reader follows the versions to the first that it may see.  The
store and the transactions hold on to page objects, which may differ from the
objects that the cache knows by then.
-/

namespace CocoDB.Record

open Lib

def maxInlinePayload : Nat := 4000

def maxTxnID : TxnID := 0xFFFFFFFFFFFFFFFF

/-- `Store`.  The pager is that of the transaction manager, and the tree of the
directory is the one with the given root. -/
structure Store where
  manager : TxnManager
  directory : PageID
  nextID : UInt64
  activePages : List Nat

namespace Store

def newStore (manager : TxnManager) (directory : PageID) : Store where
  manager := manager
  directory := directory
  nextID := 1000
  activePages := []

def pager (store : Store) : DefaultPager := store.manager.pager

def setPager (pager : DefaultPager) (store : Store) : Store :=
  { store with manager := store.manager.setPager pager }

def tree (store : Store) : BTree.Tree DefaultPager :=
  ⟨store.directory, store.pager⟩

def setTree (tree : BTree.Tree DefaultPager) (store : Store) : Store :=
  { store.setPager tree.pager with directory := tree.root }

def allocateID (store : Store) : RecordID × Store :=
  (store.nextID + 1, { store with nextID := store.nextID + 1 })

/-- `s.directory.Get` -/
def locate (id : RecordID) (store : Store) :
    Except Error (Option Location) × Store :=
  let (found, tree) := Directory.get id store.tree
  (found, store.setTree tree)

/-- `s.directory.Put` -/
def enlist (id : RecordID) (loc : Location) (store : Store) :
    Except Error Unit × Store :=
  let (outcome, tree) := Directory.put id loc store.tree
  (outcome, store.setTree tree)

/-- `WrapSlotted` on a page object -/
def wrap (ref : Nat) (store : Store) : Store :=
  store.setPager (store.pager.setObject ref
    (Slotted.wrapSlotted (store.pager.heap ref)))

/-- `s.pager.Get` and `WrapSlotted` -/
def openPage (id : PageID) (store : Store) : Except Error Nat × Store :=
  match store.pager.get id with
  | (.error cause, after) => (.error cause, store.setPager after)
  | (.ok ref, after) => (.ok ref, (store.setPager after).wrap ref)

/-- `tx.TrackDirty` where its error is passed over. -/
def track (ref : Nat) (store : Store) (tx : Transaction) : Transaction :=
  match tx.trackDirty ref store.pager with
  | .error _ => tx
  | .ok tracked => tracked

/-! ## Writing -/

/-- The old version of a record gets an identifier of its own.  The end of its
life is written into a copy: `Get` does not return the bytes of the page. -/
def supersede (stableRecID : RecordID) (tx : Transaction) (store : Store) :
    RecordID × Transaction × Store :=
  match store.locate stableRecID with
  | (.error _, located) => (invalidRecordID, tx, located)
  | (.ok none, located) => (invalidRecordID, tx, located)
  | (.ok (some oldLoc), located) =>
      match located.openPage oldLoc.page with
      | (.error _, opened) => (invalidRecordID, tx, opened)
      | (.ok ref, opened) =>
          match Slotted.get (opened.pager.heap ref) oldLoc.slot with
          | .error _ => (invalidRecordID, tx, opened)
          | .ok recBytes =>
              match Header.decode recBytes with
              | .error _ => (invalidRecordID, tx, opened)
              | .ok _ =>
                  let (prevPhysID, counted) := opened.allocateID
                  (prevPhysID, opened.track ref tx,
                    (counted.enlist prevPhysID oldLoc).2)

/-- `SetNextPage` on the overflow page written before, if there is one -/
def linkTo (next : PageID) (prev : Option Nat) (pager : DefaultPager) :
    DefaultPager :=
  match prev with
  | none => pager
  | some before =>
      pager.setObject before (Overflow.setNextPage next (pager.heap before))

/-- The loop of `writeOverflowChain`; `prev` is the page object written
before -/
def spill (tx : Transaction) : Nat → Bytes → PageID → Option Nat → Store →
    Except Error PageID × Transaction × Store
  | 0, _, first, _, store => (.ok first, tx, store)
  | fuel + 1, remaining, first, prev, store =>
      if remaining = [] then (.ok first, tx, store)
      else
        let (ref, allocated) := store.pager.allocate .pageOverflow
        let blank := Overflow.setNextPage invalidPageID (allocated.heap ref)
        let (count, page) := Overflow.writeChunk remaining blank
        let written := allocated.setObject ref page
        match tx.trackDirty ref written with
        | .error cause => (.error cause, tx, store.setPager written)
        | .ok tracked =>
            let head := if first = invalidPageID then page.header.id else first
            spill tracked fuel (remaining.drop count) head (some ref)
              (store.setPager (linkTo page.header.id prev written))

/-- `writeOverflowChain`: every turn of the loop takes some bytes -/
def writeOverflowChain (tx : Transaction) (data : Bytes) (store : Store) :
    Except Error PageID × Transaction × Store :=
  spill tx data.length data invalidPageID none store

/-- The first active page with enough room, and its place in the list.  The pages
before it are wrapped on the way. -/
def findActive (needed : Nat) : Nat → List Nat → Store →
    Option (Nat × Nat) × Store
  | _, [], store => (none, store)
  | index, ref :: rest, store =>
      let wrapped := store.wrap ref
      if needed ≤ Slotted.freeSpace (wrapped.pager.heap ref) then
        (some (index, ref), wrapped)
      else findActive needed (index + 1) rest wrapped

def activePage (needed : Nat) (store : Store) : (Nat × Nat) × Store :=
  match findActive needed 0 store.activePages store with
  | (some found, after) => (found, after)
  | (none, after) =>
      let (ref, allocated) := after.pager.allocate .pageRecord
      ((after.activePages.length, ref),
        { (after.setPager allocated).wrap ref with
          activePages := after.activePages ++ [ref] })

def allocateRecordSlot (tx : Transaction) (recordBytes : Bytes)
    (store : Store) :
    Except Error (Nat × Nat) × Transaction × Store :=
  let needed := u16 (recordBytes.length + slotSize)
  let ((index, ref), chosen) := store.activePage needed
  let (outcome, page) :=
    Slotted.insert (chosen.pager.heap ref) recordBytes
  let inserted := chosen.setPager (chosen.pager.setObject ref page)
  match outcome with
  | .error cause => (.error cause, tx, inserted)
  | .ok slot =>
      match tx.trackDirty ref inserted.pager with
      | .error cause => (.error cause, tx, inserted)
      | .ok tracked =>
          let kept :=
            if Slotted.freeSpace page < recordHeaderSize + slotSize then
              { inserted with
                activePages := inserted.activePages.eraseIdx index }
            else inserted
          (.ok (ref, slot), tracked, kept)

def newFlags (payload : Option Bytes) : UInt16 :=
  (if payload = none then flagDeleted else 0) |||
    if maxInlinePayload < (payload.getD []).length then flagOverflow else 0

def newHeader (stableRecID prevPhysID : RecordID) (txnID : TxnID)
    (payload : Option Bytes) : Header where
  recordID := stableRecID
  beginTxn := txnID
  endTxn := 0
  prevVersion := prevPhysID
  flags := newFlags payload
  payloadLength := UInt32.ofNat (payload.getD []).length

def writeBody (tx : Transaction) (payload : Option Bytes) (store : Store) :
    Except Error Bytes × Transaction × Store :=
  let data := payload.getD []
  if maxInlinePayload < data.length then
    match store.writeOverflowChain tx data with
    | (.error cause, after, spilled) => (.error cause, after, spilled)
    | (.ok first, after, spilled) =>
        (.ok (be 8 first.toNat ++ be 4 data.length), after, spilled)
  else (.ok data, tx, store)

/-- `WriteRecord` from the new version on. -/
def writeVersion (stableRecID prevPhysID : RecordID) (tx : Transaction)
    (payload : Option Bytes) (store : Store) :
    Except Error RecordID × Transaction × Store :=
  match store.writeBody tx payload with
  | (.error cause, after, spilled) => (.error cause, after, spilled)
  | (.ok body, after, spilled) =>
      match spilled.allocateRecordSlot after
          ((newHeader stableRecID prevPhysID tx.txnID payload).encode ++
            body) with
      | (.error cause, last, placed) => (.error cause, last, placed)
      | (.ok (ref, slot), last, placed) =>
          match placed.enlist stableRecID
              ⟨(placed.pager.heap ref).header.id, slot⟩ with
          | (.error cause, final) => (.error cause, last, final)
          | (.ok _, final) => (.ok stableRecID, last, final)

/-- `WriteRecord` in a transaction; a payload of `nil` deletes the record -/
def writeRecord (tx : Transaction) (payload : Option Bytes)
    (recID : RecordID) (store : Store) :
    Except Error RecordID × Transaction × Store :=
  if recID ≠ invalidRecordID ∧ recID ≠ 0 then
    let (prevPhysID, tracked, superseded) := store.supersede recID tx
    superseded.writeVersion recID prevPhysID tracked payload
  else
    let (stableRecID, counted) := store.allocateID
    counted.writeVersion stableRecID invalidRecordID tx payload

def deleteRecord (tx : Transaction) (recID : RecordID) (store : Store) :
    Except Error RecordID × Transaction × Store :=
  store.writeRecord tx none recID

/-! ## Reading -/

/-- The loop of `readOverflowChain`.  A chain that gains no byte for as many
pages as there are never ends. -/
def gather (totalLength : Nat) : Nat → PageID → Bytes → DefaultPager →
    Except Error Bytes × DefaultPager
  | 0, _, _, pager => (.error .diverges, pager)
  | fuel + 1, currID, result, pager =>
      if currID ≠ invalidPageID ∧ result.length < totalLength then
        match pager.get currID with
        | (.error cause, after) => (.error cause, after)
        | (.ok ref, after) =>
            gather totalLength fuel (Overflow.nextPage (after.heap ref))
              (result ++ Overflow.payload (after.heap ref)) after
      else (.ok (result.take totalLength), pager)

def readOverflowChain (firstPageID : PageID) (totalLength : Nat)
    (store : Store) : Except Error Bytes × Store :=
  let (outcome, after) := gather totalLength
    ((totalLength + 1) * (Pager.pageCount store.pager + 1) + 1) firstPageID []
    store.pager
  (outcome, store.setPager after)

def payloadOf (header : Header) (rawPayload : Bytes) (store : Store) :
    Except Error Bytes × Store :=
  if header.flags &&& flagOverflow ≠ 0 then
    if rawPayload.length < 12 then (.error .invalidFormat, store)
    else
      store.readOverflowChain
        (UInt64.ofNat (ofBE (rawPayload.take 8)))
        (ofBE ((rawPayload.drop 8).take 4))
  else (.ok rawPayload, store)

/-- The loop of `ReadRecord` and `ReadRecordDirect` over the versions of a
record.  They differ in the call that reads the slot. -/
def readVersions (readSlot : Page → Nat → Except Error Bytes)
    (snapID currentTxnID : TxnID) : Nat → RecordID → Store →
    Except Error (Header × Bytes) × Store
  | 0, _, store => (.error .slotNotFound, store)
  | fuel + 1, currID, store =>
      if currID ≠ invalidRecordID ∧ currID ≠ 0 then
        match store.locate currID with
        | (.error cause, located) => (.error cause, located)
        | (.ok none, located) => (.error .slotNotFound, located)
        | (.ok (some loc), located) =>
            match located.openPage loc.page with
            | (.error cause, opened) => (.error cause, opened)
            | (.ok ref, opened) =>
                match readSlot (opened.pager.heap ref) loc.slot with
                | .error cause => (.error cause, opened)
                | .ok recBytes =>
                    match Header.decode recBytes with
                    | .error cause => (.error cause, opened)
                    | .ok header =>
                        if header.isVisible snapID opened.manager.isCommitted
                            currentTxnID then
                          if header.isDeleted then
                            (.error .slotNotFound, opened)
                          else
                            match opened.payloadOf header
                                (recBytes.drop recordHeaderSize) with
                            | (.error cause, final) => (.error cause, final)
                            | (.ok payload, final) =>
                                (.ok (header, payload), final)
                        else
                          readVersions readSlot snapID currentTxnID fuel
                            header.prevVersion opened
      else (.error .slotNotFound, store)

def maxVisited : Nat := 1000

/-- The snapshot and the identifier that a read goes by.  Without a transaction
it is the last state. -/
def readView : Option Transaction → TxnID × TxnID
  | none => (maxTxnID, 0)
  | some tx => (tx.snapshotTxn, tx.txnID)

def readRecord (tx : Option Transaction) (recID : RecordID) (store : Store) :
    Except Error (Header × Bytes) × Store :=
  readVersions Slotted.get (readView tx).1 (readView tx).2 maxVisited recID
    store

def readRecordDirect (tx : Option Transaction) (recID : RecordID)
    (store : Store) : Except Error (Header × Bytes) × Store :=
  readVersions Slotted.getDirect (readView tx).1 (readView tx).2 maxVisited
    recID store

end Store

end CocoDB.Record
