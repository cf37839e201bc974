import CocoDB.Storage.DefaultPager

/-!
# Transactions

`internal/txn/manager.go`, `transaction.go` and `reader_table.go`.  Only one
write transaction is open at a time: `Begin` takes the writer lock and `Commit`
and `Rollback` give it back.

The manager shares its log with the pager, which flushes it before a page; the
pager holds it.  The backend may fail at any call: the failures are parameters.
Go visits the entries of a map in any order, which is a parameter too.
-/

namespace CocoDB

open Lib

inductive SyncMode where
  | full
  | normal
  | off
  deriving DecidableEq, Repr

structure SavepointState where
  name : String
  pageCopies : List (PageID × Bytes)

/-- A transaction.  A map is a list of its entries with no key twice. -/
structure Transaction where
  readOnly : Bool
  snapshotTxn : TxnID
  txnID : TxnID
  dirtyPages : List (PageID × Nat)
  savepoints : List SavepointState
  isOpen : Bool

structure MapOrder where
  pages : List (PageID × Nat) → List (PageID × Nat)
  readers : List TxnID → List TxnID
  pages_perm : ∀ entries, (pages entries).Perm entries
  readers_perm : ∀ entries, (readers entries).Perm entries

/-- The transaction manager.  `readers` holds a snapshot once for each active
transaction. -/
structure TxnManager where
  pager : DefaultPager
  syncMode : SyncMode
  lastTxnID : TxnID
  committedTxns : List TxnID
  readers : List TxnID

namespace ReaderTable

def register (snapshot : TxnID) (readers : List TxnID) : List TxnID :=
  snapshot :: readers

def deregister (snapshot : TxnID) (readers : List TxnID) : List TxnID :=
  readers.erase snapshot

/-- The lowest active snapshot.  Zero stands for no snapshot, so a snapshot of
zero is passed over when another one is visited later. -/
def oldestActiveSnapshot (visited : List TxnID) (fallback : TxnID) : TxnID :=
  if visited = [] then fallback
  else
    visited.foldl
      (fun oldest snapshot =>
        if oldest = 0 ∨ snapshot < oldest then snapshot else oldest) 0

end ReaderTable

namespace TxnManager

def newTxnManager (pager : DefaultPager) (wal : WAL) (syncMode : SyncMode) :
    TxnManager where
  pager := { pager with walFlusher := some wal }
  syncMode := syncMode
  lastTxnID := pager.info.lastTxnID
  committedTxns := []
  readers := []

def wal (manager : TxnManager) : WAL :=
  manager.pager.walFlusher.getD (WAL.openWAL (.ofContents .empty) 0)

def setWAL (wal : WAL) (manager : TxnManager) : TxnManager :=
  { manager with pager := { manager.pager with walFlusher := some wal } }

def setPager (pager : DefaultPager) (manager : TxnManager) : TxnManager :=
  { manager with pager := pager }

def append (fails : Bool) (record : WalRecord) (manager : TxnManager) :
    Except Error LSN × TxnManager :=
  let (outcome, after) := manager.wal.tryAppend fails record
  (outcome, manager.setWAL after)

def isCommitted (manager : TxnManager) (txnID : TxnID) : Bool :=
  txnID ∈ manager.committedTxns || txnID ≤ manager.pager.info.lastTxnID

/-- `Begin`.  The error of logging the begin record is passed over. -/
def beginTxn (fails readOnly : Bool) (manager : TxnManager) :
    Transaction × TxnManager :=
  if readOnly then
    let snapshot := manager.lastTxnID
    ({ readOnly := true, snapshotTxn := snapshot, txnID := snapshot
       dirtyPages := [], savepoints := [], isOpen := true },
      { manager with
        readers := ReaderTable.register snapshot manager.readers })
  else
    let newTxnID := manager.lastTxnID + 1
    let snapshot := newTxnID - 1
    let (_, logged) := { manager with lastTxnID := newTxnID }.append fails
      (WalRecord.marker .txnBegin newTxnID)
    ({ readOnly := false, snapshotTxn := snapshot, txnID := newTxnID
       dirtyPages := [], savepoints := [], isOpen := true },
      { logged with
        readers := ReaderTable.register snapshot logged.readers })

/-- Log the touched pages.  A page is sealed before it gets the sequence number
of its record. -/
def logPages (txnID : TxnID) :
    List (PageID × Nat) → List Bool → TxnManager →
      Except Error (List Bool) × TxnManager
  | [], faults, manager => (.ok faults, manager)
  | (id, ref) :: rest, faults, manager =>
      let page := (manager.pager.heap ref).sealPage
      let sealed := manager.setPager (manager.pager.setObject ref page)
      match sealed.append (faults.headD false)
        (WalRecord.newPageUpdate txnID id page.image) with
      | (.error error, after) => (.error error, after)
      | (.ok lsn, after) =>
          let stamped := after.pager.setObject ref
            { page with header := { page.header with lsn := lsn } }
          logPages txnID rest faults.tail
            (after.setPager (stamped.markDirty ref))

def syncLog (fails : Bool) (lastLSN : LSN) (manager : TxnManager) :
    Except Error Unit × TxnManager :=
  match manager.syncMode with
  | .full =>
      let (outcome, after) := manager.wal.tryFlush fails lastLSN
      (outcome, manager.setWAL after)
  | .normal =>
      let (outcome, after) := manager.wal.trySync fails
      (outcome, manager.setWAL after)
  | .off => (.ok (), manager)

def noteCommit (order : MapOrder) (txnID : TxnID) (lastLSN : LSN)
    (manager : TxnManager) : TxnManager :=
  let oldest := ReaderTable.oldestActiveSnapshot
    (order.readers manager.readers) manager.lastTxnID
  { manager with
    committedTxns :=
      (txnID :: manager.committedTxns).filter fun id => ¬ id ≤ oldest
    pager := { manager.pager with
      info := { manager.pager.info with
        lastTxnID := txnID, lastLSN := lastLSN } } }

/-- The deferred part of `Commit` and `Rollback`. -/
def deregister (snapshot : TxnID) (manager : TxnManager) : TxnManager :=
  { manager with
    readers := ReaderTable.deregister snapshot manager.readers }

def commitWrites (order : MapOrder) (faults : List Bool) (tx : Transaction)
    (manager : TxnManager) : Except Error Unit × TxnManager :=
  match manager.logPages tx.txnID (order.pages tx.dirtyPages) faults with
  | (.error error, after) => (.error error, after)
  | (.ok left, logged) =>
      match logged.append (left.headD false)
        (WalRecord.newTxnCommit tx.txnID) with
      | (.error error, after) => (.error error, after)
      | (.ok commitLSN, recorded) =>
          match recorded.syncLog (left.tail.headD false) commitLSN with
          | (.error error, after) => (.error error, after)
          | (.ok _, synced) =>
              (.ok (), synced.noteCommit order tx.txnID commitLSN)

def commit (order : MapOrder) (faults : List Bool) (tx : Transaction)
    (manager : TxnManager) :
    Except Error Unit × Transaction × TxnManager :=
  if tx.isOpen then
    let closed := { tx with isOpen := false }
    if tx.readOnly then
      (.ok (), closed, manager.deregister tx.snapshotTxn)
    else
      let (outcome, after) := manager.commitWrites order faults tx
      (outcome, closed, after.deregister tx.snapshotTxn)
  else (.error .txnClosed, tx, manager)

def removeAll : List (PageID × Nat) → DefaultPager → DefaultPager
  | [], pager => pager
  | (id, _) :: rest, pager =>
      removeAll rest { pager with cache := pager.cache.remove id }

/-- `Rollback`.  The error of logging the abort record is passed over. -/
def rollback (fails : Bool) (tx : Transaction) (manager : TxnManager) :
    Transaction × TxnManager :=
  if tx.isOpen then
    let closed := { tx with isOpen := false }
    if tx.readOnly then (closed, manager.deregister tx.snapshotTxn)
    else
      let (_, logged) := manager.append fails (WalRecord.newTxnAbort tx.txnID)
      let dropped := logged.setPager (removeAll tx.dirtyPages logged.pager)
      (closed, dropped.deregister tx.snapshotTxn)
  else (tx, manager)

end TxnManager

namespace Transaction

def insertPage (id : PageID) (ref : Nat) (pages : List (PageID × Nat)) :
    List (PageID × Nat) :=
  (id, ref) :: pages.filter fun entry => entry.1 ≠ id

def trackDirty (ref : Nat) (pager : DefaultPager) (tx : Transaction) :
    Except Error Transaction :=
  if tx.readOnly then .error .txnReadOnly
  else if tx.isOpen then
    .ok { tx with
      dirtyPages :=
        insertPage (pager.heap ref).header.id ref tx.dirtyPages }
  else .error .txnClosed

/-- `Savepoint`: copies of the dirty pages under a name. -/
def savepoint (name : String) (pager : DefaultPager) (tx : Transaction) :
    Except Error Transaction :=
  if tx.readOnly then .error .txnReadOnly
  else if tx.isOpen then
    let copies := tx.dirtyPages.map fun entry =>
      (entry.1, (pager.heap entry.2).image)
    .ok { tx with
      savepoints := ⟨name, copies⟩ ::
        tx.savepoints.filter fun other => other.name ≠ name }
  else .error .txnClosed

/-- Bring the dirty pages back to their copies; a page without a copy is
forgotten, also by the cache. -/
def restorePages (copies : List (PageID × Bytes)) :
    List (PageID × Nat) → List (PageID × Nat) × DefaultPager →
      List (PageID × Nat) × DefaultPager
  | [], state => state
  | (id, ref) :: rest, (dirty, pager) =>
      match copies.find? fun copy => copy.1 = id with
      | some copy =>
          let page := pager.heap ref
          let restored :=
            ({ page with data := page.data.write 0 copy.2 } : Page).readHeader
          restorePages copies rest (dirty, pager.setObject ref restored)
      | none =>
          restorePages copies rest
            (dirty.filter fun entry => entry.1 ≠ id,
              { pager with cache := pager.cache.remove id })

def rollbackTo (order : MapOrder) (name : String) (pager : DefaultPager)
    (tx : Transaction) : Except Error (Transaction × DefaultPager) :=
  if tx.readOnly then .error .txnReadOnly
  else if tx.isOpen then
    match tx.savepoints.find? fun saved => saved.name = name with
    | none => .error (.savepointNotFound name)
    | some saved =>
        let (dirty, restored) := restorePages saved.pageCopies
          (order.pages tx.dirtyPages) (tx.dirtyPages, pager)
        .ok ({ tx with dirtyPages := dirty }, restored)
  else .error .txnClosed

end Transaction

end CocoDB
