import CocoDB.Lib.Run
import CocoDB.Storage.PagerLaws
import CocoDB.Txn.WriteAhead

/-!
# The maintenance scheduler

`RunOnce` of `internal/maintenance/scheduler.go` next to the write transactions
of the manager.  Nothing orders the two against each other, so `Commit` and
`RunOnce` are cut into their steps: an append of a page image, the marking of
the page, the append of the commit record, the sync; the sampling of the dirty
pages, the flush of one page, the end of `FlushAll`, `Truncate`.

The images that a commit has logged, and those of the commits that have returned
without an error, are remembered next to the state.
-/

namespace CocoDB

open Lib

structure PageImage where
  txnID : TxnID
  id : PageID
  bytes : Bytes

/-- Where the `Commit` of the open write transaction stands. -/
inductive CommitPhase where
  | idle
  | logging (rest : List (PageID × Nat))
  | stamping (ref : Nat) (lsn : LSN) (rest : List (PageID × Nat))
  | syncing (lsn : LSN)
  | returning (lsn : LSN)

inductive CheckpointPhase where
  | idle
  | flushing (rest : List PageID)
  | truncating

/-- The engine with its scheduler; the newest images come first. -/
structure Scheduler where
  manager : TxnManager
  writer : Option Transaction
  commit : CommitPhase
  checkpoint : CheckpointPhase
  logged : List PageImage
  committed : List PageImage

namespace Scheduler

inductive Action where
  | beginWrite
  | get (id : PageID)
  | allocate (type : PageType)
  | modify (ref : Nat) (edits : List PageEdit)
  | track (ref : Nat)
  | rollback
  | startCommit (order : MapOrder)
  | appendPage
  | markDirty
  | appendCommit
  | syncLog
  | finishCommit (order : MapOrder)
  | startCheckpoint (sampled : List PageID)
  | flushNext
  | saveMeta
  | truncate

def withPager (pager : DefaultPager) (state : Scheduler) : Scheduler :=
  { state with manager := state.manager.setPager pager }

def edited (ref : Nat) (edits : List PageEdit) (pager : DefaultPager) : Page :=
  edits.foldl (fun page edit => edit.apply page) (pager.heap ref)

def track (ref : Nat) (tx : Transaction) (state : Scheduler) : Scheduler :=
  match tx.trackDirty ref state.manager.pager with
  | .error _ => state
  | .ok tracked => { state with writer := some tracked }

/-- The open transaction changes a page object, which gets dirty, and tracks
it. -/
def modify (ref : Nat) (edits : List PageEdit) (tx : Transaction)
    (state : Scheduler) : Scheduler :=
  let pager := state.manager.pager
  track ref tx (state.withPager (pager.setObject ref
    { edited ref edits pager with dirty := true }))

/-- `Commit` seals a page and appends its image. -/
def appendPage (tx : Transaction) (id : PageID) (ref : Nat)
    (rest : List (PageID × Nat)) (state : Scheduler) : Scheduler :=
  let page := (state.manager.pager.heap ref).sealPage
  let sealed := state.manager.setPager
    (state.manager.pager.setObject ref page)
  let (lsn, wal) := sealed.wal.append
    (WalRecord.newPageUpdate tx.txnID id page.image)
  { state with
    manager := sealed.setWAL wal
    commit := .stamping ref lsn rest
    logged := ⟨tx.txnID, id, page.image⟩ :: state.logged }

/-- `Commit` gives a page the number of its record and marks it dirty. -/
def markDirty (ref : Nat) (lsn : LSN) (rest : List (PageID × Nat))
    (state : Scheduler) : Scheduler :=
  let pager := state.manager.pager
  let page := pager.heap ref
  let stamped := pager.setObject ref
    { page with header := { page.header with lsn := lsn } }
  { state.withPager (stamped.markDirty ref) with commit := .logging rest }

/-- `Commit` appends the commit record. -/
def appendCommit (tx : Transaction) (state : Scheduler) : Scheduler :=
  let (lsn, wal) := state.manager.wal.append
    (WalRecord.newTxnCommit tx.txnID)
  { state with
    manager := state.manager.setWAL wal
    commit := .syncing lsn }

/-- `Commit` returns without an error. -/
def finishCommit (order : MapOrder) (tx : Transaction) (lsn : LSN)
    (state : Scheduler) : Scheduler where
  manager := (state.manager.noteCommit order tx.txnID lsn).deregister
    tx.snapshotTxn
  writer := none
  commit := .idle
  checkpoint := state.checkpoint
  logged := []
  committed := state.logged ++ state.committed

/-- `FlushAll` flushes a page; an error ends `RunOnce`. -/
def flushNext (id : PageID) (rest : List PageID) (state : Scheduler) :
    Scheduler :=
  match state.manager.pager.flush id with
  | (.error _, after) => { state.withPager after with checkpoint := .idle }
  | (.ok _, after) =>
      { state.withPager after with checkpoint := .flushing rest }

def perform (state : Scheduler) : Action → Scheduler
  | .beginWrite =>
      let (tx, manager) := state.manager.beginTxn false false
      { state with manager := manager, writer := some tx }
  | .get id => state.withPager (state.manager.pager.get id).2
  | .allocate type => state.withPager (state.manager.pager.allocate type).2
  | .modify ref edits =>
      match state.writer with
      | none => state
      | some tx => state.modify ref edits tx
  | .track ref =>
      match state.writer with
      | none => state
      | some tx => state.track ref tx
  | .rollback =>
      match state.writer with
      | none => state
      | some tx =>
          { state with
            manager := (state.manager.rollback false tx).2, writer := none }
  | .startCommit order =>
      match state.writer with
      | none => state
      | some tx =>
          { state with commit := .logging (order.pages tx.dirtyPages) }
  | .appendPage =>
      match state.writer, state.commit with
      | some tx, .logging ((id, ref) :: rest) =>
          state.appendPage tx id ref rest
      | _, _ => state
  | .markDirty =>
      match state.commit with
      | .stamping ref lsn rest => state.markDirty ref lsn rest
      | _ => state
  | .appendCommit =>
      match state.writer, state.commit with
      | some tx, .logging [] => state.appendCommit tx
      | _, _ => state
  | .syncLog =>
      match state.commit with
      | .syncing lsn =>
          { state with
            manager := (state.manager.syncLog false lsn).2
            commit := .returning lsn }
      | _ => state
  | .finishCommit order =>
      match state.writer, state.commit with
      | some tx, .returning lsn => state.finishCommit order tx lsn
      | _, _ => state
  | .startCheckpoint sampled => { state with checkpoint := .flushing sampled }
  | .flushNext =>
      match state.checkpoint with
      | .flushing (id :: rest) => state.flushNext id rest
      | _ => state
  | .saveMeta =>
      match state.checkpoint with
      | .flushing [] =>
          { state.withPager state.manager.pager.syncBackend.saveMeta with
            checkpoint := .truncating }
      | _ => state
  | .truncate =>
      match state.checkpoint with
      | .truncating =>
          { state with
            manager := state.manager.setWAL state.manager.wal.truncate
            checkpoint := .idle }
      | _ => state

/-- The page can be loaded: it is cached, or the file has an image that `Flush`
has written. -/
def Available (pager : DefaultPager) (id : PageID) : Prop :=
  2 ≤ id.toNat ∧ id.toNat < pager.info.nextPageID.toNat ∧
  ((pager.cache.find id).isSome ∨
    ∃ image, SealedImage id image ∧
      pager.backend.readAt (pageOffset id) defaultPageSize = some image)

def GivenOut (pager : DefaultPager) (ref : Nat) : Prop :=
  ∃ id entry, pager.cache.find id = some entry ∧ entry.page = ref

/-- A write transaction waits for the writer lock and does nothing else while it
commits; it works on page objects that the pager has given out.  `RunOnce` waits
for the end of the last one and samples the dirty pages in some order. -/
def Allowed (state : Scheduler) : Action → Prop
  | .beginWrite => state.writer = none
  | .get id => Available state.manager.pager id
  | .modify ref _ => state.commit = .idle ∧ GivenOut state.manager.pager ref
  | .track ref => state.commit = .idle ∧ GivenOut state.manager.pager ref
  | .rollback => state.commit = .idle
  | .startCommit _ => state.commit = .idle
  | .startCheckpoint sampled =>
      state.checkpoint = .idle ∧ sampled.Perm state.manager.pager.dirtyIDs
  | _ => True

def Step (action : Action) (before after : Scheduler) : Prop :=
  before.Allowed action ∧ before.perform action = after

def opened (pager : DefaultPager) (lastLSN : LSN) (mode : SyncMode) :
    Scheduler where
  manager := TxnManager.newTxnManager pager
    (WAL.openWAL (.ofContents .empty) lastLSN) mode
  writer := none
  commit := .idle
  checkpoint := .idle
  logged := []
  committed := []

/-! ## What a checkpoint has to keep -/

/-- The bytes of an image without its sequence number and its checksum: `Flush`
seals a page again, under the number of its record. -/
def pageContent (image : Bytes) : Bytes :=
  image.take 12 ++ (image.drop 20).take 8 ++ image.drop 32

def OnFile (pager : DefaultPager) (image : PageImage) : Prop :=
  ∃ bytes,
    pager.backend.readAt (pageOffset image.id) defaultPageSize = some bytes ∧
    pageContent bytes = pageContent image.bytes

def HasUpdate (records : List WalRecord) (image : PageImage) : Prop :=
  ∃ record, record ∈ records ∧ record.type = .pageUpdate ∧
    record.txnID = image.txnID ∧ record.pageID = image.id ∧
    record.pageData = image.bytes

def HasCommit (records : List WalRecord) (txnID : TxnID) : Prop :=
  ∃ record, record ∈ records ∧ record.type = .txnCommit ∧
    record.txnID = txnID

/-- Every committed image is in the main file, that or a later one of its page,
or it is in the log. -/
def Kept (state : Scheduler) : Prop :=
  ∀ newer image older, state.committed = newer ++ image :: older →
    (∃ there, there ∈ newer ++ [image] ∧ there.id = image.id ∧
      OnFile state.manager.pager there) ∨
    (HasUpdate state.manager.wal.readAll image ∧
      HasCommit state.manager.wal.readAll image.txnID)

/-- `Commit` logs no page while `RunOnce` is between its sampling and its
truncation, `RunOnce` flushes no page that the open transaction has changed, and
no transaction that has changed a page is rolled back.  The offsets of pages
stay within the 63 bits of a file. -/
def Clear (action : Action) (state : Scheduler) : Prop :=
  match action with
  | .allocate _ => state.manager.pager.info.nextPageID.toNat < 2 ^ 49
  | .rollback =>
      ∀ tx, state.writer = some tx → tx.dirtyPages = []
  | .appendPage => state.checkpoint = .idle
  | .flushNext =>
      ∀ tx id rest, state.writer = some tx →
        state.checkpoint = .flushing (id :: rest) →
        ∀ ref, (id, ref) ∉ tx.dirtyPages
  | _ => True

end Scheduler

end CocoDB
