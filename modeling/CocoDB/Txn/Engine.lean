import CocoDB.Lib.Run
import CocoDB.Txn.WriteAhead

/-!
# Runs of the transaction manager

A transaction manager with its pager and its log, and the write transaction that
holds the writer lock.  The actions are the calls of the storage engine: `Begin`,
page accesses and modifications, `TrackDirty`, `Savepoint`, `RollbackTo`,
`Commit`, `Rollback`, and the flushing of pages.  `FlushAll` flushes pages one by
one and then saves the meta page, each an action of its own.
-/

namespace CocoDB

open Lib

/-- The manager and the open write transaction. -/
structure Engine where
  manager : TxnManager
  writer : Option Transaction

namespace Engine

inductive Action where
  | beginWrite (fails : Bool)
  | beginRead
  | endRead (snapshot : TxnID)
  | get (id : PageID)
  | allocate (type : PageType)
  | edit (ref : Nat) (edit : PageEdit)
  | markDirty (ref : Nat)
  | trackDirty (ref : Nat)
  | savepoint (name : String)
  | rollbackTo (order : MapOrder) (name : String)
  | commit (order : MapOrder) (faults : List Bool)
  | rollback (fails : Bool)
  | flush (syncFails writeFails : Bool) (id : PageID)
  | saveMeta (fails : Bool)

def withPager (pager : DefaultPager) (engine : Engine) : Engine :=
  { engine with manager := engine.manager.setPager pager }

/-- `SaveMeta` after the sync that ends `FlushAll`; when the write fails the
generation has gone up all the same. -/
def saveMeta (fails : Bool) (pager : DefaultPager) : DefaultPager :=
  if fails then
    { pager with
      info := { pager.info with generation := pager.info.generation + 1 } }
  else pager.syncBackend.saveMeta

/-- Perform an action.  A call of the open transaction does nothing when there
is none. -/
def perform (engine : Engine) : Action → Engine
  | .beginWrite fails =>
      let (tx, manager) := engine.manager.beginTxn fails false
      ⟨manager, some tx⟩
  | .beginRead =>
      { engine with manager := (engine.manager.beginTxn false true).2 }
  | .endRead snapshot =>
      { engine with manager := engine.manager.deregister snapshot }
  | .get id => engine.withPager (engine.manager.pager.get id).2
  | .allocate type => engine.withPager (engine.manager.pager.allocate type).2
  | .edit ref edit =>
      engine.withPager (engine.manager.pager.setObject ref
        (edit.apply (engine.manager.pager.heap ref)))
  | .markDirty ref => engine.withPager (engine.manager.pager.markDirty ref)
  | .trackDirty ref =>
      match engine.writer with
      | none => engine
      | some tx =>
          match tx.trackDirty ref engine.manager.pager with
          | .error _ => engine
          | .ok tracked => { engine with writer := some tracked }
  | .savepoint name =>
      match engine.writer with
      | none => engine
      | some tx =>
          match tx.savepoint name engine.manager.pager with
          | .error _ => engine
          | .ok saved => { engine with writer := some saved }
  | .rollbackTo order name =>
      match engine.writer with
      | none => engine
      | some tx =>
          match tx.rollbackTo order name engine.manager.pager with
          | .error _ => engine
          | .ok (restored, pager) =>
              { engine.withPager pager with writer := some restored }
  | .commit order faults =>
      match engine.writer with
      | none => engine
      | some tx => ⟨(engine.manager.commit order faults tx).2.2, none⟩
  | .rollback fails =>
      match engine.writer with
      | none => engine
      | some tx => ⟨(engine.manager.rollback fails tx).2, none⟩
  | .flush syncFails writeFails id =>
      engine.withPager
        (engine.manager.pager.tryFlush syncFails writeFails id).2
  | .saveMeta fails =>
      engine.withPager (saveMeta fails engine.manager.pager)

/-- A write transaction waits for the writer lock, and the two meta pages are
not accessed as pages. -/
def Allowed (engine : Engine) : Action → Prop
  | .beginWrite _ => engine.writer = none
  | .get id => 2 ≤ place id
  | _ => True

def Step (action : Action) (before after : Engine) : Prop :=
  before.Allowed action ∧ before.perform action = after

def appends (engine : Engine) : Action → Nat
  | .beginWrite _ => 1
  | .commit _ _ =>
      match engine.writer with
      | none => 0
      | some tx => tx.dirtyPages.length + 1
  | .rollback _ => 1
  | _ => 0

def NoWrap (action : Action) (engine : Engine) : Prop :=
  engine.manager.wal.lastLSN.toNat + engine.appends action < 2 ^ 64

end Engine

namespace TxnManager

variable {limit : Nat} {manager : TxnManager}

theorem wal_eq {wal : WAL} (logged : manager.pager.walFlusher = some wal) :
    manager.wal = wal := by
  rw [TxnManager.wal, logged, Option.getD_some]

theorem append_bounded (bounded : Bounded limit manager.pager)
    (room : limit + 1 < 2 ^ 64) (fails : Bool) (record : WalRecord) :
    Bounded (limit + 1) (manager.append fails record).2.pager ∧
    ∀ lsn, (manager.append fails record).1 = .ok lsn →
      lsn.toNat = limit + 1 := by
  obtain ⟨wal, logged, last⟩ := bounded.logged
  have next : (wal.lastLSN + 1).toNat = limit + 1 := by
    rw [toNat_succ64 (by rwa [last]), last]
  have grown : ∀ after : WAL, after.lastLSN = wal.lastLSN + 1 →
      Bounded (limit + 1)
        { manager.pager with walFlusher := some after } := by
    intro after same
    have number : after.lastLSN.toNat = limit + 1 := by rw [same, next]
    rw [← number]
    exact bounded.mono (by rw [number]; exact Nat.le_succ limit)
  simp only [append, wal_eq logged, setWAL]
  cases fails with
  | true =>
      exact ⟨grown _ rfl, fun lsn failed => (nomatch failed)⟩
  | false =>
      refine ⟨grown _ rfl, fun lsn done => ?_⟩
      rw [← Except.ok.inj done]
      exact next

theorem logPages_bounded (txnID : TxnID) {pages : List (PageID × Nat)}
    (bounded : Bounded limit manager.pager)
    (room : limit + pages.length < 2 ^ 64) (faults : List Bool) :
    ∃ last, limit ≤ last ∧ last ≤ limit + pages.length ∧
      Bounded last (manager.logPages txnID pages faults).2.pager := by
  induction pages generalizing limit manager faults with
  | nil => exact ⟨limit, Nat.le_refl _, Nat.le_refl _, bounded⟩
  | cons entry rest inductionHypothesis =>
      obtain ⟨id, ref⟩ := entry
      rw [List.length_cons] at room ⊢
      have page := (bounded.object ref).sealPage
      have sealed : Bounded limit (manager.setPager
          (manager.pager.setObject ref
            (manager.pager.heap ref).sealPage)).pager :=
        bounded.setObject page ref
      obtain ⟨grown, number⟩ := append_bounded sealed (by omega)
        (faults.headD false) (WalRecord.newPageUpdate txnID id
          (manager.pager.heap ref).sealPage.image)
      rcases shape : TxnManager.append (faults.headD false)
        (WalRecord.newPageUpdate txnID id
          (manager.pager.heap ref).sealPage.image)
        (manager.setPager (manager.pager.setObject ref
          (manager.pager.heap ref).sealPage)) with ⟨outcome, after⟩
      rw [shape] at grown number
      cases outcome with
      | error error =>
          simp only [logPages, shape]
          exact ⟨limit + 1, by omega, by omega, grown⟩
      | ok lsn =>
          simp only [logPages, shape]
          have given := number lsn rfl
          have stamped := page.mono (Nat.le_succ limit)
          let numbered : Page :=
            { (manager.pager.heap ref).sealPage with
              header := { (manager.pager.heap ref).sealPage.header with
                lsn := lsn } }
          have bound : PageBound (limit + 1) numbered :=
            ⟨Nat.le_of_eq given, stamped.field⟩
          have stored : Bounded (limit + 1) (after.setPager
              ((after.pager.setObject ref numbered).markDirty ref)).pager :=
            (grown.setObject bound ref).markDirty ref
          obtain ⟨last, low, high, done⟩ :=
            inductionHypothesis stored (by omega) faults.tail
          exact ⟨last, by omega, by omega, done⟩

theorem syncLog_bounded (bounded : Bounded limit manager.pager)
    (fails : Bool) (lastLSN : LSN) :
    Bounded limit (manager.syncLog fails lastLSN).2.pager := by
  obtain ⟨wal, logged, last⟩ := bounded.logged
  have synced : ∀ after : WAL, after.lastLSN = wal.lastLSN →
      Bounded limit { manager.pager with walFlusher := some after } :=
    fun after same => bounded.withLog (by rw [same, last])
  have syncs : (wal.trySync fails).2.lastLSN = wal.lastLSN := by
    cases fails <;> rfl
  unfold syncLog
  split
  · simp only [wal_eq logged, setWAL, WAL.tryFlush]
    split
    · exact synced _ rfl
    · exact synced _ syncs
  · simp only [wal_eq logged, setWAL]
    exact synced _ syncs
  · exact bounded

theorem commitWrites_bounded (order : MapOrder) (faults : List Bool)
    {tx : Transaction} (bounded : Bounded limit manager.pager)
    (room : limit + (tx.dirtyPages.length + 1) < 2 ^ 64) :
    ∃ last, limit ≤ last ∧
      Bounded last (manager.commitWrites order faults tx).2.pager := by
  have count := (order.pages_perm tx.dirtyPages).length_eq
  obtain ⟨last, low, high, logged⟩ := logPages_bounded tx.txnID bounded
    (by rw [count]; omega) faults
  rw [count] at high
  rcases shape : manager.logPages tx.txnID (order.pages tx.dirtyPages) faults
    with ⟨outcome, after⟩
  rw [shape] at logged
  cases outcome with
  | error error =>
      simp only [commitWrites, shape]
      exact ⟨last, low, logged⟩
  | ok left =>
      obtain ⟨grown, _⟩ := append_bounded logged (by omega)
        (left.headD false) (WalRecord.newTxnCommit tx.txnID)
      rcases recorded : after.append (left.headD false)
        (WalRecord.newTxnCommit tx.txnID) with ⟨outcome, recordedManager⟩
      rw [recorded] at grown
      refine ⟨last + 1, Nat.le_succ_of_le low, ?_⟩
      cases outcome with
      | error error =>
          simp only [commitWrites, shape, recorded]
          exact grown
      | ok commitLSN =>
          have durable := syncLog_bounded grown (left.tail.headD false)
            commitLSN
          rcases synced : recordedManager.syncLog (left.tail.headD false)
            commitLSN with ⟨outcome, syncedManager⟩
          rw [synced] at durable
          cases outcome with
          | error error =>
              simp only [commitWrites, shape, recorded, synced]
              exact durable
          | ok done =>
              simp only [commitWrites, shape, recorded, synced]
              exact durable.withInfo rfl rfl rfl

theorem removeAll_bounded {pager : DefaultPager}
    (bounded : Bounded limit pager) (pages : List (PageID × Nat)) :
    Bounded limit (removeAll pages pager) := by
  induction pages generalizing pager with
  | nil => exact bounded
  | cons entry rest inductionHypothesis =>
      exact inductionHypothesis (bounded.withCache _)

theorem commit_bounded (order : MapOrder) (faults : List Bool)
    {tx : Transaction} (bounded : Bounded limit manager.pager)
    (room : limit + (tx.dirtyPages.length + 1) < 2 ^ 64) :
    ∃ last, limit ≤ last ∧
      Bounded last (manager.commit order faults tx).2.2.pager := by
  unfold commit
  split
  · split
    · exact ⟨limit, Nat.le_refl _, bounded⟩
    · exact commitWrites_bounded order faults bounded room
  · exact ⟨limit, Nat.le_refl _, bounded⟩

theorem rollback_bounded (fails : Bool) {tx : Transaction}
    (bounded : Bounded limit manager.pager) (room : limit + 1 < 2 ^ 64) :
    ∃ last, limit ≤ last ∧
      Bounded last (manager.rollback fails tx).2.pager := by
  unfold rollback
  split
  · split
    · exact ⟨limit, Nat.le_refl _, bounded⟩
    · obtain ⟨grown, _⟩ := append_bounded bounded room fails
        (WalRecord.newTxnAbort tx.txnID)
      exact ⟨limit + 1, Nat.le_succ _, removeAll_bounded grown _⟩
  · exact ⟨limit, Nat.le_refl _, bounded⟩

theorem beginTxn_bounded (fails readOnly : Bool)
    (bounded : Bounded limit manager.pager)
    (room : readOnly = false → limit + 1 < 2 ^ 64) :
    ∃ last, limit ≤ last ∧
      Bounded last (manager.beginTxn fails readOnly).2.pager := by
  unfold beginTxn
  split
  · exact ⟨limit, Nat.le_refl _, bounded⟩
  · rename_i writes
    have bound : Bounded limit
        { manager with lastTxnID := manager.lastTxnID + 1 }.pager := bounded
    obtain ⟨grown, _⟩ := append_bounded bound
      (room (Bool.not_eq_true _ ▸ writes)) fails
      (WalRecord.marker .txnBegin (manager.lastTxnID + 1))
    exact ⟨limit + 1, Nat.le_succ _, grown⟩

end TxnManager

namespace Transaction

variable {limit : Nat} {pager : DefaultPager} {tx : Transaction}

def CopiesBound (limit : Nat) (copies : List (PageID × Bytes)) : Prop :=
  ∀ copy, copy ∈ copies →
    copy.2.length = defaultPageSize ∧ lsnOf copy.2 ≤ limit

def Bound (limit : Nat) (tx : Transaction) : Prop :=
  ∀ saved, saved ∈ tx.savepoints → CopiesBound limit saved.pageCopies

theorem Bound.mono {more : Nat} (bound : tx.Bound limit)
    (larger : limit ≤ more) : tx.Bound more := by
  intro saved member copy inside
  obtain ⟨full, small⟩ := bound saved member copy inside
  exact ⟨full, Nat.le_trans small larger⟩

theorem Bound.savepoint {saved : Transaction} {name : String}
    (bound : tx.Bound limit) (bounded : Bounded limit pager)
    (done : tx.savepoint name pager = .ok saved) : saved.Bound limit := by
  unfold Transaction.savepoint at done
  split at done
  · cases done
  · split at done
    · rw [← Except.ok.inj done]
      intro state member
      rcases List.mem_cons.mp member with rfl | old
      · intro copy inside
        obtain ⟨entry, _, rfl⟩ := List.mem_map.mp inside
        refine ⟨Buf.read_length _ _ _, ?_⟩
        rw [lsnOf_image]
        exact (bounded.object entry.2).field
      · exact bound state (List.mem_filter.mp old).1
    · cases done

theorem trackDirty_savepoints {tracked : Transaction} {ref : Nat}
    (done : tx.trackDirty ref pager = .ok tracked) :
    tracked.savepoints = tx.savepoints := by
  unfold Transaction.trackDirty at done
  split at done
  · cases done
  · split at done
    · rw [← Except.ok.inj done]
    · cases done

theorem restorePages_bounded {copies : List (PageID × Bytes)}
    (bound : CopiesBound limit copies) (bounded : Bounded limit pager)
    (pages dirty : List (PageID × Nat)) :
    Bounded limit (restorePages copies pages (dirty, pager)).2 := by
  induction pages generalizing dirty pager with
  | nil => exact bounded
  | cons entry rest inductionHypothesis =>
      obtain ⟨id, ref⟩ := entry
      cases found : copies.find? fun copy => copy.1 = id with
      | some copy =>
          simp only [restorePages, found]
          obtain ⟨full, small⟩ := bound copy (List.mem_of_find?_eq_some found)
          refine inductionHypothesis (bounded.setObject ?_ ref) dirty
          refine pageBound_decode ?_ _
          rw [lsnAt_write_front full]
          exact small
      | none =>
          simp only [restorePages, found]
          exact inductionHypothesis (bounded.withCache _) _

theorem rollbackTo_bounded {order : MapOrder} {name : String}
    {restored : Transaction} {after : DefaultPager}
    (bound : tx.Bound limit) (bounded : Bounded limit pager)
    (done : tx.rollbackTo order name pager = .ok (restored, after)) :
    restored.Bound limit ∧ Bounded limit after := by
  unfold Transaction.rollbackTo at done
  split at done
  · cases done
  · split at done
    · split at done
      · cases done
      · rename_i saved found
        have member := List.mem_of_find?_eq_some found
        obtain ⟨rfl, rfl⟩ := Prod.mk.inj (Except.ok.inj done)
        exact ⟨bound, restorePages_bounded (bound saved member) bounded _ _⟩
    · cases done

end Transaction

namespace Engine

def Inv (engine : Engine) : Prop :=
  ∃ limit, Bounded limit engine.manager.pager ∧
    ∀ tx, engine.writer = some tx → tx.Bound limit

variable {engine : Engine}

theorem inv_withPager {limit : Nat} {pager : DefaultPager}
    (bounded : Bounded limit pager)
    (saved : ∀ tx, engine.writer = some tx → tx.Bound limit) :
    (engine.withPager pager).Inv :=
  ⟨limit, bounded, saved⟩

theorem inv_withWriter {limit : Nat} {manager : TxnManager} {tx : Transaction}
    (bounded : Bounded limit manager.pager) (bound : tx.Bound limit) :
    Inv ⟨manager, some tx⟩ :=
  ⟨limit, bounded, fun _ same => Option.some.inj same ▸ bound⟩

theorem saveMeta_bounded {limit : Nat} {pager : DefaultPager}
    (bounded : Bounded limit pager) (fails : Bool) :
    Bounded limit (saveMeta fails pager) := by
  cases fails with
  | true => exact bounded.withInfo rfl rfl rfl
  | false =>
      have synced : Bounded limit pager.syncBackend :=
        ⟨bounded.logged, bounded.object, bounded.file, bounded.formed,
          bounded.noFree⟩
      exact synced.saveMeta

theorem inv_perform {action : Action} (inv : engine.Inv)
    (allowed : engine.Allowed action) (room : NoWrap action engine) :
    (engine.perform action).Inv := by
  obtain ⟨limit, bounded, saved⟩ := inv
  have last : engine.manager.wal.lastLSN.toNat = limit := by
    obtain ⟨wal, logged, last⟩ := bounded.logged
    rw [TxnManager.wal_eq logged, last]
  rw [NoWrap, last] at room
  cases action with
  | beginWrite fails =>
      obtain ⟨grown, _, after⟩ := TxnManager.beginTxn_bounded fails false
        bounded fun _ => room
      refine ⟨grown, after, ?_⟩
      intro tx begun state member
      have none : tx.savepoints = [] := by
        rw [← Option.some.inj begun]
      rw [none] at member
      cases member
  | beginRead =>
      exact ⟨limit, bounded, saved⟩
  | endRead snapshot => exact ⟨limit, bounded, saved⟩
  | get id => exact inv_withPager (bounded.get allowed) saved
  | allocate type => exact inv_withPager (bounded.allocate type) saved
  | edit ref edit =>
      exact inv_withPager
        (bounded.setObject ((bounded.object ref).apply edit) ref) saved
  | markDirty ref => exact inv_withPager (bounded.markDirty ref) saved
  | trackDirty ref =>
      cases open_ : engine.writer with
      | none =>
          simp only [perform, open_]
          exact ⟨limit, bounded, saved⟩
      | some tx =>
          cases tracked : tx.trackDirty ref engine.manager.pager with
          | error error =>
              simp only [perform, open_, tracked]
              exact ⟨limit, bounded, saved⟩
          | ok after =>
              simp only [perform, open_, tracked]
              refine inv_withWriter bounded ?_
              rw [Transaction.Bound,
                Transaction.trackDirty_savepoints tracked]
              exact saved tx open_
  | savepoint name =>
      cases open_ : engine.writer with
      | none =>
          simp only [perform, open_]
          exact ⟨limit, bounded, saved⟩
      | some tx =>
          cases done : tx.savepoint name engine.manager.pager with
          | error error =>
              simp only [perform, open_, done]
              exact ⟨limit, bounded, saved⟩
          | ok after =>
              simp only [perform, open_, done]
              exact inv_withWriter bounded
                ((saved tx open_).savepoint bounded done)
  | rollbackTo order name =>
      cases open_ : engine.writer with
      | none =>
          simp only [perform, open_]
          exact ⟨limit, bounded, saved⟩
      | some tx =>
          cases done : tx.rollbackTo order name engine.manager.pager with
          | error error =>
              simp only [perform, open_, done]
              exact ⟨limit, bounded, saved⟩
          | ok pair =>
              obtain ⟨restored, pager⟩ := pair
              simp only [perform, open_, done]
              obtain ⟨bound, after⟩ := Transaction.rollbackTo_bounded
                (saved tx open_) bounded done
              exact inv_withWriter after bound
  | commit order faults =>
      cases open_ : engine.writer with
      | none =>
          simp only [perform, open_]
          exact ⟨limit, bounded, saved⟩
      | some tx =>
          simp only [appends, open_] at room
          simp only [perform, open_]
          obtain ⟨grown, _, after⟩ := TxnManager.commit_bounded order faults
            bounded room
          exact ⟨grown, after, fun _ closed => (nomatch closed)⟩
  | rollback fails =>
      cases open_ : engine.writer with
      | none =>
          simp only [perform, open_]
          exact ⟨limit, bounded, saved⟩
      | some tx =>
          simp only [perform, open_]
          obtain ⟨grown, _, after⟩ := TxnManager.rollback_bounded fails
            bounded room
          exact ⟨grown, after, fun _ closed => (nomatch closed)⟩
  | flush syncFails writeFails id =>
      exact inv_withPager (bounded.tryFlush syncFails writeFails id) saved
  | saveMeta fails =>
      exact inv_withPager (saveMeta_bounded bounded fails) saved

theorem inv_step {action : Action} {before after : Engine}
    (inv : before.Inv) (step : Guarded NoWrap Step action before after) :
    after.Inv := by
  obtain ⟨room, allowed, rfl⟩ := step
  exact inv_perform inv allowed room

def created (pager : DefaultPager) (mode : SyncMode) : Engine where
  manager := TxnManager.newTxnManager pager
    (WAL.openWAL (.ofContents .empty) pager.info.lastLSN) mode
  writer := none

theorem inv_created {pager : DefaultPager} {maxCacheBytes : Nat}
    {randomA randomB : Bytes} (sizedA : randomA.length = 16)
    (sizedB : randomB.length = 16)
    (opened : DefaultPager.openPager (.ofContents .empty) maxCacheBytes false
      randomA randomB = .ok pager) (mode : SyncMode) :
    (created pager mode).Inv := by
  have lengthA := (MetaPage.newInitial_wellFormed sizedA).encode_length
  have lengthB : ({ MetaPage.newInitial randomB with
      generation := 0 } : MetaPage).encode.length = defaultPageSize :=
    MetaPage.WellFormed.encode_length ⟨sizedB, rfl⟩
  have shape := Except.ok.inj opened
  refine ⟨0, ⟨⟨_, rfl, ?_⟩, ?_, ?_, ?_, ?_⟩, fun _ none => (nomatch none)⟩
  · rw [← shape]
    rfl
  · intro ref
    have blank : (created pager mode).manager.pager.heap ref =
        DefaultPager.parsePage [] := by
      rw [← shape]
      rfl
    rw [blank]
    refine pageBound_decode ?_ false
    rw [Buf.write_nil]
    exact Nat.le_of_eq (lsnAt_zero 0)
  · intro page ordinary
    have data : (created pager mode).manager.pager.backend.contents.data =
        (Buf.zero.write 0 (MetaPage.newInitial randomA).encode).write
          defaultPageSize { MetaPage.newInitial randomB with
            generation := 0 }.encode := by
      rw [← shape]
      rfl
    rw [data, lsnAt, Buf.read_write_disjoint, Buf.read_write_disjoint]
    · exact Nat.le_of_eq (lsnAt_zero _)
    · right
      rw [lengthA]
      unfold defaultPageSize
      omega
    · right
      rw [lengthB]
      unfold defaultPageSize
      omega
  · rw [created, TxnManager.newTxnManager, ← shape]
    exact MetaPage.newInitial_wellFormed sizedA
  · rw [created, TxnManager.newTxnManager, ← shape]
    rfl

/-- The write-ahead rule for one flush: a page that is written carries no number
beyond what is durable, and when the sync fails the page is not written and
stays dirty. -/
structure WriteAhead (syncFails : Bool) (id : PageID)
    (before after : DefaultPager) (outcome : Except Error Unit) : Prop where
  durable : after.backend.trace ≠ before.backend.trace →
    ∃ entry wal, before.cache.find id = some entry ∧
      after.walFlusher = some wal ∧
      (before.heap entry.page).header.lsn ≤ wal.durableLSN
  unsynced : ∀ entry wal, before.cache.find id = some entry →
    (before.heap entry.page).dirty = true → before.walFlusher = some wal →
    wal.durableLSN < (before.heap entry.page).header.lsn →
    syncFails = true →
    outcome = .error .backendSync ∧ after.backend = before.backend ∧
      (after.heap entry.page).dirty = true

theorem writeAhead_of_bounded {limit : Nat} {pager : DefaultPager}
    (bounded : Bounded limit pager) (syncFails writeFails : Bool)
    (id : PageID) :
    WriteAhead syncFails id pager
      (pager.tryFlush syncFails writeFails id).2
      (pager.tryFlush syncFails writeFails id).1 := by
  obtain ⟨wal, logged, last⟩ := bounded.logged
  cases found : pager.cache.find id with
  | none =>
      rw [DefaultPager.tryFlush_missing found]
      refine ⟨fun changed => absurd rfl changed, ?_⟩
      intro entry _ cached
      rw [found] at cached
      cases cached
  | some entry =>
      cases dirty : (pager.heap entry.page).dirty with
      | false =>
          rw [DefaultPager.tryFlush_clean found dirty]
          refine ⟨fun changed => absurd rfl changed, ?_⟩
          intro other _ cached marked
          rw [found] at cached
          rw [← Option.some.inj cached, dirty] at marked
          cases marked
      | true =>
          have sameLog : (pager.touched id).walFlusher = some wal := logged
          rcases DefaultPager.flushLog_cases sameLog syncFails
            (pager.heap entry.page).header.lsn with
            ⟨failed, _, _⟩ | ⟨flushed, done, same, durable, synced⟩
          · rw [DefaultPager.tryFlush_unsynced found dirty failed]
            refine ⟨fun changed => absurd rfl changed, ?_⟩
            intro other _ cached marked _ _ _
            exact ⟨rfl, rfl, marked⟩
          · rw [DefaultPager.tryFlush_synced found dirty done]
            have given : (pager.heap entry.page).header.lsn ≤ wal.lastLSN := by
              rw [UInt64.le_iff_toNat_le, last]
              exact (bounded.object entry.page).header
            refine ⟨fun _ => ⟨entry, flushed, found, ?_, durable given⟩, ?_⟩
            · rcases DefaultPager.writeBack_cases entry.page with
                shape | ⟨_, _, shape⟩
              · rw [shape]
                rfl
              · rw [shape]
                rfl
            · intro other log cached _ sameWAL behind fails
              rw [found] at cached
              rw [logged] at sameWAL
              rw [← Option.some.inj cached, ← Option.some.inj sameWAL]
                at behind
              exact absurd (synced fails) (UInt64.not_le.mpr behind)

def samplePager : DefaultPager :=
  .fresh
    (Backend.sync
      { Backend.ofContents .empty with
        contents := Contents.empty.writes
          [⟨0, (MetaPage.newInitial (List.replicate 16 0)).encode⟩,
            ⟨defaultPageSize, { MetaPage.newInitial (List.replicate 16 0) with
              generation := 0 }.encode⟩]
        trace :=
          [⟨0, (MetaPage.newInitial (List.replicate 16 0)).encode⟩,
            ⟨defaultPageSize, { MetaPage.newInitial (List.replicate 16 0) with
              generation := 0 }.encode⟩] })
    (MetaPage.newInitial (List.replicate 16 0)) DefaultPager.slotA 0 false

theorem samplePager_opened :
    DefaultPager.openPager (.ofContents .empty) 0 false (List.replicate 16 0)
      (List.replicate 16 0) = .ok samplePager := rfl

def sampleEngine : Engine :=
  ((created samplePager .full).perform (.beginWrite false)).perform
    (.allocate .pageRecord)

end Engine

/-! ## Flushing without failures -/

theorem WAL.tryFlush_false (wal : WAL) (lsn : LSN) :
    wal.tryFlush false lsn = (.ok (), wal.flush lsn) := by
  unfold WAL.tryFlush WAL.flush
  split <;> rfl

namespace DefaultPager

variable {pager : DefaultPager}

theorem flushLog_false (pager : DefaultPager) (lsn : LSN) :
    pager.flushLog false lsn =
      (.ok (),
        if 0 < lsn then
          { pager with walFlusher := pager.walFlusher.map (WAL.flush lsn) }
        else pager) := by
  cases logged : pager.walFlusher with
  | none =>
      have same : { pager with walFlusher := none } = pager := by
        rw [← logged]
      simp only [flushLog, logged, Option.map_none, same, ite_self]
  | some wal =>
      simp only [flushLog, logged, WAL.tryFlush_false, Option.map_some]
      split <;> rfl

theorem tryFlush_eq_flush (id : PageID) :
    pager.tryFlush false false id = pager.flush id := by
  cases found : pager.cache.find id with
  | none =>
      obtain ⟨cache, shape⟩ := get_of_find found
      rw [tryFlush_missing found]
      simp only [flush, shape, Option.map_none]
  | some entry =>
      obtain ⟨cache, shape⟩ := get_of_find found
      cases dirty : (pager.heap entry.page).dirty with
      | false =>
          rw [tryFlush_clean found dirty]
          simp only [flush, touched, shape, Option.map_some, dirty,
            Bool.false_eq_true, if_false]
      | true =>
          have logged := flushLog_false (pager.touched id)
            (pager.heap entry.page).header.lsn
          rw [tryFlush_synced found dirty logged]
          by_cases positive : 0 < (pager.heap entry.page).header.lsn
          · simp only [flush, touched, shape, Option.map_some, dirty,
              if_true, if_pos positive, writeBack, Bool.false_eq_true,
              if_false]
          · simp only [flush, touched, shape, Option.map_some, dirty,
              if_true, if_neg positive, writeBack, Bool.false_eq_true,
              if_false]

end DefaultPager

namespace Engine

theorem flushEach_run {ids : List PageID} {engine : Engine}
    {after : DefaultPager}
    (flushed : DefaultPager.flushEach ids engine.manager.pager =
      (.ok (), after)) :
    Execution Step engine (ids.map (.flush false false))
      (engine.withPager after) := by
  induction ids generalizing engine with
  | nil =>
      have same : engine.manager.pager = after := congrArg Prod.snd flushed
      rw [← same]
      exact .nil engine
  | cons id rest inductionHypothesis =>
      rcases first : engine.manager.pager.flush id with ⟨outcome, next⟩
      cases outcome with
      | error error =>
          simp only [DefaultPager.flushEach, first] at flushed
          cases congrArg Prod.fst flushed
      | ok done =>
          simp only [DefaultPager.flushEach, first] at flushed
          have step : Step (.flush false false id) engine
              (engine.withPager next) := by
            refine ⟨trivial, ?_⟩
            simp only [perform, DefaultPager.tryFlush_eq_flush, first]
          have later := @inductionHypothesis (engine.withPager next) flushed
          exact .cons step later

theorem flushAll_run {order : List PageID → List PageID} {engine : Engine}
    {after : DefaultPager}
    (flushed : engine.manager.pager.flushAll order = (.ok (), after)) :
    Execution Step engine
      ((order engine.manager.pager.dirtyIDs).map (.flush false false) ++
        [.saveMeta false]) (engine.withPager after) := by
  rcases each : DefaultPager.flushEach (order engine.manager.pager.dirtyIDs)
    engine.manager.pager with ⟨outcome, written⟩
  cases outcome with
  | error error =>
      simp only [DefaultPager.flushAll, each] at flushed
      cases congrArg Prod.fst flushed
  | ok done =>
      simp only [DefaultPager.flushAll, each] at flushed
      have final : written.syncBackend.saveMeta = after :=
        congrArg Prod.snd flushed
      have step : Step (.saveMeta false) (engine.withPager written)
          (engine.withPager after) := by
        refine ⟨trivial, ?_⟩
        rw [← final]
        rfl
      exact (flushEach_run each).append (.cons step (.nil _))

theorem flushAll_run_sample :
    ∃ after, Execution Step sampleEngine
      ((sampleEngine.manager.pager.dirtyIDs).map (.flush false false) ++
        [.saveMeta false]) (sampleEngine.withPager after) :=
  ⟨_, @flushAll_run id _ _ rfl⟩

end Engine

end CocoDB
