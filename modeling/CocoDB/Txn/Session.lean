import CocoDB.Txn.Engine
import CocoDB.Wal.RecoverCrash

/-!
# Sessions

Opening a database, working on it and losing it again, over and over.  `Open`
reads the meta page, opens the log with the last sequence number it names,
recovers, and starts the transaction manager from the last transaction the meta
page names.  A session ends with a clean close or with a crash; what either
leaves in the two files is not restricted here, the results are about whatever
the next `Open` finds.
-/

namespace CocoDB

open Lib

/-! ## Numbers only grow -/

def LogAt (last : Nat) (pager : DefaultPager) : Prop :=
  ∃ wal, pager.walFlusher = some wal ∧ wal.lastLSN.toNat = last

namespace LogAt

variable {last : Nat} {pager after : DefaultPager}

theorem of_eq (logged : LogAt last pager)
    (same : after.walFlusher = pager.walFlusher) : LogAt last after := by
  obtain ⟨wal, held, number⟩ := logged
  exact ⟨wal, same.trans held, number⟩

theorem markDirty_walFlusher (pager : DefaultPager) (ref : Nat) :
    (pager.markDirty ref).walFlusher = pager.walFlusher := by
  unfold DefaultPager.markDirty
  simp only
  split <;> rfl

theorem get_walFlusher (pager : DefaultPager) (id : PageID) :
    (pager.get id).2.walFlusher = pager.walFlusher := by
  unfold DefaultPager.get
  split
  · rfl
  · split
    · rfl
    · simp only
      split <;> rfl

theorem createPage_walFlusher (pager : DefaultPager) (id : PageID)
    (type : PageType) :
    (pager.createPage id type).2.walFlusher = pager.walFlusher :=
  markDirty_walFlusher _ _

theorem allocate_walFlusher (pager : DefaultPager) (type : PageType) :
    (pager.allocate type).2.walFlusher = pager.walFlusher := by
  unfold DefaultPager.allocate
  split
  · exact createPage_walFlusher _ _ _
  · have loaded := get_walFlusher pager pager.info.freeListRoot
    split
    · rename_i failed
      rw [failed] at loaded
      exact (createPage_walFlusher _ _ _).trans loaded
    · rename_i listRef found
      rw [found] at loaded
      simp only
      split
      · refine (createPage_walFlusher _ _ _).trans ?_
        split
        · exact (markDirty_walFlusher _ _).trans loaded
        · exact (markDirty_walFlusher _ _).trans loaded
      · exact (createPage_walFlusher _ _ _).trans loaded

theorem tryFlush (logged : LogAt last pager) (syncFails writeFails : Bool)
    (id : PageID) : LogAt last (pager.tryFlush syncFails writeFails id).2 := by
  obtain ⟨wal, held, number⟩ := logged
  cases found : pager.cache.find id with
  | none =>
      rw [DefaultPager.tryFlush_missing found]
      exact ⟨wal, held, number⟩
  | some entry =>
      cases dirty : (pager.heap entry.page).dirty with
      | false =>
          rw [DefaultPager.tryFlush_clean found dirty]
          exact ⟨wal, held, number⟩
      | true =>
          have sameLog : (pager.touched id).walFlusher = some wal := held
          rcases DefaultPager.flushLog_cases sameLog syncFails
            (pager.heap entry.page).header.lsn with
            ⟨failed, _, _⟩ | ⟨flushed, done, same, _, _⟩
          · rw [DefaultPager.tryFlush_unsynced found dirty failed]
            exact ⟨wal, held, number⟩
          · rw [DefaultPager.tryFlush_synced found dirty done]
            refine ⟨flushed, ?_, by rw [same, number]⟩
            rcases DefaultPager.writeBack_cases entry.page with
              shape | ⟨_, _, shape⟩
            · rw [shape]
              rfl
            · rw [shape]
              rfl

theorem saveMeta (logged : LogAt last pager) (fails : Bool) :
    LogAt last (Engine.saveMeta fails pager) := by
  refine logged.of_eq ?_
  cases fails with
  | true => rfl
  | false =>
      unfold Engine.saveMeta DefaultPager.saveMeta
      rw [if_neg (by decide)]
      split <;> rfl

end LogAt

namespace TxnManager

variable {last : Nat} {manager : TxnManager}

theorem logAt_wal (logged : LogAt last manager.pager) :
    manager.wal.lastLSN.toNat = last := by
  obtain ⟨wal, held, number⟩ := logged
  rw [wal_eq held, number]

theorem append_logAt (logged : LogAt last manager.pager)
    (room : last + 1 < 2 ^ 64) (fails : Bool) (record : WalRecord) :
    LogAt (last + 1) (manager.append fails record).2.pager := by
  obtain ⟨wal, held, number⟩ := logged
  have next : (wal.lastLSN + 1).toNat = last + 1 := by
    rw [toNat_succ64 (by rwa [number]), number]
  simp only [append, wal_eq held, setWAL]
  cases fails with
  | true => exact ⟨_, rfl, next⟩
  | false => exact ⟨_, rfl, next⟩

theorem logPages_logAt (txnID : TxnID) {pages : List (PageID × Nat)}
    (logged : LogAt last manager.pager)
    (room : last + pages.length < 2 ^ 64) (faults : List Bool) :
    ∃ more, last ≤ more ∧ more ≤ last + pages.length ∧
      LogAt more (manager.logPages txnID pages faults).2.pager ∧
      ((manager.logPages txnID pages faults).2.lastTxnID =
        manager.lastTxnID) := by
  induction pages generalizing last manager faults with
  | nil => exact ⟨last, Nat.le_refl _, Nat.le_refl _, logged, rfl⟩
  | cons entry rest inductionHypothesis =>
      obtain ⟨id, ref⟩ := entry
      rw [List.length_cons] at room ⊢
      let sealed := manager.setPager (manager.pager.setObject ref
        (manager.pager.heap ref).sealPage)
      let record := WalRecord.newPageUpdate txnID id
        (manager.pager.heap ref).sealPage.image
      have before : LogAt last sealed.pager := logged
      have grown := append_logAt before (by omega) (faults.headD false) record
      rcases shape : sealed.append (faults.headD false) record with
        ⟨outcome, after⟩
      have same : after.lastTxnID = manager.lastTxnID := by
        rw [show after = (sealed.append (faults.headD false) record).2 from
          (congrArg Prod.snd shape).symm]
        rfl
      rw [shape] at grown
      cases outcome with
      | error error =>
          simp only [logPages, sealed, record] at shape ⊢
          simp only [shape]
          exact ⟨last + 1, by omega, by omega, grown, same⟩
      | ok lsn =>
          simp only [logPages, sealed, record] at shape ⊢
          simp only [shape]
          let numbered : Page :=
            { (manager.pager.heap ref).sealPage with
              header := { (manager.pager.heap ref).sealPage.header with
                lsn := lsn } }
          have stored : LogAt (last + 1) (after.setPager
              ((after.pager.setObject ref numbered).markDirty ref)).pager :=
            grown.of_eq (LogAt.markDirty_walFlusher _ _)
          obtain ⟨more, low, high, done, kept⟩ :=
            inductionHypothesis stored (by omega) faults.tail
          exact ⟨more, by omega, by omega, done, kept.trans same⟩

theorem syncLog_logAt (logged : LogAt last manager.pager) (fails : Bool)
    (lastLSN : LSN) :
    LogAt last (manager.syncLog fails lastLSN).2.pager ∧
    (manager.syncLog fails lastLSN).2.lastTxnID = manager.lastTxnID := by
  obtain ⟨wal, held, number⟩ := logged
  have syncs : (wal.trySync fails).2.lastLSN = wal.lastLSN := by
    cases fails <;> rfl
  unfold syncLog
  split
  · refine ⟨?_, rfl⟩
    simp only [wal_eq held, setWAL, WAL.tryFlush]
    split
    · exact ⟨_, rfl, number⟩
    · exact ⟨_, rfl, by rw [syncs, number]⟩
  · refine ⟨?_, rfl⟩
    simp only [wal_eq held, setWAL]
    exact ⟨_, rfl, by rw [syncs, number]⟩
  · exact ⟨⟨wal, held, number⟩, rfl⟩

theorem commitWrites_logAt (order : MapOrder) (faults : List Bool)
    {tx : Transaction} (logged : LogAt last manager.pager)
    (room : last + (tx.dirtyPages.length + 1) < 2 ^ 64) :
    ∃ more, last ≤ more ∧
      LogAt more (manager.commitWrites order faults tx).2.pager ∧
      (manager.commitWrites order faults tx).2.lastTxnID =
        manager.lastTxnID := by
  have count := (order.pages_perm tx.dirtyPages).length_eq
  obtain ⟨more, low, high, written, sameID⟩ := logPages_logAt tx.txnID logged
    (by rw [count]; omega) faults
  rw [count] at high
  rcases shape : manager.logPages tx.txnID (order.pages tx.dirtyPages) faults
    with ⟨outcome, after⟩
  rw [shape] at written sameID
  cases outcome with
  | error error =>
      simp only [commitWrites, shape]
      exact ⟨more, low, written, sameID⟩
  | ok left =>
      have grown := append_logAt written (by omega) (left.headD false)
        (WalRecord.newTxnCommit tx.txnID)
      rcases recorded : after.append (left.headD false)
        (WalRecord.newTxnCommit tx.txnID) with ⟨outcome, recordedManager⟩
      have recordedID : recordedManager.lastTxnID = manager.lastTxnID := by
        have same : (after.append (left.headD false)
          (WalRecord.newTxnCommit tx.txnID)).2.lastTxnID =
            after.lastTxnID := rfl
        rw [recorded] at same
        exact same.trans sameID
      rw [recorded] at grown
      refine ⟨more + 1, Nat.le_succ_of_le low, ?_⟩
      cases outcome with
      | error error =>
          simp only [commitWrites, shape, recorded]
          exact ⟨grown, recordedID⟩
      | ok commitLSN =>
          obtain ⟨durable, syncedID⟩ := syncLog_logAt grown
            (left.tail.headD false) commitLSN
          rcases synced : recordedManager.syncLog (left.tail.headD false)
            commitLSN with ⟨outcome, syncedManager⟩
          rw [synced] at durable syncedID
          cases outcome with
          | error error =>
              simp only [commitWrites, shape, recorded, synced]
              exact ⟨durable, syncedID.trans recordedID⟩
          | ok done =>
              simp only [commitWrites, shape, recorded, synced]
              exact ⟨durable.of_eq rfl, syncedID.trans recordedID⟩

theorem commit_logAt (order : MapOrder) (faults : List Bool)
    {tx : Transaction} (logged : LogAt last manager.pager)
    (room : last + (tx.dirtyPages.length + 1) < 2 ^ 64) :
    ∃ more, last ≤ more ∧
      LogAt more (manager.commit order faults tx).2.2.pager ∧
      (manager.commit order faults tx).2.2.lastTxnID = manager.lastTxnID := by
  unfold commit
  split
  · split
    · exact ⟨last, Nat.le_refl _, logged, rfl⟩
    · exact commitWrites_logAt order faults logged room
  · exact ⟨last, Nat.le_refl _, logged, rfl⟩

theorem removeAll_walFlusher (pages : List (PageID × Nat))
    (pager : DefaultPager) :
    (removeAll pages pager).walFlusher = pager.walFlusher := by
  induction pages generalizing pager with
  | nil => rfl
  | cons entry rest inductionHypothesis => exact inductionHypothesis _

theorem rollback_logAt (fails : Bool) {tx : Transaction}
    (logged : LogAt last manager.pager) (room : last + 1 < 2 ^ 64) :
    ∃ more, last ≤ more ∧
      LogAt more (manager.rollback fails tx).2.pager ∧
      (manager.rollback fails tx).2.lastTxnID = manager.lastTxnID := by
  unfold rollback
  split
  · split
    · exact ⟨last, Nat.le_refl _, logged, rfl⟩
    · have grown := append_logAt logged room fails
        (WalRecord.newTxnAbort tx.txnID)
      exact ⟨last + 1, Nat.le_succ _,
        grown.of_eq (removeAll_walFlusher _ _), rfl⟩
  · exact ⟨last, Nat.le_refl _, logged, rfl⟩

end TxnManager

theorem Transaction.restorePages_walFlusher (copies : List (PageID × Bytes))
    (pages dirty : List (PageID × Nat)) (pager : DefaultPager) :
    (restorePages copies pages (dirty, pager)).2.walFlusher =
      pager.walFlusher := by
  induction pages generalizing dirty pager with
  | nil => rfl
  | cons entry rest inductionHypothesis =>
      obtain ⟨id, ref⟩ := entry
      cases found : copies.find? fun copy => copy.1 = id with
      | some copy =>
          simp only [restorePages, found]
          exact inductionHypothesis _ _
      | none =>
          simp only [restorePages, found]
          exact inductionHypothesis _ _

theorem Transaction.rollbackTo_walFlusher {tx restored : Transaction}
    {order : MapOrder} {name : String} {pager after : DefaultPager}
    (done : tx.rollbackTo order name pager = .ok (restored, after)) :
    after.walFlusher = pager.walFlusher := by
  unfold Transaction.rollbackTo at done
  split at done
  · cases done
  · split at done
    · split at done
      · cases done
      · rw [← (Prod.mk.inj (Except.ok.inj done)).2]
        exact restorePages_walFlusher _ _ _ _
    · cases done

namespace Engine

def NoTxnWrap (action : Action) (engine : Engine) : Prop :=
  match action with
  | .beginWrite _ => engine.manager.lastTxnID.toNat + 1 < 2 ^ 64
  | _ => True

theorem perform_grows {engine : Engine} {action : Action} {last : Nat}
    (logged : LogAt last engine.manager.pager) (room : NoWrap action engine)
    (txnRoom : NoTxnWrap action engine) :
    ∃ more, last ≤ more ∧ LogAt more (engine.perform action).manager.pager ∧
      engine.manager.lastTxnID.toNat ≤
        (engine.perform action).manager.lastTxnID.toNat := by
  rw [NoWrap, TxnManager.logAt_wal logged] at room
  have unchanged : ∃ more, last ≤ more ∧ LogAt more engine.manager.pager ∧
      engine.manager.lastTxnID.toNat ≤ engine.manager.lastTxnID.toNat :=
    ⟨last, Nat.le_refl _, logged, Nat.le_refl _⟩
  have paged : ∀ pager : DefaultPager, LogAt last pager →
      ∃ more, last ≤ more ∧ LogAt more (engine.withPager pager).manager.pager ∧
        engine.manager.lastTxnID.toNat ≤
          (engine.withPager pager).manager.lastTxnID.toNat :=
    fun pager after => ⟨last, Nat.le_refl _, after, Nat.le_refl _⟩
  cases action with
  | beginWrite fails =>
      have counted : LogAt last { engine.manager with
          lastTxnID := engine.manager.lastTxnID + 1 }.pager := logged
      refine ⟨last + 1, Nat.le_succ _,
        TxnManager.append_logAt counted room fails _, ?_⟩
      change _ ≤ (engine.manager.lastTxnID + 1).toNat
      rw [toNat_succ64 txnRoom]
      exact Nat.le_succ _
  | beginRead => exact unchanged
  | endRead snapshot => exact unchanged
  | get id => exact paged _ (logged.of_eq (LogAt.get_walFlusher _ _))
  | allocate type =>
      exact paged _ (logged.of_eq (LogAt.allocate_walFlusher _ _))
  | edit ref edit => exact paged _ (logged.of_eq rfl)
  | markDirty ref =>
      exact paged _ (logged.of_eq (LogAt.markDirty_walFlusher _ _))
  | trackDirty ref =>
      cases open_ : engine.writer with
      | none =>
          simp only [perform, open_]
          exact unchanged
      | some tx =>
          simp only [perform, open_]
          split <;> exact unchanged
  | savepoint name =>
      cases open_ : engine.writer with
      | none =>
          simp only [perform, open_]
          exact unchanged
      | some tx =>
          simp only [perform, open_]
          split <;> exact unchanged
  | rollbackTo order name =>
      cases open_ : engine.writer with
      | none =>
          simp only [perform, open_]
          exact unchanged
      | some tx =>
          cases done : tx.rollbackTo order name engine.manager.pager with
          | error error =>
              simp only [perform, open_, done]
              exact unchanged
          | ok pair =>
              obtain ⟨restored, pager⟩ := pair
              simp only [perform, open_, done]
              exact paged _ (logged.of_eq
                (Transaction.rollbackTo_walFlusher done))
  | commit order faults =>
      cases open_ : engine.writer with
      | none =>
          simp only [perform, open_]
          exact unchanged
      | some tx =>
          simp only [appends, open_] at room
          simp only [perform, open_]
          obtain ⟨more, larger, after, same⟩ :=
            TxnManager.commit_logAt order faults logged room
          exact ⟨more, larger, after, Nat.le_of_eq (by rw [same])⟩
  | rollback fails =>
      cases open_ : engine.writer with
      | none =>
          simp only [perform, open_]
          exact unchanged
      | some tx =>
          simp only [perform, open_]
          obtain ⟨more, larger, after, same⟩ :=
            TxnManager.rollback_logAt fails logged room
          exact ⟨more, larger, after, Nat.le_of_eq (by rw [same])⟩
  | flush syncFails writeFails id =>
      exact paged _ (logged.tryFlush syncFails writeFails id)
  | saveMeta fails => exact paged _ (logged.saveMeta fails)

end Engine

namespace Transaction

variable {tx after : Transaction} {pager : DefaultPager}

theorem trackDirty_txnID {ref : Nat}
    (done : tx.trackDirty ref pager = .ok after) :
    after.txnID = tx.txnID := by
  unfold Transaction.trackDirty at done
  split at done
  · cases done
  · split at done
    · rw [← Except.ok.inj done]
    · cases done

theorem savepoint_txnID {name : String}
    (done : tx.savepoint name pager = .ok after) :
    after.txnID = tx.txnID := by
  unfold Transaction.savepoint at done
  split at done
  · cases done
  · split at done
    · rw [← Except.ok.inj done]
    · cases done

theorem rollbackTo_txnID {order : MapOrder} {name : String}
    {restored : DefaultPager}
    (done : tx.rollbackTo order name pager = .ok (after, restored)) :
    after.txnID = tx.txnID := by
  unfold Transaction.rollbackTo at done
  split at done
  · cases done
  · split at done
    · split at done
      · cases done
      · rw [← (Prod.mk.inj (Except.ok.inj done)).1]
    · cases done

end Transaction

theorem Engine.perform_writer {engine : Engine} {action : Action}
    {tx : Transaction} (writer : (engine.perform action).writer = some tx) :
    (∃ old, engine.writer = some old ∧ tx.txnID = old.txnID) ∨
    tx.txnID = (engine.perform action).manager.lastTxnID := by
  have kept : engine.writer = some tx →
      (∃ old, engine.writer = some old ∧ tx.txnID = old.txnID) ∨
      tx.txnID = (engine.perform action).manager.lastTxnID :=
    fun same => .inl ⟨tx, same, rfl⟩
  cases action with
  | beginWrite fails =>
      right
      rw [← Option.some.inj writer]
      rfl
  | trackDirty ref =>
      cases open_ : engine.writer with
      | none =>
          simp only [perform, open_] at writer
          cases writer
      | some old =>
          cases done : old.trackDirty ref engine.manager.pager with
          | error error =>
              simp only [perform, open_, done] at writer
              exact .inl ⟨old, rfl, congrArg Transaction.txnID
                (Option.some.inj writer).symm⟩
          | ok after =>
              simp only [perform, open_, done] at writer
              rw [← Option.some.inj writer]
              exact .inl ⟨old, rfl, Transaction.trackDirty_txnID done⟩
  | savepoint name =>
      cases open_ : engine.writer with
      | none =>
          simp only [perform, open_] at writer
          cases writer
      | some old =>
          cases done : old.savepoint name engine.manager.pager with
          | error error =>
              simp only [perform, open_, done] at writer
              exact .inl ⟨old, rfl, congrArg Transaction.txnID
                (Option.some.inj writer).symm⟩
          | ok after =>
              simp only [perform, open_, done] at writer
              rw [← Option.some.inj writer]
              exact .inl ⟨old, rfl, Transaction.savepoint_txnID done⟩
  | rollbackTo order name =>
      cases open_ : engine.writer with
      | none =>
          simp only [perform, open_] at writer
          cases writer
      | some old =>
          cases done : old.rollbackTo order name engine.manager.pager with
          | error error =>
              simp only [perform, open_, done] at writer
              exact .inl ⟨old, rfl, congrArg Transaction.txnID
                (Option.some.inj writer).symm⟩
          | ok pair =>
              obtain ⟨after, pager⟩ := pair
              simp only [perform, open_, done] at writer
              rw [← Option.some.inj writer]
              exact .inl ⟨old, rfl, Transaction.rollbackTo_txnID done⟩
  | commit order faults =>
      cases open_ : engine.writer with
      | none =>
          simp only [perform, open_] at writer
          cases writer
      | some old =>
          simp only [perform, open_] at writer
          cases writer
  | rollback fails =>
      cases open_ : engine.writer with
      | none =>
          simp only [perform, open_] at writer
          cases writer
      | some old =>
          simp only [perform, open_] at writer
          cases writer
  | _ => exact kept writer

section Recovery

open DefaultPager Recovery

theorem get_info (pager : DefaultPager) (id : PageID) :
    (pager.get id).2.info = pager.info := by
  unfold DefaultPager.get
  split
  · rfl
  · split
    · rfl
    · simp only
      split <;> rfl

theorem markDirty_info (pager : DefaultPager) (ref : Nat) :
    (pager.markDirty ref).info = pager.info := by
  unfold DefaultPager.markDirty
  simp only
  split <;> rfl

theorem flush_info (pager : DefaultPager) (id : PageID) :
    (pager.flush id).2.info = pager.info := by
  unfold DefaultPager.flush
  split
  · rfl
  · simp only
    split
    · split
      · split <;> rfl
      · split <;> rfl
    · rfl

theorem flushEach_info (ids : List PageID) (pager : DefaultPager) :
    (flushEach ids pager).2.info = pager.info := by
  induction ids generalizing pager with
  | nil => rfl
  | cons id rest inductionHypothesis =>
      have first := flush_info pager id
      rcases shape : pager.flush id with ⟨outcome, after⟩
      rw [shape] at first
      cases outcome with
      | error error =>
          simp only [flushEach, shape]
          exact first
      | ok done =>
          simp only [flushEach, shape]
          exact (inductionHypothesis after).trans first

theorem saveMeta_lastTxnID (pager : DefaultPager) :
    pager.saveMeta.info.lastTxnID = pager.info.lastTxnID := by
  unfold DefaultPager.saveMeta
  split <;> rfl

theorem redo_lastTxnID (record : WalRecord) (pager : DefaultPager) :
    (redo record pager).1.info.lastTxnID = pager.info.lastTxnID := by
  unfold redo
  split
  · rfl
  · rename_i backend written
    simp only
    split
    · rename_i failed
      refine (congrArg MetaPage.lastTxnID
        ((congrArg (fun pair => pair.2.info) failed).symm.trans
          (get_info _ _))).trans ?_
      split <;> rfl
    · rename_i found
      refine (congrArg MetaPage.lastTxnID ((markDirty_info _ _).trans
        ((congrArg (fun pair => pair.2.info) found).symm.trans
          (get_info _ _)))).trans ?_
      split <;> rfl

theorem redoAll_lastTxnID (records : List WalRecord) (pager : DefaultPager) :
    (redoAll records pager).1.info.lastTxnID = pager.info.lastTxnID := by
  induction records generalizing pager with
  | nil => rfl
  | cons record rest inductionHypothesis =>
      exact (inductionHypothesis _).trans (redo_lastTxnID record pager)

/-- Recovery changes neither the counter of the log nor the last transaction of
the meta page. -/
theorem recover_counters {order : List PageID → List PageID} {wal after : WAL}
    {pager final : DefaultPager} {result : RecoveryResult}
    (recovered : recover order wal pager = (.ok result, after, final)) :
    after.lastLSN = wal.lastLSN ∧
    final.info.lastTxnID = pager.info.lastTxnID := by
  by_cases none : wal.readAll.length = 0
  · simp only [recover, if_pos none] at recovered
    obtain ⟨rfl, rfl⟩ := Prod.mk.inj (Prod.mk.inj recovered).2
    exact ⟨rfl, rfl⟩
  · have redone := redoAll_lastTxnID
      (wal.readAll.filter (isRedo wal.readAll)) pager
    rcases shape : redoAll (wal.readAll.filter (isRedo wal.readAll)) pager
      with ⟨redonePager, count⟩
    rw [shape] at redone
    have each := flushEach_info (order redonePager.dirtyIDs) redonePager
    rcases flushed : flushEach (order redonePager.dirtyIDs) redonePager with
      ⟨outcome, written⟩
    rw [flushed] at each
    cases outcome with
    | error error =>
        simp only [recover, if_neg none, shape, flushAll, flushed]
          at recovered
        cases congrArg Prod.fst recovered
    | ok done =>
        simp only [recover, if_neg none, shape, flushAll, flushed]
          at recovered
        obtain ⟨rfl, rfl⟩ := Prod.mk.inj (Prod.mk.inj recovered).2
        refine ⟨rfl, (saveMeta_lastTxnID _).trans ?_⟩
        refine (saveMeta_lastTxnID written.syncBackend).trans ?_
        exact (congrArg MetaPage.lastTxnID each).trans redone

end Recovery

structure OpenOptions where
  cacheBytes : Nat
  mode : SyncMode
  order : List PageID → List PageID
  randomA : Bytes
  randomB : Bytes

/-- `Open`, as far as pager, log and transaction manager go. -/
def openEngine (options : OpenOptions) (main log : Contents) :
    Except Error Engine :=
  match DefaultPager.openPager (.ofContents main) options.cacheBytes false
    options.randomA options.randomB with
  | .error error => .error error
  | .ok pager =>
      let wal := WAL.openWAL (.ofContents log) pager.info.lastLSN
      match Recovery.recover options.order wal pager with
      | (.error error, _, _) => .error error
      | (.ok _, recovered, redone) =>
          .ok ⟨TxnManager.newTxnManager redone recovered options.mode, none⟩

theorem openEngine_eq {options : OpenOptions} {main log : Contents}
    {pager redone : DefaultPager} {wal : WAL} {result : RecoveryResult}
    (read : DefaultPager.openPager (.ofContents main) options.cacheBytes false
      options.randomA options.randomB = .ok pager)
    (recovered : Recovery.recover options.order
      (WAL.openWAL (.ofContents log) pager.info.lastLSN) pager =
        (.ok result, wal, redone)) :
    openEngine options main log =
      .ok ⟨TxnManager.newTxnManager redone wal options.mode, none⟩ := by
  simp only [openEngine, read, recovered]

theorem openEngine_counters {options : OpenOptions} {main log : Contents}
    {pager : DefaultPager} {engine : Engine}
    (read : DefaultPager.openPager (.ofContents main) options.cacheBytes false
      options.randomA options.randomB = .ok pager)
    (opened : openEngine options main log = .ok engine) :
    LogAt pager.info.lastLSN.toNat engine.manager.pager ∧
    engine.manager.lastTxnID = pager.info.lastTxnID ∧
    engine.writer = none := by
  rcases shape : Recovery.recover options.order
    (WAL.openWAL (.ofContents log) pager.info.lastLSN) pager with
    ⟨outcome, recovered, redone⟩
  cases outcome with
  | error error =>
      simp only [openEngine, read, shape] at opened
      cases opened
  | ok result =>
      obtain ⟨lastLSN, lastTxnID⟩ := recover_counters shape
      simp only [openEngine, read, shape] at opened
      rw [← Except.ok.inj opened]
      exact ⟨⟨recovered, rfl, by rw [lastLSN]; rfl⟩, lastTxnID, rfl⟩

/-! ## Histories of sessions -/

/-- The files of a database, the session that has them open, and what happened
so far: the records the last `Open` found in the log, and every committed
transaction with the number of its commit record. -/
structure World where
  main : Contents
  log : Contents
  session : Option Engine
  found : List WalRecord
  committed : List (TxnID × LSN)

namespace World

def start (main log : Contents) : World := ⟨main, log, none, [], []⟩

inductive Action where
  | openDB (options : OpenOptions)
  | act (action : Engine.Action)
  | stop (main log : Contents)

def recordsOf (log : Contents) : List WalRecord :=
  (WAL.openWAL (.ofContents log) 0).readAll

/-- The transaction an action commits, with the last number of the log, that of
the commit record. -/
def committedBy (engine : Engine) : Engine.Action → List (TxnID × LSN)
  | .commit order faults =>
      match engine.writer with
      | none => []
      | some tx =>
          match engine.manager.commit order faults tx with
          | (.error _, _, _) => []
          | (.ok _, _, manager) => [(tx.txnID, manager.wal.lastLSN)]
  | _ => []

inductive Step : Action → World → World → Prop where
  | openDB {world : World} {options : OpenOptions} {engine : Engine}
      (closed : world.session = none)
      (opened : openEngine options world.main world.log = .ok engine) :
      Step (.openDB options) world
        { world with session := some engine, found := recordsOf world.log }
  | act {world : World} {action : Engine.Action} {engine : Engine}
      (running : world.session = some engine)
      (allowed : engine.Allowed action) :
      Step (.act action) world
        { world with
          session := some (engine.perform action)
          committed := committedBy engine action ++ world.committed }
  | stop {world : World} {engine : Engine} {main log : Contents}
      (running : world.session = some engine) :
      Step (.stop main log) world
        { world with session := none, main := main, log := log }

/-- A number is not below any in the records found and in the transactions
committed. -/
structure Covers (world : World) (found : List WalRecord) (lsn txnID : Nat) :
    Prop where
  found_le : ∀ record, record ∈ found →
    record.lsn.toNat ≤ lsn ∧ record.txnID.toNat ≤ txnID
  committed_le : ∀ entry, entry ∈ world.committed →
    entry.2.toNat ≤ lsn ∧ entry.1.toNat ≤ txnID

/-- The condition: the meta page that `Open` picks is at least as new as every
record of the log and every commit, and no counter wraps around. -/
def UpToDate (action : Action) (world : World) : Prop :=
  match action with
  | .openDB options =>
      ∀ pager, DefaultPager.openPager (.ofContents world.main)
        options.cacheBytes false options.randomA options.randomB =
          .ok pager →
        world.Covers (recordsOf world.log) pager.info.lastLSN.toNat
          pager.info.lastTxnID.toNat
  | .act action =>
      ∀ engine, world.session = some engine →
        Engine.NoWrap action engine ∧ Engine.NoTxnWrap action engine
  | .stop _ _ => True

def Ordered (world : World) : Prop :=
  ∀ engine, world.session = some engine →
    ∃ last, LogAt last engine.manager.pager ∧
      world.Covers world.found last engine.manager.lastTxnID.toNat ∧
      ∀ tx, engine.writer = some tx →
        tx.txnID.toNat ≤ engine.manager.lastTxnID.toNat

theorem ordered_open {world : World} {options : OpenOptions} {engine : Engine}
    (opened : openEngine options world.main world.log = .ok engine)
    (upToDate : UpToDate (.openDB options) world) :
    Ordered { world with
      session := some engine, found := recordsOf world.log } := by
  intro running same
  obtain rfl := Option.some.inj same
  rcases read : DefaultPager.openPager (.ofContents world.main)
    options.cacheBytes false options.randomA options.randomB with
    error | pager
  · simp only [openEngine, read] at opened
    cases opened
  · obtain ⟨logged, lastTxnID, closed⟩ := openEngine_counters read opened
    have covers := upToDate pager read
    refine ⟨_, logged, ?_, ?_⟩
    · rw [lastTxnID]
      exact ⟨covers.found_le, covers.committed_le⟩
    · intro tx writer
      rw [closed] at writer
      cases writer

theorem ordered_act {world : World} {action : Engine.Action}
    {engine : Engine} (running : world.session = some engine)
    (ordered : world.Ordered) (upToDate : UpToDate (.act action) world) :
    Ordered { world with
      session := some (engine.perform action)
      committed := committedBy engine action ++ world.committed } := by
  obtain ⟨room, txnRoom⟩ := upToDate engine running
  obtain ⟨last, logged, covers, writers⟩ := ordered engine running
  obtain ⟨more, larger, after, largerID⟩ :=
    Engine.perform_grows logged room txnRoom
  intro next same
  obtain rfl := Option.some.inj same
  refine ⟨more, after, ⟨?_, ?_⟩, ?_⟩
  · intro record member
    obtain ⟨lsn, txnID⟩ := covers.found_le record member
    exact ⟨Nat.le_trans lsn larger, Nat.le_trans txnID largerID⟩
  · intro entry member
    rcases List.mem_append.mp member with new | old
    · cases action with
      | commit order faults =>
          cases open_ : engine.writer with
          | none =>
              simp only [committedBy, open_] at new
              cases new
          | some tx =>
              rcases done : engine.manager.commit order faults tx with
                ⟨outcome, closed, manager⟩
              have final : (engine.perform (.commit order faults)).manager =
                  manager := by
                simp only [Engine.perform, open_, done]
              cases outcome with
              | error error =>
                  simp only [committedBy, open_, done] at new
                  cases new
              | ok value =>
                  simp only [committedBy, open_, done] at new
                  rw [List.mem_singleton.mp new]
                  rw [final] at after largerID
                  rw [final]
                  exact ⟨Nat.le_of_eq (TxnManager.logAt_wal after),
                    Nat.le_trans (writers tx open_) largerID⟩
      | _ => cases new
    · obtain ⟨lsn, txnID⟩ := covers.committed_le entry old
      exact ⟨Nat.le_trans lsn larger, Nat.le_trans txnID largerID⟩
  · intro tx writer
    rcases Engine.perform_writer writer with ⟨old, open_, sameID⟩ | newest
    · rw [sameID]
      exact Nat.le_trans (writers old open_) largerID
    · rw [newest]

theorem ordered_step {action : Action} {world next : World}
    (ordered : world.Ordered) (step : Guarded UpToDate Step action world next) :
    next.Ordered := by
  obtain ⟨upToDate, step⟩ := step
  cases step with
  | openDB closed opened => exact ordered_open opened upToDate
  | act running allowed => exact ordered_act running ordered upToDate
  | stop running => exact fun engine closed => (nomatch closed)

def HandedOut (before after number : UInt64) : Prop :=
  before < number ∧ number ≤ after

def plainOrder : MapOrder := ⟨id, id, List.Perm.refl, List.Perm.refl⟩

def sampleOptions : OpenOptions := ⟨0, .full, id, [], []⟩

def firstSession : Engine where
  manager := TxnManager.newTxnManager
    (.fresh (.ofContents Recovery.sampleFile) (Recovery.sampleMeta 1)
      DefaultPager.slotA 0 false)
    (WAL.openWAL (.ofContents .empty) 0) .full
  writer := none

theorem firstSession_opened :
    openEngine sampleOptions Recovery.sampleFile .empty =
      .ok firstSession := by
  have none : (WAL.openWAL (.ofContents .empty) 0).readAll = [] := rfl
  exact openEngine_eq Recovery.sampleFile_open
    (Recovery.recover_nothing id none _)

def firstActions : List Action :=
  [.openDB sampleOptions, .act (.beginWrite false),
    .act (.commit plainOrder [])]

def committedSession : Engine :=
  (firstSession.perform (.beginWrite false)).perform (.commit plainOrder [])

def committedLog : Contents := committedSession.manager.wal.backend.contents

def firstCommit : World where
  main := Recovery.sampleFile
  log := .empty
  session := some committedSession
  found := []
  committed := [(1, 2)]

theorem firstCommit_run :
    Execution (Guarded UpToDate Step) (start Recovery.sampleFile .empty)
      firstActions firstCommit := by
  have first : Step (.openDB sampleOptions)
      (start Recovery.sampleFile .empty)
      { start Recovery.sampleFile .empty with session := some firstSession } :=
    .openDB rfl firstSession_opened
  have second := @Step.act
    { start Recovery.sampleFile .empty with session := some firstSession }
    (.beginWrite false) firstSession rfl rfl
  have third : Step (.act (.commit plainOrder []))
      { start Recovery.sampleFile .empty with
        session := some (firstSession.perform (.beginWrite false)) }
      firstCommit :=
    @Step.act _ _ (firstSession.perform (.beginWrite false)) rfl trivial
  refine .cons ⟨?_, first⟩ (.cons ⟨?_, second⟩ (.cons ⟨?_, third⟩ (.nil _)))
  · intro pager _
    exact ⟨fun _ member => (nomatch member), fun _ member => (nomatch member)⟩
  · intro engine same
    obtain rfl := Option.some.inj same
    exact ⟨(by decide : 0 + 1 < 2 ^ 64), (by decide : 0 + 1 < 2 ^ 64)⟩
  · intro engine same
    obtain rfl := Option.some.inj same
    exact ⟨(by decide : 1 + 1 < 2 ^ 64), trivial⟩

def secondSession : Engine := committedSession.perform (.beginWrite false)

theorem committedLog_records :
    recordsOf committedLog =
      [{ WalRecord.marker .txnBegin 1 with lsn := 1 }.received,
        { WalRecord.newTxnCommit 1 with lsn := 2 }.received] := by
  have empty : ∀ type, (WalRecord.marker type 1).payload.length < 2 ^ 32 :=
    fun type => Nat.two_pow_pos 32
  exact (((WAL.holds_openWAL 0).append (empty .txnBegin)).append
    (empty .txnCommit)).readAll_eq

/-- A log without page updates is recovered, but the session starts from the
old meta page. -/
theorem openEngine_noUpdates {options : OpenOptions} {main log : Contents}
    {pager : DefaultPager}
    (read : DefaultPager.openPager (.ofContents main) options.cacheBytes false
      options.randomA options.randomB = .ok pager)
    (empty : Recovery.EmptyCache pager) (formed : pager.info.WellFormed)
    (noUpdate : ∀ record, record ∈ recordsOf log →
      record.type ≠ .pageUpdate) :
    ∃ engine, openEngine options main log = .ok engine := by
  let wal := WAL.openWAL (.ofContents log) pager.info.lastLSN
  have idle : ∀ record, record ∈ wal.readAll →
      ¬ Recovery.isCommittedUpdate wal.readAll record := by
    intro record member
    simp [Recovery.isCommittedUpdate, noUpdate record member]
  have sealed : Recovery.SealedUpdates wal.readAll :=
    fun record member update => absurd update (idle record member)
  have addressable : Recovery.AddressableUpdates wal.readAll :=
    fun record member update => absurd update (idle record member)
  obtain ⟨result, recovered, redone, shape, _⟩ :=
    Recovery.recover_redoneAt options.order empty formed sealed addressable
  exact ⟨_, openEngine_eq read shape⟩

theorem samplePager_empty : Recovery.EmptyCache
    (.fresh (.ofContents Recovery.sampleFile) (Recovery.sampleMeta 1) 0 0
      false) := fun _ => rfl

theorem committedLog_noUpdate : ∀ record, record ∈ recordsOf committedLog →
    record.type ≠ .pageUpdate := by
  intro record member
  rw [committedLog_records] at member
  rcases List.mem_cons.mp member with rfl | later
  · exact fun same => (nomatch same)
  · rw [List.mem_singleton.mp later]
    exact fun same => (nomatch same)

theorem beginWrite_numbers {engine : Engine}
    (logged : LogAt 0 engine.manager.pager)
    (lastTxnID : engine.manager.lastTxnID = 0) :
    HandedOut engine.manager.wal.lastLSN
      (engine.perform (.beginWrite false)).manager.wal.lastLSN 1 ∧
    HandedOut engine.manager.lastTxnID
      (engine.perform (.beginWrite false)).manager.lastTxnID 1 := by
  have before := TxnManager.logAt_wal logged
  have counted : LogAt 0 { engine.manager with
      lastTxnID := engine.manager.lastTxnID + 1 }.pager := logged
  have after := TxnManager.logAt_wal (TxnManager.append_logAt counted
    (by decide) false
    (WalRecord.marker .txnBegin (engine.manager.lastTxnID + 1)))
  have number : (engine.perform (.beginWrite false)).manager.lastTxnID = 1 := by
    change engine.manager.lastTxnID + 1 = 1
    rw [lastTxnID]
    rfl
  refine ⟨⟨?_, ?_⟩, ?_⟩
  · rw [UInt64.lt_iff_toNat_lt, before]
    decide
  · rw [UInt64.le_iff_toNat_le]
    exact Nat.le_of_eq after.symm
  · rw [number, lastTxnID]
    exact ⟨by decide, by decide⟩

end World

end CocoDB
