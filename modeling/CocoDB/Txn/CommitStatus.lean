import CocoDB.Txn.Session

/-!
# Commit status

`IsCommitted` answers from the commits still noted in memory and from the last
commit the meta page names.  A run is watched with three lists beside the
engine: the transactions that were given a number, those whose `Commit` came
back without an error, and those that were rolled back or whose `Commit`
failed.
-/

namespace CocoDB

open Lib

/-- Nothing the commit status is read from has changed. -/
structure SameStatus (before after : TxnManager) : Prop where
  assigned : after.lastTxnID = before.lastTxnID
  noted : after.committedTxns = before.committedTxns
  marked : after.pager.info.lastTxnID = before.pager.info.lastTxnID

namespace SameStatus

variable {before middle after : TxnManager}

theorem refl (manager : TxnManager) : SameStatus manager manager :=
  ⟨rfl, rfl, rfl⟩

theorem trans (first : SameStatus before middle)
    (second : SameStatus middle after) : SameStatus before after :=
  ⟨second.assigned.trans first.assigned, second.noted.trans first.noted,
    second.marked.trans first.marked⟩

theorem setPager {pager : DefaultPager}
    (marked : pager.info.lastTxnID = before.pager.info.lastTxnID) :
    SameStatus before (before.setPager pager) :=
  ⟨rfl, rfl, marked⟩

end SameStatus

section Pager

variable {pager : DefaultPager}

theorem createPage_lastTxnID (pager : DefaultPager) (id : PageID)
    (type : PageType) :
    (pager.createPage id type).2.info.lastTxnID = pager.info.lastTxnID :=
  congrArg MetaPage.lastTxnID (markDirty_info _ _)

theorem allocate_lastTxnID (pager : DefaultPager) (type : PageType) :
    (pager.allocate type).2.info.lastTxnID = pager.info.lastTxnID := by
  unfold DefaultPager.allocate
  split
  · exact createPage_lastTxnID _ _ _
  · have loaded := congrArg MetaPage.lastTxnID
      (get_info pager pager.info.freeListRoot)
    split
    · rename_i failed
      rw [failed] at loaded
      exact (createPage_lastTxnID _ _ _).trans loaded
    · rename_i listRef found
      rw [found] at loaded
      simp only
      split
      · refine (createPage_lastTxnID _ _ _).trans ?_
        split
        · exact (congrArg MetaPage.lastTxnID (markDirty_info _ _)).trans loaded
        · exact (congrArg MetaPage.lastTxnID (markDirty_info _ _)).trans loaded
      · exact (createPage_lastTxnID _ _ _).trans loaded

theorem flushLog_info (fails : Bool) (lsn : LSN) :
    (pager.flushLog fails lsn).2.info = pager.info := by
  unfold DefaultPager.flushLog
  split
  · rfl
  · split <;> rfl

theorem writeBack_info (fails : Bool) (id : PageID) (ref : Nat) :
    (pager.writeBack fails id ref).2.info = pager.info := by
  rcases @DefaultPager.writeBack_cases pager id fails ref with
    shape | ⟨_, _, shape⟩
  · rw [shape]
    rfl
  · rw [shape]
    rfl

theorem tryFlush_info (syncFails writeFails : Bool) (id : PageID) :
    (pager.tryFlush syncFails writeFails id).2.info = pager.info := by
  cases found : pager.cache.find id with
  | none => rw [DefaultPager.tryFlush_missing found]
  | some entry =>
      cases dirty : (pager.heap entry.page).dirty with
      | false =>
          rw [DefaultPager.tryFlush_clean found dirty]
          rfl
      | true =>
          have logged := @flushLog_info (pager.touched id) syncFails
            (pager.heap entry.page).header.lsn
          rcases shape : (pager.touched id).flushLog syncFails
            (pager.heap entry.page).header.lsn with ⟨outcome, after⟩
          rw [shape] at logged
          cases outcome with
          | error error =>
              rw [DefaultPager.tryFlush_unsynced found dirty shape]
              exact logged
          | ok done =>
              rw [DefaultPager.tryFlush_synced found dirty shape]
              exact (writeBack_info _ _ _).trans logged

theorem removeAll_info (pages : List (PageID × Nat)) (pager : DefaultPager) :
    (TxnManager.removeAll pages pager).info = pager.info := by
  induction pages generalizing pager with
  | nil => rfl
  | cons entry rest inductionHypothesis => exact inductionHypothesis _

theorem Transaction.restorePages_info (copies : List (PageID × Bytes))
    (pages dirty : List (PageID × Nat)) (pager : DefaultPager) :
    (restorePages copies pages (dirty, pager)).2.info = pager.info := by
  induction pages generalizing dirty pager with
  | nil => rfl
  | cons entry rest inductionHypothesis =>
      obtain ⟨id, ref⟩ := entry
      cases found : copies.find? fun copy => copy.1 = id with
      | some copy =>
          simp only [restorePages, found]
          exact inductionHypothesis _ _
      | none =>
          simp only [restorePages, found]
          exact inductionHypothesis _ _

end Pager

namespace TxnManager

variable {manager : TxnManager}

theorem append_status (fails : Bool) (record : WalRecord) :
    SameStatus manager (manager.append fails record).2 :=
  ⟨rfl, rfl, rfl⟩

theorem logPages_status (txnID : TxnID) (pages : List (PageID × Nat))
    (faults : List Bool) :
    SameStatus manager (manager.logPages txnID pages faults).2 := by
  induction pages generalizing manager faults with
  | nil => exact .refl manager
  | cons entry rest inductionHypothesis =>
      obtain ⟨id, ref⟩ := entry
      let sealed := manager.setPager (manager.pager.setObject ref
        (manager.pager.heap ref).sealPage)
      let record := WalRecord.newPageUpdate txnID id
        (manager.pager.heap ref).sealPage.image
      have logged : SameStatus manager
          (sealed.append (faults.headD false) record).2 :=
        ⟨rfl, rfl, rfl⟩
      rcases shape : sealed.append (faults.headD false) record with
        ⟨outcome, after⟩
      rw [shape] at logged
      simp only [logPages, sealed, record] at shape ⊢
      cases outcome with
      | error error =>
          simp only [shape]
          exact logged
      | ok lsn =>
          simp only [shape]
          apply logged.trans
          apply SameStatus.trans (SameStatus.setPager _) (inductionHypothesis _)
          exact congrArg MetaPage.lastTxnID (markDirty_info _ _)

theorem syncLog_status (fails : Bool) (lastLSN : LSN) :
    SameStatus manager (manager.syncLog fails lastLSN).2 := by
  simp only [syncLog]
  split
  · exact ⟨rfl, rfl, rfl⟩
  · exact ⟨rfl, rfl, rfl⟩
  · exact .refl manager

theorem commitWrites_cases (order : MapOrder) (faults : List Bool)
    (tx : Transaction) :
    (∃ error after, manager.commitWrites order faults tx = (.error error, after) ∧
      SameStatus manager after) ∨
    ∃ synced commitLSN, SameStatus manager synced ∧
      manager.commitWrites order faults tx =
        (.ok (), synced.noteCommit order tx.txnID commitLSN) := by
  have paged := @logPages_status manager tx.txnID (order.pages tx.dirtyPages)
    faults
  rcases pages : manager.logPages tx.txnID (order.pages tx.dirtyPages) faults
    with ⟨outcome, logged⟩
  rw [pages] at paged
  cases outcome with
  | error error =>
      simp only [commitWrites, pages]
      exact .inl ⟨error, logged, rfl, paged⟩
  | ok left =>
      have marked := paged.trans (append_status (left.headD false)
        (WalRecord.newTxnCommit tx.txnID))
      rcases commits : logged.append (left.headD false)
        (WalRecord.newTxnCommit tx.txnID) with ⟨outcome, recorded⟩
      rw [commits] at marked
      cases outcome with
      | error error =>
          simp only [commitWrites, pages, commits]
          exact .inl ⟨error, recorded, rfl, marked⟩
      | ok commitLSN =>
          have durable := marked.trans
            (syncLog_status (left.tail.headD false) commitLSN)
          rcases syncs : recorded.syncLog (left.tail.headD false) commitLSN
            with ⟨outcome, synced⟩
          rw [syncs] at durable
          cases outcome with
          | error error =>
              simp only [commitWrites, pages, commits, syncs]
              exact .inl ⟨error, synced, rfl, durable⟩
          | ok done =>
              simp only [commitWrites, pages, commits, syncs]
              exact .inr ⟨synced, commitLSN, durable, rfl⟩

theorem rollback_status (fails : Bool) (tx : Transaction) :
    SameStatus manager (manager.rollback fails tx).2 := by
  simp only [rollback]
  split
  · split
    · exact ⟨rfl, rfl, rfl⟩
    · exact ⟨rfl, rfl, congrArg MetaPage.lastTxnID (removeAll_info _ _)⟩
  · exact .refl manager

end TxnManager

namespace Transaction

variable {tx after : Transaction} {pager : DefaultPager}

def Writing (txnID : TxnID) (tx : Transaction) : Prop :=
  tx.txnID = txnID ∧ tx.isOpen = true ∧ tx.readOnly = false

theorem Writing.trackDirty {txnID : TxnID} (writing : tx.Writing txnID)
    {ref : Nat} (done : tx.trackDirty ref pager = .ok after) :
    after.Writing txnID := by
  simp only [Transaction.trackDirty, writing.2.1, writing.2.2] at done
  rw [← Except.ok.inj done]
  exact ⟨writing.1, rfl, rfl⟩

theorem Writing.savepoint {txnID : TxnID} (writing : tx.Writing txnID)
    {name : String} (done : tx.savepoint name pager = .ok after) :
    after.Writing txnID := by
  simp only [Transaction.savepoint, writing.2.1, writing.2.2] at done
  rw [← Except.ok.inj done]
  exact ⟨writing.1, rfl, rfl⟩

theorem Writing.rollbackTo {txnID : TxnID} (writing : tx.Writing txnID)
    {order : MapOrder} {name : String} {restored : DefaultPager}
    (done : tx.rollbackTo order name pager = .ok (after, restored)) :
    after.Writing txnID ∧ restored.info = pager.info := by
  simp only [Transaction.rollbackTo, writing.2.1, writing.2.2] at done
  cases found : tx.savepoints.find? fun saved => saved.name = name with
  | none =>
      simp only [found] at done
      cases done
  | some saved =>
      simp only [found] at done
      rw [← (Prod.mk.inj (Except.ok.inj done)).1,
        ← (Prod.mk.inj (Except.ok.inj done)).2]
      exact ⟨⟨writing.1, rfl, rfl⟩, restorePages_info _ _ _ _⟩

end Transaction

/-! ## Watched runs -/

/-- The engine and what has become of its write transactions. -/
structure Ledger where
  engine : Engine
  assigned : List TxnID
  granted : List TxnID
  abandoned : List TxnID

namespace Ledger

def assignedBy (engine : Engine) : Engine.Action → List TxnID
  | .beginWrite fails => [(engine.manager.beginTxn fails false).1.txnID]
  | _ => []

/-- The write transaction whose `Commit` comes back without an error. -/
def grantedBy (engine : Engine) : Engine.Action → List TxnID
  | .commit order faults =>
      match engine.writer with
      | none => []
      | some tx =>
          match (engine.manager.commit order faults tx).1 with
          | .error _ => []
          | .ok _ => [tx.txnID]
  | _ => []

/-- The write transaction that is rolled back or whose `Commit` fails. -/
def abandonedBy (engine : Engine) : Engine.Action → List TxnID
  | .commit order faults =>
      match engine.writer with
      | none => []
      | some tx =>
          match (engine.manager.commit order faults tx).1 with
          | .error _ => [tx.txnID]
          | .ok _ => []
  | .rollback _ =>
      match engine.writer with
      | none => []
      | some tx => [tx.txnID]
  | _ => []

def perform (ledger : Ledger) (action : Engine.Action) : Ledger where
  engine := ledger.engine.perform action
  assigned := assignedBy ledger.engine action ++ ledger.assigned
  granted := grantedBy ledger.engine action ++ ledger.granted
  abandoned := abandonedBy ledger.engine action ++ ledger.abandoned

def Step (action : Engine.Action) (before after : Ledger) : Prop :=
  before.engine.Allowed action ∧ before.perform action = after

def NoWrap (action : Engine.Action) (ledger : Ledger) : Prop :=
  Engine.NoTxnWrap action ledger.engine

def started (pager : DefaultPager) (wal : WAL) (mode : SyncMode) : Ledger where
  engine := ⟨TxnManager.newTxnManager pager wal mode, none⟩
  assigned := []
  granted := []
  abandoned := []

inductive Change (before after : Ledger) : Prop where
  | began (tx : Transaction)
      (closed : before.engine.writer = none)
      (opened : after.engine.writer = some tx)
      (writing : tx.Writing (before.engine.manager.lastTxnID + 1))
      (next : after.engine.manager.lastTxnID =
        before.engine.manager.lastTxnID + 1)
      (noted : after.engine.manager.committedTxns =
        before.engine.manager.committedTxns)
      (marked : after.engine.manager.pager.info.lastTxnID =
        before.engine.manager.pager.info.lastTxnID)
      (lists : after.assigned =
          (before.engine.manager.lastTxnID + 1) :: before.assigned ∧
        after.granted = before.granted ∧ after.abandoned = before.abandoned)
  | kept (status : SameStatus before.engine.manager after.engine.manager)
      (writer : ∀ tx, after.engine.writer = some tx →
        ∃ old, before.engine.writer = some old ∧
          ∀ txnID, old.Writing txnID → tx.Writing txnID)
      (closed : before.engine.writer ≠ none → after.engine.writer ≠ none)
      (lists : after.assigned = before.assigned ∧
        after.granted = before.granted ∧ after.abandoned = before.abandoned)
  | gaveUp (tx : Transaction)
      (opened : before.engine.writer = some tx)
      (closed : after.engine.writer = none)
      (status : SameStatus before.engine.manager after.engine.manager)
      (lists : after.assigned = before.assigned ∧
        after.granted = before.granted ∧
        after.abandoned = tx.txnID :: before.abandoned)
  | committed (tx : Transaction)
      (opened : before.engine.writer = some tx)
      (closed : after.engine.writer = none)
      (same : after.engine.manager.lastTxnID =
        before.engine.manager.lastTxnID)
      (noted : ∀ id, id ∈ after.engine.manager.committedTxns →
        id = tx.txnID ∨ id ∈ before.engine.manager.committedTxns)
      (marked : after.engine.manager.pager.info.lastTxnID = tx.txnID)
      (lists : after.assigned = before.assigned ∧
        after.granted = tx.txnID :: before.granted ∧
        after.abandoned = before.abandoned)

section Changes

variable {ledger after : Ledger}

theorem Change.same
    (status : SameStatus ledger.engine.manager after.engine.manager)
    (writer : after.engine.writer = ledger.engine.writer)
    (lists : after.assigned = ledger.assigned ∧
      after.granted = ledger.granted ∧ after.abandoned = ledger.abandoned) :
    Change ledger after := by
  apply Change.kept status _ _ lists
  · intro tx opened
    exact ⟨tx, writer ▸ opened, fun _ writing => writing⟩
  · intro opened
    rwa [writer]

theorem Change.idle (same : after = ledger) : Change ledger after := by
  rw [same]
  exact .same (.refl _) rfl ⟨rfl, rfl, rfl⟩

theorem Change.worked {old tx : Transaction}
    (opened : ledger.engine.writer = some old)
    (status : SameStatus ledger.engine.manager after.engine.manager)
    (writer : after.engine.writer = some tx)
    (writing : ∀ txnID, old.Writing txnID → tx.Writing txnID)
    (lists : after.assigned = ledger.assigned ∧
      after.granted = ledger.granted ∧ after.abandoned = ledger.abandoned) :
    Change ledger after := by
  apply Change.kept status _ _ lists
  · intro current shown
    obtain rfl := Option.some.inj (writer.symm.trans shown)
    exact ⟨old, opened, writing⟩
  · intro _ closed
    cases writer.symm.trans closed

theorem commit_change {order : MapOrder} {faults : List Bool}
    {tx : Transaction} {txnID : TxnID}
    (opened : ledger.engine.writer = some tx) (writing : tx.Writing txnID) :
    Change ledger (ledger.perform (.commit order faults)) := by
  have shape : ledger.engine.manager.commit order faults tx =
      ((ledger.engine.manager.commitWrites order faults tx).1,
        { tx with isOpen := false },
        (ledger.engine.manager.commitWrites order faults tx).2.deregister
          tx.snapshotTxn) := by
    simp only [TxnManager.commit, writing.2.1, writing.2.2, if_true,
      Bool.false_eq_true, if_false]
  rcases @TxnManager.commitWrites_cases ledger.engine.manager order faults tx
    with ⟨error, failed, outcome, status⟩ | ⟨synced, lsn, status, outcome⟩
  · rw [outcome] at shape
    apply Change.gaveUp tx opened
    · simp only [perform, Engine.perform, opened]
    · simp only [perform, Engine.perform, opened, shape]
      exact ⟨status.assigned, status.noted, status.marked⟩
    · simp only [perform, assignedBy, grantedBy, abandonedBy, opened, shape]
      exact ⟨rfl, rfl, rfl⟩
  · rw [outcome] at shape
    apply Change.committed tx opened
    · simp only [perform, Engine.perform, opened]
    · simp only [perform, Engine.perform, opened, shape]
      exact status.assigned
    · intro id noted
      simp only [perform, Engine.perform, opened, shape,
        TxnManager.deregister, TxnManager.noteCommit] at noted
      rw [status.noted] at noted
      exact List.mem_cons.mp (List.mem_filter.mp noted).1
    · simp only [perform, Engine.perform, opened, shape]
      rfl
    · simp only [perform, assignedBy, grantedBy, abandonedBy, opened, shape]
      exact ⟨rfl, rfl, rfl⟩

theorem perform_change {action : Engine.Action}
    (live : ∀ tx, ledger.engine.writer = some tx → ∃ txnID, tx.Writing txnID)
    (allowed : ledger.engine.Allowed action) :
    Change ledger (ledger.perform action) := by
  have paged : ∀ pager : DefaultPager,
      pager.info.lastTxnID =
        ledger.engine.manager.pager.info.lastTxnID →
      SameStatus ledger.engine.manager (ledger.engine.withPager pager).manager :=
    fun pager marked => SameStatus.setPager marked
  have idle : SameStatus ledger.engine.manager ledger.engine.manager :=
    .refl _
  cases action with
  | beginWrite fails =>
      exact .began _ allowed rfl ⟨rfl, rfl, rfl⟩ rfl rfl rfl ⟨rfl, rfl, rfl⟩
  | beginRead => exact .same ⟨rfl, rfl, rfl⟩ rfl ⟨rfl, rfl, rfl⟩
  | endRead snapshot => exact .same ⟨rfl, rfl, rfl⟩ rfl ⟨rfl, rfl, rfl⟩
  | get id =>
      exact .same (paged _ (congrArg MetaPage.lastTxnID (get_info _ _))) rfl
        ⟨rfl, rfl, rfl⟩
  | allocate type =>
      exact .same (paged _ (allocate_lastTxnID _ _)) rfl ⟨rfl, rfl, rfl⟩
  | edit ref edit => exact .same (paged _ rfl) rfl ⟨rfl, rfl, rfl⟩
  | markDirty ref =>
      exact .same (paged _ (congrArg MetaPage.lastTxnID (markDirty_info _ _)))
        rfl ⟨rfl, rfl, rfl⟩
  | trackDirty ref =>
      cases opened : ledger.engine.writer with
      | none =>
          apply Change.idle
          simp only [perform, Engine.perform, opened]
          rfl
      | some tx =>
          cases done : tx.trackDirty ref ledger.engine.manager.pager with
          | error error =>
              apply Change.idle
              simp only [perform, Engine.perform, opened, done]
              rfl
          | ok tracked =>
              apply Change.worked opened
              · simp only [perform, Engine.perform, opened, done]
                exact idle
              · simp only [perform, Engine.perform, opened, done]
                exact rfl
              · exact fun _ writing => writing.trackDirty done
              · exact ⟨rfl, rfl, rfl⟩
  | savepoint name =>
      cases opened : ledger.engine.writer with
      | none =>
          apply Change.idle
          simp only [perform, Engine.perform, opened]
          rfl
      | some tx =>
          cases done : tx.savepoint name ledger.engine.manager.pager with
          | error error =>
              apply Change.idle
              simp only [perform, Engine.perform, opened, done]
              rfl
          | ok saved =>
              apply Change.worked opened
              · simp only [perform, Engine.perform, opened, done]
                exact idle
              · simp only [perform, Engine.perform, opened, done]
                exact rfl
              · exact fun _ writing => writing.savepoint done
              · exact ⟨rfl, rfl, rfl⟩
  | rollbackTo order name =>
      cases opened : ledger.engine.writer with
      | none =>
          apply Change.idle
          simp only [perform, Engine.perform, opened]
          rfl
      | some tx =>
          cases done : tx.rollbackTo order name ledger.engine.manager.pager with
          | error error =>
              apply Change.idle
              simp only [perform, Engine.perform, opened, done]
              rfl
          | ok pair =>
              obtain ⟨restored, pager⟩ := pair
              obtain ⟨txnID, writing⟩ := live tx opened
              apply Change.worked opened
              · simp only [perform, Engine.perform, opened, done]
                exact paged pager (congrArg MetaPage.lastTxnID
                  (writing.rollbackTo done).2)
              · simp only [perform, Engine.perform, opened, done]
                exact rfl
              · exact fun _ writing => (writing.rollbackTo done).1
              · exact ⟨rfl, rfl, rfl⟩
  | commit order faults =>
      cases opened : ledger.engine.writer with
      | none =>
          apply Change.idle
          simp only [perform, Engine.perform, grantedBy, abandonedBy, opened]
          rfl
      | some tx =>
          obtain ⟨txnID, writing⟩ := live tx opened
          exact commit_change opened writing
  | rollback fails =>
      cases opened : ledger.engine.writer with
      | none =>
          apply Change.idle
          simp only [perform, Engine.perform, grantedBy, abandonedBy, opened]
          rfl
      | some tx =>
          apply Change.gaveUp tx opened
          · simp only [perform, Engine.perform, opened]
          · simp only [perform, Engine.perform, opened]
            exact TxnManager.rollback_status fails tx
          · simp only [perform, assignedBy, grantedBy, abandonedBy, opened]
            exact ⟨rfl, rfl, rfl⟩
  | flush syncFails writeFails id =>
      exact .same (paged _ (congrArg MetaPage.lastTxnID (tryFlush_info _ _ _)))
        rfl ⟨rfl, rfl, rfl⟩
  | saveMeta fails =>
      have marked : (Engine.saveMeta fails
          ledger.engine.manager.pager).info.lastTxnID =
            ledger.engine.manager.pager.info.lastTxnID := by
        simp only [Engine.saveMeta]
        split
        · rfl
        · exact saveMeta_lastTxnID _
      exact .same (paged _ marked) rfl ⟨rfl, rfl, rfl⟩

end Changes

/-! ## The numbers of a run -/

def marked (ledger : Ledger) : TxnID :=
  ledger.engine.manager.pager.info.lastTxnID

def newest (ledger : Ledger) : TxnID := ledger.engine.manager.lastTxnID

/-- Write transactions end one after another, in the order of their numbers. -/
structure Serial (base : TxnID) (ledger : Ledger) : Prop where
  base_le : base.toNat ≤ ledger.marked.toNat
  marked_le : ledger.marked.toNat ≤ ledger.newest.toNat
  marked_from : ledger.marked = base ∨ ledger.marked ∈ ledger.granted
  range : ∀ id, id ∈ ledger.assigned →
    base.toNat < id.toNat ∧ id.toNat ≤ ledger.newest.toNat
  granted_le : ∀ id, id ∈ ledger.granted → id.toNat ≤ ledger.marked.toNat
  noted : ∀ id, id ∈ ledger.engine.manager.committedTxns →
    id ∈ ledger.granted
  ended : ∀ id, id ∈ ledger.assigned → id ∈ ledger.granted ∨
    id ∈ ledger.abandoned ∨ ∃ tx, ledger.engine.writer = some tx ∧
      tx.txnID = id
  abandoned : ∀ id, id ∈ ledger.abandoned → id ∈ ledger.assigned ∧
    id ∉ ledger.granted
  writer : ∀ tx, ledger.engine.writer = some tx →
    tx.Writing ledger.newest ∧ ledger.newest ∈ ledger.assigned ∧
      ledger.marked.toNat < ledger.newest.toNat ∧
      ∀ id, id ∈ ledger.abandoned → id.toNat < ledger.newest.toNat

section Serial

variable {base : TxnID} {before after : Ledger}

theorem Serial.began (serial : Serial base before) {tx : Transaction}
    (room : before.newest.toNat + 1 < 2 ^ 64)
    (closed : before.engine.writer = none)
    (opened : after.engine.writer = some tx)
    (writing : tx.Writing (before.newest + 1))
    (next : after.newest = before.newest + 1)
    (noted : after.engine.manager.committedTxns =
      before.engine.manager.committedTxns)
    (marked : after.marked = before.marked)
    (lists : after.assigned = (before.newest + 1) :: before.assigned ∧
      after.granted = before.granted ∧ after.abandoned = before.abandoned) :
    Serial base after := by
  obtain ⟨assigned, granted, abandoned⟩ := lists
  have grown : after.newest.toNat = before.newest.toNat + 1 := by
    rw [next, toNat_succ64 room]
  have low := serial.base_le
  have high := serial.marked_le
  constructor
  · rwa [marked]
  · rw [marked]
    omega
  · rw [marked, granted]
    exact serial.marked_from
  · intro id member
    rw [assigned] at member
    rcases List.mem_cons.mp member with rfl | member
    · rw [← next]
      omega
    · have range := serial.range id member
      omega
  · intro id member
    rw [granted] at member
    rw [marked]
    exact serial.granted_le id member
  · rw [noted, granted]
    exact serial.noted
  · intro id member
    rw [assigned] at member
    rw [granted, abandoned]
    rcases List.mem_cons.mp member with rfl | member
    · exact .inr (.inr ⟨tx, opened, writing.1⟩)
    · rcases serial.ended id member with done | lost | ⟨old, shown, _⟩
      · exact .inl done
      · exact .inr (.inl lost)
      · cases closed.symm.trans shown
  · intro id member
    rw [abandoned] at member
    rw [assigned, granted]
    exact ⟨List.mem_cons_of_mem _ (serial.abandoned id member).1,
      (serial.abandoned id member).2⟩
  · intro current shown
    obtain rfl := Option.some.inj (opened.symm.trans shown)
    rw [next, assigned, marked, abandoned]
    refine ⟨writing, List.mem_cons_self, ?_, ?_⟩
    · rw [toNat_succ64 room]
      omega
    · intro id member
      have range := serial.range id (serial.abandoned id member).1
      rw [toNat_succ64 room]
      omega

theorem Serial.kept (serial : Serial base before)
    (status : SameStatus before.engine.manager after.engine.manager)
    (writer : ∀ tx, after.engine.writer = some tx →
      ∃ old, before.engine.writer = some old ∧
        ∀ txnID, old.Writing txnID → tx.Writing txnID)
    (closed : before.engine.writer ≠ none → after.engine.writer ≠ none)
    (lists : after.assigned = before.assigned ∧
      after.granted = before.granted ∧ after.abandoned = before.abandoned) :
    Serial base after := by
  obtain ⟨assigned, granted, abandoned⟩ := lists
  have marked : after.marked = before.marked := status.marked
  have newest : after.newest = before.newest := status.assigned
  constructor
  · rw [marked]
    exact serial.base_le
  · rw [marked, newest]
    exact serial.marked_le
  · rw [marked, granted]
    exact serial.marked_from
  · rw [assigned, newest]
    exact serial.range
  · rw [granted, marked]
    exact serial.granted_le
  · rw [status.noted, granted]
    exact serial.noted
  · intro id member
    rw [assigned] at member
    rw [granted, abandoned]
    rcases serial.ended id member with done | lost | ⟨old, shown, number⟩
    · exact .inl done
    · exact .inr (.inl lost)
    · have still := closed (by rw [shown]; exact nofun)
      obtain ⟨tx, opened⟩ := Option.ne_none_iff_exists'.mp still
      obtain ⟨same, shownBefore, writing⟩ := writer tx opened
      obtain rfl := Option.some.inj (shown.symm.trans shownBefore)
      exact .inr (.inr ⟨tx, opened,
        ((writing _ (serial.writer old shown).1).1.trans
          (serial.writer old shown).1.1.symm).trans number⟩)
  · rw [abandoned, assigned, granted]
    exact serial.abandoned
  · intro tx opened
    obtain ⟨old, shown, writing⟩ := writer tx opened
    have known := serial.writer old shown
    rw [newest, assigned, marked, abandoned]
    exact ⟨writing _ known.1, known.2⟩

theorem Serial.gaveUp (serial : Serial base before) {tx : Transaction}
    (opened : before.engine.writer = some tx)
    (closed : after.engine.writer = none)
    (status : SameStatus before.engine.manager after.engine.manager)
    (lists : after.assigned = before.assigned ∧
      after.granted = before.granted ∧
      after.abandoned = tx.txnID :: before.abandoned) :
    Serial base after := by
  obtain ⟨assigned, granted, abandoned⟩ := lists
  obtain ⟨writing, member, above, _⟩ := serial.writer tx opened
  have marked : after.marked = before.marked := status.marked
  have newest : after.newest = before.newest := status.assigned
  constructor
  · rw [marked]
    exact serial.base_le
  · rw [marked, newest]
    exact serial.marked_le
  · rw [marked, granted]
    exact serial.marked_from
  · rw [assigned, newest]
    exact serial.range
  · rw [granted, marked]
    exact serial.granted_le
  · rw [status.noted, granted]
    exact serial.noted
  · intro id member
    rw [assigned] at member
    rw [granted, abandoned]
    rcases serial.ended id member with done | lost | ⟨old, shown, number⟩
    · exact .inl done
    · exact .inr (.inl (List.mem_cons_of_mem _ lost))
    · obtain rfl := Option.some.inj (opened.symm.trans shown)
      rw [number]
      exact .inr (.inl List.mem_cons_self)
  · intro id lost
    rw [abandoned, writing.1] at lost
    rw [assigned, granted]
    rcases List.mem_cons.mp lost with rfl | lost
    · refine ⟨member, fun done => ?_⟩
      have bound := serial.granted_le _ done
      omega
    · exact serial.abandoned id lost
  · intro current shown
    cases closed.symm.trans shown

theorem Serial.committed (serial : Serial base before) {tx : Transaction}
    (opened : before.engine.writer = some tx)
    (closed : after.engine.writer = none)
    (same : after.newest = before.newest)
    (noted : ∀ id, id ∈ after.engine.manager.committedTxns →
      id = tx.txnID ∨ id ∈ before.engine.manager.committedTxns)
    (marked : after.marked = tx.txnID)
    (lists : after.assigned = before.assigned ∧
      after.granted = tx.txnID :: before.granted ∧
      after.abandoned = before.abandoned) : Serial base after := by
  obtain ⟨assigned, granted, abandoned⟩ := lists
  obtain ⟨writing, member, above, later⟩ := serial.writer tx opened
  rw [writing.1] at noted marked granted
  have low := serial.base_le
  constructor
  · rw [marked]
    omega
  · rw [marked, same]
  · rw [marked, granted]
    exact .inr List.mem_cons_self
  · rw [assigned, same]
    exact serial.range
  · intro id done
    rw [granted] at done
    rw [marked]
    rcases List.mem_cons.mp done with rfl | done
    · exact Nat.le_refl _
    · have bound := serial.granted_le id done
      omega
  · intro id remembered
    rw [granted]
    rcases noted id remembered with rfl | old
    · exact List.mem_cons_self
    · exact List.mem_cons_of_mem _ (serial.noted id old)
  · intro id member
    rw [assigned] at member
    rw [granted, abandoned]
    rcases serial.ended id member with done | lost | ⟨old, shown, number⟩
    · exact .inl (List.mem_cons_of_mem _ done)
    · exact .inr (.inl lost)
    · obtain rfl := Option.some.inj (opened.symm.trans shown)
      rw [← number, writing.1]
      exact .inl List.mem_cons_self
  · intro id lost
    rw [abandoned] at lost
    rw [assigned, granted]
    refine ⟨(serial.abandoned id lost).1, fun done => ?_⟩
    rcases List.mem_cons.mp done with rfl | done
    · exact absurd (later _ lost) (Nat.lt_irrefl _)
    · exact (serial.abandoned id lost).2 done
  · intro current shown
    cases closed.symm.trans shown

theorem Serial.step {action : Engine.Action} (serial : Serial base before)
    (taken : Guarded NoWrap Step action before after) : Serial base after := by
  obtain ⟨room, allowed, rfl⟩ := taken
  have live : ∀ tx, before.engine.writer = some tx →
      ∃ txnID, tx.Writing txnID :=
    fun tx opened => ⟨_, (serial.writer tx opened).1⟩
  cases perform_change live allowed with
  | began tx closed opened writing next noted marked lists =>
      cases action with
      | beginWrite fails =>
          exact serial.began room closed opened writing next noted marked lists
      | _ =>
          exact absurd lists.1 (List.ne_cons_self)
  | kept status writer closed lists =>
      exact serial.kept status writer closed lists
  | gaveUp tx opened closed status lists =>
      exact serial.gaveUp opened closed status lists
  | committed tx opened closed same noted marked lists =>
      exact serial.committed opened closed same noted marked lists

end Serial

theorem serial_started (pager : DefaultPager) (wal : WAL) (mode : SyncMode) :
    Serial pager.info.lastTxnID (started pager wal mode) where
  base_le := Nat.le_refl _
  marked_le := Nat.le_refl _
  marked_from := .inl rfl
  range := fun _ member => nomatch member
  granted_le := fun _ member => nomatch member
  noted := fun _ member => nomatch member
  ended := fun _ member => nomatch member
  abandoned := fun _ member => nomatch member
  writer := fun _ opened => nomatch opened

/-- Every commit still noted is at or below the last one, so that forgetting
it changes no answer. -/
theorem Serial.isCommitted_eq {base : TxnID} {ledger : Ledger}
    (serial : Serial base ledger) (id : TxnID) :
    ledger.engine.manager.isCommitted id =
        (decide (id ∈ ledger.granted) || decide (id ≤ ledger.marked)) ∧
      (ledger.engine.manager.isCommitted id = true ↔ id ≤ ledger.marked) := by
  have below : ∀ id, id ∈ ledger.granted → id ≤ ledger.marked :=
    fun id member => UInt64.le_iff_toNat_le.mpr (serial.granted_le id member)
  have answer : ledger.engine.manager.isCommitted id = true ↔
      id ≤ ledger.marked := by
    simp only [TxnManager.isCommitted, Bool.or_eq_true, decide_eq_true_eq]
    constructor
    · rintro (noted | low)
      · exact below id (serial.noted id noted)
      · exact low
    · exact .inr
  refine ⟨?_, answer⟩
  rw [Bool.eq_iff_iff, answer, Bool.or_eq_true, decide_eq_true_eq,
    decide_eq_true_eq]
  exact ⟨.inr, fun either => either.elim (below id) fun low => low⟩

/-- The answers are those of the commits that came back, exactly when no
transaction that was given up has a number below that of one that committed.
Forgetting old commits changes no answer. -/
theorem isCommitted_exact_iff {pager : DefaultPager} {wal : WAL}
    {mode : SyncMode} {actions : List Engine.Action} {ledger : Ledger}
    (run : Execution (Guarded NoWrap Step) (started pager wal mode) actions
      ledger) :
    ((∀ id, id ∈ ledger.assigned →
        (ledger.engine.manager.isCommitted id = true ↔
          id ∈ ledger.granted)) ↔
      ∀ lost, lost ∈ ledger.abandoned → ∀ done, done ∈ ledger.granted →
        done < lost) ∧
    ∀ id, ledger.engine.manager.isCommitted id =
      (decide (id ∈ ledger.granted) ||
        decide (id ≤ ledger.engine.manager.pager.info.lastTxnID)) := by
  have serial : Serial pager.info.lastTxnID ledger :=
    run.invariant (fun holds taken => holds.step taken)
      (serial_started pager wal mode)
  refine ⟨?_, fun id => (serial.isCommitted_eq id).1⟩
  constructor
  · intro honest lost gone done granted
    have known := serial.abandoned lost gone
    have unmarked : ¬ lost ≤ ledger.marked := fun low =>
      known.2 ((honest lost known.1).mp ((serial.isCommitted_eq lost).2.mpr low))
    have bound := serial.granted_le done granted
    rw [UInt64.le_iff_toNat_le] at unmarked
    rw [UInt64.lt_iff_toNat_lt]
    omega
  · intro ordered id member
    rw [(serial.isCommitted_eq id).2, UInt64.le_iff_toNat_le]
    refine ⟨fun low => ?_, serial.granted_le id⟩
    have range := serial.range id member
    rcases serial.ended id member with done | lost | ⟨tx, opened, number⟩
    · exact done
    · -- the last commit the meta page names came after the one given up
      rcases serial.marked_from with fresh | granted
      · rw [fresh] at low
        omega
      · have above := UInt64.lt_iff_toNat_lt.mp
          (ordered id lost ledger.marked granted)
        omega
    · have writing := serial.writer tx opened
      rw [← number, writing.1.1] at low
      omega

def skippedActions : List Engine.Action :=
  [.beginWrite false, .rollback false, .beginWrite false,
    .commit World.plainOrder []]

def freshLedger : Ledger :=
  started Engine.samplePager (WAL.openWAL (.ofContents .empty) 0) .full

def skippedLedger : Ledger := skippedActions.foldl perform freshLedger

theorem skippedLedger_run :
    Execution (Guarded NoWrap Step) freshLedger skippedActions
      skippedLedger := by
  refine .cons ⟨?_, rfl, rfl⟩ (.cons ⟨trivial, trivial, rfl⟩
    (.cons ⟨?_, rfl, rfl⟩ (.cons ⟨trivial, trivial, rfl⟩ (.nil _))))
  · exact (by decide : 0 + 1 < 2 ^ 64)
  · exact (by decide : 1 + 1 < 2 ^ 64)

theorem isCommitted_rolledBack :
    Execution (Guarded NoWrap Step) freshLedger skippedActions skippedLedger ∧
      1 ∈ skippedLedger.assigned ∧ 1 ∉ skippedLedger.granted ∧
      skippedLedger.engine.manager.isCommitted 1 = true := by
  refine ⟨skippedLedger_run, ?_, ?_, rfl⟩
  · exact List.mem_cons_of_mem _ List.mem_cons_self
  · have granted : skippedLedger.granted = [2] := rfl
    rw [granted]
    decide

def keptLedger : Ledger :=
  [Engine.Action.beginWrite false, .commit World.plainOrder [], .beginWrite false,
    .rollback false].foldl perform freshLedger

theorem isCommitted_exact_kept :
    (∀ id, id ∈ keptLedger.assigned →
      (keptLedger.engine.manager.isCommitted id = true ↔
        id ∈ keptLedger.granted)) ∧
      keptLedger.assigned = [2, 1] ∧ keptLedger.granted = [1] := by
  have run : Execution (Guarded NoWrap Step) freshLedger
      [.beginWrite false, .commit World.plainOrder [], .beginWrite false,
        .rollback false] keptLedger := by
    refine .cons ⟨?_, rfl, rfl⟩ (.cons ⟨trivial, trivial, rfl⟩
      (.cons ⟨?_, rfl, rfl⟩ (.cons ⟨trivial, trivial, rfl⟩ (.nil _))))
    · exact (by decide : 0 + 1 < 2 ^ 64)
    · exact (by decide : 1 + 1 < 2 ^ 64)
  have lost : keptLedger.abandoned = [2] := rfl
  have granted : keptLedger.granted = [1] := rfl
  refine ⟨(isCommitted_exact_iff run).1.mpr ?_, rfl, granted⟩
  rw [lost, granted]
  simp only [List.mem_singleton, forall_eq]
  decide

end Ledger

end CocoDB
