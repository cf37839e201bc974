import CocoDB.Record.Commits

/-!
# Sessions

Runs of a record store: transactions begin, write records and commit, and
readers come and go.  A session is watched with the list of its writes, newest
first.
-/

namespace CocoDB.Record

open Lib LawfulPager DefaultPager BTree

/-- A store, its write transaction and the writes so far. -/
structure Session where
  store : Store
  writer : Option Transaction
  log : List (RecordID × Version)

namespace Session

inductive Action where
  | beginWrite (fails : Bool)
  | beginRead
  | endRead (snapshot : TxnID)
  | write (payload : Option Bytes) (recID : RecordID)
  | read (tx : Option Transaction) (recID : RecordID)
  | readDirect (tx : Option Transaction) (recID : RecordID)
  | commit (order : MapOrder) (faults : List Bool)

def withManager (manager : TxnManager) (session : Session) : Session :=
  { session with store := { session.store with manager := manager } }

/-- `Begin(true)` -/
def beginRead (session : Session) : Transaction × Session :=
  let (tx, manager) := session.store.manager.beginTxn false true
  (tx, session.withManager manager)

/-- `Begin(false)` -/
def beginWrite (fails : Bool) (session : Session) : Session :=
  let (tx, manager) := session.store.manager.beginTxn fails false
  { session.withManager manager with writer := some tx }

/-- Perform a call.  There is no state after a call that has to wait or that
fails. -/
def perform (session : Session) : Action → Option Session
  | .beginWrite fails =>
      match session.writer with
      | some _ => none
      | none => some (session.beginWrite fails)
  | .beginRead => some session.beginRead.2
  | .endRead snapshot =>
      some (session.withManager (session.store.manager.deregister snapshot))
  | .write payload recID =>
      match session.writer with
      | none => none
      | some tx =>
          match session.store.writeRecord tx payload recID with
          | (.error _, _, _) => none
          | (.ok id, tracked, after) =>
              some ⟨after, some tracked,
                (id, ⟨tx.txnID, payload⟩) :: session.log⟩
  | .read tx recID =>
      some { session with store := (session.store.readRecord tx recID).2 }
  | .readDirect tx recID =>
      some { session with
        store := (session.store.readRecordDirect tx recID).2 }
  | .commit order faults =>
      match session.writer with
      | none => none
      | some tx =>
          match session.store.manager.commit order faults tx with
          | (.error _, _, _) => none
          | (.ok _, _, manager) =>
              some { session.withManager manager with writer := none }

def Step (action : Action) (before after : Session) : Prop :=
  before.perform action = some after

def performAll : List Action → Session → Option Session
  | [], session => some session
  | action :: rest, session =>
      match session.perform action with
      | none => none
      | some next => performAll rest next

theorem performAll_eq {cond : Action → Session → Prop} {start final : Session}
    {actions : List Action}
    (run : Execution (Guarded cond Step) start actions final) :
    performAll actions start = some final := by
  induction run with
  | nil state => rfl
  | cons first _ inductionHypothesis =>
      rw [performAll, show Session.perform _ _ = some _ from first.2]
      exact inductionHypothesis

section Steps

variable {session after : Session} {tx tracked closed : Transaction}

theorem step_beginWrite (idle : session.writer = none) (fails : Bool) :
    Step (.beginWrite fails) session (session.beginWrite fails) := by
  unfold Step perform
  rw [idle]

theorem step_write {payload : Option Bytes} {recID id : RecordID}
    {store : Store} (opened : session.writer = some tx)
    (done : session.store.writeRecord tx payload recID =
      (.ok id, tracked, store)) :
    Step (.write payload recID) session
      ⟨store, some tracked, (id, ⟨tx.txnID, payload⟩) :: session.log⟩ := by
  unfold Step perform
  rw [opened]
  simp only [done]

theorem step_commit {order : MapOrder} {faults : List Bool}
    {manager : TxnManager} (opened : session.writer = some tx)
    (done : session.store.manager.commit order faults tx =
      (.ok (), closed, manager)) :
    Step (.commit order faults) session
      { session.withManager manager with writer := none } := by
  unfold Step perform
  rw [opened]
  simp only [done]

theorem write_taken {payload : Option Bytes} {recID : RecordID}
    (taken : Step (.write payload recID) session after) :
    ∃ tx id tracked store, session.writer = some tx ∧
      session.store.writeRecord tx payload recID = (.ok id, tracked, store) ∧
      after =
        ⟨store, some tracked, (id, ⟨tx.txnID, payload⟩) :: session.log⟩ := by
  unfold Step perform at taken
  cases opened : session.writer with
  | none =>
      rw [opened] at taken
      cases taken
  | some tx =>
      rw [opened] at taken
      rcases outcome : session.store.writeRecord tx payload recID with
        ⟨result, tracked, store⟩
      simp only [outcome] at taken
      cases result with
      | error cause => cases taken
      | ok id =>
          exact ⟨tx, id, tracked, store, rfl, outcome,
            (Option.some.inj taken).symm⟩

end Steps

/-- No counter runs out: neither that of the pages, which a write may ask for
several times, nor those of the records and the transactions.  The length of a
payload fits its field. -/
def Affords (action : Action) (session : Session) : Prop :=
  match action with
  | .beginWrite _ => session.store.manager.lastTxnID.toNat + 1 < 2 ^ 64
  | .write payload _ =>
      (payload.getD []).length < 2 ^ 32 ∧
        3 * session.store.pager.info.nextPageID.toNat +
          (payload.getD []).length + 7 ≤ 2 ^ 64 ∧
        session.store.nextID.toNat + 2 < 2 ^ 64
  | _ => True

end Session

def Session.lastCommit (session : Session) : TxnID :=
  session.store.manager.pager.info.lastTxnID

/-! ## What a session holds -/

/-- The open transaction has the last identifier. -/
structure Writing (manager : TxnManager) (tx : Transaction) : Prop where
  engaged : Engaged manager.pager tx
  txnID_eq : tx.txnID = manager.lastTxnID
  snapshot_eq : tx.snapshotTxn = manager.pager.info.lastTxnID
  next : manager.lastTxnID.toNat = manager.pager.info.lastTxnID.toNat + 1

/-- The store holds the shelf, and all versions but those of the open
transaction are committed. -/
structure Housed (session : Session) (tall : Nat) (shelf : Shelf) :
    Prop where
  holds : Holds session.store tall shelf
  writing : ∀ tx, session.writer = some tx →
    Writing session.store.manager tx
  idle : session.writer = none →
    session.store.manager.lastTxnID =
      session.store.manager.pager.info.lastTxnID
  known : ∀ {id entry}, shelf id = some entry →
    entry.version.txnID ≤ session.store.manager.pager.info.lastTxnID ∨
      ∃ tx, session.writer = some tx ∧ entry.version.txnID = tx.txnID

namespace Session

def shelve (session : Session) (shelf : Shelf) : Action → Shelf
  | .write payload recID =>
      match session.writer with
      | none => shelf
      | some tx =>
          (shelf.write ⟨tx.txnID, payload⟩ recID session.store.nextID).2.2
  | _ => shelf

end Session

namespace Housed

variable {session after : Session} {tall : Nat} {shelf : Shelf}

theorem sound (housed : Housed session tall shelf) :
    session.store.pager.Sound :=
  housed.holds.sound

theorem read (housed : Housed session tall shelf) {pager : DefaultPager}
    (works : Works session.store.pager pager 0) :
    Housed { session with store := session.store.setPager pager } tall
      shelf := by
  have info : pager.info.lastTxnID = session.store.pager.info.lastTxnID := by
    rw [works.continues.info]
  refine ⟨housed.holds.works works, fun tx opened => ?_, fun closed => ?_,
    fun stands => ?_⟩
  · have writing := housed.writing tx opened
    refine ⟨writing.engaged.continues works.continues, writing.txnID_eq, ?_,
      ?_⟩
    · exact writing.snapshot_eq.trans info.symm
    · show _ = pager.info.lastTxnID.toNat + 1
      rw [info]
      exact writing.next
  · exact (housed.idle closed).trans info.symm
  · show _ ≤ pager.info.lastTxnID ∨ _
    rw [info]
    exact housed.known stands

theorem readers (housed : Housed session tall shelf) (readers : List TxnID) :
    Housed (session.withManager { session.store.manager with
      readers := readers }) tall shelf :=
  ⟨housed.holds.manager (Works.refl housed.sound).frames fun known => known,
    fun tx opened => ⟨(housed.writing tx opened).engaged,
      (housed.writing tx opened).txnID_eq,
      (housed.writing tx opened).snapshot_eq,
      (housed.writing tx opened).next⟩, housed.idle, housed.known⟩

theorem beginWrite (housed : Housed session tall shelf)
    (closed : session.writer = none) (fails : Bool)
    (unwrapped : session.store.manager.lastTxnID.toNat + 1 < 2 ^ 64) :
    Housed (session.beginWrite fails) tall shelf := by
  have last := housed.idle closed
  have works : Works session.store.pager
      (session.store.manager.beginTxn fails false).2.pager 0 :=
    works_log housed.sound _
  have number : (session.store.manager.lastTxnID + 1).toNat =
      session.store.manager.lastTxnID.toNat + 1 := toNat_succ64 unwrapped
  refine ⟨housed.holds.manager works.frames works.continues.objects, ?_,
    fun opened => (nomatch opened), ?_⟩
  · intro tx opened
    obtain rfl := Option.some.inj opened
    refine ⟨⟨rfl, rfl, fun inside => (nomatch inside)⟩, rfl, ?_, ?_⟩
    · show session.store.manager.lastTxnID + 1 - 1 = _
      rw [UInt64.add_sub_cancel]
      exact last
    · show (session.store.manager.lastTxnID + 1).toNat =
        session.store.manager.pager.info.lastTxnID.toNat + 1
      rw [number, last]
  · intro id entry stands
    rcases housed.known stands with old | ⟨tx, opened, _⟩
    · exact .inl old
    · rw [closed] at opened
      cases opened

theorem commit (housed : Housed session tall shelf) {tx closed : Transaction}
    (opened : session.writer = some tx) {order : MapOrder}
    {faults : List Bool} {manager : TxnManager}
    (done : session.store.manager.commit order faults tx =
      (.ok (), closed, manager)) :
    Housed { session.withManager manager with writer := none } tall shelf ∧
      manager.lastTxnID = session.store.manager.lastTxnID ∧
      manager.pager.info.nextPageID.toNat ≤
        session.store.pager.info.nextPageID.toNat := by
  have writing := housed.writing tx opened
  unfold TxnManager.commit at done
  rw [if_pos writing.engaged.isOpen_eq, writing.engaged.readOnly_eq] at done
  simp only [Bool.false_eq_true, if_false] at done
  rcases writes : session.store.manager.commitWrites order faults tx with
    ⟨outcome, after⟩
  rw [writes] at done
  obtain ⟨rfl, same⟩ := Prod.mk.inj done
  obtain ⟨rfl, rfl⟩ := Prod.mk.inj same
  obtain ⟨synced, lsn, status, works, rfl⟩ :=
    commitWrites_spec housed.sound writing.engaged writes
  have noted : Frames synced.pager (synced.noteCommit order tx.txnID
      lsn).pager :=
    .of_sameBody ⟨works.sound.pinned, works.sound.known, works.sound.distinct,
      works.sound.header_id, works.sound.below, works.sound.noFree⟩
      (fun held => held) fun _ => .refl _
  have assigned : synced.lastTxnID = session.store.manager.lastTxnID :=
    status.assigned
  have older : ∀ {txnID}, txnID ≤ session.store.manager.pager.info.lastTxnID →
      txnID ≤ tx.txnID := by
    intro txnID low
    rw [writing.txnID_eq, UInt64.le_iff_toNat_le, writing.next]
    exact (UInt64.le_iff_toNat_le.mp low).trans (Nat.le_succ _)
  refine ⟨⟨?_, fun _ opened => (nomatch opened), fun _ => ?_, ?_⟩, assigned,
    works.count⟩
  · have moved : Holds ({ session.store.setPager synced.pager with
        manager := (synced.noteCommit order tx.txnID lsn).deregister
          tx.snapshotTxn } : Store) tall shelf :=
      (housed.holds.works works).manager noted fun known => known
    exact moved
  · exact assigned.trans writing.txnID_eq.symm
  · intro id entry stands
    refine .inl ?_
    rcases housed.known stands with old | ⟨tx', opened', own⟩
    · exact older old
    · rw [opened] at opened'
      rw [own, ← Option.some.inj opened']
      exact UInt64.le_refl _

theorem write (housed : Housed session tall shelf) {tx : Transaction}
    (opened : session.writer = some tx) (recID : RecordID)
    {payload : Option Bytes} (short : (payload.getD []).length < 2 ^ 32)
    (roomy : session.store.pager.info.nextPageID.toNat +
      (payload.getD []).length + 2 * tall + 7 ≤ 2 ^ 64) :
    ∃ tracked after,
      let result := shelf.write ⟨tx.txnID, payload⟩ recID session.store.nextID
      session.store.writeRecord tx payload recID =
        (.ok result.1, tracked, after) ∧
      Tracked tx tracked ∧ after.nextID = result.2.1 ∧
      Moves session.store after ((payload.getD []).length + 2 * tall + 6) ∧
      Housed ⟨after, some tracked,
        (result.1, ⟨tx.txnID, payload⟩) :: session.log⟩ (tall + 2)
        result.2.2 := by
  have writing := housed.writing tx opened
  obtain ⟨tracked, after, done, track, engaged, moves, nextEq, holds⟩ :=
    Store.writeRecord_spec housed.holds writing.engaged recID payload short
      roomy
  have info : after.manager.pager.info.lastTxnID =
      session.store.manager.pager.info.lastTxnID := by
    show after.pager.info.lastTxnID = _
    rw [moves.advances.continues.info]
    rfl
  have last : after.manager.lastTxnID = session.store.manager.lastTxnID := by
    rw [moves.manager]
    rfl
  refine ⟨tracked, after, done, track, nextEq, moves, holds, ?_,
    fun closed => (nomatch closed), ?_⟩
  · intro other known
    obtain rfl := Option.some.inj known
    obtain ⟨pages, rfl⟩ := track
    refine ⟨engaged, ?_, ?_, ?_⟩
    · exact writing.txnID_eq.trans last.symm
    · exact writing.snapshot_eq.trans info.symm
    · show after.manager.lastTxnID.toNat = _
      rw [last, info]
      exact writing.next
  · intro id entry stands
    rcases Shelf.write_entry stands with new | ⟨old, stood⟩
    · exact .inr ⟨tracked, rfl, by rw [new, track.txnID_eq]⟩
    · show _ ≤ after.manager.pager.info.lastTxnID ∨ _
      rw [info]
      rcases housed.known stood with low | ⟨tx', opened', own⟩
      · exact .inl low
      · refine .inr ⟨tracked, rfl, ?_⟩
        rw [opened] at opened'
        rw [own, ← Option.some.inj opened', track.txnID_eq]

theorem lastCommit_le {pager after : DefaultPager}
    (continues : pager.Continues after) :
    pager.info.lastTxnID ≤ after.info.lastTxnID := by
  rw [continues.info]
  exact UInt64.le_refl _

theorem cap (housed : Housed session tall shelf) :
    Housed session (min tall session.store.pager.info.nextPageID.toNat)
      shelf :=
  ⟨housed.holds.cap, housed.writing, housed.idle, housed.known⟩

theorem step {action : Session.Action} (housed : Housed session tall shelf)
    (affords : Session.Affords action session)
    (taken : Session.Step action session after) :
    (∃ taller, Housed after taller (session.shelve shelf action)) ∧
      session.lastCommit ≤ after.lastCommit := by
  unfold Session.Step at taken
  cases action with
  | beginWrite fails =>
      cases opened : session.writer with
      | some tx =>
          rw [Session.perform, opened] at taken
          cases taken
      | none =>
          rw [Session.perform, opened] at taken
          obtain rfl := Option.some.inj taken
          exact ⟨⟨tall, housed.beginWrite opened fails affords⟩,
            UInt64.le_refl _⟩
  | beginRead =>
      obtain rfl := Option.some.inj taken
      exact ⟨⟨tall, housed.readers _⟩, UInt64.le_refl _⟩
  | endRead snapshot =>
      obtain rfl := Option.some.inj taken
      exact ⟨⟨tall, housed.readers _⟩, UInt64.le_refl _⟩
  | write payload recID =>
      obtain ⟨short, roomy, _⟩ := affords
      obtain ⟨tx, id, tracked, store, opened, done, rfl⟩ :=
        Session.write_taken taken
      obtain ⟨tracked', store', done', _, _, moves, housedNow⟩ :=
        housed.cap.write opened recID short (by omega)
      obtain ⟨sameID, sameRest⟩ := Prod.mk.inj (done.symm.trans done')
      obtain ⟨rfl, rfl⟩ := Prod.mk.inj sameRest
      obtain rfl := Except.ok.inj sameID
      rw [Session.shelve, opened]
      exact ⟨⟨_, housedNow⟩, lastCommit_le moves.advances.continues⟩
  | read tx recID =>
      obtain ⟨pager, readEq, works⟩ := @Store.readVersions_spec tall shelf
        Slotted.get rfl (Store.readView tx).1 (Store.readView tx).2
        Store.maxVisited recID session.store housed.holds.keeps
      obtain rfl := Option.some.inj taken
      rw [Store.readRecord, readEq]
      exact ⟨⟨tall, housed.read works⟩, lastCommit_le works.continues⟩
  | readDirect tx recID =>
      obtain ⟨pager, readEq, works⟩ := @Store.readVersions_spec tall shelf
        Slotted.getDirect rfl (Store.readView tx).1 (Store.readView tx).2
        Store.maxVisited recID session.store housed.holds.keeps
      obtain rfl := Option.some.inj taken
      rw [Store.readRecordDirect, readEq]
      exact ⟨⟨tall, housed.read works⟩, lastCommit_le works.continues⟩
  | commit order faults =>
      cases opened : session.writer with
      | none =>
          rw [Session.perform, opened] at taken
          cases taken
      | some tx =>
          rw [Session.perform, opened] at taken
          rcases outcome : session.store.manager.commit order faults tx with
            ⟨result, closed, manager⟩
          simp only [outcome] at taken
          cases result with
          | error cause => cases taken
          | ok _ =>
              obtain rfl := Option.some.inj taken
              obtain ⟨housedNow, lastEq, _⟩ := housed.commit opened outcome
              refine ⟨⟨tall, housedNow⟩, ?_⟩
              have next := (housed.writing tx opened).next
              have last : manager.lastTxnID = manager.pager.info.lastTxnID :=
                housedNow.idle rfl
              rw [← lastEq, last] at next
              rw [UInt64.le_iff_toNat_le]
              show _ ≤ manager.pager.info.lastTxnID.toNat
              rw [next]
              exact Nat.le_succ _

theorem isCommitted_of_le {manager : TxnManager} {txnID : TxnID}
    (low : txnID ≤ manager.pager.info.lastTxnID) :
    manager.isCommitted txnID = true := by
  unfold TxnManager.isCommitted
  rw [decide_eq_true low, Bool.or_true]

/-- What the write transaction reads stands at the front: every version is its
own or committed. -/
theorem readRecord_writer (housed : Housed session tall shelf)
    {tx : Transaction} (opened : session.writer = some tx)
    (recID : RecordID) :
    (session.store.readRecord (some tx) recID).1 =
      if recID ≠ invalidRecordID ∧ recID ≠ 0 then
        match shelf recID with
        | none => .error .slotNotFound
        | some entry => entry.answer
      else .error .slotNotFound := by
  obtain ⟨pager, readEq, _⟩ := @Store.readVersions_spec tall shelf
    Slotted.get rfl tx.snapshotTxn tx.txnID Store.maxVisited recID
    session.store housed.holds.keeps
  have result : (session.store.readRecord (some tx) recID).1 =
      shelf.read (sees tx.snapshotTxn session.store.manager.isCommitted
        tx.txnID) (999 + 1) recID := congrArg Prod.fst readEq
  rw [result, Shelf.read]
  cases stands : shelf recID with
  | none => rfl
  | some entry =>
      have visible : sees tx.snapshotTxn session.store.manager.isCommitted
          tx.txnID entry.version.txnID = true := by
        unfold sees
        rw [decide_eq_true_eq]
        rcases housed.known stands with old | ⟨tx', opened', own⟩
        · refine .inr ⟨?_, isCommitted_of_le old⟩
          rw [(housed.writing tx opened).snapshot_eq]
          exact old
        · rw [opened] at opened'
          exact .inl (Option.some.inj opened' ▸ own)
      simp only [visible, if_true]

end Housed

namespace Session

def update (payload : Option Bytes) (recID : RecordID) : List Action :=
  [.beginWrite false, .write payload recID, .commit World.plainOrder []]

end Session

/-- A session between two transactions, and its counters. -/
structure Idle (session : Session) (shelf : Shelf) (tall pages : Nat)
    (last : TxnID) (next : UInt64) : Prop where
  housed : Housed session tall shelf
  closed : session.writer = none
  last_eq : session.store.manager.lastTxnID = last
  next_eq : session.store.nextID = next
  pages_le : session.store.pager.info.nextPageID.toNat ≤ pages

structure Midway (session : Session) (tx : Transaction) (shelf : Shelf)
    (tall pages : Nat) (last : TxnID) (next : UInt64) : Prop where
  housed : Housed session tall shelf
  opened : session.writer = some tx
  txnID_eq : tx.txnID = last
  last_eq : session.store.manager.lastTxnID = last
  next_eq : session.store.nextID = next
  pages_le : session.store.pager.info.nextPageID.toNat ≤ pages

namespace Idle

variable {session : Session} {shelf changed : Shelf} {tall pages : Nat}
  {last : TxnID} {next counter : UInt64} {payload : Option Bytes}
  {recID id : RecordID}

theorem affords (idle : Idle session shelf tall pages last next)
    (short : (payload.getD []).length < 2 ^ 32)
    (roomy : 3 * pages + (payload.getD []).length + 7 ≤ 2 ^ 64)
    (counted : next.toNat + 2 < 2 ^ 64) :
    Session.Affords (.write payload recID) (session.beginWrite false) := by
  have bound : (session.beginWrite false).store.pager.info.nextPageID.toNat ≤
      pages := idle.pages_le
  refine ⟨short, by omega, ?_⟩
  show session.store.nextID.toNat + 2 < 2 ^ 64
  rw [idle.next_eq]
  exact counted

theorem beginRead (idle : Idle session shelf tall pages last next) :
    Idle session.beginRead.2 shelf tall pages last next :=
  ⟨idle.housed.readers _, idle.closed, idle.last_eq, idle.next_eq,
    idle.pages_le⟩

/-- A transaction begins and writes once, under any condition on the calls that
it meets. -/
theorem openWrite {cond : Session.Action → Session → Prop}
    (idle : Idle session shelf tall pages last next)
    (shape : shelf.write ⟨last + 1, payload⟩ recID next =
      (id, counter, changed))
    (begins : cond (.beginWrite false) session)
    (writes : cond (.write payload recID) (session.beginWrite false))
    (counted : last.toNat + 1 < 2 ^ 64)
    (short : (payload.getD []).length < 2 ^ 32)
    (roomy : pages + (payload.getD []).length + 2 * tall + 7 ≤ 2 ^ 64) :
    ∃ after tx, Execution (Guarded cond Session.Step) session
        [.beginWrite false, .write payload recID] after ∧
      Midway after tx changed (tall + 2)
        (pages + (payload.getD []).length + 2 * tall + 6) (last + 1)
        counter ∧
      after.log = (id, ⟨last + 1, payload⟩) :: session.log := by
  obtain ⟨housed, closed, rfl, rfl, bound⟩ := idle
  have begun := housed.beginWrite closed false counted
  obtain ⟨tracked, store, done, track, nextEq, moves, wrote⟩ :=
    begun.write rfl recID short
      (show session.store.pager.info.nextPageID.toNat + _ + _ + 7 ≤ _ by
        omega)
  have last : store.manager.lastTxnID =
      session.store.manager.lastTxnID + 1 := by
    rw [moves.manager]
    rfl
  have counts : store.pager.info.nextPageID.toNat ≤
      session.store.pager.info.nextPageID.toNat +
        ((payload.getD []).length + 2 * tall + 6) := moves.advances.count
  have same : shelf.write (⟨session.store.manager.lastTxnID + 1, payload⟩ :
      Version) recID (session.beginWrite false).store.nextID =
        (id, counter, changed) := shape
  refine ⟨_, tracked, .cons ⟨begins, Session.step_beginWrite closed false⟩
    (.cons ⟨writes, Session.step_write rfl done⟩ (.nil _)), ⟨?_, rfl,
      track.txnID_eq, last, ?_, counts.trans (by omega)⟩, ?_⟩
  · rw [show changed = (shelf.write (⟨session.store.manager.lastTxnID + 1,
      payload⟩ : Version) recID (session.beginWrite false).store.nextID).2.2
      from by rw [same]]
    exact wrote
  · rw [show counter = (shelf.write (⟨session.store.manager.lastTxnID + 1,
      payload⟩ : Version) recID (session.beginWrite false).store.nextID).2.1
      from by rw [same]]
    exact nextEq
  · rw [show id = (shelf.write (⟨session.store.manager.lastTxnID + 1,
      payload⟩ : Version) recID (session.beginWrite false).store.nextID).1
      from by rw [same]]
    rfl

theorem update {cond : Session.Action → Session → Prop}
    (idle : Idle session shelf tall pages last next)
    (shape : shelf.write ⟨last + 1, payload⟩ recID next =
      (id, counter, changed))
    (begins : cond (.beginWrite false) session)
    (writes : cond (.write payload recID) (session.beginWrite false))
    (ends : ∀ final, cond (.commit World.plainOrder []) final)
    (counted : last.toNat + 1 < 2 ^ 64)
    (short : (payload.getD []).length < 2 ^ 32)
    (roomy : pages + (payload.getD []).length + 2 * tall + 7 ≤ 2 ^ 64) :
    ∃ after, Execution (Guarded cond Session.Step) session
        (Session.update payload recID) after ∧
      Idle after changed (tall + 2)
        (pages + (payload.getD []).length + 2 * tall + 6) (last + 1)
        counter ∧
      after.log = (id, ⟨last + 1, payload⟩) :: session.log := by
  obtain ⟨middle, tx, run, midway, log⟩ :=
    idle.openWrite shape begins writes counted short roomy
  obtain ⟨closed, manager, commits⟩ := @commit_ok middle.store.manager
    World.plainOrder tx (midway.housed.writing tx midway.opened).engaged
  obtain ⟨final, lastEq, count⟩ := midway.housed.commit midway.opened commits
  exact ⟨_, run.append (.cons ⟨ends _, Session.step_commit midway.opened
    commits⟩ (.nil _)), ⟨final, rfl, lastEq.trans midway.last_eq,
    midway.next_eq, count.trans midway.pages_le⟩, log⟩

end Idle

/-! ## Databases -/

/-- A database to open: its directory leads to the versions of the shelf, and
all of them are committed. -/
structure Database (manager : TxnManager) (root : PageID) (tall : Nat)
    (shelf : Shelf) : Prop where
  keeps : Keeps ⟨root, manager.pager⟩ tall shelf
  last : manager.lastTxnID = manager.pager.info.lastTxnID
  known : ∀ {id entry}, shelf id = some entry →
    entry.version.txnID ≤ manager.pager.info.lastTxnID

def Session.opened (manager : TxnManager) (root : PageID)
    (log : List (RecordID × Version)) : Session where
  store := Store.newStore manager root
  writer := none
  log := log

section Databases

variable {manager : TxnManager} {root : PageID} {tall : Nat} {shelf : Shelf}

theorem Database.housed (database : Database manager root tall shelf)
    (log : List (RecordID × Version)) :
    Housed (Session.opened manager root log) tall shelf :=
  ⟨⟨database.keeps, fun _ inside => (nomatch inside)⟩,
    fun _ opened => (nomatch opened), fun _ => database.last,
    fun stands => .inl (database.known stands)⟩

theorem database_empty (sound : manager.pager.Sound)
    (last : manager.lastTxnID = manager.pager.info.lastTxnID) :
    Database manager invalidPageID 0 fun _ => none :=
  ⟨⟨_, Directory.lists_empty sound, fun _ => .inl ⟨rfl, rfl⟩⟩, last,
    fun stands => (nomatch stands)⟩

theorem Housed.database {session : Session}
    (housed : Housed session tall shelf) (closed : session.writer = none) :
    Database session.store.manager session.store.directory tall shelf := by
  refine ⟨housed.holds.keeps, housed.idle closed, fun stands => ?_⟩
  rcases housed.known stands with old | ⟨tx, opened, _⟩
  · exact old
  · rw [closed] at opened
    cases opened

theorem Database.run (database : Database manager root tall shelf)
    {log : List (RecordID × Version)} {actions : List Session.Action}
    {session : Session}
    (run : Execution (Guarded Session.Affords Session.Step)
      (Session.opened manager root log) actions session) :
    ∃ tall shelf, Housed session tall shelf := by
  refine @Execution.invariant _ _ _ (fun reached => ∃ tall shelf,
    Housed reached tall shelf) _ _ _ run ?_ ⟨tall, shelf, database.housed log⟩
  rintro action start next ⟨_, _, before⟩ ⟨affords, taken⟩
  obtain ⟨taller, after⟩ := (before.step affords taken).1
  exact ⟨taller, _, after⟩

end Databases

def sampleManager : TxnManager :=
  .newTxnManager Engine.samplePager (WAL.openWAL (.ofContents .empty) 0) .full

theorem sampleManager_database :
    Database sampleManager invalidPageID 0 fun _ => none :=
  database_empty (works_log (DefaultPager.sound_fresh _ _ _ _ rfl) _).sound rfl

theorem sampleManager_idle (log : List (RecordID × Version)) :
    Idle (Session.opened sampleManager invalidPageID log) (fun _ => none) 0 2 0
      1000 :=
  ⟨sampleManager_database.housed log, rfl, rfl, rfl, Nat.le_refl 2⟩

end CocoDB.Record
