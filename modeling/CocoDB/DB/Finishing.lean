import CocoDB.Lib.Run
import CocoDB.Txn.Readers
import Mathlib.Data.Finset.Card
import Mathlib.Data.Finset.Range

/-!
# Beginning and finishing transactions

`Tx.childTx`, `Commit` and `Rollback` of `tx.go` and `DB.Begin`, with the writer
locks and the reader tables behind them.  A database whose models have a storage
of their own consists of several engines, each with a transaction manager; a `Tx`
begins a transaction on such an engine when it is first asked for its model.

Other calls begin and finish their transactions at any time.  A handle belongs to
one call here; what the pool of handles does is the subject of `HandlePool`.
-/

namespace CocoDB.Finishing

open Lib

abbrev DBID := Nat

abbrev TxnRef := Nat

structure Database where
  tm : TxnManager
  writeLock : Bool
  closed : Bool

/-- A transaction with its manager and the lock it took. -/
structure InternalTx where
  db : DBID
  txn : Transaction
  isWriterHeld : Bool

structure State where
  databases : DBID → Database
  txns : TxnRef → InternalTx
  count : Nat

/-- The fields of a `Tx` that commit and rollback look at. -/
structure Tx where
  db : Option DBID
  internalTx : Option TxnRef
  childTxs : List (DBID × TxnRef)

def Tx.cleared : Tx := ⟨none, none, []⟩

/-- What a call meets: the order in which maps are visited, the calls of the
logs that fail, and what storing the roots in the catalog does to the pages. -/
structure Surroundings where
  order : DBID → MapOrder
  faults : DBID → List Bool
  abortFails : DBID → Bool
  saveRoots : DBID → DefaultPager → DefaultPager
  visit : List (DBID × TxnRef) → List (DBID × TxnRef)
  visit_perm : ∀ entries, (visit entries).Perm entries

namespace State

def start (pagers : DBID → DefaultPager) (wals : DBID → WAL)
    (modes : DBID → SyncMode) : State where
  databases id :=
    ⟨.newTxnManager (pagers id) (wals id) (modes id), false, false⟩
  txns _ := ⟨0, ⟨true, 0, 0, [], [], false⟩, false⟩
  count := 0

/-- `Begin` of the manager, which takes the lock for a write transaction. -/
def opened (id : DBID) (readOnly fails : Bool) (state : State) : State :=
  let db := state.databases id
  let (txn, tm) := db.tm.beginTxn fails readOnly
  { databases := Function.update state.databases id
      { db with tm := tm, writeLock := db.writeLock || !readOnly }
    txns := Function.update state.txns state.count ⟨id, txn, !readOnly⟩
    count := state.count + 1 }

/-- `DB.Begin`.  There is no result as long as a write transaction has to wait
for the lock. -/
def beginTx (id : DBID) (readOnly fails : Bool) (state : State) :
    Option (Except Error TxnRef × State) :=
  let db := state.databases id
  if db.closed then some (.error .txnClosed, state)
  else if !readOnly && db.writeLock then none
  else some (.ok state.count, state.opened id readOnly fails)

def unlocks (ref : TxnRef) (state : State) : Bool :=
  (state.txns ref).txn.isOpen && !(state.txns ref).txn.readOnly &&
    (state.txns ref).isWriterHeld

def finish (ref : TxnRef) (txn : Transaction) (tm : TxnManager)
    (state : State) : State :=
  let tx := state.txns ref
  let db := state.databases tx.db
  { state with
    databases := Function.update state.databases tx.db
      { db with tm := tm, writeLock := db.writeLock && !state.unlocks ref }
    txns := Function.update state.txns ref
      { tx with
        txn := txn, isWriterHeld := tx.isWriterHeld && !state.unlocks ref } }

/-- The roots of the trees go back to the catalog, then the transaction is
committed.  The errors of the catalog are passed over. -/
def commit (env : Surroundings) (ref : TxnRef) (state : State) :
    Except Error Unit × State :=
  let tx := state.txns ref
  let tm := (state.databases tx.db).tm
  let (outcome, txn, after) :=
    (tm.setPager (env.saveRoots tx.db tm.pager)).commit (env.order tx.db)
      (env.faults tx.db) tx.txn
  (outcome, state.finish ref txn after)

def rollback (env : Surroundings) (ref : TxnRef) (state : State) : State :=
  let tx := state.txns ref
  let (txn, after) :=
    (state.databases tx.db).tm.rollback (env.abortFails tx.db) tx.txn
  state.finish ref txn after

end State

namespace Tx

variable (tx : Tx)

/-- The engines a `Tx` has transactions on, with these transactions. -/
def entries : List (DBID × TxnRef) :=
  tx.db.toList.zip tx.internalTx.toList ++ tx.childTxs

def refs : List TxnRef := tx.entries.map Prod.snd

/-- `Commit`.  The children have no children: their engines have no overrides.
Without a transaction there is nothing to commit. -/
def commit (env : Surroundings) (state : State) :
    Except Error Unit × Tx × State :=
  match tx.internalTx with
  | none => (.error .txnClosed, tx, state)
  | some parent =>
      match state.commit env parent with
      | (.error error, after) => (.error error, cleared, after)
      | (.ok _, after) =>
          let (outcome, done) := run (State.commit env)
            ((env.visit tx.childTxs).map Prod.snd) after
          (outcome, cleared, done)

def rollback (env : Surroundings) (state : State) : Tx × State :=
  match tx.internalTx with
  | none => (tx, state)
  | some parent =>
      (cleared, ((env.visit tx.childTxs).map Prod.snd).foldl
        (fun state ref => state.rollback env ref) (state.rollback env parent))

/-- The end of `Update` when its function returns no error: `Commit`, then the
deferred `Rollback`. -/
def conclude (env later : Surroundings) (state : State) :
    Except Error Unit × Tx × State :=
  let (outcome, tx, after) := tx.commit env state
  (outcome, tx.rollback later after)

end Tx

/-- The database while one call runs, with the handle of this call. -/
structure Session where
  state : State
  tx : Tx

namespace Session

/-- `childTx`, with the transaction of the handle it returns.  There is no
result while it waits, and without a transaction. -/
def childTx (target : DBID) (fails : Bool) (session : Session) :
    Option (Except Error TxnRef × Session) :=
  match session.tx.internalTx with
  | none => none
  | some parent =>
      if session.tx.db = some target then some (.ok parent, session)
      else
        match session.tx.childTxs.lookup target with
        | some child => some (.ok child, session)
        | none =>
            match session.state.beginTx target
              (session.state.txns parent).txn.readOnly fails with
            | none => none
            | some (.error error, state) =>
                some (.error error, { session with state := state })
            | some (.ok ref, state) =>
                some (.ok ref,
                  { state := state
                    tx := { session.tx with
                      childTxs := (target, ref) :: session.tx.childTxs } })

def start (pagers : DBID → DefaultPager) (wals : DBID → WAL)
    (modes : DBID → SyncMode) : Session :=
  ⟨.start pagers wals modes, .cleared⟩

end Session

/-- Everything but the locks, the snapshots and who holds them may differ. -/
structure SameLocks (state next : State) : Prop where
  count : next.count = state.count
  readers : ∀ id, (next.databases id).tm.readers =
    (state.databases id).tm.readers
  writeLock : ∀ id, (next.databases id).writeLock =
    (state.databases id).writeLock
  db : ∀ ref, (next.txns ref).db = (state.txns ref).db
  isWriterHeld : ∀ ref, (next.txns ref).isWriterHeld =
    (state.txns ref).isWriterHeld
  isOpen : ∀ ref, (next.txns ref).txn.isOpen = (state.txns ref).txn.isOpen
  readOnly : ∀ ref, (next.txns ref).txn.readOnly =
    (state.txns ref).txn.readOnly
  snapshotTxn : ∀ ref, (next.txns ref).txn.snapshotTxn =
    (state.txns ref).txn.snapshotTxn

inductive Action where
  | beginTx (id : DBID) (readOnly fails : Bool)
  | childTx (target : DBID) (fails : Bool)
  | work
  | otherBegin (id : DBID) (readOnly fails : Bool)
  | otherCommit (env : Surroundings) (ref : TxnRef)
  | otherRollback (env : Surroundings) (ref : TxnRef)

/-- The steps of the call up to its commit, and those of other calls, which
finish transactions of their own. -/
inductive Step : Action → Session → Session → Prop where
  | beginTx {id : DBID} {readOnly fails : Bool} {ref : TxnRef}
      {start next : State} :
      start.beginTx id readOnly fails = some (.ok ref, next) →
      Step (.beginTx id readOnly fails) ⟨start, .cleared⟩
        ⟨next, ⟨some id, some ref, []⟩⟩
  | childTx {target : DBID} {fails : Bool} {outcome : Except Error TxnRef}
      {start next : Session} :
      start.childTx target fails = some (outcome, next) →
      Step (.childTx target fails) start next
  | work {start next : State} {tx : Tx} :
      SameLocks start next → Step .work ⟨start, tx⟩ ⟨next, tx⟩
  | otherBegin {id : DBID} {readOnly fails : Bool}
      {outcome : Except Error TxnRef} {start next : State} {tx : Tx} :
      start.beginTx id readOnly fails = some (outcome, next) →
      Step (.otherBegin id readOnly fails) ⟨start, tx⟩ ⟨next, tx⟩
  | otherCommit {env : Surroundings} {ref : TxnRef} {start : State} {tx : Tx} :
      ref < start.count → ref ∉ tx.refs →
      Step (.otherCommit env ref) ⟨start, tx⟩ ⟨(start.commit env ref).2, tx⟩
  | otherRollback {env : Surroundings} {ref : TxnRef} {start : State}
      {tx : Tx} :
      ref < start.count → ref ∉ tx.refs →
      Step (.otherRollback env ref) ⟨start, tx⟩ ⟨start.rollback env ref, tx⟩

def State.openAt (id : DBID) (snapshot : TxnID) (state : State) :
    Finset TxnRef :=
  (Finset.range state.count).filter fun ref =>
    (state.txns ref).db = id ∧ (state.txns ref).txn.isOpen = true ∧
      (state.txns ref).txn.snapshotTxn = snapshot

/-- Nothing is held for the transactions `refs` any more: they are closed, a
writer lock that is taken belongs to another transaction, and the reader tables
hold the snapshots of other transactions only. -/
structure Released (refs : List TxnRef) (state : State) : Prop where
  closed : ∀ ref ∈ refs, (state.txns ref).txn.isOpen = false ∧
    (state.txns ref).isWriterHeld = false
  unlocked : ∀ id, (state.databases id).writeLock = true →
    ∃ ref, ref ∉ refs ∧ ref < state.count ∧ (state.txns ref).db = id ∧
      (state.txns ref).isWriterHeld = true
  deregistered : ∀ id snapshot,
    (state.databases id).tm.readers.count snapshot =
      ((state.openAt id snapshot).filter (· ∉ refs)).card

end CocoDB.Finishing
