import CocoDB.Lib.Run

/-!
# Transaction handles and their pool

`DB.Begin`, `DB.View`, `DB.Update`, `Tx.Commit` and `Tx.Rollback` as far as the
`Tx` handles go: calls run concurrently, take a handle out of a shared pool, fill
it in, and put it back when they are done.  One step of a call is one of: `Begin`
of the transaction manager, `Get` with the field setup, the return of the user's
function, the internal commit, clearing and `Put`, and the deferred `Rollback`.

`Commit` puts the handle back although the deferred `Rollback` will look at it
once more.  What that does depends on whether another call took the handle in
between.
-/

namespace CocoDB.HandlePool

open Lib

/-- A call of `View` or `Update`. -/
abbrev CallID := Nat

abbrev HandleID := Nat

abbrev TxnRef := Nat

abbrev Engine := Nat

/-- A transaction of the transaction manager, with the call that began it. -/
structure Txn where
  engine : Engine
  readOnly : Bool
  isOpen : Bool
  call : CallID

/-- The fields of a `Tx` that commit and rollback look at. -/
structure Handle where
  internalTx : Option TxnRef
  childTxs : List HandleID

def Handle.cleared : Handle := ⟨none, []⟩

inductive Kind where
  | view
  | update
  deriving DecidableEq

def Kind.readOnly : Kind → Bool
  | .view => true
  | .update => false

inductive Phase where
  | idle
  /-- `tm.Begin` is done, `txPool.Get` is next. -/
  | begun (kind : Kind) (txn : TxnRef)
  /-- The user's function is running. -/
  | running (kind : Kind) (handle : HandleID)
  /-- The user's function is in `childTx`, between `tm.Begin` and
  `txPool.Get`. -/
  | childBegun (kind : Kind) (handle : HandleID) (txn : TxnRef)
  | committing (handle : HandleID)
  /-- The internal commit is done; the children left are to be committed, then
  the handle is cleared and put back. -/
  | committingChildren (handle : HandleID) (rest : List HandleID)
  | childClearing (handle child : HandleID) (rest : List HandleID)
  /-- `Commit` has returned and the deferred `Rollback` is next. -/
  | committed (handle : HandleID)
  /-- The function failed, or it was a `View`: the deferred `Rollback` is
  next. -/
  | rollingBack (handle : HandleID)
  | finished

/-- The shared state.  `owner` is not in the code: it says which call took a
handle out of the pool and has not put it back yet. -/
structure State where
  txns : TxnRef → Txn
  txnCount : Nat
  handles : HandleID → Handle
  made : Nat
  pool : List HandleID
  calls : CallID → Phase
  owner : HandleID → Option CallID

namespace State

def start : State where
  txns _ := ⟨0, true, false, 0⟩
  txnCount := 0
  handles _ := .cleared
  made := 0
  pool := []
  calls _ := .idle
  owner _ := none

variable (state : State)

def setPhase (call : CallID) (phase : Phase) : State :=
  { state with calls := Function.update state.calls call phase }

/-- `tm.Begin` can take the writer lock of its engine. -/
def Unlocked (engine : Engine) (kind : Kind) : Prop :=
  kind = .update → ∀ txn, txn < state.txnCount →
    (state.txns txn).engine = engine → (state.txns txn).readOnly = false →
    (state.txns txn).isOpen = false

/-- `tm.Begin` on behalf of a call. -/
def beginTxn (call : CallID) (engine : Engine) (readOnly : Bool) : State :=
  { state with
    txns := Function.update state.txns state.txnCount
      ⟨engine, readOnly, true, call⟩
    txnCount := state.txnCount + 1 }

/-- Internal commit or rollback: the transaction is closed and its locks are
released. -/
def closeTxn (txn : TxnRef) : State :=
  { state with
    txns := Function.update state.txns txn
      { state.txns txn with isOpen := false } }

/-- `txPool.Get` of a pooled handle. -/
def take (handle : HandleID) : State :=
  { state with pool := state.pool.erase handle }

/-- `txPool.Get` that makes a new handle. -/
def make : State :=
  { state with made := state.made + 1 }

def setup (call : CallID) (handle : HandleID) (txn : TxnRef) : State :=
  { state with
    handles := Function.update state.handles handle ⟨some txn, []⟩
    owner := Function.update state.owner handle (some call) }

/-- `tx.childTxs[target] = child` -/
def addChild (handle child : HandleID) : State :=
  { state with
    handles := Function.update state.handles handle
      { state.handles handle with
        childTxs := (state.handles handle).childTxs ++ [child] } }

def release (call : CallID) (handle : HandleID) : State :=
  { state with
    handles := Function.update state.handles handle .cleared
    pool := handle :: state.pool
    owner :=
      if state.owner handle = some call then
        Function.update state.owner handle none
      else state.owner }

/-- `Rollback` of a child handle.  A child has no children of its own: the
engine of a model override has no overrides. -/
def rollbackChild (call : CallID) (handle : HandleID) : State :=
  match (state.handles handle).internalTx with
  | none => state
  | some txn => (state.closeTxn txn).release call handle

def rollbackChildren (call : CallID) : List HandleID → State → State
  | [], state => state
  | child :: rest, state =>
      rollbackChildren call rest (state.rollbackChild call child)

/-- `Tx.Rollback` on behalf of a call. -/
def rollback (call : CallID) (handle : HandleID) : State :=
  match (state.handles handle).internalTx with
  | none => state
  | some txn =>
      (rollbackChildren call (state.handles handle).childTxs
        (state.closeTxn txn)).release call handle

end State

inductive Action where
  | begin (call : CallID) (kind : Kind) (engine : Engine)
  | get (call : CallID) (pooled : Option HandleID)
  | openChild (call : CallID) (engine : Engine)
  | fnReturns (call : CallID) (ok : Bool)
  | commitInternal (call : CallID) (ok : Bool)
  | put (call : CallID)
  | rollback (call : CallID)

open State

/-- The handle `txPool.Get` hands out: any pooled one, or a new one. -/
inductive Gets (state : State) :
    Option HandleID → HandleID → State → Prop where
  | pooled {handle : HandleID} (member : handle ∈ state.pool) :
      Gets state (some handle) handle (state.take handle)
  | new : Gets state none state.made state.make

inductive Step : Action → State → State → Prop where
  | begin {state : State} {call : CallID} {kind : Kind} {engine : Engine}
      (phase : state.calls call = .idle)
      (unlocked : state.Unlocked engine kind) :
      Step (.begin call kind engine) state
        ((state.beginTxn call engine kind.readOnly).setPhase call
          (.begun kind state.txnCount))
  | get {state taken : State} {call : CallID} {kind : Kind} {txn : TxnRef}
      {choice : Option HandleID} {handle : HandleID}
      (phase : state.calls call = .begun kind txn)
      (gets : Gets state choice handle taken) :
      Step (.get call choice) state
        ((taken.setup call handle txn).setPhase call (.running kind handle))
  | openChild {state : State} {call : CallID} {kind : Kind}
      {handle : HandleID} {engine : Engine}
      (phase : state.calls call = .running kind handle)
      (unlocked : state.Unlocked engine kind) :
      Step (.openChild call engine) state
        ((state.beginTxn call engine kind.readOnly).setPhase call
          (.childBegun kind handle state.txnCount))
  | getChild {state taken : State} {call : CallID} {kind : Kind}
      {txn : TxnRef} {choice : Option HandleID} {handle child : HandleID}
      (phase : state.calls call = .childBegun kind handle txn)
      (gets : Gets state choice child taken) :
      Step (.get call choice) state
        (((taken.setup call child txn).addChild handle child).setPhase call
          (.running kind handle))
  | fnCommits {state : State} {call : CallID} {handle : HandleID}
      (phase : state.calls call = .running .update handle) :
      Step (.fnReturns call true) state
        (state.setPhase call (.committing handle))
  | fnFails {state : State} {call : CallID} {kind : Kind} {handle : HandleID}
      {ok : Bool} (phase : state.calls call = .running kind handle)
      (noCommit : kind = .view ∨ ok = false) :
      Step (.fnReturns call ok) state
        (state.setPhase call (.rollingBack handle))
  | commit {state : State} {call : CallID} {handle : HandleID} {txn : TxnRef}
      {rest : List HandleID} (phase : state.calls call = .committing handle)
      (current : (state.handles handle).internalTx = some txn)
      (stillOpen : (state.txns txn).isOpen = true)
      (order : rest.Perm (state.handles handle).childTxs) :
      Step (.commitInternal call true) state
        ((state.closeTxn txn).setPhase call (.committingChildren handle rest))
  | commitFails {state : State} {call : CallID} {handle : HandleID}
      {txn : TxnRef} (phase : state.calls call = .committing handle)
      (current : (state.handles handle).internalTx = some txn) :
      Step (.commitInternal call false) state
        ((state.closeTxn txn).setPhase call (.committingChildren handle []))
  -- the call dereferences nil, and the panic runs the deferred rollback
  | commitPanics {state : State} {call : CallID} {handle : HandleID}
      (phase : state.calls call = .committing handle)
      (missing : (state.handles handle).internalTx = none) :
      Step (.commitInternal call false) state
        (state.setPhase call (.rollingBack handle))
  | commitChild {state : State} {call : CallID} {handle child : HandleID}
      {txn : TxnRef} {rest : List HandleID} {ok : Bool}
      (phase : state.calls call = .committingChildren handle (child :: rest))
      (current : (state.handles child).internalTx = some txn)
      (stillOpen : ok = true → (state.txns txn).isOpen = true) :
      Step (.commitInternal call ok) state
        ((state.closeTxn txn).setPhase call
          (.childClearing handle child (if ok then rest else [])))
  | commitChildPanics {state : State} {call : CallID}
      {handle child : HandleID} {rest : List HandleID}
      (phase : state.calls call = .committingChildren handle (child :: rest))
      (missing : (state.handles child).internalTx = none) :
      Step (.commitInternal call false) state
        (state.setPhase call (.rollingBack handle))
  | putChild {state : State} {call : CallID} {handle child : HandleID}
      {rest : List HandleID}
      (phase : state.calls call = .childClearing handle child rest) :
      Step (.put call) state
        ((state.release call child).setPhase call
          (.committingChildren handle rest))
  | put {state : State} {call : CallID} {handle : HandleID}
      (phase : state.calls call = .committingChildren handle []) :
      Step (.put call) state
        ((state.release call handle).setPhase call (.committed handle))
  | rollbackCommitted {state : State} {call : CallID} {handle : HandleID}
      (phase : state.calls call = .committed handle) :
      Step (.rollback call) state
        ((state.rollback call handle).setPhase call .finished)
  | rollback {state : State} {call : CallID} {handle : HandleID}
      (phase : state.calls call = .rollingBack handle) :
      Step (.rollback call) state
        ((state.rollback call handle).setPhase call .finished)

end CocoDB.HandlePool
