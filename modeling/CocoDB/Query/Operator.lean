import CocoDB.Query.Readable

/-!
# Operators

`internal/query/executor/operator.go`: the operators of a pipeline.  An operator
is what its methods do with its state.  The loops take a number of turns that
they may make at most.
-/

namespace CocoDB.Query

open Lib Cson
open Index (Runtime bytesCompare)

/-- `Operator`; the state is what the pointer leads to. -/
structure Operator where
  State : Type
  next : State → Outcome (Bool × State)
  view : State → Option DocumentView
  recordID : State → RecordID
  err : State → Option Error

structure Pipeline where
  op : Operator
  state : op.State

/-! ## Filter -/

def filterNext (runtime : Runtime) (child : Operator) (expr : Expression) :
    Nat → child.State → Outcome (Bool × child.State)
  | 0, _ => .exhausted
  | fuel + 1, state => do
      let (more, state) ← child.next state
      if more then
        match child.view state with
        | none => .panic
        | some view =>
            if ← evaluate runtime view expr then return (true, state)
            else filterNext runtime child expr fuel state
      else return (false, state)

def filter (runtime : Runtime) (fuel : Nat) (child : Operator)
    (expr : Expression) : Operator where
  State := child.State
  next := filterNext runtime child expr fuel
  view := child.view
  recordID := child.recordID
  err := child.err

/-! ## Limit -/

structure LimitState (α : Type) where
  child : α
  seen : Int
  yielded : Int

/-- The loop of `Limit.Next` that passes over the first elements, and whether it
came to its end. -/
def skip (child : Operator) : Nat → LimitState child.State →
    Outcome (Bool × LimitState child.State)
  | 0, state => .ok (true, state)
  | left + 1, state => do
      let (more, next) ← child.next state.child
      if more then
        skip child left { state with child := next, seen := state.seen + 1 }
      else return (false, { state with child := next })

def limitNext (child : Operator) (limit offset : Int)
    (state : LimitState child.State) :
    Outcome (Bool × LimitState child.State) := do
  let (reached, state) ← skip child (offset - state.seen).toNat state
  if !reached then return (false, state)
  else if 0 < limit ∧ limit ≤ state.yielded then return (false, state)
  else
    let (more, next) ← child.next state.child
    if more then
      return (true, { state with child := next, yielded := state.yielded + 1 })
    else return (false, { state with child := next })

def limit (child : Operator) (limit offset : Int) : Operator where
  State := LimitState child.State
  next := limitNext child limit offset
  view state := child.view state.child
  recordID state := child.recordID state.child
  err state := child.err state.child

/-! ## Sort -/

structure SortField where
  field : Bytes
  desc : Bool
deriving DecidableEq, Repr

/-- `a == nil`, where a missing field gives `nil` too -/
def isNothing : Option Value → Bool
  | none => true
  | some value => isNil value

/-- `compareAny` of two values that are not `nil` -/
def comparePresent : Option Value → Option Value → Ordering
  | some (.scalar (.int64 first)), some (.scalar (.int64 second)) =>
      compareInts first second
  | some (.scalar (.float64 first)), some (.scalar (.float64 second)) =>
      threeWay Binary64.less first second
  | some (.scalar (.string first)), some (.scalar (.string second)) =>
      bytesCompare first second
  | _, _ => .eq

def compareAny (first second : Option Value) : Ordering :=
  if isNothing first ∧ isNothing second then .eq
  else if isNothing first then .lt
  else if isNothing second then .gt
  else comparePresent first second

structure Item where
  view : DocumentView
  recID : RecordID

/-- The comparison that `Sort.Next` hands to `sort.Slice`. -/
def lessItems : List SortField → Item → Item → Outcome Bool
  | [], _, _ => .ok false
  | sortField :: rest, first, second => do
      let found := compareAny (← getValue first.view sortField.field)
        (← getValue second.view sortField.field)
      if found = .eq then lessItems rest first second
      else if sortField.desc then return found.isGT
      else return found.isLT

structure SortState (α : Type) where
  child : α
  materialized : List Item
  idx : Int
  started : Bool
  err : Option Error

/-- The loop of `Sort.Next` that collects the elements. -/
def materialize (child : Operator) : Nat → child.State →
    Outcome (List Item × child.State)
  | 0, _ => .exhausted
  | fuel + 1, state => do
      let (more, state) ← child.next state
      if more then
        match child.view state with
        | none => .panic
        | some view => do
            let (rest, final) ← materialize child fuel state
            return (⟨view, child.recordID state⟩ :: rest, final)
      else return ([], state)

/-- `sort.Slice`, with a comparison that may panic -/
abbrev Slice := (Item → Item → Outcome Bool) → List Item → Outcome (List Item)

/-- The first call of `Sort.Next`, as far as the elements. -/
def start (fuel : Nat) (slice : Slice) (child : Operator)
    (fields : List SortField) (state : SortState child.State) :
    Outcome (SortState child.State) := do
  let (items, next) ← materialize child fuel state.child
  match child.err next with
  | some cause =>
      return { state with
        child := next
        materialized := items
        started := true
        err := some cause }
  | none =>
      let sorted ← slice (lessItems fields) items
      return { state with
        child := next
        materialized := sorted
        started := true }

/-- `s.idx++` and the test after it -/
def advance {α : Type} (state : SortState α) : Bool × SortState α :=
  (state.idx + 1 < state.materialized.length,
    { state with idx := state.idx + 1 })

def sortNext (fuel : Nat) (slice : Slice) (child : Operator)
    (fields : List SortField) (state : SortState child.State) :
    Outcome (Bool × SortState child.State) :=
  if state.started then return advance state
  else do
    let begun ← start fuel slice child fields state
    if begun.err.isSome then return (false, begun)
    else return advance begun

/-- The element at the index of a `Sort`. -/
def SortState.current {α : Type} (state : SortState α) : Option Item :=
  if 0 ≤ state.idx then state.materialized[state.idx.toNat]? else none

def sort (fuel : Nat) (slice : Slice) (child : Operator)
    (fields : List SortField) : Operator where
  State := SortState child.State
  next := sortNext fuel slice child fields
  view state := state.current.map Item.view
  recordID state := (state.current.map Item.recID).getD 0xFFFFFFFFFFFFFFFF
  err := SortState.err

end CocoDB.Query
