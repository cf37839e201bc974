import CocoDB.BTree.Tree

/-!
# Cursors

`internal/btree/cursor.go`.  A cursor keeps the items of one leaf and a place
among them.  Moving on from a leaf looks at its neighbour only: an empty
neighbour ends the scan.
-/

namespace CocoDB.BTree

open Lib

/-- A cursor over a tree.  `leaf` is the page it stands on. -/
structure Cursor (σ : Type) where
  tree : Tree σ
  leaf : PageID
  items : List LeafItem
  idx : Int
  valid : Bool
  err : Option Error

namespace Cursor

variable {σ : Type}

def new (tree : Tree σ) : Cursor σ where
  tree := tree
  leaf := invalidPageID
  items := []
  idx := -1
  valid := false
  err := none

def release (cursor : Cursor σ) : Cursor σ := new cursor.tree

def isValid (cursor : Cursor σ) : Bool :=
  cursor.valid && cursor.err.isNone

/-- The item under the cursor, from which `Key()` and `Value()` copy. -/
def current (cursor : Cursor σ) : Option LeafItem :=
  if cursor.isValid = false ∨ cursor.idx < 0 then none
  else cursor.items[cursor.idx.toNat]?

def key (cursor : Cursor σ) : Option Bytes :=
  cursor.current.map LeafItem.key

def value (cursor : Cursor σ) : Option Bytes :=
  cursor.current.map LeafItem.value

def fail (error : Error) (state : σ) (cursor : Cursor σ) : Bool × Cursor σ :=
  (false,
    { cursor with
      tree := { cursor.tree with pager := state }
      err := some error
      valid := false })

variable [Pager σ]

/-- Stand on a leaf, at an index that may depend on the number of its items;
an empty leaf leaves the cursor invalid. -/
def enter (leafID : PageID) (state : σ) (index : Nat → Int)
    (cursor : Cursor σ) : Bool × Cursor σ :=
  let items := leafItems (Pager.page state leafID)
  let moved : Cursor σ :=
    { cursor with
      tree := { cursor.tree with pager := state }
      leaf := leafID
      items := items }
  if items.length = 0 then (false, { moved with valid := false })
  else (true, { moved with idx := index items.length, valid := true })

def follow (leafID : PageID) (index : Nat → Int) (cursor : Cursor σ) :
    Bool × Cursor σ :=
  if leafID = invalidPageID then (false, { cursor with valid := false })
  else
    match Pager.get leafID cursor.tree.pager with
    | (.error error, state) => cursor.fail error state
    | (.ok _, state) => cursor.enter leafID state index

def first (cursor : Cursor σ) : Bool × Cursor σ :=
  let released := cursor.release
  if released.tree.root = invalidPageID then (false, released)
  else
    match findLeftmostLeaf released.tree with
    | (.error error, state) => released.fail error state
    | (.ok leafID, state) => released.enter leafID state fun _ => 0

def last (cursor : Cursor σ) : Bool × Cursor σ :=
  let released := cursor.release
  if released.tree.root = invalidPageID then (false, released)
  else
    match findRightmostLeaf released.tree with
    | (.error error, state) => released.fail error state
    | (.ok leafID, state) =>
        released.enter leafID state fun length => length - 1

/-- Stand on the first item whose key is at least `key`; if the leaf of the key
has none, look into the next leaf. -/
def seek (key : Bytes) (cursor : Cursor σ) : Bool × Cursor σ :=
  let released := cursor.release
  if released.tree.root = invalidPageID then (false, released)
  else
    match findLeaf key released.tree with
    | (.error error, state) => released.fail error state
    | (.ok leafID, state) =>
        let page := Pager.page state leafID
        let items := leafItems page
        let found : Cursor σ :=
          { released with
            tree := { released.tree with pager := state }
            leaf := leafID
            items := items }
        let index := (binarySearch page key).1
        if index < items.length then
          (true, { found with idx := index, valid := true })
        else found.follow (nextLeaf page) fun _ => 0

def next (cursor : Cursor σ) : Bool × Cursor σ :=
  if cursor.valid = false then (false, cursor)
  else
    let moved := { cursor with idx := cursor.idx + 1 }
    if moved.idx < moved.items.length then (true, moved)
    else
      moved.follow (nextLeaf (Pager.page moved.tree.pager moved.leaf))
        fun _ => 0

def prev (cursor : Cursor σ) : Bool × Cursor σ :=
  if cursor.valid = false then (false, cursor)
  else
    let moved := { cursor with idx := cursor.idx - 1 }
    if moved.idx ≥ 0 then (true, moved)
    else
      moved.follow (prevLeaf (Pager.page moved.tree.pager moved.leaf))
        fun length => length - 1

/-- The loop of the scans: hand items to `fn` until a key is past the end, `fn`
declines, or there is no further item.  The result lists the calls of `fn`.
The source has no bound on the number of rounds; a scan that needs more than
`fuel` has no result here. -/
def scan (move : Cursor σ → Bool × Cursor σ) (past : Bytes → Bool)
    (fn : Bytes → Bytes → Bool) :
    Nat → Cursor σ → Option (List LeafItem × Cursor σ)
  | 0, _ => none
  | fuel + 1, cursor =>
      if cursor.isValid = false then some ([], cursor)
      else
        let key := cursor.key.getD []
        let value := cursor.value.getD []
        if past key then some ([], cursor)
        else if fn key value = false then some ([⟨key, value⟩], cursor)
        else
          match move cursor with
          | (false, after) => some ([⟨key, value⟩], after)
          | (true, after) =>
              (scan move past fn fuel after).map fun (calls, final) =>
                (⟨key, value⟩ :: calls, final)

def scanFrom (placed : Bool × Cursor σ)
    (move : Cursor σ → Bool × Cursor σ) (past : Bytes → Bool)
    (fn : Bytes → Bytes → Bool) (fuel : Nat) :
    Option (List LeafItem × Cursor σ) :=
  match placed with
  | (false, after) => some ([], after)
  | (true, after) => scan move past fn fuel after

/-- The calls that `PrefixScan` makes, and the cursor that it leaves. -/
def prefixScan (keyPrefix : Bytes) (fn : Bytes → Bytes → Bool) (fuel : Nat)
    (cursor : Cursor σ) : Option (List LeafItem × Cursor σ) :=
  scanFrom (cursor.seek keyPrefix) next
    (fun key => ! keyPrefix.isPrefixOf key) fn fuel

/-- The calls that `RangeScan` makes; a missing bound is `nil`. -/
def rangeScan (start stop : Option Bytes) (fn : Bytes → Bytes → Bool)
    (fuel : Nat) (cursor : Cursor σ) : Option (List LeafItem × Cursor σ) :=
  let placed :=
    match start with
    | some key => cursor.seek key
    | none => cursor.first
  scanFrom placed next (fun key => stop.any fun bound => bound ≤ key) fn fuel

end Cursor

end CocoDB.BTree
