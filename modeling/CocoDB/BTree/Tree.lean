import CocoDB.Storage.Pager
import CocoDB.BTree.Node

/-!
# The B+tree

`internal/btree/tree.go`.  The source walks down from the root with unbounded
loops.  A descent reads pages without changing them, so one that visits more
pages than exist visits some page twice and never ends; the model bounds every
descent by the number of pages and reports `diverges` beyond it.

An operation that fails leaves behind the pages it had already rewritten, so
every operation returns the state next to its result.
-/

namespace CocoDB.BTree

open Lib

/-- A tree handle together with the pager it works on. -/
structure Tree (σ : Type) where
  root : PageID
  pager : σ

variable {σ : Type} [Pager σ]

/-- The loop that `findLeaf`, `findLeftmostLeaf` and `findRightmostLeaf`
share: follow `route` until a leaf. -/
def walkDown (route : Page → PageID) :
    Nat → PageID → σ → Except Error PageID × σ
  | 0, _, state => (.error .diverges, state)
  | fuel + 1, currID, state =>
      match Pager.get currID state with
      | (.error error, after) => (.error error, after)
      | (.ok _, after) =>
          if (Pager.page after currID).header.type = .pageBTreeLeaf then
            (.ok currID, after)
          else
            walkDown route fuel (route (Pager.page after currID)) after

/-- The leaf that should contain `key`. -/
def findLeaf (key : Bytes) (tree : Tree σ) : Except Error PageID × σ :=
  walkDown (routeChild · key) (Pager.pageCount tree.pager) tree.root
    tree.pager

def leftmostChild (page : Page) : PageID :=
  match childAndKeyAt page 0 with
  | some item => item.child
  | none => rightmostChild page

def findLeftmostLeaf (tree : Tree σ) : Except Error PageID × σ :=
  if tree.root = invalidPageID then (.error .pageNotFound, tree.pager)
  else
    walkDown leftmostChild (Pager.pageCount tree.pager) tree.root tree.pager

def findRightmostLeaf (tree : Tree σ) : Except Error PageID × σ :=
  if tree.root = invalidPageID then (.error .pageNotFound, tree.pager)
  else
    walkDown rightmostChild (Pager.pageCount tree.pager) tree.root tree.pager

def search (key : Bytes) (tree : Tree σ) :
    Except Error (Option Bytes) × Tree σ :=
  if tree.root = invalidPageID then (.ok none, tree)
  else
    match findLeaf key tree with
    | (.error error, after) => (.error error, { tree with pager := after })
    | (.ok leafID, after) =>
        let leaf := Pager.page after leafID
        match binarySearch leaf key with
        | (_, false) => (.ok none, { tree with pager := after })
        | (index, true) =>
            (.ok ((itemAt leaf index).map LeafItem.value),
              { tree with pager := after })

/-! ## Insertion -/

/-- The items of a leaf after setting `key` to `value` at the place binary
search reported. -/
def putItem (items : List LeafItem) (place : Nat × Bool)
    (key value : Bytes) : List LeafItem :=
  match place with
  | (index, true) =>
      items.modify index fun item => { item with value := value }
  | (index, false) =>
      items.take index ++ [{ key := key, value := value }] ++
        items.drop index

/-- The walk down to a leaf that remembers the internal pages it passed,
nearest first. -/
def descend (route : Page → PageID) :
    Nat → PageID → List PageID → σ →
      Except Error (PageID × List PageID) × σ
  | 0, _, _, state => (.error .diverges, state)
  | fuel + 1, currID, parents, state =>
      match Pager.get currID state with
      | (.error error, after) => (.error error, after)
      | (.ok _, after) =>
          if (Pager.page after currID).header.type = .pageBTreeLeaf then
            (.ok (currID, parents), after)
          else
            descend route fuel (route (Pager.page after currID))
              (currID :: parents) after

/-- The items and the rightmost child of a parent whose child `cLeft` was
split into `cLeft` and `cRight` at `kSep`. -/
def spliceParent (items : List InternalItem) (rightmost : PageID)
    (cLeft : PageID) (kSep : Bytes) (cRight : PageID) :
    Option (List InternalItem × PageID) :=
  if cLeft = rightmost then
    some (items ++ [{ child := cLeft, key := kSep }], cRight)
  else
    match items.findIdx? fun item => item.child = cLeft with
    | none => none
    | some index =>
        match items[index]? with
        | none => none
        | some old =>
            some
              (items.take index ++
                [{ child := cLeft, key := kSep },
                  { child := cRight, key := old.key }] ++
                items.drop (index + 1), rightmost)

def growRoot (cLeft : PageID) (kSep : Bytes) (cRight : PageID)
    (tree : Tree σ) : Except Error Unit × Tree σ :=
  match Pager.allocate .pageBTreeInternal tree.pager with
  | (.error error, after) => (.error error, { tree with pager := after })
  | (.ok rootID, after) =>
      match setInternalItems (Pager.page after rootID)
          [{ child := cLeft, key := kSep }] cRight with
      | (.error error, page) =>
          (.error error,
            { tree with pager := Pager.setPage rootID page after })
      | (.ok _, page) =>
          (.ok (),
            { root := page.header.id
              pager := Pager.markDirty rootID
                (Pager.setPage rootID page after) })

/-- Deal the items of an overflowing internal page to it and a new page on its
right; the middle item goes up. -/
def splitInternal (items : List InternalItem) (rightmost parentID : PageID)
    (state : σ) : Except Error (PageID × Bytes × PageID) × σ :=
  match Pager.allocate .pageBTreeInternal state with
  | (.error error, after) => (.error error, after)
  | (.ok rightID, after) =>
      let mid := items.length / 2
      let promoted := (items[mid]?).getD { child := 0, key := [] }
      match setInternalItems (Pager.page after parentID) (items.take mid)
          promoted.child with
      | (.error error, left) =>
          (.error error, Pager.setPage parentID left after)
      | (.ok _, left) =>
          let stored := Pager.setPage parentID left after
          match setInternalItems (Pager.page stored rightID)
              (items.drop (mid + 1)) rightmost with
          | (.error error, right) =>
              (.error error, Pager.setPage rightID right stored)
          | (.ok _, right) =>
              (.ok (left.header.id, promoted.key, right.header.id),
                Pager.markDirty rightID
                  (Pager.markDirty parentID
                    (Pager.setPage rightID right stored)))

def propagate (cLeft : PageID) (kSep : Bytes) (cRight : PageID) :
    List PageID → Tree σ → Except Error Unit × Tree σ
  | [], tree => growRoot cLeft kSep cRight tree
  | parentID :: rest, tree =>
      let parent := Pager.page tree.pager parentID
      match spliceParent (internalItems parent) (rightmostChild parent)
          cLeft kSep cRight with
      | none => (.error (.childNotFound cLeft), tree)
      | some (newItems, newRightmost) =>
          match setInternalItems parent newItems newRightmost with
          | (.ok _, page) =>
              (.ok (),
                { tree with
                  pager := Pager.markDirty parentID
                    (Pager.setPage parentID page tree.pager) })
          | (.error _, page) =>
              -- The page is overwritten already; its items survive in memory.
              match splitInternal newItems newRightmost parentID
                  (Pager.setPage parentID page tree.pager) with
              | (.error error, after) =>
                  (.error error, { tree with pager := after })
              | (.ok (left, promoted, right), after) =>
                  propagate left promoted right rest
                    { tree with pager := after }

def relinkNext (oldNextID rightID : PageID) (state : σ) : σ :=
  if oldNextID = invalidPageID then state
  else
    match Pager.get oldNextID state with
    | (.error _, after) => after
    | (.ok _, after) =>
        Pager.markDirty oldNextID
          (Pager.setPage oldNextID
            (setPrevLeaf (Pager.page after oldNextID) rightID) after)

/-- Put a new leaf into the chain, right after `leafID`. -/
def linkRight (leafID rightID : PageID) (state : σ) : σ :=
  let leaf := Pager.page state leafID
  let oldNextID := nextLeaf leaf
  let right :=
    setPrevLeaf (setNextLeaf (Pager.page state rightID) oldNextID)
      leaf.header.id
  relinkNext oldNextID right.header.id
    (Pager.setPage leafID (setNextLeaf leaf right.header.id)
      (Pager.setPage rightID right state))

/-- Deal the items of an overflowing leaf to it and a new leaf on its right, at
half the item count. -/
def splitLeaf (items : List LeafItem) (leafID : PageID) (state : σ) :
    Except Error (PageID × Bytes × PageID) × σ :=
  match Pager.allocate .pageBTreeLeaf state with
  | (.error error, after) => (.error error, after)
  | (.ok rightID, after) =>
      let mid := items.length / 2
      let leftItems := items.take mid
      let rightItems := items.drop mid
      let linked := linkRight leafID rightID after
      match setLeafItems (Pager.page linked leafID) leftItems with
      | (.error error, page) =>
          (.error error, Pager.setPage leafID page linked)
      | (.ok _, left) =>
          let stored := Pager.setPage leafID left linked
          match setLeafItems (Pager.page stored rightID) rightItems with
          | (.error error, page) =>
              (.error error, Pager.setPage rightID page stored)
          | (.ok _, rightPage) =>
              (.ok
                (left.header.id,
                  (rightItems.head?.map LeafItem.key).getD [],
                  rightPage.header.id),
                Pager.markDirty rightID
                  (Pager.markDirty leafID
                    (Pager.setPage rightID rightPage stored)))

def insertLeaf (key value : Bytes) (leafID : PageID)
    (parents : List PageID) (tree : Tree σ) :
    Except Error Unit × Tree σ :=
  let leaf := Pager.page tree.pager leafID
  let items := putItem (leafItems leaf) (binarySearch leaf key) key value
  match setLeafItems leaf items with
  | (.ok _, page) =>
      (.ok (),
        { tree with
          pager := Pager.markDirty leafID
            (Pager.setPage leafID page tree.pager) })
  | (.error _, page) =>
      match splitLeaf items leafID
          (Pager.setPage leafID page tree.pager) with
      | (.error error, after) => (.error error, { tree with pager := after })
      | (.ok (left, kSep, right), after) =>
          propagate left kSep right parents { tree with pager := after }

def insertFirst (key value : Bytes) (tree : Tree σ) :
    Except Error Unit × Tree σ :=
  match Pager.allocate .pageBTreeLeaf tree.pager with
  | (.error error, after) => (.error error, { tree with pager := after })
  | (.ok rootID, after) =>
      let leaf :=
        setNextLeaf (setPrevLeaf (Pager.page after rootID) invalidPageID)
          invalidPageID
      match setLeafItems leaf [{ key := key, value := value }] with
      | (.error error, page) =>
          (.error error,
            { tree with pager := Pager.setPage rootID page after })
      | (.ok _, page) =>
          (.ok (),
            { root := page.header.id
              pager := Pager.markDirty rootID
                (Pager.setPage rootID page after) })

def insert (key value : Bytes) (tree : Tree σ) :
    Except Error Unit × Tree σ :=
  if key.length > maxKeySize then
    (.error (.keySize key.length), tree)
  else if value.length > maxValueSize then
    (.error (.valueSize value.length), tree)
  else if tree.root = invalidPageID then
    insertFirst key value tree
  else
    match descend (routeChild · key) (Pager.pageCount tree.pager) tree.root []
        tree.pager with
    | (.error error, after) => (.error error, { tree with pager := after })
    | (.ok (leafID, parents), after) =>
        insertLeaf key value leafID parents { tree with pager := after }

/-! ## Deletion -/

def delete (key : Bytes) (tree : Tree σ) : Except Error Unit × Tree σ :=
  if tree.root = invalidPageID then (.ok (), tree)
  else
    match findLeaf key tree with
    | (.error error, after) => (.error error, { tree with pager := after })
    | (.ok leafID, after) =>
        let leaf := Pager.page after leafID
        match binarySearch leaf key with
        | (_, false) => (.ok (), { tree with pager := after })
        | (index, true) =>
            match setLeafItems leaf ((leafItems leaf).eraseIdx index) with
            | (.error error, page) =>
                (.error error,
                  { tree with pager := Pager.setPage leafID page after })
            | (.ok _, page) =>
                (.ok (),
                  { tree with
                    pager := Pager.markDirty leafID
                      (Pager.setPage leafID page after) })

end CocoDB.BTree
