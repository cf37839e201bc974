import CocoDB.BTree.Tree
import CocoDB.Index.Key
import CocoDB.Storage.PagerLaws

/-!
# The record directory

`internal/record/directory.go`: the B+tree from record identifiers to the page
and slot of the newest version.
-/

namespace CocoDB.Record

open Lib

structure Location where
  page : PageID
  slot : Nat
  deriving DecidableEq

namespace Location

def encode (loc : Location) : Bytes := be 8 loc.page.toNat ++ be 2 loc.slot

def decode (value : Bytes) : Location where
  page := UInt64.ofNat (ofBE (value.take 8))
  slot := ofBE ((value.drop 8).take 2)

end Location

namespace Directory

def key (id : RecordID) : Bytes := Index.encodeUint64 id

/-- `Get`; a value that is too short counts as missing -/
def get (id : RecordID) (tree : BTree.Tree DefaultPager) :
    Except Error (Option Location) × BTree.Tree DefaultPager :=
  match BTree.search (key id) tree with
  | (.error cause, after) => (.error cause, after)
  | (.ok none, after) => (.ok none, after)
  | (.ok (some value), after) =>
      if value.length < 10 then (.ok none, after)
      else (.ok (some (Location.decode value)), after)

/-- `d.pager.Meta().RecordDirRoot = d.tree.Root()` -/
def noteRoot (tree : BTree.Tree DefaultPager) : BTree.Tree DefaultPager :=
  { tree with
    pager := { tree.pager with
      info := { tree.pager.info with recordDirRoot := tree.root } } }

def put (id : RecordID) (loc : Location) (tree : BTree.Tree DefaultPager) :
    Except Error Unit × BTree.Tree DefaultPager :=
  match BTree.insert (key id) loc.encode tree with
  | (.error cause, after) => (.error cause, after)
  | (.ok _, after) => (.ok (), noteRoot after)

end Directory

end CocoDB.Record

/-! ## Record headers

`internal/record/record.go`: the 40 bytes in front of every version of a record,
and the rule that decides which transactions see the version.
-/

namespace CocoDB.Record

open Lib

def recordHeaderSize : Nat := 40

def flagDeleted : UInt16 := 1

def flagOverflow : UInt16 := 2

structure Header where
  recordID : RecordID
  beginTxn : TxnID
  endTxn : TxnID
  prevVersion : RecordID
  flags : UInt16
  payloadLength : UInt32
  deriving DecidableEq

namespace Header

/-- `Encode`; two bytes after the flags are reserved -/
def encode (header : Header) : Bytes :=
  be 8 header.recordID.toNat ++ be 8 header.beginTxn.toNat ++
    be 8 header.endTxn.toNat ++ be 8 header.prevVersion.toNat ++
    be 2 header.flags.toNat ++ be 2 0 ++ be 4 header.payloadLength.toNat

def field (buf : Bytes) (offset width : Nat) : Nat :=
  ofBE ((buf.drop offset).take width)

def decode (buf : Bytes) : Except Error Header :=
  if buf.length < recordHeaderSize then .error .invalidPage
  else
    .ok
      { recordID := UInt64.ofNat (field buf 0 8)
        beginTxn := UInt64.ofNat (field buf 8 8)
        endTxn := UInt64.ofNat (field buf 16 8)
        prevVersion := UInt64.ofNat (field buf 24 8)
        flags := UInt16.ofNat (field buf 32 2)
        payloadLength := UInt32.ofNat (field buf 36 4) }

def isVisible (header : Header) (snapshotTxn : TxnID)
    (isTxnCommitted : TxnID → Bool) (activeTxn : TxnID) : Bool :=
  if snapshotTxn < header.beginTxn ∧ header.beginTxn ≠ activeTxn then false
  else if header.beginTxn ≠ activeTxn ∧
      isTxnCommitted header.beginTxn = false then false
  else if header.endTxn ≠ 0 ∧ header.endTxn ≤ snapshotTxn ∧
      (isTxnCommitted header.endTxn = true ∨ header.endTxn = activeTxn) then
    false
  else true

def isDeleted (header : Header) : Bool :=
  header.flags &&& flagDeleted ≠ 0

theorem encode_length (header : Header) :
    header.encode.length = recordHeaderSize := by
  simp only [encode, List.length_append, be_length]
  rfl

theorem decode_encode (header : Header) (body : Bytes) :
    decode (header.encode ++ body) = .ok header := by
  have long : ¬ (header.encode ++ body).length < recordHeaderSize := by
    rw [List.length_append, encode_length]
    omega
  have flags : UInt16.ofNat (ofBE (be 2 header.flags.toNat)) =
      header.flags := by
    have small : header.flags.toNat < 256 ^ 2 := header.flags.toNat_lt
    rw [ofBE_be, Nat.mod_eq_of_lt small, UInt16.ofNat_toNat]
  unfold decode
  rw [if_neg long]
  simp only [field, encode, List.append_assoc, List.drop_append,
    List.take_append, be_length, be_drop, List.drop_zero, List.nil_append,
    List.take_of_length_le, List.take_zero, List.append_nil, Nat.le_refl,
    Nat.sub_self, Nat.reduceSub, Nat.reduceLeDiff, ofBE_be64, ofBE_be32,
    flags]

end Header

end CocoDB.Record
