import Mathlib.Data.List.AList
import CocoDB.Lib.Buffer

/-!
# CSON value types and the field dictionary

A CSON document stores numeric field ids.  The dictionary of a collection
numbers field names on first use with a 32-bit counter and never forgets one.
-/

namespace CocoDB.Cson

open CocoDB.Lib

inductive ValueType where
  | null
  | bool
  | int64
  | uint64
  | float64
  | string
  | bytes
  | time
  | array
  | object
  | vectorFloat32
deriving DecidableEq, Repr

namespace ValueType

def toByte : ValueType → UInt8
  | null => 0
  | bool => 1
  | int64 => 2
  | uint64 => 3
  | float64 => 4
  | string => 5
  | bytes => 6
  | time => 7
  | array => 8
  | object => 9
  | vectorFloat32 => 10

def all : List ValueType :=
  [null, bool, int64, uint64, float64, string, bytes, time, array, object,
    vectorFloat32]

/-- The type a stored byte stands for; the rest are unknown to the decoder. -/
def ofByte (tag : UInt8) : Option ValueType :=
  all.find? fun valType => valType.toByte = tag

@[simp]
theorem ofByte_toByte (valType : ValueType) :
    ofByte valType.toByte = some valType := by
  cases valType <;> decide

theorem toByte_of_ofByte {tag : UInt8} {valType : ValueType}
    (known : ofByte tag = some valType) : tag = valType.toByte := by
  have found := List.find?_some known
  exact (of_decide_eq_true found).symm

theorem toByte_injective {left right : ValueType}
    (same : left.toByte = right.toByte) : left = right := by
  have known := ofByte_toByte left
  rw [same, ofByte_toByte] at known
  exact (Option.some.inj known).symm

end ValueType

/-- `CSONMagic`, the word every encoded object starts with. -/
def csonMagic : Nat := 0x43534F4E

def csonVersion : Nat := 1

/-- `FieldEntrySize`: id, type, reserved byte, offset and length. -/
def fieldEntrySize : Nat := 14

/-- The reserved field name `_id`. -/
def idField : Bytes := [0x5F, 0x69, 0x64]

structure FieldDictionary where
  nameToID : AList fun _ : Bytes => UInt32
  idToName : AList fun _ : UInt32 => Bytes
  nextID : UInt32

namespace FieldDictionary

/-- `NewFieldDictionary`: the name `_id` is number one. -/
def newFieldDictionary : FieldDictionary :=
  { nameToID := AList.insert idField 1 ∅
    idToName := AList.insert 1 idField ∅
    nextID := 2 }

def getID (dict : FieldDictionary) (name : Bytes) : Option UInt32 :=
  dict.nameToID.lookup name

def getName (dict : FieldDictionary) (fieldID : UInt32) : Option Bytes :=
  dict.idToName.lookup fieldID

def assign (dict : FieldDictionary) (name : Bytes) : FieldDictionary :=
  { nameToID := dict.nameToID.insert name dict.nextID
    idToName := dict.idToName.insert dict.nextID name
    nextID := dict.nextID + 1 }

def getOrAssignID (dict : FieldDictionary) (name : Bytes) :
    UInt32 × FieldDictionary :=
  match dict.getID name with
  | some fieldID => (fieldID, dict)
  | none => (dict.nextID, dict.assign name)

def assignAll (dict : FieldDictionary) (names : List Bytes) :
    FieldDictionary :=
  names.foldl (fun dict name => (dict.getOrAssignID name).2) dict

@[simp]
theorem assignAll_nil (dict : FieldDictionary) : dict.assignAll [] = dict :=
  rfl

@[simp]
theorem assignAll_cons (dict : FieldDictionary) (name : Bytes)
    (names : List Bytes) :
    dict.assignAll (name :: names) =
      (dict.getOrAssignID name).2.assignAll names := rfl

theorem assignAll_append (dict : FieldDictionary) (names later : List Bytes) :
    dict.assignAll (names ++ later) =
      (dict.assignAll names).assignAll later :=
  List.foldl_append

theorem getID_assign_self (dict : FieldDictionary) (name : Bytes) :
    (dict.assign name).getID name = some dict.nextID :=
  AList.lookup_insert _

theorem getID_assign_ne (dict : FieldDictionary) {name other : Bytes}
    (different : other ≠ name) :
    (dict.assign name).getID other = dict.getID other :=
  AList.lookup_insert_ne different

theorem getName_assign_self (dict : FieldDictionary) (name : Bytes) :
    (dict.assign name).getName dict.nextID = some name :=
  AList.lookup_insert _

theorem getName_assign_ne (dict : FieldDictionary) (name : Bytes)
    {fieldID : UInt32} (different : fieldID ≠ dict.nextID) :
    (dict.assign name).getName fieldID = dict.getName fieldID :=
  AList.lookup_insert_ne different

theorem getOrAssignID_of_known {dict : FieldDictionary} {name : Bytes}
    {fieldID : UInt32} (known : dict.getID name = some fieldID) :
    dict.getOrAssignID name = (fieldID, dict) := by
  unfold getOrAssignID
  rw [known]

theorem getOrAssignID_of_fresh {dict : FieldDictionary} {name : Bytes}
    (fresh : dict.getID name = none) :
    dict.getOrAssignID name = (dict.nextID, dict.assign name) := by
  unfold getOrAssignID
  rw [fresh]

theorem getID_getOrAssignID (dict : FieldDictionary) (name : Bytes) :
    (dict.getOrAssignID name).2.getID name =
      some (dict.getOrAssignID name).1 := by
  cases found : dict.getID name with
  | none =>
      rw [getOrAssignID_of_fresh found]
      exact getID_assign_self dict name
  | some fieldID =>
      rw [getOrAssignID_of_known found]
      exact found

theorem getID_getOrAssignID_of_known {dict : FieldDictionary}
    {name : Bytes} {fieldID : UInt32} (other : Bytes)
    (known : dict.getID name = some fieldID) :
    (dict.getOrAssignID other).2.getID name = some fieldID := by
  cases found : dict.getID other with
  | some otherID =>
      rw [getOrAssignID_of_known found]
      exact known
  | none =>
      have different : name ≠ other := by
        rintro rfl
        rw [known] at found
        cases found
      rw [getOrAssignID_of_fresh found, getID_assign_ne dict different]
      exact known

theorem getID_assignAll_of_known (names : List Bytes)
    {dict : FieldDictionary} {name : Bytes} {fieldID : UInt32}
    (known : dict.getID name = some fieldID) :
    (dict.assignAll names).getID name = some fieldID := by
  induction names generalizing dict with
  | nil => exact known
  | cons head tail inductionHypothesis =>
      rw [assignAll_cons]
      exact inductionHypothesis (getID_getOrAssignID_of_known head known)

end FieldDictionary

end CocoDB.Cson
