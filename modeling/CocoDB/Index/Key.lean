import CocoDB.Cson.Lookup
import CocoDB.Document.Kernel

/-!
# Index keys

`internal/btree/encoding.go`: values written so that byte order is their order.
A string ends in two zero bytes and a zero byte inside it is followed by `0xFF`,
so that a string is never the beginning of another.
-/

namespace CocoDB.Index

open Lib Cson

inductive Tag where
  | null
  | false
  | true
  | int64
  | uint64
  | float64
  | time
  | string
  | bytes
  | uuid
deriving DecidableEq, Repr

def Tag.toByte : Tag → UInt8
  | null => 0
  | false => 1
  | true => 2
  | int64 => 3
  | uint64 => 4
  | float64 => 5
  | time => 6
  | string => 7
  | bytes => 8
  | uuid => 9

/-- The bit that `EncodeInt64`, `EncodeFloat64` and `EncodeTime` flip. -/
def signBit : UInt64 := 0x8000000000000000

def encodeNull : Bytes := [Tag.null.toByte]

def encodeBool (value : Bool) : Bytes :=
  if value then [Tag.true.toByte] else [Tag.false.toByte]

def encodeWord (tag : Tag) (word : UInt64) : Bytes :=
  tag.toByte :: be 8 word.toNat

def encodeInt64 (value : Int64) : Bytes :=
  encodeWord .int64 (value.toUInt64 ^^^ signBit)

def encodeUint64 (value : UInt64) : Bytes := encodeWord .uint64 value

/-- `EncodeFloat64`, on the bits of the number -/
def encodeFloat64 (bits : UInt64) : Bytes :=
  encodeWord .float64 (if bits &&& signBit ≠ 0 then ~~~bits
    else bits ^^^ signBit)

/-- The loop that `EncodeString` and `EncodeBytes` share. -/
def escape : Bytes → Bytes
  | [] => []
  | byte :: rest =>
      if byte = 0 then 0x00 :: 0xFF :: escape rest else byte :: escape rest

def encodeString (text : Bytes) : Bytes :=
  Tag.string.toByte :: (escape text ++ [0x00, 0x00])

def encodeBytes (data : Bytes) : Bytes :=
  Tag.bytes.toByte :: (escape data ++ [0x00, 0x00])

def encodeTime (unixNano : Int64) : Bytes :=
  encodeWord .time (unixNano.toUInt64 ^^^ signBit)

def encodeComposite (components : List Bytes) : Bytes := components.flatten

/-- `PutUint64` of a record identifier into eight new bytes. -/
def recordBytes (recID : RecordID) : Bytes := be 8 recID.toNat

/-- `binary.BigEndian.Uint64`: the first eight bytes. -/
def recordOf (bytes : Bytes) : RecordID :=
  UInt64.ofNat (ofBE (bytes.take 8))

def appendRecordID (key : Bytes) (recID : RecordID) : Bytes :=
  key ++ recordBytes recID

def extractRecordID (key : Bytes) : RecordID × Bytes :=
  if key.length < 8 then (invalidRecordID, key)
  else (recordOf (key.drop (key.length - 8)), key.take (key.length - 8))

/-- What the code takes from the Go runtime: `%v`, the comparison of two
interface values, and `int64` of a `float64` given by its bits. -/
structure Runtime where
  sprint : Value → Bytes
  same : Value → Value → Bool
  truncate : UInt64 → Int64

/-- `encodeIndexValue`, whose default case formats the value -/
def encodeIndexValue (runtime : Runtime) : Value → Bytes
  | .scalar .null => encodeNull
  | .scalar (.bool value) => encodeBool value
  | .scalar (.int value) => encodeInt64 value
  | .scalar (.int64 value) => encodeInt64 value
  | .scalar (.int32 value) => encodeInt64 value.toInt64
  | .scalar (.uint value) => encodeUint64 value
  | .scalar (.uint64 value) => encodeUint64 value
  | .scalar (.uint32 value) => encodeUint64 value.toUInt64
  | .scalar (.float64 bits) => encodeFloat64 bits
  | .scalar (.float32 bits) => encodeFloat64 (float64OfFloat32 bits)
  | .scalar (.string text) => encodeString text
  | .scalar (.bytes data) => encodeBytes data
  | .scalar (.time unixNano _) => encodeTime unixNano
  | value => encodeString (runtime.sprint value)

/-! ## What keys determine -/

theorem recordBytes_length (recID : RecordID) :
    (recordBytes recID).length = 8 :=
  be_length _ _

@[simp]
theorem recordOf_recordBytes (recID : RecordID) :
    recordOf (recordBytes recID) = recID := by
  unfold recordOf
  rw [List.take_of_length_le (recordBytes_length recID).le]
  unfold recordBytes
  rw [ofBE_be64]

theorem recordBytes_injective {left right : RecordID}
    (same : recordBytes left = recordBytes right) : left = right := by
  rw [← recordOf_recordBytes left, same, recordOf_recordBytes]

@[simp]
theorem extractRecordID_append (key : Bytes) (recID : RecordID) :
    extractRecordID (appendRecordID key recID) = (recID, key) := by
  have length : (appendRecordID key recID).length = key.length + 8 := by
    unfold appendRecordID
    rw [List.length_append, recordBytes_length]
  unfold extractRecordID
  rw [if_neg (by omega), length, Nat.add_sub_cancel]
  unfold appendRecordID
  rw [List.drop_left, List.take_left, recordOf_recordBytes]

theorem appendRecordID_injective {left right : Bytes}
    {leftID rightID : RecordID}
    (same : appendRecordID left leftID = appendRecordID right rightID) :
    leftID = rightID ∧ left = right := by
  have pair := extractRecordID_append left leftID
  rw [same, extractRecordID_append] at pair
  exact ⟨(congrArg Prod.fst pair).symm, (congrArg Prod.snd pair).symm⟩

theorem escape_injective {left right leftRest rightRest : Bytes}
    (same : escape left ++ 0x00 :: 0x00 :: leftRest =
      escape right ++ 0x00 :: 0x00 :: rightRest) : left = right := by
  induction left generalizing right with
  | nil =>
      cases right with
      | nil => rfl
      | cons byte rest =>
          simp only [escape, List.nil_append] at same
          split at same
          · simp at same
          · rename_i nonzero
            simp only [List.cons_append, List.cons.injEq] at same
            exact absurd same.1.symm nonzero
  | cons byte rest inductionHypothesis =>
      cases right with
      | nil =>
          simp only [escape, List.nil_append] at same
          split at same
          · simp at same
          · rename_i nonzero
            simp only [List.cons_append, List.cons.injEq] at same
            exact absurd same.1 nonzero
      | cons other tail =>
          simp only [escape] at same
          split at same <;> split at same
          · rename_i zero otherZero
            simp only [List.cons_append, List.cons.injEq, true_and] at same
            rw [zero, otherZero, inductionHypothesis same]
          · rename_i zero nonzero
            simp only [List.cons_append, List.cons.injEq] at same
            exact absurd same.1.symm nonzero
          · rename_i nonzero zero
            simp only [List.cons_append, List.cons.injEq] at same
            exact absurd same.1 nonzero
          · simp only [List.cons_append, List.cons.injEq] at same
            rw [same.1, inductionHypothesis same.2]

theorem encodeString_injective {left right : Bytes}
    (same : encodeString left = encodeString right) : left = right :=
  @escape_injective left right [] [] (List.cons.inj same).2

end CocoDB.Index
