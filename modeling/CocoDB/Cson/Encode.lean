import Mathlib.Data.List.Sort
import CocoDB.Cson.Types

/-!
# Encoding documents

`cson.Encode` and `encodeValueFast`.  A Go map is a list of fields in the
order one iteration visits them, so a statement about every document covers
every iteration order.
-/

namespace CocoDB.Cson

open CocoDB.Lib

/-- The values of the switch in `encodeValueFast` that hold no other value.
Floats are bit patterns; a time is its `UnixNano` and the name of its
location. -/
inductive Scalar where
  | null
  | bool (value : Bool)
  | int (value : Int64)
  | int64 (value : Int64)
  | int32 (value : Int32)
  | uint (value : UInt64)
  | uint64 (value : UInt64)
  | uint32 (value : UInt32)
  | float64 (bits : UInt64)
  | float32 (bits : UInt32)
  | string (text : Bytes)
  | bytes (data : Bytes)
  | time (unixNano : Int64) (location : Bytes)
  | vector (floats : List UInt32)
deriving DecidableEq, Repr

inductive Value where
  | scalar (value : Scalar)
  | array (items : List Value)
  | object (fields : List (Bytes × Value))
  | unsupported (typeName : Bytes)

/-- A `map[string]any`. -/
abbrev Document := List (Bytes × Value)

inductive CsonError where
  | unsupportedType (typeName : Bytes)
  | encodingField (name : Bytes) (cause : CsonError)
  | invalidFormat
  | invalidMagic (magic : Nat)
  | directoryTooShort
  | eof
  | unexpectedEOF
  | unknownType (tag : UInt8)
deriving DecidableEq, Repr

/-- `float64(value)` of a `float32`, on bit patterns: exact, except that a
signalling NaN turns quiet. -/
def float64OfFloat32 (bits : UInt32) : UInt64 :=
  let sign := bits.toNat / 2 ^ 31 * 2 ^ 63
  let exponent := bits.toNat / 2 ^ 23 % 2 ^ 8
  let fraction := bits.toNat % 2 ^ 23
  let magnitude :=
    if exponent = 255 then
      if fraction = 0 then 2047 * 2 ^ 52
      else 2047 * 2 ^ 52 + 2 ^ 51 + fraction % 2 ^ 22 * 2 ^ 29
    else if exponent = 0 then
      if fraction = 0 then 0
      else
        -- a subnormal: its leading bit becomes the implicit one
        let leading := fraction.log2
        (874 + leading) * 2 ^ 52 + (fraction - 2 ^ leading) * 2 ^ (52 - leading)
    else (896 + exponent) * 2 ^ 52 + fraction * 2 ^ 29
  UInt64.ofNat (sign + magnitude)

/-- The scalar cases of `encodeValueFast`. -/
def encodeScalar : Scalar → ValueType × Bytes
  | .null => (.null, [])
  | .bool true => (.bool, [1])
  | .bool false => (.bool, [0])
  | .int value => (.int64, be 8 value.toUInt64.toNat)
  | .int64 value => (.int64, be 8 value.toUInt64.toNat)
  | .int32 value => (.int64, be 8 value.toInt64.toUInt64.toNat)
  | .uint value => (.uint64, be 8 value.toNat)
  | .uint64 value => (.uint64, be 8 value.toNat)
  | .uint32 value => (.uint64, be 8 value.toUInt64.toNat)
  | .float64 bits => (.float64, be 8 bits.toNat)
  | .float32 bits => (.float64, be 8 (float64OfFloat32 bits).toNat)
  | .string text => (.string, text)
  | .bytes data => (.bytes, data)
  | .time unixNano _ => (.time, be 8 unixNano.toUInt64.toNat)
  | .vector floats =>
      (.vectorFloat32, floats.flatMap fun bits => be 4 bits.toNat)

structure RawField where
  fieldID : UInt32
  valType : ValueType
  valBytes : Bytes

/-- Go's `copy(target[offset:], source)`. -/
def copyInto (target : Bytes) (offset : Nat) (source : Bytes) : Bytes :=
  target.take offset ++ source.take (target.length - offset) ++
    target.drop (offset + source.length)

def fieldEntry (field : RawField) (currOffset : UInt32) : Bytes :=
  be 4 field.fieldID.toNat ++ [field.valType.toByte, 0] ++
    be 4 currOffset.toNat ++ be 4 field.valBytes.length

/-- The loop that writes the directory and the payload.  The running offset
is a `uint32`. -/
def writeFields : Nat → UInt32 → List RawField → Bytes → Bytes
  | _, _, [], result => result
  | index, currOffset, field :: rest, result =>
      let listed := copyInto result (8 + index * fieldEntrySize)
        (fieldEntry field currOffset)
      let filled := copyInto listed currOffset.toNat field.valBytes
      writeFields (index + 1)
        (currOffset + UInt32.ofNat field.valBytes.length) rest filled

def byFieldID (left right : RawField) : Prop := left.fieldID ≤ right.fieldID

instance byFieldID_decidable : DecidableRel byFieldID :=
  fun left right => inferInstanceAs (Decidable (left.fieldID ≤ right.fieldID))

def payloadLength (fields : List RawField) : Nat :=
  (fields.map fun field => field.valBytes.length).sum

def csonHeader (fieldCount : Nat) : Bytes :=
  be 4 csonMagic ++ be 2 csonVersion ++ be 2 fieldCount

/-- The second half of `Encode`: sort by field id, then write the header, the
directory and the payload.  Fields with equal ids may come out of `sort.Slice`
in either order. -/
def assemble (rawFields : List RawField) : Bytes :=
  let sorted := rawFields.insertionSort byFieldID
  let headerSize := 8 + sorted.length * fieldEntrySize
  let blank := List.replicate (headerSize + payloadLength sorted) 0
  writeFields 0 (UInt32.ofNat headerSize) sorted
    (copyInto blank 0 (csonHeader sorted.length))

mutual

/-- `encodeValueFast`, with the dictionary the caller is left with. -/
def encodeValueFast : Value → FieldDictionary →
    Except CsonError (ValueType × Bytes) × FieldDictionary
  | .scalar value, dict => (.ok (encodeScalar value), dict)
  | .unsupported typeName, dict => (.error (.unsupportedType typeName), dict)
  | .object fields, dict =>
      match encodeFields fields dict with
      | (.error cause, grown) => (.error cause, grown)
      | (.ok rawFields, grown) => (.ok (.object, assemble rawFields), grown)
  | .array items, dict =>
      match encodeItems items dict with
      | (.error cause, grown) => (.error cause, grown)
      | (.ok body, grown) => (.ok (.array, be 4 items.length ++ body), grown)

def encodeItems : List Value → FieldDictionary →
    Except CsonError Bytes × FieldDictionary
  | [], dict => (.ok [], dict)
  | item :: rest, dict =>
      match encodeValueFast item dict with
      | (.error cause, grown) => (.error cause, grown)
      | (.ok (valType, valBytes), grown) =>
          match encodeItems rest grown with
          | (.error cause, final) => (.error cause, final)
          | (.ok body, final) =>
              (.ok ([valType.toByte] ++ be 4 valBytes.length ++ valBytes ++
                body), final)

def encodeFields : List (Bytes × Value) → FieldDictionary →
    Except CsonError (List RawField) × FieldDictionary
  | [], dict => (.ok [], dict)
  | (name, value) :: rest, dict =>
      match encodeValueFast value (dict.getOrAssignID name).2 with
      | (.error cause, grown) => (.error (.encodingField name cause), grown)
      | (.ok (valType, valBytes), grown) =>
          match encodeFields rest grown with
          | (.error cause, final) => (.error cause, final)
          | (.ok rawFields, final) =>
              (.ok (⟨(dict.getOrAssignID name).1, valType, valBytes⟩ ::
                rawFields), final)

end

def encode (doc : Document) (dict : FieldDictionary) :
    Except CsonError Bytes × FieldDictionary :=
  match encodeFields doc dict with
  | (.error cause, grown) => (.error cause, grown)
  | (.ok rawFields, grown) => (.ok (assemble rawFields), grown)

end CocoDB.Cson
