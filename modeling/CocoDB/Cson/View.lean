import CocoDB.Cson.Encode
import CocoDB.Lib.Binary64

/-!
# Document views and decoding

`decodeValue`, `NewDocumentView` and the accessors of a view.  Every slice of
the source goes through `slice`, which panics outside the data, and the
recursion through nested values takes a budget: decoding terminates when some
budget suffices.
-/

namespace CocoDB.Cson

open CocoDB.Lib

/-- What a call does: return, fail, panic, or use up its recursion budget. -/
inductive Outcome (α : Type) where
  | ok (value : α)
  | error (cause : CsonError)
  | panic
  | exhausted

namespace Outcome

variable {α β : Type}

def bind (outcome : Outcome α) (next : α → Outcome β) : Outcome β :=
  match outcome with
  | ok value => next value
  | error cause => error cause
  | panic => panic
  | exhausted => exhausted

instance : Monad Outcome where
  pure := ok
  bind := bind

def ofExcept : Except CsonError α → Outcome α
  | .ok value => ok value
  | .error cause => error cause

def Returns : Outcome α → Prop
  | ok _ => True
  | error _ => True
  | panic => False
  | exhausted => False

@[simp]
theorem ok_bind (value : α) (next : α → Outcome β) :
    (ok value >>= next) = next value := rfl

@[simp]
theorem error_bind (cause : CsonError) (next : α → Outcome β) :
    (error cause >>= next) = error cause := rfl

@[simp]
theorem panic_bind (next : α → Outcome β) :
    ((panic : Outcome α) >>= next) = panic := rfl

@[simp]
theorem exhausted_bind (next : α → Outcome β) :
    ((exhausted : Outcome α) >>= next) = exhausted := rfl

@[simp]
theorem pure_eq (value : α) : (pure value : Outcome α) = ok value := rfl

@[simp]
theorem returns_ok (value : α) : (ok value).Returns := trivial

@[simp]
theorem returns_error (cause : CsonError) :
    (error cause : Outcome α).Returns := trivial

@[simp]
theorem not_returns_panic : ¬(panic : Outcome α).Returns := fun absurd =>
  absurd

@[simp]
theorem not_returns_exhausted : ¬(exhausted : Outcome α).Returns :=
  fun absurd => absurd

theorem Returns.ite {condition : Prop} [Decidable condition]
    {first second : Outcome α} (met : condition → first.Returns)
    (unmet : ¬condition → second.Returns) :
    (if condition then first else second).Returns := by
  split
  · exact met ‹_›
  · exact unmet ‹_›

end Outcome

/-- Go's `data[low:high]`. -/
def slice (data : Bytes) (low high : Nat) : Outcome Bytes :=
  if low ≤ high ∧ high ≤ data.length then
    .ok ((data.drop low).take (high - low))
  else
    .panic

/-- Go's `data[index]`. -/
def byteAt (data : Bytes) (index : Nat) : Outcome UInt8 :=
  match data[index]? with
  | some byte => .ok byte
  | none => .panic

/-- A big-endian `uint32` at an offset. -/
def wordAt (data : Bytes) (offset : Nat) : Outcome UInt32 := do
  let word ← slice data offset (offset + 4)
  return UInt32.ofNat (ofBE word)

structure FieldLocation where
  valType : UInt8
  offset : UInt32
  length : UInt32

structure DocumentView where
  data : Bytes
  dict : FieldDictionary
  fieldCount : Nat

def newDocumentView (data : Bytes) (dict : FieldDictionary) :
    Except CsonError DocumentView :=
  if data.length < 8 then
    .error .invalidFormat
  else if ofBE (data.take 4) ≠ csonMagic then
    .error (.invalidMagic (ofBE (data.take 4)))
  else if data.length <
      8 + ofBE ((data.drop 6).take 2) * fieldEntrySize then
    .error .directoryTooShort
  else
    .ok ⟨data, dict, ofBE ((data.drop 6).take 2)⟩

/-! ## Decoding values -/

/-- The loop that reads a vector; `position` is where its words start. -/
def readFloats (data : Bytes) (position : Nat → Nat) :
    (index remaining : Nat) → Outcome (List UInt32)
  | _, 0 => .ok []
  | index, remaining + 1 => do
      let word ← slice data (position index) (position (index + 1))
      let floats ← readFloats data position (index + 1) remaining
      return UInt32.ofNat (ofBE word) :: floats

/-- The eight bytes of a number, or `ErrInvalidFormat`. -/
def decodeWord (valBytes : Bytes) : Outcome UInt64 :=
  if valBytes.length < 8 then
    .error .invalidFormat
  else
    .ok (UInt64.ofNat (ofBE (valBytes.take 8)))

def utc : Bytes := [0x55, 0x54, 0x43]

/-- `binary.Read` of a `uint32` from a `bytes.Reader`, given as the bytes it
has left. -/
def readUint32 (reader : Bytes) : Except CsonError (Nat × Bytes) :=
  if reader = [] then
    .error .eof
  else if reader.length < 4 then
    .error .unexpectedEOF
  else
    .ok (ofBE (reader.take 4), reader.drop 4)

/-- The type byte, the length and the buffer of the next array element.
`Reader.Read` reports `io.EOF` when nothing is left, even for an empty buffer,
and otherwise fills as much of the buffer as it can. -/
def readItem (reader : Bytes) : Except CsonError (UInt8 × Bytes × Bytes) :=
  match reader with
  | [] => .error .eof
  | tag :: afterTag =>
      match readUint32 afterTag with
      | .error cause => .error cause
      | .ok (itemLen, rest) =>
          if rest = [] then
            .error .eof
          else
            .ok (tag, rest.take itemLen ++
              List.replicate (itemLen - rest.length) 0, rest.drop itemLen)

def readItems (decode : UInt8 → Bytes → Outcome Value) :
    Nat → Bytes → Outcome (List Value)
  | 0, _ => .ok []
  | count + 1, reader =>
      match readItem reader with
      | .error cause => .error cause
      | .ok (tag, item, rest) => do
          let value ← decode tag item
          let values ← readItems decode count rest
          return value :: values

/-- `result[name] = value` on a Go map. -/
def setField (result : Document) (name : Bytes) (value : Value) : Document :=
  result.filter (fun field => field.1 ≠ name) ++ [(name, value)]

/-- `fmt.Sprintf("field_%d", fID)`. -/
def placeholder (fieldID : UInt32) : Bytes :=
  [0x66, 0x69, 0x65, 0x6C, 0x64, 0x5F] ++
    (Nat.toDigits 10 fieldID.toNat).map fun digit =>
      UInt8.ofNat digit.toNat

/-- The loop of `ToMap`.  A field whose value does not decode is dropped. -/
def toMapFrom (decode : UInt8 → Bytes → Outcome Value)
    (view : DocumentView) : (index remaining : Nat) → Document →
      Outcome Document
  | _, 0, result => .ok result
  | index, remaining + 1, result => do
      let off := 8 + index * fieldEntrySize
      let fieldID ← wordAt view.data off
      let tag ← byteAt view.data (off + 4)
      let offset ← wordAt view.data (off + 6)
      let length ← wordAt view.data (off + 10)
      let name := (view.dict.getName fieldID).getD (placeholder fieldID)
      if (offset + length).toNat ≤ view.data.length then
        let valBytes ← slice view.data offset.toNat (offset + length).toNat
        match decode tag valBytes with
        | .ok value =>
            toMapFrom decode view (index + 1) remaining
              (setField result name value)
        | .error _ =>
            toMapFrom decode view (index + 1) remaining result
        | .panic => .panic
        | .exhausted => .exhausted
      else
        toMapFrom decode view (index + 1) remaining result

/-- `decodeValue`, with a budget for the nesting it may enter. -/
def decodeValue (dict : FieldDictionary) :
    Nat → UInt8 → Bytes → Outcome Value
  | 0, _, _ => .exhausted
  | budget + 1, tag, valBytes =>
      match ValueType.ofByte tag with
      | none => .error (.unknownType tag)
      | some .null => .ok (.scalar .null)
      | some .bool => .ok (.scalar (.bool (valBytes.head? == some 1)))
      | some .int64 => do
          return .scalar (.int64 (← decodeWord valBytes).toInt64)
      | some .uint64 => do
          return .scalar (.uint64 (← decodeWord valBytes))
      | some .float64 => do
          return .scalar (.float64 (← decodeWord valBytes))
      | some .string => .ok (.scalar (.string valBytes))
      | some .bytes => .ok (.scalar (.bytes valBytes))
      | some .time => do
          return .scalar (.time (← decodeWord valBytes).toInt64 utc)
      | some .vectorFloat32 => do
          return .scalar (.vector (← readFloats valBytes
            (fun index => index * 4) 0 (valBytes.length / 4)))
      | some .object => do
          let view ← .ofExcept (newDocumentView valBytes dict)
          return .object (← toMapFrom (decodeValue dict budget) view 0
            view.fieldCount [])
      | some .array => do
          let (count, reader) ← .ofExcept (readUint32 valBytes)
          return .array (← readItems (decodeValue dict budget) count reader)

def decode (budget : Nat) (data : Bytes) (dict : FieldDictionary) :
    Outcome Document := do
  let view ← .ofExcept (newDocumentView data dict)
  toMapFrom (decodeValue dict budget) view 0 view.fieldCount []

namespace DocumentView

def toMap (view : DocumentView) (budget : Nat) : Outcome Document :=
  toMapFrom (decodeValue view.dict budget) view 0 view.fieldCount []

/-! ## Field access -/

/-- The binary search of `getFieldLoc` among the entries from `left` up to but
not including `stop`, which is `right + 1`. -/
def searchField (view : DocumentView) (fieldID : UInt32) (left stop : Nat) :
    Outcome (Option FieldLocation) :=
  if left < stop then do
    let mid := left + (stop - 1 - left) / 2
    let off := 8 + mid * fieldEntrySize
    let id ← wordAt view.data off
    if id = fieldID then
      let valType ← byteAt view.data (off + 4)
      let offset ← wordAt view.data (off + 6)
      let length ← wordAt view.data (off + 10)
      return some ⟨valType, offset, length⟩
    else if id < fieldID then
      searchField view fieldID (mid + 1) stop
    else
      searchField view fieldID left mid
  else
    return none
termination_by stop - left

def getFieldLoc (view : DocumentView) (field : Bytes) :
    Outcome (Option FieldLocation) :=
  match view.dict.getID field with
  | none => .ok none
  | some fieldID => view.searchField fieldID 0 view.fieldCount

/-- The bounds check every accessor makes, in `uint32` arithmetic. -/
def inRange (view : DocumentView) (loc : FieldLocation) : Bool :=
  decide ((loc.offset + loc.length).toNat ≤ view.data.length)

/-- `Has`. -/
def has (view : DocumentView) (field : Bytes) : Outcome Bool := do
  return (← view.getFieldLoc field).isSome

/-- The accessors that slice out the whole field: the type is checked, then
the range. -/
def rawField (view : DocumentView) (valType : ValueType) (field : Bytes) :
    Outcome (Option Bytes) := do
  match ← view.getFieldLoc field with
  | none => return none
  | some loc =>
      if loc.valType ≠ valType.toByte then return none
      else if !view.inRange loc then return none
      else
        return some (← slice view.data loc.offset.toNat
          (loc.offset + loc.length).toNat)

def stringBytes (view : DocumentView) (field : Bytes) :
    Outcome (Option Bytes) :=
  view.rawField .string field

def string (view : DocumentView) (field : Bytes) : Outcome (Option Bytes) :=
  view.stringBytes field

def bytes (view : DocumentView) (field : Bytes) : Outcome (Option Bytes) :=
  view.rawField .bytes field

def word (view : DocumentView) (valTypes : List ValueType) (field : Bytes) :
    Outcome (Option UInt64) := do
  match ← view.getFieldLoc field with
  | none => return none
  | some loc =>
      if ! (valTypes.map ValueType.toByte).contains loc.valType then return none
      else if !view.inRange loc ∨ loc.length < 8 then return none
      else
        let word ← slice view.data loc.offset.toNat (loc.offset + 8).toNat
        return some (UInt64.ofNat (ofBE word))

/-- `Int64`, which also reads a `uint64` field. -/
def int64 (view : DocumentView) (field : Bytes) :
    Outcome (Option Int64) := do
  return (← view.word [.int64, .uint64] field).map UInt64.toInt64

/-- `Float64`, which converts an `int64` field. -/
def float64 (view : DocumentView) (field : Bytes) :
    Outcome (Option UInt64) := do
  match ← view.getFieldLoc field with
  | none => return none
  | some loc =>
      if loc.valType = ValueType.float64.toByte then
        view.word [.float64] field
      else if loc.valType = ValueType.int64.toByte then
        return (← view.int64 field).map Binary64.ofInt64
      else
        return none

def bool (view : DocumentView) (field : Bytes) : Outcome (Option Bool) := do
  match ← view.getFieldLoc field with
  | none => return none
  | some loc =>
      if loc.valType ≠ ValueType.bool.toByte then return none
      else if !view.inRange loc ∨ loc.length < 1 then return none
      else return some ((← byteAt view.data loc.offset.toNat) == 1)

def vector (view : DocumentView) (field : Bytes) :
    Outcome (Option (List UInt32)) := do
  match ← view.getFieldLoc field with
  | none => return none
  | some loc =>
      if loc.valType ≠ ValueType.vectorFloat32.toByte then return none
      else if !view.inRange loc then return none
      else
        return some (← readFloats view.data
          (fun index => (loc.offset + UInt32.ofNat (index * 4)).toNat) 0
          (loc.length.toNat / 4))

def time (view : DocumentView) (field : Bytes) :
    Outcome (Option (Int64 × Bytes)) := do
  return (← view.word [.time] field).map fun nano => (nano.toInt64, utc)

def get (view : DocumentView) (budget : Nat) (field : Bytes) :
    Outcome (Option Value) := do
  match ← view.getFieldLoc field with
  | none => return none
  | some loc =>
      if !view.inRange loc then return none
      else
        let valBytes ← slice view.data loc.offset.toNat
          (loc.offset + loc.length).toNat
        match decodeValue view.dict budget loc.valType valBytes with
        | .ok value => return some value
        | .error _ => return none
        | .panic => .panic
        | .exhausted => .exhausted

end DocumentView

end CocoDB.Cson
