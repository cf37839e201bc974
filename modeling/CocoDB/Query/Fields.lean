import CocoDB.Query.Expression

/-!
# What the accessors of a field say

All accessors of a view look at one entry of the directory.  For a document
that was written by the encoder what they return follows from the value that
`Get` returns.
-/

namespace CocoDB.Query

open Lib Cson

/-! ## One entry -/

theorem inRange_passes {view : DocumentView} {loc : FieldLocation}
    (passes : loc.Passes view.data) : view.inRange loc = true :=
  decide_eq_true passes

def valueOf : Outcome Value → Option Value
  | .ok value => some value
  | _ => none

section Entry

variable {view : DocumentView} {field : Bytes} {loc : FieldLocation}
  (located : view.getFieldLoc field = .ok (some loc))
  (passes : loc.Passes view.data) (flat : ¬loc.Wraps)
include located passes flat

theorem stringBytes_located :
    view.stringBytes field = .ok (if loc.valType = ValueType.string.toByte then
      some (loc.content view.data) else none) := by
  simp only [DocumentView.stringBytes, DocumentView.rawField, located,
    Outcome.ok_bind, inRange_passes passes, slice_flat passes flat]
  by_cases typed : loc.valType = ValueType.string.toByte
  · simp [typed]
  · simp [typed]

theorem word_located (valTypes : List ValueType) :
    view.word valTypes field = .ok
      (if (valTypes.map ValueType.toByte).contains loc.valType = true ∧
          8 ≤ (loc.content view.data).length then
        some (UInt64.ofNat (ofBE ((loc.content view.data).take 8)))
      else none) := by
  have inside := FieldLocation.within passes flat
  have size := FieldLocation.content_length passes flat
  simp only [DocumentView.word, located, Outcome.ok_bind,
    inRange_passes passes, size]
  cases typed : (valTypes.map ValueType.toByte).contains loc.valType with
  | false => simp
  | true =>
      by_cases long : 8 ≤ loc.length.toNat
      · have enough : ¬ loc.length < 8 := fun short => by
          have := UInt32.lt_iff_toNat_lt.mp short
          simp only [UInt32.reduceToNat] at this
          omega
        have small := Nat.lt_of_not_le flat
        have stop : (loc.offset + 8).toNat = loc.offset.toNat + 8 := by
          rw [UInt32.toNat_add]
          exact Nat.mod_eq_of_lt (by simp only [UInt32.reduceToNat]; omega)
        have front : (loc.content view.data).take 8 =
            (view.data.drop loc.offset.toNat).take 8 := by
          rw [FieldLocation.content, List.take_take, Nat.min_eq_left long]
        rw [stop, slice_ok (by omega) (by omega), Nat.add_sub_cancel_left,
          front]
        simp [enough, long]
      · have short : loc.length < 8 := by
          rw [UInt32.lt_iff_toNat_lt]
          exact Nat.lt_of_not_le long
        simp [short, long]

theorem bool_located :
    view.bool field = .ok (if loc.valType = ValueType.bool.toByte ∧
        1 ≤ (loc.content view.data).length then
      some ((loc.content view.data).head? == some 1) else none) := by
  have inside := FieldLocation.within passes flat
  have size := FieldLocation.content_length passes flat
  simp only [DocumentView.bool, located, Outcome.ok_bind,
    inRange_passes passes, size]
  by_cases typed : loc.valType = ValueType.bool.toByte
  · by_cases long : 1 ≤ loc.length.toNat
    · have enough : ¬ loc.length < 1 := fun short => by
        have := UInt32.lt_iff_toNat_lt.mp short
        simp only [UInt32.reduceToNat] at this
        omega
      have first : (loc.content view.data).head? =
          some (view.data.getD loc.offset.toNat 0) := by
        rw [FieldLocation.content, List.head?_take, if_neg (by omega),
          List.head?_drop, List.getD_eq_getElem?_getD,
          List.getElem?_eq_getElem (by omega)]
        rfl
      rw [byteAt_ok (by omega), first]
      simp [typed, enough, long]
    · have short : loc.length < 1 := by
        rw [UInt32.lt_iff_toNat_lt]
        exact Nat.lt_of_not_le long
      simp [typed, short, long]
  · simp [typed]

omit passes flat in
theorem float64_located :
    view.float64 field =
      if loc.valType = ValueType.float64.toByte then view.word [.float64] field
      else if loc.valType = ValueType.int64.toByte then
        (do return (← view.int64 field).map Binary64.ofInt64)
      else .ok none := by
  simp only [DocumentView.float64, located, Outcome.ok_bind]
  split
  · rfl
  · split
    · rfl
    · rfl

theorem getValue_located {result : Outcome Value}
    (decoded : decodeValue view.dict (view.data.length + 1) loc.valType
      (loc.content view.data) = result) (returns : result.Returns) :
    getValue view field = .ok (valueOf result) := by
  simp only [getValue, DocumentView.get, located, Outcome.ok_bind,
    inRange_passes passes, slice_flat passes flat, decoded]
  cases result with
  | ok value => rfl
  | error cause => rfl
  | panic => exact absurd returns Outcome.not_returns_panic
  | exhausted => exact absurd returns Outcome.not_returns_exhausted

end Entry

/-! ## Written values -/

def textOf : Option Value → Option Bytes
  | some (.scalar (.string text)) => some text
  | _ => none

def integerOf : Option Value → Option Int64
  | some (.scalar (.int64 value)) => some value
  | some (.scalar (.uint64 value)) => some value.toInt64
  | _ => none

def numberOf : Option Value → Option UInt64
  | some (.scalar (.float64 bits)) => some bits
  | some (.scalar (.int64 value)) => some (Binary64.ofInt64 value)
  | _ => none

def truthOf : Option Value → Option Bool
  | some (.scalar (.bool value)) => some value
  | _ => none

def Decoded : Value → Prop
  | .scalar value => widen value = value
  | .unsupported _ => False
  | _ => True

structure Reads (view : DocumentView) (field : Bytes)
    (stored : Option Value) : Prop where
  get : getValue view field = .ok stored
  text : view.stringBytes field = .ok (textOf stored)
  integer : view.int64 field = .ok (integerOf stored)
  number : view.float64 field = .ok (numberOf stored)
  truth : view.bool field = .ok (truthOf stored)
  decoded : ∀ value, stored = some value → Decoded value

theorem reads_missing {view : DocumentView} {field : Bytes}
    (missing : view.getFieldLoc field = .ok none) :
    Reads view field none := by
  constructor
  · simp [getValue, DocumentView.get, missing]
  · simp [DocumentView.stringBytes, DocumentView.rawField, missing, textOf]
  · simp [DocumentView.int64, DocumentView.word, missing, integerOf]
  · simp [DocumentView.float64, missing, numberOf]
  · simp [DocumentView.bool, missing, truthOf]
  · intro value absent
    cases absent

theorem ofBE_take_be (word : UInt64) :
    UInt64.ofNat (ofBE ((be 8 word.toNat).take 8)) = word := by
  rw [List.take_of_length_le (be_length _ _).le, ofBE_be64]

def Nested : Value → Prop
  | .array _ => True
  | .object _ => True
  | _ => False

theorem decode_nested {dict : FieldDictionary} {budget : Nat} {tag : UInt8}
    {bytes : Bytes} {value : Value}
    (typed : tag = ValueType.array.toByte ∨ tag = ValueType.object.toByte)
    (decoded : decodeValue dict (budget + 1) tag bytes = .ok value) :
    Nested value := by
  rcases typed with rfl | rfl
  · rw [decodeValue_array] at decoded
    cases framed : readUint32 bytes with
    | error cause =>
        rw [framed] at decoded
        cases decoded
    | ok counted =>
        rw [framed] at decoded
        simp only [Outcome.ofExcept, Outcome.ok_bind] at decoded
        cases items : readItems (decodeValue dict budget) counted.1
            counted.2 with
        | ok values =>
            rw [items] at decoded
            cases decoded
            trivial
        | error cause => simp [items] at decoded
        | panic => simp [items] at decoded
        | exhausted => simp [items] at decoded
  · rw [decodeValue_object] at decoded
    cases framed : newDocumentView bytes dict with
    | error cause =>
        rw [framed] at decoded
        cases decoded
    | ok view =>
        rw [framed] at decoded
        simp only [Outcome.ofExcept, Outcome.ok_bind] at decoded
        cases fields : toMapFrom (decodeValue dict budget) view 0
            view.fieldCount [] with
        | ok found =>
            rw [fields] at decoded
            cases decoded
            trivial
        | error cause => simp [fields] at decoded
        | panic => simp [fields] at decoded
        | exhausted => simp [fields] at decoded

section Written

variable {view : DocumentView} {field : Bytes} {loc : FieldLocation}
  (located : view.getFieldLoc field = .ok (some loc))
  (passes : loc.Passes view.data) (flat : ¬loc.Wraps)
include located passes flat

theorem reads_scalar {value : Scalar}
    (typed : loc.valType = (encodeScalar value).1.toByte)
    (content : loc.content view.data = (encodeScalar value).2) :
    Reads view field (some (.scalar (widen value))) := by
  have decoded := decode_scalar view.dict view.data.length value
  rw [← typed, ← content] at decoded
  have text := stringBytes_located located passes flat
  have word := word_located located passes flat
  have truth := bool_located located passes flat
  have number := float64_located located
  rw [DocumentView.int64, word, word] at number
  rw [content, typed] at text truth
  simp only [content, typed] at word number
  refine ⟨getValue_located located passes flat decoded trivial, ?_, ?_, ?_, ?_,
    ?_⟩
  · rw [text]
    cases value with
    | bool value => cases value <;> rfl
    | _ => rfl
  · rw [DocumentView.int64, word]
    cases value with
    | bool value => cases value <;> rfl
    | uint32 value =>
        have back := ofBE_take_be value.toUInt64
        simp only [encodeScalar, ValueType.toByte, widen, integerOf, be_length,
          back]
        rfl
    | _ =>
        simp [encodeScalar, ValueType.toByte, widen, integerOf, be_length,
          ofBE_take_be]
  · rw [number]
    cases value with
    | bool value => cases value <;> rfl
    | _ =>
        simp [encodeScalar, ValueType.toByte, widen, numberOf, be_length,
          ofBE_take_be]
  · rw [truth]
    cases value with
    | bool value => cases value <;> rfl
    | _ => rfl
  · intro other same
    cases same
    cases value <;> rfl

theorem reads_nested
    (typed : loc.valType = ValueType.array.toByte ∨
      loc.valType = ValueType.object.toByte)
    (returns : (decodeValue view.dict (view.data.length + 1) loc.valType
      (loc.content view.data)).Returns) :
    ∃ stored, Reads view field stored := by
  have text := stringBytes_located located passes flat
  have word := word_located located passes flat
  have truth := bool_located located passes flat
  have number := float64_located located
  rw [DocumentView.int64, word, word] at number
  -- none of the typed accessors reads a nested value
  have silent : view.stringBytes field = .ok none ∧
      view.int64 field = .ok none ∧ view.float64 field = .ok none ∧
      view.bool field = .ok none := by
    rw [DocumentView.int64, word, text, number, truth]
    rcases typed with array | object
    · rw [array]
      simp [ValueType.toByte]
    · rw [object]
      simp [ValueType.toByte]
  obtain ⟨noText, noInteger, noNumber, noTruth⟩ := silent
  have got := getValue_located located passes flat rfl returns
  cases decoded : decodeValue view.dict (view.data.length + 1) loc.valType
      (loc.content view.data) with
  | panic => simp [decoded] at returns
  | exhausted => simp [decoded] at returns
  | error cause =>
      rw [decoded] at got
      refine ⟨none, got, noText, noInteger, noNumber, noTruth, ?_⟩
      intro value absent
      cases absent
  | ok value =>
      rw [decoded] at got
      have nested := decode_nested typed decoded
      refine ⟨some value, ?_⟩
      cases value with
      | scalar value => cases nested
      | unsupported typeName => cases nested
      | array items =>
          refine ⟨got, noText, noInteger, noNumber, noTruth, ?_⟩
          rintro other ⟨⟩
          trivial
      | object fields =>
          refine ⟨got, noText, noInteger, noNumber, noTruth, ?_⟩
          rintro other ⟨⟩
          trivial

end Written

/-! ## Stored documents -/

def viewOf (dict : FieldDictionary) (payload : Bytes) : DocumentView :=
  ⟨payload, dict, fieldCountOf payload⟩

theorem Reads.fieldValue_eq {dict : FieldDictionary} {payload field : Bytes}
    {stored : Option Value} (reads : Reads (viewOf dict payload) field stored) :
    fieldValue dict payload field = stored := by
  have got := reads.get
  rw [getValue, viewOf] at got
  rw [fieldValue, got]

theorem decode_returns {dict : FieldDictionary} {payload : Bytes}
    {doc : Document} (encoded : Encoded dict payload doc)
    (wellFormed : dict.WellFormed) {origin : Bytes × Value}
    (member : origin ∈ doc) {loc : FieldLocation}
    (typed : loc.valType = (written dict origin.2).1.toByte)
    (passes : loc.Passes payload) (flat : ¬loc.Wraps)
    (content : loc.content payload = (written dict origin.2).2) :
    (decodeValue dict (payload.length + 1) loc.valType
      (loc.content payload)).Returns := by
  have valid := encoded.valid
  rw [Valid, validFields_iff] at valid
  have numbered := encoded.numbered wellFormed
  have inside := FieldLocation.content_length passes flat
  have bounded := FieldLocation.within passes flat
  have length : (written dict origin.2).2.length ≤ payload.length := by
    rw [← content, inside]
    omega
  have shallow := height_le_length dict origin.2
  have payloadShort := encoded.short
  rw [typed, content]
  exact (decode_written (valid.2.2 origin member) (numbered.field member)
    (by omega) (by omega)).1

theorem reads_encoded {dict : FieldDictionary} {payload : Bytes}
    {doc : Document} (encoded : Encoded dict payload doc)
    (wellFormed : dict.WellFormed) (field : Bytes) :
    Reads (viewOf dict payload) field (fieldValue dict payload field) := by
  obtain ⟨headed, entry⟩ := encoded.entry
  have read : ∃ stored, Reads (viewOf dict payload) field stored := by
    obtain ⟨found, located, listed⟩ :=
      @getFieldLoc_ok payload dict headed field
    cases found with
    | none => exact ⟨none, reads_missing located⟩
    | some loc =>
        obtain ⟨index, before, rfl, _⟩ := listed loc rfl
        obtain ⟨origin, member, _, typed, passes, flat, content⟩ :=
          entry index before
        have returns := decode_returns encoded wellFormed member typed passes
          flat content
        obtain ⟨name, value⟩ := origin
        cases value with
        | scalar value =>
            rw [written] at typed content
            exact ⟨_, reads_scalar located passes flat typed content⟩
        | unsupported typeName =>
            have valid := encoded.valid
            rw [Valid, validFields_iff] at valid
            exact absurd (valid.2.2 _ member) (by simp [Valid])
        | array items =>
            rw [written] at typed
            exact reads_nested located passes flat (.inl typed) returns
        | object fields =>
            rw [written] at typed
            exact reads_nested located passes flat (.inr typed) returns
  obtain ⟨stored, reads⟩ := read
  rw [reads.fieldValue_eq]
  exact reads

end CocoDB.Query
