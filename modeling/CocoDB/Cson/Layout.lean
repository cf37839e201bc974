import CocoDB.Cson.Directory

/-!
# The layout of an encoded object

Written into a blank buffer, header, directory and payload come out side by
side, and every directory entry leads back to the field it was written for.
-/

namespace CocoDB.Cson

open CocoDB.Lib

theorem copyInto_middle {first middle last source : Bytes}
    (sized : source.length = middle.length) :
    copyInto (first ++ middle ++ last) first.length source =
      first ++ source ++ last := by
  unfold copyInto
  have kept : source.take ((first ++ middle ++ last).length - first.length) =
      source := by
    rw [List.take_of_length_le]
    simp only [List.length_append]
    omega
  have rest : (first ++ middle ++ last).drop
      (first.length + source.length) = last := by
    rw [sized, ← List.length_append, List.drop_left' rfl]
  rw [kept, rest, List.append_assoc first middle last, List.take_left' rfl]

def directoryOf : Nat → List RawField → Bytes
  | _, [] => []
  | offset, field :: rest =>
      fieldEntry field (UInt32.ofNat offset) ++
        directoryOf (offset + field.valBytes.length) rest

def payloadOf (fields : List RawField) : Bytes :=
  fields.flatMap RawField.valBytes

@[simp]
theorem fieldEntry_length (field : RawField) (currOffset : UInt32) :
    (fieldEntry field currOffset).length = fieldEntrySize := by
  simp [fieldEntry, fieldEntrySize]

@[simp]
theorem directoryOf_length (offset : Nat) (fields : List RawField) :
    (directoryOf offset fields).length = fields.length * fieldEntrySize := by
  induction fields generalizing offset with
  | nil => rfl
  | cons field rest inductionHypothesis =>
      rw [directoryOf, List.length_append, fieldEntry_length,
        inductionHypothesis, List.length_cons]
      unfold fieldEntrySize
      omega

theorem directoryOf_append (offset : Nat) (fields later : List RawField) :
    directoryOf offset (fields ++ later) =
      directoryOf offset fields ++
        directoryOf (offset + payloadLength fields) later := by
  induction fields generalizing offset with
  | nil => rfl
  | cons field rest inductionHypothesis =>
      rw [List.cons_append, directoryOf, directoryOf, inductionHypothesis,
        List.append_assoc, Nat.add_assoc]
      rfl

@[simp]
theorem payloadLength_cons (field : RawField) (rest : List RawField) :
    payloadLength (field :: rest) =
      field.valBytes.length + payloadLength rest := rfl

@[simp]
theorem payloadOf_length (fields : List RawField) :
    (payloadOf fields).length = payloadLength fields := by
  induction fields with
  | nil => rfl
  | cons field rest inductionHypothesis =>
      rw [payloadLength_cons, ← inductionHypothesis]
      simp [payloadOf]

theorem writeFields_eq (fields : List RawField) :
    ∀ {index : Nat} {currOffset : UInt32}
      {listed unlisted filled blank : Bytes},
      listed.length = 8 + index * fieldEntrySize →
      unlisted.length = fields.length * fieldEntrySize →
      currOffset.toNat = (listed ++ unlisted ++ filled).length →
      blank.length = payloadLength fields →
      (listed ++ unlisted ++ filled ++ blank).length < 2 ^ 32 →
      writeFields index currOffset fields
          (listed ++ unlisted ++ filled ++ blank) =
        listed ++ directoryOf currOffset.toNat fields ++ filled ++
          payloadOf fields := by
  induction fields with
  | nil =>
      intro index currOffset listed unlisted filled blank _ noEntries _
        noPayload _
      rw [List.length_nil, Nat.zero_mul] at noEntries
      rw [List.eq_nil_of_length_eq_zero noEntries,
        List.eq_nil_of_length_eq_zero noPayload]
      rfl
  | cons field rest inductionHypothesis =>
      intro index currOffset listed unlisted filled blank atEntry entries
        atOffset payload small
      rw [List.length_cons, Nat.succ_mul] at entries
      rw [payloadLength_cons] at payload
      simp only [List.length_append] at atOffset small
      -- the entry replaces the first fourteen bytes of the directory
      obtain ⟨entry, unlisted, rfl, entrySized⟩ :
          ∃ entry later, unlisted = entry ++ later ∧
            entry.length = fieldEntrySize :=
        ⟨unlisted.take fieldEntrySize, unlisted.drop fieldEntrySize,
          (List.take_append_drop _ _).symm, by
            rw [List.length_take]
            omega⟩
      -- the value replaces the first bytes of the payload
      obtain ⟨value, blank, rfl, valueSized⟩ :
          ∃ value later, blank = value ++ later ∧
            value.length = field.valBytes.length :=
        ⟨blank.take field.valBytes.length, blank.drop field.valBytes.length,
          (List.take_append_drop _ _).symm, by
            rw [List.length_take]
            omega⟩
      simp only [List.length_append] at entries payload atOffset small
      have valueSmall : field.valBytes.length < 2 ^ 32 := by omega
      have listedNow : copyInto
          (listed ++ (entry ++ unlisted) ++ filled ++ (value ++ blank))
          (8 + index * fieldEntrySize) (fieldEntry field currOffset) =
          listed ++ fieldEntry field currOffset ++ unlisted ++ filled ++
            value ++ blank := by
        have copied := @copyInto_middle listed entry
          (unlisted ++ filled ++ value ++ blank)
          (fieldEntry field currOffset) (by rw [fieldEntry_length, entrySized])
        rw [atEntry] at copied
        simpa only [List.append_assoc] using copied
      have filledNow : copyInto
          (listed ++ fieldEntry field currOffset ++ unlisted ++ filled ++
            value ++ blank) currOffset.toNat field.valBytes =
          listed ++ fieldEntry field currOffset ++ unlisted ++
            (filled ++ field.valBytes) ++ blank := by
        have copied := @copyInto_middle
          (listed ++ fieldEntry field currOffset ++ unlisted ++ filled)
          value blank field.valBytes valueSized.symm
        have position : (listed ++ fieldEntry field currOffset ++ unlisted ++
            filled).length = currOffset.toNat := by
          simp only [List.length_append, fieldEntry_length]
          omega
        rw [position] at copied
        simpa only [List.append_assoc] using copied
      have nextOffset : (currOffset +
          UInt32.ofNat field.valBytes.length).toNat =
          currOffset.toNat + field.valBytes.length := by
        rw [UInt32.toNat_add, UInt32.toNat_ofNat_of_lt' valueSmall]
        exact Nat.mod_eq_of_lt (by omega)
      rw [writeFields]
      rw [listedNow, filledNow, inductionHypothesis]
      · rw [nextOffset, directoryOf, UInt32.ofNat_toNat]
        simp only [payloadOf, List.flatMap_cons, List.append_assoc]
      · rw [List.length_append, fieldEntry_length, atEntry]
        unfold fieldEntrySize
        omega
      · omega
      · rw [nextOffset]
        simp only [List.length_append, fieldEntry_length]
        omega
      · omega
      · simp only [List.length_append, fieldEntry_length]
        omega

/-- The directory order of `assemble`. -/
def sortFields (rawFields : List RawField) : List RawField :=
  rawFields.insertionSort byFieldID

def objectBytes (sorted : List RawField) : Bytes :=
  csonHeader sorted.length ++
    directoryOf (8 + sorted.length * fieldEntrySize) sorted ++
      payloadOf sorted

@[simp]
theorem csonHeader_length (fieldCount : Nat) :
    (csonHeader fieldCount).length = 8 := by
  simp [csonHeader]

theorem objectBytes_length (sorted : List RawField) :
    (objectBytes sorted).length =
      8 + sorted.length * fieldEntrySize + payloadLength sorted := by
  unfold objectBytes
  rw [List.length_append, List.length_append, csonHeader_length,
    directoryOf_length, payloadOf_length]

theorem assemble_eq {rawFields : List RawField}
    (small : 8 + (sortFields rawFields).length * fieldEntrySize +
      payloadLength (sortFields rawFields) < 2 ^ 32) :
    assemble rawFields = objectBytes (sortFields rawFields) := by
  unfold assemble
  change writeFields 0 (UInt32.ofNat (8 + (sortFields rawFields).length *
    fieldEntrySize)) (sortFields rawFields) (copyInto (List.replicate
    (8 + (sortFields rawFields).length * fieldEntrySize +
      payloadLength (sortFields rawFields)) 0) 0
        (csonHeader (sortFields rawFields).length)) = _
  generalize sortFields rawFields = sorted at *
  have headerSmall : 8 + sorted.length * fieldEntrySize < UInt32.size := by
    rw [UInt32.size]
    omega
  have blank : List.replicate
      (8 + sorted.length * fieldEntrySize + payloadLength sorted)
      (0 : UInt8) =
      [] ++ List.replicate 8 0 ++
        (List.replicate (sorted.length * fieldEntrySize) 0 ++
          List.replicate (payloadLength sorted) 0) := by
    rw [List.nil_append, ← List.replicate_add, ← List.replicate_add,
      Nat.add_assoc]
  have header : copyInto ([] ++ List.replicate 8 0 ++
      (List.replicate (sorted.length * fieldEntrySize) 0 ++
        List.replicate (payloadLength sorted) 0)) 0
      (csonHeader sorted.length) = _ :=
    copyInto_middle (by rw [csonHeader_length, List.length_replicate])
  have offset := UInt32.toNat_ofNat_of_lt' headerSmall
  have written := @writeFields_eq sorted 0
    (UInt32.ofNat (8 + sorted.length * fieldEntrySize))
    (csonHeader sorted.length)
    (List.replicate (sorted.length * fieldEntrySize) 0) []
    (List.replicate (payloadLength sorted) 0)
    (by rw [csonHeader_length, Nat.zero_mul])
    List.length_replicate
    (by rw [offset, List.append_nil, List.length_append, csonHeader_length,
      List.length_replicate])
    List.length_replicate
    (by
      rw [List.append_nil, List.length_append, List.length_append,
        csonHeader_length, List.length_replicate, List.length_replicate]
      exact small)
  rw [offset, List.append_nil, List.append_nil] at written
  rw [blank, header]
  simpa only [List.nil_append, List.append_assoc, objectBytes] using written

/-! ## Reading the layout back -/

theorem storedWord_at {first last : Bytes} {word offset : Nat}
    (position : first.length = offset) (small : word < 2 ^ 32) :
    (storedWord (first ++ be 4 word ++ last) offset).toNat = word := by
  subst position
  unfold storedWord
  rw [List.append_assoc, List.drop_left' rfl,
    List.take_left' (be_length 4 word), ofBE_be]
  have fits : word % 256 ^ 4 = word := Nat.mod_eq_of_lt small
  rw [fits]
  exact UInt32.toNat_ofNat_of_lt' small

section Fields

variable {before after : List RawField} {field : RawField}

def payloadStart (before after : List RawField) : Nat :=
  8 + (before.length + 1 + after.length) * fieldEntrySize +
    payloadLength before

theorem objectBytes_entry :
    ∃ first last, first.length = 8 + before.length * fieldEntrySize ∧
      objectBytes (before ++ field :: after) =
        first ++ fieldEntry field
          (UInt32.ofNat (payloadStart before after)) ++ last := by
  have count : (before ++ field :: after).length =
      before.length + 1 + after.length := by
    rw [List.length_append, List.length_cons]
    omega
  refine ⟨csonHeader (before ++ field :: after).length ++ directoryOf
    (8 + (before ++ field :: after).length * fieldEntrySize) before,
    directoryOf (payloadStart before after + field.valBytes.length) after ++
      payloadOf (before ++ field :: after), ?_, ?_⟩
  · rw [List.length_append, csonHeader_length, directoryOf_length]
  · unfold objectBytes
    rw [directoryOf_append, directoryOf, count, ← payloadStart]
    simp only [List.append_assoc]

theorem objectBytes_payload :
    ∃ first last, first.length = payloadStart before after ∧
      objectBytes (before ++ field :: after) =
        first ++ field.valBytes ++ last := by
  have count : (before ++ field :: after).length =
      before.length + 1 + after.length := by
    rw [List.length_append, List.length_cons]
    omega
  refine ⟨csonHeader (before ++ field :: after).length ++ directoryOf
    (8 + (before ++ field :: after).length * fieldEntrySize)
      (before ++ field :: after) ++ payloadOf before, payloadOf after, ?_, ?_⟩
  · rw [List.length_append, List.length_append, csonHeader_length,
      directoryOf_length, payloadOf_length, count]
    rfl
  · unfold objectBytes payloadOf
    rw [List.flatMap_append, List.flatMap_cons]
    simp only [List.append_assoc]

theorem fieldIDAt_object :
    fieldIDAt (objectBytes (before ++ field :: after)) before.length =
      field.fieldID := by
  obtain ⟨first, last, position, layout⟩ :=
    @objectBytes_entry before after field
  apply UInt32.toNat.inj
  unfold fieldIDAt
  rw [layout, fieldEntry]
  have read := @storedWord_at first
    ([field.valType.toByte, 0] ++
      be 4 (UInt32.ofNat (payloadStart before after)).toNat ++
        be 4 field.valBytes.length ++ last)
    _ _ position field.fieldID.toNat_lt
  simpa only [List.append_assoc] using read

variable (small : (objectBytes (before ++ field :: after)).length < 2 ^ 32)
include small

theorem payloadStart_small :
    payloadStart before after + field.valBytes.length < 2 ^ 32 := by
  obtain ⟨first, last, position, layout⟩ :=
    @objectBytes_payload before after field
  rw [layout, List.length_append, List.length_append, position] at small
  omega

theorem entryAt_object :
    (entryAt (objectBytes (before ++ field :: after)) before.length).valType =
        field.valType.toByte ∧
      (entryAt (objectBytes (before ++ field :: after))
          before.length).offset.toNat = payloadStart before after ∧
        (entryAt (objectBytes (before ++ field :: after))
          before.length).length.toNat = field.valBytes.length := by
  have bound := payloadStart_small small
  obtain ⟨first, last, position, layout⟩ :=
    @objectBytes_entry before after field
  have start : (UInt32.ofNat (payloadStart before after)).toNat =
      payloadStart before after := UInt32.toNat_ofNat_of_lt' (by
    rw [UInt32.size]
    omega)
  rw [fieldEntry, start] at layout
  refine ⟨?_, ?_, ?_⟩
  · unfold entryAt
    rw [layout, ← position, List.getD_eq_getElem?_getD]
    simp
  · have read := @storedWord_at
      (first ++ be 4 field.fieldID.toNat ++ [field.valType.toByte, 0])
      (be 4 field.valBytes.length ++ last) (payloadStart before after)
      (8 + before.length * fieldEntrySize + 6) (by simp [position]) (by omega)
    unfold entryAt
    rw [layout]
    simpa only [List.append_assoc] using read
  · have read := @storedWord_at
      (first ++ be 4 field.fieldID.toNat ++ [field.valType.toByte, 0] ++
        be 4 (payloadStart before after))
      last field.valBytes.length
      (8 + before.length * fieldEntrySize + 10) (by simp [position])
      (by omega)
    unfold entryAt
    rw [layout]
    simpa only [List.append_assoc] using read

theorem entryAt_object_flat :
    ¬(entryAt (objectBytes (before ++ field :: after))
      before.length).Wraps := by
  have bound := payloadStart_small small
  obtain ⟨_, offset, length⟩ := entryAt_object small
  unfold FieldLocation.Wraps
  omega

theorem entryAt_object_passes :
    (entryAt (objectBytes (before ++ field :: after)) before.length).Passes
      (objectBytes (before ++ field :: after)) := by
  obtain ⟨_, offset, length⟩ := entryAt_object small
  obtain ⟨first, last, position, layout⟩ :=
    @objectBytes_payload before after field
  unfold FieldLocation.Passes
  rw [FieldLocation.end_eq (entryAt_object_flat small), offset, length,
    layout, List.length_append, List.length_append, position]
  omega

theorem entryAt_object_content :
    (entryAt (objectBytes (before ++ field :: after)) before.length).content
      (objectBytes (before ++ field :: after)) = field.valBytes := by
  obtain ⟨_, offset, length⟩ := entryAt_object small
  obtain ⟨first, last, position, layout⟩ :=
    @objectBytes_payload before after field
  unfold FieldLocation.content
  rw [offset, length, layout, List.append_assoc, ← position,
    List.drop_left' rfl, List.take_left' rfl]

end Fields

theorem objectBytes_wellHeaded (sorted : List RawField) :
    WellHeaded (objectBytes sorted) ∧
      fieldCountOf (objectBytes sorted) = sorted.length % 2 ^ 16 := by
  have count : fieldCountOf (objectBytes sorted) =
      sorted.length % 2 ^ 16 := by
    unfold fieldCountOf objectBytes csonHeader
    rw [List.append_assoc, List.append_assoc,
      List.drop_left' (show (be 4 csonMagic ++ be 2 csonVersion).length = 6
        by simp), List.take_left' (be_length 2 sorted.length), ofBE_be]
    rfl
  refine ⟨⟨?_, ?_, ?_⟩, count⟩
  · rw [objectBytes_length]
    omega
  · unfold objectBytes csonHeader
    simp only [List.append_assoc]
    rw [List.take_left' (be_length 4 csonMagic), ofBE_be]
    rfl
  · have fewer := Nat.mod_le sorted.length (2 ^ 16)
    have entries := Nat.mul_le_mul_right fieldEntrySize fewer
    rw [count, objectBytes_length]
    omega

theorem objectBytes_headed {sorted : List RawField}
    (few : sorted.length ≤ 65535) :
    WellHeaded (objectBytes sorted) ∧
      fieldCountOf (objectBytes sorted) = sorted.length := by
  obtain ⟨headed, count⟩ := objectBytes_wellHeaded sorted
  rw [Nat.mod_eq_of_lt (by omega)] at count
  exact ⟨headed, count⟩

theorem objectBytes_at {sorted : List RawField}
    (small : (objectBytes sorted).length < 2 ^ 32) {index : Nat}
    (before : index < sorted.length) :
    fieldIDAt (objectBytes sorted) index = sorted[index].fieldID ∧
      (entryAt (objectBytes sorted) index).valType =
        sorted[index].valType.toByte ∧
      (entryAt (objectBytes sorted) index).Passes (objectBytes sorted) ∧
      ¬(entryAt (objectBytes sorted) index).Wraps ∧
      (entryAt (objectBytes sorted) index).content (objectBytes sorted) =
        sorted[index].valBytes := by
  obtain ⟨front, field, back, split, rfl, here⟩ :
      ∃ front field back, sorted = front ++ field :: back ∧
        front.length = index ∧ sorted[index] = field :=
    ⟨sorted.take index, sorted[index], sorted.drop (index + 1), by
      rw [List.getElem_cons_drop, List.take_append_drop], by
      rw [List.length_take]
      omega, rfl⟩
  rw [here]
  rw [split] at small ⊢
  exact ⟨fieldIDAt_object, (entryAt_object small).1,
    entryAt_object_passes small, entryAt_object_flat small,
    entryAt_object_content small⟩

end CocoDB.Cson
