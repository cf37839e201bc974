import CocoDB.Document.Restored

/-!
# Field access and full decoding

An accessor of a view finds its field by a binary search for the number of the
name; `ToMap` goes through the directory and looks the numbers up.  The two
agree as long as no other name has the number of a field.
-/

namespace CocoDB.Document

open Lib Cson CocoDB.Query

section Search

variable {data : Bytes} {dict : FieldDictionary}

def Ascending (data : Bytes) : Prop :=
  ∀ one two, one ≤ two → two < fieldCountOf data →
    fieldIDAt data one ≤ fieldIDAt data two

theorem searchField_missed (headed : WellHeaded data)
    (ascending : Ascending data) (fieldID : UInt32) {left stop : Nat}
    (bounded : stop ≤ fieldCountOf data)
    (missed : DocumentView.searchField ⟨data, dict, fieldCountOf data⟩
      fieldID left stop = .ok none) {index : Nat} (after : left ≤ index)
    (before : index < stop) : fieldIDAt data index ≠ fieldID := by
  induction distance : stop - left using Nat.strong_induction_on
    generalizing left stop with
  | _ distance inductionHypothesis =>
      have nonempty : left < stop := by omega
      have middle : left + (stop - 1 - left) / 2 < stop := by omega
      have inside := entry_inside (Nat.lt_of_lt_of_le middle bounded)
        headed.2.2
      rw [DocumentView.searchField, if_pos nonempty] at missed
      simp only at missed
      rw [wordAt_ok (by omega), byteAt_ok (by omega), wordAt_ok (by omega),
        wordAt_ok (by omega)] at missed
      simp only [Outcome.ok_bind, Outcome.pure_eq] at missed
      change (if fieldIDAt data (left + (stop - 1 - left) / 2) = fieldID
        then _ else _) = _ at missed
      split at missed
      · cases missed
      · next different =>
          have first := Nat.le_add_right left ((stop - 1 - left) / 2)
          generalize left + (stop - 1 - left) / 2 = mid at *
          split at missed
          · next lower =>
              change fieldIDAt data mid < fieldID at lower
              by_cases early : index ≤ mid
              · intro same
                have order := ascending index mid early (by omega)
                rw [same] at order
                exact UInt32.not_le.mpr lower order
              · exact inductionHypothesis _ (by omega) bounded missed
                  (by omega) before rfl
          · next above =>
              change ¬ fieldIDAt data mid < fieldID at above
              by_cases early : index < mid
              · exact inductionHypothesis _ (by omega) (by omega) missed
                  after early rfl
              · intro same
                have order := ascending mid index (by omega) (by omega)
                rw [same] at order
                exact different
                  (UInt32.le_antisymm order (UInt32.not_lt.mp above))

end Search

/-! ## Accessors of one entry -/

def dataOf : Option Value → Option Bytes
  | some (.scalar (.bytes data)) => some data
  | _ => none

def floatsOf : Option Value → Option (List UInt32)
  | some (.scalar (.vector floats)) => some floats
  | _ => none

def timeOf : Option Value → Option (Int64 × Bytes)
  | some (.scalar (.time unixNano location)) => some (unixNano, location)
  | _ => none

section Entry

variable {view : DocumentView} {field : Bytes} {loc : FieldLocation}
  (located : view.getFieldLoc field = .ok (some loc))
  (passes : loc.Passes view.data) (flat : ¬loc.Wraps)
include located passes flat

theorem bytes_located :
    view.bytes field = .ok (if loc.valType = ValueType.bytes.toByte then
      some (loc.content view.data) else none) := by
  simp only [DocumentView.bytes, DocumentView.rawField, located,
    Outcome.ok_bind, inRange_passes passes, slice_flat passes flat]
  by_cases typed : loc.valType = ValueType.bytes.toByte
  · simp [typed]
  · simp [typed]

omit located in
theorem readFloats_content {index remaining : Nat}
    (inside : (index + remaining) * 4 ≤ loc.length.toNat) :
    readFloats view.data
        (fun index => (loc.offset + UInt32.ofNat (index * 4)).toNat)
        index remaining =
      readFloats (loc.content view.data) (fun index => index * 4) index
        remaining := by
  have within := FieldLocation.within passes flat
  have size := FieldLocation.content_length passes flat
  have small := Nat.lt_of_not_le flat
  have position : ∀ later, later * 4 ≤ loc.length.toNat →
      (loc.offset + UInt32.ofNat (later * 4)).toNat =
        loc.offset.toNat + later * 4 := by
    intro later bound
    have lengthSmall := loc.length.toNat_lt
    rw [UInt32.toNat_add, UInt32.toNat_ofNat_of_lt' (by
      rw [UInt32.size]
      omega)]
    exact Nat.mod_eq_of_lt (by omega)
  induction remaining generalizing index with
  | zero => rfl
  | succ remaining inductionHypothesis =>
      have word : (view.data.drop (loc.offset.toNat + index * 4)).take 4 =
          ((loc.content view.data).drop (index * 4)).take 4 := by
        rw [FieldLocation.content, List.drop_take, List.take_take,
          List.drop_drop, Nat.min_eq_left (by omega)]
      have width : loc.offset.toNat + (index + 1) * 4 -
          (loc.offset.toNat + index * 4) = 4 := by omega
      have narrow : (index + 1) * 4 - index * 4 = 4 := by omega
      rw [readFloats, readFloats, position index (by omega),
        position (index + 1) (by omega), slice_ok (by omega) (by omega),
        slice_ok (by omega) (by omega), width, narrow, word,
        inductionHypothesis (by omega)]

theorem vector_located {result : Outcome (List UInt32)}
    (read : readFloats (loc.content view.data) (fun index => index * 4) 0
      ((loc.content view.data).length / 4) = result) :
    view.vector field =
      if loc.valType = ValueType.vectorFloat32.toByte then
        (do return some (← result))
      else .ok none := by
  have size := FieldLocation.content_length passes flat
  rw [size] at read
  simp only [DocumentView.vector, located, Outcome.ok_bind,
    inRange_passes passes]
  by_cases typed : loc.valType = ValueType.vectorFloat32.toByte
  · have same := @readFloats_content view loc passes flat 0
      (loc.length.toNat / 4) (by omega)
    simp only [typed, ne_eq, not_true_eq_false, if_false, if_true,
      Bool.not_true, Bool.false_eq_true, same, read]
  · simp [typed]

end Entry

structure ReadsAll (view : DocumentView) (field : Bytes)
    (stored : Option Value) : Prop extends Reads view field stored where
  data : view.bytes field = .ok (dataOf stored)
  floats : view.vector field = .ok (floatsOf stored)
  time : view.time field = .ok (timeOf stored)

theorem readsAll_missing {view : DocumentView} {field : Bytes}
    (missing : view.getFieldLoc field = .ok none) :
    ReadsAll view field none where
  toReads := reads_missing missing
  data := by
    simp [DocumentView.bytes, DocumentView.rawField, missing, dataOf]
  floats := by simp [DocumentView.vector, missing, floatsOf]
  time := by simp [DocumentView.time, DocumentView.word, missing, timeOf]

section Located

variable {view : DocumentView} {field : Bytes} {loc : FieldLocation}
  (located : view.getFieldLoc field = .ok (some loc))
  (passes : loc.Passes view.data) (flat : ¬loc.Wraps)
include located passes flat

theorem readsAll_scalar {value : Scalar}
    (typed : loc.valType = (encodeScalar value).1.toByte)
    (content : loc.content view.data = (encodeScalar value).2) :
    ReadsAll view field (some (.scalar (widen value))) := by
  have data := bytes_located located passes flat
  have vector := vector_located located passes flat rfl
  have word := word_located located passes flat [.time]
  rw [content, typed] at data vector word
  constructor
  · exact reads_scalar located passes flat typed content
  · rw [data]
    cases value with
    | bool value => cases value <;> rfl
    | _ => rfl
  · rw [vector]
    cases value with
    | vector floats =>
        have read := @readFloats_be floats [] 0 rfl
        rw [List.nil_append] at read
        simp only [encodeScalar, vector_length,
          Nat.mul_div_cancel _ (show 0 < 4 by decide), read, if_true]
        rfl
    | bool value => cases value <;> rfl
    | _ => rfl
  · rw [DocumentView.time, word]
    cases value with
    | bool value => cases value <;> rfl
    | _ =>
        simp [encodeScalar, ValueType.toByte, widen, timeOf, be_length,
          ofBE_take_be]

theorem readsAll_nested
    (typed : loc.valType = ValueType.array.toByte ∨
      loc.valType = ValueType.object.toByte)
    (returns : (decodeValue view.dict (view.data.length + 1) loc.valType
      (loc.content view.data)).Returns) :
    ReadsAll view field (valueOf (decodeValue view.dict
      (view.data.length + 1) loc.valType (loc.content view.data))) := by
  obtain ⟨stored, reads⟩ := reads_nested located passes flat typed returns
  have got := getValue_located located passes flat rfl returns
  rw [reads.get] at got
  cases Outcome.ok.inj got
  have data := bytes_located located passes flat
  have floats := vector_located located passes flat rfl
  have word := word_located located passes flat [.time]
  have silent : view.bytes field = .ok none ∧ view.vector field = .ok none ∧
      view.time field = .ok none := by
    rw [DocumentView.time, data, floats, word]
    rcases typed with array | object
    · rw [array]
      simp [ValueType.toByte]
    · rw [object]
      simp [ValueType.toByte]
  obtain ⟨noData, noFloats, noTime⟩ := silent
  cases decoded : decodeValue view.dict (view.data.length + 1) loc.valType
      (loc.content view.data) with
  | ok value =>
      rw [decoded] at reads
      have nested := decode_nested typed decoded
      cases value with
      | scalar value => cases nested
      | unsupported typeName => cases nested
      | array items => exact ⟨reads, noData, noFloats, noTime⟩
      | object fields => exact ⟨reads, noData, noFloats, noTime⟩
  | error cause =>
      rw [decoded] at reads
      exact ⟨reads, noData, noFloats, noTime⟩
  | panic =>
      rw [decoded] at reads
      exact ⟨reads, noData, noFloats, noTime⟩
  | exhausted =>
      rw [decoded] at reads
      exact ⟨reads, noData, noFloats, noTime⟩

theorem readsAll_written {value : Value} (supported : Supported value)
    (typed : loc.valType = (written view.dict value).1.toByte)
    (content : loc.content view.data = (written view.dict value).2)
    (short : view.data.length < 2 ^ 32) :
    ReadsAll view field
      (recovered view.dict (view.data.length + 1) value) := by
  have inside := FieldLocation.content_length passes flat
  have bounded := FieldLocation.within passes flat
  have length : (written view.dict value).2.length ≤ view.data.length := by
    rw [← content, inside]
    omega
  have shallow := height_le_length view.dict value
  have returns : (decodeValue view.dict (view.data.length + 1)
      (written view.dict value).1.toByte (written view.dict value).2).Returns :=
    (decode_supported supported (by omega) (by omega)).1
  have nested : ∀ valType : ValueType,
      valType = .array ∨ valType = .object →
      (written view.dict value).1 = valType →
      ReadsAll view field
        (recovered view.dict (view.data.length + 1) value) := by
    intro valType either same
    rw [← typed, ← content] at returns
    have reads := readsAll_nested located passes flat
      (by rw [typed, same]; exact either.imp (congrArg _) (congrArg _))
      returns
    rw [typed, content] at reads
    exact reads
  cases value with
  | scalar value =>
      rw [written] at typed content
      rw [recovered_scalar]
      exact readsAll_scalar located passes flat typed content
  | unsupported typeName => exact absurd supported (by simp [Supported])
  | array items => exact nested .array (.inl rfl) (by rw [written])
  | object fields => exact nested .object (.inr rfl) (by rw [written])

end Located

/-! ## Written documents -/

structure WrittenAs (dict : FieldDictionary) (payload : Bytes)
    (doc : Cson.Document) : Prop where
  supported : ∀ field ∈ doc, Supported field.2
  distinct : (doc.map Prod.fst).Nodup
  few : doc.length ≤ 65535
  known : ∀ field ∈ doc, ∃ fieldID, dict.getID field.1 = some fieldID
  payload_eq : payload = assemble (doc.map (rawFieldOf dict))
  short : payload.length < 2 ^ 32

theorem writtenAs_of_encode {dict grown : FieldDictionary} {payload : Bytes}
    {doc : Cson.Document} (distinct : (doc.map Prod.fst).Nodup)
    (few : doc.length ≤ 65535)
    (encoded : encode doc dict = (.ok payload, grown))
    (short : payload.length < 2 ^ 32) : WrittenAs grown payload doc := by
  have supported : Supported (.object doc) := by
    apply (encode_succeeds doc dict).mp
    rw [encoded]
    exact succeeds_ok payload
  rw [encode_written supported dict] at encoded
  cases encoded
  rw [Supported, supportedFields_iff] at supported
  refine ⟨supported, distinct, few, ?_, ?_, short⟩
  · intro field member
    apply FieldDictionary.known_assignAll
    exact mem_namesOfFields.mpr ⟨field, member, .inl rfl⟩
  · rw [written, writtenFields_eq_map]

section Stored

variable {dict : FieldDictionary} {payload : Bytes} {doc : Cson.Document}

theorem WrittenAs.layout (writtenAs : WrittenAs dict payload doc) :
    payload = objectBytes (sortFields (doc.map (rawFieldOf dict))) ∧
      WellHeaded payload ∧
      fieldCountOf payload =
        (sortFields (doc.map (rawFieldOf dict))).length := by
  have short := writtenAs.short
  have few : (sortFields (doc.map (rawFieldOf dict))).length ≤ 65535 := by
    rw [(sortFields_perm _).length_eq, List.length_map]
    exact writtenAs.few
  rw [writtenAs.payload_eq] at short ⊢
  rw [assemble_short short]
  obtain ⟨headed, counted⟩ := objectBytes_headed few
  exact ⟨rfl, headed, counted⟩

theorem WrittenAs.ascending (writtenAs : WrittenAs dict payload doc) :
    Ascending payload := by
  obtain ⟨layout, _, counted⟩ := writtenAs.layout
  have short := writtenAs.short
  have ordered : (sortFields (doc.map (rawFieldOf dict))).Pairwise
      byFieldID := by
    have : Std.Total byFieldID := ⟨fun one two => UInt32.le_total _ _⟩
    have : IsTrans RawField byFieldID :=
      ⟨fun _ _ _ first second => UInt32.le_trans first second⟩
    exact List.pairwise_insertionSort byFieldID _
  intro one two order before
  rw [counted] at before
  rw [layout] at short ⊢
  rw [(objectBytes_at short (show one < _ by omega)).1,
    (objectBytes_at short before).1]
  rcases Nat.eq_or_lt_of_le order with same | less
  · subst same
    exact UInt32.le_refl _
  · exact List.pairwise_iff_getElem.mp ordered one two (by omega) before less

theorem WrittenAs.reads (writtenAs : WrittenAs dict payload doc)
    (name : Bytes) :
    ((viewOf dict payload).has name = .ok false ∧
        ReadsAll (viewOf dict payload) name none ∧
        ∀ field ∈ doc, dict.getID name ≠ some (dict.idOf field.1)) ∨
      ∃ field ∈ doc, dict.getID name = some (dict.idOf field.1) ∧
        (viewOf dict payload).has name = .ok true ∧
        ReadsAll (viewOf dict payload) name
          (recovered dict (payload.length + 1) field.2) := by
  obtain ⟨layout, headed, counted⟩ := writtenAs.layout
  have short := writtenAs.short
  have perm := sortFields_perm (doc.map (rawFieldOf dict))
  obtain ⟨found, located, listed⟩ :=
    @getFieldLoc_ok payload dict headed name
  change (viewOf dict payload).getFieldLoc name = .ok found at located
  have entry : ∀ index, index < fieldCountOf payload → ∃ field ∈ doc,
      fieldIDAt payload index = dict.idOf field.1 ∧
        (entryAt payload index).valType = (written dict field.2).1.toByte ∧
        (entryAt payload index).Passes payload ∧
        ¬(entryAt payload index).Wraps ∧
        (entryAt payload index).content payload =
          (written dict field.2).2 := by
    intro index before
    rw [counted] at before
    rw [layout] at short ⊢
    obtain ⟨number, typed, passes, flat, content⟩ :=
      objectBytes_at short before
    obtain ⟨field, member, same⟩ :=
      List.mem_map.mp (perm.mem_iff.mp (List.getElem_mem before))
    rw [← same] at number typed content
    exact ⟨field, member, number, typed, passes, flat, content⟩
  cases found with
  | some loc =>
      right
      obtain ⟨index, before, rfl, number⟩ := listed loc rfl
      obtain ⟨field, member, same, typed, passes, flat, content⟩ :=
        entry index before
      rw [same] at number
      refine ⟨field, member, number, ?_, ?_⟩
      · simp [DocumentView.has, located]
      · exact readsAll_written located passes flat
          (writtenAs.supported field member) typed content short
  | none =>
      left
      refine ⟨?_, readsAll_missing located, ?_⟩
      · simp [DocumentView.has, located]
      · intro field member known
        have missed : DocumentView.searchField (viewOf dict payload)
            (dict.idOf field.1) 0 (fieldCountOf payload) = .ok none := by
          have numbered : (viewOf dict payload).dict.getID name =
              some (dict.idOf field.1) := known
          rw [DocumentView.getFieldLoc, numbered] at located
          exact located
        have inSorted : rawFieldOf dict field ∈
            sortFields (doc.map (rawFieldOf dict)) :=
          perm.mem_iff.mpr (List.mem_map_of_mem member)
        obtain ⟨index, before, here⟩ := List.getElem_of_mem inSorted
        have number := searchField_missed headed writtenAs.ascending
          (dict.idOf field.1) (Nat.le_refl _) missed (Nat.zero_le index)
          (by rw [counted]; exact before)
        rw [layout] at number short
        apply number
        rw [(objectBytes_at short before).1, here]
        rfl

theorem WrittenAs.decodes (writtenAs : WrittenAs dict payload doc)
    {field : Bytes × Value} (member : field ∈ doc) :
    (decodeValue dict (payload.length + 1)
        (written dict field.2).1.toByte (written dict field.2).2).Returns ∧
      ((recovered dict (payload.length + 1) field.2).isSome = true ↔
        Kept field.2) := by
  have short := writtenAs.short
  have long := length_le_payloadLength (List.mem_map_of_mem
    (f := rawFieldOf dict) member)
  have shallow := height_le_length dict field.2
  have whole := assemble_length (doc.map (rawFieldOf dict))
  have same := payloadLength_perm
    (sortFields_perm (doc.map (rawFieldOf dict)))
  rw [← writtenAs.payload_eq, same] at whole
  simp only [rawFieldOf] at long
  exact decode_supported (writtenAs.supported field member)
    (show _ < 2 ^ 32 by omega)
    (show height field.2 ≤ payload.length + 1 by omega)

theorem WrittenAs.toMap_eq (writtenAs : WrittenAs dict payload doc) :
    toMap (viewOf dict payload) =
      .ok (Cson.gather dict (decodeValue dict (payload.length + 1))
        (sortFields (doc.map (rawFieldOf dict))) []) := by
  obtain ⟨layout, headed, counted⟩ := writtenAs.layout
  have short := writtenAs.short
  have perm := sortFields_perm (doc.map (rawFieldOf dict))
  have few : (sortFields (doc.map (rawFieldOf dict))).length ≤ 65535 := by
    rw [perm.length_eq, List.length_map]
    exact writtenAs.few
  have returns : ∀ raw ∈ sortFields (doc.map (rawFieldOf dict)),
      (decodeValue dict (payload.length + 1) raw.valType.toByte
        raw.valBytes).Returns := by
    intro raw member
    obtain ⟨field, inDoc, rfl⟩ := List.mem_map.mp (perm.mem_iff.mp member)
    exact (writtenAs.decodes inDoc).1
  have collected := @toMapFrom_gather dict
    (decodeValue dict (payload.length + 1)) []
    (sortFields (doc.map (rawFieldOf dict))) [] returns few
    (by rw [List.nil_append, ← layout]; exact short)
  rw [List.nil_append, List.length_nil, ← layout, ← counted] at collected
  exact collected

/-! ## Agreement -/

/-- A typed accessor succeeds on the fields of its type only, with the value
that `ToMap` found. -/
def TypedRead {α : Type} (read : Outcome (Option α))
    (typed : Option Value → Option α) (stored found : Option Value) : Prop :=
  read = .ok (typed found) ∧ (typed found).isSome = (typed stored).isSome

structure LookupsAgree (view : DocumentView) (doc map : Cson.Document)
    (name : Bytes) : Prop where
  has : view.has name = .ok (decide (name ∈ doc.map Prod.fst))
  get : getValue view name = .ok (lookup map name)
  string : TypedRead (view.string name) textOf (lookup doc name)
    (lookup map name)
  bool : TypedRead (view.bool name) truthOf (lookup doc name)
    (lookup map name)
  bytes : TypedRead (view.bytes name) dataOf (lookup doc name)
    (lookup map name)
  vector : TypedRead (view.vector name) floatsOf (lookup doc name)
    (lookup map name)
  time : TypedRead (view.time name) timeOf (lookup doc name)
    (lookup map name)

/-- No other name has the number of a field, except that the fields of a number
may all be ones that the decoder gives up on. -/
def Apart (dict : FieldDictionary) (doc : Cson.Document) : Prop :=
  ∀ field ∈ doc, ∀ name, dict.getID name = some (dict.idOf field.1) →
    name = field.1 ∨ (name ∈ doc.map Prod.fst ∧ ∀ other ∈ doc,
      dict.idOf other.1 = dict.idOf field.1 → ¬ Kept other.2)

theorem typed_recovered {value : Value} (supported : Supported value)
    (budget : Nat) :
    let found := recovered dict (budget + 1) value
    (textOf found).isSome = (textOf (some value)).isSome ∧
      (truthOf found).isSome = (truthOf (some value)).isSome ∧
      (dataOf found).isSome = (dataOf (some value)).isSome ∧
      (floatsOf found).isSome = (floatsOf (some value)).isSome ∧
      (timeOf found).isSome = (timeOf (some value)).isSome := by
  cases value with
  | unsupported typeName => exact absurd supported (by simp [Supported])
  | scalar value =>
      rw [recovered_scalar]
      cases value <;> exact ⟨rfl, rfl, rfl, rfl, rfl⟩
  | array items =>
      cases found : recovered dict (budget + 1) (.array items) with
      | none => exact ⟨rfl, rfl, rfl, rfl, rfl⟩
      | some other =>
          have decoded := recovered_eq_some_iff.mp found
          have nested := decode_nested (.inl (by rw [written])) decoded
          cases other with
          | scalar other => cases nested
          | unsupported typeName => cases nested
          | array others => exact ⟨rfl, rfl, rfl, rfl, rfl⟩
          | object fields => exact ⟨rfl, rfl, rfl, rfl, rfl⟩
  | object fields =>
      cases found : recovered dict (budget + 1) (.object fields) with
      | none => exact ⟨rfl, rfl, rfl, rfl, rfl⟩
      | some other =>
          have decoded := recovered_eq_some_iff.mp found
          have nested := decode_nested (.inr (by rw [written])) decoded
          cases other with
          | scalar other => cases nested
          | unsupported typeName => cases nested
          | array others => exact ⟨rfl, rfl, rfl, rfl, rfl⟩
          | object fields => exact ⟨rfl, rfl, rfl, rfl, rfl⟩

theorem gather_keeps {decode : UInt8 → Bytes → Outcome Value}
    {fields : List RawField} {result : Cson.Document} {name : Bytes}
    (listed : name ∈ result.map Prod.fst) :
    name ∈ (Cson.gather dict decode fields result).map Prod.fst := by
  induction fields generalizing result with
  | nil => exact listed
  | cons field rest inductionHypothesis =>
      rw [Cson.gather]
      split
      · apply inductionHypothesis
        rw [setField, List.map_append, List.mem_append]
        by_cases same : name = Cson.nameOf dict field.fieldID
        · right
          simp [same]
        · left
          obtain ⟨entry, member, rfl⟩ := List.mem_map.mp listed
          exact List.mem_map_of_mem (List.mem_filter.mpr
            ⟨member, decide_eq_true same⟩)
      · exact inductionHypothesis listed

theorem gather_has {decode : UInt8 → Bytes → Outcome Value}
    {fields : List RawField} {field : RawField} {value : Value}
    (member : field ∈ fields)
    (decoded : decode field.valType.toByte field.valBytes = .ok value)
    (result : Cson.Document) :
    Cson.nameOf dict field.fieldID ∈
      (Cson.gather dict decode fields result).map Prod.fst := by
  induction fields generalizing result with
  | nil => cases member
  | cons first rest inductionHypothesis =>
      rw [Cson.gather]
      cases List.mem_cons.mp member with
      | inl same =>
          rw [← same, decoded]
          apply gather_keeps
          rw [setField, List.map_append, List.mem_append]
          exact .inr (List.mem_singleton_self _)
      | inr later =>
          split
          · exact inductionHypothesis later _
          · exact inductionHypothesis later _

section Agreement

variable {map : Cson.Document} (writtenAs : WrittenAs dict payload doc)
  (collected : toMap (viewOf dict payload) = .ok map)
include writtenAs collected

theorem mem_collected {name : Bytes} {value : Value}
    (member : (name, value) ∈ map) :
    ∃ field ∈ doc, Cson.nameOf dict (dict.idOf field.1) = name ∧
      recovered dict (payload.length + 1) field.2 = some value := by
  rw [writtenAs.toMap_eq] at collected
  rw [← Outcome.ok.inj collected] at member
  rcases gather_mem member with absent | ⟨raw, inSorted, named, decoded⟩
  · cases absent
  · obtain ⟨field, inDoc, rfl⟩ := List.mem_map.mp
      ((sortFields_perm _).mem_iff.mp inSorted)
    exact ⟨field, inDoc, named, recovered_eq_some_iff.mpr decoded⟩

theorem name_collected {field : Bytes × Value} (member : field ∈ doc)
    {value : Value}
    (read : recovered dict (payload.length + 1) field.2 = some value) :
    Cson.nameOf dict (dict.idOf field.1) ∈ map.map Prod.fst := by
  rw [writtenAs.toMap_eq] at collected
  rw [← Outcome.ok.inj collected]
  exact gather_has ((sortFields_perm _).mem_iff.mpr
    (List.mem_map_of_mem member)) (recovered_eq_some_iff.mp read) []

theorem collected_nodup : (map.map Prod.fst).Nodup := by
  rw [writtenAs.toMap_eq] at collected
  rw [← Outcome.ok.inj collected]
  exact gather_nodup List.nodup_nil

variable (faithful : dict.Faithful) (covered : dict.Covered)
include faithful covered

omit collected in
theorem nameOf_field {field : Bytes × Value} (member : field ∈ doc) :
    dict.getName (dict.idOf field.1) =
        some (Cson.nameOf dict (dict.idOf field.1)) ∧
      dict.getID (Cson.nameOf dict (dict.idOf field.1)) =
        some (dict.idOf field.1) := by
  obtain ⟨fieldID, known⟩ := writtenAs.known field member
  have number : dict.idOf field.1 = fieldID := by
    rw [FieldDictionary.idOf, known, Option.getD_some]
  obtain ⟨other, listed⟩ := covered field.1 fieldID known
  have named : Cson.nameOf dict fieldID = other := by
    rw [Cson.nameOf, listed, Option.getD_some]
  rw [number, named]
  exact ⟨listed, faithful other fieldID listed⟩

theorem lookup_collected (apart : Apart dict doc) (name : Bytes) :
    lookup map name =
      (lookup doc name).bind (recovered dict (payload.length + 1)) := by
  have own : ∀ field ∈ doc, ∀ value,
      recovered dict (payload.length + 1) field.2 = some value →
      Cson.nameOf dict (dict.idOf field.1) = field.1 := by
    intro field member value read
    have kept := (writtenAs.decodes member).2.mp (by rw [read]; rfl)
    cases apart field member _
        (nameOf_field writtenAs faithful covered member).2 with
    | inl same => exact same
    | inr lost => exact absurd kept (lost.2 field member rfl)
  have source : ∀ value, (name, value) ∈ map → ∃ stored,
      lookup doc name = some stored ∧
        recovered dict (payload.length + 1) stored = some value := by
    intro value listed
    obtain ⟨field, member, named, read⟩ :=
      mem_collected writtenAs collected listed
    rw [own field member value read] at named
    refine ⟨field.2, ?_, read⟩
    rw [lookup_eq_some_iff writtenAs.distinct, ← named]
    exact member
  apply Option.ext
  intro value
  rw [lookup_eq_some_iff (collected_nodup writtenAs collected),
    Option.bind_eq_some_iff]
  constructor
  · exact source value
  · rintro ⟨stored, found, read⟩
    have member := (lookup_eq_some_iff writtenAs.distinct).mp found
    have listed := name_collected writtenAs collected member read
    rw [own _ member value read] at listed
    obtain ⟨⟨_, other⟩, entry, rfl⟩ := List.mem_map.mp listed
    obtain ⟨again, foundAgain, readAgain⟩ := source other entry
    rw [found] at foundAgain
    cases foundAgain
    rw [read] at readAgain
    cases readAgain
    exact entry

omit collected faithful covered writtenAs in
theorem idOf_of_getID {name : Bytes} {fieldID : UInt32}
    (known : dict.getID name = some fieldID) : dict.idOf name = fieldID := by
  rw [FieldDictionary.idOf, known, Option.getD_some]

theorem lookupsAgree_of_apart (apart : Apart dict doc) (name : Bytes) :
    LookupsAgree (viewOf dict payload) doc map name := by
  have found := lookup_collected writtenAs collected faithful covered apart
    name
  -- the name is one of the document just if the search finds something
  have result : (viewOf dict payload).has name =
        .ok (decide (name ∈ doc.map Prod.fst)) ∧
      ReadsAll (viewOf dict payload) name (lookup map name) := by
    rw [found]
    rcases writtenAs.reads name with
      ⟨has, reads, absent⟩ | ⟨field, member, known, has, reads⟩
    · have outside : name ∉ doc.map Prod.fst := by
        intro listed
        obtain ⟨field, member, rfl⟩ := List.mem_map.mp listed
        obtain ⟨fieldID, number⟩ := writtenAs.known field member
        apply absent field member
        rw [idOf_of_getID number, number]
      have missing : lookup doc name = none := by
        rw [lookup, Option.map_eq_none_iff, List.find?_eq_none]
        intro entry member
        simp only [decide_eq_true_eq]
        rintro rfl
        exact outside (List.mem_map_of_mem member)
      rw [decide_eq_false outside, missing]
      exact ⟨has, reads⟩
    · have inside : name ∈ doc.map Prod.fst := by
        cases apart field member name known with
        | inl same =>
            rw [same]
            exact List.mem_map_of_mem member
        | inr lost => exact lost.1
      rw [decide_eq_true inside]
      refine ⟨has, ?_⟩
      cases apart field member name known with
      | inl same =>
          have stored : lookup doc name = some field.2 := by
            rw [lookup_eq_some_iff writtenAs.distinct, same]
            exact member
          rw [stored]
          exact reads
      | inr lost =>
          obtain ⟨⟨_, stored⟩, other, rfl⟩ := List.mem_map.mp lost.1
          have listed : lookup doc _ = some stored :=
            (lookup_eq_some_iff writtenAs.distinct).mpr other
          have none : ∀ entry ∈ doc, dict.idOf entry.1 =
              dict.idOf field.1 →
              recovered dict (payload.length + 1) entry.2 = none := by
            intro entry inDoc same
            have gone := lost.2 entry inDoc same
            rw [← (writtenAs.decodes inDoc).2] at gone
            exact Option.not_isSome_iff_eq_none.mp gone
          rw [listed, Option.bind_some,
            none _ other (idOf_of_getID known)]
          rw [none field member rfl] at reads
          exact reads
  obtain ⟨has, reads⟩ := result
  have kinds : (textOf (lookup map name)).isSome =
        (textOf (lookup doc name)).isSome ∧
      (truthOf (lookup map name)).isSome =
        (truthOf (lookup doc name)).isSome ∧
      (dataOf (lookup map name)).isSome =
        (dataOf (lookup doc name)).isSome ∧
      (floatsOf (lookup map name)).isSome =
        (floatsOf (lookup doc name)).isSome ∧
      (timeOf (lookup map name)).isSome =
        (timeOf (lookup doc name)).isSome := by
    rw [found]
    cases stored : lookup doc name with
    | none => exact ⟨rfl, rfl, rfl, rfl, rfl⟩
    | some value =>
        have member := (lookup_eq_some_iff writtenAs.distinct).mp stored
        exact typed_recovered (writtenAs.supported _ member) payload.length
  obtain ⟨text, truth, data, floats, time⟩ := kinds
  exact ⟨has, reads.get, ⟨reads.text, text⟩, ⟨reads.truth, truth⟩,
    ⟨reads.data, data⟩, ⟨reads.floats, floats⟩, ⟨reads.time, time⟩⟩

omit collected faithful covered writtenAs in
theorem getValue_congr {one two : Bytes}
    (same : dict.getID one = dict.getID two) :
    getValue (viewOf dict payload) one =
      getValue (viewOf dict payload) two := by
  simp only [getValue, DocumentView.get, DocumentView.getFieldLoc, viewOf,
    same]

theorem apart_of_lookupsAgree
    (agree : ∀ name, LookupsAgree (viewOf dict payload) doc map name) :
    Apart dict doc := by
  intro field member name known
  by_cases same : name = field.1
  · exact .inl same
  right
  have listed : name ∈ doc.map Prod.fst := by
    rcases writtenAs.reads name with
      ⟨_, _, absent⟩ | ⟨_, _, _, has, _⟩
    · exact absurd known (absent field member)
    · rw [(agree name).has] at has
      exact of_decide_eq_true (Outcome.ok.inj has)
  refine ⟨listed, ?_⟩
  intro other inDoc number kept
  obtain ⟨value, read⟩ := Option.isSome_iff_exists.mp
    ((writtenAs.decodes inDoc).2.mpr kept)
  -- all the names with the number find the same field
  obtain ⟨leads, back⟩ := nameOf_field writtenAs faithful covered member
  obtain ⟨fieldID, ownID⟩ := writtenAs.known field member
  have own : dict.getID field.1 = some (dict.idOf field.1) := by
    rw [idOf_of_getID ownID, ownID]
  have alike : ∀ one, dict.getID one = some (dict.idOf field.1) →
      lookup map one =
        lookup map (Cson.nameOf dict (dict.idOf field.1)) := by
    intro one numbered
    have looked := (agree one).get
    rw [getValue_congr (numbered.trans back.symm),
      (agree _).get] at looked
    exact (Outcome.ok.inj looked).symm
  have present : Cson.nameOf dict (dict.idOf field.1) ∈ map.map Prod.fst := by
    rw [← number]
    exact name_collected writtenAs collected inDoc read
  obtain ⟨⟨_, shown⟩, entry, entryName⟩ := List.mem_map.mp present
  have held : lookup map (Cson.nameOf dict (dict.idOf field.1)) = some shown := by
    rw [lookup_eq_some_iff (collected_nodup writtenAs collected), ← entryName]
    exact entry
  have only : ∀ one, dict.getID one = some (dict.idOf field.1) →
      one = Cson.nameOf dict (dict.idOf field.1) := by
    intro one numbered
    have looked := (alike one numbered).trans held
    obtain ⟨source, inSource, named, _⟩ := mem_collected writtenAs collected
      ((lookup_eq_some_iff (collected_nodup writtenAs collected)).mp looked)
    have again := (nameOf_field writtenAs faithful covered inSource).2
    rw [named, numbered] at again
    rw [← named, ← Option.some.inj again]
  exact same ((only name known).trans (only field.1 own).symm)

end Agreement

end Stored

/-- The accessors of the view of an encoded document agree with the document and
with `ToMap` just if no other name has the number of one of its fields. -/
theorem access_iff {dict grown : FieldDictionary} {payload : Bytes}
    {doc : Cson.Document} (faithful : dict.Faithful)
    (covered : dict.Covered) (distinct : (doc.map Prod.fst).Nodup)
    (few : doc.length ≤ 65535)
    (encoded : encode doc dict = (.ok payload, grown))
    (short : payload.length < 2 ^ 32) :
    (∃ view map, newDocumentView payload grown = .ok view ∧
      toMap view = .ok map ∧ ∀ name, LookupsAgree view doc map name) ↔
      Apart grown doc := by
  have writtenAs := writtenAs_of_encode distinct few encoded short
  have opened := newDocumentView_ok grown writtenAs.layout.2.1
  have supported : Supported (.object doc) := by
    apply (encode_succeeds doc dict).mp
    rw [encoded]
    exact succeeds_ok payload
  have grows : grown = dict.assignAll (namesOfFields doc) := by
    rw [encode_written supported dict] at encoded
    exact (Prod.mk.inj encoded).2.symm
  have faithfulLater : grown.Faithful := grows ▸ faithful.assignAll _
  have coveredLater : grown.Covered := grows ▸ covered.assignAll _
  constructor
  · rintro ⟨view, map, found, collected, agree⟩
    rw [opened] at found
    cases found
    exact apart_of_lookupsAgree writtenAs collected faithfulLater
      coveredLater agree
  · intro apart
    exact ⟨_, _, opened, writtenAs.toMap_eq,
      lookupsAgree_of_apart writtenAs writtenAs.toMap_eq faithfulLater
        coveredLater apart⟩

theorem apart_of_inverse {dict : FieldDictionary} {doc : Cson.Document}
    (inverse : ∀ name fieldID, dict.getID name = some fieldID ↔
      dict.getName fieldID = some name)
    (known : ∀ field ∈ doc, ∃ fieldID, dict.getID field.1 = some fieldID) :
    Apart dict doc := by
  intro field member name shared
  obtain ⟨fieldID, own⟩ := known field member
  rw [idOf_of_getID own] at shared
  have one := (inverse name fieldID).mp shared
  rw [(inverse field.1 fieldID).mp own] at one
  exact .inl (Option.some.inj one).symm

theorem newFieldDictionary_agrees :
    FieldDictionary.newFieldDictionary.Faithful ∧
      FieldDictionary.newFieldDictionary.Covered := by
  have inverse := FieldDictionary.newFieldDictionary_wellFormed.inverse
  exact ⟨fun name fieldID listed => (inverse name fieldID).mpr listed,
    fun name fieldID known => ⟨name, (inverse name fieldID).mp known⟩⟩

/-- A document with one field, `open`. -/
def openDoc : Cson.Document :=
  [([0x6F, 0x70, 0x65, 0x6E], .scalar (.bool true))]

theorem access_of_openDoc :
    ∃ payload grown,
      encode openDoc .newFieldDictionary = (.ok payload, grown) ∧
      ∃ view map, newDocumentView payload grown = .ok view ∧
        toMap view = .ok map ∧
        ∀ name, LookupsAgree view openDoc map name := by
  obtain ⟨faithful, covered⟩ := newFieldDictionary_agrees
  refine ⟨_, _, rfl, (access_iff faithful covered (by decide) (by decide) rfl
    (by decide)).mpr ?_⟩
  apply apart_of_inverse
  · exact (FieldDictionary.newFieldDictionary_wellFormed.assign rfl
      (by decide)).inverse
  · intro field member
    cases List.mem_singleton.mp member
    exact ⟨2, rfl⟩

/-- The counter has come round to the number of `_id`, which the document does
not have. -/
theorem access_fails_after_wrap :
    ∃ payload grown,
      encode openDoc { FieldDictionary.newFieldDictionary with nextID := 1 } =
        (.ok payload, grown) ∧
      ¬ ∃ view map, newDocumentView payload grown = .ok view ∧
        toMap view = .ok map ∧
        ∀ name, LookupsAgree view openDoc map name := by
  refine ⟨_, _, rfl, ?_⟩
  rintro ⟨view, map, found, collected, agree⟩
  have writtenAs := @writtenAs_of_encode
    { FieldDictionary.newFieldDictionary with nextID := 1 } _ _ openDoc
    (by decide) (by decide) rfl (by decide)
  rw [newDocumentView_ok _ writtenAs.layout.2.1] at found
  cases found
  have has := (agree idField).has
  rcases writtenAs.reads idField with ⟨_, _, absent⟩ | ⟨_, _, _, held, _⟩
  · exact absent _ (List.mem_singleton_self _) rfl
  · rw [viewOf, has] at held
    exact absurd (Outcome.ok.inj held) (by decide)

end CocoDB.Document
