import CocoDB.Cson.RoundTrip

/-!
# Field lookup in stored documents

A document is stored with the field numbers of its collection's dictionary,
which grows as other documents are written.  What `Get` returns for a stored
document does not change when it grows.
-/

namespace CocoDB.Cson

open CocoDB.Lib

section Agreement

variable {dict later : FieldDictionary}

theorem readItems_agree {decode other : UInt8 → Bytes → Outcome Value}
    {items : List Value}
    (each : ∀ item ∈ items,
      other (written dict item).1.toByte (written dict item).2 =
        decode (written dict item).1.toByte (written dict item).2)
    (short : (writtenItems dict items).length < 2 ^ 32) :
    readItems other items.length (writtenItems dict items) =
      readItems decode items.length (writtenItems dict items) := by
  induction items with
  | nil => rfl
  | cons item rest inductionHypothesis =>
      obtain ⟨first, others⟩ := List.forall_mem_cons.mp each
      have itemShort := @item_short dict (item :: rest) item
        List.mem_cons_self
      have restShort : (writtenItems dict rest).length < 2 ^ 32 := by
        rw [writtenItems] at short
        simp only [List.length_append] at short
        omega
      rw [List.length_cons, readItems, readItems, writtenItems,
        readItem_written _ (by omega)]
      by_cases empty : (written dict item).2 ++ writtenItems dict rest = []
      · rw [if_pos empty]
      · rw [if_neg empty]
        simp only
        rw [first, inductionHypothesis others restShort]

theorem gather_agree {decode other : UInt8 → Bytes → Outcome Value}
    {fields : List RawField} {result : Document}
    (each : ∀ field ∈ fields,
      nameOf later field.fieldID = nameOf dict field.fieldID ∧
        other field.valType.toByte field.valBytes =
          decode field.valType.toByte field.valBytes) :
    gather later other fields result = gather dict decode fields result := by
  induction fields generalizing result with
  | nil => rfl
  | cons field rest inductionHypothesis =>
      obtain ⟨⟨sameName, sameValue⟩, others⟩ := List.forall_mem_cons.mp each
      rw [gather, gather, sameName, sameValue]
      split
      · exact inductionHypothesis others
      · exact inductionHypothesis others

theorem decodeValue_agree {value : Value} (valid : Valid value)
    (numbered : Numbered dict value)
    (agree : ∀ name ∈ names value,
      later.getName (dict.idOf name) = dict.getName (dict.idOf name))
    (short : (written dict value).2.length < 2 ^ 32) {budget : Nat}
    (enough : height value ≤ budget) :
    decodeValue later budget (written dict value).1.toByte
        (written dict value).2 =
      decodeValue dict budget (written dict value).1.toByte
        (written dict value).2 := by
  induction value using Value.nested generalizing budget with
  | unsupported typeName => exact absurd valid (by simp [Valid])
  | scalar value =>
      obtain ⟨budget, rfl⟩ : ∃ less, budget = less + 1 :=
        ⟨budget - 1, by rw [height] at enough; omega⟩
      rw [written, decode_scalar, decode_scalar]
  | array items inductionHypothesis =>
      rw [height] at enough
      obtain ⟨budget, rfl⟩ : ∃ less, budget = less + 1 :=
        ⟨budget - 1, by omega⟩
      rw [Valid, validItems_iff] at valid
      have shape : written dict (.array items) =
          (.array, be 4 items.length ++ writtenItems dict items) := by
        rw [written]
      rw [shape] at short ⊢
      rw [List.length_append, be_length] at short
      have counted := items_length_le dict items
      have framed : readUint32
          (be 4 items.length ++ writtenItems dict items) =
            .ok (items.length, writtenItems dict items) :=
        readUint32_be _ (by omega)
      rw [decodeValue_framed framed, decodeValue_framed framed,
        readItems_agree _ (show (writtenItems dict items).length < 2 ^ 32 by
          omega)]
      intro item member
      have deepest := height_le_itemsHeight member
      have inside := @item_short dict items item member
      have itemNames : ∀ name ∈ names item, name ∈ names (.array items) := by
        intro name found
        rw [names, mem_namesOfItems]
        exact ⟨item, member, found⟩
      exact inductionHypothesis item member (valid item member)
        (numbered.item member)
        (fun name found => agree name (itemNames name found)) (by omega)
        (by omega)
  | object fields inductionHypothesis =>
      rw [height] at enough
      obtain ⟨budget, rfl⟩ : ∃ less, budget = less + 1 :=
        ⟨budget - 1, by omega⟩
      have fieldNames : ∀ field ∈ fields, ∀ name,
          name = field.1 ∨ name ∈ names field.2 →
            name ∈ names (.object fields) := by
        intro field member name found
        rw [names, mem_namesOfFields]
        exact ⟨field, member, found⟩
      have fieldsValid := valid
      rw [Valid, validFields_iff] at fieldsValid
      have fieldShort : ∀ field ∈ fields,
          (written dict field.2).2.length < 2 ^ 32 := by
        intro field member
        have whole := short
        rw [written] at whole
        exact field_short member whole
      have fieldNumbered : ∀ field ∈ fields, Numbered dict field.2 :=
        fun field member => numbered.field member
      have deep : ∀ field ∈ fields, height field.2 ≤ budget := by
        intro field member
        have deepest := height_le_fieldsHeight member
        omega
      have returns : ∀ field ∈ fields, (decodeValue dict budget
          (written dict field.2).1.toByte (written dict field.2).2).Returns :=
        fun field member => (decode_written (fieldsValid.2.2 field member)
          (fieldNumbered field member) (fieldShort field member)
          (deep field member)).1
      have same : ∀ field ∈ fields, _ := fun field member =>
        inductionHypothesis field member (fieldsValid.2.2 field member)
          (fieldNumbered field member)
          (fun name found =>
            agree name (fieldNames field member name (.inr found)))
          (fieldShort field member) (deep field member)
      rw [decode_fields valid short returns,
        decode_fields valid short fun field member => by
          rw [same field member]
          exact returns field member,
        gather_agree]
      intro raw member
      obtain ⟨field, inFields, rfl⟩ :=
        List.mem_map.mp ((sortFields_perm _).mem_iff.mp member)
      refine ⟨?_, same field inFields⟩
      show nameOf later (dict.idOf field.1) = nameOf dict (dict.idOf field.1)
      unfold nameOf
      rw [agree field.1 (fieldNames field inFields _ (.inl rfl))]

theorem written_agree {value : Value}
    (agree : ∀ name ∈ names value, later.idOf name = dict.idOf name) :
    written later value = written dict value := by
  induction value using Value.nested with
  | unsupported typeName => rw [written, written]
  | scalar value => rw [written, written]
  | array items inductionHypothesis =>
      rw [names] at agree
      have body : writtenItems later items = writtenItems dict items := by
        induction items with
        | nil => rfl
        | cons item rest shorter =>
            obtain ⟨first, others⟩ :=
              List.forall_mem_cons.mp inductionHypothesis
            simp only [namesOfItems, List.mem_append] at agree
            rw [writtenItems, writtenItems,
              first fun name found => agree name (.inl found),
              shorter others fun name found => agree name (.inr found)]
      rw [written, written, body]
  | object fields inductionHypothesis =>
      rw [names] at agree
      have body : writtenFields later fields = writtenFields dict fields := by
        rw [writtenFields_eq_map, writtenFields_eq_map]
        apply List.map_congr_left
        intro field member
        unfold rawFieldOf
        rw [agree field.1 (mem_namesOfFields.mpr ⟨field, member, .inl rfl⟩),
          inductionHypothesis field member fun name found =>
            agree name (mem_namesOfFields.mpr ⟨field, member, .inr found⟩)]
      rw [written, written, body]

end Agreement

theorem height_le_length (dict : FieldDictionary) (value : Value) :
    height value ≤ (written dict value).2.length + 1 := by
  induction value using Value.nested with
  | unsupported typeName =>
      rw [height]
      omega
  | scalar value =>
      rw [height]
      omega
  | array items inductionHypothesis =>
      have body : itemsHeight items ≤ (writtenItems dict items).length := by
        induction items with
        | nil => exact Nat.le_refl _
        | cons item rest shorter =>
            obtain ⟨first, others⟩ :=
              List.forall_mem_cons.mp inductionHypothesis
            have later := shorter others
            rw [itemsHeight, writtenItems]
            simp only [List.length_append, be_length, List.length_cons,
              List.length_nil]
            omega
      rw [height, written, List.length_append, be_length]
      omega
  | object fields inductionHypothesis =>
      have body : fieldsHeight fields ≤
          (writtenFields dict fields).length * fieldEntrySize +
            payloadLength (writtenFields dict fields) := by
        induction fields with
        | nil => exact Nat.le_refl _
        | cons field rest shorter =>
            obtain ⟨name, value⟩ := field
            obtain ⟨first, others⟩ :=
              List.forall_mem_cons.mp inductionHypothesis
            have later := shorter others
            have here : height value ≤ (written dict value).2.length + 1 :=
              first
            rw [fieldsHeight, writtenFields, payloadLength_cons]
            simp only [List.length_cons, fieldEntrySize] at later ⊢
            omega
      rw [height, written, assemble_length, (sortFields_perm _).length_eq,
        payloadLength_perm (sortFields_perm _)]
      omega

/-! ## Stored documents -/

/-- `Get` on a stored document.  The budget covers every value the bytes can
hold, see `height_le_length`. -/
def fieldValue (dict : FieldDictionary) (payload field : Bytes) :
    Option Value :=
  match DocumentView.get ⟨payload, dict, fieldCountOf payload⟩
      (payload.length + 1) field with
  | .ok found => found
  | _ => none

structure Encoded (dict : FieldDictionary) (payload : Bytes)
    (doc : Document) : Prop where
  valid : Valid (.object doc)
  known : ∀ name ∈ names (.object doc),
    ∃ fieldID, dict.getID name = some fieldID
  written_eq : payload = (written dict (.object doc)).2
  short : payload.length < 2 ^ 32

theorem encoded_of_encode {doc : Document} {dict grown : FieldDictionary}
    {payload : Bytes} (valid : Valid (.object doc))
    (encoded : encode doc dict = (.ok payload, grown))
    (short : payload.length < 2 ^ 32) : Encoded grown payload doc := by
  rw [encode_written valid.supported dict] at encoded
  cases encoded
  refine ⟨valid, fun name member => ?_, rfl, short⟩
  rw [names] at member
  exact FieldDictionary.known_assignAll member dict

section Stored

variable {dict later : FieldDictionary} {payload : Bytes} {doc : Document}

theorem Encoded.numbered (encoded : Encoded dict payload doc)
    (wellFormed : dict.WellFormed) : Numbered dict (.object doc) := by
  refine ⟨fun name fieldID listed =>
    (wellFormed.inverse name fieldID).mpr listed, fun name member => ?_⟩
  obtain ⟨fieldID, known⟩ := encoded.known name member
  unfold FieldDictionary.idOf
  rw [known]
  exact ⟨name, (wellFormed.inverse name fieldID).mp known⟩

theorem Encoded.idOf_eq (encoded : Encoded dict payload doc)
    (grows : dict.Extends later) {name : Bytes}
    (member : name ∈ names (.object doc)) :
    later.idOf name = dict.idOf name := by
  obtain ⟨fieldID, known⟩ := encoded.known name member
  unfold FieldDictionary.idOf
  rw [known, grows name fieldID known]

theorem Encoded.grow (encoded : Encoded dict payload doc)
    (grows : dict.Extends later) : Encoded later payload doc := by
  refine ⟨encoded.valid, fun name member => ?_, ?_, encoded.short⟩
  · obtain ⟨fieldID, known⟩ := encoded.known name member
    exact ⟨fieldID, grows name fieldID known⟩
  · rw [encoded.written_eq, written_agree fun name member =>
      encoded.idOf_eq grows member]

theorem Encoded.entry (encoded : Encoded dict payload doc) :
    WellHeaded payload ∧ ∀ index, index < fieldCountOf payload →
      ∃ field ∈ doc, fieldIDAt payload index = dict.idOf field.1 ∧
        (entryAt payload index).valType =
          (written dict field.2).1.toByte ∧
        (entryAt payload index).Passes payload ∧
        ¬(entryAt payload index).Wraps ∧
        (entryAt payload index).content payload =
          (written dict field.2).2 := by
  have valid := encoded.valid
  have short := encoded.short
  rw [Valid] at valid
  have shape : (written dict (.object doc)).2 =
      assemble (doc.map (rawFieldOf dict)) := by
    rw [written, writtenFields_eq_map]
  rw [encoded.written_eq, shape] at short ⊢
  have perm := sortFields_perm (doc.map (rawFieldOf dict))
  have layout := assemble_short short
  rw [layout] at short ⊢
  generalize sortFields (doc.map (rawFieldOf dict)) = sorted at *
  have few : sorted.length ≤ 65535 := by
    rw [perm.length_eq, List.length_map]
    exact valid.2.1
  obtain ⟨headed, counted⟩ := objectBytes_headed few
  refine ⟨headed, fun index before => ?_⟩
  rw [counted] at before
  obtain ⟨number, typed, passes, flat, content⟩ := objectBytes_at short before
  obtain ⟨field, member, same⟩ :=
    List.mem_map.mp (perm.mem_iff.mp (List.getElem_mem before))
  rw [← same] at number typed content
  exact ⟨field, member, number, typed, passes, flat, content⟩

theorem searchField_dict (data : Bytes) (count : Nat) (fieldID : UInt32)
    (left stop : Nat) :
    DocumentView.searchField ⟨data, later, count⟩ fieldID left stop =
      DocumentView.searchField ⟨data, dict, count⟩ fieldID left stop := by
  induction distance : stop - left using Nat.strong_induction_on
    generalizing left stop with
  | _ distance inductionHypothesis =>
      rw [DocumentView.searchField, DocumentView.searchField]
      by_cases nonempty : left < stop
      · rw [if_pos nonempty, if_pos nonempty]
        simp only
        rw [inductionHypothesis _ (by omega) _ _ rfl,
          inductionHypothesis _ (by omega) left _ rfl]
      · rw [if_neg nonempty, if_neg nonempty]

theorem Encoded.getFieldLoc_eq (encoded : Encoded dict payload doc)
    (grows : dict.Extends later)
    (laterWellFormed : later.WellFormed) (field : Bytes) :
    DocumentView.getFieldLoc ⟨payload, later, fieldCountOf payload⟩ field =
      DocumentView.getFieldLoc ⟨payload, dict, fieldCountOf payload⟩
        field := by
  cases found : dict.getID field with
  | some fieldID =>
      unfold DocumentView.getFieldLoc
      simp only
      rw [found, grows field fieldID found]
      exact searchField_dict _ _ _ _ _
  | none =>
      obtain ⟨headed, entry⟩ := encoded.entry
      obtain ⟨result, located, listed⟩ :=
        @getFieldLoc_ok payload later headed field
      have missing : DocumentView.getFieldLoc
          ⟨payload, dict, fieldCountOf payload⟩ field = .ok none := by
        unfold DocumentView.getFieldLoc
        simp only
        rw [found]
      rw [located, missing]
      cases result with
      | none => rfl
      | some loc =>
          -- the number of an unknown name is not in the directory
          obtain ⟨index, before, _, numbered⟩ := listed loc rfl
          obtain ⟨other, member, sameID, _⟩ := entry index before
          have otherName : other.1 ∈ names (.object doc) := by
            rw [names, mem_namesOfFields]
            exact ⟨other, member, .inl rfl⟩
          obtain ⟨otherID, known⟩ := encoded.known other.1 otherName
          have number : dict.idOf other.1 = otherID := by
            unfold FieldDictionary.idOf
            rw [known]
            rfl
          rw [sameID, number] at numbered
          have first := (laterWellFormed.inverse _ _).mp numbered
          have second := (laterWellFormed.inverse _ _).mp
            (grows other.1 otherID known)
          have same : field = other.1 :=
            Option.some.inj (first.symm.trans second)
          rw [same, known] at found
          cases found

theorem Encoded.fieldValue_eq (encoded : Encoded dict payload doc)
    (wellFormed : dict.WellFormed) (grows : dict.Extends later)
    (laterWellFormed : later.WellFormed) (field : Bytes) :
    fieldValue later payload field = fieldValue dict payload field := by
  unfold fieldValue DocumentView.get
  rw [encoded.getFieldLoc_eq grows laterWellFormed]
  obtain ⟨headed, entry⟩ := encoded.entry
  obtain ⟨result, located, listed⟩ := @getFieldLoc_ok payload dict headed field
  rw [located]
  cases result with
  | none => rfl
  | some loc =>
      obtain ⟨index, before, rfl, _⟩ := listed loc rfl
      obtain ⟨origin, member, _, typed, passes, flat, content⟩ :=
        entry index before
      have fieldNames : ∀ name ∈ names origin.2,
          name ∈ names (.object doc) := by
        intro name found
        rw [names, mem_namesOfFields]
        exact ⟨origin, member, .inr found⟩
      have valid := encoded.valid
      rw [Valid, validFields_iff] at valid
      have numbered := encoded.numbered wellFormed
      have inside := FieldLocation.content_length passes flat
      have bounded := FieldLocation.within passes flat
      have length : (written dict origin.2).2.length ≤ payload.length := by
        rw [← content, inside]
        omega
      have shallow := height_le_length dict origin.2
      have payloadShort := encoded.short
      have same := @decodeValue_agree dict later origin.2
        (valid.2.2 origin member) (numbered.field member)
        (fun name found => by
          obtain ⟨fieldID, known⟩ := encoded.known name
            (fieldNames name found)
          unfold FieldDictionary.idOf
          rw [known, Option.getD_some,
            (wellFormed.inverse name fieldID).mp known,
            (laterWellFormed.inverse name fieldID).mp
              (grows name fieldID known)])
        (by omega) (payload.length + 1) (by omega)
      rw [← typed, ← content] at same
      simp only [Outcome.ok_bind]
      rw [slice_flat passes flat]
      simp only [Outcome.ok_bind]
      rw [same]
      rfl

end Stored

end CocoDB.Cson
