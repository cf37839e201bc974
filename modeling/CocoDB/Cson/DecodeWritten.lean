import CocoDB.Cson.DecodeSafety
import CocoDB.Cson.Document
import CocoDB.Cson.Layout

/-!
# Decoding what was written

A scalar comes back widened.  An array comes back when its elements do and it
does not end with one that takes no bytes: the reader reports its end instead.
An object comes back when its fields do and their numbers lead back to their
names.
-/

namespace CocoDB.Cson

open CocoDB.Lib

/-! ## Equality up to widening -/

def widen : Scalar → Scalar
  | .int value => .int64 value
  | .int32 value => .int64 value.toInt64
  | .uint value => .uint64 value
  | .uint32 value => .uint64 value.toUInt64
  | .float32 bits => .float64 (float64OfFloat32 bits)
  | .time unixNano _ => .time unixNano utc
  | value => value

mutual

/-- The second value is the first one, widened; maps are compared key by
key. -/
def widensTo : Value → Value → Bool
  | .scalar value, .scalar other => widen value = other
  | .array items, .array others => itemsWidenTo items others
  | .object fields, .object others =>
      fields.length = others.length && fieldsWidenTo fields others
  | _, _ => false

def itemsWidenTo : List Value → List Value → Bool
  | [], [] => true
  | item :: rest, other :: others =>
      widensTo item other && itemsWidenTo rest others
  | _, _ => false

def fieldsWidenTo :
    List (Bytes × Value) → List (Bytes × Value) → Bool
  | [], _ => true
  | (name, value) :: rest, others =>
      others.any (fun other => name = other.1 && widensTo value other.2) &&
        fieldsWidenTo rest others

end

theorem fieldsWidenTo_iff {fields others : List (Bytes × Value)} :
    fieldsWidenTo fields others = true ↔ ∀ field ∈ fields,
      ∃ other ∈ others, field.1 = other.1 ∧
        widensTo field.2 other.2 = true := by
  induction fields with
  | nil => simp [fieldsWidenTo]
  | cons field rest inductionHypothesis =>
      rw [fieldsWidenTo, Bool.and_eq_true, inductionHypothesis,
        List.forall_mem_cons]
      simp

/-! ## The condition -/

def blank : Value → Bool
  | .scalar .null => true
  | .scalar (.string text) => text.isEmpty
  | .scalar (.bytes data) => data.isEmpty
  | .scalar (.vector floats) => floats.isEmpty
  | _ => false

def LastFilled (items : List Value) : Prop :=
  ∀ last, items.getLast? = some last → blank last = false

mutual

def EndsFilled : Value → Prop
  | .scalar _ => True
  | .unsupported _ => True
  | .array items => LastFilled items ∧ ItemsEndFilled items
  | .object fields => FieldsEndFilled fields

def ItemsEndFilled : List Value → Prop
  | [] => True
  | item :: rest => EndsFilled item ∧ ItemsEndFilled rest

def FieldsEndFilled : List (Bytes × Value) → Prop
  | [] => True
  | (_, value) :: rest => EndsFilled value ∧ FieldsEndFilled rest

end

theorem itemsEndFilled_iff {items : List Value} :
    ItemsEndFilled items ↔ ∀ item ∈ items, EndsFilled item := by
  induction items with
  | nil => simp [ItemsEndFilled]
  | cons item rest inductionHypothesis =>
      simp [ItemsEndFilled, inductionHypothesis]

theorem fieldsEndFilled_iff {fields : List (Bytes × Value)} :
    FieldsEndFilled fields ↔ ∀ field ∈ fields, EndsFilled field.2 := by
  induction fields with
  | nil => simp [FieldsEndFilled]
  | cons field rest inductionHypothesis =>
      rw [FieldsEndFilled, List.forall_mem_cons, inductionHypothesis]

mutual

def height : Value → Nat
  | .scalar _ => 1
  | .unsupported _ => 1
  | .array items => itemsHeight items + 1
  | .object fields => fieldsHeight fields + 1

def itemsHeight : List Value → Nat
  | [] => 0
  | item :: rest => max (height item) (itemsHeight rest)

def fieldsHeight : List (Bytes × Value) → Nat
  | [] => 0
  | (_, value) :: rest => max (height value) (fieldsHeight rest)

end

theorem height_le_itemsHeight {items : List Value} {item : Value}
    (member : item ∈ items) : height item ≤ itemsHeight items := by
  induction items with
  | nil => cases member
  | cons first rest inductionHypothesis =>
      rw [itemsHeight]
      rcases List.mem_cons.mp member with rfl | later
      · exact Nat.le_max_left _ _
      · exact Nat.le_trans (inductionHypothesis later) (Nat.le_max_right _ _)

theorem height_le_fieldsHeight {fields : List (Bytes × Value)}
    {field : Bytes × Value} (member : field ∈ fields) :
    height field.2 ≤ fieldsHeight fields := by
  induction fields with
  | nil => cases member
  | cons first rest inductionHypothesis =>
      rw [fieldsHeight]
      rcases List.mem_cons.mp member with rfl | later
      · exact Nat.le_max_left _ _
      · exact Nat.le_trans (inductionHypothesis later) (Nat.le_max_right _ _)

/-! ## Scalars -/

theorem decodeWord_be (value : UInt64) :
    decodeWord (be 8 value.toNat) = .ok value := by
  unfold decodeWord
  rw [if_neg (by rw [be_length]; omega),
    List.take_of_length_le (by rw [be_length]), ofBE_be64]

theorem readFloats_be {floats : List UInt32} :
    ∀ {earlier : Bytes} {index : Nat}, earlier.length = index * 4 →
      readFloats (earlier ++ floats.flatMap fun bits => be 4 bits.toNat)
        (fun index => index * 4) index floats.length = .ok floats := by
  induction floats with
  | nil =>
      intro earlier index _
      rfl
  | cons bits rest inductionHypothesis =>
      intro earlier index position
      rw [List.flatMap_cons, List.length_cons, readFloats]
      have inside : (index + 1) * 4 ≤ (earlier ++ (be 4 bits.toNat ++
          rest.flatMap fun bits => be 4 bits.toNat)).length := by
        simp only [List.length_append, be_length]
        omega
      have width : (index + 1) * 4 - index * 4 = 4 := by omega
      rw [slice_ok (by omega) inside, width, List.drop_left' position,
        List.take_left' (be_length 4 _), ← List.append_assoc,
        inductionHypothesis (by
          rw [List.length_append, be_length]
          omega)]
      simp only [Outcome.ok_bind, Outcome.pure_eq, ofBE_be32]

theorem vector_length (floats : List UInt32) :
    (floats.flatMap fun bits => be 4 bits.toNat).length =
      floats.length * 4 := by
  induction floats with
  | nil => rfl
  | cons bits rest inductionHypothesis =>
      rw [List.flatMap_cons, List.length_append, be_length,
        inductionHypothesis, List.length_cons]
      omega

theorem decode_number (wrap : UInt64 → Value) (word : UInt64) :
    (do return wrap (← decodeWord (be 8 word.toNat)) : Outcome Value) =
      .ok (wrap word) := by
  rw [decodeWord_be]
  rfl

theorem decode_scalar (dict : FieldDictionary) (budget : Nat)
    (value : Scalar) :
    decodeValue dict (budget + 1) (encodeScalar value).1.toByte
      (encodeScalar value).2 = .ok (.scalar (widen value)) := by
  cases value with
  | null => rfl
  | bool value => cases value <;> rfl
  | int value =>
      exact decode_number (fun word => .scalar (.int64 word.toInt64)) _
  | int64 value =>
      exact decode_number (fun word => .scalar (.int64 word.toInt64)) _
  | int32 value =>
      exact decode_number (fun word => .scalar (.int64 word.toInt64)) _
  | uint value => exact decode_number (fun word => .scalar (.uint64 word)) _
  | uint64 value => exact decode_number (fun word => .scalar (.uint64 word)) _
  | uint32 value => exact decode_number (fun word => .scalar (.uint64 word)) _
  | float64 bits => exact decode_number (fun word => .scalar (.float64 word)) _
  | float32 bits => exact decode_number (fun word => .scalar (.float64 word)) _
  | string text => rfl
  | bytes data => rfl
  | time unixNano location =>
      exact decode_number (fun word => .scalar (.time word.toInt64 utc)) _
  | vector floats =>
      have read := @readFloats_be floats [] 0 rfl
      have count := vector_length floats
      rw [List.nil_append] at read
      show (do return Value.scalar (.vector (← readFloats
        (floats.flatMap fun bits => be 4 bits.toNat) (fun index => index * 4)
          0 ((floats.flatMap fun bits => be 4 bits.toNat).length / 4))) :
        Outcome Value) = _
      rw [count, Nat.mul_div_cancel _ (by omega), read]
      rfl

/-! ## Sizes -/

theorem copyInto_length (target : Bytes) (offset : Nat) (source : Bytes) :
    (copyInto target offset source).length = target.length := by
  unfold copyInto
  simp only [List.length_append, List.length_take, List.length_drop]
  omega

theorem writeFields_length (fields : List RawField) (index : Nat)
    (currOffset : UInt32) (result : Bytes) :
    (writeFields index currOffset fields result).length = result.length := by
  induction fields generalizing index currOffset result with
  | nil => rfl
  | cons field rest inductionHypothesis =>
      rw [writeFields, inductionHypothesis, copyInto_length, copyInto_length]

theorem assemble_length (rawFields : List RawField) :
    (assemble rawFields).length =
      8 + (sortFields rawFields).length * fieldEntrySize +
        payloadLength (sortFields rawFields) := by
  unfold assemble
  rw [writeFields_length, copyInto_length, List.length_replicate]
  rfl

theorem assemble_short {rawFields : List RawField}
    (short : (assemble rawFields).length < 2 ^ 32) :
    assemble rawFields = objectBytes (sortFields rawFields) := by
  rw [assemble_length] at short
  exact assemble_eq short

theorem sortFields_perm (rawFields : List RawField) :
    (sortFields rawFields).Perm rawFields :=
  List.perm_insertionSort byFieldID rawFields

theorem length_le_payloadLength {fields : List RawField} {field : RawField}
    (member : field ∈ fields) :
    field.valBytes.length ≤ payloadLength fields := by
  induction fields with
  | nil => cases member
  | cons first rest inductionHypothesis =>
      rw [payloadLength_cons]
      rcases List.mem_cons.mp member with rfl | later
      · omega
      · have bound := inductionHypothesis later
        omega

theorem field_short {dict : FieldDictionary}
    {fields : List (Bytes × Value)} {field : Bytes × Value}
    (member : field ∈ fields)
    (short : (assemble (writtenFields dict fields)).length < 2 ^ 32) :
    (written dict field.2).2.length < 2 ^ 32 := by
  rw [assemble_length] at short
  have listed : rawFieldOf dict field ∈
      sortFields (writtenFields dict fields) := by
    rw [(sortFields_perm _).mem_iff, writtenFields_eq_map]
    exact List.mem_map_of_mem member
  have bound := length_le_payloadLength listed
  exact Nat.lt_of_le_of_lt bound (by omega)

theorem item_short {dict : FieldDictionary} {items : List Value}
    {item : Value} (member : item ∈ items) :
    (written dict item).2.length ≤ (writtenItems dict items).length := by
  induction items with
  | nil => cases member
  | cons first rest inductionHypothesis =>
      rw [writtenItems]
      simp only [List.length_append]
      rcases List.mem_cons.mp member with rfl | later
      · omega
      · have bound := inductionHypothesis later
        omega

theorem items_length_le (dict : FieldDictionary) (items : List Value) :
    items.length ≤ (writtenItems dict items).length := by
  induction items with
  | nil => exact Nat.le_refl _
  | cons first rest inductionHypothesis =>
      rw [writtenItems]
      simp only [List.length_append, List.length_cons, List.length_nil]
      omega

theorem written_nil_iff {dict : FieldDictionary} {value : Value}
    (supported : Supported value) :
    (written dict value).2 = [] ↔ blank value = true := by
  have word : ∀ number, be 8 number ≠ [] := by
    intro number empty
    have length := be_length 8 number
    rw [empty] at length
    cases length
  cases value with
  | scalar value =>
      rw [written]
      cases value with
      | bool value => cases value <;> simp [encodeScalar, blank]
      | vector floats =>
          cases floats with
          | nil => simp [encodeScalar, blank]
          | cons bits rest =>
              simp only [encodeScalar, blank, List.isEmpty_cons,
                Bool.false_eq_true, iff_false]
              intro empty
              have length := vector_length (bits :: rest)
              rw [empty, List.length_cons, List.length_nil] at length
              omega
      | _ => simp [encodeScalar, blank, word]
  | unsupported typeName => exact absurd supported (by simp [Supported])
  | array items =>
      simp only [written, blank, Bool.false_eq_true, iff_false]
      intro empty
      have length := congrArg List.length empty
      rw [List.length_append, be_length, List.length_nil] at length
      omega
  | object fields =>
      simp only [written, blank, Bool.false_eq_true, iff_false]
      intro empty
      have length := congrArg List.length empty
      rw [assemble_length, List.length_nil] at length
      omega

section Decoding

variable {dict : FieldDictionary} {budget : Nat}

def Recovers (dict : FieldDictionary) (budget : Nat) (value : Value) : Prop :=
  ∃ other, decodeValue dict budget (written dict value).1.toByte
      (written dict value).2 = .ok other ∧ widensTo value other = true

theorem readUint32_be {word : Nat} (rest : Bytes) (small : word < 2 ^ 32) :
    readUint32 (be 4 word ++ rest) = .ok (word, rest) := by
  have length := be_length 4 word
  have fits : word % 256 ^ 4 = word := Nat.mod_eq_of_lt small
  unfold readUint32
  rw [if_neg, if_neg, List.take_left' length, List.drop_left' length,
    ofBE_be, fits]
  · rw [List.length_append, length]
    omega
  · intro empty
    have total := congrArg List.length empty
    rw [List.length_append, length, List.length_nil] at total
    omega

theorem readItem_written {tag : UInt8} {bytes : Bytes} (rest : Bytes)
    (small : bytes.length < 2 ^ 32) :
    readItem ([tag] ++ be 4 bytes.length ++ bytes ++ rest) =
      if bytes ++ rest = [] then .error .eof else .ok (tag, bytes, rest) := by
  have framed := readUint32_be (bytes ++ rest) small
  have whole : [tag] ++ be 4 bytes.length ++ bytes ++ rest =
      tag :: (be 4 bytes.length ++ (bytes ++ rest)) := by
    simp only [List.append_assoc, List.cons_append, List.nil_append]
  rw [whole, readItem, framed]
  simp only
  split
  · rfl
  · rw [List.take_left' rfl, List.drop_left' rfl, List.length_append,
      Nat.sub_eq_zero_of_le (Nat.le_add_right _ _), List.replicate_zero,
      List.append_nil]

theorem lastFilled_cons {item : Value} {rest : List Value} :
    LastFilled (item :: rest) ↔
      (rest = [] → blank item = false) ∧ LastFilled rest := by
  unfold LastFilled
  cases rest with
  | nil => simp
  | cons second others => simp [List.getLast?_cons_cons]

/-- An array comes back when it does not end in an empty element and each of
its elements comes back. -/
theorem readItems_written {items : List Value}
    (each : ∀ item ∈ items, Supported item ∧
      (decodeValue dict budget (written dict item).1.toByte
        (written dict item).2).Returns)
    (short : (writtenItems dict items).length < 2 ^ 32) :
    (readItems (decodeValue dict budget) items.length
        (writtenItems dict items)).Returns ∧
      ((∃ others, readItems (decodeValue dict budget) items.length
          (writtenItems dict items) = .ok others ∧
            itemsWidenTo items others = true) ↔
        LastFilled items ∧ ∀ item ∈ items, Recovers dict budget item) := by
  induction items with
  | nil =>
      refine ⟨trivial, fun _ => ⟨?_, ?_⟩, fun _ => ⟨[], rfl, rfl⟩⟩
      · intro last missing
        cases missing
      · intro item member
        cases member
  | cons item rest inductionHypothesis =>
      obtain ⟨⟨supported, returns⟩, others⟩ := List.forall_mem_cons.mp each
      have itemShort := @item_short dict (item :: rest) item
        List.mem_cons_self
      have restShort : (writtenItems dict rest).length < 2 ^ 32 := by
        rw [writtenItems] at short
        simp only [List.length_append] at short
        omega
      obtain ⟨restReturns, restRecovers⟩ :=
        inductionHypothesis others restShort
      rw [lastFilled_cons, List.forall_mem_cons, List.length_cons, readItems,
        writtenItems, readItem_written _ (by omega)]
      by_cases empty : (written dict item).2 ++ writtenItems dict rest = []
      · -- the decoder reports the end of the array instead of the element
        rw [if_pos empty]
        obtain ⟨itemEmpty, restEmpty⟩ := List.append_eq_nil_iff.mp empty
        have isBlank := (written_nil_iff supported).mp itemEmpty
        have noRest : rest = [] := by
          have bound := items_length_le dict rest
          rw [restEmpty, List.length_nil, Nat.le_zero] at bound
          exact List.eq_nil_of_length_eq_zero bound
        refine ⟨trivial, ?_⟩
        simp [noRest, isBlank]
      · rw [if_neg empty]
        have filled : rest = [] → blank item = false := by
          intro noRest
          subst noRest
          by_contra isBlank
          rw [Bool.not_eq_false] at isBlank
          apply empty
          rw [(written_nil_iff supported).mpr isBlank]
          rfl
        simp only
        cases decoded : decodeValue dict budget
            (written dict item).1.toByte (written dict item).2 with
        | panic => simp [decoded] at returns
        | exhausted => simp [decoded] at returns
        | error cause =>
            have lost : ¬Recovers dict budget item := by
              rintro ⟨other, found, _⟩
              rw [decoded] at found
              cases found
            simp [lost]
        | ok value =>
            have recovers : Recovers dict budget item ↔
                widensTo item value = true := by
              unfold Recovers
              rw [decoded]
              simp
            refine ⟨(Outcome.returns_map _).mpr restReturns, ?_⟩
            rw [recovers]
            constructor
            · rintro ⟨values, read, same⟩
              cases later : readItems (decodeValue dict budget) rest.length
                  (writtenItems dict rest) with
              | ok found =>
                  rw [later] at read
                  cases read
                  rw [itemsWidenTo, Bool.and_eq_true] at same
                  obtain ⟨last, all⟩ := restRecovers.mp
                    ⟨found, later, same.2⟩
                  exact ⟨⟨filled, last⟩, same.1, all⟩
              | error cause => simp [later] at read
              | panic => simp [later] at read
              | exhausted => simp [later] at read
            · rintro ⟨⟨_, last⟩, same, all⟩
              obtain ⟨found, later, sameRest⟩ :=
                restRecovers.mpr ⟨last, all⟩
              refine ⟨value :: found, ?_, ?_⟩
              · rw [later]
                rfl
              · rw [itemsWidenTo, same, sameRest]
                rfl

theorem decode_array {items : List Value} (valid : Valid (.array items))
    (each : ∀ item ∈ items, (decodeValue dict budget
      (written dict item).1.toByte (written dict item).2).Returns)
    (short : (written dict (.array items)).2.length < 2 ^ 32) :
    (decodeValue dict (budget + 1) (written dict (.array items)).1.toByte
        (written dict (.array items)).2).Returns ∧
      (Recovers dict (budget + 1) (.array items) ↔
        LastFilled items ∧ ∀ item ∈ items, Recovers dict budget item) := by
  rw [Valid, validItems_iff] at valid
  have shape : written dict (.array items) =
      (.array, be 4 items.length ++ writtenItems dict items) := by
    rw [written]
  unfold Recovers
  rw [shape] at short ⊢
  rw [List.length_append, be_length] at short
  have counted := items_length_le dict items
  have framed : readUint32 (be 4 items.length ++ writtenItems dict items) =
      .ok (items.length, writtenItems dict items) :=
    readUint32_be _ (by omega)
  obtain ⟨returns, recovers⟩ := readItems_written
    (fun item member => ⟨(valid item member).supported, each item member⟩)
    (show (writtenItems dict items).length < 2 ^ 32 by omega)
  rw [decodeValue_framed framed]
  refine ⟨(Outcome.returns_map Value.array).mpr returns, ?_⟩
  refine Iff.trans ?_ recovers
  cases read : readItems (decodeValue dict budget) items.length
      (writtenItems dict items) with
  | ok others =>
      constructor
      · rintro ⟨other, same, widened⟩
        cases same
        rw [widensTo] at widened
        exact ⟨others, rfl, widened⟩
      · rintro ⟨other, same, widened⟩
        cases same
        refine ⟨.array others, rfl, ?_⟩
        rw [widensTo]
        exact widened
  | error cause => simp
  | panic => simp
  | exhausted => simp

/-! ## Objects -/

def nameOf (dict : FieldDictionary) (fieldID : UInt32) : Bytes :=
  (dict.getName fieldID).getD (placeholder fieldID)

/-- The map `ToMap` collects from a list of fields. -/
def gather (dict : FieldDictionary)
    (decode : UInt8 → Bytes → Outcome Value) :
    List RawField → Document → Document
  | [], result => result
  | field :: rest, result =>
      match decode field.valType.toByte field.valBytes with
      | .ok value =>
          gather dict decode rest
            (setField result (nameOf dict field.fieldID) value)
      | _ => gather dict decode rest result

theorem toMapFrom_gather {decode : UInt8 → Bytes → Outcome Value}
    {before after : List RawField} {result : Document}
    (each : ∀ field ∈ after,
      (decode field.valType.toByte field.valBytes).Returns)
    (few : (before ++ after).length ≤ 65535)
    (short : (objectBytes (before ++ after)).length < 2 ^ 32) :
    toMapFrom decode ⟨objectBytes (before ++ after), dict,
        (before ++ after).length⟩ before.length after.length result =
      .ok (gather dict decode after result) := by
  induction after generalizing before result with
  | nil => rfl
  | cons field rest inductionHypothesis =>
      obtain ⟨first, others⟩ := List.forall_mem_cons.mp each
      have typed := (entryAt_object short).1
      have numbered := @fieldIDAt_object before rest field
      have passes := entryAt_object_passes short
      have flat := entryAt_object_flat short
      have content := entryAt_object_content short
      have directory := (objectBytes_headed few).1.2.2
      rw [(objectBytes_headed few).2] at directory
      have bound : 8 + (before.length + rest.length + 1) * fieldEntrySize ≤
          (objectBytes (before ++ field :: rest)).length := by
        rw [List.length_append, List.length_cons, ← Nat.add_assoc] at directory
        exact directory
      have position : (before ++ [field]).length = before.length + 1 := by
        simp
      have next := @inductionHypothesis (before ++ [field])
      rw [List.append_assoc, List.singleton_append, position] at next
      have shorter := fun result => @next result others few short
      -- only the facts about its entry are needed of the data from here on
      generalize objectBytes (before ++ field :: rest) = data at *
      generalize (before ++ field :: rest).length = count at *
      rw [List.length_cons, @toMapFrom_flat decode ⟨data, dict, count⟩ _ _ _
        bound passes flat]
      simp only
      rw [typed, content, numbered, gather]
      cases decoded : decode field.valType.toByte field.valBytes with
      | ok value => exact shorter _
      | error cause => exact shorter _
      | panic => simp [decoded] at first
      | exhausted => simp [decoded] at first

theorem gather_mem {decode : UInt8 → Bytes → Outcome Value}
    {fields : List RawField} {result : Document} {other : Bytes × Value}
    (member : other ∈ gather dict decode fields result) :
    other ∈ result ∨ ∃ field ∈ fields,
      nameOf dict field.fieldID = other.1 ∧
        decode field.valType.toByte field.valBytes = .ok other.2 := by
  induction fields generalizing result with
  | nil => exact .inl member
  | cons field rest inductionHypothesis =>
      have later : ∀ result, other ∈ gather dict decode rest result →
          other ∈ result ∨ ∃ field' ∈ field :: rest,
            nameOf dict field'.fieldID = other.1 ∧
              decode field'.valType.toByte field'.valBytes =
                .ok other.2 := by
        intro result found
        rcases inductionHypothesis found with earlier | ⟨found, inRest, rest⟩
        · exact .inl earlier
        · exact .inr ⟨found, List.mem_cons_of_mem _ inRest, rest⟩
      rw [gather] at member
      cases decoded : decode field.valType.toByte field.valBytes with
      | ok value =>
          rw [decoded] at member
          rcases later _ member with earlier | found
          · unfold setField at earlier
            rcases List.mem_append.mp earlier with kept | added
            · exact .inl (List.mem_of_mem_filter kept)
            · rw [List.mem_singleton] at added
              subst added
              exact .inr ⟨field, List.mem_cons_self, rfl, decoded⟩
          · exact .inr found
      | error cause =>
          rw [decoded] at member
          exact later _ member
      | panic =>
          rw [decoded] at member
          exact later _ member
      | exhausted =>
          rw [decoded] at member
          exact later _ member

theorem setField_fresh {result : Document} {name : Bytes} (value : Value)
    (fresh : name ∉ result.map Prod.fst) :
    setField result name value = result ++ [(name, value)] := by
  unfold setField
  rw [List.filter_eq_self.mpr]
  intro field member
  rw [decide_eq_true_iff]
  rintro rfl
  exact fresh (List.mem_map_of_mem member)

theorem gather_all {decode : UInt8 → Bytes → Outcome Value}
    {valueOf : RawField → Value} {fields : List RawField}
    {result : Document}
    (distinct : (result.map Prod.fst ++
      fields.map fun field => nameOf dict field.fieldID).Nodup)
    (each : ∀ field ∈ fields,
      decode field.valType.toByte field.valBytes = .ok (valueOf field)) :
    gather dict decode fields result =
      result ++ fields.map fun field =>
        (nameOf dict field.fieldID, valueOf field) := by
  induction fields generalizing result with
  | nil => exact (List.append_nil result).symm
  | cons field rest inductionHypothesis =>
      obtain ⟨first, others⟩ := List.forall_mem_cons.mp each
      have fresh : nameOf dict field.fieldID ∉ result.map Prod.fst := by
        intro member
        exact List.disjoint_of_nodup_append distinct member
          (by simp)
      rw [gather, first]
      simp only
      rw [setField_fresh _ fresh, inductionHypothesis _ others]
      · rw [List.map_cons, List.append_assoc, List.singleton_append]
      · rw [List.map_append, List.map_singleton, List.append_assoc,
          List.singleton_append]
        exact distinct

theorem nameOf_resolves {name : Bytes} (resolves : dict.Resolves name) :
    nameOf dict (dict.idOf name) = name := by
  unfold nameOf
  rw [resolves]
  rfl

theorem idOf_of_nameOf {name other : Bytes} (faithful : dict.Faithful)
    (numbered : ∃ found, dict.getName (dict.idOf other) = some found)
    (same : nameOf dict (dict.idOf other) = name) :
    dict.Resolves name ∧ dict.idOf name = dict.idOf other := by
  obtain ⟨found, listed⟩ := numbered
  unfold nameOf at same
  rw [listed, Option.getD_some] at same
  subst same
  have known := faithful found _ listed
  have number : dict.idOf found = dict.idOf other := by
    unfold FieldDictionary.idOf at known ⊢
    rw [known]
    rfl
  exact ⟨by rw [FieldDictionary.Resolves, number, listed], number⟩

section Objects

variable {fields : List (Bytes × Value)} {gathered : Document}

theorem recovers_of_fieldsWidenTo (faithful : dict.Faithful)
    (distinct : (fields.map Prod.fst).Nodup)
    (numbered : ∀ field ∈ fields,
      ∃ found, dict.getName (dict.idOf field.1) = some found)
    (source : ∀ other ∈ gathered, ∃ field ∈ fields,
      nameOf dict (dict.idOf field.1) = other.1 ∧
        decodeValue dict budget (written dict field.2).1.toByte
          (written dict field.2).2 = .ok other.2)
    (all : ∀ field ∈ fields, ∃ other ∈ gathered, field.1 = other.1 ∧
      widensTo field.2 other.2 = true) :
    ∀ field ∈ fields, dict.Resolves field.1 ∧
      Recovers dict budget field.2 := by
  have resolves : ∀ field ∈ fields, dict.Resolves field.1 := by
    intro field member
    obtain ⟨other, collected, sameName, _⟩ := all field member
    obtain ⟨origin, inFields, named, _⟩ := source other collected
    exact (idOf_of_nameOf faithful (numbered origin inFields)
      (named.trans sameName.symm)).1
  intro field member
  refine ⟨resolves field member, ?_⟩
  obtain ⟨other, collected, sameName, widened⟩ := all field member
  obtain ⟨origin, inFields, named, decoded⟩ := source other collected
  rw [nameOf_resolves (resolves origin inFields)] at named
  -- both fields have the same name, so they are one
  have same : origin = field :=
    List.inj_on_of_nodup_map distinct inFields member
      (named.trans sameName.symm)
  subst same
  exact ⟨other.2, decoded, widened⟩

/-- If every name resolves and every value comes back, every field is found
again in the collected map. -/
theorem widensTo_gather {sorted : List RawField}
    (perm : sorted.Perm (fields.map (rawFieldOf dict)))
    (distinct : (fields.map Prod.fst).Nodup)
    (all : ∀ field ∈ fields, dict.Resolves field.1 ∧
      Recovers dict budget field.2) :
    widensTo (.object fields)
      (.object (gather dict (decodeValue dict budget) sorted [])) = true := by
  have values : ∀ field : Bytes × Value, ∃ value, field ∈ fields →
      decodeValue dict budget (written dict field.2).1.toByte
        (written dict field.2).2 = .ok value ∧
          widensTo field.2 value = true := by
    intro field
    by_cases member : field ∈ fields
    · obtain ⟨value, decoded, widened⟩ := (all field member).2
      exact ⟨value, fun _ => ⟨decoded, widened⟩⟩
    · exact ⟨.scalar .null, fun absurdly => absurd absurdly member⟩
  have raws : ∀ raw : RawField, ∃ value, raw ∈ sorted →
      decodeValue dict budget raw.valType.toByte raw.valBytes =
        .ok value := by
    intro raw
    by_cases member : raw ∈ sorted
    · obtain ⟨field, inFields, rfl⟩ :=
        List.mem_map.mp (perm.mem_iff.mp member)
      obtain ⟨value, decoded⟩ := values field
      exact ⟨value, fun _ => (decoded inFields).1⟩
    · exact ⟨.scalar .null, fun absurdly => absurd absurdly member⟩
  choose valueOf decodes using raws
  have named : (fields.map (rawFieldOf dict)).map
      (fun raw => nameOf dict raw.fieldID) = fields.map Prod.fst := by
    rw [List.map_map]
    apply List.map_congr_left
    intro field member
    exact nameOf_resolves (all field member).1
  have ownNames : (sorted.map fun raw => nameOf dict raw.fieldID).Nodup := by
    rw [(perm.map _).nodup_iff, named]
    exact distinct
  rw [gather_all (by simpa using ownNames) decodes, List.nil_append,
    widensTo, Bool.and_eq_true, fieldsWidenTo_iff]
  constructor
  · rw [List.length_map, perm.length_eq, List.length_map]
    exact decide_eq_true rfl
  · intro field member
    have inSorted : rawFieldOf dict field ∈ sorted :=
      perm.mem_iff.mpr (List.mem_map_of_mem member)
    obtain ⟨value, decoded⟩ := values field
    have same : valueOf (rawFieldOf dict field) = value := by
      have first := decodes _ inSorted
      have second := (decoded member).1
      exact Outcome.ok.inj (first.symm.trans second)
    refine ⟨_, List.mem_map_of_mem inSorted, ?_, ?_⟩
    · exact (nameOf_resolves (all field member).1).symm
    · rw [same]
      exact (decoded member).2

theorem decode_fields {later : FieldDictionary}
    (valid : Valid (.object fields))
    (short : (written dict (.object fields)).2.length < 2 ^ 32)
    (each : ∀ field ∈ fields, (decodeValue later budget
      (written dict field.2).1.toByte (written dict field.2).2).Returns) :
    decodeValue later (budget + 1) (written dict (.object fields)).1.toByte
        (written dict (.object fields)).2 =
      .ok (.object (gather later (decodeValue later budget)
        (sortFields (fields.map (rawFieldOf dict))) [])) := by
  rw [Valid] at valid
  have shape : written dict (.object fields) =
      (.object, assemble (fields.map (rawFieldOf dict))) := by
    rw [written, writtenFields_eq_map]
  rw [shape] at short ⊢
  have layout := assemble_short short
  have perm := sortFields_perm (fields.map (rawFieldOf dict))
  generalize sortFields (fields.map (rawFieldOf dict)) = sorted at *
  simp only at short ⊢
  rw [layout] at short ⊢
  have few : sorted.length ≤ 65535 := by
    rw [perm.length_eq, List.length_map]
    exact valid.2.1
  obtain ⟨headed, counted⟩ := objectBytes_headed few
  have collected := @toMapFrom_gather later (decodeValue later budget) []
    sorted [] (fun raw member => by
      obtain ⟨field, inFields, rfl⟩ :=
        List.mem_map.mp (perm.mem_iff.mp member)
      exact each field inFields) few short
  rw [List.nil_append, List.length_nil] at collected
  rw [decodeValue_headed headed, counted, collected]
  rfl

theorem decode_object (faithful : dict.Faithful)
    (valid : Valid (.object fields))
    (numbered : ∀ field ∈ fields,
      ∃ found, dict.getName (dict.idOf field.1) = some found)
    (each : ∀ field ∈ fields, (decodeValue dict budget
      (written dict field.2).1.toByte (written dict field.2).2).Returns)
    (short : (written dict (.object fields)).2.length < 2 ^ 32) :
    (decodeValue dict (budget + 1) (written dict (.object fields)).1.toByte
        (written dict (.object fields)).2).Returns ∧
      (Recovers dict (budget + 1) (.object fields) ↔
        ∀ field ∈ fields, dict.Resolves field.1 ∧
          Recovers dict budget field.2) := by
  have decoded := decode_fields valid short each
  rw [Valid] at valid
  have perm := sortFields_perm (fields.map (rawFieldOf dict))
  unfold Recovers
  rw [decoded]
  refine ⟨trivial, ?_, ?_⟩
  · rintro ⟨other, same, widened⟩
    cases same
    rw [widensTo, Bool.and_eq_true, fieldsWidenTo_iff] at widened
    refine recovers_of_fieldsWidenTo faithful valid.1 numbered ?_ widened.2
    intro other member
    rcases gather_mem member with earlier | ⟨raw, inSorted, named, found⟩
    · cases earlier
    · obtain ⟨origin, inFields, rfl⟩ :=
        List.mem_map.mp (perm.mem_iff.mp inSorted)
      exact ⟨origin, inFields, named, found⟩
  · intro all
    exact ⟨_, rfl, widensTo_gather perm valid.1 all⟩

end Objects

end Decoding

end CocoDB.Cson
