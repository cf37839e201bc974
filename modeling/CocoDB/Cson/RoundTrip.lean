import CocoDB.Cson.DecodeWritten

/-!
# The CSON round trip

Decoding what was encoded gives the document back, up to the documented
widening of numbers and times, exactly when no array in it ends with an
element that takes no bytes and no name of it loses its number to a counter
that comes round.
-/

namespace CocoDB.Cson

open CocoDB.Lib

/-- Every number in use leads to a name, and names found have that number. -/
structure Numbered (dict : FieldDictionary) (value : Value) : Prop where
  faithful : dict.Faithful
  listed : ∀ name ∈ names value,
    ∃ found, dict.getName (dict.idOf name) = some found

theorem Numbered.item {dict : FieldDictionary} {items : List Value}
    (numbered : Numbered dict (.array items)) {item : Value}
    (member : item ∈ items) : Numbered dict item := by
  refine ⟨numbered.faithful, fun name found => numbered.listed name ?_⟩
  rw [names, mem_namesOfItems]
  exact ⟨item, member, found⟩

theorem Numbered.field {dict : FieldDictionary}
    {fields : List (Bytes × Value)} (numbered : Numbered dict (.object fields))
    {field : Bytes × Value} (member : field ∈ fields) :
    Numbered dict field.2 := by
  refine ⟨numbered.faithful, fun name found => numbered.listed name ?_⟩
  rw [names, mem_namesOfFields]
  exact ⟨field, member, .inr found⟩

theorem decode_written {dict : FieldDictionary} {value : Value}
    (valid : Valid value) (numbered : Numbered dict value)
    (short : (written dict value).2.length < 2 ^ 32) {budget : Nat}
    (enough : height value ≤ budget) :
    (decodeValue dict budget (written dict value).1.toByte
        (written dict value).2).Returns ∧
      (Recovers dict budget value ↔ EndsFilled value ∧
        ∀ name ∈ names value, dict.Resolves name) := by
  induction value using Value.nested generalizing budget with
  | unsupported typeName => exact absurd valid (by simp [Valid])
  | scalar value =>
      obtain ⟨budget, rfl⟩ : ∃ less, budget = less + 1 :=
        ⟨budget - 1, by rw [height] at enough; omega⟩
      have decoded := decode_scalar dict budget value
      unfold Recovers
      rw [written, decoded]
      refine ⟨trivial, fun _ => ?_, fun _ => ?_⟩
      · simp [EndsFilled, names]
      · exact ⟨_, rfl, by rw [widensTo]; exact decide_eq_true rfl⟩
  | array items inductionHypothesis =>
      rw [height] at enough
      obtain ⟨budget, rfl⟩ : ∃ less, budget = less + 1 :=
        ⟨budget - 1, by omega⟩
      have itemsValid := valid
      rw [Valid, validItems_iff] at itemsValid
      have each : ∀ item ∈ items, _ := fun item member =>
        inductionHypothesis item member (itemsValid item member)
          (numbered.item member)
          (by
            have inside := @item_short dict items item member
            rw [written, List.length_append] at short
            omega)
          (show height item ≤ budget by
            have deepest := height_le_itemsHeight member
            omega)
      obtain ⟨returns, recovers⟩ := decode_array valid
        (fun item member => (each item member).1) short
      refine ⟨returns, recovers.trans ?_⟩
      rw [EndsFilled, itemsEndFilled_iff, names, and_assoc]
      apply and_congr_right
      intro _
      simp only [mem_namesOfItems]
      constructor
      · intro all
        refine ⟨fun item member => ((each item member).2.mp
          (all item member)).1, ?_⟩
        rintro name ⟨item, member, found⟩
        exact ((each item member).2.mp (all item member)).2 name found
      · rintro ⟨filled, resolves⟩ item member
        exact (each item member).2.mpr ⟨filled item member,
          fun name found => resolves name ⟨item, member, found⟩⟩
  | object fields inductionHypothesis =>
      rw [height] at enough
      obtain ⟨budget, rfl⟩ : ∃ less, budget = less + 1 :=
        ⟨budget - 1, by omega⟩
      have fieldsValid := valid
      rw [Valid, validFields_iff] at fieldsValid
      have listed := numbered.listed
      simp only [names, mem_namesOfFields] at listed
      have each : ∀ field ∈ fields, _ := fun field member =>
        inductionHypothesis field member (fieldsValid.2.2 field member)
          (numbered.field member)
          (by
            rw [written] at short
            exact field_short member short)
          (show height field.2 ≤ budget by
            have deepest := height_le_fieldsHeight member
            omega)
      obtain ⟨returns, recovers⟩ := decode_object numbered.faithful valid
        (fun field member => listed field.1 ⟨field, member, .inl rfl⟩)
        (fun field member => (each field member).1) short
      refine ⟨returns, recovers.trans ?_⟩
      simp only [EndsFilled, fieldsEndFilled_iff, names, mem_namesOfFields]
      constructor
      · intro all
        refine ⟨fun field member => ((each field member).2.mp
          (all field member).2).1, ?_⟩
        rintro name ⟨field, member, rfl | found⟩
        · exact (all field member).1
        · exact ((each field member).2.mp (all field member).2).2 name found
      · rintro ⟨filled, resolves⟩ field member
        refine ⟨resolves field.1 ⟨field, member, .inl rfl⟩,
          (each field member).2.mpr ⟨filled field member, ?_⟩⟩
        intro name found
        exact resolves name ⟨field, member, .inr found⟩

/-! ## Documents -/

/-- `Encode` succeeds, and `Decode` of its output with the dictionary it left
behind gives the document, widened. -/
def RoundTrips (doc : Document) (dict : FieldDictionary) : Prop :=
  ∃ data grown, encode doc dict = (.ok data, grown) ∧
    ∃ budget decoded, decode budget data grown = .ok decoded ∧
      widensTo (.object doc) (.object decoded) = true

theorem decodeValue_eq_decode (budget : Nat) (data : Bytes)
    (dict : FieldDictionary) :
    decodeValue dict (budget + 1) ValueType.object.toByte data =
      (do return .object (← decode budget data dict)) := by
  rw [decodeValue_object]
  unfold decode
  cases newDocumentView data dict with
  | error cause => rfl
  | ok view => rfl

theorem recovers_iff_decode {doc : Document} {dict : FieldDictionary}
    {budget : Nat} :
    Recovers dict (budget + 1) (.object doc) ↔
      ∃ decoded, decode budget (written dict (.object doc)).2 dict =
        .ok decoded ∧ widensTo (.object doc) (.object decoded) = true := by
  have shape : (written dict (.object doc)).1 = .object := by
    rw [written]
  unfold Recovers
  rw [shape, decodeValue_eq_decode]
  cases decode budget (written dict (.object doc)).2 dict with
  | ok decoded =>
      constructor
      · rintro ⟨other, same, widened⟩
        cases same
        exact ⟨decoded, rfl, widened⟩
      · rintro ⟨other, same, widened⟩
        cases same
        exact ⟨.object decoded, rfl, widened⟩
  | error cause => simp
  | panic => simp
  | exhausted => simp

theorem numbered_assignAll {dict : FieldDictionary}
    (wellFormed : dict.WellFormed) (value : Value) :
    Numbered (dict.assignAll (names value)) value := by
  have faithful : dict.Faithful := fun name fieldID listed =>
    (wellFormed.inverse name fieldID).mpr listed
  have covered : dict.Covered := fun name fieldID known =>
    ⟨name, (wellFormed.inverse name fieldID).mp known⟩
  refine ⟨faithful.assignAll _, fun name member => ?_⟩
  obtain ⟨fieldID, known⟩ := FieldDictionary.known_assignAll member dict
  unfold FieldDictionary.idOf
  rw [known]
  exact covered.assignAll _ name fieldID known

/-- A document comes back exactly when its arrays end filled and its names
are found again. -/
theorem roundTrips_iff_resolves {doc : Document} {dict : FieldDictionary}
    (valid : Valid (.object doc)) (wellFormed : dict.WellFormed)
    (short : ∀ data grown, encode doc dict = (.ok data, grown) →
      data.length < 2 ^ 32) :
    RoundTrips doc dict ↔ EndsFilled (.object doc) ∧
      ∀ name ∈ names (.object doc),
        (dict.assignAll (names (.object doc))).Resolves name := by
  have sameNames : names (.object doc) = namesOfFields doc := by
    rw [names]
  have encoded := encode_written valid.supported dict
  rw [← sameNames] at encoded
  have numbered := numbered_assignAll wellFormed (.object doc)
  have small := short _ _ encoded
  generalize dict.assignAll (names (.object doc)) = grown at *
  have condition := fun budget enough =>
    @decode_written grown (.object doc) valid numbered small budget enough
  constructor
  · rintro ⟨data, after, same, budget, decoded, found, widened⟩
    rw [encoded] at same
    cases same
    -- a budget that worked gives the same result as one known to be enough
    have recovers := recovers_iff_decode.mpr ⟨decoded, found, widened⟩
    obtain ⟨other, read, matching⟩ := recovers
    have larger := decodeValue_mono
      (Nat.le_max_left (budget + 1) (height (.object doc)))
      (by rw [read]; exact trivial)
    exact (condition _ (Nat.le_max_right _ _)).2.mp
      ⟨other, larger.trans read, matching⟩
  · intro holds
    have recovers := (condition (height (.object doc) + 1)
      (Nat.le_succ _)).2.mpr holds
    obtain ⟨decoded, found, widened⟩ := recovers_iff_decode.mp recovers
    exact ⟨_, _, encoded, _, decoded, found, widened⟩

/-! ## How many names a document has -/

theorem payloadLength_perm {fields others : List RawField}
    (perm : fields.Perm others) :
    payloadLength fields = payloadLength others :=
  (perm.map _).sum_eq

theorem names_length_le (dict : FieldDictionary) (value : Value) :
    (names value).length ≤ (written dict value).2.length := by
  induction value using Value.nested with
  | scalar value =>
      rw [names]
      exact Nat.zero_le _
  | unsupported typeName =>
      rw [names]
      exact Nat.zero_le _
  | array items inductionHypothesis =>
      rw [names, written, List.length_append]
      have body : (namesOfItems items).length ≤
          (writtenItems dict items).length := by
        induction items with
        | nil => exact Nat.le_refl _
        | cons item rest shorter =>
            obtain ⟨first, others⟩ :=
              List.forall_mem_cons.mp inductionHypothesis
            have later := shorter others
            rw [namesOfItems, writtenItems]
            simp only [List.length_append]
            omega
      omega
  | object fields inductionHypothesis =>
      rw [names, written, assemble_length, (sortFields_perm _).length_eq,
        payloadLength_perm (sortFields_perm _)]
      have body : (namesOfFields fields).length ≤
          (writtenFields dict fields).length * fieldEntrySize +
            payloadLength (writtenFields dict fields) := by
        induction fields with
        | nil => exact Nat.le_refl _
        | cons field rest shorter =>
            obtain ⟨name, value⟩ := field
            obtain ⟨first, others⟩ :=
              List.forall_mem_cons.mp inductionHypothesis
            have later := shorter others
            have here : (names value).length ≤
                (written dict value).2.length := first
            rw [namesOfFields, writtenFields, payloadLength_cons]
            simp only [List.length_append, List.length_cons,
              fieldEntrySize] at later ⊢
            omega
      omega

theorem card_freshNames_le (dict : FieldDictionary) (list : List Bytes) :
    (dict.freshNames list).card ≤ list.length :=
  Nat.le_trans (Finset.card_filter_le _ _) (List.toFinset_card_le list)

/-- The round trip holds for a document exactly when none of its arrays ends
with nil or an empty string, slice or vector, and numbering its new names does
not bring the counter round to the number of one of its names. -/
theorem roundTrips_iff {doc : Document} {dict : FieldDictionary}
    (valid : Valid (.object doc)) (wellFormed : dict.WellFormed)
    (short : ∀ data grown, encode doc dict = (.ok data, grown) →
      data.length < 2 ^ 32) :
    RoundTrips doc dict ↔ EndsFilled (.object doc) ∧
      dict.Unclashed (names (.object doc)) := by
  rw [roundTrips_iff_resolves valid wellFormed short]
  have encoded := encode_written valid.supported dict
  have small := short _ _ encoded
  have counted := names_length_le (dict.assignAll (namesOfFields doc))
    (.object doc)
  have few := card_freshNames_le dict (names (.object doc))
  rw [FieldDictionary.resolves_iff_unclashed wellFormed (by omega)]

/-- One field, `_id`, with an array whose last element is nil. -/
def trailingNull : Document :=
  [(idField, .array [.scalar (.bool true), .scalar .null])]

def leadingNull : Document :=
  [(idField, .array [.scalar .null, .scalar (.bool true)])]

theorem short_of_length {doc : Document} {dict : FieldDictionary}
    {length : Nat}
    (encoded : (encode doc dict).1.map List.length = .ok length)
    (small : length < 2 ^ 32) (data : Bytes) (grown : FieldDictionary)
    (same : encode doc dict = (.ok data, grown)) : data.length < 2 ^ 32 := by
  rw [same] at encoded
  cases encoded
  exact small

theorem leadingNull_roundTrips :
    Valid (.object leadingNull) ∧
      FieldDictionary.newFieldDictionary.WellFormed ∧
        RoundTrips leadingNull .newFieldDictionary := by
  have valid : Valid (.object leadingNull) := by
    simp [leadingNull, Valid, ValidFields, ValidItems]
  have wellFormed := FieldDictionary.newFieldDictionary_wellFormed
  have length : (encode leadingNull .newFieldDictionary).1.map
      List.length = .ok 37 := by decide
  refine ⟨valid, wellFormed, (roundTrips_iff valid wellFormed
    (short_of_length length (by decide))).mpr ⟨?_, ?_⟩⟩
  · simp [leadingNull, EndsFilled, FieldsEndFilled, ItemsEndFilled,
      LastFilled, blank]
  · intro name member fieldID _
    have counted := card_freshNames_le .newFieldDictionary
      (names (.object leadingNull))
    have one : (names (.object leadingNull)).length = 1 := by decide
    have counter : FieldDictionary.newFieldDictionary.nextID.toNat = 2 := rfl
    omega

theorem trailingNull_not_roundTrips :
    Valid (.object trailingNull) ∧
      FieldDictionary.newFieldDictionary.WellFormed ∧
        (encode trailingNull .newFieldDictionary).1.map List.length =
          .ok 37 ∧
        ¬RoundTrips trailingNull .newFieldDictionary := by
  have valid : Valid (.object trailingNull) := by
    simp [trailingNull, Valid, ValidFields, ValidItems]
  have wellFormed := FieldDictionary.newFieldDictionary_wellFormed
  have length : (encode trailingNull .newFieldDictionary).1.map
      List.length = .ok 37 := by decide
  refine ⟨valid, wellFormed, length, fun roundTrips => ?_⟩
  have filled := ((roundTrips_iff_resolves valid wellFormed
    (short_of_length length (by decide))).mp roundTrips).1
  simp [trailingNull, EndsFilled, FieldsEndFilled, LastFilled,
    blank] at filled

end CocoDB.Cson
