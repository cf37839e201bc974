import CocoDB.Cson.Growth

/-!
# Documents that can be stored

`Encode` fails on values of other types than its own and on nothing else.  What
it wrote is read back the same under any later dictionary.
-/

namespace CocoDB.Cson

open CocoDB.Lib

/-! ## Supported values with room for their names -/

mutual

/-- The names of an object are distinct, as the keys of a map are, and the
header has room for their number. -/
def Compact : Value → Prop
  | .scalar _ => True
  | .unsupported _ => True
  | .array items => CompactItems items
  | .object fields =>
      (fields.map Prod.fst).Nodup ∧ fields.length ≤ 65535 ∧
        CompactFields fields

def CompactItems : List Value → Prop
  | [] => True
  | item :: rest => Compact item ∧ CompactItems rest

def CompactFields : List (Bytes × Value) → Prop
  | [] => True
  | (_, value) :: rest => Compact value ∧ CompactFields rest

end

theorem compactItems_iff {items : List Value} :
    CompactItems items ↔ ∀ item ∈ items, Compact item := by
  induction items with
  | nil => simp [CompactItems]
  | cons item rest inductionHypothesis =>
      simp [CompactItems, inductionHypothesis]

theorem compactFields_iff {fields : List (Bytes × Value)} :
    CompactFields fields ↔ ∀ field ∈ fields, Compact field.2 := by
  induction fields with
  | nil => simp [CompactFields]
  | cons field rest inductionHypothesis =>
      rw [CompactFields, List.forall_mem_cons, inductionHypothesis]

theorem valid_of_supported {value : Value} (supported : Supported value)
    (compact : Compact value) : Valid value := by
  induction value using Value.nested with
  | scalar value => trivial
  | unsupported typeName => exact absurd supported (by simp [Supported])
  | array items inductionHypothesis =>
      rw [Supported, supportedItems_iff] at supported
      rw [Compact, compactItems_iff] at compact
      rw [Valid, validItems_iff]
      exact fun item member => inductionHypothesis item member
        (supported item member) (compact item member)
  | object fields inductionHypothesis =>
      rw [Supported, supportedFields_iff] at supported
      rw [Compact, compactFields_iff] at compact
      rw [Valid, validFields_iff]
      exact ⟨compact.1, compact.2.1, fun field member =>
        inductionHypothesis field member (supported field member)
          (compact.2.2 field member)⟩

/-! ## When encoding fails -/

def Succeeds {ε α : Type} (result : Except ε α) : Prop :=
  ∃ value, result = .ok value

@[simp]
theorem succeeds_ok {ε α : Type} (value : α) :
    Succeeds (.ok value : Except ε α) :=
  ⟨value, rfl⟩

@[simp]
theorem not_succeeds_error {ε α : Type} (cause : ε) :
    ¬ Succeeds (.error cause : Except ε α) :=
  fun ⟨_, equal⟩ => nomatch equal

theorem encodeItems_succeeds {items : List Value}
    (each : ∀ item ∈ items, ∀ dict,
      Succeeds (encodeValueFast item dict).1 ↔ Supported item) :
    ∀ dict, Succeeds (encodeItems items dict).1 ↔ SupportedItems items := by
  induction items with
  | nil =>
      intro dict
      rw [encodeItems, SupportedItems]
      simp
  | cons item rest inductionHypothesis =>
      intro dict
      obtain ⟨first, others⟩ := List.forall_mem_cons.mp each
      have head := first dict
      rw [encodeItems, SupportedItems]
      rcases outcome : encodeValueFast item dict with ⟨result, grown⟩
      rw [outcome] at head
      cases result with
      | error cause =>
          rw [← head]
          simp
      | ok written =>
          have tail := inductionHypothesis others grown
          have here : Supported item := head.mp (succeeds_ok written)
          simp only
          rcases outcome : encodeItems rest grown with ⟨result, final⟩
          rw [outcome] at tail
          cases result with
          | error cause =>
              rw [← tail]
              simp
          | ok body =>
              rw [← tail]
              simp [here]

theorem encodeFields_succeeds {fields : List (Bytes × Value)}
    (each : ∀ field ∈ fields, ∀ dict,
      Succeeds (encodeValueFast field.2 dict).1 ↔ Supported field.2) :
    ∀ dict, Succeeds (encodeFields fields dict).1 ↔
      SupportedFields fields := by
  induction fields with
  | nil =>
      intro dict
      rw [encodeFields, SupportedFields]
      simp
  | cons field rest inductionHypothesis =>
      intro dict
      obtain ⟨name, value⟩ := field
      obtain ⟨first, others⟩ := List.forall_mem_cons.mp each
      have head := first (dict.getOrAssignID name).2
      rw [encodeFields, SupportedFields]
      rcases outcome : encodeValueFast value (dict.getOrAssignID name).2 with
        ⟨result, grown⟩
      simp only [outcome] at head
      cases result with
      | error cause =>
          rw [← head]
          simp
      | ok written =>
          have tail := inductionHypothesis others grown
          have here : Supported value := head.mp (succeeds_ok written)
          simp only
          rcases outcome : encodeFields rest grown with ⟨result, final⟩
          rw [outcome] at tail
          cases result with
          | error cause =>
              rw [← tail]
              simp
          | ok rawFields =>
              rw [← tail]
              simp [here]

theorem encodeValueFast_succeeds (value : Value) : ∀ dict,
    Succeeds (encodeValueFast value dict).1 ↔ Supported value := by
  induction value using Value.nested with
  | scalar value =>
      intro dict
      rw [encodeValueFast, Supported]
      simp
  | unsupported typeName =>
      intro dict
      rw [encodeValueFast, Supported]
      simp
  | array items inductionHypothesis =>
      intro dict
      have body := encodeItems_succeeds inductionHypothesis dict
      rw [encodeValueFast, Supported, ← body]
      rcases encodeItems items dict with ⟨result, grown⟩
      cases result with
      | error cause => simp
      | ok bytes => simp
  | object fields inductionHypothesis =>
      intro dict
      have body := encodeFields_succeeds inductionHypothesis dict
      rw [encodeValueFast, Supported, ← body]
      rcases encodeFields fields dict with ⟨result, grown⟩
      cases result with
      | error cause => simp
      | ok rawFields => simp

theorem encode_succeeds (doc : Document) (dict : FieldDictionary) :
    Succeeds (encode doc dict).1 ↔ Supported (.object doc) := by
  have body := @encodeFields_succeeds doc
    (fun field _ => encodeValueFast_succeeds field.2) dict
  rw [Supported, encode, ← body]
  rcases encodeFields doc dict with ⟨result, grown⟩
  cases result with
  | error cause => simp
  | ok rawFields => simp

/-! ## Reading a stored document -/

theorem Outcome.object_injective {left right : Outcome Document}
    (same : (do return Value.object (← left)) =
      (do return Value.object (← right))) : left = right := by
  cases left <;> cases right <;> simp_all

theorem Encoded.toMap_eq {dict later : FieldDictionary} {payload : Bytes}
    {doc : Document} (encoded : Encoded dict payload doc)
    (wellFormed : dict.WellFormed) (grows : dict.Extends later)
    (laterWellFormed : later.WellFormed) :
    DocumentView.toMap ⟨payload, later, fieldCountOf payload⟩
        (payload.length + 1) =
      DocumentView.toMap ⟨payload, dict, fieldCountOf payload⟩
        (payload.length + 1) := by
  obtain ⟨headed, _⟩ := encoded.entry
  have asDecode : ∀ dictionary : FieldDictionary,
      DocumentView.toMap ⟨payload, dictionary, fieldCountOf payload⟩
          (payload.length + 1) =
        decode (payload.length + 1) payload dictionary := by
    intro dictionary
    unfold decode
    rw [newDocumentView_ok dictionary headed]
    rfl
  have shape : (written dict (.object doc)).1 = .object := by
    rw [written]
  have shallow := height_le_length dict (.object doc)
  have short := encoded.short
  have payloadEq := encoded.written_eq
  rw [← payloadEq] at shallow
  have same := @decodeValue_agree dict later (.object doc) encoded.valid
    (encoded.numbered wellFormed)
    (fun name found => by
      obtain ⟨fieldID, known⟩ := encoded.known name found
      unfold FieldDictionary.idOf
      rw [known, Option.getD_some,
        (wellFormed.inverse name fieldID).mp known,
        (laterWellFormed.inverse name fieldID).mp
          (grows name fieldID known)])
    (by rw [← payloadEq]; exact short) (payload.length + 2) (by omega)
  rw [shape, ← payloadEq, decodeValue_eq_decode, decodeValue_eq_decode] at same
  rw [asDecode, asDecode]
  exact Outcome.object_injective same

end CocoDB.Cson
