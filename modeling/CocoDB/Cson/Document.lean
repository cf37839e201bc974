import CocoDB.Cson.Encode
import CocoDB.Cson.Numbering

/-!
# Documents and what is written for them

The encoder numbers names as it goes.  A name keeps its number, so what it
writes can be read off the finished dictionary: `written` is that pure
description, and encoding a supported document yields it.
-/

namespace CocoDB.Cson

open CocoDB.Lib

theorem Value.nested {P : Value → Prop}
    (scalar : ∀ value, P (.scalar value))
    (array : ∀ items, (∀ item ∈ items, P item) → P (.array items))
    (object : ∀ fields, (∀ field ∈ fields, P field.2) → P (.object fields))
    (unsupported : ∀ typeName, P (.unsupported typeName))
    (value : Value) : P value :=
  @Value.rec P (fun items => ∀ item ∈ items, P item)
    (fun fields => ∀ field ∈ fields, P field.2) (fun field => P field.2)
    scalar array object unsupported
    (fun _ member => nomatch member)
    (fun _ _ first rest => List.forall_mem_cons.mpr ⟨first, rest⟩)
    (fun _ member => nomatch member)
    (fun _ _ first rest => List.forall_mem_cons.mpr ⟨first, rest⟩)
    (fun _ _ value => value) value

/-! ## Documents the encoder accepts -/

mutual

/-- Built from supported types; the names of an object are distinct, as the
keys of a map are, and at most 65535. -/
def Valid : Value → Prop
  | .scalar _ => True
  | .unsupported _ => False
  | .array items => ValidItems items
  | .object fields =>
      (fields.map Prod.fst).Nodup ∧ fields.length ≤ 65535 ∧
        ValidFields fields

def ValidItems : List Value → Prop
  | [] => True
  | item :: rest => Valid item ∧ ValidItems rest

def ValidFields : List (Bytes × Value) → Prop
  | [] => True
  | (_, value) :: rest => Valid value ∧ ValidFields rest

end

theorem validItems_iff {items : List Value} :
    ValidItems items ↔ ∀ item ∈ items, Valid item := by
  induction items with
  | nil => simp [ValidItems]
  | cons item rest inductionHypothesis =>
      simp [ValidItems, inductionHypothesis]

theorem validFields_iff {fields : List (Bytes × Value)} :
    ValidFields fields ↔ ∀ field ∈ fields, Valid field.2 := by
  induction fields with
  | nil => simp [ValidFields]
  | cons field rest inductionHypothesis =>
      rw [ValidFields, List.forall_mem_cons, inductionHypothesis]

mutual

/-- Built from the types that `encodeValueFast` knows. -/
def Supported : Value → Prop
  | .scalar _ => True
  | .unsupported _ => False
  | .array items => SupportedItems items
  | .object fields => SupportedFields fields

def SupportedItems : List Value → Prop
  | [] => True
  | item :: rest => Supported item ∧ SupportedItems rest

def SupportedFields : List (Bytes × Value) → Prop
  | [] => True
  | (_, value) :: rest => Supported value ∧ SupportedFields rest

end

theorem supportedItems_iff {items : List Value} :
    SupportedItems items ↔ ∀ item ∈ items, Supported item := by
  induction items with
  | nil => simp [SupportedItems]
  | cons item rest inductionHypothesis =>
      simp [SupportedItems, inductionHypothesis]

theorem supportedFields_iff {fields : List (Bytes × Value)} :
    SupportedFields fields ↔ ∀ field ∈ fields, Supported field.2 := by
  induction fields with
  | nil => simp [SupportedFields]
  | cons field rest inductionHypothesis =>
      rw [SupportedFields, List.forall_mem_cons, inductionHypothesis]

theorem Valid.supported {value : Value} (valid : Valid value) :
    Supported value := by
  induction value using Value.nested with
  | scalar value => trivial
  | unsupported typeName => exact absurd valid (by simp [Valid])
  | array items inductionHypothesis =>
      rw [Valid, validItems_iff] at valid
      rw [Supported, supportedItems_iff]
      exact fun item member => inductionHypothesis item member
        (valid item member)
  | object fields inductionHypothesis =>
      rw [Valid, validFields_iff] at valid
      rw [Supported, supportedFields_iff]
      exact fun field member => inductionHypothesis field member
        (valid.2.2 field member)

mutual

def names : Value → List Bytes
  | .scalar _ => []
  | .unsupported _ => []
  | .array items => namesOfItems items
  | .object fields => namesOfFields fields

def namesOfItems : List Value → List Bytes
  | [] => []
  | item :: rest => names item ++ namesOfItems rest

def namesOfFields : List (Bytes × Value) → List Bytes
  | [] => []
  | (name, value) :: rest => name :: (names value ++ namesOfFields rest)

end

theorem mem_namesOfItems {items : List Value} {name : Bytes} :
    name ∈ namesOfItems items ↔ ∃ item ∈ items, name ∈ names item := by
  induction items with
  | nil => simp [namesOfItems]
  | cons item rest inductionHypothesis =>
      simp [namesOfItems, inductionHypothesis]

theorem mem_namesOfFields {fields : List (Bytes × Value)} {name : Bytes} :
    name ∈ namesOfFields fields ↔
      ∃ field ∈ fields, name = field.1 ∨ name ∈ names field.2 := by
  induction fields with
  | nil => simp [namesOfFields]
  | cons field rest inductionHypothesis =>
      rw [namesOfFields, List.mem_cons, List.mem_append, inductionHypothesis]
      simp [or_assoc]

/-! ## What is written -/

mutual

def written (dict : FieldDictionary) : Value → ValueType × Bytes
  | .scalar value => encodeScalar value
  | .unsupported _ => (.null, [])
  | .object fields => (.object, assemble (writtenFields dict fields))
  | .array items =>
      (.array, be 4 items.length ++ writtenItems dict items)

def writtenItems (dict : FieldDictionary) : List Value → Bytes
  | [] => []
  | item :: rest =>
      [(written dict item).1.toByte] ++
        be 4 (written dict item).2.length ++ (written dict item).2 ++
          writtenItems dict rest

def writtenFields (dict : FieldDictionary) :
    List (Bytes × Value) → List RawField
  | [] => []
  | (name, value) :: rest =>
      ⟨dict.idOf name, (written dict value).1, (written dict value).2⟩ ::
        writtenFields dict rest

end

def rawFieldOf (dict : FieldDictionary) (field : Bytes × Value) : RawField :=
  ⟨dict.idOf field.1, (written dict field.2).1, (written dict field.2).2⟩

theorem writtenFields_eq_map (dict : FieldDictionary)
    (fields : List (Bytes × Value)) :
    writtenFields dict fields = fields.map (rawFieldOf dict) := by
  induction fields with
  | nil => rfl
  | cons field rest inductionHypothesis =>
      rw [writtenFields, inductionHypothesis]
      rfl

def EncodesAsWritten (value : Value) : Prop :=
  ∀ dict later : FieldDictionary,
    (dict.assignAll (names value)).Extends later →
      encodeValueFast value dict =
        (.ok (written later value), dict.assignAll (names value))

theorem encodeItems_written {items : List Value}
    (each : ∀ item ∈ items, EncodesAsWritten item)
    (dict later : FieldDictionary)
    (grown : (dict.assignAll (namesOfItems items)).Extends later) :
    encodeItems items dict =
      (.ok (writtenItems later items),
        dict.assignAll (namesOfItems items)) := by
  induction items generalizing dict with
  | nil => rfl
  | cons item rest inductionHypothesis =>
      obtain ⟨first, others⟩ := List.forall_mem_cons.mp each
      rw [namesOfItems, FieldDictionary.assignAll_append] at grown ⊢
      have head := first dict later
        ((FieldDictionary.extends_assignAll _ _).trans grown)
      have tail := inductionHypothesis others
        (dict.assignAll (names item)) grown
      rw [encodeItems, head]
      simp only
      rw [tail]
      rfl

theorem encodeFields_written {fields : List (Bytes × Value)}
    (each : ∀ field ∈ fields, EncodesAsWritten field.2)
    (dict later : FieldDictionary)
    (grown : (dict.assignAll (namesOfFields fields)).Extends later) :
    encodeFields fields dict =
      (.ok (writtenFields later fields),
        dict.assignAll (namesOfFields fields)) := by
  induction fields generalizing dict with
  | nil => rfl
  | cons field rest inductionHypothesis =>
      obtain ⟨name, value⟩ := field
      obtain ⟨first, others⟩ := List.forall_mem_cons.mp each
      rw [namesOfFields, FieldDictionary.assignAll_cons,
        FieldDictionary.assignAll_append] at grown ⊢
      have afterValue := (FieldDictionary.extends_assignAll
        (((dict.getOrAssignID name).2).assignAll (names value))
        (namesOfFields rest)).trans grown
      have afterName := (FieldDictionary.extends_assignAll
        (dict.getOrAssignID name).2 (names value)).trans afterValue
      have head := first (dict.getOrAssignID name).2 later afterValue
      have tail := inductionHypothesis others
        (((dict.getOrAssignID name).2).assignAll (names value)) grown
      rw [encodeFields, head]
      simp only
      rw [tail, writtenFields, FieldDictionary.idOf_of_extends afterName]

theorem encodesAsWritten {value : Value} (supported : Supported value) :
    EncodesAsWritten value := by
  induction value using Value.nested with
  | scalar value => intro dict later _; rfl
  | unsupported typeName => exact absurd supported (by simp [Supported])
  | array items inductionHypothesis =>
      intro dict later grown
      rw [Supported, supportedItems_iff] at supported
      have body := encodeItems_written (fun item member =>
        inductionHypothesis item member (supported item member)) dict later
          grown
      rw [encodeValueFast, body]
      rfl
  | object fields inductionHypothesis =>
      intro dict later grown
      rw [Supported, supportedFields_iff] at supported
      have body := encodeFields_written (fun field member =>
        inductionHypothesis field member (supported field member)) dict later
          grown
      rw [encodeValueFast, body]
      rfl

theorem encode_written {doc : Document} (supported : Supported (.object doc))
    (dict : FieldDictionary) :
    encode doc dict =
      (.ok (written (dict.assignAll (namesOfFields doc)) (.object doc)).2,
        dict.assignAll (namesOfFields doc)) := by
  rw [Supported, supportedFields_iff] at supported
  have body := encodeFields_written
    (fun field member => encodesAsWritten (supported field member)) dict
    (dict.assignAll (namesOfFields doc)) (fun _ _ known => known)
  rw [encode, body]
  rfl

end CocoDB.Cson
