import CocoDB.Cson.Directory

/-!
# The values decoding reaches

Decoding recurses through the values nested in a document.  Which of them it
reaches depends on the bytes alone: every field of an object, and the elements
of an array up to the first that is not accepted.
-/

namespace CocoDB.Cson

open CocoDB.Lib

/-! ## The values a document reaches -/

mutual

/-- The bytes are a value of the type at their own level: long enough for a
number, headed for an object, framed throughout for an array. -/
inductive Accepted : ValueType → Bytes → Prop
  | plain {valType : ValueType} (bytes : Bytes) :
      valType ∈ [.null, .bool, .string, .bytes, .vectorFloat32] →
      Accepted valType bytes
  | number {valType : ValueType} {bytes : Bytes} :
      valType ∈ [.int64, .uint64, .float64, .time] → 8 ≤ bytes.length →
      Accepted valType bytes
  | object {bytes : Bytes} : WellHeaded bytes → Accepted .object bytes
  | array {bytes reader : Bytes} {count : Nat} :
      readUint32 bytes = .ok (count, reader) → AcceptedItems count reader →
      Accepted .array bytes

inductive AcceptedItems : Nat → Bytes → Prop
  | nil (reader : Bytes) : AcceptedItems 0 reader
  | cons {count : Nat} {reader item rest : Bytes} {valType : ValueType} :
      readItem reader = .ok (valType.toByte, item, rest) →
      Accepted valType item → AcceptedItems count rest →
      AcceptedItems (count + 1) reader

end

/-- An element of an array whose predecessors are accepted. -/
inductive Item : Nat → Bytes → UInt8 → Bytes → Prop
  | here {count : Nat} {reader item rest : Bytes} {tag : UInt8} :
      readItem reader = .ok (tag, item, rest) →
      Item (count + 1) reader tag item
  | later {count : Nat} {reader item rest other : Bytes}
      {valType : ValueType} {tag : UInt8} :
      readItem reader = .ok (valType.toByte, item, rest) →
      Accepted valType item → Item count rest tag other →
      Item (count + 1) reader tag other

inductive Reached (data : Bytes) : UInt8 → Bytes → Prop
  | root : Reached data ValueType.object.toByte data
  | field {bytes : Bytes} {index : Nat} :
      Reached data ValueType.object.toByte bytes → WellHeaded bytes →
      index < fieldCountOf bytes → (entryAt bytes index).Passes bytes →
      Reached data (entryAt bytes index).valType
        ((entryAt bytes index).content bytes)
  | item {bytes reader item : Bytes} {count : Nat} {tag : UInt8} :
      Reached data ValueType.array.toByte bytes →
      readUint32 bytes = .ok (count, reader) →
      Item count reader tag item → Reached data tag item

/-- An entry for an object that spans the whole of the object it is in. -/
def FieldLocation.SpansAll (loc : FieldLocation) (data : Bytes) : Prop :=
  loc.valType = ValueType.object.toByte ∧ loc.offset = 0 ∧
    loc.length.toNat = data.length

/-- In every object a document reaches, an entry that passes the bounds check
ends below `2 ^ 32` and is not its own container. -/
def Contained (data : Bytes) : Prop :=
  ∀ bytes, Reached data ValueType.object.toByte bytes → WellHeaded bytes →
    ∀ index, index < fieldCountOf bytes →
      (entryAt bytes index).Passes bytes →
        ¬(entryAt bytes index).Wraps ∧
          ¬(entryAt bytes index).SpansAll bytes

section Budget

variable {dict : FieldDictionary} {budget : Nat} {bytes : Bytes}

theorem decodeValue_object :
    decodeValue dict (budget + 1) ValueType.object.toByte bytes = (do
      let view ← .ofExcept (newDocumentView bytes dict)
      return .object (← toMapFrom (decodeValue dict budget) view 0
        view.fieldCount [])) := rfl

theorem decodeValue_array :
    decodeValue dict (budget + 1) ValueType.array.toByte bytes = (do
      let (count, reader) ← .ofExcept (readUint32 bytes)
      return .array (← readItems (decodeValue dict budget) count reader)) :=
  rfl

theorem decodeValue_headless (headless : ¬WellHeaded bytes) :
    ∃ cause, decodeValue dict (budget + 1) ValueType.object.toByte bytes =
      .error cause := by
  obtain ⟨cause, failed⟩ := newDocumentView_error dict headless
  refine ⟨cause, ?_⟩
  rw [decodeValue_object, failed]
  rfl

theorem decodeValue_headed (headed : WellHeaded bytes) :
    decodeValue dict (budget + 1) ValueType.object.toByte bytes = (do
      return .object (← toMapFrom (decodeValue dict budget)
        ⟨bytes, dict, fieldCountOf bytes⟩ 0 (fieldCountOf bytes) [])) := by
  rw [decodeValue_object, newDocumentView_ok dict headed]
  rfl

theorem decodeValue_framed {count : Nat} {reader : Bytes}
    (framed : readUint32 bytes = .ok (count, reader)) :
    decodeValue dict (budget + 1) ValueType.array.toByte bytes = (do
      return .array (← readItems (decodeValue dict budget) count
        reader)) := by
  rw [decodeValue_array, framed]
  rfl

theorem Outcome.returns_map {α β : Type} {outcome : Outcome α}
    (wrap : α → β) :
    (do return wrap (← outcome) : Outcome β).Returns ↔
      outcome.Returns := by
  cases outcome <;> simp

theorem object_returns_iff (headed : WellHeaded bytes) :
    (decodeValue dict (budget + 1) ValueType.object.toByte bytes).Returns ↔
      ∀ index, index < fieldCountOf bytes →
        (entryAt bytes index).Passes bytes →
          ¬(entryAt bytes index).Wraps ∧
            (decodeValue dict budget (entryAt bytes index).valType
              ((entryAt bytes index).content bytes)).Returns := by
  rw [decodeValue_headed headed, Outcome.returns_map Value.object,
    toMapFrom_returns_iff (by simpa using headed.2.2)]
  simp

theorem readFloats_ok {data : Bytes} {position : Nat → Nat}
    {index remaining : Nat}
    (inside : ∀ later, later < index + remaining →
      position later ≤ position (later + 1) ∧
        position (later + 1) ≤ data.length) :
    ∃ floats, readFloats data position index remaining = .ok floats := by
  induction remaining generalizing index with
  | zero => exact ⟨[], rfl⟩
  | succ remaining inductionHypothesis =>
      obtain ⟨ordered, bounded⟩ := inside index (by omega)
      obtain ⟨floats, rest⟩ := @inductionHypothesis (index + 1)
        fun later before => inside later (by omega)
      rw [readFloats, slice_ok ordered bounded]
      simp only [Outcome.ok_bind]
      rw [rest]
      exact ⟨_, rfl⟩

theorem decodeVector_ok (valBytes : Bytes) :
    ∃ floats, readFloats valBytes (fun index => index * 4) 0
      (valBytes.length / 4) = .ok floats :=
  readFloats_ok fun later before => by omega

theorem decodeWord_returns (valBytes : Bytes) :
    (decodeWord valBytes).Returns := by
  unfold decodeWord
  split
  · exact trivial
  · exact trivial

theorem leaf_returns {tag : UInt8} (notObject : tag ≠ ValueType.object.toByte)
    (notArray : tag ≠ ValueType.array.toByte) :
    (decodeValue dict (budget + 1) tag bytes).Returns := by
  have word := decodeWord_returns bytes
  rw [decodeValue]
  cases known : ValueType.ofByte tag with
  | none => exact trivial
  | some valType =>
      cases valType with
      | null => exact trivial
      | bool => exact trivial
      | string => exact trivial
      | bytes => exact trivial
      | int64 => exact (Outcome.returns_map _).mpr word
      | uint64 => exact (Outcome.returns_map _).mpr word
      | float64 => exact (Outcome.returns_map _).mpr word
      | time => exact (Outcome.returns_map _).mpr word
      | vectorFloat32 =>
          obtain ⟨floats, read⟩ := decodeVector_ok bytes
          exact (Outcome.returns_map _).mpr (by rw [read]; exact trivial)
      | object => exact absurd (ValueType.toByte_of_ofByte known) notObject
      | array => exact absurd (ValueType.toByte_of_ofByte known) notArray

theorem decodeValue_mono {more : Nat} {tag : UInt8}
    (enough : budget ≤ more)
    (returns : (decodeValue dict budget tag bytes).Returns) :
    decodeValue dict more tag bytes = decodeValue dict budget tag bytes := by
  induction budget generalizing more tag bytes with
  | zero => exact absurd returns Outcome.not_returns_exhausted
  | succ budget inductionHypothesis =>
      obtain ⟨more, rfl⟩ : ∃ larger, more = larger + 1 :=
        ⟨more - 1, by omega⟩
      have agrees : ∀ tag bytes,
          (decodeValue dict budget tag bytes).Returns →
            decodeValue dict more tag bytes =
              decodeValue dict budget tag bytes :=
        fun _ _ returns => inductionHypothesis (by omega) returns
      by_cases isObject : tag = ValueType.object.toByte
      · subst isObject
        by_cases headed : WellHeaded bytes
        · rw [decodeValue_headed headed] at returns ⊢
          rw [decodeValue_headed headed]
          rw [toMapFrom_mono (by simpa using headed.2.2) agrees
            ((Outcome.returns_map Value.object).mp returns)]
        · obtain ⟨cause, failed⟩ := newDocumentView_error dict headed
          rw [decodeValue_object, decodeValue_object, failed]
          rfl
      · by_cases isArray : tag = ValueType.array.toByte
        · subst isArray
          rw [decodeValue_array] at returns ⊢
          rw [decodeValue_array]
          cases framed : readUint32 bytes with
          | error cause => rfl
          | ok counted =>
              obtain ⟨count, reader⟩ := counted
              rw [framed] at returns
              have items := (Outcome.returns_map Value.array).mp returns
              show (do return Value.array (← readItems _ count reader) :
                Outcome Value) = _
              rw [readItems_mono agrees items]
              rfl
        · rw [decodeValue, decodeValue]
          cases known : ValueType.ofByte tag with
          | none => rfl
          | some valType =>
              cases valType with
              | object =>
                  exact absurd (ValueType.toByte_of_ofByte known) isObject
              | array =>
                  exact absurd (ValueType.toByte_of_ofByte known) isArray
              | _ => rfl

end Budget

section Acceptance

variable {dict : FieldDictionary} {budget : Nat}

theorem decodeWord_accepted {α : Type} (bytes : Bytes)
    (wrap : UInt64 → α) :
    (∃ value, (do return wrap (← decodeWord bytes) : Outcome α) =
      .ok value) ↔ 8 ≤ bytes.length := by
  unfold decodeWord
  split
  · rename_i short
    simp [short]
  · rename_i long
    simp only [Outcome.ok_bind, Outcome.pure_eq, Outcome.ok.injEq,
      exists_eq', true_iff]
    omega

theorem accepted_number_iff {valType : ValueType} {bytes : Bytes}
    (member : valType ∈ [.int64, .uint64, .float64, .time]) :
    Accepted valType bytes ↔ 8 ≤ bytes.length := by
  constructor
  · intro accepted
    cases accepted with
    | plain _ other =>
        cases valType <;> simp at member other
    | number _ long => exact long
    | object _ => simp at member
    | array _ _ => simp at member
  · exact .number member

theorem accepted_object_iff {bytes : Bytes} :
    Accepted .object bytes ↔ WellHeaded bytes := by
  constructor
  · intro accepted
    cases accepted with
    | plain _ member => simp at member
    | number member _ => simp at member
    | object headed => exact headed
  · exact .object

theorem accepted_array_iff {bytes : Bytes} :
    Accepted .array bytes ↔ ∃ count reader,
      readUint32 bytes = .ok (count, reader) ∧
        AcceptedItems count reader := by
  constructor
  · intro accepted
    cases accepted with
    | plain _ member => simp at member
    | number member _ => simp at member
    | array framed items => exact ⟨_, _, framed, items⟩
  · rintro ⟨count, reader, framed, items⟩
    exact .array framed items

theorem readItems_accepted {count : Nat} {reader : Bytes}
    (single : ∀ tag bytes, (decodeValue dict budget tag bytes).Returns →
      ((∃ value, decodeValue dict budget tag bytes = .ok value) ↔
        ∃ valType : ValueType, tag = valType.toByte ∧
          Accepted valType bytes))
    (returns : (readItems (decodeValue dict budget) count reader).Returns) :
    (∃ values, readItems (decodeValue dict budget) count reader =
      .ok values) ↔ AcceptedItems count reader := by
  induction count generalizing reader with
  | zero => exact ⟨fun _ => .nil reader, fun _ => ⟨[], rfl⟩⟩
  | succ count inductionHypothesis =>
      rw [readItems] at returns ⊢
      cases framed : readItem reader with
      | error cause =>
          simp only [reduceCtorEq, exists_false, false_iff]
          intro accepted
          cases accepted with
          | cons readable _ _ =>
              rw [framed] at readable
              cases readable
      | ok read =>
          obtain ⟨tag, item, rest⟩ := read
          rw [framed] at returns
          simp only at returns ⊢
          cases decoded : decodeValue dict budget tag item with
          | panic => simp [decoded] at returns
          | exhausted => simp [decoded] at returns
          | error cause =>
              have refused := single tag item (by simp [decoded])
              simp only [decoded, reduceCtorEq, exists_false,
                false_iff] at refused
              simp only [Outcome.error_bind, reduceCtorEq, exists_false,
                false_iff]
              intro accepted
              cases accepted with
              | cons readable first _ =>
                  rw [framed] at readable
                  cases readable
                  exact refused ⟨_, rfl, first⟩
          | ok value =>
              have granted := (single tag item (by simp [decoded])).mp
                ⟨value, decoded⟩
              obtain ⟨valType, rfl, first⟩ := granted
              rw [decoded] at returns
              simp only [Outcome.ok_bind] at returns ⊢
              have later := (Outcome.returns_map _).mp returns
              constructor
              · rintro ⟨values, all⟩
                refine .cons framed first
                  ((inductionHypothesis later).mp ?_)
                cases tail : readItems (decodeValue dict budget) count
                    rest with
                | ok others => exact ⟨others, rfl⟩
                | error cause => simp [tail] at all
                | panic => simp [tail] at all
                | exhausted => simp [tail] at all
              · intro accepted
                cases accepted with
                | cons readable _ others =>
                    rw [framed] at readable
                    simp only [Except.ok.injEq, Prod.mk.injEq] at readable
                    obtain ⟨_, rfl, rfl⟩ := readable
                    obtain ⟨values, tail⟩ :=
                      (inductionHypothesis later).mpr others
                    exact ⟨value :: values, by rw [tail]; rfl⟩

theorem object_accepted {bytes : Bytes}
    (returns : (decodeValue dict (budget + 1) ValueType.object.toByte
      bytes).Returns) :
    (∃ value, decodeValue dict (budget + 1) ValueType.object.toByte bytes =
      .ok value) ↔ Accepted .object bytes := by
  rw [accepted_object_iff]
  constructor
  · rintro ⟨value, decoded⟩
    by_contra headless
    obtain ⟨cause, failed⟩ := @decodeValue_headless dict budget _ headless
    cases decoded.symm.trans failed
  · intro headed
    rw [decodeValue_headed headed] at returns ⊢
    obtain ⟨result, whole⟩ := toMapFrom_ok (by simpa using headed.2.2)
      ((Outcome.returns_map Value.object).mp returns)
    rw [whole]
    exact ⟨_, rfl⟩

theorem Outcome.map_ok_iff {α β : Type} {outcome : Outcome α}
    (wrap : α → β) :
    (∃ value, (do return wrap (← outcome) : Outcome β) = .ok value) ↔
      ∃ value, outcome = .ok value := by
  cases outcome <;> simp

theorem array_accepted {bytes : Bytes}
    (single : ∀ tag bytes, (decodeValue dict budget tag bytes).Returns →
      ((∃ value, decodeValue dict budget tag bytes = .ok value) ↔
        ∃ valType : ValueType, tag = valType.toByte ∧
          Accepted valType bytes))
    (returns : (decodeValue dict (budget + 1) ValueType.array.toByte
      bytes).Returns) :
    (∃ value, decodeValue dict (budget + 1) ValueType.array.toByte bytes =
      .ok value) ↔ Accepted .array bytes := by
  rw [accepted_array_iff]
  cases framed : readUint32 bytes with
  | error cause =>
      rw [decodeValue_array, framed]
      constructor
      · rintro ⟨value, found⟩
        cases found
      · rintro ⟨count, reader, missing, _⟩
        cases missing
  | ok counted =>
      obtain ⟨count, reader⟩ := counted
      rw [decodeValue_framed framed] at returns ⊢
      rw [Outcome.map_ok_iff, readItems_accepted single
        ((Outcome.returns_map Value.array).mp returns)]
      constructor
      · intro items
        exact ⟨count, reader, rfl, items⟩
      · rintro ⟨_, _, same, items⟩
        cases same
        exact items

theorem decodeValue_accepted {tag : UInt8} {bytes : Bytes}
    (returns : (decodeValue dict budget tag bytes).Returns) :
    (∃ value, decodeValue dict budget tag bytes = .ok value) ↔
      ∃ valType : ValueType, tag = valType.toByte ∧
        Accepted valType bytes := by
  induction budget generalizing tag bytes with
  | zero => exact absurd returns Outcome.not_returns_exhausted
  | succ budget inductionHypothesis =>
      cases known : ValueType.ofByte tag with
      | none =>
          constructor
          · rintro ⟨value, decoded⟩
            rw [decodeValue, known] at decoded
            cases decoded
          · rintro ⟨valType, rfl, _⟩
            rw [ValueType.ofByte_toByte] at known
            cases known
      | some valType =>
          obtain rfl := ValueType.toByte_of_ofByte known
          have typed : (∃ other : ValueType,
              valType.toByte = other.toByte ∧ Accepted other bytes) ↔
              Accepted valType bytes := by
            constructor
            · rintro ⟨other, same, accepted⟩
              rwa [ValueType.toByte_injective same]
            · intro accepted
              exact ⟨valType, rfl, accepted⟩
          rw [typed]
          cases valType with
          | null => exact ⟨fun _ => .plain bytes (by decide),
              fun _ => ⟨_, rfl⟩⟩
          | bool => exact ⟨fun _ => .plain bytes (by decide),
              fun _ => ⟨_, rfl⟩⟩
          | string => exact ⟨fun _ => .plain bytes (by decide),
              fun _ => ⟨_, rfl⟩⟩
          | bytes => exact ⟨fun _ => .plain bytes (by decide),
              fun _ => ⟨_, rfl⟩⟩
          | int64 =>
              rw [accepted_number_iff (by decide)]
              exact decodeWord_accepted bytes _
          | uint64 =>
              rw [accepted_number_iff (by decide)]
              exact decodeWord_accepted bytes _
          | float64 =>
              rw [accepted_number_iff (by decide)]
              exact decodeWord_accepted bytes _
          | time =>
              rw [accepted_number_iff (by decide)]
              exact decodeWord_accepted bytes _
          | vectorFloat32 =>
              refine ⟨fun _ => .plain bytes (by decide), fun _ => ?_⟩
              obtain ⟨floats, read⟩ := decodeVector_ok bytes
              have decoded : decodeValue dict (budget + 1)
                  ValueType.vectorFloat32.toByte bytes = (do
                    return .scalar (.vector (← readFloats bytes
                      (fun index => index * 4) 0 (bytes.length / 4)))) := rfl
              rw [decoded, read]
              exact ⟨_, rfl⟩
          | object => exact object_accepted returns
          | array =>
              exact array_accepted
                (fun _ _ single => inductionHypothesis single) returns

end Acceptance

end CocoDB.Cson
