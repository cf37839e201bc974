import CocoDB.Cson.Supported
import CocoDB.Document.Collection
import CocoDB.Query.Readable

/-!
# Reading a stored document back

A document that was stored comes back field by field: a scalar is widened, an
array that ends with a value of no bytes is lost with its field, and everything
else comes back as a value of the same kind.
-/

namespace CocoDB.Document

open Lib Cson CocoDB.Query

section Lookup

variable {doc : Cson.Document} {name field : Bytes}

theorem lookup_eq_some_iff (distinct : (doc.map Prod.fst).Nodup)
    {value : Value} : lookup doc name = some value ↔ (name, value) ∈ doc := by
  rw [lookup, Option.map_eq_some_iff]
  constructor
  · rintro ⟨entry, found, rfl⟩
    have named : entry.1 = name := by
      simpa using List.find?_some found
    rw [← named]
    exact List.mem_of_find?_eq_some found
  · intro member
    cases found : doc.find? fun entry => entry.1 = name with
    | none =>
        have absent := List.find?_eq_none.mp found _ member
        simp at absent
    | some entry =>
        have named : entry.1 = name := by
          simpa using List.find?_some found
        have same := List.inj_on_of_nodup_map distinct
          (List.mem_of_find?_eq_some found) member named
        exact ⟨entry, rfl, by rw [same]⟩

theorem lookup_setField (doc : Cson.Document) (field : Bytes) (value : Value)
    (name : Bytes) : lookup (setField doc field value) name =
      if name = field then some value else lookup doc name := by
  rw [lookup, setField, List.find?_append]
  by_cases same : name = field
  · subst same
    have gone : (doc.filter fun entry => entry.1 ≠ name).find?
        (fun entry => entry.1 = name) = none := by
      rw [List.find?_eq_none]
      intro entry member
      simpa using (List.mem_filter.mp member).2
    rw [gone]
    simp
  · have other : ([(field, value)] : Cson.Document).find?
        (fun entry => entry.1 = name) = none := by
      simp [Ne.symm same]
    rw [other, Option.or_none, if_neg same, lookup, List.find?_filter]
    congr 2
    funext entry
    by_cases named : entry.1 = name
    · simp [named, same]
    · simp [named]

theorem lookup_unset (doc : Cson.Document) (field name : Bytes) :
    lookup (doc.filter fun entry => entry.1 ≠ field) name =
      if name = field then none else lookup doc name := by
  rw [lookup, List.find?_filter]
  by_cases same : name = field
  · rw [if_pos same, Option.map_eq_none_iff, List.find?_eq_none]
    intro entry _
    simp [same]
  · rw [if_neg same, lookup]
    congr 2
    funext entry
    by_cases named : entry.1 = name
    · simp [named, same]
    · simp [named]

theorem setField_nodup (distinct : (doc.map Prod.fst).Nodup) (field : Bytes)
    (value : Value) : ((setField doc field value).map Prod.fst).Nodup := by
  rw [setField, List.map_append, List.nodup_append]
  refine ⟨?_, by simp, ?_⟩
  · exact (List.filter_sublist.map Prod.fst).nodup distinct
  · intro name member other single
    rw [List.map_singleton, List.mem_singleton] at single
    obtain ⟨entry, kept, rfl⟩ := List.mem_map.mp member
    rw [single]
    simpa using (List.mem_filter.mp kept).2

end Lookup

section Recovered

variable {dict : FieldDictionary} {budget : Nat}

def recovered (dict : FieldDictionary) (budget : Nat) (value : Value) :
    Option Value :=
  match decodeValue dict budget (written dict value).1.toByte
      (written dict value).2 with
  | .ok other => some other
  | _ => none

theorem recovered_eq_some_iff {value other : Value} :
    recovered dict budget value = some other ↔
      decodeValue dict budget (written dict value).1.toByte
        (written dict value).2 = .ok other := by
  rw [recovered]
  split <;> simp_all

theorem recovered_scalar (dict : FieldDictionary) (budget : Nat)
    (value : Scalar) : recovered dict (budget + 1) (.scalar value) =
      some (.scalar (widen value)) := by
  rw [recovered_eq_some_iff, written]
  exact decode_scalar dict budget value

mutual

def Kept : Value → Prop
  | .scalar _ => True
  | .unsupported _ => False
  | .array items => LastFilled items ∧ KeptItems items
  | .object _ => True

def KeptItems : List Value → Prop
  | [] => True
  | item :: rest => Kept item ∧ KeptItems rest

end

theorem keptItems_iff {items : List Value} :
    KeptItems items ↔ ∀ item ∈ items, Kept item := by
  induction items with
  | nil => simp [KeptItems]
  | cons item rest inductionHypothesis =>
      rw [KeptItems, List.forall_mem_cons, inductionHypothesis]

/-- The elements of an array are read back if it does not end with an element of
no bytes. -/
theorem readItems_iff {items : List Value}
    (supported : ∀ item ∈ items, Supported item)
    (short : (writtenItems dict items).length < 2 ^ 32)
    (others : List Value) :
    readItems (decodeValue dict budget) items.length
        (writtenItems dict items) = .ok others ↔
      LastFilled items ∧ List.Forall₂
        (fun item other => recovered dict budget item = some other)
        items others := by
  induction items generalizing others with
  | nil =>
      rw [List.forall₂_nil_left_iff]
      constructor
      · rintro ⟨⟩
        exact ⟨nofun, rfl⟩
      · rintro ⟨_, rfl⟩
        rfl
  | cons item rest inductionHypothesis =>
      obtain ⟨first, later⟩ := List.forall_mem_cons.mp supported
      have itemShort := @item_short dict (item :: rest) item
        List.mem_cons_self
      have restShort : (writtenItems dict rest).length < 2 ^ 32 := by
        rw [writtenItems] at short
        simp only [List.length_append] at short
        omega
      rw [lastFilled_cons, List.length_cons, readItems, writtenItems,
        readItem_written _ (by omega)]
      by_cases empty : (written dict item).2 ++ writtenItems dict rest = []
      · -- the decoder reports the end of the array instead of the element
        rw [if_pos empty]
        obtain ⟨itemEmpty, restEmpty⟩ := List.append_eq_nil_iff.mp empty
        have isBlank := (written_nil_iff first).mp itemEmpty
        have noRest : rest = [] := by
          have bound := items_length_le dict rest
          rw [restEmpty, List.length_nil, Nat.le_zero] at bound
          exact List.eq_nil_of_length_eq_zero bound
        simp [noRest, isBlank]
      · rw [if_neg empty]
        have filled : rest = [] → blank item = false := by
          intro noRest
          subst noRest
          by_contra isBlank
          rw [Bool.not_eq_false] at isBlank
          apply empty
          rw [(written_nil_iff first).mpr isBlank]
          rfl
        simp only
        constructor
        · intro read
          cases decoded : decodeValue dict budget
              (written dict item).1.toByte (written dict item).2 with
          | panic => simp [decoded] at read
          | exhausted => simp [decoded] at read
          | error cause => simp [decoded] at read
          | ok value =>
              rw [decoded, Outcome.ok_bind] at read
              cases tail : readItems (decodeValue dict budget) rest.length
                  (writtenItems dict rest) with
              | panic => simp [tail] at read
              | exhausted => simp [tail] at read
              | error cause => simp [tail] at read
              | ok values =>
                  rw [tail] at read
                  cases read
                  obtain ⟨last, each⟩ :=
                    (inductionHypothesis later restShort values).mp tail
                  exact ⟨⟨filled, last⟩, .cons
                    (recovered_eq_some_iff.mpr decoded) each⟩
        · rintro ⟨⟨_, last⟩, each⟩
          cases each with
          | @cons _ other _ values found each =>
              have tail := (inductionHypothesis later restShort values).mpr
                ⟨last, each⟩
              rw [recovered_eq_some_iff.mp found, Outcome.ok_bind, tail]
              rfl

theorem recovered_array_iff {items : List Value}
    (supported : Supported (.array items))
    (short : (written dict (.array items)).2.length < 2 ^ 32)
    (other : Value) :
    recovered dict (budget + 1) (.array items) = some other ↔
      LastFilled items ∧ ∃ others, other = .array others ∧ List.Forall₂
        (fun item other => recovered dict budget item = some other)
        items others := by
  rw [Supported, supportedItems_iff] at supported
  have shape : written dict (.array items) =
      (.array, be 4 items.length ++ writtenItems dict items) := by
    rw [written]
  rw [recovered_eq_some_iff, shape]
  rw [shape, List.length_append, be_length] at short
  have counted := items_length_le dict items
  have framed : readUint32 (be 4 items.length ++ writtenItems dict items) =
      .ok (items.length, writtenItems dict items) :=
    readUint32_be _ (by omega)
  rw [decodeValue_framed framed]
  have read := @readItems_iff dict budget items supported (by omega)
  constructor
  · intro found
    cases tail : readItems (decodeValue dict budget) items.length
        (writtenItems dict items) with
    | panic => simp [tail] at found
    | exhausted => simp [tail] at found
    | error cause => simp [tail] at found
    | ok others =>
        rw [tail] at found
        cases found
        obtain ⟨last, each⟩ := (read others).mp tail
        exact ⟨last, others, rfl, each⟩
  · rintro ⟨last, others, rfl, each⟩
    rw [(read others).mpr ⟨last, each⟩]
    rfl

theorem exists_forall₂_iff {α β : Type} {read : α → Option β}
    {items : List α} :
    (∃ others, List.Forall₂ (fun item other => read item = some other)
      items others) ↔ ∀ item ∈ items, (read item).isSome = true := by
  induction items with
  | nil => simp
  | cons item rest inductionHypothesis =>
      rw [List.forall_mem_cons, ← inductionHypothesis,
        Option.isSome_iff_exists]
      constructor
      · rintro ⟨_, each⟩
        cases each with
        | @cons _ other _ others found each =>
            exact ⟨⟨other, found⟩, others, each⟩
      · rintro ⟨⟨other, found⟩, others, each⟩
        exact ⟨other :: others, .cons found each⟩

theorem decode_supported {value : Value} (supported : Supported value)
    (short : (written dict value).2.length < 2 ^ 32)
    (enough : height value ≤ budget) :
    (decodeValue dict budget (written dict value).1.toByte
        (written dict value).2).Returns ∧
      ((recovered dict budget value).isSome = true ↔ Kept value) := by
  induction value using Value.nested generalizing budget with
  | unsupported typeName => exact absurd supported (by simp [Supported])
  | scalar value =>
      obtain ⟨budget, rfl⟩ : ∃ less, budget = less + 1 :=
        ⟨budget - 1, by rw [height] at enough; omega⟩
      rw [recovered_scalar, Kept, written, decode_scalar]
      simp
  | array items inductionHypothesis =>
      rw [height] at enough
      obtain ⟨budget, rfl⟩ : ∃ less, budget = less + 1 :=
        ⟨budget - 1, by omega⟩
      have each := supported
      rw [Supported, supportedItems_iff] at each
      have itemsShort := short
      rw [written, List.length_append, be_length] at itemsShort
      have decoded : ∀ item ∈ items, _ := fun item member =>
        inductionHypothesis item member (each item member)
          (by
            have inside := @item_short dict items item member
            omega)
          (show height item ≤ budget by
            have deepest := height_le_itemsHeight member
            omega)
      constructor
      · have counted := items_length_le dict items
        have framed : readUint32
            (be 4 items.length ++ writtenItems dict items) =
              .ok (items.length, writtenItems dict items) :=
          readUint32_be _ (by omega)
        rw [written, decodeValue_framed framed]
        apply (Outcome.returns_map Value.array).mpr
        exact (readItems_written (fun item member =>
          ⟨each item member, (decoded item member).1⟩) (by omega)).1
      · have read := @recovered_array_iff dict budget items supported short
        rw [Kept, keptItems_iff, Option.isSome_iff_exists]
        constructor
        · rintro ⟨other, found⟩
          obtain ⟨last, others, _, found⟩ := (read other).mp found
          refine ⟨last, fun item member => (decoded item member).2.mp ?_⟩
          exact exists_forall₂_iff.mp ⟨others, found⟩ item member
        · rintro ⟨last, kept⟩
          obtain ⟨others, found⟩ := exists_forall₂_iff.mpr
            fun item member => (decoded item member).2.mpr (kept item member)
          exact ⟨.array others, (read _).mpr ⟨last, others, rfl, found⟩⟩
  | object fields inductionHypothesis =>
      rw [height] at enough
      obtain ⟨budget, rfl⟩ : ∃ less, budget = less + 1 :=
        ⟨budget - 1, by omega⟩
      rw [Supported, supportedFields_iff] at supported
      have decoded : ∀ field ∈ fields, _ := fun field member =>
        inductionHypothesis field member (supported field member)
          (by
            rw [written] at short
            exact field_short member short)
          (show height field.2 ≤ budget by
            have deepest := height_le_fieldsHeight member
            omega)
      have shape : written dict (.object fields) =
          (.object, assemble (fields.map (rawFieldOf dict))) := by
        rw [written, writtenFields_eq_map]
      rw [recovered, shape]
      rw [shape] at short
      have layout := assemble_short short
      have perm := sortFields_perm (fields.map (rawFieldOf dict))
      simp only at short ⊢
      rw [layout] at short ⊢
      generalize sortFields (fields.map (rawFieldOf dict)) = sorted at *
      obtain ⟨headed, counted⟩ := objectBytes_wellHeaded sorted
      -- the header may count fewer fields than there are
      have fewer := Nat.mod_le sorted.length (2 ^ 16)
      have returns : (decodeValue dict (budget + 1) ValueType.object.toByte
          (objectBytes sorted)).Returns := by
        apply (object_returns_iff headed).mpr
        intro index before _
        obtain ⟨_, typed, _, flat, content⟩ := objectBytes_at short
          (show index < sorted.length by omega)
        obtain ⟨field, member, same⟩ := List.mem_map.mp
          (perm.mem_iff.mp (List.getElem_mem (show index < sorted.length by
            omega)))
        rw [typed, content, ← same]
        exact ⟨flat, (decoded field member).1⟩
      refine ⟨returns, iff_of_true ?_ (by rw [Kept]; trivial)⟩
      rw [decodeValue_headed headed] at returns ⊢
      obtain ⟨map, collected⟩ := toMapFrom_ok
        (by simpa using headed.2.2) ((Outcome.returns_map _).mp returns)
      rw [collected]
      rfl

/-! ## Values that are read back -/

structure Storable (dict : FieldDictionary) (budget : Nat) (value : Value) :
    Prop where
  valid : Valid value
  numbered : Numbered dict value
  short : (written dict value).2.length < 2 ^ 32
  enough : height value ≤ budget

theorem Storable.budget_eq {value : Value}
    (storable : Storable dict budget value) : ∃ less, budget = less + 1 := by
  have enough := storable.enough
  refine ⟨budget - 1, ?_⟩
  cases value <;> rw [height] at enough <;> omega

theorem Storable.item {items : List Value} {item : Value}
    (storable : Storable dict (budget + 1) (.array items))
    (member : item ∈ items) : Storable dict budget item := by
  obtain ⟨valid, numbered, short, enough⟩ := storable
  rw [Valid, validItems_iff] at valid
  rw [written, List.length_append] at short
  rw [height] at enough
  have inside := height_le_itemsHeight member
  have part := @item_short dict items item member
  exact ⟨valid item member, numbered.item member, by omega, by omega⟩

theorem Storable.field {fields : List (Bytes × Value)}
    {field : Bytes × Value}
    (storable : Storable dict (budget + 1) (.object fields))
    (member : field ∈ fields) : Storable dict budget field.2 := by
  obtain ⟨valid, numbered, short, enough⟩ := storable
  rw [Valid, validFields_iff] at valid
  rw [written] at short
  rw [height] at enough
  have inside := height_le_fieldsHeight member
  exact ⟨valid.2.2 field member, numbered.field member,
    field_short member short, by omega⟩

theorem Storable.decodes {value : Value}
    (storable : Storable dict budget value) :
    (decodeValue dict budget (written dict value).1.toByte
        (written dict value).2).Returns ∧
      (Recovers dict budget value ↔ EndsFilled value ∧
        ∀ name ∈ names value, dict.Resolves name) :=
  decode_written storable.valid storable.numbered storable.short
    storable.enough

theorem recovered_object {fields : List (Bytes × Value)}
    (storable : Storable dict (budget + 1) (.object fields)) :
    recovered dict (budget + 1) (.object fields) =
      some (.object (Cson.gather dict (decodeValue dict budget)
        (sortFields (fields.map (rawFieldOf dict))) [])) :=
  recovered_eq_some_iff.mpr (decode_fields storable.valid storable.short
    fun _ member => (storable.field member).decodes.1)

theorem recovered_isSome_iff {value : Value}
    (storable : Storable dict budget value) :
    (recovered dict budget value).isSome = true ↔ Kept value :=
  (decode_supported storable.valid.supported storable.short
    storable.enough).2

/-! ## Documents -/

theorem lookup_gather {decode : UInt8 → Bytes → Outcome Value}
    {fields : List RawField}
    (distinct : (fields.map fun field => Cson.nameOf dict field.fieldID).Nodup)
    (result : Cson.Document) (name : Bytes) (value : Value) :
    lookup (Cson.gather dict decode fields result) name = some value ↔
      (∃ field ∈ fields, Cson.nameOf dict field.fieldID = name ∧
        decode field.valType.toByte field.valBytes = .ok value) ∨
      (lookup result name = some value ∧ ∀ field ∈ fields,
        Cson.nameOf dict field.fieldID = name →
          ∀ other, decode field.valType.toByte field.valBytes ≠ .ok other) := by
  induction fields generalizing result with
  | nil => simp [Cson.gather]
  | cons field rest inductionHypothesis =>
      rw [List.map_cons, List.nodup_cons] at distinct
      obtain ⟨fresh, distinct⟩ := distinct
      -- no later field has the name of the first one
      have alone : ∀ other ∈ rest, Cson.nameOf dict other.fieldID ≠
          Cson.nameOf dict field.fieldID := by
        intro other member same
        exact fresh (List.mem_map.mpr ⟨other, member, same⟩)
      have ended : (∀ other, decode field.valType.toByte field.valBytes ≠
            .ok other) →
          (lookup (Cson.gather dict decode (field :: rest) result) name =
            some value ↔
          lookup (Cson.gather dict decode rest result) name = some value) := by
        intro never
        rw [Cson.gather]
        split
        · next other decoded => exact absurd decoded (never other)
        · rfl
      by_cases decodes : ∃ other,
          decode field.valType.toByte field.valBytes = .ok other
      · obtain ⟨other, decoded⟩ := decodes
        rw [Cson.gather, decoded]
        simp only
        rw [inductionHypothesis distinct, lookup_setField]
        by_cases own : name = Cson.nameOf dict field.fieldID
        · subst own
          rw [if_pos rfl]
          constructor
          · rintro (⟨found, member, named, _⟩ | ⟨same, _⟩)
            · exact absurd named (alone found member)
            · cases same
              exact .inl ⟨field, List.mem_cons_self, rfl, decoded⟩
          · rintro (⟨found, member, named, same⟩ | ⟨_, none⟩)
            · cases List.mem_cons.mp member with
              | inl first =>
                  rw [first, decoded] at same
                  cases same
                  exact .inr ⟨rfl, fun found member named =>
                    absurd named (alone found member)⟩
              | inr later => exact absurd named (alone found later)
            · exact absurd decoded (none field List.mem_cons_self rfl other)
        · rw [if_neg own]
          simp [Ne.symm own]
      · rw [not_exists] at decodes
        rw [ended decodes, inductionHypothesis distinct]
        simp [decodes]

theorem gather_nodup {decode : UInt8 → Bytes → Outcome Value}
    {fields : List RawField} {result : Cson.Document}
    (distinct : (result.map Prod.fst).Nodup) :
    ((Cson.gather dict decode fields result).map Prod.fst).Nodup := by
  induction fields generalizing result with
  | nil => exact distinct
  | cons field rest inductionHypothesis =>
      rw [Cson.gather]
      split
      · exact inductionHypothesis (setField_nodup distinct _ _)
      · exact inductionHypothesis distinct

theorem mem_gather {decode : UInt8 → Bytes → Outcome Value}
    {fields : List RawField} {result : Cson.Document} {entry : Bytes × Value}
    (member : entry ∈ Cson.gather dict decode fields result) :
    entry ∈ result ∨ ∃ field ∈ fields,
      decode field.valType.toByte field.valBytes = .ok entry.2 := by
  induction fields generalizing result with
  | nil => exact .inl member
  | cons field rest inductionHypothesis =>
      rw [Cson.gather] at member
      split at member
      · next value decoded =>
          rcases inductionHypothesis member with
            inside | ⟨other, listed, decodes⟩
          · rw [setField, List.mem_append, List.mem_singleton] at inside
            rcases inside with before | rfl
            · exact .inl (List.mem_of_mem_filter before)
            · exact .inr ⟨field, List.mem_cons_self, decoded⟩
          · exact .inr ⟨other, List.mem_cons_of_mem _ listed, decodes⟩
      · rcases inductionHypothesis member with
          before | ⟨other, listed, decodes⟩
        · exact .inl before
        · exact .inr ⟨other, List.mem_cons_of_mem _ listed, decodes⟩

section Stored

variable {payload : Bytes} {doc : Cson.Document}
  (encoded : Encoded dict payload doc) (wellFormed : dict.WellFormed)
include encoded wellFormed

theorem Encoded.storable :
    Storable dict (payload.length + 1 + 1) (.object doc) := by
  have short := encoded.short
  have shallow := height_le_length dict (.object doc)
  rw [← encoded.written_eq] at shallow
  rw [encoded.written_eq] at short
  exact ⟨encoded.valid, encoded.numbered wellFormed, short, by omega⟩

theorem Encoded.field {field : Bytes × Value} (member : field ∈ doc) :
    Storable dict (payload.length + 1) field.2 :=
  (Encoded.storable encoded wellFormed).field member

theorem Encoded.resolves_name {name : Bytes}
    (listed : name ∈ names (.object doc)) : dict.Resolves name := by
  obtain ⟨fieldID, known⟩ := encoded.known name listed
  rw [FieldDictionary.Resolves, FieldDictionary.idOf, known,
    Option.getD_some]
  exact (wellFormed.inverse _ _).mp known

theorem Encoded.resolves {field : Bytes × Value} (member : field ∈ doc) :
    Cson.nameOf dict (dict.idOf field.1) = field.1 := by
  apply nameOf_resolves
  apply Encoded.resolves_name encoded wellFormed
  rw [names, mem_namesOfFields]
  exact ⟨field, member, .inl rfl⟩

theorem toMap_encoded :
    ∃ map, toMap (viewOf dict payload) = .ok map ∧
      (map.map Prod.fst).Nodup ∧
      ∀ name, lookup map name = (lookup doc name).bind
        (recovered dict (payload.length + 1)) := by
  have distinct := encoded.valid
  rw [Valid] at distinct
  have asDecode : decodeValue dict (payload.length + 1 + 1)
      ValueType.object.toByte payload =
        (do return .object (← toMap (viewOf dict payload))) := by
    rw [decodeValue_eq_decode, decode, newDocumentView_ok dict encoded.entry.1]
    rfl
  have shape : (written dict (.object doc)).1 = .object := by
    rw [written]
  have decoded := recovered_eq_some_iff.mp
    (recovered_object (Encoded.storable encoded wellFormed))
  rw [shape, ← encoded.written_eq, asDecode] at decoded
  have perm := sortFields_perm (doc.map (rawFieldOf dict))
  have named : ((sortFields (doc.map (rawFieldOf dict))).map
      fun raw => Cson.nameOf dict raw.fieldID).Nodup := by
    rw [(perm.map _).nodup_iff, List.map_map]
    have same : doc.map ((fun raw => Cson.nameOf dict raw.fieldID) ∘
        rawFieldOf dict) = doc.map Prod.fst := by
      apply List.map_congr_left
      intro field member
      exact Encoded.resolves encoded wellFormed member
    rw [same]
    exact distinct.1
  refine ⟨_, Outcome.object_injective decoded, gather_nodup List.nodup_nil, ?_⟩
  intro name
  apply Option.ext
  intro value
  rw [lookup_gather named, Option.bind_eq_some_iff]
  constructor
  · rintro (⟨raw, member, own, decodes⟩ | ⟨absent, _⟩)
    · obtain ⟨field, listed, rfl⟩ := List.mem_map.mp (perm.mem_iff.mp member)
      have own := (Encoded.resolves encoded wellFormed listed).symm.trans own
      refine ⟨field.2, ?_, recovered_eq_some_iff.mpr decodes⟩
      rw [lookup_eq_some_iff distinct.1, ← own]
      exact listed
    · cases absent
  · rintro ⟨stored, found, decodes⟩
    have listed := (lookup_eq_some_iff distinct.1).mp found
    refine .inl ⟨rawFieldOf dict (name, stored),
      perm.mem_iff.mpr (List.mem_map_of_mem listed), ?_,
      recovered_eq_some_iff.mp decodes⟩
    exact Encoded.resolves encoded wellFormed listed

end Stored

end Recovered

end CocoDB.Document

/-! ## Updates field by field

The loop of `Update` works on a whole document.  Every operation is about one
field, so that the loop can be read for each field alone.
-/

namespace CocoDB.Document

open Lib Cson
open Index (Runtime)

def UpdateOp.field : UpdateOp → Bytes
  | .set field _ => field
  | .unset field => field
  | .increment field _ => field
  | .push field _ => field
  | .remove field _ => field

def turn (runtime : Runtime) (val : Option Value) : UpdateOp → Option Value
  | .set _ value => some value
  | .unset _ => none
  | .increment _ delta =>
      some (.scalar (.int64 (currentNumber runtime val + delta)))
  | .push _ value => some (.array (currentArray val ++ [value]))
  | .remove _ _ => val

section Turns

variable {runtime : Runtime} {doc : Cson.Document} {name : Bytes}

theorem lookup_applyOp (doc : Cson.Document) (op : UpdateOp) :
    lookup (applyOp runtime doc op) name =
      if name = op.field then turn runtime (lookup doc name) op
      else lookup doc name := by
  cases op with
  | set field value => exact lookup_setField doc field value name
  | unset field => exact lookup_unset doc field name
  | increment field delta =>
      rw [applyOp, lookup_setField, UpdateOp.field, turn]
      by_cases own : name = field
      · rw [if_pos own, if_pos own, own]
      · rw [if_neg own, if_neg own]
  | push field value =>
      rw [applyOp, lookup_setField, UpdateOp.field, turn]
      by_cases own : name = field
      · rw [if_pos own, if_pos own, own]
      · rw [if_neg own, if_neg own]
  | remove field value =>
      rw [applyOp, turn]
      split <;> rfl

def opsOn (name : Bytes) (ops : List UpdateOp) : List UpdateOp :=
  ops.filter fun op => name = op.field

theorem lookup_foldl (doc : Cson.Document) (ops : List UpdateOp) :
    lookup (ops.foldl (applyOp runtime) doc) name =
      (opsOn name ops).foldl (turn runtime) (lookup doc name) := by
  induction ops generalizing doc with
  | nil => rfl
  | cons op rest inductionHypothesis =>
      rw [List.foldl_cons, inductionHypothesis, lookup_applyOp]
      by_cases own : name = op.field
      · have kept : opsOn name (op :: rest) = op :: opsOn name rest :=
          List.filter_cons_of_pos (by simpa using own)
        rw [if_pos own, kept, List.foldl_cons]
      · have dropped : opsOn name (op :: rest) = opsOn name rest :=
          List.filter_cons_of_neg (by simpa using own)
        rw [if_neg own, dropped]

theorem opsOn_eq_nil {ops : List UpdateOp}
    (others : ∀ op ∈ ops, name ≠ op.field) : opsOn name ops = [] := by
  rw [opsOn, List.filter_eq_nil_iff]
  simpa using others

theorem applyOp_nodup (distinct : (doc.map Prod.fst).Nodup) (op : UpdateOp) :
    ((applyOp runtime doc op).map Prod.fst).Nodup := by
  cases op with
  | set field value => exact setField_nodup distinct field _
  | unset field =>
      exact distinct.sublist (List.filter_sublist.map Prod.fst)
  | increment field delta => exact setField_nodup distinct field _
  | push field value => exact setField_nodup distinct field _
  | remove field value => exact distinct

theorem foldl_nodup (distinct : (doc.map Prod.fst).Nodup)
    (ops : List UpdateOp) :
    ((ops.foldl (applyOp runtime) doc).map Prod.fst).Nodup := by
  induction ops generalizing doc with
  | nil => exact distinct
  | cons op rest inductionHypothesis =>
      exact inductionHypothesis (applyOp_nodup distinct op)

end Turns

end CocoDB.Document
