import CocoDB.Document.Calls
import CocoDB.Document.Memory
import CocoDB.Document.Validation
import CocoDB.Query.Derived

/-!
# Validation of stored documents

A document that was accepted is validated again when it is updated, in the form
in which it was stored: an array may have been lost, an `int32` and a `float32`
are no longer taken for zero, and `_id` has become a string.
-/

namespace CocoDB.Document

open Lib Cson CocoDB.Query
open Index (Runtime DocumentError)

/-! ## What stays accepted -/

/-- The number that a value is compared by once it has been stored, if it was
taken for zero before. -/
def renumbered : Value → Option ℚ
  | .scalar (.int32 value) => some value.toInt
  | .scalar (.float32 bits) => some (exactFloat (float64OfFloat32 bits))
  | _ => none

structure StaysAccepted (rule : FieldRule) (val : Option Value) : Prop where
  kept : ∀ value, val = some value → ¬ Kept value → rule.required = false
  within : ∀ value number, val = some value → renumbered value = some number →
    ∀ upper bound, rule.bound upper = some bound → ¬ Beyond number bound upper

structure AcceptsID (rule : FieldRule) (id : Bytes) : Prop where
  type : rule.type ≠ intType ∧ rule.type ≠ floatType ∧ rule.type ≠ boolType
  pattern : rule.type = stringType →
    ∀ pattern, rule.pattern = some pattern → pattern id = true
  bounds : ∀ upper bound, rule.bound upper = some bound →
    ¬ Beyond 0 bound upper

section Field

variable {rule : FieldRule} {dict : FieldDictionary} {budget : Nat}
  {value other : Value}

def storedNumber (value : Value) : ℚ :=
  (renumbered value).getD (boundNumber value)

theorem widened_accepted {scalar : Scalar}
    (accepted : checkType rule (.scalar scalar) = none) :
    checkType rule (.scalar (widen scalar)) = none := by
  unfold checkType at accepted ⊢
  split_ifs at accepted ⊢ <;> cases scalar <;> simp_all [widen]

theorem widened_number (scalar : Scalar) :
    boundNumber (.scalar (widen scalar)) =
      storedNumber (.scalar scalar) := by
  cases scalar <;> simp [widen, storedNumber, renumbered, boundNumber]

theorem widened_null (scalar : Scalar) :
    isNil (.scalar (widen scalar)) = isNil (.scalar scalar) := by
  cases scalar <;> rfl

theorem checkType_composite {value other : Value}
    (alike : (∃ items others, value = .array items ∧ other = .array others) ∨
      ∃ fields others, value = .object fields ∧ other = .object others) :
    checkType rule other = checkType rule value := by
  rcases alike with ⟨items, others, rfl, rfl⟩ | ⟨fields, others, rfl, rfl⟩ <;>
    rfl

/-- What validation sees of a value that is read back. -/
structure Alike (rule : FieldRule) (value other : Value) : Prop where
  null : isNil other = isNil value
  type : checkType rule value = none → checkType rule other = none
  number : boundNumber other = storedNumber value

theorem alike_recovered (storable : Storable dict budget value)
    (found : recovered dict budget value = some other) :
    Alike rule value other := by
  obtain ⟨budget, rfl⟩ := storable.budget_eq
  cases value with
  | unsupported typeName => exact absurd storable.valid (by simp [Valid])
  | scalar scalar =>
      rw [recovered_scalar] at found
      cases found
      exact ⟨widened_null scalar, widened_accepted, widened_number scalar⟩
  | array items =>
      obtain ⟨_, others, rfl, _⟩ :=
        (recovered_array_iff storable.valid.supported storable.short other).mp
          found
      refine ⟨rfl, fun accepted => ?_, rfl⟩
      rw [checkType_composite (.inl ⟨items, others, rfl, rfl⟩)]
      exact accepted
  | object fields =>
      rw [recovered_object storable] at found
      cases found
      refine ⟨rfl, fun accepted => ?_, rfl⟩
      rw [checkType_composite (.inr ⟨fields, _, rfl, rfl⟩)]
      exact accepted

theorem checkPresent_eq_none : checkPresent rule value = none ↔
    checkType rule value = none ∧ ∀ upper bound,
      rule.bound upper = some bound →
        ¬ Beyond (boundNumber value) bound upper := by
  rw [checkPresent, Option.or_eq_none_iff, checkBounds_eq_none]

theorem checkField_none : checkField rule none = none ↔
    rule.required = false := by
  unfold checkField
  simp

theorem checkField_null (null : isNil value = true) :
    checkField rule (some value) = none ↔ rule.required = false := by
  unfold checkField
  simp [null]

theorem checkField_some (there : isNil value = false) :
    checkField rule (some value) = checkPresent rule value := by
  unfold checkField
  simp [there]

theorem kept_of_renumbered {number : ℚ}
    (counts : renumbered value = some number) : Kept value := by
  cases value with
  | scalar scalar => rw [Kept]; trivial
  | _ => cases counts

theorem renumbered_null (null : isNil value = true) :
    renumbered value = none := by
  unfold isNil at null
  split at null
  · rfl
  · cases null

theorem Alike.accepted (alike : Alike rule value other)
    (accepted : checkField rule (some value) = none) :
    checkField rule (some other) = none ↔
      ∀ number, renumbered value = some number → ∀ upper bound,
        rule.bound upper = some bound → ¬ Beyond number bound upper := by
  cases null : isNil value with
  | true =>
      have nullLater := alike.null.trans null
      rw [checkField_null null] at accepted
      simp [checkField_null nullLater, accepted, renumbered_null null]
  | false =>
      have thereLater := alike.null.trans null
      rw [checkField_some null, checkPresent_eq_none] at accepted
      obtain ⟨type, within⟩ := accepted
      rw [checkField_some thereLater, checkPresent_eq_none, alike.number,
        storedNumber]
      cases counts : renumbered value with
      | none => simpa [alike.type type] using within
      | some number => simp [alike.type type]

theorem staysAccepted_iff {val : Option Value}
    (stored : ∀ value, val = some value → Storable dict budget value)
    (accepted : checkField rule val = none) :
    checkField rule (val.bind (recovered dict budget)) = none ↔
      StaysAccepted rule val := by
  cases val with
  | none =>
      rw [Option.bind_none]
      exact ⟨fun _ => ⟨nofun, nofun⟩, fun _ => accepted⟩
  | some value =>
      have storable := stored value rfl
      have keeps := recovered_isSome_iff storable
      rw [Option.bind_some]
      cases found : recovered dict budget value with
      | none =>
          have lost : ¬ Kept value := by
            rw [← keeps, found]
            decide
          rw [checkField_none]
          constructor
          · intro optional
            refine ⟨fun _ _ _ => optional, ?_⟩
            intro _ _ same counts
            cases same
            exact absurd (kept_of_renumbered counts) lost
          · intro stays
            exact stays.kept value rfl lost
      | some other =>
          have kept : Kept value := by
            rw [← keeps, found]
            rfl
          have alike : Alike rule value other :=
            alike_recovered storable found
          rw [alike.accepted accepted]
          constructor
          · intro within
            refine ⟨?_, ?_⟩
            · intro _ same lost
              cases same
              exact absurd kept lost
            · intro _ number same
              cases same
              exact within number
          · intro stays number
            exact stays.within value number rfl

theorem acceptsID_iff {id : Bytes} :
    checkField rule (some (.scalar (.string id))) = none ↔
      AcceptsID rule id := by
  rw [checkField_some rfl, checkPresent_eq_none, checkType_eq_none]
  constructor
  · rintro ⟨⟨type, pattern⟩, bounds⟩
    refine ⟨⟨?_, ?_, ?_⟩, fun string => pattern string id rfl, bounds⟩
    · intro int
      have found := (type (by rw [int]; decide)).int int
      cases found
    · intro float
      have found := (type (by rw [float]; decide)).float float
      cases found
    · intro bool
      obtain ⟨_, found⟩ := (type (by rw [bool]; decide)).bool bool
      cases found
  · rintro ⟨⟨int, float, bool⟩, pattern, bounds⟩
    refine ⟨⟨fun array => ?_, ?_⟩, bounds⟩
    · exact ⟨fun _ => ⟨id, rfl⟩, fun same => absurd same int,
        fun same => absurd same float, fun same => absurd same bool,
        fun same => absurd same array⟩
    · intro string str same
      cases same
      exact pattern string

end Field

section Update

variable {runtime : Runtime} {σ : Type} [Kernel σ] {orders : Orders σ}
  {coll next : Collection σ} {id : Bytes}

theorem find_schema {result : Except DocumentError RecordID}
    (found : coll.find id = (result, next)) : next.schema = coll.schema := by
  unfold Collection.find at found
  split at found <;> cases found <;> rfl

theorem get_schema {result : Except DocumentError Cson.Document}
    (got : coll.get id = (result, next)) : next.schema = coll.schema := by
  unfold Collection.get Collection.getView at got
  rcases found : coll.find id with ⟨located, after⟩
  rw [found] at got
  have same := find_schema found
  cases located with
  | error cause =>
      cases got
      exact same
  | ok recID =>
      simp only at got
      split at got
      · next viewed =>
          split at viewed
          · cases viewed; cases got; exact same
          · split at viewed <;> cases viewed
            cases got
            exact same
      · next viewed =>
          split at viewed
          · cases viewed
          · split at viewed <;> cases viewed
            cases got
            exact same

theorem rewrite_not_schema {doc : Cson.Document} {recID : RecordID}
    {message : Bytes} :
    (coll.rewrite runtime orders id doc recID).1 ≠
      .error (.schema message) := by
  unfold Collection.rewrite
  simp only
  split
  · exact nofun
  · split
    · next failed =>
        obtain ⟨reason, rfl⟩ := store_error failed
        exact nofun
    · exact nofun

theorem update_not_schema {ops : List UpdateOp} {doc : Cson.Document}
    {recID : RecordID} {after : Collection σ}
    (got : coll.get id = (.ok doc, next))
    (found : next.find id = (.ok recID, after)) :
    (∀ message, (coll.update runtime orders id ops).1 ≠
        .error (.schema message)) ↔
      coll.schema (Collection.withID
        (ops.foldl (applyOp runtime) doc) id) = none := by
  rw [Collection.update, got]
  simp only [Collection.replace, found]
  rw [find_schema found, get_schema got]
  cases coll.schema (Collection.withID
      (ops.foldl (applyOp runtime) doc) id) with
  | some message => simp
  | none => simpa using fun message => rewrite_not_schema

end Update

/-! ## Validation before and after storing -/

structure Serves {σ : Type} [Kernel σ] (coll : Collection σ) (id : Bytes)
    (doc : Cson.Document) : Prop where
  got : (coll.get id).1 = .ok doc
  found : ∃ recID, ((coll.get id).2.find id).1 = .ok recID

section Stored

variable {dict : FieldDictionary} {payload : Bytes} {doc map : Cson.Document}
  {order later : Shuffle (Bytes × FieldRule)} {schema : Schema}

theorem revalidate_iff (encoded : Encoded dict payload doc)
    (wellFormed : dict.WellFormed)
    (reads : CocoDB.Query.toMap (viewOf dict payload) = .ok map)
    (accepted : validate order schema doc = none) {entry : Bytes × FieldRule}
    (member : entry ∈ schema) :
    checkField entry.2 (lookup map entry.1) = none ↔
      StaysAccepted entry.2 (lookup doc entry.1) := by
  obtain ⟨same, back, _, looks⟩ := toMap_encoded encoded wellFormed
  rw [back] at reads
  cases reads
  rw [looks entry.1]
  apply staysAccepted_iff
  · intro value found
    rw [lookup, Option.map_eq_some_iff] at found
    obtain ⟨field, listed, rfl⟩ := found
    exact Encoded.field encoded wellFormed (List.mem_of_find?_eq_some listed)
  · exact validate_eq_none.mp accepted entry member

theorem update_accepts_iff (encoded : Encoded dict payload doc)
    (wellFormed : dict.WellFormed)
    (reads : CocoDB.Query.toMap (viewOf dict payload) = .ok map)
    (accepted : validate order schema doc = none) {σ : Type} [Kernel σ]
    {format : Format} {coll : Collection σ} {id : Bytes} {ops : List UpdateOp}
    {runtime : Runtime} {orders : Orders σ}
    (serves : Serves (coll.setSchema format later schema) id map)
    (others : ∀ op ∈ ops, ∀ entry ∈ schema, entry.1 ≠ op.field) :
    (∀ message, ((coll.setSchema format later schema).update runtime orders
        id ops).1 ≠ .error (.schema message)) ↔
      ∀ entry ∈ schema, if entry.1 = idField then AcceptsID entry.2 id
        else StaysAccepted entry.2 (lookup doc entry.1) := by
  obtain ⟨recID, found⟩ := serves.found
  rw [update_not_schema (Prod.ext serves.got rfl) (Prod.ext found rfl)]
  simp only [Collection.setSchema, Option.map_eq_none_iff, validate_eq_none]
  apply forall₂_congr
  intro entry member
  rw [Collection.withID, lookup_setField]
  split
  · exact acceptsID_iff
  · rw [lookup_foldl, opsOn_eq_nil fun op listed =>
      others op listed entry member]
    exact revalidate_iff encoded wellFormed reads accepted member

end Stored

/-! ## One document in memory -/

def memoryOf (dict : FieldDictionary) (id payload : Bytes) :
    Collection Memory where
  dict := dict
  primaryIndex := [⟨Index.encodeString id, Index.recordBytes 1⟩]
  secIndexes := []
  schema := fun _ => none
  kernel := ⟨[(1, payload)], 2⟩

/-- A document with the field `a`, whose `_id` is `p`. -/
def item (value : Scalar) : Cson.Document :=
  [(idField, .scalar (.string [0x70])), ([0x61], .scalar value)]

def itemPayload (value : Scalar) : Bytes :=
  (written singleDict (.object (item value))).2

theorem item_encoded {value : Scalar}
    (short : (itemPayload value).length < 2 ^ 32) :
    Encoded singleDict (itemPayload value) (item value) := by
  refine ⟨?_, ?_, rfl, short⟩
  · simp [Valid, ValidFields, item, idField]
  · intro name member
    have same : name = idField ∨ name = [0x61] := by
      simpa [names, namesOfFields, item] using member
    cases same with
    | inl id => exact ⟨1, by rw [id]; decide⟩
    | inr field => exact ⟨2, by rw [field]; decide⟩

theorem memoryOf_serves {dict : FieldDictionary} {id payload : Bytes}
    {doc map : Cson.Document} (encoded : Encoded dict payload doc)
    (reads : CocoDB.Query.toMap (viewOf dict payload) = .ok map)
    (schema : Cson.Document → Option Bytes) :
    Serves { memoryOf dict id payload with schema := schema } id map := by
  have located : Collection.find id
      { memoryOf dict id payload with schema := schema } =
      (.ok 1, { memoryOf dict id payload with schema := schema }) := by
    have lookedUp : Index.PrimaryIndex.get id
        (memoryOf dict id payload).primaryIndex
        (memoryOf dict id payload).kernel =
        (.ok (some 1), (memoryOf dict id payload).kernel) := by
      simp [Index.PrimaryIndex.get, Kernel.search, memoryOf, BTree.bindings,
        Index.recordBytes_length, Index.recordOf_recordBytes]
    rw [Collection.find, lookedUp]
  have viewed : Collection.getView id
      { memoryOf dict id payload with schema := schema } =
      (.ok (viewOf dict payload),
        { memoryOf dict id payload with schema := schema }) := by
    rw [Collection.getView, located]
    simp only
    have known : Kernel.readRecord 1 (memoryOf dict id payload).kernel =
        (.ok payload, (memoryOf dict id payload).kernel) := by
      simp [Kernel.readRecord, Memory.recordMap, memoryOf]
    rw [known]
    simp only [memoryOf]
    rw [newDocumentView_ok dict encoded.entry.1]
    rfl
  have answer : Collection.mapOf (viewOf dict payload) = .ok map := by
    have same : (viewOf dict payload).toMap
        ((viewOf dict payload).data.length + 1) = .ok map := reads
    rw [Collection.mapOf, same]
  constructor
  · rw [Collection.get, viewed]
    exact answer
  · rw [Collection.get, viewed]
    exact ⟨1, by simp only [located]⟩

/-- `a` is an `int` and at most 3. -/
def atMostThree : Schema := [([0x61], ⟨false, intType, none, some 3, none⟩)]

/-- An update of `b`. -/
def updateB (value : Scalar) : Except DocumentError Unit :=
  (((memoryOf singleDict [0x70] (itemPayload value)).setSchema
      ⟨fun name => name, fun _ => []⟩ (.listed _) atMostThree).update
    plainRuntime ⟨.listed, .listed _, .listed _⟩ [0x70]
    [.unset [0x62]]).1

theorem five_breaks : ¬ RuleHolds ⟨false, intType, none, some 3, none⟩
    (some (.scalar (.int32 5))) := by
  intro holds
  refine holds (.bound true) _ rfl 5 rfl 3 rfl ?_
  rw [Beyond]
  norm_num

end CocoDB.Document
