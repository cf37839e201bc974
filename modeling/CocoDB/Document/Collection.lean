import CocoDB.Index.Primary
import CocoDB.Index.Secondary
import CocoDB.Lib.Sweep

/-!
# Collections

`document/collection.go` and `document/update.go`.  Go visits the entries of a
map in any order: the calls take the orders of their loops as arguments.
-/

namespace CocoDB.Document

open Lib Cson Index

/-! ## Iteration orders -/

inductive Rearranged : Value → Value → Prop
  | scalar (value : Scalar) : Rearranged (.scalar value) (.scalar value)
  | unsupported (typeName : Bytes) :
      Rearranged (.unsupported typeName) (.unsupported typeName)
  | array {items others : List Value} :
      List.Forall₂ Rearranged items others →
      Rearranged (.array items) (.array others)
  | object {fields others : List (Bytes × Value)} {values : List Value} :
      List.Forall₂ Rearranged (fields.map Prod.snd) values →
      others.Perm ((fields.map Prod.fst).zip values) →
      Rearranged (.object fields) (.object others)

/-- An order in which `Encode` visits the fields of a document and of the maps
inside it. -/
structure Arrangement where
  visit : Cson.Document → Cson.Document
  same : ∀ doc, Rearranged (.object doc) (.object (visit doc))

theorem Rearranged.refl (value : Value) : Rearranged value value := by
  induction value using Value.nested with
  | scalar value => exact .scalar value
  | unsupported typeName => exact .unsupported typeName
  | array items inductionHypothesis =>
      exact .array (List.forall₂_same.mpr inductionHypothesis)
  | object fields inductionHypothesis =>
      refine @Rearranged.object _ _ (fields.map Prod.snd)
        (List.forall₂_same.mpr ?_) ?_
      · intro item member
        obtain ⟨field, listed, rfl⟩ := List.mem_map.mp member
        exact inductionHypothesis field listed
      · have paired := List.zip_unzip fields
        rw [List.unzip_eq_map] at paired
        rw [paired]

def Arrangement.listed : Arrangement := ⟨id, fun _ => .refl _⟩

/-- The orders of one call: of the fields, and of the indexes in its first and
in its second loop over them. -/
structure Orders (σ : Type) [Kernel σ] where
  fields : Arrangement
  first : Shuffle (SecondaryIndex σ)
  second : Shuffle (SecondaryIndex σ)

/-! ## Documents as maps -/

/-- `doc[field]` -/
def lookup (doc : Cson.Document) (field : Bytes) : Option Value :=
  (doc.find? fun entry => entry.1 = field).map Prod.snd

inductive UpdateOp where
  | set (field : Bytes) (value : Value)
  | unset (field : Bytes)
  | increment (field : Bytes) (delta : Int64)
  | push (field : Bytes) (value : Value)
  | remove (field : Bytes) (value : Value)

/-- The number that `OpIncrement` starts from. -/
def currentNumber (runtime : Runtime) : Option Value → Int64
  | some (.scalar (.int value)) => value
  | some (.scalar (.int64 value)) => value
  | some (.scalar (.float64 bits)) => runtime.truncate bits
  | _ => 0

/-- The array that `OpPush` extends. -/
def currentArray : Option Value → List Value
  | some (.array items) => items
  | _ => []

/-- One turn of the loop of `Update`, which has no case for `OpRemove` -/
def applyOp (runtime : Runtime) (doc : Cson.Document) :
    UpdateOp → Cson.Document
  | .set field value => setField doc field value
  | .unset field => doc.filter fun entry => entry.1 ≠ field
  | .increment field delta =>
      setField doc field (.scalar (.int64
        (currentNumber runtime (lookup doc field) + delta)))
  | .push field value =>
      setField doc field
        (.array (currentArray (lookup doc field) ++ [value]))
  | .remove _ _ => doc

/-! ## Collections -/

/-- `Collection`, with the storage it works on.  The schema returns the message
of its error. -/
structure Collection (σ : Type) [Kernel σ] where
  dict : FieldDictionary
  primaryIndex : Kernel.Tree σ
  secIndexes : List (SecondaryIndex σ)
  schema : Cson.Document → Option Bytes
  kernel : σ

namespace Collection

variable {σ : Type} [Kernel σ] (runtime : Runtime)

/-- `"idx_"` -/
def indexPrefix : Bytes := [0x69, 0x64, 0x78, 0x5F]

/-- The name that `CreateIndex` gives to an index without one. -/
def named (definition : IndexDefinition) : IndexDefinition :=
  match definition.name, definition.fields with
  | [], field :: _ => { definition with name := indexPrefix ++ field }
  | _, _ => definition

/-- `CreateIndex`: the new index takes the place of one with its name -/
def createIndex (definition : IndexDefinition) (coll : Collection σ) :
    Collection σ :=
  { coll with
    secIndexes := coll.secIndexes.filter (fun index =>
        index.definition.name ≠ (named definition).name) ++
      [newSecondaryIndex (named definition)] }

/-- `WriteRecord` and `primaryIndex.Put`, as `Insert` and `Replace` call
them -/
def store (id payload : Bytes) (recID : RecordID) (coll : Collection σ) :
    Except DocumentError RecordID × Collection σ :=
  match Kernel.writeRecord payload recID coll.kernel with
  | (.error cause, next) =>
      (.error (.storage cause), { coll with kernel := next })
  | (.ok newRecID, next) =>
      match PrimaryIndex.put id newRecID coll.primaryIndex next with
      | (.error cause, tree, final) =>
          (.error (.storage cause),
            { coll with primaryIndex := tree, kernel := final })
      | (.ok _, tree, final) =>
          (.ok newRecID, { coll with primaryIndex := tree, kernel := final })

/-- `_ = c.primaryIndex.Delete(id)` -/
def forget (id : Bytes) (coll : Collection σ) : Collection σ :=
  match PrimaryIndex.delete id coll.primaryIndex coll.kernel with
  | (_, tree, next) => { coll with primaryIndex := tree, kernel := next }

def identify (doc : Cson.Document) (generated : Bytes) :
    Bytes × Cson.Document :=
  match lookup doc idField with
  | none => (generated, setField doc idField (.scalar (.string generated)))
  | some (.scalar .null) =>
      (generated, setField doc idField (.scalar (.string generated)))
  | some value => (runtime.sprint value, doc)

/-- The last part of `Insert`: the entries of the new document, and no document
when one of them fails. -/
def enterNew (order : Shuffle (SecondaryIndex σ)) (id payload : Bytes)
    (recID : RecordID) (coll : Collection σ) :
    Except DocumentError Bytes × Collection σ :=
  if coll.secIndexes.isEmpty then (.ok id, coll)
  else
    match newDocumentView payload coll.dict with
    | .error cause => (.error (.cson cause), coll.forget id)
    | .ok view =>
        match attempt (SecondaryIndex.insert runtime view recID)
            (order.arrange coll.secIndexes) coll.kernel with
        | (.error cause, indexes, next) =>
            (.error cause,
              { coll with secIndexes := indexes, kernel := next }.forget id)
        | (.ok _, indexes, next) =>
            (.ok id, { coll with secIndexes := indexes, kernel := next })

/-- `Insert`; `generated` is what `generateUUID` returns -/
def insert (orders : Orders σ) (doc : Cson.Document) (generated : Bytes)
    (coll : Collection σ) : Except DocumentError Bytes × Collection σ :=
  let (id, doc) := identify runtime doc generated
  match coll.schema doc with
  | some message => (.error (.schema message), coll)
  | none =>
      match encode (orders.fields.visit doc) coll.dict with
      | (.error cause, grown) =>
          (.error (.cson cause), { coll with dict := grown })
      | (.ok payload, grown) =>
          match store id payload invalidRecordID
              { coll with dict := grown } with
          | (.error cause, next) => (.error cause, next)
          | (.ok recID, next) =>
              next.enterNew runtime orders.first id payload recID

/-- The loop that takes the entries of the stored document out, as far as the
document can be read. -/
def removeEntries (order : Shuffle (SecondaryIndex σ)) (recID : RecordID)
    (coll : Collection σ) : Collection σ :=
  match Kernel.readRecord recID coll.kernel with
  | (.error _, next) => { coll with kernel := next }
  | (.ok payload, next) =>
      match newDocumentView payload coll.dict with
      | .error _ => { coll with kernel := next }
      | .ok view =>
          match sweep (fun index state =>
                (SecondaryIndex.delete runtime view recID index state).2)
              (order.arrange coll.secIndexes) next with
          | (indexes, final) =>
              { coll with secIndexes := indexes, kernel := final }

/-- The loop of `Replace` that enters the new document, whatever the trees
say. -/
def addEntries (order : Shuffle (SecondaryIndex σ)) (payload : Bytes)
    (recID : RecordID) (coll : Collection σ) : Collection σ :=
  match newDocumentView payload coll.dict with
  | .error _ => coll
  | .ok view =>
      match sweep (fun index state =>
            (SecondaryIndex.insert runtime view recID index state).2)
          (order.arrange coll.secIndexes) coll.kernel with
      | (indexes, next) =>
          { coll with secIndexes := indexes, kernel := next }

/-- `Replace` from the removal of the old entries on. -/
def rewrite (orders : Orders σ) (id : Bytes) (doc : Cson.Document)
    (recID : RecordID) (coll : Collection σ) :
    Except DocumentError Unit × Collection σ :=
  let cleared := coll.removeEntries runtime orders.first recID
  match encode (orders.fields.visit doc) cleared.dict with
  | (.error cause, grown) =>
      (.error (.cson cause), { cleared with dict := grown })
  | (.ok payload, grown) =>
      match store id payload recID { cleared with dict := grown } with
      | (.error cause, next) => (.error cause, next)
      | (.ok newRecID, next) =>
          (.ok (), next.addEntries runtime orders.second payload newRecID)

/-- `primaryIndex.Get` as `Replace` and `Delete` start with it. -/
def find (id : Bytes) (coll : Collection σ) :
    Except DocumentError RecordID × Collection σ :=
  match PrimaryIndex.get id coll.primaryIndex coll.kernel with
  | (.error cause, next) =>
      (.error (.storage cause), { coll with kernel := next })
  | (.ok none, next) => (.error .docNotFound, { coll with kernel := next })
  | (.ok (some recID), next) => (.ok recID, { coll with kernel := next })

/-- `newDoc["_id"] = id` -/
def withID (doc : Cson.Document) (id : Bytes) : Cson.Document :=
  setField doc idField (.scalar (.string id))

def replace (orders : Orders σ) (id : Bytes) (doc : Cson.Document)
    (coll : Collection σ) : Except DocumentError Unit × Collection σ :=
  match coll.find id with
  | (.error cause, next) => (.error cause, next)
  | (.ok recID, next) =>
      match next.schema (withID doc id) with
      | some message => (.error (.schema message), next)
      | none => next.rewrite runtime orders id (withID doc id) recID

/-- `GetView`, where a record that cannot be read is a missing document -/
def getView (id : Bytes) (coll : Collection σ) :
    Except DocumentError DocumentView × Collection σ :=
  match coll.find id with
  | (.error cause, next) => (.error cause, next)
  | (.ok recID, next) =>
      match Kernel.readRecord recID next.kernel with
      | (.error _, final) =>
          (.error .docNotFound, { next with kernel := final })
      | (.ok payload, final) =>
          match newDocumentView payload next.dict with
          | .error cause =>
              (.error (.cson cause), { next with kernel := final })
          | .ok view => (.ok view, { next with kernel := final })

/-- `view.ToMap()` -/
def mapOf (view : DocumentView) : Except DocumentError Cson.Document :=
  match view.toMap (view.data.length + 1) with
  | .ok doc => .ok doc
  | .error cause => .error (.cson cause)
  | .panic => .error .panics
  | .exhausted => .error .panics

def get (id : Bytes) (coll : Collection σ) :
    Except DocumentError Cson.Document × Collection σ :=
  match coll.getView id with
  | (.error cause, next) => (.error cause, next)
  | (.ok view, next) => (mapOf view, next)

def count (coll : Collection σ) : Except DocumentError Nat × Collection σ :=
  match Kernel.scan coll.primaryIndex coll.kernel with
  | (.error cause, next) =>
      (.error (.storage cause), { coll with kernel := next })
  | (.ok pairs, next) => (.ok pairs.length, { coll with kernel := next })

def update (orders : Orders σ) (id : Bytes) (ops : List UpdateOp)
    (coll : Collection σ) : Except DocumentError Unit × Collection σ :=
  match coll.get id with
  | (.error cause, next) => (.error cause, next)
  | (.ok doc, next) =>
      next.replace runtime orders id (ops.foldl (applyOp runtime) doc)

def delete (order : Shuffle (SecondaryIndex σ)) (id : Bytes)
    (coll : Collection σ) : Except DocumentError Unit × Collection σ :=
  match coll.find id with
  | (.error cause, next) => (.error cause, next)
  | (.ok recID, next) =>
      let cleared := next.removeEntries runtime order recID
      match PrimaryIndex.delete id cleared.primaryIndex cleared.kernel with
      | (.error cause, tree, after) =>
          (.error (.storage cause),
            { cleared with primaryIndex := tree, kernel := after })
      | (.ok _, tree, after) =>
          match Kernel.deleteRecord recID after with
          | (.error cause, final) =>
              (.error (.storage cause),
                { cleared with primaryIndex := tree, kernel := final })
          | (.ok _, final) =>
              (.ok (), { cleared with primaryIndex := tree, kernel := final })

end Collection

end CocoDB.Document
