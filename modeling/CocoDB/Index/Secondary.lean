import CocoDB.Document.Kernel
import CocoDB.Index.Key

/-!
# Secondary indexes

`internal/index/secondary.go`.  The key of a document is made of the values of
the indexed fields.  A unique index maps it to the record of the document; any
other index appends the record to the key.
-/

namespace CocoDB.Index

open Lib Cson

structure IndexDefinition where
  name : Bytes
  fields : List Bytes
  unique : Bool
  sparse : Bool
  partialField : Bytes
  partialVal : Value

inductive DocumentError where
  /-- `coco/document: document not found` -/
  | docNotFound
  /-- `unique index violation on index %q for key` -/
  | uniqueViolation (name : Bytes)
  /-- The message of a schema that rejects the document. -/
  | schema (message : Bytes)
  /-- An error of `cson.Encode` or `cson.NewDocumentView`. -/
  | cson (cause : CsonError)
  /-- An error of the trees or of the record store. -/
  | storage (cause : Error)
  /-- Decoding the stored document panics. -/
  | panics
deriving DecidableEq, Repr

/-- `view.Get(field)`.  It does not panic on a document the collection wrote,
and its recursion is no deeper than the data is long. -/
def valueOf (view : DocumentView) (field : Bytes) : Option Value :=
  match view.get (view.data.length + 1) field with
  | .ok found => found
  | _ => none

namespace IndexDefinition

variable (runtime : Runtime) (definition : IndexDefinition)

/-- The loop over the indexed fields; `none` when a sparse index misses one. -/
def components (view : DocumentView) : List Bytes → Option (List Bytes)
  | [] => some []
  | field :: rest =>
      match valueOf view field with
      | none =>
          if definition.sparse then none
          else (components view rest).map (encodeNull :: ·)
      | some value =>
          (components view rest).map (encodeIndexValue runtime value :: ·)

def covers (view : DocumentView) : Bool :=
  if definition.partialField ≠ [] then
    match valueOf view definition.partialField with
    | none => false
    | some value => runtime.same value definition.partialVal
  else
    true

/-- `SecondaryIndex.BuildKey`, with `none` for a document that is not to be
indexed -/
def buildKey (view : DocumentView) (recID : RecordID) : Option Bytes :=
  if definition.covers runtime view then
    (definition.components runtime view definition.fields).map
      fun components =>
        if definition.unique then encodeComposite components
        else appendRecordID (encodeComposite components) recID
  else
    none

def entryValue (recID : RecordID) : Bytes :=
  if definition.unique then recordBytes recID else [1]

def keyOf (dict : FieldDictionary) (payload : Bytes) (recID : RecordID) :
    Option Bytes :=
  definition.buildKey runtime ⟨payload, dict, fieldCountOf payload⟩ recID

end IndexDefinition

structure SecondaryIndex (σ : Type) [Kernel σ] where
  definition : IndexDefinition
  tree : Kernel.Tree σ

/-- `NewSecondaryIndex` on `InvalidPageID` -/
def newSecondaryIndex {σ : Type} [Kernel σ] (definition : IndexDefinition) :
    SecondaryIndex σ where
  definition := definition
  tree := Kernel.newBTree

namespace SecondaryIndex

section Calls

variable {σ : Type} [Kernel σ] (runtime : Runtime)

/-- `si.tree.Insert` -/
def put (key value : Bytes) (index : SecondaryIndex σ) (state : σ) :
    Except DocumentError Unit × SecondaryIndex σ × σ :=
  match Kernel.insert key value index.tree state with
  | (.error cause, tree, next) =>
      (.error (.storage cause), { index with tree := tree }, next)
  | (.ok _, tree, next) => (.ok (), { index with tree := tree }, next)

def insert (view : DocumentView) (recID : RecordID)
    (index : SecondaryIndex σ) (state : σ) :
    Except DocumentError Unit × SecondaryIndex σ × σ :=
  match index.definition.buildKey runtime view recID with
  | none => (.ok (), index, state)
  | some key =>
      if index.definition.unique then
        match Kernel.search key index.tree state with
        | (.error cause, next) => (.error (.storage cause), index, next)
        | (.ok existing, next) =>
            if existing.any fun value =>
                decide (8 ≤ value.length ∧ recordOf value ≠ recID) then
              (.error (.uniqueViolation index.definition.name), index, next)
            else
              index.put key (recordBytes recID) next
      else
        index.put key [1] state

def delete (view : DocumentView) (recID : RecordID)
    (index : SecondaryIndex σ) (state : σ) :
    Except DocumentError Unit × SecondaryIndex σ × σ :=
  match index.definition.buildKey runtime view recID with
  | none => (.ok (), index, state)
  | some key =>
      match Kernel.delete key index.tree state with
      | (.error cause, tree, next) =>
          (.error (.storage cause), { index with tree := tree }, next)
      | (.ok _, tree, next) => (.ok (), { index with tree := tree }, next)

end Calls

/-! ## The calls on a tree that holds a map -/

def enter (key : Option Bytes) (value : Bytes) (map : KeyMap) : KeyMap :=
  match key with
  | none => map
  | some key => Function.update map key (some value)

def erase (key : Option Bytes) (map : KeyMap) : KeyMap :=
  match key with
  | none => map
  | some key => Function.update map key none

def Taken (definition : IndexDefinition) (recID : RecordID) (map : KeyMap)
    (key : Bytes) : Prop :=
  definition.unique = true ∧
    ∃ value, map key = some value ∧ 8 ≤ value.length ∧
      recordOf value ≠ recID

section Spec

open LawfulKernel

variable {σ : Type} [Kernel σ] [LawfulKernel σ] {state : σ} {spare : Nat}
  {index : SecondaryIndex σ} {leaves : Leaves}
  {others : List (Kernel.Tree σ × Leaves)} {records : RecordMap}
  (runtime : Runtime)

theorem delete_spec (view : DocumentView) (recID : RecordID)
    (holds : Holds state spare ((index.tree, leaves) :: others) records) :
    (index.delete runtime view recID state).2.1.definition =
        index.definition ∧
      ∃ changed, changed.keyMap =
          erase (index.definition.buildKey runtime view recID)
            leaves.keyMap ∧
        Holds (index.delete runtime view recID state).2.2 spare
          (((index.delete runtime view recID state).2.1.tree, changed) ::
            others) records := by
  unfold delete
  cases built : index.definition.buildKey runtime view recID with
  | none => exact ⟨rfl, leaves, rfl, holds⟩
  | some key =>
      obtain ⟨done, next⟩ := LawfulKernel.delete_spec key holds
      simp only
      rcases outcome : Kernel.delete key index.tree state with
        ⟨result, tree, after⟩
      rw [outcome] at done next
      simp only at done next
      subst done
      exact ⟨rfl, _, Leaves.keyMap_without key leaves, next⟩

end Spec

end SecondaryIndex

end CocoDB.Index
