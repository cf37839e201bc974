import CocoDB.Document.Collection
import CocoDB.Query.Aggregation

/-!
# Schemas

`document/schema.go`: the rules for the fields of a document and `Validate`.
Numbers are exact, and a pattern is the predicate on strings that it matches.
-/

namespace CocoDB.Document

open Lib Cson CocoDB.Query

/-! ## Rules -/

structure FieldRule where
  required : Bool
  type : Bytes
  min : Option ℚ
  max : Option ℚ
  pattern : Option (Bytes → Bool)

abbrev Schema := List (Bytes × FieldRule)

def text (constant : String) : Bytes :=
  constant.toUTF8.toList

def stringType : Bytes := [0x73, 0x74, 0x72, 0x69, 0x6E, 0x67]

def intType : Bytes := [0x69, 0x6E, 0x74]

def floatType : Bytes := [0x66, 0x6C, 0x6F, 0x61, 0x74]

def boolType : Bytes := [0x62, 0x6F, 0x6F, 0x6C]

def arrayType : Bytes := [0x61, 0x72, 0x72, 0x61, 0x79]

/-! ## Errors -/

inductive Violation where
  | required
  | mustBeString
  | pattern
  | mustBeInteger
  | mustBeFloat
  | mustBeBool
  | min (bound : ℚ)
  | max (bound : ℚ)

structure SchemaError where
  field : Bytes
  violation : Violation

/-- What `fmt.Errorf` makes of a name with `%q` and of a number with `%f`. -/
structure Format where
  quoted : Bytes → Bytes
  fixed : ℚ → Bytes

def Violation.text (format : Format) : Violation → Bytes
  | .required => Document.text " is required"
  | .mustBeString => Document.text " must be string"
  | .pattern => Document.text " does not match pattern"
  | .mustBeInteger => Document.text " must be integer"
  | .mustBeFloat => Document.text " must be float"
  | .mustBeBool => Document.text " must be bool"
  | .min bound => Document.text " must be >= " ++ format.fixed bound
  | .max bound => Document.text " must be <= " ++ format.fixed bound

def SchemaError.text (format : Format) (error : SchemaError) : Bytes :=
  Document.text "schema error: field " ++ format.quoted error.field ++
    error.violation.text format

/-! ## Validation -/

/-- The switch over the type of a rule, which has no case for `"array"`. -/
def checkType (rule : FieldRule) (val : Value) : Option Violation :=
  if rule.type = stringType then
    match val with
    | .scalar (.string str) =>
        match rule.pattern with
        | some pattern => if pattern str then none else some .pattern
        | none => none
    | _ => some .mustBeString
  else if rule.type = intType then
    match val with
    | .scalar (.int _) => none
    | .scalar (.int32 _) => none
    | .scalar (.int64 _) => none
    | .scalar (.uint _) => none
    | .scalar (.uint32 _) => none
    | .scalar (.uint64 _) => none
    | _ => some .mustBeInteger
  else if rule.type = floatType then
    match val with
    | .scalar (.float32 _) => none
    | .scalar (.float64 _) => none
    | .scalar (.int _) => none
    | .scalar (.int64 _) => none
    | _ => some .mustBeFloat
  else if rule.type = boolType then
    match val with
    | .scalar (.bool _) => none
    | _ => some .mustBeBool
  else none

def boundNumber : Value → ℚ
  | .scalar (.int value) => value.toInt
  | .scalar (.int64 value) => value.toInt
  | .scalar (.float64 bits) => exactFloat bits
  | _ => 0

def checkMin (rule : FieldRule) (val : Value) : Option Violation :=
  match rule.min with
  | none => none
  | some bound => if boundNumber val < bound then some (.min bound) else none

def checkMax (rule : FieldRule) (val : Value) : Option Violation :=
  match rule.max with
  | none => none
  | some bound => if bound < boundNumber val then some (.max bound) else none

def checkPresent (rule : FieldRule) (val : Value) : Option Violation :=
  (checkType rule val).or ((checkMin rule val).or (checkMax rule val))

def checkField (rule : FieldRule) (val : Option Value) : Option Violation :=
  match val with
  | none => if rule.required then some .required else none
  | some val =>
      if isNil val then
        if rule.required then some .required else none
      else checkPresent rule val

/-- `Validate`, which goes through the rules in any order. -/
def validate (order : Shuffle (Bytes × FieldRule)) (schema : Schema)
    (doc : Cson.Document) : Option SchemaError :=
  (order.arrange schema).findSome? fun entry =>
    (checkField entry.2 (lookup doc entry.1)).map (SchemaError.mk entry.1)

def Collection.setSchema {σ : Type} [Kernel σ] (format : Format)
    (order : Shuffle (Bytes × FieldRule)) (schema : Schema)
    (coll : Collection σ) : Collection σ :=
  { coll with schema := fun doc =>
      (validate order schema doc).map (SchemaError.text format) }

end CocoDB.Document
