import CocoDB.Index.KeyOrder

/-!
# Expressions

`internal/query/expression.go`: predicates on a view of a document.  Some
operands are compared with the raw bytes of the field, the others go through
`Get` and `compareValues`.
-/

namespace CocoDB.Query

open Lib Cson
open Index (Runtime bytesCompare)

/-! ## Comparing values -/

/-- `-1` if the first is less than the second, `1` if it is the other way
round. -/
def threeWay {α : Type} (less : α → α → Bool) (first second : α) : Ordering :=
  if less first second then .lt
  else if less second first then .gt
  else .eq

/-- What an integer is compared with; `float32` is not among the cases. -/
def intOperand (runtime : Runtime) : Value → Int64
  | .scalar (.int value) => value
  | .scalar (.int64 value) => value
  | .scalar (.float64 bits) => runtime.truncate bits
  | _ => 0

def floatOperand : Value → UInt64
  | .scalar (.float64 bits) => bits
  | .scalar (.float32 bits) => float64OfFloat32 bits
  | .scalar (.int value) => Binary64.ofInt64 value
  | .scalar (.int64 value) => Binary64.ofInt64 value
  | _ => 0

def compareInts (first second : Int64) : Ordering :=
  threeWay (fun left right => left < right) first second

def compareValues (runtime : Runtime) : Value → Value → Ordering
  | .scalar .null, .scalar .null => .eq
  | .scalar .null, _ => .lt
  | _, .scalar .null => .gt
  | .scalar (.int64 first), second =>
      compareInts first (intOperand runtime second)
  | .scalar (.int first), second =>
      compareInts first (intOperand runtime second)
  | .scalar (.float64 first), second =>
      threeWay Binary64.less first (floatOperand second)
  | .scalar (.string first), .scalar (.string second) =>
      bytesCompare first second
  | .scalar (.bool first), .scalar (.bool second) =>
      if first = second then .eq
      else if first = false ∧ second = true then .lt
      else .gt
  | .scalar (.bytes first), .scalar (.bytes second) =>
      bytesCompare first second
  | _, _ => .eq

/-! ## Expressions -/

/-- `Expression`, as the builder functions make it -/
inductive Expression where
  | eq (field : Bytes) (val : Value)
  | ne (field : Bytes) (val : Value)
  | gt (field : Bytes) (val : Value)
  | gte (field : Bytes) (val : Value)
  | lt (field : Bytes) (val : Value)
  | lte (field : Bytes) (val : Value)
  | between (field : Bytes) (low high : Value)
  | isIn (field : Bytes) (vals : List Value)
  | and (exprs : List Expression)
  | or (exprs : List Expression)
  | not (expr : Expression)
  | contains (field substr : Bytes)
  | startsWith (field start : Bytes)

/-- `val == nil` -/
def isNil : Value → Bool
  | .scalar .null => true
  | _ => false

/-- `floatVal` and `isFloat`, as `Gt`, `Gte`, `Lt` and `Lte` set them. -/
def floatVal : Value → Option UInt64
  | .scalar (.float64 bits) => some bits
  | .scalar (.float32 bits) => some (float64OfFloat32 bits)
  | .scalar (.int value) => some (Binary64.ofInt64 value)
  | .scalar (.int64 value) => some (Binary64.ofInt64 value)
  | _ => none

section Evaluate

variable (runtime : Runtime) (view : DocumentView)

/-- `Get`, which decodes no deeper than the document is long. -/
def getValue (field : Bytes) : Outcome (Option Value) :=
  view.get (view.data.length + 1) field

def evaluateEq (field : Bytes) (val : Value) : Outcome Bool :=
  match val with
  | .scalar (.string text) => do
      return (← view.stringBytes field) == some text
  | .scalar (.float64 bits) => do
      return (← view.float64 field).any fun number =>
        Binary64.equal number bits
  | .scalar (.float32 bits) => do
      return (← view.float64 field).any fun number =>
        Binary64.equal number (float64OfFloat32 bits)
  | .scalar (.int value) => do return (← view.int64 field) == some value
  | .scalar (.int64 value) => do return (← view.int64 field) == some value
  | .scalar (.bool value) => do return (← view.bool field) == some value
  | val => do
      match ← getValue view field with
      | none => return isNil val
      | some stored => return compareValues runtime stored val == .eq

def evaluateNe (field : Bytes) (val : Value) : Outcome Bool := do
  match ← getValue view field with
  | none => return !isNil val
  | some stored => return compareValues runtime stored val != .eq

/-- What `Gt`, `Gte`, `Lt` and `Lte` share. -/
def evaluateOrder (holds : UInt64 → UInt64 → Bool) (test : Ordering → Bool)
    (field : Bytes) (val : Value) : Outcome Bool :=
  match floatVal val with
  | some bits => do
      return (← view.float64 field).any fun number => holds number bits
  | none => do
      match ← getValue view field with
      | none => return false
      | some stored => return test (compareValues runtime stored val)

def evaluateGt : Bytes → Value → Outcome Bool :=
  evaluateOrder runtime view (fun number bits => Binary64.less bits number)
    Ordering.isGT

def evaluateGte : Bytes → Value → Outcome Bool :=
  evaluateOrder runtime view (fun number bits => Binary64.atMost bits number)
    Ordering.isGE

def evaluateLt : Bytes → Value → Outcome Bool :=
  evaluateOrder runtime view Binary64.less Ordering.isLT

def evaluateLte : Bytes → Value → Outcome Bool :=
  evaluateOrder runtime view Binary64.atMost Ordering.isLE

def evaluateBetween (field : Bytes) (low high : Value) : Outcome Bool := do
  match ← getValue view field with
  | none => return false
  | some stored =>
      return (compareValues runtime stored low).isGE &&
        (compareValues runtime stored high).isLE

def evaluateIn (field : Bytes) (vals : List Value) : Outcome Bool := do
  match ← getValue view field with
  | none => return false
  | some stored =>
      return vals.any fun target => compareValues runtime stored target == .eq

def evaluateContains (field substr : Bytes) : Outcome Bool := do
  return (← view.string field).any fun text => decide (substr <:+: text)

def evaluateStartsWith (field start : Bytes) : Outcome Bool := do
  return (← view.string field).any fun text => decide (start <+: text)

mutual

def evaluate : Expression → Outcome Bool
  | .eq field val => evaluateEq runtime view field val
  | .ne field val => evaluateNe runtime view field val
  | .gt field val => evaluateGt runtime view field val
  | .gte field val => evaluateGte runtime view field val
  | .lt field val => evaluateLt runtime view field val
  | .lte field val => evaluateLte runtime view field val
  | .between field low high => evaluateBetween runtime view field low high
  | .isIn field vals => evaluateIn runtime view field vals
  | .and exprs => evaluateAll exprs
  | .or exprs => evaluateAny exprs
  | .not expr => do return !(← evaluate expr)
  | .contains field substr => evaluateContains view field substr
  | .startsWith field start => evaluateStartsWith view field start

/-- The loop of `andExpr.Evaluate` -/
def evaluateAll : List Expression → Outcome Bool
  | [] => .ok true
  | expr :: rest => do
      if ← evaluate expr then evaluateAll rest else return false

/-- The loop of `orExpr.Evaluate` -/
def evaluateAny : List Expression → Outcome Bool
  | [] => .ok false
  | expr :: rest => do
      if ← evaluate expr then return true else evaluateAny rest

end

attribute [simp] evaluate evaluateAll evaluateAny

end Evaluate

end CocoDB.Query
