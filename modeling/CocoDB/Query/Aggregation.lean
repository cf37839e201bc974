import CocoDB.Lib.Extreme
import CocoDB.Lib.Sweep
import CocoDB.Query.Operator
import Mathlib.Data.List.AList
import Mathlib.Data.Rat.Defs

/-!
# Aggregation

`internal/query/executor/aggregate.go`: `ComputeAggregation` in exact arithmetic,
where a `float64` is a rational number.  A map is the function of its lookups,
or a list of entries where the code goes through it.
-/

namespace CocoDB.Query

open Lib Cson
open Index (Runtime)

/-! ## Definitions -/

inductive AggType where
  | count
  | sum
  | avg
  | min
  | max
  | other (code : UInt8)
deriving DecidableEq, Repr

def AggType.string : AggType → Bytes
  | .count => [0x63, 0x6F, 0x75, 0x6E, 0x74]
  | .sum => [0x73, 0x75, 0x6D]
  | .avg => [0x61, 0x76, 0x67]
  | .min => [0x6D, 0x69, 0x6E]
  | .max => [0x6D, 0x61, 0x78]
  | .other code => [0x61, 0x67, 0x67, 0x5F] ++
      (toString code.toNat).toUTF8.toList

structure AggDef where
  type : AggType
  field : Bytes
  asName : Bytes
deriving DecidableEq, Repr

def AggDef.aliasName (agg : AggDef) : Bytes :=
  if agg.asName = [] then agg.field ++ [0x5F] ++ agg.type.string
  else agg.asName

/-- A reported value: an `int64` or a `float64` -/
inductive AggValue where
  | count (number : Nat)
  | number (value : ℚ)
deriving DecidableEq

structure AggResult where
  groupKey : Bytes → Option Value
  values : Bytes → Option AggValue

structure GroupAccum where
  count : Nat
  sums : Bytes → Option ℚ
  mins : Bytes → Option ℚ
  maxs : Bytes → Option ℚ

def GroupAccum.new : GroupAccum :=
  ⟨0, fun _ => none, fun _ => none, fun _ => none⟩

/-- What `groups` and `groupKeyMaps` hold under a key. -/
structure Group where
  accum : GroupAccum
  keyMap : Bytes → Option Value

abbrev Groups := AList fun _ : Bytes => Group

/-! ## Accumulation -/

/-- The rational number of a double precision pattern that is finite. -/
def exactFloat (bits : UInt64) : ℚ :=
  (Binary64.scaled bits : ℚ) / 2 ^ 1074

/-- `Float64` in exact arithmetic. -/
def exactFloat64 (view : DocumentView) (field : Bytes) :
    Outcome (Option ℚ) := do
  match ← view.getFieldLoc field with
  | none => return none
  | some loc =>
      if loc.valType = ValueType.float64.toByte then
        return (← view.word [.float64] field).map exactFloat
      else if loc.valType = ValueType.int64.toByte then
        return (← view.int64 field).map fun value => (value.toInt : ℚ)
      else
        return none

def lower (one two : ℚ) : Bool := decide (one < two)

def higher (one two : ℚ) : Bool := decide (two < one)

def GroupAccum.add (field : Bytes) (fVal : ℚ) (accum : GroupAccum) :
    GroupAccum :=
  { accum with
    sums := Function.update accum.sums field
      (some ((accum.sums field).getD 0 + fVal))
    mins := Function.update accum.mins field
      (keepBetter lower (accum.mins field) fVal)
    maxs := Function.update accum.maxs field
      (keepBetter higher (accum.maxs field) fVal) }

def addAggs (view : DocumentView) : List AggDef → GroupAccum →
    Outcome GroupAccum
  | [], accum => .ok accum
  | agg :: rest, accum =>
      if agg.type = .count then addAggs view rest accum
      else do
        match ← exactFloat64 view agg.field with
        | none => addAggs view rest accum
        | some fVal => addAggs view rest (accum.add agg.field fVal)

/-- The loop over the fields of a group, which prints the values in one string
and collects them in a map. -/
def groupKey (runtime : Runtime) (view : DocumentView) : List Bytes → Bytes →
    (Bytes → Option Value) → Outcome (Bytes × (Bytes → Option Value))
  | [], gKeyStr, gKeyMap => .ok (gKeyStr, gKeyMap)
  | gf :: rest, gKeyStr, gKeyMap => do
      let val := (← getValue view gf).getD (.scalar .null)
      groupKey runtime view rest (gKeyStr ++ (runtime.sprint val ++ [0x7C]))
        (Function.update gKeyMap gf (some val))

def addView (runtime : Runtime) (groupFields : List Bytes)
    (aggs : List AggDef) (view : DocumentView) (groups : Groups) :
    Outcome Groups := do
  let (gKeyStr, gKeyMap) ← groupKey runtime view groupFields [] fun _ => none
  let group := (groups.lookup gKeyStr).getD ⟨GroupAccum.new, gKeyMap⟩
  let accum ← addAggs view aggs
    { group.accum with count := group.accum.count + 1 }
  return groups.insert gKeyStr { group with accum := accum }

def addViews (runtime : Runtime) (groupFields : List Bytes)
    (aggs : List AggDef) (op : Operator) : Nat → op.State → Groups →
    Outcome (Groups × op.State)
  | 0, _, _ => .exhausted
  | fuel + 1, state, groups => do
      let (more, state) ← op.next state
      if more then
        match op.view state with
        | none => .panic
        | some view => do
            let groups ← addView runtime groupFields aggs view groups
            addViews runtime groupFields aggs op fuel state groups
      else return (groups, state)

/-! ## Results -/

/-- The value of a definition, which has none if its type is unknown. -/
def aggValue (accum : GroupAccum) (agg : AggDef) : Option AggValue :=
  match agg.type with
  | .count => some (.count accum.count)
  | .sum => some (.number ((accum.sums agg.field).getD 0))
  | .avg =>
      if 0 < accum.count then
        some (.number ((accum.sums agg.field).getD 0 / accum.count))
      else some (.number 0)
  | .min => some (.number ((accum.mins agg.field).getD 0))
  | .max => some (.number ((accum.maxs agg.field).getD 0))
  | .other _ => none

def aggValues (accum : GroupAccum) (aggs : List AggDef) :
    Bytes → Option AggValue :=
  aggs.foldl (fun vals agg =>
    match aggValue accum agg with
    | none => vals
    | some value => Function.update vals agg.aliasName (some value)) fun _ => none

def Group.result (aggs : List AggDef) (group : Group) : AggResult :=
  ⟨group.keyMap, aggValues group.accum aggs⟩

/-- `ComputeAggregation`, which goes through the groups in any order. -/
def computeAggregation (runtime : Runtime) (fuel : Nat)
    (order : Shuffle (Sigma fun _ : Bytes => Group)) (pipeline : Pipeline)
    (groupFields : List Bytes) (aggs : List AggDef) :
    Outcome (Except Error (List AggResult)) := do
  let (groups, final) ← addViews runtime groupFields aggs pipeline.op fuel
    pipeline.state ∅
  match pipeline.op.err final with
  | some cause => return .error cause
  | none =>
      return .ok ((order.arrange groups.entries).map fun entry =>
        entry.2.result aggs)

end CocoDB.Query
