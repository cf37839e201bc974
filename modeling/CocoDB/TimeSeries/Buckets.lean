import CocoDB.Document.Validation
import CocoDB.TimeSeries.Points

/-!
# Time buckets

`TimeQuery.Aggregate`, in exact arithmetic: a `float64` is a rational number, and
a time is the number of its nanoseconds.
-/

namespace CocoDB.TimeSeries

open Lib Cson CocoDB.Query Document

/-! ## Points -/

/-- `Point`; the maps are functions of their lookups. -/
structure Point where
  timestamp : Int64
  tags : Bytes → Option Bytes
  fields : Bytes → Option Value

/-- `"_field:" + key` -/
def fieldField (key : Bytes) : Bytes :=
  [0x5F, 0x66, 0x69, 0x65, 0x6C, 0x64, 0x3A] ++ key

/-- `asInt64`; `int64(n)` of a `float64` is the parameter. -/
def asInt64 (ofFloat : UInt64 → Int64) : Value → Option Int64
  | .scalar (.int64 n) => some n
  | .scalar (.int n) => some n
  | .scalar (.int32 n) => some n.toInt64
  | .scalar (.float64 bits) => some (ofFloat bits)
  | _ => none

def pointFromDocument (ofFloat : UInt64 → Int64) (doc : Cson.Document) :
    Option Point :=
  match (lookup doc tsField).bind (asInt64 ofFloat) with
  | none => none
  | some nanos =>
      some
        { timestamp := nanos
          tags := fun key =>
            match lookup doc (tagField key) with
            | some (.scalar (.string tag)) => some tag
            | _ => none
          fields := fun key => lookup doc (fieldField key) }

/-- `All` -/
def TimeQuery.all (ofFloat : UInt64 → Int64) (setting : Setting)
    (scan : Pipeline) (query : TimeQuery) :
    Outcome (List Point × Option Error) := do
  let (docs, err) ← query.documents setting scan
  match err with
  | some cause => return ([], some cause)
  | none => return (docs.filterMap (pointFromDocument ofFloat), none)

/-- `asFloat64` in exact arithmetic -/
def asFloat64 : Value → Option ℚ
  | .scalar (.int n) => some n.toInt
  | .scalar (.int32 n) => some n.toInt
  | .scalar (.int64 n) => some n.toInt
  | .scalar (.float32 bits) => some (exactFloat (float64OfFloat32 bits))
  | .scalar (.float64 bits) => some (exactFloat bits)
  | _ => none

/-! ## Aggregation -/

inductive Aggregate where
  | count
  | sum
  | average
  | minimum
  | maximum
  | other (code : UInt8)
deriving DecidableEq, Repr

structure TimeBucket where
  start : Int
  finish : Int
  count : Nat
  value : ℚ
deriving DecidableEq

def zeroTime : Int := -62135596800 * 10 ^ 9

/-- `time.Truncate`: down to a multiple of `d` since the zero time -/
def truncate (t d : Int) : Int :=
  if d ≤ 0 then t else t - (t - zeroTime) % d

structure BucketState where
  count : Nat
  numeric : Nat
  sum : ℚ
  min : ℚ
  max : ℚ

def BucketState.new : BucketState := ⟨0, 0, 0, 0, 0⟩

def BucketState.add (field : Bytes) (current : BucketState) (point : Point) :
    BucketState :=
  match (point.fields field).bind asFloat64 with
  | none => { current with count := current.count + 1 }
  | some value =>
      { count := current.count + 1
        numeric := current.numeric + 1
        sum := current.sum + value
        min := if current.numeric = 0 ∨ value < current.min then value
          else current.min
        max := if current.numeric = 0 ∨ current.max < value then value
          else current.max }

abbrev BucketStates := AList fun _ : Int => BucketState

def collect (field : Bytes) (interval : Int) (points : List Point) :
    BucketStates :=
  points.foldl (fun states point =>
    let start := truncate point.timestamp.toInt interval
    states.insert start
      (((states.lookup start).getD .new).add field point)) ∅

/-- The `Value` of a bucket. -/
def BucketState.value (op : Aggregate) (current : BucketState) : ℚ :=
  match op with
  | .count => current.count
  | .sum => current.sum
  | .average =>
      if 0 < current.numeric then current.sum / current.numeric
      else current.sum
  | .minimum => current.min
  | .maximum => current.max
  | .other _ => current.sum

/-- The bucket reported for a key of `states`. -/
def bucket (interval : Int) (op : Aggregate) (states : BucketStates)
    (start : Int) : TimeBucket :=
  let current := (states.lookup start).getD .new
  { start := start
    finish := start + interval
    count := current.count
    value := current.value op }

/-- `Aggregate` on the points; the map gives its keys in any order. -/
def aggregate (order : Shuffle Int) (field : Bytes) (interval : Int)
    (op : Aggregate) (points : List Point) : List TimeBucket :=
  let states := collect field interval points
  let starts := (order.arrange states.keys).mergeSort fun one two => one ≤ two
  starts.map (bucket interval op states)

inductive AggregateError where
  | invalidInterval
  | query (cause : Error)

def TimeQuery.aggregate (ofFloat : UInt64 → Int64) (setting : Setting)
    (scan : Pipeline) (order : Shuffle Int) (query : TimeQuery)
    (field : Bytes) (interval : Int64) (op : Aggregate) :
    Outcome (Except AggregateError (List TimeBucket)) :=
  if interval ≤ 0 then .ok (.error .invalidInterval)
  else do
    let (points, err) ← query.all ofFloat setting scan
    match err with
    | some cause => return .error (.query cause)
    | none =>
        return .ok
          (TimeSeries.aggregate order field interval.toInt op points)

section Intervals

variable {t other d : Int}

theorem truncate_le (positive : 0 < d) : truncate t d ≤ t := by
  have nonneg := Int.emod_nonneg (t - zeroTime) positive.ne'
  simp only [truncate, not_le.mpr positive, if_false]
  omega

theorem lt_truncate_add (positive : 0 < d) : t < truncate t d + d := by
  have below := Int.emod_lt_of_pos (t - zeroTime) positive
  simp only [truncate, not_le.mpr positive, if_false]
  omega

theorem truncate_multiple (positive : 0 < d) :
    ∃ number, truncate t d = zeroTime + d * number := by
  refine ⟨(t - zeroTime) / d, ?_⟩
  have whole := Int.mul_ediv_add_emod (t - zeroTime) d
  simp only [truncate, not_le.mpr positive, if_false]
  omega

theorem truncate_apart (positive : 0 < d)
    (earlier : truncate t d < truncate other d) :
    truncate t d + d ≤ truncate other d := by
  obtain ⟨first, atFirst⟩ := truncate_multiple (t := t) positive
  obtain ⟨second, atSecond⟩ := truncate_multiple (t := other) positive
  rw [atFirst, atSecond] at earlier ⊢
  have ordered : first < second :=
    lt_of_mul_lt_mul_left (by omega : d * first < d * second) positive.le
  have next := mul_le_mul_of_nonneg_left (Int.add_one_le_iff.mpr ordered)
    positive.le
  rw [mul_add, mul_one] at next
  omega

theorem truncate_eq_of_inside (positive : 0 < d)
    (above : truncate other d ≤ t) (below : t < truncate other d + d) :
    truncate t d = truncate other d := by
  rcases lt_trichotomy (truncate t d) (truncate other d) with
    lower | same | higher
  · have apart := truncate_apart positive lower
    have after := lt_truncate_add (t := t) positive
    omega
  · exact same
  · have apart := truncate_apart positive higher
    have before := truncate_le (t := t) positive
    omega

end Intervals

end CocoDB.TimeSeries
