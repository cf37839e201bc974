import CocoDB.Query.Tally
import CocoDB.TimeSeries.Buckets

/-!
# What the buckets hold

The buckets partition the points, and their values are those of the numbers that
`asFloat64` reads.  It reads no unsigned integers; when that changes a value and
when it does not.
-/

namespace CocoDB.TimeSeries

open Lib Cson CocoDB.Query Document

/-! ## The state of a bucket -/

def numbersBy (read : Value → Option ℚ) (field : Bytes) (points : List Point) :
    List ℚ :=
  points.filterMap fun point => (point.fields field).bind read

def definedValue (op : Aggregate) (count : Nat) (numbers : List ℚ) : ℚ :=
  match op with
  | .count => count
  | .sum => numbers.sum
  | .average => if numbers = [] then 0 else numbers.sum / numbers.length
  | .minimum => (bestOf lower numbers).getD 0
  | .maximum => (bestOf higher numbers).getD 0
  | .other _ => numbers.sum

section State

variable {field : Bytes} {points : List Point} {interval start : Int}

structure Summarises (numbers : List ℚ) (count : Nat) (current : BucketState) :
    Prop where
  count : current.count = count
  numeric : current.numeric = numbers.length
  sum : current.sum = numbers.sum
  min : current.min = (bestOf lower numbers).getD 0
  max : current.max = (bestOf higher numbers).getD 0

theorem summarises_new : Summarises [] 0 .new :=
  ⟨rfl, rfl, rfl, rfl, rfl⟩

theorem bestOf_append (better : ℚ → ℚ → Bool) (numbers : List ℚ) (value : ℚ) :
    bestOf better (numbers ++ [value]) =
      keepBetter better (bestOf better numbers) value := by
  rw [bestOf, List.foldl_append]
  rfl

theorem bestOf_none_iff {better : ℚ → ℚ → Bool} {le : ℚ → ℚ → Prop}
    (decides : Decides better le) (numbers : List ℚ) :
    bestOf better numbers = none ↔ numbers = [] := by
  constructor
  · intro none
    have best := bestOf_best decides numbers
    rw [none] at best
    exact best
  · intro empty
    rw [empty]
    rfl

/-- The first value replaces the zero that stands for no value, and from then on
a better one replaces the kept one. -/
theorem keepBetter_getD {better : ℚ → ℚ → Bool} {le : ℚ → ℚ → Prop}
    (decides : Decides better le) (numbers : List ℚ) (value : ℚ) :
    (bestOf better (numbers ++ [value])).getD 0 =
      if numbers.length = 0 ∨
          better value ((bestOf better numbers).getD 0) = true then value
      else (bestOf better numbers).getD 0 := by
  simp only [bestOf_append, List.length_eq_zero_iff]
  by_cases empty : numbers = []
  · simp only [empty, true_or, if_true]
    rfl
  · obtain ⟨best, found⟩ := Option.ne_none_iff_exists'.mp
      (mt (bestOf_none_iff decides numbers).mp empty)
    simp only [found, empty, false_or, Option.getD_some, keepBetter]
    split <;> rfl

theorem Summarises.add {numbers : List ℚ} {count : Nat}
    {current : BucketState} (summarises : Summarises numbers count current)
    (point : Point) :
    Summarises
      (numbers ++ ((point.fields field).bind asFloat64).toList) (count + 1)
      (current.add field point) := by
  unfold BucketState.add
  cases (point.fields field).bind asFloat64 with
  | none =>
      rw [Option.toList_none, List.append_nil]
      exact ⟨congrArg (· + 1) summarises.count, summarises.numeric,
        summarises.sum, summarises.min, summarises.max⟩
  | some value =>
      rw [Option.toList_some]
      refine ⟨congrArg (· + 1) summarises.count, ?_, ?_, ?_, ?_⟩
      · rw [List.length_append, List.length_singleton, summarises.numeric]
      · rw [List.sum_append, List.sum_singleton, summarises.sum]
      · rw [keepBetter_getD lower_decides]
        simp only [summarises.numeric, summarises.min, lower,
          decide_eq_true_eq]
      · rw [keepBetter_getD higher_decides]
        simp only [summarises.numeric, summarises.max, higher,
          decide_eq_true_eq]

theorem summarises_foldl (field : Bytes) (points : List Point) :
    Summarises (numbersBy asFloat64 field points) points.length
      (points.foldl (BucketState.add field) .new) := by
  induction points using List.reverseRecOn with
  | nil => exact summarises_new
  | append_singleton points point inductionHypothesis =>
      have next := @Summarises.add field _ _ _ inductionHypothesis point
      rw [List.foldl_append, List.foldl_cons, List.foldl_nil,
        List.length_append, List.length_singleton, numbersBy,
        List.filterMap_append]
      have one : [point].filterMap
          (fun point => (point.fields field).bind asFloat64) =
          ((point.fields field).bind asFloat64).toList := by
        cases found : (point.fields field).bind asFloat64 with
        | none => simp only [List.filterMap_cons, found, List.filterMap_nil,
            Option.toList_none]
        | some value => simp only [List.filterMap_cons, found,
            List.filterMap_nil, Option.toList_some]
      rw [one]
      exact next

theorem Summarises.value_eq {numbers : List ℚ} {count : Nat}
    {current : BucketState} (summarises : Summarises numbers count current)
    (op : Aggregate) : current.value op = definedValue op count numbers := by
  cases op with
  | count => exact congrArg Nat.cast summarises.count
  | sum => exact summarises.sum
  | average =>
      simp only [BucketState.value, definedValue, summarises.numeric,
        summarises.sum, List.length_pos_iff]
      by_cases empty : numbers = []
      · simp only [empty, ne_eq, not_true, if_false, if_true, List.sum_nil]
      · simp only [empty, ne_eq, not_false_eq_true, if_true, if_false]
  | minimum => exact summarises.min
  | maximum => exact summarises.max
  | other code => exact summarises.sum

/-- The points of the bucket that starts at `start` -/
def inBucket (interval start : Int) (points : List Point) : List Point :=
  points.filter fun point => truncate point.timestamp.toInt interval = start

theorem lookup_collect (field : Bytes) (interval start : Int)
    (points : List Point) :
    (collect field interval points).lookup start =
      if inBucket interval start points = [] then none
      else some ((inBucket interval start points).foldl
        (BucketState.add field) .new) := by
  induction points using List.reverseRecOn with
  | nil => rfl
  | append_singleton points point inductionHypothesis =>
      have unfolded : collect field interval (points ++ [point]) =
          (collect field interval points).insert
            (truncate point.timestamp.toInt interval)
            ((((collect field interval points).lookup
              (truncate point.timestamp.toInt interval)).getD .new).add field
                point) := by
        unfold collect
        rw [List.foldl_append, List.foldl_cons, List.foldl_nil]
      rw [unfolded]
      by_cases here : truncate point.timestamp.toInt interval = start
      · subst here
        have joined : inBucket interval
            (truncate point.timestamp.toInt interval) (points ++ [point]) =
            inBucket interval (truncate point.timestamp.toInt interval)
              points ++ [point] := by
          simp only [inBucket, List.filter_append, List.filter_cons,
            decide_true, if_true, List.filter_nil]
        rw [AList.lookup_insert, inductionHypothesis, joined,
          if_neg (List.append_ne_nil_of_right_ne_nil _
            (List.cons_ne_nil _ _)), List.foldl_append, List.foldl_cons,
          List.foldl_nil]
        by_cases empty : inBucket interval
            (truncate point.timestamp.toInt interval) points = []
        · rw [if_pos empty, empty, Option.getD_none, List.foldl_nil]
        · rw [if_neg empty, Option.getD_some]
      · have same : inBucket interval start (points ++ [point]) =
            inBucket interval start points := by
          simp only [inBucket, List.filter_append, List.filter_cons, here,
            decide_false, Bool.false_eq_true, if_false, List.filter_nil,
            List.append_nil]
        rw [AList.lookup_insert_ne (Ne.symm here), inductionHypothesis, same]

theorem mem_keys_collect :
    start ∈ (collect field interval points).keys ↔
      inBucket interval start points ≠ [] := by
  rw [← AList.mem_keys, ← AList.lookup_isSome, lookup_collect]
  by_cases empty : inBucket interval start points = []
  · simp only [empty, if_true, Option.isSome_none, ne_eq, not_true,
      Bool.false_eq_true]
  · simp only [empty, if_false, Option.isSome_some, ne_eq, not_false_eq_true]

theorem bucket_collect (op : Aggregate)
    (nonempty : inBucket interval start points ≠ []) :
    bucket interval op (collect field interval points) start =
      { start := start
        finish := start + interval
        count := (inBucket interval start points).length
        value := definedValue op (inBucket interval start points).length
          (numbersBy asFloat64 field (inBucket interval start points)) } := by
  have summary :=
    summarises_foldl field (inBucket interval start points)
  simp only [bucket, lookup_collect, nonempty, if_false, Option.getD_some,
    summary.count, summary.value_eq]

end State

/-! ## Unsigned integers -/

/-- The numbers that `asFloat64` leaves out -/
def unsignedValue : Value → Option ℚ
  | .scalar (.uint n) => some n.toNat
  | .scalar (.uint32 n) => some n.toNat
  | .scalar (.uint64 n) => some n.toNat
  | _ => none

def KeepsExtreme (le : ℚ → ℚ → Prop) (read unsigned : List ℚ) : Prop :=
  unsigned = [] ∨
    (read = [] ∧ 0 ∈ unsigned ∧ ∀ number ∈ unsigned, le 0 number) ∨
    ∃ best ∈ read, ∀ number ∈ unsigned, le best number

def Harmless (op : Aggregate) (read unsigned : List ℚ) : Prop :=
  match op with
  | .count => True
  | .sum => unsigned.sum = 0
  | .average =>
      unsigned = [] ∨ (read = [] ∧ unsigned.sum = 0) ∨
        (read ≠ [] ∧ read.sum * unsigned.length = unsigned.sum * read.length)
  | .minimum => KeepsExtreme (· ≤ ·) read unsigned
  | .maximum => KeepsExtreme (· ≥ ·) read unsigned
  | .other _ => unsigned.sum = 0

section Numbers

variable {numbers read unsigned : List ℚ}

theorem numericValue_cases (value : Value) :
    (asFloat64 value = numericValue value ∧ unsignedValue value = none) ∨
      (asFloat64 value = none ∧ unsignedValue value = numericValue value) := by
  cases value with
  | scalar inner =>
      cases inner <;> first
        | exact Or.inl ⟨rfl, rfl⟩
        | exact Or.inr ⟨rfl, rfl⟩
  | array items => exact Or.inl ⟨rfl, rfl⟩
  | object fields => exact Or.inl ⟨rfl, rfl⟩
  | unsupported typeName => exact Or.inl ⟨rfl, rfl⟩

theorem numbersBy_perm (field : Bytes) (points : List Point) :
    (numbersBy numericValue field points).Perm
      (numbersBy asFloat64 field points ++
        numbersBy unsignedValue field points) := by
  induction points with
  | nil => exact List.Perm.refl _
  | cons point rest inductionHypothesis =>
      simp only [numbersBy, List.filterMap_cons] at inductionHypothesis ⊢
      cases found : point.fields field with
      | none =>
          simp only [Option.bind_none]
          exact inductionHypothesis
      | some value =>
          simp only [Option.bind_some]
          rcases numericValue_cases value with ⟨same, none⟩ | ⟨none, same⟩
          · rw [same, none]
            cases numericValue value with
            | none => exact inductionHypothesis
            | some number => exact inductionHypothesis.cons number
          · rw [same, none]
            cases numericValue value with
            | none => exact inductionHypothesis
            | some number =>
                exact (inductionHypothesis.cons number).trans
                  List.perm_middle.symm

theorem extreme_eq_iff {better : ℚ → ℚ → Bool} {le : ℚ → ℚ → Prop}
    (decides : Decides better le)
    (mem : ∀ number, number ∈ numbers ↔ number ∈ read ∨ number ∈ unsigned) :
    (bestOf better read).getD 0 = (bestOf better numbers).getD 0 ↔
      KeepsExtreme le read unsigned := by
  have all := bestOf_best decides numbers
  have some := bestOf_best decides read
  by_cases absent : unsigned = []
  · refine iff_of_true ?_ (Or.inl absent)
    rw [bestOf_congr decides fun number => ?_]
    rw [mem, absent]
    simp only [List.not_mem_nil, or_false]
  simp only [KeepsExtreme, absent, false_or]
  cases whole : bestOf better numbers with
  | none =>
      rw [whole] at all
      obtain ⟨number, inside⟩ := List.exists_mem_of_ne_nil _ absent
      have impossible := (mem number).mpr (Or.inr inside)
      rw [show numbers = [] from all] at impossible
      exact absurd impossible List.not_mem_nil
  | some extreme =>
      rw [whole] at all
      obtain ⟨listed, below⟩ := all
      cases part : bestOf better read with
      | none =>
          rw [part] at some
          have empty : read = [] := some
          subst empty
          simp only [List.not_mem_nil, false_or] at mem
          simp only [Option.getD_none, Option.getD_some, true_and,
            List.not_mem_nil, false_and, exists_false, or_false]
          constructor
          · intro zero
            rw [← zero] at listed below
            exact ⟨(mem 0).mp listed,
              fun number inside => below number ((mem number).mpr inside)⟩
          · rintro ⟨zero, lowest⟩
            exact decides.antisymm (lowest extreme ((mem extreme).mp listed))
              (below 0 ((mem 0).mpr zero))
      | some kept =>
          rw [part] at some
          obtain ⟨keptListed, keptBelow⟩ := some
          have nonempty := List.ne_nil_of_mem keptListed
          simp only [Option.getD_some, nonempty, false_and, false_or]
          constructor
          · intro same
            exact ⟨kept, keptListed, fun number inside =>
              same ▸ below number ((mem number).mpr (Or.inr inside))⟩
          · rintro ⟨best, bestListed, bestBelow⟩
            refine decides.antisymm ?_
              (below kept ((mem kept).mpr (Or.inl keptListed)))
            rcases (mem extreme).mp listed with inside | outside
            · exact keptBelow extreme inside
            · exact decides.trans (keptBelow best bestListed)
                (bestBelow extreme outside)

theorem average_eq_iff
    (perm : numbers.Perm (read ++ unsigned)) (count : Nat) :
    definedValue .average count read = definedValue .average count numbers ↔
      Harmless .average read unsigned := by
  have length := perm.length_eq
  have sum := perm.sum_eq
  rw [List.length_append] at length
  rw [List.sum_append] at sum
  by_cases absent : unsigned = []
  · rw [absent, List.append_nil] at perm
    refine iff_of_true ?_ (Or.inl absent)
    simp only [definedValue, perm.sum_eq, perm.length_eq,
      ← List.length_eq_zero_iff]
  have positive : 0 < unsigned.length := List.length_pos_iff.mpr absent
  have nonempty : numbers ≠ [] := by
    rw [← List.length_pos_iff]
    omega
  simp only [definedValue, Harmless, nonempty, if_false, absent, false_or, sum,
    length, Nat.cast_add]
  have unsignedPos : (0 : ℚ) < unsigned.length := by exact_mod_cast positive
  by_cases empty : read = []
  · simp only [empty, if_true, List.sum_nil, zero_add, List.length_nil,
      Nat.cast_zero, true_and, ne_eq, not_true, false_and, or_false]
    rw [eq_comm, div_eq_zero_iff]
    exact or_iff_left unsignedPos.ne'
  · have readPos : (0 : ℚ) < read.length := by
      exact_mod_cast List.length_pos_iff.mpr empty
    simp only [empty, if_false, false_and, ne_eq, not_false_eq_true, true_and,
      false_or]
    rw [div_eq_div_iff readPos.ne' (add_pos readPos unsignedPos).ne', mul_add,
      add_mul, add_left_cancel_iff]

theorem definedValue_eq_iff (op : Aggregate)
    (perm : numbers.Perm (read ++ unsigned)) (count : Nat) :
    definedValue op count read = definedValue op count numbers ↔
      Harmless op read unsigned := by
  have mem : ∀ number,
      number ∈ numbers ↔ number ∈ read ∨ number ∈ unsigned := fun number => by
    rw [perm.mem_iff, List.mem_append]
  have sums : read.sum = numbers.sum ↔ unsigned.sum = 0 := by
    rw [perm.sum_eq, List.sum_append, eq_comm, add_eq_left]
  cases op with
  | count => exact iff_of_true rfl trivial
  | sum => exact sums
  | average => exact average_eq_iff perm count
  | minimum => exact extreme_eq_iff lower_decides mem
  | maximum => exact extreme_eq_iff higher_decides mem
  | other code => exact sums

end Numbers

section Buckets

variable {order : Shuffle Int} {field : Bytes} {interval : Int}
variable {op : Aggregate} {points : List Point}

def starts (order : Shuffle Int) (field : Bytes) (interval : Int)
    (points : List Point) : List Int :=
  (order.arrange (collect field interval points).keys).mergeSort
    fun one two => one ≤ two

theorem starts_perm : (starts order field interval points).Perm
    (collect field interval points).keys :=
  (List.mergeSort_perm _ _).trans (order.perm _)

theorem mem_starts {start : Int} :
    start ∈ starts order field interval points ↔
      ∃ point ∈ points, truncate point.timestamp.toInt interval = start := by
  rw [starts_perm.mem_iff, mem_keys_collect, inBucket, ne_eq,
    List.filter_eq_nil_iff]
  simp only [decide_eq_true_eq, not_forall, not_not, exists_prop]

theorem starts_increasing :
    (starts order field interval points).Pairwise (· < ·) := by
  have trans : ∀ a b c : Int, decide (a ≤ b) = true → decide (b ≤ c) = true →
      decide (a ≤ c) = true := fun a b c first second =>
    decide_eq_true ((of_decide_eq_true first).trans (of_decide_eq_true second))
  have total : ∀ a b : Int, (decide (a ≤ b) || decide (b ≤ a)) = true := by
    intro a b
    simp only [Bool.or_eq_true, decide_eq_true_eq]
    exact le_total a b
  have sorted := List.pairwise_mergeSort trans total
    (order.arrange (collect field interval points).keys)
  have nodup : (starts order field interval points).Nodup :=
    starts_perm.nodup_iff.mpr (AList.keys_nodup _)
  exact (sorted.and nodup).imp fun both =>
    lt_of_le_of_ne (of_decide_eq_true both.1) both.2

def reported (field : Bytes) (interval : Int) (op : Aggregate)
    (points : List Point) (start : Int) : TimeBucket where
  start := start
  finish := start + interval
  count := (inBucket interval start points).length
  value := definedValue op (inBucket interval start points).length
    (numbersBy asFloat64 field (inBucket interval start points))

theorem aggregate_eq (order : Shuffle Int) (field : Bytes) (interval : Int)
    (op : Aggregate) (points : List Point) :
    aggregate order field interval op points =
      (starts order field interval points).map
        (reported field interval op points) := by
  refine List.map_congr_left fun start mem => ?_
  exact bucket_collect op (mem_keys_collect.mp (starts_perm.mem_iff.mp mem))

def TimeBucket.Holds (bucket : TimeBucket) (point : Point) : Prop :=
  bucket.start ≤ point.timestamp.toInt ∧ point.timestamp.toInt < bucket.finish

instance (bucket : TimeBucket) : DecidablePred bucket.Holds :=
  fun _ => inferInstanceAs (Decidable (_ ∧ _))

structure Partitions (interval : Int) (points : List Point)
    (buckets : List TimeBucket) : Prop where
  ordered : buckets.Pairwise fun earlier later =>
    earlier.start < later.start ∧ earlier.finish ≤ later.start
  width : ∀ bucket ∈ buckets, bucket.finish = bucket.start + interval
  nonempty : ∀ bucket ∈ buckets, ∃ point ∈ points, bucket.Holds point
  covered : ∀ point ∈ points, ∃! bucket, bucket ∈ buckets ∧ bucket.Holds point
  counts : ∀ bucket ∈ buckets,
    bucket.count = (points.filter bucket.Holds).length

def Valued (field : Bytes) (op : Aggregate) (points : List Point)
    (buckets : List TimeBucket) : Prop :=
  ∀ bucket ∈ buckets, bucket.value =
    definedValue op (points.filter bucket.Holds).length
      (numbersBy numericValue field (points.filter bucket.Holds))

theorem reported_holds (positive : 0 < interval) {point other : Point} :
    (reported field interval op points
        (truncate other.timestamp.toInt interval)).Holds point ↔
      truncate point.timestamp.toInt interval =
        truncate other.timestamp.toInt interval := by
  constructor
  · rintro ⟨above, below⟩
    exact truncate_eq_of_inside positive above below
  · intro same
    have above := truncate_le (t := point.timestamp.toInt) positive
    have below := lt_truncate_add (t := point.timestamp.toInt) positive
    rw [same] at above below
    exact ⟨above, below⟩

theorem filter_reported (positive : 0 < interval) {start : Int}
    (mem : start ∈ starts order field interval points) :
    points.filter (reported field interval op points start).Holds =
      inBucket interval start points := by
  obtain ⟨other, _, rfl⟩ := mem_starts.mp mem
  exact List.filter_congr fun point _ =>
    decide_eq_decide.mpr (reported_holds positive)

theorem aggregate_partitions (positive : 0 < interval) :
    Partitions interval points (aggregate order field interval op points) := by
  rw [aggregate_eq]
  refine ⟨?_, ?_, ?_, ?_, ?_⟩
  · rw [List.pairwise_map]
    refine starts_increasing.imp_of_mem fun first second lower => ⟨lower, ?_⟩
    obtain ⟨one, _, rfl⟩ := mem_starts.mp first
    obtain ⟨two, _, rfl⟩ := mem_starts.mp second
    exact truncate_apart positive lower
  · intro bucket mem
    obtain ⟨start, _, rfl⟩ := List.mem_map.mp mem
    rfl
  · intro bucket mem
    obtain ⟨start, isStart, rfl⟩ := List.mem_map.mp mem
    obtain ⟨point, inside, rfl⟩ := mem_starts.mp isStart
    exact ⟨point, inside, (reported_holds positive).mpr rfl⟩
  · intro point inside
    refine ⟨reported field interval op points
      (truncate point.timestamp.toInt interval), ⟨?_, ?_⟩, ?_⟩
    · exact List.mem_map_of_mem (mem_starts.mpr ⟨point, inside, rfl⟩)
    · exact (reported_holds positive).mpr rfl
    · rintro bucket ⟨mem, holds⟩
      obtain ⟨start, isStart, rfl⟩ := List.mem_map.mp mem
      obtain ⟨other, _, rfl⟩ := mem_starts.mp isStart
      rw [(reported_holds positive).mp holds]
  · intro bucket mem
    obtain ⟨start, isStart, rfl⟩ := List.mem_map.mp mem
    rw [filter_reported positive isStart]
    rfl

theorem aggregate_valued_iff (positive : 0 < interval) :
    Valued field op points (aggregate order field interval op points) ↔
      ∀ point ∈ points,
        Harmless op
          (numbersBy asFloat64 field (inBucket interval
            (truncate point.timestamp.toInt interval) points))
          (numbersBy unsignedValue field (inBucket interval
            (truncate point.timestamp.toInt interval) points)) := by
  have bucket_iff : ∀ start ∈ starts order field interval points,
      ((reported field interval op points start).value =
        definedValue op (points.filter
            (reported field interval op points start).Holds).length
          (numbersBy numericValue field (points.filter
            (reported field interval op points start).Holds)) ↔
        Harmless op
          (numbersBy asFloat64 field (inBucket interval start points))
          (numbersBy unsignedValue field
            (inBucket interval start points))) := by
    intro start mem
    rw [filter_reported positive mem]
    exact definedValue_eq_iff op (numbersBy_perm field _) _
  rw [aggregate_eq]
  constructor
  · intro valued point inside
    have isStart : truncate point.timestamp.toInt interval ∈
        starts order field interval points :=
      mem_starts.mpr ⟨point, inside, rfl⟩
    exact (bucket_iff _ isStart).mp (valued _ (List.mem_map_of_mem isStart))
  · intro harmless bucket mem
    obtain ⟨start, isStart, rfl⟩ := List.mem_map.mp mem
    obtain ⟨point, inside, rfl⟩ := mem_starts.mp isStart
    exact (bucket_iff _ isStart).mpr (harmless point inside)

/-! ## The order of the points -/

theorem definedValue_perm {numbers others : List ℚ}
    (perm : numbers.Perm others) (op : Aggregate) (count : Nat) :
    definedValue op count numbers = definedValue op count others := by
  have absent : numbers = [] ↔ others = [] := by
    rw [← List.length_eq_zero_iff, perm.length_eq, List.length_eq_zero_iff]
  cases op with
  | count => rfl
  | sum => exact perm.sum_eq
  | average => simp only [definedValue, absent, perm.sum_eq, perm.length_eq]
  | minimum =>
      rw [definedValue, bestOf_congr lower_decides fun _ => perm.mem_iff]
      rfl
  | maximum =>
      rw [definedValue, bestOf_congr higher_decides fun _ => perm.mem_iff]
      rfl
  | other code => exact perm.sum_eq

theorem aggregate_perm {other : Shuffle Int} {others : List Point}
    (perm : others.Perm points) :
    aggregate other field interval op others =
      aggregate order field interval op points := by
  have same : starts other field interval others =
      starts order field interval points := by
    refine starts_increasing.eq_of_mem_iff starts_increasing fun start => ?_
    simp only [mem_starts, perm.mem_iff]
  rw [aggregate_eq, aggregate_eq, same]
  refine List.map_congr_left fun start _ => ?_
  have inside : (inBucket interval start others).Perm
      (inBucket interval start points) := perm.filter _
  simp only [reported, inside.length_eq,
    definedValue_perm (inside.filterMap _) op, numbersBy]

end Buckets

/-! ## One bucket -/

def reading (value : Value) : Point where
  timestamp := 5
  tags := fun _ => none
  fields := fun key => if key = [0x76] then some value else none

def readings : List Point :=
  [reading (.scalar (.int64 2)), reading (.scalar (.uint64 3)),
    reading (.scalar (.int64 4))]

theorem readings_timestamp : ∀ point ∈ readings, point.timestamp = 5 := by
  simp only [readings, reading, List.forall_mem_cons, List.not_mem_nil,
    false_imp_iff, implies_true, and_self]

end CocoDB.TimeSeries
